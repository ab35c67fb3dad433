import Drac.Cameras.PrivateQuota

/-
  The quota of private cameras.

  The cameras of the owner are counted in one query, and the new one is made two awaits later; a
  transfer does not count at all. Between its count and its create a call has a camera to come
  (`pending`), which no other count sees. What an owner has and has to come is `claimed`; the
  check of the counting call keeps it within the quota where nothing else is to come.
-/

namespace Drac.Cameras.PrivateQuota

open Access (Id CameraPermissionLevel)
open Runs

variable {s t : System} {a : Label} {i : Nat} {c : Call} {owner : Id}

/-! ## The property and the condition -/

/-- Nobody has more private cameras than the group allows. -/
def Within (s : System) : Prop :=
  ∀ owner, (ownerGroup s owner).isSome = true →
    ((getPrivateCameraQuota s owner none).used : Int) ≤ (getPrivateCameraQuota s owner none).limit

/-- The service with no calls, over any tables within the quota. -/
def quotaMachine : Machine System Label where
  init s := s.calls = [] ∧ Within s
  step := step

/-- A call that has counted the cameras of the owner and is to make one more. -/
def isPending (owner : Id) (c : Call) : Bool :=
  match c.request, c.phase with
  | .create user _, .validating _ | .create user _, .creating _ => user = owner
  | _, _ => false

def pending (s : System) (owner : Id) : Nat := s.calls.countP (isPending owner)

/-- The private cameras of an owner, with those to come. -/
def claimed (s : System) (owner : Id) : Nat := usedBy s owner + pending s owner

/-- Whom a transfer gives a private camera that is not theirs. -/
def receiver (s : System) (c : Call) : Option Id :=
  match c.request, c.phase with
  | .transfer id nextOwner, .transferring _ =>
    if (s.cameras[id]?).any (fun row => row.isPrivate && row.ownerUserId ≠ some nextOwner) then
      some nextOwner
    else none
  | _, _ => none

/-- Whose cameras a call counts. -/
def counts (c : Call) : Option Id :=
  match c.request, c.phase with
  | .create owner _, .counting _ _ => some owner
  | _, _ => none

def hasRoom (s : System) (owner : Id) : Bool :=
  (ownerGroup s owner).isNone || claimed s owner < (getPrivateCameraQuota s owner none).limit

def inTurn (s : System) : Label → Bool
  | .advance i => (s.calls[i]?).all (fun c =>
    (counts c).all (fun owner => pending s owner = 0) && (receiver s c).all (hasRoom s))
  | _ => true

/-- An owner's cameras are counted only while none of theirs is to come, and a camera is
handed only to an owner with room for it. -/
def InTurn (s : System) (a : Label) : Prop := inTurn s a = true

/-! ## Steps -/

/-- The owner for whom a step lays claim to one more camera: a count within the quota of the
call does, and a transfer. -/
def claimsOf (s : System) (c : Call) : Option Id :=
  match c.request, c.phase with
  | .create owner _, .counting _ quotaGroupId =>
    if limitOf s quotaGroupId ≤ usedBy s owner then none else some owner
  | _, _ => receiver s c

def claims (s : System) : Label → Option Id
  | .advance i => (s.calls[i]?).bind (claimsOf s)
  | _ => none

/-- What a call counts against is the quota of its owner's group. -/
def CountsRight (s : System) (c : Call) : Prop :=
  ∀ owner dtoGroupId groupId quotaGroupId,
    c = ⟨.create owner dtoGroupId, .counting groupId quotaGroupId⟩ →
      (ownerGroup s owner).isSome = true → quotaGroupId = ownerGroup s owner

/-- What a step leaves: the groups and who administers them, and nobody's claims but those
of `claimant` greater, by one. -/
structure Moves (s : System) (claimant : Option Id) (t : System) : Prop where
  groups : t.groups = s.groups
  ownerGroup : ∀ owner, ownerGroup t owner = ownerGroup s owner
  claimed : ∀ owner,
    claimed t owner ≤ claimed s owner + (decide (claimant = some owner)).toNat
  calls : ∀ c ∈ t.calls, c ∈ s.calls ∨ CountsRight s c

theorem countP_set {α : Type} {p : α → Bool} {l : List α} {k : Nat} {x : α} (y : α)
    (h : l[k]? = some x) :
    (l.set k y).countP p + (p x).toNat = l.countP p + (p y).toNat := by
  induction l generalizing k with
  | nil => cases h
  | cons z l ih =>
    cases k with
    | zero =>
      obtain rfl := Option.some.inj h
      rw [List.set_cons_zero, List.countP_cons, List.countP_cons]
      cases p z <;> cases p y <;> simp
    | succ k =>
      have hrest := ih (k := k) h
      rw [List.set_cons_succ, List.countP_cons, List.countP_cons]
      omega

theorem modify_eq_set {α : Type} {f : α → α} {l : List α} {k : Nat} {x : α} (h : l[k]? = some x) :
    l.modify k f = l.set k (f x) := by
  apply List.ext_getElem?
  intro j
  rw [List.getElem?_modify, List.getElem?_set]
  by_cases hj : k = j
  · subst hj
    obtain ⟨hlt, rfl⟩ := List.getElem?_eq_some_iff.mp h
    simp [hlt]
  · simp [hj]

theorem pending_goTo (hget : s.calls[i]? = some c) (phase : Phase) (owner : Id) :
    pending (s.goTo i c phase) owner + (isPending owner c).toNat =
      pending s owner + (isPending owner { c with phase := phase }).toNat :=
  countP_set _ hget

theorem countsRight_other (h : counts c = none) : CountsRight s c := by
  rintro owner dtoGroupId groupId quotaGroupId rfl
  cases h

theorem calls_set {next : Call} (h : CountsRight s next) :
    ∀ c ∈ s.calls.set i next, c ∈ s.calls ∨ CountsRight s c := by
  intro c hmem
  rcases List.mem_or_eq_of_mem_set hmem with hold | rfl
  · exact .inl hold
  · exact .inr h

theorem moves_goTo (hget : s.calls[i]? = some c) {phase : Phase} {claimant : Option Id}
    (hpending : ∀ owner, (isPending owner { c with phase := phase }).toNat ≤
      (isPending owner c).toNat + (decide (claimant = some owner)).toNat)
    (hcounts : CountsRight s { c with phase := phase }) :
    Moves s claimant (s.goTo i c phase) := by
  refine ⟨rfl, fun _ => rfl, ?_, calls_set hcounts⟩
  intro owner
  have hp := pending_goTo hget phase owner
  have hle := hpending owner
  have hused : usedBy (s.goTo i c phase) owner = usedBy s owner := rfl
  unfold claimed
  omega

theorem adminOf_camera {p : CameraPermission} {id : Nat} (h : p.target = .camera id) (owner : Id) :
    adminOf owner p = none := by
  unfold adminOf
  rw [h]

theorem findSome?_filter_none {α β : Type} {f : α → Option β} {keep : α → Bool} {l : List α}
    (h : ∀ x ∈ l, keep x = false → f x = none) : (l.filter keep).findSome? f = l.findSome? f := by
  induction l with
  | nil => rfl
  | cons x l ih =>
    have hrest := ih (fun y hy => h y (List.mem_cons_of_mem _ hy))
    rw [List.filter_cons, List.findSome?_cons]
    cases hkeep : keep x with
    | true => rw [if_pos rfl, List.findSome?_cons, hrest]
    | false =>
      rw [if_neg Bool.false_ne_true, hrest, h x List.mem_cons_self hkeep]

theorem ownerGroup_transfer (s : System) (id : Nat) (camera : Camera) (nextOwner owner : Id) :
    ownerGroup (transfer s id camera nextOwner) owner = ownerGroup s owner := by
  unfold ownerGroup transfer
  dsimp only
  have hkept : (s.permissions.filter (fun p =>
      !(camera.ownerUserId = some p.userId && p.target = .camera id))).findSome? (adminOf owner) =
      s.permissions.findSome? (adminOf owner) := by
    apply findSome?_filter_none
    intro p _ hp
    simp only [Bool.not_eq_false', Bool.and_eq_true, decide_eq_true_eq] at hp
    exact adminOf_camera hp.2 owner
  split
  · rw [List.findSome?_map, ← hkept]
    congr 1
    funext p
    rw [Function.comp_apply]
    split
    · next hgrant =>
      simp only [Bool.and_eq_true, decide_eq_true_eq] at hgrant
      have hother : ({ p with level := .admin } : CameraPermission).target = .camera id := hgrant.2
      rw [adminOf_camera hother, adminOf_camera hgrant.2]
    · rfl
  · rw [List.findSome?_append, hkept, List.findSome?_singleton, adminOf_camera rfl, Option.or_none]

theorem usedBy_transfer (s : System) (id : Nat) (camera : Camera) (nextOwner owner : Id) :
    usedBy (transfer s id camera nextOwner) owner ≤ usedBy s owner +
      (decide ((if (s.cameras[id]?).any (fun row => row.isPrivate && row.ownerUserId ≠ some nextOwner)
        then some nextOwner else none) = some owner)).toNat := by
  unfold usedBy transfer
  dsimp only
  cases hrow : s.cameras[id]? with
  | none =>
    rw [List.modify_eq_self (List.getElem?_eq_none_iff.mp hrow)]
    exact Nat.le_add_right _ _
  | some row =>
    have hc := countP_set (p := owns owner) { row with ownerUserId := some nextOwner } hrow
    rw [modify_eq_set hrow]
    rw [Option.any_some]
    by_cases hnext : nextOwner = owner
    · subst hnext
      cases hprivate : row.isPrivate with
      | false =>
        simp only [owns, hprivate, Bool.false_and] at hc
        omega
      | true =>
        by_cases hold : row.ownerUserId = some nextOwner
        · simp only [owns, hprivate, hold] at hc
          omega
        · simp [owns, hprivate, hold] at hc ⊢
          omega
    · have hother : owns owner { row with ownerUserId := some nextOwner } = false := by
        simp [owns, hnext]
      rw [hother, Bool.toNat_false] at hc
      omega

theorem moves_advanceCreate {dtoGroupId : Option Id} (hget : s.calls[i]? = some c)
    (hrequest : c.request = .create owner dtoGroupId)
    (h : advanceCreate s i c owner dtoGroupId = some t) : Moves s (claimsOf s c) t := by
  obtain ⟨request, phase⟩ := c
  dsimp only at hrequest
  subst hrequest
  cases phase with
  | findingGroup =>
    cases h
    refine moves_goTo hget (fun _ => ?_) ?_
    · dsimp only
      split <;> exact Nat.zero_le _
    · intro owner' dto groupId quotaGroupId heq hgroup
      dsimp only at heq
      split at heq
      · cases heq
        obtain ⟨g, hg⟩ := Option.isSome_iff_exists.mp hgroup
        rw [hg, Option.some_or]
      · cases heq
  | findingQuotaGroup =>
    cases h
    refine moves_goTo hget (fun _ => Nat.zero_le _) ?_
    intro owner' dto groupId quotaGroupId heq _
    cases heq
    rfl
  | counting groupId quotaGroupId =>
    cases h
    by_cases hfull : limitOf s quotaGroupId ≤ usedBy s owner
    · dsimp only
      rw [if_pos hfull]
      exact moves_goTo hget (fun _ => Nat.zero_le _) (countsRight_other rfl)
    · dsimp only
      rw [if_neg hfull]
      refine moves_goTo hget (fun owner' => ?_) (countsRight_other rfl)
      simp [claimsOf, hfull, isPending]
  | validating groupId =>
    cases h
    refine moves_goTo hget (fun owner' => ?_) ?_
    · dsimp only
      split
      · exact Nat.le_add_right _ _
      · exact Nat.zero_le _
    · intro owner' dto groupId' quotaGroupId heq
      dsimp only at heq
      split at heq <;> cases heq
  | creating groupId =>
    cases h
    refine ⟨rfl, fun _ => rfl, ?_, calls_set (countsRight_other rfl)⟩
    intro owner'
    -- the camera that was to come is there
    have hp := pending_goTo hget (.granting s.cameras.length) owner'
    have hmade : usedBy (({ s with
        cameras := s.cameras ++ [⟨groupId, true, some owner⟩] } : System).goTo i
          ⟨.create owner dtoGroupId, .creating groupId⟩ (.granting s.cameras.length)) owner' =
        usedBy s owner' + (owns owner' ⟨groupId, true, some owner⟩).toNat := by
      unfold usedBy System.goTo
      rw [List.countP_append, List.countP_singleton]
      cases owns owner' ⟨groupId, true, some owner⟩ <;> rfl
    have hcame : owns owner' ⟨groupId, true, some owner⟩ =
        isPending owner' ⟨.create owner dtoGroupId, .creating groupId⟩ := by
      simp [owns, isPending]
    have hgone : isPending owner' ⟨.create owner dtoGroupId, .granting s.cameras.length⟩ = false :=
      rfl
    rw [hcame] at hmade
    rw [hgone] at hp
    unfold claimed
    rw [hmade]
    change _ + pending (s.goTo i _ _) owner' ≤ _
    simp only [Bool.toNat_false] at hp
    omega
  | granting camera =>
    cases h
    have hmoves : Moves s none (s.goTo i ⟨.create owner dtoGroupId, .granting camera⟩ .done) :=
      moves_goTo hget (fun _ => Nat.zero_le _) (countsRight_other rfl)
    refine ⟨rfl, ?_, hmoves.claimed, hmoves.calls⟩
    intro owner'
    unfold ownerGroup System.goTo
    rw [List.findSome?_append, List.findSome?_singleton, adminOf_camera rfl, Option.or_none]
  | readingCamera | findingOwner | transferring | done | refused | failed => cases h

theorem moves_advanceTransfer {id : Nat} {ownerUserId : Id} (hget : s.calls[i]? = some c)
    (hrequest : c.request = .transfer id ownerUserId)
    (h : advanceTransfer s i c id ownerUserId = some t) : Moves s (claimsOf s c) t := by
  obtain ⟨request, phase⟩ := c
  dsimp only at hrequest
  subst hrequest
  have hplain (next : Phase) (claimant : Option Id) :
      Moves s claimant (s.goTo i ⟨.transfer id ownerUserId, phase⟩ next) :=
    moves_goTo hget (fun _ => Nat.zero_le _) (countsRight_other rfl)
  cases phase with
  | transferring camera =>
    cases h
    refine ⟨rfl, ownerGroup_transfer s id camera ownerUserId, ?_,
      (hplain .done none).calls⟩
    intro owner
    have hused := usedBy_transfer s id camera ownerUserId owner
    have hp := pending_goTo hget .done owner
    have hnone (phase : Phase) : isPending owner ⟨.transfer id ownerUserId, phase⟩ = false := rfl
    rw [hnone, hnone] at hp
    unfold claimed
    change usedBy (transfer s id camera ownerUserId) owner +
      pending (s.goTo i _ .done) owner ≤ _
    rw [Nat.add_right_cancel hp]
    calc usedBy (transfer s id camera ownerUserId) owner + pending s owner
        ≤ usedBy s owner + _ + pending s owner := Nat.add_le_add_right hused _
      _ = usedBy s owner + pending s owner + _ := Nat.add_right_comm _ _ _
  | readingCamera =>
    dsimp only [advanceTransfer] at h
    split at h <;> cases h <;> exact hplain _ _
  | findingOwner camera =>
    dsimp only [advanceTransfer] at h
    split at h <;> cases h <;> exact hplain _ _
  | findingGroup | findingQuotaGroup | counting | validating | creating | granting | done | refused
  | failed => cases h

/-- **What a step does to everybody's claims.** -/
theorem step_moves (h : step s a = some t) : Moves s (claims s a) t := by
  have hnew (c : Call) (hc : counts c = none) (hp : ∀ owner, isPending owner c = false) :
      Moves s none { s with calls := s.calls ++ [c] } := by
    refine ⟨rfl, fun _ => rfl, fun owner => ?_, ?_⟩
    · unfold claimed pending usedBy
      rw [List.countP_append, List.countP_singleton, hp]
      exact Nat.le_refl _
    · intro c' hmem
      rcases List.mem_append.mp hmem with hold | hlast
      · exact .inl hold
      · rw [List.mem_singleton.mp hlast]
        exact .inr (countsRight_other hc)
  cases a with
  | create owner groupId =>
    cases h
    exact hnew _ rfl (fun _ => rfl)
  | transfer id ownerUserId =>
    cases h
    exact hnew _ rfl (fun _ => rfl)
  | advance i =>
    obtain ⟨c, hget, hc⟩ := Option.bind_eq_some_iff.mp h
    have hclaims : claims s (.advance i) = claimsOf s c := by
      show (s.calls[i]?).bind (claimsOf s) = claimsOf s c
      rw [hget]
      rfl
    rw [hclaims]
    cases hrequest : c.request with
    | create owner groupId =>
      unfold advance at hc
      rw [hrequest] at hc
      exact moves_advanceCreate hget hrequest hc
    | transfer id ownerUserId =>
      unfold advance at hc
      rw [hrequest] at hc
      exact moves_advanceTransfer hget hrequest hc
  | giveUp i =>
    obtain ⟨c, hget, rfl⟩ := Option.map_eq_some_iff.mp h
    exact moves_goTo hget (fun owner => by cases c.request <;> exact Nat.zero_le _)
      (countsRight_other (by cases c.request <;> rfl))

/-- Nobody of a group has more cameras, those to come included, than the quota, and each call
counts against the right one. -/
structure Kept (s : System) : Prop where
  claimed : ∀ owner, (ownerGroup s owner).isSome = true →
    (claimed s owner : Int) ≤ limitOf s (ownerGroup s owner)
  calls : ∀ c ∈ s.calls, CountsRight s c

theorem limitOf_eq {claimant : Option Id} (h : Moves s claimant t) (groupId : Option Id) :
    limitOf t groupId = limitOf s groupId := by
  unfold limitOf
  rw [h.groups]

/-- Who lays claim to one more has room for it: the count says so, if nothing else is to come. -/
theorem room_of_claims (hkept : Kept s) (hguard : InTurn s a) (hclaims : claims s a = some owner)
    (hgroup : (ownerGroup s owner).isSome = true) :
    (claimed s owner : Int) < limitOf s (ownerGroup s owner) := by
  cases a with
  | create | transfer | giveUp => cases hclaims
  | advance i =>
    obtain ⟨c, hget, hc⟩ := Option.bind_eq_some_iff.mp hclaims
    unfold InTurn inTurn at hguard
    dsimp only at hguard
    rw [hget, Option.all_some, Bool.and_eq_true] at hguard
    obtain ⟨hcounted, hroom⟩ := hguard
    have hreceives (h : receiver s c = some owner) :
        (claimed s owner : Int) < limitOf s (ownerGroup s owner) := by
      rw [h, Option.all_some] at hroom
      unfold hasRoom at hroom
      rw [Option.isNone_eq_false_iff.mpr hgroup, Bool.false_or, decide_eq_true_eq] at hroom
      exact hroom
    obtain ⟨request, phase⟩ := c
    unfold claimsOf at hc
    split at hc
    · next user dtoGroupId groupId quotaGroupId hrequest hphase =>
      dsimp only at hrequest hphase
      subst hrequest hphase
      obtain ⟨hfits, hsame⟩ := Option.ite_none_left_eq_some.mp hc
      obtain rfl := Option.some.inj hsame
      have hquota := hkept.calls _ (List.mem_of_getElem? hget) _ _ _ _ rfl hgroup
      have hnone : pending s user = 0 := by simpa [counts] using hcounted
      unfold claimed
      rw [hnone, Nat.add_zero, ← hquota]
      exact Int.not_le.mp hfits
    · exact hreceives hc

theorem kept_step (hkept : Kept s) (hguard : InTurn s a) (h : step s a = some t) : Kept t := by
  have hmoves := step_moves h
  refine ⟨fun owner hgroup => ?_, fun c hc => ?_⟩
  · rw [hmoves.ownerGroup] at hgroup ⊢
    rw [limitOf_eq hmoves]
    have hle := hmoves.claimed owner
    have hbefore := hkept.claimed owner hgroup
    by_cases hclaims : claims s a = some owner
    · have hroom := room_of_claims hkept hguard hclaims hgroup
      rw [decide_eq_true hclaims, Bool.toNat_true] at hle
      omega
    · rw [decide_eq_false hclaims, Bool.toNat_false] at hle
      omega
  · intro owner dtoGroupId groupId quotaGroupId heq hgroup
    rw [hmoves.ownerGroup] at hgroup ⊢
    rcases hmoves.calls c hc with hold | hright
    · exact hkept.calls c hold _ _ _ _ heq hgroup
    · exact hright _ _ _ _ heq hgroup

/-! ## Runs -/

/-- **The quota is kept.** In a run in which the creates of an owner take turns and a transfer
finds room at the new owner's, nobody of a group owns more private cameras than the quota. -/
theorem quota_kept (t : System) (ht : Reach quotaMachine InTurn t) : Within t := by
  have hkept : Kept t := by
    refine ht.invariant (I := Kept) ?_ (fun _ _ _ hs hguard hstep => kept_step hs hguard hstep)
    rintro s ⟨hcalls, hs⟩
    have hnone (owner : Id) : claimed s owner = usedBy s owner := by
      unfold claimed pending
      rw [hcalls]
      rfl
    refine ⟨fun owner hgroup => ?_, ?_⟩
    · rw [hnone]
      exact hs owner hgroup
    · simp [hcalls]
  intro owner hgroup
  have hle := hkept.claimed owner hgroup
  have hused : usedBy t owner ≤ claimed t owner := Nat.le_add_right _ _
  exact Int.le_trans (Int.ofNat_le.mpr hused) hle

def ana : Id := ⟨"ana", by decide⟩

def shop : Id := ⟨"shop", by decide⟩

def oneCamera : System where
  cameras := []
  permissions := [{ userId := ana, target := .group shop, level := .admin }]
  groups := [{ id := shop, maxPrivateCameras := 1 }]
  users := [{ id := ana, isActive := true }]

theorem oneCamera_init : quotaMachine.init oneCamera := by
  refine ⟨rfl, ?_⟩
  intro owner _
  exact Int.le_max_left 0 _

/-- One camera after another: the second is refused. -/
theorem quota_kept_in_turn : ∃ t, Reach quotaMachine InTurn t ∧ usedBy t ana = 1 ∧ Within t := by
  have hrun : (quotaMachine.run inTurn oneCamera
      (.create ana none :: List.replicate 5 (.advance 0) ++
        .create ana none :: List.replicate 2 (.advance 1))).map (fun t => usedBy t ana) = some 1 := by
    decide +kernel
  obtain ⟨t, hreach, hone⟩ := reach_of_run (G := InTurn) hrun oneCamera_init (fun _ _ h => h)
  exact ⟨t, hreach, hone, quota_kept t hreach⟩

/-- Two cameras side by side: both are counted before either is made. -/
theorem two_at_once : ¬ ∀ t, Reach quotaMachine Always t → Within t := by
  have hrun : (quotaMachine.run anyStep oneCamera
      (.create ana none :: .create ana none :: List.replicate 3 (.advance 0) ++
        List.replicate 3 (.advance 1) ++ [.advance 0, .advance 1])).map
      (fun t => decide ((ownerGroup t ana).isSome = true ∧
        (getPrivateCameraQuota t ana none).limit < (getPrivateCameraQuota t ana none).used)) =
      some true := by
    decide +kernel
  obtain ⟨t, hreach, heq⟩ := reach_of_anyStep hrun oneCamera_init
  obtain ⟨hgroup, hmore⟩ := of_decide_eq_true heq
  intro hwithin
  have hle := hwithin t hreach ana hgroup
  omega

end Drac.Cameras.PrivateQuota
