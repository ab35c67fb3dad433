import Drac.Lib.Runs
import Drac.Central.PlanTokens

/-
  Leases with fencing tokens, and fencing over chains of plans.

  Correspondence (`leases.js` ↔ Lean):
    findAssignment, checkFencing, maxIssuedToken, tokensAreMonotonic ↔ the same names

  A chain is what the control plane produces: each plan is made from the one
  before it, the first from nothing (`planChain`). Over a chain of any length the
  plans' tables are a history of fencing tokens (`chain_history`), from which
  `chain_fenced` reads what `checkFencing` relies on and `chain_tokensAreMonotonic`
  that each plan passes `tokensAreMonotonic` after the one before it.
-/

namespace Drac.Central

open JsText FencingTokens Runs

/-! ## Checking a claim -/

/-- Why a claim is refused. -/
inductive FencingReason where
  | noPlan
  | unknownCamera
  | invalidClaim
  | staleToken
  | futureToken
  | wrongNode
  | leaseExpired
  | ok
  deriving DecidableEq, Repr

/-- What a node says of itself: "I own this camera, with this token". A token is
`none` where `Number` of it is not finite, and an instant where it is none. -/
structure Claim where
  cameraId : Option String
  nodeId : Option String
  token : Option ℚ
  now : Option Int := none

structure FencingVerdict where
  accepted : Bool
  reason : FencingReason
  current : Option Assignment
  deriving DecidableEq

/-- `String(value ?? '').trim()`. -/
def readId (value : Option String) : String := trim (value.getD "")

def findAssignment (plan : Plan) (cameraId : Option String) : Option Assignment :=
  if readId cameraId = "" then none
  else plan.assignments.find? (fun a => a.cameraId = readId cameraId)

def refuse (reason : FencingReason) (current : Option Assignment) : FencingVerdict :=
  ⟨false, reason, current⟩

def checkFencing (plan : Option Plan) (claim : Claim) : FencingVerdict :=
  match plan with
  | none => refuse .noPlan none
  | some plan =>
    match claim.token with
    | none => refuse .invalidClaim none
    | some token =>
      if readId claim.cameraId = "" ∨ readId claim.nodeId = "" then refuse .invalidClaim none
      else
        match findAssignment plan claim.cameraId with
        | none => refuse .unknownCamera none
        | some current =>
          if token < current.token then refuse .staleToken (some current)
          else if (current.token : ℚ) < token then refuse .futureToken (some current)
          else if current.nodeId ≠ readId claim.nodeId then refuse .wrongNode (some current)
          -- without an instant the expiry is not looked at
          else if claim.now.any (current.leaseExpiresAt ≤ ·) then refuse .leaseExpired (some current)
          else ⟨true, .ok, some current⟩

theorem checkFencing_accepted {plan : Plan} {claim : Claim}
    (h : (checkFencing (some plan) claim).accepted = true) :
    ∃ a ∈ plan.assignments, a.cameraId = readId claim.cameraId ∧ a.nodeId = readId claim.nodeId ∧
      claim.token = some (a.token : ℚ) ∧ findAssignment plan claim.cameraId = some a := by
  unfold checkFencing at h
  simp only at h
  split at h
  · cases h
  · next token htoken =>
    split at h
    · cases h
    · next hids =>
      split at h
      · cases h
      · next a hfind =>
        split at h
        · cases h
        · next hge =>
          split at h
          · cases h
          · next hle =>
            split at h
            · cases h
            · next hnode =>
              have hmem : plan.assignments.find? (fun a => a.cameraId = readId claim.cameraId) =
                  some a := by
                rw [findAssignment, if_neg (fun he => hids (.inl he))] at hfind
                exact hfind
              have hcam := List.find?_some hmem
              simp only [decide_eq_true_eq] at hcam
              refine ⟨a, List.mem_of_find?_eq_some hmem, hcam, not_not.mp hnode, ?_, hfind⟩
              rw [htoken, le_antisymm (not_lt.mp hle) (not_lt.mp hge)]

/-! ## Monotonic tokens -/

/-- The greatest token a plan mentions, as assigned or as revoked. -/
def maxIssuedToken (plan : Option Plan) : Nat :=
  match plan with
  | none => 0
  | some plan =>
    (plan.revoked.filterMap (·.token)).foldl max ((plan.assignments.map (·.token)).foldl max 0)

/-- Whether a plan keeps the tokens of the owners it keeps, and gives every new
owner one above all those of the plan before it. -/
def tokensAreMonotonic (previous next : Option Plan) : Bool :=
  match next with
  | none => false
  | some next =>
    let before := (previous.elim [] (·.assignments)).foldl
      (fun m a => JsMap.set m a.cameraId a) ([] : List (String × Assignment))
    next.assignments.all (fun a =>
      0 < a.token &&
        match JsMap.get? before a.cameraId with
        | some b => if b.nodeId = a.nodeId then a.token = b.token else maxIssuedToken previous < a.token
        | none => maxIssuedToken previous < a.token)

/-! ## Chains of plans -/

/-- The chain so far, oldest plan first: the next plan is made from its last. -/
def planChain : Machine (List Plan) PlanInput where
  init plans := plans = []
  step plans input :=
    match planAssignments input (plans.getLast?.elim .absent Plan.asPrevious) with
    | .ok plan => some (plans ++ [plan])
    | .error _ => none

/-- Camera `c` is on node `n` under token `x` in the `i`-th plan. -/
def Owns (plans : List Plan) (i : Nat) (c n : String) (x : Nat) : Prop :=
  ∃ p, plans[i]? = some p ∧ ∃ a ∈ p.assignments, a.cameraId = c ∧ a.nodeId = n ∧ a.token = x

/-- Camera `c` is on node `n` in every plan from the `i`-th to the `j`-th: one
ownership covers them. -/
def OwnedThrough (plans : List Plan) (c n : String) (i j : Nat) : Prop :=
  ∀ l, i ≤ l → l ≤ j → ∃ x, Owns plans l c n x

/-- The claim is one of node `n` to camera `c` with token `x`, however its ids are
spaced and whatever its clock says. -/
def Claim.Of (claim : Claim) (c n : String) (x : Nat) : Prop :=
  readId claim.cameraId = c ∧ readId claim.nodeId = n ∧ claim.token = some (x : ℚ)

/-- What fencing promises over a chain of plans. -/
structure Fenced (plans : List Plan) : Prop where
  /-- A token is issued for one ownership only. -/
  one_ownership : ∀ {i j c c' n n' x}, i ≤ j → Owns plans i c n x → Owns plans j c' n' x →
    c = c' ∧ n = n' ∧ OwnedThrough plans c n i j
  /-- A retained assignment keeps its token. -/
  retained : ∀ {i c n x y}, Owns plans i c n x → Owns plans (i + 1) c n y → y = x
  /-- A new ownership's token exceeds every token issued in an earlier plan. -/
  new_greater : ∀ {i j c c' n n' x y}, i < j → Owns plans j c n x →
    (∀ z, ¬ Owns plans (j - 1) c n z) → Owns plans i c' n' y → y < x
  /-- A claim whose ownership has ended is refused in every later plan. -/
  ended_refused : ∀ {i k j c n x p claim}, i ≤ k → k ≤ j → Owns plans i c n x →
    (∀ z, ¬ Owns plans k c n z) → plans[j]? = some p → Claim.Of claim c n x →
    (checkFencing (some p) claim).accepted = false
  /-- In every plan the accepted claims to a camera are one node's. -/
  one_node : ∀ {p claim claim'}, p ∈ plans → readId claim.cameraId = readId claim'.cameraId →
    (checkFencing (some p) claim).accepted = true → (checkFencing (some p) claim').accepted = true →
    readId claim.nodeId = readId claim'.nodeId

/-! ## A chain is a history of tokens -/

/-- What every reachable chain is: well-formed plans whose tables are a history. -/
structure ChainInv (plans : List Plan) : Prop where
  wellFormed : ∀ p ∈ plans, p.WellFormed
  history : History (plans.map Plan.table)

theorem represents_last {plans : List Plan} (h : ∀ p ∈ plans, p.WellFormed) :
    Represents (normalizePrevious (plans.getLast?.elim .absent Plan.asPrevious))
      (before (plans.map Plan.table) plans.length) := by
  rcases List.eq_nil_or_concat plans with rfl | ⟨init, p, rfl⟩
  · exact represents_absent
  · have hlast : before ((init.concat p).map Plan.table) (init.concat p).length = p.table := by
      simp [before]
    rw [hlast]
    simpa using represents_asPrevious (h p (by simp))

theorem history_append {κ ν : Type} {ts : List (Table κ ν)} {t : Table κ ν} (h : History ts)
    (ht : Issue (before ts ts.length) t) : History (ts ++ [t]) := by
  -- the tables before an index within the list are those of the list itself
  have hbefore : ∀ i, i ≤ ts.length → before (ts ++ [t]) i = before ts i := by
    intro i hi
    cases i with
    | zero => rfl
    | succ i => simp [before, List.getElem?_append_left (show i < ts.length by omega)]
  intro i s hs
  rcases Nat.lt_trichotomy i ts.length with hlt | rfl | hgt
  · rw [List.getElem?_append_left hlt] at hs
    rw [hbefore i (Nat.le_of_lt hlt)]
    exact h i s hs
  · rw [hbefore _ (Nat.le_refl _)]
    obtain rfl : t = s := by simpa using hs
    exact ht
  · rw [List.getElem?_eq_none (by simp; omega)] at hs
    cases hs

theorem chainInv_step {plans plans' : List Plan} {input : PlanInput} (h : ChainInv plans)
    (hs : planChain.step plans input = some plans') : ChainInv plans' := by
  simp only [planChain] at hs
  split at hs
  · next q hq =>
    cases hs
    obtain ⟨hissue, hwf⟩ := planAssignments_issue (represents_last h.wellFormed) hq
    constructor
    · intro p hp
      rcases List.mem_append.mp hp with hp | hp
      · exact h.wellFormed p hp
      · exact List.mem_singleton.mp hp ▸ hwf
    · rw [List.map_append, List.map_singleton]
      exact history_append h.history (by simpa using hissue)
  · cases hs

/-- **Every chain of plans is a history of fencing tokens.** -/
theorem chain_history {plans : List Plan} (h : Reach planChain Always plans) :
    ChainInv plans := by
  refine h.invariant ?_ (fun _ _ _ hi _ hs => chainInv_step hi hs)
  rintro _ rfl
  exact ⟨by simp, fun i t ht => by simp at ht⟩

/-! ## Fencing over chains -/

theorem accepted_owns {j : Nat} {p : Plan} {claim : Claim} {c n : String} {x : Nat}
    (hp : plans[j]? = some p) (hof : claim.Of c n x)
    (hacc : (checkFencing (some p) claim).accepted = true) : Owns plans j c n x := by
  obtain ⟨a, ha, hcam, hnode, htoken, -⟩ := checkFencing_accepted hacc
  obtain ⟨rfl, rfl, hx⟩ := hof
  refine ⟨p, hp, a, ha, hcam, hnode, ?_⟩
  rw [htoken, Option.some.injEq] at hx
  exact_mod_cast hx

section Fencing

variable {plans : List Plan} (h : ChainInv plans)
include h

theorem owns_iff {i : Nat} {c n : String} {x : Nat} :
    Owns plans i c n x ↔ Holds (plans.map Plan.table) i c n x := by
  constructor
  · rintro ⟨p, hp, a, ha, rfl, rfl, rfl⟩
    refine ⟨p.table, by simp [hp], ?_⟩
    -- a camera has one assignment, so the first found is this one
    have hnd := (h.wellFormed p (List.mem_of_getElem? hp)).cameras
    have hfind : p.assignments.find? (fun b => b.cameraId = a.cameraId) = some a := by
      cases hf : p.assignments.find? (fun b => b.cameraId = a.cameraId) with
      | none => simpa using List.find?_eq_none.mp hf a ha
      | some b =>
        have hb := List.find?_some hf
        simp only [decide_eq_true_eq] at hb
        rw [List.inj_on_of_nodup_map hnd (List.mem_of_find?_eq_some hf) ha hb]
    simp [Plan.table, hfind]
  · rintro ⟨t, ht, hx⟩
    rw [List.getElem?_map, Option.map_eq_some_iff] at ht
    obtain ⟨p, hp, rfl⟩ := ht
    exact ⟨p, hp, Plan.table_holder hx⟩

theorem chain_one_ownership {i j : Nat} {c c' n n' : String} {x : Nat} (hij : i ≤ j)
    (hi : Owns plans i c n x) (hj : Owns plans j c' n' x) :
    c = c' ∧ n = n' ∧ OwnedThrough plans c n i j := by
  rw [owns_iff h] at hi hj
  obtain ⟨rfl, rfl, hthrough⟩ := h.history.same_hold hij hi hj
  refine ⟨rfl, rfl, ?_⟩
  intro l hil hlj
  obtain ⟨y, hy⟩ := hthrough l hil hlj
  exact ⟨y, (owns_iff h).mpr hy⟩

theorem chain_new_greater {i j : Nat} {c c' n n' : String} {x y : Nat} (hij : i < j)
    (hj : Owns plans j c n x) (hnew : ∀ z, ¬ Owns plans (j - 1) c n z)
    (hi : Owns plans i c' n' y) : y < x := by
  rw [owns_iff h] at hi hj
  exact h.history.fresh_gt hij (fun z hz => hnew z ((owns_iff h).mpr hz)) hj hi

end Fencing

/-- **Fencing over whole runs.** Whatever the nodes, their telemetry, the
workloads and the clock are at each planning, a chain of plans is fenced. -/
theorem chain_fenced {plans : List Plan} (hreach : Reach planChain Always plans) :
    Fenced plans := by
  have h := chain_history hreach
  refine ⟨?_, ?_, ?_, ?_, ?_⟩
  · intro i j c c' n n' x hij hi hj
    exact chain_one_ownership h hij hi hj
  · intro i c n x y hi hj
    rw [owns_iff h] at hi hj
    exact h.history.kept hi hj
  · intro i j c c' n n' x y hij hj hnew hi
    exact chain_new_greater h hij hj hnew hi
  · intro i k j c n x p claim hik hkj hi hended hp hof
    rw [Bool.eq_false_iff]
    intro hacc
    -- an accepted claim would be under the same token, so in the same ownership
    have hj := accepted_owns hp hof hacc
    obtain ⟨-, -, hthrough⟩ := chain_one_ownership h (Nat.le_trans hik hkj) hi hj
    obtain ⟨z, hz⟩ := hthrough k hik hkj
    exact hended z hz
  · intro p claim claim' _ hcam hacc hacc'
    obtain ⟨a, -, -, hnode, -, hfind⟩ := checkFencing_accepted hacc
    obtain ⟨b, -, -, hnode', -, hfind'⟩ := checkFencing_accepted hacc'
    obtain rfl : a = b := by
      unfold findAssignment at hfind hfind'
      rw [hcam, hfind'] at hfind
      exact (Option.some.inj hfind).symm
    rw [← hnode, hnode']

/-- One camera on a node that dies, comes back and drains: three owners. -/
def flappingInputs : List PlanInput :=
  let nodes : List (Option RawNode) := [some { id := some "a" }, some { id := some " b " }]
  let at_ (ms : ℚ) (states : List (String × RawNodeState)) : PlanInput :=
    { now := some ms, nodeStates := states, nodes := nodes, workloads := [.bare (some "cam")] }
  [at_ 1000 [], at_ 2000 [("a", { down := true })], at_ 3000 [],
    at_ 4000 [("b", { status := some "draining" })]]

theorem chain_fenced_flapping :
    ∃ plans, planChain.run anyStep [] flappingInputs = some plans ∧ Fenced plans := by
  have hrun : (planChain.run anyStep [] flappingInputs).isSome = true := by decide +kernel
  obtain ⟨plans, hplans⟩ := Option.isSome_iff_exists.mp hrun
  exact ⟨plans, hplans, chain_fenced ⟨[], rfl, path_of_run (fun _ _ _ => trivial) _ hplans⟩⟩

/-! ## Monotonic tokens over chains -/

theorem maxIssuedToken_lt {p : Plan} {m : Nat} (hm : 0 < m) (ha : ∀ a ∈ p.assignments, a.token < m)
    (hr : ∀ e ∈ p.revoked, ∀ x, e.token = some x → x < m) : maxIssuedToken (some p) < m := by
  unfold maxIssuedToken
  refine List.foldlRecOn (motive := (· < m)) _ max
    (List.foldlRecOn (motive := (· < m)) _ max hm ?_) ?_
  · intro b hb x hx
    obtain ⟨a, hmem, rfl⟩ := List.mem_map.mp hx
    exact max_lt hb (ha a hmem)
  · intro b hb x hx
    obtain ⟨e, hmem, hex⟩ := List.mem_filterMap.mp hx
    exact max_lt hb (hr e hmem x hex)

/-- A pair the plan before did not have has a token above all of that plan's. -/
theorem maxIssuedToken_lt_of_new {p : Plan} {t : Table String String} (hp : p.WellFormed)
    (hissue : Issue p.table t) {c n : String} {x : Nat} (hpos : 0 < x)
    (hheld : t.holder c = some (n, x)) (hnew : ∀ y, p.table.holder c ≠ some (n, y)) :
    maxIssuedToken (some p) < x := by
  rcases hissue.grant _ _ _ hheld with hkept | ⟨-, hge, -⟩
  · exact absurd hkept (hnew _)
  · exact maxIssuedToken_lt hpos (fun b hb => Nat.lt_of_lt_of_le (hp.token_lt b hb) hge)
      (fun e he x hx => Nat.lt_of_lt_of_le (hp.revoked_lt e he x hx) hge)

/-- **Consecutive plans of a chain pass the monotonic check**, the first of the
chain against no plan at all. -/
theorem chain_tokensAreMonotonic {plans : List Plan} (hreach : Reach planChain Always plans)
    {i : Nat} {q : Plan} (hq : plans[i]? = some q) :
    tokensAreMonotonic (if i = 0 then none else plans[i - 1]?) (some q) = true := by
  have h := chain_history hreach
  have hwf := h.wellFormed q (List.mem_of_getElem? hq)
  simp only [tokensAreMonotonic, List.all_eq_true, Bool.and_eq_true, decide_eq_true_eq]
  intro a ha
  have hpos := hwf.token_pos a ha
  refine ⟨hpos, ?_⟩
  cases i with
  | zero => simpa [maxIssuedToken, JsMap.get?] using hpos
  | succ i =>
    obtain ⟨p, hp⟩ : ∃ p, plans[i]? = some p := by
      have hlen := (List.getElem?_eq_some_iff.mp hq).1
      exact ⟨plans[i], List.getElem?_eq_getElem (by omega)⟩
    have hpwf := h.wellFormed p (List.mem_of_getElem? hp)
    have hissue : Issue p.table q.table :=
      h.history.issue_succ (by rw [List.getElem?_map, hp]; rfl) (by rw [List.getElem?_map, hq]; rfl)
    have hheld : q.table.holder a.cameraId = some (a.nodeId, a.token) := by
      obtain ⟨t, ht, hx⟩ := (owns_iff h).mp ⟨q, hq, a, ha, rfl, rfl, rfl⟩
      rw [List.getElem?_map, hq, Option.map_some, Option.some.injEq] at ht
      exact ht ▸ hx
    have hnew := maxIssuedToken_lt_of_new hpwf hissue hpos hheld
    simp only [Nat.add_sub_cancel, Nat.succ_ne_zero, if_false, hp, Option.elim_some]
    rw [JsMap.get?_foldl_set (·.cameraId) (fun b => b) a.cameraId p.assignments [] hpwf.cameras]
    have hlookup : p.table.holder a.cameraId =
        (p.assignments.find? (fun b => b.cameraId = a.cameraId)).map
          (fun b => (b.nodeId, b.token)) := rfl
    cases hf : p.assignments.find? (fun b => b.cameraId = a.cameraId) with
    | none =>
      simp only [JsMap.get?, decide_eq_true_eq]
      exact hnew (by simp [hlookup, hf])
    | some b =>
      simp only
      split
      · next hnode =>
        -- the owner stays, so it keeps its token
        rcases hissue.grant _ _ _ hheld with hkept | ⟨hnot, -, -⟩
        · simp only [hlookup, hf, Option.map_some, Option.some.injEq, Prod.mk.injEq] at hkept
          simp [hkept.2]
        · exact absurd (by simp [hlookup, hf, hnode]) (hnot b.token)
      · next hnode =>
        have hnot : ∀ y, p.table.holder a.cameraId ≠ some (a.nodeId, y) := by
          intro y hy
          simp only [hlookup, hf, Option.map_some, Option.some.injEq, Prod.mk.injEq] at hy
          exact hnode hy.1
        simpa using hnew hnot

theorem chain_tokensAreMonotonic_flapping :
    ∃ plans p q, planChain.run anyStep [] flappingInputs = some plans ∧ plans[2]? = some p ∧
      plans[3]? = some q ∧ tokensAreMonotonic (some p) (some q) = true := by
  have hlength : (planChain.run anyStep [] flappingInputs).map (·.length) = some 4 := by
    decide +kernel
  obtain ⟨plans, hplans, hfour⟩ := Option.map_eq_some_iff.mp hlength
  have hp : plans[2]? = some plans[2] := List.getElem?_eq_getElem _
  have hq : plans[3]? = some plans[3] := List.getElem?_eq_getElem _
  have hmono := chain_tokensAreMonotonic
    ⟨[], rfl, path_of_run (fun _ _ _ => trivial) _ hplans⟩ hq
  rw [if_neg (by decide), hp] at hmono
  exact ⟨plans, _, _, hplans, hp, hq, hmono⟩

end Drac.Central
