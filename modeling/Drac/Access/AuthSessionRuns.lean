import Drac.Access.AuthSessions

/-
  What a revocation revokes.

  A refresh token is exchanged once: the rotation finds it by its digest and replaces
  that in one write. A revocation raises `authVersion`, and a token of an older version
  is refused wherever the row is read again. Two things escape it. The rotation compares
  the version of the session, which never changes, and not that of the user, so a
  refresh that had read the row before exchanges its token after the revocation. And a
  logout raises the version one write before it is over, so a login in between keeps its
  access token.

  `Timely` excludes both: a rotation finds the user at the version it read, and when a
  logout completes no login or refresh holds the row at its present version. In every
  run whose steps meet it a revocation is final (`revoked_for_good`).
-/

namespace Drac.Access.AuthSessions

open Runs

variable {inactivityMs : Nat} {s t w : System}

/-! ## The property and the condition -/

/-- The row a login or refresh has read, where it has handed out tokens or may yet. -/
def Call.reader (c : Call) : Option User :=
  match c.phase with
  | .comparing password user =>
    if comparePassword password user.passwordHash then some user else none
  | .signing user | .storing user | .answered user | .rotating _ _ user _ | .rotated user =>
    some user
  | _ => none

def exchanges (s : System) : Label → Option Token
  | .advance i => (s.calls[i]?).bind (fun c =>
    match c.phase with
    | .rotating token session user now =>
      if rotatedCount s token session user now = 1 then some token else none
    | _ => none)
  | _ => none

def Request.revokes : Request → Bool
  | .logout _ | .resetPassword _ _ | .changeOwnPassword _ _ _ | .softDelete _ => true
  | .update _ _ _ password => password.isSome
  | .login _ _ | .refreshSession _ | .forgotPassword _ => false

/-- The user of whom a logout, a password or a deletion is completed by a step. -/
def completes (s : System) : Label → Option UserId
  | .advance i => (s.calls[i]?).bind (fun c =>
    match c.phase with
    | .revoking userId _ => some userId
    | .writing userId _ =>
      if c.request.revokes && (s.users.find userId).isSome then some userId else none
    | _ => none)
  | _ => none

def unchanged (s : System) (user : User) : Bool :=
  (s.users.find user.id).any (fun row => row.authVersion = user.authVersion)

def superseded (s : System) (user : User) : Bool :=
  (s.users.find user.id).any (fun row => user.authVersion < row.authVersion)

/-- A rotation comes while its user is as it was read, and a revocation when whoever read the
user before it is superseded. -/
def timely (s : System) : Label → Bool
  | .advance i => (s.calls[i]?).all (fun c =>
    match c.phase with
    | .rotating token session user now =>
      rotatedCount s token session user now ≠ 1 || unchanged s user
    | .revoking userId _ => s.calls.all (fun other =>
      other.reader.all (fun user => user.id ≠ userId || superseded s user))
    | _ => true)
  | _ => true

def Timely (s : System) (a : Label) : Prop := timely s a = true

/-- No run from here on exchanges the token. -/
def NeverExchanged (inactivityMs : Nat) (G : System → Label → Prop) (t : System)
    (token : Token) : Prop :=
  ∀ w a w', Path (authMachine inactivityMs) G t w → G w a → step inactivityMs w a = some w' →
    exchanges w a ≠ some token

/-- From `t` on no token is accepted of a call that had read the row of the user in `s`. -/
def Revoked (inactivityMs : Nat) (G : System → Label → Prop) (s t : System)
    (userId : UserId) : Prop :=
  ∀ (k : Nat) c user, s.calls[k]? = some c → c.reader = some user → user.id = userId →
    NeverExchanged inactivityMs G t ⟨k⟩ ∧
      ∀ w, Path (authMachine inactivityMs) G t w →
        ∃ message, validateAccessPayload w (signAccessToken user) = .error message

/-- An exchanged token is spent, and a completed revocation is final. -/
def RevokesForGood (inactivityMs : Nat) (G : System → Label → Prop) : Prop :=
  ∀ s a t, Reach (authMachine inactivityMs) G s → G s a → step inactivityMs s a = some t →
    (∀ token, exchanges s a = some token → NeverExchanged inactivityMs G t token) ∧
      ∀ userId, completes s a = some userId → Revoked inactivityMs G s t userId

/-! ## What a step leaves of a call -/

def Phase.user : Phase → Option User
  | .comparing _ user | .signing user | .storing user | .answered user
  | .rotating _ _ user _ | .rotated user | .unanswered user => some user
  | _ => none

def Phase.mayStore : Phase → Bool
  | .arrived | .comparing _ _ | .signing _ | .storing _ | .rotating _ _ _ _ => true
  | _ => false

/-- What a call keeps as it goes on: that it stores nothing more, and whom it has read. -/
structure Phase.Follows (old new : Phase) : Prop where
  settled : old.mayStore = false → new.mayStore = false ∧ new.user = old.user
  read : ∀ user, old.user = some user → new.user = some user ∨
    new.mayStore = false ∧ new.user = none

theorem Phase.Follows.refl (phase : Phase) : phase.Follows phase :=
  ⟨fun h => ⟨h, rfl⟩, fun _ h => Or.inl h⟩

theorem Phase.Follows.trans {a b c : Phase} (h : a.Follows b) (k : b.Follows c) : a.Follows c := by
  constructor
  · intro ha
    obtain ⟨hb, hab⟩ := h.settled ha
    obtain ⟨hc, hbc⟩ := k.settled hb
    exact ⟨hc, hbc.trans hab⟩
  · intro user ha
    cases h.read user ha with
    | inl hb => exact k.read user hb
    | inr hb =>
      obtain ⟨hc, hbc⟩ := k.settled hb.1
      exact Or.inr ⟨hc, hbc.trans hb.2⟩

variable {old new : Phase}

/-- A phase that may store and has read nothing is followed by any. -/
theorem Phase.follows_of_fresh (hstore : old.mayStore = true)
    (huser : old.user = none) : old.Follows new := by
  constructor
  · intro h
    rw [hstore] at h
    cases h
  · intro user h
    rw [huser] at h
    cases h

/-- What is later: calls go on, and versions rise. -/
structure Later (s t : System) : Prop where
  calls : ∀ (k : Nat) c, s.calls[k]? = some c → ∃ c', t.calls[k]? = some c' ∧
    c.phase.Follows c'.phase
  users : ∀ id user, s.users.find id = some user → ∃ user', t.users.find id = some user' ∧
    user.authVersion ≤ user'.authVersion

theorem Later.refl (s : System) : Later s s :=
  ⟨fun _ c h => ⟨c, h, .refl _⟩, fun _ user h => ⟨user, h, Nat.le_refl _⟩⟩

theorem Later.trans (h : Later s t) (k : Later t w) : Later s w := by
  constructor
  · intro i c hc
    obtain ⟨c', hc', hf⟩ := h.calls i c hc
    obtain ⟨c'', hc'', hf'⟩ := k.calls i c' hc'
    exact ⟨c'', hc'', hf.trans hf'⟩
  · intro id user hu
    obtain ⟨user', hu', hle⟩ := h.users id user hu
    obtain ⟨user'', hu'', hle'⟩ := k.users id user' hu'
    exact ⟨user'', hu'', Nat.le_trans hle hle'⟩

variable {user : User}

theorem superseded_iff : superseded s user = true ↔
    ∃ row, s.users.find user.id = some row ∧ user.authVersion < row.authVersion := by
  simp [superseded, Option.any_eq_true]

theorem superseded_later (h : Later s t) (hs : superseded s user = true) :
    superseded t user = true := by
  obtain ⟨row, hrow, hlt⟩ := superseded_iff.mp hs
  obtain ⟨row', hrow', hle⟩ := h.users _ row hrow
  exact superseded_iff.mpr ⟨row', hrow', Nat.lt_of_lt_of_le hlt hle⟩

/-! ## Later states -/

variable {i : Nat} {c : Call}

theorem goTo_calls (hget : s.calls[i]? = some c) (phase : Phase) (k : Nat) :
    (s.goTo i c phase).calls[k]? = if k = i then some { c with phase := phase } else s.calls[k]? := by
  have hlt := (List.getElem?_eq_some_iff.mp hget).1
  show (s.calls.set i _)[k]? = _
  by_cases hk : k = i
  · rw [hk, if_pos rfl, List.getElem?_set_self hlt]
  · rw [if_neg hk, List.getElem?_set_ne (Ne.symm hk)]

variable {phase : Phase}

theorem later_goTo (hget : s.calls[i]? = some c)
    (hf : c.phase.Follows phase) : Later s (s.goTo i c phase) := by
  refine ⟨?_, fun _ user h => ⟨user, h, Nat.le_refl _⟩⟩
  intro k c' hk
  rw [goTo_calls hget]
  by_cases hki : k = i
  · rw [hki, hget, Option.some.injEq] at hk
    subst hk
    exact ⟨_, if_pos hki, hf⟩
  · exact ⟨c', by rw [if_neg hki]; exact hk, .refl _⟩

theorem later_updateUser (id : UserId) (patch : UserPatch) : Later s (s.updateUser id patch) := by
  refine ⟨fun _ c h => ⟨c, h, .refl _⟩, ?_⟩
  intro id' user h
  refine ⟨if user.id = id then patch.apply user else user, ?_, ?_⟩
  · show (s.users.update id patch).find id' = _
    rw [UserTable.find_update, h]
    rfl
  · split
    · exact Nat.le_add_right _ _
    · exact Nat.le_refl _

/-! ## What the system keeps -/

/-- The session holds the token of a call that is through with it, and that call had read
the row of the session's user at the session's version. -/
def Minted (s : System) (row : AuthSession) : Prop :=
  ∃ (k : Nat) (c : Call) (user : User), row.tokenHash = refreshTokenHash ⟨k⟩ ∧
    s.calls[k]? = some c ∧ c.phase.mayStore = false ∧ c.phase.user = some user ∧
    user.id = row.userId ∧ user.authVersion = row.authVersion

/-- A phase tells the truth about the users and sessions there were. -/
structure Phase.Sound (s : System) (phase : Phase) : Prop where
  read : ∀ user, phase.user = some user →
    ∃ row, s.users.find user.id = some row ∧ user.authVersion ≤ row.authVersion
  rotation : ∀ token session user now, phase = .rotating token session user now →
    Minted s session ∧ session.tokenHash = refreshTokenHash token ∧
      user.id = session.userId ∧ session.authVersion = user.authVersion

/-- What a system reached in any order keeps. -/
structure Sound (s : System) : Prop where
  calls : ∀ (k : Nat) c, s.calls[k]? = some c → c.phase.Sound s
  sessions : ∀ row ∈ s.sessions, Minted s row
  hashes : (s.sessions.map AuthSession.tokenHash).Nodup

variable {row : AuthSession}

theorem Minted.later (h : Later s t) (hm : Minted s row) : Minted t row := by
  obtain ⟨k, c, user, hhash, hget, hstore, huser, hid, hversion⟩ := hm
  obtain ⟨c', hget', hf⟩ := h.calls k c hget
  obtain ⟨hstore', huser'⟩ := hf.settled hstore
  exact ⟨k, c', user, hhash, hget', hstore', huser'.trans huser, hid, hversion⟩

theorem Phase.Sound.later (h : Later s t) (hs : phase.Sound s) :
    phase.Sound t := by
  constructor
  · intro user huser
    obtain ⟨row, hrow, hle⟩ := hs.read user huser
    obtain ⟨row', hrow', hle'⟩ := h.users _ row hrow
    exact ⟨row', hrow', Nat.le_trans hle hle'⟩
  · intro token session user now hphase
    obtain ⟨hm, hrest⟩ := hs.rotation token session user now hphase
    exact ⟨hm.later h, hrest⟩

/-- A phase that has read nothing says nothing. -/
theorem Phase.sound_of_blank (h : phase.user = none) : phase.Sound s := by
  constructor
  · intro user huser
    rw [h] at huser
    cases huser
  · intro token session user now hphase
    rw [hphase] at h
    cases h

/-- No session holds the token of a call that may yet store it. -/
theorem Sound.not_stored (h : Sound s) (hget : s.calls[i]? = some c)
    (hstore : c.phase.mayStore = true) : ∀ row ∈ s.sessions, row.tokenHash ≠ refreshTokenHash ⟨i⟩ := by
  intro row hrow heq
  obtain ⟨k, c', user, hhash, hget', hstore', -⟩ := h.sessions row hrow
  -- a digest names the call that drew the secret
  have hk : k = i := by
    rw [hhash] at heq
    injection heq with htoken
    injection htoken
  rw [hk, hget, Option.some.injEq] at hget'
  rw [hget', hstore'] at hstore
  cases hstore

/-! ## What a step does -/

/-- What a phase has read is what the tables hold. -/
structure Phase.ReadOff (s : System) (phase : Phase) : Prop where
  user : ∀ user, phase.user = some user → s.users.find user.id = some user
  rotation : ∀ token session user now, phase = .rotating token session user now →
    session ∈ s.sessions ∧ session.tokenHash = refreshTokenHash token ∧
      s.users.find session.userId = some user ∧ session.authVersion = user.authVersion

/-- The effect of one step of call `i`. -/
inductive Effect (inactivityMs : Nat) (s : System) (i : Nat) (c : Call) : System → Prop where
  | read (phase : Phase) : c.phase.mayStore = true → c.phase.user = none → phase.ReadOff s →
      Effect inactivityMs s i c (s.goTo i c phase)
  | go (phase : Phase) : c.phase.Follows phase → (phase.user = none ∨ phase.user = c.phase.user) →
      (∀ token session user now, phase ≠ .rotating token session user now) →
      Effect inactivityMs s i c (s.goTo i c phase)
  | write (userId : UserId) (patch : UserPatch) (phase : Phase) : c.phase.Follows phase →
      phase.user = none → Effect inactivityMs s i c ((s.updateUser userId patch).goTo i c phase)
  | store (user : User) (cleanups : List (UserId × Nat)) : c.phase = .storing user →
      Effect inactivityMs s i c
        ({ createRefreshSession inactivityMs s i user with cleanups := cleanups }.goTo i c
          (.answered user))
  | rotate (token : Token) (session : AuthSession) (user : User) (now : Nat) :
      c.phase = .rotating token session user now →
      Effect inactivityMs s i c (rotate inactivityMs s i c token session user now)
  | revoke (userId : UserId) (now : Nat) : c.phase = .revoking userId now →
      Effect inactivityMs s i c ((revokeSessions s userId now).goTo i c .done)

theorem Phase.follows_same (hstore : old.mayStore = true ∨ new.mayStore = false)
    (huser : new.user = old.user) : old.Follows new := by
  constructor
  · intro hold
    cases hstore with
    | inl h =>
      rw [hold] at h
      cases h
    | inr h => exact ⟨h, huser⟩
  · intro user h
    exact Or.inl (huser.trans h)

theorem Phase.follows_end (hold : old.mayStore = true ∨ old.user = none)
    (hstore : new.mayStore = false) (huser : new.user = none) : old.Follows new := by
  constructor
  · intro h
    cases hold with
    | inl hmay =>
      rw [h] at hmay
      cases hmay
    | inr hnone => exact ⟨hstore, huser.trans hnone.symm⟩
  · intro user _
    exact Or.inr ⟨hstore, huser⟩

theorem Phase.readOff_of_blank (h : phase.user = none) : phase.ReadOff s := by
  constructor
  · intro user huser
    rw [h] at huser
    cases huser
  · intro token session user now hphase
    rw [hphase] at h
    cases h

theorem readOff_found {id : UserId} (hfind : s.users.find id = some user)
    (huser : phase.user = some user)
    (hrotation : ∀ token session user now, phase ≠ .rotating token session user now) :
    phase.ReadOff s := by
  constructor
  · intro user' huser'
    rw [huser, Option.some.injEq] at huser'
    rw [← huser', UserTable.find_id hfind, hfind]
  · intro token session user now hphase
    exact absurd hphase (hrotation token session user now)

theorem readOff_comparing {email password : String}
    (hfind : s.users.rows.find? (fun row => row.email = email) = some user) :
    (Phase.comparing password user).ReadOff s :=
  readOff_found (UserTable.find_of_mem (List.mem_of_find?_eq_some hfind)) rfl
    (fun _ _ _ _ h => nomatch h)

variable {token : Token} {session : AuthSession} {now : Nat}

theorem readOff_rotating
    (hsession : s.sessions.find? (fun row => row.tokenHash = refreshTokenHash token) =
      some session)
    (huser : s.users.find session.userId = some user)
    (hversion : session.authVersion = user.authVersion) :
    (Phase.rotating token session user now).ReadOff s := by
  constructor
  · intro user' huser'
    cases huser'
    rw [UserTable.find_id huser, huser]
  · intro token' session' user' now' hphase
    cases hphase
    have hhash : session.tokenHash = refreshTokenHash token := by
      simpa using List.find?_some hsession
    exact ⟨List.mem_of_find?_eq_some hsession, hhash, huser, hversion⟩

theorem arrive_effect (inactivityMs : Nat) (s : System) (i : Nat)
    (hphase : c.phase = .arrived) : Effect inactivityMs s i c (arrive s i c) := by
  have hstore : c.phase.mayStore = true := by rw [hphase]; rfl
  have huser : c.phase.user = none := by rw [hphase]; rfl
  have hblank : ∀ phase : Phase, phase.user = none →
      Effect inactivityMs s i c (s.goTo i c phase) :=
    fun phase h => .read phase hstore huser (Phase.readOff_of_blank h)
  unfold arrive
  cases c.request with
  | login email password =>
    dsimp only
    split
    · next user hfind =>
      split
      · exact .read _ hstore huser (readOff_comparing hfind)
      · exact hblank _ rfl
    · exact hblank _ rfl
  | refreshSession token =>
    dsimp only
    split
    · exact hblank _ rfl
    · next session hsession =>
      split
      · exact hblank _ rfl
      · next user hfind =>
        split
        · exact hblank _ rfl
        · next hchecks =>
          simp only [Bool.or_eq_true, decide_eq_true_eq, not_or, not_not] at hchecks
          exact .read _ hstore huser (readOff_rotating hsession hfind hchecks.2)
  | logout userId =>
    dsimp only
    split
    · exact .write userId _ _ (Phase.follows_of_fresh hstore huser) rfl
    · exact hblank _ rfl
  | forgotPassword email =>
    dsimp only
    split
    · split <;> exact hblank _ rfl
    · exact hblank _ rfl
  | resetPassword token newPassword =>
    dsimp only
    split
    · split
      · split <;> exact hblank _ rfl
      · exact hblank _ rfl
    · exact hblank _ rfl
  | changeOwnPassword actor currentPassword newPassword =>
    dsimp only
    split <;> exact hblank _ rfl
  | update id email isActive password =>
    dsimp only
    split <;> exact hblank _ rfl
  | softDelete id =>
    dsimp only
    split <;> exact hblank _ rfl

theorem advance_effect (h : advance inactivityMs s i c = some t) :
    Effect inactivityMs s i c t := by
  unfold advance at h
  cases hphase : c.phase with
  | arrived =>
    rw [hphase] at h
    cases h
    exact arrive_effect inactivityMs s i hphase
  | comparing password user =>
    rw [hphase] at h
    cases h
    split
    · exact .go _ (Phase.follows_same (Or.inl (by rw [hphase]; rfl)) (by rw [hphase]; rfl))
        (Or.inr (by rw [hphase]; rfl)) (fun _ _ _ _ h => nomatch h)
    · exact .go _ (Phase.follows_end (Or.inl (by rw [hphase]; rfl)) rfl rfl)
        (Or.inl rfl) (fun _ _ _ _ h => nomatch h)
  | signing user =>
    rw [hphase] at h
    cases h
    exact .go _ (Phase.follows_same (Or.inl (by rw [hphase]; rfl)) (by rw [hphase]; rfl))
      (Or.inr (by rw [hphase]; rfl)) (fun _ _ _ _ h => nomatch h)
  | storing user =>
    rw [hphase] at h
    cases h
    exact .store user _ hphase
  | rotating token session user now =>
    rw [hphase] at h
    cases h
    exact .rotate token session user now hphase
  | rotated user =>
    rw [hphase] at h
    cases h
    exact .go _ (Phase.follows_same (Or.inr rfl) (by rw [hphase]; rfl))
      (Or.inr (by rw [hphase]; rfl)) (fun _ _ _ _ h => nomatch h)
  | revoking userId now =>
    rw [hphase] at h
    cases h
    exact .revoke userId now hphase
  | comparingCurrent password user =>
    rw [hphase] at h
    cases h
    split <;> exact .go _ (Phase.follows_end (Or.inr (by rw [hphase]; rfl)) rfl rfl)
      (Or.inl rfl) (fun _ _ _ _ h => nomatch h)
  | writing userId now =>
    rw [hphase] at h
    dsimp only at h
    split at h
    · cases h
      exact .write userId _ _ (Phase.follows_end (Or.inr (by rw [hphase]; rfl)) rfl rfl) rfl
    · cases h
      exact .go _ (Phase.follows_end (Or.inr (by rw [hphase]; rfl)) rfl rfl)
        (Or.inl rfl) (fun _ _ _ _ h => nomatch h)
  | answered user =>
    rw [hphase] at h
    cases h
  | unanswered user =>
    rw [hphase] at h
    cases h
  | done =>
    rw [hphase] at h
    cases h
  | refused message =>
    rw [hphase] at h
    cases h
  | lost =>
    rw [hphase] at h
    cases h

theorem giveUp_effect (h : c.phase.giveUp.map (s.goTo i c) = some t) :
    Effect inactivityMs s i c t := by
  cases hphase : c.phase <;> rw [hphase] at h <;> cases h
  case rotated user =>
    exact .go _ (Phase.follows_same (Or.inr rfl) (by rw [hphase]; rfl))
      (Or.inr (by rw [hphase]; rfl)) (fun _ _ _ _ h => nomatch h)
  all_goals
    exact .go _ (Phase.follows_end (by rw [hphase]; simp [Phase.mayStore, Phase.user]) rfl rfl)
      (Or.inl rfl) (fun _ _ _ _ h => nomatch h)

/-! ## Steps keep it -/

theorem later_of_eq (h : Later s w) (hcalls : t.calls = w.calls) (husers : t.users = w.users) :
    Later s t := by
  constructor
  · rw [hcalls]
    exact h.calls
  · rw [husers]
    exact h.users

theorem Sound.goTo (h : Sound s)
    (hget : s.calls[i]? = some c) (hf : c.phase.Follows phase) (hphase : phase.Sound s) :
    Sound (s.goTo i c phase) := by
  have hlater : Later s (s.goTo i c phase) := later_goTo hget hf
  refine ⟨?_, fun row hrow => (h.sessions row hrow).later hlater, h.hashes⟩
  intro k c' hk
  rw [goTo_calls hget] at hk
  split at hk
  · cases hk
    exact hphase.later hlater
  · exact (h.calls k c' hk).later hlater

theorem Sound.updateUser (h : Sound s) (id : UserId) (patch : UserPatch) :
    Sound (s.updateUser id patch) where
  calls k c hk := (h.calls k c hk).later (later_updateUser id patch)
  sessions row hrow := (h.sessions row hrow).later (later_updateUser id patch)
  hashes := h.hashes

theorem Sound.withSessions (h : Sound w) (hcalls : t.calls = w.calls) (husers : t.users = w.users)
    (hminted : ∀ row ∈ t.sessions, Minted w row)
    (hhashes : (t.sessions.map AuthSession.tokenHash).Nodup) : Sound t := by
  have hlater : Later w t := later_of_eq (.refl w) hcalls husers
  refine ⟨?_, fun row hrow => (hminted row hrow).later hlater, hhashes⟩
  intro k c hk
  rw [hcalls] at hk
  exact (h.calls k c hk).later hlater

theorem Phase.ReadOff.sound (h : phase.ReadOff s) (hs : AuthSessions.Sound s) :
    phase.Sound s := by
  constructor
  · intro user huser
    exact ⟨user, h.user user huser, Nat.le_refl _⟩
  · intro token session user now hphase
    obtain ⟨hmem, hhash, hfind, hversion⟩ := h.rotation token session user now hphase
    exact ⟨hs.sessions session hmem, hhash, UserTable.find_id hfind, hversion⟩

/-! ### The rotation -/

theorem rotatable_iff
    : rotatable token session user now row = true ↔
      row.id = session.id ∧ row.tokenHash = refreshTokenHash token ∧ row.revokedAt = none ∧
        now < row.expiresAt ∧ row.authVersion = user.authVersion := by
  simp [rotatable, and_assoc]

/-- The digest is unique, so a rotation that finds a row finds one. -/
theorem Sound.rotatedCount_of_mem (h : Sound s)
    (hmem : row ∈ s.sessions)
    (hrow : rotatable token session user now row = true) :
    rotatedCount s token session user now = 1 := by
  have hsame : ∀ other ∈ s.sessions.filter (rotatable token session user now), other = row := by
    intro other hother
    obtain ⟨hin, hrot⟩ := List.mem_filter.mp hother
    exact List.inj_on_of_nodup_map h.hashes hin hmem
      ((rotatable_iff.mp hrot).2.1.trans (rotatable_iff.mp hrow).2.1.symm)
  have hnodup := (List.Nodup.of_map _ h.hashes).filter (rotatable token session user now)
  rw [List.eq_replicate_of_mem hsame, List.nodup_replicate] at hnodup
  exact Nat.le_antisymm hnodup
    (List.length_pos_of_mem (List.mem_filter.mpr ⟨hmem, hrow⟩))

theorem exists_rotatable
    (h : rotatedCount s token session user now = 1) :
    ∃ row ∈ s.sessions, rotatable token session user now row = true := by
  have hpos : 0 < (s.sessions.filter (rotatable token session user now)).length :=
    Nat.lt_of_lt_of_eq Nat.zero_lt_one h.symm
  obtain ⟨row, hrow⟩ := List.exists_mem_of_length_pos hpos
  exact ⟨row, List.mem_filter.mp hrow⟩

theorem Minted.userId_eq {a b : AuthSession} (ha : Minted s a) (hb : Minted s b)
    (hhash : a.tokenHash = b.tokenHash) : a.userId = b.userId := by
  obtain ⟨k, c, user, hka, hget, -, huser, hid, -⟩ := ha
  obtain ⟨k', c', user', hkb, hget', -, huser', hid', -⟩ := hb
  have hk : k = k' := by
    rw [hka, hkb] at hhash
    injection hhash with htoken
    injection htoken
  subst hk
  rw [hget, Option.some.injEq] at hget'
  subst hget'
  rw [huser, Option.some.injEq] at huser'
  subst huser'
  exact hid.symm.trans hid'

theorem sound_rotate (h : Sound s) (hget : s.calls[i]? = some c)
    (hphase : c.phase = .rotating token session user now) :
    Sound (rotate inactivityMs s i c token session user now) := by
  have hstore : c.phase.mayStore = true := by rw [hphase]; rfl
  have hcall := h.calls i c hget
  obtain ⟨hminted, hhash, hid, -⟩ := hcall.rotation token session user now hphase
  have hfree := h.not_stored hget hstore
  unfold rotate
  dsimp only
  split
  · have hf : c.phase.Follows (.rotated user) :=
      Phase.follows_same (Or.inl hstore) (by rw [hphase]; rfl)
    have hnext : Sound (s.goTo i c (.rotated user)) := by
      refine h.goTo hget hf ⟨?_, fun _ _ _ _ h => nomatch h⟩
      intro user' huser'
      exact hcall.read user' (by rw [hphase]; exact huser')
    refine hnext.withSessions rfl rfl ?_ ?_
    · intro row hrow
      obtain ⟨old, hold, rfl⟩ := List.mem_map.mp hrow
      split
      · next hrot =>
        obtain ⟨-, hhash', -, -, hversion⟩ := rotatable_iff.mp hrot
        have howner : session.userId = old.userId :=
          hminted.userId_eq (h.sessions old hold) (hhash.trans hhash'.symm)
        exact ⟨i, { c with phase := .rotated user }, user, rfl,
          by rw [goTo_calls hget, if_pos rfl], rfl, rfl, hid.trans howner, hversion.symm⟩
      · exact (h.sessions old hold).later (later_goTo hget hf)
    · show ((s.sessions.map _).map AuthSession.tokenHash).Nodup
      rw [List.map_map]
      refine (List.Nodup.of_map _ h.hashes).map_on ?_
      intro x hx y hy hxy
      simp only [Function.comp] at hxy
      -- the new digest is nobody's, and the old one was one row's
      split at hxy <;> split at hxy
      · next hrx hry =>
        exact List.inj_on_of_nodup_map h.hashes hx hy
          ((rotatable_iff.mp hrx).2.1.trans (rotatable_iff.mp hry).2.1.symm)
      · exact absurd hxy.symm (hfree y hy)
      · exact absurd hxy (hfree x hx)
      · exact List.inj_on_of_nodup_map h.hashes hx hy hxy
  · next hcount =>
    have hsame : s.sessions.map (fun row => if rotatable token session user now row then
        { row with tokenHash := refreshTokenHash ⟨i⟩, expiresAt := now + inactivityMs }
        else row) = s.sessions := by
      conv_rhs => rw [← List.map_id s.sessions]
      refine List.map_congr_left fun row hrow => ?_
      rw [if_neg (fun hrot => hcount (h.rotatedCount_of_mem hrow hrot))]
      rfl
    rw [hsame]
    exact h.goTo hget (Phase.follows_end (Or.inl hstore) rfl rfl) (Phase.sound_of_blank rfl)

/-! ### All steps -/

theorem later_effect (hget : s.calls[i]? = some c)
    (he : Effect inactivityMs s i c t) : Later s t := by
  cases he with
  | read phase hstore huser _ => exact later_goTo hget (Phase.follows_of_fresh hstore huser)
  | go phase hf _ _ => exact later_goTo hget hf
  | write userId patch phase hf _ =>
    exact (later_updateUser userId patch).trans (later_goTo hget hf)
  | store user cleanups hphase =>
    have hf : c.phase.Follows (.answered user) :=
      Phase.follows_same (Or.inl (by rw [hphase]; rfl)) (by rw [hphase]; rfl)
    exact later_of_eq (later_goTo hget hf) rfl rfl
  | rotate token session user now hphase =>
    have hstore : c.phase.mayStore = true := by rw [hphase]; rfl
    unfold AuthSessions.rotate
    dsimp only
    split
    · have hf : c.phase.Follows (.rotated user) :=
        Phase.follows_same (Or.inl hstore) (by rw [hphase]; rfl)
      exact later_of_eq (later_goTo hget hf) rfl rfl
    · have hf : c.phase.Follows (.refused "Sessão já renovada ou expirada.") :=
        Phase.follows_end (Or.inl hstore) rfl rfl
      exact later_of_eq (later_goTo hget hf) rfl rfl
  | revoke userId now hphase =>
    have hf : c.phase.Follows .done := Phase.follows_end (Or.inr (by rw [hphase]; rfl)) rfl rfl
    exact later_of_eq (later_goTo hget hf) rfl rfl

/-- A login stores its token: the digest is new, and the row is the one it had read. -/
theorem sound_store (h : Sound s) (hget : s.calls[i]? = some c)
    (hphase : c.phase = .storing user) (cleanups : List (UserId × Nat)) :
    Sound ({ createRefreshSession inactivityMs s i user with cleanups := cleanups }.goTo i c
      (.answered user)) := by
  have hstore : c.phase.mayStore = true := by rw [hphase]; rfl
  have hf : c.phase.Follows (.answered user) :=
    Phase.follows_same (Or.inl hstore) (by rw [hphase]; rfl)
  have hnext : Sound (s.goTo i c (.answered user)) := by
    refine h.goTo hget hf ⟨?_, fun _ _ _ _ h => nomatch h⟩
    intro user' huser'
    exact (h.calls i c hget).read user' (by rw [hphase]; exact huser')
  refine hnext.withSessions rfl rfl ?_ ?_
  · intro row hrow
    obtain hold | hnew := List.mem_append.mp hrow
    · exact (h.sessions row hold).later (later_goTo hget hf)
    · rw [List.mem_singleton.mp hnew]
      exact ⟨i, { c with phase := .answered user }, user, rfl,
        by rw [goTo_calls hget, if_pos rfl], rfl, rfl, rfl, rfl⟩
  · show ((s.sessions ++ [_]).map AuthSession.tokenHash).Nodup
    rw [List.map_append, List.nodup_append]
    refine ⟨h.hashes, List.nodup_singleton _, ?_⟩
    intro hash hhash new hnew
    obtain ⟨row, hrow, rfl⟩ := List.mem_map.mp hhash
    rw [List.mem_singleton.mp hnew]
    exact h.not_stored hget hstore row hrow

variable {userId : UserId}

/-- A logout revokes its user's sessions and leaves their digests. -/
theorem sound_revoke (h : Sound s) (hget : s.calls[i]? = some c)
    (hphase : c.phase = .revoking userId now) :
    Sound ((revokeSessions s userId now).goTo i c .done) := by
  have hf : c.phase.Follows .done := Phase.follows_end (Or.inr (by rw [hphase]; rfl)) rfl rfl
  have hnext : Sound (s.goTo i c .done) := h.goTo hget hf (Phase.sound_of_blank rfl)
  refine hnext.withSessions rfl rfl ?_ ?_
  · intro row hrow
    obtain ⟨old, hold, rfl⟩ := List.mem_map.mp hrow
    have hminted := (h.sessions old hold).later (later_goTo hget hf)
    split
    · exact hminted
    · exact hminted
  · show ((s.sessions.map _).map AuthSession.tokenHash).Nodup
    have hhashes : (AuthSession.tokenHash ∘ fun row => if row.userId = userId ∧
        row.revokedAt = none then { row with revokedAt := some now } else row) =
        AuthSession.tokenHash := by
      funext row
      simp only [Function.comp]
      split <;> rfl
    rw [List.map_map, hhashes]
    exact h.hashes

theorem sound_effect (h : Sound s) (hget : s.calls[i]? = some c)
    (he : Effect inactivityMs s i c t) : Sound t := by
  cases he with
  | read phase hstore huser hread =>
    exact h.goTo hget (Phase.follows_of_fresh hstore huser) (hread.sound h)
  | go phase hf huser hrotation =>
    refine h.goTo hget hf ?_
    cases huser with
    | inl hnone => exact Phase.sound_of_blank hnone
    | inr hsame =>
      refine ⟨?_, fun token session user now hphase => absurd hphase (hrotation _ _ _ _)⟩
      intro user huser
      exact (h.calls i c hget).read user (hsame.symm.trans huser)
  | write userId patch phase hf hblank =>
    exact (h.updateUser userId patch).goTo hget hf (Phase.sound_of_blank hblank)
  | store user cleanups hphase => exact sound_store h hget hphase cleanups
  | rotate token session user now hphase => exact sound_rotate h hget hphase
  | revoke userId now hphase => exact sound_revoke h hget hphase

variable {a : Label}

/-- A step is the effect of a call, or touches neither users nor the calls there are. -/
theorem step_cases (h : step inactivityMs s a = some t) :
    (∃ (i : Nat) (c : Call), s.calls[i]? = some c ∧ Effect inactivityMs s i c t ∧
      (a = .advance i ∧ advance inactivityMs s i c = some t ∨
        a = .giveUp i ∧ c.phase.giveUp.map (s.goTo i c) = some t)) ∨
    (∃ r, a = .request r ∧ t = { s with calls := s.calls ++ [{ request := r }] }) ∨
    ((∀ i, a ≠ .advance i) ∧ t.users = s.users ∧ t.calls = s.calls ∧
      t.sessions.Sublist s.sessions) := by
  cases a with
  | request r =>
    cases h
    exact Or.inr (Or.inl ⟨r, rfl, rfl⟩)
  | advance i =>
    obtain ⟨c, hget, hc⟩ := Option.bind_eq_some_iff.mp h
    exact Or.inl ⟨i, c, hget, advance_effect hc, Or.inl ⟨rfl, hc⟩⟩
  | giveUp i =>
    obtain ⟨c, hget, hc⟩ := Option.bind_eq_some_iff.mp h
    exact Or.inl ⟨i, c, hget, giveUp_effect hc, Or.inr ⟨rfl, hc⟩⟩
  | cleanup k =>
    obtain ⟨sweep, -, rfl⟩ := Option.map_eq_some_iff.mp h
    exact Or.inr (Or.inr ⟨(fun _ h => nomatch h), rfl, rfl, List.filter_sublist⟩)
  | setClock clock =>
    cases h
    exact Or.inr (Or.inr ⟨(fun _ h => nomatch h), rfl, rfl, List.Sublist.refl _⟩)

theorem later_request (r : Request) : Later s { s with calls := s.calls ++ [{ request := r }] } := by
  refine ⟨?_, fun _ user h => ⟨user, h, Nat.le_refl _⟩⟩
  intro k c hk
  have hlt := (List.getElem?_eq_some_iff.mp hk).1
  exact ⟨c, by rw [List.getElem?_append_left hlt, hk], .refl _⟩

theorem step_later (h : step inactivityMs s a = some t) : Later s t := by
  obtain ⟨i, c, hget, he, -⟩ | ⟨r, -, rfl⟩ | ⟨-, husers, hcalls, -⟩ := step_cases h
  · exact later_effect hget he
  · exact later_request r
  · exact later_of_eq (.refl s) hcalls husers

theorem sound_step (hs : Sound s) (h : step inactivityMs s a = some t) : Sound t := by
  obtain ⟨i, c, hget, he, -⟩ | ⟨r, -, rfl⟩ | ⟨-, husers, hcalls, hsub⟩ := step_cases h
  · exact sound_effect hs hget he
  · refine ⟨?_, fun row hrow => (hs.sessions row hrow).later (later_request r), hs.hashes⟩
    intro k c hk
    obtain hold | hnew := List.mem_append.mp (List.mem_of_getElem? hk)
    · obtain ⟨j, hj⟩ := List.getElem?_of_mem hold
      exact (hs.calls j c hj).later (later_request r)
    · rw [List.mem_singleton.mp hnew]
      exact Phase.sound_of_blank rfl
  · exact hs.withSessions hcalls husers (fun row hrow => hs.sessions row (hsub.subset hrow))
      ((hsub.map AuthSession.tokenHash).nodup hs.hashes)

variable {G : System → Label → Prop}

theorem reach_sound (h : Reach (authMachine inactivityMs) G s) : Sound s := by
  refine h.invariant (I := Sound) ?_ (fun _ _ _ hs _ hstep => sound_step hs hstep)
  rintro s ⟨users, rfl⟩
  refine ⟨?_, fun row hrow => absurd hrow List.not_mem_nil, List.nodup_nil⟩
  intro k c hk
  rw [List.getElem?_nil] at hk
  cases hk

theorem path_later (h : Path (authMachine inactivityMs) G s t) : Later s t := by
  refine h.invariant (I := Later s) ?_ (Later.refl s)
  intro t a w hlater _ hstep
  exact hlater.trans (step_later hstep)

theorem path_sound (h : Path (authMachine inactivityMs) G s t) (hs : Sound s) : Sound t :=
  h.invariant (I := Sound) (fun _ _ _ hs _ hstep => sound_step hs hstep) hs

/-! ## A refresh token is exchanged once -/

/-- The token a call drew is in no session, and the call stores no more. -/
structure Spent (s : System) (k : Nat) : Prop where
  call : ∃ c, s.calls[k]? = some c ∧ c.phase.mayStore = false
  unheld : ∀ row ∈ s.sessions, row.tokenHash ≠ refreshTokenHash ⟨k⟩

theorem exchanges_iff : exchanges s a = some token ↔
    ∃ i c session user now, a = .advance i ∧ s.calls[i]? = some c ∧
      c.phase = .rotating token session user now ∧ rotatedCount s token session user now = 1 := by
  constructor
  · intro h
    cases a with
    | advance i =>
      obtain ⟨c, hget, hc⟩ := Option.bind_eq_some_iff.mp h
      cases hphase : c.phase with
      | rotating token' session user now =>
        rw [hphase] at hc
        simp only [Option.ite_none_right_eq_some, Option.some.injEq] at hc
        obtain ⟨hcount, rfl⟩ := hc
        exact ⟨i, c, session, user, now, rfl, hget, hphase, hcount⟩
      | _ =>
        rw [hphase] at hc
        cases hc
    | request | giveUp | cleanup | setClock => cases h
  · rintro ⟨i, c, session, user, now, rfl, hget, hphase, hcount⟩
    simp [exchanges, hget, hphase, hcount]

/-- A digest after a step was there, or is of the call that moved. -/
theorem effect_hash (he : Effect inactivityMs s i c t) :
    ∀ row ∈ t.sessions, (∃ old ∈ s.sessions, old.tokenHash = row.tokenHash) ∨
      row.tokenHash = refreshTokenHash ⟨i⟩ ∧ c.phase.mayStore = true := by
  cases he with
  | read | go | write => exact fun row hrow => Or.inl ⟨row, hrow, rfl⟩
  | store user cleanups hphase =>
    intro row hrow
    obtain hold | hnew := List.mem_append.mp hrow
    · exact Or.inl ⟨row, hold, rfl⟩
    · rw [List.mem_singleton.mp hnew]
      exact Or.inr ⟨rfl, by rw [hphase]; rfl⟩
  | rotate token session user now hphase =>
    intro row hrow
    have hmem : row ∈ s.sessions.map (fun row => if rotatable token session user now row then
        { row with tokenHash := refreshTokenHash ⟨i⟩, expiresAt := now + inactivityMs }
        else row) := by
      unfold AuthSessions.rotate at hrow
      dsimp only at hrow
      split at hrow <;> exact hrow
    obtain ⟨old, hold, rfl⟩ := List.mem_map.mp hmem
    split
    · exact Or.inr ⟨rfl, by rw [hphase]; rfl⟩
    · exact Or.inl ⟨old, hold, rfl⟩
  | revoke userId now hphase =>
    intro row hrow
    obtain ⟨old, hold, rfl⟩ := List.mem_map.mp hrow
    split <;> exact Or.inl ⟨old, hold, rfl⟩

variable {k : Nat}

theorem spent_step (hs : Spent s k) (h : step inactivityMs s a = some t) :
    Spent t k := by
  obtain ⟨c, hget, hstore⟩ := hs.call
  constructor
  · obtain ⟨c', hget', hf⟩ := (step_later h).calls k c hget
    exact ⟨c', hget', (hf.settled hstore).1⟩
  · intro row hrow
    obtain ⟨i, ci, hgeti, he, -⟩ | ⟨r, -, rfl⟩ | ⟨-, -, -, hsub⟩ := step_cases h
    · obtain ⟨old, hold, heq⟩ | ⟨heq, hmay⟩ := effect_hash he row hrow
      · rw [← heq]
        exact hs.unheld old hold
      · intro hk
        -- call `k` stores no more, so it is not the one that moved
        rw [heq] at hk
        injection hk with htoken
        injection htoken with hik
        rw [hik, hget, Option.some.injEq] at hgeti
        rw [← hgeti, hstore] at hmay
        cases hmay
    · exact hs.unheld row hrow
    · exact hs.unheld row (hsub.subset hrow)

theorem not_exchanged_of_spent (hs : Spent s token.maker) :
    exchanges s a ≠ some token := by
  intro h
  obtain ⟨i, c, session, user, now, -, -, -, hcount⟩ := exchanges_iff.mp h
  obtain ⟨row, hrow, hrot⟩ := exists_rotatable hcount
  exact hs.unheld row hrow (rotatable_iff.mp hrot).2.1

theorem spent_of_exchange (hs : Sound s)
    (hex : exchanges s a = some token) (h : step inactivityMs s a = some t) :
    Spent t token.maker := by
  obtain ⟨i, c, session, user, now, rfl, hget, hphase, hcount⟩ := exchanges_iff.mp hex
  obtain ⟨row, hrow, hrot⟩ := exists_rotatable hcount
  obtain ⟨k, ck, reader, hhash, hgetk, hstorek, -⟩ := hs.sessions row hrow
  have htoken : token = ⟨k⟩ := by
    have heq := (rotatable_iff.mp hrot).2.1.symm.trans hhash
    injection heq
  subst htoken
  constructor
  · obtain ⟨c', hget', hf⟩ := (step_later h).calls k ck hgetk
    exact ⟨c', hget', (hf.settled hstorek).1⟩
  · have ht : t = rotate inactivityMs s i c ⟨k⟩ session user now := by
      simp only [step, hget, Option.bind_some, advance, hphase, Option.some.injEq] at h
      exact h.symm
    have hsessions : t.sessions = s.sessions.map (fun row =>
        if rotatable ⟨k⟩ session user now row then
          { row with tokenHash := refreshTokenHash ⟨i⟩, expiresAt := now + inactivityMs }
        else row) := by
      rw [ht]
      unfold rotate
      rw [if_pos hcount]
      rfl
    rw [hsessions]
    intro new hnew heq
    obtain ⟨old, hold, rfl⟩ := List.mem_map.mp hnew
    split at heq
    · injection heq with hi
      injection hi with hik
      rw [hik, hgetk, Option.some.injEq] at hget
      rw [hget, hphase] at hstorek
      cases hstorek
    · next hnot =>
      have hsame : old = row := List.inj_on_of_nodup_map hs.hashes hold hrow (heq.trans hhash.symm)
      exact hnot (hsame ▸ hrot)

/-- In any run, whatever its order, an exchanged token is not exchanged again. -/
theorem never_exchanged_again (hs : Sound s)
    (hex : exchanges s a = some token) (h : step inactivityMs s a = some t) :
    NeverExchanged inactivityMs G t token := by
  intro w b w' hpath _ _
  have hspent : Spent w token.maker :=
    hpath.invariant (I := fun s => Spent s token.maker)
      (fun _ _ _ hs _ hstep => spent_step hs hstep) (spent_of_exchange hs hex h)
  exact not_exchanged_of_spent hspent

/-! ## A completed revocation -/

theorem Call.user_of_reader (h : c.reader = some user) :
    c.phase.user = some user := by
  unfold Call.reader at h
  split at h
  · next password user' hphase =>
    rw [hphase]
    split at h
    · exact h
    · cases h
  all_goals first | (next hphase => rw [hphase]; exact h) | cases h

theorem completes_iff : completes s a = some userId ↔
    ∃ i c now, a = .advance i ∧ s.calls[i]? = some c ∧ (c.phase = .revoking userId now ∨
      c.phase = .writing userId now ∧ c.request.revokes = true ∧
        ∃ row, s.users.find userId = some row) := by
  constructor
  · intro h
    cases a with
    | advance i =>
      obtain ⟨c, hget, hc⟩ := Option.bind_eq_some_iff.mp h
      cases hphase : c.phase with
      | revoking id now =>
        rw [hphase] at hc
        cases hc
        exact ⟨i, c, now, rfl, hget, Or.inl hphase⟩
      | writing id now =>
        rw [hphase] at hc
        simp only [Bool.and_eq_true, Option.ite_none_right_eq_some, Option.some.injEq,
          Option.isSome_iff_exists] at hc
        obtain ⟨⟨hrevokes, hrow⟩, rfl⟩ := hc
        exact ⟨i, c, now, rfl, hget, Or.inr ⟨hphase, hrevokes, hrow⟩⟩
      | _ =>
        rw [hphase] at hc
        cases hc
    | request | giveUp | cleanup | setClock => cases h
  · rintro ⟨i, c, now, rfl, hget, hphase | ⟨hphase, hrevokes, row, hrow⟩⟩
    · simp [completes, hget, hphase]
    · simp [completes, hget, hphase, hrevokes, hrow]

theorem Request.patch_increment {r : Request} (h : r.revokes = true) (i now : Nat) :
    (r.patch i now).authVersionIncrement = 1 := by
  cases r with
  | login | refreshSession | forgotPassword => cases h
  | logout | resetPassword | changeOwnPassword | softDelete => rfl
  | update id email isActive password => exact if_pos h

/-- When a revocation is complete, what was read before is behind. -/
theorem superseded_of_completes (hs : Sound s) (hg : Timely s a)
    (h : step inactivityMs s a = some t)
    (hdone : completes s a = some userId)
    (hget : s.calls[k]? = some c) (hreader : c.reader = some user) (hid : user.id = userId) :
    superseded t user = true := by
  obtain ⟨i, ci, now, rfl, hgeti, hphase | ⟨hphase, hrevokes, row, hrow⟩⟩ := completes_iff.mp hdone
  · -- the version was raised by the first write, and nobody has read the row since
    have hall : s.calls.all (fun other =>
        other.reader.all (fun user => user.id ≠ userId || superseded s user)) = true := by
      simpa [Timely, timely, hgeti, hphase] using hg
    have hother := List.all_eq_true.mp hall c (List.mem_of_getElem? hget)
    rw [hreader, Option.all_some, Bool.or_eq_true, decide_eq_true_eq] at hother
    cases hother with
    | inl hne => exact absurd hid hne
    | inr hbehind => exact superseded_later (step_later h) hbehind
  · obtain ⟨row', hrow', hle⟩ := (hs.calls k c hget).read user (Call.user_of_reader hreader)
    rw [hid, hrow, Option.some.injEq] at hrow'
    subst hrow'
    have ht : t = (s.updateUser userId (ci.request.patch i now)).goTo i ci .done := by
      simp only [step, hgeti, Option.bind_some, advance, hphase, hrow, Option.some.injEq] at h
      exact h.symm
    refine superseded_iff.mpr ⟨(ci.request.patch i now).apply row, ?_, ?_⟩
    · rw [ht]
      show (s.users.update userId _).find user.id = _
      rw [UserTable.find_update, hid, hrow, Option.map_some, if_pos (UserTable.find_id hrow)]
    · show user.authVersion < row.authVersion + (ci.request.patch i now).authVersionIncrement
      rw [Request.patch_increment hrevokes]
      exact Nat.lt_succ_of_le hle

theorem validate_of_superseded (h : superseded s user = true) :
    ∃ message, validateAccessPayload s (signAccessToken user) = .error message := by
  obtain ⟨row, hrow, hlt⟩ := superseded_iff.mp h
  refine ⟨"Usuário inativo ou inexistente.", ?_⟩
  have hne : user.authVersion ≠ row.authVersion := Nat.ne_of_lt hlt
  simp [validateAccessPayload, signAccessToken, hrow, hne]

/-- A refresh at the version it read exchanges no token of an older version. -/
theorem not_exchanged_of_superseded (hs : Sound s) (hg : Timely s a)
    (hget : s.calls[k]? = some c)
    (hread : c.phase.user = some user ∨ c.phase.mayStore = false ∧ c.phase.user = none)
    (hbehind : superseded s user = true) : exchanges s a ≠ some ⟨k⟩ := by
  intro hex
  obtain ⟨i, ci, session, other, now, rfl, hgeti, hphase, hcount⟩ := exchanges_iff.mp hex
  obtain ⟨hminted, hhash, hid, hversion⟩ :=
    (hs.calls i ci hgeti).rotation ⟨k⟩ session other now hphase
  obtain ⟨k', c', reader, hhash', hget', -, huser', hid', hversion'⟩ := hminted
  have hk : k = k' := by
    have heq := hhash.symm.trans hhash'
    injection heq with htoken
    injection htoken
  subst hk
  rw [hget, Option.some.injEq] at hget'
  subst hget'
  have hreader : reader = user := by
    cases hread with
    | inl h => rwa [huser', Option.some.injEq] at h
    | inr h =>
      rw [h.2] at huser'
      cases huser'
  subst hreader
  have hfresh : unchanged s other = true := by
    simpa [Timely, timely, hgeti, hphase, hcount] using hg
  obtain ⟨row, hrow, hlt⟩ := superseded_iff.mp hbehind
  have hsame : other.id = reader.id := hid.trans hid'.symm
  rw [unchanged, hsame, hrow, Option.any_some, decide_eq_true_eq] at hfresh
  exact Nat.ne_of_lt hlt (hversion'.trans (hversion.trans hfresh.symm))

/-- In a timely run a spent token stays spent and a revocation is final. -/
theorem revoked_for_good (inactivityMs : Nat) : RevokesForGood inactivityMs Timely := by
  intro s a t hreach hg hstep
  have hs : Sound s := reach_sound hreach
  refine ⟨fun token hex => never_exchanged_again hs hex hstep, ?_⟩
  intro userId hdone k c user hget hreader hid
  have hbehind : superseded t user = true :=
    superseded_of_completes hs hg hstep hdone hget hreader hid
  constructor
  · intro w b w' hpath hgb _
    have hlater : Later s w := (step_later hstep).trans (path_later hpath)
    obtain ⟨c', hget', hf⟩ := hlater.calls k c hget
    exact not_exchanged_of_superseded (path_sound hpath (sound_step hs hstep)) hgb hget'
      (hf.read user (Call.user_of_reader hreader)) (superseded_later (path_later hpath) hbehind)
  · intro w hpath
    exact validate_of_superseded (superseded_later (path_later hpath) hbehind)

/-! ## Runs -/

def ana : User where
  id := 1
  email := "ana@drac.local"
  passwordHash := .bcrypt "Senha-Antiga-1"
  isActive := true
  authVersion := 0
  resetTokenHash := none
  resetTokenExpiresAt := none

theorem ana_ids : ([ana].map User.id).Nodup := List.nodup_singleton _

def anaOnly : System where
  users := ⟨[ana], ana_ids⟩

def anaLogsIn (i : Nat) : List Label :=
  .request (.login "ana@drac.local" "Senha-Antiga-1") :: List.replicate 4 (.advance i)

/-- A change of password from its beginning to its write. -/
def anaChangesPassword (i : Nat) : List Label :=
  [.request (.changeOwnPassword 1 "Senha-Antiga-1" "Senha-Nova-22"), .advance i, .advance i]

/-- A login and a refresh, and then the password changes. -/
theorem revoked_for_good_change : ∃ s t, Reach (authMachine 60000) Timely s ∧
    step 60000 s (.advance 2) = some t ∧
    s.calls.map Call.reader = [some ana, some ana, none] ∧ Revoked 60000 Timely s t 1 := by
  have hrun : ((authMachine 60000).run timely anaOnly
      (anaLogsIn 0 ++ Label.request (.refreshSession ⟨0⟩) :: List.replicate 3 (Label.advance 1) ++
        anaChangesPassword 2)).map
      (fun s => ((step 60000 s (.advance 2)).isSome, s.calls.map Call.reader,
        completes s (.advance 2), timely s (.advance 2))) =
      some (true, [some ana, some ana, none], some 1, true) := by
    rfl
  obtain ⟨s, hreach, heq⟩ := reach_of_run (G := Timely) hrun ⟨_, rfl⟩ (fun _ _ h => h)
  simp only [Prod.mk.injEq, Option.isSome_iff_exists] at heq
  obtain ⟨⟨t, ht⟩, hreaders, hdone, htimely⟩ := heq
  exact ⟨s, t, hreach, ht, hreaders,
    (revoked_for_good 60000 s (.advance 2) t hreach htimely ht).2 1 hdone⟩

/-- A refresh has read the session and the user; the password changes; the refresh then
exchanges its token. -/
theorem late_rotation : ¬ RevokesForGood 60000 Always := by
  have hrun : ((authMachine 60000).run anyStep anaOnly
      (anaLogsIn 0 ++ ([.request (.refreshSession ⟨0⟩), .advance 1] : List Label) ++
        anaChangesPassword 2)).map
      (fun s => (completes s (.advance 2), s.calls.map Call.reader,
        (step 60000 s (.advance 2)).map (fun t =>
          (exchanges t (.advance 1), (step 60000 t (.advance 1)).isSome)))) =
      some (some 1, [some ana, some ana, none], some (some ⟨0⟩, true)) := by
    rfl
  obtain ⟨s, hreach, heq⟩ := reach_of_anyStep hrun ⟨_, rfl⟩
  simp only [Prod.mk.injEq, Option.map_eq_some_iff, Option.isSome_iff_exists] at heq
  obtain ⟨hdone, hreaders, t, ht, hex, w, hw⟩ := heq
  intro hfinal
  have hrevoked := (hfinal s (.advance 2) t hreach trivial ht).2 1 hdone
  have hget : (s.calls.map Call.reader)[0]? = some (some ana) := by rw [hreaders]; rfl
  rw [List.getElem?_map, Option.map_eq_some_iff] at hget
  obtain ⟨c, hc, hreader⟩ := hget
  exact (hrevoked 0 c ana hc hreader rfl).1 t (.advance 1) w (.refl t) trivial hw hex

end Drac.Access.AuthSessions
