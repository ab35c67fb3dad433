import Drac.Access.LoginLockout

/-
  How many passwords are compared before a lock.

  Of one e-mail a run shows a `View`: its counter, its lock, how many of its logins wait for a
  read and how many for the comparison. `step_view` says what each step does to it. A login is
  let in by the lock alone, so the logins under way may be more than the attempts left. Where
  each finds room (`Roomy`), counter and logins under way stay within `maxAttempts`
  (`Within`): then the attempt that locks is the last under way.
-/

namespace Drac.Access.LoginLockout

open AuthSessions (User UserTable PasswordHash)
open Runs

variable {env : Env} {s t : System} {a : Label} {e : String}

/-! ## What a run shows of one e-mail -/

def Phase.waits : Phase → Bool
  | .readingSettings => true
  | .findingUser _ => true
  | _ => false

def Phase.compares : Phase → Bool
  | .comparing _ _ => true
  | _ => false

def callsOf (s : System) (e : String) (p : Phase → Bool) : Nat :=
  s.calls.countP (fun c => c.normalizedEmail = e && p c.phase)

/-- The entry of an e-mail, or a new one. -/
def attemptOf (s : System) (e : String) : LoginAttempt :=
  (JsMap.get? s.loginAttempts e).getD ⟨0, 0⟩

/-- What a system shows of one e-mail. -/
@[ext] structure View where
  attempt : LoginAttempt
  clock : Nat
  waiting : Nat
  comparing : Nat
  compared : Nat

def view (s : System) (e : String) : View where
  attempt := attemptOf s e
  clock := s.clock
  waiting := callsOf s e Phase.waits
  comparing := callsOf s e Phase.compares
  compared := s.compared.count e

def strike (maxAttempts clock : Nat) (attempt : LoginAttempt) : LoginAttempt :=
  if attempt.count + 1 ≥ maxAttempts then ⟨0, clock + LOCKOUT_MS⟩
  else ⟨attempt.count + 1, attempt.lockedUntil⟩

/-- What a step does to a view; `admitted` where a login of the e-mail passes the lock. -/
inductive Moves (maxAttempts : Nat) (admitted : Prop) (v : View) : View → Prop where
  | same : Moves maxAttempts admitted v v
  | tick (ms : Nat) : Moves maxAttempts admitted v { v with clock := v.clock + ms }
  | letIn (h : admitted) (hfree : v.attempt.lockedUntil ≤ v.clock) :
    Moves maxAttempts admitted v { v with waiting := v.waiting + 1 }
  | fail {waiting : Nat} (h : v.waiting = waiting + 1) :
    Moves maxAttempts admitted v { v with waiting := waiting }
  | compare {waiting : Nat} (h : v.waiting = waiting + 1) :
    Moves maxAttempts admitted v
      { v with waiting := waiting, comparing := v.comparing + 1, compared := v.compared + 1 }
  | unknown {waiting : Nat} (h : v.waiting = waiting + 1) :
    Moves maxAttempts admitted v
      { v with attempt := strike maxAttempts v.clock v.attempt, waiting := waiting }
  | wrong {comparing : Nat} (h : v.comparing = comparing + 1) :
    Moves maxAttempts admitted v
      { v with attempt := strike maxAttempts v.clock v.attempt, comparing := comparing }

/-! ## The condition -/

/-- The e-mail whose login passes the lock. -/
def admits (env : Env) (s : System) : Label → Option String
  | .login email _ =>
    let normalizedEmail := env.toLowerCase (JsText.trim email)
    if (lockOf s normalizedEmail).isNone then some normalizedEmail else none
  | _ => none

/-- The comparison of the e-mail's login that comes out now would be right. -/
def right (env : Env) (s : System) (e : String) : Label → Bool
  | .advance i =>
    match s.calls[i]? with
    | some ⟨email, password, .comparing _ user⟩ =>
      email = e && env.compare password user.passwordHash
    | _ => false
  | _ => false

def roomy (env : Env) (e : String) (s : System) (a : Label) : Bool :=
  !(right env s e a) &&
    (!(admits env s a = some e) ||
      (attemptOf s e).count + callsOf s e Phase.waits + callsOf s e Phase.compares <
        env.maxAttempts)

/-- The e-mail's passwords are wrong, and a login of it that passes the lock finds fewer
attempts counted and logins under way, together, than are allowed. -/
def Roomy (env : Env) (e : String) (s : System) (a : Label) : Prop := roomy env e s a = true

/-! ## Steps -/

theorem lockOf_isNone : (lockOf s e).isNone = true ↔ (attemptOf s e).lockedUntil ≤ s.clock := by
  unfold lockOf attemptOf
  cases JsMap.get? s.loginAttempts e with
  | none => simp
  | some lock => simp

theorem attemptOf_registerFailedAttempt (s : System) (email : String) (maxAttempts : Nat) :
    attemptOf (registerFailedAttempt s email maxAttempts) e =
      if email = e then strike maxAttempts s.clock (attemptOf s e) else attemptOf s e := by
  unfold registerFailedAttempt attemptOf strike
  simp only [JsMap.get?_set]
  split
  · next h => rw [h, Option.getD_some]
  · rfl

theorem callsOf_goTo {i : Nat} {c : Call} (hget : s.calls[i]? = some c) (phase : Phase)
    (p : Phase → Bool) :
    callsOf (s.goTo i c phase) e p + (if c.normalizedEmail = e && p c.phase then 1 else 0) =
      callsOf s e p + (if c.normalizedEmail = e && p phase then 1 else 0) := by
  obtain ⟨hlt, hc⟩ := List.getElem?_eq_some_iff.mp hget
  unfold callsOf System.goTo
  rw [List.countP_set hlt, hc]
  have hle : (if c.normalizedEmail = e && p c.phase then 1 else 0) ≤
      s.calls.countP (fun c => c.normalizedEmail = e && p c.phase) := by
    split
    · next h => exact List.countP_pos_iff.mpr ⟨c, List.mem_of_getElem? hget, h⟩
    · exact Nat.zero_le _
  dsimp only at hle ⊢
  omega

theorem callsOf_goTo_other {i : Nat} {c : Call} (hget : s.calls[i]? = some c) (phase : Phase)
    (p : Phase → Bool) (hother : c.normalizedEmail ≠ e) :
    callsOf (s.goTo i c phase) e p = callsOf s e p := by
  have h := callsOf_goTo (e := e) hget phase p
  simpa [hother] using h

theorem view_goTo_other {i : Nat} {c : Call} (hget : s.calls[i]? = some c) (phase : Phase)
    (hother : c.normalizedEmail ≠ e) : view (s.goTo i c phase) e = view s e := by
  apply View.ext
  · rfl
  · rfl
  · exact callsOf_goTo_other hget phase _ hother
  · exact callsOf_goTo_other hget phase _ hother
  · rfl

theorem view_goTo {i : Nat} {c : Call} (hget : s.calls[i]? = some c) (phase : Phase)
    (waiting comparing : Nat)
    (hwaiting : waiting + c.phase.waits.toNat = (view s c.normalizedEmail).waiting + phase.waits.toNat)
    (hcomparing : comparing + c.phase.compares.toNat =
      (view s c.normalizedEmail).comparing + phase.compares.toNat) :
    view (s.goTo i c phase) c.normalizedEmail =
      { view s c.normalizedEmail with waiting := waiting, comparing := comparing } := by
  have hif : ∀ b : Bool, (if (decide (c.normalizedEmail = c.normalizedEmail) && b) = true then 1 else 0)
      = b.toNat := by
    intro b
    cases b <;> simp
  have hw := callsOf_goTo (e := c.normalizedEmail) hget phase Phase.waits
  have hc := callsOf_goTo (e := c.normalizedEmail) hget phase Phase.compares
  rw [hif, hif] at hw hc
  apply View.ext
  · rfl
  · rfl
  · show callsOf (s.goTo i c phase) c.normalizedEmail Phase.waits = waiting
    have hsame : (view s c.normalizedEmail).waiting = callsOf s c.normalizedEmail Phase.waits := rfl
    omega
  · show callsOf (s.goTo i c phase) c.normalizedEmail Phase.compares = comparing
    have hsame : (view s c.normalizedEmail).comparing = callsOf s c.normalizedEmail Phase.compares :=
      rfl
    omega
  · rfl

theorem view_registerFailedAttempt (s : System) (email : String) (maxAttempts : Nat) :
    view (registerFailedAttempt s email maxAttempts) e =
      if email = e then { view s e with attempt := strike maxAttempts s.clock (attemptOf s e) }
      else view s e := by
  have hattempt := attemptOf_registerFailedAttempt (e := e) s email maxAttempts
  split
  · next h =>
    rw [if_pos h] at hattempt
    exact View.ext hattempt rfl rfl rfl rfl
  · next h =>
    rw [if_neg h] at hattempt
    exact View.ext hattempt rfl rfl rfl rfl

/-- Every login that has read the settings has read these. -/
def Read (env : Env) (s : System) : Prop :=
  ∀ (i : Nat) (c : Call), s.calls[i]? = some c →
    (∀ m, c.phase = .findingUser m → m = env.maxAttempts) ∧
    ∀ m user, c.phase = .comparing m user → m = env.maxAttempts

theorem callsOf_pos {i : Nat} {c : Call} (hget : s.calls[i]? = some c) {p : Phase → Bool}
    (hp : p c.phase = true) : ∃ n, callsOf s c.normalizedEmail p = n + 1 := by
  apply Nat.exists_eq_succ_of_ne_zero
  apply Nat.pos_iff_ne_zero.mp
  exact List.countP_pos_iff.mpr ⟨c, List.mem_of_getElem? hget, by simp [hp]⟩

variable {i : Nat} {c : Call} {admitted : Prop}

theorem moves_goTo (hget : s.calls[i]? = some c) (phase : Phase)
    (hwaits : phase.waits = c.phase.waits) (hcompares : phase.compares = c.phase.compares) :
    Moves env.maxAttempts admitted (view s e) (view (s.goTo i c phase) e) := by
  by_cases he : c.normalizedEmail = e
  · subst he
    rw [view_goTo hget phase (view s c.normalizedEmail).waiting
      (view s c.normalizedEmail).comparing (by rw [hwaits]) (by rw [hcompares])]
    exact .same
  · rw [view_goTo_other hget phase he]
    exact .same

theorem moves_refuse (hget : s.calls[i]? = some c) (waiting comparing : Nat)
    (hwaiting : waiting + c.phase.waits.toNat = (view s c.normalizedEmail).waiting)
    (hcomparing : comparing + c.phase.compares.toNat = (view s c.normalizedEmail).comparing)
    (hmoves : Moves env.maxAttempts admitted (view s c.normalizedEmail)
      { view s c.normalizedEmail with
        attempt := strike env.maxAttempts s.clock (attemptOf s c.normalizedEmail)
        waiting := waiting
        comparing := comparing }) :
    Moves env.maxAttempts admitted (view s e) (view (refuse s i c env.maxAttempts) e) := by
  have hget' : (registerFailedAttempt s c.normalizedEmail env.maxAttempts).calls[i]? = some c := hget
  have hview := view_registerFailedAttempt (e := e) s c.normalizedEmail env.maxAttempts
  unfold refuse
  by_cases he : c.normalizedEmail = e
  · subst he
    rw [if_pos rfl] at hview
    rw [view_goTo hget' credenciaisInvalidas waiting comparing, hview]
    · exact hmoves
    · rw [hview]
      exact hwaiting
    · rw [hview]
      exact hcomparing
  · rw [view_goTo_other hget' _ he, hview, if_neg he]
    exact .same

theorem moves_unknown (hget : s.calls[i]? = some c) {m : Nat} (hc : c.phase = .findingUser m) :
    Moves env.maxAttempts admitted (view s e) (view (refuse s i c env.maxAttempts) e) := by
  obtain ⟨waiting, hwaiting⟩ := callsOf_pos hget (p := Phase.waits) (by rw [hc]; rfl)
  refine moves_refuse hget waiting _ ?_ ?_ (.unknown hwaiting) <;> rw [hc]
  · exact hwaiting.symm
  · rfl

theorem moves_wrong (hget : s.calls[i]? = some c) {m : Nat} {user : User}
    (hc : c.phase = .comparing m user) :
    Moves env.maxAttempts admitted (view s e) (view (refuse s i c env.maxAttempts) e) := by
  obtain ⟨comparing, hcomparing⟩ := callsOf_pos hget (p := Phase.compares) (by rw [hc]; rfl)
  refine moves_refuse hget _ comparing ?_ ?_ (.wrong hcomparing) <;> rw [hc]
  · rfl
  · exact hcomparing.symm

theorem moves_compare (hget : s.calls[i]? = some c) {m : Nat} (hc : c.phase = .findingUser m)
    (user : User) :
    Moves env.maxAttempts admitted (view s e)
      (view ({ s with compared := s.compared ++ [c.normalizedEmail] }.goTo i c
        (.comparing m user)) e) := by
  have hget' : ({ s with compared := s.compared ++ [c.normalizedEmail] } : System).calls[i]? =
      some c := hget
  by_cases he : c.normalizedEmail = e
  · subst he
    obtain ⟨waiting, hwaiting⟩ := callsOf_pos hget (p := Phase.waits) (by rw [hc]; rfl)
    rw [view_goTo hget' (.comparing m user) waiting
      ((view s c.normalizedEmail).comparing + 1)]
    · have hcompared : (s.compared ++ [c.normalizedEmail]).count c.normalizedEmail =
          s.compared.count c.normalizedEmail + 1 := by simp
      rw [show view { s with compared := s.compared ++ [c.normalizedEmail] } c.normalizedEmail =
        { view s c.normalizedEmail with
          compared := (view s c.normalizedEmail).compared + 1 } from View.ext rfl rfl rfl rfl hcompared]
      exact .compare hwaiting
    · rw [hc]
      exact hwaiting.symm
    · rw [hc]
      rfl
  · rw [view_goTo_other hget' _ he]
    have hcompared : (s.compared ++ [c.normalizedEmail]).count e = s.compared.count e := by
      simp [he]
    rw [show view { s with compared := s.compared ++ [c.normalizedEmail] } e = view s e from
      View.ext rfl rfl rfl rfl hcompared]
    exact .same

theorem view_push (s : System) (c : Call) :
    view { s with calls := s.calls ++ [c] } e =
      if c.normalizedEmail = e then
        { view s e with
          waiting := (view s e).waiting + c.phase.waits.toNat
          comparing := (view s e).comparing + c.phase.compares.toNat }
      else view s e := by
  have hcount : ∀ p : Phase → Bool, callsOf { s with calls := s.calls ++ [c] } e p =
      callsOf s e p + if (c.normalizedEmail = e && p c.phase) = true then 1 else 0 := by
    intro p
    unfold callsOf
    rw [List.countP_append, List.countP_singleton]
  split
  · next he =>
    have hif : ∀ b : Bool, (if (decide (c.normalizedEmail = e) && b) = true then 1 else 0) = b.toNat := by
      intro b
      cases b <;> simp [he]
    apply View.ext
    · rfl
    · rfl
    · exact (hcount Phase.waits).trans (by rw [hif]; rfl)
    · exact (hcount Phase.compares).trans (by rw [hif]; rfl)
    · rfl
  · next he =>
    apply View.ext
    · rfl
    · rfl
    · exact (hcount Phase.waits).trans (by simp [he]; rfl)
    · exact (hcount Phase.compares).trans (by simp [he]; rfl)
    · rfl

theorem moves_startLogin (s : System) (email password : String) :
    Moves env.maxAttempts (admits env s (.login email password) = some e) (view s e)
      (view (startLogin env s email password) e) := by
  unfold startLogin admits
  dsimp only
  rw [view_push]
  by_cases he : env.toLowerCase (JsText.trim email) = e
  · rw [if_pos he, he]
    cases hlock : lockOf s e with
    | some lock => exact .same
    | none => exact .letIn rfl (lockOf_isNone.mp (by rw [hlock]; rfl))
  · rw [if_neg he]
    exact .same

theorem moves_advance (hread : Read env s) (hget : s.calls[i]? = some c)
    (hwrong : right env s e (.advance i) = false) (h : advance env s i c = some t) :
    Moves env.maxAttempts admitted (view s e) (view t e) := by
  unfold advance at h
  cases hc : c.phase with
  | readingSettings =>
    rw [hc] at h
    cases h
    exact moves_goTo hget _ (by rw [hc]; rfl) (by rw [hc]; rfl)
  | findingUser m =>
    have hm := (hread i c hget).1 m hc
    subst hm
    rw [hc] at h
    dsimp only at h
    cases huser : activeUser s c.normalizedEmail with
    | none =>
      rw [huser] at h
      cases h
      exact moves_unknown hget hc
    | some user =>
      rw [huser] at h
      cases h
      exact moves_compare hget hc user
  | comparing m user =>
    have hm := (hread i c hget).2 m user hc
    subst hm
    rw [hc] at h
    dsimp only at h
    split at h
    · next hright =>
      -- the right password of another e-mail
      have he : c.normalizedEmail ≠ e := by
        intro he
        obtain ⟨email, password, phase⟩ := c
        dsimp only at hc he hright
        subst hc he
        simp [right, hget, hright] at hwrong
      cases h
      have hget' : ({ s with loginAttempts := JsMap.erase s.loginAttempts c.normalizedEmail } :
          System).calls[i]? = some c := hget
      rw [view_goTo_other hget' _ he]
      have hattempt : attemptOf { s with loginAttempts := JsMap.erase s.loginAttempts c.normalizedEmail }
          e = attemptOf s e := by
        unfold attemptOf
        rw [JsMap.get?_erase, if_neg he]
      rw [show view { s with loginAttempts := JsMap.erase s.loginAttempts c.normalizedEmail } e =
        view s e from View.ext hattempt rfl rfl rfl rfl]
      exact .same
    · cases h
      exact moves_wrong hget hc
  | accepted | refused | failed =>
    rw [hc] at h
    cases h

/-- **What a step does to the view of an e-mail** whose password is not given right. -/
theorem step_view (hread : Read env s) (hwrong : right env s e a = false)
    (h : step env s a = some t) :
    Moves env.maxAttempts (admits env s a = some e) (view s e) (view t e) := by
  cases a with
  | login email password =>
    cases h
    exact moves_startLogin s email password
  | advance i =>
    obtain ⟨c, hget, hc⟩ := Option.bind_eq_some_iff.mp h
    exact moves_advance hread hget hwrong hc
  | fail i =>
    obtain ⟨c, hget, hc⟩ := Option.bind_eq_some_iff.mp h
    cases hphase : c.phase with
    | findingUser m =>
      rw [hphase] at hc
      cases hc
      by_cases he : c.normalizedEmail = e
      · subst he
        obtain ⟨waiting, hwaiting⟩ := callsOf_pos hget (p := Phase.waits) (by rw [hphase]; rfl)
        rw [view_goTo hget .failed waiting
          (view s c.normalizedEmail).comparing]
        · exact .fail hwaiting
        · rw [hphase]
          exact hwaiting.symm
        · rw [hphase]
          rfl
      · rw [view_goTo_other hget _ he]
        exact .same
    | readingSettings | comparing | accepted | refused | failed =>
      rw [hphase] at hc
      cases hc
  | setUsers users =>
    cases h
    exact .same
  | tick ms =>
    cases h
    exact .tick ms

theorem read_goTo (hread : Read env s) {phase : Phase}
    (hfinding : ∀ m, phase = .findingUser m → m = env.maxAttempts)
    (hcomparing : ∀ m user, phase = .comparing m user → m = env.maxAttempts) :
    Read env (s.goTo i c phase) := by
  intro j c' hget
  obtain ⟨-, rfl⟩ | ⟨-, hget⟩ := getElem?_set_some hget
  · exact ⟨hfinding, hcomparing⟩
  · exact hread j c' hget

theorem read_step (hread : Read env s) (h : step env s a = some t) : Read env t := by
  cases a with
  | login email password =>
    cases h
    intro j c hget
    obtain hget | ⟨-, rfl⟩ := getElem?_concat_some hget
    · exact hread j c hget
    · dsimp only
      split
      · exact ⟨(fun m h => nomatch h), (fun m user h => nomatch h)⟩
      · exact ⟨(fun m h => nomatch h), (fun m user h => nomatch h)⟩
  | advance i =>
    obtain ⟨c, hget, hc⟩ := Option.bind_eq_some_iff.mp h
    unfold advance at hc
    cases hphase : c.phase with
    | readingSettings =>
      rw [hphase] at hc
      cases hc
      exact read_goTo hread (fun m h => by cases h; rfl) (fun m user h => nomatch h)
    | findingUser m =>
      rw [hphase] at hc
      dsimp only at hc
      split at hc
      · cases hc
        exact read_goTo (s := registerFailedAttempt s c.normalizedEmail m) hread
          (fun m h => nomatch h) (fun m user h => nomatch h)
      · next user _ =>
        cases hc
        refine read_goTo (s := { s with compared := s.compared ++ [c.normalizedEmail] }) hread
          (fun m h => nomatch h) (fun m' user' heq => ?_)
        cases heq
        exact (hread i c hget).1 m hphase
    | comparing m user =>
      rw [hphase] at hc
      dsimp only at hc
      split at hc
      · cases hc
        exact read_goTo (s := { s with
          loginAttempts := JsMap.erase s.loginAttempts c.normalizedEmail }) hread
          (fun m h => nomatch h) (fun m user h => nomatch h)
      · cases hc
        exact read_goTo (s := registerFailedAttempt s c.normalizedEmail m) hread
          (fun m h => nomatch h) (fun m user h => nomatch h)
    | accepted | refused | failed =>
      rw [hphase] at hc
      cases hc
  | fail i =>
    obtain ⟨c, hget, hc⟩ := Option.bind_eq_some_iff.mp h
    split at hc
    · cases hc
      exact read_goTo hread (fun m h => nomatch h) (fun m user h => nomatch h)
    · cases hc
  | setUsers users =>
    cases h
    exact hread
  | tick ms =>
    cases h
    exact hread

/-! ## Runs -/

/-- What the lock promises of an e-mail. -/
structure View.Bounded (maxAttempts : Nat) (v : View) : Prop where
  compared : v.attempt.lockedUntil = 0 → v.compared ≤ maxAttempts
  locked : v.clock < v.attempt.lockedUntil → v.comparing = 0

/-- The bound, with what keeps it. -/
structure View.Within (maxAttempts : Nat) (v : View) : Prop where
  room : v.attempt.count + v.waiting + v.comparing ≤ maxAttempts
  counted : v.attempt.lockedUntil = 0 → v.compared ≤ v.attempt.count + v.comparing
  locked : v.clock < v.attempt.lockedUntil → v.waiting + v.comparing = 0

theorem View.Within.bounded {maxAttempts : Nat} {v : View} (h : v.Within maxAttempts) :
    v.Bounded maxAttempts where
  compared := by
    intro hnever
    have hroom := h.room
    have hcounted := h.counted hnever
    omega
  locked := by
    intro hlocked
    have hnone := h.locked hlocked
    omega

theorem within_strike {maxAttempts : Nat} {v : View} (h : v.Within maxAttempts)
    {waiting comparing : Nat} (hless : waiting + comparing + 1 = v.waiting + v.comparing)
    (hcomparing : v.comparing ≤ comparing + 1) :
    View.Within maxAttempts { v with
      attempt := strike maxAttempts v.clock v.attempt, waiting := waiting
      comparing := comparing } := by
  have hroom := h.room
  unfold strike
  split
  · next hlast =>
    refine ⟨?_, ?_, ?_⟩
    · show 0 + waiting + comparing ≤ maxAttempts
      omega
    · intro hnever
      have hpos : v.clock + LOCKOUT_MS = 0 := hnever
      have hms : 0 < LOCKOUT_MS := by decide
      omega
    · intro _
      show waiting + comparing = 0
      omega
  · refine ⟨?_, ?_, ?_⟩
    · show v.attempt.count + 1 + waiting + comparing ≤ maxAttempts
      omega
    · intro hnever
      have hcounted := h.counted hnever
      show v.compared ≤ v.attempt.count + 1 + comparing
      omega
    · intro hlocked
      have hnone := h.locked hlocked
      omega

theorem within_moves {maxAttempts : Nat} {v w : View} (hmoves : Moves maxAttempts admitted v w)
    (hroomy : admitted → v.attempt.count + v.waiting + v.comparing < maxAttempts)
    (h : v.Within maxAttempts) : w.Within maxAttempts := by
  have hroom := h.room
  cases hmoves with
  | same => exact h
  | tick ms =>
    refine ⟨h.room, h.counted, ?_⟩
    intro hlocked
    apply h.locked
    have hlater : v.clock + ms < v.attempt.lockedUntil := hlocked
    omega
  | letIn hadmitted hfree =>
    have hfits := hroomy hadmitted
    refine ⟨?_, h.counted, ?_⟩
    · show v.attempt.count + (v.waiting + 1) + v.comparing ≤ maxAttempts
      omega
    · intro hlocked
      have hlater : v.clock < v.attempt.lockedUntil := hlocked
      omega
  | @fail waiting hwaiting =>
    refine ⟨?_, h.counted, ?_⟩
    · show v.attempt.count + waiting + v.comparing ≤ maxAttempts
      omega
    · intro hlocked
      have hnone := h.locked hlocked
      show waiting + v.comparing = 0
      omega
  | @compare waiting hwaiting =>
    refine ⟨?_, ?_, ?_⟩
    · show v.attempt.count + waiting + (v.comparing + 1) ≤ maxAttempts
      omega
    · intro hnever
      have hcounted := h.counted hnever
      show v.compared + 1 ≤ v.attempt.count + (v.comparing + 1)
      omega
    · intro hlocked
      have hnone := h.locked hlocked
      omega
  | unknown hwaiting => exact within_strike h (by omega) (by omega)
  | wrong hcomparing => exact within_strike h (by omega) (by omega)

/-- **The lockout bound.** In a run in which the passwords for an e-mail are wrong and each login
of it that passes the lock finds room, at most `maxAttempts` passwords are compared for it before
it is locked, and none while the lock lasts. -/
theorem lockout_bound (env : Env) (e : String) (t : System)
    (h : Reach (loginMachine env) (Roomy env e) t) :
    ((attemptOf t e).lockedUntil = 0 → t.compared.count e ≤ env.maxAttempts) ∧
    (t.clock < (attemptOf t e).lockedUntil →
      ∀ c ∈ t.calls, c.normalizedEmail = e → c.phase.compares = false) := by
  have hkept : Read env t ∧ (view t e).Within env.maxAttempts := by
    refine h.invariant (I := fun t => Read env t ∧ (view t e).Within env.maxAttempts) ?_ ?_
    · rintro s ⟨users, clock, rfl⟩
      refine ⟨fun i c hget => ?_, ⟨Nat.zero_le _, fun _ => Nat.le_refl _, fun _ => rfl⟩⟩
      cases hget
    · rintro s a t ⟨hread, hwithin⟩ hguard hstep
      refine ⟨read_step hread hstep, ?_⟩
      unfold Roomy roomy at hguard
      rw [Bool.and_eq_true, Bool.not_eq_true'] at hguard
      refine within_moves (step_view hread hguard.1 hstep) ?_ hwithin
      intro hadmits
      have hroom := hguard.2
      rw [hadmits, decide_eq_true rfl, Bool.not_true, Bool.false_or, decide_eq_true_eq] at hroom
      exact hroom
  have hbounded := hkept.2.bounded
  refine ⟨hbounded.compared, ?_⟩
  intro hlocked c hc he
  have hnone : callsOf t e Phase.compares = 0 := hbounded.locked hlocked
  have hfree := List.countP_eq_zero.mp hnone c hc
  simpa [he] using hfree

def threeAttempts : Env where
  toLowerCase := id
  compare := fun _ _ => false
  maxLoginAttempts := some 3

def oneUser : System where
  users := {
    rows := [{
      id := 1, email := "ana", passwordHash := .bcrypt "s", isActive := true, authVersion := 0
      resetTokenHash := none, resetTokenExpiresAt := none }]
    ids := List.nodup_singleton 1 }

def wrongLogin (i : Nat) : List Label :=
  .login "ana" "x" :: List.replicate 3 (.advance i)

/-- One login after another: the third locks, and the fourth is turned away. -/
theorem lockout_bound_in_turn : ∃ t, Reach (loginMachine threeAttempts) (Roomy threeAttempts "ana") t ∧
    t.clock < (attemptOf t "ana").lockedUntil ∧
    ∀ c ∈ t.calls, c.normalizedEmail = "ana" → c.phase.compares = false := by
  have hrun : ((loginMachine threeAttempts).run (roomy threeAttempts "ana") oneUser
      (wrongLogin 0 ++ wrongLogin 1 ++ wrongLogin 2 ++ [.login "ana" "x"])).map
        (fun t => decide (t.clock < (attemptOf t "ana").lockedUntil)) = some true := by
    decide +kernel
  obtain ⟨t, hreach, hlocked⟩ :=
    reach_of_run (G := Roomy threeAttempts "ana") hrun ⟨_, _, rfl⟩ (fun _ _ h => h)
  have hlock := of_decide_eq_true hlocked
  exact ⟨t, hreach, hlock, (lockout_bound threeAttempts "ana" t hreach).2 hlock⟩

/-- Four logins that come together find no lock, and all have their password compared. -/
theorem crowd_compared : ¬ ∀ t,
    Reach (loginMachine threeAttempts) (fun s a => right threeAttempts s "ana" a = false) t →
    (attemptOf t "ana").lockedUntil = 0 → t.compared.count "ana" ≤ threeAttempts.maxAttempts := by
  have hrun : ((loginMachine threeAttempts).run (fun s a => !right threeAttempts s "ana" a) oneUser
      (List.replicate 4 (.login "ana" "x") ++
        [0, 1, 2, 3].flatMap (fun i => List.replicate 2 (.advance i)))).map
        (fun t => ((attemptOf t "ana").lockedUntil, t.compared.count "ana")) = some (0, 4) := by
    decide +kernel
  obtain ⟨t, ht, heq⟩ := Option.map_eq_some_iff.mp hrun
  obtain ⟨hfree, hfour⟩ := Prod.mk.inj heq
  intro hbound
  have hle := hbound t ⟨oneUser, ⟨_, _, rfl⟩,
    path_of_run (fun _ _ h => Bool.eq_false_iff.mpr (by simpa using h)) _ ht⟩ hfree
  rw [hfour] at hle
  exact absurd hle (by decide)

end Drac.Access.LoginLockout
