import Mathlib.Data.List.Count
import Drac.Lib.Runs

/-
  The confirmation of motion on the shared model.

  Correspondence (`confirm_motion.py` ↔ Lean):
    run_confirm_motion      ↔ `Call`, and `act` from one `await` to the next
    asyncio.Semaphore       ↔ `Service.permits`; a call holds one inside of `async with sem`
    asyncio.to_thread       ↔ `Thread`; nothing stops a thread that runs
    _failsafe               ↔ the same name

  A call of `run_confirm_motion` and its thread go on in any order with the others; a deadline
  may expire and a caller may be cancelled wherever the call awaits. `shield` keeps a cancelled
  wait from the task, while a task that is awaited directly is cancelled with its awaiter.

    false_only_from_call       `confirmed = False` is never made up, in any run
    cancelled_caller_overlap   a cancelled caller gives back a permit that its thread still uses
-/

namespace Drac.Vision.ConfirmMotion

open Runs

structure Result where
  confirmed : Option Bool
  reason : Option String
  labels : List String
  deriving DecidableEq

inductive Outcome where
  | returned (result : Result)
  | timeoutError
  | error (text : String)
  deriving DecidableEq

/-- The thread of a call. -/
inductive Thread where
  | notCreated
  | scheduled
  | running
  | finished (outcome : Outcome)
  /-- The task was cancelled before its thread began. -/
  | dropped
  deriving DecidableEq

inductive Phase where
  /-- At `async with sem`. -/
  | acquiring
  /-- At `wait_for(shield(task))`. -/
  | waiting
  /-- At `await task`, after the deadline. -/
  | draining
  | returned (result : Result)
  | cancelled
  deriving DecidableEq

structure Call where
  phase : Phase := .acquiring
  thread : Thread := .notCreated
  deriving DecidableEq

/-- The semaphore and the calls. -/
structure Service where
  permits : ℕ
  calls : List Call := []

def failsafe (reason : String) : Result := ⟨none, some reason, []⟩

/-- What a call returns when its task ends in time. A `TimeoutError` of the blocking call is taken
for the deadline's. -/
def answer : Outcome → Result
  | .returned result => result
  | .timeoutError => failsafe "timeout"
  | .error text => failsafe ("error:" ++ text)

/-- What happens to a call. -/
inductive Action where
  | enter
  | threadBegins
  | threadEnds (outcome : Outcome)
  | deadline
  /-- The call goes on when its task has ended. -/
  | resume
  | cancel
  deriving DecidableEq

def act (call : Call) : Action → Option Call
  | .enter => if call.phase = .acquiring then some ⟨.waiting, .scheduled⟩ else none
  | .threadBegins => if call.thread = .scheduled then some { call with thread := .running } else none
  | .threadEnds outcome =>
    if call.thread = .running then some { call with thread := .finished outcome } else none
  | .deadline => if call.phase = .waiting then some { call with phase := .draining } else none
  | .resume =>
    match call.phase, call.thread with
    | .waiting, .finished outcome => some { call with phase := .returned (answer outcome) }
    | .draining, .finished _ => some { call with phase := .returned (failsafe "timeout") }
    | _, _ => none
  | .cancel =>
    match call.phase with
    | .acquiring | .waiting => some { call with phase := .cancelled }
    | .draining =>
      some ⟨.cancelled, if call.thread = .scheduled then .dropped else call.thread⟩
    | .returned _ | .cancelled => none

/-- The call is inside of `async with sem`. -/
def Call.holds (call : Call) : Bool := call.phase = .waiting || call.phase = .draining

def Call.runs (call : Call) : Bool := call.thread = .running

/-- The blocking call is running, or will. -/
def Call.live (call : Call) : Bool := call.thread = .scheduled || call.runs

inductive Label where
  | request
  | act (i : ℕ) (action : Action)

/-- `async with` takes a permit on the way in and gives it back on the way out. -/
def step (s : Service) : Label → Option Service
  | .request => some { s with calls := s.calls ++ [({} : Call)] }
  | .act i action =>
    (s.calls[i]?).bind fun call => (act call action).bind fun next =>
      if s.permits + call.holds.toNat < next.holds.toNat then none
      else some ⟨s.permits + call.holds.toNat - next.holds.toNat, s.calls.set i next⟩

/-- So many permits, and no calls. -/
def confirmations (n : ℕ) : Machine Service Label where
  init := fun s => s = ⟨n, []⟩
  step := step

/-! ## Steps -/

variable {s t : Service} {call next : Call} {action : Action} {n : ℕ}

theorem step_cases {a : Label} (h : step s a = some t) :
    (a = .request ∧ t = ⟨s.permits, s.calls ++ [({} : Call)]⟩) ∨
      ∃ i action call next, a = .act i action ∧ s.calls[i]? = some call ∧
        act call action = some next ∧ t.calls = s.calls.set i next ∧
        t.permits + next.holds.toNat = s.permits + call.holds.toNat := by
  cases a with
  | request => exact .inl ⟨rfl, (Option.some.inj h).symm⟩
  | act i action =>
    obtain ⟨call, hcall, h⟩ := Option.bind_eq_some_iff.mp h
    obtain ⟨next, hnext, h⟩ := Option.bind_eq_some_iff.mp h
    split at h
    · cases h
    next henough =>
      cases h
      refine .inr ⟨i, action, call, next, rfl, hcall, hnext, rfl, ?_⟩
      dsimp only
      omega

theorem calls_step {P : Call → Prop} {a : Label} (hall : ∀ call ∈ s.calls, P call) (hnew : P {})
    (hact : ∀ i action call next, a = .act i action → s.calls[i]? = some call → P call →
      act call action = some next → P next) (h : step s a = some t) :
    ∀ call ∈ t.calls, P call := by
  intro c hc
  obtain ⟨-, rfl⟩ | ⟨i, action, call, next, ha, hcall, hnext, hcalls, -⟩ := step_cases h
  · obtain hold | hlast := List.mem_append.mp hc
    · exact hall c hold
    · rw [List.mem_singleton.mp hlast]
      exact hnew
  · rw [hcalls] at hc
    obtain hold | rfl := List.mem_or_eq_of_mem_set hc
    · exact hall c hold
    · exact hact i action call c ha hcall (hall call (List.mem_of_getElem? hcall)) hnext

theorem permits_step {a : Label} (h : step s a = some t)
    (hn : s.permits + s.calls.countP Call.holds = n) :
    t.permits + t.calls.countP Call.holds = n := by
  obtain ⟨-, rfl⟩ | ⟨i, action, call, next, -, hcall, -, hcalls, hpermits⟩ := step_cases h
  · rw [List.countP_append]
    simpa [Call.holds] using hn
  · obtain ⟨hi, hget⟩ := List.getElem?_eq_some_iff.mp hcall
    have hcount := List.countP_set (p := Call.holds) (a := next) hi
    have hone : call.holds.toNat ≤ s.calls.countP Call.holds := by
      cases hold : call.holds with
      | false => exact Nat.zero_le _
      | true => exact List.countP_pos_iff.mpr ⟨call, List.mem_of_getElem? hcall, hold⟩
    have hbit : ∀ c : Call, (if c.holds = true then 1 else 0) = c.holds.toNat := by
      intro c
      cases c.holds <;> rfl
    rw [hcalls, hcount, hget, hbit, hbit]
    omega

/-! ## The permit and the thread -/

/-- A thread that has work to do is that of a call with a permit. -/
def Guarded (call : Call) : Prop := call.live = true → call.holds = true

theorem act_guarded (h : act call action = some next) (hguarded : Guarded call)
    (hcancel : action = .cancel → call.live = true → call.holds = false) : Guarded next := by
  unfold Guarded Call.live Call.runs Call.holds at *
  obtain ⟨phase, thread⟩ := call
  cases action with
  | enter | threadEnds =>
    simp only [act] at h
    split at h <;> cases h
    simp
  | threadBegins | deadline | resume | cancel =>
    simp only [act] at h
    split at h <;> cases h <;> simp_all

/-- A result that says `False` is that of the blocking call. -/
def Honest (call : Call) : Prop := ∀ result, call.phase = .returned result →
  result.confirmed = some false → call.thread = .finished (.returned result)

theorem act_honest (h : act call action = some next) (hhonest : Honest call) : Honest next := by
  unfold Honest at *
  obtain ⟨phase, thread⟩ := call
  intro result hphase hfalse
  cases action with
  | enter | deadline =>
    simp only [act] at h
    split at h <;> cases h
    cases hphase
  | threadBegins | threadEnds =>
    -- the thread of a call that has returned `False` has ended
    simp only [act] at h
    split at h <;> cases h
    next hthread => exact absurd ((hhonest result hphase hfalse).symm.trans hthread) (by simp)
  | resume =>
    simp only [act] at h
    split at h <;> cases h
    next outcome =>
      cases hphase
      cases outcome with
      | returned result => rfl
      | timeoutError | error => cases hfalse
    · cases hphase
      cases hfalse
  | cancel =>
    simp only [act] at h
    split at h <;> cases h <;> cases hphase

/-! ## Runs -/

/-- No caller is cancelled while it holds a permit and its thread has work to do. -/
def Unhurried (s : Service) : Label → Prop
  | .act i .cancel => ∀ call, s.calls[i]? = some call → call.live = true → call.holds = false
  | _ => True

theorem false_only_from_call {s : Service} (h : Reach (confirmations n) Always s) :
    ∀ call ∈ s.calls, Honest call := by
  refine h.invariant (I := fun s => ∀ call ∈ s.calls, Honest call) ?_ ?_
  · rintro s rfl call hcall
    cases hcall
  · intro s a t hs _ hstep
    exact calls_step hs (fun _ hphase => by cases hphase)
      (fun _ _ _ _ _ _ hcall hact => act_honest hact hcall) hstep

/-- **Serialisation**: no more blocking calls run than there are permits, and only what a blocking
call has returned says `False`. -/
theorem serialised_confirmations {s : Service} (h : Reach (confirmations n) Unhurried s) :
    s.calls.countP Call.runs ≤ n ∧ ∀ call ∈ s.calls, ∀ result, call.phase = .returned result →
      result.confirmed = some false → call.thread = .finished (.returned result) := by
  refine ⟨?_, false_only_from_call (h.mono fun _ _ _ => trivial)⟩
  have hinv : s.permits + s.calls.countP Call.holds = n ∧ ∀ call ∈ s.calls, Guarded call := by
    refine h.invariant (I := fun s => s.permits + s.calls.countP Call.holds = n ∧
      ∀ call ∈ s.calls, Guarded call) ?_ ?_
    · rintro s rfl
      exact ⟨rfl, fun call hcall => by cases hcall⟩
    · intro s a t hs hunhurried hstep
      refine ⟨permits_step hstep hs.1, calls_step hs.2 (fun hlive => by cases hlive) ?_ hstep⟩
      intro i action call next ha hcall hguarded hact
      apply act_guarded hact hguarded
      rintro rfl
      subst ha
      exact hunhurried call hcall
  have hle : s.calls.countP Call.runs ≤ s.calls.countP Call.holds := by
    apply List.countP_mono_left
    intro call hcall hruns
    exact hinv.2 call hcall (by rw [Call.live, hruns, Bool.or_true])
  omega

/-! ## Two calls and one permit -/

/-- The deadline of the first expires while its thread runs; the second waits for the permit. -/
def inTurn : List Label := [.request, .request, .act 0 .enter, .act 0 .threadBegins,
  .act 0 .deadline, .act 0 (.threadEnds (.returned ⟨some false, some "no_object", []⟩)),
  .act 0 .resume, .act 1 .enter, .act 1 .threadBegins]

def overlapping : List Label := [.request, .request, .act 0 .enter, .act 0 .threadBegins,
  .act 0 .cancel, .act 1 .enter, .act 1 .threadBegins]

def isNotCancel : Service → Label → Bool
  | _, .act _ .cancel => false
  | _, _ => true

theorem unhurried_of_isNotCancel (s : Service) (a : Label) (h : isNotCancel s a = true) :
    Unhurried s a := by
  cases a with
  | request => trivial
  | act i action =>
    cases action with
    | cancel => cases h
    | _ => trivial

theorem serialised_confirmations_in_turn : ∃ s,
    (confirmations 1).run isNotCancel ⟨1, []⟩ inTurn = some s ∧ s.calls.countP Call.runs ≤ 1 := by
  have hrun : ((confirmations 1).run isNotCancel ⟨1, []⟩ inTurn).isSome = true := by decide
  obtain ⟨s, hs⟩ := Option.isSome_iff_exists.mp hrun
  have hreach : Reach (confirmations 1) Unhurried s :=
    ⟨_, rfl, path_of_run unhurried_of_isNotCancel _ hs⟩
  exact ⟨s, hs, (serialised_confirmations hreach).1⟩

theorem cancelled_caller_overlap : ¬ ∀ n s, Reach (confirmations n) Always s →
    s.calls.countP Call.runs ≤ n := by
  intro h
  have hrun : ((confirmations 1).run anyStep ⟨1, []⟩ overlapping).map
      (fun s => s.calls.countP Call.runs) = some 2 := by decide
  obtain ⟨s, hreach, htwo⟩ := reach_of_anyStep hrun rfl
  have hone := h 1 s hreach
  omega

end Drac.Vision.ConfirmMotion
