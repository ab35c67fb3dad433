import Mathlib.Data.List.Induction
import Mathlib.Data.Nat.Basic
import Drac.Lib.Loops
import Drac.Recordings.ProcessManager

/-
  The brake on restarts after crashes.

  `crash` is one death of a recording and what is planned for it, `crashes` those of a sequence
  of times with no stop in between. The history the manager keeps is pruned at each crash; what
  is pruned lies outside the window for good, as the times follow each other (`Recalls`), so
  that the brake counts all restarts of the window, not only those it still has.
-/

namespace Drac.Recordings.ProcessManager

open Runs

/-! ## A sequence of crashes -/

/-- The attempts kept, and the plans made. -/
structure CrashRun where
  /-- `restartAttempts` of the camera. -/
  attempts : List Nat := []
  /-- The plan of each crash, with its time. -/
  plans : List (Nat × RestartPlan) := []

def crash (c : RestartSettings) (s : CrashRun) (now : Nat) : CrashRun where
  attempts := (planRecordingRestart c now s.attempts).2
  plans := s.plans ++ [(now, (planRecordingRestart c now s.attempts).1)]

def crashes (c : RestartSettings) (times : List Nat) : CrashRun := times.foldl (crash c) {}

/-- The times of the crashes that were followed by a restart. -/
def restarts (plans : List (Nat × RestartPlan)) : List Nat :=
  (plans.filter (fun q => q.2.allowed)).map (·.1)

/-- The restarts a crash counts. -/
def recent (c : RestartSettings) (now : Nat) (at_ : List Nat) : List Nat :=
  at_.filter (fun t => now < t + c.windowMs)

/-- The restarts within a window from a time on. -/
def inWindow (c : RestartSettings) (from_ : Nat) (at_ : List Nat) : List Nat :=
  at_.filter (fun t => from_ ≤ t ∧ t < from_ + c.windowMs)

section Plan

variable {c : RestartSettings} {now : Nat} {attempts : List Nat}

theorem planRecordingRestart_cases (c : RestartSettings) (now : Nat) (attempts : List Nat) :
    (c.maxAttempts ≤ (recent c now attempts).length ∧
        (planRecordingRestart c now attempts).1.allowed = false ∧
        (planRecordingRestart c now attempts).2 = recent c now attempts) ∨
      ((recent c now attempts).length < c.maxAttempts ∧
        (planRecordingRestart c now attempts).1.allowed = true ∧
        (planRecordingRestart c now attempts).2 = recent c now attempts ++ [now]) := by
  unfold planRecordingRestart
  simp only
  split
  · next hfull => exact .inl ⟨hfull, rfl, rfl⟩
  · next hfree => exact .inr ⟨not_le.mp hfree, rfl, rfl⟩

theorem delayMs_le (c : RestartSettings) (now : Nat) (attempts : List Nat) :
    (planRecordingRestart c now attempts).1.delayMs ≤ c.maxDelayMs := by
  unfold planRecordingRestart
  simp only
  split
  · exact Nat.zero_le _
  · exact Nat.min_le_left _ _

theorem recent_append (at_ more : List Nat) :
    recent c now (at_ ++ more) = recent c now at_ ++ recent c now more := List.filter_append _ _

theorem recent_recent {later : Nat} (h : now ≤ later) :
    recent c later (recent c now attempts) = recent c later attempts := by
  unfold recent
  rw [List.filter_filter]
  refine List.filter_congr (fun t _ => ?_)
  rw [Bool.and_eq_left_iff_imp, decide_eq_true_eq, decide_eq_true_eq]
  omega

end Plan

/-! ## One crash more -/

/-- The history has all restarts that are recent, at any time from the last crash on. -/
def Recalls (c : RestartSettings) (times : List Nat) (s : CrashRun) : Prop :=
  ∀ now, (∀ t ∈ times, t ≤ now) → recent c now s.attempts = recent c now (restarts s.plans)

/-- A crash is allowed where fewer restarts than the maximum are recent. -/
def AllowedInTurn (c : RestartSettings) (plans : List (Nat × RestartPlan)) : Prop :=
  ∀ before q after, plans = before ++ q :: after →
    (q.2.allowed = true ↔ (recent c q.1 (restarts before)).length < c.maxAttempts)

/-- What is promised of the restarts. -/
structure Braked (c : RestartSettings) (s : CrashRun) : Prop where
  /-- In any window of the configured length there are no more restarts than the maximum. -/
  window : ∀ from_, (inWindow c from_ (restarts s.plans)).length ≤ c.maxAttempts
  delay : ∀ q ∈ s.plans, 0 ≤ q.2.delayMs ∧ q.2.delayMs ≤ c.maxDelayMs
  inTurn : AllowedInTurn c s.plans

variable {c : RestartSettings} {s : CrashRun} {times : List Nat} {now : Nat}

theorem restarts_append (plans : List (Nat × RestartPlan)) (q : Nat × RestartPlan) :
    restarts (plans ++ [q]) = restarts plans ++ (if q.2.allowed then [q.1] else []) := by
  unfold restarts
  rw [List.filter_append, List.map_append]
  cases hallowed : q.2.allowed with
  | true => simp [hallowed]
  | false => simp [hallowed]

theorem crash_restarts (c : RestartSettings) (s : CrashRun) (now : Nat) :
    restarts (crash c s now).plans = restarts s.plans ++
      (if (planRecordingRestart c now s.attempts).1.allowed then [now] else []) :=
  restarts_append _ _

theorem crash_recalls (h : Recalls c times s) : Recalls c (times ++ [now]) (crash c s now) := by
  intro later hlater
  have hle : now ≤ later := hlater now (List.mem_append_right _ List.mem_cons_self)
  have hbefore : recent c later s.attempts = recent c later (restarts s.plans) :=
    h later (fun t ht => hlater t (List.mem_append_left _ ht))
  have hkept : recent c later (recent c now s.attempts) = recent c later (restarts s.plans) := by
    rw [recent_recent hle, hbefore]
  rw [crash_restarts]
  show recent c later (planRecordingRestart c now s.attempts).2 = _
  rcases planRecordingRestart_cases c now s.attempts with ⟨-, hallowed, hattempts⟩ |
    ⟨-, hallowed, hattempts⟩
  · rw [hattempts, hallowed, hkept, if_neg (by decide), List.append_nil]
  · rw [hattempts, hallowed, if_pos rfl, recent_append, recent_append, hkept]

theorem crash_braked (h : Braked c s) (hrecalls : Recalls c times s)
    (hlast : ∀ t ∈ times, t ≤ now) : Braked c (crash c s now) := by
  have hrecent := hrecalls now hlast
  refine ⟨?_, ?_, ?_⟩
  · intro from_
    rw [crash_restarts, inWindow, List.filter_append, List.length_append]
    rcases planRecordingRestart_cases c now s.attempts with ⟨-, hallowed, -⟩ |
      ⟨hfree, hallowed, -⟩
    · rw [hallowed, if_neg (by decide)]
      exact h.window from_
    · rw [hallowed, if_pos rfl]
      by_cases hin : from_ ≤ now ∧ now < from_ + c.windowMs
      · -- those of the window that holds this restart are recent now
        have hsub : (inWindow c from_ (restarts s.plans)).length ≤
            (recent c now (restarts s.plans)).length := by
          refine List.Sublist.length_le (List.monotone_filter_right _ (fun t ht => ?_))
          have hwithin := of_decide_eq_true ht
          exact decide_eq_true (by omega)
        rw [← hrecent] at hsub
        have hone : ([now].filter (fun t => from_ ≤ t ∧ t < from_ + c.windowMs)).length ≤ 1 :=
          List.length_filter_le _ _
        unfold inWindow at hsub
        omega
      · have hnone : [now].filter (fun t => from_ ≤ t ∧ t < from_ + c.windowMs) = [] := by
          rw [List.filter_cons_of_neg (by simpa using hin), List.filter_nil]
        rw [hnone]
        exact h.window from_
  · intro q hq
    rcases List.mem_append.mp hq with hq | hq
    · exact h.delay q hq
    · rw [List.mem_singleton.mp hq]
      exact ⟨Nat.zero_le _, delayMs_le c now s.attempts⟩
  · refine Loops.concat_forall h.inTurn ?_
    rw [← hrecent]
    rcases planRecordingRestart_cases c now s.attempts with ⟨hfull, hallowed, -⟩ |
      ⟨hfree, hallowed, -⟩
    · simp only [hallowed, Bool.false_eq_true, false_iff, not_lt]
      exact hfull
    · simp only [hallowed, true_iff]
      exact hfree

/-! ## The theorem -/

theorem crashes_kept (c : RestartSettings) (times : List Nat) :
    times.Pairwise (· ≤ ·) → Recalls c times (crashes c times) ∧ Braked c (crashes c times) := by
  induction times using List.reverseRecOn with
  | nil =>
    intro _
    refine ⟨fun _ _ => rfl, fun _ => Nat.zero_le _, fun q hq => absurd hq List.not_mem_nil, ?_⟩
    intro before q after heq
    simp [crashes] at heq
  | append_singleton times now ih =>
    intro hsorted
    obtain ⟨hbefore, -, hle⟩ := List.pairwise_append.mp hsorted
    obtain ⟨hrecalls, hbraked⟩ := ih hbefore
    have hlast : ∀ t ∈ times, t ≤ now := fun t ht => hle t ht now List.mem_cons_self
    have hrun : crashes c (times ++ [now]) = crash c (crashes c times) now :=
      List.foldl_concat _ _ _ _
    rw [hrun]
    exact ⟨crash_recalls hrecalls, crash_braked hbraked hrecalls hlast⟩

/-- **The brake.** Of crashes that follow each other, with no stop in between, no more than
the maximum are restarted in any window, no delay is above the largest, and one that comes
when every restart before it has left the window is allowed, whatever was refused. -/
theorem restart_braked (c : RestartSettings) (hmax : 1 ≤ c.maxAttempts) (times : List Nat)
    (hsorted : times.Pairwise (· ≤ ·)) :
    (∀ from_, (inWindow c from_ (restarts (crashes c times).plans)).length ≤ c.maxAttempts) ∧
      (∀ q ∈ (crashes c times).plans, 0 ≤ q.2.delayMs ∧ q.2.delayMs ≤ c.maxDelayMs) ∧
      ∀ before q after, (crashes c times).plans = before ++ q :: after →
        (∀ t ∈ restarts before, t + c.windowMs ≤ q.1) → q.2.allowed = true := by
  obtain ⟨-, hbraked⟩ := crashes_kept c times hsorted
  refine ⟨hbraked.window, hbraked.delay, ?_⟩
  intro before q after heq hslid
  rw [hbraked.inTurn before q after heq]
  have hnone : recent c q.1 (restarts before) = [] := by
    refine List.filter_eq_nil_iff.mpr (fun t ht => ?_)
    have hleft := hslid t ht
    rw [decide_eq_true_eq]
    omega
  rw [hnone]
  exact hmax

/-- Six crashes in a row, of which the last is refused, and one when the window has slid. -/
theorem restart_braked_six :
    (crashes {} [0, 1000, 3000, 7000, 15000, 31000, 615000]).plans.map (fun q => q.2.allowed) =
      [true, true, true, true, true, false, true] ∧
    ∀ from_, (inWindow {} from_ (restarts
      (crashes {} [0, 1000, 3000, 7000, 15000, 31000, 615000]).plans)).length ≤ 5 :=
  ⟨by decide +kernel, (restart_braked {} (by decide) [0, 1000, 3000, 7000, 15000, 31000, 615000]
    (by decide)).1⟩

/-! ## The restart that is armed -/

/-- The plan of the `n`-th restart of a window. -/
def planned (c : RestartSettings) (n : Nat) : RestartPlan :=
  ⟨true, n, min c.maxDelayMs (c.baseDelayMs * 2 ^ (n - 1)), c.maxAttempts, c.windowMs⟩

/-- A timer that is set has its attempt in the history, and its backoff. -/
structure Armed (c : RestartSettings) (m : Manager) : Prop where
  history : m.restartAttempts.length ≤ c.maxAttempts
  timer : ∀ timer ∈ m.restartTimer, 0 < m.restartAttempts.length ∧
    timer.plan = planned c m.restartAttempts.length

variable {m m' : Manager} {a : Label}

theorem Armed.keep (h : Armed c m) (hattempts : m'.restartAttempts = m.restartAttempts)
    (htimer : m'.restartTimer = m.restartTimer ∨ m'.restartTimer = none) : Armed c m' := by
  refine ⟨hattempts ▸ h.history, fun timer ht => ?_⟩
  rw [hattempts]
  rcases htimer with heq | heq
  · exact h.timer timer (heq ▸ ht)
  · rw [heq] at ht
    cases ht

theorem Armed.schedule (h : Armed c m) (now : Nat) (r : RecordingProcessState) :
    Armed c (scheduleRecordingRestart c now r m) := by
  unfold scheduleRecordingRestart
  split
  · exact h
  split
  · exact h
  split
  · exact h
  next hidle =>
  split
  · exact h
  -- no timer is armed, so the history it would count may change
  have hnone : m.restartTimer = none := by simpa using hidle
  have hle : (recent c now m.restartAttempts).length ≤ m.restartAttempts.length :=
    List.length_filter_le _ _
  rcases planRecordingRestart_cases c now m.restartAttempts with
    ⟨-, hrefused, heq⟩ | ⟨hfree, hallowed, heq⟩
  · simp only [hrefused, Bool.false_eq_true, if_false, heq]
    refine ⟨Nat.le_trans hle h.history, fun timer ht => ?_⟩
    rw [hnone] at ht
    cases ht
  · have hplan : (planRecordingRestart c now m.restartAttempts).1 =
        planned c (recent c now m.restartAttempts ++ [now]).length := by
      rw [List.length_append]
      exact congrArg Prod.fst (if_neg (not_le.mpr hfree))
    simp only [hallowed, if_true, heq]
    refine ⟨by rw [List.length_append]; exact hfree, ?_⟩
    rintro timer ⟨⟩
    exact ⟨by simp, hplan⟩

theorem step_armed (h : Armed c m) (hstep : step c m a = some m') : Armed c m' := by
  cases a with
  | requestStart | requestStop | setEnabled =>
    cases hstep
    exact h.keep rfl (.inl rfl)
  | advanceStart i ok =>
    obtain ⟨t, ht, hnext⟩ := Option.bind_eq_some_iff.mp hstep
    dsimp only at hnext
    repeat' split at hnext
    all_goals first | (cases hnext; exact h.keep rfl (.inl rfl)) | cases hnext
  | advanceStop i ok =>
    obtain ⟨t, ht, hnext⟩ := Option.bind_eq_some_iff.mp hstep
    dsimp only at hnext
    cases hpc : t.pc with
    | updated =>
      simp only [hpc] at hnext
      split at hnext
      all_goals
        cases hnext
        exact ⟨Nat.zero_le _, fun _ ht => nomatch ht⟩
    | camera | resolving | updating | waiting | finalizing | finished =>
      simp only [hpc] at hnext
      repeat' split at hnext
      all_goals first | (cases hnext; exact h.keep rfl (.inl rfl)) | cases hnext
  | advanceRestart i ok =>
    obtain ⟨seconds, -, hnext⟩ := Option.bind_eq_some_iff.mp hstep
    dsimp only at hnext
    split at hnext <;> (cases hnext; exact h.keep rfl (.inl rfl))
  | giveUpStart i =>
    obtain ⟨t, w, -, -, rfl⟩ := giveUpStart_some hstep
    exact h.keep rfl (.inl rfl)
  | giveUpStop i =>
    obtain ⟨t, w, -, -, rfl⟩ := giveUpStop_some hstep
    exact h.keep rfl (.inl rfl)
  | timerFires =>
    obtain ⟨timer, -, hnext⟩ := Option.bind_eq_some_iff.mp hstep
    dsimp only at hnext
    split at hnext <;> (cases hnext; exact h.keep rfl (.inr rfl))
  | exits p => exact exits_some (c := c) hstep ▸ h.keep rfl (.inl rfl)
  | closes p => exact closes_some (c := c) hstep ▸ h.keep rfl (.inl rfl)
  | errors p => exact errors_some (c := c) hstep ▸ h.keep rfl (.inl rfl)
  | scanned p now =>
    obtain ⟨r, abnormal, -, -, rfl⟩ := scanned_some hstep
    unfold settleFinalize
    cases abnormal with
    | false =>
      simp only [Bool.false_eq_true, if_false]
      split <;> exact h.keep rfl (.inl rfl)
    | true =>
      simp only [if_true]
      refine Armed.schedule ?_ now r
      split <;> exact h.keep rfl (.inl rfl)

/-- **The armed restart.** Whatever calls and crashes cross, the history keeps to the maximum, and
a timer waits for the restart the history counts last, with the delay of that number. -/
theorem restart_armed (h : Reach (managerMachine c) Always m) :
    m.restartAttempts.length ≤ c.maxAttempts ∧
      ∀ timer ∈ m.restartTimer, 0 < m.restartAttempts.length ∧
        timer.plan = planned c m.restartAttempts.length := by
  have harmed : Armed c m := h.invariant (I := Armed c)
    (by rintro _ ⟨row, rfl⟩; exact ⟨Nat.zero_le _, fun _ ht => nomatch ht⟩)
    (fun _ _ _ hm _ hstep => step_armed hm hstep)
  exact ⟨harmed.history, harmed.timer⟩

/-- A recording that dies is started again after a second. -/
theorem restart_armed_once : ∃ m, Reach (managerMachine {}) Always m ∧
    m.restartTimer = some ⟨60, planned {} 1⟩ ∧ m.restartAttempts.length ≤ 5 := by
  have hrun : ((managerMachine {}).run anyStep { camera := ⟨true, true, "continuous"⟩ }
      (.requestStart 60 none :: List.replicate 6 (.advanceStart 0 true) ++
        [.exits 0, .closes 0, .scanned 0 1000])).map (·.restartTimer) =
      some (some ⟨60, planned {} 1⟩) := by
    rfl
  obtain ⟨m, hreach, htimer⟩ := reach_of_anyStep hrun ⟨_, rfl⟩
  exact ⟨m, hreach, htimer, (restart_armed hreach).1⟩

end Drac.Recordings.ProcessManager
