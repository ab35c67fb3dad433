import Drac.Recordings.MotionRecording

/-
  The post-roll of a motion event.

  A callback of the stop timer awaits the row of the camera, the ring and its call of `stop`;
  an event answered meanwhile sets the timer again, which is not there any more, and the
  callback goes on to stop the recording (`post_roll_cut`). A call of `start` that the
  database refuses does the same to the process it spawned. Where no event is answered
  `already_recording` while a callback is in flight, or about a process these have asked to
  stop, and no such call is taken back within the post-roll of an answer, every post-roll is
  honoured (`post_roll_honoured`).

  The invariant is `Covered`: within the post-roll of an answer no callback is in flight, and
  the timer fires after it.
-/

namespace Drac.Recordings.MotionRecording

open Runs ProcessManager

/-! ## The property -/

/-- What an entry of the log owes to one before it: a process is not asked to stop within the
post-roll of an answer, unless from outside, and no answer is about a process that was. -/
def Respects (postRollMs : Nat) : Entry → Entry → Prop
  | .answered _ t, .asked _ u by_ => by_.outside = true ∨ t + postRollMs ≤ u
  | .asked q _ by_, .answered p _ => q = p → by_.outside = true
  | _, _ => True

/-- Every recording an event was told of goes on to the end of the post-roll of the event,
unless the user or the guard of the disk stops it. -/
def Honoured (c : MotionSettings) (m : MotionRecorder) : Prop :=
  m.log.Pairwise (Respects c.postRollMs)

/-! ## The condition -/

def MotionRecorder.quiet (m : MotionRecorder) : Bool := m.callbacks.all (· = .finished)

/-- The process has not been asked to stop, but from outside. -/
def MotionRecorder.unasked (m : MotionRecorder) (p : ProcId) : Bool :=
  m.log.all (fun e =>
    match e with
    | .asked q _ by_ => q ≠ p || by_.outside
    | .answered _ _ => true)

/-- No event was answered less than the post-roll ago. -/
def MotionRecorder.postRollOver (c : MotionSettings) (m : MotionRecorder) : Bool :=
  m.log.all (fun e =>
    match e with
    | .answered _ t => t + c.postRollMs ≤ m.now
    | .asked _ _ _ => true)

/-- The process about which a piece of a handler answers `already_recording`. -/
def answering (m : MotionRecorder) (k : Nat) (ok : Bool) : Option ProcId :=
  (m.events[k]?).bind (fun pc =>
    match pc with
    | .camera =>
      if ok ∧ m.manager.camera.enabled ∧ m.manager.camera.recordingMode = "motion" then
        m.manager.active
      else none
    | .registering p false => if ok then some p else none
    | _ => none)

/-- The branches that cut a post-roll short are not taken: an event is answered where no
callback is in flight and the process is not stopping, and no start is taken back within the
post-roll of an answer. -/
def leavesPostRoll (c : MotionSettings) (m : MotionRecorder) : Label → Bool
  | .advanceEvent k ok _ => (answering m k ok).all (fun p => m.quiet && m.unasked p)
  | .manager a => (requested m a).all (fun r => r.2 ≠ .rollback || m.postRollOver c)
  | _ => true

def LeavesPostRoll (c : MotionSettings) (m : MotionRecorder) (a : Label) : Prop :=
  leavesPostRoll c m a = true

/-! ## The invariant -/

/-- The entry is not an answer, or its post-roll is covered: while it lasts no callback is in
flight, and a timer there is fires after it. -/
structure CoveredAnswer (c : MotionSettings) (m : MotionRecorder) (t : Nat) : Prop where
  past : t ≤ m.now
  quiet : m.now < t + c.postRollMs → m.quiet = true
  timer : ∀ deadline, m.stopTimer = some deadline → t + c.postRollMs ≤ deadline

/-- Within the post-roll of an answer neither timer nor callback stops the recording. -/
def Covered (c : MotionSettings) (m : MotionRecorder) : Prop :=
  ∀ p t, Entry.answered p t ∈ m.log → CoveredAnswer c m t

/-- The post-roll is honoured, and the timer covers what is to come. -/
structure Kept (c : MotionSettings) (m : MotionRecorder) : Prop where
  honoured : Honoured c m
  covered : Covered c m

variable {c : MotionSettings} {m m' : MotionRecorder}

theorem quiet_notMem (h : m.quiet = true) {pc : CallbackPc} (hpc : pc ∈ m.callbacks) :
    pc = .finished :=
  of_decide_eq_true (List.all_eq_true.mp h pc hpc)

theorem le_timeoutMs {ms : Nat} (h : ms ≤ maxTimeout) : ms ≤ timeoutMs ms := by
  unfold timeoutMs
  split
  · exact Nat.le_refl ms
  · omega

theorem Kept.frame (h : Kept c m) (hlog : m'.log = m.log) (hnow : m.now ≤ m'.now)
    (hquiet : m.quiet = true → m'.quiet = true)
    (htimer : ∀ deadline, m'.stopTimer = some deadline →
      m.stopTimer = some deadline ∨ m.now + c.postRollMs ≤ deadline) : Kept c m' := by
  refine ⟨?_, ?_⟩
  · rw [Honoured, hlog]
    exact h.honoured
  · intro p t hmem
    rw [hlog] at hmem
    have hcovered := h.covered p t hmem
    have hpast := hcovered.past
    refine ⟨Nat.le_trans hpast hnow, ?_, ?_⟩
    · intro hlt
      exact hquiet (hcovered.quiet (Nat.lt_of_le_of_lt hnow hlt))
    · intro deadline hdeadline
      rcases htimer deadline hdeadline with hold | hnew
      · exact hcovered.timer deadline hold
      · omega

theorem Kept.stay (h : Kept c m) (hlog : m'.log = m.log) (hnow : m'.now = m.now)
    (hcallbacks : m'.callbacks = m.callbacks) (htimer : m'.stopTimer = m.stopTimer) : Kept c m' := by
  refine h.frame hlog (Nat.le_of_eq hnow.symm) ?_ ?_
  · rw [MotionRecorder.quiet, MotionRecorder.quiet, hcallbacks]
    exact id
  · intro deadline hdeadline
    exact .inl (htimer ▸ hdeadline)

theorem Kept.ask (h : Kept c m) {p : ProcId} {by_ : Asker}
    (hlog : m'.log = m.log ++ [.asked p m.now by_]) (hnow : m'.now = m.now)
    (hcallbacks : m'.callbacks = m.callbacks) (htimer : m'.stopTimer = m.stopTimer)
    (hby : by_.outside = true ∨ ∀ q t, Entry.answered q t ∈ m.log → t + c.postRollMs ≤ m.now) :
    Kept c m' := by
  refine ⟨?_, ?_⟩
  · rw [Honoured, hlog, List.pairwise_append]
    refine ⟨h.honoured, List.pairwise_singleton _ _, ?_⟩
    intro e he f hf
    rw [List.mem_singleton.mp hf]
    cases e with
    | answered q t =>
      rcases hby with hout | hover
      · exact .inl hout
      · exact .inr (hover q t he)
    | asked q u by' => trivial
  · intro q t hmem
    rw [hlog] at hmem
    rcases List.mem_append.mp hmem with hold | hnew
    · have hcovered := h.covered q t hold
      refine ⟨hnow ▸ hcovered.past, ?_, ?_⟩
      · intro hlt
        rw [hnow] at hlt
        rw [MotionRecorder.quiet, hcallbacks]
        exact hcovered.quiet hlt
      · rw [htimer]
        exact hcovered.timer
    · cases List.mem_singleton.mp hnew

theorem Kept.answer (h : Kept c m) (hpost : c.postRollMs ≤ maxTimeout) {k : Nat} {p : ProcId}
    (hquiet : m.quiet = true) (hunasked : m.unasked p = true) :
    Kept c (answerAlready c k p m) := by
  have hlog : (answerAlready c k p m).log = m.log ++ [.answered p m.now] := rfl
  have htimer : (answerAlready c k p m).stopTimer = some (m.now + timeoutMs c.postRollMs) := rfl
  have hdelay := le_timeoutMs hpost
  refine ⟨?_, ?_⟩
  · rw [Honoured, hlog, List.pairwise_append]
    refine ⟨h.honoured, List.pairwise_singleton _ _, ?_⟩
    intro e he f hf
    rw [List.mem_singleton.mp hf]
    cases e with
    | answered q t => trivial
    | asked q u by_ =>
      intro hq
      have hask := List.all_eq_true.mp hunasked _ he
      simpa [hq] using hask
  · intro q t hmem
    rw [hlog] at hmem
    have hpast : t ≤ m.now := by
      rcases List.mem_append.mp hmem with hold | hnew
      · exact (h.covered q t hold).past
      · cases List.mem_singleton.mp hnew
        exact Nat.le_refl _
    refine ⟨hpast, fun _ => hquiet, ?_⟩
    intro deadline hdeadline
    rw [htimer] at hdeadline
    cases hdeadline
    omega

theorem Kept.fires (h : Kept c m) (hstep : motionTimerFires m = some m') : Kept c m' := by
  obtain ⟨deadline, htimer, hfires⟩ := Option.bind_eq_some_iff.mp hstep
  split at hfires
  · next hdue =>
    cases hfires
    refine ⟨h.honoured, ?_⟩
    intro p t hmem
    have hcovered := h.covered p t hmem
    have hafter := hcovered.timer deadline htimer
    refine ⟨hcovered.past, ?_, ?_⟩
    · intro hlt
      have hnow : m.now < t + c.postRollMs := hlt
      omega
    · intro d hd
      cases hd
  · cases hfires

/-! ## One step -/

theorem Kept.event (h : Kept c m) (hpost : c.postRollMs ≤ maxTimeout) {k : Nat} {ok ring : Bool}
    (hguard : LeavesPostRoll c m (.advanceEvent k ok ring))
    (hstep : advanceEvent c k ok ring m = some m') : Kept c m' := by
  obtain ⟨pc, hk, hstep⟩ := Option.bind_eq_some_iff.mp hstep
  have hguard : ∀ p, answering m k ok = some p → m.quiet = true ∧ m.unasked p = true := by
    intro p hp
    have hall : (answering m k ok).all (fun p => m.quiet && m.unasked p) = true := hguard
    rw [hp] at hall
    simpa using hall
  cases pc with
  | camera =>
    simp only at hstep
    split at hstep
    · cases hstep
      exact h.stay rfl rfl rfl rfl
    · next hok =>
      split at hstep
      · cases hstep
        exact h.stay rfl rfl rfl rfl
      · next hmotion =>
        split at hstep
        · next p hactive =>
          cases hstep
          rw [not_or, not_not, not_not] at hmotion
          have hp : answering m k ok = some p := by
            rw [answering, hk]
            exact (if_pos ⟨not_not.mp hok, hmotion.1, hmotion.2⟩).trans hactive
          exact h.answer hpost (hguard p hp).1 (hguard p hp).2
        · cases hstep
          split
          all_goals exact h.stay rfl rfl rfl rfl
  | promoting =>
    cases hstep
    exact h.stay rfl rfl rfl rfl
  | starting i =>
    simp only at hstep
    split at hstep
    · cases hstep
      exact h.stay rfl rfl rfl rfl
    · cases hstep
      exact h.stay rfl rfl rfl rfl
    · cases hstep
      exact h.stay rfl rfl rfl rfl
    · cases hstep
  | registering p own =>
    simp only at hstep
    split at hstep
    · cases hstep
      exact h.stay rfl rfl rfl rfl
    · next hok =>
      split at hstep
      · cases hstep
        refine h.frame rfl (Nat.le_refl _) id ?_
        intro deadline hdeadline
        have hdelay := le_timeoutMs hpost
        have hset : some (m.now + timeoutMs c.postRollMs) = some deadline := hdeadline
        cases hset
        exact .inr (by omega)
      · next hown =>
        cases hstep
        rw [Bool.not_eq_true] at hown
        have hp : answering m k ok = some p := by
          rw [answering, hk, hown]
          exact if_pos (not_not.mp hok)
        exact h.answer hpost (hguard p hp).1 (hguard p hp).2
  | finished answer => cases hstep

theorem Kept.callback (h : Kept c m) {k : Nat} {ok ring : Bool}
    (hstep : advanceCallback k ok ring m = some m') : Kept c m' := by
  obtain ⟨pc, hk, hstep⟩ := Option.bind_eq_some_iff.mp hstep
  have hflight : ∀ {m'' : MotionRecorder}, pc ≠ .finished → m''.log = m.log → m''.now = m.now →
      m''.stopTimer = m.stopTimer → Kept c m'' := by
    intro m'' hpc hlog hnow htimer
    refine h.frame hlog (Nat.le_of_eq hnow.symm) ?_ (fun d hd => .inl (htimer ▸ hd))
    intro hquiet
    exact absurd (quiet_notMem hquiet (List.mem_of_getElem? hk)) hpc
  cases pc with
  | camera =>
    simp only at hstep
    split at hstep
    · cases hstep
      split
      all_goals exact hflight (by decide) rfl rfl rfl
    · cases hstep
      exact hflight (by decide) rfl rfl rfl
  | raising =>
    cases hstep
    exact hflight (by decide) rfl rfl rfl
  | stopping i =>
    simp only at hstep
    split at hstep
    · cases hstep
      exact hflight (fun hpc => by cases hpc) rfl rfl rfl
    · cases hstep
  | finished => cases hstep

theorem requested_cases {a : ProcessManager.Label} {p : ProcId} {by_ : Asker}
    (h : requested m a = some (p, by_)) :
    by_.outside = true ∨ (by_ = .motionStop ∧ ∃ i, CallbackPc.stopping i ∈ m.callbacks) ∨
      by_ = .rollback := by
  cases a with
  | advanceStop i ok =>
    obtain ⟨t, -, h⟩ := Option.bind_eq_some_iff.mp h
    split at h
    · obtain ⟨q, -, hq⟩ := Option.map_eq_some_iff.mp h
      cases hq
      by_cases hcallback : m.ofCallback i = true
      · rw [if_pos hcallback]
        obtain ⟨pc, hmem, hpc⟩ := List.any_eq_true.mp hcallback
        exact .inr (.inl ⟨rfl, i, of_decide_eq_true hpc ▸ hmem⟩)
      · rw [if_neg hcallback]
        exact .inl rfl
    · cases h
  | advanceStart i ok =>
    obtain ⟨t, -, h⟩ := Option.bind_eq_some_iff.mp h
    split at h
    · cases h
      exact .inr (.inr rfl)
    · cases h
      exact .inr (.inr rfl)
    · cases h
  | _ => cases h

theorem Kept.managed (h : Kept c m) {a : ProcessManager.Label}
    (hguard : LeavesPostRoll c m (.manager a)) (hstep : managerStep c a m = some m') : Kept c m' := by
  obtain ⟨manager, -, hstep⟩ := Option.bind_eq_some_iff.mp hstep
  cases hstep
  have hguard : (requested m a).all (fun r => r.2 ≠ .rollback || m.postRollOver c) = true := hguard
  cases hask : requested m a with
  | none =>
    refine h.stay ?_ rfl rfl rfl
    simp only [Option.map_none, Option.toList_none, List.append_nil]
  | some r =>
    obtain ⟨p, by_⟩ := r
    have hlog : m.log ++ ((some (p, by_)).map (fun r => Entry.asked r.1 m.now r.2)).toList =
        m.log ++ [.asked p m.now by_] := rfl
    refine h.ask hlog rfl rfl rfl ?_
    rcases requested_cases hask with hout | ⟨-, i, hmem⟩ | hback
    · exact .inl hout
    · -- a callback is in flight, so no post-roll lasts
      refine .inr ?_
      intro q t hanswer
      by_contra hlt
      have hquiet := (h.covered q t hanswer).quiet (by omega)
      cases quiet_notMem hquiet hmem
    · refine .inr ?_
      intro q t hanswer
      rw [hask, hback] at hguard
      have hover : m.postRollOver c = true := by simpa using hguard
      exact of_decide_eq_true (List.all_eq_true.mp hover _ hanswer)

theorem step_kept {a : Label} (hpost : c.postRollMs ≤ maxTimeout) (h : Kept c m)
    (hguard : LeavesPostRoll c m a) (hstep : step c m a = some m') : Kept c m' := by
  cases a with
  | tick ms =>
    cases hstep
    exact h.frame rfl (Nat.le_add_right _ _) id (fun d hd => .inl hd)
  | motion =>
    cases hstep
    exact h.stay rfl rfl rfl rfl
  | advanceEvent k ok ring => exact h.event hpost hguard hstep
  | motionTimerFires => exact h.fires hstep
  | advanceCallback k ok ring => exact h.callback hstep
  | setMotionRecording enabled =>
    cases hstep
    refine h.frame rfl (Nat.le_refl _) id ?_
    intro deadline hdeadline
    cases hdeadline
  | advanceArming k ok =>
    obtain ⟨t, -, hstep⟩ := Option.bind_eq_some_iff.mp hstep
    split at hstep
    · split at hstep
      · cases hstep
        exact h.stay rfl rfl rfl rfl
      · cases hstep
    · simp only at hstep
      split at hstep
      all_goals
        cases hstep
        exact h.stay rfl rfl rfl rfl
    · cases hstep
  | suspend =>
    obtain ⟨p, -, hstep⟩ := Option.bind_eq_some_iff.mp hstep
    cases hstep
    exact h.ask rfl rfl rfl rfl (.inl rfl)
  | advanceSuspension k =>
    obtain ⟨pc, -, hstep⟩ := Option.bind_eq_some_iff.mp hstep
    split at hstep
    · split at hstep
      · cases hstep
        exact h.stay rfl rfl rfl rfl
      · cases hstep
    · split at hstep
      · cases hstep
        exact h.stay rfl rfl rfl rfl
      · cases hstep
    · cases hstep
  | giveUpSuspension k =>
    obtain ⟨pc, -, hstep⟩ := Option.bind_eq_some_iff.mp hstep
    split at hstep
    · cases hstep
      exact h.stay rfl rfl rfl rfl
    · cases hstep
  | manager a => exact h.managed hguard hstep

/-! ## The theorem -/

theorem init_kept (c : MotionSettings) (row : CameraRow) : Kept c { manager := { camera := row } } :=
  ⟨.nil, fun _ _ h => absurd h List.not_mem_nil⟩

/-- **Every post-roll is honoured** in the runs in which no event is answered while a callback
of the timer is in flight, or about a process asked to stop, and no start is taken back. -/
theorem post_roll_honoured (c : MotionSettings) (hpost : c.postRollMs ≤ maxTimeout)
    {m : MotionRecorder} (h : Reach (motionMachine c) (LeavesPostRoll c) m) : Honoured c m := by
  have hkept : Kept c m := by
    refine h.invariant ?_ ?_
    · rintro s ⟨row, rfl⟩
      exact init_kept c row
    · intro s a t hs hguard hstep
      exact step_kept hpost hs hguard hstep
  exact hkept.honoured

/-! ## Runs -/

def armedRow : CameraRow := ⟨true, false, "motion"⟩

def eventStarts : List Label :=
  ([.motion, .advanceEvent 0 true false] : List Label) ++
    List.replicate 8 (.manager (.advanceStart 0 true)) ++
    ([.advanceEvent 0 true false, .advanceEvent 0 true false] : List Label)

def eventAgain : List Label := [.motion, .advanceEvent 1 true false]

def timerStops : List Label :=
  [.motionTimerFires, .advanceCallback 0 true false]

/-- The call of `stop` asks the process to. -/
def stopAsks : List Label := List.replicate 4 (.manager (.advanceStop 0 true))

theorem post_roll_honoured_twice : ∃ m, Reach (motionMachine {}) (LeavesPostRoll {}) m ∧
    m.log = [.answered 0 30000, .asked 0 90000 .motionStop] ∧ Honoured {} m := by
  have hrun : ((motionMachine {}).run (leavesPostRoll {}) { manager := { camera := armedRow } }
      (eventStarts ++ ([.tick 30000] : List Label) ++ eventAgain ++ ([.tick 60000] : List Label) ++
        timerStops ++ stopAsks)).map (·.log) =
      some [.answered 0 30000, .asked 0 90000 .motionStop] := by
    rfl
  obtain ⟨m, hreach, hlog⟩ :=
    reach_of_run (G := LeavesPostRoll {}) hrun ⟨armedRow, rfl⟩ (fun _ _ h => h)
  exact ⟨m, hreach, hlog, post_roll_honoured {} (by decide) hreach⟩

/-- An event that comes while the callback awaits its call of `stop` is told that the recording
runs, and the callback stops it at once. -/
theorem post_roll_cut : ∃ m, Reach (motionMachine {}) Always m ∧ ¬ Honoured {} m := by
  have hrun : ((motionMachine {}).run anyStep { manager := { camera := armedRow } }
      (eventStarts ++ ([.tick 60000] : List Label) ++ timerStops ++ eventAgain ++ stopAsks)).map
      (·.log) = some [.answered 0 60000, .asked 0 60000 .motionStop] := by
    rfl
  obtain ⟨m, hreach, hlog⟩ := reach_of_anyStep hrun ⟨armedRow, rfl⟩
  refine ⟨m, hreach, ?_⟩
  intro hhonoured
  rw [Honoured, hlog, List.pairwise_cons] at hhonoured
  rcases hhonoured.1 _ List.mem_cons_self with hout | hover
  · cases hout
  · exact absurd hover (by decide)

end Drac.Recordings.MotionRecording
