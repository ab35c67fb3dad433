import Drac.Recordings.SingleRecorder

/-
  A stop wins.

  A call of `start` writes `recordingEnabled` itself, after it spawned; a call of `stop`
  that lands in between finds no process yet, or writes before it (`stop_overtaken`). The
  histories `outwritten` and `outrun` of a call of `start` say that a stop which began
  after it has written its wish, and has looked for the process. `Heeds` is the condition:
  such a call neither writes nor spawns any more, and `SpawnsAlone` holds. In every run
  whose steps meet it, a completed stop with no start requested since it began leaves no
  process live and `recordingEnabled` off (`stop_wins`).

  What a stop has achieved is `Written` once its update is answered and `Looked` once it
  has looked for the process; every step but a request of a start keeps both.
-/

namespace Drac.Recordings.ProcessManager

open Runs

/-! ## The property and the condition -/

/-- The call has returned to its caller. -/
def StopCall.completed (t : StopCall) : Bool :=
  match t.pc with
  | .finished .notRecording | .finished .recordingStopped => true
  | _ => false

/-- No call of `start` and no restart is in flight. -/
def quiescent (m : Manager) : Bool :=
  m.starts.all (fun t => !t.inFlight) && m.restarts.isEmpty

/-- After each completed stop with no start requested since it began, nothing records once
the calls in flight are over. -/
def StopWins (m : Manager) : Prop :=
  ∀ t ∈ m.stops, t.completed = true → t.fresh = true → quiescent m = true →
    (∀ p, m.live p = false) ∧ m.camera.recordingEnabled = false

/-- The step is a call of `start` writing `recordingEnabled`. -/
def writesOn (m : Manager) : Label → Bool
  | .advanceStart i ok => ok && (m.starts[i]?).any (fun t =>
      match t.pc with
      | .updating .. => true
      | _ => false)
  | _ => false

/-- The call of `start` a step advances satisfies `f`. -/
def startAt (m : Manager) (f : StartCall → Bool) : Label → Bool
  | .advanceStart i _ => (m.starts[i]?).any f
  | _ => false

/-- A call of `start` that a later stop has overtaken writes no more, and spawns no more. -/
def heeds (m : Manager) (a : Label) : Bool :=
  spawnsAlone m a && !(writesOn m a && startAt m (·.outwritten) a) &&
    !(spawns m a && startAt m (·.outrun) a)

def Heeds (m : Manager) (a : Label) : Prop := heeds m a = true

variable {m : Manager} {a : Label}

theorem Heeds.spawnsAlone (h : Heeds m a) : SpawnsAlone m a := by
  simp only [Heeds, heeds, Bool.and_eq_true] at h
  exact h.1.1

variable {i : Nat} {ok : Bool}

theorem Heeds.writes {t : StartCall}
    (h : Heeds m (.advanceStart i ok)) (hget : m.starts[i]? = some t)
    (hw : writesOn m (.advanceStart i ok) = true) : t.outwritten = false := by
  simp only [Heeds, heeds, startAt, hw, hget, Bool.and_eq_true, Option.any_some, Bool.true_and,
    Bool.not_eq_true'] at h
  exact h.1.2

theorem Heeds.spawns {t : StartCall}
    (h : Heeds m (.advanceStart i ok)) (hget : m.starts[i]? = some t)
    (hs : spawns m (.advanceStart i ok) = true) : t.outrun = false := by
  simp only [Heeds, heeds, startAt, hs, hget, Bool.and_eq_true, Option.any_some, Bool.true_and,
    Bool.not_eq_true'] at h
  exact h.2

/-! ## What a stop has achieved -/

/-- The stop's update is the last word: recording is off, and every call of `start` in
flight is overtaken. -/
structure Written (m : Manager) : Prop where
  off : m.camera.recordingEnabled = false
  overtaken : ∀ t ∈ m.starts, t.inFlight = true → t.outwritten = true

/-- The stop has looked for the process: no restart is armed, no call of `start` may spawn
any more, and a process whose finalization is not over was told to stop and is `waited`. -/
structure Looked (waited : ProcId → Prop) (m : Manager) : Prop where
  timer : m.restartTimer = none
  overtaken : ∀ t ∈ m.starts, t.beforeSpawn = true → t.outrun = true
  procs : ∀ (p : ProcId) r, m.procs[p]? = some r → r.finalize ≠ .done →
    r.stopRequested = true ∧ waited p

/-- What a call of `stop` has achieved where it stands. -/
def Achieved (m : Manager) : StopPc → Prop
  | .updated => Written m
  | .waiting w => Written m ∧ Looked (· = w.proc) m
  | .finalizing p => Written m ∧ Looked (· = p) m
  | .finished .notRecording | .finished .recordingStopped =>
    Written m ∧ Looked (fun _ => False) m
  | _ => True

/-! ## Every step but a request of a start keeps it -/

variable {m' : Manager}

theorem advanceStart_camera
    (hstep : advanceStart i ok m = some m') (hw : writesOn m (.advanceStart i ok) = false) :
    m'.camera = m.camera := by
  obtain ⟨t, ht, h⟩ := Option.bind_eq_some_iff.mp hstep
  dsimp only at h
  split at h
  case h_8 hpc =>
    split at h
    · next hok => simp [writesOn, hok, ht, hpc] at hw
    · split at h <;> (cases h; rfl)
  all_goals
    repeat' split at h
    all_goals first | (cases h; rfl) | cases h

theorem advanceStop_off
    (hstep : advanceStop i ok m = some m') (hoff : m.camera.recordingEnabled = false) :
    m'.camera.recordingEnabled = false := by
  obtain ⟨t, ht, h⟩ := Option.bind_eq_some_iff.mp hstep
  dsimp only at h
  repeat' split at h
  all_goals first | (cases h; exact hoff) | (cases h; rfl) | cases h

variable {c : RestartSettings}

theorem step_off
    (hstep : step c m a = some m') (hoff : m.camera.recordingEnabled = false)
    (hw : writesOn m a = false) : m'.camera.recordingEnabled = false := by
  cases a with
  | requestStart | requestStop | setEnabled => cases hstep; exact hoff
  | advanceStart i ok => rw [advanceStart_camera hstep hw]; exact hoff
  | advanceStop i ok => exact advanceStop_off hstep hoff
  | advanceRestart i ok =>
    obtain ⟨seconds, hget, h⟩ := Option.bind_eq_some_iff.mp hstep
    dsimp only at h
    split at h <;> (cases h; exact hoff)
  | giveUpStart i =>
    obtain ⟨t, w, -, -, rfl⟩ := giveUpStart_some hstep
    exact hoff
  | giveUpStop i =>
    obtain ⟨t, w, -, -, rfl⟩ := giveUpStop_some hstep
    exact hoff
  | timerFires => rw [(timerFires_calls hstep).2.2]; exact hoff
  | exits | closes | errors | scanned =>
    simp only [step] at hstep
    rw [(procEvent_calls hstep).2.2]
    exact hoff

theorem Written.writesOn (h : Written m) (hguard : Heeds m a) :
    ProcessManager.writesOn m a = false := by
  rw [Bool.eq_false_iff]
  intro hw
  cases a with
  | advanceStart i ok =>
    have hat := hw
    simp only [ProcessManager.writesOn, Bool.and_eq_true, Option.any_eq_true] at hat
    obtain ⟨-, t, hget, hpc⟩ := hat
    have hflight : t.inFlight = true := by
      unfold StartCall.inFlight
      split at hpc
      · next heq => rw [heq]
      · cases hpc
    have hover := h.overtaken t (List.mem_of_getElem? hget) hflight
    rw [hguard.writes hget hw] at hover
    cases hover
  | _ => cases hw

theorem step_written
    (ha : ∀ seconds mode, a ≠ .requestStart seconds mode) (hguard : Heeds m a)
    (hstep : step c m a = some m') (h : Written m) : Written m' := by
  refine ⟨step_off hstep h.off (h.writesOn hguard), ?_⟩
  intro t' ht' hflight
  rcases step_starts ha hstep ht' with hmoved | hnew
  · obtain ⟨t, ht, hmove⟩ := hmoved
    exact hmove.outwritten (h.overtaken t ht (hmove.inFlight hflight))
  · have hon := hnew.wanted
    rw [h.off] at hon
    cases hon

theorem scheduleRecordingRestart_stopRequested {now : Nat}
    {r : RecordingProcessState} (hr : r.stopRequested = true) :
    scheduleRecordingRestart c now r m = m := by
  unfold scheduleRecordingRestart
  rw [if_pos hr]

theorem step_timer
    (hstep : step c m a = some m') (htimer : m.restartTimer = none)
    (hprocs : ∀ (p : ProcId) r, m.procs[p]? = some r → r.finalize ≠ .done →
      r.stopRequested = true) : m'.restartTimer = none := by
  cases a with
  | requestStart | requestStop | setEnabled => cases hstep; exact htimer
  | advanceStart i ok =>
    obtain ⟨t, ht, h⟩ := Option.bind_eq_some_iff.mp hstep
    dsimp only at h
    repeat' split at h
    all_goals first | (cases h; exact htimer) | cases h
  | advanceStop i ok =>
    obtain ⟨t, ht, h⟩ := Option.bind_eq_some_iff.mp hstep
    dsimp only at h
    repeat' split at h
    all_goals first | (cases h; exact htimer) | (cases h; rfl) | cases h
  | advanceRestart i ok =>
    obtain ⟨seconds, hget, h⟩ := Option.bind_eq_some_iff.mp hstep
    dsimp only at h
    split at h <;> (cases h; exact htimer)
  | giveUpStart i =>
    obtain ⟨t, w, -, -, rfl⟩ := giveUpStart_some hstep
    exact htimer
  | giveUpStop i =>
    obtain ⟨t, w, -, -, rfl⟩ := giveUpStop_some hstep
    exact htimer
  | timerFires =>
    simp only [step, timerFires, htimer] at hstep
    cases hstep
  | exits p => exact exits_some (c := c) hstep ▸ htimer
  | closes p => exact closes_some (c := c) hstep ▸ htimer
  | errors p => exact errors_some (c := c) hstep ▸ htimer
  | scanned p now =>
    obtain ⟨r, abnormal, hget, hscan, rfl⟩ := scanned_some hstep
    have hr := hprocs p r hget (by simp [hscan])
    simp only [settleFinalize, scheduleRecordingRestart_stopRequested hr, ite_self]
    split <;> exact htimer

theorem Looked.spawns {waited : ProcId → Prop} (h : Looked waited m)
    (hguard : Heeds m a) : ProcessManager.spawns m a = false := by
  rw [Bool.eq_false_iff]
  intro hs
  cases a with
  | advanceStart i ok =>
    have hat := hs
    simp only [ProcessManager.spawns, Bool.and_eq_true, Option.any_eq_true] at hat
    obtain ⟨-, t, hget, hprobing⟩ := hat
    have hbefore : t.beforeSpawn = true := by
      unfold StartCall.beforeSpawn
      split at hprobing
      · next hpc => rw [hpc]
      · cases hprobing
    have hover := h.overtaken t (List.mem_of_getElem? hget) hbefore
    rw [hguard.spawns hget hs] at hover
    cases hover
  | _ => cases hs

theorem step_looked {waited : ProcId → Prop}
    (hm : Registered m) (ha : ∀ seconds mode, a ≠ .requestStart seconds mode)
    (hguard : Heeds m a) (hstep : step c m a = some m') (hw : Written m) (h : Looked waited m) :
    Looked waited m' := by
  refine ⟨step_timer hstep h.timer (fun p r hget hr => (h.procs p r hget hr).1), ?_, ?_⟩
  · intro t' ht' hbefore
    rcases step_starts ha hstep ht' with hmoved | hnew
    · obtain ⟨t, ht, hmove⟩ := hmoved
      exact hmove.outrun (h.overtaken t ht (hmove.beforeSpawn hbefore))
    · have hon := hnew.wanted
      rw [hw.off] at hon
      cases hon
  · intro p r hget hr
    cases step_procs hm hguard.spawnsAlone hstep with
    | same hprocs => exact h.procs p r (hprocs ▸ hget) hr
    | spawned seconds hspawns =>
      rw [h.spawns hguard] at hspawns
      cases hspawns
    | touched q r₀ r₁ hq ht hprocs =>
      rw [hprocs] at hget
      rcases getElem?_set_some hget with ⟨hpq, rfl⟩ | ⟨-, hother⟩
      · have hr₀ : r₀.finalize ≠ .done := by
          rw [ne_eq, ← ht.done_iff]
          exact hr
        have hold := h.procs q r₀ hq hr₀
        exact ⟨ht.stopRequested_of hold.1, hpq ▸ hold.2⟩
      · exact h.procs p r hother hr
    | settled q r₀ abnormal hq hscan hprocs =>
      rw [hprocs] at hget
      rcases getElem?_set_some hget with ⟨-, rfl⟩ | ⟨-, hother⟩
      · exact absurd rfl hr
      · exact h.procs p r hother hr

theorem step_achieved (hm : Registered m)
    (ha : ∀ seconds mode, a ≠ .requestStart seconds mode) (hguard : Heeds m a)
    (hstep : step c m a = some m') {pc : StopPc} (h : Achieved m pc) : Achieved m' pc := by
  have hwritten : Written m → Written m' := step_written ha hguard hstep
  have hlooked : ∀ waited, Written m ∧ Looked waited m → Written m' ∧ Looked waited m' :=
    fun waited hw => ⟨hwritten hw.1, step_looked hm ha hguard hstep hw.1 hw.2⟩
  cases pc with
  | camera | resolving | updating => trivial
  | updated => exact hwritten h
  | waiting w => exact hlooked _ h
  | finalizing p => exact hlooked _ h
  | finished result =>
    cases result with
    | notRecording | recordingStopped => exact hlooked _ h
    | failed => trivial

/-! ## Every piece of a stop achieves what its place says -/

/-- Once the process waited for is finalized, no process is left to wait for. -/
theorem Looked.finalized {p : ProcId} (h : Looked (· = p) m)
    (hdone : m.finalized p = true) : Looked (fun _ => False) m := by
  refine ⟨h.timer, h.overtaken, ?_⟩
  intro q r hget hr
  obtain ⟨hstop, rfl⟩ := h.procs q r hget hr
  simp only [Manager.finalized, hget, Option.any_some, decide_eq_true_eq] at hdone
  exact absurd hdone hr

theorem stopMove_achieved (hm : Registered m)
    (ha : ∀ seconds mode, a ≠ .requestStart seconds mode) (hguard : Heeds m a)
    (hstep : step c m a = some m') {t : StopCall} {pc : StopPc} (h : Achieved m t.pc)
    (hmove : StopMove m m' t pc) : Achieved m' pc := by
  cases hmove with
  | failed | resolving | updating => trivial
  | updated hoff hstarts =>
    refine ⟨hoff, ?_⟩
    intro t' ht' _
    rw [hstarts] at ht'
    obtain ⟨t₀, -, rfl⟩ := List.mem_map.mp ht'
    rfl
  | notRecording hpc hnone htimer hcamera hprocs hstarts =>
    rw [hpc] at h
    refine ⟨step_written ha hguard hstep h, htimer, ?_, ?_⟩
    · intro t' ht' _
      rw [hstarts] at ht'
      obtain ⟨t₀, -, rfl⟩ := List.mem_map.mp ht'
      rfl
    · intro p r hget hr
      rw [hprocs] at hget
      have hactive := hm.active p r hget hr
      rw [hnone] at hactive
      cases hactive
  | waiting p hpc hactive htimer hcamera hprocs hstarts =>
    rw [hpc] at h
    refine ⟨step_written ha hguard hstep h, htimer, ?_, ?_⟩
    · intro t' ht' _
      rw [hstarts] at ht'
      obtain ⟨t₀, -, rfl⟩ := List.mem_map.mp ht'
      rfl
    · intro q r hget hr
      rw [hprocs, List.getElem?_modify] at hget
      obtain ⟨r₀, hr₀, heq⟩ := Option.map_eq_some_iff.mp hget
      have hdone : r₀.finalize ≠ .done := by
        intro hd
        refine hr ?_
        rw [← heq]
        split
        · exact hd
        · exact hd
      have hq := hm.active q r₀ hr₀ hdone
      rw [hactive] at hq
      cases hq
      rw [if_pos rfl] at heq
      exact ⟨heq ▸ rfl, rfl⟩
  | finalizing w hpc =>
    rw [hpc] at h
    have hwaiting : Achieved m' (.waiting w) := step_achieved hm ha hguard hstep h
    exact hwaiting
  | stopped p hpc hdone =>
    rw [hpc] at h
    have hlooked : Achieved m (.finished .recordingStopped) := ⟨h.1, h.2.finalized hdone⟩
    exact step_achieved hm ha hguard hstep hlooked

/-! ## The theorem -/

/-- Every call of `stop` with no start requested since it began has achieved what its
place says. -/
def StopsHold (m : Manager) : Prop := ∀ t ∈ m.stops, t.fresh = true → Achieved m t.pc

theorem step_stopsHold (hm : Registered m)
    (h : StopsHold m) (hguard : Heeds m a) (hstep : step c m a = some m') : StopsHold m' := by
  intro t' ht' hfresh
  by_cases ha : ∃ seconds mode, a = .requestStart seconds mode
  · obtain ⟨seconds, mode, rfl⟩ := ha
    cases hstep
    obtain ⟨t, -, rfl⟩ := List.mem_map.mp ht'
    cases hfresh
  · have hne : ∀ seconds mode, a ≠ .requestStart seconds mode :=
      fun seconds mode heq => ha ⟨seconds, mode, heq⟩
    rcases step_stops hne hstep ht' with hold | hnew | hmoved
    · exact step_achieved hm hne hguard hstep (h t' hold hfresh)
    · rw [hnew]
      trivial
    · obtain ⟨t, ht, pc, rfl, hmove⟩ := hmoved
      exact stopMove_achieved hm hne hguard hstep (h t ht hfresh) hmove

theorem Achieved.wins {t : StopCall} (hm : Registered m) (h : Achieved m t.pc)
    (hcompleted : t.completed = true) :
    (∀ p, m.live p = false) ∧ m.camera.recordingEnabled = false := by
  have hboth : Written m ∧ Looked (fun _ => False) m := by
    unfold StopCall.completed at hcompleted
    split at hcompleted
    · next heq => rw [heq] at h; exact h
    · next heq => rw [heq] at h; exact h
    · cases hcompleted
  refine ⟨?_, hboth.1.off⟩
  intro p
  rw [Bool.eq_false_iff]
  intro hlive
  obtain ⟨r, hget, hrun⟩ := live_iff.mp hlive
  have hdone : r.finalize = .done := by
    by_contra hne
    exact (hboth.2.procs p r hget hne).2
  exact hm.finalized p r hget (by rw [hdone]; exact nofun) hrun

/-- In every run in which a call of `start` overtaken by a later stop neither writes nor
spawns, a completed stop wins. -/
theorem stop_wins (c : RestartSettings) {m : Manager} (h : Reach (managerMachine c) Heeds m) :
    StopWins m := by
  have hinv : Registered m ∧ StopsHold m := by
    refine h.invariant (I := fun m => Registered m ∧ StopsHold m) ?_ ?_
    · rintro m ⟨row, rfl⟩
      exact ⟨init_registered row, nofun⟩
    · intro m a m' hm hguard hstep
      exact ⟨step_registered hm.1 hguard.spawnsAlone hstep,
        step_stopsHold hm.1 hm.2 hguard hstep⟩
  intro t ht hcompleted hfresh _
  exact (hinv.2 t ht hfresh).wins hinv.1 hcompleted

/-! ## Runs -/

/-- A call of `stop` from its beginning, with nothing to stop, or to the wait for the process. -/
def untilLooked (i : Nat) : List Label := List.replicate 4 (.advanceStop i true)

def stopAfterCrash : List Label :=
  ([.requestStart 60 none] : List Label) ++ untilSpawn 0 ++
    ([.advanceStart 0 true, .advanceStart 0 true] : List Label) ++
    ([.exits 0, .closes 0, .requestStop none] : List Label) ++ untilLooked 0 ++
    ([.advanceStop 0 true, .scanned 0 1000, .advanceStop 0 true] : List Label)

theorem stop_wins_crashed : ∃ m, Reach (managerMachine {}) Heeds m ∧
    m.stops.map (fun t => (t.completed, t.fresh)) = [(true, true)] ∧ quiescent m = true ∧
    StopWins m := by
  have hrun : ((managerMachine {}).run heeds { camera := wantedRow } stopAfterCrash).map
      (fun m => (m.stops.map (fun t => (t.completed, t.fresh)), quiescent m)) =
      some ([(true, true)], true) := by
    rfl
  obtain ⟨m, hreach, heq⟩ := reach_of_run (G := Heeds) hrun ⟨wantedRow, rfl⟩ (fun _ _ h => h)
  rw [Prod.mk.injEq] at heq
  exact ⟨m, hreach, heq.1, heq.2, stop_wins {} hreach⟩

/-- A stop that runs while a call of `start` awaits the probe finds nothing to stop; the
call then spawns and turns `recordingEnabled` on again. -/
theorem stop_overtaken : ∃ m, Reach (managerMachine {}) Always m ∧ ¬ StopWins m := by
  have hrun : ((managerMachine {}).run anyStep { camera := wantedRow }
      (([.requestStart 60 none] : List Label) ++ (untilSpawn 0).tail ++
        ([.requestStop none] : List Label) ++ untilLooked 0 ++
        List.replicate 3 (Label.advanceStart 0 true))).map
      (fun m => (m.stops[0]?.map (fun t => (t.completed, t.fresh)), quiescent m, m.live 0)) =
      some (some (true, true), true, true) := by
    rfl
  obtain ⟨m, hreach, heq⟩ := reach_of_anyStep hrun ⟨wantedRow, rfl⟩
  simp only [Prod.mk.injEq, Option.map_eq_some_iff] at heq
  obtain ⟨⟨t, ht, hcompleted, hfresh⟩, hquiescent, hlive⟩ := heq
  refine ⟨m, hreach, ?_⟩
  intro hwins
  have hnone := (hwins t (List.mem_of_getElem? ht) hcompleted hfresh hquiescent).1 0
  rw [hlive] at hnone
  cases hnone

end Drac.Recordings.ProcessManager
