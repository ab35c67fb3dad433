import Mathlib.Data.List.Basic
import Drac.Recordings.ProcessManager

/-
  One recorder per camera.

  `start` looks at `active`, awaits the probe of the stream, and registers the process
  it spawned without looking again: two calls that overlap there spawn two, and the
  first is in `active` no more (`starts_overlap`). `SpawnsAlone` is the condition under
  which this does not happen: no call that another overtook at its probe spawns while a
  process is registered, and neither the give-up timer nor an error of `kill` takes a live
  process for a dead one. A call that was not overtaken still finds what it saw at its look
  (`FoundNone`). In every run whose steps meet it, a live process is the one in `active`
  (`single_recorder`).

  What a step can do to the processes is said once, by `step_procs`.
-/

namespace Drac.Recordings.ProcessManager

open Runs

/-! ## The property and the condition -/

/-- At most one process is live, and it is the one stored in `active`. -/
def SingleRecorder (m : Manager) : Prop :=
  (∀ p q, m.live p = true → m.live q = true → p = q) ∧ ∀ p, m.live p = true → m.active = some p

/-- The process a step takes for dead without having seen it exit. -/
def takesForDead (m : Manager) : Label → Option ProcId
  | .giveUpStart i => (m.starts[i]?).bind (fun t =>
      match t.pc with
      | .rollbackWaiting w => some w.proc
      | _ => none)
  | .giveUpStop i => (m.stops[i]?).bind (fun t =>
      match t.pc with
      | .waiting w => some w.proc
      | _ => none)
  | .errors p => some p
  | _ => none

/-- The step is a call of `start` leaving the probe to spawn. -/
def spawns (m : Manager) : Label → Bool
  | .advanceStart i ok => ok && (m.starts[i]?).any (fun t =>
      match t.pc with
      | .probing _ => true
      | _ => false)
  | _ => false

/-- Another call has spawned since this one looked at `active`. -/
def overtaken (m : Manager) : Label → Bool
  | .advanceStart i _ => (m.starts[i]?).any (fun t =>
      match t.pc with
      | .probing seen => seen < m.procs.length
      | _ => false)
  | _ => false

/-- A call that was overtaken at its probe spawns only while no process is registered, and
what is taken for dead is not live. -/
def spawnsAlone (m : Manager) (a : Label) : Bool :=
  (!(spawns m a && overtaken m a) || m.active.isNone) &&
    (takesForDead m a).all (fun p => !m.live p)

def SpawnsAlone (m : Manager) (a : Label) : Prop := spawnsAlone m a = true

/-! ## What a step does to the processes -/

/-- What happens to the record of one process short of its finalization being over. -/
inductive Touch : RecordingProcessState → RecordingProcessState → Prop where
  | stopRequested (r : RecordingProcessState) : Touch r (requestStopOf r)
  | exited (r : RecordingProcessState) : Touch r { r with status := .exited }
  | closed (r : RecordingProcessState) : Touch r (beginFinalize { r with status := .closed })
  | errored (r : RecordingProcessState) (h : r.status ≠ .running) :
      Touch r (beginFinalize { r with errored := true })
  | finalized (r : RecordingProcessState) (h : r.status ≠ .running) : Touch r (beginFinalize r)

@[simp] theorem beginFinalize_status (r : RecordingProcessState) :
    (beginFinalize r).status = r.status := by
  unfold beginFinalize
  split <;> rfl

@[simp] theorem beginFinalize_stopRequested (r : RecordingProcessState) :
    (beginFinalize r).stopRequested = r.stopRequested := by
  unfold beginFinalize
  split <;> rfl

@[simp] theorem beginFinalize_done (r : RecordingProcessState) :
    (beginFinalize r).finalize = .done ↔ r.finalize = .done := by
  unfold beginFinalize
  split
  · next h => simp [h]
  · rfl

variable {r r' : RecordingProcessState}

theorem Touch.done_iff (h : Touch r r') :
    r'.finalize = .done ↔ r.finalize = .done := by
  cases h with
  | stopRequested | exited => rfl
  | closed | errored | finalized => rw [beginFinalize_done]

theorem Touch.stopRequested_of (h : Touch r r')
    (hr : r.stopRequested = true) : r'.stopRequested = true := by
  cases h with
  | stopRequested => rfl
  | exited => exact hr
  | closed | errored | finalized => rw [beginFinalize_stopRequested]; exact hr

theorem Touch.dead_of (h : Touch r r')
    (hr : r.status ≠ .running) : r'.status ≠ .running := by
  cases h with
  | stopRequested => exact hr
  | exited => exact nofun
  | closed => rw [beginFinalize_status]; exact nofun
  | errored | finalized => rw [beginFinalize_status]; exact hr

/-- What one step does to the processes and to `active`. -/
inductive ProcsChange (a : Label) (m m' : Manager) : Prop where
  | same (hprocs : m'.procs = m.procs) (hactive : m'.active = m.active)
  | spawned (seconds : Nat) (hspawns : spawns m a = true) (hnone : m.active = none)
      (hprocs : m'.procs = m.procs ++ [{ segmentSeconds := seconds }])
      (hactive : m'.active = some m.procs.length)
  | touched (p : ProcId) (r r' : RecordingProcessState) (hget : m.procs[p]? = some r)
      (htouch : Touch r r') (hprocs : m'.procs = m.procs.set p r') (hactive : m'.active = m.active)
  | settled (p : ProcId) (r : RecordingProcessState) (abnormal : Bool)
      (hget : m.procs[p]? = some r) (hscan : r.finalize = .scanning abnormal)
      (hprocs : m'.procs = m.procs.set p { r with finalize := .done })
      (hactive : m'.active = if m.active = some p then none else m.active)

variable {m : Manager} {p : ProcId}

theorem modifyProc_some
    (f : RecordingProcessState → RecordingProcessState) (hget : m.procs[p]? = some r) :
    (m.modifyProc p f).procs = m.procs.set p (f r) := by
  show m.procs.modify p f = _
  rw [List.modify_eq_set_getElem?, hget]
  rfl

theorem modifyProc_none
    (f : RecordingProcessState → RecordingProcessState) (hget : m.procs[p]? = none) :
    (m.modifyProc p f).procs = m.procs := by
  show m.procs.modify p f = _
  rw [List.modify_eq_set_getElem?, hget]
  rfl

variable {a : Label} {m' : Manager}

theorem procsChange_modify
    {f : RecordingProcessState → RecordingProcessState}
    (htouch : ∀ r, m.procs[p]? = some r → Touch r (f r))
    (hprocs : m'.procs = (m.modifyProc p f).procs) (hactive : m'.active = m.active) :
    ProcsChange a m m' := by
  cases hget : m.procs[p]? with
  | none => exact .same (hprocs.trans (modifyProc_none f hget)) hactive
  | some r =>
    exact .touched p r (f r) hget (htouch r hget) (hprocs.trans (modifyProc_some f hget)) hactive

/-! ## The invariant -/

/-- `active` was empty when there had been so many processes, and is until there is another. -/
def FoundNone (m : Manager) (seen : Nat) : Prop :=
  seen ≤ m.procs.length ∧ (seen = m.procs.length → m.active = none)

/-- Every process whose finalization is not over is the one in `active`; only dead
processes are finalized, err, or are found dead by `stopProcessAndWait`; and what a call of
`start` saw at its look holds until it is overtaken. -/
structure Registered (m : Manager) : Prop where
  active : ∀ p r, m.procs[p]? = some r → r.finalize ≠ .done → m.active = some p
  finalized : ∀ (p : ProcId) r, m.procs[p]? = some r → r.finalize ≠ .notStarted → r.status ≠ .running
  errored : ∀ (p : ProcId) r, m.procs[p]? = some r → r.errored = true → r.status ≠ .running
  startWaits : ∀ t ∈ m.starts, ∀ w, t.pc = .rollbackWaiting w → w.returned = true →
    m.dead w.proc = true
  stopWaits : ∀ t ∈ m.stops, ∀ w, t.pc = .waiting w → w.returned = true → m.dead w.proc = true
  looks : ∀ t ∈ m.starts, ∀ seen, t.pc = .probing seen → FoundNone m seen

theorem live_iff :
    m.live p = true ↔ ∃ r, m.procs[p]? = some r ∧ r.status = .running := by
  simp [Manager.live, Option.any_eq_true]

theorem dead_iff :
    m.dead p = true ↔ ∃ r, m.procs[p]? = some r ∧ r.status ≠ .running := by
  simp [Manager.dead, Option.any_eq_true]

theorem Registered.single (h : Registered m) : SingleRecorder m := by
  have hactive : ∀ p, m.live p = true → m.active = some p := by
    intro p hp
    obtain ⟨r, hget, hrun⟩ := live_iff.mp hp
    refine h.active p r hget ?_
    intro hdone
    exact h.finalized p r hget (by rw [hdone]; exact nofun) hrun
  refine ⟨?_, hactive⟩
  intro p q hp hq
  have heq : some p = some q := (hactive p hp).symm.trans (hactive q hq)
  exact Option.some.inj heq

theorem dead_of_settled (h : Registered m) {w : StopWait}
    (hreturned : w.returned = true → m.dead w.proc = true) (hw : m.settled w = true)
    (hget : m.procs[w.proc]? = some r) : r.status ≠ .running := by
  simp only [Manager.settled, hget, Bool.or_eq_true, Option.any_some, decide_eq_true_eq] at hw
  rcases hw with hret | hclosed | herr
  · obtain ⟨r', hget', hdead⟩ := dead_iff.mp (hreturned hret)
    rw [hget] at hget'
    cases hget'
    exact hdead
  · rw [hclosed]; exact nofun
  · exact h.errored w.proc r hget herr

theorem dead_of_not_live (h : (!m.live p) = true)
    (hget : m.procs[p]? = some r) : r.status ≠ .running := by
  intro hrun
  rw [live_iff.mpr ⟨r, hget, hrun⟩] at h
  cases h

/-! ## What each piece does to the processes -/

variable {i : Nat} {ok : Bool}

theorem advanceStart_procs (hm : Registered m)
    (hguard : SpawnsAlone m (.advanceStart i ok)) (hstep : advanceStart i ok m = some m') :
    ProcsChange (.advanceStart i ok) m m' := by
  obtain ⟨t, ht, h⟩ := Option.bind_eq_some_iff.mp hstep
  dsimp only at h
  split at h
  case h_1 | h_2 | h_3 | h_4 => cases h; exact .same rfl rfl
  case h_5 =>
    split at h
    · cases h; exact .same rfl rfl
    · split at h <;> (cases h; exact .same rfl rfl)
  case h_6 seen hpc =>
    split at h
    · next hok =>
      cases h
      refine .spawned t.segmentSeconds ?_ ?_ rfl rfl
      · simp [spawns, hok, ht, hpc]
      · -- the look at `active` holds still, unless another call has spawned since
        obtain ⟨hseen, hnone⟩ := hm.looks t (List.mem_of_getElem? ht) seen hpc
        by_cases heq : seen = m.procs.length
        · exact hnone heq
        · have hover : seen < m.procs.length := Nat.lt_of_le_of_ne hseen heq
          simpa [SpawnsAlone, spawnsAlone, spawns, overtaken, takesForDead, hok, ht, hpc, hover]
            using hguard
    · cases h; exact .same rfl rfl
  case h_7 | h_8 =>
    split at h
    · cases h; exact .same rfl rfl
    · split at h
      · cases h
        exact procsChange_modify (fun r _ => .stopRequested r) rfl rfl
      · cases h; exact .same rfl rfl
  case h_9 w hpc =>
    split at h
    · next hw =>
      cases h
      refine procsChange_modify (f := beginFinalize) (fun r hget => .finalized r ?_) rfl rfl
      exact dead_of_settled hm (hm.startWaits t (List.mem_of_getElem? ht) w hpc) hw hget
    · cases h
  case h_10 =>
    split at h
    · cases h; exact .same rfl rfl
    · cases h
  case h_11 => cases h

theorem advanceStop_procs (hm : Registered m)
    (hstep : advanceStop i ok m = some m') : ProcsChange (.advanceStop i ok) m m' := by
  obtain ⟨t, ht, h⟩ := Option.bind_eq_some_iff.mp hstep
  dsimp only at h
  split at h
  case h_1 | h_2 => cases h; exact .same rfl rfl
  case h_3 => split at h <;> (cases h; exact .same rfl rfl)
  case h_4 =>
    split at h
    · cases h; exact .same rfl rfl
    · cases h; exact procsChange_modify (fun r _ => .stopRequested r) rfl rfl
  case h_5 w hpc =>
    split at h
    · next hw =>
      cases h
      refine procsChange_modify (f := beginFinalize) (fun r hget => .finalized r ?_) rfl rfl
      exact dead_of_settled hm (hm.stopWaits t (List.mem_of_getElem? ht) w hpc) hw hget
    · cases h
  case h_6 =>
    split at h
    · cases h; exact .same rfl rfl
    · cases h
  case h_7 => cases h

theorem giveUpStart_procs (hguard : SpawnsAlone m (.giveUpStart i))
    (hstep : giveUpStart i m = some m') : ProcsChange (.giveUpStart i) m m' := by
  obtain ⟨t, w, ht, hpc, rfl⟩ := giveUpStart_some hstep
  refine procsChange_modify (f := beginFinalize) (fun r hget => .finalized r ?_) rfl rfl
  refine dead_of_not_live ?_ hget
  simpa [SpawnsAlone, spawnsAlone, spawns, takesForDead, ht, hpc] using hguard

theorem giveUpStop_procs (hguard : SpawnsAlone m (.giveUpStop i))
    (hstep : giveUpStop i m = some m') : ProcsChange (.giveUpStop i) m m' := by
  obtain ⟨t, w, ht, hpc, rfl⟩ := giveUpStop_some hstep
  refine procsChange_modify (f := beginFinalize) (fun r hget => .finalized r ?_) rfl rfl
  refine dead_of_not_live ?_ hget
  simpa [SpawnsAlone, spawnsAlone, spawns, takesForDead, ht, hpc] using hguard

variable {c : RestartSettings}

theorem advanceRestart_procs
    (hstep : advanceRestart c i ok m = some m') : ProcsChange (.advanceRestart i ok) m m' := by
  obtain ⟨seconds, hget, h⟩ := Option.bind_eq_some_iff.mp hstep
  dsimp only at h
  split at h <;> (cases h; exact .same rfl rfl)

theorem timerFires_procs (hstep : timerFires m = some m') :
    ProcsChange .timerFires m m' := by
  obtain ⟨timer, htimer, h⟩ := Option.bind_eq_some_iff.mp hstep
  dsimp only at h
  split at h <;> (cases h; exact .same rfl rfl)

@[simp] theorem scheduleRecordingRestart_procs (c : RestartSettings) (now : Nat)
    (r : RecordingProcessState) (m : Manager) :
    (scheduleRecordingRestart c now r m).procs = m.procs := by
  unfold scheduleRecordingRestart
  repeat' split
  all_goals rfl

@[simp] theorem scheduleRecordingRestart_active (c : RestartSettings) (now : Nat)
    (r : RecordingProcessState) (m : Manager) :
    (scheduleRecordingRestart c now r m).active = m.active := by
  unfold scheduleRecordingRestart
  repeat' split
  all_goals rfl

theorem settleFinalize_procs {now : Nat}
    {abnormal : Bool} (hget : m.procs[p]? = some r)
    (hscan : r.finalize = .scanning abnormal) :
    ProcsChange (.scanned p now) m (settleFinalize c now p r abnormal m) := by
  refine .settled p r abnormal hget hscan ?_ ?_
  · unfold settleFinalize
    have hset := modifyProc_some (fun r => { r with finalize := .done }) hget
    simp only
    split <;> split <;> simp [hset]
  · unfold settleFinalize
    simp only [Manager.modifyProc]
    split <;> split <;> simp_all

theorem procEvent_procs
    (hguard : SpawnsAlone m a) (hstep : procEvent c m a = some m') : ProcsChange a m m' := by
  cases a with
  | exits p =>
    obtain rfl := exits_some hstep
    exact procsChange_modify (fun r _ => .exited r) rfl rfl
  | closes p =>
    obtain rfl := closes_some hstep
    exact procsChange_modify (f := fun r => beginFinalize { r with status := .closed })
      (fun r _ => .closed r) (List.modify_modify_eq ..) rfl
  | errors p =>
    obtain rfl := errors_some hstep
    have hlive : (!m.live p) = true := by
      simpa [SpawnsAlone, spawnsAlone, spawns, takesForDead] using hguard
    exact procsChange_modify (f := fun r => beginFinalize { r with errored := true })
      (fun r hr => .errored r (dead_of_not_live hlive hr)) (List.modify_modify_eq ..) rfl
  | scanned p now =>
    obtain ⟨r, abnormal, hget, hscan, rfl⟩ := scanned_some hstep
    exact settleFinalize_procs hget hscan
  | _ => cases hstep

/-- What a step that meets the condition does to the processes. -/
theorem step_procs (hm : Registered m)
    (hguard : SpawnsAlone m a) (hstep : step c m a = some m') : ProcsChange a m m' := by
  cases a with
  | requestStart | requestStop | setEnabled => cases hstep; exact .same rfl rfl
  | advanceStart i ok => exact advanceStart_procs hm hguard hstep
  | advanceStop i ok => exact advanceStop_procs hm hstep
  | advanceRestart i ok => exact advanceRestart_procs hstep
  | giveUpStart i => exact giveUpStart_procs hguard hstep
  | giveUpStop i => exact giveUpStop_procs hguard hstep
  | timerFires => exact timerFires_procs hstep
  | exits | closes | errors | scanned => exact procEvent_procs (c := c) hguard hstep

/-! ## The invariant along a run -/

theorem Touch.finalized_dead (h : Touch r r')
    (hr : r.finalize ≠ .notStarted → r.status ≠ .running)
    (hr' : r'.finalize ≠ .notStarted) : r'.status ≠ .running := by
  cases h with
  | stopRequested => exact hr hr'
  | exited => exact nofun
  | closed => rw [beginFinalize_status]; exact nofun
  | errored hdead | finalized hdead => rw [beginFinalize_status]; exact hdead

theorem Touch.errored_dead (h : Touch r r')
    (hr : r.errored = true → r.status ≠ .running) (hr' : r'.errored = true) :
    r'.status ≠ .running := by
  cases h with
  | stopRequested => exact hr hr'
  | exited => exact nofun
  | closed => rw [beginFinalize_status]; exact nofun
  | errored hdead | finalized hdead => rw [beginFinalize_status]; exact hdead

theorem ProcsChange.forall_procs {P : RecordingProcessState → Prop}
    (h : ProcsChange a m m') (hnew : ∀ seconds, P { segmentSeconds := seconds })
    (htouch : ∀ r r', Touch r r' → P r → P r')
    (hsettle : ∀ r abnormal, r.finalize = .scanning abnormal → P r → P { r with finalize := .done })
    (hm : ∀ (p : ProcId) r, m.procs[p]? = some r → P r) :
    ∀ (p : ProcId) r, m'.procs[p]? = some r → P r := by
  intro p r hget
  cases h with
  | same hprocs => exact hm p r (hprocs ▸ hget)
  | spawned seconds _ _ hprocs =>
    rw [hprocs] at hget
    rcases getElem?_concat_some hget with hold | ⟨-, rfl⟩
    · exact hm p r hold
    · exact hnew seconds
  | touched q r₀ r₁ hq ht hprocs =>
    rw [hprocs] at hget
    rcases getElem?_set_some hget with ⟨-, rfl⟩ | ⟨-, hold⟩
    · exact htouch _ _ ht (hm q r₀ hq)
    · exact hm p r hold
  | settled q r₀ abnormal hq hscan hprocs =>
    rw [hprocs] at hget
    rcases getElem?_set_some hget with ⟨-, rfl⟩ | ⟨-, hold⟩
    · exact hsettle _ _ hscan (hm q r₀ hq)
    · exact hm p r hold

theorem ProcsChange.dead (h : ProcsChange a m m')
    (hp : m.dead p = true) : m'.dead p = true := by
  obtain ⟨r, hget, hdead⟩ := dead_iff.mp hp
  rw [dead_iff]
  cases h with
  | same hprocs => exact ⟨r, hprocs ▸ hget, hdead⟩
  | spawned seconds _ _ hprocs =>
    refine ⟨r, ?_, hdead⟩
    rw [hprocs, List.getElem?_append_left (List.getElem?_eq_some_iff.mp hget).1]
    exact hget
  | touched q r₀ r₁ hq ht hprocs =>
    rw [hprocs, List.getElem?_set]
    by_cases hpq : q = p
    · subst hpq
      rw [hget] at hq
      cases hq
      exact ⟨r₁, by simp [(List.getElem?_eq_some_iff.mp hget).1], ht.dead_of hdead⟩
    · exact ⟨r, by rw [if_neg hpq]; exact hget, hdead⟩
  | settled q r₀ abnormal hq hscan hprocs =>
    rw [hprocs, List.getElem?_set]
    by_cases hpq : q = p
    · subst hpq
      rw [hget] at hq
      cases hq
      refine ⟨{ r with finalize := .done }, ?_, hdead⟩
      simp [(List.getElem?_eq_some_iff.mp hget).1]
    · exact ⟨r, by rw [if_neg hpq]; exact hget, hdead⟩

theorem ProcsChange.active (h : ProcsChange a m m')
    (hm : Registered m) (p : ProcId) (r : RecordingProcessState) (hget : m'.procs[p]? = some r)
    (hr : r.finalize ≠ .done) : m'.active = some p := by
  cases h with
  | same hprocs hactive => exact hactive ▸ hm.active p r (hprocs ▸ hget) hr
  | spawned seconds _ hnone hprocs hactive =>
    rw [hprocs] at hget
    rcases getElem?_concat_some hget with hold | ⟨hlast, -⟩
    · have hp := hm.active p r hold hr
      rw [hnone] at hp
      cases hp
    · rw [hactive, hlast]
  | touched q r₀ r₁ hq ht hprocs hactive =>
    rw [hprocs] at hget
    rw [hactive]
    rcases getElem?_set_some hget with ⟨hpq, rfl⟩ | ⟨-, hold⟩
    · rw [hpq]
      refine hm.active q r₀ hq ?_
      rw [ne_eq, ← ht.done_iff]
      exact hr
    · exact hm.active p r hold hr
  | settled q r₀ abnormal hq hscan hprocs hactive =>
    rw [hprocs] at hget
    rcases getElem?_set_some hget with ⟨-, rfl⟩ | ⟨hpq, hold⟩
    · exact absurd rfl hr
    · have hp := hm.active p r hold hr
      rw [hactive, hp, if_neg]
      intro heq
      exact hpq (Option.some.inj heq)

theorem ProcsChange.foundNone (h : ProcsChange a m m') {seen : Nat} (hseen : FoundNone m seen) :
    FoundNone m' seen := by
  obtain ⟨hle, hnone⟩ := hseen
  cases h with
  | same hprocs hactive => exact ⟨by rw [hprocs]; exact hle, by rw [hprocs, hactive]; exact hnone⟩
  | spawned seconds _ _ hprocs =>
    rw [FoundNone, hprocs, List.length_append, List.length_singleton]
    exact ⟨by omega, fun heq => absurd heq (by omega)⟩
  | touched _ _ _ _ _ hprocs hactive =>
    rw [FoundNone, hprocs, hactive, List.length_set]
    exact ⟨hle, hnone⟩
  | settled _ _ _ _ _ hprocs hactive =>
    rw [FoundNone, hprocs, hactive, List.length_set]
    refine ⟨hle, ?_⟩
    intro heq
    rw [hnone heq]
    rfl

/-! ## What a step does to the calls -/

/-- What a step other than a request makes of a call of `start`. -/
structure StartMove (m : Manager) (t t' : StartCall) : Prop where
  inFlight : t'.inFlight = true → t.inFlight = true
  beforeSpawn : t'.beforeSpawn = true → t.beforeSpawn = true
  outwritten : t.outwritten = true → t'.outwritten = true
  outrun : t.outrun = true → t'.outrun = true
  waits : ∀ w, t'.pc = .rollbackWaiting w → w.returned = true →
    t.pc = .rollbackWaiting w ∨ m.dead w.proc = true
  looks : ∀ seen, t'.pc = .probing seen →
    t.pc = .probing seen ∨ seen = m.procs.length ∧ m.active = none

theorem StartMove.rfl (m : Manager) (t : StartCall) : StartMove m t t :=
  ⟨id, id, id, id, fun _ hpc _ => .inl hpc, fun _ hpc => .inl hpc⟩

theorem StartMove.goto {t : StartCall} {pc : StartPc}
    (hflight : t.inFlight = true)
    (hspawn : StartCall.beforeSpawn { t with pc := pc } = true → t.beforeSpawn = true)
    (hwaits : ∀ w, pc = .rollbackWaiting w → w.returned = true → m.dead w.proc = true)
    (hlooks : ∀ seen, pc = .probing seen → seen = m.procs.length ∧ m.active = none) :
    StartMove m t { t with pc := pc } :=
  ⟨fun _ => hflight, hspawn, id, id, fun w hpc hret => .inr (hwaits w hpc hret),
    fun seen hpc => .inr (hlooks seen hpc)⟩

theorem advanceStart_starts
    (hstep : advanceStart i ok m = some m') :
    ∃ t pc, m.starts[i]? = some t ∧ m'.starts = m.starts.set i { t with pc := pc } ∧
      StartMove m t { t with pc := pc } := by
  obtain ⟨t, ht, h⟩ := Option.bind_eq_some_iff.mp hstep
  dsimp only at h
  have hmove : ∀ pc, m'.starts = m.starts.set i { t with pc := pc } → t.inFlight = true →
      (StartCall.beforeSpawn { t with pc := pc } = true → t.beforeSpawn = true) →
      (∀ w, pc = .rollbackWaiting w → w.returned = true → m.dead w.proc = true) →
      (∀ seen, pc = .probing seen → seen = m.procs.length ∧ m.active = none) →
      ∃ t pc, m.starts[i]? = some t ∧ m'.starts = m.starts.set i { t with pc := pc } ∧
        StartMove m t { t with pc := pc } :=
    fun pc hstarts hf hs hw hl => ⟨t, pc, ht, hstarts, .goto hf hs hw hl⟩
  split at h
  case h_1 hpc | h_2 hpc | h_3 hpc | h_4 hpc =>
    cases h
    refine hmove _ rfl ?_ ?_ ?_ ?_
    · simp [StartCall.inFlight, hpc]
    · simp [StartCall.beforeSpawn, hpc]
    · intro w hw
      split at hw <;> cases hw
    · intro seen hseen
      split at hseen <;> cases hseen
  case h_5 hpc =>
    have hf : t.inFlight = true := by simp [StartCall.inFlight, hpc]
    have hs : t.beforeSpawn = true := by simp [StartCall.beforeSpawn, hpc]
    split at h
    · cases h; exact hmove _ rfl hf (fun _ => hs) nofun nofun
    · split at h
      · cases h; exact hmove _ rfl hf (fun _ => hs) nofun nofun
      · next hnone =>
        cases h
        refine hmove _ rfl hf (fun _ => hs) nofun ?_
        rintro seen ⟨⟩
        exact ⟨rfl, hnone⟩
  case h_6 hpc =>
    have hf : t.inFlight = true := by simp [StartCall.inFlight, hpc]
    have hs : t.beforeSpawn = true := by simp [StartCall.beforeSpawn, hpc]
    split at h <;> (cases h; exact hmove _ rfl hf (fun _ => hs) nofun nofun)
  case h_7 hpc | h_8 hpc =>
    have hf : t.inFlight = true := by simp [StartCall.inFlight, hpc]
    split at h
    · cases h; exact hmove _ rfl hf nofun nofun nofun
    · split at h
      · cases h
        refine hmove _ rfl hf nofun ?_ nofun
        intro w hw hret
        cases hw
        exact hret
      · cases h; exact hmove _ rfl hf nofun nofun nofun
  case h_9 w hpc =>
    have hf : t.inFlight = true := by simp [StartCall.inFlight, hpc]
    split at h
    · cases h; exact hmove _ rfl hf nofun nofun nofun
    · cases h
  case h_10 p hpc =>
    have hf : t.inFlight = true := by simp [StartCall.inFlight, hpc]
    split at h
    · cases h; exact hmove _ rfl hf nofun nofun nofun
    · cases h
  case h_11 => cases h

theorem giveUpStart_starts (hstep : giveUpStart i m = some m') :
    ∃ t pc, m.starts[i]? = some t ∧ m'.starts = m.starts.set i { t with pc := pc } ∧
      StartMove m t { t with pc := pc } := by
  obtain ⟨t, w, ht, hpc, rfl⟩ := giveUpStart_some hstep
  have hf : t.inFlight = true := by simp [StartCall.inFlight, hpc]
  exact ⟨t, .rollbackFinalizing w.proc, ht, rfl, .goto hf nofun nofun nofun⟩

/-- The place of a call of `stop` after a step, and how the step left the manager. -/
inductive StopMove (m m' : Manager) (t : StopCall) : StopPc → Prop where
  | failed : StopMove m m' t (.finished .failed)
  | resolving : StopMove m m' t .resolving
  | updating (mode : Option String) : StopMove m m' t (.updating mode)
  | updated (hoff : m'.camera.recordingEnabled = false)
      (hstarts : m'.starts = m.starts.map (fun t => { t with outwritten := true })) :
      StopMove m m' t .updated
  | notRecording (hpc : t.pc = .updated) (hnone : m.active = none) (htimer : m'.restartTimer = none)
      (hcamera : m'.camera = m.camera) (hprocs : m'.procs = m.procs)
      (hstarts : m'.starts = m.starts.map (fun t => { t with outrun := true })) :
      StopMove m m' t (.finished .notRecording)
  | waiting (p : ProcId) (hpc : t.pc = .updated) (hactive : m.active = some p)
      (htimer : m'.restartTimer = none) (hcamera : m'.camera = m.camera)
      (hprocs : m'.procs = m.procs.modify p requestStopOf)
      (hstarts : m'.starts = m.starts.map (fun t => { t with outrun := true })) :
      StopMove m m' t (.waiting (stopProcessAndWait m p))
  | finalizing (w : StopWait) (hpc : t.pc = .waiting w) : StopMove m m' t (.finalizing w.proc)
  | stopped (p : ProcId) (hpc : t.pc = .finalizing p) (hdone : m.finalized p = true) :
      StopMove m m' t (.finished .recordingStopped)

theorem advanceStop_stops
    (hstep : advanceStop i ok m = some m') :
    ∃ t pc, m.stops[i]? = some t ∧ m'.stops = m.stops.set i { t with pc := pc } ∧
      StopMove m m' t pc := by
  obtain ⟨t, ht, h⟩ := Option.bind_eq_some_iff.mp hstep
  dsimp only at h
  split at h
  case h_1 =>
    cases h
    refine ⟨t, _, ht, rfl, ?_⟩
    split
    · exact .resolving
    · exact .failed
  case h_2 =>
    cases h
    refine ⟨t, _, ht, rfl, ?_⟩
    split
    · exact .updating _
    · exact .failed
  case h_3 =>
    split at h
    · cases h; exact ⟨t, _, ht, rfl, .updated rfl rfl⟩
    · cases h; exact ⟨t, _, ht, rfl, .failed⟩
  case h_4 hpc =>
    split at h
    · next hnone => cases h; exact ⟨t, _, ht, rfl, .notRecording hpc hnone rfl rfl rfl rfl⟩
    · next p hactive => cases h; exact ⟨t, _, ht, rfl, .waiting p hpc hactive rfl rfl rfl rfl⟩
  case h_5 w hpc =>
    split at h
    · cases h; exact ⟨t, _, ht, rfl, .finalizing w hpc⟩
    · cases h
  case h_6 p hpc =>
    split at h
    · next hdone => cases h; exact ⟨t, _, ht, rfl, .stopped p hpc hdone⟩
    · cases h
  case h_7 => cases h

theorem giveUpStop_stops (hstep : giveUpStop i m = some m') :
    ∃ t pc, m.stops[i]? = some t ∧ m'.stops = m.stops.set i { t with pc := pc } ∧
      StopMove m m' t pc := by
  obtain ⟨t, w, ht, hpc, rfl⟩ := giveUpStop_some hstep
  exact ⟨t, _, ht, rfl, .finalizing w hpc⟩

theorem timerFires_calls (hstep : timerFires m = some m') :
    m'.starts = m.starts ∧ m'.stops = m.stops ∧ m'.camera = m.camera := by
  obtain ⟨timer, htimer, h⟩ := Option.bind_eq_some_iff.mp hstep
  dsimp only at h
  split at h <;> (cases h; exact ⟨rfl, rfl, rfl⟩)

theorem settleFinalize_calls (c : RestartSettings) (now : Nat) (p : ProcId)
    (r : RecordingProcessState) (abnormal : Bool) (m : Manager) :
    (settleFinalize c now p r abnormal m).starts = m.starts ∧
      (settleFinalize c now p r abnormal m).stops = m.stops ∧
      (settleFinalize c now p r abnormal m).camera = m.camera := by
  unfold settleFinalize scheduleRecordingRestart
  simp only
  repeat' split
  all_goals exact ⟨rfl, rfl, rfl⟩

theorem procEvent_calls
    (hstep : procEvent c m a = some m') :
    m'.starts = m.starts ∧ m'.stops = m.stops ∧ m'.camera = m.camera := by
  cases a with
  | exits p =>
    obtain rfl := exits_some hstep
    exact ⟨rfl, rfl, rfl⟩
  | closes p =>
    obtain rfl := closes_some hstep
    exact ⟨rfl, rfl, rfl⟩
  | errors p =>
    obtain rfl := errors_some hstep
    exact ⟨rfl, rfl, rfl⟩
  | scanned p now =>
    obtain ⟨r, abnormal, -, -, rfl⟩ := scanned_some hstep
    exact settleFinalize_calls ..
  | _ => cases hstep

/-- A call a restart makes of `start`: one that found recording wanted. -/
structure Restarted (m : Manager) (t : StartCall) : Prop where
  wanted : m.camera.recordingEnabled = true
  pc : t.pc = .enabled

theorem advanceStop_starts
    (hstep : advanceStop i ok m = some m') :
    m'.starts = m.starts ∨
      m'.starts = m.starts.map (fun t => { t with outwritten := true }) ∨
      m'.starts = m.starts.map (fun t => { t with outrun := true }) := by
  obtain ⟨t, ht, h⟩ := Option.bind_eq_some_iff.mp hstep
  dsimp only at h
  split at h
  case h_1 | h_2 => cases h; exact .inl rfl
  case h_3 =>
    split at h
    · cases h; exact .inr (.inl rfl)
    · cases h; exact .inl rfl
  case h_4 => split at h <;> (cases h; exact .inr (.inr rfl))
  case h_5 | h_6 =>
    split at h
    · cases h; exact .inl rfl
    · cases h
  case h_7 => cases h

theorem step_starts
    (ha : ∀ seconds mode, a ≠ .requestStart seconds mode) (hstep : step c m a = some m')
    {t' : StartCall} (ht' : t' ∈ m'.starts) :
    (∃ t ∈ m.starts, StartMove m t t') ∨ Restarted m t' := by
  have hsame : m'.starts = m.starts → (∃ t ∈ m.starts, StartMove m t t') ∨ Restarted m t' :=
    fun heq => .inl ⟨t', heq ▸ ht', .rfl m t'⟩
  have hset : (∃ i t pc, m.starts[i]? = some t ∧ m'.starts = m.starts.set i { t with pc := pc } ∧
      StartMove m t { t with pc := pc }) →
      (∃ t ∈ m.starts, StartMove m t t') ∨ Restarted m t' := by
    rintro ⟨i, t, pc, hget, hstarts, hmove⟩
    rw [hstarts] at ht'
    rcases List.mem_or_eq_of_mem_set ht' with hold | rfl
    · exact .inl ⟨t', hold, .rfl m t'⟩
    · exact .inl ⟨t, List.mem_of_getElem? hget, hmove⟩
  cases a with
  | requestStart seconds mode => exact absurd rfl (ha seconds mode)
  | requestStop | setEnabled => cases hstep; exact hsame rfl
  | advanceStart i ok => exact hset ⟨i, advanceStart_starts hstep⟩
  | giveUpStart i => exact hset ⟨i, giveUpStart_starts hstep⟩
  | advanceStop i ok =>
    rcases advanceStop_starts hstep with heq | heq | heq
    · exact hsame heq
    · rw [heq] at ht'
      obtain ⟨t, ht, rfl⟩ := List.mem_map.mp ht'
      exact .inl ⟨t, ht, id, id, fun _ => rfl, id, fun w hpc _ => .inl hpc, fun _ => .inl⟩
    · rw [heq] at ht'
      obtain ⟨t, ht, rfl⟩ := List.mem_map.mp ht'
      exact .inl ⟨t, ht, id, id, id, fun _ => rfl, fun w hpc _ => .inl hpc, fun _ => .inl⟩
  | giveUpStop i =>
    obtain ⟨t, w, -, -, rfl⟩ := giveUpStop_some hstep
    exact hsame rfl
  | advanceRestart i ok =>
    obtain ⟨seconds, hget, h⟩ := Option.bind_eq_some_iff.mp hstep
    dsimp only at h
    split at h
    · next hwanted =>
      cases h
      rcases List.mem_append.mp ht' with hold | hnew
      · exact .inl ⟨t', hold, .rfl m t'⟩
      · rw [List.mem_singleton] at hnew
        subst hnew
        simp only [Bool.and_eq_true] at hwanted
        exact .inr ⟨hwanted.1.2, rfl⟩
    · cases h; exact hsame rfl
  | timerFires => exact hsame (timerFires_calls hstep).1
  | exits | closes | errors | scanned =>
    simp only [step] at hstep
    exact hsame (procEvent_calls hstep).1

theorem step_stops
    (ha : ∀ seconds mode, a ≠ .requestStart seconds mode) (hstep : step c m a = some m')
    {t' : StopCall} (ht' : t' ∈ m'.stops) :
    t' ∈ m.stops ∨ t'.pc = .camera ∨
      ∃ t ∈ m.stops, ∃ pc, t' = { t with pc := pc } ∧ StopMove m m' t pc := by
  have hset : (∃ i t pc, m.stops[i]? = some t ∧ m'.stops = m.stops.set i { t with pc := pc } ∧
      StopMove m m' t pc) →
      t' ∈ m.stops ∨ t'.pc = .camera ∨
        ∃ t ∈ m.stops, ∃ pc, t' = { t with pc := pc } ∧ StopMove m m' t pc := by
    rintro ⟨i, t, pc, hget, hstops, hmove⟩
    rw [hstops] at ht'
    rcases List.mem_or_eq_of_mem_set ht' with hold | heq
    · exact .inl hold
    · exact .inr (.inr ⟨t, List.mem_of_getElem? hget, pc, heq, hmove⟩)
  cases a with
  | requestStart seconds mode => exact absurd rfl (ha seconds mode)
  | requestStop mode =>
    cases hstep
    rcases List.mem_append.mp ht' with hold | hnew
    · exact .inl hold
    · rw [List.mem_singleton] at hnew
      exact .inr (.inl (hnew ▸ rfl))
  | setEnabled => cases hstep; exact .inl ht'
  | advanceStart i ok =>
    left
    obtain ⟨t, ht, h⟩ := Option.bind_eq_some_iff.mp hstep
    dsimp only at h
    repeat' split at h
    all_goals first | (cases h; exact ht') | cases h
  | giveUpStart i =>
    obtain ⟨t, w, -, -, rfl⟩ := giveUpStart_some hstep
    exact .inl ht'
  | advanceStop i ok => exact hset ⟨i, advanceStop_stops hstep⟩
  | giveUpStop i => exact hset ⟨i, giveUpStop_stops hstep⟩
  | advanceRestart i ok =>
    left
    obtain ⟨seconds, hget, h⟩ := Option.bind_eq_some_iff.mp hstep
    dsimp only at h
    split at h <;> (cases h; exact ht')
  | timerFires => exact .inl ((timerFires_calls hstep).2.1 ▸ ht')
  | exits | closes | errors | scanned =>
    simp only [step] at hstep
    exact .inl ((procEvent_calls hstep).2.1 ▸ ht')

/-! ## The theorem -/

theorem step_registered (hm : Registered m)
    (hguard : SpawnsAlone m a) (hstep : step c m a = some m') : Registered m' := by
  have hprocs := step_procs hm hguard hstep
  refine ⟨hprocs.active hm, ?_, ?_, ?_, ?_, ?_⟩
  · refine hprocs.forall_procs (P := fun r => r.finalize ≠ .notStarted → r.status ≠ .running)
      ?_ ?_ ?_ hm.finalized
    · intro seconds h
      exact absurd rfl h
    · intro r r' ht hr hr'
      exact ht.finalized_dead hr hr'
    · intro r abnormal hscan hr _
      exact hr (by rw [hscan]; exact nofun)
  · refine hprocs.forall_procs (P := fun r => r.errored = true → r.status ≠ .running)
      ?_ ?_ ?_ hm.errored
    · intro seconds h
      cases h
    · intro r r' ht hr hr'
      exact ht.errored_dead hr hr'
    · intro r abnormal _ hr
      exact hr
  · intro t' ht' w hpc hret
    refine hprocs.dead ?_
    by_cases ha : ∃ seconds mode, a = .requestStart seconds mode
    · obtain ⟨seconds, mode, rfl⟩ := ha
      cases hstep
      rcases List.mem_append.mp ht' with hold | hnew
      · obtain ⟨t, ht, rfl⟩ := List.mem_map.mp hold
        exact hm.startWaits t ht w hpc hret
      · rw [List.mem_singleton] at hnew
        subst hnew
        cases hpc
    · rcases step_starts (fun seconds mode h => ha ⟨seconds, mode, h⟩) hstep ht' with hmoved | hnew
      · obtain ⟨t, ht, hmove⟩ := hmoved
        rcases hmove.waits w hpc hret with hwaited | hdead
        · exact hm.startWaits t ht w hwaited hret
        · exact hdead
      · rw [hnew.pc] at hpc
        cases hpc
  · intro t' ht' w hpc hret
    refine hprocs.dead ?_
    by_cases ha : ∃ seconds mode, a = .requestStart seconds mode
    · obtain ⟨seconds, mode, rfl⟩ := ha
      cases hstep
      obtain ⟨t, ht, rfl⟩ := List.mem_map.mp ht'
      exact hm.stopWaits t ht w hpc hret
    · rcases step_stops (fun seconds mode h => ha ⟨seconds, mode, h⟩) hstep ht' with hold | hnew | hmv
      · exact hm.stopWaits t' hold w hpc hret
      · rw [hnew] at hpc
        cases hpc
      · obtain ⟨t, ht, pc, rfl, hmove⟩ := hmv
        cases hpc
        cases hmove with
        | waiting p hpc' => exact hret
  · intro t' ht' seen hpc
    refine hprocs.foundNone ?_
    by_cases ha : ∃ seconds mode, a = .requestStart seconds mode
    · obtain ⟨seconds, mode, rfl⟩ := ha
      cases hstep
      rcases List.mem_append.mp ht' with hold | hnew
      · obtain ⟨t, ht, rfl⟩ := List.mem_map.mp hold
        exact hm.looks t ht seen hpc
      · rw [List.mem_singleton] at hnew
        subst hnew
        cases hpc
    · rcases step_starts (fun seconds mode h => ha ⟨seconds, mode, h⟩) hstep ht' with hmoved | hnew
      · obtain ⟨t, ht, hmove⟩ := hmoved
        rcases hmove.looks seen hpc with hprobing | ⟨rfl, hnone⟩
        · exact hm.looks t ht seen hprobing
        · exact ⟨Nat.le_refl _, fun _ => hnone⟩
      · rw [hnew.pc] at hpc
        cases hpc

theorem init_registered (row : CameraRow) : Registered { camera := row } :=
  ⟨nofun, nofun, nofun, nofun, nofun, nofun⟩

theorem registered_of_reach
    (h : Reach (managerMachine c) SpawnsAlone m) : Registered m := by
  refine h.invariant ?_ ?_
  · rintro m ⟨row, rfl⟩
    exact init_registered row
  · intro m a m' hm hguard hstep
    exact step_registered hm hguard hstep

/-- In every run in which no call that was overtaken at its probe spawns while a process is
registered, and none is taken for dead while live, the live process is the one in `active`. -/
theorem single_recorder (c : RestartSettings) {m : Manager}
    (h : Reach (managerMachine c) SpawnsAlone m) : SingleRecorder m :=
  (registered_of_reach h).single

/-! ## Runs -/

def wantedRow : CameraRow := ⟨true, true, "continuous"⟩

/-- A call of `start` from its beginning to the spawn. -/
def untilSpawn (i : Nat) : List Label := List.replicate 6 (.advanceStart i true)

/-- A recording dies without a stop, and the restart after it spawns the next process. -/
def crashAndRestart : List Label :=
  ([.requestStart 60 none] : List Label) ++ untilSpawn 0 ++
    ([.advanceStart 0 true, .advanceStart 0 true] : List Label) ++
    ([.exits 0, .closes 0, .scanned 0 1000, .timerFires, .advanceRestart 0 true] : List Label) ++
    untilSpawn 1

theorem single_recorder_crashed : ∃ m, Reach (managerMachine {}) SpawnsAlone m ∧
    m.live 1 = true ∧ SingleRecorder m := by
  have hrun : ((managerMachine {}).run spawnsAlone { camera := wantedRow } crashAndRestart).map
      (·.live 1) = some true := by
    rfl
  obtain ⟨m, hreach, hlive⟩ :=
    reach_of_run (G := SpawnsAlone) hrun ⟨wantedRow, rfl⟩ (fun _ _ h => h)
  exact ⟨m, hreach, hlive, single_recorder {} hreach⟩

/-- Two calls of `start` that await the probe together: both spawn. -/
theorem starts_overlap : ∃ m, Reach (managerMachine {}) Always m ∧ ¬ SingleRecorder m := by
  have hrun : ((managerMachine {}).run anyStep { camera := wantedRow }
      (([.requestStart 60 none, .requestStart 60 none] : List Label) ++ (untilSpawn 0).tail ++
        (untilSpawn 1).tail ++ ([.advanceStart 0 true, .advanceStart 1 true] : List Label))).map
      (fun m => (m.live 0, m.live 1)) = some (true, true) := by
    rfl
  obtain ⟨m, hreach, hlive⟩ := reach_of_anyStep hrun ⟨wantedRow, rfl⟩
  rw [Prod.mk.injEq] at hlive
  refine ⟨m, hreach, ?_⟩
  intro hsingle
  exact absurd (hsingle.1 0 1 hlive.1 hlive.2) (by decide)

end Drac.Recordings.ProcessManager
