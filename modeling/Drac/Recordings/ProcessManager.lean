import Mathlib.Algebra.Group.Nat.Defs
import Drac.Lib.Runs

/-
  The recording process manager of one camera, in pieces from one await to the next.

  Any number of calls of `start` and `stop` are in flight at once, beside the ffmpeg
  processes the manager spawned, their exit handlers and the restart after a crash. A
  call in flight is a record with a program counter; a step of the machine is one
  piece of one call, one event of a process, or the answer of the database to a query.

  Correspondence (`recording-process-manager.service.ts` ↔ Lean):
    start                     ↔ `requestStart`, `advanceStart`
    stop                      ↔ `requestStop`, `advanceStop`
    stopProcessAndWait        ↔ `StopWait`, `giveUpStart`, `giveUpStop`
    proc.on('close'), proc.on('error')   ↔ `closes`, `errors`
    finalizeRecordingState    ↔ `finalizeRecordingState`, and `scanned` once its scan is over
    planRecordingRestart, cancelPendingRestart, scheduleRecordingRestart ↔ the same names
    restartRecordingAfterCrash ↔ `timerFires`, `advanceRestart`
    resolveRecordingModeUpdate ↔ `resolveRecordingModeUpdate`

  The manager is in local control mode and is not shutting down. Processes are named by
  their place in the order of spawning. Files, arguments of ffmpeg, events and logs are
  left out; what a check outside the manager answers is in the label of its step.
-/

namespace Drac.Recordings.ProcessManager

open Runs

/-! ## Processes -/

abbrev ProcId := Nat

inductive ProcStatus where
  | running
  | exited
  | closed
  deriving DecidableEq, Repr

/-- `finalizePromise`: not there, awaiting its scan, or settled. The death was
abnormal where no stop had been requested. -/
inductive Finalization where
  | notStarted
  | scanning (abnormal : Bool)
  | done
  deriving DecidableEq, Repr

structure RecordingProcessState where
  segmentSeconds : Nat
  status : ProcStatus := .running
  /-- The process emitted `error`. -/
  errored : Bool := false
  stopRequested : Bool := false
  finalize : Finalization := .notStarted
  deriving DecidableEq, Repr

/-! ## Calls in flight -/

/-- The promise of `stopProcessAndWait` for a process: it was already dead at the call,
or the call waits for `close` or `error`. -/
structure StopWait where
  proc : ProcId
  returned : Bool
  deriving DecidableEq, Repr

/-- What a start is answered. -/
inductive StartResult where
  | recordingStarted (p : ProcId)
  | alreadyRecording (p : ProcId)
  | failed
  deriving DecidableEq, Repr

/-- Where a call of `start` awaits. From `resolving` on it knows a process: its own, or
the one it found in `active`. -/
inductive StartPc where
  | enabled
  | feature
  | storageWritable
  | storageFree
  | camera
  /-- History: how many processes there had been when it found `active` empty. -/
  | probing (seen : Nat)
  | resolving (p : ProcId) (own : Bool)
  | updating (p : ProcId) (own : Bool) (recordingMode : Option String)
  | rollbackWaiting (wait : StopWait)
  | rollbackFinalizing (p : ProcId)
  | finished (result : StartResult)
  deriving DecidableEq, Repr

structure StartCall where
  segmentSeconds : Nat
  recordingMode : Option String := none
  pc : StartPc := .enabled
  /-- History: a stop wrote its wish after this call began, and no start was requested since. -/
  outwritten : Bool := false
  /-- History: a stop looked for the process after this call began, likewise. -/
  outrun : Bool := false
  deriving DecidableEq, Repr

/-- What a stop is answered. -/
inductive StopResult where
  | notRecording
  | recordingStopped
  | failed
  deriving DecidableEq, Repr

inductive StopPc where
  | camera
  | resolving
  | updating (recordingMode : Option String)
  /-- The database has answered the update. -/
  | updated
  | waiting (wait : StopWait)
  | finalizing (p : ProcId)
  | finished (result : StopResult)
  deriving DecidableEq, Repr

structure StopCall where
  recordingMode : Option String := none
  pc : StopPc := .camera
  /-- History: no start was requested since this call began. -/
  fresh : Bool := true
  deriving DecidableEq, Repr

def StartCall.inFlight (t : StartCall) : Bool :=
  match t.pc with
  | .finished _ => false
  | _ => true

def StartCall.beforeSpawn (t : StartCall) : Bool :=
  match t.pc with
  | .enabled | .feature | .storageWritable | .storageFree | .camera | .probing _ => true
  | _ => false

/-! ## The manager -/

structure CameraRow where
  enabled : Bool
  recordingEnabled : Bool
  recordingMode : String
  deriving DecidableEq, Repr

/-- What the environment sets for the restarts. -/
structure RestartSettings where
  enabled : Bool := true
  maxAttempts : Nat := 5
  windowMs : Nat := 600000
  baseDelayMs : Nat := 1000
  maxDelayMs : Nat := 30000
  segmentSeconds : Nat := 300
  deriving DecidableEq, Repr

/-- What the brake decides after a crash. -/
structure RestartPlan where
  allowed : Bool
  attempt : Nat
  delayMs : Nat
  maxAttempts : Nat
  windowMs : Nat
  deriving DecidableEq, Repr

structure RestartTimer where
  segmentSeconds : Nat
  plan : RestartPlan
  deriving DecidableEq, Repr

/-- The row, the processes and the calls under way, of one camera. -/
structure Manager where
  camera : CameraRow
  procs : List RecordingProcessState := []
  active : Option ProcId := none
  restartTimer : Option RestartTimer := none
  restartAttempts : List Nat := []
  starts : List StartCall := []
  stops : List StopCall := []
  /-- The restarts that await the row of the camera, with their seconds. -/
  restarts : List Nat := []
  deriving DecidableEq, Repr

namespace Manager

def modifyProc (m : Manager) (p : ProcId) (f : RecordingProcessState → RecordingProcessState) :
    Manager :=
  { m with procs := m.procs.modify p f }

def setStart (m : Manager) (i : Nat) (t : StartCall) : Manager :=
  { m with starts := m.starts.set i t }

def setStop (m : Manager) (i : Nat) (t : StopCall) : Manager :=
  { m with stops := m.stops.set i t }

def live (m : Manager) (p : ProcId) : Bool :=
  (m.procs[p]?).any (fun r => r.status = .running)

def dead (m : Manager) (p : ProcId) : Bool :=
  (m.procs[p]?).any (fun r => r.status ≠ .running)

/-- The listeners of `stopProcessAndWait` have fired. -/
def settled (m : Manager) (w : StopWait) : Bool :=
  w.returned || (m.procs[w.proc]?).any (fun r => r.status = .closed || r.errored)

def finalized (m : Manager) (p : ProcId) : Bool :=
  (m.procs[p]?).any (fun r => r.finalize = .done)

end Manager

/-! ## Stopping and finalizing -/

def requestStopOf (r : RecordingProcessState) : RecordingProcessState :=
  { r with stopRequested := true }

def beginFinalize (r : RecordingProcessState) : RecordingProcessState :=
  match r.finalize with
  | .notStarted => { r with finalize := .scanning (!r.stopRequested) }
  | _ => r

def finalizeRecordingState (m : Manager) (p : ProcId) : Manager := m.modifyProc p beginFinalize

/-- The promise `stopProcessAndWait` gives, where it also sends SIGTERM to a live process. -/
def stopProcessAndWait (m : Manager) (p : ProcId) : StopWait := ⟨p, m.dead p⟩

/-! ## Restarting -/

/-- Whether and when to restart: exponential backoff, and a brake over a sliding window. -/
def planRecordingRestart (c : RestartSettings) (now : Nat) (attempts : List Nat) :
    RestartPlan × List Nat :=
  let previous := attempts.filter (fun at_ => now < at_ + c.windowMs)
  if c.maxAttempts ≤ previous.length then
    (⟨false, previous.length, 0, c.maxAttempts, c.windowMs⟩, previous)
  else
    let delayMs := min c.maxDelayMs (c.baseDelayMs * 2 ^ previous.length)
    (⟨true, previous.length + 1, delayMs, c.maxAttempts, c.windowMs⟩, previous ++ [now])

def cancelPendingRestart (m : Manager) : Manager :=
  { m with restartTimer := none, restartAttempts := [] }

def scheduleRecordingRestart (c : RestartSettings) (now : Nat) (r : RecordingProcessState)
    (m : Manager) : Manager :=
  if r.stopRequested then m
  else if ¬ c.enabled then m
  else if m.restartTimer.isSome then m
  else if m.active.isSome then m
  else
    let (plan, attempts) := planRecordingRestart c now m.restartAttempts
    if plan.allowed then
      { m with restartTimer := some ⟨r.segmentSeconds, plan⟩, restartAttempts := attempts }
    else { m with restartAttempts := attempts }

/-- The promise of `finalizeRecordingState` after its scan: the camera is let go of, and
after an abnormal death a restart is scheduled. -/
def settleFinalize (c : RestartSettings) (now : Nat) (p : ProcId) (r : RecordingProcessState)
    (abnormal : Bool) (m : Manager) : Manager :=
  let m := m.modifyProc p (fun r => { r with finalize := .done })
  let m := if m.active = some p then { m with active := none } else m
  if abnormal then scheduleRecordingRestart c now r m else m

/-! ## The database -/

/-- The mode a start or a stop writes. A request for manual recording leaves a camera
armed for motion as it is. -/
def resolveRecordingModeUpdate (requested : Option String) (row : CameraRow) : Option String :=
  match requested with
  | none => none
  | some mode =>
    if mode = "" then none
    else if mode = "manual" ∧ row.recordingMode = "motion" then none
    else some mode

/-- `camera.update` of the desired state. -/
def writeDesired (recordingEnabled : Bool) (recordingMode : Option String) (m : Manager) :
    Manager :=
  { m with camera := { m.camera with
      recordingEnabled := recordingEnabled
      recordingMode := recordingMode.getD m.camera.recordingMode } }

/-! ## Steps -/

/-- One step: a request, an await of a call, a process or a timer. -/
inductive Label where
  | requestStart (segmentSeconds : Nat) (recordingMode : Option String)
  | requestStop (recordingMode : Option String)
  /-- The await of a call is over, and whether it went well. -/
  | advanceStart (i : Nat) (ok : Bool)
  | advanceStop (i : Nat) (ok : Bool)
  | advanceRestart (i : Nat) (ok : Bool)
  /-- `giveUpTimer` fires. -/
  | giveUpStart (i : Nat)
  | giveUpStop (i : Nat)
  | exits (p : ProcId)
  | closes (p : ProcId)
  | errors (p : ProcId)
  /-- The scan of a finalization is over. -/
  | scanned (p : ProcId) (now : Nat)
  | timerFires
  /-- Another part of the system enables or disables the camera. -/
  | setEnabled (enabled : Bool)
  deriving DecidableEq, Repr

def requestStart (segmentSeconds : Nat) (recordingMode : Option String) (m : Manager) : Manager :=
  { m with
    starts := m.starts.map (fun t => { t with outwritten := false, outrun := false }) ++
      [{ segmentSeconds := segmentSeconds, recordingMode := recordingMode }]
    stops := m.stops.map (fun t => { t with fresh := false }) }

def requestStop (recordingMode : Option String) (m : Manager) : Manager :=
  { m with stops := m.stops ++ [{ recordingMode := recordingMode }] }

/-- The piece after the probe: the process is spawned and registered. -/
def spawn (segmentSeconds : Nat) (m : Manager) : Manager :=
  { m with
    procs := m.procs ++ [{ segmentSeconds := segmentSeconds }]
    active := some m.procs.length }

/-- One piece of a call of `start`, from the state it awaits in. -/
def advanceStart (i : Nat) (ok : Bool) (m : Manager) : Option Manager := do
  let t ← m.starts[i]?
  let goto (m : Manager) (pc : StartPc) : Option Manager := some (m.setStart i { t with pc := pc })
  match t.pc with
  | .enabled => goto m (if ok && m.camera.enabled then .feature else .finished .failed)
  | .feature => goto m (if ok then .storageWritable else .finished .failed)
  | .storageWritable => goto m (if ok then .storageFree else .finished .failed)
  | .storageFree => goto m (if ok then .camera else .finished .failed)
  | .camera =>
    if ¬ ok then goto m (.finished .failed)
    else
      match m.active with
      | some p => goto m (.resolving p false)
      | none => goto m (.probing m.procs.length)
  | .probing _ =>
    if ok then goto (spawn t.segmentSeconds m) (.resolving m.procs.length true)
    else goto m (.finished .failed)
  | .resolving p own =>
    if ok then goto m (.updating p own (resolveRecordingModeUpdate t.recordingMode m.camera))
    else if own then
      goto (m.modifyProc p requestStopOf) (.rollbackWaiting (stopProcessAndWait m p))
    else goto m (.finished .failed)
  | .updating p own recordingMode =>
    if ok then
      goto (writeDesired true recordingMode m)
        (.finished (if own then .recordingStarted p else .alreadyRecording p))
    else if own then
      goto (m.modifyProc p requestStopOf) (.rollbackWaiting (stopProcessAndWait m p))
    else goto m (.finished .failed)
  | .rollbackWaiting w =>
    if m.settled w then goto (finalizeRecordingState m w.proc) (.rollbackFinalizing w.proc)
    else none
  | .rollbackFinalizing p => if m.finalized p then goto m (.finished .failed) else none
  | .finished _ => none

/-- One piece of a call of `stop`. -/
def advanceStop (i : Nat) (ok : Bool) (m : Manager) : Option Manager := do
  let t ← m.stops[i]?
  let goto (m : Manager) (pc : StopPc) : Option Manager := some (m.setStop i { t with pc := pc })
  match t.pc with
  | .camera => goto m (if ok then .resolving else .finished .failed)
  | .resolving =>
    goto m (if ok then .updating (resolveRecordingModeUpdate t.recordingMode m.camera)
      else .finished .failed)
  | .updating recordingMode =>
    if ok then
      goto { writeDesired false recordingMode m with
          starts := m.starts.map (fun t => { t with outwritten := true }) } .updated
    else goto m (.finished .failed)
  | .updated =>
    let m := cancelPendingRestart
      { m with starts := m.starts.map (fun t => { t with outrun := true }) }
    match m.active with
    | none => goto m (.finished .notRecording)
    | some p => goto (m.modifyProc p requestStopOf) (.waiting (stopProcessAndWait m p))
  | .waiting w =>
    if m.settled w then goto (finalizeRecordingState m w.proc) (.finalizing w.proc) else none
  | .finalizing p => if m.finalized p then goto m (.finished .recordingStopped) else none
  | .finished _ => none

/-- The row of the camera is there for a restart: it starts where recording is wanted. -/
def advanceRestart (c : RestartSettings) (i : Nat) (ok : Bool) (m : Manager) : Option Manager := do
  let seconds ← m.restarts[i]?
  let m := { m with restarts := m.restarts.eraseIdx i }
  if ok && m.camera.recordingEnabled && m.camera.enabled then
    some { m with starts := m.starts ++
      [{ segmentSeconds := if 0 < seconds then seconds else c.segmentSeconds }] }
  else some m

def giveUpStart (i : Nat) (m : Manager) : Option Manager := do
  let t ← m.starts[i]?
  match t.pc with
  | .rollbackWaiting w => some ((finalizeRecordingState m w.proc).setStart i
      { t with pc := .rollbackFinalizing w.proc })
  | _ => none

def giveUpStop (i : Nat) (m : Manager) : Option Manager := do
  let t ← m.stops[i]?
  match t.pc with
  | .waiting w => some ((finalizeRecordingState m w.proc).setStop i
      { t with pc := .finalizing w.proc })
  | _ => none

def timerFires (m : Manager) : Option Manager := do
  let timer ← m.restartTimer
  let m := { m with restartTimer := none }
  if m.active.isSome then some m
  else some { m with restarts := m.restarts ++ [timer.segmentSeconds] }

def procEvent (c : RestartSettings) (m : Manager) : Label → Option Manager
  | .exits p => do
    let r ← m.procs[p]?
    if r.status = .running then some (m.modifyProc p (fun r => { r with status := .exited }))
    else none
  | .closes p => do
    let r ← m.procs[p]?
    if r.status = .exited then
      some (finalizeRecordingState (m.modifyProc p (fun r => { r with status := .closed })) p)
    else none
  | .errors p => do
    let _ ← m.procs[p]?
    some (finalizeRecordingState (m.modifyProc p (fun r => { r with errored := true })) p)
  | .scanned p now => do
    let r ← m.procs[p]?
    match r.finalize with
    | .scanning abnormal => some (settleFinalize c now p r abnormal m)
    | _ => none
  | _ => none

def step (c : RestartSettings) (m : Manager) : Label → Option Manager
  | .requestStart segmentSeconds recordingMode =>
    some (requestStart segmentSeconds recordingMode m)
  | .requestStop recordingMode => some (requestStop recordingMode m)
  | .advanceStart i ok => advanceStart i ok m
  | .advanceStop i ok => advanceStop i ok m
  | .advanceRestart i ok => advanceRestart c i ok m
  | .giveUpStart i => giveUpStart i m
  | .giveUpStop i => giveUpStop i m
  | .timerFires => timerFires m
  | .setEnabled enabled => some { m with camera := { m.camera with enabled := enabled } }
  | event => procEvent c m event

/-! ## What the small steps do -/

section Inversions

variable {c : RestartSettings} {m m' : Manager} {i : Nat} {p : ProcId}

theorem giveUpStart_some (h : giveUpStart i m = some m') :
    ∃ t w, m.starts[i]? = some t ∧ t.pc = .rollbackWaiting w ∧
      m' = (finalizeRecordingState m w.proc).setStart i
        { t with pc := .rollbackFinalizing w.proc } := by
  obtain ⟨t, ht, h⟩ := Option.bind_eq_some_iff.mp h
  split at h
  · next w hpc => exact ⟨t, w, ht, hpc, (Option.some.inj h).symm⟩
  · cases h

theorem giveUpStop_some (h : giveUpStop i m = some m') :
    ∃ t w, m.stops[i]? = some t ∧ t.pc = .waiting w ∧
      m' = (finalizeRecordingState m w.proc).setStop i { t with pc := .finalizing w.proc } := by
  obtain ⟨t, ht, h⟩ := Option.bind_eq_some_iff.mp h
  split at h
  · next w hpc => exact ⟨t, w, ht, hpc, (Option.some.inj h).symm⟩
  · cases h

theorem exits_some (h : procEvent c m (.exits p) = some m') :
    m' = m.modifyProc p (fun r => { r with status := .exited }) := by
  obtain ⟨r, -, h⟩ := Option.bind_eq_some_iff.mp h
  split at h
  · exact (Option.some.inj h).symm
  · cases h

theorem closes_some (h : procEvent c m (.closes p) = some m') :
    m' = finalizeRecordingState (m.modifyProc p (fun r => { r with status := .closed })) p := by
  obtain ⟨r, -, h⟩ := Option.bind_eq_some_iff.mp h
  split at h
  · exact (Option.some.inj h).symm
  · cases h

theorem errors_some (h : procEvent c m (.errors p) = some m') :
    m' = finalizeRecordingState (m.modifyProc p (fun r => { r with errored := true })) p := by
  obtain ⟨r, -, h⟩ := Option.bind_eq_some_iff.mp h
  exact (Option.some.inj h).symm

theorem scanned_some {now : Nat} (h : procEvent c m (.scanned p now) = some m') :
    ∃ r abnormal, m.procs[p]? = some r ∧ r.finalize = .scanning abnormal ∧
      m' = settleFinalize c now p r abnormal m := by
  obtain ⟨r, hget, h⟩ := Option.bind_eq_some_iff.mp h
  split at h
  · next abnormal hscan => exact ⟨r, abnormal, hget, hscan, (Option.some.inj h).symm⟩
  · cases h

end Inversions

/-- The manager of a camera, from the start of the program. -/
def managerMachine (c : RestartSettings) : Machine Manager Label where
  init m := ∃ row, m = { camera := row }
  step := step c

end Drac.Recordings.ProcessManager
