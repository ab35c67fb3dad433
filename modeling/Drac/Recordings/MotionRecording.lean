import Drac.Recordings.ProcessManager

/-
  Recording on motion, over the process manager of a camera.

  A motion event starts the recording, or finds it running, and sets the stop timer again;
  a timer that fires begins a callback that stops the recording. Handlers of events and
  callbacks are in flight beside the calls of `start` and `stop`, of the manager and of its
  users; each is a record with a program counter, and a step is one piece of it.

  Correspondence (`recording-process-manager.service.ts` ↔ Lean):
    scheduleMotionStop, clearMotionStopTimer ↔ the same names
    handleMotionDetected           ↔ `advanceEvent`
    stopMotionRecordingAfterQuiet  ↔ `motionTimerFires`, `advanceCallback`
    setMotionRecording             ↔ `setMotionRecording`, `advanceArming`
    suspendRecordingForDiskGuard   ↔ `suspend`, `advanceSuspension`, `giveUpSuspension`
    start, stop, their processes   ↔ the machine of `ProcessManager`

  The manager is in local control mode and is not shutting down. The post-roll is in whole
  milliseconds, as the clock is. Promoting, raising and stopping the ring of what came before
  an event are awaits that end; whether there is a ring is in the label of a step. What the
  recorder has answered and whom it asked to stop is written down in a log.
-/

namespace Drac.Recordings.MotionRecording

open Runs ProcessManager

/-- The longest delay of a timer. -/
def maxTimeout : Nat := 2147483647

/-- The delay `setTimeout` makes of a number of milliseconds. -/
def timeoutMs (ms : Nat) : Nat := if 1 ≤ ms ∧ ms ≤ maxTimeout then ms else 1

structure MotionSettings where
  restart : RestartSettings := {}
  postRollMs : Nat := 60000
  segmentSeconds : Nat := 60

/-! ## In flight -/

/-- What an event is answered. -/
inductive MotionAnswer where
  | ignored
  | alreadyRecording
  | recordingStarted
  | failed
  deriving DecidableEq, Repr

/-- Where a handler of an event awaits: the row of the camera, the ring, its call of `start`,
and the event it registers once the process it started or found is known. -/
inductive EventPc where
  | camera
  | promoting
  | starting (i : Nat)
  | registering (p : ProcId) (own : Bool)
  | finished (answer : MotionAnswer)
  deriving DecidableEq, Repr

/-- Where a callback of the timer is. -/
inductive CallbackPc where
  | camera
  | raising
  | stopping (i : Nat)
  | finished
  deriving DecidableEq, Repr

/-- Where a change of the mode awaits: its call of `stop`, and the update of the row. -/
inductive ArmingPc where
  | stopping (i : Nat)
  | updating
  | finished
  deriving DecidableEq, Repr

structure Arming where
  enabled : Bool
  pc : ArmingPc
  deriving DecidableEq, Repr

inductive SuspensionPc where
  | waiting (wait : StopWait)
  | finalizing (p : ProcId)
  | finished
  deriving DecidableEq, Repr

/-! ## The log -/

/-- Who asks a process to stop. -/
inductive Asker where
  | user
  | diskGuard
  | motionStop
  | rollback
  deriving DecidableEq, Repr

def Asker.outside : Asker → Bool
  | .user | .diskGuard => true
  | .motionStop | .rollback => false

/-- What the log holds. -/
inductive Entry where
  /-- An event is answered `already_recording`, for a process. -/
  | answered (p : ProcId) (at_ : Nat)
  | asked (p : ProcId) (at_ : Nat) (by_ : Asker)
  deriving DecidableEq, Repr

/-! ## The recorder -/

structure MotionRecorder where
  manager : Manager
  now : Nat := 0
  /-- When `motionStopTimers` lets the callback begin. -/
  stopTimer : Option Nat := none
  events : List EventPc := []
  callbacks : List CallbackPc := []
  armings : List Arming := []
  suspensions : List SuspensionPc := []
  log : List Entry := []
  deriving DecidableEq, Repr

namespace MotionRecorder

def setEvent (m : MotionRecorder) (k : Nat) (pc : EventPc) : MotionRecorder :=
  { m with events := m.events.set k pc }

def setCallback (m : MotionRecorder) (k : Nat) (pc : CallbackPc) : MotionRecorder :=
  { m with callbacks := m.callbacks.set k pc }

def setArming (m : MotionRecorder) (k : Nat) (t : Arming) : MotionRecorder :=
  { m with armings := m.armings.set k t }

def setSuspension (m : MotionRecorder) (k : Nat) (pc : SuspensionPc) : MotionRecorder :=
  { m with suspensions := m.suspensions.set k pc }

def startResult (m : MotionRecorder) (i : Nat) : Option StartResult :=
  (m.manager.starts[i]?).bind (fun t =>
    match t.pc with
    | .finished result => some result
    | _ => none)

def stopOver (m : MotionRecorder) (i : Nat) : Bool :=
  (m.manager.stops[i]?).any (fun t =>
    match t.pc with
    | .finished _ => true
    | _ => false)

/-- The call of `stop` is that of a callback of the timer. -/
def ofCallback (m : MotionRecorder) (i : Nat) : Bool := m.callbacks.any (· = .stopping i)

end MotionRecorder

def clearMotionStopTimer (m : MotionRecorder) : MotionRecorder := { m with stopTimer := none }

def scheduleMotionStop (c : MotionSettings) (m : MotionRecorder) : MotionRecorder :=
  { clearMotionStopTimer m with stopTimer := some (m.now + timeoutMs c.postRollMs) }

/-- The event is answered `already_recording`, once its timer is set. -/
def answerAlready (c : MotionSettings) (k : Nat) (p : ProcId) (m : MotionRecorder) :
    MotionRecorder :=
  { (scheduleMotionStop c m).setEvent k (.finished .alreadyRecording) with
    log := m.log ++ [.answered p m.now] }

def beginStart (c : MotionSettings) (k : Nat) (m : MotionRecorder) : MotionRecorder :=
  { m with manager := requestStart c.segmentSeconds none m.manager }.setEvent k
    (.starting m.manager.starts.length)

def advanceEvent (c : MotionSettings) (k : Nat) (ok ring : Bool) (m : MotionRecorder) :
    Option MotionRecorder := do
  match ← m.events[k]? with
  | .camera =>
    if ¬ ok then some (m.setEvent k (.finished .failed))
    else if ¬ m.manager.camera.enabled ∨ m.manager.camera.recordingMode ≠ "motion" then
      some (m.setEvent k (.finished .ignored))
    else
      match m.manager.active with
      | some p => some (answerAlready c k p m)
      | none => some (if ring then m.setEvent k .promoting else beginStart c k m)
  | .promoting => some (beginStart c k m)
  | .starting i =>
    match m.startResult i with
    | some (.recordingStarted p) => some (m.setEvent k (.registering p true))
    | some (.alreadyRecording p) => some (m.setEvent k (.registering p false))
    | some .failed => some (m.setEvent k (.finished .failed))
    | none => none
  | .registering p own =>
    if ¬ ok then some (m.setEvent k (.finished .failed))
    else if own then some ((scheduleMotionStop c m).setEvent k (.finished .recordingStarted))
    else some (answerAlready c k p m)
  | .finished _ => none

/-- The timer fires: it is no longer there, and its callback awaits the row of the camera. -/
def motionTimerFires (m : MotionRecorder) : Option MotionRecorder := do
  let deadline ← m.stopTimer
  if deadline ≤ m.now then
    some { clearMotionStopTimer m with callbacks := m.callbacks ++ [.camera] }
  else none

def beginStop (k : Nat) (m : MotionRecorder) : MotionRecorder :=
  { m with manager := requestStop none m.manager }.setCallback k (.stopping m.manager.stops.length)

def advanceCallback (k : Nat) (ok ring : Bool) (m : MotionRecorder) : Option MotionRecorder := do
  match ← m.callbacks[k]? with
  | .camera =>
    if ok ∧ m.manager.camera.recordingMode = "motion" ∧ m.manager.camera.recordingEnabled then
      some (if ring then m.setCallback k .raising else beginStop k m)
    else some (m.setCallback k .finished)
  | .raising => some (beginStop k m)
  | .stopping i => if m.stopOver i then some (m.setCallback k .finished) else none
  | .finished => none

def setMotionRecording (enabled : Bool) (m : MotionRecorder) : MotionRecorder :=
  { clearMotionStopTimer m with
    manager := requestStop none m.manager
    armings := m.armings ++ [⟨enabled, .stopping m.manager.stops.length⟩] }

def advanceArming (k : Nat) (ok : Bool) (m : MotionRecorder) : Option MotionRecorder := do
  let t ← m.armings[k]?
  match t.pc with
  | .stopping i => if m.stopOver i then some (m.setArming k { t with pc := .updating }) else none
  | .updating =>
    let m := m.setArming k { t with pc := .finished }
    if ok then
      some { m with manager :=
        writeDesired false (some (if t.enabled then "motion" else "manual")) m.manager }
    else some m
  | .finished => none

/-- The guard of the disk asks the process to stop and leaves the desired state as it is. -/
def suspend (m : MotionRecorder) : Option MotionRecorder := do
  let p ← m.manager.active
  let manager := m.manager.modifyProc p requestStopOf
  some { m with
    manager := manager
    suspensions := m.suspensions ++ [.waiting (stopProcessAndWait manager p)]
    log := m.log ++ [.asked p m.now .diskGuard] }

def advanceSuspension (k : Nat) (m : MotionRecorder) : Option MotionRecorder := do
  match ← m.suspensions[k]? with
  | .waiting w =>
    if m.manager.settled w then
      some ({ m with manager := finalizeRecordingState m.manager w.proc }.setSuspension k
        (.finalizing w.proc))
    else none
  | .finalizing p => if m.manager.finalized p then some (m.setSuspension k .finished) else none
  | .finished => none

def giveUpSuspension (k : Nat) (m : MotionRecorder) : Option MotionRecorder := do
  match ← m.suspensions[k]? with
  | .waiting w =>
    some ({ m with manager := finalizeRecordingState m.manager w.proc }.setSuspension k
      (.finalizing w.proc))
  | _ => none

/-! ## Steps -/

/-- One step: time, an event, or an await of a call. -/
inductive Label where
  | tick (ms : Nat)
  | motion
  | advanceEvent (k : Nat) (ok ring : Bool)
  | motionTimerFires
  | advanceCallback (k : Nat) (ok ring : Bool)
  | setMotionRecording (enabled : Bool)
  | advanceArming (k : Nat) (ok : Bool)
  | suspend
  | advanceSuspension (k : Nat)
  | giveUpSuspension (k : Nat)
  /-- A step of the manager: a user calls `start` or `stop`, a call goes on, a process dies. -/
  | manager (a : ProcessManager.Label)
  deriving DecidableEq, Repr

/-- The process a step of the manager asks to stop, and on whose behalf. -/
def requested (m : MotionRecorder) : ProcessManager.Label → Option (ProcId × Asker)
  | .advanceStop i _ => do
    let t ← m.manager.stops[i]?
    match t.pc with
    | .updated => m.manager.active.map (·, if m.ofCallback i then .motionStop else .user)
    | _ => none
  | .advanceStart i ok => do
    let t ← m.manager.starts[i]?
    match t.pc, ok with
    | .resolving p true, false => some (p, .rollback)
    | .updating p true _, false => some (p, .rollback)
    | _, _ => none
  | _ => none

def managerStep (c : MotionSettings) (a : ProcessManager.Label) (m : MotionRecorder) :
    Option MotionRecorder := do
  let manager ← ProcessManager.step c.restart m.manager a
  some { m with
    manager := manager
    log := m.log ++ ((requested m a).map (fun r => Entry.asked r.1 m.now r.2)).toList }

def step (c : MotionSettings) (m : MotionRecorder) : Label → Option MotionRecorder
  | .tick ms => some { m with now := m.now + ms }
  | .motion => some { m with events := m.events ++ [.camera] }
  | .advanceEvent k ok ring => advanceEvent c k ok ring m
  | .motionTimerFires => motionTimerFires m
  | .advanceCallback k ok ring => advanceCallback k ok ring m
  | .setMotionRecording enabled => some (setMotionRecording enabled m)
  | .advanceArming k ok => advanceArming k ok m
  | .suspend => suspend m
  | .advanceSuspension k => advanceSuspension k m
  | .giveUpSuspension k => giveUpSuspension k m
  | .manager a => managerStep c a m

/-- A camera nobody records, under any row. -/
def motionMachine (c : MotionSettings) : Machine MotionRecorder Label where
  init m := ∃ row, m = { manager := { camera := row } }
  step := step c

end Drac.Recordings.MotionRecording
