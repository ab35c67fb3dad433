import Drac.Lib.Runs

/-
  The listener for a camera's own motion events, and its reserve.

  Correspondence (`onvif-events.service.ts` ↔ Lean):
    syncCameras          ↔ `subscribe` (the listener), `watch` (the reserve)
    connectCamera        ↔ the same name; its callbacks are `Label.connected`,
                           `connectFailed`, `listenerError`
    onCameraMotion       ↔ the same name
    activateFallback     ↔ `activate`, and what its await brings
    deactivateFallback   ↔ inside `onCameraMotion`
    probeAllCameras      ↔ `probe`, `flip`

  One camera, as the service holds it; what it does for another camera is an await here. A
  sync reads the rows, brings the listener up to date and looks at the reserve; a probe
  asks the camera for its events and changes the row. Calls go from await to await and may
  overlap; one may stop at any of them. An instance that was replaced still delivers its
  events. Limits are whole milliseconds, and a fractional number of syncs counts as the
  next whole one.

  `History` is for the statements: nothing here reads it. `fallbackActive` is the service's
  own record that the local detector stands in for the camera's.
-/

namespace Drac.Cameras.OnvifEvents

open Runs

inductive MotionTrigger where
  | camera
  | system
  deriving DecidableEq

inductive RecordingMode where
  | motion
  | other
  deriving DecidableEq

/-- The camera's row. The last two say what `assertCameraTargetAllowed` and `decrypt` make of
its address and its password. -/
structure Row where
  enabled : Bool
  motionTrigger : MotionTrigger
  recordingMode : RecordingMode
  onvifPort : Option Nat
  targetAllowed : Bool
  passwordReadable : Bool
  deriving DecidableEq

def Row.armed (row : Row) : Bool := row.enabled && row.recordingMode = .motion

structure Config where
  disabled : Bool
  resubscribeAfterMs : Int
  silenceFallbackMs : Int
  deadSyncsForFallback : Nat
  resubscribe_min : 300000 ≤ resubscribeAfterMs
  silence_min : 3600000 ≤ silenceFallbackMs
  dead_min : 1 ≤ deadSyncsForFallback

/-- `ListenerState`; a camera is an instance of the library, by its number. -/
structure Listener where
  cam : Option Nat
  connectedAt : Option Int
  deriving DecidableEq

/-- A listener that was started. -/
inductive Instance where
  | connecting
  | connected
  | failed
  deriving DecidableEq

structure Failures where
  count : Nat
  nextRetryAt : Int

/-- What has been: when a listener of the camera first went live, how many syncs in a row
found it armed and without one, and how the last activation ended. -/
structure History where
  firstWatched : Option Int := none
  deadRun : Nat := 0
  lastAttemptFailed : Bool := false

/-- What a call awaits. A sync carries the row it read, a probe's activation has none. -/
inductive Phase where
  | reading
  | watching (row : Row)
  | activating (row : Option Row)
  | registering (row : Option Row)
  | probeReading
  | probing (row : Row)
  | updating (row : Row) (target : MotionTrigger)
  | flipping (row : Row) (target : MotionTrigger)
  | ended
  | stopped
  deriving DecidableEq

structure System where
  clock : Int
  row : Option Row
  listener : Option Listener
  instances : List Instance
  connectFailures : Option Failures
  lastEventAt : Option Int
  fallbackActive : Bool
  deadSyncs : Nat
  calls : List Phase
  history : History

def System.goto (s : System) (i : Nat) (phase : Phase) : System :=
  { s with calls := s.calls.set i phase }

variable (config : Config)

/-! ## The listener -/

def connectCamera (s : System) (camera : Row) : System :=
  if camera.targetAllowed then
    if camera.passwordReadable then
      { s with
        listener := some ⟨none, none⟩
        instances := s.instances ++ [.connecting] }
    else { s with listener := none }
  else { s with listener := none }

/-- `state?.cam && state.connectedAt && Date.now() - state.connectedAt > resubscribeAfterMs`. -/
def Listener.stale (listener : Listener) (now : Int) : Bool :=
  listener.cam.isSome && listener.connectedAt.any (fun at_ =>
    at_ ≠ 0 && decide (now - at_ > config.resubscribeAfterMs))

/-- The listeners of cameras that are no longer native or due to be subscribed anew. -/
def dropListener (s : System) (row : Option Row) : System :=
  match s.listener with
  | none => s
  | some listener =>
    if row.isNone || listener.stale config s.clock then { s with listener := none } else s

def subscribe (s : System) (row : Option Row) : System :=
  let s := dropListener config s row
  match row with
  | none => s
  | some camera =>
    if camera.enabled = false then { s with listener := none }
    else if s.listener.isSome then s
    else if s.connectFailures.any (fun f => 3 ≤ f.count && decide (s.clock < f.nextRetryAt)) then s
    else connectCamera s camera

/-! ## The reserve -/

def System.connected (s : System) : Bool := s.listener.any (fun l => l.cam.isSome)

/-- `activateFallback`, up to the start of the local detector. -/
def activate (s : System) (i : Nat) (row : Option Row) : System :=
  if s.fallbackActive then s.goto i .ended
  else
    { s with
      fallbackActive := true
      history := { s.history with lastAttemptFailed := false } }.goto i (.activating row)

/-- `listener?.connectedAt ?? 0`. -/
def System.connectedAt (s : System) : Int := (s.listener.bind (·.connectedAt)).getD 0

/-- `Date.now() - Math.max(state.lastEventAt ?? 0, listener?.connectedAt ?? 0)`. -/
def System.sinceMs (s : System) : Int := s.clock - max (s.lastEventAt.getD 0) s.connectedAt

def watch (s : System) (i : Nat) (row : Row) : System :=
  if row.armed = false then
    { s with history := { s.history with deadRun := 0 } }.goto i .ended
  else if s.connected = false then
    let s := { s with
      deadSyncs := s.deadSyncs + 1
      history := { s.history with deadRun := s.history.deadRun + 1 } }
    if config.deadSyncsForFallback ≤ s.deadSyncs ∧ s.fallbackActive = false then
      activate s i (some row)
    else s.goto i .ended
  else
    let s := { s with
      deadSyncs := 0
      history := { s.history with deadRun := 0 } }
    if s.fallbackActive = false ∧ s.lastEventAt = none ∧ s.sinceMs > config.silenceFallbackMs then
      activate s i (some row)
    else s.goto i .ended

def onCameraMotion (s : System) : System :=
  { s with lastEventAt := some s.clock, fallbackActive := false }

/-! ## The probe -/

def probeMotionSupport (row : Row) (answer : Option Bool) : Option Bool :=
  if row.onvifPort.isNone || !row.targetAllowed || !row.passwordReadable then none else answer

def probeTarget (supports : Bool) : MotionTrigger := if supports then .camera else .system

def probe (s : System) (i : Nat) (row : Row) (answer : Option Bool) : System :=
  match probeMotionSupport row answer with
  | none => s.goto i .ended
  | some supports =>
    if row.motionTrigger = probeTarget supports then s.goto i .ended
    else s.goto i (.updating row (probeTarget supports))

def updateTrigger (s : System) (target : MotionTrigger) : System :=
  { s with row := s.row.map (fun r => { r with motionTrigger := target }) }

def flip (s : System) (i : Nat) (row : Row) (target : MotionTrigger) : System :=
  if row.recordingMode ≠ .motion then s.goto i .ended
  else
    match target with
    | .system => { s with fallbackActive := false }.goto i .ended
    | .camera => activate s i none

/-! ## Runs -/

/-- What an await brings: a result, an error, or what the camera answered the probe. -/
inductive Answer where
  | done
  | thrown
  | supports (v : Option Bool)

def Answer.supported : Answer → Option Bool
  | .supports v => v
  | _ => none

def advance (s : System) (i : Nat) (answer : Answer) : Phase → Option System
  | .reading =>
    let row := s.row.filter (fun r => r.motionTrigger = .camera)
    let t := subscribe config s row
    match row with
    | none => some ({ t with history := { t.history with deadRun := 0 } }.goto i .ended)
    | some row => some (t.goto i (.watching row))
  | .watching row => some (watch config s i row)
  | .activating row =>
    match answer with
    | .thrown =>
      some ({ s with
        fallbackActive := false
        history := { s.history with lastAttemptFailed := true } }.goto i .ended)
    | _ => some (s.goto i (.registering row))
  | .registering _ => some (s.goto i .ended)
  | .probeReading =>
    match s.row with
    | none => some (s.goto i .ended)
    | some row =>
      if row.enabled then some (s.goto i (.probing row)) else some (s.goto i .ended)
  | .probing row => some (probe s i row answer.supported)
  | .updating row target =>
    some ((updateTrigger s target).goto i (.flipping row target))
  | .flipping row target => some (flip s i row target)
  | .ended | .stopped => none

/-- One step: a sync, a probe, an answer, what a listener reports, an edit or the clock. -/
inductive Label where
  | sync
  | probe
  | advance (i : Nat) (answer : Answer)
  | giveUp (i : Nat)
  | connected (k : Nat)
  | connectFailed (k : Nat)
  | listenerError (k : Nat)
  | event (k : Nat)
  | edit (row : Option Row)
  | clock (now : Int)

/-- The calls that stand still: an activation sees its own errors, the others end by one. -/
def Phase.mayStop : Phase → Bool
  | .activating _ | .registering _ | .ended => false
  | _ => true

def step (s : System) : Label → Option System
  | .sync => if config.disabled then none else some { s with calls := s.calls ++ [.reading] }
  | .probe => if config.disabled then none else some { s with calls := s.calls ++ [.probeReading] }
  | .advance i answer => (s.calls[i]?).bind (advance config s i answer)
  | .giveUp i =>
    (s.calls[i]?).bind (fun phase => if phase.mayStop then some (s.goto i .stopped) else none)
  | .connected k =>
    if s.instances[k]? = some .connecting then
      some { s with
        instances := s.instances.set k .connected
        connectFailures := none
        listener := some ⟨some k, some s.clock⟩
        history := { s.history with firstWatched := s.history.firstWatched.or (some s.clock) } }
    else none
  | .connectFailed k =>
    if s.instances[k]? = some .connecting then
      some { s with
        instances := s.instances.set k .failed
        connectFailures :=
          some ⟨(s.connectFailures.map (·.count)).getD 0 + 1, s.clock + 600000⟩
        listener := none }
    else none
  | .listenerError k =>
    if s.instances[k]? = some .connected then
      some (if (s.listener.bind (·.cam)) = some k then { s with listener := none } else s)
    else none
  | .event k => if s.instances[k]? = some .connected then some (onCameraMotion s) else none
  | .edit row => some { s with row }
  | .clock now => if s.clock ≤ now then some { s with clock := now } else none

def start (clock : Int) (row : Option Row) : System where
  clock := clock
  row := row
  listener := none
  instances := []
  connectFailures := none
  lastEventAt := none
  fallbackActive := false
  deadSyncs := 0
  calls := []
  history := {}

def onvifMachine : Machine System Label where
  init s := ∃ clock row, s = start clock row
  step := step config

end Drac.Cameras.OnvifEvents
