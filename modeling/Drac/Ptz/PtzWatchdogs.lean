import Drac.Lib.JsMap
import Drac.Lib.Runs
import Drac.Ptz.OnvifPtz

/-
  Moves, steps and stops of one camera, with the watchdogs of the moves.

  Correspondence (`onvif-ptz.service.ts` ↔ Lean):
    moveWatchdogs         ↔ `PtzState.watchdogs`, by the part of `moveKey` after the camera
                            (`none` is 'all')
    clearMoveWatchdog     ↔ the same name
    scheduleMoveWatchdog  ↔ the same name; its callback is `Label.expire`
    move, step, stop      ↔ `Label.begin`, and after their awaits `finish` and `wake`

  Any number of calls run at once, each from await to await; a command takes effect at the
  camera, if it does, at the await of its answer. `motions` are the continuous motions the
  camera has on; nothing of the service reads them.
-/

namespace Drac.Ptz

open Runs

/-- A step sleeps between its move and its stop. -/
inductive Call where
  | sending (send : Send)
  | sleeping (direction : Direction) (camera : PtzCamera)
  deriving DecidableEq

abbrev Watchdogs := List (Option Direction × PtzCamera)

structure PtzState where
  watchdogs : Watchdogs
  calls : List Call
  motions : List Motion
  deriving DecidableEq

/-! ## Watchdogs -/

def clearMoveWatchdog (watchdogs : Watchdogs) (direction : Option Direction) : Watchdogs :=
  match direction with
  | some direction => JsMap.erase (JsMap.erase watchdogs (some direction)) none
  | none => []

def scheduleMoveWatchdog (watchdogs : Watchdogs) (camera : PtzCamera) (direction : Direction) :
    Watchdogs :=
  JsMap.set (clearMoveWatchdog watchdogs (some direction)) (some direction) camera

/-! ## Steps -/

/-- The three calls of the controller. -/
inductive Request where
  | move (direction : Direction)
  | step (direction : Direction)
  | stop (direction : Option Direction)
  deriving DecidableEq

/-- One step: a request, a timer, or an answer to a call. -/
inductive Label where
  | begin (request : Request) (camera : PtzCamera)
  | expire (direction : Direction)
  | answer (i : Nat) (answer : Answer)
  deriving DecidableEq

namespace PtzState

def start (s : PtzState) (request : Request) (camera : PtzCamera) : PtzState :=
  match request with
  | .move direction =>
    { s with calls := s.calls ++ [.sending (.begin (.move direction) camera)] }
  | .step direction =>
    { s with calls := s.calls ++ [.sending (.begin (.step direction) camera)] }
  | .stop direction =>
    { s with
      watchdogs := clearMoveWatchdog s.watchdogs direction
      calls := s.calls ++ [.sending (.begin (.stop direction) camera)] }

def expire (s : PtzState) (direction : Direction) : Option PtzState :=
  (JsMap.get? s.watchdogs (some direction)).map (fun camera =>
    { s with
      watchdogs := JsMap.erase s.watchdogs (some direction)
      calls := s.calls ++ [.sending (.begin (.watchdog direction) camera)] })

def endCall (s : PtzState) (i : Nat) : PtzState := { s with calls := s.calls.eraseIdx i }

/-- What is done with what `sendPtzWithFallbacks` returned. -/
def finish (s : PtzState) (i : Nat) (send : Send) (ok : Bool) : PtzState :=
  match send.kind with
  | .move direction =>
    if ok then
      { s.endCall i with watchdogs := scheduleMoveWatchdog s.watchdogs send.camera direction }
    else s.endCall i
  | .step direction =>
    if ok then
      { s with
        watchdogs := scheduleMoveWatchdog s.watchdogs send.camera direction
        calls := s.calls.set i (.sleeping direction send.camera) }
    else s.endCall i
  | .stepStop _ | .stop _ | .watchdog _ => s.endCall i

/-- A command's await is over: the camera, then the call. -/
def proceed (s : PtzState) (i : Nat) (send : Send) (answer : Answer) : Option PtzState :=
  (send.advance answer).map (fun outcome =>
    let moved := { s with motions := send.motionsAfter answer s.motions }
    match outcome with
    | .next pc => { moved with calls := s.calls.set i (.sending { send with pc := pc }) }
    | .done ok => moved.finish i send ok)

/-- A step wakes, and goes on as `stop` does. -/
def wake (s : PtzState) (i : Nat) (direction : Direction) (camera : PtzCamera) : PtzState :=
  { s with
    watchdogs := clearMoveWatchdog s.watchdogs (some direction)
    calls := s.calls.set i (.sending (.begin (.stepStop direction) camera)) }

def step (s : PtzState) : Label → Option PtzState
  | .begin request camera => some (s.start request camera)
  | .expire direction => s.expire direction
  | .answer i answer =>
    match s.calls[i]? with
    | none => none
    | some (.sending send) => s.proceed i send answer
    | some (.sleeping direction camera) =>
      if answer = .slept then some (s.wake i direction camera) else none

/-- What `stop` answers in a step, be it called or as the end of `step`. -/
def stopAnswer (s : PtzState) : Label → Option Bool
  | .answer i answer =>
    match s.calls[i]? with
    | some (.sending send) =>
      match send.kind, send.advance answer with
      | .stop _, some (.done ok) | .stepStop _, some (.done ok) => some ok
      | _, _ => none
    | _ => none
  | _ => none

end PtzState

/-- Nothing moves, and nothing is armed. -/
def ptzMachine : Machine PtzState Label where
  init s := s = ⟨[], [], []⟩
  step := PtzState.step

end Drac.Ptz
