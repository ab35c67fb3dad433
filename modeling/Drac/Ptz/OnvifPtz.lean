import Mathlib.Data.List.Infix
import Drac.Lib.JsText

/-
  One command to a camera's pan, tilt and zoom, with its fallbacks.

  Correspondence (`onvif-ptz.service.ts` ↔ Lean):
    candidatePaths, candidateProfileTokens ↔ the same names
    proprietaryDirectionCode, shouldPreferProprietaryPtz, proprietaryPorts,
      proprietaryChannels    ↔ the same names
    findOnvifPort            ↔ the place `findPort`
    discoverProfileTokens    ↔ the place `discover`
    sendProprietaryPtz       ↔ the places `cgiPort` and `cgi`
    sendPtzWithFallbacks     ↔ `Send`: its places, and `Send.advance` from one await to the
                               next

  A place is what is awaited: whether a port answers, the profiles, or the camera's answer to
  a command. `Send.effect` is what a command does to the motions the camera has on: a start
  turns one on, an ONVIF stop turns all off, and a stop of the CGI those of the code it
  names. The credentials are taken to be readable.
-/

namespace Drac.Ptz

inductive Direction where
  | up
  | down
  | left
  | right
  | zoomIn
  | zoomOut
  deriving DecidableEq, Repr

inductive Action where
  | start (direction : Direction)
  | stop (direction : Option Direction)
  deriving DecidableEq, Repr

inductive PtzCode where
  | up
  | down
  | left
  | right
  | zoomTele
  | zoomIn
  | zoomWide
  | zoomOut
  deriving DecidableEq, Repr

def proprietaryDirectionCode : Direction → List PtzCode
  | .up => [.up]
  | .down => [.down]
  | .left => [.left]
  | .right => [.right]
  | .zoomIn => [.zoomTele, .zoomIn]
  | .zoomOut => [.zoomWide, .zoomOut]

/-- What the service reads of the camera's row, whose port is checked where it is entered. -/
structure PtzCamera where
  onvifPort : Option Int
  onvifPath : Option String
  onvifProfileToken : Option String
  channel : Int
  rtspPath : Option String
  port_valid : ∀ port ∈ onvifPort, 1 ≤ port ∧ port ≤ 65535
  deriving DecidableEq

/-! ## Candidates -/

/-- `Array.from(new Set(list))`. -/
def distinct {α : Type} [DecidableEq α] (list : List α) : List α :=
  list.foldl (fun seen a => if a ∈ seen then seen else seen ++ [a]) []

/-- `preferred?.trim()`, where something is left of it. -/
def preferredText (preferred : Option String) : List String :=
  ((preferred.map JsText.trim).toList).filter (· ≠ "")

def candidatePaths (preferred : Option String) : List String :=
  distinct (preferredText preferred ++
    ["/onvif/ptz_service", "/onvif/device_service", "/onvif/media_service"])

/-- `String(n).padStart(3, '0')`. -/
def padStart3 (n : Nat) : String :=
  String.ofList (List.replicate (3 - (toString n).length) '0') ++ toString n

def channelTokens (channel : Int) : List String :=
  let n := channel.toNat
  if n = 0 then []
  else
    ["Profile" ++ padStart3 (n - 1), "Profile" ++ padStart3 n, "profile_" ++ toString n,
      "profile" ++ toString n, "Profile" ++ toString n]

def candidateProfileTokens (preferred : Option String) (channel : Int)
    (discoveredTokens : List String) : List String :=
  distinct (preferredText preferred ++ discoveredTokens.filter (· ≠ "") ++ channelTokens channel ++
    ["Profile000", "Profile001", "Profile002", "profile_1", "profile_2"])

def onvifFallbackPorts : List Int := [8075, 8080, 8000, 8899]

def proprietaryPtzPort : Int := 8075

def onvifPorts (camera : PtzCamera) : List Int :=
  distinct (camera.onvifPort.getD 8075 :: onvifFallbackPorts ++ [80, 2020])

def proprietaryPorts (camera : PtzCamera) : List Int :=
  distinct (camera.onvifPort.toList ++ proprietaryPtzPort :: onvifFallbackPorts ++ [80])

def proprietaryChannels (camera : PtzCamera) : List Int :=
  distinct ([1, camera.channel].filter (0 < ·))

/-- The path, of which only this part is read, in small letters. -/
def shouldPreferProprietaryPtz (camera : PtzCamera) : Bool :=
  "/cam/realmonitor".toList <:+: (camera.rtspPath.getD "").toList.map Char.toLower ||
    camera.onvifPort.getD 0 ∈ [8075, 8076, 8077]

/-! ## The places of a command -/

/-- An ONVIF candidate that is still to be tried. -/
structure OnvifTry where
  path : String
  profileToken : String
  deriving DecidableEq

/-- A CGI candidate that is still to be tried. -/
structure CgiTry where
  port : Int
  channel : Int
  code : PtzCode
  deriving DecidableEq

/-- What is awaited, and what is left to try after it. `preferred`: the CGI comes before
ONVIF, and again after it. -/
inductive SendPc where
  | findPort (port : Int) (rest : List Int)
  | cgiPort (preferred : Bool) (onvifPort port : Int) (rest reachable : List Int)
  | cgi (preferred : Bool) (onvifPort : Int) (attempt : CgiTry) (rest : List CgiTry)
  | discover (onvifPort : Int) (path : String) (rest tokens : List String)
  | onvif (onvifPort : Int) (attempt : OnvifTry) (rest : List OnvifTry)
  | relative (onvifPort : Int) (attempt : OnvifTry) (rest : List OnvifTry)
  deriving DecidableEq

/-- Whose command it is. A step is first a move, then (`stepStop`) a stop. -/
inductive CallKind where
  | move (direction : Direction)
  | step (direction : Direction)
  | stepStop (direction : Direction)
  | stop (direction : Option Direction)
  | watchdog (direction : Direction)
  deriving DecidableEq

def CallKind.action : CallKind → Action
  | .move direction | .step direction => .start direction
  | .stepStop direction | .watchdog direction => .stop (some direction)
  | .stop direction => .stop direction

/-- A command on its way through the candidates. -/
structure Send where
  kind : CallKind
  camera : PtzCamera
  pc : SendPc
  deriving DecidableEq

def Send.action (send : Send) : Action := send.kind.action

/-- The camera's answer to a command. A refusal of the CGI may come with status 200; of a
command whose answer is lost, the camera may have taken it. -/
inductive CommandAnswer where
  | accepted
  | refused (status200 : Bool)
  | lost (taken : Bool)
  deriving DecidableEq

/-- What the camera or the clock answers. -/
inductive Answer where
  | port (reachable : Bool)
  | profiles (tokens : List String)
  | command (answer : CommandAnswer)
  | slept
  deriving DecidableEq

/-- `result.ok` of a SOAP request, which sees a fault in the body. -/
def CommandAnswer.soapOk : CommandAnswer → Bool
  | .accepted => true
  | .refused _ | .lost _ => false

/-- `result.ok` of a request to the CGI, which reads the status alone. -/
def CommandAnswer.cgiOk : CommandAnswer → Bool
  | .accepted => true
  | .refused status200 => status200
  | .lost _ => false

def CommandAnswer.taken : CommandAnswer → Bool
  | .accepted => true
  | .refused _ => false
  | .lost taken => taken

/-- The next await, or what `sendPtzWithFallbacks` returns as `ok`. -/
inductive Outcome where
  | next (pc : SendPc)
  | done (ok : Bool)
  deriving DecidableEq

namespace Send

variable (send : Send)

/-! ## From one await to the next -/

def discoverStart (onvifPort : Int) : Outcome :=
  match candidatePaths send.camera.onvifPath with
  | [] => .done false
  | path :: rest => .next (.discover onvifPort path rest [])

/-- After the CGI has taken nothing: ONVIF, where that is still to be tried. -/
def cgiFailed (preferred : Bool) (onvifPort : Int) : Outcome :=
  if preferred then send.discoverStart onvifPort else .done false

/-- The directions a command of the CGI is sent for. -/
def cgiDirections : List Direction :=
  match send.action with
  | .start direction => [direction]
  | .stop (some direction) => [direction]
  | .stop none => [.up, .down, .left, .right]

def cgiTries (reachable : List Int) : List CgiTry :=
  reachable.flatMap (fun port =>
    (proprietaryChannels send.camera).flatMap (fun channel =>
      send.cgiDirections.flatMap (fun item =>
        (proprietaryDirectionCode item).map (fun code => ⟨port, channel, code⟩))))

def cgiNext (preferred : Bool) (onvifPort : Int) : List CgiTry → Outcome
  | [] => send.cgiFailed preferred onvifPort
  | attempt :: rest => .next (.cgi preferred onvifPort attempt rest)

def cgiPortNext (preferred : Bool) (onvifPort : Int) (reachable : List Int) : List Int → Outcome
  | [] => send.cgiNext preferred onvifPort (send.cgiTries reachable)
  | port :: rest => .next (.cgiPort preferred onvifPort port rest reachable)

def cgiStart (preferred : Bool) (onvifPort : Int) : Outcome :=
  send.cgiPortNext preferred onvifPort [] (proprietaryPorts send.camera)

def onvifNext (onvifPort : Int) : List OnvifTry → Outcome
  | [] => send.cgiStart false onvifPort
  | attempt :: rest => .next (.onvif onvifPort attempt rest)

def onvifTries (tokens : List String) : List OnvifTry :=
  (candidatePaths send.camera.onvifPath).flatMap (fun path =>
    (candidateProfileTokens send.camera.onvifProfileToken send.camera.channel tokens).map
      (fun token => ⟨path, token⟩))

def discoverNext (onvifPort : Int) (tokens : List String) : List String → Outcome
  | [] => send.onvifNext onvifPort (send.onvifTries (distinct tokens))
  | path :: rest => .next (.discover onvifPort path rest tokens)

def portFound (onvifPort : Int) : Outcome :=
  if shouldPreferProprietaryPtz send.camera then send.cgiStart true onvifPort
  else send.discoverStart onvifPort

def findPortNext : List Int → Outcome
  | [] => .done false
  | port :: rest => .next (.findPort port rest)

/-- `none` where the answer is not one to what is awaited. -/
def advance (answer : Answer) : Option Outcome :=
  match send.pc, answer with
  | .findPort port rest, .port reachable =>
    some (if reachable then send.portFound port else findPortNext rest)
  | .cgiPort preferred onvifPort port rest reached, .port reachable =>
    some (send.cgiPortNext preferred onvifPort (if reachable then reached ++ [port] else reached) rest)
  | .cgi preferred onvifPort _ rest, .command answer =>
    some (if answer.cgiOk then .done true else send.cgiNext preferred onvifPort rest)
  | .discover onvifPort _ rest tokens, .profiles found =>
    some (send.discoverNext onvifPort (tokens ++ found) rest)
  | .onvif onvifPort attempt rest, .command answer =>
    some (if answer.soapOk then .done true
      else match send.action with
        | .start _ => .next (.relative onvifPort attempt rest)
        | .stop _ => send.onvifNext onvifPort rest)
  | .relative onvifPort _ rest, .command answer =>
    match send.action with
    | .start _ => some (if answer.soapOk then .done true else send.onvifNext onvifPort rest)
    | .stop _ => none
  | _, _ => none

def begin (kind : CallKind) (camera : PtzCamera) : Send where
  kind := kind
  camera := camera
  pc := .findPort (camera.onvifPort.getD 8075) ((onvifPorts camera).drop 1)

end Send

/-! ## What a command does to the camera -/

/-- A motion that is on: its direction, and the code where the CGI started it. -/
structure Motion where
  direction : Direction
  code : Option PtzCode
  deriving DecidableEq

/-- A stop of the CGI covers the motion whose code it names. -/
def PtzCode.covers (code : PtzCode) (motion : Motion) : Bool :=
  match motion.code with
  | some started => code = started
  | none => code ∈ proprietaryDirectionCode motion.direction

def Send.effect (send : Send) (motions : List Motion) : List Motion :=
  match send.pc, send.action with
  | .onvif .., .start direction => motions ++ [⟨direction, none⟩]
  | .onvif .., .stop _ => []
  | .cgi _ _ attempt _, .start direction => motions ++ [⟨direction, some attempt.code⟩]
  | .cgi _ _ attempt _, .stop _ => motions.filter (fun motion => !attempt.code.covers motion)
  | _, _ => motions

def Send.motionsAfter (send : Send) (answer : Answer) (motions : List Motion) : List Motion :=
  match answer with
  | .command answer => if answer.taken then send.effect motions else motions
  | _ => motions

end Drac.Ptz
