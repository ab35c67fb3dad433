import Mathlib.Data.List.Sort
import Drac.Lib.Runs
import Drac.Lib.JsMap
import Drac.Cameras.RtspUrl
import Drac.Recordings.FileDeletion

/-
  The paths of the media server, and the decisions cached on the way to them.

  Correspondence (`mediamtx-proxy.service.ts` ↔ Lean):
    ensurePathForCamera        ↔ `ensurePathForCamera`, with the steps of `configurePathForCamera`
                                 from `Phase.loading` on
    chooseLiveSource           ↔ `chooseLiveSource`, `afterSource`, and the phases `primaries` and
                                 `codec` (`resolveLiveStreamIsHevc`)
    chooseGridSource           ↔ `chooseGridSource`, `useGrid`, `startLadder`, and the phases
                                 `healing` (`gridPathLooksDead`) and `ladder`
    ensurePrivateSourcePath    ↔ the phases `sourceReading`, `sourceDeleting`, `sourceAdding`
    teardownPathsForCamera     ↔ `enterTeardown`, `tearStep`
    recoverStuckPath           ↔ `Task.recover`
    resolveGridPosterSource    ↔ `Task.poster`
    invalidateMainCodecCache, pathNameFromCameraId, privateSourcePathName, buildEnsureKey,
    alternateMainPath, alternateSubPath, streamPixels   ↔ the same names
  `rtsp-url.helper.ts`:
    resolveLiveRtspProfile, resolveGridRtspProfile, isHevcCodec   ↔ the same names

  MediaMTX is enabled. Each wait ends with an answer of the label: a probe's reading, whether
  a path is there as it is wanted, whether a request was carried out (`lost`: it was, but the
  answer did not come). Of a path of the server it is modelled that it is there. The warm-up
  and the watchdog ask for paths at times of their own, as anyone may; the brake on recoveries
  and the gateway told of a path are left out. `since`, `began`, `used` and `History` are kept
  for the statements only: no step looks at them.
-/

namespace Drac.CameraStream.StreamPaths

open Runs Security Cameras

abbrev CameraId := Recordings.Uuid

instance decidableEqCameraId : DecidableEq CameraId := fun a b =>
  decidable_of_iff (a.text = b.text) ⟨fun h => by cases a; cases b; cases h; rfl, fun h => h ▸ rfl⟩

def idText (id : CameraId) : Text := id.text.map Char.toNat

inductive LiveViewMode where
  | selected
  | grid
  | original
  deriving DecidableEq, Repr

def LiveViewMode.text : LiveViewMode → Text
  | .selected => units "selected"
  | .grid => units "grid"
  | .original => units "original"

/-! ## Rows -/

/-- A camera as the service reads it, its password deciphered. -/
structure Camera where
  enabled : Bool
  username : Text
  password : Text
  ip : Text
  rtspPort : Int
  rtspPath : Option Text := none
  channel : Option Int := none
  subtype : Option Int := none
  liveChannel : Option Int := none
  liveSubtype : Option Int := none
  detectedVideoCodec : Option Text := none
  detectedWidth : Option Nat := none
  detectedHeight : Option Nat := none
  streamWidth : Option Nat := none
  streamHeight : Option Nat := none
  audioEnabled : Bool := false

structure Profile where
  channel : Int
  subtype : Int
  deriving DecidableEq

def resolveLiveRtspProfile (camera : Camera) : Profile where
  channel := normalizeChannel camera.liveChannel (normalizeChannel camera.channel 1)
  subtype := normalizeSubtype camera.liveSubtype (normalizeSubtype camera.subtype 0)

def resolveGridRtspProfile (camera : Camera) : Profile where
  channel := normalizeChannel camera.liveChannel (normalizeChannel camera.channel 1)
  subtype := 1

/-- `text.toLowerCase().includes(part)`, of a part in small letters. -/
def includesLower (text part : Text) : Bool := part <:+: text.map lower

def isHevcCodec (codec : Text) : Bool :=
  includesLower codec (units "h265") || includesLower codec (units "hevc") ||
    includesLower codec (units "265") || includesLower codec (units "hvc1")

def alternateMainPath (rtspPath : Option Text) (channel : Int) : Option Text :=
  let p := rtspPath.getD []
  if includesLower p (units "realmonitor") then
    some (units "/Streaming/Channels/" ++ decimal channel ++ units "01")
  else if includesLower p (units "/streaming/channels") then
    some (units "/cam/realmonitor?channel=" ++ decimal channel ++ units "&subtype=0")
  else none

def alternateSubPath (rtspPath : Option Text) (channel : Int) : Option Text :=
  let p := rtspPath.getD []
  if includesLower p (units "/streaming/channels") then
    some (units "/cam/realmonitor?channel=" ++ decimal channel ++ units "&subtype=1")
  else if includesLower p (units "realmonitor") then
    some (units "/Streaming/Channels/" ++ decimal channel ++ units "02")
  else none

def Camera.rtspUrl (net : CameraNetwork) (camera : Camera) (profile : Profile) :
    Except String Text :=
  buildRtspUrl net {
    username := camera.username
    password := camera.password
    ip := camera.ip
    rtspPort := camera.rtspPort
    rtspPath := camera.rtspPath
    channel := some profile.channel
    subtype := some profile.subtype }

/-- The URL written out by hand, for a path of the other make. -/
def Camera.plainUrl (camera : Camera) (path : Text) : Option Text :=
  match encodeURIComponent camera.username, encodeURIComponent camera.password with
  | some username, some password =>
    some (units "rtsp://" ++ (username ++ colon :: (password ++ at_ ::
      (camera.ip ++ colon :: (decimal camera.rtspPort ++ path)))))
  | _, _ => none

def pixels (width height : Option Nat) : Nat := width.getD 0 * height.getD 0

/-- The main stream was found smaller than it should be. -/
def Camera.checksAlternateMain (camera : Camera) : Bool :=
  let detected := pixels camera.detectedWidth camera.detectedHeight
  let configured := pixels camera.streamWidth camera.streamHeight
  0 < detected && (detected < 1280 * 720 || (0 < configured && detected < configured))

/-! ## Keys -/

/-- `parts.join('|')`. -/
def joinKey (parts : List Text) : Text := [0x7C].intercalate parts

def Camera.keyParts (camera : Camera) (profile : Profile) : List Text :=
  [camera.ip, decimal camera.rtspPort, camera.username, camera.rtspPath.getD [],
    decimal profile.channel, decimal profile.subtype]

def liveCodecKey (id : CameraId) (camera : Camera) : Text :=
  joinKey (idText id :: camera.keyParts (resolveLiveRtspProfile camera))

def liveSourceKey (id : CameraId) (camera : Camera) : Text :=
  joinKey (units "live-source" :: idText id :: camera.keyParts (resolveLiveRtspProfile camera))

def gridKey (id : CameraId) (camera : Camera) : Text :=
  joinKey (units "grid" :: idText id :: camera.keyParts (resolveGridRtspProfile camera))

def buildEnsureKey (id : CameraId) (mode : LiveViewMode) : Text := idText id ++ colon :: mode.text

def isAlphanumeric (c : Nat) : Bool :=
  (0x30 ≤ c && c ≤ 0x39) || (0x41 ≤ c && c ≤ 0x5A) || (0x61 ≤ c && c ≤ 0x7A)

def LiveViewMode.suffix : LiveViewMode → Text
  | .selected => []
  | .grid => units "_grid"
  | .original => units "_orig"

def pathNameFromCameraId (id : CameraId) (mode : LiveViewMode) : Text :=
  units "cam_" ++ ((idText id).filter isAlphanumeric ++ mode.suffix)

def privateSourcePathName (id : CameraId) (mode : LiveViewMode) : Text :=
  pathNameFromCameraId id mode ++ units "_source"

/-- A camera's path for a mode, or the private source behind it. -/
def pathNameOf (id : CameraId) (mode : LiveViewMode) (source : Bool) : Text :=
  if source then privateSourcePathName id mode else pathNameFromCameraId id mode

/-! ## Caches and calls -/

def liveCodecTtlMs : Int := 30 * 60 * 1000

def pathEnsureTtlMs : Int := 30 * 1000

def healCooldownMs : Int := 60000

/-- An entry of `liveCodecCache`. -/
structure CodecEntry where
  isHevc : Bool
  time : Int
  since : Nat

/-- An entry of `sourceDecisionCache`. -/
structure SourceEntry where
  url : Text
  codec : Option Text
  time : Int
  since : Nat

/-- An entry of `gridDecisionCache`. -/
structure GridEntry where
  url : Option Text
  codec : Option Text
  requiresSanitization : Bool
  time : Int
  since : Nat

structure EnsuredCameraPath where
  pathName : Text
  sourceUrl : Text
  sourceVideoCodec : Text
  transcodedForLive : Bool
  liveProfile : Profile
  deliveryMode : LiveViewMode

/-- A path that was ensured, in the cache. -/
structure PathEntry where
  value : EnsuredCameraPath
  time : Int
  since : Nat

structure Metadata where
  codec : Option Text
  width : Option Nat
  height : Option Nat
  hasDataTrack : Bool

structure Found where
  url : Text
  codec : Text
  width : Option Nat
  height : Option Nat
  hasDataTrack : Bool

structure Decision where
  profile : Profile
  sourceUrl : Text
  isHevc : Bool
  usedSubStream : Bool
  requiresSanitization : Bool

/-- How a call ends. -/
inductive Outcome where
  | path (value : EnsuredCameraPath)
  | poster (row : Camera) (decision : Decision)
  | torn
  | rejected

/-- The paths a teardown deletes, in order: each mode's own, then its private source. -/
def teardownPaths : List (LiveViewMode × Bool) :=
  [(.selected, false), (.selected, true), (.grid, false), (.grid, true), (.original, false),
    (.original, true)]

/-- Where a call is between two awaits. -/
inductive Phase where
  | loading
  | healing (row : Camera) (cached : GridEntry)
  | ladder (row : Camera) (found : List Found) (url : Text) (rest : List Text)
  | primaries (row : Camera) (url alternate : Text)
  | codec (row : Camera) (url : Text)
  | gpu (row : Camera) (decision : Decision)
  | sourceReading (row : Camera) (decision : Decision)
  | sourceDeleting (row : Camera) (decision : Decision)
  | sourceAdding (row : Camera) (decision : Decision)
  | pathReading (row : Camera) (decision : Decision)
  | pathDeleting (row : Camera) (decision : Decision)
  | pathAdding (row : Camera) (decision : Decision)
  | settling (row : Camera) (decision : Decision)
  /-- The paths a teardown has still to delete, and since which switch-on it knows the camera
  to be off. -/
  | tearing (rest : List (LiveViewMode × Bool)) (off : Option Nat)
  | joined (request : Nat)
  | resetting
  | ended (outcome : Outcome)

inductive Task where
  | ensure (mode : LiveViewMode)
  | recover (mode : LiveViewMode)
  | poster
  | teardown
  deriving DecidableEq

def Task.mode : Task → LiveViewMode
  | .ensure mode | .recover mode => mode
  | .poster => .grid
  | .teardown => .selected

/-- `began` and `used` count the camera's invalidations: when the call began, and the oldest
that anything it answers from goes back to. -/
structure Call where
  cameraId : CameraId
  task : Task
  began : Nat
  used : Nat
  phase : Phase

/-- What has happened to a camera, which no code reads. -/
structure History where
  epoch : CameraId → Nat := fun _ => 0
  /-- How often the camera has been switched on. -/
  enables : CameraId → Nat := fun _ => 0
  /-- A teardown has completed that began when the camera was off, and it is off since. -/
  tornDown : CameraId → Bool := fun _ => false

/-- The row of each camera, the caches, the server and the calls. -/
structure System where
  clock : Int := 0
  rows : CameraId → Option Camera := fun _ => none
  liveCodecCache : List (Text × CodecEntry) := []
  liveSourceCache : List (Text × SourceEntry) := []
  gridSourceCache : List (Text × GridEntry) := []
  gridHealAt : CameraId → Int := fun _ => 0
  pathEnsureCache : List (Text × PathEntry) := []
  pathEnsureInFlight : List (Text × Nat) := []
  /-- The paths the media server has. -/
  server : List Text := []
  calls : List Call := []
  history : History := {}

def System.alive (s : System) (ttl time : Int) : Bool := s.clock - time < ttl

def System.codecEntry (s : System) (key : Text) : Option CodecEntry :=
  (JsMap.get? s.liveCodecCache key).filter (fun e => s.alive liveCodecTtlMs e.time)

def System.sourceEntry (s : System) (key : Text) : Option SourceEntry :=
  (JsMap.get? s.liveSourceCache key).filter (fun e => s.alive liveCodecTtlMs e.time)

def System.gridEntry (s : System) (key : Text) : Option GridEntry :=
  (JsMap.get? s.gridSourceCache key).filter (fun e => s.alive liveCodecTtlMs e.time)

def System.pathEntry (s : System) (key : Text) : Option PathEntry :=
  (JsMap.get? s.pathEnsureCache key).filter (fun e => s.alive pathEnsureTtlMs e.time)

def Call.goto (call : Call) (phase : Phase) : Call := { call with phase := phase }

def Call.uses (call : Call) (since : Nat) : Call := { call with used := min call.used since }

def Call.reject (call : Call) : Call := call.goto (.ended .rejected)

/-! ## Choosing a source -/

def sanitizesGrid (mode : LiveViewMode) (d : Decision) : Bool :=
  mode = .grid && !d.isHevc && d.requiresSanitization

def transcodesAudio (mode : LiveViewMode) (row : Camera) : Bool :=
  mode = .selected && row.audioEnabled

def needsPublisher (mode : LiveViewMode) (row : Camera) (d : Decision) : Bool :=
  mode ≠ .original && (d.isHevc || transcodesAudio mode row || sanitizesGrid mode d)

def chosen (call : Call) (row : Camera) (d : Decision) : Call :=
  match call.task with
  | .poster => call.goto (.ended (.poster row d))
  | task =>
    if needsPublisher task.mode row d then
      if sanitizesGrid task.mode d then call.goto (.sourceReading row d)
      else call.goto (.gpu row d)
    else call.goto (.pathReading row d)

/-- The main source at a URL, of a codec that is known or not. -/
def afterSource (s : System) (call : Call) (row : Camera) (url : Text) (codec : Option Text) :
    Call :=
  let decision (isHevc : Bool) : Decision := {
    profile := resolveLiveRtspProfile row
    sourceUrl := url
    isHevc := isHevc
    usedSubStream := false
    requiresSanitization := false }
  match codec with
  | some c => chosen call row (decision (isHevcCodec c))
  | none =>
    if row.detectedVideoCodec.any isHevcCodec then chosen call row (decision true)
    else
      match s.codecEntry (liveCodecKey call.cameraId row) with
      | some e => chosen (call.uses e.since) row (decision e.isHevc)
      | none => call.goto (.codec row url)

def chooseLiveSource (net : CameraNetwork) (s : System) (call : Call) (row : Camera) : Call :=
  let profile := resolveLiveRtspProfile row
  match row.rtspUrl net profile with
  | .error _ => call.reject
  | .ok url =>
    match if row.checksAlternateMain then alternateMainPath row.rtspPath profile.channel else none with
    | none => afterSource s call row url none
    | some path =>
      match s.sourceEntry (liveSourceKey call.cameraId row) with
      | some e => afterSource s (call.uses e.since) row e.url e.codec
      | none =>
        match row.plainUrl path with
        | none => call.reject
        | some alternate => call.goto (.primaries row url alternate)

/-- The grid's source from a decision in the cache. -/
def useGrid (net : CameraNetwork) (s : System) (call : Call) (row : Camera) (e : GridEntry) :
    Call :=
  match e.url with
  | some url =>
    chosen (call.uses e.since) row {
      profile := resolveGridRtspProfile row
      sourceUrl := url
      isHevc := e.codec.any isHevcCodec
      usedSubStream := true
      requiresSanitization := e.requiresSanitization }
  | none => chooseLiveSource net s (call.uses e.since) row

/-- The streams to probe for the grid, one after the other until one is not HEVC. -/
def startLadder (net : CameraNetwork) (call : Call) (row : Camera) : Call :=
  let profile := resolveGridRtspProfile row
  match row.rtspUrl net profile with
  | .error _ => call.reject
  | .ok primaryUrl =>
    let paths := (alternateSubPath row.rtspPath profile.channel).toList ++
      [units "/media/video" ++ decimal (profile.channel + 1),
        units "/cam/realmonitor?channel=" ++ decimal profile.channel ++ units "&subtype=2",
        units "/Streaming/Channels/" ++ decimal profile.channel ++ units "03"]
    call.goto (.ladder row [] primaryUrl (paths.filterMap row.plainUrl))

def chooseGridSource (net : CameraNetwork) (s : System) (call : Call) (row : Camera) : Call :=
  match s.gridEntry (gridKey call.cameraId row) with
  | some e =>
    if healCooldownMs < s.clock - s.gridHealAt call.cameraId then call.goto (.healing row e)
    else useGrid net s call row e
  | none => startLadder net call row

def Found.area (f : Found) : Nat :=
  if pixels f.width f.height = 0 then 9007199254740991 else pixels f.width f.height

def smallest (found : List Found) : Option Found :=
  (found.insertionSort (fun a b => a.area ≤ b.area)).head?

/-- A stream that is not HEVC before one that is, and the smallest of these. -/
def chooseFound (found : List Found) : Option Found :=
  (smallest (found.filter (fun f => !isHevcCodec f.codec))).or
    (smallest (found.filter (fun f => isHevcCodec f.codec)))

/-- A stream of the ladder that gave a codec. -/
def addFound (found : List Found) (url : Text) (metadata : Option Metadata) : List Found :=
  found ++ (metadata.bind (fun m => m.codec.map (fun codec => {
    url := url
    codec := codec
    width := m.width
    height := m.height
    hasDataTrack := m.hasDataTrack : Found }))).toList

def has264 (found : List Found) : Bool := found.any (fun f => !isHevcCodec f.codec)

/-! ## Calls -/

def System.goto (s : System) (i : Nat) (call : Call) : System :=
  { s with calls := s.calls.set i call }

def Call.hears (other : Call) (i : Nat) (call : Call) (outcome : Outcome) : Call :=
  match other.phase with
  | .joined request =>
    if request = i then { other with used := min other.used call.used, phase := .ended outcome }
    else other
  | _ => other

def System.resolve (s : System) (i : Nat) (call : Call) (outcome : Outcome) : System :=
  let key := buildEnsureKey call.cameraId call.task.mode
  { s with
    pathEnsureInFlight :=
      if JsMap.get? s.pathEnsureInFlight key = some i then JsMap.erase s.pathEnsureInFlight key
      else s.pathEnsureInFlight
    calls := (s.calls.set i call).map (fun other => other.hears i call outcome) }

def System.enter (s : System) (i : Nat) (call : Call) : System :=
  match call.phase with
  | .ended outcome => s.resolve i call outcome
  | _ => s.goto i call

/-- The caches of a camera, by the keys they are thought to have. -/
def invalidateMainCodecCache (s : System) (id : CameraId) : System :=
  let mine := idText id ++ [colon]
  { s with
    liveCodecCache := s.liveCodecCache.filter (fun e => !decide (mine <+: e.1))
    gridSourceCache := s.gridSourceCache.filter (fun e => !decide (units "grid:" ++ mine <+: e.1))
    pathEnsureCache := s.pathEnsureCache.filter (fun e => !decide (mine <+: e.1))
    pathEnsureInFlight := s.pathEnsureInFlight.filter (fun e => !decide (mine <+: e.1))
    history := { s.history with
      epoch := Function.update s.history.epoch id (s.history.epoch id + 1) } }

/-- The camera is off, and was never switched on since. -/
def System.offSince (s : System) (id : CameraId) : Option Nat :=
  if (s.rows id).any (fun row => !row.enabled) then some (s.history.enables id) else none

def noteTornDown (s : System) (id : CameraId) (off : Option Nat) : System :=
  if off = some (s.history.enables id) then
    { s with history := { s.history with tornDown := Function.update s.history.tornDown id true } }
  else s

abbrev Move := System × Call

/-- The next path of a teardown; a mode's cached path goes before its deletion is asked for. -/
def enterTeardown (s : System) (call : Call) (rest : List (LiveViewMode × Bool))
    (off : Option Nat) : Move :=
  match rest with
  | [] =>
    (noteTornDown (invalidateMainCodecCache s call.cameraId) call.cameraId off,
      call.goto (.ended (if call.task = .teardown then .torn else .rejected)))
  | (mode, source) :: _ =>
    (if source then s else
      { s with
        pathEnsureCache := JsMap.erase s.pathEnsureCache (buildEnsureKey call.cameraId mode) },
      call.goto (.tearing rest off))

def teardownPathsForCamera (s : System) (call : Call) : Move :=
  enterTeardown s call teardownPaths (s.offSince call.cameraId)

def ensurePathForCamera (s : System) (i : Nat) (call : Call) : Move :=
  let key := buildEnsureKey call.cameraId call.task.mode
  match s.pathEntry key with
  | some e => (s, (call.uses e.since).goto (.ended (.path e.value)))
  | none =>
    match JsMap.get? s.pathEnsureInFlight key with
    | some request => (s, call.goto (.joined request))
    | none =>
      ({ s with pathEnsureInFlight := JsMap.set s.pathEnsureInFlight key i }, call.goto .loading)

inductive Answer where
  | done
  | fails
  | lost
  | same
  | other
  | dead (dead : Bool)
  | probed (metadata : Option Metadata)
  | both (primary alternate : Option Metadata)
  | codec (codec : Option Text)

def deletePath (s : System) (name : Text) : Answer → System
  | .fails => s
  | _ => { s with server := s.server.filter (fun n => n ≠ name) }

def addPath (s : System) (name : Text) : System :=
  { s with server := name :: s.server.filter (fun n => n ≠ name) }

def loaded (net : CameraNetwork) (s : System) (call : Call) : Move :=
  match s.rows call.cameraId with
  | none => (s, call.reject)
  | some row =>
    if row.enabled then
      (s, if call.task.mode = .grid then chooseGridSource net s call row
        else chooseLiveSource net s call row)
    else if call.task = .poster then (s, call.reject)
    else teardownPathsForCamera s call

def decideGrid (net : CameraNetwork) (s : System) (call : Call) (row : Camera)
    (found : List Found) : Move :=
  let key := gridKey call.cameraId row
  match chooseFound found with
  | some f =>
    let sanitization := f.hasDataTrack && includesLower f.url (units "/streaming/channels/")
    ({ s with
      gridSourceCache := JsMap.set s.gridSourceCache key {
        url := some f.url
        codec := some f.codec
        requiresSanitization := sanitization
        time := s.clock
        since := call.used } },
      chosen call row {
        profile := resolveGridRtspProfile row
        sourceUrl := f.url
        isHevc := isHevcCodec f.codec
        usedSubStream := true
        requiresSanitization := sanitization })
  | none =>
    ({ s with
      gridSourceCache := JsMap.set s.gridSourceCache key {
        url := none
        codec := none
        requiresSanitization := false
        time := s.clock
        since := call.used } },
      chooseLiveSource net s call row)

def probedStream (net : CameraNetwork) (s : System) (call : Call) (row : Camera)
    (found : List Found) : List Text → Move
  | [] => decideGrid net s call row found
  | next :: rest =>
    if has264 found then decideGrid net s call row found
    else (s, call.goto (.ladder row found next rest))

def probedPrimaries (s : System) (call : Call) (row : Camera) (url alternate : Text)
    (primary other : Option Metadata) : Move :=
  let area (m : Option Metadata) := m.elim 0 (fun m => pixels m.width m.height)
  let takesOther := other.isSome && area primary < area other
  let source := if takesOther then alternate else url
  let codec := (if takesOther then other else primary).bind (·.codec)
  ({ s with
    liveSourceCache := JsMap.set s.liveSourceCache (liveSourceKey call.cameraId row) {
      url := source
      codec := codec
      time := s.clock
      since := call.used } },
    afterSource s call row source codec)

/-- The codec of the main stream has been probed; where that failed it counts as HEVC. -/
def probedCodec (s : System) (call : Call) (row : Camera) (url : Text)
    (codec : Option Text) : Move :=
  let decision (isHevc : Bool) : Decision := {
    profile := resolveLiveRtspProfile row
    sourceUrl := url
    isHevc := isHevc
    usedSubStream := false
    requiresSanitization := false }
  match codec with
  | none => (s, chosen call row (decision true))
  | some c =>
    ({ s with
      liveCodecCache := JsMap.set s.liveCodecCache (liveCodecKey call.cameraId row) {
        isHevc := isHevcCodec c
        time := s.clock
        since := call.used } },
      chosen call row (decision (isHevcCodec c)))

/-- Whether the grid's path has no media: then the cached decision goes. -/
def healed (net : CameraNetwork) (s : System) (call : Call) (row : Camera)
    (cached : GridEntry) (dead : Bool) : Move :=
  if dead then
    ({ s with
      gridHealAt := Function.update s.gridHealAt call.cameraId s.clock
      gridSourceCache := JsMap.erase s.gridSourceCache (gridKey call.cameraId row) },
      startLadder net call row)
  else if s.alive liveCodecTtlMs cached.time then (s, useGrid net s call row cached)
  else (s, startLadder net call row)

def ensured (call : Call) (row : Camera) (d : Decision) : EnsuredCameraPath where
  pathName := pathNameFromCameraId call.cameraId call.task.mode
  sourceUrl := d.sourceUrl
  sourceVideoCodec := if d.isHevc then units "h265" else units "h264"
  transcodedForLive := needsPublisher call.task.mode row d &&
    (d.isHevc || transcodesAudio call.task.mode row)
  liveProfile := d.profile
  deliveryMode := call.task.mode

/-- `configurePathForCamera` has its result, which goes into the cache. -/
def settle (s : System) (call : Call) (row : Camera) (d : Decision) : Move :=
  let value := ensured call row d
  ({ s with
    pathEnsureCache := JsMap.set s.pathEnsureCache
      (buildEnsureKey call.cameraId call.task.mode)
      { value := value, time := s.clock, since := call.used } },
    call.goto (.ended (.path value)))

def tearStep (s : System) (call : Call) (off : Option Nat) (answer : Answer) :
    List (LiveViewMode × Bool) → Option Move
  | [] => none
  | (mode, source) :: rest =>
    match answer with
    | .done | .lost | .fails =>
      some (enterTeardown (deletePath s (pathNameOf call.cameraId mode source) answer) call rest off)
    | _ => none

/-- The watchdog's deletion is over, carried out or not, and the path is asked for. -/
def recovered (s : System) (i : Nat) (call : Call) : Move :=
  let began := s.history.epoch call.cameraId
  ensurePathForCamera s i { call with began := began, used := began }

def advance (net : CameraNetwork) (s : System) (i : Nat) (call : Call) :
    Phase → Answer → Option Move
  | .loading, .done => some (loaded net s call)
  | .loading, .fails => some (s, call.reject)
  | .healing row cached, .dead dead => some (healed net s call row cached dead)
  | .ladder row found url rest, .probed metadata =>
    some (probedStream net s call row (addFound found url metadata) rest)
  | .primaries row url alternate, .both primary other =>
    some (probedPrimaries s call row url alternate primary other)
  | .codec row url, .codec codec => some (probedCodec s call row url codec)
  | .gpu row d, .done => some (s, call.goto (.sourceReading row d))
  | .gpu _ _, .fails => some (s, call.reject)
  | .sourceReading row d, .same =>
    if privateSourcePathName call.cameraId call.task.mode ∈ s.server then
      some (s, call.goto (.pathReading row d))
    else none
  | .sourceReading row d, .other => some (s, call.goto (.sourceDeleting row d))
  | .sourceDeleting row d, .fails => some (s, call.goto (.sourceAdding row d))
  | .sourceDeleting row d, .done | .sourceDeleting row d, .lost =>
    some (deletePath s (privateSourcePathName call.cameraId call.task.mode) .done,
      call.goto (.sourceAdding row d))
  | .sourceAdding _ _, .fails => some (s, call.reject)
  | .sourceAdding row d, .done =>
    some (addPath s (privateSourcePathName call.cameraId call.task.mode),
      call.goto (.pathReading row d))
  | .sourceAdding _ _, .lost =>
    some (addPath s (privateSourcePathName call.cameraId call.task.mode), call.reject)
  | .pathReading row d, .same =>
    if pathNameFromCameraId call.cameraId call.task.mode ∈ s.server then
      some (s, call.goto (.settling row d))
    else none
  | .pathReading row d, .other => some (s, call.goto (.pathDeleting row d))
  | .pathDeleting row d, .fails => some (s, call.goto (.pathAdding row d))
  | .pathDeleting row d, .done | .pathDeleting row d, .lost =>
    some (deletePath s (pathNameFromCameraId call.cameraId call.task.mode) .done,
      call.goto (.pathAdding row d))
  | .pathAdding _ _, .fails => some (s, call.reject)
  | .pathAdding row d, .done =>
    some (addPath s (pathNameFromCameraId call.cameraId call.task.mode),
      call.goto (.settling row d))
  | .pathAdding _ _, .lost =>
    some (addPath s (pathNameFromCameraId call.cameraId call.task.mode), call.reject)
  | .settling row d, .done => some (settle s call row d)
  | .tearing rest off, answer => tearStep s call off answer rest
  | .resetting, .fails => some (recovered s i call)
  | .resetting, .done | .resetting, .lost =>
    some (recovered (deletePath s (pathNameFromCameraId call.cameraId call.task.mode) .done) i call)
  | _, _ => none

/-- One step: a request, an answer to a call, or a change from outside. -/
inductive Label where
  | ensure (id : CameraId) (mode : LiveViewMode)
  | poster (id : CameraId)
  | recover (id : CameraId) (mode : LiveViewMode)
  | teardown (id : CameraId)
  | invalidate (id : CameraId)
  | clearPathCache
  | edit (id : CameraId) (row : Camera)
  | clock (now : Int)
  | restart
  | advance (i : Nat) (answer : Answer)

def newCall (s : System) (id : CameraId) (task : Task) : Call where
  cameraId := id
  task := task
  began := s.history.epoch id
  used := s.history.epoch id
  phase := .loading

def System.withCall (s : System) (call : Call) : System := { s with calls := s.calls ++ [call] }

def startCall (s : System) (i : Nat) (call : Call) : Task → Move
  | .ensure _ => ensurePathForCamera s i call
  | .recover _ => (s, call.goto .resetting)
  | .poster => (s, call)
  | .teardown => teardownPathsForCamera s call

def beginCall (s : System) (id : CameraId) (task : Task) : System :=
  let call := newCall s id task
  let m := startCall (s.withCall call) s.calls.length call task
  m.1.enter s.calls.length m.2

def editRow (s : System) (id : CameraId) (row : Camera) : System :=
  { s with
    rows := Function.update s.rows id (some row)
    history :=
      if row.enabled then
        { s.history with
          enables := Function.update s.history.enables id (s.history.enables id + 1)
          tornDown := Function.update s.history.tornDown id false }
      else s.history }

def step (net : CameraNetwork) (s : System) : Label → Option System
  | .ensure id mode => some (beginCall s id (.ensure mode))
  | .poster id => some (beginCall s id .poster)
  | .recover id mode => some (beginCall (invalidateMainCodecCache s id) id (.recover mode))
  | .teardown id => some (beginCall s id .teardown)
  | .invalidate id => some (invalidateMainCodecCache s id)
  | .clearPathCache => some { s with pathEnsureCache := [] }
  | .edit id row => some (editRow s id row)
  | .clock now => if s.clock ≤ now then some { s with clock := now } else none
  | .restart => some { s with server := [] }
  | .advance i answer =>
    (s.calls[i]?).bind (fun call =>
      (advance net s i call call.phase answer).map (fun m => m.1.enter i m.2))

/-- The service with no cameras, caches or calls. -/
def streamMachine (net : CameraNetwork) : Machine System Label where
  init s := ∃ clock, s = { clock := clock }
  step := step net

end Drac.CameraStream.StreamPaths
