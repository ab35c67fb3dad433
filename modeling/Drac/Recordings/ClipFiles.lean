import Drac.Lib.Runs
import Drac.Recordings.FileDeletion
import Drac.Recordings.RangeExport

/-
  Exported clips: their files, their manifests and their rows.

  Correspondence (source ↔ Lean), `recordings.service.ts`:
    exportClip              ↔ `exportClip` (its checks) and `clipStep`
    runClipExport, transcodeClipForCompatibility   ↔ the phases `cutting` and `converting`
    exportCameraRange       ↔ `exportCameraRange` (its checks) and `rangeStep`
    buildRangeExportOutputPath, limpar   ↔ the same names
  `range-export-job.helper.ts`:
    normalizeRangeExportIdentity, identityKey, buildRangeExportFileName   ↔ the same names
  `range-export.helper.ts`:
    buildRangeExportAttempts   ↔ the same name
  `retention.service.ts`:
    deleteClip, deleteRowsWithFiles   ↔ `deletionStep`
  `transactional-file-delete.helper.ts`:
    stageFileDeletion, restoreJournal, recoverPendingFileDeletions   ↔ what becomes of
                            the files `held`

  A step of an export ends at each access to the disk or to the database, so that several
  processes may interleave there; what ffmpeg, ffprobe and the queue answer is in the label.
  A process killed at any point gives up all its calls. The lock that keeps one deletion
  from another is left out, and so is the list of segments ffmpeg is given to join.
-/

namespace Drac.Recordings.ClipFiles

open Runs

abbrev Text := List Char

abbrev Bytes := List UInt8

structure ClipConfig where
  recordingsRoot : Text
  exportMaxHours : ℚ
  copySafetySeconds : ℚ
  maxSegments : ℚ
  order : LocaleOrder
  /-- `createHash('sha256')`, `digest('hex')`. -/
  sha256Hex : Bytes → Text
  sha256_hex : ∀ bytes, ∀ c ∈ sha256Hex bytes, isLowerHex c = true

structure AuthUser where
  id : Text
  name : Text
  deriving DecidableEq

/-! ## Paths -/

/-- The civil date of a day counted from 1970-01-01: year, month, day. -/
def civilDate (day : Int) : Int × Nat × Nat :=
  let z := day + 719468
  let era := z / 146097
  let doe := (z - era * 146097).toNat
  let yoe := (doe - doe / 1460 + doe / 36524 - doe / 146096) / 365
  let doy := doe - (365 * yoe + yoe / 4 - yoe / 100)
  let mp := (5 * doy + 2) / 153
  let month := if mp < 10 then mp + 3 else mp - 9
  (yoe + era * 400 + (if month ≤ 2 then 1 else 0), month, doy - (153 * mp + 2) / 5 + 1)

example : civilDate (1772600000000 / 86400000) = (2026, 3, 4) := by rfl

/-- `padStart(2, '0')`. -/
def pad2 (n : Nat) : Text := if n < 10 then '0' :: Nat.toDigits 10 n else Nat.toDigits 10 n

/-- Where the clips of a camera that begin on a day are kept. -/
def clipDir (config : ClipConfig) (cameraId : Text) (startMs : Int) : Text :=
  let date := civilDate (startMs / 86400000)
  config.recordingsRoot ++ "/clips/".toList ++ cameraId ++ '/' :: Json.writeNumber date.1 ++
    '/' :: pad2 date.2.1 ++ '/' :: pad2 date.2.2

def mp4 : Text := ".mp4".toList

/-- `filePath.replace(/\.mp4$/, '.json')`. -/
def manifestPath (filePath : Text) : Text :=
  if mp4 <:+ filePath then filePath.take (filePath.length - 4) ++ ".json".toList else filePath

inductive RangeExportProfile where
  | auto
  | compatible
  deriving DecidableEq, Repr

def RangeExportProfile.text : RangeExportProfile → Text
  | .auto => "auto".toList
  | .compatible => "compatible".toList

structure RangeExportIdentity where
  cameraId : Text
  fromMs : Int
  toMs : Int
  profile : RangeExportProfile
  deriving DecidableEq

/-- What an export over an interval is asked for; an instant that is no date is `none`. -/
structure RangeParams where
  cameraId : Text
  fromAt : Option Int
  toAt : Option Int
  profile : Option Text
  reason : Text

def normalizeRangeExportIdentity (params : RangeParams) : Option RangeExportIdentity :=
  let cameraId := JsText.trimEnd (JsText.trimStart params.cameraId)
  if cameraId = [] then none
  else
    params.fromAt.bind (fun fromMs =>
      params.toAt.map (fun toMs => {
        cameraId := cameraId
        fromMs := fromMs
        toMs := toMs
        profile := if params.profile = some "compatible".toList then .compatible else .auto }))

def identityKey (config : ClipConfig) (identity : RangeExportIdentity) : Text :=
  let canonical := ['|'].intercalate [identity.cameraId, Json.writeNumber identity.fromMs,
    Json.writeNumber identity.toMs, identity.profile.text]
  (config.sha256Hex (canonical.flatMap String.utf8EncodeChar)).take 32

def buildRangeExportFileName (config : ClipConfig) (identity : RangeExportIdentity) : Text :=
  "range-".toList ++ identityKey config identity ++ mp4

def buildRangeExportOutputPath (config : ClipConfig) (identity : RangeExportIdentity) : Text :=
  clipDir config identity.cameraId identity.fromMs ++
    '/' :: buildRangeExportFileName config identity

/-! ## Rows and manifests -/

structure ExportedClip where
  id : Nat
  cameraId : Text
  sourceRecordingId : Text
  filePath : Text
  /-- `none` for a date that is none. -/
  startedAt : Option Int
  endedAt : Option Int
  durationSeconds : Int
  sizeBytes : Option Nat
  fileSha256 : Option Text
  createdByUserId : Option Text
  createdByUserName : Option Text
  deriving DecidableEq

/-- The manifest of provenance; what it takes over from the plan is the plan's. -/
structure Provenance where
  identity : RangeExportIdentity
  plan : RangeExportPlan
  strategyUsed : RangeExportStrategy
  fileSha256 : Text
  sizeBytes : Nat
  generatedAt : Int
  reason : Text
  requestedBy : AuthUser
  deriving DecidableEq

/-- What a manifest's file holds: a manifest, or one whose writing broke off. -/
inductive Manifest where
  | whole (proveniencia : Provenance)
  | cutOff
  deriving DecidableEq

/-! ## Calls -/

inductive Outcome where
  | ended
  | failed
  | stopped
  deriving DecidableEq, Repr

structure SourceRecording where
  id : Uuid
  cameraId : Text
  startedAt : Int
  endedAt : Option Int
  durationSeconds : Option Int

/-- The export of a part of one recording. -/
structure ClipJob where
  user : AuthUser
  recording : SourceRecording
  startSeconds : Nat
  clippedEnd : Nat

inductive ClipPhase where
  /-- ffmpeg writes to the file, copying the streams or encoding them anew. -/
  | cutting (how : RangeExportStrategy)
  | checking (converted : Bool)
  | converting
  | measuring
  | hashing (size : Nat)
  | inserting (fileSha256 : Text) (size : Nat)
  | over (outcome : Outcome)

/-- The export of an interval. -/
structure RangeJob where
  user : AuthUser
  identity : RangeExportIdentity
  reason : Text

/-- The plan of an export, and what its temporary file is named by. -/
structure RangeWork where
  plan : RangeExportPlan
  pid : Nat
  now : Nat

structure RangeExportAttempt where
  kind : RangeExportStrategy
  preset : Bool

/-- Where such an export is. -/
inductive RangePhase where
  | gating
  | planning
  | looking
  | reusing
  | collecting
  | preparing (work : RangeWork)
  | announcing (work : RangeWork) (attempt : RangeExportAttempt) (rest : List RangeExportAttempt)
  | encoding (work : RangeWork) (attempt : RangeExportAttempt) (rest : List RangeExportAttempt)
  | validating (work : RangeWork) (attempt : RangeExportAttempt) (rest : List RangeExportAttempt)
  | inspecting (work : RangeWork) (attempt : RangeExportAttempt) (rest : List RangeExportAttempt)
  | settled (work : RangeWork) (usada : RangeExportAttempt)
  | hashing (work : RangeWork) (usada : RangeExportAttempt)
  | sizing (work : RangeWork) (usada : RangeExportAttempt) (fileSha256 : Text)
  | replacing (work : RangeWork) (usada : RangeExportAttempt) (fileSha256 : Text) (size : Nat)
  | describing (work : RangeWork) (usada : RangeExportAttempt) (fileSha256 : Text) (size : Nat)
  | inserting (work : RangeWork) (usada : RangeExportAttempt) (fileSha256 : Text) (size : Nat)
  | auditing (work : RangeWork)
  | finishing (work : RangeWork)
  | cleaning (work : RangeWork) (outcome : Outcome)
  | over (outcome : Outcome)

/-- The deletion of a clip. -/
structure Deletion where
  clipId : Nat
  filePath : Text

inductive DeletionPhase where
  | staging
  | deleting
  | cleaning
  | restoring
  | over (outcome : Outcome)

/-- A call under way. -/
inductive Call where
  | clip (job : ClipJob) (phase : ClipPhase)
  | range (job : RangeJob) (phase : RangePhase)
  | deletion (job : Deletion) (phase : DeletionPhase)

/-- A file a deletion has set aside. -/
structure Held where
  operation : Nat
  clipId : Nat
  filePath : Text
  bytes : Bytes

structure System where
  videos : Text → Option Bytes := fun _ => none
  manifests : Text → Option Manifest := fun _ => none
  rows : List ExportedClip := []
  created : Nat := 0
  held : List Held := []
  calls : List Call := []

/-- What the disk, ffmpeg or the database answers. -/
inductive Answer where
  | done
  | fails
  /-- It fails with the work half done. -/
  | breaks
  | writes (bytes : Bytes)
  /-- Whether the file plays outside the system. -/
  | verdict (ok : Bool)
  | collected (segments : List RangeSourceSegment) (pid now : Nat)
  | hwaccel (preset : Bool)
  | doneAt (now : Int)

/-- One step: a call, an answer to one, a recovery, or a file that goes. -/
inductive Label where
  | exportClip (user : AuthUser) (recording : SourceRecording) (startSeconds endSeconds : Nat)
  | exportCameraRange (user : AuthUser) (params : RangeParams)
  | deleteClip (clipId : Nat)
  | advance (i : Nat) (answer : Answer)
  | giveUp (i : Nat)
  | recover (operation : Nat)
  | removeVideo (path : Text)
  | removeManifest (path : Text)

def System.goto (s : System) (i : Nat) (call : Call) : System :=
  { s with calls := s.calls.set i call }

def System.begin (s : System) (call : Call) : System := { s with calls := s.calls ++ [call] }

def System.setVideo (s : System) (path : Text) (content : Option Bytes) : System :=
  { s with videos := Function.update s.videos path content }

def System.setManifest (s : System) (path : Text) (content : Option Manifest) : System :=
  { s with manifests := Function.update s.manifests path content }

def System.row (s : System) (filePath : Text) : Option ExportedClip :=
  s.rows.find? (fun row => row.filePath = filePath)

def System.insert (s : System) (data : Nat → ExportedClip) : System :=
  { s with rows := s.rows ++ [data s.created], created := s.created + 1 }

/-! ## `exportClip` -/

def sourceDuration (recording : SourceRecording) : Nat :=
  let measured := match recording.endedAt with
    | some endedAt => max 1 ((endedAt - recording.startedAt) / 1000)
    | none => 1
  (max 1 (recording.durationSeconds.getD measured)).toNat

/-- The checks on a request for a clip; the recording and its file are there. -/
def exportClip (user : AuthUser) (recording : SourceRecording) (startSeconds endSeconds : Nat) :
    Option ClipJob :=
  if endSeconds ≤ startSeconds then none
  else if sourceDuration recording ≤ startSeconds then none
  else some {
    user := user
    recording := recording
    startSeconds := startSeconds
    clippedEnd := min endSeconds (sourceDuration recording) }

namespace ClipJob

def startedAt (job : ClipJob) : Int := job.recording.startedAt + job.startSeconds * 1000

def fileName (job : ClipJob) : Text :=
  "clip-".toList ++ job.recording.id.text ++ '-' :: Nat.toDigits 10 job.startSeconds ++
    '-' :: Nat.toDigits 10 job.clippedEnd ++ mp4

def outputPath (config : ClipConfig) (job : ClipJob) : Text :=
  clipDir config job.recording.cameraId job.startedAt ++ '/' :: job.fileName

def data (config : ClipConfig) (job : ClipJob) (fileSha256 : Text) (size : Nat) (id : Nat) :
    ExportedClip where
  id := id
  cameraId := job.recording.cameraId
  sourceRecordingId := job.recording.id.text
  filePath := job.outputPath config
  startedAt := some job.startedAt
  endedAt := some (job.recording.startedAt + job.clippedEnd * 1000)
  durationSeconds := job.clippedEnd - job.startSeconds
  sizeBytes := some size
  fileSha256 := some fileSha256
  createdByUserId := some job.user.id
  createdByUserName := some job.user.name

end ClipJob

/-- ffmpeg has ended and its file is checked, where there is one. -/
def clipMade (config : ClipConfig) (s : System) (i : Nat) (job : ClipJob) (converted : Bool) :
    System :=
  if (s.videos (job.outputPath config)).isSome then
    s.goto i (.clip job (.checking converted))
  else s.goto i (.clip job (.over .failed))

def clipStep (config : ClipConfig) (s : System) (i : Nat) (job : ClipJob) :
    ClipPhase → Answer → Option System
  | .cutting _, .writes bytes => some (s.setVideo (job.outputPath config) (some bytes))
  | .cutting _, .done => some (clipMade config s i job false)
  | .cutting .copy, .fails => some (s.goto i (.clip job (.cutting .transcode)))
  | .cutting .transcode, .fails => some (s.goto i (.clip job (.over .failed)))
  | .checking _, .verdict true => some (s.goto i (.clip job .measuring))
  | .checking false, .verdict false => some (s.goto i (.clip job .converting))
  | .checking true, .verdict false => some (s.goto i (.clip job (.over .failed)))
  | .converting, .writes bytes => some (s.setVideo (job.outputPath config) (some bytes))
  | .converting, .done => some (clipMade config s i job true)
  | .converting, .fails => some (s.goto i (.clip job (.over .failed)))
  | .measuring, .done =>
    match s.videos (job.outputPath config) with
    | some bytes => some (s.goto i (.clip job (.hashing bytes.length)))
    | none => some (s.goto i (.clip job (.over .failed)))
  | .hashing size, .done =>
    match s.videos (job.outputPath config) with
    | some bytes => some (s.goto i (.clip job (.inserting (config.sha256Hex bytes) size)))
    | none => some (s.goto i (.clip job (.over .failed)))
  | .hashing _, .fails => some (s.goto i (.clip job (.over .failed)))
  | .inserting fileSha256 size, .done =>
    if (s.row (job.outputPath config)).isSome then some (s.goto i (.clip job (.over .failed)))
    else some ((s.insert (job.data config fileSha256 size)).goto i (.clip job (.over .ended)))
  | .inserting _ _, .fails => some (s.goto i (.clip job (.over .failed)))
  | _, _ => none

/-! ## `exportCameraRange` -/

def exportCameraRange (config : ClipConfig) (user : AuthUser) (params : RangeParams) :
    Option RangeJob :=
  (normalizeRangeExportIdentity params).bind (fun identity =>
    if identity.toMs ≤ identity.fromMs then none
    else if config.exportMaxHours * 3600000 < identity.toMs - identity.fromMs then none
    else some { user := user, identity := identity, reason := params.reason })

def planInput (config : ClipConfig) (identity : RangeExportIdentity)
    (segments : List RangeSourceSegment) : PlanRangeExportInput where
  segments := segments
  fromAt := some identity.fromMs
  toAt := some identity.toMs
  maxSegments := some config.maxSegments
  copySafetySeconds := some config.copySafetySeconds
  forceTranscode := identity.profile = .compatible

def buildRangeExportAttempts (plan : RangeExportPlan) (preset : Bool) : List RangeExportAttempt :=
  (if plan.strategy = .copy then [{ kind := .copy, preset := false }] else []) ++
    (if preset then [{ kind := .transcode, preset := true }] else []) ++
    [{ kind := .transcode, preset := false }]

namespace RangeJob

def outputPath (config : ClipConfig) (job : RangeJob) : Text :=
  buildRangeExportOutputPath config job.identity

def tmpPath (config : ClipConfig) (job : RangeJob) (work : RangeWork) : Text :=
  job.outputPath config ++ '.' :: Nat.toDigits 10 work.pid ++ '.' :: Nat.toDigits 10 work.now ++
    ".tmp".toList

def proveniencia (job : RangeJob) (work : RangeWork) (usada : RangeExportAttempt)
    (fileSha256 : Text) (size : Nat) (generatedAt : Int) : Provenance where
  identity := job.identity
  plan := work.plan
  strategyUsed := usada.kind
  fileSha256 := fileSha256
  sizeBytes := size
  generatedAt := generatedAt
  reason := job.reason
  requestedBy := job.user

def data (config : ClipConfig) (job : RangeJob) (work : RangeWork) (fileSha256 : Text)
    (size : Nat) (id : Nat) : ExportedClip where
  id := id
  cameraId := job.identity.cameraId
  sourceRecordingId := (work.plan.parts.head?.map (·.recordingId.toList)).getD []
  filePath := job.outputPath config
  startedAt := work.plan.coveredFrom
  endedAt := work.plan.coveredTo
  durationSeconds := max 1 (roundMs work.plan.totalDurationSeconds)
  sizeBytes := some size
  fileSha256 := some fileSha256
  createdByUserId := some job.user.id
  createdByUserName := some job.user.name

end RangeJob

def nextAttempt (s : System) (i : Nat) (job : RangeJob) (work : RangeWork) :
    List RangeExportAttempt → System
  | [] => s.goto i (.range job (.cleaning work .failed))
  | attempt :: rest => s.goto i (.range job (.announcing work attempt rest))

/-- An attempt came to nothing: its file goes, and the next is made. -/
def attemptFailed (config : ClipConfig) (s : System) (i : Nat) (job : RangeJob) (work : RangeWork)
    (rest : List RangeExportAttempt) : System :=
  nextAttempt (s.setVideo (job.tmpPath config work) none) i job work rest

def planned (config : ClipConfig) (s : System) (i : Nat) (job : RangeJob)
    (segments : List RangeSourceSegment) (pid now : Nat) : System :=
  match planRangeExport config.order (planInput config job.identity segments) with
  | .ok plan =>
    if plan.parts.isEmpty then s.goto i (.range job (.over .failed))
    else s.goto i (.range job (.preparing { plan := plan, pid := pid, now := now }))
  | .error _ => s.goto i (.range job (.over .failed))

/-- `finally`: the temporary file goes. -/
def limpar (config : ClipConfig) (s : System) (i : Nat) (job : RangeJob) (work : RangeWork)
    (outcome : Outcome) : System :=
  (s.setVideo (job.tmpPath config work) none).goto i (.range job (.over outcome))

def replaceOutput (config : ClipConfig) (s : System) (i : Nat) (job : RangeJob) (work : RangeWork)
    (usada : RangeExportAttempt) (fileSha256 : Text) (size : Nat) : System :=
  match s.videos (job.tmpPath config work) with
  | some bytes =>
    ((s.setVideo (job.tmpPath config work) none).setVideo (job.outputPath config)
      (some bytes)).goto i (.range job (.describing work usada fileSha256 size))
  | none => s.goto i (.range job (.cleaning work .failed))

def rangeStep (config : ClipConfig) (s : System) (i : Nat) (job : RangeJob) :
    RangePhase → Answer → Option System
  | .gating, .done => some (s.goto i (.range job .planning))
  | .planning, .done => some (s.goto i (.range job .looking))
  | .looking, .done =>
    if (s.row (job.outputPath config)).isSome ∧ (s.videos (job.outputPath config)).isSome then
      some (s.goto i (.range job .reusing))
    else some (s.goto i (.range job .collecting))
  | .reusing, .done => some (s.goto i (.range job (.over .ended)))
  | .collecting, .collected segments pid now => some (planned config s i job segments pid now)
  | .gating, .fails | .planning, .fails | .looking, .fails | .reusing, .fails
  | .collecting, .fails | .preparing _, .fails => some (s.goto i (.range job (.over .failed)))
  | .preparing work, .hwaccel preset =>
    some (nextAttempt s i job work (buildRangeExportAttempts work.plan preset))
  | .announcing work attempt rest, .done =>
    some (s.goto i (.range job (.encoding work attempt rest)))
  | .announcing work _ _, .fails => some (s.goto i (.range job (.cleaning work .failed)))
  | .encoding work _ _, .writes bytes =>
    some (s.setVideo (job.tmpPath config work) (some bytes))
  | .encoding work attempt rest, .done =>
    -- an exit code of 0 is no proof: there must be a file with something in it
    if (s.videos (job.tmpPath config work)).any (fun bytes => 0 < bytes.length) then
      some (s.goto i (.range job (.validating work attempt rest)))
    else some (attemptFailed config s i job work rest)
  | .encoding work _ rest, .fails => some (attemptFailed config s i job work rest)
  | .validating work attempt rest, .done =>
    some (s.goto i (.range job (.inspecting work attempt rest)))
  | .validating work _ rest, .fails => some (attemptFailed config s i job work rest)
  | .inspecting work attempt _, .verdict true => some (s.goto i (.range job (.settled work attempt)))
  | .inspecting work _ rest, .verdict false => some (attemptFailed config s i job work rest)
  | .settled work usada, .done => some (s.goto i (.range job (.hashing work usada)))
  | .hashing work usada, .done =>
    match s.videos (job.tmpPath config work) with
    | some bytes => some (s.goto i (.range job (.sizing work usada (config.sha256Hex bytes))))
    | none => some (s.goto i (.range job (.cleaning work .failed)))
  | .sizing work usada fileSha256, .done =>
    match s.videos (job.tmpPath config work) with
    | some bytes => some (s.goto i (.range job (.replacing work usada fileSha256 bytes.length)))
    | none => some (s.goto i (.range job (.cleaning work .failed)))
  | .replacing work usada fileSha256 size, .done =>
    some (replaceOutput config s i job work usada fileSha256 size)
  | .describing work usada fileSha256 size, .doneAt now =>
    some ((s.setManifest (manifestPath (job.outputPath config))
      (some (.whole (job.proveniencia work usada fileSha256 size now)))).goto i
        (.range job (.inserting work usada fileSha256 size)))
  | .describing work _ _ _, .breaks =>
    some ((s.setManifest (manifestPath (job.outputPath config)) (some .cutOff)).goto i
      (.range job (.cleaning work .failed)))
  | .inserting work _ fileSha256 size, .done =>
    if (s.row (job.outputPath config)).isSome then
      some (s.goto i (.range job (.cleaning work .failed)))
    else
      some ((s.insert (job.data config work fileSha256 size)).goto i (.range job (.auditing work)))
  | .settled work _, .fails | .hashing work _, .fails | .sizing work _ _, .fails
  | .replacing work _ _ _, .fails | .describing work _ _ _, .fails | .inserting work _ _ _, .fails =>
    some (s.goto i (.range job (.cleaning work .failed)))
  -- the trail is written as well as may be
  | .auditing work, .done | .auditing work, .fails => some (s.goto i (.range job (.finishing work)))
  | .finishing work, .done => some (s.goto i (.range job (.cleaning work .ended)))
  | .finishing work, .fails => some (s.goto i (.range job (.cleaning work .failed)))
  | .cleaning work outcome, .done => some (limpar config s i job work outcome)
  | _, _ => none

/-! ## `deleteClip` -/

def System.release (s : System) (operation : Nat) : System :=
  { s with held := s.held.filter (fun h => h.operation ≠ operation) }

def putAside (s : System) (i : Nat) (job : Deletion) : System :=
  match s.videos job.filePath with
  | some bytes =>
    { s.setVideo job.filePath none with
      held := s.held ++ [{
        operation := i, clipId := job.clipId, filePath := job.filePath, bytes := bytes }] }
  | none => s

/-- The file put back, unless there is another in its place. -/
def restoreHeld (s : System) (h : Held) : System :=
  if (s.videos h.filePath).isSome then s
  else (s.setVideo h.filePath (some h.bytes)).release h.operation

/-- `restoreJournal` of an operation. -/
def restoreJournal (s : System) (operation : Nat) : System :=
  match s.held.find? (fun h => h.operation = operation) with
  | some h => restoreHeld s h
  | none => s

def deletionStep (s : System) (i : Nat) (job : Deletion) : DeletionPhase → Answer → Option System
  | .staging, .done => some ((putAside s i job).goto i (.deletion job .deleting))
  | .staging, .fails => some (s.goto i (.deletion job (.over .failed)))
  | .staging, .breaks => some ((putAside s i job).goto i (.deletion job .restoring))
  | .deleting, .done =>
    if s.rows.any (fun row => row.id = job.clipId) then
      some ({ s with rows := s.rows.filter (fun row => row.id ≠ job.clipId) }.goto i
        (.deletion job .cleaning))
    else some (s.goto i (.deletion job .restoring))
  | .deleting, .fails => some (s.goto i (.deletion job .restoring))
  | .cleaning, .done => some ((s.release i).goto i (.deletion job (.over .ended)))
  -- the journal stays, for the next boot
  | .cleaning, .fails => some (s.goto i (.deletion job (.over .ended)))
  | .restoring, .done => some ((restoreJournal s i).goto i (.deletion job (.over .failed)))
  | .restoring, .fails => some (s.goto i (.deletion job (.over .failed)))
  | _, _ => none

/-- At boot: the file of an operation back while the row is there, else gone. -/
def recoverOperation (s : System) (operation : Nat) : System :=
  match s.held.find? (fun h => h.operation = operation) with
  | some h => if s.rows.any (fun row => row.id = h.clipId) then restoreHeld s h
      else s.release operation
  | none => s

/-! ## The system -/

def advance (config : ClipConfig) (s : System) (i : Nat) (answer : Answer) : Call → Option System
  | .clip job phase => clipStep config s i job phase answer
  | .range job phase => rangeStep config s i job phase answer
  | .deletion job phase => deletionStep s i job phase answer

def Call.over : Call → Bool
  | .clip _ (.over _) | .range _ (.over _) | .deletion _ (.over _) => true
  | _ => false

def Call.stop : Call → Call
  | .clip job _ => .clip job (.over .stopped)
  | .range job _ => .range job (.over .stopped)
  | .deletion job _ => .deletion job (.over .stopped)

def step (config : ClipConfig) (s : System) : Label → Option System
  | .exportClip user recording startSeconds endSeconds =>
    (exportClip user recording startSeconds endSeconds).map (fun job =>
      s.begin (.clip job (.cutting .copy)))
  | .exportCameraRange user params =>
    (exportCameraRange config user params).map (fun job => s.begin (.range job .gating))
  | .deleteClip clipId =>
    (s.rows.find? (fun row => row.id = clipId)).map (fun row =>
      s.begin (.deletion { clipId := clipId, filePath := row.filePath } .staging))
  | .advance i answer => (s.calls[i]?).bind (advance config s i answer)
  | .giveUp i => (s.calls[i]?).bind (fun call => if call.over then none else some (s.goto i call.stop))
  | .recover operation => some (recoverOperation s operation)
  | .removeVideo path => some (s.setVideo path none)
  | .removeManifest path => some (s.setManifest path none)

def clipMachine (config : ClipConfig) : Machine System Label where
  init s := s = {}
  step := step config

end Drac.Recordings.ClipFiles
