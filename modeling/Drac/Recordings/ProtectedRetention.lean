import Drac.Lib.Runs
import Drac.Recordings.Protection
import Drac.Recordings.Retention

/-
  A retention pass among the users.

  One pass of `handleRetention`, or of `checkDiskUsage` alone, goes from one answer of the
  database or the file system to the next, and the users set holds and edit
  investigations in between. The pass reads the protections once, by three queries, and
  deletes afterwards.

  Correspondence (`retention.service.ts` ↔ Lean):
    getProtectionSets          ↔ the places `snapshot`
    expireClipsInBatches       ↔ `clipPage`, `clipRow`, `clipDone`
    expireRecordingsInBatches  ↔ `recordingGroup`, `recordingPage`, `rowExpiry`, `rowDone`
    checkDiskUsage             ↔ `diskLoop`, `diskPage`, `rowDisk`, `diskUsed`
    deleteRecording            ↔ `visit`, then the places `readingClips` and `deleting`

  A run keeps the recordings the pass deleted, each with what was protected when its row
  went. The clean-up setting is on; events, derived files and the counts of the result are
  left out, and of recordings of one instant the disk guard takes the one first by id.
-/

namespace Drac.Recordings

open Runs

/-! ## The places of a pass -/

structure PassSettings where
  globalDays : Int
  now : Int
  policy : TwoTierPolicy
  limits : BatchLimits
  hasMotionScoreColumn : Bool
  collation : Collation
  triggerPercent : Nat
  targetPercent : Nat
  maxNoProgressBatches : Nat

/-- The query of the protections that is awaited, with the sets so far. -/
inductive SnapshotQuery where
  | holds
  | evidence (sets : ProtectionSets)
  | clips (sets : ProtectionSets)

/-- What the protections are read for. -/
inductive PassStage where
  | retention
  | disk (percent : Nat)

/-- The variables of a group's loop. `full`: the page was as long as it may be. -/
structure GroupCursor where
  group : RetentionGroup
  rest : List RetentionGroup
  skip : Nat
  budget : Nat
  full : Bool := false

structure DiskCursor where
  iteration : Nat
  noProgress : Nat
  current : Nat
  batchDeleted : Nat := 0

/-- The loop a recording is visited by. -/
inductive RowLoop where
  | expiry (c : GroupCursor)
  | disk (c : DiskCursor)

/-- Where the loops of a pass are. -/
inductive PassWork where
  | cameras
  | clipPage (groups : List RetentionGroup) (c : GroupCursor)
  | clipDeleting (groups : List RetentionGroup) (c : GroupCursor) (page : List ExportedClip)
      (clip : ExportedClip)
  | clipRows (groups : List RetentionGroup) (c : GroupCursor) (page : List ExportedClip)
  | recordingGroup (groups : List RetentionGroup) (budget : Nat)
  | recordingPage (c : GroupCursor)
  | rows (loop : RowLoop) (page : List Recording)
  | readingClips (loop : RowLoop) (page : List Recording) (r : Recording)
  | deleting (loop : RowLoop) (page : List Recording) (r : Recording)
  | diskCheck
  | diskPage (c : DiskCursor)
  | diskUsage (c : DiskCursor)

/-- Where a pass is. -/
inductive PassPc where
  | diskFirst
  | snapshot (query : SnapshotQuery) (stage : PassStage)
  | running (sets : ProtectionSets) (work : PassWork)
  | finished

/-- What a step of the pass deletes. -/
inductive PassEffect where
  | nothing
  | clipRow (id : String)
  | recordingRow (id : String)
  deriving DecidableEq

section Pass

variable (s : PassSettings)

/-! ## Clips -/

def clipPrecedes (c : Collation) (a b : ExportedClip) : Prop :=
  a.startedAt < b.startedAt ∨ (a.startedAt = b.startedAt ∧ c.le a.id b.id = true)

instance decidableClipPrecedes (c : Collation) (a b : ExportedClip) :
    Decidable (clipPrecedes c a b) :=
  inferInstanceAs (Decidable (_ ∨ _))

/-- The clips before the cut whose source recording is of the group's cameras. -/
def clipListing (filter : CameraFilter) (cutoff : Int) (db : Database) : List ExportedClip :=
  (db.clips.filter (fun clip => clip.startedAt < cutoff && (filter = .any ||
    db.recordings.any (fun r => r.id = clip.sourceRecordingId && filter.accepts r.cameraId)))
    ).insertionSort (clipPrecedes s.collation)

/-- The next group of clips, or the recordings once there is none or no budget is left. -/
def clipGroup (groups : List RetentionGroup) (budget : Nat) : List RetentionGroup → PassWork
  | [] => .recordingGroup groups s.limits.maxPerCycle
  | group :: rest =>
    if budget = 0 then .recordingGroup groups s.limits.maxPerCycle
    else .clipPage groups ⟨group, rest, 0, budget, false⟩

def clipPage (groups : List RetentionGroup) (c : GroupCursor) (db : Database) : Option PassWork :=
  (dateOf (s.now - c.group.days * dayMs)).map (fun cutoff =>
    let take := min s.limits.batchSize c.budget
    let page := ((clipListing s c.group.filter cutoff db).drop c.skip).take take
    if page.isEmpty then clipGroup s groups c.budget c.rest
    else .clipRows groups { c with full := take ≤ page.length } page)

/-- The loop over a page of clips up to its next await. -/
def clipRow (sets : ProtectionSets) (groups : List RetentionGroup) (c : GroupCursor) :
    List ExportedClip → PassWork
  | [] =>
    if ¬ c.full then clipGroup s groups c.budget c.rest
    else if c.budget = 0 then .recordingGroup groups s.limits.maxPerCycle
    else .clipPage groups c
  | clip :: page =>
    if clip.id ∈ sets.clipIds then .clipRows groups { c with skip := c.skip + 1 } page
    else .clipDeleting groups c page clip

def clipDone (groups : List RetentionGroup) (c : GroupCursor) (page : List ExportedClip)
    (deleted : Bool) : PassWork :=
  if deleted then .clipRows groups { c with budget := c.budget - 1 } page
  else .clipRows groups { c with skip := c.skip + 1 } page

/-! ## Recordings by age -/

def recordingPage (c : GroupCursor) (db : Database) : Option PassWork :=
  let window := resolveRetentionWindow c.group.days s.policy
  (buildExpiryWhere s.hasMotionScoreColumn c.group window s.now).map (fun w =>
    let take := min s.limits.batchSize c.budget
    let page := ((listing s.collation w.accepts db).drop c.skip).take take
    if page.isEmpty then .recordingGroup c.rest c.budget
    else .rows (.expiry { c with full := take ≤ page.length }) page)

/-- The next group: its count where there are two cuts, then its first page. -/
def recordingGroup (groups : List RetentionGroup) (budget : Nat) (db : Database) :
    Option PassWork :=
  match groups with
  | [] => some .diskCheck
  | group :: rest =>
    if budget = 0 then some .diskCheck
    else
      let window := resolveRetentionWindow group.days s.policy
      if s.policy.enabled ∧
          (motionRetained s.hasMotionScoreColumn group window s.now db).isNone then none
      else some (.recordingPage ⟨group, rest, 0, budget, false⟩)

/-- `deleteRecording` up to its first await. -/
def visit (sets : ProtectionSets) (loop : RowLoop) (page : List Recording) (r : Recording)
    (refused : RowLoop) : PassWork :=
  if r.id ∈ sets.recordingIds then .rows refused page else .readingClips loop page r

/-- A visited recording was deleted, or is left where it is. -/
def rowDone (deleted : Bool) : RowLoop → RowLoop
  | .expiry c =>
    .expiry (if deleted then { c with budget := c.budget - 1 } else { c with skip := c.skip + 1 })
  | .disk c => .disk (if deleted then { c with batchDeleted := c.batchDeleted + 1 } else c)

def rowExpiry (sets : ProtectionSets) (c : GroupCursor) (page : List Recording) (r : Recording) :
    PassWork :=
  let window := resolveRetentionWindow c.group.days s.policy
  let kept : PassWork := .rows (rowDone false (.expiry c)) page
  if ¬ isExpiredByAge r.startedAt (readMotionScore s.hasMotionScoreColumn r) s.now window then kept
  else if s.policy.enabled && s.policy.dryRun then
    if r.id ∈ sets.recordingIds then kept
    else .rows (.expiry { c with skip := c.skip + 1, budget := c.budget - 1 }) page
  else visit sets (.expiry c) page r (rowDone false (.expiry c))

/-! ## Recordings by disk pressure -/

def diskLoop (sets : ProtectionSets) (c : DiskCursor) : PassPc :=
  if c.iteration < 100 ∧ s.targetPercent < c.current then .running sets (.diskPage c) else .finished

def diskPage (sets : ProtectionSets) (c : DiskCursor) (db : Database) : PassPc :=
  let oldest := (listing s.collation (fun r => r.id ∉ sets.recordingIds) db).take 20
  if oldest.isEmpty then .finished
  else .running sets (.rows (.disk { c with batchDeleted := 0 }) oldest)

/-- The brake: so many batches that deleted and freed nothing end the pass. -/
def diskUsed (sets : ProtectionSets) (c : DiskCursor) (percent : Nat) : PassPc :=
  if percent < c.current then diskLoop s sets ⟨c.iteration + 1, 0, percent, 0⟩
  else if s.maxNoProgressBatches ≤ c.noProgress + 1 then .finished
  else diskLoop s sets ⟨c.iteration + 1, c.noProgress + 1, percent, 0⟩

/-- The loop over a page of recordings up to its next await. -/
def row (sets : ProtectionSets) (loop : RowLoop) : List Recording → PassPc
  | [] =>
    match loop with
    | .expiry c =>
      if ¬ c.full then .running sets (.recordingGroup c.rest c.budget)
      else if c.budget = 0 then .running sets (.recordingGroup c.rest 0)
      else .running sets (.recordingPage c)
    | .disk c => if c.batchDeleted = 0 then .finished else .running sets (.diskUsage c)
  | r :: page =>
    match loop with
    | .expiry c => .running sets (rowExpiry s sets c page r)
    | .disk c => .running sets (visit sets (.disk c) page r (.disk c))

/-! ## One step -/

def afterSnapshot (sets : ProtectionSets) : PassStage → PassPc
  | .retention => .running sets .cameras
  | .disk percent => diskLoop s sets ⟨0, 0, percent, 0⟩

def snapshotStep (a : Archive) (query : SnapshotQuery) (stage : PassStage) : PassPc :=
  match query with
  | .holds => .snapshot (.evidence (readHolds a.items)) stage
  | .evidence sets =>
    let sets := readEvidence a.items sets
    if sets.clipIds = [] then afterSnapshot s sets stage else .snapshot (.clips sets) stage
  | .clips sets => afterSnapshot s (readClips a.db.clips sets) stage

/-- A query that throws ends the pass. -/
def runningOr (sets : ProtectionSets) : Option PassWork → PassPc
  | some work => .running sets work
  | none => .finished

/-- The work that is awaited is over: whether it went well, and what the disk shows. -/
def workStep (a : Archive) (sets : ProtectionSets) (ok : Bool) (percent : Nat) (work : PassWork) :
    PassPc × PassEffect :=
  match work with
  | .cameras =>
    let groups := loadRetentionGroups a.db.cameras s.globalDays
    (.running sets (clipGroup s groups s.limits.maxPerCycle groups), .nothing)
  | .clipPage groups c => (runningOr sets (clipPage s groups c a.db), .nothing)
  | .clipRows groups c page => (.running sets (clipRow s sets groups c page), .nothing)
  | .clipDeleting groups c page clip =>
    let deleted := ok && a.db.clips.any (fun row => row.id = clip.id)
    (.running sets (clipDone groups c page deleted),
      if deleted then .clipRow clip.id else .nothing)
  | .recordingGroup groups budget =>
    (runningOr sets (recordingGroup s groups budget a.db), .nothing)
  | .recordingPage c => (runningOr sets (recordingPage s c a.db), .nothing)
  | .rows loop page => (row s sets loop page, .nothing)
  | .readingClips loop page r =>
    let refused := !ok || (a.db.clipsOf r.id).any (fun clip => clip.id ∈ sets.clipIds)
    (.running sets (if refused then .rows (rowDone false loop) page else .deleting loop page r),
      .nothing)
  | .deleting loop page r =>
    let deleted := ok && a.db.recordings.any (fun row => row.id = r.id)
    (.running sets (.rows (rowDone deleted loop) page),
      if deleted then .recordingRow r.id else .nothing)
  | .diskCheck =>
    (if percent ≤ s.triggerPercent then .finished else diskLoop s sets ⟨0, 0, percent, 0⟩, .nothing)
  | .diskPage c => (diskPage s sets c a.db, .nothing)
  | .diskUsage c => (diskUsed s sets c percent, .nothing)

/-- The work a failure of which is caught row by row; any other failure ends the pass. -/
def caught : PassWork → Bool
  | .clipDeleting .. | .readingClips .. | .deleting .. => true
  | _ => false

def passStep (a : Archive) (ok : Bool) (percent : Nat) : PassPc → Option (PassPc × PassEffect)
  | .diskFirst =>
    some (if ok ∧ s.triggerPercent < percent then .snapshot .holds (.disk percent) else .finished,
      .nothing)
  | .snapshot query stage => some (if ok then snapshotStep s a query stage else .finished, .nothing)
  | .running sets work =>
    some (if ok || caught work then workStep s a sets ok percent work else (.finished, .nothing))
  | .finished => none

end Pass

/-! ## The machine -/

/-- What users do while a pass runs. -/
inductive UserAction where
  | setLegalHold (id investigationId : String) (hold : LegalHold) (now : Int)
  | addItem (item : InvestigationItem)
  | removeItem (investigationId itemId : String)
  | exportClip (clip : ExportedClip)

def UserAction.apply (u : UserAction) (a : Archive) : Archive :=
  match u with
  | .setLegalHold id investigationId hold now =>
    Recordings.setLegalHold id investigationId hold now a
  | .addItem item => Recordings.addItem item a
  | .removeItem investigationId itemId => Recordings.removeItem investigationId itemId a
  | .exportClip clip => Recordings.exportClip clip a

inductive RetentionLabel where
  | pass (ok : Bool) (percent : Nat)
  | user (u : UserAction)

/-- The archive, the pass and what it has deleted. -/
structure RetentionRun where
  archive : Archive
  pc : PassPc
  /-- History: the deleted recordings, each with the sets in force when its row went. -/
  deleted : List (String × ProtectionSets) := []

def applyEffect (e : PassEffect) (run : RetentionRun) : RetentionRun :=
  match e with
  | .nothing => run
  | .clipRow id =>
    { run with archive := { run.archive with db := { run.archive.db with
        clips := run.archive.db.clips.filter (fun c => c.id ≠ id) } } }
  | .recordingRow id =>
    { run with
      archive := { run.archive with db := run.archive.db.deleteRecordingRow id }
      deleted := run.deleted ++ [(id, getProtectionSets run.archive)] }

def retentionStep (s : PassSettings) (run : RetentionRun) : RetentionLabel → Option RetentionRun
  | .pass ok percent =>
    (passStep s run.archive ok percent run.pc).map (fun next =>
      applyEffect next.2 { run with pc := next.1 })
  | .user u => some { run with archive := u.apply run.archive }

/-- A pass of `handleRetention`, or of `checkDiskUsage` alone, over any archive. -/
def retentionMachine (s : PassSettings) : Machine RetentionRun RetentionLabel where
  init run := (run.pc = .snapshot .holds .retention ∨ run.pc = .diskFirst) ∧ run.deleted = []
  step := retentionStep s

end Drac.Recordings
