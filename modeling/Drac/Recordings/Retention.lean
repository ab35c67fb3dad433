import Drac.Lib.JsMap
import Drac.Lib.Paging
import Drac.Recordings.Store

/-
  Expiry of recordings by age, in batches.

  Correspondence (`retention.service.ts` ↔ Lean):
    resolveRetentionWindow, readMotionScore, isExpiredByAge, loadRetentionGroups ↔ the same names
    buildExpiryWhere          ↔ `buildExpiryWhere`, and `ExpiryWhere.accepts` for what the
                                database makes of it
    expireRecordingsInBatches ↔ `expireRecordingsInBatches`; the turn of its loop for one
                                recording is `expireOne`, and its paging `Paging.Source.sweep`

  A group's query is refused where one of its dates is no date (`new Date` out of
  range), and the pass then ends with that error.
-/

namespace Drac.Recordings

def dayMs : Int := 86400000

/-! ## Policy and windows -/

structure TwoTierPolicy where
  enabled : Bool
  dryRun : Bool
  allDays : Int
  motionDays : Int
  deriving DecidableEq

structure RetentionWindow where
  allDays : Int
  motionDays : Int
  deriving DecidableEq

def resolveRetentionWindow (baseDays : Int) (policy : TwoTierPolicy) : RetentionWindow :=
  if ¬ policy.enabled then ⟨baseDays, baseDays⟩
  else
    let allDays := if 0 < policy.allDays then policy.allDays else baseDays
    let motionDays := if 0 < policy.motionDays then policy.motionDays else baseDays
    ⟨allDays, max allDays motionDays⟩

def motionScoreUnknown : Int := -1

/-- The motion score of a row, unknown where the column is not there. -/
def readMotionScore (hasMotionScoreColumn : Bool) (r : Recording) : Int :=
  if hasMotionScoreColumn ∧ 0 ≤ r.motionScore then r.motionScore else motionScoreUnknown

def isExpiredByAge (startedAt motionScore now : Int) (window : RetentionWindow) : Bool :=
  let ageMs := now - startedAt
  if window.motionDays * dayMs < ageMs then true
  else if ageMs ≤ window.allDays * dayMs then false
  else motionScore = 0

/-! ## Groups -/

/-- The cameras of a group. -/
inductive CameraFilter where
  | oneOf (cameraIds : List String)
  | noneOf (cameraIds : List String)
  | any
  deriving DecidableEq

def CameraFilter.accepts (filter : CameraFilter) (cameraId : String) : Bool :=
  match filter with
  | oneOf ids => cameraId ∈ ids
  | noneOf ids => cameraId ∉ ids
  | any => true

structure RetentionGroup where
  days : Int
  filter : CameraFilter
  deriving DecidableEq

def addCamera (globalDays : Int) (byDays : List (Int × List String)) (camera : Camera) :
    List (Int × List String) :=
  let days := camera.retentionDays.getD globalDays
  JsMap.set byDays days ((JsMap.get? byDays days).getD [] ++ [camera.id])

/-- The cameras by their days, and last the recordings of cameras no longer there. -/
def loadRetentionGroups (cameras : List Camera) (globalDays : Int) : List RetentionGroup :=
  (cameras.foldl (addCamera globalDays) []).map (fun bucket => ⟨bucket.1, .oneOf bucket.2⟩) ++
    [⟨globalDays, if cameras.isEmpty then .any else .noneOf (cameras.map (·.id))⟩]

/-! ## The query -/

/-- `new Date(ms)`, where that is a date. -/
def dateOf (ms : Int) : Option Int := if ms.natAbs ≤ 8640000000000000 then some ms else none

/-- A group's query: its cameras, before a date, and, where there are two cuts,
before the second date too or without motion. -/
structure ExpiryWhere where
  filter : CameraFilter
  startedBefore : Int
  orStartedBefore : Option Int
  deriving DecidableEq

def ExpiryWhere.accepts (w : ExpiryWhere) (r : Recording) : Bool :=
  w.filter.accepts r.cameraId && r.startedAt < w.startedBefore &&
    match w.orStartedBefore with
    | none => true
    | some before => r.startedAt < before || r.motionScore = 0

def buildExpiryWhere (hasMotionScoreColumn : Bool) (group : RetentionGroup)
    (window : RetentionWindow) (now : Int) : Option ExpiryWhere :=
  if window.motionDays ≤ window.allDays then
    (dateOf (now - window.allDays * dayMs)).map (⟨group.filter, ·, none⟩)
  else if ¬ hasMotionScoreColumn then
    (dateOf (now - window.motionDays * dayMs)).map (⟨group.filter, ·, none⟩)
  else
    (dateOf (now - window.allDays * dayMs)).bind (fun all =>
      (dateOf (now - window.motionDays * dayMs)).map (fun motion =>
        ⟨group.filter, all, some motion⟩))

/-- The recordings counted as kept for their motion. -/
def motionRetained (hasMotionScoreColumn : Bool) (group : RetentionGroup)
    (window : RetentionWindow) (now : Int) (db : Database) : Option Nat :=
  (dateOf (now - window.allDays * dayMs)).bind (fun all =>
    (dateOf (now - window.motionDays * dayMs)).map (fun motion =>
      (db.recordings.filter (fun r =>
        group.filter.accepts r.cameraId && r.startedAt < all && motion ≤ r.startedAt &&
          (!hasMotionScoreColumn || r.motionScore ≠ 0))).length))

/-! ## The pass -/

/-- The size of a page, and how many deletions a cycle may make. -/
structure BatchLimits where
  batchSize : Nat
  maxPerCycle : Nat
  deriving DecidableEq

/-- What is fixed during a pass. `fails` holds of the recordings whose deletion
throws. -/
structure ExpiryPass where
  now : Int
  protection : ProtectionSets
  policy : TwoTierPolicy
  limits : BatchLimits
  hasMotionScoreColumn : Bool
  collation : Collation
  fails : String → Bool

structure CleanupResult where
  recordingsDeleted : Nat := 0
  recordingsWouldDelete : Option Nat := none
  wouldFreeBytes : Option Nat := none
  motionRetained : Option Nat := none
  deriving DecidableEq

/-- The database and what was counted, in the loop. -/
structure ExpiryState where
  db : Database
  result : CleanupResult

inductive ExpiryError where
  | queryRefused
  | outOfFuel
  deriving DecidableEq, Repr

open Paging

/-- One recording of a page: judged again by the rule itself, only counted in a dry
run, and deleted otherwise. -/
def expireOne (pass : ExpiryPass) (window : RetentionWindow) (st : ExpiryState) (r : Recording) :
    ExpiryState × Visit :=
  if ¬ isExpiredByAge r.startedAt (readMotionScore pass.hasMotionScoreColumn r) pass.now window then
    (st, .kept)
  else if pass.policy.enabled && pass.policy.dryRun then
    if r.id ∈ pass.protection.recordingIds then (st, .kept)
    else
      ({ st with result := { st.result with
          recordingsWouldDelete := some (st.result.recordingsWouldDelete.getD 0 + 1)
          wouldFreeBytes := some (st.result.wouldFreeBytes.getD 0 + r.sizeBytes.getD 0) } },
        .charged)
  else
    match deleteRecording pass.protection pass.fails r st.db with
    | .ok (some db) =>
      ({ db := db
         result := { st.result with recordingsDeleted := st.result.recordingsDeleted + 1 } },
        .removed)
    | .ok none => (st, .kept)
    | .error _ => (st, .kept)

/-- What a group's loop reads, and does to each recording. -/
def expirySource (pass : ExpiryPass) (window : RetentionWindow) (w : ExpiryWhere) :
    Source ExpiryState Recording where
  rows st := listing pass.collation w.accepts st.db
  visit st r := expireOne pass window st r

def countRetained (pass : ExpiryPass) (group : RetentionGroup) (window : RetentionWindow)
    (st : ExpiryState) : Except ExpiryError ExpiryState :=
  if ¬ pass.policy.enabled then .ok st
  else
    match motionRetained pass.hasMotionScoreColumn group window pass.now st.db with
    | none => .error .queryRefused
    | some n =>
      .ok { st with result := { st.result with
        motionRetained := some (st.result.motionRetained.getD 0 + n) } }

/-- One group: the state and the budget it leaves. -/
def expireGroup (fuel : Nat) (pass : ExpiryPass) (group : RetentionGroup) (st : ExpiryState)
    (budget : Nat) : Except ExpiryError (ExpiryState × Nat) := do
  let window := resolveRetentionWindow group.days pass.policy
  let counted ← countRetained pass group window st
  match buildExpiryWhere pass.hasMotionScoreColumn group window pass.now with
  | none => throw .queryRefused
  | some w =>
    match (expirySource pass window w).sweep pass.limits.batchSize fuel ⟨counted, 0, budget⟩ with
    | none => throw .outOfFuel
    | some c => return (c.state, c.budget)

def expireGroups (fuel : Nat) (pass : ExpiryPass) :
    List RetentionGroup → ExpiryState → Nat → Except ExpiryError ExpiryState
  | [], st, _ => .ok st
  | group :: rest, st, budget =>
    if budget = 0 then .ok st
    else
      match expireGroup fuel pass group st budget with
      | .error e => .error e
      | .ok (st, budget) => expireGroups fuel pass rest st budget

def expireRecordingsInBatches (fuel : Nat) (pass : ExpiryPass) (groups : List RetentionGroup)
    (st : ExpiryState) : Except ExpiryError ExpiryState :=
  expireGroups fuel pass groups st pass.limits.maxPerCycle

end Drac.Recordings
