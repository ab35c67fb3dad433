import Drac.Vision.RegionProposal
import Drac.Lib.Runs

/-
  Where to infer in a frame, and what of the cache is reported without inferring.

  Correspondence (`region_proposal.py` ↔ Lean, under the same names):
    dedupe_by_iou
    RegionPlan, _Entry, MotionRegionPlanner.plan, MotionRegionPlanner.commit, _carry

  The planner is generic in its items, as the source is: `ItemOps` holds the functions it is
  given, and `Detection` with `defaultOps` the ones it uses by default. In `plan` the turn of
  the loop for an entry reads nothing that the other turns change, so each list it fills is a
  selection of the entries (`EntryTurn` is which branch the turn takes).
-/

namespace Drac.Vision

open Runs

/-- What the planner is given about its items. `mark` is the copy that `_carry` makes with the
number of skips in its `extra`, or `none` where making it raises. -/
structure ItemOps (α : Type) where
  boxOf : α → Box
  classOf : α → ℤ
  scoreOf : α → ℚ
  mark : α → ℤ → Option α

section Planner

variable {α : Type} (ops : ItemOps α)

/-- A turn of `dedupe_by_iou`: what is kept so far, and the next item with its index. -/
def keepUnlessSeen (threshold : ℚ) (kept : List (α × ℕ)) (item : α × ℕ) : List (α × ℕ) :=
  if kept.any fun other => ops.classOf other.1 = ops.classOf item.1 &&
      intersectionOverUnion (ops.boxOf other.1) (ops.boxOf item.1) ≥ threshold then kept
  else kept ++ [item]

def dedupeByIou (items : List α) (threshold : ℚ) : List α :=
  let indexed := items.zipIdx.mergeSort fun a b => ops.scoreOf b.1 ≤ ops.scoreOf a.1
  let kept := indexed.foldl (keepUnlessSeen ops threshold) []
  (kept.mergeSort fun a b => a.2 ≤ b.2).map Prod.fst

/-- What one frame is to be looked at. -/
structure RegionPlan (α : Type) where
  regions : List Box
  carried : List α
  sweep : Bool
  idle : Bool
  skipped : ℕ

/-- An object remembered. -/
structure Entry (α : Type) where
  payload : α
  box : Box
  classId : ℤ
  motionless : ℤ
  lastSeen : ℤ
  lastInfer : ℤ
  skips : ℤ

structure MotionRegionPlanner (α : Type) where
  entries : List (Entry α)
  frameIndex : ℤ
  sweeps : ℤ
  skippedTotal : ℤ

def MotionRegionPlanner.new : MotionRegionPlanner α where
  entries := []
  frameIndex := 0
  sweeps := 0
  skippedTotal := 0

/-! ## Plan -/

/-- `_carry`. -/
def carry (entry : Entry α) : α := (ops.mark entry.payload entry.skips).getD entry.payload

/-- What the loop decides about an entry. -/
inductive EntryTurn where
  | covered
  | carried
  | forced
  deriving DecidableEq

/-- Which branch the turn for an entry takes, given the regions of the motion boxes. -/
def entryTurn (config : RegionConfig) (frameIndex : ℤ) (regions boxes : List Box)
    (entry : Entry α) : EntryTurn :=
  if regions.any fun region => boxInside region entry.box then .covered
  else
    let moving := boxes.any fun box => boxesIntersect entry.box box
    let due := frameIndex - entry.lastInfer ≥ config.stationaryInterval
    let stationary := config.stationarySkip && entry.motionless ≥ config.stationaryThreshold
    if stationary && !moving && !due then .carried else .forced

/-- `entry.skips += 1`, for an entry that is carried. -/
def skipEntry (turn : Entry α → EntryTurn) (entry : Entry α) : Entry α :=
  if turn entry = .carried then { entry with skips := entry.skips + 1 } else entry

def fullFrame (frame : Frame) : Box := ⟨0, 0, frame.width, frame.height⟩

/-- The regions once those of the entries that have to be looked at are added. -/
def withForced (config : RegionConfig) (frame : Frame) (regions forced : List Box) : List Box :=
  if forced.isEmpty then regions
  else sortBoxes (capRegions frame (dedupeRegions (regions ++ forced)) config)

/-- The periodic sweep adds the whole frame to the regions. -/
def withSweep (frame : Frame) (sweep : Bool) (regions : List Box) : List Box :=
  if sweep && fullFrame frame ∉ regions then regions ++ [fullFrame frame] else regions

def plan (config : RegionConfig) (frame : Frame) (motionBoxes : List (List (Option ℚ)))
    (planner : MotionRegionPlanner α) : MotionRegionPlanner α × RegionPlan α :=
  let frameIndex := planner.frameIndex + 1
  let boxes := motionBoxes.filterMap (clipBox frame)
  let motion := buildRegions frame (boxes.map Box.coords) config
  let turn := entryTurn config frameIndex motion boxes
  let carriedEntries := planner.entries.filter fun entry => turn entry = .carried
  let carried := carriedEntries.map fun entry => carry ops (skipEntry turn entry)
  let forced := (planner.entries.filter fun entry => turn entry = .forced).map fun entry =>
    calculateRegion frame entry.box config.minSize config.margin
  let sweep := config.sweepEvery > 0 && (frameIndex - 1) % config.sweepEvery = 0
  let regions := withSweep frame sweep (withForced config frame motion forced)
  let idle := regions.isEmpty && carried.isEmpty && config.idleFullFrame
  ({ entries := planner.entries.map (skipEntry turn)
     frameIndex
     sweeps := if sweep then planner.sweeps + 1 else planner.sweeps
     skippedTotal := planner.skippedTotal + carried.length },
   { regions := if idle then [fullFrame frame] else regions
     carried
     sweep
     idle
     skipped := carried.length })

/-! ## Commit -/

/-- The cache while the detections are matched, and the places matched so far. -/
structure Matching (α : Type) where
  entries : List (Entry α)
  matched : List ℕ

/-- A turn of the search for the entry that overlaps an item most: its place and overlap. -/
def closerEntry (config : RegionConfig) (matched : List ℕ) (item : α)
    (best : Option ℕ × ℚ) (entry : Entry α × ℕ) : Option ℕ × ℚ :=
  if entry.2 ∈ matched ∨ entry.1.classId ≠ ops.classOf item then best
  else
    let iou := intersectionOverUnion entry.1.box (ops.boxOf item)
    if iou ≥ config.matchIou ∧ iou > best.2 then (some entry.2, iou) else best

def refreshEntry (config : RegionConfig) (frameIndex : ℤ) (item : α) (iou : ℚ)
    (entry : Entry α) : Entry α :=
  { entry with
    motionless := if iou ≥ config.stationaryIou then entry.motionless + 1 else 0
    payload := item
    box := ops.boxOf item
    lastSeen := frameIndex
    lastInfer := frameIndex }

def newEntry (frameIndex : ℤ) (item : α) : Entry α where
  payload := item
  box := ops.boxOf item
  classId := ops.classOf item
  motionless := 0
  lastSeen := frameIndex
  lastInfer := frameIndex
  skips := 0

def matchItem (config : RegionConfig) (frameIndex : ℤ) (state : Matching α) (item : α) :
    Matching α :=
  match state.entries.zipIdx.foldl (closerEntry ops config state.matched item) (none, 0) with
  | (some index, iou) =>
    { entries := state.entries.modify index (refreshEntry ops config frameIndex item iou)
      matched := index :: state.matched }
  | (none, _) =>
    { entries := state.entries ++ [newEntry ops frameIndex item]
      matched := state.entries.length :: state.matched }

def matchItems (config : RegionConfig) (planner : MotionRegionPlanner α) (fresh : List α) :
    Matching α :=
  fresh.foldl (matchItem ops config planner.frameIndex) { entries := planner.entries, matched := [] }

/-- Whether an entry, with its place, stays in the cache. -/
def survives (config : RegionConfig) (frameIndex : ℤ) (executed : List Box) (matched : List ℕ)
    (entry : Entry α × ℕ) : Bool :=
  if entry.2 ∈ matched then true
  else if executed.any fun region => boxInside region entry.1.box then false
  else if frameIndex - entry.1.lastSeen ≥ config.stationaryMaxAge then false
  else true

def commit (config : RegionConfig) (detections : List α) (regionPlan : RegionPlan α)
    (executedRegions : Option (List Box)) (planner : MotionRegionPlanner α) :
    MotionRegionPlanner α × List α :=
  let executed := executedRegions.getD regionPlan.regions
  let fresh := dedupeByIou ops detections config.mergeIou
  let state := matchItems ops config planner fresh
  let survivors := state.entries.zipIdx.filter
    (survives config planner.frameIndex executed state.matched)
  ({ planner with entries := survivors.map Prod.fst },
   if regionPlan.carried.isEmpty then fresh
   else dedupeByIou ops (fresh ++ regionPlan.carried) config.mergeIou)

/-! ## Frames -/

end Planner

end Drac.Vision
