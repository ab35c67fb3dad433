import Mathlib.Data.Int.ConditionallyCompleteOrder
import Drac.Lib.Binary64
import Drac.Lib.Loops

/-
  Inference regions derived from motion boxes.

  Correspondence (`region_proposal.py` ↔ Lean, under the same names):
    RegionConfig        the configuration, its ranges carried as fields
    area, boxes_intersect, box_inside, intersection_over_union, clip_box, union_box
    calculate_region, _cluster_boundary, _region_for_cluster
    cluster_boxes, dedupe_regions, cap_regions, build_regions

  Pixel coordinates are integers, where `float` is exact; every operation on doubles is
  rounded (`fl`). A coordinate of a motion box is the result of `float`: `none` where it
  raises, or where `round` raises on what it gives (NaN, infinity). A cluster keeps the box
  beside the index.
-/

namespace Drac.Vision

open Binary64 Loops

/-- A box in pixels. -/
@[ext] structure Box where
  x1 : ℤ
  y1 : ℤ
  x2 : ℤ
  y2 : ℤ
  deriving DecidableEq, Repr

/-- `frame_shape`. -/
structure Frame where
  height : ℤ
  width : ℤ
  deriving DecidableEq, Repr

/-! ## Configuration -/

structure RegionConfig where
  enabled : Bool
  minSize : ℤ
  margin : ℚ
  maxRegions : ℤ
  sweepEvery : ℤ
  idleFullFrame : Bool
  stationarySkip : Bool
  stationaryThreshold : ℤ
  stationaryInterval : ℤ
  stationaryIou : ℚ
  stationaryMaxAge : ℤ
  matchIou : ℚ
  mergeIou : ℚ
  minSize_range : minSize ∈ Set.Icc 32 4096
  margin_range : margin ∈ Set.Icc 1 4
  maxRegions_range : maxRegions ∈ Set.Icc 1 32
  sweepEvery_range : sweepEvery ∈ Set.Icc 0 100000
  stationaryThreshold_range : stationaryThreshold ∈ Set.Icc 1 1000
  stationaryInterval_range : stationaryInterval ∈ Set.Icc 1 100000
  stationaryIou_range : stationaryIou ∈ Set.Icc 0 1
  stationaryMaxAge_range : stationaryMaxAge ∈ Set.Icc 1 100000
  matchIou_range : matchIou ∈ Set.Icc 0 1
  mergeIou_range : mergeIou ∈ Set.Icc 0 1

/-- `RegionConfig()`. -/
def RegionConfig.defaults : RegionConfig where
  enabled := false
  minSize := 320
  margin := fl (135 / 100)
  maxRegions := 4
  sweepEvery := 20
  idleFullFrame := true
  stationarySkip := true
  stationaryThreshold := 3
  stationaryInterval := 10
  stationaryIou := fl (85 / 100)
  stationaryMaxAge := 45
  matchIou := fl (45 / 100)
  mergeIou := fl (6 / 10)
  minSize_range := by decide
  margin_range := by decide +kernel
  maxRegions_range := by decide
  sweepEvery_range := by decide
  stationaryThreshold_range := by decide
  stationaryInterval_range := by decide
  stationaryIou_range := by decide +kernel
  stationaryMaxAge_range := by decide
  matchIou_range := by decide +kernel
  mergeIou_range := by decide +kernel

/-! ## Geometry -/

def area (box : Box) : ℤ := max 0 (box.x2 - box.x1) * max 0 (box.y2 - box.y1)

def boxesIntersect (a b : Box) : Bool :=
  !(a.x2 < b.x1 || a.x1 > b.x2 || a.y1 > b.y2 || a.y2 < b.y1)

/-- `inner` lies entirely inside `outer`. -/
def boxInside (outer inner : Box) : Prop :=
  outer.x1 ≤ inner.x1 ∧ outer.y1 ≤ inner.y1 ∧ inner.x2 ≤ outer.x2 ∧ inner.y2 ≤ outer.y2

instance (outer inner : Box) : Decidable (boxInside outer inner) :=
  inferInstanceAs (Decidable (_ ∧ _ ∧ _ ∧ _))

/-- Two boxes that do not meet give 0. -/
def intersectionOverUnion (a b : Box) : ℚ :=
  let inter := max 0 (min a.x2 b.x2 - max a.x1 b.x1) * max 0 (min a.y2 b.y2 - max a.y1 b.y1)
  if inter ≤ 0 then 0
  else
    let union := area a + area b - inter
    if union ≤ 0 then 0 else fl (inter / union)

def clamp (size x : ℤ) : ℤ := max 0 (min size x)

/-- The part of a box inside the frame, if it has any pixel there. -/
def clipPixels (frame : Frame) (box : Box) : Option Box :=
  let x1 := clamp frame.width box.x1
  let y1 := clamp frame.height box.y1
  let x2 := clamp frame.width box.x2
  let y2 := clamp frame.height box.y2
  if x2 ≤ x1 ∨ y2 ≤ y1 then none else some ⟨x1, y1, x2, y2⟩

/-- A box of four numbers, rounded and put into the frame. -/
def clipBox (frame : Frame) (box : List (Option ℚ)) : Option Box :=
  match box.take 4 with
  | [some x1, some y1, some x2, some y2] =>
    clipPixels frame ⟨roundHalfEven x1, roundHalfEven y1, roundHalfEven x2, roundHalfEven y2⟩
  | _ => none

def unionBox (a b : Box) : Box where
  x1 := min a.x1 b.x1
  y1 := min a.y1 b.y1
  x2 := max a.x2 b.x2
  y2 := max a.y2 b.y2

/-- The coordinates of a box of pixels. -/
def Box.coords (box : Box) : List (Option ℚ) :=
  [some box.x1, some box.y1, some box.x2, some box.y2]

/-- Where a side of length `side`, centred on the interval, starts. -/
def regionOffset (low high side size : ℤ) : ℤ :=
  let centred := fl (fl (fl ((high - low) / 2) + low) - fl (side / 2))
  max 0 (min (toInt centred) (size - side))

def regionSize (source : Box) (minSize : ℤ) (multiplier : ℚ) : ℤ :=
  let longest := max (source.x2 - source.x1) (source.y2 - source.y1)
  let size := ⌊fl (longest * multiplier) / 4⌋ * 4
  if size < minSize then minSize else size

/-- The region before it is stretched to its source. -/
def centredRegion (frame : Frame) (source : Box) (size : ℤ) : Box :=
  let width := max 4 (min size frame.width)
  let height := max 4 (min size frame.height)
  let xOffset := regionOffset source.x1 source.x2 width frame.width
  let yOffset := regionOffset source.y1 source.y2 height frame.height
  ⟨xOffset, yOffset, xOffset + width, yOffset + height⟩

/-- The source may be longer than the side of the region: the region is stretched to it. -/
def stretchTo (region : Box) : Option Box → Box
  | none => region
  | some source => if boxInside region source then region else unionBox region source

def calculateRegion (frame : Frame) (source : Box) (minSize : ℤ) (multiplier : ℚ) : Box :=
  stretchTo (centredRegion frame source (regionSize source minSize multiplier))
    (clipBox frame source.coords)

/-! ## Clusters -/

/-- One coordinate's share of `_cluster_boundary`: centre minus and plus the distance. -/
def boundaryInterval (low high regionSize : ℤ) : ℤ × ℤ :=
  let half := fl ((high - low) / 2)
  let centroid := fl (half + low)
  let distance := toInt (fl (regionSize - fl (half * fl (11 / 10))))
  (toInt (fl (centroid - distance)), toInt (fl (centroid + distance)))

def clusterBoundary (box : Box) (minSize : ℤ) : Box :=
  let maxRegionArea := fl (|(box.x2 - box.x1) * (box.y2 - box.y1)| / fl (1 / 10))
  let maxRegionSize := max minSize (toInt (flSqrt maxRegionArea))
  let x := boundaryInterval box.x1 box.x2 maxRegionSize
  let y := boundaryInterval box.y1 box.y2 maxRegionSize
  ⟨x.1, y.1, x.2, y.2⟩

/-- A box with its index among the boxes of the frame. -/
abbrev Indexed := Box × ℕ

/-- Boxes taken together, never none. -/
structure Cluster where
  first : Indexed
  rest : List Indexed

def Cluster.members (cluster : Cluster) : List Indexed := cluster.first :: cluster.rest

def Cluster.append (cluster : Cluster) (entry : Indexed) : Cluster :=
  { cluster with rest := cluster.rest ++ [entry] }

def Cluster.hull (cluster : Cluster) : Box :=
  cluster.rest.foldl (fun hull entry => unionBox hull entry.1) cluster.first.1

def regionForCluster (frame : Frame) (config : RegionConfig) (cluster : Cluster) : Box :=
  calculateRegion frame cluster.hull config.minSize config.margin

def shouldCluster (frame : Frame) (config : RegionConfig) (candidate : Cluster) : Bool :=
  let region := regionForCluster frame config candidate
  if region.x2 - region.x1 > config.minSize then
    let regionArea := max 1 (area region)
    candidate.members.all fun entry => ¬ fl (area entry.1 / regionArea) < fl (5 / 100)
  else true

/-- A turn of the inner loop: the cluster being built, and the indices used so far. -/
def compareBox (frame : Frame) (config : RegionConfig) (boundary : Box)
    (state : Cluster × List ℕ) (entry : Indexed) : Cluster × List ℕ :=
  if entry.2 ∈ state.2 then state
  else if ¬ boxInside boundary entry.1 then state
  else if shouldCluster frame config (state.1.append entry) then
    (state.1.append entry, entry.2 :: state.2)
  else state

/-- A turn of the outer loop: the clusters so far, and the indices used so far. -/
def openCluster (frame : Frame) (config : RegionConfig) (boxes : List Indexed)
    (state : List Cluster × List ℕ) (entry : Indexed) : List Cluster × List ℕ :=
  if entry.2 ∈ state.2 then state
  else
    let boundary := clusterBoundary entry.1 config.minSize
    let built := boxes.foldl (compareBox frame config boundary)
      ({ first := entry, rest := [] }, entry.2 :: state.2)
    (state.1 ++ [built.1], built.2)

def clusterBoxes (frame : Frame) (boxes : List Box) (config : RegionConfig) : List Cluster :=
  (boxes.zipIdx.foldl (openCluster frame config boxes.zipIdx) ([], [])).1

/-! ## Deduplication and cap -/

def dedupeRegions (regions : List Box) : List Box :=
  let unique := regions.eraseDups
  unique.filter fun region => ¬ unique.any fun other => other ≠ region && boxInside other region

/-- A turn of the two nested loops: the pair whose union is smaller, the earlier of equals. -/
def closer (best : Option (Indexed × Indexed)) (pair : Indexed × Indexed) :
    Option (Indexed × Indexed) :=
  match best with
  | none => some pair
  | some least =>
    if area (unionBox pair.1.1 pair.2.1) < area (unionBox least.1.1 least.2.1) then some pair
    else some least

def closestPair (current : List Box) : Option (Indexed × Indexed) :=
  (pairs current.zipIdx).foldl closer none

/-- The loop of `cap_regions`, with the turns its `guard` still allows. -/
def capLoop (frame : Frame) (config : RegionConfig) : ℕ → List Box → List Box
  | 0, current => current
  | guard + 1, current =>
    if (current.length : ℤ) ≤ max 1 config.maxRegions then current
    else
      match closestPair current with
      | none => current
      | some (a, b) =>
        let region := calculateRegion frame (unionBox a.1 b.1) config.minSize 1
        capLoop frame config guard ((current.eraseIdx b.2).eraseIdx a.2 ++ [region])

def capRegions (frame : Frame) (regions : List Box) (config : RegionConfig) : List Box :=
  capLoop frame config 1000 regions

/-- The order of tuples. -/
def Box.leb (a b : Box) : Bool :=
  [a.x1, a.y1, a.x2, a.y2] ≤ [b.x1, b.y1, b.x2, b.y2]

def sortBoxes (boxes : List Box) : List Box := boxes.mergeSort Box.leb

/-- The regions of the clusters of the boxes in the frame. -/
def proposedRegions (frame : Frame) (valid : List Box) (config : RegionConfig) : List Box :=
  dedupeRegions ((clusterBoxes frame valid config).map (regionForCluster frame config))

/-- The regions to look at: clustered, widened and capped. -/
def buildRegions (frame : Frame) (boxes : List (List (Option ℚ))) (config : RegionConfig) :
    List Box :=
  let valid := boxes.filterMap (clipBox frame)
  if valid.isEmpty then []
  else sortBoxes (capRegions frame (proposedRegions frame valid config) config)

end Drac.Vision
