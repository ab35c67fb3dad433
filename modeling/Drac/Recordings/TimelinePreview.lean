import Mathlib.Data.Rat.Floor

/-
  The preview sprite of a recording: which second each of its tiles shows.

  Correspondence:
    `timeline-preview.helper.ts`   toEven, planTimelinePreview, locateTileAtSecond ↔ the same
        names, with the readings of the input and the steps of the plan as definitions of
        their own
    `timeline-preview.ts` of the web client   locateTileAtSecond ↔ `webLocateTileAtSecond`,
        spriteTileStyle ↔ the same name
    `recordings.service.ts`, `getTimelinePreviewMeta` ↔ `metaOf`

  Numbers are exact; `none` is a number that is missing or not finite. A style is its four
  percentages.
-/

namespace Drac.Recordings

structure PlanTimelinePreviewInput where
  durationSeconds : Option ℚ
  tileWidth : Option ℚ := none
  aspectWidth : Option ℚ := none
  aspectHeight : Option ℚ := none
  maxColumns : Option ℚ := none
  maxTiles : Option ℚ := none
  minIntervalSeconds : Option ℚ := none

structure TimelinePreviewPlan where
  intervalSeconds : ℤ
  frameCount : ℤ
  columns : ℤ
  rows : ℤ
  tileWidth : ℤ
  tileHeight : ℤ

def toEven (value : ℚ) : ℤ :=
  let rounded := ⌊value + 1 / 2⌋
  if rounded % 2 = 0 then rounded else rounded + 1

namespace PlanTimelinePreviewInput

variable (input : PlanTimelinePreviewInput)

def columnLimit : ℤ := max 1 ⌊input.maxColumns.getD 10⌋

/-- The number of tiles asked for, at least one. -/
def tileLimit : ℤ := max 1 ⌊input.maxTiles.getD 120⌋

/-- The interval asked for, at least a second. -/
def leastInterval : ℤ := max 1 ⌊input.minIntervalSeconds.getD 2⌋

/-- The duration in whole seconds. -/
def duration : ℤ := if 0 < input.durationSeconds.getD 0 then ⌊input.durationSeconds.getD 0⌋ else 0

def interval : ℤ :=
  let intervalForCap := ⌈(input.duration : ℚ) / (max 1 (input.tileLimit - 1) : ℤ)⌉
  max input.leastInterval (if intervalForCap = 0 then input.leastInterval else intervalForCap)

def frames : ℤ :=
  if input.duration ≤ 0 then 1
  else min input.tileLimit (⌊(input.duration : ℚ) / input.interval⌋ + 1)

end PlanTimelinePreviewInput

open PlanTimelinePreviewInput

def planTimelinePreview (input : PlanTimelinePreviewInput) : TimelinePreviewPlan :=
  let tileWidth := max 16 ⌊input.tileWidth.getD 160⌋
  let aspectWidth := max 1 (input.aspectWidth.getD 16)
  let aspectHeight := max 1 (input.aspectHeight.getD 9)
  let columns := min input.columnLimit input.frames
  { intervalSeconds := input.interval
    frameCount := input.frames
    columns
    rows := ⌈(input.frames : ℚ) / columns⌉
    tileWidth := toEven tileWidth
    tileHeight := toEven (tileWidth * aspectHeight / aspectWidth) }

structure TileLocation where
  index : ℤ
  column : ℤ
  row : ℤ
  x : ℤ
  y : ℤ

/-- `Number.isFinite(second) && second > 0 ? second : 0`. -/
def safeSecond (second : Option ℚ) : ℚ := max 0 (second.getD 0)

def locateTileAtSecond (plan : TimelinePreviewPlan) (second : Option ℚ) : TileLocation :=
  let rawIndex := ⌊safeSecond second / plan.intervalSeconds⌋
  let index := min (plan.frameCount - 1) (max 0 rawIndex)
  let column := index % plan.columns
  let row := index / plan.columns
  { index, column, row, x := column * plan.tileWidth, y := row * plan.tileHeight }

/-! ## The web client -/

structure TimelinePreviewMeta where
  recordingId : String
  durationSeconds : Option ℚ
  spriteUrl : String
  intervalSeconds : ℤ
  frameCount : ℤ
  columns : ℤ
  rows : ℤ
  tileWidth : ℤ
  tileHeight : ℤ

def metaOf (recordingId : String) (durationSeconds : Option ℚ) (plan : TimelinePreviewPlan) :
    TimelinePreviewMeta where
  recordingId
  durationSeconds
  spriteUrl := "/recordings/" ++ recordingId ++ "/preview-sprite"
  intervalSeconds := plan.intervalSeconds
  frameCount := plan.frameCount
  columns := plan.columns
  rows := plan.rows
  tileWidth := plan.tileWidth
  tileHeight := plan.tileHeight

/-- A tile of the sprite, as the client finds it. -/
structure SpriteTile where
  index : ℤ
  column : ℤ
  row : ℤ

def webLocateTileAtSecond (info : TimelinePreviewMeta) (second : Option ℚ) : SpriteTile :=
  let interval := if 0 < info.intervalSeconds then info.intervalSeconds else 1
  let columns := if 0 < info.columns then info.columns else 1
  let rawIndex := ⌊safeSecond second / interval⌋
  let index := min (info.frameCount - 1) (max 0 rawIndex)
  { index, column := index % columns, row := index / columns }

structure SpriteTileStyle where
  sizeX : ℚ
  sizeY : ℚ
  posX : ℚ
  posY : ℚ

def spriteTileStyle (info : TimelinePreviewMeta) (second : Option ℚ) : SpriteTileStyle :=
  let tile := webLocateTileAtSecond info second
  let columns := if 0 < info.columns then info.columns else 1
  let rows := if 0 < info.rows then info.rows else 1
  { sizeX := columns * 100
    sizeY := rows * 100
    posX := if 1 < columns then (tile.column : ℚ) / (columns - 1) * 100 else 0
    posY := if 1 < rows then (tile.row : ℚ) / (rows - 1) * 100 else 0 }

/-- How many boxes of the sprite lie left of the one shown: a background of that size has its
percentage counted over what does not fit into the box. -/
def SpriteTileStyle.column (style : SpriteTileStyle) : ℚ :=
  style.posX / 100 * (style.sizeX / 100 - 1)

def SpriteTileStyle.row (style : SpriteTileStyle) : ℚ :=
  style.posY / 100 * (style.sizeY / 100 - 1)

/-! ## The plan -/

variable (input : PlanTimelinePreviewInput)

theorem leastInterval_le : input.leastInterval ≤ input.interval := le_max_left _ _

theorem interval_pos : 0 < input.interval :=
  lt_of_lt_of_le (lt_of_lt_of_le one_pos (le_max_left _ _)) (leastInterval_le input)

theorem duration_nonneg : 0 ≤ input.duration := by
  unfold PlanTimelinePreviewInput.duration
  split_ifs with hpos
  · exact Int.floor_nonneg.mpr hpos.le
  · exact le_refl 0

theorem frames_pos : 0 < input.frames := by
  unfold PlanTimelinePreviewInput.frames
  split_ifs with hzero
  · exact one_pos
  · have hquot : 0 ≤ ⌊(input.duration : ℚ) / input.interval⌋ := by
      apply Int.floor_nonneg.mpr
      have hd := duration_nonneg input
      have hi := interval_pos input
      positivity
    exact lt_min (lt_of_lt_of_le one_pos (le_max_left _ _)) (by omega)

theorem frames_le : input.frames ≤ input.tileLimit := by
  unfold PlanTimelinePreviewInput.frames
  split_ifs
  · exact le_max_left _ _
  · exact min_le_left _ _

theorem frames_eq (hroom : 2 ≤ input.tileLimit ∨ input.duration < input.leastInterval) :
    input.frames = ⌊(input.duration : ℚ) / input.interval⌋ + 1 := by
  have hi : (0 : ℚ) < input.interval := by exact_mod_cast interval_pos input
  have hd := duration_nonneg input
  unfold PlanTimelinePreviewInput.frames
  split_ifs with hzero
  · rw [show input.duration = 0 by omega]
    simp
  apply min_eq_right
  rcases hroom with hlimit | hshort
  · -- the interval is at least the duration over one tile less than the limit
    have hcap : (input.duration : ℚ) / ((input.tileLimit - 1 : ℤ) : ℚ) ≤ input.interval := by
      have hceil := Int.le_ceil ((input.duration : ℚ) / (max 1 (input.tileLimit - 1) : ℤ))
      rw [max_eq_right (by omega)] at hceil
      refine hceil.trans ?_
      unfold PlanTimelinePreviewInput.interval
      rw [max_eq_right (show 1 ≤ input.tileLimit - 1 by omega)]
      dsimp only
      split_ifs with hnone
      · rw [hnone, max_self]
        exact_mod_cast zero_le_one.trans (le_max_left _ _)
      · exact_mod_cast le_max_right _ _
    have hone : (0 : ℚ) < (input.tileLimit - 1 : ℤ) := by exact_mod_cast (by omega)
    have hle : (input.duration : ℚ) / input.interval ≤ (input.tileLimit - 1 : ℤ) := by
      rw [div_le_iff₀ hi, mul_comm]
      exact (div_le_iff₀ hone).mp hcap
    have hfloor : ⌊(input.duration : ℚ) / input.interval⌋ ≤ input.tileLimit - 1 := by
      exact_mod_cast (Int.floor_le _).trans hle
    omega
  · have hlt : (input.duration : ℚ) / input.interval < 1 := by
      rw [div_lt_one hi]
      exact_mod_cast hshort.trans_le (leastInterval_le input)
    have hfloor : ⌊(input.duration : ℚ) / input.interval⌋ < 1 := by
      exact_mod_cast (Int.floor_le _).trans_lt hlt
    have hleast : 1 ≤ input.tileLimit := le_max_left _ _
    omega

theorem lt_duration {s : ℚ} (hs : s ≤ input.durationSeconds.getD 0) : s < input.duration + 1 := by
  unfold PlanTimelinePreviewInput.duration
  split_ifs with hpos
  · exact hs.trans_lt (Int.lt_floor_add_one _)
  · push_cast
    linarith

/-- A second of the recording lies before the end of the last tile. -/
theorem floor_lt_frames {s : ℚ} (hs : s ≤ input.durationSeconds.getD 0)
    (hroom : 2 ≤ input.tileLimit ∨ input.duration < input.leastInterval) :
    ⌊s / input.interval⌋ < input.frames := by
  have hi : (0 : ℚ) < input.interval := by exact_mod_cast interval_pos input
  rw [frames_eq input hroom, Int.lt_add_one_iff, Int.le_floor, le_div_iff₀ hi]
  have hbelow : (⌊s / input.interval⌋ : ℚ) * input.interval ≤ s :=
    (le_div_iff₀ hi).mp (Int.floor_le _)
  -- both sides are whole, so what is below `s` is not above its whole seconds
  have hwhole : ⌊s / input.interval⌋ * input.interval < input.duration + 1 := by
    exact_mod_cast hbelow.trans_lt (lt_duration input hs)
  exact_mod_cast Int.lt_add_one_iff.mp hwhole

/-! ## The sprite -/

theorem columns_pos : 0 < (planTimelinePreview input).columns :=
  lt_min (lt_of_lt_of_le one_pos (le_max_left _ _)) (frames_pos input)

theorem frames_le_grid :
    input.frames ≤ (planTimelinePreview input).columns * (planTimelinePreview input).rows := by
  have hc : (0 : ℚ) < (planTimelinePreview input).columns := by exact_mod_cast columns_pos input
  have hceil : (input.frames : ℚ) / (planTimelinePreview input).columns
      ≤ (planTimelinePreview input).rows := Int.le_ceil _
  rw [div_le_iff₀ hc, mul_comm] at hceil
  exact_mod_cast hceil

theorem row_filled {row : ℤ} (hrow : row < (planTimelinePreview input).rows) :
    row * (planTimelinePreview input).columns < input.frames := by
  have hc : (0 : ℚ) < (planTimelinePreview input).columns := by exact_mod_cast columns_pos input
  have hlt : (row : ℚ) < input.frames / (planTimelinePreview input).columns := Int.lt_ceil.mp hrow
  rw [lt_div_iff₀ hc] at hlt
  exact_mod_cast hlt

theorem rows_pos : 0 < (planTimelinePreview input).rows := by
  by_contra hnone
  have hgrid := frames_le_grid input
  have hframes := frames_pos input
  have hcolumns := columns_pos input
  nlinarith [not_lt.mp hnone]

theorem index_range (second : Option ℚ) :
    0 ≤ (locateTileAtSecond (planTimelinePreview input) second).index
      ∧ (locateTileAtSecond (planTimelinePreview input) second).index < input.frames := by
  have hframes := frames_pos input
  simp only [locateTileAtSecond, planTimelinePreview]
  omega

theorem percent_place {place count : ℤ} (hplace : 0 ≤ place) (hlt : place < count) :
    (if 1 < count then (place : ℚ) / (count - 1) * 100 else 0) / 100 * ((count * 100 : ℚ) / 100 - 1)
      = place := by
  split_ifs with hmany
  · have hne : (count : ℚ) - 1 ≠ 0 := by
      have hgt : (1 : ℚ) < count := by exact_mod_cast hmany
      linarith
    field_simp
  · rw [show place = 0 by omega]
    simp

/-- The client finds the tile the server finds, and its style shows that one. -/
theorem client_agrees (recordingId : String) (durationSeconds : Option ℚ) (second : Option ℚ) :
    let plan := planTimelinePreview input
    let info := metaOf recordingId durationSeconds plan
    let tile := locateTileAtSecond plan second
    (webLocateTileAtSecond info second).column = tile.column
      ∧ (webLocateTileAtSecond info second).row = tile.row
      ∧ (spriteTileStyle info second).column = tile.column
      ∧ (spriteTileStyle info second).row = tile.row := by
  intro plan info tile
  have hc : 0 < plan.columns := columns_pos input
  have hr : 0 < plan.rows := rows_pos input
  have hi : 0 < plan.intervalSeconds := interval_pos input
  obtain ⟨hlow, hhigh⟩ := index_range input second
  have hweb : webLocateTileAtSecond info second = ⟨tile.index, tile.column, tile.row⟩ := by
    simp only [webLocateTileAtSecond, info, metaOf, if_pos hi, if_pos hc]
    rfl
  have hcolumn : 0 ≤ tile.column ∧ tile.column < plan.columns :=
    ⟨Int.emod_nonneg _ hc.ne', Int.emod_lt_of_pos _ hc⟩
  have hrow : 0 ≤ tile.row ∧ tile.row < plan.rows :=
    ⟨Int.ediv_nonneg hlow hc.le, Int.ediv_lt_of_lt_mul hc
      (hhigh.trans_le ((frames_le_grid input).trans (by rw [mul_comm])))⟩
  rw [hweb]
  refine ⟨rfl, rfl, ?_, ?_⟩
  · simp only [SpriteTileStyle.column, spriteTileStyle, hweb]
    simpa [info, metaOf, hc] using percent_place hcolumn.1 hcolumn.2
  · simp only [SpriteTileStyle.row, spriteTileStyle, hweb]
    simpa [info, metaOf, hr] using percent_place hrow.1 hrow.2

/-- What is promised of a preview. -/
structure PreviewCovers (input : PlanTimelinePreviewInput) : Prop where
  limit : (planTimelinePreview input).frameCount ≤ input.tileLimit
  grid : (planTimelinePreview input).frameCount
    ≤ (planTimelinePreview input).columns * (planTimelinePreview input).rows
  filled : ∀ row < (planTimelinePreview input).rows,
    row * (planTimelinePreview input).columns < (planTimelinePreview input).frameCount
  tile : ∀ s : ℚ, 0 ≤ s → s ≤ input.durationSeconds.getD 0 →
    let plan := planTimelinePreview input
    let k := (locateTileAtSecond plan (some s)).index
    k < plan.frameCount ∧ k * plan.intervalSeconds ≤ s ∧ s < (k + 1) * plan.intervalSeconds
  client : ∀ recordingId durationSeconds second,
    let plan := planTimelinePreview input
    let info := metaOf recordingId durationSeconds plan
    let tile := locateTileAtSecond plan second
    (webLocateTileAtSecond info second).column = tile.column
      ∧ (webLocateTileAtSecond info second).row = tile.row
      ∧ (spriteTileStyle info second).column = tile.column
      ∧ (spriteTileStyle info second).row = tile.row

/-- The sprite covers the recording exactly where more than one tile is allowed or the least
interval is longer than the recording. -/
theorem preview_covers_iff (input : PlanTimelinePreviewInput) :
    PreviewCovers input ↔ 2 ≤ input.tileLimit ∨ input.duration < input.leastInterval := by
  have hi : (0 : ℚ) < input.interval := by exact_mod_cast interval_pos input
  constructor
  · intro hcovers
    by_contra hnone
    obtain ⟨hsingle, hlong⟩ := not_or.mp hnone
    have hleast : 1 ≤ input.tileLimit ∧ 1 ≤ input.leastInterval :=
      ⟨le_max_left _ _, le_max_left _ _⟩
    have hframes : input.frames = 1 := by
      have hle := frames_le input
      have hpos := frames_pos input
      omega
    have hinterval : input.interval = input.duration := by
      unfold PlanTimelinePreviewInput.interval
      rw [show max 1 (input.tileLimit - 1) = 1 by omega]
      simp only [Int.cast_one, div_one, Int.ceil_intCast]
      rw [if_neg (by omega), max_eq_right (by omega)]
    have hpositive : 0 < input.durationSeconds.getD 0 := by
      by_contra hnot
      have hzero : input.duration = 0 := if_neg hnot
      omega
    have hwhole : (input.duration : ℚ) ≤ input.durationSeconds.getD 0 := by
      rw [PlanTimelinePreviewInput.duration, if_pos hpositive]
      exact Int.floor_le _
    -- the last whole second is where a second tile would begin
    obtain ⟨hk, -, hlast⟩ := hcovers.tile input.duration
      (by exact_mod_cast duration_nonneg input) hwhole
    have hindex := index_range input (some (input.duration : ℚ))
    have hzero : (locateTileAtSecond (planTimelinePreview input) (some (input.duration : ℚ))).index
        = 0 := by omega
    rw [hzero] at hlast
    simp only [planTimelinePreview, hinterval, Int.cast_zero, zero_add, one_mul, lt_irrefl] at hlast
  · intro hroom
    refine ⟨frames_le input, frames_le_grid input, fun row => row_filled input, ?_,
      client_agrees input⟩
    intro s hs hle
    have hlt := floor_lt_frames input hle hroom
    have hfloor : 0 ≤ ⌊s / input.interval⌋ := Int.floor_nonneg.mpr (by positivity)
    have hindex : (locateTileAtSecond (planTimelinePreview input) (some s)).index
        = ⌊s / input.interval⌋ := by
      simp only [locateTileAtSecond, planTimelinePreview, safeSecond, Option.getD_some,
        max_eq_right hs, max_eq_right hfloor]
      omega
    simp only [hindex]
    exact ⟨hlt, (le_div_iff₀ hi).mp (Int.floor_le _), (div_lt_iff₀ hi).mp (Int.lt_floor_add_one _)⟩

/-- A minute in a sprite of one tile, which ends where the recording does. -/
theorem not_preview_covers : ¬ PreviewCovers { durationSeconds := some 60, maxTiles := some 1 } :=
  fun hcovers => absurd (hcovers.tile 60 (by norm_num) (by norm_num)).2.2 (by decide +kernel)

end Drac.Recordings
