import Drac.Playback.VodPlaylist

/-
  Which recordings of a camera the playlist and the export over an interval look at.

  Correspondence:
    `recording-process-manager.service.ts`   getExpectedSegmentSeconds,
        getMaxSegmentDurationSeconds ↔ the same names; registerSegment, the end it
        writes ↔ `clampDuration`, `registeredEnd`
    `recordings.service.ts`   the query that buildVodPlaylist and collectRangeSegments
        share ↔ `matching`, `findMany`; buildVodPlaylist, its `sources` ↔ `vodSources`;
        collectRangeSegments ↔ the same name

  An instant is its epoch milliseconds and seconds are exact. Where a file lies and how
  large it is comes from the disk, `none` for one that is missing, outside of the root or
  unreadable; its codecs come from the diagnostics or the probe.
-/

namespace Drac.Recordings

open Playback

/-! ## The recorder -/

/-- The configuration, within the bounds it is checked against. -/
structure LookbackSettings where
  /-- The length of a segment the recorder was started with. -/
  segmentSeconds : ℤ
  segmentSeconds_range : 5 ≤ segmentSeconds ∧ segmentSeconds ≤ 3600
  /-- `RECORDING_SEGMENT_SECONDS`, as the configuration has it. -/
  recordingSegmentSeconds : ℚ := 300
  /-- `RECORDING_MAX_SEGMENT_DURATION_SECONDS`. -/
  maxSegmentDurationSeconds : ℚ := 600
  /-- `VOD_PLAYLIST_LOOKBACK_MINUTES`. -/
  vodLookbackMinutes : ℚ := 60
  vodLookbackMinutes_range : 1 ≤ vodLookbackMinutes ∧ vodLookbackMinutes ≤ 360
  /-- `RECORDING_EXPORT_LOOKBACK_MINUTES`. -/
  exportLookbackMinutes : ℤ := 60
  exportLookbackMinutes_range : 1 ≤ exportLookbackMinutes ∧ exportLookbackMinutes ≤ 360

variable (settings : LookbackSettings)

def getExpectedSegmentSeconds : ℚ :=
  if 0 < settings.segmentSeconds then settings.segmentSeconds
  else if 0 < settings.recordingSegmentSeconds then settings.recordingSegmentSeconds
  else 300

def getMaxSegmentDurationSeconds : ℚ :=
  let base := if 0 < settings.maxSegmentDurationSeconds then settings.maxSegmentDurationSeconds
    else 600
  max base (getExpectedSegmentSeconds settings * 2)

def clampDuration (durationSecondsExact : ℚ) : ℚ :=
  if getMaxSegmentDurationSeconds settings < durationSecondsExact then
    getExpectedSegmentSeconds settings
  else durationSecondsExact

def registeredEnd (startedAt : ℤ) (durationSecondsExact : ℚ) : ℤ :=
  dateMs (startedAt + clampDuration settings durationSecondsExact * 1000)

structure RecordingRow where
  id : RecordingId
  cameraId : String
  startedAt : ℤ
  endedAt : Option ℤ
  durationSeconds : Option ℤ
  filePath : String

/-- Started on the second its file is named after, since 1970, and still open or closed by a
registration, whose probe has found a duration. -/
structure Registrable (row : RecordingRow) : Prop where
  starts : 1000 ∣ row.startedAt ∧ 0 ≤ row.startedAt
  ends : ∀ endedAt, row.endedAt = some endedAt → ∃ durationSecondsExact, 0 < durationSecondsExact
    ∧ endedAt = registeredEnd settings row.startedAt durationSecondsExact

/-- No registration ends a recording later than the ceiling does. -/
def latestEnd (startedAt : ℤ) : ℤ := dateMs (startedAt + getMaxSegmentDurationSeconds settings * 1000)

/-! ## The readers -/

/-- What the disk and the probe say of a recording. -/
structure RecordingDisk where
  /-- The absolute path of a recording and its size. -/
  locate : String → Option (String × ℕ)
  videoCodec : RecordingId → String → Option String
  audioCodec : RecordingId → String → Option String
  durationMs : RecordingId → String → Option ℤ
  /-- The codec of the diagnostics, which the playlist takes without a probe. -/
  cachedCodec : RecordingId → Option String

variable (disk : RecordingDisk) (table : List RecordingRow) (cameraId : String)

def matching (lookbackStart fromMs toMs : ℤ) : List RecordingRow :=
  table.filter fun row => row.cameraId = cameraId
    ∧ lookbackStart ≤ row.startedAt ∧ row.startedAt ≤ toMs
    ∧ ∀ endedAt ∈ row.endedAt, fromMs ≤ endedAt

def findMany (lookbackStart fromMs toMs : ℤ) : List RecordingRow :=
  ((matching table cameraId lookbackStart fromMs toMs).mergeSort
    fun a b => a.startedAt ≤ b.startedAt).take 5000

def vodLookbackStart (fromMs : ℤ) : ℤ := dateMs (fromMs - settings.vodLookbackMinutes * 60 * 1000)

def exportLookbackStart (fromMs : ℤ) : ℤ :=
  dateMs (fromMs - settings.exportLookbackMinutes * 60000)

def vodSourceOf (row : RecordingRow) : VodSourceSegment where
  id := row.id
  startedAt := some row.startedAt
  endedAt := row.endedAt
  durationMs := row.durationSeconds.map (· * 1000)
  codec := disk.cachedCodec row.id

def vodSources (fromMs toMs : ℤ) : List VodSourceSegment :=
  (findMany table cameraId (vodLookbackStart settings fromMs) fromMs toMs).filterMap fun row =>
    (disk.locate row.filePath).bind fun found =>
      if found.2 ≤ 1024 then none else some (vodSourceOf disk row)

def rangeSourceOf (row : RecordingRow) (absolutePath : String) : RangeSourceSegment where
  id := row.id.text
  filePath := absolutePath
  startedAt := some row.startedAt
  endedAt := row.endedAt
  durationMs := (row.durationSeconds.map (· * 1000)).or (disk.durationMs row.id absolutePath)
  videoCodec := disk.videoCodec row.id absolutePath
  audioCodec := disk.audioCodec row.id absolutePath

def collectRangeSegments (fromMs toMs : ℤ) : List RangeSourceSegment :=
  (findMany table cameraId (exportLookbackStart settings fromMs) fromMs toMs).filterMap fun row =>
    (disk.locate row.filePath).bind fun found =>
      if found.2 ≤ 0 then none else some (rangeSourceOf disk row found.1)

/-! ## What they see -/

variable {table cameraId} {lookbackStart fromMs toMs : ℤ} {row : RecordingRow}

theorem mem_matching : row ∈ matching table cameraId lookbackStart fromMs toMs ↔
    row ∈ table ∧ row.cameraId = cameraId ∧ lookbackStart ≤ row.startedAt ∧ row.startedAt ≤ toMs
      ∧ ∀ endedAt ∈ row.endedAt, fromMs ≤ endedAt := by
  simp [matching]

theorem findMany_lookback (hfound : row ∈ findMany table cameraId lookbackStart fromMs toMs) :
    lookbackStart ≤ row.startedAt := by
  have hsorted := List.mem_of_mem_take hfound
  rw [List.mem_mergeSort, mem_matching] at hsorted
  exact hsorted.2.2.1

theorem mem_findMany (hfew : (matching table cameraId lookbackStart fromMs toMs).length ≤ 5000) :
    row ∈ findMany table cameraId lookbackStart fromMs toMs ↔
      row ∈ matching table cameraId lookbackStart fromMs toMs := by
  unfold findMany
  rw [List.take_of_length_le, List.mem_mergeSort]
  rwa [List.length_mergeSort]

/-- A recording of the camera that overlaps the interval and has a file worth playing; one
still open reaches as far as its registration may say. -/
structure OverlapsWithFile (cameraId : String) (fromMs toMs : ℤ) (row : RecordingRow)
    (absolutePath : String) : Prop where
  camera : row.cameraId = cameraId
  starts : row.startedAt < toMs
  ends : ∀ endedAt ∈ row.endedAt, fromMs < endedAt
  open_ends : row.endedAt = none → fromMs < latestEnd settings row.startedAt
  file : ∃ size, disk.locate row.filePath = some (absolutePath, size) ∧ 1024 < size

/-- Both readers hand every overlapping recording on. -/
def EveryOverlapSeen (table : List RecordingRow) (cameraId : String) (fromMs toMs : ℤ) : Prop :=
  ∀ row ∈ table, ∀ path, OverlapsWithFile settings disk cameraId fromMs toMs row path →
    vodSourceOf disk row ∈ vodSources settings disk table cameraId fromMs toMs
      ∧ rangeSourceOf disk row path ∈ collectRangeSegments settings disk table cameraId fromMs toMs

variable {settings disk} {path : String}

theorem vodSources_lookback
    (hseen : vodSourceOf disk row ∈ vodSources settings disk table cameraId fromMs toMs) :
    vodLookbackStart settings fromMs ≤ row.startedAt := by
  simp only [vodSources, List.mem_filterMap, Option.bind_eq_some_iff] at hseen
  obtain ⟨other, hother, found, -, hkept⟩ := hseen
  split at hkept
  · simp at hkept
  -- another row may be handed on the same, but not with another start
  have hstart := congrArg VodSourceSegment.startedAt (Option.some.inj hkept)
  have hle := findMany_lookback hother
  simp only [vodSourceOf, Option.some.injEq] at hstart
  omega

theorem collectRangeSegments_lookback (hseen : rangeSourceOf disk row path ∈
      collectRangeSegments settings disk table cameraId fromMs toMs) :
    exportLookbackStart settings fromMs ≤ row.startedAt := by
  simp only [collectRangeSegments, List.mem_filterMap, Option.bind_eq_some_iff] at hseen
  obtain ⟨other, hother, found, -, hkept⟩ := hseen
  split at hkept
  · simp at hkept
  have hstart := congrArg RangeSourceSegment.startedAt (Option.some.inj hkept)
  have hle := findMany_lookback hother
  simp only [rangeSourceOf, Option.some.injEq] at hstart
  omega

theorem OverlapsWithFile.matches (hrow : row ∈ table)
    (hover : OverlapsWithFile settings disk cameraId fromMs toMs row path)
    (hstart : lookbackStart ≤ row.startedAt) :
    row ∈ matching table cameraId lookbackStart fromMs toMs :=
  mem_matching.mpr ⟨hrow, hover.camera, hstart, hover.starts.le,
    fun endedAt hended => (hover.ends endedAt hended).le⟩

theorem seen_of_lookback (table : List RecordingRow)
    (hvod : (matching table cameraId (vodLookbackStart settings fromMs) fromMs toMs).length ≤ 5000)
    (hexport :
      (matching table cameraId (exportLookbackStart settings fromMs) fromMs toMs).length ≤ 5000)
    (hstarts : ∀ row ∈ table, ∀ path, OverlapsWithFile settings disk cameraId fromMs toMs row path →
      vodLookbackStart settings fromMs ≤ row.startedAt
        ∧ exportLookbackStart settings fromMs ≤ row.startedAt) :
    EveryOverlapSeen settings disk table cameraId fromMs toMs := by
  intro row hrow path hover
  obtain ⟨hvodStart, hexportStart⟩ := hstarts row hrow path hover
  obtain ⟨size, hlocate, hsize⟩ := hover.file
  have hplaylist := (mem_findMany hvod).mpr (hover.matches hrow hvodStart)
  have hclip := (mem_findMany hexport).mpr (hover.matches hrow hexportStart)
  constructor
  · simp only [vodSources, List.mem_filterMap]
    exact ⟨row, hplaylist, by simp [hlocate, hsize]⟩
  · simp only [collectRangeSegments, List.mem_filterMap]
    exact ⟨row, hclip, by simp [hlocate, show size ≠ 0 by omega]⟩

/-! ## The ceiling and the look-backs -/

/-- Whatever the recorder has registered and whatever is asked for, within the limit of the
queries. -/
def SeesEveryOverlap (settings : LookbackSettings) : Prop :=
  ∀ (disk : RecordingDisk) (table : List RecordingRow) (cameraId : String) (fromMs toMs : ℤ),
    fromMs < toMs → (∀ row ∈ table, Registrable settings row) →
    (matching table cameraId (vodLookbackStart settings fromMs) fromMs toMs).length ≤ 5000 →
    (matching table cameraId (exportLookbackStart settings fromMs) fromMs toMs).length ≤ 5000 →
    EveryOverlapSeen settings disk table cameraId fromMs toMs

/-- From 1970 on a Date is at or before another instant exactly if it is not a whole
millisecond after it. -/
theorem dateMs_le_iff {x : ℚ} {k : ℤ} (hk : 0 ≤ k) : dateMs x ≤ k ↔ x < k + 1 := by
  unfold dateMs
  split
  · rw [← Int.lt_add_one_iff, Int.floor_lt, Int.cast_add, Int.cast_one]
  next hneg =>
    have hcast : (0 : ℚ) ≤ k := by exact_mod_cast hk
    rw [Int.ceil_le]
    constructor <;> intro <;> linarith

theorem latestEnd_eq (hpos : 0 ≤ getMaxSegmentDurationSeconds settings) {startedAt : ℤ}
    (hstart : 0 ≤ startedAt) : latestEnd settings startedAt =
      startedAt + ⌊getMaxSegmentDurationSeconds settings * 1000⌋ := by
  have hcast : (0 : ℚ) ≤ startedAt := by exact_mod_cast hstart
  rw [latestEnd, dateMs, if_pos (by linarith), Int.floor_intCast_add]

section

variable (settings)

theorem expected_pos : 0 < getExpectedSegmentSeconds settings := by
  have hpos : 0 < settings.segmentSeconds := lt_of_lt_of_le (by decide) settings.segmentSeconds_range.1
  rw [getExpectedSegmentSeconds, if_pos hpos]
  exact_mod_cast hpos

theorem expected_le_max :
    getExpectedSegmentSeconds settings * 2 ≤ getMaxSegmentDurationSeconds settings := le_max_right _ _

theorem max_pos : 0 < getMaxSegmentDurationSeconds settings := by
  linarith [expected_le_max settings, expected_pos settings]

theorem ceiling_nonneg : 0 ≤ ⌊getMaxSegmentDurationSeconds settings * 1000⌋ :=
  Int.floor_nonneg.mpr (by linarith [max_pos settings])

theorem clampDuration_le (d : ℚ) :
    clampDuration settings d ≤ getMaxSegmentDurationSeconds settings := by
  unfold clampDuration
  split
  · linarith [expected_le_max settings, expected_pos settings]
  next h => exact not_lt.mp h

end

/-- The interval of an overlapping recording begins before the latest end of it. -/
theorem from_lt_latestEnd (hrow : Registrable settings row)
    (hover : OverlapsWithFile settings disk cameraId fromMs toMs row path) :
    fromMs < row.startedAt + ⌊getMaxSegmentDurationSeconds settings * 1000⌋ := by
  cases hended : row.endedAt with
  | none =>
    rw [← latestEnd_eq (max_pos settings).le hrow.starts.2]
    exact hover.open_ends hended
  | some endedAt =>
    obtain ⟨d, -, rfl⟩ := hrow.ends endedAt hended
    refine (hover.ends _ hended).trans_le ?_
    rw [registeredEnd, dateMs_le_iff (Int.add_nonneg hrow.starts.2 (ceiling_nonneg settings)),
      Int.cast_add]
    linarith [clampDuration_le settings d,
      Int.lt_floor_add_one (getMaxSegmentDurationSeconds settings * 1000)]

/-- A look-back reaches back to an instant exactly from within a millisecond of it. -/
theorem lookback_le_iff (lookbackMs : ℚ) {startedAt : ℤ} (hstart : 0 ≤ startedAt) :
    dateMs (fromMs - lookbackMs) ≤ startedAt ↔ (fromMs : ℚ) < startedAt + (lookbackMs + 1) := by
  rw [dateMs_le_iff hstart]
  constructor <;> intro h <;> linarith

/-- Where the ceiling, in whole milliseconds, is less than two above the look-back, the
look-back reaches an overlapping recording. -/
theorem start_in_lookback {lookbackMs : ℚ}
    (hceiling : ⌊getMaxSegmentDurationSeconds settings * 1000⌋ < lookbackMs + 2)
    (hrow : Registrable settings row)
    (hover : OverlapsWithFile settings disk cameraId fromMs toMs row path) :
    dateMs (fromMs - lookbackMs) ≤ row.startedAt := by
  rw [lookback_le_iff lookbackMs hrow.starts.2]
  have hfrom := from_lt_latestEnd hrow hover
  have hcast : (fromMs : ℚ) ≤ row.startedAt + ⌊getMaxSegmentDurationSeconds settings * 1000⌋ - 1 := by
    exact_mod_cast Int.le_sub_one_of_lt hfrom
  linarith

/-- A recording as long as the ceiling lets it be. -/
def longest (settings : LookbackSettings) : RecordingRow where
  id := { text := "r1", nonempty := by decide, trimmed := by decide }
  cameraId := "cam1"
  startedAt := 36000000
  endedAt := some (registeredEnd settings 36000000 (getMaxSegmentDurationSeconds settings))
  durationSeconds := none
  filePath := "cam1/1970-01-01_10-00-00.mp4"

def hourlyDisk : RecordingDisk where
  locate _ := some ("/rec/cam1/1970-01-01_10-00-00.mp4", 200000000)
  videoCodec _ _ := some "h264"
  audioCodec _ _ := none
  durationMs _ _ := none
  cachedCodec _ := none

theorem longest_registrable : Registrable settings (longest settings) where
  starts := show 1000 ∣ (36000000 : ℤ) ∧ (0 : ℤ) ≤ 36000000 by decide
  ends := fun _ h => ⟨_, max_pos settings, (Option.some.inj h).symm⟩

theorem longest_overlaps (hfrom : fromMs =
      36000000 + ⌊getMaxSegmentDurationSeconds settings * 1000⌋ - 1) :
    OverlapsWithFile settings hourlyDisk "cam1" fromMs (fromMs + 100000) (longest settings)
      "/rec/cam1/1970-01-01_10-00-00.mp4" := by
  have hfloor := ceiling_nonneg settings
  have hend : registeredEnd settings 36000000 (getMaxSegmentDurationSeconds settings) =
      36000000 + ⌊getMaxSegmentDurationSeconds settings * 1000⌋ := by
    rw [registeredEnd, clampDuration, if_neg (lt_irrefl _)]
    exact latestEnd_eq (max_pos settings).le (by decide)
  refine ⟨rfl, ?_, ?_, nofun, 200000000, rfl, by decide⟩
  · show (36000000 : ℤ) < fromMs + 100000
    omega
  · rintro endedAt ⟨⟩
    rw [hend]
    omega

variable (settings) in
/-- Both readers see every overlapping recording exactly where the ceiling of the recorder is
within both look-backs, by less than two milliseconds above them. -/
theorem every_overlap_seen_iff : SeesEveryOverlap settings ↔
    ⌊getMaxSegmentDurationSeconds settings * 1000⌋ < settings.vodLookbackMinutes * 60 * 1000 + 2
      ∧ ⌊getMaxSegmentDurationSeconds settings * 1000⌋
        < (settings.exportLookbackMinutes * 60000 + 2 : ℚ) := by
  constructor
  · intro hsees
    obtain ⟨fromMs, hfrom⟩ : ∃ fromMs : ℤ,
        fromMs = 36000000 + ⌊getMaxSegmentDurationSeconds settings * 1000⌋ - 1 := ⟨_, rfl⟩
    have hcast : (fromMs : ℚ) =
        36000000 + ⌊getMaxSegmentDurationSeconds settings * 1000⌋ - 1 := by exact_mod_cast hfrom
    obtain ⟨hplaylist, hclip⟩ := hsees hourlyDisk [longest settings] "cam1" fromMs (fromMs + 100000)
      (by omega) (fun row hrow => by rw [List.mem_singleton.mp hrow]; exact longest_registrable)
      ((List.length_filter_le ..).trans (by simp)) ((List.length_filter_le ..).trans (by simp))
      _ (List.mem_singleton_self _) _ (longest_overlaps hfrom)
    have hstart : 0 ≤ (longest settings).startedAt := longest_registrable.starts.2
    have hvod := (lookback_le_iff _ hstart).mp (vodSources_lookback hplaylist)
    have hexport := (lookback_le_iff _ hstart).mp (collectRangeSegments_lookback hclip)
    have hten : ((longest settings).startedAt : ℚ) = 36000000 := by norm_num [longest]
    constructor <;> linarith
  · rintro ⟨hvod, hexport⟩ disk table cameraId fromMs toMs - hregistrable hfew hfewExport
    refine seen_of_lookback table hfew hfewExport (fun row hrow path hover => ?_)
    exact ⟨start_in_lookback hvod (hregistrable row hrow) hover,
      start_in_lookback hexport (hregistrable row hrow) hover⟩

/-- The settings of an installation that sets none of them. -/
def defaultSettings : LookbackSettings where
  segmentSeconds := 300
  segmentSeconds_range := by decide
  vodLookbackMinutes_range := by norm_num
  exportLookbackMinutes_range := by decide

theorem every_overlap_seen_default : SeesEveryOverlap defaultSettings := by
  have hmax : getMaxSegmentDurationSeconds defaultSettings = 600 := by decide +kernel
  rw [every_overlap_seen_iff, hmax]
  norm_num [defaultSettings]

def hourlySettings : LookbackSettings where
  segmentSeconds := 3600
  segmentSeconds_range := by decide
  vodLookbackMinutes_range := by norm_num
  exportLookbackMinutes_range := by decide

/-- Started at ten o'clock and closed on the first key frame after eleven. -/
def hourlyRow : RecordingRow :=
  { longest hourlySettings with endedAt := some (registeredEnd hourlySettings 36000000 3602) }

/-- Asked from the last second of the recording on, it is further back than the query looks,
though no segment of an hour is kept from running over by two seconds. -/
theorem not_every_overlap_seen : ¬ SeesEveryOverlap hourlySettings := by
  have hover : OverlapsWithFile hourlySettings hourlyDisk "cam1" 39601000 39701000 hourlyRow
      "/rec/cam1/1970-01-01_10-00-00.mp4" :=
    { camera := rfl
      starts := by decide
      ends := by decide +kernel
      open_ends := nofun
      file := ⟨200000000, rfl, by decide⟩ }
  have hregistrable : Registrable hourlySettings hourlyRow :=
    ⟨by decide, fun _ hended => ⟨3602, by norm_num, (Option.some.inj hended).symm⟩⟩
  intro hsees
  have hseen := hsees hourlyDisk [hourlyRow] "cam1" 39601000 39701000 (by decide)
    (fun row hrow => by rw [List.mem_singleton.mp hrow]; exact hregistrable)
    ((List.length_filter_le ..).trans (by decide)) ((List.length_filter_le ..).trans (by decide))
  have hlate := vodSources_lookback (hseen hourlyRow (List.mem_singleton_self _) _ hover).1
  exact absurd hlate (by decide +kernel)

end Drac.Recordings
