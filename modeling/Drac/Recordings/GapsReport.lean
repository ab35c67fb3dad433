import Mathlib.Algebra.Ring.Int.Defs
import Mathlib.Data.List.Sort
import Mathlib.Order.Interval.Set.Defs
import Drac.Lib.IntervalSets

/-
  The report of what a camera did not record in a day.

  Correspondence (`recordings.service.ts` ↔ Lean):
    getRecordingGapsReport   ↔ `getRecordingGapsReport`: its query `query`, the reading of a
                               row `segmentOf`, the loop that merges `IntervalSets.fuse` and
                               the one that finds the gaps `GapScan.scan`

  Instants are epoch milliseconds, and the ISO text of an instant is the instant. The day is
  given by its two ends, as the time zone of the server makes them. Rows that begin together
  come in the order of the table.

  The query asks for rows that begin within the day, the first 2000 of them, so that a
  recording that runs over midnight is taken for a gap (`gaps_hide_midnight`). `gaps_truthful`
  says which days are reported as they were.
-/

namespace Drac.Recordings.Gaps

open GapScan IntervalSets

structure Recording where
  id : String
  cameraId : String
  filePath : String
  startedAt : Int
  endedAt : Option Int := none
  durationSeconds : Option Int := none
  deriving DecidableEq, Repr

/-- A day of the report, not empty. -/
structure Day where
  start : Int
  stop : Int
  filled : start < stop

structure GapsParams where
  cameraId : String
  day : Day
  accessibleCameraIds : Option (List String) := none

structure Gap where
  startAt : Int
  endAt : Int
  durationSeconds : Int
  deriving DecidableEq, Repr

structure GapsReport where
  date : Int
  cameraId : String
  totalSegments : Nat
  usableSegments : Nat
  totalGaps : Nat
  totalGapSeconds : Int
  gaps : List Gap
  deriving DecidableEq, Repr

inductive GapsError where
  /-- `Câmera não encontrada para este usuário.` -/
  | notFound
  /-- `ensureFileUnderRoot` refuses the path of a row. -/
  | outsideRoot (filePath : String)
  deriving DecidableEq, Repr

/-- What the disk says of a path. -/
structure Disk where
  underRoot : String → Bool
  existsFile : String → Bool

/-! ## The report -/

/-- `findMany`: the rows of the camera that begin within the day, by their beginnings. -/
def query (rows : List Recording) (p : GapsParams) : List Recording :=
  ((rows.filter (fun r => r.cameraId = p.cameraId ∧ p.day.start ≤ r.startedAt ∧
    r.startedAt ≤ p.day.stop)).insertionSort (fun a b => a.startedAt ≤ b.startedAt)).take 2000

/-- Where a recording ends: its end, else its duration where that is not zero. -/
def endMs (r : Recording) : Int :=
  match r.endedAt with
  | some endedAt => endedAt
  | none =>
    match r.durationSeconds with
    | some seconds => if seconds = 0 then r.startedAt else r.startedAt + seconds * 1000
    | none => r.startedAt

/-- What a row says was recorded, if its file is there and it is not empty. -/
def segmentOf (disk : Disk) (r : Recording) : Option (GapScan.Interval Int) :=
  if disk.underRoot r.filePath ∧ disk.existsFile r.filePath ∧ r.startedAt < endMs r then
    some (r.startedAt, endMs r)
  else none

/-- What the sort by `startMs` makes of the segments. -/
def usableSegments (disk : Disk) (records : List Recording) : List (GapScan.Interval Int) :=
  (records.filterMap (segmentOf disk)).insertionSort (fun a b => a.1 ≤ b.1)

/-- At least a whole second. -/
def isGap (a b : Int) : Bool := a < b && 0 < (b - a) / 1000

def toGap (i : GapScan.Interval Int) : Gap where
  startAt := i.1
  endAt := i.2
  durationSeconds := (i.2 - i.1) / 1000

def getRecordingGapsReport (disk : Disk) (rows : List Recording) (p : GapsParams) :
    Except GapsError GapsReport :=
  if p.accessibleCameraIds.any (fun ids => p.cameraId ∉ ids) then .error .notFound
  else
    let records := query rows p
    match records.find? (fun r => !disk.underRoot r.filePath) with
    | some r => .error (.outsideRoot r.filePath)
    | none =>
      let merged := fuse (usableSegments disk records)
      let gaps := (scan isGap p.day.stop p.day.start merged).map toGap
      .ok {
        date := p.day.start
        cameraId := p.cameraId
        totalSegments := records.length
        usableSegments := merged.length
        totalGaps := gaps.length
        totalGapSeconds := (gaps.map (·.durationSeconds)).sum
        gaps := gaps.take 240 }

/-! ## The property -/

/-- What the camera recorded of use, whenever it began. -/
def recorded (disk : Disk) (rows : List Recording) (cameraId : String) :
    List (GapScan.Interval Int) :=
  (rows.filter (fun r => r.cameraId = cameraId)).filterMap (segmentOf disk)

def Gap.interval (g : Gap) : GapScan.Interval Int := (g.startAt, g.endAt)

def Day.Holds (day : Day) (x : Int) : Prop := day.start ≤ x ∧ x < day.stop

/-- The instant lies in a hole between recordings that is shorter than a second. -/
def InHole (day : Day) (segments : List (GapScan.Interval Int)) (x : Int) : Prop :=
  ∃ h, Hole isGap day.start day.stop segments h ∧ h.Holds x

/-- What a report of the gaps is to say. -/
structure Truthful (disk : Disk) (rows : List Recording) (p : GapsParams) (report : GapsReport) :
    Prop where
  sorted : report.gaps.Pairwise (fun g g' => g.endAt ≤ g'.startAt)
  within : ∀ g ∈ report.gaps, p.day.start ≤ g.startAt ∧ g.startAt < g.endAt ∧ g.endAt ≤ p.day.stop
  empty : ∀ g ∈ report.gaps, ∀ x, g.interval.Holds x → ¬ Covers (recorded disk rows p.cameraId) x
  complete : ∀ x, p.day.Holds x → (∀ g ∈ report.gaps, ¬ g.interval.Holds x) →
    Covers (recorded disk rows p.cameraId) x ∨ InHole p.day (recorded disk rows p.cameraId) x

/-! ## The condition -/

/-- What the report looks at of the day's rows. -/
def loaded (disk : Disk) (rows : List Recording) (p : GapsParams) : List (GapScan.Interval Int) :=
  usableSegments disk (query rows p)

/-- A whole stretch of the day, of a second or more, that no segment meets. -/
structure Stretch (day : Day) (segments : List (GapScan.Interval Int)) (s : GapScan.Interval Int) :
    Prop where
  begins : s.1 = day.start ∨ ∃ i ∈ segments, s.1 = i.2
  ends : s.2 = day.stop ∨ ∃ i ∈ segments, s.2 = i.1
  within : day.start ≤ s.1 ∧ s.2 ≤ day.stop
  apart : ∀ i ∈ segments, s.2 ≤ i.1 ∨ i.2 ≤ s.1
  long : isGap s.1 s.2 = true

/-- There are no more than 240 stretches. -/
def FewStretches (day : Day) (segments : List (GapScan.Interval Int)) : Prop :=
  ∀ ss : List (GapScan.Interval Int), ss.Nodup → (∀ s ∈ ss, Stretch day segments s) →
    ss.length ≤ 240

/-- What the camera recorded of the day, the rows that begin within it say, but for holes
shorter than a second. -/
def NoneMissed (disk : Disk) (rows : List Recording) (p : GapsParams) : Prop :=
  ∀ x, p.day.Holds x → Covers (recorded disk rows p.cameraId) x →
    Covers (loaded disk rows p) x ∨ InHole p.day (loaded disk rows p) x

/-! ## Stretches and holes -/

theorem isGap_iff {a b : Int} : isGap a b = true ↔ 1000 ≤ b - a := by
  rw [isGap, Bool.and_eq_true, decide_eq_true_eq, decide_eq_true_eq]
  omega

theorem isGap_lt (a b : Int) (h : isGap a b = true) : a < b := by
  rw [isGap_iff] at h
  omega

/-- A whole stretch of the day between segments holds every interval of the day that it meets
and no segment does. -/
theorem stretch_within {day : Day} {segments : List (GapScan.Interval Int)}
    {h g : GapScan.Interval Int} {x : Int}
    (hfilled : ∀ i ∈ segments, i.1 < i.2)
    (hbegins : h.1 = day.start ∨ ∃ i ∈ segments, h.1 = i.2)
    (hends : h.2 = day.stop ∨ ∃ i ∈ segments, h.2 = i.1)
    (hday : day.start ≤ g.1 ∧ g.2 ≤ day.stop) (hapart : ∀ i ∈ segments, g.2 ≤ i.1 ∨ i.2 ≤ g.1)
    (hxh : h.Holds x) (hxg : g.Holds x) : h.1 ≤ g.1 ∧ g.2 ≤ h.2 := by
  constructor
  · by_contra hlt
    rcases hbegins with heq | ⟨i, hi, heq⟩
    · omega
    · have hi' := hfilled i hi
      have hx1 := hxh.1
      have hx2 := hxg.2
      rcases hapart i hi with hafter | hbefore
      · omega
      · omega
  · by_contra hlt
    rcases hends with heq | ⟨i, hi, heq⟩
    · omega
    · have hi' := hfilled i hi
      have hx1 := hxg.1
      have hx2 := hxh.2
      rcases hapart i hi with hafter | hbefore
      · omega
      · omega

theorem not_inHole_of_long {day : Day} {segments : List (GapScan.Interval Int)}
    {g : GapScan.Interval Int} {x : Int}
    (hfilled : ∀ i ∈ segments, i.1 < i.2) (hday : day.start ≤ g.1 ∧ g.2 ≤ day.stop)
    (hapart : ∀ i ∈ segments, g.2 ≤ i.1 ∨ i.2 ≤ g.1) (hlong : isGap g.1 g.2 = true)
    (hxg : g.Holds x) : ¬ InHole day segments x := by
  rintro ⟨h, hhole, hxh⟩
  obtain ⟨hlo, hhi⟩ := stretch_within hfilled hhole.begins hhole.ends hday hapart hxh hxg
  have hwide : isGap h.1 h.2 = true := by
    rw [isGap_iff] at hlong ⊢
    omega
  rw [hhole.short] at hwide
  cases hwide

section Scanned

variable {day : Day} {segments : List (GapScan.Interval Int)}
  (hsorted : segments.Pairwise (fun i j => i.1 ≤ j.1)) (hfilled : ∀ i ∈ segments, i.1 < i.2)
  (hstarts : ∀ i ∈ segments, i.1 ≤ day.stop)

include hsorted hfilled hstarts

theorem fused_walk : ∃ is, scan isGap day.stop day.start (fuse segments) =
      scan isGap day.stop day.start is ∧ Walkable day.stop is ∧
    (∀ j ∈ is, (∃ i ∈ segments, j.1 = i.1) ∧ ∃ i ∈ segments, j.2 = i.2) ∧
    (∀ x, Covers is x → Covers segments x) ∧
    ∀ i ∈ segments, day.stop ≤ i.1 ∨ ∃ j ∈ is, j.1 ≤ i.1 ∧ i.2 ≤ j.2 := by
  obtain ⟨hapart, hcovers⟩ := fuse_spec hsorted hfilled
  have horder : (fuse segments).Pairwise (fun i j => i.1 ≤ j.1) := by
    refine hapart.sorted.imp_of_mem ?_
    intro i j hi _ hij
    exact ((hapart.filled i hi).trans hij).le
  have hbelow : ∀ j ∈ fuse segments, j.1 ≤ day.stop := by
    intro j hj
    obtain ⟨⟨i, hi, heq⟩, -⟩ := fuse_ends hj
    exact heq ▸ hstarts i hi
  refine ⟨(fuse segments).filter (fun j => j.1 < day.stop),
    scan_filter_below isGap_lt _ horder hbelow hapart.filled, ⟨?_, ?_, ?_⟩, ?_, ?_, ?_⟩
  · exact horder.sublist List.filter_sublist
  · intro j hj
    exact of_decide_eq_true (List.mem_filter.mp hj).2
  · intro j hj
    exact hapart.filled j (List.mem_filter.mp hj).1
  · intro j hj
    exact fuse_ends (List.mem_filter.mp hj).1
  · rintro x ⟨j, hj, hx⟩
    exact (hcovers x).mp ⟨j, (List.mem_filter.mp hj).1, hx⟩
  · intro i hi
    obtain ⟨j, hj, hlo, hhi⟩ := fuse_within hsorted hi
    by_cases hin : j.1 < day.stop
    · exact .inr ⟨j, List.mem_filter.mpr ⟨hj, decide_eq_true hin⟩, hlo, hhi⟩
    · exact .inl (by omega)

/-- **What the walk finds** are the stretches of a second or more. -/
theorem scan_stretch : ∀ g ∈ scan isGap day.stop day.start (fuse segments), Stretch day segments g := by
  obtain ⟨is, hscan, hwalk, hends, -, hwithin⟩ := fused_walk hsorted hfilled hstarts
  intro g hg
  rw [hscan] at hg
  obtain ⟨hlo, -, hhi, hlong, hapart⟩ := scan_gaps isGap_lt is hwalk g hg
  obtain ⟨hbegin, hend⟩ := scan_bounds is g hg
  refine ⟨?_, ?_, ⟨hlo, hhi⟩, ?_, hlong⟩
  · rcases hbegin with heq | ⟨j, hj, heq⟩
    · exact .inl heq
    · obtain ⟨-, i, hi, heq'⟩ := hends j hj
      exact .inr ⟨i, hi, heq.trans heq'⟩
  · rcases hend with heq | ⟨j, hj, heq⟩
    · exact .inl heq
    · obtain ⟨⟨i, hi, heq'⟩, -⟩ := hends j hj
      exact .inr ⟨i, hi, heq.trans heq'⟩
  · intro i hi
    rcases hwithin i hi with hlate | ⟨j, hj, hlo', hhi'⟩
    · exact .inl (hhi.trans hlate)
    · rcases hapart j hj with hbefore | hafter
      · exact .inl (hbefore.trans hlo')
      · exact .inr (hhi'.trans hafter)

/-- **The walk misses nothing** of the day. -/
theorem scan_complete {x : Int} (hx : day.Holds x) : Covers segments x ∨
    (∃ g ∈ scan isGap day.stop day.start (fuse segments), GapScan.Interval.Holds g x) ∨
      InHole day segments x := by
  obtain ⟨is, hscan, hwalk, hends, hcovers, hwithin⟩ := fused_walk hsorted hfilled hstarts
  rw [hscan]
  rcases scan_covers is hwalk x hx.1 hx.2 with hcovered | hgap | ⟨h, hhole, hxh⟩
  · exact .inl (hcovers x hcovered)
  · exact .inr (.inl hgap)
  · refine .inr (.inr ⟨h, ⟨?_, ?_, hhole.within, ?_, hhole.short⟩, hxh⟩)
    · rcases hhole.begins with heq | ⟨j, hj, heq⟩
      · exact .inl heq
      · obtain ⟨-, i, hi, heq'⟩ := hends j hj
        exact .inr ⟨i, hi, heq.trans heq'⟩
    · rcases hhole.ends with heq | ⟨j, hj, heq⟩
      · exact .inl heq
      · obtain ⟨⟨i, hi, heq'⟩, -⟩ := hends j hj
        exact .inr ⟨i, hi, heq.trans heq'⟩
    · intro i hi
      rcases hwithin i hi with hlate | ⟨j, hj, hlo', hhi'⟩
      · exact .inl (hhole.within.2.trans hlate)
      · rcases hhole.apart j hj with hbefore | hafter
        · exact .inl (hbefore.trans hlo')
        · exact .inr (hhi'.trans hafter)

theorem scan_apart : (scan isGap day.stop day.start (fuse segments)).Pairwise
    (fun g g' => g.2 ≤ g'.1) := by
  obtain ⟨is, hscan, hwalk, -⟩ := fused_walk hsorted hfilled hstarts
  rw [hscan]
  exact scan_sorted isGap_lt is hwalk

end Scanned

/-- A stretch is told by where it begins, so there are few of them between few segments. -/
theorem fewStretches_of_length {day : Day} {segments : List (GapScan.Interval Int)}
    (hfilled : ∀ i ∈ segments, i.1 < i.2) (hlength : segments.length < 240) :
    FewStretches day segments := by
  intro ss hnodup hstretch
  have hinj : ∀ s ∈ ss, ∀ s' ∈ ss, s.1 = s'.1 → s = s' := by
    intro s hs s' hs' heq
    have hs := hstretch s hs
    have hs' := hstretch s' hs'
    have hx : s.Holds s.1 := ⟨le_refl _, isGap_lt _ _ hs.long⟩
    have hx' : s'.Holds s.1 := ⟨heq ▸ le_refl _, heq ▸ isGap_lt _ _ hs'.long⟩
    have hle := (stretch_within hfilled hs'.begins hs'.ends hs.within hs.apart hx' hx).2
    have hge := (stretch_within hfilled hs.begins hs.ends hs'.within hs'.apart hx hx').2
    exact Prod.ext heq (le_antisymm hle hge)
  have hsub : ss.map (·.1) ⊆ day.start :: segments.map (·.2) := by
    intro x hx
    obtain ⟨s, hs, rfl⟩ := List.mem_map.mp hx
    rcases (hstretch s hs).begins with heq | ⟨i, hi, heq⟩
    · exact heq ▸ List.mem_cons_self
    · exact List.mem_cons_of_mem _ (List.mem_map.mpr ⟨i, hi, heq.symm⟩)
  have hle := (List.subperm_of_subset (hnodup.map_on hinj) hsub).length_le
  rw [List.length_map, List.length_cons, List.length_map] at hle
  omega

/-! ## What is loaded, and what was recorded -/

section Recorded

variable {disk : Disk} {rows : List Recording} {p : GapsParams}

theorem segmentOf_filled {r : Recording} {i : GapScan.Interval Int}
    (h : segmentOf disk r = some i) :
    i.1 = r.startedAt ∧ i.1 < i.2 := by
  unfold segmentOf at h
  split at h
  · next hused =>
    cases h
    exact ⟨rfl, hused.2.2⟩
  · cases h

theorem mem_query {r : Recording} (h : r ∈ query rows p) :
    r ∈ rows ∧ r.cameraId = p.cameraId ∧ r.startedAt ≤ p.day.stop := by
  have hmem := (List.mem_insertionSort _).mp (List.mem_of_mem_take h)
  obtain ⟨hrow, hin⟩ := List.mem_filter.mp hmem
  have hin := of_decide_eq_true hin
  exact ⟨hrow, hin.1, hin.2.2⟩

theorem mem_loaded {i : GapScan.Interval Int} (h : i ∈ loaded disk rows p) :
    i ∈ recorded disk rows p.cameraId ∧ i.1 ≤ p.day.stop := by
  have hmem := (List.mem_insertionSort _).mp h
  obtain ⟨r, hr, hof⟩ := List.mem_filterMap.mp hmem
  obtain ⟨hrow, hcamera, hstart⟩ := mem_query hr
  refine ⟨List.mem_filterMap.mpr ⟨r, ?_, hof⟩, ?_⟩
  · exact List.mem_filter.mpr ⟨hrow, decide_eq_true hcamera⟩
  · rw [(segmentOf_filled hof).1]
    exact hstart

theorem recorded_filled {cameraId : String} : ∀ i ∈ recorded disk rows cameraId, i.1 < i.2 := by
  intro i hi
  obtain ⟨r, -, hof⟩ := List.mem_filterMap.mp hi
  exact (segmentOf_filled hof).2

theorem loaded_sorted : (loaded disk rows p).Pairwise (fun i j => i.1 ≤ j.1) :=
  List.pairwise_insertionSort _ _

theorem loaded_filled : ∀ i ∈ loaded disk rows p, i.1 < i.2 :=
  fun i hi => recorded_filled i (mem_loaded hi).1

/-- Every instant of the day was recorded, or lies in a hole, or in a stretch of a second or
more in which nothing was. -/
theorem recorded_complete {x : Int} (hx : p.day.Holds x) :
    Covers (recorded disk rows p.cameraId) x ∨ InHole p.day (recorded disk rows p.cameraId) x ∨
      ∃ g, g.Holds x ∧ Stretch p.day (recorded disk rows p.cameraId) g := by
  -- those that begin within the day or before it, in order
  let early := ((recorded disk rows p.cameraId).filter (fun i => i.1 ≤ p.day.stop)).insertionSort
    (fun i j => i.1 ≤ j.1)
  have hmem : ∀ i, i ∈ early ↔ i ∈ recorded disk rows p.cameraId ∧ i.1 ≤ p.day.stop := by
    intro i
    rw [List.mem_insertionSort, List.mem_filter, decide_eq_true_eq]
  have hsorted : early.Pairwise (fun i j => i.1 ≤ j.1) := List.pairwise_insertionSort _ _
  have hfilled : ∀ i ∈ early, i.1 < i.2 := fun i hi => recorded_filled i ((hmem i).mp hi).1
  have hstarts : ∀ i ∈ early, i.1 ≤ p.day.stop := fun i hi => ((hmem i).mp hi).2
  have hlate : ∀ {stop : Int}, stop ≤ p.day.stop →
      ∀ i ∈ recorded disk rows p.cameraId, i ∈ early ∨ stop ≤ i.1 := by
    intro stop hstop i hi
    by_cases hle : i.1 ≤ p.day.stop
    · exact .inl ((hmem i).mpr ⟨hi, hle⟩)
    · exact .inr (by omega)
  rcases scan_complete hsorted hfilled hstarts hx with ⟨i, hi, hcovered⟩ | ⟨g, hg, hxg⟩ |
    ⟨h, hhole, hxh⟩
  · exact .inl ⟨i, ((hmem i).mp hi).1, hcovered⟩
  · have hstretch := scan_stretch hsorted hfilled hstarts g hg
    refine .inr (.inr ⟨g, hxg, ?_, ?_, hstretch.within, ?_, hstretch.long⟩)
    · exact hstretch.begins.imp_right (fun ⟨i, hi, heq⟩ => ⟨i, ((hmem i).mp hi).1, heq⟩)
    · exact hstretch.ends.imp_right (fun ⟨i, hi, heq⟩ => ⟨i, ((hmem i).mp hi).1, heq⟩)
    · intro i hi
      rcases hlate hstretch.within.2 i hi with hin | hout
      · exact hstretch.apart i hin
      · exact .inl hout
  · refine .inr (.inl ⟨h, ⟨?_, ?_, hhole.within, ?_, hhole.short⟩, hxh⟩)
    · exact hhole.begins.imp_right (fun ⟨i, hi, heq⟩ => ⟨i, ((hmem i).mp hi).1, heq⟩)
    · exact hhole.ends.imp_right (fun ⟨i, hi, heq⟩ => ⟨i, ((hmem i).mp hi).1, heq⟩)
    · intro i hi
      rcases hlate hhole.within.2 i hi with hin | hout
      · exact hhole.apart i hin
      · exact .inl hout

def scanned (disk : Disk) (rows : List Recording) (p : GapsParams) : List (GapScan.Interval Int) :=
  scan isGap p.day.stop p.day.start (fuse (loaded disk rows p))

theorem scanned_stretch : ∀ g ∈ scanned disk rows p, Stretch p.day (loaded disk rows p) g :=
  scan_stretch loaded_sorted loaded_filled (fun _ hi => (mem_loaded hi).2)

theorem scanned_apart : (scanned disk rows p).Pairwise (fun g g' => g.2 ≤ g'.1) :=
  scan_apart loaded_sorted loaded_filled (fun _ hi => (mem_loaded hi).2)

theorem scanned_complete {x : Int} (hx : p.day.Holds x) : Covers (loaded disk rows p) x ∨
    (∃ g ∈ scanned disk rows p, GapScan.Interval.Holds g x) ∨ InHole p.day (loaded disk rows p) x :=
  scan_complete loaded_sorted loaded_filled (fun _ hi => (mem_loaded hi).2) hx

theorem report_gaps {report : GapsReport} (h : getRecordingGapsReport disk rows p = .ok report) :
    report.gaps = ((scanned disk rows p).map toGap).take 240 := by
  unfold getRecordingGapsReport at h
  split at h
  · cases h
  · simp only at h
    split at h
    · cases h
    · cases h
      rfl

theorem report_gaps_few {report : GapsReport} (h : getRecordingGapsReport disk rows p = .ok report)
    (hfew : FewStretches p.day (loaded disk rows p)) :
    report.gaps = (scanned disk rows p).map toGap := by
  have hnodup : (scanned disk rows p).Nodup := by
    refine scanned_apart.imp_of_mem ?_
    rintro g g' hg - happart rfl
    have hlt := isGap_lt _ _ (scanned_stretch g hg).long
    omega
  rw [report_gaps h, List.take_of_length_le]
  rw [List.length_map]
  exact hfew _ hnodup scanned_stretch

/-! ## The theorem -/

/-- **A report of a day with few gaps is truthful** exactly where the rows that begin within
the day, the first 2000 of them, hold all that was recorded of it. -/
theorem gaps_truthful (disk : Disk) (rows : List Recording) (p : GapsParams) {report : GapsReport}
    (hreport : getRecordingGapsReport disk rows p = .ok report)
    (hfew : FewStretches p.day (loaded disk rows p)) :
    Truthful disk rows p report ↔ NoneMissed disk rows p := by
  have hgaps := report_gaps_few hreport hfew
  have hmem : ∀ g, g ∈ report.gaps ↔ ∃ s ∈ scanned disk rows p, toGap s = g := by
    intro g
    rw [hgaps, List.mem_map]
  constructor
  · intro h x hx hrecorded
    rcases scanned_complete hx with hcovered | ⟨s, hs, hxs⟩ | hhole
    · exact .inl hcovered
    · exact absurd hrecorded (h.empty (toGap s) ((hmem _).mpr ⟨s, hs, rfl⟩) x hxs)
    · exact .inr hhole
  · intro h
    refine ⟨?_, ?_, ?_, ?_⟩
    · rw [hgaps, List.pairwise_map]
      exact scanned_apart
    · intro g hg
      obtain ⟨s, hs, rfl⟩ := (hmem g).mp hg
      have hstretch := scanned_stretch s hs
      exact ⟨hstretch.within.1, isGap_lt _ _ hstretch.long, hstretch.within.2⟩
    · intro g hg x hxg hrecorded
      obtain ⟨s, hs, rfl⟩ := (hmem g).mp hg
      have hstretch := scanned_stretch s hs
      have hx : p.day.Holds x :=
        ⟨hstretch.within.1.trans hxg.1, lt_of_lt_of_le hxg.2 hstretch.within.2⟩
      rcases h x hx hrecorded with ⟨i, hi, hxi⟩ | hhole
      · rcases hstretch.apart i hi with hbefore | hafter
        · exact absurd hxg.2 (not_lt.mpr (hbefore.trans hxi.1))
        · exact absurd hxi.2 (not_lt.mpr (hafter.trans hxg.1))
      · exact not_inHole_of_long loaded_filled hstretch.within hstretch.apart hstretch.long hxg hhole
    · intro x hx hnone
      rcases recorded_complete hx with hcovered | hhole | ⟨g, hxg, hstretch⟩
      · exact .inl hcovered
      · exact .inr hhole
      · -- a stretch in which nothing was recorded is one in which nothing was loaded
        exfalso
        have hapart : ∀ i ∈ loaded disk rows p, g.2 ≤ i.1 ∨ i.2 ≤ g.1 :=
          fun i hi => hstretch.apart i (mem_loaded hi).1
        rcases scanned_complete hx with ⟨i, hi, hxi⟩ | ⟨s, hs, hxs⟩ | hhole
        · rcases hapart i hi with hbefore | hafter
          · exact absurd hxg.2 (not_lt.mpr (hbefore.trans hxi.1))
          · exact absurd hxi.2 (not_lt.mpr (hafter.trans hxg.1))
        · exact hnone (toGap s) ((hmem _).mpr ⟨s, hs, rfl⟩) hxs
        · exact not_inHole_of_long loaded_filled hstretch.within hapart hstretch.long hxg hhole

end Recorded

/-! ## Two days -/

def firstDay : Day := ⟨0, 86399999, by decide⟩

def diskOfAll : Disk := ⟨fun _ => true, fun _ => true⟩

def gapsOf (rows : List Recording) : Except GapsError GapsReport :=
  getRecordingGapsReport diskOfAll rows ⟨"cam", firstDay, none⟩

def noonHour : List Recording :=
  [{ id := "r", cameraId := "cam", filePath := "r.mp4", startedAt := 43200000
     endedAt := some 46800000 }]

def midnightHour : List Recording :=
  [{ id := "r", cameraId := "cam", filePath := "r.mp4", startedAt := -1800000
     endedAt := some 1800000 }]

theorem gaps_truthful_noon : ∃ report, gapsOf noonHour = .ok report ∧
    report.gaps.map Gap.interval = [(0, 43200000), (46800000, 86399999)] ∧
    Truthful diskOfAll noonHour ⟨"cam", firstDay, none⟩ report := by
  have hgaps : (gapsOf noonHour).toOption.map (fun report => report.gaps.map Gap.interval) =
      some [(0, 43200000), (46800000, 86399999)] := by
    decide +kernel
  have hloaded : loaded diskOfAll noonHour ⟨"cam", firstDay, none⟩ = [(43200000, 46800000)] := by
    decide +kernel
  have hrecorded : recorded diskOfAll noonHour "cam" = [(43200000, 46800000)] := by
    decide +kernel
  have hfew : FewStretches firstDay (loaded diskOfAll noonHour ⟨"cam", firstDay, none⟩) :=
    fewStretches_of_length loaded_filled (by rw [hloaded]; decide)
  cases hreport : gapsOf noonHour with
  | error e =>
    rw [hreport] at hgaps
    cases hgaps
  | ok report =>
    rw [hreport] at hgaps
    refine ⟨report, rfl, Option.some_inj.mp hgaps, ?_⟩
    refine (gaps_truthful diskOfAll noonHour ⟨"cam", firstDay, none⟩ hreport hfew).mpr ?_
    intro x _ hx
    rw [hrecorded, ← hloaded] at hx
    exact .inl hx

/-- What was recorded before and after midnight is said to be a gap from midnight on. -/
theorem gaps_hide_midnight : ∃ report, gapsOf midnightHour = .ok report ∧
    ¬ Truthful diskOfAll midnightHour ⟨"cam", firstDay, none⟩ report := by
  have hgaps : (gapsOf midnightHour).toOption.map (fun report => report.gaps.map Gap.interval) =
      some [(0, 86399999)] := by
    decide +kernel
  have hrecorded : recorded diskOfAll midnightHour "cam" = [(-1800000, 1800000)] := by
    decide +kernel
  cases hreport : gapsOf midnightHour with
  | error e =>
    rw [hreport] at hgaps
    cases hgaps
  | ok report =>
    rw [hreport] at hgaps
    have hgaps : report.gaps.map Gap.interval = [(0, 86399999)] := Option.some_inj.mp hgaps
    refine ⟨report, rfl, ?_⟩
    intro htruthful
    have hmem : ((0, 86399999) : GapScan.Interval Int) ∈ report.gaps.map Gap.interval := by
      rw [hgaps]
      exact List.mem_cons_self
    obtain ⟨g, hg, heq⟩ := List.mem_map.mp hmem
    refine htruthful.empty g hg 0 ?_ ?_
    · rw [heq]
      exact ⟨by decide, by decide⟩
    · rw [hrecorded]
      exact ⟨_, List.mem_cons_self, by decide, by decide⟩

end Drac.Recordings.Gaps
