import Drac.Playback.WindowFetch

/-
  What the timeline shows as recorded, of the gaps of a day.

  Correspondence (`timeline-window.ts`, web):
    coverageFromGaps   ↔ `coverageFromGaps`, the gaps it keeps `dayGaps`

  An instant of a gap is what `Date.parse` reads, `none` where it is no date.

  The response is known to describe the day up to its end, or, where it was cut, up to the end
  of the last gap it gives of the day (`knownUntil`). A cut response that gives none is taken
  for one of a day without gaps (`coverage_invented`); all others are shown as they are
  (`coverage_exact`).
-/

namespace Drac.Playback

open CursorPaging GapScan IntervalSets

structure CoverageInput where
  gaps : List (Option ℤ × Option ℤ)
  dayStartMs : Option ℚ
  totalMins : Option ℚ := none
  truncated : Bool := false

structure Coverage where
  spans : List (GapScan.Interval ℚ)
  lastCoveredMinute : Option ℚ
  deriving DecidableEq

namespace CoverageInput

def total (input : CoverageInput) : ℚ := max 1 (finite input.totalMins timelineTotalMinutes)

def minute (input : CoverageInput) (ms : ℤ) : ℚ := (ms - finite input.dayStartMs 0) / 60000

def toMinute (input : CoverageInput) (ms : ℤ) : ℚ := clamp (input.minute ms) 0 input.total

def dayGap (input : CoverageInput) : Option ℤ × Option ℤ → Option (GapScan.Interval ℚ)
  | (some startAt, some endAt) =>
    if input.toMinute endAt ≤ input.toMinute startAt then none
    else some (input.toMinute startAt, input.toMinute endAt)
  | _ => none

def dayGaps (input : CoverageInput) : List (GapScan.Interval ℚ) := input.gaps.filterMap input.dayGap

end CoverageInput

def finiteOf (i : GapScan.Interval ℚ) : RawRange := (some i.1, some i.2)

def coverageFromGaps (input : CoverageInput) : Coverage :=
  let gaps := input.dayGaps.map finiteOf
  let merged := mergeRanges gaps
  let horizon :=
    match input.truncated, merged.getLast? with
    | true, some last => last.2
    | _, _ => input.total
  let spans := subtractRanges (0, horizon) (merged.map finiteOf)
  { spans := spans, lastCoveredMinute := spans.getLast?.map (·.2) }

/-! ## The property -/

namespace CoverageInput

/-- The minutes of the gaps, as the response gives them. -/
def Missing (input : CoverageInput) (x : ℚ) : Prop :=
  ∃ startAt endAt, (some startAt, some endAt) ∈ input.gaps ∧
    input.minute startAt ≤ x ∧ x < input.minute endAt

/-- Up to where the response is known to describe the day. -/
def knownUntil (input : CoverageInput) : ℚ :=
  if input.truncated then (input.dayGaps.map (·.2)).max?.getD 0 else input.total

/-- The coverage says what is known, and no more. -/
structure Exact (input : CoverageInput) (coverage : Coverage) : Prop where
  apart : Apart coverage.spans
  covers : ∀ x, Covers coverage.spans x ↔
    (0 ≤ x ∧ x < input.knownUntil) ∧ ¬ input.Missing x
  last : coverage.lastCoveredMinute = coverage.spans.getLast?.map (·.2)

end CoverageInput

section Coverage

variable {input : CoverageInput}

theorem total_pos : 0 < input.total := lt_of_lt_of_le one_pos (le_max_left _ _)

theorem finiteRanges_finiteOf (is : List (GapScan.Interval ℚ)) :
    finiteRanges (is.map finiteOf) = is := by
  have hsome : finiteRange ∘ finiteOf = some := by
    funext i
    rfl
  rw [finiteRanges, List.filterMap_map, hsome, List.filterMap_some]

/-- A gap holds the minutes of the day that the response gives it. -/
theorem covers_dayGaps {x : ℚ} (hx : 0 ≤ x ∧ x < input.total) :
    Covers input.dayGaps x ↔ input.Missing x := by
  constructor
  · rintro ⟨i, hi, hxi⟩
    obtain ⟨g, hg, hof⟩ := List.mem_filterMap.mp hi
    unfold CoverageInput.dayGap at hof
    split at hof
    · next startAt endAt =>
      split at hof
      · cases hof
      · cases hof
        exact ⟨startAt, endAt, hg, (holds_clamp.mp hxi).2⟩
    · cases hof
  · rintro ⟨startAt, endAt, hg, hlo, hhi⟩
    have hholds : GapScan.Interval.Holds (input.toMinute startAt, input.toMinute endAt) x :=
      holds_clamp.mpr ⟨hx, hlo, hhi⟩
    refine ⟨_, List.mem_filterMap.mpr ⟨_, hg, ?_⟩, hholds⟩
    exact if_neg (not_le.mpr (lt_of_le_of_lt hholds.1 hholds.2))

theorem dayGaps_bounds : ∀ i ∈ input.dayGaps, 0 ≤ i.1 ∧ i.1 < i.2 ∧ i.2 ≤ input.total := by
  intro i hi
  obtain ⟨g, -, hof⟩ := List.mem_filterMap.mp hi
  unfold CoverageInput.dayGap at hof
  split at hof
  · next startAt endAt =>
    split at hof
    · cases hof
    · next hlt =>
      cases hof
      refine ⟨le_max_left _ _, not_le.mp hlt, max_le total_pos.le (min_le_left _ _)⟩
  · cases hof

def merged (input : CoverageInput) : List (GapScan.Interval ℚ) :=
  mergeRanges (input.dayGaps.map finiteOf)

theorem covers_merged (x : ℚ) : Covers (merged input) x ↔ Covers input.dayGaps x := by
  rw [merged, (mergeRanges_spec _).2 x, finiteRanges_finiteOf]

theorem merged_nil_iff : merged input = [] ↔ input.dayGaps = [] := by
  constructor
  · intro hnone
    by_contra hsome
    obtain ⟨i, hi⟩ := List.exists_mem_of_ne_nil _ hsome
    obtain ⟨-, hlt, -⟩ := dayGaps_bounds i hi
    have hcovered := (covers_merged i.1).mpr ⟨i, hi, le_refl _, hlt⟩
    rw [hnone] at hcovered
    exact covers_nil hcovered
  · intro hnone
    have hempty : ∀ x, ¬ Covers (merged input) x := by
      intro x hx
      rw [covers_merged, hnone] at hx
      exact covers_nil hx
    by_contra hsome
    obtain ⟨i, hi⟩ := List.exists_mem_of_ne_nil _ hsome
    exact hempty i.1 ⟨i, hi, le_refl _, (mergeRanges_spec _).1.filled i hi⟩

theorem merged_last {last : GapScan.Interval ℚ} (hlast : (merged input).getLast? = some last) :
    (input.dayGaps.map (·.2)).max? = some last.2 := by
  have hperm := byTime_perm Prod.fst
    ((finiteRanges (input.dayGaps.map finiteOf)).filter (fun r => r.1 < r.2))
  have hmem : ∀ i, i ∈ byTime Prod.fst
      ((finiteRanges (input.dayGaps.map finiteOf)).filter (fun r => r.1 < r.2)) ↔
      i ∈ input.dayGaps := by
    intro i
    rw [hperm.mem_iff, List.mem_filter, finiteRanges_finiteOf, and_iff_left_iff_imp]
    exact fun hi => decide_eq_true (dayGaps_bounds i hi).2.1
  rw [List.max?_eq_some_iff]
  constructor
  · obtain ⟨-, i, hi, heq⟩ := fuse_ends (List.mem_of_getLast? hlast)
    rw [heq]
    exact List.mem_map_of_mem ((hmem i).mp hi)
  · intro stop hstop
    obtain ⟨i, hi, rfl⟩ := List.mem_map.mp hstop
    obtain ⟨j, hj, -, hhi⟩ := fuse_within (byTime_sorted Prod.fst _) ((hmem i).mpr hi)
    exact hhi.trans ((mergeRanges_spec _).1.le_last hlast j hj)

/-- Up to where the gaps are taken from the day. -/
def horizon (input : CoverageInput) : ℚ :=
  match input.truncated, (merged input).getLast? with
  | true, some last => last.2
  | _, _ => input.total

theorem spans_eq (input : CoverageInput) : (coverageFromGaps input).spans =
    subtractRanges (0, horizon input) ((merged input).map finiteOf) := rfl

theorem horizon_le : horizon input ≤ input.total := by
  unfold horizon
  split
  · next last _ hlast =>
    obtain ⟨hmem, -⟩ := List.max?_eq_some_iff.mp (merged_last hlast)
    obtain ⟨i, hi, heq⟩ := List.mem_map.mp hmem
    exact heq ▸ (dayGaps_bounds i hi).2.2
  · exact le_refl _

theorem covers_spans (x : ℚ) : Covers (coverageFromGaps input).spans x ↔
    (0 ≤ x ∧ x < horizon input) ∧ ¬ input.Missing x := by
  rw [spans_eq, (subtractRanges_spec _ _).2 x, finiteRanges_finiteOf, covers_merged]
  refine and_congr_right (fun hx => not_congr (covers_dayGaps ⟨hx.1, ?_⟩))
  exact lt_of_lt_of_le hx.2 horizon_le

/-- The horizon is what is known, where the response is whole or gives a gap of the day. -/
theorem horizon_known (h : input.truncated = false ∨ input.dayGaps ≠ []) :
    horizon input = input.knownUntil := by
  unfold horizon CoverageInput.knownUntil
  cases htruncated : input.truncated with
  | false => rfl
  | true =>
    rw [htruncated] at h
    have hsome : merged input ≠ [] := fun hnil =>
      h.elim (fun hwhole => by cases hwhole) (fun hne => hne (merged_nil_iff.mp hnil))
    obtain ⟨last, hlast⟩ : ∃ last, (merged input).getLast? = some last :=
      ⟨_, List.getLast?_eq_some_getLast hsome⟩
    rw [hlast, merged_last hlast]
    rfl

theorem not_exact_of_unknown (htruncated : input.truncated = true) (hgaps : input.dayGaps = []) :
    ¬ input.Exact (coverageFromGaps input) := by
  intro hexact
  have hknown : input.knownUntil = 0 := by
    rw [CoverageInput.knownUntil, if_pos htruncated, hgaps]
    rfl
  have hhorizon : horizon input = input.total := by
    rw [horizon, htruncated, merged_nil_iff.mpr hgaps]
    rfl
  have hmissing : ¬ input.Missing 0 := by
    rw [← covers_dayGaps ⟨le_refl 0, total_pos⟩, hgaps]
    exact covers_nil
  have hcovered := (covers_spans 0).mpr ⟨⟨le_refl 0, hhorizon ▸ total_pos⟩, hmissing⟩
  have hbound := ((hexact.covers 0).mp hcovered).1.2
  rw [hknown] at hbound
  exact lt_irrefl 0 hbound

/-- **The coverage is exact**, except where a response that was cut gives no gap of the day. -/
theorem coverage_exact (input : CoverageInput) :
    input.Exact (coverageFromGaps input) ↔ (input.truncated = false ∨ input.dayGaps ≠ []) := by
  constructor
  · intro hexact
    by_contra hnone
    rw [not_or, not_not, Bool.not_eq_false] at hnone
    exact not_exact_of_unknown hnone.1 hnone.2 hexact
  · intro h
    refine ⟨(subtractRanges_spec _ _).1, fun x => ?_, rfl⟩
    rw [covers_spans x, horizon_known h]

end Coverage

/-! ## A response that was cut -/

def otherDay : CoverageInput where
  gaps := [(some (-7200000), some (-3600000))]
  dayStartMs := some 0
  truncated := true

/-- A day of which nothing is known is shown as recorded from beginning to end. -/
theorem coverage_invented : (coverageFromGaps otherDay).spans = [(0, 1440)] ∧
    ¬ otherDay.Exact (coverageFromGaps otherDay) := by
  have hgaps : otherDay.dayGaps = [] := by decide +kernel
  exact ⟨by decide +kernel, not_exact_of_unknown rfl hgaps⟩

end Drac.Playback
