import Drac.Lib.Loops
import Drac.Recordings.RangeExportCoverage

/-
  The parts of a plan beside the segments they are cut from.

  The loop rounds each part on its own and the milliseconds cut so far apart from
  them, so the offsets add up where no cut is finer than a millisecond: in a
  transcode, and in a stream copy with a margin of whole milliseconds
  (`planRangeExport_wellFormed`). Half a millisecond of margin is lost at each cut
  (`planRangeExport_drifts`).
-/

namespace Drac.Recordings

/-! ## The statement -/

/-- A part within the file of its segment. -/
structure CutFrom (c : Candidate) (p : RangeExportPart) : Prop where
  recording : p.recordingId = c.id ∧ p.filePath = c.filePath ∧ p.segmentStartedAt = c.startMs
  file : p.fileDurationSeconds = fileDuration c / 1000
  entry : 0 ≤ p.inpointSeconds
  filled : p.inpointSeconds < p.outpointSeconds
  exit : p.outpointSeconds ≤ p.fileDurationSeconds

def partsDuration (parts : List RangeExportPart) : ℚ := (parts.map (·.durationSeconds)).sum

/-- Each part begins in the export where the ones before it end. -/
def OffsetsAddUp (parts : List RangeExportPart) : Prop :=
  ∀ before p after, parts = before ++ p :: after → p.offsetSeconds = partsDuration before

/-- **Parts that are well formed**: one of each segment, in order, and sums that hold where
the margin is whole milliseconds. -/
structure PartsWellFormed (margin : ℚ) (selected : List Candidate) (plan : RangeExportPlan) :
    Prop where
  cut : List.Forall₂ CutFrom selected plan.parts
  offsets : (∃ k : Int, margin = k) → OffsetsAddUp plan.parts
  total : (∃ k : Int, margin = k) → plan.totalDurationSeconds = partsDuration plan.parts

/-! ## One turn of the loop -/

theorem roundSeconds_intCast (k : Int) : roundSeconds k = k / 1000 := by
  rw [roundSeconds, roundMs_intCast]

section Part

variable {fromMs toMs : Int} {margin : ℚ} (hm : 0 ≤ margin) (hint : fromMs < toMs)

include hm hint

theorem addPart_parts (st : PartsState) {c : Candidate} (hc : Overlaps fromMs toMs c) :
    ∃ p, (addPart fromMs toMs margin st c).parts = st.parts ++ [p] ∧ CutFrom c p ∧
      p.offsetSeconds = roundSeconds st.cursorMs ∧
      p.durationSeconds = roundSeconds (cutOut toMs margin c - cutIn fromMs margin c) ∧
      (addPart fromMs toMs margin st c).cursorMs =
        st.cursorMs + (cutOut toMs margin c - cutIn fromMs margin c) := by
  have hlt := cutIn_lt_cutOut hm hint hc
  have hdur : ¬ cutOut toMs margin c - cutIn fromMs margin c ≤ 0 := by linarith
  have hparts := partLo_lt_partHi hm hint hc
  have hlo := (partLo_eq hm : partLo fromMs margin c = _)
  have hhi := (partHi_eq hm : partHi toMs margin c = _)
  unfold partLo at hlo hparts
  unfold partHi at hhi hparts
  have hfile : fileDuration c = ((c.endMs - c.startMs : Int) : ℚ) := by
    rw [fileDuration, Int.cast_sub]
  -- what the rounded cuts are to each other, in whole milliseconds
  have hentry : 0 ≤ roundMs (cutIn fromMs margin c) := by omega
  have hfilled : roundMs (cutIn fromMs margin c) < roundMs (cutOut toMs margin c) := by omega
  have hexit : roundMs (cutOut toMs margin c) ≤ c.endMs - c.startMs := by omega
  unfold addPart
  dsimp only
  rw [if_neg hdur]
  refine ⟨_, rfl, ⟨⟨rfl, rfl, rfl⟩, ?_, ?_, ?_, ?_⟩, rfl, rfl, rfl⟩
  · rw [hfile, roundSeconds_intCast]
  · exact div_nonneg (Int.cast_nonneg hentry) (by norm_num)
  · exact div_lt_div_of_pos_right (Int.cast_lt.mpr hfilled) (by norm_num)
  · rw [hfile, roundSeconds_intCast]
    exact div_le_div_of_nonneg_right (Int.cast_le.mpr hexit) (by norm_num)

end Part

theorem whole_cut {fromMs toMs k : Int} (hk : 0 ≤ (k : ℚ)) (c : Candidate) :
    ∃ d : Int, cutOut toMs k c - cutIn fromMs k c = d := by
  have hin := cutIn_eq fromMs c hk
  have hout := cutOut_eq toMs c hk
  refine ⟨min c.endMs (toMs + k) - max c.startMs (fromMs - k), ?_⟩
  push_cast
  linarith

/-! ## The loop -/

/-- What the loop has made of the segments so far. -/
structure CutSoFar (margin : ℚ) (done : List Candidate) (st : PartsState) : Prop where
  cut : List.Forall₂ CutFrom done st.parts
  offsets : (∃ k : Int, margin = k) → OffsetsAddUp st.parts
  cursor : (∃ k : Int, margin = k) →
    ∃ n : Int, st.cursorMs = n ∧ (n : ℚ) / 1000 = partsDuration st.parts

section Loop

variable {fromMs toMs : Int} {margin : ℚ} (hm : 0 ≤ margin) (hint : fromMs < toMs)

include hm hint

theorem CutSoFar.addPart {done : List Candidate} {st : PartsState} (h : CutSoFar margin done st)
    {c : Candidate} (hc : Overlaps fromMs toMs c) :
    CutSoFar margin (done ++ [c]) (addPart fromMs toMs margin st c) := by
  obtain ⟨p, hparts, hcut, hoffset, hduration, hcursor⟩ := addPart_parts hm hint st hc
  refine ⟨?_, ?_, ?_⟩
  · rw [hparts]
    exact List.rel_append h.cut (.cons hcut .nil)
  · intro hwhole
    obtain ⟨n, hn, hsum⟩ := h.cursor hwhole
    rw [hn, roundSeconds_intCast] at hoffset
    rw [hparts]
    exact Loops.concat_forall (h.offsets hwhole) (hoffset.trans hsum)
  · rintro ⟨k, rfl⟩
    obtain ⟨n, hn, hsum⟩ := h.cursor ⟨k, rfl⟩
    obtain ⟨d, hd⟩ := (whole_cut hm c : ∃ d : Int, cutOut toMs k c - cutIn fromMs k c = d)
    rw [hd, roundSeconds_intCast] at hduration
    refine ⟨n + d, ?_, ?_⟩
    · rw [hcursor, hn, hd, Int.cast_add]
    · rw [hparts, partsDuration, List.map_append, List.sum_append, ← partsDuration, ← hsum]
      simp only [List.map_cons, List.map_nil, List.sum_cons, List.sum_nil, hduration]
      push_cast
      ring

theorem CutSoFar.foldl (rest : List Candidate) : ∀ {done : List Candidate} {st : PartsState},
    CutSoFar margin done st → (∀ c ∈ rest, Overlaps fromMs toMs c) →
    CutSoFar margin (done ++ rest) (rest.foldl (Recordings.addPart fromMs toMs margin) st) := by
  induction rest with
  | nil =>
    intro done st h _
    rwa [List.append_nil]
  | cons c rest ih =>
    intro done st h hall
    have hstep := h.addPart hm hint (hall c List.mem_cons_self)
    have hrest := ih hstep (fun d hd => hall d (List.mem_cons_of_mem _ hd))
    rwa [List.append_assoc, List.singleton_append] at hrest

end Loop

/-! ## The plan -/

theorem planCut_soFar (order : LocaleOrder) (input : PlanRangeExportInput) {fromMs toMs : Int}
    (hint : fromMs < toMs) :
    CutSoFar (planMargin order input fromMs toMs) (selectSegments order input fromMs toMs)
      (planCut order input fromMs toMs) := by
  have hnone : CutSoFar (planMargin order input fromMs toMs) [] {} :=
    ⟨.nil, fun _ before p after h => absurd h (by simp), fun _ => ⟨0, by simp, by simp [partsDuration]⟩⟩
  exact hnone.foldl (planMargin_nonneg order input fromMs toMs) hint _ selected_overlaps

/-- **A range export cuts one part of each segment selected**, within its file; the offsets
and the total add up where the margin is whole milliseconds. -/
theorem planRangeExport_wellFormed (order : LocaleOrder) (input : PlanRangeExportInput)
    (fromMs toMs : Int) (plan : RangeExportPlan) (hfrom : input.fromAt = some fromMs)
    (hto : input.toAt = some toMs) (hplan : planRangeExport order input = .ok plan) :
    PartsWellFormed (planMargin order input fromMs toMs)
      (selectSegments order input fromMs toMs) plan := by
  obtain ⟨hint, hparts, -, -, -, -, -, -, htotal⟩ := planRangeExport_ok hplan hfrom hto
  have hcut := planCut_soFar order input hint
  refine ⟨?_, ?_, ?_⟩
  · rw [hparts]
    exact hcut.cut
  · rw [hparts]
    exact hcut.offsets
  · intro hwhole
    obtain ⟨n, hn, hsum⟩ := hcut.cursor hwhole
    rw [htotal, hn, roundSeconds_intCast, hsum, hparts]

/-- Two segments in a row, the first cut at the beginning. -/
theorem planRangeExport_wellFormed_contiguous :
    ∃ plan, planRangeExport byCodePoint contiguous = .ok plan ∧
      PartsWellFormed (planMargin byCodePoint contiguous 10000 20000)
        (selectSegments byCodePoint contiguous 10000 20000) plan := by
  have hmade : (planRangeExport byCodePoint contiguous).isOk = true := by decide +kernel
  cases hplan : planRangeExport byCodePoint contiguous with
  | error e =>
    rw [hplan] at hmade
    cases hmade
  | ok plan =>
    exact ⟨plan, rfl, planRangeExport_wellFormed byCodePoint contiguous 10000 20000 plan rfl rfl
      hplan⟩

def fineMargin : PlanRangeExportInput :=
  { tenSeconds [cameraSegment "a" 9000 15000, cameraSegment "b" 15000 21000] with
    copySafetySeconds := some (1 / 2000) }

/-- Each part is declared half a millisecond longer than it is, the export is not. -/
theorem planRangeExport_drifts :
    ∃ plan, planRangeExport byCodePoint fineMargin = .ok plan ∧
      plan.totalDurationSeconds = 10001 / 1000 ∧ partsDuration plan.parts = 10002 / 1000 := by
  have hmade : (planRangeExport byCodePoint fineMargin).toOption.map (fun plan =>
      (plan.totalDurationSeconds, partsDuration plan.parts)) =
      some (10001 / 1000, 10002 / 1000) := by
    decide +kernel
  cases hplan : planRangeExport byCodePoint fineMargin with
  | error e =>
    rw [hplan] at hmade
    cases hmade
  | ok plan =>
    rw [hplan] at hmade
    simp only [Except.toOption, Option.map_some, Option.some.injEq, Prod.mk.injEq] at hmade
    exact ⟨plan, rfl, hmade.1, hmade.2⟩

end Drac.Recordings
