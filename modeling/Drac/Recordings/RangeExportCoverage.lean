import Drac.Recordings.RangeExportParts

/-
  What the plan of a range export covers.

  The walk over the parts is `GapScan.scan`, over parts that are sorted and not empty
  (`planCut_walkable`). `planRangeExport_complete_iff` says when a plan keeps all it
  owes: always, but for the margins it declares, which are those of the last segment
  cut at either end.
-/

namespace Drac.Recordings

open GapScan

/-! ## What a plan owes -/

def RangeExportPart.range (p : RangeExportPart) : GapScan.Interval ℚ := (p.fromMs, p.toMs)

def RangeExportGap.range (g : RangeExportGap) : GapScan.Interval ℚ := ((g.fromAt : ℚ), (g.toAt : ℚ))

/-- A segment of the input that can be used from one instant to another. -/
structure Usable (input : PlanRangeExportInput) (raw : RangeSourceSegment) (startMs endMs : Int) :
    Prop where
  mem : raw ∈ input.segments
  starts : raw.startedAt = some startMs
  ends : usableEnd raw startMs = some endMs

/-- **A plan that loses no requested video.** -/
structure RangeComplete (input : PlanRangeExportInput) (fromMs toMs : Int)
    (plan : RangeExportPlan) : Prop where
  covered : ∀ x : ℚ, (fromMs : ℚ) ≤ x → x < toMs →
    (∃ p ∈ plan.parts, p.range.Holds x) ∨ (∃ g ∈ plan.gaps, g.range.Holds x) ∨
      ∃ h, Hole (isLong (toleranceMs input)) (fromMs : ℚ) toMs (plan.parts.map (·.range)) h ∧
        GapScan.Interval.Holds h x
  gapsSorted : plan.gaps.Pairwise (fun g g' => g.toAt ≤ g'.fromAt)
  gapsWithin : ∀ g ∈ plan.gaps, fromMs ≤ g.fromAt ∧ g.fromAt < g.toAt ∧ g.toAt ≤ toMs
  gapsApart : ∀ g ∈ plan.gaps, ∀ p ∈ plan.parts, (g.toAt : ℚ) ≤ p.fromMs ∨ p.toMs ≤ g.fromAt
  footage : ∀ raw startMs endMs, Usable input raw startMs endMs →
    ∀ x : ℚ, (fromMs : ℚ) ≤ x → x < toMs → (startMs : ℚ) ≤ x → x < endMs →
      ∃ p ∈ plan.parts, p.recordingId = raw.id ∧ p.range.Holds x
  genuine : ∀ p ∈ plan.parts, ∃ raw startMs endMs, Usable input raw startMs endMs ∧
    p.recordingId = raw.id ∧ (startMs : ℚ) ≤ p.fromMs ∧ p.toMs ≤ endMs
  leadIn : ∀ p ∈ plan.parts, (fromMs : ℚ) - p.fromMs ≤ plan.leadInSeconds * 1000
  leadOut : ∀ p ∈ plan.parts, p.toMs - toMs ≤ plan.leadOutSeconds * 1000

/-- The margins declared stand for all: at either end, the last segment cut is as
long as the margin beyond the interval, or as long as any other there. -/
structure MarginsDeclared (margin : ℚ) (fromMs toMs : Int) (segments : List Candidate) : Prop where
  leadIn : ∀ j, lastEarly fromMs segments = some j →
    backMargin margin ≤ fromMs - j.startMs ∨
      ∀ i ∈ segments, i.startMs < fromMs → j.startMs ≤ i.startMs
  leadOut : ∀ j, lastLate toMs segments = some j →
    roundMs margin ≤ j.endMs - toMs ∨ ∀ i ∈ segments, toMs < i.endMs → i.endMs ≤ j.endMs

section Declared

variable {fromMs toMs : Int} {margin : ℚ} {segments : List Candidate}

theorem lastEarly_mem {j : Candidate} (h : lastEarly fromMs segments = some j) :
    j ∈ segments ∧ j.startMs < fromMs := by
  have hmem := List.mem_filter.mp (List.mem_of_getLast? h)
  exact ⟨hmem.1, by simpa using hmem.2⟩

theorem lastLate_mem {j : Candidate} (h : lastLate toMs segments = some j) :
    j ∈ segments ∧ toMs < j.endMs := by
  have hmem := List.mem_filter.mp (List.mem_of_getLast? h)
  exact ⟨hmem.1, by simpa using hmem.2⟩

theorem lastEarly_none (h : lastEarly fromMs segments = none) :
    ∀ i ∈ segments, fromMs ≤ i.startMs := by
  intro i hi
  rw [lastEarly, List.getLast?_eq_none_iff, List.filter_eq_nil_iff] at h
  simpa using h i hi

theorem lastLate_none (h : lastLate toMs segments = none) :
    ∀ i ∈ segments, i.endMs ≤ toMs := by
  intro i hi
  rw [lastLate, List.getLast?_eq_none_iff, List.filter_eq_nil_iff] at h
  simpa using h i hi

def declaredIn (fromMs : Int) (margin : ℚ) (segments : List Candidate) : Int :=
  ((lastEarly fromMs segments).map (fun c => min (fromMs - c.startMs) (roundMs margin))).getD 0

def declaredOut (toMs : Int) (margin : ℚ) (segments : List Candidate) : Int :=
  ((lastLate toMs segments).map (fun c => min (c.endMs - toMs) (roundMs margin))).getD 0

theorem leadIn_declared_iff (hm : 0 ≤ margin) :
    (∀ i ∈ segments, fromMs - partLo fromMs margin i ≤ declaredIn fromMs margin segments) ↔
      ∀ j, lastEarly fromMs segments = some j → backMargin margin ≤ fromMs - j.startMs ∨
        ∀ i ∈ segments, i.startMs < fromMs → j.startMs ≤ i.startMs := by
  have hback := backMargin_nonneg hm
  have hle := backMargin_le margin
  simp only [partLo_eq hm, declaredIn]
  cases hlast : lastEarly fromMs segments with
  | none =>
    constructor
    · intro _ j hj
      cases hj
    · intro _ i hi
      have := lastEarly_none hlast i hi
      simp only [Option.map_none, Option.getD_none]
      omega
  | some j =>
    have hj := (lastEarly_mem hlast).2
    simp only [Option.map_some, Option.getD_some]
    constructor
    · rintro h j' hj'
      cases hj'
      by_cases hfar : backMargin margin ≤ fromMs - j.startMs
      · exact .inl hfar
      · refine .inr ?_
        intro i hi _
        have := h i hi
        omega
    · intro h i hi
      rcases h j rfl with hfar | hall
      · omega
      · by_cases hearly : i.startMs < fromMs
        · have := hall i hi hearly
          omega
        · omega

theorem leadOut_declared_iff (hm : 0 ≤ margin) :
    (∀ i ∈ segments, partHi toMs margin i - toMs ≤ declaredOut toMs margin segments) ↔
      ∀ j, lastLate toMs segments = some j → roundMs margin ≤ j.endMs - toMs ∨
        ∀ i ∈ segments, toMs < i.endMs → i.endMs ≤ j.endMs := by
  have hround := roundMs_nonneg hm
  simp only [partHi_eq hm, declaredOut]
  cases hlast : lastLate toMs segments with
  | none =>
    constructor
    · intro _ j hj
      cases hj
    · intro _ i hi
      have := lastLate_none hlast i hi
      simp only [Option.map_none, Option.getD_none]
      omega
  | some j =>
    have hj := (lastLate_mem hlast).2
    simp only [Option.map_some, Option.getD_some]
    constructor
    · rintro h j' hj'
      cases hj'
      by_cases hfar : roundMs margin ≤ j.endMs - toMs
      · exact .inl hfar
      · refine .inr ?_
        intro i hi _
        have := h i hi
        omega
    · intro h i hi
      rcases h j rfl with hfar | hall
      · omega
      · by_cases hlate : toMs < i.endMs
        · have := hall i hi hlate
          omega
        · omega

end Declared

/-! ## The plan made -/

/-- The margin of the strategy the plan decides on. -/
def planMargin (order : LocaleOrder) (input : PlanRangeExportInput) (fromMs toMs : Int) : ℚ :=
  marginMs input
    (decideStrategy (selectSegments order input fromMs toMs) input.forceTranscode).strategy

def planCut (order : LocaleOrder) (input : PlanRangeExportInput) (fromMs toMs : Int) : PartsState :=
  (selectSegments order input fromMs toMs).foldl
    (addPart fromMs toMs (planMargin order input fromMs toMs)) {}

section Plan

variable {order : LocaleOrder} {input : PlanRangeExportInput} {fromMs toMs : Int}

def planScan (order : LocaleOrder) (input : PlanRangeExportInput) (fromMs toMs : Int) :
    List (GapScan.Interval ℚ) :=
  scan (isLong (toleranceMs input)) (toMs : ℚ) (fromMs : ℚ)
    ((planCut order input fromMs toMs).parts.map (·.range))

theorem planRangeExport_ok {plan : RangeExportPlan} (hplan : planRangeExport order input = .ok plan)
    (hfrom : input.fromAt = some fromMs) (hto : input.toAt = some toMs) :
    fromMs < toMs ∧ plan.parts = (planCut order input fromMs toMs).parts ∧
      plan.gaps = (planScan order input fromMs toMs).map toGap ∧
      plan.leadInSeconds = roundSeconds (planCut order input fromMs toMs).leadInMs ∧
      plan.leadOutSeconds = roundSeconds (planCut order input fromMs toMs).leadOutMs ∧
      plan.truncated =
        decide (segmentLimit input < (candidatesOf order input fromMs toMs).length) ∧
      plan.coveredFrom = plan.parts.head?.map (fun p => dateMs p.fromMs) ∧
      plan.coveredTo = plan.parts.getLast?.map (fun p => dateMs p.toMs) ∧
      plan.totalDurationSeconds = roundSeconds (planCut order input fromMs toMs).cursorMs := by
  unfold planRangeExport at hplan
  rw [hfrom, hto] at hplan
  simp only at hplan
  split at hplan
  · cases hplan
  · next hlt =>
    split at hplan
    · cases hplan
      exact ⟨not_le.mp hlt, rfl, rfl, rfl, rfl, rfl, rfl, rfl, rfl⟩
    · cases hplan

theorem planMargin_nonneg (order : LocaleOrder) (input : PlanRangeExportInput)
    (fromMs toMs : Int) : 0 ≤ planMargin order input fromMs toMs := marginMs_nonneg _ _

theorem planCut_eq (order : LocaleOrder) (input : PlanRangeExportInput) (hint : fromMs < toMs) :
    (planCut order input fromMs toMs).parts.map (·.reach) =
        (selectSegments order input fromMs toMs).map
          (reachOf fromMs toMs (planMargin order input fromMs toMs)) ∧
      roundMs (planCut order input fromMs toMs).leadInMs =
        declaredIn fromMs (planMargin order input fromMs toMs)
          (selectSegments order input fromMs toMs) ∧
      roundMs (planCut order input fromMs toMs).leadOutMs =
        declaredOut toMs (planMargin order input fromMs toMs)
          (selectSegments order input fromMs toMs) := by
  obtain ⟨hparts, hin, hout⟩ := foldl_addPart
    (planMargin_nonneg order input fromMs toMs) hint
    (selectSegments order input fromMs toMs) {} selected_overlaps
  refine ⟨hparts, ?_, ?_⟩
  · rw [planCut, hin, declaredIn]
    cases lastEarly fromMs (selectSegments order input fromMs toMs) with
    | none => exact roundMs_intCast 0
    | some c => simp only [Option.map_some, Option.getD_some, roundMs_min, roundMs_intCast]
  · rw [planCut, hout, declaredOut]
    cases lastLate toMs (selectSegments order input fromMs toMs) with
    | none => exact roundMs_intCast 0
    | some c => simp only [Option.map_some, Option.getD_some, roundMs_min, roundMs_intCast]

theorem planCut_part (hint : fromMs < toMs) {p : RangeExportPart}
    (hp : p ∈ (planCut order input fromMs toMs).parts) :
    ∃ c ∈ selectSegments order input fromMs toMs, p.recordingId = c.id ∧
      p.fromMs = partLo fromMs (planMargin order input fromMs toMs) c ∧
      p.toMs = partHi toMs (planMargin order input fromMs toMs) c := by
  have hmem := List.mem_map_of_mem (f := (·.reach)) hp
  rw [(planCut_eq order input hint).1, List.mem_map] at hmem
  obtain ⟨c, hc, heq⟩ := hmem
  simp only [reachOf, RangeExportPart.reach, Prod.mk.injEq] at heq
  exact ⟨c, hc, heq.1.symm, heq.2.1.symm, heq.2.2.symm⟩

theorem planCut_selected (hint : fromMs < toMs) {c : Candidate}
    (hc : c ∈ selectSegments order input fromMs toMs) :
    ∃ p ∈ (planCut order input fromMs toMs).parts, p.recordingId = c.id ∧
      p.fromMs = partLo fromMs (planMargin order input fromMs toMs) c ∧
      p.toMs = partHi toMs (planMargin order input fromMs toMs) c := by
  have hmem := List.mem_map_of_mem (f := reachOf fromMs toMs (planMargin order input fromMs toMs)) hc
  rw [← (planCut_eq order input hint).1, List.mem_map] at hmem
  obtain ⟨p, hp, heq⟩ := hmem
  simp only [reachOf, RangeExportPart.reach, Prod.mk.injEq] at heq
  exact ⟨p, hp, heq.1, heq.2.1, heq.2.2⟩

theorem planCut_ranges (hint : fromMs < toMs) :
    (planCut order input fromMs toMs).parts.map (·.range) =
      (selectSegments order input fromMs toMs).map
        (fun c => ((partLo fromMs (planMargin order input fromMs toMs) c : ℚ),
          (partHi toMs (planMargin order input fromMs toMs) c : ℚ))) := by
  have hreach := (planCut_eq order input hint).1
  have h := congrArg (List.map (fun r : String × ℚ × ℚ => r.2)) hreach
  rw [List.map_map, List.map_map] at h
  exact h

theorem planCut_walkable (order : LocaleOrder) (input : PlanRangeExportInput) (hint : fromMs < toMs) :
    Walkable (toMs : ℚ) ((planCut order input fromMs toMs).parts.map (·.range)) := by
  have hm := planMargin_nonneg order input fromMs toMs
  rw [planCut_ranges hint]
  refine ⟨?_, ?_, ?_⟩
  · rw [List.pairwise_map]
    refine selected_sorted.imp ?_
    intro c d hcd
    rw [Int.cast_le, partLo_eq hm, partLo_eq hm]
    exact max_le_max_right _ hcd
  · intro i hi
    obtain ⟨c, hc, rfl⟩ := List.mem_map.mp hi
    have hstarts := (selected_overlaps c hc).starts
    have hback := backMargin_nonneg hm
    show ((partLo _ _ c : Int) : ℚ) < toMs
    rw [Int.cast_lt, partLo_eq hm]
    omega
  · intro i hi
    obtain ⟨c, hc, rfl⟩ := List.mem_map.mp hi
    show ((partLo _ _ c : Int) : ℚ) < (partHi _ _ c : Int)
    rw [Int.cast_lt]
    exact partLo_lt_partHi hm hint (selected_overlaps c hc)

theorem isLong_lt (tolerance : ℚ) (ht : 0 ≤ tolerance) (a b : ℚ) (h : isLong tolerance a b = true) :
    a < b := by
  have := of_decide_eq_true h
  linarith

theorem toleranceMs_nonneg (input : PlanRangeExportInput) : 0 ≤ toleranceMs input := le_max_left _ _

theorem planScan_dates (hint : fromMs < toMs) {g : GapScan.Interval ℚ}
    (hg : g ∈ planScan order input fromMs toMs) : (toGap g).range = g := by
  have hwhole : ∀ i ∈ (planCut order input fromMs toMs).parts.map (·.range),
      ((dateMs i.1 : Int) : ℚ) = i.1 ∧ ((dateMs i.2 : Int) : ℚ) = i.2 := by
    intro i hi
    rw [planCut_ranges hint] at hi
    obtain ⟨c, -, rfl⟩ := List.mem_map.mp hi
    simp only [dateMs_intCast, and_self]
  obtain ⟨hlo, hhi⟩ := scan_bounds _ g hg
  refine Prod.ext ?_ ?_
  · show ((dateMs g.1 : Int) : ℚ) = g.1
    rcases hlo with heq | ⟨i, hi, heq⟩
    · rw [heq, dateMs_intCast]
    · rw [heq]
      exact (hwhole i hi).2
  · show ((dateMs g.2 : Int) : ℚ) = g.2
    rcases hhi with heq | ⟨i, hi, heq⟩
    · rw [heq, dateMs_intCast]
    · rw [heq]
      exact (hwhole i hi).1

theorem selectSegments_all
    (hfull : ¬ segmentLimit input < (candidatesOf order input fromMs toMs).length) :
    selectSegments order input fromMs toMs = candidatesOf order input fromMs toMs :=
  List.take_of_length_le (not_lt.mp hfull)

/-- What a plan that takes every segment owes, whatever margins it declares. -/
theorem planCut_complete (hint : fromMs < toMs)
    (hfull : ¬ segmentLimit input < (candidatesOf order input fromMs toMs).length)
    {plan : RangeExportPlan} (hparts : plan.parts = (planCut order input fromMs toMs).parts)
    (hgaps : plan.gaps = (planScan order input fromMs toMs).map toGap)
    (hin : ∀ p ∈ plan.parts, (fromMs : ℚ) - p.fromMs ≤ plan.leadInSeconds * 1000)
    (hout : ∀ p ∈ plan.parts, p.toMs - toMs ≤ plan.leadOutSeconds * 1000) :
    RangeComplete input fromMs toMs plan := by
  have hm := planMargin_nonneg order input fromMs toMs
  have hback := backMargin_nonneg hm
  have hround := roundMs_nonneg hm
  have hwalk := planCut_walkable order input hint
  have hlong := isLong_lt (toleranceMs input) (toleranceMs_nonneg input)
  have hselected := selectSegments_all hfull
  -- a gap of the plan is one of the walk, at the same instants
  have hgap : ∀ g ∈ plan.gaps, g.range ∈ planScan order input fromMs toMs := by
    intro g hg
    rw [hgaps, List.mem_map] at hg
    obtain ⟨i, hi, rfl⟩ := hg
    rw [planScan_dates hint hi]
    exact hi
  have hscan : ∀ g ∈ plan.gaps, (fromMs : ℚ) ≤ g.fromAt ∧ (g.fromAt : ℚ) < g.toAt ∧
      (g.toAt : ℚ) ≤ toMs ∧
        ∀ i ∈ plan.parts.map (·.range), (g.toAt : ℚ) ≤ i.1 ∨ i.2 ≤ (g.fromAt : ℚ) := by
    intro g hg
    obtain ⟨hfrom, hlt, hto, -, hapart⟩ := scan_gaps hlong _ hwalk _ (hgap g hg)
    rw [hparts]
    exact ⟨hfrom, hlt, hto, hapart⟩
  refine ⟨?_, ?_, ?_, ?_, ?_, ?_, hin, hout⟩
  · intro x hfrom hto
    have hcovers : _ ∨ (∃ g ∈ planScan order input fromMs toMs, GapScan.Interval.Holds g x) ∨ _ :=
      scan_covers _ hwalk x hfrom hto
    rcases hcovers with ⟨i, hi, hx⟩ | ⟨g, hg, hx⟩ | hhole
    · obtain ⟨p, hp, rfl⟩ := List.mem_map.mp hi
      exact .inl ⟨p, hparts ▸ hp, hx⟩
    · refine .inr (.inl ⟨toGap g, ?_, ?_⟩)
      · rw [hgaps]
        exact List.mem_map_of_mem hg
      · rw [planScan_dates hint hg]
        exact hx
    · rw [hparts]
      exact .inr (.inr hhole)
  · rw [hgaps, List.pairwise_map]
    refine List.Pairwise.imp_of_mem ?_ (scan_sorted hlong _ hwalk)
    intro g g' hg hg' hle
    rw [← planScan_dates hint hg, ← planScan_dates hint hg'] at hle
    exact Int.cast_le.mp hle
  · intro g hg
    obtain ⟨hfrom, hlt, hto, -⟩ := hscan g hg
    exact ⟨Int.cast_le.mp hfrom, Int.cast_lt.mp hlt, Int.cast_le.mp hto⟩
  · intro g hg p hp
    exact (hscan g hg).2.2.2 p.range (List.mem_map_of_mem hp)
  · intro raw startMs endMs husable x hfrom hto hstart hend
    have hfromEnd : fromMs < endMs := by exact_mod_cast lt_of_le_of_lt hfrom hend
    have hstartTo : startMs < toMs := by exact_mod_cast lt_of_le_of_lt hstart hto
    obtain ⟨c, hc, hid, rfl, rfl⟩ :=
      candidateOf_usable husable.starts husable.ends hfromEnd hstartTo
    have hsel : c ∈ selectSegments order input fromMs toMs := by
      rw [hselected]
      exact mem_candidatesOf.mpr ⟨raw, husable.mem, hc⟩
    obtain ⟨p, hp, hpid, hlo, hhi⟩ := planCut_selected hint hsel
    refine ⟨p, hparts ▸ hp, hpid.trans hid, ?_, ?_⟩
    · show p.fromMs ≤ x
      have hmax : max c.startMs (fromMs - backMargin (planMargin order input fromMs toMs)) ≤
          max c.startMs fromMs := by omega
      rw [hlo, partLo_eq hm]
      refine le_trans (Int.cast_le.mpr hmax) ?_
      rw [Int.cast_max]
      exact max_le hstart hfrom
    · show x < p.toMs
      have hmin : min c.endMs toMs ≤
          min c.endMs (toMs + roundMs (planMargin order input fromMs toMs)) := by omega
      rw [hhi, partHi_eq hm]
      refine lt_of_lt_of_le ?_ (Int.cast_le.mpr hmin)
      rw [Int.cast_min]
      exact lt_min hend hto
  · intro p hp
    rw [hparts] at hp
    obtain ⟨c, hc, hid, hlo, hhi⟩ := planCut_part hint hp
    rw [hselected] at hc
    obtain ⟨raw, hraw, hcand⟩ := mem_candidatesOf.mp hc
    obtain ⟨hcid, hstart, hend, -⟩ := candidateOf_some hcand
    refine ⟨raw, c.startMs, c.endMs, ⟨hraw, hstart, hend⟩, hid.trans hcid, ?_, ?_⟩
    · rw [hlo, partLo_eq hm]
      exact Int.cast_le.mpr (le_max_left _ _)
    · rw [hhi, partHi_eq hm]
      exact Int.cast_le.mpr (min_le_left _ _)

end Plan

/-- **When an export over an interval loses nothing.** A plan short of its limit keeps
all it owes, but where the margins it declares are less than those it adds: just
where the last segment cut at either end falls short of the margin and of another. -/
theorem planRangeExport_complete_iff (order : LocaleOrder) (input : PlanRangeExportInput)
    (fromMs toMs : Int) (plan : RangeExportPlan) (hfrom : input.fromAt = some fromMs)
    (hto : input.toAt = some toMs) (hplan : planRangeExport order input = .ok plan)
    (hfull : plan.truncated = false) :
    RangeComplete input fromMs toMs plan ↔
      MarginsDeclared (planMargin order input fromMs toMs) fromMs toMs
        (candidatesOf order input fromMs toMs) := by
  obtain ⟨hint, hparts, hgaps, hin, hout, htrunc, -⟩ := planRangeExport_ok hplan hfrom hto
  have hlimit : ¬ segmentLimit input < (candidatesOf order input fromMs toMs).length := by
    rw [hfull] at htrunc
    simpa using htrunc.symm
  have hselected := selectSegments_all hlimit
  have hm := planMargin_nonneg order input fromMs toMs
  obtain ⟨-, hleadIn, hleadOut⟩ := planCut_eq order input hint
  -- the margins of the parts, over the segments they are made from
  have hinIff : (∀ p ∈ plan.parts, (fromMs : ℚ) - p.fromMs ≤ plan.leadInSeconds * 1000) ↔
      ∀ i ∈ candidatesOf order input fromMs toMs,
        fromMs - partLo fromMs (planMargin order input fromMs toMs) i ≤
          declaredIn fromMs (planMargin order input fromMs toMs)
            (candidatesOf order input fromMs toMs) := by
    rw [hin, roundSeconds_mul, hleadIn, hparts, hselected]
    constructor
    · intro h i hi
      rw [← hselected] at hi
      obtain ⟨p, hp, -, hlo, -⟩ := planCut_selected hint hi
      have := h p hp
      rw [hlo] at this
      exact_mod_cast this
    · intro h p hp
      obtain ⟨c, hc, -, hlo, -⟩ := planCut_part hint hp
      rw [hselected] at hc
      rw [hlo]
      exact_mod_cast h c hc
  have houtIff : (∀ p ∈ plan.parts, p.toMs - toMs ≤ plan.leadOutSeconds * 1000) ↔
      ∀ i ∈ candidatesOf order input fromMs toMs,
        partHi toMs (planMargin order input fromMs toMs) i - toMs ≤
          declaredOut toMs (planMargin order input fromMs toMs)
            (candidatesOf order input fromMs toMs) := by
    rw [hout, roundSeconds_mul, hleadOut, hparts, hselected]
    constructor
    · intro h i hi
      rw [← hselected] at hi
      obtain ⟨p, hp, -, -, hhi⟩ := planCut_selected hint hi
      have := h p hp
      rw [hhi] at this
      exact_mod_cast this
    · intro h p hp
      obtain ⟨c, hc, -, -, hhi⟩ := planCut_part hint hp
      rw [hselected] at hc
      rw [hhi]
      exact_mod_cast h c hc
  rw [leadIn_declared_iff hm] at hinIff
  rw [leadOut_declared_iff hm] at houtIff
  constructor
  · intro h
    exact ⟨hinIff.mp h.leadIn, houtIff.mp h.leadOut⟩
  · intro h
    exact planCut_complete hint hlimit hparts hgaps (hinIff.mpr h.leadIn) (houtIff.mpr h.leadOut)

/-! Ten seconds of a camera, from two segments of it. -/

def byCodePoint : LocaleOrder where
  le a b := decide (a ≤ b)
  total := JsText.codePoint_total
  trans := JsText.codePoint_trans

def cameraSegment (id : String) (startMs endMs : Int) : RangeSourceSegment where
  id := id
  filePath := id ++ ".mp4"
  startedAt := some startMs
  endedAt := some endMs
  videoCodec := some "h264"
  audioCodec := some "aac"

def tenSeconds (segments : List RangeSourceSegment) : PlanRangeExportInput where
  segments := segments
  fromAt := some 10000
  toAt := some 20000

def contiguous : PlanRangeExportInput :=
  tenSeconds [cameraSegment "a" 0 15000, cameraSegment "b" 15000 20000]

/-- The second begins half a second before the interval, within the margin of two. -/
def restarted : PlanRangeExportInput :=
  tenSeconds [cameraSegment "a" 0 20000, cameraSegment "b" 9500 20000]

theorem planRangeExport_complete_contiguous :
    ∃ plan, planRangeExport byCodePoint contiguous = .ok plan ∧ plan.truncated = false ∧
      (RangeComplete contiguous 10000 20000 plan ↔
        MarginsDeclared (planMargin byCodePoint contiguous 10000 20000) 10000 20000
          (candidatesOf byCodePoint contiguous 10000 20000)) := by
  have hmade : (planRangeExport byCodePoint contiguous).toOption.map (·.truncated) = some false := by
    decide +kernel
  cases hplan : planRangeExport byCodePoint contiguous with
  | error e =>
    rw [hplan] at hmade
    cases hmade
  | ok plan =>
    rw [hplan] at hmade
    have hfull : plan.truncated = false := Option.some_inj.mp hmade
    exact ⟨plan, rfl, hfull,
      planRangeExport_complete_iff byCodePoint contiguous 10000 20000 plan rfl rfl hplan hfull⟩

theorem planRangeExport_hides_margin :
    ∃ plan, planRangeExport byCodePoint restarted = .ok plan ∧ plan.truncated = false ∧
      ¬ RangeComplete restarted 10000 20000 plan := by
  have hmade : (planRangeExport byCodePoint restarted).toOption.map
      (fun plan => (plan.truncated, plan.leadInSeconds, plan.parts.map (·.fromMs))) =
      some (false, 1 / 2, [8000, 9500]) := by
    decide +kernel
  cases hplan : planRangeExport byCodePoint restarted with
  | error e =>
    rw [hplan] at hmade
    cases hmade
  | ok plan =>
    rw [hplan] at hmade
    simp only [Except.toOption, Option.map_some, Option.some.injEq, Prod.mk.injEq] at hmade
    obtain ⟨hfull, hlead, hparts⟩ := hmade
    refine ⟨plan, rfl, hfull, ?_⟩
    intro hcomplete
    -- the first part begins two seconds early, of which half a second is declared
    have hfirst : (8000 : ℚ) ∈ plan.parts.map (·.fromMs) := by
      rw [hparts]
      exact List.mem_cons_self
    obtain ⟨p, hp, hfrom⟩ := List.mem_map.mp hfirst
    have hdeclared := hcomplete.leadIn p hp
    rw [hfrom, hlead] at hdeclared
    norm_num at hdeclared

end Drac.Recordings
