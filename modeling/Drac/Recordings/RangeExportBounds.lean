import Drac.Recordings.RangeExportCoverage

/-
  The bounds a range export is labelled with.

  `coveredFrom` is where the first part begins and `coveredTo` where the last one ends. The
  parts are sorted by where they begin, so the first bound is the least instant of all, as
  long as the lead-in declared reaches it; the last part need not be the one that ends last
  (`planRangeExport_bounds_iff`).
-/

namespace Drac.Recordings

/-- The instants of the parts that are in the interval, widened by what the plan declares. -/
def coveredInstants (fromMs toMs : Int) (plan : RangeExportPlan) : Set ℚ :=
  {x | fromMs - plan.leadInSeconds * 1000 ≤ x ∧ x ≤ toMs + plan.leadOutSeconds * 1000 ∧
    ∃ p ∈ plan.parts, p.fromMs ≤ x ∧ x ≤ p.toMs}

/-- **Coverage bounds that are true.** -/
structure CoverageTrue (fromMs toMs : Int) (plan : RangeExportPlan) : Prop where
  first : ∀ x, plan.coveredFrom = some x → IsLeast (coveredInstants fromMs toMs plan) (x : ℚ)
  last : ∀ x, plan.coveredTo = some x → IsGreatest (coveredInstants fromMs toMs plan) (x : ℚ)
  told : plan.parts ≠ [] → plan.coveredFrom.isSome ∧ plan.coveredTo.isSome

/-- The last segment cut at the beginning falls short neither of the margin nor of another;
and no segment ends after the last one, unless the last reaches past the interval's end, or
up to it where there is no margin. -/
structure BoundsReached (margin : ℚ) (fromMs toMs : Int) (segments : List Candidate) : Prop where
  leadIn : ∀ j, lastEarly fromMs segments = some j →
    backMargin margin ≤ fromMs - j.startMs ∨
      ∀ i ∈ segments, i.startMs < fromMs → j.startMs ≤ i.startMs
  ending : ∀ last, segments.getLast? = some last →
    (∀ i ∈ segments, i.endMs ≤ last.endMs) ∨ toMs < last.endMs ∨
      last.endMs = toMs ∧ roundMs margin = 0

/-! ## The margins declared -/

section Segments

variable {fromMs toMs : Int} {margin : ℚ} {segments : List Candidate} {last : Candidate}

theorem declaredIn_nonneg (hm : 0 ≤ margin) : 0 ≤ declaredIn fromMs margin segments := by
  have hround := roundMs_nonneg hm
  unfold declaredIn
  cases hlast : lastEarly fromMs segments with
  | none => simp
  | some j =>
    have hj := (lastEarly_mem hlast).2
    simp only [Option.map_some, Option.getD_some]
    omega

theorem declaredOut_nonneg (hm : 0 ≤ margin) : 0 ≤ declaredOut toMs margin segments := by
  have hround := roundMs_nonneg hm
  unfold declaredOut
  cases hlast : lastLate toMs segments with
  | none => simp
  | some j =>
    have hj := (lastLate_mem hlast).2
    simp only [Option.map_some, Option.getD_some]
    omega

theorem lastLate_of_getLast (hlast : segments.getLast? = some last) (hlate : toMs < last.endMs) :
    lastLate toMs segments = some last := by
  obtain ⟨before, rfl⟩ := List.getLast?_eq_some_iff.mp hlast
  rw [lastLate, List.filter_append, List.filter_cons_of_pos (by simpa using hlate)]
  simp

theorem partHi_last_le (hm : 0 ≤ margin) (hlast : segments.getLast? = some last) :
    partHi toMs margin last ≤ toMs + declaredOut toMs margin segments := by
  rw [partHi_eq hm]
  by_cases hlate : toMs < last.endMs
  · rw [declaredOut, lastLate_of_getLast hlast hlate]
    simp only [Option.map_some, Option.getD_some]
    omega
  · have hout : 0 ≤ declaredOut toMs margin segments := declaredOut_nonneg hm
    omega

theorem ending_iff (hm : 0 ≤ margin) (hlast : segments.getLast? = some last) :
    (∀ c ∈ segments, min (partHi toMs margin c) (toMs + declaredOut toMs margin segments) ≤
        partHi toMs margin last) ↔
      (∀ i ∈ segments, i.endMs ≤ last.endMs) ∨ toMs < last.endMs ∨
        last.endMs = toMs ∧ roundMs margin = 0 := by
  have hround := roundMs_nonneg hm
  simp only [partHi_eq hm]
  by_cases hlate : toMs < last.endMs
  · refine iff_of_true (fun c _ => ?_) (.inr (.inl hlate))
    rw [declaredOut, lastLate_of_getLast hlast hlate]
    simp only [Option.map_some, Option.getD_some]
    omega
  · cases hlater : lastLate toMs segments with
    | none =>
      -- no segment is cut at the end, and nothing is declared
      have hnone := lastLate_none hlater
      simp only [declaredOut, hlater, Option.map_none, Option.getD_none]
      constructor
      · intro h
        refine .inl (fun i hi => ?_)
        have hend := hnone i hi
        have hmin := h i hi
        omega
      · rintro (h | h | h)
        · intro c hc
          have hend := h c hc
          omega
        · exact absurd h hlate
        · omega
    | some j =>
      obtain ⟨hj, hjend⟩ := lastLate_mem hlater
      simp only [declaredOut, hlater, Option.map_some, Option.getD_some]
      constructor
      · intro h
        have hmin := h j hj
        omega
      · rintro (h | h | h)
        · have hend := h j hj
          omega
        · exact absurd h hlate
        · intro c _
          omega

end Segments

/-! ## The bounds of a plan -/

section Plan

variable {order : LocaleOrder} {input : PlanRangeExportInput} {fromMs toMs : Int}
  {plan : RangeExportPlan}

theorem planBounds_eq (hplan : planRangeExport order input = .ok plan)
    (hfrom : input.fromAt = some fromMs) (hto : input.toAt = some toMs) :
    plan.coveredFrom = (selectSegments order input fromMs toMs).head?.map
        (partLo fromMs (planMargin order input fromMs toMs)) ∧
      plan.coveredTo = (selectSegments order input fromMs toMs).getLast?.map
        (partHi toMs (planMargin order input fromMs toMs)) := by
  obtain ⟨hint, hparts, -, -, -, -, hfirst, hlast, -⟩ := planRangeExport_ok hplan hfrom hto
  have hreach := (planCut_eq order input hint).1
  rw [← hparts] at hreach
  have hhead := congrArg (fun l => l.head?.map (fun r : String × ℚ × ℚ => dateMs r.2.1)) hreach
  have htail := congrArg (fun l => l.getLast?.map (fun r : String × ℚ × ℚ => dateMs r.2.2)) hreach
  simp only [List.head?_map, List.getLast?_map, Option.map_map] at hhead htail
  have hlo : ((fun r : String × ℚ × ℚ => dateMs r.2.1) ∘
      reachOf fromMs toMs (planMargin order input fromMs toMs)) =
        partLo fromMs (planMargin order input fromMs toMs) :=
    funext (fun c => dateMs_intCast _)
  have hhi : ((fun r : String × ℚ × ℚ => dateMs r.2.2) ∘
      reachOf fromMs toMs (planMargin order input fromMs toMs)) =
        partHi toMs (planMargin order input fromMs toMs) :=
    funext (fun c => dateMs_intCast _)
  rw [hlo] at hhead
  rw [hhi] at htail
  exact ⟨hfirst.trans hhead, hlast.trans htail⟩

theorem mem_coveredInstants (hplan : planRangeExport order input = .ok plan)
    (hfrom : input.fromAt = some fromMs) (hto : input.toAt = some toMs) (x : ℚ) :
    x ∈ coveredInstants fromMs toMs plan ↔
      ((fromMs - declaredIn fromMs (planMargin order input fromMs toMs)
          (selectSegments order input fromMs toMs) : Int) : ℚ) ≤ x ∧
        x ≤ ((toMs + declaredOut toMs (planMargin order input fromMs toMs)
          (selectSegments order input fromMs toMs) : Int) : ℚ) ∧
        ∃ c ∈ selectSegments order input fromMs toMs,
          (partLo fromMs (planMargin order input fromMs toMs) c : ℚ) ≤ x ∧
            x ≤ partHi toMs (planMargin order input fromMs toMs) c := by
  obtain ⟨hint, hparts, -, hin, hout, -⟩ := planRangeExport_ok hplan hfrom hto
  obtain ⟨-, hleadIn, hleadOut⟩ := planCut_eq order input hint
  show (_ ≤ x ∧ x ≤ _ ∧ ∃ p ∈ plan.parts, _) ↔ _
  rw [hin, hout, roundSeconds_mul, roundSeconds_mul, hleadIn,
    hleadOut, hparts, Int.cast_sub, Int.cast_add]
  refine and_congr_right (fun _ => and_congr_right (fun _ => ?_))
  constructor
  · rintro ⟨p, hp, hx⟩
    obtain ⟨c, hc, -, hlo, hhi⟩ := planCut_part hint hp
    rw [hlo, hhi] at hx
    exact ⟨c, hc, hx⟩
  · rintro ⟨c, hc, hx⟩
    obtain ⟨p, hp, -, hlo, hhi⟩ := planCut_selected hint hc
    rw [← hlo, ← hhi] at hx
    exact ⟨p, hp, hx⟩

/-- The first bound is the least instant where the lead-in declared reaches it. -/
theorem coveredFrom_isLeast_iff (hplan : planRangeExport order input = .ok plan)
    (hfrom : input.fromAt = some fromMs) (hto : input.toAt = some toMs) :
    (∀ x, plan.coveredFrom = some x → IsLeast (coveredInstants fromMs toMs plan) (x : ℚ)) ↔
      ∀ i ∈ selectSegments order input fromMs toMs,
        fromMs - partLo fromMs (planMargin order input fromMs toMs) i ≤
          declaredIn fromMs (planMargin order input fromMs toMs)
            (selectSegments order input fromMs toMs) := by
  obtain ⟨hint, -⟩ := planRangeExport_ok hplan hfrom hto
  have hm := planMargin_nonneg order input fromMs toMs
  have hmem := mem_coveredInstants hplan hfrom hto
  have hfirst := (planBounds_eq hplan hfrom hto).1
  have hle : ∀ c ∈ (selectSegments order input fromMs toMs).head?,
      ∀ i ∈ selectSegments order input fromMs toMs,
        partLo fromMs (planMargin order input fromMs toMs) c ≤
          partLo fromMs (planMargin order input fromMs toMs) i := by
    intro c hc i hi
    have hsorted : (selectSegments order input fromMs toMs).Pairwise
        (fun c d => c.startMs ≤ d.startMs) := selected_sorted
    obtain ⟨rest, hsel⟩ := List.head?_eq_some_iff.mp hc
    rw [hsel] at hsorted hi
    rw [partLo_eq hm, partLo_eq hm]
    rcases List.mem_cons.mp hi with rfl | hi
    · exact le_refl _
    · exact max_le_max_right _ ((List.pairwise_cons.mp hsorted).1 i hi)
  constructor
  · intro h i hi
    -- the bound is in the window, and no part begins before it
    obtain ⟨c, hc⟩ : ∃ c, (selectSegments order input fromMs toMs).head? = some c :=
      Option.isSome_iff_exists.mp (List.isSome_head?.mpr (List.ne_nil_of_mem hi))
    have hleast := h _ (by rw [hfirst, hc]; rfl)
    have hwindow := Int.cast_le.mp ((hmem _).mp hleast.1).1
    have hfirstLo := hle c hc i hi
    omega
  · intro h x hx
    rw [hfirst, Option.map_eq_some_iff] at hx
    obtain ⟨c, hc, rfl⟩ := hx
    have hsel := List.mem_of_mem_head? hc
    have hover := selected_overlaps c hsel
    have hlt := partLo_lt_partHi hm hint hover
    have hdeclared := h c hsel
    have hback := backMargin_nonneg hm
    have hout : 0 ≤ declaredOut toMs (planMargin order input fromMs toMs)
      (selectSegments order input fromMs toMs) := declaredOut_nonneg hm
    have hstarts := hover.starts
    have hlo := (partLo_eq hm : partLo fromMs _ c = _)
    refine ⟨(hmem _).mpr ⟨Int.cast_le.mpr (by omega), Int.cast_le.mpr (by omega), c, hsel,
      le_refl _, Int.cast_le.mpr (le_of_lt hlt)⟩, ?_⟩
    intro y hy
    obtain ⟨-, -, d, hd, hlower, -⟩ := (hmem y).mp hy
    exact (Int.cast_le.mpr (hle c hc d hd)).trans hlower

/-- The last bound is the greatest instant where no part ends after the last one, as far as
is declared. -/
theorem coveredTo_isGreatest_iff (hplan : planRangeExport order input = .ok plan)
    (hfrom : input.fromAt = some fromMs) (hto : input.toAt = some toMs) :
    (∀ x, plan.coveredTo = some x → IsGreatest (coveredInstants fromMs toMs plan) (x : ℚ)) ↔
      ∀ last, (selectSegments order input fromMs toMs).getLast? = some last →
        ∀ c ∈ selectSegments order input fromMs toMs,
          min (partHi toMs (planMargin order input fromMs toMs) c)
              (toMs + declaredOut toMs (planMargin order input fromMs toMs)
                (selectSegments order input fromMs toMs)) ≤
            partHi toMs (planMargin order input fromMs toMs) last := by
  obtain ⟨hint, -⟩ := planRangeExport_ok hplan hfrom hto
  have hm := planMargin_nonneg order input fromMs toMs
  have hmem := mem_coveredInstants hplan hfrom hto
  have hend := (planBounds_eq hplan hfrom hto).2
  have hout : 0 ≤ declaredOut toMs (planMargin order input fromMs toMs)
    (selectSegments order input fromMs toMs) := declaredOut_nonneg hm
  have hin : 0 ≤ declaredIn fromMs (planMargin order input fromMs toMs)
    (selectSegments order input fromMs toMs) := declaredIn_nonneg hm
  have hround := roundMs_nonneg hm
  have hback := backMargin_nonneg hm
  -- what each part reaches of the window
  have hreach : ∀ c ∈ selectSegments order input fromMs toMs,
      fromMs < partHi toMs (planMargin order input fromMs toMs) c ∧
        partLo fromMs (planMargin order input fromMs toMs) c < toMs ∧
        partLo fromMs (planMargin order input fromMs toMs) c <
          partHi toMs (planMargin order input fromMs toMs) c := by
    intro c hc
    have hover := selected_overlaps c hc
    have hends := hover.ends
    have hstarts := hover.starts
    refine ⟨?_, ?_, partLo_lt_partHi hm hint hover⟩
    · rw [partHi_eq hm]
      omega
    · rw [partLo_eq hm]
      omega
  constructor
  · intro h last hlast c hc
    have hgreatest := h _ (by rw [hend, hlast]; rfl)
    obtain ⟨hhi, hlo, hlt⟩ := hreach c hc
    refine Int.cast_le.mp (hgreatest.2 ((hmem _).mpr ⟨Int.cast_le.mpr ?_, Int.cast_le.mpr ?_, c, hc,
      Int.cast_le.mpr ?_, Int.cast_le.mpr ?_⟩)) <;> omega
  · intro h x hx
    rw [hend, Option.map_eq_some_iff] at hx
    obtain ⟨last, hlast, rfl⟩ := hx
    have hsel := List.mem_of_getLast? hlast
    obtain ⟨hhi, hlo, hlt⟩ := hreach last hsel
    have hwithin : partHi toMs (planMargin order input fromMs toMs) last ≤ _ :=
      partHi_last_le hm hlast
    refine ⟨(hmem _).mpr ⟨Int.cast_le.mpr (by omega), Int.cast_le.mpr (by omega), last, hsel,
      Int.cast_le.mpr (by omega), le_refl _⟩, ?_⟩
    intro y hy
    obtain ⟨-, hwindow, c, hc, -, hupper⟩ := (hmem y).mp hy
    have hcapped := h last hlast c hc
    calc y ≤ ((min (partHi toMs (planMargin order input fromMs toMs) c)
          (toMs + declaredOut toMs (planMargin order input fromMs toMs)
            (selectSegments order input fromMs toMs)) : Int) : ℚ) := by
          rw [Int.cast_min]
          exact le_min hupper hwindow
      _ ≤ partHi toMs (planMargin order input fromMs toMs) last := Int.cast_le.mpr hcapped

end Plan

/-- **When an export's coverage bounds are true.** The first where the margin declared at the
beginning stands for all; the last where no segment ends after the last one, unless that one
reaches past the interval. -/
theorem planRangeExport_bounds_iff (order : LocaleOrder) (input : PlanRangeExportInput)
    (fromMs toMs : Int) (plan : RangeExportPlan) (hfrom : input.fromAt = some fromMs)
    (hto : input.toAt = some toMs) (hplan : planRangeExport order input = .ok plan) :
    CoverageTrue fromMs toMs plan ↔
      BoundsReached (planMargin order input fromMs toMs) fromMs toMs
        (selectSegments order input fromMs toMs) := by
  have hm := planMargin_nonneg order input fromMs toMs
  have hfirst := coveredFrom_isLeast_iff hplan hfrom hto
  have hlast := coveredTo_isGreatest_iff hplan hfrom hto
  rw [leadIn_declared_iff hm] at hfirst
  constructor
  · intro h
    exact ⟨hfirst.mp h.first,
      fun last hsel => (ending_iff hm hsel).mp (hlast.mp h.last last hsel)⟩
  · intro h
    refine ⟨hfirst.mpr h.leadIn,
      hlast.mpr (fun last hsel => (ending_iff hm hsel).mpr (h.ending last hsel)), ?_⟩
    intro hparts
    obtain ⟨-, -, -, -, -, -, hfrom', hto', -⟩ := planRangeExport_ok hplan hfrom hto
    rw [hfrom', hto', Option.isSome_map, Option.isSome_map]
    exact ⟨List.isSome_head?.mpr hparts, List.getLast?_isSome.mpr hparts⟩

/-- Two segments in a row. -/
theorem planRangeExport_bounds_contiguous :
    ∃ plan, planRangeExport byCodePoint contiguous = .ok plan ∧
      (CoverageTrue 10000 20000 plan ↔
        BoundsReached (planMargin byCodePoint contiguous 10000 20000) 10000 20000
          (selectSegments byCodePoint contiguous 10000 20000)) := by
  have hmade : (planRangeExport byCodePoint contiguous).isOk = true := by decide +kernel
  cases hplan : planRangeExport byCodePoint contiguous with
  | error e =>
    rw [hplan] at hmade
    cases hmade
  | ok plan =>
    exact ⟨plan, rfl, planRangeExport_bounds_iff byCodePoint contiguous 10000 20000 plan rfl rfl
      hplan⟩

/-- The second segment is within the first, and ends five seconds before it. -/
def nested : PlanRangeExportInput :=
  tenSeconds [cameraSegment "a" 10000 19000, cameraSegment "b" 12000 14000]

theorem planRangeExport_forgets_end :
    ∃ plan, planRangeExport byCodePoint nested = .ok plan ∧ plan.coveredTo = some 14000 ∧
      ¬ CoverageTrue 10000 20000 plan := by
  have hmade : (planRangeExport byCodePoint nested).toOption.map (fun plan =>
      (plan.coveredTo, plan.leadInSeconds, plan.leadOutSeconds,
        plan.parts.map (fun p => (p.fromMs, p.toMs)))) =
      some (some 14000, 0, 0, [(10000, 19000), (12000, 14000)]) := by
    decide +kernel
  cases hplan : planRangeExport byCodePoint nested with
  | error e =>
    rw [hplan] at hmade
    cases hmade
  | ok plan =>
    rw [hplan] at hmade
    simp only [Except.toOption, Option.map_some, Option.some.injEq, Prod.mk.injEq] at hmade
    obtain ⟨hto, hleadIn, hleadOut, hparts⟩ := hmade
    refine ⟨plan, rfl, hto, ?_⟩
    intro htrue
    -- the first part holds an instant five seconds later
    have hmem : ((10000 : ℚ), (19000 : ℚ)) ∈ plan.parts.map (fun p => (p.fromMs, p.toMs)) := by
      rw [hparts]
      exact List.mem_cons_self
    obtain ⟨p, hp, heq⟩ := List.mem_map.mp hmem
    obtain ⟨hlo, hhi⟩ := Prod.mk.inj heq
    have hlate := (htrue.last 14000 hto).2 (show (19000 : ℚ) ∈ coveredInstants 10000 20000 plan from
      ⟨by rw [hleadIn]; norm_num, by rw [hleadOut]; norm_num, p, hp, by rw [hlo]; norm_num,
        by rw [hhi]⟩)
    norm_num at hlate

end Drac.Recordings
