import Drac.Central.TimeSeries

/-
  Merging the aggregates of partial passes, against aggregating once.

  Of the values of a metric the loop of `aggregateSamples` keeps their least, their
  greatest, their sum and how many there are (`accumulate_append`,
  `accumulate_perm`), and a merge of two aggregates gets all of these right but
  for the average: it weighs averages that were already rounded. `drift` is what
  those roundings have added to the total when the last average is taken, and the
  aggregates are equal exactly where the drift does not carry the exact average
  into another hundredth (`rollUp_iff`).
-/

namespace Drac.Central.TimeSeries

/-! ## Rounding -/

theorem round2_mono {x y : ℚ} (h : x ≤ y) : round2 x ≤ round2 y := by
  unfold round2
  have hfloor : ⌊x * 100 + 1 / 2⌋ ≤ ⌊y * 100 + 1 / 2⌋ := Int.floor_le_floor (by linarith)
  have hcast : (⌊x * 100 + 1 / 2⌋ : ℚ) ≤ ⌊y * 100 + 1 / 2⌋ := by exact_mod_cast hfloor
  exact div_le_div_of_nonneg_right hcast (by norm_num)

theorem round2_min (x y : ℚ) : round2 (min x y) = min (round2 x) (round2 y) := by
  rcases le_total x y with h | h
  · rw [min_eq_left h, min_eq_left (round2_mono h)]
  · rw [min_eq_right h, min_eq_right (round2_mono h)]

theorem round2_max (x y : ℚ) : round2 (max x y) = max (round2 x) (round2 y) := by
  rcases le_total x y with h | h
  · rw [max_eq_right h, max_eq_right (round2_mono h)]
  · rw [max_eq_left h, max_eq_left (round2_mono h)]

theorem round2_hundredths (z : ℤ) : round2 (z / 100) = z / 100 := by
  have hfloor : ⌊(z : ℚ) / 100 * 100 + 1 / 2⌋ = z := by
    rw [Int.floor_eq_iff]
    constructor <;> linarith
  rw [round2, hfloor]

/-! ## What is kept of a list of values -/

def Accumulated.merge (a b : Accumulated) : Accumulated where
  min := Min.min a.min b.min
  max := Max.max a.max b.max
  sum := a.sum + b.sum
  count := a.count + b.count

theorem Accumulated.merge_assoc (a b c : Accumulated) :
    (a.merge b).merge c = a.merge (b.merge c) := by
  simp only [Accumulated.merge, Accumulated.mk.injEq]
  exact ⟨min_assoc _ _ _, max_assoc _ _ _, add_assoc _ _ _, Nat.add_assoc _ _ _⟩

theorem Accumulated.merge_comm (a b : Accumulated) : a.merge b = b.merge a := by
  simp only [Accumulated.merge, Accumulated.mk.injEq]
  exact ⟨min_comm _ _, max_comm _ _, add_comm _ _, Nat.add_comm _ _⟩

def single (value : ℚ) : Accumulated := ⟨value, value, value, 1⟩

theorem addValue_some (a : Accumulated) (value : ℚ) : addValue (some a) value = a.merge (single value) := by
  simp only [addValue, Accumulated.merge, single, Accumulated.mk.injEq, and_true]
  constructor
  · split
    · next h => exact (min_eq_right (le_of_lt h)).symm
    · next h => exact (min_eq_left (not_lt.mp h)).symm
  · split
    · next h => exact (max_eq_right (le_of_lt h)).symm
    · next h => exact (max_eq_left (not_lt.mp h)).symm

def values (key : Metric) (samples : List (Option Sample)) : List ℚ :=
  (samples.filterMap id).filterMap (·.value key)

def accumulate (vs : List ℚ) : Option Accumulated :=
  vs.foldl (fun acc value => some (addValue acc value)) none

variable (key : Metric)

theorem foldl_addSample (samples : List Sample) :
    ∀ acc : Metric → Option Accumulated, samples.foldl addSample acc key =
      (samples.filterMap (·.value key)).foldl (fun acc value => some (addValue acc value)) (acc key) := by
  induction samples with
  | nil => intro acc; rfl
  | cons sample rest ih =>
    intro acc
    rw [List.foldl_cons, ih]
    cases hvalue : sample.value key with
    | none => simp [addSample, hvalue]
    | some value => simp [addSample, hvalue]

theorem aggregateSamples_stats (samples : List (Option Sample)) (key : Metric) :
    (aggregateSamples samples).stats key = (accumulate (values key samples)).map Accumulated.stat := by
  simp only [aggregateSamples, foldl_addSample]
  rfl

theorem foldl_addValue (vs : List ℚ) : ∀ a : Accumulated,
    vs.foldl (fun acc value => some (addValue acc value)) (some a) =
      some ((vs.map single).foldl Accumulated.merge a) := by
  induction vs with
  | nil => intro a; rfl
  | cons value rest ih =>
    intro a
    rw [List.foldl_cons, addValue_some, ih, List.map_cons, List.foldl_cons]

theorem accumulate_cons (value : ℚ) (vs : List ℚ) :
    accumulate (value :: vs) = some ((vs.map single).foldl Accumulated.merge (single value)) :=
  foldl_addValue vs (single value)

theorem foldl_merge (bs : List Accumulated) : ∀ a b : Accumulated,
    bs.foldl Accumulated.merge (a.merge b) = a.merge (bs.foldl Accumulated.merge b) := by
  induction bs with
  | nil => intro a b; rfl
  | cons c rest ih =>
    intro a b
    rw [List.foldl_cons, List.foldl_cons, Accumulated.merge_assoc, ih]

/-- What is kept of two lists is merged from what is kept of each. -/
def mergeKept : Option Accumulated → Option Accumulated → Option Accumulated
  | none, b => b
  | some a, none => some a
  | some a, some b => some (a.merge b)

theorem accumulate_append (vs ws : List ℚ) :
    accumulate (vs ++ ws) = mergeKept (accumulate vs) (accumulate ws) := by
  cases vs with
  | nil => rfl
  | cons v vs =>
    cases ws with
    | nil =>
      rw [List.append_nil, accumulate_cons]
      rfl
    | cons w ws =>
      rw [List.cons_append, accumulate_cons, accumulate_cons, accumulate_cons, List.map_append,
        List.foldl_append, List.map_cons, List.foldl_cons, foldl_merge]
      rfl

theorem accumulate_perm {vs ws : List ℚ} (h : vs.Perm ws) : accumulate vs = accumulate ws := by
  refine h.foldl_eq' (fun a _ b _ acc => ?_) none
  cases acc with
  | none =>
    show some (addValue (some (single a)) b) = some (addValue (some (single b)) a)
    rw [addValue_some, addValue_some, Accumulated.merge_comm]
  | some acc =>
    rw [addValue_some, addValue_some, addValue_some, addValue_some, Accumulated.merge_assoc,
      Accumulated.merge_assoc, (single a).merge_comm]

theorem accumulate_sum {vs : List ℚ} {a : Accumulated} (h : accumulate vs = some a) :
    a.sum = vs.sum ∧ a.count = vs.length := by
  have hfold (vs : List ℚ) : ∀ c : Accumulated,
      ((vs.map single).foldl Accumulated.merge c).sum = c.sum + vs.sum ∧
        ((vs.map single).foldl Accumulated.merge c).count = c.count + vs.length := by
    induction vs with
    | nil => intro c; exact ⟨(add_zero _).symm, rfl⟩
    | cons v vs ih =>
      intro c
      obtain ⟨hsum, hcount⟩ := ih (c.merge (single v))
      rw [List.map_cons, List.foldl_cons, hsum, hcount, List.sum_cons, List.length_cons]
      exact ⟨add_assoc _ _ _, by simp only [Accumulated.merge, single]; omega⟩
  cases vs with
  | nil => cases h
  | cons v vs =>
    rw [accumulate_cons, Option.some.injEq] at h
    obtain ⟨hsum, hcount⟩ := hfold vs (single v)
    rw [← h, hsum, hcount, List.sum_cons, List.length_cons]
    exact ⟨rfl, Nat.add_comm _ _⟩

/-! ## Merging passes -/

/-- What is stored once each pass has been merged into what was stored before. -/
def rollUp (parts : List (List (Option Sample))) : Option Aggregate :=
  parts.foldl (fun stored part => some (mergeAggregate stored (some (aggregateSamples part)))) none

def passes (key : Metric) (parts : List (List (Option Sample))) : List Accumulated :=
  parts.filterMap (fun part => accumulate (values key part))

theorem passes_cons_none {key : Metric} {part : List (Option Sample)}
    {rest : List (List (Option Sample))} (h : accumulate (values key part) = none) :
    passes key (part :: rest) = passes key rest := by simp [passes, h]

theorem passes_cons_some {key : Metric} {part : List (Option Sample)}
    {rest : List (List (Option Sample))} {b : Accumulated}
    (h : accumulate (values key part) = some b) :
    passes key (part :: rest) = b :: passes key rest := by simp [passes, h]

/-- The values of each pass that has the metric. -/
def valued (key : Metric) (parts : List (List (Option Sample))) : List (List ℚ) :=
  (parts.map (values key)).filter (· ≠ [])

/-- The average is a whole number of hundredths. -/
def WholeHundredths (vs : List ℚ) : Prop := ∃ z : ℤ, 100 * vs.sum = z * vs.length

/-- No average is rounded that is weighed again: of each pass but an only one, and of it with
the passes before it where there are more to come. -/
def Unrounded (key : Metric) (parts : List (List (Option Sample))) : Prop :=
  ∀ front vs back, valued key parts = front ++ vs :: back → (front ≠ [] ∨ back ≠ []) →
    WholeHundredths vs ∧ (back ≠ [] → WholeHundredths (front.flatten ++ vs))

/-! ## One metric of the merged aggregate -/

def mergeStats : Option Stat → Option Stat → Option Stat
  | none, b => b
  | some a, none => some a
  | some a, some b => some (mergeStat a b)

theorem mergeAggregate_stats (left : Option Aggregate) (right : Aggregate) (key : Metric) :
    (mergeAggregate left (some right)).stats key =
      mergeStats ((cloneAggregate left).stats key) (right.stats key) := by
  cases left with
  | none => rfl
  | some left =>
    simp only [mergeAggregate, cloneAggregate, Option.getD_some]
    cases left.stats key <;> cases right.stats key <;> rfl

theorem foldl_mergeAggregate_stats (parts : List (List (Option Sample))) :
    ∀ stored : Option Aggregate,
    (cloneAggregate (parts.foldl
      (fun stored part => some (mergeAggregate stored (some (aggregateSamples part)))) stored)).stats
        key =
      parts.foldl (fun stat part =>
        mergeStats stat ((accumulate (values key part)).map Accumulated.stat))
        ((cloneAggregate stored).stats key) := by
  induction parts with
  | nil => intro stored; rfl
  | cons part rest ih =>
    intro stored
    rw [List.foldl_cons, ih, List.foldl_cons]
    congr 1
    show (mergeAggregate stored (some (aggregateSamples part))).stats key = _
    rw [mergeAggregate_stats, aggregateSamples_stats]

theorem foldl_mergeStats_some (parts : List (List (Option Sample))) : ∀ stat : Stat,
    parts.foldl (fun stat part =>
      mergeStats stat ((accumulate (values key part)).map Accumulated.stat)) (some stat) =
      some ((passes key parts).foldl (fun stat b => mergeStat stat b.stat) stat) := by
  induction parts with
  | nil => intro stat; rfl
  | cons part rest ih =>
    intro stat
    rw [List.foldl_cons]
    cases hkept : accumulate (values key part) with
    | none =>
      rw [passes_cons_none hkept]
      exact ih stat
    | some b =>
      rw [passes_cons_some hkept, List.foldl_cons]
      exact ih (mergeStat stat b.stat)

theorem foldl_mergeStats (parts : List (List (Option Sample))) :
    parts.foldl (fun stat part =>
      mergeStats stat ((accumulate (values key part)).map Accumulated.stat)) none =
      match passes key parts with
      | [] => none
      | a :: rest => some (rest.foldl (fun stat b => mergeStat stat b.stat) a.stat) := by
  induction parts with
  | nil => rfl
  | cons part rest ih =>
    rw [List.foldl_cons]
    cases hkept : accumulate (values key part) with
    | none =>
      rw [passes_cons_none hkept]
      exact ih
    | some b =>
      rw [passes_cons_some hkept]
      exact foldl_mergeStats_some key rest b.stat

theorem values_append (xs ys : List (Option Sample)) :
    values key (xs ++ ys) = values key xs ++ values key ys := by
  simp [values, List.filterMap_append]

theorem accumulate_flatten (parts : List (List (Option Sample))) :
    accumulate (values key parts.flatten) =
      match passes key parts with
      | [] => none
      | a :: rest => some (rest.foldl Accumulated.merge a) := by
  induction parts with
  | nil => rfl
  | cons part rest ih =>
    rw [List.flatten_cons, values_append, accumulate_append, ih]
    cases hkept : accumulate (values key part) with
    | none =>
      rw [passes_cons_none hkept]
      rfl
    | some b =>
      rw [passes_cons_some hkept]
      show mergeKept (some b) (match passes key rest with
        | [] => none
        | a :: rest => some (rest.foldl Accumulated.merge a)) = some ((passes key rest).foldl _ b)
      cases passes key rest with
      | nil => rfl
      | cons a rest' =>
        rw [List.foldl_cons, foldl_merge]
        rfl

theorem rollUp_samples (parts : List (List (Option Sample))) :
    (cloneAggregate (rollUp parts)).samples = (parts.flatten.filterMap id).length := by
  have hfold (parts : List (List (Option Sample))) : ∀ stored : Option Aggregate,
      (cloneAggregate (parts.foldl
        (fun stored part => some (mergeAggregate stored (some (aggregateSamples part))))
          stored)).samples =
        (cloneAggregate stored).samples + (parts.flatten.filterMap id).length := by
    induction parts with
    | nil => intro stored; rfl
    | cons part rest ih =>
      intro stored
      rw [List.foldl_cons, ih, List.flatten_cons, List.filterMap_append, List.length_append,
        ← Nat.add_assoc]
      congr 1
      cases stored with
      | none => exact (Nat.zero_add _).symm
      | some left => rfl
  rw [rollUp, hfold]
  exact Nat.zero_add _

/-! ## Passes that are not rounded -/

theorem avg_whole {vs : List ℚ} {a : Accumulated} (hkept : accumulate vs = some a)
    (h : WholeHundredths vs) : a.stat.avg * a.count = a.sum ∧ 0 < a.count := by
  obtain ⟨hsum, hcount⟩ := accumulate_sum hkept
  obtain ⟨z, hz⟩ := h
  have hpos : 0 < a.count := by
    rw [hcount, List.length_pos_iff]
    rintro rfl
    cases hkept
  have hne : (a.count : ℚ) ≠ 0 := by exact_mod_cast hpos.ne'
  have havg : a.sum / a.count = z / 100 := by
    rw [div_eq_div_iff hne (by norm_num), hsum, hcount]
    linarith
  refine ⟨?_, hpos⟩
  rw [Accumulated.stat, havg, round2_hundredths, ← havg, div_mul_cancel₀ _ hne]

theorem mergeStat_whole {vs ws : List ℚ} {a b : Accumulated} (ha : accumulate vs = some a)
    (hb : accumulate ws = some b) (hvs : WholeHundredths vs) (hws : WholeHundredths ws) :
    mergeStat a.stat b.stat = (a.merge b).stat := by
  obtain ⟨hasum, hpos⟩ := avg_whole ha hvs
  obtain ⟨hbsum, -⟩ := avg_whole hb hws
  have hcount : 0 < a.stat.count + b.stat.count := Nat.add_pos_left hpos _
  unfold mergeStat
  dsimp only
  rw [if_pos hcount]
  simp only [Accumulated.stat, Accumulated.merge, Stat.mk.injEq, round2_min, round2_max, true_and,
    and_true] at hasum hbsum ⊢
  rw [hasum, hbsum, Nat.cast_add]

theorem passes_valued (parts : List (List (Option Sample))) :
    passes key parts = (valued key parts).filterMap accumulate := by
  unfold passes valued
  rw [List.filterMap_filter, List.filterMap_map]
  congr 1
  funext part
  rw [Function.comp_apply]
  cases values key part <;> rfl

theorem foldl_mergeStat_whole (rest : List (List ℚ)) : ∀ (front : List ℚ) (a : Accumulated),
    accumulate front = some a →
    (∀ before vs after, rest = before ++ vs :: after →
      WholeHundredths vs ∧ WholeHundredths (front ++ before.flatten)) →
    (rest.filterMap accumulate).foldl (fun stat b => mergeStat stat b.stat) a.stat =
      ((rest.filterMap accumulate).foldl Accumulated.merge a).stat := by
  induction rest with
  | nil => intro front a _ _; rfl
  | cons vs rest ih =>
    intro front a ha hwhole
    obtain ⟨hown, hfront⟩ := hwhole [] vs rest rfl
    rw [List.flatten_nil, List.append_nil] at hfront
    cases hb : accumulate vs with
    | none =>
      rw [List.filterMap_cons_none hb]
      refine ih front a ha (fun before ws after heq => ?_)
      obtain ⟨hws, hboth⟩ := hwhole (vs :: before) ws after (by rw [heq, List.cons_append])
      cases vs with
      | nil => exact ⟨hws, hboth⟩
      | cons v vs =>
        rw [accumulate_cons] at hb
        cases hb
    | some b =>
      rw [List.filterMap_cons_some hb, List.foldl_cons, List.foldl_cons,
        mergeStat_whole ha hb hfront hown]
      refine ih (front ++ vs) (a.merge b) (by rw [accumulate_append, ha, hb]; rfl) ?_
      intro before ws after heq
      rw [List.append_assoc, ← List.flatten_cons]
      exact hwhole (vs :: before) ws after (by rw [heq, List.cons_append])

theorem rollUp_stats {parts : List (List (Option Sample))} (h : Unrounded key parts) :
    (cloneAggregate (rollUp parts)).stats key =
      (accumulate (values key parts.flatten)).map Accumulated.stat := by
  unfold Unrounded at h
  rw [rollUp, foldl_mergeAggregate_stats]
  show parts.foldl _ none = _
  rw [foldl_mergeStats, accumulate_flatten, passes_valued]
  cases hvalued : valued key parts with
  | nil => rfl
  | cons vs rest =>
    rw [hvalued] at h
    have hvs : vs ∈ valued key parts := hvalued ▸ List.mem_cons_self
    cases ha : accumulate vs with
    | none =>
      cases vs with
      | nil => exact absurd rfl (of_decide_eq_true (List.mem_filter.mp hvs).2)
      | cons v vs =>
        rw [accumulate_cons] at ha
        cases ha
    | some a =>
      rw [List.filterMap_cons_some ha]
      refine congrArg some (foldl_mergeStat_whole rest vs a ha ?_)
      intro before ws after heq
      refine ⟨(h (vs :: before) ws after (by rw [heq]; rfl) (.inl (List.cons_ne_nil _ _))).1, ?_⟩
      rcases List.eq_nil_or_concat before with rfl | ⟨before, us, rfl⟩
      · simpa using (h [] vs rest rfl (.inr (by simp [heq]))).2 (by simp [heq])
      · simpa using (h (vs :: before) us (ws :: after) (by simp [heq])
          (.inl (List.cons_ne_nil _ _))).2 (List.cons_ne_nil _ _)

/-- **Merging passes gives the aggregate of all the samples where no average that is weighed
again was rounded.** -/
theorem rollUp_unrounded {samples : List (Option Sample)} {parts : List (List (Option Sample))}
    (hsplit : parts.flatten.Perm samples) (h : ∀ key, Unrounded key parts) :
    cloneAggregate (rollUp parts) = aggregateSamples samples := by
  rw [Aggregate.ext_iff, rollUp_samples]
  constructor
  · exact (hsplit.filterMap id).length_eq
  · funext key
    rw [rollUp_stats key (h key), aggregateSamples_stats]
    exact congrArg _ (accumulate_perm ((hsplit.filterMap id).filterMap _))

def alertSample (count : ℚ) : Option Sample :=
  some ⟨none, fun key => if key = .alertsCritical then some count else none⟩

/-- An hour with one alert in its first three samples, and none in the other five. -/
def oneAlert : List (List (Option Sample)) :=
  [[alertSample 1, alertSample 0, alertSample 0], List.replicate 5 (alertSample 0)]

/-- Two passes with averages of 0.25 and 0.5, merged to 0.33. -/
def quarters : List (List (Option Sample)) :=
  [[alertSample 1, alertSample 0, alertSample 0, alertSample 0], [alertSample 1, alertSample 0]]

theorem rollUp_unrounded_quarters :
    cloneAggregate (rollUp quarters) = aggregateSamples quarters.flatten := by
  refine rollUp_unrounded (.refl _) ?_
  intro key
  have hvalued : valued key quarters = [] ∨ valued key quarters = [[1, 0, 0, 0], [1, 0]] := by
    cases key <;> simp [valued, values, quarters, alertSample]
  intro front vs back heq _
  rcases hvalued with hnone | hboth
  · rw [hnone] at heq
    exact absurd heq.symm (by simp)
  · rw [hboth] at heq
    cases front with
    | nil =>
      cases heq
      exact ⟨⟨25, by norm_num⟩, fun _ => ⟨25, by norm_num⟩⟩
    | cons us front =>
      cases front with
      | nil =>
        cases heq
        exact ⟨⟨50, by norm_num⟩, fun h => absurd rfl h⟩
      | cons _ _ => simp at heq

/-- Once it averages 0.13 alerts, and merged 0.12. -/
theorem merged_average_drifts : ¬ ∀ (samples : List (Option Sample))
    (parts : List (List (Option Sample))), parts.flatten.Perm samples →
      cloneAggregate (rollUp parts) = aggregateSamples samples := by
  intro hall
  have heq := hall _ oneAlert (.refl _)
  have hne : (cloneAggregate (rollUp oneAlert)).stats .alertsCritical ≠
      (aggregateSamples oneAlert.flatten).stats .alertsCritical := by decide +kernel
  exact hne (congrArg (fun a => a.stats .alertsCritical) heq)

end Drac.Central.TimeSeries
