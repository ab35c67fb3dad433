import Mathlib.Data.Finset.Sort
import Mathlib.Data.List.ReduceOption
import Drac.Lib.Binary64

/-
  The points of a chart that are drawn.

  Correspondence (`chart-utils.js` ↔ Lean, under the same names):
    downsamplePoints   its set `keep` is a `Finset`; the loop over a bucket is `scanField`
    Number(list[index][field])   ↔ the parameter `value`, `none` where it is not finite

  `bucketSize` is a double, so a bucket may end one point early or late. Every position still
  lies in a bucket (`exists_bucket`). The floor of `max / perBucket` is exact: `max` is less than
  the length of the list there.
-/

namespace Drac.Central.Chart

open Binary64 (fl)

/-! ## A bucket -/

section Scan

variable {κ : Type} [LinearOrder κ]

/-- `if (value < minValue) { minValue = value; minIndex = index; }`. -/
def better (best : Option (ℕ × κ)) (index : ℕ) (v : κ) : Option (ℕ × κ) :=
  if best.all (fun b => v < b.2) then some (index, v) else best

/-- The first position from `start` on, and before `stop`, that has the least value. -/
def FirstLeast (at_ : ℕ → Option κ) (start stop i : ℕ) (v : κ) : Prop :=
  start ≤ i ∧ i < stop ∧ at_ i = some v ∧
    ∀ j w, start ≤ j → j < stop → at_ j = some w → v ≤ w ∧ (j < i → v < w)

/-- What a scan up to `stop` has found. -/
def Found (at_ : ℕ → Option κ) (start stop : ℕ) : Option (ℕ × κ) → Prop
  | none => ∀ j, start ≤ j → j < stop → at_ j = none
  | some (i, v) => FirstLeast at_ start stop i v

variable {at_ : ℕ → Option κ} {start stop : ℕ} {best : Option (ℕ × κ)}

theorem Found.skip (h : Found at_ start stop best) (hnone : at_ stop = none) :
    Found at_ start (stop + 1) best := by
  have hsplit : ∀ j, j < stop + 1 → j < stop ∨ j = stop := fun j hj => by omega
  cases best with
  | none =>
    intro j hstart hj
    rcases hsplit j hj with hj | rfl
    · exact h j hstart hj
    · exact hnone
  | some b =>
    obtain ⟨hstart, hstop, hv, hleast⟩ := h
    refine ⟨hstart, by omega, hv, ?_⟩
    intro j w hj hlt hw
    rcases hsplit j hlt with hlt | rfl
    · exact hleast j w hj hlt hw
    · rw [hnone] at hw
      cases hw

theorem Found.better (h : Found at_ start stop best) (hle : start ≤ stop) {v : κ}
    (hv : at_ stop = some v) : Found at_ start (stop + 1) (better best stop v) := by
  have hsplit : ∀ j, j < stop + 1 → j < stop ∨ j = stop := fun j hj => by omega
  cases best with
  | none =>
    refine ⟨hle, by omega, hv, ?_⟩
    intro j w hj hlt hw
    rcases hsplit j hlt with hlt | rfl
    · rw [h j hj hlt] at hw
      cases hw
    · rw [hv] at hw
      cases hw
      exact ⟨le_refl v, fun hself => absurd hself (by omega)⟩
  | some b =>
    obtain ⟨i, u⟩ := b
    obtain ⟨hstart, hstop, hu, hleast⟩ := h
    unfold Chart.better
    by_cases hlt : v < u
    · rw [if_pos (by simpa using hlt)]
      refine ⟨hle, by omega, hv, ?_⟩
      intro j w hj hjlt hw
      rcases hsplit j hjlt with hjlt | rfl
      · have hbelow : v < w := lt_of_lt_of_le hlt (hleast j w hj hjlt hw).1
        exact ⟨hbelow.le, fun _ => hbelow⟩
      · rw [hv] at hw
        cases hw
        exact ⟨le_refl v, fun hself => absurd hself (by omega)⟩
    · rw [if_neg (by simpa using hlt)]
      refine ⟨hstart, by omega, hu, ?_⟩
      intro j w hj hjlt hw
      rcases hsplit j hjlt with hjlt | rfl
      · exact hleast j w hj hjlt hw
      · rw [hv] at hw
        cases hw
        exact ⟨not_lt.mp hlt, fun hself => absurd hself (by omega)⟩

theorem FirstLeast.unique {i j : ℕ} {v w : κ} (h : FirstLeast at_ start stop i v)
    (k : FirstLeast at_ start stop j w) : i = j := by
  obtain ⟨hi, hilt, hv, hleast⟩ := h
  obtain ⟨hj, hjlt, hw, hleast'⟩ := k
  have hvw := hleast j w hj hjlt hw
  have hwv := hleast' i v hi hilt hv
  rcases Nat.lt_trichotomy i j with hlt | heq | hlt
  · exact absurd (hwv.2 hlt) (not_lt.mpr hvw.1)
  · exact heq
  · exact absurd (hvw.2 hlt) (not_lt.mpr hwv.1)

end Scan

variable {α : Type}

/-- `minIndex` with `minValue`, and `maxIndex` with `maxValue`. -/
structure Extremes where
  low : Option (ℕ × ℚ) := none
  high : Option (ℕ × ℚᵒᵈ) := none

def scanStep (at_ : ℕ → Option ℚ) (e : Extremes) (index : ℕ) : Extremes :=
  match at_ index with
  | none => e
  | some v => ⟨better e.low index v, better e.high index (OrderDual.toDual v)⟩

def valueAt (value : α → Option ℚ) (list : List α) (index : ℕ) : Option ℚ :=
  list[index]?.bind value

def dualAt (at_ : ℕ → Option ℚ) (index : ℕ) : Option ℚᵒᵈ := (at_ index).map OrderDual.toDual

def scanField (at_ : ℕ → Option ℚ) (start stop : ℕ) : Extremes :=
  (List.range' start (stop - start)).foldl (scanStep at_) {}

theorem scanField_found (at_ : ℕ → Option ℚ) (start length : ℕ) :
    Found at_ start (start + length) (scanField at_ start (start + length)).low ∧
      Found (dualAt at_) start (start + length) (scanField at_ start (start + length)).high := by
  unfold scanField
  rw [Nat.add_sub_cancel_left]
  induction length with
  | zero => exact ⟨fun j hj hlt => by omega, fun j hj hlt => by omega⟩
  | succ length ih =>
    obtain ⟨hlow, hhigh⟩ := ih
    rw [List.range'_concat, List.foldl_append, List.foldl_cons, List.foldl_nil, Nat.one_mul,
      ← Nat.add_assoc]
    generalize (List.range' start length).foldl (scanStep at_) {} = e at hlow hhigh ⊢
    unfold scanStep
    cases hv : at_ (start + length) with
    | none => exact ⟨hlow.skip hv, hhigh.skip (by rw [dualAt, hv]; rfl)⟩
    | some v =>
      exact ⟨hlow.better (Nat.le_add_right _ _) hv,
        hhigh.better (Nat.le_add_right _ _) (by rw [dualAt, hv]; rfl)⟩

/-! ## The buckets -/

/-- `Math.floor(bucket * bucketSize)`. -/
def bucketStart (length buckets bucket : ℕ) : ℕ := ⌊fl (bucket * fl (length / buckets))⌋₊

def bucketEnd (length buckets bucket : ℕ) : ℕ :=
  if bucket = buckets - 1 then length else bucketStart length buckets (bucket + 1)

/-- `if (index >= 0) keep.add(index)`. -/
def addIndex {κ : Type} (keep : Finset ℕ) (best : Option (ℕ × κ)) : Finset ℕ :=
  match best with
  | none => keep
  | some b => insert b.1 keep

def keepField (value : α → String → Option ℚ) (list : List α) (start stop : ℕ) (keep : Finset ℕ)
    (field : String) : Finset ℕ :=
  let e := scanField (valueAt (value · field) list) start stop
  addIndex (addIndex keep e.low) e.high

def keepBucket (value : α → String → Option ℚ) (list : List α) (fields : List String)
    (buckets : ℕ) (keep : Finset ℕ) (bucket : ℕ) : Finset ℕ :=
  let start := bucketStart list.length buckets bucket
  let stop := bucketEnd list.length buckets bucket
  if stop ≤ start then keep
  else if fields = [] then insert start keep
  else fields.foldl (keepField value list start stop) keep

/-- The set `keep` once all buckets are done. -/
def keptSet (value : α → String → Option ℚ) (list : List α) (fields : List String)
    (buckets : ℕ) : Finset ℕ :=
  (List.range buckets).foldl (keepBucket value list fields buckets) {0, list.length - 1}

/-- `Array.from(keep).sort((a, b) => a - b).map((index) => list[index])`. -/
def pointsAt (list : List α) (keep : Finset ℕ) : List α :=
  (keep.sort (· ≤ ·)).filterMap (list[·]?)

/-- `maxPoints` is `none` where it is no finite number; a point that is no object is `none`. -/
def downsamplePoints (value : α → String → Option ℚ) (points : List (Option α))
    (maxPoints : Option ℚ) (keys : List String) : List α :=
  let list := points.reduceOption
  let max := Nat.max 2 ⌊maxPoints.getD 2⌋₊
  if list.length ≤ max then list
  else
    let fields := keys.filter (· ≠ "")
    let perBucket := Nat.max 2 (fields.length * 2)
    let buckets := Nat.max 1 (max / perBucket)
    pointsAt list (keptSet value list fields buckets)

/-! ## The positions that are kept -/

/-- The position that has the least value of the field first, or the greatest. -/
def FirstExtreme (at_ : ℕ → Option ℚ) (start stop i : ℕ) : Prop :=
  (∃ v, FirstLeast at_ start stop i v) ∨ ∃ v, FirstLeast (dualAt at_) start stop i v

theorem mem_addIndex {κ : Type} {keep : Finset ℕ} {best : Option (ℕ × κ)} {i : ℕ} :
    i ∈ addIndex keep best ↔ i ∈ keep ∨ ∃ v, best = some (i, v) := by
  cases best with
  | none => simp [addIndex]
  | some b =>
    obtain ⟨j, v⟩ := b
    simp only [addIndex, Finset.mem_insert, Option.some.injEq, Prod.mk.injEq, exists_and_left,
      exists_eq', and_true]
    rw [or_comm, eq_comm]

theorem card_addIndex_le {κ : Type} (keep : Finset ℕ) (best : Option (ℕ × κ)) :
    (addIndex keep best).card ≤ keep.card + 1 := by
  cases best with
  | none => exact Nat.le_succ _
  | some b => exact Finset.card_insert_le _ _

theorem found_iff {κ : Type} [LinearOrder κ] {at_ : ℕ → Option κ} {start stop i : ℕ}
    {best : Option (ℕ × κ)} (h : Found at_ start stop best) :
    (∃ v, best = some (i, v)) ↔ ∃ v, FirstLeast at_ start stop i v := by
  constructor
  · rintro ⟨v, rfl⟩
    exact ⟨v, h⟩
  · rintro ⟨v, hv⟩
    cases best with
    | none =>
      have hnone := h i hv.1 hv.2.1
      rw [hv.2.2.1] at hnone
      cases hnone
    | some b =>
      obtain ⟨j, w⟩ := b
      exact ⟨w, by rw [FirstLeast.unique hv h]⟩

variable {value : α → String → Option ℚ} {list : List α} {fields : List String}
  {start stop : ℕ} {keep : Finset ℕ} {i : ℕ}

theorem mem_keepField (hle : start ≤ stop) (field : String) :
    i ∈ keepField value list start stop keep field ↔
      i ∈ keep ∨ FirstExtreme (valueAt (value · field) list) start stop i := by
  obtain ⟨length, rfl⟩ := Nat.exists_eq_add_of_le hle
  obtain ⟨hlow, hhigh⟩ := scanField_found (valueAt (value · field) list) start length
  unfold keepField FirstExtreme
  rw [mem_addIndex, mem_addIndex, found_iff hlow, found_iff hhigh, or_assoc]

theorem mem_keepFields (hle : start ≤ stop) :
    i ∈ fields.foldl (keepField value list start stop) keep ↔
      i ∈ keep ∨ ∃ field ∈ fields, FirstExtreme (valueAt (value · field) list) start stop i := by
  induction fields generalizing keep with
  | nil => simp
  | cons field fields ih =>
    rw [List.foldl_cons, ih, mem_keepField hle, or_assoc]
    simp

theorem card_keepFields_le :
    (fields.foldl (keepField value list start stop) keep).card ≤ keep.card + fields.length * 2 := by
  induction fields generalizing keep with
  | nil => simp
  | cons field fields ih =>
    have hlow := card_addIndex_le keep (scanField (valueAt (value · field) list) start stop).low
    have hhigh := card_addIndex_le
      (addIndex keep (scanField (valueAt (value · field) list) start stop).low)
      (scanField (valueAt (value · field) list) start stop).high
    have hrest := @ih (keepField value list start stop keep field)
    rw [List.foldl_cons, List.length_cons]
    unfold keepField at hrest ⊢
    dsimp only at hrest ⊢
    omega

theorem mem_keepBucket {buckets bucket : ℕ} (hstart : bucketStart list.length buckets bucket = start)
    (hstop : bucketEnd list.length buckets bucket = stop) (hlt : start < stop) :
    i ∈ keepBucket value list fields buckets keep bucket ↔
      i ∈ keep ∨ (fields = [] ∧ i = start) ∨
        ∃ field ∈ fields, FirstExtreme (valueAt (value · field) list) start stop i := by
  unfold keepBucket
  dsimp only
  rw [hstart, hstop, if_neg (by omega)]
  by_cases hnone : fields = []
  · rw [if_pos hnone, Finset.mem_insert, hnone]
    simp [or_comm]
  · rw [if_neg hnone, mem_keepFields hlt.le]
    simp [hnone]

theorem subset_keepBucket {buckets bucket : ℕ} :
    keep ⊆ keepBucket value list fields buckets keep bucket := by
  intro i hi
  by_cases hlt : bucketStart list.length buckets bucket < bucketEnd list.length buckets bucket
  · exact (mem_keepBucket rfl rfl hlt).mpr (.inl hi)
  · unfold keepBucket
    dsimp only
    rwa [if_pos (not_lt.mp hlt)]

theorem card_keepBucket_le {buckets bucket : ℕ} :
    (keepBucket value list fields buckets keep bucket).card ≤
      keep.card + Nat.max 2 (fields.length * 2) := by
  have htwo : 2 ≤ Nat.max 2 (fields.length * 2) := Nat.le_max_left _ _
  have hfields : fields.length * 2 ≤ Nat.max 2 (fields.length * 2) := Nat.le_max_right _ _
  unfold keepBucket
  dsimp only
  split
  · omega
  · split
    · exact (Finset.card_insert_le _ _).trans (by omega)
    · exact card_keepFields_le.trans (by omega)

/-! ## All buckets -/

variable {buckets : ℕ}

theorem bucketStart_zero (length buckets : ℕ) : bucketStart length buckets 0 = 0 := by
  have hzero : fl 0 = 0 := if_pos rfl
  rw [bucketStart, Nat.cast_zero, zero_mul, hzero, Nat.floor_zero]

theorem exists_bucket_from {length : ℕ} (hi : i < length) : ∀ left bucket : ℕ,
    bucket + left + 1 = buckets → bucketStart length buckets bucket ≤ i →
    ∃ b < buckets, bucketStart length buckets b ≤ i ∧ i < bucketEnd length buckets b := by
  intro left
  induction left with
  | zero =>
    intro bucket hlast hstart
    refine ⟨bucket, by omega, hstart, ?_⟩
    rw [bucketEnd, if_pos (by omega)]
    exact hi
  | succ left ih =>
    intro bucket hleft hstart
    by_cases hnext : bucketStart length buckets (bucket + 1) ≤ i
    · exact ih (bucket + 1) (by omega) hnext
    · refine ⟨bucket, by omega, hstart, ?_⟩
      rw [bucketEnd, if_neg (by omega)]
      exact not_le.mp hnext

/-- **Every position is in a bucket**, however `bucketSize` is rounded. -/
theorem exists_bucket {length : ℕ} (hi : i < length) (hbuckets : 0 < buckets) :
    ∃ b < buckets, bucketStart length buckets b ≤ i ∧ i < bucketEnd length buckets b := by
  obtain ⟨left, rfl⟩ := Nat.exists_eq_add_of_lt hbuckets
  apply exists_bucket_from hi left 0 (by omega)
  rw [bucketStart_zero]
  exact Nat.zero_le i

theorem mem_keepBuckets_of_mem {indices : List ℕ} (hi : i ∈ keep) :
    i ∈ indices.foldl (keepBucket value list fields buckets) keep := by
  induction indices generalizing keep with
  | nil => exact hi
  | cons bucket indices ih => exact ih (subset_keepBucket hi)

theorem mem_keepBuckets {indices : List ℕ} {bucket : ℕ} (hbucket : bucket ∈ indices)
    (h : ∀ keep, i ∈ keepBucket value list fields buckets keep bucket) :
    i ∈ indices.foldl (keepBucket value list fields buckets) keep := by
  induction indices generalizing keep with
  | nil => cases hbucket
  | cons other indices ih =>
    rw [List.foldl_cons]
    obtain rfl | hrest := List.mem_cons.mp hbucket
    · exact mem_keepBuckets_of_mem (h keep)
    · exact ih hrest

theorem card_keepBuckets_le {indices : List ℕ} :
    (indices.foldl (keepBucket value list fields buckets) keep).card ≤
      keep.card + indices.length * Nat.max 2 (fields.length * 2) := by
  induction indices generalizing keep with
  | nil => simp
  | cons bucket indices ih =>
    have hone : (keepBucket value list fields buckets keep bucket).card ≤
        keep.card + Nat.max 2 (fields.length * 2) := card_keepBucket_le
    have hrest := @ih (keepBucket value list fields buckets keep bucket)
    rw [List.foldl_cons, List.length_cons, Nat.succ_mul]
    omega

/-! ## The points at the positions -/

theorem sort_filter_lt (keep : Finset ℕ) (n : ℕ) :
    (keep.sort (· ≤ ·)).filter (· < n) = (List.range n).filter (· ∈ keep) := by
  have hsets : ((keep.sort (· ≤ ·)).filter (· < n)).toFinset =
      ((List.range n).filter (· ∈ keep)).toFinset := by
    ext j
    simp [and_comm]
  have hleft := (List.toFinset_sort (· ≤ ·) ((keep.sort_nodup (· ≤ ·)).filter (· < n))).mpr
    ((keep.pairwise_sort (· ≤ ·)).filter _)
  have hnodup : ((List.range n).filter (· ∈ keep)).Nodup := List.nodup_range.filter _
  have hright := (List.toFinset_sort (· ≤ ·) hnodup).mpr (List.pairwise_le_range.filter _)
  rw [← hleft, hsets, hright]

theorem pointsAt_eq (list : List α) (keep : Finset ℕ) :
    pointsAt list keep = ((List.range list.length).filter (· ∈ keep)).filterMap (list[·]?) := by
  rw [← sort_filter_lt, List.filterMap_filter, pointsAt]
  congr 1
  funext j
  by_cases hj : j < list.length
  · simp [hj]
  · simp [hj]

theorem range_filterMap (list : List α) : (List.range list.length).filterMap (list[·]?) = list := by
  induction list with
  | nil => rfl
  | cons p list ih =>
    rw [List.length_cons, List.range_succ_eq_map, List.filterMap_cons, List.filterMap_map]
    simpa using ih

theorem pointsAt_sublist (list : List α) (keep : Finset ℕ) : (pointsAt list keep).Sublist list := by
  rw [pointsAt_eq]
  conv => rhs; rw [← range_filterMap list]
  exact List.Sublist.filterMap _ List.filter_sublist

theorem mem_pointsAt {p : α} (hi : i ∈ keep) (hp : list[i]? = some p) : p ∈ pointsAt list keep := by
  rw [pointsAt, List.mem_filterMap]
  exact ⟨i, (Finset.mem_sort _).mpr hi, hp⟩

theorem length_pointsAt_le (list : List α) (keep : Finset ℕ) :
    (pointsAt list keep).length ≤ keep.card := by
  rw [← Finset.length_sort (· ≤ ·)]
  exact List.length_filterMap_le _ _

theorem length_pointsAt (hkeep : ∀ i ∈ keep, i < list.length) :
    (pointsAt list keep).length = keep.card := by
  rw [← Finset.length_sort (· ≤ ·), pointsAt, List.length_filterMap_eq_countP,
    List.countP_eq_length]
  intro j hj
  simpa using hkeep j ((Finset.mem_sort _).mp hj)

theorem head?_pointsAt (h : 0 ∈ keep) : (pointsAt list keep).head? = list.head? := by
  cases list with
  | nil => simp [pointsAt_eq]
  | cons p list =>
    rw [pointsAt_eq, List.length_cons, List.range_succ_eq_map, List.filter_cons,
      if_pos (by simpa using h), List.filterMap_cons]
    rfl

theorem getLast?_pointsAt (h : list.length - 1 ∈ keep) :
    (pointsAt list keep).getLast? = list.getLast? := by
  rcases list.eq_nil_or_concat' with rfl | ⟨front, p, rfl⟩
  · simp [pointsAt_eq]
  · rw [List.length_append, List.length_singleton, Nat.add_sub_cancel] at h
    rw [pointsAt_eq, List.length_append, List.length_singleton, List.range_succ,
      List.filter_append, List.filterMap_append]
    simp [h]

/-! ## What the chart shows -/

/-- A sublist with both ends and a point of each extreme value. -/
structure Keeps (value : α → String → Option ℚ) (list : List α) (fields : List String)
    (kept : List α) : Prop where
  sublist : kept.Sublist list
  first : kept.head? = list.head?
  last : kept.getLast? = list.getLast?
  least : ∀ field ∈ fields, ∀ p ∈ list, (value p field).isSome →
    ∃ q ∈ kept, ∃ w, value q field = some w ∧ ∀ r ∈ list, ∀ v, value r field = some v → w ≤ v
  greatest : ∀ field ∈ fields, ∀ p ∈ list, (value p field).isSome →
    ∃ q ∈ kept, ∃ w, value q field = some w ∧ ∀ r ∈ list, ∀ v, value r field = some v → v ≤ w

open Classical in
/-- The ends, and the first extremes of the fields over the whole list. -/
noncomputable def landmarks (value : α → String → Option ℚ) (list : List α) (fields : List String) :
    Finset ℕ :=
  (Finset.range list.length).filter fun i => i = 0 ∨ i = list.length - 1 ∨
    ∃ field ∈ fields, FirstExtreme (valueAt (value · field) list) 0 list.length i

theorem mem_landmarks : i ∈ landmarks value list fields ↔ i < list.length ∧
    (i = 0 ∨ i = list.length - 1 ∨
      ∃ field ∈ fields, FirstExtreme (valueAt (value · field) list) 0 list.length i) := by
  classical
  rw [landmarks, Finset.mem_filter, Finset.mem_range]

theorem Found.exists_firstLeast {κ : Type} [LinearOrder κ] {at_ : ℕ → Option κ}
    {best : Option (ℕ × κ)} (h : Found at_ start stop best) (hstart : start ≤ i) (hstop : i < stop)
    (hsome : (at_ i).isSome) : ∃ j v, FirstLeast at_ start stop j v := by
  cases best with
  | none =>
    rw [h i hstart hstop] at hsome
    cases hsome
  | some b => exact ⟨b.1, b.2, h⟩

theorem valueAt_eq_some {value : α → Option ℚ} {v : ℚ} (h : valueAt value list i = some v) :
    ∃ q, list[i]? = some q ∧ value q = some v := Option.bind_eq_some_iff.mp h

/-- **What has the landmarks shows the extremes.** -/
theorem keeps_pointsAt (h : landmarks value list fields ⊆ keep) :
    Keeps value list fields (pointsAt list keep) := by
  have hends : list.length ≠ 0 → 0 ∈ keep ∧ list.length - 1 ∈ keep := by
    intro hne
    exact ⟨h (mem_landmarks.mpr ⟨by omega, .inl rfl⟩),
      h (mem_landmarks.mpr ⟨by omega, .inr (.inl rfl)⟩)⟩
  have hfound := fun field => scanField_found (valueAt (value · field) list) 0 list.length
  simp only [Nat.zero_add] at hfound
  refine ⟨pointsAt_sublist list keep, ?_, ?_, ?_, ?_⟩
  · by_cases hnil : list = []
    · rw [hnil, List.sublist_nil.mp (pointsAt_sublist [] keep)]
    · exact head?_pointsAt (hends (by simpa using hnil)).1
  · by_cases hnil : list = []
    · rw [hnil, List.sublist_nil.mp (pointsAt_sublist [] keep)]
    · exact getLast?_pointsAt (hends (by simpa using hnil)).2
  · intro field hfield p hp hsome
    obtain ⟨j, hj⟩ := List.mem_iff_getElem?.mp hp
    have hlt : j < list.length := (List.getElem?_eq_some_iff.mp hj).1
    obtain ⟨i, v, hleast⟩ := (hfound field).1.exists_firstLeast (Nat.zero_le j) hlt
      (by rwa [valueAt, hj])
    obtain ⟨q, hq, hv⟩ := valueAt_eq_some hleast.2.2.1
    refine ⟨q, mem_pointsAt (h (mem_landmarks.mpr
      ⟨hleast.2.1, .inr (.inr ⟨field, hfield, .inl ⟨v, hleast⟩⟩)⟩)) hq, v, hv, ?_⟩
    intro r hr w hw
    obtain ⟨k, hk⟩ := List.mem_iff_getElem?.mp hr
    exact (hleast.2.2.2 k w (Nat.zero_le k) (List.getElem?_eq_some_iff.mp hk).1
      (by rw [valueAt, hk]; exact hw)).1
  · intro field hfield p hp hsome
    obtain ⟨j, hj⟩ := List.mem_iff_getElem?.mp hp
    have hlt : j < list.length := (List.getElem?_eq_some_iff.mp hj).1
    obtain ⟨i, v, hgreatest⟩ := (hfound field).2.exists_firstLeast (Nat.zero_le j) hlt
      (by rw [dualAt, valueAt, hj, Option.isSome_map]; exact hsome)
    obtain ⟨u, hu, rfl⟩ := Option.map_eq_some_iff.mp hgreatest.2.2.1
    obtain ⟨q, hq, hv⟩ := valueAt_eq_some hu
    refine ⟨q, mem_pointsAt (h (mem_landmarks.mpr
      ⟨hgreatest.2.1, .inr (.inr ⟨field, hfield, .inr ⟨_, hgreatest⟩⟩)⟩)) hq, u, hv, ?_⟩
    intro r hr w hw
    obtain ⟨k, hk⟩ := List.mem_iff_getElem?.mp hr
    have hdual : dualAt (valueAt (value · field) list) k = some (OrderDual.toDual w) := by
      rw [dualAt, valueAt, hk]
      exact congrArg (Option.map OrderDual.toDual) hw
    exact OrderDual.toDual_le_toDual.mp (hgreatest.2.2.2 k _ (Nat.zero_le k)
      (List.getElem?_eq_some_iff.mp hk).1 hdual).1

theorem pointsAt_range (list : List α) : pointsAt list (Finset.range list.length) = list := by
  have hall : (List.range list.length).filter (· ∈ Finset.range list.length) =
      List.range list.length := by
    rw [List.filter_eq_self]
    intro j hj
    simpa using hj
  rw [pointsAt_eq, hall, range_filterMap]

theorem keeps_refl : Keeps value list fields list := by
  have hsub : landmarks value list fields ⊆ Finset.range list.length :=
    fun i hi => Finset.mem_range.mpr (mem_landmarks.mp hi).1
  have h := keeps_pointsAt hsub
  rwa [pointsAt_range] at h

theorem FirstLeast.restrict {κ : Type} [LinearOrder κ] {at_ : ℕ → Option κ} {n : ℕ} {v : κ}
    (h : FirstLeast at_ 0 n i v) (hnone : ∀ j, n ≤ j → at_ j = none) (hstart : start ≤ i)
    (hstop : i < stop) : FirstLeast at_ start stop i v := by
  refine ⟨hstart, hstop, h.2.2.1, ?_⟩
  intro j w hj hlt hw
  refine h.2.2.2 j w (Nat.zero_le j) ?_ hw
  by_contra hbeyond
  rw [hnone j (not_lt.mp hbeyond)] at hw
  cases hw

theorem FirstExtreme.restrict {value : α → Option ℚ}
    (h : FirstExtreme (valueAt value list) 0 list.length i) (hstart : start ≤ i) (hstop : i < stop) :
    FirstExtreme (valueAt value list) start stop i := by
  have hnone : ∀ j, list.length ≤ j → valueAt value list j = none := by
    intro j hj
    rw [valueAt, List.getElem?_eq_none hj]
    rfl
  obtain ⟨v, hleast⟩ | ⟨v, hgreatest⟩ := h
  · exact .inl ⟨v, hleast.restrict hnone hstart hstop⟩
  · refine .inr ⟨v, hgreatest.restrict ?_ hstart hstop⟩
    intro j hj
    rw [dualAt, hnone j hj]
    rfl

/-- **The buckets keep the landmarks.** -/
theorem landmarks_subset (hbuckets : 0 < buckets) :
    landmarks value list fields ⊆ keptSet value list fields buckets := by
  intro i hi
  obtain ⟨hlt, hzero | hlast | ⟨field, hfield, hextreme⟩⟩ := mem_landmarks.mp hi
  · exact mem_keepBuckets_of_mem (by simp [hzero])
  · exact mem_keepBuckets_of_mem (by simp [hlast])
  · obtain ⟨bucket, hbucket, hstart, hstop⟩ := exists_bucket hlt hbuckets
    apply mem_keepBuckets (List.mem_range.mpr hbucket)
    intro keep
    rw [mem_keepBucket rfl rfl (by omega)]
    exact .inr (.inr ⟨field, hfield, hextreme.restrict hstart hstop⟩)

theorem keptSet_one (hlength : 0 < list.length) :
    keptSet value list fields 1 = landmarks value list fields := by
  ext i
  have hstart : bucketStart list.length 1 0 = 0 := bucketStart_zero _ _
  have hstop : bucketEnd list.length 1 0 = list.length := if_pos rfl
  rw [keptSet, List.range_one, List.foldl_cons, List.foldl_nil, mem_keepBucket hstart hstop hlength,
    mem_landmarks, Finset.mem_insert, Finset.mem_singleton]
  constructor
  · rintro ((rfl | rfl) | ⟨-, rfl⟩ | ⟨field, hfield, hextreme⟩)
    · exact ⟨hlength, .inl rfl⟩
    · exact ⟨by omega, .inr (.inl rfl)⟩
    · exact ⟨hlength, .inl rfl⟩
    · refine ⟨?_, .inr (.inr ⟨field, hfield, hextreme⟩)⟩
      obtain ⟨v, hv⟩ | ⟨v, hv⟩ := hextreme
      · exact hv.2.1
      · exact hv.2.1
  · rintro ⟨-, hzero | hlast | hextreme⟩
    · exact .inl (.inl hzero)
    · exact .inl (.inr hlast)
    · exact .inr (.inr hextreme)

theorem card_keptSet_le :
    (keptSet value list fields buckets).card ≤ 2 + buckets * Nat.max 2 (fields.length * 2) := by
  have hfold : (keptSet value list fields buckets).card ≤
      ({0, list.length - 1} : Finset ℕ).card +
        (List.range buckets).length * Nat.max 2 (fields.length * 2) := card_keepBuckets_le
  have hends : ({0, list.length - 1} : Finset ℕ).card ≤ 2 := Finset.card_le_two
  rw [List.length_range] at hfold
  exact hfold.trans (by omega)

/-- **What is drawn has the ends and the extremes**, of every list and at every limit. -/
theorem downsamplePoints_keeps (value : α → String → Option ℚ) (points : List (Option α))
    (maxPoints : Option ℚ) (keys : List String) :
    Keeps value points.reduceOption (keys.filter (· ≠ ""))
      (downsamplePoints value points maxPoints keys) := by
  unfold downsamplePoints
  dsimp only
  split
  · exact keeps_refl
  · exact keeps_pointsAt (landmarks_subset (Nat.le_max_left _ _))

theorem buckets_eq_one {max perBucket : ℕ} (h : max < perBucket ∨ perBucket = 2 ∧ max = 2) :
    Nat.max 1 (max / perBucket) = 1 := by
  obtain hlt | ⟨rfl, rfl⟩ := h
  · rw [Nat.div_eq_of_lt hlt]
    rfl
  · rfl

theorem buckets_mul_le {max perBucket : ℕ} (h : perBucket ≤ max) :
    Nat.max 1 (max / perBucket) * perBucket ≤ max := by
  rcases Nat.eq_zero_or_pos (max / perBucket) with hzero | hpos
  · rw [hzero]
    simpa using h
  · rw [show Nat.max 1 (max / perBucket) = max / perBucket from Nat.max_eq_right hpos]
    exact Nat.div_mul_le_self _ _

theorem downsamplePoints_short (points : List (Option α)) (maxPoints : Option ℚ)
    (keys : List String) (h : points.reduceOption.length ≤ Nat.max 2 ⌊maxPoints.getD 2⌋₊) :
    downsamplePoints value points maxPoints keys = points.reduceOption := if_pos h

theorem length_short_le {m : ℚ} (h : list.length ≤ Nat.max 2 ⌊m⌋₊)
    (hfew : ((landmarks value list fields).card : ℚ) ≤ m + 2) : (list.length : ℚ) ≤ m + 2 := by
  by_cases htwo : 2 ≤ ⌊m⌋₊
  · rw [show Nat.max 2 ⌊m⌋₊ = ⌊m⌋₊ from Nat.max_eq_right htwo] at h
    have hpos : 0 ≤ m := (Nat.floor_pos.mp (by omega)).trans' zero_le_one
    calc (list.length : ℚ) ≤ ⌊m⌋₊ := by exact_mod_cast h
      _ ≤ m := Nat.floor_le hpos
      _ ≤ m + 2 := by linarith
  · rw [show Nat.max 2 ⌊m⌋₊ = 2 from Nat.max_eq_left (by omega)] at h
    have hall : landmarks value list fields = Finset.range list.length := by
      ext i
      rw [mem_landmarks, Finset.mem_range]
      exact ⟨And.left, fun hi => ⟨hi, by omega⟩⟩
    rwa [hall, Finset.card_range] at hfew

theorem length_downsamplePoints (points : List (Option α)) (m : ℚ) (keys : List String)
    (hfew : m < (Nat.max 2 ((keys.filter (· ≠ "")).length * 2) : ℕ))
    (hlong : Nat.max 2 ⌊m⌋₊ < points.reduceOption.length) :
    (downsamplePoints value points (some m) keys).length =
      (landmarks value points.reduceOption (keys.filter (· ≠ ""))).card := by
  have hfloor : ⌊m⌋₊ < Nat.max 2 ((keys.filter (· ≠ "")).length * 2) := by
    by_cases hpos : 0 ≤ m
    · exact (Nat.floor_lt hpos).mpr hfew
    · rw [Nat.floor_of_nonpos (not_le.mp hpos).le]
      exact lt_of_lt_of_le Nat.two_pos (Nat.le_max_left _ _)
  have hone : Nat.max 1 (Nat.max 2 ⌊m⌋₊ / Nat.max 2 ((keys.filter (· ≠ "")).length * 2)) = 1 := by
    apply buckets_eq_one
    simp only [Nat.max_def] at hfloor ⊢
    split_ifs at hfloor ⊢ <;> omega
  unfold downsamplePoints
  dsimp only [Option.getD_some]
  rw [if_neg (not_le.mpr hlong), hone, keptSet_one (by omega)]
  exact length_pointsAt fun i hi => (mem_landmarks.mp hi).1

theorem length_downsamplePoints_le (points : List (Option α)) (m : ℚ) (keys : List String)
    (hfit : ((Nat.max 2 ((keys.filter (· ≠ "")).length * 2) : ℕ) : ℚ) ≤ m) :
    ((downsamplePoints value points (some m) keys).length : ℚ) ≤ m + 2 := by
  have hpos : 0 ≤ m := (Nat.cast_nonneg _).trans hfit
  have hper : Nat.max 2 ((keys.filter (· ≠ "")).length * 2) ≤ ⌊m⌋₊ := Nat.le_floor hfit
  have htwo : 2 ≤ ⌊m⌋₊ := (Nat.le_max_left _ _).trans hper
  have hmax : Nat.max 2 ⌊m⌋₊ = ⌊m⌋₊ := Nat.max_eq_right htwo
  suffices h : (downsamplePoints value points (some m) keys).length ≤ ⌊m⌋₊ + 2 by
    calc ((downsamplePoints value points (some m) keys).length : ℚ) ≤ (⌊m⌋₊ + 2 : ℕ) := by
          exact_mod_cast h
      _ = ⌊m⌋₊ + 2 := by push_cast; ring
      _ ≤ m + 2 := by linarith [Nat.floor_le hpos]
  unfold downsamplePoints
  dsimp only [Option.getD_some]
  rw [hmax]
  split
  · omega
  · have hlength := (length_pointsAt_le points.reduceOption _).trans
      (@card_keptSet_le _ value points.reduceOption (keys.filter (· ≠ ""))
        (Nat.max 1 (⌊m⌋₊ / Nat.max 2 ((keys.filter (· ≠ "")).length * 2))))
    have hdiv := buckets_mul_le hper
    omega

/-- **The extremes are drawn and the limit is kept** just where two points for each field fit, or
the ends and the first extremes of the fields are few enough. -/
theorem downsamplePoints_iff (value : α → String → Option ℚ) (points : List (Option α)) (m : ℚ)
    (keys : List String) :
    (Keeps value points.reduceOption (keys.filter (· ≠ ""))
        (downsamplePoints value points (some m) keys) ∧
      ((downsamplePoints value points (some m) keys).length : ℚ) ≤ m + 2) ↔
      ((Nat.max 2 ((keys.filter (· ≠ "")).length * 2) : ℕ) : ℚ) ≤ m ∨
        ((landmarks value points.reduceOption (keys.filter (· ≠ ""))).card : ℚ) ≤ m + 2 := by
  have hcard : (landmarks value points.reduceOption (keys.filter (· ≠ ""))).card ≤
      points.reduceOption.length := by
    rw [← Finset.card_range points.reduceOption.length]
    exact Finset.card_le_card fun i hi => Finset.mem_range.mpr (mem_landmarks.mp hi).1
  constructor
  · rintro ⟨-, hlength⟩
    by_cases hfit : ((Nat.max 2 ((keys.filter (· ≠ "")).length * 2) : ℕ) : ℚ) ≤ m
    · exact .inl hfit
    · right
      by_cases hlong : Nat.max 2 ⌊m⌋₊ < points.reduceOption.length
      · rwa [length_downsamplePoints points m keys (not_le.mp hfit) hlong] at hlength
      · -- the whole list is drawn
        rw [downsamplePoints_short points (some m) keys (not_lt.mp hlong)] at hlength
        exact le_trans (by exact_mod_cast hcard) hlength
  · intro hroom
    refine ⟨downsamplePoints_keeps value points (some m) keys, ?_⟩
    by_cases hfit : ((Nat.max 2 ((keys.filter (· ≠ "")).length * 2) : ℕ) : ℚ) ≤ m
    · exact length_downsamplePoints_le points m keys hfit
    · have hfew := hroom.resolve_left hfit
      by_cases hlong : Nat.max 2 ⌊m⌋₊ < points.reduceOption.length
      · rwa [length_downsamplePoints points m keys (not_le.mp hfit) hlong]
      · rw [downsamplePoints_short points (some m) keys (not_lt.mp hlong)]
        exact length_short_le (not_lt.mp hlong) hfew

def peaks : List (Option (String → Option ℚ)) :=
  [(5, 5), (9, 5), (1, 5), (5, 9), (5, 1), (5, 5)].map fun p =>
    some fun field => if field = "cpu" then some p.1 else some p.2

/-- All six are drawn where the limit is two. -/
theorem downsamplePoints_peaks : ¬ ((downsamplePoints (fun p field => p field) peaks (some 2)
    ["cpu", "mem"]).length : ℚ) ≤ 2 + 2 := by
  unfold downsamplePoints
  simp only [pointsAt_eq]
  decide +kernel

end Drac.Central.Chart
