import Mathlib.Data.List.Sort
import Drac.Lib.BinarySearch

/-
  Order statistics from a histogram.

  In a sorted list the elements that are at most `v` are a front, so the `k`-th is at most `v`
  just where more than `k` are (`getElem_le_iff`). The cumulative counts of a list of bins are
  those numbers (`cumsum_bincount`), and a binary search among them for the first that is above
  `k` ends at the `k`-th element of the sorted list (`searchsortedRight_eq`).
-/

namespace OrderStatistics

section Sorted

variable {κ : Type} [LinearOrder κ]

theorem getElem_le_iff {s : List κ} (hs : s.Pairwise (· ≤ ·)) {k : ℕ} (hk : k < s.length) (v : κ) :
    s[k] ≤ v ↔ k < s.countP (· ≤ v) := by
  induction s generalizing k with
  | nil => cases hk
  | cons a s ih =>
    obtain ⟨ha, hs⟩ := List.pairwise_cons.mp hs
    rw [List.countP_cons]
    by_cases hav : a ≤ v
    · rw [if_pos (by simpa using hav)]
      cases k with
      | zero => simpa using hav
      | succ k =>
        rw [List.getElem_cons_succ, ih hs (by simpa using hk)]
        omega
    · -- all that follow are above `v` as well
      have hnone : s.countP (· ≤ v) = 0 := by
        rw [List.countP_eq_zero]
        intro b hb
        simpa using lt_of_lt_of_le (not_le.mp hav) (ha b hb)
      rw [hnone, if_neg (by simpa using hav)]
      constructor
      · intro hle
        have hleast : a ≤ (a :: s)[k] := by
          cases k with
          | zero => exact le_refl a
          | succ k => exact ha _ (List.getElem_mem _)
        exact absurd (hleast.trans hle) hav
      · intro hlt
        omega

/-- The `k`-th of the sorted list. -/
def orderStatistic (l : List κ) (k : ℕ) (hk : k < l.length) : κ :=
  (l.insertionSort (· ≤ ·)).get ⟨k, by rwa [List.length_insertionSort]⟩

theorem orderStatistic_le_iff {l : List κ} {k : ℕ} (hk : k < l.length) (v : κ) :
    orderStatistic l k hk ≤ v ↔ k < l.countP (· ≤ v) := by
  rw [← (List.perm_insertionSort (· ≤ ·) l).countP_eq]
  exact getElem_le_iff (List.pairwise_insertionSort (· ≤ ·) l) _ v

end Sorted

/-! ## A histogram -/

/-- `np.bincount(x, minlength=bins)`. -/
def bincount {bins : ℕ} (l : List (Fin bins)) : List ℕ :=
  (List.range bins).map fun v => l.countP fun x => x.val = v

/-- `np.cumsum`, on top of `total`. -/
def cumsum (total : ℕ) : List ℕ → List ℕ
  | [] => []
  | c :: counts => (total + c) :: cumsum (total + c) counts

/-- `np.searchsorted(a, k, side="right")`. -/
def searchsortedRight (a : List ℕ) (k : ℤ) : ℕ :=
  BinarySearch.firstTrue (fun i => k < a.getD i 0) 0 a.length

section Histogram

variable {bins : ℕ} (l : List (Fin bins))

theorem countP_le_eq (v : ℕ) : (l.countP fun x => x.val ≤ v) =
    (l.countP fun x => x.val < v) + l.countP fun x => x.val = v := by
  induction l with
  | nil => rfl
  | cons x l ih =>
    simp only [List.countP_cons, ih, decide_eq_true_eq]
    split_ifs <;> omega

theorem cumsum_range' (start length : ℕ) :
    cumsum (l.countP fun x => x.val < start)
        ((List.range' start length).map fun v => l.countP fun x => x.val = v) =
      (List.range' start length).map fun v => l.countP fun x => x.val ≤ v := by
  induction length generalizing start with
  | zero => rfl
  | succ length ih =>
    have hnext : (l.countP fun x => x.val ≤ start) = l.countP fun x => x.val < start + 1 := by
      congr 1
      funext x
      simp only [Nat.lt_succ_iff]
    rw [List.range'_succ, List.map_cons, List.map_cons, cumsum, ← countP_le_eq, hnext, ih]

/-- The cumulative count at a bin is of what is in it or in one before. -/
theorem cumsum_bincount :
    cumsum 0 (bincount l) = (List.range bins).map fun v => l.countP fun x => x.val ≤ v := by
  have hzero : (l.countP fun x => x.val < 0) = 0 := by simp
  have h := cumsum_range' l 0 bins
  rwa [hzero, ← List.range_eq_range'] at h

variable {l}

/-- **The search ends at the order statistic.** -/
theorem searchsortedRight_eq {k : ℕ} (hk : k < l.length) :
    searchsortedRight (cumsum 0 (bincount l)) k = (orderStatistic l k hk).val := by
  have hlength : (cumsum 0 (bincount l)).length = bins := by
    rw [cumsum_bincount, List.length_map, List.length_range]
  have hat : ∀ v < bins, (decide ((k : ℤ) < (cumsum 0 (bincount l)).getD v 0) = true ↔
      (orderStatistic l k hk).val ≤ v) := by
    intro v hv
    have hcount : (cumsum 0 (bincount l)).getD v 0 = l.countP fun x => x ≤ ⟨v, hv⟩ := by
      rw [cumsum_bincount, List.getD_eq_getElem?_getD, List.getElem?_map, List.getElem?_range hv]
      rfl
    rw [decide_eq_true_eq, hcount, Int.ofNat_lt, ← orderStatistic_le_iff hk, Fin.le_def]
  have hup : BinarySearch.Upward (fun i => (k : ℤ) < (cumsum 0 (bincount l)).getD i 0) 0 bins := by
    intro i j _ hij hj hi
    exact (hat j hj).mpr (((hat i (by omega)).mp hi).trans hij)
  have hlast := (orderStatistic l k hk).isLt
  obtain ⟨-, hle, hbefore, hfrom⟩ := BinarySearch.firstTrue_spec hup (Nat.zero_le bins)
  rw [searchsortedRight, hlength]
  generalize BinarySearch.firstTrue _ 0 bins = found at hle hbefore hfrom ⊢
  apply Nat.le_antisymm
  · by_contra hlt
    have hno := hbefore _ (Nat.zero_le _) (not_le.mp hlt)
    rw [(hat _ hlast).mpr (Nat.le_refl _)] at hno
    cases hno
  · by_contra hlt
    have hyes := hfrom found (Nat.le_refl _) (by omega)
    exact hlt ((hat found (by omega)).mp hyes)

end Histogram

end OrderStatistics
