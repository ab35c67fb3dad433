import Drac.Lib.Binary64
import Drac.Lib.OrderStatistics

/-
  The contrast of a frame, by histogram and by table.

  Correspondence (`detectors/motion_contrast.py` ↔ Lean, in exact arithmetic):
    uint8_percentile   ↔ `uint8Percentile`
    stretch_lut        ↔ `stretchLut`, with `lutEntry` for one level

  A frame of any shape is the list of its samples; its shape is not looked at. `percentile` and
  `stretch` are what the two replace: `np.percentile`, which sorts, and the same operations on
  every sample.
-/

namespace Drac.Vision.MotionContrast

open OrderStatistics

/-- A `uint8`. -/
abbrev Level := Fin 256

/-! ## Percentile -/

/-- The part of `uint8_percentile` that is for two samples or more. -/
def interpolated (gray : List Level) (q : ℚ) : ℚ :=
  let n := gray.length
  let cumulative := cumsum 0 (bincount gray)
  let rank : ℚ := (n - 1) * (q / 100)
  let lowerIndex := ⌊rank⌋
  let frac := rank - lowerIndex
  let lowerValue : ℚ := searchsortedRight cumulative lowerIndex
  if frac = 0 then lowerValue
  else
    let upperValue : ℚ := searchsortedRight cumulative (min (lowerIndex + 1) (n - 1))
    lowerValue + frac * (upperValue - lowerValue)

def uint8Percentile (gray : List Level) (q : ℚ) : Except String ℚ :=
  match gray with
  | [] => .error "percentil de array vazio"
  | [v] => .ok v.val
  | gray => .ok (interpolated gray q)

/-- Linear between the two order statistics around a rank. -/
def atRank (gray : List Level) (hne : gray ≠ []) (rank : ℚ) : ℚ :=
  let last := gray.length - 1
  let k := min ⌊rank⌋₊ last
  have hn : 0 < gray.length := List.length_pos_of_ne_nil hne
  let low : ℚ := (orderStatistic gray k (by omega)).val
  let high : ℚ := (orderStatistic gray (min (k + 1) last) (by omega)).val
  low + (rank - k) * (high - low)

/-- `np.percentile(gray, q)`. -/
def percentile (gray : List Level) (hne : gray ≠ []) (q : ℚ) : ℚ :=
  atRank gray hne ((gray.length - 1) * q / 100)

theorem rank_mem {n : ℕ} (hn : 0 < n) {q : ℚ} (hlow : 0 ≤ q) (hhigh : q ≤ 100) :
    0 ≤ ((n : ℚ) - 1) * q / 100 ∧ ((n : ℚ) - 1) * q / 100 ≤ (n - 1 : ℕ) := by
  have hpos : (0 : ℚ) ≤ (n - 1 : ℕ) := Nat.cast_nonneg _
  rw [Nat.cast_pred hn] at hpos ⊢
  constructor
  · positivity
  · rw [div_le_iff₀ (by norm_num)]
    exact mul_le_mul_of_nonneg_left hhigh hpos

theorem orderStatistic_singleton (v : Level) (k : ℕ) (hk : k < [v].length) :
    orderStatistic [v] k hk = v := by
  have hmem : orderStatistic [v] k hk ∈ [v].insertionSort (· ≤ ·) := List.get_mem _ _
  simpa using hmem

theorem interpolated_eq {gray : List Level} (hne : gray ≠ []) {q : ℚ} (hlow : 0 ≤ q)
    (hhigh : q ≤ 100) : interpolated gray q = percentile gray hne q := by
  have hn : 0 < gray.length := List.length_pos_of_ne_nil hne
  obtain ⟨hpos, hlast⟩ := rank_mem hn hlow hhigh
  unfold interpolated percentile
  dsimp only
  rw [← mul_div_assoc]
  generalize ((gray.length : ℚ) - 1) * q / 100 = rank at hpos hlast ⊢
  unfold atRank
  -- the rank is not negative, so the two floors are one
  obtain ⟨k, hk⟩ : ∃ k : ℕ, ⌊rank⌋₊ = k := ⟨_, rfl⟩
  have hle : k ≤ gray.length - 1 := hk ▸ Nat.floor_le_of_le hlast
  have hfloor : ⌊rank⌋ = (k : ℤ) := by rw [← hk, Int.natCast_floor_eq_floor hpos]
  have hnext : min ((k : ℤ) + 1) ((gray.length : ℤ) - 1) = (min (k + 1) (gray.length - 1) : ℕ) := by
    omega
  simp only [hk, hfloor, hnext, Nat.min_eq_left hle, Int.cast_natCast,
    searchsortedRight_eq (show k < gray.length by omega),
    searchsortedRight_eq (show min (k + 1) (gray.length - 1) < gray.length by omega)]
  split
  next hfrac => rw [hfrac, zero_mul, add_zero]
  · rfl

/-- **The histogram gives the percentile of the sorted array.** -/
theorem uint8Percentile_eq (gray : List Level) (hne : gray ≠ []) {q : ℚ} (hlow : 0 ≤ q)
    (hhigh : q ≤ 100) : uint8Percentile gray q = .ok (percentile gray hne q) := by
  match gray with
  | [] => exact absurd rfl hne
  | [v] =>
    have hval : percentile [v] hne q = v.val := by
      unfold percentile atRank
      simp only [orderStatistic_singleton, sub_self, mul_zero, add_zero]
    rw [hval]
    rfl
  | v :: w :: gray => exact congrArg Except.ok (interpolated_eq hne hlow hhigh)

/-! ## Stretching -/

/-- `np.clip(x, lo, hi)`. -/
def clip (x lo hi : ℚ) : ℚ := min (max x lo) hi

/-- `astype(np.uint8)`: towards zero, and modulo 256. -/
def astypeUint8 (x : ℚ) : Level := Fin.ofNat 256 (Binary64.toInt x % 256).toNat

/-- The operations on a sample. -/
def stretched (lo hi : ℚ) (v : Level) : ℚ := (clip v.val lo hi - lo) * (255 / (hi - lo))

/-- The table at a level. -/
def lutEntry (lo hi : ℚ) (v : Level) : Level := astypeUint8 (stretched lo hi v)

/-- The table is made once, of all 256 levels; `cv2.LUT` looks every sample up in it. -/
def stretchLut (frame : List Level) (lo hi : ℚ) : List Level :=
  let lut := (List.finRange 256).map (lutEntry lo hi)
  frame.map fun v => lut.get ⟨v.val, by simp [lut]⟩

theorem stretched_mem {lo hi : ℚ} (h : lo < hi) (v : Level) :
    0 ≤ stretched lo hi v ∧ stretched lo hi v ≤ 255 := by
  have hwidth : 0 < hi - lo := sub_pos.mpr h
  have hclip : lo ≤ clip v.val lo hi := le_min (le_max_right _ _) h.le
  have htop : clip v.val lo hi ≤ hi := min_le_right _ _
  have hscale : 0 ≤ 255 / (hi - lo) := by positivity
  constructor
  · exact mul_nonneg (sub_nonneg.mpr hclip) hscale
  · calc stretched lo hi v ≤ (hi - lo) * (255 / (hi - lo)) :=
        mul_le_mul_of_nonneg_right (by linarith) hscale
      _ = 255 := mul_div_cancel₀ 255 hwidth.ne'

theorem astypeUint8_val {x : ℚ} (hlow : 0 ≤ x) (hhigh : x ≤ 255) :
    ((astypeUint8 x).val : ℤ) = ⌊x⌋ := by
  have hfloor : 0 ≤ ⌊x⌋ := Int.floor_nonneg.mpr hlow
  have htop : ⌊x⌋ ≤ 255 := by
    have := (Int.floor_le x).trans hhigh
    exact_mod_cast this
  rw [astypeUint8, Binary64.toInt, if_pos hlow]
  simp only [Fin.val_ofNat]
  omega

/-- **The table gives what the operations give on every sample.** -/
theorem stretchLut_eq (frame : List Level) {lo hi : ℚ} (h : lo < hi) :
    (stretchLut frame lo hi).map (fun v => (v.val : ℤ)) =
      frame.map fun v => ⌊(min (max (v.val : ℚ) lo) hi - lo) * (255 / (hi - lo))⌋ := by
  rw [stretchLut, List.map_map]
  apply List.map_congr_left
  intro v _
  obtain ⟨hlow, hhigh⟩ := stretched_mem h v
  simp only [Function.comp_apply, List.get_eq_getElem, List.getElem_map, List.getElem_finRange]
  exact astypeUint8_val hlow hhigh

/-- **Both are exact**: the percentile of every array that is not empty, and the stretch of every
frame between bounds that are apart. -/
theorem motion_contrast_exact (gray frame : List Level) (q lo hi : ℚ) (hne : gray ≠ []) (hlow : 0 ≤ q)
    (hhigh : q ≤ 100) (h : lo < hi) :
    uint8Percentile gray q = .ok (percentile gray hne q) ∧
      (stretchLut frame lo hi).map (fun v => (v.val : ℤ)) =
        frame.map fun v => ⌊(min (max (v.val : ℚ) lo) hi - lo) * (255 / (hi - lo))⌋ :=
  ⟨uint8Percentile_eq gray hne hlow hhigh, stretchLut_eq frame h⟩

/-- The median of four samples, and the middle of a narrow range. -/
theorem motion_contrast_exact_four :
    uint8Percentile [9, 2, 9, 4] 50 = .ok (percentile [9, 2, 9, 4] (by simp) 50) ∧
      (stretchLut [2, 7] 3 (9 / 2)).map (fun v => (v.val : ℤ)) =
        [2, 7].map fun v : Level => ⌊(min (max (v.val : ℚ) 3) (9 / 2) - 3) * (255 / (9 / 2 - 3))⌋ :=
  motion_contrast_exact [9, 2, 9, 4] [2, 7] 50 3 (9 / 2) (by simp) (by norm_num) (by norm_num)
    (by norm_num)

end Drac.Vision.MotionContrast
