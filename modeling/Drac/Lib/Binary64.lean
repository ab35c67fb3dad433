import Mathlib.Algebra.BigOperators.Group.List.Lemmas
import Mathlib.Algebra.Order.BigOperators.Group.List
import Mathlib.Algebra.Order.Field.Power
import Mathlib.Data.Int.Log
import Mathlib.Data.Rat.Floor
import Mathlib.Tactic.Positivity

/-
  Rounding of rationals to 53 significant bits, as IEEE 754 double arithmetic does in the
  normal range (no overflow to infinity, no subnormals).

    roundHalfEven   to the nearest integer, a tie to the even one
    fl              to the nearest number of 53 bits, a tie to the even last bit
    flSqrt          the square root, rounded the same way
    toInt           towards zero
    mathRound       to the nearest integer, a tie upwards
    plus, minus     the sum and the difference of two doubles
    OnGrid          a multiple of a power of two

  An operation on doubles is `fl` of the exact operation. `fl_of_scaled`, `fl_intCast` and
  `OnGrid.fl_eq` say where nothing is rounded, `abs_fl_sub_le` by how much.
-/

namespace Binary64

def roundHalfEven (q : ℚ) : ℤ :=
  let rest := q - ⌊q⌋
  if rest < 1 / 2 then ⌊q⌋
  else if 1 / 2 < rest then ⌊q⌋ + 1
  else if ⌊q⌋ % 2 = 0 then ⌊q⌋ else ⌊q⌋ + 1

def toInt (q : ℚ) : ℤ := if 0 ≤ q then ⌊q⌋ else ⌈q⌉

/-- The exponent of the last of 53 significant bits. -/
def lastBit (q : ℚ) : ℤ := Int.log 2 |q| - 52

def fl (q : ℚ) : ℚ :=
  if q = 0 then 0 else roundHalfEven (q / 2 ^ lastBit q) * 2 ^ lastBit q

/-- The root of `q` scaled to 106 bits has 53, and is never half way between two integers. -/
def flSqrt (q : ℚ) : ℚ :=
  if q ≤ 0 then 0
  else
    let e := Int.log 2 q / 2 - 52
    let scaled := q / 4 ^ e
    let root := Nat.sqrt ⌊scaled⌋₊
    (if ((root : ℚ) + 1 / 2) ^ 2 < scaled then (root : ℚ) + 1 else root) * 2 ^ e

@[simp] theorem roundHalfEven_intCast (n : ℤ) : roundHalfEven n = n := by
  simp [roundHalfEven]

@[simp] theorem toInt_intCast (n : ℤ) : toInt n = n := by
  simp [toInt]

theorem lastBit_nonpos {q : ℚ} (hq : q ≠ 0) (h : |q| < 2 ^ 53) : lastBit q ≤ 0 := by
  have hpos : 0 < |q| := abs_pos.mpr hq
  have hlog : Int.log 2 |q| < 53 := by
    apply (Int.lt_zpow_iff_log_lt (by decide) hpos).mp
    exact_mod_cast h
  simp only [lastBit]
  omega

theorem fl_of_scaled {q : ℚ} {n : ℤ} (h : q / 2 ^ lastBit q = n) : fl q = q := by
  simp only [fl]
  split
  · next hq => exact hq.symm
  · have hpow : (2 : ℚ) ^ lastBit q ≠ 0 := by positivity
    rw [h, roundHalfEven_intCast, ← h]
    exact div_mul_cancel₀ q hpow

theorem fl_intCast {n : ℤ} (h : |n| < 2 ^ 53) : fl n = n := by
  by_cases hn : n = 0
  · simp [fl, hn]
  · have hq : (n : ℚ) ≠ 0 := by exact_mod_cast hn
    have hlast : lastBit n ≤ 0 := lastBit_nonpos hq (by exact_mod_cast h)
    obtain ⟨k, hk⟩ := Int.eq_ofNat_of_zero_le (Int.neg_nonneg.mpr hlast)
    have he : lastBit n = -(k : ℤ) := by omega
    apply fl_of_scaled (n := n * 2 ^ k)
    rw [he, zpow_neg, div_inv_eq_mul, zpow_natCast]
    push_cast
    rfl

theorem fl_eq_intCast {q : ℚ} {n : ℤ} (hq : q = n) (hn : |n| < 2 ^ 53) : fl q = n := by
  rw [hq, fl_intCast hn]

/-! ## Error -/

theorem abs_roundHalfEven_sub_le (q : ℚ) : |(roundHalfEven q : ℚ) - q| ≤ 1 / 2 := by
  have hfloor : (⌊q⌋ : ℚ) ≤ q := Int.floor_le q
  have hnext : q < ⌊q⌋ + 1 := Int.lt_floor_add_one q
  rw [abs_le]
  simp only [roundHalfEven]
  split
  · constructor <;> linarith
  · split
    · push_cast
      constructor <;> linarith
    · split
      · constructor <;> linarith
      · push_cast
        constructor <;> linarith

/-- Rounding to 53 bits is off by at most one part in `2 ^ 53`. -/
theorem abs_fl_sub_le (q : ℚ) : |fl q - q| ≤ |q| / 2 ^ 53 := by
  by_cases hq : q = 0
  · simp [fl, hq]
  · have hunit : (0 : ℚ) < 2 ^ lastBit q := by positivity
    have hscaled := abs_roundHalfEven_sub_le (q / 2 ^ lastBit q)
    have herror : |fl q - q| ≤ 1 / 2 * 2 ^ lastBit q := by
      have heq : fl q - q =
          (roundHalfEven (q / 2 ^ lastBit q) - q / 2 ^ lastBit q) * 2 ^ lastBit q := by
        rw [fl, if_neg hq, sub_mul, div_mul_cancel₀ q hunit.ne']
      rw [heq, abs_mul, abs_of_pos hunit]
      exact mul_le_mul_of_nonneg_right hscaled hunit.le
    have hlog : (2 : ℚ) ^ (lastBit q + 52) ≤ |q| := by
      have h := Int.zpow_log_le_self (b := 2) (by decide) (abs_pos.mpr hq)
      rw [lastBit, sub_add_cancel]
      exact_mod_cast h
    rw [zpow_add₀ (by decide)] at hlog
    have hpow : (2 : ℚ) ^ (52 : ℤ) = 2 ^ 52 := by norm_cast
    rw [hpow] at hlog
    rw [le_div_iff₀ (by positivity)]
    calc |fl q - q| * 2 ^ 53 ≤ 1 / 2 * 2 ^ lastBit q * 2 ^ 53 :=
          mul_le_mul_of_nonneg_right herror (by positivity)
      _ = 2 ^ lastBit q * 2 ^ 52 := by ring
      _ ≤ |q| := hlog

theorem fl_pos {q : ℚ} (hq : 0 < q) : 0 < fl q := by
  have h := abs_fl_sub_le q
  rw [abs_of_pos hq, abs_le] at h
  linarith

theorem fl_nonpos {q : ℚ} (hq : q ≤ 0) : fl q ≤ 0 := by
  have h := abs_fl_sub_le q
  rw [abs_of_nonpos hq, abs_le] at h
  linarith

/-! ## Order -/

theorem roundHalfEven_mono {q r : ℚ} (h : q ≤ r) : roundHalfEven q ≤ roundHalfEven r := by
  have hfloor : ⌊q⌋ ≤ ⌊r⌋ := Int.floor_le_floor h
  rcases hfloor.lt_or_eq with hlt | heq
  · have hup : roundHalfEven q ≤ ⌊q⌋ + 1 := by
      simp only [roundHalfEven]
      split_ifs <;> omega
    have hdown : ⌊r⌋ ≤ roundHalfEven r := by
      simp only [roundHalfEven]
      split_ifs <;> omega
    omega
  · simp only [roundHalfEven, heq]
    split_ifs <;> first | omega | (exfalso; linarith)

theorem roundHalfEven_neg (q : ℚ) : roundHalfEven (-q) = -roundHalfEven q := by
  rcases (Int.floor_le q).eq_or_lt with hint | hlt
  · rw [← hint, ← Int.cast_neg, roundHalfEven_intCast, roundHalfEven_intCast]
  · have hnext := Int.lt_floor_add_one q
    have hfloor : ⌊-q⌋ = -⌊q⌋ - 1 := by
      rw [Int.floor_eq_iff]
      push_cast
      constructor <;> linarith
    simp only [roundHalfEven, hfloor]
    push_cast
    split_ifs <;> first | omega | (exfalso; linarith)

theorem lastBit_neg (q : ℚ) : lastBit (-q) = lastBit q := by
  rw [lastBit, lastBit, abs_neg]

theorem fl_neg (q : ℚ) : fl (-q) = -fl q := by
  simp only [fl, lastBit_neg, neg_eq_zero]
  split
  · rfl
  · rw [neg_div, roundHalfEven_neg]
    push_cast
    ring

theorem scaled_bounds {q : ℚ} (hq : 0 < q) :
    ((2 ^ 52 : ℤ) : ℚ) ≤ q / 2 ^ lastBit q ∧ q / 2 ^ lastBit q ≤ ((2 ^ 53 : ℤ) : ℚ) := by
  have hlow := Int.zpow_log_le_self (b := 2) (by decide) hq
  have hhigh := Int.lt_zpow_succ_log_self (b := 2) (by decide) q
  have hsplit (k : ℕ) : (2 : ℚ) ^ (lastBit q + k) = ((2 ^ k : ℤ) : ℚ) * 2 ^ lastBit q := by
    rw [zpow_add₀ (by decide), mul_comm]
    push_cast
    rfl
  have hlog : Int.log 2 q = lastBit q + (52 : ℕ) := by
    rw [lastBit, abs_of_pos hq]
    push_cast
    ring
  have hlog' : Int.log 2 q + 1 = lastBit q + (53 : ℕ) := by
    rw [hlog]
    push_cast
    ring
  constructor
  · rw [le_div_iff₀ (by positivity), ← hsplit, ← hlog]
    exact_mod_cast hlow
  · rw [div_le_iff₀ (by positivity), ← hsplit, ← hlog']
    exact_mod_cast hhigh.le

theorem fl_mono_pos {q r : ℚ} (hq : 0 < q) (h : q ≤ r) : fl q ≤ fl r := by
  have hr : 0 < r := hq.trans_le h
  have hlast : lastBit q ≤ lastBit r := by
    rw [lastBit, lastBit, abs_of_pos hq, abs_of_pos hr]
    exact Int.sub_le_sub_right (Int.log_mono_right hq h) 52
  rw [fl, if_neg hq.ne', fl, if_neg hr.ne']
  rcases hlast.lt_or_eq with hlt | heq
  · -- the power of two between them is kept by both
    have hup : (roundHalfEven (q / 2 ^ lastBit q) : ℚ) ≤ ((2 ^ 53 : ℤ) : ℚ) := by
      have hround := roundHalfEven_mono (scaled_bounds hq).2
      rw [roundHalfEven_intCast] at hround
      exact_mod_cast hround
    have hdown : ((2 ^ 52 : ℤ) : ℚ) ≤ roundHalfEven (r / 2 ^ lastBit r) := by
      have hround := roundHalfEven_mono (scaled_bounds hr).1
      rw [roundHalfEven_intCast] at hround
      exact_mod_cast hround
    have hpow : (2 : ℚ) ^ (lastBit q + 1) ≤ 2 ^ lastBit r := zpow_le_zpow_right₀ (by norm_num) hlt
    rw [zpow_add₀ (by decide), zpow_one] at hpow
    have hpos : (0 : ℚ) < 2 ^ lastBit q := by positivity
    calc (roundHalfEven (q / 2 ^ lastBit q) : ℚ) * 2 ^ lastBit q
        ≤ ((2 ^ 53 : ℤ) : ℚ) * 2 ^ lastBit q := mul_le_mul_of_nonneg_right hup hpos.le
      _ = ((2 ^ 52 : ℤ) : ℚ) * (2 ^ lastBit q * 2) := by
        push_cast
        ring
      _ ≤ ((2 ^ 52 : ℤ) : ℚ) * 2 ^ lastBit r := mul_le_mul_of_nonneg_left hpow (by positivity)
      _ ≤ roundHalfEven (r / 2 ^ lastBit r) * 2 ^ lastBit r :=
        mul_le_mul_of_nonneg_right hdown (by positivity)
  · rw [heq]
    refine mul_le_mul_of_nonneg_right ?_ (by positivity)
    exact_mod_cast roundHalfEven_mono (div_le_div_of_nonneg_right h (by positivity))

theorem fl_zero : fl 0 = 0 := by simp [fl]

theorem fl_nonneg {q : ℚ} (hq : 0 ≤ q) : 0 ≤ fl q := by
  have h := abs_fl_sub_le q
  rw [abs_of_nonneg hq, abs_le] at h
  linarith

theorem fl_mono {q r : ℚ} (h : q ≤ r) : fl q ≤ fl r := by
  rcases lt_or_ge 0 q with hq | hq
  · exact fl_mono_pos hq h
  · rcases le_or_gt 0 r with hr | hr
    · exact (fl_nonpos hq).trans (fl_nonneg hr)
    · have hneg := fl_mono_pos (neg_pos.mpr hr) (neg_le_neg h)
      rw [fl_neg, fl_neg] at hneg
      exact neg_le_neg_iff.mp hneg

theorem fl_scaled {m e : ℤ} (h : |m| < 2 ^ 53) : fl (m * 2 ^ e) = m * 2 ^ e := by
  by_cases hm : m = 0
  · simp [hm, fl_zero]
  · have hq : (m : ℚ) * 2 ^ e ≠ 0 := mul_ne_zero (by exact_mod_cast hm) (by positivity)
    have hlast : lastBit (m * 2 ^ e) ≤ e := by
      have hlt : |(m : ℚ) * 2 ^ e| < (2 : ℕ) ^ (53 + e) := by
        rw [abs_mul, abs_of_pos (by positivity : (0 : ℚ) < 2 ^ e), zpow_add₀ (by decide)]
        refine mul_lt_mul_of_pos_right ?_ (by positivity)
        exact_mod_cast h
      have hlog := (Int.lt_zpow_iff_log_lt (by decide) (abs_pos.mpr hq)).mp hlt
      rw [lastBit]
      omega
    obtain ⟨k, hk⟩ := Int.le.dest hlast
    apply fl_of_scaled (n := m * 2 ^ k)
    rw [div_eq_iff (by positivity)]
    push_cast
    rw [mul_assoc, ← zpow_natCast, ← zpow_add₀ (by decide), add_comm, hk]

@[simp] theorem fl_fl (q : ℚ) : fl (fl q) = fl q := by
  wlog hq : 0 < q generalizing q with hall
  · rcases (not_lt.mp hq).eq_or_lt with rfl | hneg
    · rw [fl_zero, fl_zero]
    · have h := hall (-q) (neg_pos.mpr hneg)
      rwa [fl_neg, fl_neg, neg_inj] at h
  · have hle := roundHalfEven_mono (scaled_bounds hq).2
    rw [roundHalfEven_intCast] at hle
    have hpos : 0 ≤ roundHalfEven (q / 2 ^ lastBit q) := by
      have hzero := roundHalfEven_mono (q := ((0 : ℤ) : ℚ)) (by
        push_cast
        positivity : ((0 : ℤ) : ℚ) ≤ q / 2 ^ lastBit q)
      rwa [roundHalfEven_intCast] at hzero
    have hfl : fl q = roundHalfEven (q / 2 ^ lastBit q) * 2 ^ lastBit q := if_neg hq.ne'
    rw [hfl]
    rcases hle.lt_or_eq with hlt | heq
    · exact fl_scaled (by rwa [abs_of_nonneg hpos])
    · -- the next power of two is one bit, further up
      have hone := fl_scaled (m := 1) (e := 53 + lastBit q) (by decide)
      rw [zpow_add₀ (by decide)] at hone
      rw [heq]
      push_cast at hone ⊢
      rwa [one_mul] at hone

theorem fl_intCast_le {n : ℤ} (h : |n| ≤ 2 ^ 53) : fl n = n := by
  rcases h.lt_or_eq with hlt | heq
  · exact fl_intCast hlt
  · have hone := fl_scaled (m := 1) (e := 53) (by decide)
    have hpow : ((2 ^ 53 : ℤ) : ℚ) = (1 : ℤ) * 2 ^ (53 : ℤ) := by norm_cast
    rw [← hpow] at hone
    rcases (abs_eq (by decide)).mp heq with rfl | rfl
    · exact hone
    · rw [Int.cast_neg, fl_neg, hone]

theorem exists_intCast {q : ℚ} (hq : fl q = q) (h : 2 ^ 53 ≤ |q|) : ∃ n : ℤ, q = n := by
  have hpos : 0 < |q| := lt_of_lt_of_le (by norm_num) h
  have hlog : (53 : ℤ) ≤ Int.log 2 |q| := (Int.zpow_le_iff_le_log (by decide) hpos).mp (by
    exact_mod_cast h)
  obtain ⟨k, hk⟩ := Int.eq_ofNat_of_zero_le (show 0 ≤ lastBit q by rw [lastBit]; omega)
  refine ⟨roundHalfEven (q / 2 ^ lastBit q) * 2 ^ k, ?_⟩
  rw [fl, if_neg (abs_pos.mp hpos)] at hq
  push_cast
  rw [← zpow_natCast, ← hk]
  exact hq.symm

/-! ## Sums -/

def plus (a b : ℚ) : ℚ := fl (a + b)

def minus (a b : ℚ) : ℚ := fl (a - b)

@[simp] theorem fl_plus (a b : ℚ) : fl (plus a b) = plus a b := fl_fl _

@[simp] theorem fl_minus (a b : ℚ) : fl (minus a b) = minus a b := fl_fl _

theorem plus_mono {a b c : ℚ} (h : a ≤ b) : plus a c ≤ plus b c := fl_mono (add_le_add_left h c)

theorem le_plus {a b : ℚ} (ha : fl a = a) (hb : 0 ≤ b) : a ≤ plus a b :=
  ha.symm.trans_le (fl_mono (le_add_of_nonneg_right hb))

theorem minus_le {a b : ℚ} (ha : fl a = a) (hb : 0 ≤ b) : minus a b ≤ a :=
  (fl_mono (sub_le_self a hb)).trans_eq ha

theorem fl_le_intCast {q : ℚ} {n : ℤ} (hn : |n| < 2 ^ 53) (h : q ≤ n) : fl q ≤ n :=
  (fl_mono h).trans_eq (fl_intCast hn)

theorem intCast_le_fl {q : ℚ} {n : ℤ} (hn : |n| < 2 ^ 53) (h : (n : ℚ) ≤ q) : (n : ℚ) ≤ fl q :=
  (fl_intCast hn).symm.trans_le (fl_mono h)

theorem lt_plus_one {d : ℚ} (h : |d| < 2 ^ 53) : d < plus d 1 := by
  obtain ⟨hlow, hhigh⟩ := abs_lt.mp h
  have hnext : d < ((⌊d⌋ + 1 : ℤ) : ℚ) := by
    push_cast
    exact Int.lt_floor_add_one d
  have hle : ((⌊d⌋ + 1 : ℤ) : ℚ) ≤ d + 1 := by
    push_cast
    exact add_le_add_left (Int.floor_le d) 1
  have hup : ⌊d⌋ < 2 ^ 53 := Int.floor_lt.mpr (by exact_mod_cast hhigh)
  have hdown : -(2 ^ 53) ≤ ⌊d⌋ := Int.le_floor.mpr (by exact_mod_cast hlow.le)
  have hkept := fl_intCast_le (n := ⌊d⌋ + 1) (by rw [abs_le]; constructor <;> omega)
  exact hnext.trans_le (hkept.symm.trans_le (fl_mono hle))

/-- A whole number above a double is above it as a double too, unless adding one to the
double is lost. -/
theorem lt_fl_intCast {d : ℚ} (hd : fl d = d) (hnext : d < plus d 1) {k : ℤ} (h : d < k) :
    d < fl k := by
  rcases le_or_gt (2 ^ 53) |d| with hlarge | hsmall
  · obtain ⟨n, rfl⟩ := exists_intCast hd hlarge
    refine hnext.trans_le (fl_mono ?_)
    exact_mod_cast (Int.cast_lt.mp h : n < k)
  · obtain ⟨hlow, hhigh⟩ := abs_lt.mp hsmall
    rcases lt_or_ge k (2 ^ 53) with hk | hk
    · have hk' : -(2 ^ 53) < k := by exact_mod_cast hlow.trans h
      rwa [fl_intCast (abs_lt.mpr ⟨hk', hk⟩)]
    · have hpow := (fl_intCast_le (n := 2 ^ 53) (by decide)).symm.trans_le
        (fl_mono (Int.cast_le.mpr hk))
      push_cast at hpow
      exact hhigh.trans_le hpow

/-- A number of `k` steps of `2 ^ e`. -/
def OnGrid (e : ℤ) (q : ℚ) : Prop := ∃ k : ℤ, q = k * 2 ^ e

theorem OnGrid.add {e : ℤ} {a b : ℚ} (ha : OnGrid e a) (hb : OnGrid e b) : OnGrid e (a + b) := by
  obtain ⟨j, rfl⟩ := ha
  obtain ⟨k, rfl⟩ := hb
  exact ⟨j + k, by push_cast; ring⟩

theorem OnGrid.sub {e : ℤ} {a b : ℚ} (ha : OnGrid e a) (hb : OnGrid e b) : OnGrid e (a - b) := by
  obtain ⟨j, rfl⟩ := ha
  obtain ⟨k, rfl⟩ := hb
  exact ⟨j - k, by push_cast; ring⟩

theorem OnGrid.mono {e f : ℤ} {a : ℚ} (h : e ≤ f) (ha : OnGrid f a) : OnGrid e a := by
  obtain ⟨k, rfl⟩ := ha
  obtain ⟨n, hn⟩ := Int.le.dest h
  refine ⟨k * 2 ^ n, ?_⟩
  push_cast
  rw [← hn, zpow_add₀ (by decide), zpow_natCast]
  ring

theorem onGrid_fl (q : ℚ) : OnGrid (lastBit q) (fl q) := by
  rw [fl]
  split
  · exact ⟨0, by simp⟩
  · exact ⟨_, rfl⟩

theorem OnGrid.step_le {e : ℤ} {a b : ℚ} (ha : OnGrid e a) (hb : OnGrid e b) (h : a < b) :
    a + 2 ^ e ≤ b := by
  obtain ⟨k, hk⟩ := hb.sub ha
  have hpow : (0 : ℚ) < 2 ^ e := by positivity
  have hpos : 0 < (k : ℚ) := by
    by_contra hneg
    have hle := mul_nonpos_of_nonpos_of_nonneg (not_lt.mp hneg) hpow.le
    linarith
  have hone : (1 : ℚ) ≤ k := by exact_mod_cast (by exact_mod_cast hpos : 0 < k)
  have hmul := mul_le_mul_of_nonneg_right hone hpow.le
  linarith

theorem abs_le_lastBit (q : ℚ) : |q| ≤ 2 ^ 53 * 2 ^ lastBit q := by
  rcases (abs_nonneg q).eq_or_lt with hzero | hpos
  · rw [← hzero]
    positivity
  · have hle := (scaled_bounds hpos).2
    have hsame : lastBit |q| = lastBit q := by rw [lastBit, lastBit, abs_abs]
    rw [hsame, div_le_iff₀ (by positivity)] at hle
    exact_mod_cast hle

theorem plus_step {s size : ℚ} (hs : fl s = s) (hpos : 0 < size) (h : s < plus s size) :
    s + size / 4 ≤ plus s size := by
  rcases le_or_gt (|s + size| / 2 ^ 53) (size / 2) with hfine | hcoarse
  · have herror := (abs_le.mp (abs_fl_sub_le (s + size))).1
    unfold plus
    linarith
  · -- both are on a grid that is coarser than the step
    have hgrid := onGrid_fl s
    rw [hs] at hgrid
    have hstep := OnGrid.step_le (hgrid.mono (min_le_left _ (lastBit (s + size))))
      ((onGrid_fl (s + size)).mono (min_le_right (lastBit s) _)) h
    have hsum := abs_le_lastBit (s + size)
    have hself := abs_le_lastBit s
    have htriangle := abs_add_le s size
    rw [abs_of_pos hpos] at htriangle
    rw [lt_div_iff₀ (by positivity)] at hcoarse
    refine le_trans ?_ hstep
    rcases min_choice (lastBit s) (lastBit (s + size)) with hmin | hmin
    · rw [hmin]
      linarith
    · rw [hmin]
      linarith

/-- On a grid of `2 ^ e`, a number below `2 ^ 53` steps is kept. -/
theorem OnGrid.fl_eq {e : ℤ} {q : ℚ} (h : OnGrid e q) (hlt : |q| < 2 ^ 53 * 2 ^ e) : fl q = q := by
  obtain ⟨k, rfl⟩ := h
  apply fl_scaled
  rw [abs_mul, abs_of_pos (by positivity : (0 : ℚ) < 2 ^ e)] at hlt
  exact_mod_cast lt_of_mul_lt_mul_right hlt (by positivity)

/-- A sum in which every step is on the grid and stays below its bound is exact. -/
theorem foldl_plus_eq {e : ℤ} {ws : List ℚ} (hgrid : ∀ w ∈ ws, OnGrid e w) (hpos : ∀ w ∈ ws, 0 ≤ w) :
    ∀ {x : ℚ}, OnGrid e x → 0 ≤ x → x + ws.sum < 2 ^ 53 * 2 ^ e →
    ws.foldl plus x = x + ws.sum := by
  induction ws with
  | nil => intro x _ _ _; simp
  | cons w rest ih =>
    intro x hx hx0 hlt
    obtain ⟨hw, hgrid⟩ := List.forall_mem_cons.mp hgrid
    obtain ⟨hw0, hpos⟩ := List.forall_mem_cons.mp hpos
    rw [List.sum_cons, ← add_assoc] at hlt
    have hrest := List.sum_nonneg hpos
    have hone : plus x w = x + w := (hx.add hw).fl_eq (by
      rw [abs_of_nonneg (by positivity)]
      linarith)
    rw [List.foldl_cons, hone, ih hgrid hpos (hx.add hw) (by positivity) hlt, List.sum_cons, add_assoc]

theorem foldl_minus_eq {e : ℤ} {ws : List ℚ} (hgrid : ∀ w ∈ ws, OnGrid e w) (hpos : ∀ w ∈ ws, 0 ≤ w) :
    ∀ {x : ℚ}, OnGrid e x → ws.sum ≤ x → x < 2 ^ 53 * 2 ^ e → ws.foldl minus x = x - ws.sum := by
  induction ws with
  | nil => intro x _ _ _; simp
  | cons w rest ih =>
    intro x hx hle hlt
    obtain ⟨hw, hgrid⟩ := List.forall_mem_cons.mp hgrid
    obtain ⟨hw0, hpos⟩ := List.forall_mem_cons.mp hpos
    rw [List.sum_cons] at hle
    have hrest := List.sum_nonneg hpos
    have hone : minus x w = x - w := (hx.sub hw).fl_eq (by
      rw [abs_of_nonneg (by linarith)]
      linarith)
    rw [List.foldl_cons, hone, ih hgrid hpos (hx.sub hw) (by linarith) (by linarith), List.sum_cons]
    ring

/-! ## `Math.round` -/

/-- `Math.round`. -/
def mathRound (q : ℚ) : ℤ := ⌊q + 1 / 2⌋

@[simp] theorem mathRound_intCast (n : ℤ) : mathRound n = n := by
  rw [mathRound, Int.floor_eq_iff]
  constructor <;> linarith

theorem mathRound_eq {q : ℚ} {n : ℤ} (h : |q - n| < 1 / 2) : mathRound q = n := by
  rw [abs_lt] at h
  rw [mathRound, Int.floor_eq_iff]
  constructor <;> linarith

end Binary64
