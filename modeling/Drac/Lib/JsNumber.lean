import Drac.Lib.Binary64
import Drac.Lib.IpText

/-
  `Number(text)`, as far as the answer is finite.

  Blanks around the text do not count, and no text at all is zero. `0x`, `0o` and `0b` read
  digits of their base; anything else is a decimal number with a sign, a point and an
  exponent. NaN and the infinities are `none`.

    number_of_digits   decimal digits alone are the number they write, rounded.
-/

namespace JsNumber

open IpText

/-- The double nearest to a number. -/
def toDouble (q : ℚ) : Option ℚ :=
  if |q| < 2 ^ (-1022 : ℤ) then some (Binary64.roundHalfEven (q * 2 ^ 1074) / 2 ^ 1074)
  else if |Binary64.fl q| < 2 ^ 1024 then some (Binary64.fl q) else none

/-- The digits of a literal such as `0x1f`. -/
def radixNumber (base : Nat) (s : Text) : Option Nat :=
  if s ≠ [] ∧ s.all (fun c => (hexValue c).any (· < base)) then
    some (s.foldl (fun v c => base * v + (hexValue c).getD 0) 0)
  else none

def digitsInt (s : Text) : Option Int :=
  if s ≠ [] ∧ s.all isDigit then some (decimalNumber s) else none

/-- Digits with a sign before them, if there is one. -/
def signedInt : Text → Option Int
  | '+' :: s => digitsInt s
  | '-' :: s => (digitsInt s).map (- ·)
  | s => digitsInt s

def exponent : Text → Option Int
  | [] => some 0
  | c :: s => if c = 'e' ∨ c = 'E' then signedInt s else none

/-- `12`, `12.`, `.5` or `12.5`, and an exponent. -/
def unsignedDecimal (s : Text) : Option ℚ :=
  let whole := s.takeWhile isDigit
  let rest := s.dropWhile isDigit
  let fraction := if rest.head? = some '.' then rest.tail.takeWhile isDigit else []
  let rest := if rest.head? = some '.' then rest.tail.dropWhile isDigit else rest
  if whole ++ fraction = [] then none
  else
    (exponent rest).map (fun e =>
      (decimalNumber (whole ++ fraction) : ℚ) * 10 ^ (e - (fraction.length : ℤ)))

def literal : Text → Option ℚ
  | [] => some 0
  | '0' :: 'x' :: s | '0' :: 'X' :: s => (radixNumber 16 s).map (fun n => (n : ℚ))
  | '0' :: 'o' :: s | '0' :: 'O' :: s => (radixNumber 8 s).map (fun n => (n : ℚ))
  | '0' :: 'b' :: s | '0' :: 'B' :: s => (radixNumber 2 s).map (fun n => (n : ℚ))
  | '+' :: s => unsignedDecimal s
  | '-' :: s => (unsignedDecimal s).map (- ·)
  | s => unsignedDecimal s

/-- `Number(text)`. -/
def number (text : Text) : Option ℚ :=
  (literal (JsText.trimEnd (JsText.trimStart text))).bind toDouble

/-- `Number.isInteger(x) && x >= 0 && x <= bound`, and the number then. -/
def intWithin (bound : Nat) (x : Option ℚ) : Option Nat :=
  x.bind (fun q => if q.den = 1 ∧ 0 ≤ q ∧ q ≤ bound then some q.num.toNat else none)

/-! ## Decimal digits -/

theorem isSpace_of_digit {c : Char} (h : isDigit c = true) : JsText.isSpace c = false := by
  rw [isDigit, Bool.and_eq_true, decide_eq_true_eq, decide_eq_true_eq] at h
  simp only [JsText.isSpace, List.mem_cons, List.not_mem_nil, or_false, Bool.or_eq_false_iff,
    decide_eq_false_iff_not, Bool.and_eq_false_iff, not_or]
  omega

theorem unsignedDecimal_digits {s : Text} (hne : s ≠ []) (h : ∀ c ∈ s, isDigit c = true) :
    unsignedDecimal s = some (decimalNumber s : ℚ) := by
  have htake : s.takeWhile isDigit = s := List.takeWhile_eq_self_iff.mpr h
  have hdrop : s.dropWhile isDigit = [] := List.dropWhile_eq_nil_iff.mpr h
  simp only [unsignedDecimal, htake, hdrop, List.head?_nil, reduceCtorEq, if_false,
    List.append_nil, if_neg hne, exponent, Option.map_some, List.length_nil]
  norm_num

theorem literal_digits {s : Text} (hne : s ≠ []) (h : ∀ c ∈ s, isDigit c = true) :
    literal s = some (decimalNumber s : ℚ) := by
  have hsecond : ∀ a c t, s = a :: c :: t → isDigit c = true := fun a c t hs =>
    h c (hs ▸ List.mem_cons_of_mem a List.mem_cons_self)
  have hfirst : ∀ c t, s = c :: t → isDigit c = true := fun c t hs =>
    h c (hs ▸ List.mem_cons_self)
  unfold literal
  split
  · exact absurd rfl hne
  · exact absurd (hsecond _ _ _ rfl) (by decide)
  · exact absurd (hsecond _ _ _ rfl) (by decide)
  · exact absurd (hsecond _ _ _ rfl) (by decide)
  · exact absurd (hsecond _ _ _ rfl) (by decide)
  · exact absurd (hsecond _ _ _ rfl) (by decide)
  · exact absurd (hsecond _ _ _ rfl) (by decide)
  · exact absurd (hfirst _ _ rfl) (by decide)
  · exact absurd (hfirst _ _ rfl) (by decide)
  · exact unsignedDecimal_digits hne h

theorem number_of_digits {s : Text} (hne : s ≠ []) (h : ∀ c ∈ s, isDigit c = true) :
    number s = toDouble (decimalNumber s) := by
  rw [number, JsText.trim_of_no_space (fun c hc => isSpace_of_digit (h c hc)), literal_digits hne h]
  rfl

/-! ## Bounds -/

theorem not_small {n : Nat} (hn : n ≠ 0) : ¬ |(n : ℚ)| < 2 ^ (-1022 : ℤ) := by
  rw [Nat.abs_cast, not_lt]
  calc (2 : ℚ) ^ (-1022 : ℤ) ≤ 2 ^ (0 : ℤ) := zpow_le_zpow_right₀ (by norm_num) (by decide)
    _ = 1 := zpow_zero 2
    _ ≤ n := by exact_mod_cast Nat.one_le_iff_ne_zero.mpr hn

theorem toDouble_natCast {n : Nat} (h : n < 2 ^ 53) : toDouble n = some (n : ℚ) := by
  have hfl : Binary64.fl (n : ℚ) = n := by
    have habs : |(n : ℤ)| < 2 ^ 53 := by
      rw [Nat.abs_cast]
      exact_mod_cast h
    exact_mod_cast Binary64.fl_intCast habs
  have hlarge : |(n : ℚ)| < 2 ^ 1024 := by
    rw [Nat.abs_cast]
    calc (n : ℚ) < 2 ^ 53 := by exact_mod_cast h
      _ ≤ 2 ^ 1024 := pow_le_pow_right₀ (by norm_num) (by decide)
  by_cases hn : n = 0
  · subst hn
    norm_num [toDouble, Binary64.roundHalfEven]
  · rw [toDouble, if_neg (not_small hn), hfl, if_pos hlarge]

theorem lt_of_toDouble {n bound : Nat} {q : ℚ} (hbound : bound < 2 ^ 52) (h : bound < n)
    (hq : toDouble n = some q) : (bound : ℚ) < q := by
  rw [toDouble, if_neg (not_small (by omega)), Option.ite_none_right_eq_some, Option.some.injEq]
    at hq
  obtain ⟨-, rfl⟩ := hq
  have hnear := (abs_le.mp (Binary64.abs_fl_sub_le (n : ℚ))).1
  rw [Nat.abs_cast] at hnear
  have hn : (bound : ℚ) + 1 ≤ n := by exact_mod_cast h
  have hb : (bound : ℚ) < 2 ^ 52 := by exact_mod_cast hbound
  have hscaled : (n : ℚ) * (1 - 1 / 2 ^ 53) ≤ Binary64.fl n := by
    have hsplit : (n : ℚ) * (1 - 1 / 2 ^ 53) = n - n / 2 ^ 53 := by ring
    rw [hsplit]
    linarith
  refine lt_of_lt_of_le ?_ hscaled
  calc (bound : ℚ) < (bound + 1) * (1 - 1 / 2 ^ 53) := by linarith
    _ ≤ n * (1 - 1 / 2 ^ 53) := mul_le_mul_of_nonneg_right hn (by norm_num)

theorem intWithin_digits {s : Text} {bound : Nat} (hbound : bound < 2 ^ 52) (hne : s ≠ [])
    (h : ∀ c ∈ s, isDigit c = true) : intWithin bound (number s) =
      if decimalNumber s ≤ bound then some (decimalNumber s) else none := by
  rw [number_of_digits hne h]
  split
  · next hle =>
    have hcast : ((decimalNumber s : ℚ)) ≤ bound := by exact_mod_cast hle
    rw [toDouble_natCast (by omega), intWithin, Option.bind_some,
      if_pos ⟨Rat.den_natCast _, by positivity, hcast⟩, Rat.num_natCast, Int.toNat_natCast]
  · next hlt =>
    cases hq : toDouble (decimalNumber s) with
    | none => rfl
    | some q =>
      rw [intWithin, Option.bind_some, if_neg]
      rintro ⟨-, -, hle⟩
      exact absurd (lt_of_toDouble hbound (by omega) hq) (not_lt.mpr hle)

end JsNumber
