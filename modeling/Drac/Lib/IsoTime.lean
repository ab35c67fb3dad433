import Mathlib.Data.Rat.Floor
import Drac.Lib.JsText

/-
  Instants as JavaScript holds and prints them.

  A `Date` of a number is the whole milliseconds of it (`truncate`), within ±`maxTime`.
  `toISOString` of an instant in epoch milliseconds: the civil date of its day and
  the time of the day, in fields of a fixed width; a year of more than four digits,
  or before year 0, has a sign and six. The text says everything (`isoText_injective`).
-/

namespace IsoTime

/-- The instants a `Date` holds, in milliseconds. -/
def maxTime : Int := 8640000000000000

/-! ## Numbers as instants -/

/-- The whole part, as `Math.trunc` takes it. -/
def truncate (ms : ℚ) : Int := if 0 ≤ ms then ⌊ms⌋ else ⌈ms⌉

@[simp] theorem truncate_intCast (t : Int) : truncate (t : ℚ) = t := by simp [truncate]

theorem truncate_mono {a b : ℚ} (h : a ≤ b) : truncate a ≤ truncate b := by
  unfold truncate
  split
  · next ha => rw [if_pos (ha.trans h)]; exact Int.floor_le_floor h
  · split
    · next ha hb =>
      exact (Int.ceil_le.mpr (by exact_mod_cast (not_le.mp ha).le)).trans (Int.floor_nonneg.mpr hb)
    · exact Int.ceil_le_ceil h

/-- A fraction of a millisecond is cut off, so a `Date` holds a number iff it is within
the bounds up to that fraction. -/
theorem natAbs_truncate_le (ms : ℚ) : (truncate ms).natAbs ≤ maxTime ↔ |ms| < maxTime + 1 := by
  have hpos : (0 : Int) ≤ maxTime := by decide
  have hposQ : (0 : ℚ) ≤ maxTime := by exact_mod_cast hpos
  rw [abs_lt]
  by_cases hms : 0 ≤ ms
  · have hfloor : ⌊ms⌋ < maxTime + 1 ↔ ms < ((maxTime + 1 : Int) : ℚ) := Int.floor_lt
    have hzero := Int.floor_nonneg.mpr hms
    have hlow : -((maxTime : ℚ) + 1) < ms := by linarith
    push_cast at hfloor
    rw [truncate, if_pos hms, ← hfloor]
    simp only [hlow, true_and]
    omega
  · have hms' := not_le.mp hms
    have hceil : -(maxTime + 1) < ⌈ms⌉ ↔ ((-(maxTime + 1) : Int) : ℚ) < ms := Int.lt_ceil
    have hzero : ⌈ms⌉ ≤ 0 := Int.ceil_le.mpr (by exact_mod_cast hms'.le)
    have hhigh : ms < (maxTime : ℚ) + 1 := by linarith
    push_cast at hceil
    rw [truncate, if_neg hms, ← hceil]
    simp only [hhigh, and_true]
    omega

/-! ## Dates -/

/-- The day on which a year begins, counted from 1970-01-01. -/
def dayFromYear (year : Int) : Int :=
  365 * (year - 1970) + (year - 1969) / 4 - (year - 1901) / 100 + (year - 1601) / 400

/-- The year a day is in: an estimate by the mean length of a year, put right. -/
def yearFromDay (day : Int) : Int :=
  let year := 1970 + day * 400 / 146097
  if day < dayFromYear year then year - 1
  else if dayFromYear (year + 1) ≤ day then year + 1
  else year

theorem dayFromYear_le (day : Int) : dayFromYear (yearFromDay day) ≤ day := by
  simp only [yearFromDay]
  split
  · simp only [dayFromYear] at *
    omega
  · split
    · next h => exact h
    · next h _ => exact Int.not_lt.mp h

theorem lt_dayFromYear_succ (day : Int) : day < dayFromYear (yearFromDay day + 1) := by
  simp only [yearFromDay]
  split
  · next h => simpa using h
  · split
    · simp only [dayFromYear] at *
      omega
    · next h => exact Int.not_le.mp h

/-- A year has at most a day more than 366 here, which is all its printing needs. -/
theorem dayInYear_le (day : Int) : day - dayFromYear (yearFromDay day) ≤ 366 := by
  have hlt := lt_dayFromYear_succ day
  simp only [dayFromYear] at hlt ⊢
  omega

theorem yearFromDay_bounds (day : Int) (hlow : -100000000 ≤ day) (hhigh : day ≤ 100000000) :
    -999999 ≤ yearFromDay day ∧ yearFromDay day ≤ 999999 := by
  have hle := dayFromYear_le day
  have hlt := lt_dayFromYear_succ day
  simp only [dayFromYear] at hle hlt
  omega

/-! ## Months -/

def monthLengths (leap : Bool) : List Nat :=
  [31, if leap then 29 else 28, 31, 30, 31, 30, 31, 31, 30, 31, 30, 31]

/-- The month a day of the year is in, and the day of that month, from 0. -/
def monthDay : List Nat → Nat → Nat → Nat × Nat
  | [], month, day => (month, day)
  | length :: rest, month, day =>
    if day < length then (month, day) else monthDay rest (month + 1) (day - length)

theorem le_monthDay (lengths : List Nat) : ∀ month day : Nat,
    month ≤ (monthDay lengths month day).1 ∧
      (monthDay lengths month day).1 ≤ month + lengths.length := by
  induction lengths with
  | nil => intro month day; simp [monthDay]
  | cons length rest ih =>
    intro month day
    unfold monthDay
    split
    · simp
    · have h := ih (month + 1) (day - length)
      rw [List.length_cons]
      omega

theorem monthDay_lt {lengths : List Nat} (hlengths : ∀ n ∈ lengths, n ≤ 31) : ∀ (month : Nat)
    {day : Nat}, day ≤ lengths.sum + 30 → (monthDay lengths month day).2 ≤ 30 := by
  induction lengths with
  | nil => intro month day h; simpa [monthDay] using h
  | cons length rest ih =>
    intro month day h
    have hlength := hlengths length List.mem_cons_self
    rw [List.sum_cons] at h
    unfold monthDay
    split
    · show day ≤ 30
      omega
    · exact ih (fun n hn => hlengths n (List.mem_cons_of_mem _ hn)) (month + 1) (by omega)

theorem monthDay_injective (lengths : List Nat) : ∀ {month a b : Nat},
    monthDay lengths month a = monthDay lengths month b → a = b := by
  induction lengths with
  | nil => intro month a b h; simpa [monthDay] using h
  | cons length rest ih =>
    intro month a b h
    have hlater (day : Nat) := (le_monthDay rest (month + 1) day).1
    unfold monthDay at h
    split at h <;> split at h
    · exact congrArg Prod.snd h
    · have hmonth : month = (monthDay rest (month + 1) (b - length)).1 := congrArg Prod.fst h
      have := hlater (b - length)
      omega
    · have hmonth : (monthDay rest (month + 1) (a - length)).1 = month := congrArg Prod.fst h
      have := hlater (a - length)
      omega
    · have hsub := ih h
      omega

/-! ## Fields -/

/-- A number in so many decimal digits. -/
def digits : Nat → Nat → List Char
  | 0, _ => []
  | width + 1, n => digits width (n / 10) ++ [Nat.digitChar (n % 10)]

@[simp] theorem length_digits (width : Nat) : ∀ n, (digits width n).length = width := by
  induction width with
  | zero => intro n; rfl
  | succ width ih => intro n; simp [digits, ih]

theorem digitChar_injective : ∀ a < 10, ∀ b < 10, Nat.digitChar a = Nat.digitChar b → a = b := by
  decide

theorem digits_injective (width : Nat) : ∀ {a b : Nat}, a < 10 ^ width → b < 10 ^ width →
    digits width a = digits width b → a = b := by
  induction width with
  | zero => intro a b ha hb _; omega
  | succ width ih =>
    intro a b ha hb h
    obtain ⟨hhigh, hlow⟩ := List.append_inj h (by simp)
    have hdigit := digitChar_injective _ (Nat.mod_lt a (by omega)) _ (Nat.mod_lt b (by omega))
      (List.cons.inj hlow).1
    rw [Nat.pow_succ] at ha hb
    have hrest := ih (by omega) (by omega) hhigh
    omega

theorem digits_ne_sign {width n : Nat} {c : Char} (hc : c = '+' ∨ c = '-') {rest : List Char} :
    digits (width + 1) n ≠ c :: rest := by
  have hsign : ∀ d < 10, Nat.digitChar d ≠ '+' ∧ Nat.digitChar d ≠ '-' := by decide
  induction width generalizing n rest with
  | zero =>
    intro h
    simp only [digits, List.nil_append, List.cons.injEq] at h
    have hd := hsign (n % 10) (Nat.mod_lt n (by omega))
    rcases hc with rfl | rfl
    · exact hd.1 h.1
    · exact hd.2 h.1
  | succ width ih =>
    intro h
    unfold digits at h
    cases hhead : digits (width + 1) (n / 10) with
    | nil =>
      have hlen := length_digits (width + 1) (n / 10)
      rw [hhead] at hlen
      cases hlen
    | cons d ds =>
      rw [hhead, List.cons_append, List.cons.injEq] at h
      rw [h.1] at hhead
      exact ih hhead

def sign (year : Int) : Char := if 0 ≤ year then '+' else '-'

theorem sign_cases (year : Int) :
    (0 ≤ year ∧ sign year = '+') ∨ (year < 0 ∧ sign year = '-') := by
  unfold sign
  split
  · next h => exact .inl ⟨h, rfl⟩
  · next h => exact .inr ⟨Int.not_le.mp h, rfl⟩

/-- The year: four digits, or a sign and six. -/
def isoYear (year : Int) : List Char :=
  if 0 ≤ year ∧ year ≤ 9999 then digits 4 year.toNat else sign year :: digits 6 year.natAbs

theorem isoYear_injective {a b : Int} (ha : -999999 ≤ a ∧ a ≤ 999999)
    (hb : -999999 ≤ b ∧ b ≤ 999999) (h : isoYear a = isoYear b) : a = b := by
  have hsign (y : Int) : sign y = '+' ∨ sign y = '-' :=
    (sign_cases y).imp And.right And.right
  unfold isoYear at h
  split at h <;> split at h
  · have heq := digits_injective 4 (by omega) (by omega) h
    omega
  · exact absurd h (digits_ne_sign (hsign b))
  · exact absurd h.symm (digits_ne_sign (hsign a))
  · rw [List.cons.injEq] at h
    have heq := digits_injective 6 (by omega) (by omega) h.2
    rcases sign_cases a with ⟨ha', hsa⟩ | ⟨ha', hsa⟩
    · rcases sign_cases b with ⟨hb', -⟩ | ⟨-, hsb⟩
      · omega
      · rw [hsa, hsb] at h
        exact absurd h.1 (by decide)
    · rcases sign_cases b with ⟨-, hsb⟩ | ⟨hb', -⟩
      · rw [hsa, hsb] at h
        exact absurd h.1 (by decide)
      · omega

def isoRest (leap : Bool) (dayInYear ms : Nat) : List Char :=
  '-' :: (digits 2 (monthDay (monthLengths leap) 1 dayInYear).1 ++
    '-' :: (digits 2 ((monthDay (monthLengths leap) 1 dayInYear).2 + 1) ++
      'T' :: (digits 2 (ms / 3600000) ++ ':' :: (digits 2 (ms / 60000 % 60) ++
        ':' :: (digits 2 (ms / 1000 % 60) ++ '.' :: (digits 3 (ms % 1000) ++ ['Z']))))))

theorem isoRest_injective {leap : Bool} {d e m n : Nat} (hd : d ≤ 366) (he : e ≤ 366)
    (hm : m < 86400000) (hn : n < 86400000) (h : isoRest leap d m = isoRest leap e n) :
    d = e ∧ m = n := by
  have hlengths : ∀ k ∈ monthLengths leap, k ≤ 31 := by cases leap <;> decide
  have hsum : 365 ≤ (monthLengths leap).sum := by cases leap <;> decide
  have hcount : (monthLengths leap).length = 12 := rfl
  have hfield {w a b : Nat} {s t : List Char} (hab : digits w a ++ s = digits w b ++ t)
      (ha : a < 10 ^ w) (hb : b < 10 ^ w) : a = b ∧ s = t := by
    obtain ⟨hnum, hrest⟩ := List.append_inj hab (by simp)
    exact ⟨digits_injective w ha hb hnum, hrest⟩
  have hmd := le_monthDay (monthLengths leap) 1 d
  have hme := le_monthDay (monthLengths leap) 1 e
  have hdd := monthDay_lt hlengths 1 (show d ≤ _ by omega)
  have hde := monthDay_lt hlengths 1 (show e ≤ _ by omega)
  rw [hcount] at hmd hme
  simp only [isoRest, List.cons.injEq, true_and] at h
  obtain ⟨hmonth, h⟩ := hfield h (by omega) (by omega)
  obtain ⟨hday, h⟩ := hfield (List.cons.inj h).2 (by omega) (by omega)
  obtain ⟨hhour, h⟩ := hfield (List.cons.inj h).2 (by omega) (by omega)
  obtain ⟨hminute, h⟩ := hfield (List.cons.inj h).2 (by omega) (by omega)
  obtain ⟨hsecond, h⟩ := hfield (List.cons.inj h).2 (by omega) (by omega)
  obtain ⟨hmilli, -⟩ := hfield (List.cons.inj h).2 (by omega) (by omega)
  constructor
  · exact monthDay_injective (monthLengths leap) (Prod.ext hmonth (by omega))
  · omega

/-- `new Date(t).toISOString()`, for an instant a `Date` holds. -/
def isoText (t : Int) : List Char :=
  let day := t / 86400000
  let year := yearFromDay day
  isoYear year ++ isoRest (dayFromYear (year + 1) - dayFromYear year = 366)
    (day - dayFromYear year).toNat (t % 86400000).toNat

example : isoText 1785153600000 = "2026-07-27T12:00:00.000Z".toList := by rfl

theorem isoText_injective {t u : Int} (ht : t.natAbs ≤ maxTime) (hu : u.natAbs ≤ maxTime)
    (h : isoText t = isoText u) : t = u := by
  simp only [maxTime] at ht hu
  have hyt := yearFromDay_bounds (t / 86400000) (by omega) (by omega)
  have hyu := yearFromDay_bounds (u / 86400000) (by omega) (by omega)
  have hlent := dayFromYear_le (t / 86400000)
  have hlenu := dayFromYear_le (u / 86400000)
  have hdt := dayInYear_le (t / 86400000)
  have hdu := dayInYear_le (u / 86400000)
  simp only [isoText] at h
  obtain ⟨hyear, hrest⟩ := List.append_inj' h (by simp [isoRest])
  have hsame := isoYear_injective hyt hyu hyear
  rw [hsame] at hrest hlent hdt
  obtain ⟨hday, hms⟩ := isoRest_injective (by omega) (by omega) (by omega) (by omega) hrest
  omega

end IsoTime
