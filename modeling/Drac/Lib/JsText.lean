import Mathlib.Data.String.Basic

/-
  JavaScript text.

  A JavaScript string is a sequence of UTF-16 code units. A Lean `String` stands
  for the well-formed ones (no lone surrogate), and this file gives the string
  operations that read code units or white space: `length`, the comparison `<`
  and `trim`.
-/

namespace JsText

-- Constants of their own, so that no definition over texts carries the proof with it.
instance lawfulBEq_text : LawfulBEq (List Char) := inferInstance

instance lawfulBEq_units : LawfulBEq (List Nat) := inferInstance

/-- The UTF-16 code units of a character: one, or a surrogate pair. -/
def units (c : Char) : List Nat :=
  if c.toNat < 0x10000 then [c.toNat]
  else [0xD800 + (c.toNat - 0x10000) / 0x400, 0xDC00 + (c.toNat - 0x10000) % 0x400]

def utf16 (s : List Char) : List Nat := s.flatMap units

/-- `s.length`. -/
def length (s : List Char) : Nat := (utf16 s).length

@[simp] theorem length_nil : length [] = 0 := rfl

@[simp] theorem length_cons (c : Char) (s : List Char) :
    length (c :: s) = (units c).length + length s := by
  simp [length, utf16]

@[simp] theorem length_append (s t : List Char) : length (s ++ t) = length s + length t := by
  simp [length, utf16]

/-- Lexicographic comparison of code units, the order of `<` on strings. -/
def unitsLt : List Nat → List Nat → Bool
  | _, [] => false
  | [], _ :: _ => true
  | a :: as, b :: bs => if a = b then unitsLt as bs else a < b

/-- `a < b`. -/
def lt (a b : String) : Bool := unitsLt (utf16 a.toList) (utf16 b.toList)

/-- The white space and line terminators `trim` removes. -/
def isSpace (c : Char) : Bool :=
  c.toNat ∈ [0x09, 0x0A, 0x0B, 0x0C, 0x0D, 0x20, 0xA0, 0x1680, 0x2028, 0x2029, 0x202F, 0x205F,
    0x3000, 0xFEFF] || (0x2000 ≤ c.toNat && c.toNat ≤ 0x200A)

def trimStart (s : List Char) : List Char := s.dropWhile isSpace

def trimEnd (s : List Char) : List Char := (trimStart s.reverse).reverse

/-- `s.trim()`. -/
def trim (s : String) : String := String.ofList (trimEnd (trimStart s.toList))

/-- Text with no white space at either end. -/
def Trimmed (s : String) : Prop := trim s = s

instance (s : String) : Decidable (Trimmed s) := inferInstanceAs (Decidable (trim s = s))

theorem trimStart_trimStart (s : List Char) : trimStart (trimStart s) = trimStart s := by
  induction s with
  | nil => rfl
  | cons c rest ih =>
    cases hc : isSpace c with
    | true => simpa [trimStart, List.dropWhile_cons, hc] using ih
    | false => simp [trimStart, hc]

theorem trimEnd_trimEnd (s : List Char) : trimEnd (trimEnd s) = trimEnd s := by
  simp [trimEnd, trimStart_trimStart]

theorem trimEnd_sublist (s : List Char) : trimEnd s <+: s := by
  obtain ⟨t, ht⟩ := List.dropWhile_suffix (l := s.reverse) isSpace
  exact ⟨t.reverse, by rw [trimEnd, trimStart, ← List.reverse_append, ht, List.reverse_reverse]⟩

theorem trimStart_trimEnd (s : List Char) (h : trimStart s = s) :
    trimStart (trimEnd s) = trimEnd s := by
  obtain ⟨t, ht⟩ := trimEnd_sublist s
  cases he : trimEnd s with
  | nil => rfl
  | cons c rest =>
    rw [he] at ht
    rw [← ht] at h
    cases hc : isSpace c with
    | true =>
      -- a leading space would have been dropped from `s`
      have hlen := congrArg List.length h
      have hle := (List.dropWhile_suffix (l := rest ++ t) isSpace).length_le
      simp [trimStart, hc] at hlen hle
      omega
    | false => simp [trimStart, hc]

theorem trimStart_of_head {s : List Char} (h : ∀ c, s.head? = some c → isSpace c = false) :
    trimStart s = s := by
  cases s with
  | nil => rfl
  | cons c rest =>
    rw [trimStart, List.dropWhile_cons_of_neg]
    rw [h c rfl]
    exact Bool.false_ne_true

theorem trim_of_no_space {s : List Char} (h : ∀ c ∈ s, isSpace c = false) :
    trimEnd (trimStart s) = s := by
  have hstart : trimStart s = s :=
    trimStart_of_head (fun c hc => h c (List.mem_of_head? hc))
  have hend : trimStart s.reverse = s.reverse :=
    trimStart_of_head (fun c hc => h c (List.mem_reverse.mp (List.mem_of_head? hc)))
  rw [hstart, trimEnd, hend, List.reverse_reverse]

theorem trim_trimmed (s : String) : Trimmed (trim s) := by
  have h := trimStart_trimStart s.toList
  simp only [Trimmed, trim, String.toList_ofList]
  rw [trimStart_trimEnd _ h, trimEnd_trimEnd]

theorem mem_trimStart {s : List Char} {c : Char} (h : c ∈ s) (hc : isSpace c = false) :
    c ∈ trimStart s := by
  induction s with
  | nil => cases h
  | cons d rest ih =>
    cases hd : isSpace d with
    | true =>
      have hne : c ≠ d := fun heq => by rw [heq, hd] at hc; cases hc
      rw [trimStart, List.dropWhile_cons_of_pos hd]
      exact ih ((List.mem_cons.mp h).resolve_left hne)
    | false =>
      rw [trimStart, List.dropWhile_cons_of_neg (by simp [hd])]
      exact h

theorem trim_ne_empty {s : String} {c : Char} (h : c ∈ s.toList) (hc : isSpace c = false) :
    trim s ≠ "" := by
  intro hempty
  have hmem : c ∈ trimEnd (trimStart s.toList) := by
    rw [trimEnd, List.mem_reverse]
    exact mem_trimStart (List.mem_reverse.mpr (mem_trimStart h hc)) hc
  have hlist := congrArg String.toList hempty
  simp only [trim, String.toList_ofList] at hlist
  rw [hlist] at hmem
  simp at hmem

/-! The order of Lean's strings, by code points, as a comparison that returns a `Bool`. -/

theorem codePoint_total (a b : String) : decide (a ≤ b) = true ∨ decide (b ≤ a) = true := by
  simpa using le_total a b

theorem codePoint_trans (a b c : String) (hab : decide (a ≤ b) = true) (hbc : decide (b ≤ c) = true) :
    decide (a ≤ c) = true :=
  decide_eq_true ((of_decide_eq_true hab).trans (of_decide_eq_true hbc))

theorem codePoint_antisymm (a b : String) (hab : decide (a ≤ b) = true) (hba : decide (b ≤ a) = true) :
    a = b :=
  (of_decide_eq_true hab).antisymm (of_decide_eq_true hba)

end JsText
