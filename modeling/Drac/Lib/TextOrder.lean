import Drac.Lib.JsText

/-
  The order of `<` on JavaScript strings.

  `JsText.lt` compares code units from the left. Characters are read back from
  their units (`utf16_injective`), so two texts of which neither is less are the
  same text: the order is total on strings.
-/

namespace JsText

theorem unitsLt_iff (a b : List Nat) : unitsLt a b = true ↔ a < b := by
  induction a generalizing b with
  | nil => cases b <;> simp [unitsLt]
  | cons x as ih =>
    cases b with
    | nil => simp [unitsLt]
    | cons y bs =>
      rw [List.cons_lt_cons_iff]
      by_cases hxy : x = y
      · simp [unitsLt, hxy, ih]
      · simp [unitsLt, hxy]

theorem units_append_inj {c d : Char} {s t : List Nat} (h : units c ++ s = units d ++ t) :
    c = d ∧ s = t := by
  have hc := c.valid
  have hd := d.valid
  have hcd : c.toNat = d.toNat → c = d := fun he => Char.toNat_inj.mp he
  simp only [UInt32.isValidChar, Nat.isValidChar] at hc hd
  simp only [units] at h
  split at h <;> split at h <;>
    simp only [List.cons_append, List.nil_append, List.cons.injEq] at h
  · exact ⟨hcd h.1, h.2⟩
  · have hn : c.toNat = c.val.toNat := rfl
    have hm : d.toNat = d.val.toNat := rfl
    omega
  · have hn : c.toNat = c.val.toNat := rfl
    have hm : d.toNat = d.val.toNat := rfl
    omega
  · exact ⟨hcd (by omega), h.2.2⟩

theorem utf16_injective {s t : List Char} (h : utf16 s = utf16 t) : s = t := by
  have hne (c : Char) : units c ≠ [] := by
    unfold units
    split <;> simp
  induction s generalizing t with
  | nil =>
    cases t with
    | nil => rfl
    | cons d t => simp [utf16, hne] at h
  | cons c s ih =>
    cases t with
    | nil => simp [utf16, hne] at h
    | cons d t =>
      simp only [utf16, List.flatMap_cons] at h
      obtain ⟨rfl, hrest⟩ := units_append_inj h
      rw [ih hrest]

theorem lt_iff (a b : String) : lt a b = true ↔ utf16 a.toList < utf16 b.toList :=
  unitsLt_iff _ _

theorem utf16_toList_injective {a b : String} (h : utf16 a.toList = utf16 b.toList) : a = b :=
  String.toList_inj.mp (utf16_injective h)

end JsText
