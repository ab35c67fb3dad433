import Drac.Lib.JsText

/-
  ASCII letters in lower case.

    toLower_cases     what `toLower` does to a character;
    toLower_toLower   it does nothing more the second time;
    trimmed_map       a text that is trimmed stays so when its letters change case.
-/

namespace AsciiCase

theorem toLower_cases (c : Char) : c.toLower = c ∧ ¬ (65 ≤ c.toNat ∧ c.toNat ≤ 90) ∨
    (65 ≤ c.toNat ∧ c.toNat ≤ 90) ∧ c.toLower.toNat = c.toNat + 32 := by
  unfold Char.toLower
  split
  · next h =>
    have hrange : 65 ≤ c.toNat ∧ c.toNat ≤ 90 := ⟨h.1, h.2⟩
    refine .inr ⟨hrange, ?_⟩
    show (c.val + 32).toNat = c.toNat + 32
    rw [UInt32.toNat_add]
    show (c.toNat + 32) % 2 ^ 32 = c.toNat + 32
    omega
  · next h => exact .inl ⟨rfl, fun h' => h ⟨h'.1, h'.2⟩⟩

theorem toLower_toLower (c : Char) : c.toLower.toLower = c.toLower := by
  rcases toLower_cases c with ⟨hsame, -⟩ | ⟨⟨hlow, hhigh⟩, hshift⟩
  · rw [hsame, hsame]
  · rcases toLower_cases c.toLower with ⟨hsame, -⟩ | ⟨hrange, -⟩
    · exact hsame
    · omega

theorem isSpace_of_letter {c : Char} (h : 65 ≤ c.toNat) (h' : c.toNat ≤ 122) :
    JsText.isSpace c = false := by
  simp only [JsText.isSpace, List.mem_cons, List.not_mem_nil, or_false, Bool.or_eq_false_iff,
    decide_eq_false_iff_not, Bool.and_eq_false_iff, not_or]
  omega

theorem isSpace_toLower (c : Char) : JsText.isSpace c.toLower = JsText.isSpace c := by
  rcases toLower_cases c with ⟨hsame, -⟩ | ⟨⟨hlow, hhigh⟩, hshift⟩
  · rw [hsame]
  · rw [isSpace_of_letter hlow (by omega), isSpace_of_letter (by omega) (by omega)]

theorem trimStart_map {f : Char → Char} (hf : ∀ c, JsText.isSpace (f c) = JsText.isSpace c)
    (l : List Char) : JsText.trimStart (l.map f) = (JsText.trimStart l).map f := by
  have hcomp : JsText.isSpace ∘ f = JsText.isSpace := funext hf
  rw [JsText.trimStart, List.dropWhile_map, hcomp, JsText.trimStart]

theorem trimmed_map {f : Char → Char} (hf : ∀ c, JsText.isSpace (f c) = JsText.isSpace c)
    {s : String} (h : JsText.Trimmed s) : JsText.Trimmed (s.map f) := by
  have hlist : JsText.trimEnd (JsText.trimStart s.toList) = s.toList := by
    have htrim := congrArg String.toList h
    rwa [JsText.trim, String.toList_ofList] at htrim
  rw [JsText.Trimmed, JsText.trim, String.toList_map, trimStart_map hf, JsText.trimEnd,
    ← List.map_reverse, trimStart_map hf, ← List.map_reverse]
  change String.ofList ((JsText.trimEnd (JsText.trimStart s.toList)).map f) = _
  rw [hlist, ← String.toList_map, String.ofList_toList]

end AsciiCase
