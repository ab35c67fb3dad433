import Drac.Lib.ConcatScript

/-
  Tokens with quotes and backslashes.

  `getToken` is `av_get_token` with the blanks as terminators: a backslash takes the character
  after it, `'` all characters up to the next `'`, and an unquoted blank ends the token. A quote
  that is not closed reaches to the end of the text, less the blanks there.

  A writer that puts each of its quotes out of quotes, behind a backslash (`escapeQuote`), is
  read back when it writes in quotes. Where it does not, the same escape means something else.
-/

namespace TokenQuoting

open ConcatScript (isBlank escapeQuote quoted)

def trimBlanks (text : List Char) : List Char := (text.reverse.dropWhile isBlank).reverse

def getToken : Bool → List Char → List Char
  | _, [] => []
  | true, c :: rest =>
    if '\'' ∉ c :: rest then trimBlanks (c :: rest)
    else if c = '\'' then getToken false rest
    else c :: getToken true rest
  | false, [c] => if c = '\'' ∨ isBlank c then [] else [c]
  | false, c :: d :: rest =>
    if c = '\\' then d :: getToken false rest
    else if c = '\'' then getToken true (d :: rest)
    else if isBlank c then []
    else c :: getToken false (d :: rest)

/-- Blanks before the token are passed over. -/
def readArgument (text : List Char) : List Char := getToken false (text.dropWhile isBlank)

/-- The text with each quote escaped, as it is written between quotes. -/
def escaped (text : List Char) : List Char := text.flatMap escapeQuote

/-! ## One character -/

section

attribute [local simp] getToken

theorem getToken_open (rest : List Char) : getToken false ('\'' :: rest) = getToken true rest := by
  cases rest with
  | nil => simp
  | cons d rest => simp

theorem getToken_close (rest : List Char) : getToken true ('\'' :: rest) = getToken false rest := by
  simp

theorem getToken_backslash (d : Char) (rest : List Char) :
    getToken false ('\\' :: d :: rest) = d :: getToken false rest := by
  simp

/-- A character that stands for itself. -/
def Plain (c : Char) : Prop := isBlank c = false ∧ c ≠ '\'' ∧ c ≠ '\\'

theorem getToken_plain {c : Char} (h : Plain c) (rest : List Char) :
    getToken false (c :: rest) = c :: getToken false rest := by
  obtain ⟨hblank, hquote, hslash⟩ := h
  cases rest with
  | nil => simp [hblank, hquote]
  | cons d rest => simp [hblank, hquote, hslash]

theorem getToken_blank {c : Char} (h : isBlank c = true) (rest : List Char) :
    getToken false (c :: rest) = [] := by
  have hslash : c ≠ '\\' := by rintro rfl; exact absurd h (by decide)
  have hquote : c ≠ '\'' := by rintro rfl; exact absurd h (by decide)
  cases rest with
  | nil => simp [h]
  | cons d rest => simp [h, hslash, hquote]

theorem getToken_escape_in (rest : List Char) :
    getToken true ('\'' :: '\\' :: '\'' :: '\'' :: rest) = '\'' :: getToken true rest := by
  rw [getToken_close, getToken_backslash, getToken_open]

theorem getToken_escape_out (rest : List Char) :
    getToken false ('\'' :: '\\' :: '\'' :: '\'' :: rest) = '\\' :: getToken true rest := by
  rw [getToken_open]
  have hnext : getToken true ('\\' :: '\'' :: '\'' :: rest) =
      '\\' :: getToken true ('\'' :: '\'' :: rest) := by simp
  rw [hnext, getToken_close, getToken_open]

end

/-! ## Escapes -/

theorem escaped_quote (text : List Char) :
    escaped ('\'' :: text) = '\'' :: '\\' :: '\'' :: '\'' :: escaped text := rfl

theorem escaped_cons {c : Char} (h : c ≠ '\'') (text : List Char) :
    escaped (c :: text) = c :: escaped text := by
  rw [escaped, List.flatMap_cons, escapeQuote, if_neg h]
  rfl

theorem quote_mem_escaped {text : List Char} (h : '\'' ∈ text) : '\'' ∈ escaped text :=
  List.mem_flatMap.mpr ⟨'\'', h, List.mem_cons_self⟩

theorem escaped_of_notMem {text : List Char} (h : '\'' ∉ text) : escaped text = text := by
  induction text with
  | nil => rfl
  | cons c text ih =>
    rw [List.mem_cons, not_or] at h
    rw [escaped_cons (Ne.symm h.1), ih h.2]

theorem dropWhile_escaped (text : List Char) :
    (escaped text).dropWhile isBlank = escaped (text.dropWhile isBlank) := by
  induction text with
  | nil => rfl
  | cons c text ih =>
    by_cases hc : c = '\''
    · subst hc
      rfl
    · rw [escaped_cons hc, List.dropWhile_cons, List.dropWhile_cons]
      split
      · exact ih
      · rw [escaped_cons hc]

/-- **A text written in quotes comes back.** -/
theorem readArgument_quoted (text : List Char) : readArgument (' ' :: quoted text) = text := by
  have hopen : (' ' :: quoted text).dropWhile isBlank = quoted text := rfl
  rw [readArgument, hopen, quoted, List.cons_append, getToken_open]
  change getToken true (escaped text ++ ['\'']) = text
  clear hopen
  induction text with
  | nil => rfl
  | cons c text ih =>
    by_cases hc : c = '\''
    · subst hc
      rw [escaped_quote]
      exact (getToken_escape_in _).trans (congrArg _ ih)
    · rw [escaped_cons hc, List.cons_append]
      have hlast : '\'' ∈ c :: (escaped text ++ ['\'']) := by simp
      rw [getToken, if_neg (not_not.mpr hlast), if_neg hc, ih]

/-! ## Written bare -/

theorem length_trimBlanks (text : List Char) : (trimBlanks text).length ≤ text.length := by
  rw [trimBlanks, List.length_reverse]
  exact (List.dropWhile_suffix isBlank).length_le.trans (List.length_reverse).le

/-- What is read is not longer than what was escaped. -/
theorem length_getToken : ∀ (quotes : Bool) (text : List Char),
    (getToken quotes (escaped text)).length ≤ text.length
  | true, [] => Nat.le_refl 0
  | false, [] => Nat.le_refl 0
  | true, c :: text => by
    by_cases hc : c = '\''
    · subst hc
      rw [escaped_quote, getToken_escape_in]
      exact Nat.succ_le_succ (length_getToken true text)
    · by_cases hmem : '\'' ∈ c :: text
      · rw [escaped_cons hc]
        have hquote : '\'' ∈ c :: escaped text := by
          rw [← escaped_cons hc]
          exact quote_mem_escaped hmem
        rw [getToken, if_neg (not_not.mpr hquote), if_neg hc]
        exact Nat.succ_le_succ (length_getToken true text)
      · rw [escaped_of_notMem hmem, getToken, if_pos hmem]
        exact length_trimBlanks _
  | false, [c] => by
    by_cases hc : c = '\''
    · subst hc
      exact Nat.le_refl 1
    · rw [escaped_cons hc]
      show (getToken false [c]).length ≤ 1
      rw [getToken]
      split
      · exact Nat.zero_le 1
      · exact Nat.le_refl 1
  | false, c :: d :: text => by
    by_cases hc : c = '\''
    · subst hc
      rw [escaped_quote, getToken_escape_out]
      exact Nat.succ_le_succ (length_getToken true (d :: text))
    by_cases hblank : isBlank c = true
    · rw [escaped_cons hc, getToken_blank hblank]
      exact Nat.zero_le _
    by_cases hslash : c = '\\'
    · subst hslash
      rw [escaped_cons hc]
      by_cases hd : d = '\''
      · subst hd
        rw [escaped_quote, getToken_backslash, getToken_backslash, getToken_open]
        exact Nat.succ_le_succ (Nat.succ_le_succ (length_getToken true text))
      · rw [escaped_cons hd, getToken_backslash]
        exact Nat.succ_le_succ ((length_getToken false text).trans (Nat.le_succ _))
    · rw [escaped_cons hc, getToken_plain ⟨by simpa using hblank, hc, hslash⟩]
      exact Nat.succ_le_succ (length_getToken false (d :: text))

/-- No blank, no quote, and no backslash but for one at the end. -/
def Bare : List Char → Prop
  | [] => True
  | [c] => isBlank c = false ∧ c ≠ '\''
  | c :: d :: text => Plain c ∧ Bare (d :: text)

instance decidablePlain (c : Char) : Decidable (Plain c) :=
  inferInstanceAs (Decidable (_ ∧ _ ∧ _))

instance decidableBare : (text : List Char) → Decidable (Bare text)
  | [] => isTrue trivial
  | [c] => inferInstanceAs (Decidable (isBlank c = false ∧ c ≠ '\''))
  | c :: d :: text =>
    have := decidableBare (d :: text)
    inferInstanceAs (Decidable (Plain c ∧ Bare (d :: text)))

theorem bare_cons {c : Char} (h : Plain c) (text : List Char) : Bare (c :: text) ↔ Bare text := by
  cases text with
  | nil => exact ⟨fun _ => trivial, fun _ => ⟨h.1, h.2.1⟩⟩
  | cons d text => exact ⟨fun hbare => hbare.2, fun hbare => ⟨h, hbare⟩⟩

theorem not_bare_blank {c : Char} (h : isBlank c = true) (text : List Char) : ¬ Bare (c :: text) := by
  cases text with
  | nil => exact fun hbare => absurd (h.symm.trans hbare.1) (by decide)
  | cons d text => exact fun hbare => absurd (h.symm.trans hbare.1.1) (by decide)

theorem not_bare_quote (text : List Char) : ¬ Bare ('\'' :: text) := by
  cases text with
  | nil => exact fun hbare => hbare.2 rfl
  | cons d text => exact fun hbare => hbare.1.2.1 rfl

theorem getToken_escaped : ∀ text : List Char, getToken false (escaped text) = text ↔ Bare text
  | [] => ⟨fun _ => trivial, fun _ => rfl⟩
  | c :: text => by
    by_cases hquote : c = '\''
    · subst hquote
      rw [escaped_quote, getToken_escape_out]
      exact ⟨fun h => absurd (List.cons.inj h).1 (by decide), fun h => absurd h (not_bare_quote text)⟩
    by_cases hblank : isBlank c = true
    · rw [escaped_cons hquote, getToken_blank hblank]
      exact ⟨fun h => (nomatch h), fun h => absurd h (not_bare_blank hblank text)⟩
    by_cases hslash : c = '\\'
    · subst hslash
      cases text with
      | nil => exact ⟨fun _ => ⟨rfl, hquote⟩, fun _ => rfl⟩
      | cons d text =>
        refine ⟨fun h => ?_, fun h => absurd rfl h.1.2.2⟩
        rw [escaped_cons hquote] at h
        by_cases hd : d = '\''
        · subst hd
          rw [escaped_quote, getToken_backslash] at h
          exact absurd (List.cons.inj h).1 (by decide)
        · -- a second backslash: one character is lost, and none comes back
          rw [escaped_cons hd, getToken_backslash] at h
          have hlength := congrArg List.length h
          have hle := length_getToken false text
          rw [List.length_cons, List.length_cons, List.length_cons] at hlength
          omega
    · have hplain : Plain c := ⟨by simpa using hblank, hquote, hslash⟩
      rw [escaped_cons hquote, getToken_plain hplain, bare_cons hplain, List.cons.injEq]
      exact (and_iff_right rfl).trans (getToken_escaped text)

/-- **A text written bare comes back exactly when it is `Bare`.** -/
theorem readArgument_escaped (text : List Char) :
    readArgument (' ' :: escaped text) = text ↔ Bare text := by
  have hblanks : (' ' :: escaped text).dropWhile isBlank = (escaped text).dropWhile isBlank := rfl
  rw [readArgument, hblanks, dropWhile_escaped]
  cases text with
  | nil => exact ⟨fun _ => trivial, fun _ => rfl⟩
  | cons c text =>
    by_cases hblank : isBlank c = true
    · rw [List.dropWhile_cons_of_pos hblank]
      refine ⟨fun h => ?_, fun h => absurd h (not_bare_blank hblank text)⟩
      have hlength := congrArg List.length h
      have hle := length_getToken false (text.dropWhile isBlank)
      have hdrop := (List.dropWhile_suffix (l := text) isBlank).length_le
      rw [List.length_cons] at hlength
      omega
    · rw [List.dropWhile_cons_of_neg hblank]
      exact getToken_escaped (c :: text)

end TokenQuoting
