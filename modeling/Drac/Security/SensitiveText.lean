import Mathlib.Tactic.IntervalCases
import Drac.Lib.GlobalReplace
import Drac.Lib.JsText

/-
  Redaction of texts.

  Correspondence (`sensitive-text.helper.ts` ↔ Lean):
    URL_WITH_CREDENTIALS, AUTHORITY_WITH_REDACTED_CREDENTIALS, redactSensitiveText
      ↔ the same names

  A text is its UTF-16 code units. A run of `[^\s/@:]+` before a `:` and one of `[^\s/@]+`
  before an `@` are as long as they can be, so a pattern matches at a place in one way or not
  at all. The letters of the schemes have no other case than that of ASCII.

  The patterns ask for a word boundary before the scheme, a user and a password; what has
  the shape of an authority and lacks one of them stays (`occurs_redact`). A text has at most
  one authority before each `@` (`authority_unique`), which is why nothing new comes about.
-/

namespace Drac.Security

open GlobalReplace

/-- The code units of a text. -/
abbrev Text := List Nat

def units (s : String) : Text := JsText.utf16 s.toList

def slash : Nat := 0x2F

def colon : Nat := 0x3A

def at_ : Nat := 0x40

/-! ## The patterns -/

/-- `\s`. -/
def isSpace (c : Nat) : Bool :=
  c ∈ [0x09, 0x0A, 0x0B, 0x0C, 0x0D, 0x20, 0xA0, 0x1680, 0x2028, 0x2029, 0x202F, 0x205F, 0x3000,
    0xFEFF] || (0x2000 ≤ c && c ≤ 0x200A)

/-- `\w`. -/
def isWord (c : Nat) : Bool :=
  (0x30 ≤ c && c ≤ 0x39) || (0x41 ≤ c && c ≤ 0x5A) || c = 0x5F || (0x61 ≤ c && c ≤ 0x7A)

/-- `[^\s/@]`. -/
def isPass (c : Nat) : Bool := !isSpace c && c ≠ slash && c ≠ at_

/-- `[^\s/@:]`. -/
def isUser (c : Nat) : Bool := isPass c && c ≠ colon

/-- The case that `i` folds to. -/
def lower (c : Nat) : Nat := if 0x41 ≤ c ∧ c ≤ 0x5A then c + 0x20 else c

/-- `\b` before a text. -/
def atBoundary (prev : Option Nat) (text : Text) : Bool :=
  prev.any isWord != text.head?.any isWord

def schemes : List Text := [units "rtsp://", units "rtsps://", units "http://", units "https://"]

def readWord (words : List Text) (text : Text) : Option (Text × Text) :=
  words.findSome? (fun word =>
    if (text.take word.length).map lower = word then
      some (text.take word.length, text.drop word.length)
    else none)

/-- `scheme://user:pass@`, where the user and the password may be empty. -/
structure Authority where
  scheme : Text
  user : Text
  pass : Text
  tail : Text

def readAuthority (text : Text) : Option Authority :=
  (readWord schemes text).bind (fun (scheme, rest) =>
    match rest.dropWhile isUser with
    | [] => none
    | c :: afterUser =>
      if c ≠ colon then none
      else
        match afterUser.dropWhile isPass with
        | [] => none
        | d :: tail =>
          if d ≠ at_ then none
          else some ⟨scheme, rest.takeWhile isUser, afterUser.takeWhile isPass, tail⟩)

def redactedMark : Text := units "<redacted>"

/-- `$1<redacted>@`. -/
def redactedAuthority (scheme : Text) : Text := scheme ++ redactedMark ++ [at_]

/-- `\b((?:rtsp|rtsps|http|https):\/\/)([^\s/@:]+):([^\s/@]+)@`. -/
def urlWithCredentials (prev : Option Nat) (text : Text) : Option (Hit Nat) :=
  (readAuthority text).bind (fun a =>
    if atBoundary prev text && a.user ≠ [] && a.pass ≠ [] then
      some ⟨a.scheme.length + a.user.length + a.pass.length + 1, redactedAuthority a.scheme⟩
    else none)

def marks : List Text := [units "***", redactedMark]

/-- `\b((?:rtsp|rtsps|http|https):\/\/)(?:\*{3}|<redacted>):(?:\*{3}|<redacted>)@`. -/
def authorityWithRedactedCredentials (prev : Option Nat) (text : Text) : Option (Hit Nat) :=
  if !atBoundary prev text then none
  else
    (readWord schemes text).bind (fun (scheme, rest) =>
      (readWord marks rest).bind (fun (user, afterUser) =>
        match afterUser with
        | [] => none
        | c :: rest =>
          if c ≠ colon then none
          else
            (readWord marks rest).bind (fun (pass, afterPass) =>
              if afterPass.head? = some at_ then
                some ⟨scheme.length + user.length + pass.length + 1, redactedAuthority scheme⟩
              else none)))

def redactSensitiveText (text : Text) : Text :=
  replaceAll authorityWithRedactedCredentials (replaceAll urlWithCredentials text)

/-! ## What the patterns read -/

variable {text : Text}

def IsScheme (s : Text) : Prop := s.map lower ∈ schemes

/-- Of words none of which begins another, a text begins with at most one. -/
theorem readWord_eq_some {words : List Text}
    (hfree : ∀ a ∈ words, ∀ b ∈ words, a <+: b → a = b) {w rest : Text} :
    readWord words text = some (w, rest) ↔ text = w ++ rest ∧ w.map lower ∈ words := by
  have hread : ∀ {w rest : Text}, readWord words text = some (w, rest) →
      text = w ++ rest ∧ w.map lower ∈ words := by
    intro w rest h
    obtain ⟨word, hword, hsome⟩ := List.exists_of_findSome?_eq_some h
    split at hsome
    · next htake =>
      simp only [Option.some.injEq, Prod.mk.injEq] at hsome
      obtain ⟨rfl, rfl⟩ := hsome
      refine ⟨(List.take_append_drop _ _).symm, ?_⟩
      rw [htake]
      exact hword
    · cases hsome
  refine ⟨hread, ?_⟩
  rintro ⟨htext, hword⟩
  have hsome : (readWord words text).isSome = true := by
    unfold readWord
    rw [List.findSome?_isSome_iff]
    refine ⟨w.map lower, hword, ?_⟩
    rw [htext, List.length_map, List.take_left, if_pos rfl]
    rfl
  obtain ⟨⟨w', rest'⟩, hread'⟩ := Option.isSome_iff_exists.mp hsome
  obtain ⟨htext', hword'⟩ := hread hread'
  -- both begin the text, so one begins the other
  have hw : w.map lower = w'.map lower := by
    have hpre : w <+: text := ⟨rest, htext.symm⟩
    have hpre' : w' <+: text := ⟨rest', htext'.symm⟩
    obtain h | h := List.prefix_or_prefix_of_prefix hpre hpre'
    · exact hfree _ hword _ hword' (h.map lower)
    · exact (hfree _ hword' _ hword (h.map lower)).symm
  have hlength : w.length = w'.length := by
    have := congrArg List.length hw
    rwa [List.length_map, List.length_map] at this
  obtain ⟨rfl, rfl⟩ := List.append_inj (htext.symm.trans htext') hlength
  exact hread'

theorem schemes_free : ∀ a ∈ schemes, ∀ b ∈ schemes, a <+: b → a = b := by decide

theorem marks_free : ∀ a ∈ marks, ∀ b ∈ marks, a <+: b → a = b := by decide

/-- The text of an authority, to its `@`. -/
structure Authority.Reads (a : Authority) (text : Text) : Prop where
  text_eq : text = a.scheme ++ (a.user ++ colon :: (a.pass ++ at_ :: a.tail))
  scheme : IsScheme a.scheme
  user : ∀ c ∈ a.user, isUser c = true
  pass : ∀ c ∈ a.pass, isPass c = true

theorem readAuthority_eq_some {a : Authority} : readAuthority text = some a ↔ a.Reads text := by
  unfold readAuthority
  rw [Option.bind_eq_some_iff]
  constructor
  · rintro ⟨⟨scheme, rest⟩, hscheme, h⟩
    obtain ⟨htext, hword⟩ := (readWord_eq_some schemes_free).mp hscheme
    dsimp only at h
    split at h
    · cases h
    · next c afterUser huser =>
      split at h
      · cases h
      · next hcolon =>
        split at h
        · cases h
        · next d tail hpass =>
          split at h
          · cases h
          · next hat =>
            simp only [ne_eq, not_not] at hcolon hat
            subst hcolon hat
            cases h
            have hrest := List.takeWhile_append_dropWhile (p := isUser) (l := rest)
            have hafter := List.takeWhile_append_dropWhile (p := isPass) (l := afterUser)
            rw [huser] at hrest
            rw [hpass] at hafter
            refine ⟨?_, hword, ?_, ?_⟩
            · dsimp only
              rw [hafter, hrest]
              exact htext
            · exact fun c hc => List.all_eq_true.mp List.all_takeWhile c hc
            · exact fun c hc => List.all_eq_true.mp List.all_takeWhile c hc
  · rintro ⟨htext, hscheme, huser, hpass⟩
    refine ⟨(a.scheme, _), (readWord_eq_some schemes_free).mpr ⟨htext, hscheme⟩, ?_⟩
    have hcolon : isUser colon = false := by decide
    have hat : isPass at_ = false := by decide
    dsimp only
    rw [List.dropWhile_append_of_pos huser, List.takeWhile_append_of_pos huser,
      List.dropWhile_cons_of_neg (by simp [hcolon]), List.takeWhile_cons_of_neg (by simp [hcolon])]
    simp only [ne_eq, not_true_eq_false, if_false]
    rw [List.dropWhile_append_of_pos hpass, List.takeWhile_append_of_pos hpass,
      List.dropWhile_cons_of_neg (by simp [hat]), List.takeWhile_cons_of_neg (by simp [hat])]
    simp

/-! ## One authority before each `@` -/

variable {c : Nat}

theorem lower_eq_slash (h : lower c = slash) : c = slash := by
  unfold lower slash at h
  unfold slash
  split at h
  · omega
  · exact h

theorem IsScheme.ends {s : Text} (h : IsScheme s) : ∃ r, s = r ++ [slash] := by
  have hlast : ∀ word ∈ schemes, word.getLast? = some slash := by decide
  have hs := hlast _ h
  rw [List.getLast?_map, Option.map_eq_some_iff] at hs
  obtain ⟨c, hc, hlower⟩ := hs
  rw [lower_eq_slash hlower] at hc
  exact ⟨s.dropLast, (List.dropLast_append_getLast? slash hc).symm⟩

theorem scheme_unique {v s s' t t' : Text} (hs : IsScheme s) (hs' : IsScheme s')
    (ht : slash ∉ t) (ht' : slash ∉ t') (h : s ++ t = v ++ (s' ++ t')) :
    v = [] ∧ s = s' ∧ t = t' := by
  obtain ⟨r, hr⟩ := hs.ends
  obtain ⟨r', hr'⟩ := hs'.ends
  -- what comes after the last slash
  have hlast : ∀ {x y : Text}, slash ∉ y →
      ((x ++ [slash] ++ y).reverse).takeWhile (· ≠ slash) = y.reverse := by
    intro x y hy
    rw [List.reverse_append, List.reverse_append, List.takeWhile_append_of_pos]
    · simp
    · intro c hc
      rw [decide_eq_true_eq]
      intro heq
      exact hy (heq ▸ List.mem_reverse.mp hc)
  have htt : t = t' := by
    have h₁ : ((s ++ t).reverse).takeWhile (· ≠ slash) = t.reverse := by
      rw [hr]
      exact hlast ht
    have h₂ : ((v ++ (s' ++ t')).reverse).takeWhile (· ≠ slash) = t'.reverse := by
      rw [← List.append_assoc, hr', ← List.append_assoc]
      exact hlast ht'
    rw [h, h₂] at h₁
    exact List.reverse_injective h₁.symm
  subst htt
  rw [← List.append_assoc] at h
  have hsv : s = v ++ s' := List.append_cancel_right h
  have hsuffix : ∀ a ∈ schemes, ∀ b ∈ schemes, b <:+ a → b.length = a.length := by decide
  have hlength := hsuffix _ hs _ hs' ⟨v.map lower, by rw [hsv, List.map_append]⟩
  rw [List.length_map, List.length_map, hsv, List.length_append] at hlength
  have hv : v = [] := List.eq_nil_of_length_eq_zero (by omega)
  rw [hv] at hsv
  exact ⟨hv, hsv, rfl⟩

/-- A piece of text is an authority up to its `@`. -/
structure IsBody (s scheme user pass : Text) : Prop where
  text_eq : s = scheme ++ (user ++ colon :: pass)
  scheme : IsScheme scheme
  user : ∀ c ∈ user, isUser c = true
  pass : ∀ c ∈ pass, isPass c = true

theorem isPass_of_isUser (h : isUser c = true) : isPass c = true := by
  unfold isUser at h
  exact (Bool.and_eq_true_iff.mp h).1

theorem IsBody.rest_isPass {s scheme user pass : Text} (h : IsBody s scheme user pass) :
    ∀ c ∈ user ++ colon :: pass, isPass c = true := by
  intro c hc
  obtain hc | hc := List.mem_append.mp hc
  · exact isPass_of_isUser (h.user c hc)
  · obtain rfl | hc := List.mem_cons.mp hc
    · decide
    · exact h.pass c hc

theorem not_mem_of_isPass {d : Nat} {t : Text} (hd : isPass d = false)
    (h : ∀ c ∈ t, isPass c = true) : d ∉ t := by
  intro hmem
  rw [h d hmem] at hd
  cases hd

theorem IsBody.no_slash {s scheme user pass : Text} (h : IsBody s scheme user pass) :
    slash ∉ user ++ colon :: pass := not_mem_of_isPass (by decide) h.rest_isPass

theorem IsScheme.no_at {s : Text} (h : IsScheme s) : at_ ∉ s := by
  have hnone : ∀ word ∈ schemes, at_ ∉ word := by decide
  intro hmem
  exact hnone _ h (List.mem_map.mpr ⟨at_, hmem, rfl⟩)

theorem IsBody.no_at {s scheme user pass : Text} (h : IsBody s scheme user pass) : at_ ∉ s := by
  rw [h.text_eq, List.mem_append]
  intro hmem
  obtain hmem | hmem := hmem
  · exact h.scheme.no_at hmem
  · exact not_mem_of_isPass (by decide) h.rest_isPass hmem

theorem authority_unique {v s scheme user pass scheme' t : Text} (h : IsBody s scheme user pass)
    (hs : IsScheme scheme') (ht : slash ∉ t) (hsplit : s = v ++ (scheme' ++ t)) :
    v = [] ∧ scheme = scheme' ∧ user ++ colon :: pass = t :=
  scheme_unique h.scheme hs h.no_slash ht (h.text_eq.symm.trans hsplit)

theorem at_unique : ∀ {s s' rest rest' : Text}, at_ ∉ s → at_ ∉ s' →
    s ++ at_ :: rest = s' ++ at_ :: rest' → s = s' ∧ rest = rest'
  | [], [], _, _, _, _, h => ⟨rfl, (List.cons.inj h).2⟩
  | [], c :: _, _, _, _, hs', h => by
    rw [← (List.cons.inj h).1] at hs'
    exact absurd List.mem_cons_self hs'
  | c :: _, [], _, _, hs, _, h => by
    rw [(List.cons.inj h).1] at hs
    exact absurd List.mem_cons_self hs
  | c :: s, d :: s', _, _, hs, hs', h => by
    obtain ⟨hcd, htail⟩ := List.cons.inj h
    obtain ⟨hss, hrest⟩ := at_unique (fun hc => hs (List.mem_cons_of_mem _ hc))
      (fun hc => hs' (List.mem_cons_of_mem _ hc)) htail
    exact ⟨by rw [hcd, hss], hrest⟩

/-- What is read of a text up to its first `@`. -/
theorem reads_segment {s rest : Text} (hs : at_ ∉ s) {a : Authority} :
    readAuthority (s ++ at_ :: rest) = some a ↔
      IsBody s a.scheme a.user a.pass ∧ a.tail = rest := by
  rw [readAuthority_eq_some]
  constructor
  · intro h
    have hbody : IsBody (a.scheme ++ (a.user ++ colon :: a.pass)) a.scheme a.user a.pass :=
      ⟨rfl, h.scheme, h.user, h.pass⟩
    have hsplit : s ++ at_ :: rest =
        (a.scheme ++ (a.user ++ colon :: a.pass)) ++ at_ :: a.tail := by
      rw [h.text_eq]
      simp
    obtain ⟨rfl, rfl⟩ := at_unique hs hbody.no_at hsplit
    exact ⟨hbody, rfl⟩
  · rintro ⟨hbody, rfl⟩
    refine ⟨?_, hbody.scheme, hbody.user, hbody.pass⟩
    rw [hbody.text_eq]
    simp

theorem reads_nothing (h : at_ ∉ text) : readAuthority text = none := by
  rw [Option.eq_none_iff_forall_ne_some]
  intro a ha
  rw [readAuthority_eq_some] at ha
  apply h
  rw [ha.text_eq]
  simp

/-! ## Where authorities are -/

/-- Somewhere in the text an authority has the property; `prev` is the unit before the text. -/
def Occurs (p : Option Nat → Text → Text → Prop) : Option Nat → Text → Prop
  | _, [] => False
  | prev, c :: cs =>
    (∃ a, readAuthority (c :: cs) = some a ∧ p prev a.user a.pass) ∨ Occurs p (some c) cs

/-- What the first pattern asks for besides the shape of an authority. -/
def Matched (prev : Option Nat) (user pass : Text) : Prop :=
  prev.any isWord = false ∧ user ≠ [] ∧ pass ≠ []

instance (prev : Option Nat) (user pass : Text) : Decidable (Matched prev user pass) :=
  inferInstanceAs (Decidable (prev.any isWord = false ∧ user ≠ [] ∧ pass ≠ []))

instance decidableOccurs (p : Option Nat → Text → Text → Prop) [∀ q u w, Decidable (p q u w)] :
    ∀ prev text, Decidable (Occurs p prev text)
  | _, [] => isFalse (fun h => h)
  | prev, c :: cs =>
    have := decidableOccurs p (some c) cs
    decidable_of_iff ((readAuthority (c :: cs)).any (fun a => p prev a.user a.pass) = true ∨
      Occurs p (some c) cs) (by simp [Occurs, Option.any_eq_true])

theorem head_isWord {s : Text} (h : IsScheme s) : ∃ c r, s = c :: r ∧ isWord c = true := by
  have hhead : ∀ word ∈ schemes, word.head?.any (fun c => 0x61 ≤ c && c ≤ 0x7A) = true := by
    decide
  have hs := hhead _ h
  cases s with
  | nil => cases hs
  | cons c r =>
    refine ⟨c, r, rfl, ?_⟩
    simp only [List.map_cons, List.head?_cons, Option.any_some, Bool.and_eq_true,
      decide_eq_true_eq] at hs
    unfold lower at hs
    unfold isWord
    simp only [Bool.or_eq_true, Bool.and_eq_true, decide_eq_true_eq]
    split at hs <;> omega

variable {prev : Option Nat}

/-- The first pattern matches just the authorities it asks for. -/
theorem urlWithCredentials_eq_some {hit : Hit Nat} :
    urlWithCredentials prev text = some hit ↔ ∃ a, readAuthority text = some a ∧
      Matched prev a.user a.pass ∧
      hit = ⟨a.scheme.length + a.user.length + a.pass.length + 1, redactedAuthority a.scheme⟩ := by
  unfold urlWithCredentials
  rw [Option.bind_eq_some_iff]
  refine exists_congr fun a => and_congr_right fun ha => ?_
  obtain ⟨c, r, hc, hword⟩ := head_isWord (readAuthority_eq_some.mp ha).scheme
  have hboundary : atBoundary prev text = !prev.any isWord := by
    rw [(readAuthority_eq_some.mp ha).text_eq, hc]
    simp [atBoundary, hword]
  simp only [hboundary, Matched, Option.ite_none_right_eq_some, Bool.and_eq_true,
    Bool.not_eq_true', decide_eq_true_eq, Option.some.injEq, and_assoc, eq_comm (b := hit)]

theorem urlWithCredentials_eq_none :
    urlWithCredentials prev text = none ↔
      ∀ a, readAuthority text = some a → ¬ Matched prev a.user a.pass := by
  rw [Option.eq_none_iff_forall_ne_some]
  constructor
  · intro h a ha hmatched
    exact h _ (urlWithCredentials_eq_some.mpr ⟨a, ha, hmatched, rfl⟩)
  · intro h hit hhit
    obtain ⟨a, ha, hmatched, -⟩ := urlWithCredentials_eq_some.mp hhit
    exact h a ha hmatched

theorem occurs_skip {p : Option Nat → Text → Text → Prop} {rest : Text} :
    ∀ {s : Text} {prev : Option Nat}, at_ ∉ s →
      (∀ v w scheme user pass, s = v ++ w → ¬ IsBody w scheme user pass) →
      (Occurs p prev (s ++ at_ :: rest) ↔ Occurs p (some at_) rest)
  | [], prev, _, hnone => by
    show (_ ∨ Occurs p (some at_) rest) ↔ _
    refine ⟨?_, Or.inr⟩
    rintro (⟨a, ha, -⟩ | hrest)
    · have hbody := ((reads_segment (s := []) List.not_mem_nil).mp ha).1
      exact absurd hbody (hnone [] [] _ _ _ rfl)
    · exact hrest
  | c :: s, prev, hat, hnone => by
    have hrest := @occurs_skip p rest s (some c)
      (fun hc => hat (List.mem_cons_of_mem _ hc))
      (fun v w scheme user pass hsplit =>
        hnone (c :: v) w scheme user pass (by rw [hsplit]; rfl))
    show (_ ∨ Occurs p (some c) (s ++ at_ :: rest)) ↔ _
    rw [hrest]
    refine ⟨?_, Or.inr⟩
    rintro (⟨a, ha, -⟩ | h)
    · exact absurd ((reads_segment hat).mp ha).1 (hnone [] (c :: s) _ _ _ rfl)
    · exact h

/-! ## What the first pattern leaves -/

theorem redacted_no_body {scheme : Text} (hs : IsScheme scheme) :
    ∀ v w scheme' user pass, scheme ++ redactedMark = v ++ w →
      ¬ IsBody w scheme' user pass := by
  intro v w scheme' user pass hsplit hbody
  rw [hbody.text_eq] at hsplit
  obtain ⟨-, -, hmark⟩ :=
    scheme_unique hs hbody.scheme (by decide) hbody.no_slash hsplit
  have hcolon : colon ∈ redactedMark := by
    rw [hmark]
    simp
  exact absurd hcolon (by decide)

theorem redacted_no_at {scheme : Text} (hs : IsScheme scheme) :
    at_ ∉ scheme ++ redactedMark := by
  rw [List.mem_append]
  intro hmem
  obtain hmem | hmem := hmem
  · exact hs.no_at hmem
  · exact absurd hmem (by decide)

theorem body_no_body {s scheme user pass : Text}
    (h : IsBody (c :: s) scheme user pass) :
    ∀ v w scheme' user' pass', s = v ++ w → ¬ IsBody w scheme' user' pass' := by
  intro v w scheme' user' pass' hsplit hbody
  have hlong : c :: s = (c :: v) ++ (scheme' ++ (user' ++ colon :: pass')) := by
    rw [← hbody.text_eq, hsplit]
    rfl
  obtain ⟨hnil, -, -⟩ := authority_unique h hbody.scheme hbody.no_slash hlong
  cases hnil

theorem scan_match {s rest : Text} (hat : at_ ∉ c :: s) {hit : Hit Nat}
    (h : urlWithCredentials prev (c :: s ++ at_ :: rest) = some hit) :
    ∃ scheme user pass, IsBody (c :: s) scheme user pass ∧ Matched prev user pass ∧
      scan urlWithCredentials 0 prev (c :: s ++ at_ :: rest) =
        (scheme ++ redactedMark) ++ at_ :: scan urlWithCredentials 0 (some at_) rest := by
  obtain ⟨a, ha, hmatched, rfl⟩ := urlWithCredentials_eq_some.mp h
  have hbody := ((reads_segment hat).mp ha).1
  refine ⟨a.scheme, a.user, a.pass, hbody, hmatched, ?_⟩
  have hlength : a.scheme.length + a.user.length + a.pass.length + 1 = s.length + 1 := by
    have := congrArg List.length hbody.text_eq
    simp only [List.length_cons, List.length_append] at this
    omega
  rw [List.cons_append] at h ⊢
  rw [scan_hit h]
  dsimp only
  rw [hlength, scan_skip]
  simp [redactedAuthority]

theorem scan_segment {rest : Text} : ∀ {s : Text} {prev : Option Nat}, at_ ∉ s →
    scan urlWithCredentials 0 prev (s ++ at_ :: rest) =
        s ++ at_ :: scan urlWithCredentials 0 (some at_) rest ∨
      ∃ v w scheme user pass, s = v ++ w ∧ IsBody w scheme user pass ∧
        scan urlWithCredentials 0 prev (s ++ at_ :: rest) =
          (v ++ (scheme ++ redactedMark)) ++ at_ :: scan urlWithCredentials 0 (some at_) rest
  | [], prev, _ => by
    left
    have hnone : urlWithCredentials prev (at_ :: rest) = none := by
      rw [urlWithCredentials_eq_none]
      intro a ha
      have hbody := ((reads_segment (s := []) List.not_mem_nil).mp ha).1
      have hlength := congrArg List.length hbody.text_eq
      simp at hlength
    exact scan_none hnone
  | c :: s, prev, hat => by
    cases hfind : urlWithCredentials prev (c :: s ++ at_ :: rest) with
    | some hit =>
      right
      obtain ⟨scheme, user, pass, hbody, -, hscan⟩ := scan_match hat hfind
      exact ⟨[], c :: s, scheme, user, pass, rfl, hbody, hscan⟩
    | none =>
      have hs : at_ ∉ s := fun hc => hat (List.mem_cons_of_mem _ hc)
      have hscan : scan urlWithCredentials 0 prev (c :: s ++ at_ :: rest) =
          c :: scan urlWithCredentials 0 (some c) (s ++ at_ :: rest) := scan_none hfind
      rw [hscan]
      obtain h | ⟨v, w, scheme, user, pass, hsplit, hbody, h⟩ :=
        @scan_segment rest s (some c) hs
      · left
        rw [h]
        rfl
      · right
        refine ⟨c :: v, w, scheme, user, pass, by rw [hsplit]; rfl, hbody, ?_⟩
        rw [h]
        rfl

theorem noHit_no_at : ∀ {text : Text} {prev : Option Nat}, at_ ∉ text →
    NoHit urlWithCredentials prev text
  | [], _, _ => trivial
  | c :: cs, prev, h => by
    refine ⟨?_, noHit_no_at (fun hc => h (List.mem_cons_of_mem _ hc))⟩
    rw [urlWithCredentials_eq_none]
    intro a ha
    rw [reads_nothing h] at ha
    cases ha

/-- Where a text is not matched, what is read there is what was. -/
theorem reads_scan {cs : Text}
    (hnone : urlWithCredentials prev (c :: cs) = none)
    (p : Text → Text → Prop) :
    (∃ a, readAuthority (c :: scan urlWithCredentials 0 (some c) cs) = some a ∧ p a.user a.pass) ↔
      ∃ a, readAuthority (c :: cs) = some a ∧ p a.user a.pass ∧ ¬ Matched prev a.user a.pass := by
  have hunmatched := urlWithCredentials_eq_none.mp hnone
  have hdrop : (∃ a, readAuthority (c :: cs) = some a ∧ p a.user a.pass ∧
      ¬ Matched prev a.user a.pass) ↔ ∃ a, readAuthority (c :: cs) = some a ∧ p a.user a.pass := by
    refine exists_congr fun a => and_congr_right fun ha => ?_
    exact and_iff_left (hunmatched a ha)
  rw [hdrop]
  by_cases hmem : at_ ∈ c :: cs
  · obtain ⟨s, rest, hsplit, hat⟩ := List.eq_append_cons_of_mem hmem
    cases s with
    | nil =>
      -- nothing is read at an `@`
      obtain ⟨rfl, rfl⟩ := List.cons.inj hsplit
      have hread : ∀ tail, (∃ a, readAuthority (at_ :: tail) = some a ∧ p a.user a.pass) ↔
          False := by
        intro tail
        rw [iff_false]
        rintro ⟨a, ha, -⟩
        have hbody := ((reads_segment (s := []) List.not_mem_nil).mp ha).1
        have hlength := congrArg List.length hbody.text_eq
        simp at hlength
      rw [hread, hread]
    | cons d s =>
      rw [List.cons_append] at hsplit
      obtain ⟨rfl, rfl⟩ := List.cons.inj hsplit
      have hs : at_ ∉ s := fun hc => hat (List.mem_cons_of_mem _ hc)
      obtain hkept | ⟨v, w, scheme, user, pass, hvw, hbody, hscan⟩ :=
        @scan_segment rest s (some c) hs
      · rw [hkept, ← List.cons_append, ← List.cons_append]
        constructor
        · rintro ⟨a, ha, hp⟩
          exact ⟨{ a with tail := rest },
            (reads_segment hat).mpr ⟨((reads_segment hat).mp ha).1, rfl⟩, hp⟩
        · rintro ⟨a, ha, hp⟩
          exact ⟨{ a with tail := scan urlWithCredentials 0 (some at_) rest },
            (reads_segment hat).mpr ⟨((reads_segment hat).mp ha).1, rfl⟩, hp⟩
      · -- the piece ends in a body further on, before and after
        have hat' : at_ ∉ c :: (v ++ (scheme ++ redactedMark)) := by
          have hc : at_ ≠ c := fun h => hat (h ▸ List.mem_cons_self)
          have hv : at_ ∉ v := fun h => hs (hvw ▸ List.mem_append_left w h)
          simp only [List.mem_cons, List.mem_append, not_or]
          exact ⟨hc, hv, hbody.scheme.no_at, by decide⟩
        rw [hscan, ← List.cons_append, ← List.cons_append]
        apply iff_of_false
        · rintro ⟨a, ha, -⟩
          have hread := ((reads_segment hat').mp ha).1
          obtain ⟨hnil, -, -⟩ := authority_unique (v := c :: v) hread hbody.scheme
            (by decide) rfl
          cases hnil
        · rintro ⟨a, ha, -⟩
          have hread := ((reads_segment hat).mp ha).1
          exact body_no_body hread v w _ _ _ hvw hbody
  · have hcs : at_ ∉ cs := fun hc => hmem (List.mem_cons_of_mem _ hc)
    rw [scan_of_noHit (noHit_no_at hcs)]

/-- The authorities left are those that were not matched. -/
theorem occurs_scan (p : Option Nat → Text → Text → Prop) : ∀ (text : Text) (prev : Option Nat),
    Occurs p prev (scan urlWithCredentials 0 prev text) ↔
      Occurs (fun q user pass => p q user pass ∧ ¬ Matched q user pass) prev text
  | [], _ => Iff.rfl
  | c :: cs, prev => by
    cases hfind : urlWithCredentials prev (c :: cs) with
    | none =>
      rw [scan_none hfind]
      exact or_congr (reads_scan hfind (p prev)) (occurs_scan p cs (some c))
    | some hit =>
      have hmem : at_ ∈ c :: cs := by
        by_contra hno
        rw [(noHit_no_at hno).1] at hfind
        cases hfind
      obtain ⟨s, rest, hsplit, hat⟩ := List.eq_append_cons_of_mem hmem
      cases s with
      | nil =>
        obtain ⟨rfl, rfl⟩ := List.cons.inj hsplit
        obtain ⟨a, ha, -⟩ := urlWithCredentials_eq_some.mp hfind
        have hbody := ((reads_segment (s := []) List.not_mem_nil).mp ha).1
        have hlength := congrArg List.length hbody.text_eq
        simp at hlength
      | cons d s =>
        rw [List.cons_append] at hsplit
        obtain ⟨rfl, rfl⟩ := List.cons.inj hsplit
        have hs : at_ ∉ s := fun hc => hat (List.mem_cons_of_mem _ hc)
        obtain ⟨a, ha, hmatched, -⟩ := urlWithCredentials_eq_some.mp hfind
        obtain ⟨scheme, user, pass, hbody, -, hscan⟩ := scan_match hat hfind
        have hshort : rest.length < (s ++ at_ :: rest).length + 1 := by
          simp only [List.length_append, List.length_cons]
          omega
        rw [← List.cons_append, hscan,
          occurs_skip (redacted_no_at hbody.scheme) (redacted_no_body hbody.scheme),
          occurs_scan p rest (some at_)]
        show _ ↔ (_ ∨ Occurs _ (some c) (s ++ at_ :: rest))
        rw [occurs_skip hs (body_no_body hbody)]
        refine ⟨Or.inr, ?_⟩
        rintro (⟨b, hb, -, hunmatched⟩ | h)
        · -- the body read here is the one that was matched
          have hsame : b = a := Option.some.inj (hb.symm.trans ha)
          rw [hsame] at hunmatched
          exact absurd hmatched hunmatched
        · exact h
  termination_by text => text.length

/-! ## Nothing is left to redact -/

theorem noHit_of_not_occurs : ∀ {text : Text} {prev : Option Nat},
    ¬ Occurs Matched prev text → NoHit urlWithCredentials prev text
  | [], _, _ => trivial
  | c :: cs, prev, h => by
    refine ⟨?_, noHit_of_not_occurs (fun hc => h (Or.inr hc))⟩
    rw [urlWithCredentials_eq_none]
    intro a ha hmatched
    exact h (Or.inl ⟨a, ha, hmatched⟩)

theorem occurs_mono {p q : Option Nat → Text → Text → Prop} (h : ∀ r u w, p r u w → q r u w) :
    ∀ {text : Text} {prev : Option Nat}, Occurs p prev text → Occurs q prev text
  | [], _, hp => hp
  | _ :: _, _, hp => by
    obtain ⟨a, ha, hpa⟩ | hp := hp
    · exact Or.inl ⟨a, ha, h _ _ _ hpa⟩
    · exact Or.inr (occurs_mono h hp)

theorem noHit_scan (text : Text) :
    NoHit urlWithCredentials none (replaceAll urlWithCredentials text) := by
  apply noHit_of_not_occurs
  unfold replaceAll
  rw [occurs_scan]
  have hnever : ∀ {text : Text} {prev : Option Nat},
      ¬ Occurs (fun q user pass => Matched q user pass ∧ ¬ Matched q user pass) prev text := by
    intro text
    induction text with
    | nil => exact fun h => h
    | cons c cs ih =>
      rintro prev (⟨a, -, hyes, hno⟩ | h)
      · exact hno hyes
      · exact ih h
  exact hnever

theorem isUser_lower (c : Nat) (h : isUser (lower c) = true) : isUser c = true := by
  unfold lower at h
  split at h
  · next hletter =>
    obtain ⟨hlow, hhigh⟩ := hletter
    interval_cases c <;> decide
  · exact h

theorem mark_isUser {w : Text} (h : w.map lower ∈ marks) : (∀ c ∈ w, isUser c = true) ∧ w ≠ [] := by
  have hmarks : ∀ word ∈ marks, (∀ c ∈ word, isUser c = true) ∧ word ≠ [] := by decide
  obtain ⟨hall, hne⟩ := hmarks _ h
  refine ⟨fun c hc => isUser_lower c (hall _ (List.mem_map.mpr ⟨c, hc, rfl⟩)), ?_⟩
  intro hnil
  exact hne (by rw [hnil]; rfl)

/-- What the second pattern matches the first one matches. -/
theorem first_of_second {hit : Hit Nat}
    (h : authorityWithRedactedCredentials prev text = some hit) :
    urlWithCredentials prev text ≠ none := by
  unfold authorityWithRedactedCredentials at h
  split at h
  · cases h
  · next hboundary =>
    obtain ⟨⟨scheme, rest⟩, hscheme, h⟩ := Option.bind_eq_some_iff.mp h
    obtain ⟨⟨user, afterUser⟩, huser, h⟩ := Option.bind_eq_some_iff.mp h
    dsimp only at h
    split at h
    · cases h
    · next c rest' =>
      split at h
      · cases h
      · next hcolon =>
        obtain ⟨⟨pass, afterPass⟩, hpass, h⟩ := Option.bind_eq_some_iff.mp h
        dsimp only at h
        split at h
        · next hat =>
          obtain ⟨htext, hscheme⟩ := (readWord_eq_some schemes_free).mp hscheme
          obtain ⟨hrest, huser⟩ := (readWord_eq_some marks_free).mp huser
          obtain ⟨hrest', hpass⟩ := (readWord_eq_some marks_free).mp hpass
          obtain ⟨tail, htail⟩ := List.head?_eq_some_iff.mp hat
          simp only [ne_eq, not_not] at hcolon
          have hread : readAuthority text = some ⟨scheme, user, pass, tail⟩ := by
            rw [readAuthority_eq_some]
            refine ⟨?_, hscheme, (mark_isUser huser).1,
              fun c hc => isPass_of_isUser ((mark_isUser hpass).1 c hc)⟩
            rw [htext, hrest, hcolon, hrest', htail]
          intro hnone
          refine urlWithCredentials_eq_none.mp hnone _ hread
            ⟨?_, (mark_isUser huser).2, (mark_isUser hpass).2⟩
          obtain ⟨d, r, hd, hword⟩ := head_isWord hscheme
          rw [htext, hd] at hboundary
          simpa [atBoundary, hword] using hboundary
        · cases h

theorem noHit_second : ∀ {text : Text} {prev : Option Nat}, NoHit urlWithCredentials prev text →
    NoHit authorityWithRedactedCredentials prev text
  | [], _, _ => trivial
  | c :: cs, prev, h => by
    refine ⟨?_, noHit_second h.2⟩
    rw [Option.eq_none_iff_forall_ne_some]
    intro hit hhit
    exact first_of_second hhit h.1

/-- The second pattern finds nothing after the first. -/
theorem redact_eq (text : Text) :
    redactSensitiveText text = replaceAll urlWithCredentials text :=
  scan_of_noHit (noHit_second (noHit_scan text))

theorem redact_idempotent (text : Text) :
    redactSensitiveText (redactSensitiveText text) = redactSensitiveText text := by
  rw [redact_eq, redact_eq]
  exact scan_of_noHit (noHit_scan text)

/-! ## Passwords in a text -/

/-- The text has a password as that of an authority: `scheme://user:password@`, where the
user may be empty, and `p` holds of what is before it and of the user. -/
def PasswordPart (p : Option Nat → Text → Prop) (text password : Text) : Prop :=
  ∃ before scheme user after,
    text = before ++ (scheme ++ (user ++ colon :: (password ++ at_ :: after))) ∧
    IsScheme scheme ∧ (∀ c ∈ user, isUser c = true) ∧ (∀ c ∈ password, isPass c = true) ∧
    p before.getLast? user

theorem occurs_iff {p : Option Nat → Text → Text → Prop} : ∀ {text : Text} {prev : Option Nat},
    Occurs p prev text ↔ ∃ before rest a, text = before ++ rest ∧ readAuthority rest = some a ∧
      p (before.getLast?.or prev) a.user a.pass
  | [], prev => by
    refine iff_of_false (fun h => h) ?_
    rintro ⟨before, rest, a, htext, ha, -⟩
    obtain ⟨-, rfl⟩ := List.append_eq_nil_iff.mp htext.symm
    rw [reads_nothing List.not_mem_nil] at ha
    cases ha
  | c :: cs, prev => by
    show (_ ∨ Occurs p (some c) cs) ↔ _
    rw [occurs_iff]
    constructor
    · rintro (⟨a, ha, hp⟩ | ⟨before, rest, a, rfl, ha, hp⟩)
      · exact ⟨[], c :: cs, a, rfl, ha, hp⟩
      · refine ⟨c :: before, rest, a, rfl, ha, ?_⟩
        rw [List.getLast?_cons]
        cases hlast : before.getLast? <;> simpa [hlast] using hp
    · rintro ⟨before, rest, a, htext, ha, hp⟩
      cases before with
      | nil =>
        rw [List.nil_append] at htext
        exact Or.inl ⟨a, htext ▸ ha, hp⟩
      | cons d before =>
        rw [List.cons_append] at htext
        obtain ⟨rfl, rfl⟩ := List.cons.inj htext
        refine Or.inr ⟨before, rest, a, rfl, ha, ?_⟩
        rw [List.getLast?_cons] at hp
        cases hlast : before.getLast? <;> simpa [hlast] using hp

theorem passwordPart_iff {p : Option Nat → Text → Prop} {password : Text} :
    PasswordPart p text password ↔
      Occurs (fun prev user pass => pass = password ∧ p prev user) none text := by
  rw [occurs_iff]
  constructor
  · rintro ⟨before, scheme, user, after, htext, hscheme, huser, hpass, hp⟩
    refine ⟨before, _, ⟨scheme, user, password, after⟩, htext,
      readAuthority_eq_some.mpr ⟨rfl, hscheme, huser, hpass⟩, rfl, ?_⟩
    rw [Option.or_none]
    exact hp
  · rintro ⟨before, rest, a, htext, ha, rfl, hp⟩
    have hreads := readAuthority_eq_some.mp ha
    rw [Option.or_none] at hp
    exact ⟨before, a.scheme, a.user, a.tail, by rw [htext, hreads.text_eq], hreads.scheme,
      hreads.user, hreads.pass, hp⟩

theorem passwordPart_redact (text password : Text) :
    PasswordPart (fun _ _ => True) (redactSensitiveText text) password ↔
      PasswordPart (fun prev user => ¬ Matched prev user password) text password := by
  rw [passwordPart_iff, passwordPart_iff, redact_eq]
  unfold replaceAll
  rw [occurs_scan]
  constructor
  · refine occurs_mono ?_
    rintro prev user pass ⟨⟨rfl, -⟩, hunmatched⟩
    exact ⟨rfl, hunmatched⟩
  · refine occurs_mono ?_
    rintro prev user pass ⟨rfl, hunmatched⟩
    exact ⟨⟨rfl, trivial⟩, hunmatched⟩

/-! ## Blank texts -/

theorem not_isSpace_of_isWord (h : isWord c = true) : isSpace c = false := by
  unfold isWord at h
  simp only [Bool.or_eq_true, Bool.and_eq_true, decide_eq_true_eq] at h
  have hrange : 0x30 ≤ c ∧ c ≤ 0x7A := by omega
  unfold isSpace
  simp only [List.mem_cons, List.not_mem_nil, or_false, Bool.or_eq_false_iff, decide_eq_false_iff_not,
    Bool.and_eq_false_iff]
  omega

theorem scheme_not_blank {cs scheme rest : Text} (hs : IsScheme scheme)
    (htext : c :: cs = scheme ++ rest) :
    (!isSpace c) = true ∧ (redactedAuthority scheme).any (fun d => !isSpace d) = true := by
  obtain ⟨d, r, rfl, hword⟩ := head_isWord hs
  obtain ⟨rfl, -⟩ := List.cons.inj htext
  have hspace := not_isSpace_of_isWord hword
  refine ⟨by rw [hspace]; rfl, ?_⟩
  rw [redactedAuthority, List.cons_append, List.cons_append, List.any_cons, hspace]
  rfl

theorem urlWithCredentials_keepsKind : KeepsKind urlWithCredentials (fun c => !isSpace c) := by
  intro prev c cs hit h
  obtain ⟨a, ha, -, rfl⟩ := urlWithCredentials_eq_some.mp h
  have hreads := readAuthority_eq_some.mp ha
  exact scheme_not_blank hreads.scheme hreads.text_eq

theorem authorityWithRedactedCredentials_keepsKind :
    KeepsKind authorityWithRedactedCredentials (fun c => !isSpace c) := by
  intro prev c cs hit h
  unfold authorityWithRedactedCredentials at h
  split at h
  · cases h
  · obtain ⟨⟨scheme, rest⟩, hscheme, h⟩ := Option.bind_eq_some_iff.mp h
    obtain ⟨htext, hword⟩ := (readWord_eq_some schemes_free).mp hscheme
    obtain ⟨⟨user, afterUser⟩, -, h⟩ := Option.bind_eq_some_iff.mp h
    dsimp only at h
    split at h
    · cases h
    · split at h
      · cases h
      · obtain ⟨⟨pass, afterPass⟩, -, h⟩ := Option.bind_eq_some_iff.mp h
        dsimp only at h
        split at h
        · cases h
          exact scheme_not_blank hword htext
        · cases h

/-- **A text is blank after the redaction just where it was.** -/
theorem redactSensitiveText_blank (text : Text) :
    (redactSensitiveText text).any (fun c => !isSpace c) = text.any (fun c => !isSpace c) := by
  rw [redactSensitiveText, any_replaceAll authorityWithRedactedCredentials_keepsKind,
    any_replaceAll urlWithCredentials_keepsKind]

end Drac.Security
