import Mathlib.Data.List.Basic

/-
  Replacing what a pattern matches in a text.

  `find prev text` is a match of the pattern at the beginning of `text`, where `prev` is the
  symbol before it: how long it is and what replaces it. `replaceAll` is `text.replace` with a
  global pattern: from left to right, and after a match from its end. `replaceFirst` is the
  same with a pattern that is not global.

    `scan_skip`       the rest of a match is passed over;
    `scan_of_noHit`   a text in which nothing matches is left as it is.
-/

namespace GlobalReplace

variable {α : Type}

/-- A match: its first symbol, `rest` more of them, and what replaces them. -/
structure Hit (α : Type) where
  rest : Nat
  output : List α

variable (find : Option α → List α → Option (Hit α))

/-- The text with its matches replaced, where the first `skip` symbols belong to a match
already replaced. -/
def scan : Nat → Option α → List α → List α
  | _, _, [] => []
  | skip + 1, _, c :: cs => scan skip (some c) cs
  | 0, prev, c :: cs =>
    match find prev (c :: cs) with
    | some hit => hit.output ++ scan hit.rest (some c) cs
    | none => c :: scan 0 (some c) cs

def replaceAll (text : List α) : List α := scan find 0 none text

def replaceFirst : Option α → List α → List α
  | _, [] => []
  | prev, c :: cs =>
    match find prev (c :: cs) with
    | some hit => hit.output ++ cs.drop hit.rest
    | none => c :: replaceFirst (some c) cs

/-- Nothing matches. -/
def NoHit : Option α → List α → Prop
  | _, [] => True
  | prev, c :: cs => find prev (c :: cs) = none ∧ NoHit (some c) cs

variable {find}

theorem scan_hit {prev : Option α} {c : α} {cs : List α} {hit : Hit α}
    (h : find prev (c :: cs) = some hit) :
    scan find 0 prev (c :: cs) = hit.output ++ scan find hit.rest (some c) cs := by
  rw [scan, h]

theorem scan_none {prev : Option α} {c : α} {cs : List α} (h : find prev (c :: cs) = none) :
    scan find 0 prev (c :: cs) = c :: scan find 0 (some c) cs := by
  rw [scan, h]

theorem scan_skip : ∀ (xs : List α) (prev : Option α) (c : α) (ys : List α),
    scan find (xs.length + 1) prev (xs ++ c :: ys) = scan find 0 (some c) ys
  | [], _, _, _ => rfl
  | x :: xs, _, c, ys => scan_skip xs (some x) c ys

theorem scan_of_noHit : ∀ {prev : Option α} {text : List α}, NoHit find prev text →
    scan find 0 prev text = text
  | _, [], _ => rfl
  | prev, c :: cs, h => by
    rw [scan_none h.1, scan_of_noHit h.2]

/-- What a match begins with, and what replaces it, has a symbol of the kind. -/
def KeepsKind (find : Option α → List α → Option (Hit α)) (p : α → Bool) : Prop :=
  ∀ prev c cs hit, find prev (c :: cs) = some hit → p c = true ∧ hit.output.any p = true

theorem any_of_any_scan {p : α → Bool} (h : KeepsKind find p) : ∀ {skip : Nat} {prev : Option α}
    {text : List α}, (scan find skip prev text).any p = true → text.any p = true
  | _, _, [], hany => hany
  | skip + 1, prev, c :: cs, hany => by
    have hrest : cs.any p = true := @any_of_any_scan p h skip _ cs hany
    rw [List.any_cons, hrest, Bool.or_true]
  | 0, prev, c :: cs, hany => by
    cases hfind : find prev (c :: cs) with
    | some hit => rw [List.any_cons, (h prev c cs hit hfind).1, Bool.true_or]
    | none =>
      rw [scan_none hfind, List.any_cons, Bool.or_eq_true] at hany
      obtain hc | hcs := hany
      · rw [List.any_cons, hc, Bool.true_or]
      · rw [List.any_cons, any_of_any_scan h hcs, Bool.or_true]

theorem any_scan_of_any {p : α → Bool} (h : KeepsKind find p) : ∀ {prev : Option α}
    {text : List α}, text.any p = true → (scan find 0 prev text).any p = true
  | _, [], hany => hany
  | prev, c :: cs, hany => by
    cases hfind : find prev (c :: cs) with
    | some hit => rw [scan_hit hfind, List.any_append, (h prev c cs hit hfind).2, Bool.true_or]
    | none =>
      rw [scan_none hfind, List.any_cons]
      rw [List.any_cons, Bool.or_eq_true] at hany
      obtain hc | hcs := hany
      · rw [hc, Bool.true_or]
      · rw [any_scan_of_any h hcs, Bool.or_true]

theorem any_replaceAll {p : α → Bool} (h : KeepsKind find p) (text : List α) :
    (replaceAll find text).any p = text.any p :=
  Bool.eq_iff_iff.mpr ⟨any_of_any_scan h, any_scan_of_any h⟩

end GlobalReplace
