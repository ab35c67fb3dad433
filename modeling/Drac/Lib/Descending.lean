import Mathlib.Data.List.Sort

/-
  Rows in descending order of a key.

  `sortDesc` keeps rows of one key in the order of the table, so that it does not matter
  whether rows are selected before or after it (`filter_sortDesc`). The first row of a kind
  among the selected ones is the first of that kind alone, where the selection leaves none of
  them out (`find?_sortDesc`).
-/

namespace Descending

variable {α κ : Type} [LinearOrder κ] (key : α → κ)

/-- `orderBy: { key: 'desc' }`. -/
def sortDesc (l : List α) : List α := l.insertionSort (fun a b => key b ≤ key a)

local instance totalByKey : Std.Total (fun a b : α => key b ≤ key a) :=
  ⟨fun a b => le_total (key b) (key a)⟩

local instance transByKey : IsTrans α (fun a b => key b ≤ key a) :=
  ⟨fun _ _ _ hab hbc => hbc.trans hab⟩

theorem sortDesc_perm (l : List α) : (sortDesc key l).Perm l := List.perm_insertionSort _ l

theorem sortDesc_pairwise (l : List α) :
    (sortDesc key l).Pairwise (fun a b => key b ≤ key a) := List.pairwise_insertionSort _ l

variable {key}

/-- A row that is put in its place is selected there, or not at all. -/
theorem filter_orderedInsert (p : α → Bool) (a : α) {l : List α}
    (hl : l.Pairwise (fun a b => key b ≤ key a)) :
    (l.orderedInsert (fun a b => key b ≤ key a) a).filter p =
      if p a then (l.filter p).orderedInsert (fun a b => key b ≤ key a) a else l.filter p := by
  induction l with
  | nil => cases hp : p a <;> simp [hp]
  | cons b l ih =>
    obtain ⟨hb, hl⟩ := List.pairwise_cons.mp hl
    rw [List.orderedInsert_cons]
    by_cases hle : key b ≤ key a
    · rw [if_pos hle, List.filter_cons]
      split
      · -- the first row that is selected is not above `a` either
        have hfirst : ∀ c ∈ (b :: l).filter p, key c ≤ key a := by
          intro c hc
          obtain rfl | hc := List.mem_cons.mp (List.mem_filter.mp hc).1
          · exact hle
          · exact (hb c hc).trans hle
        cases hrest : (b :: l).filter p with
        | nil => rfl
        | cons c rest =>
          rw [List.orderedInsert_cons, if_pos (hfirst c (by simp [hrest]))]
      · rfl
    · rw [if_neg hle, List.filter_cons, ih hl, List.filter_cons]
      cases p a <;> cases p b <;> simp [hle]

/-- **Selecting and sorting commute.** -/
theorem filter_sortDesc (p : α → Bool) (l : List α) :
    (sortDesc key l).filter p = sortDesc key (l.filter p) := by
  induction l with
  | nil => rfl
  | cons a l ih =>
    unfold sortDesc at ih ⊢
    rw [List.insertionSort_cons, filter_orderedInsert p a (List.pairwise_insertionSort _ l), ih,
      List.filter_cons]
    split
    · rw [List.insertionSort_cons]
    · rfl

/-- **The first of a kind**, among rows that are selected with all of that kind. -/
theorem find?_sortDesc {p q : α → Bool} {l : List α} (h : ∀ a ∈ l, p a = true → q a = true) :
    (sortDesc key (l.filter q)).find? p = (sortDesc key (l.filter p)).head? := by
  rw [← List.head?_filter, filter_sortDesc, List.filter_filter]
  congr 2
  apply List.filter_congr
  intro a ha
  cases hp : p a with
  | false => rfl
  | true => rw [h a ha hp, Bool.and_self]

end Descending
