import Mathlib.Data.List.Pairwise
import Mathlib.Tactic.Common

/-
  Choosing greedily from a list: an element is taken unless one already taken clashes with it.

    chosen_sublist     what is taken keeps its order
    chosen_pairwise    none of it clashes with an earlier one
    chosen_dominates   what is left clashes with one taken, which came before it
    chosen_eq_self     where nothing clashes, all is taken
-/

namespace GreedyChoice

variable {α : Type} (clashes : α → α → Bool)

def choose (taken : List α) (a : α) : List α :=
  if taken.any (fun b => clashes b a) then taken else taken ++ [a]

def chosen (l : List α) : List α := l.foldl (choose clashes) []

variable {clashes} {taken l : List α} {a : α}

theorem choose_of_clash {b : α} (hb : b ∈ taken) (h : clashes b a = true) :
    choose clashes taken a = taken :=
  if_pos (List.any_eq_true.mpr ⟨b, hb, h⟩)

theorem choose_of_free (h : ∀ b ∈ taken, clashes b a = false) :
    choose clashes taken a = taken ++ [a] := by
  refine if_neg (fun hany => ?_)
  obtain ⟨b, hb, hclash⟩ := List.any_eq_true.mp hany
  rw [h b hb] at hclash
  cases hclash

theorem choose_cases (clashes : α → α → Bool) (taken : List α) (a : α) :
    (choose clashes taken a = taken ++ [a] ∧ ∀ b ∈ taken, clashes b a = false) ∨
      choose clashes taken a = taken ∧ ∃ b ∈ taken, clashes b a = true := by
  by_cases hclash : ∃ b ∈ taken, clashes b a = true
  · obtain ⟨b, hb, h⟩ := hclash
    exact .inr ⟨choose_of_clash hb h, b, hb, h⟩
  · have hfree : ∀ b ∈ taken, clashes b a = false := by
      intro b hb
      exact Bool.eq_false_iff.mpr (fun h => hclash ⟨b, hb, h⟩)
    exact .inl ⟨choose_of_free hfree, hfree⟩

theorem foldl_choose (clashes : α → α → Bool) (l taken : List α) :
    ∃ more, l.foldl (choose clashes) taken = taken ++ more ∧ more.Sublist l := by
  induction l generalizing taken with
  | nil => exact ⟨[], (List.append_nil _).symm, .slnil⟩
  | cons a rest ih =>
    rw [List.foldl_cons]
    rcases choose_cases clashes taken a with ⟨h, -⟩ | ⟨h, -⟩
    · obtain ⟨more, hmore, hsub⟩ := ih (taken ++ [a])
      refine ⟨a :: more, ?_, hsub.cons_cons a⟩
      rw [h, hmore, List.append_assoc, List.singleton_append]
    · obtain ⟨more, hmore, hsub⟩ := ih taken
      exact ⟨more, by rw [h, hmore], hsub.cons a⟩

theorem mem_foldl_of_mem (ha : a ∈ taken) : a ∈ l.foldl (choose clashes) taken := by
  obtain ⟨more, hmore, -⟩ := foldl_choose clashes l taken
  rw [hmore]
  exact List.mem_append_left _ ha

theorem chosen_sublist (l : List α) : (chosen clashes l).Sublist l := by
  obtain ⟨more, hmore, hsub⟩ := foldl_choose clashes l []
  rw [chosen, hmore, List.nil_append]
  exact hsub

theorem foldl_choose_pairwise (h : taken.Pairwise (fun a b => clashes a b = false)) :
    (l.foldl (choose clashes) taken).Pairwise (fun a b => clashes a b = false) := by
  induction l generalizing taken with
  | nil => exact h
  | cons a rest ih =>
    rw [List.foldl_cons]
    rcases choose_cases clashes taken a with ⟨heq, hfree⟩ | ⟨heq, -⟩
    · rw [heq]
      refine ih (List.pairwise_append.mpr ⟨h, List.pairwise_singleton _ _, ?_⟩)
      intro b hb c hc
      obtain rfl := List.mem_singleton.mp hc
      exact hfree b hb
    · rw [heq]
      exact ih h

theorem chosen_pairwise (l : List α) :
    (chosen clashes l).Pairwise (fun a b => clashes a b = false) :=
  foldl_choose_pairwise .nil

/-- What a run leaves clashes with one it has taken; `R` is what the order of the list says of
an element and a later one. -/
theorem foldl_choose_dominates {R : α → α → Prop} (hl : l.Pairwise R)
    (htaken : ∀ b ∈ taken, ∀ a ∈ l, R b a) (ha : a ∈ l)
    (hleft : a ∉ l.foldl (choose clashes) taken) :
    ∃ b ∈ l.foldl (choose clashes) taken, clashes b a = true ∧ R b a := by
  induction l generalizing taken with
  | nil => cases ha
  | cons c rest ih =>
    obtain ⟨hc, hrest⟩ := List.pairwise_cons.mp hl
    rw [List.foldl_cons] at hleft ⊢
    rcases List.mem_cons.mp ha with rfl | ha
    · rcases choose_cases clashes taken a with ⟨heq, -⟩ | ⟨heq, b, hb, hclash⟩
      · refine absurd (mem_foldl_of_mem ?_) hleft
        rw [heq]
        exact List.mem_append_right _ (List.mem_singleton_self a)
      · refine ⟨b, mem_foldl_of_mem ?_, hclash, htaken b hb a List.mem_cons_self⟩
        rwa [heq]
    · refine ih hrest ?_ ha hleft
      intro b hb d hd
      rcases choose_cases clashes taken c with ⟨heq, -⟩ | ⟨heq, -⟩
      · rw [heq] at hb
        rcases List.mem_append.mp hb with hb | hb
        · exact htaken b hb d (List.mem_cons_of_mem _ hd)
        · obtain rfl := List.mem_singleton.mp hb
          exact hc d hd
      · rw [heq] at hb
        exact htaken b hb d (List.mem_cons_of_mem _ hd)

theorem chosen_dominates {R : α → α → Prop} (hl : l.Pairwise R) (ha : a ∈ l)
    (hleft : a ∉ chosen clashes l) : ∃ b ∈ chosen clashes l, clashes b a = true ∧ R b a :=
  foldl_choose_dominates hl (by simp) ha hleft

theorem foldl_choose_all (hl : l.Pairwise (fun a b => clashes a b = false))
    (htaken : ∀ b ∈ taken, ∀ a ∈ l, clashes b a = false) :
    l.foldl (choose clashes) taken = taken ++ l := by
  induction l generalizing taken with
  | nil => exact (List.append_nil _).symm
  | cons a rest ih =>
    obtain ⟨ha, hrest⟩ := List.pairwise_cons.mp hl
    rw [List.foldl_cons, choose_of_free (fun b hb => htaken b hb a List.mem_cons_self)]
    rw [ih hrest, List.append_assoc, List.singleton_append]
    intro b hb c hc
    rcases List.mem_append.mp hb with hb | hb
    · exact htaken b hb c (List.mem_cons_of_mem _ hc)
    · obtain rfl := List.mem_singleton.mp hb
      exact ha c hc

theorem chosen_eq_self (hl : l.Pairwise (fun a b => clashes a b = false)) :
    chosen clashes l = l :=
  foldl_choose_all hl (by simp)

end GreedyChoice
