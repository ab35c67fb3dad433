import Mathlib.Tactic.Common

/-
  Binary search over the places of a list.

  `firstTrue p low high` halves `[low, high)` and keeps the half where the first place that
  holds `p` must be. Where `p`, once true, stays true, nothing before the answer holds `p` and
  all from the answer on does (`firstTrue_spec`).
-/

namespace BinarySearch

def firstTrue (p : Nat → Bool) (low high : Nat) : Nat :=
  if low < high then
    let mid := (low + high) / 2
    if p mid then firstTrue p low mid else firstTrue p (mid + 1) high
  else low
termination_by high - low
decreasing_by all_goals omega

/-- Once true, true at every later place before `high`. -/
def Upward (p : Nat → Bool) (low high : Nat) : Prop :=
  ∀ i j, low ≤ i → i ≤ j → j < high → p i = true → p j = true

section Search

variable {p : Nat → Bool} {low high low' high' : Nat}

theorem Upward.shrink (h : Upward p low high) (hl : low ≤ low') (hh : high' ≤ high) :
    Upward p low' high' :=
  fun i j hi hij hj hp => h i j (Nat.le_trans hl hi) hij (Nat.lt_of_lt_of_le hj hh) hp

theorem firstTrue_spec (h : Upward p low high) (hle : low ≤ high) :
    low ≤ firstTrue p low high ∧ firstTrue p low high ≤ high ∧
      (∀ i, low ≤ i → i < firstTrue p low high → p i = false) ∧
      ∀ i, firstTrue p low high ≤ i → i < high → p i = true := by
  fun_induction firstTrue p low high with
  | case1 low high hlt mid hmid ih =>
    -- the answer is at `mid` or before it, and `p` holds from `mid` on
    obtain ⟨h1, h2, h3, h4⟩ := ih (h.shrink (Nat.le_refl _) (by omega)) (by omega)
    refine ⟨h1, by omega, h3, ?_⟩
    intro i hi hhigh
    by_cases him : i < mid
    · exact h4 i hi him
    · exact h mid i (by omega) (by omega) hhigh hmid
  | case2 low high hlt mid hmid ih =>
    -- `p` fails at `mid`, and so at every place before it
    obtain ⟨h1, h2, h3, h4⟩ := ih (h.shrink (by omega) (Nat.le_refl _)) (by omega)
    refine ⟨by omega, h2, ?_, h4⟩
    intro i hi hlt'
    by_cases him : mid + 1 ≤ i
    · exact h3 i him hlt'
    · apply Bool.eq_false_iff.mpr
      intro hp
      exact hmid (h i mid hi (by omega) (by omega) hp)
  | case3 low high hge =>
    exact ⟨Nat.le_refl _, hle, fun i hi hlt => absurd hi (by omega), fun i hi hlt => absurd hi (by omega)⟩

end Search

end BinarySearch
