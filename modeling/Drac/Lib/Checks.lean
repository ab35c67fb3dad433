import Mathlib.Tactic.Common

/-
  Calls that check, and throw.

  A call in `Except` goes on while nothing is thrown. `bind_ok` takes the first step of one that
  came to its end apart, and `throwIf_ok`, `unlessTrue_ok` say what a check that let it go on has seen.
-/

namespace Checks

variable {ε α β : Type}

/-- `if (condition) throw failure`. -/
def throwIf (condition : Bool) (failure : ε) : Except ε Unit :=
  if condition then .error failure else .ok ()

/-- `if (!condition) { … }`, of checks. -/
def unlessTrue (condition : Bool) (checks : Except ε Unit) : Except ε Unit :=
  if condition then .ok () else checks

theorem bind_ok {x : Except ε α} {f : α → Except ε β} {b : β} (h : x >>= f = .ok b) :
    ∃ a, x = .ok a ∧ f a = .ok b := by
  cases x with
  | error e => cases h
  | ok a => exact ⟨a, rfl, h⟩

theorem throwIf_ok {condition : Bool} {failure : ε} {u : Unit}
    (h : throwIf condition failure = .ok u) : condition = false := by
  cases condition with
  | false => rfl
  | true => cases h

theorem bind_throwIf_ok {condition : Bool} {failure : ε} {f : Unit → Except ε β} {b : β}
    (h : throwIf condition failure >>= f = .ok b) : condition = false ∧ f () = .ok b := by
  obtain ⟨u, hu, hf⟩ := bind_ok h
  exact ⟨throwIf_ok hu, hf⟩

theorem unlessTrue_ok {condition : Bool} {checks : Except ε Unit} {u : Unit}
    (h : unlessTrue condition checks = .ok u) (hcondition : condition = false) :
    checks = .ok () := by
  subst hcondition
  exact h

end Checks
