import Mathlib.Tactic.Common

/-
  Runs of labelled machines.

  A `Machine` has initial states and a step function that may refuse a label.
  Everything nondeterministic about a system (which thread moves, what the
  environment answers) is in the label, so a run is a list of labels and can be
  evaluated. `Path G s t` is a run from `s` to `t` every step of which meets the
  guard `G`, a condition on the state before the step and on its label; the
  unguarded run is `Path Always`.

  The rules used by the developments below:
    `Path.invariant`    a property every guarded step keeps holds along the run;
    `Reach.invariant`   and so in every reachable state;
    `Path.mono`         a stronger guard allows fewer runs;
    `Reach.strengthen`  an invariant may make one guard imply another;
    `Reach.relabel`     a run of a machine that only restricts another is a run of that;
    `path_of_run`       an evaluated list of labels is a run, guarded by what the
                        evaluation checks at each step.

  Where the calls a system has in progress are a list, `getElem?_set_some` and
  `getElem?_concat_some` say what a call is after one has moved or a new one has come, and
  `filterMap_set_perm` what is collected of all of them.
-/

namespace Runs

universe u v

/-- A system: its initial states, and what a label does to a state (`none`
where the label is not enabled). -/
structure Machine (σ : Type u) (α : Type v) where
  init : σ → Prop
  step : σ → α → Option σ

variable {σ : Type u} {α : Type v} {M : Machine σ α} {G G' : σ → α → Prop}

/-- The guard every step meets. -/
def Always : σ → α → Prop := fun _ _ => True

/-- A run from one state to another, every step of which meets the guard. -/
inductive Path (M : Machine σ α) (G : σ → α → Prop) : σ → σ → Prop where
  | refl (s : σ) : Path M G s s
  | tail {s t u : σ} {a : α} : Path M G s t → G t a → M.step t a = some u → Path M G s u

/-- The states a guarded run from an initial state ends in. -/
def Reach (M : Machine σ α) (G : σ → α → Prop) (t : σ) : Prop :=
  ∃ s, M.init s ∧ Path M G s t

theorem Path.mono (hG : ∀ s a, G s a → G' s a) {s t : σ} (h : Path M G s t) :
    Path M G' s t := by
  induction h with
  | refl => exact .refl _
  | tail _ hg hs ih => exact .tail ih (hG _ _ hg) hs

theorem Path.trans {s t u : σ} (h : Path M G s t) (k : Path M G t u) : Path M G s u := by
  induction k with
  | refl => exact h
  | tail _ hg hs ih => exact .tail ih hg hs

/-- A property that every guarded step keeps holds at the end of a guarded run. -/
theorem Path.invariant {I : σ → Prop}
    (hstep : ∀ s a t, I s → G s a → M.step s a = some t → I t) {s t : σ}
    (h : Path M G s t) (hi : I s) : I t := by
  induction h with
  | refl => exact hi
  | tail _ hg hs ih => exact hstep _ _ _ ih hg hs

theorem Reach.mono (hG : ∀ s a, G s a → G' s a) {t : σ} (h : Reach M G t) : Reach M G' t := by
  obtain ⟨s, hs, hp⟩ := h
  exact ⟨s, hs, hp.mono hG⟩

theorem Reach.trans {s t : σ} (h : Reach M G s) (k : Path M G s t) : Reach M G t := by
  obtain ⟨r, hr, hp⟩ := h
  exact ⟨r, hr, hp.trans k⟩

/-- A property of the initial states that every guarded step keeps holds in
every state reached. -/
theorem Reach.invariant {I : σ → Prop} (hinit : ∀ s, M.init s → I s)
    (hstep : ∀ s a t, I s → G s a → M.step s a = some t → I t) {t : σ}
    (h : Reach M G t) : I t := by
  obtain ⟨s, hs, hp⟩ := h
  exact hp.invariant hstep (hinit s hs)

/-- Where an invariant of the guarded runs makes every guarded step meet another guard,
these runs meet that one too. -/
theorem Reach.strengthen {I : σ → Prop} (hinit : ∀ s, M.init s → I s)
    (hstep : ∀ s a t, I s → G s a → M.step s a = some t → I t)
    (hG : ∀ s a t, I s → G s a → M.step s a = some t → G' s a) {t : σ} (h : Reach M G t) :
    Reach M G' t := by
  obtain ⟨s, hs, hp⟩ := h
  refine ⟨s, hs, ?_⟩
  have hboth : I t ∧ Path M G' s t := by
    induction hp with
    | refl => exact ⟨hinit s hs, .refl s⟩
    | tail _ hg hnext ih =>
      obtain ⟨hi, hpath⟩ := ih
      exact ⟨hstep _ _ _ hi hg hnext, .tail hpath (hG _ _ _ hi hg hnext) hnext⟩
  exact hboth.2

/-- A machine whose steps are steps of another, under other labels, reaches what that reaches. -/
theorem Reach.relabel {β : Type*} {N : Machine σ β} {H : σ → β → Prop} {f : α → β}
    (hinit : ∀ s, M.init s → N.init s) (hG : ∀ s a, G s a → H s (f a))
    (hstep : ∀ s a t, M.step s a = some t → N.step s (f a) = some t) {t : σ}
    (h : Reach M G t) : Reach N H t := by
  obtain ⟨s, hs, hp⟩ := h
  refine ⟨s, hinit s hs, ?_⟩
  induction hp with
  | refl => exact .refl s
  | tail _ hg hnext ih => exact .tail ih (hG _ _ hg) (hstep _ _ _ hnext)

/-- The state a list of labels leads to, or `none` where one is not enabled or
fails the check. -/
def Machine.run (M : Machine σ α) (check : σ → α → Bool) : σ → List α → Option σ
  | s, [] => some s
  | s, a :: rest => if check s a then (M.step s a).bind (M.run check · rest) else none

theorem path_of_run {check : σ → α → Bool} (hG : ∀ s a, check s a = true → G s a) :
    ∀ (as : List α) {s t : σ}, M.run check s as = some t → Path M G s t
  | [], s, t, h => by
    simp only [Machine.run, Option.some.injEq] at h
    exact h ▸ .refl s
  | a :: rest, s, t, h => by
    simp only [Machine.run] at h
    split at h
    · next hcheck =>
      rw [Option.bind_eq_some_iff] at h
      obtain ⟨u, hu, hr⟩ := h
      have hfirst : Path M G s u := .tail (.refl s) (hG s a hcheck) hu
      exact hfirst.trans (path_of_run hG rest hr)
    · cases h

def anyStep : σ → α → Bool := fun _ _ => true

/-- What an evaluated run from an initial state ends with is so in a state reached. -/
theorem reach_of_run {check : σ → α → Bool} {β : Type*} {f : σ → β} {b : β} {s : σ}
    {as : List α} (h : (M.run check s as).map f = some b) (hs : M.init s)
    (hG : ∀ s a, check s a = true → G s a) : ∃ t, Reach M G t ∧ f t = b := by
  obtain ⟨t, ht, hb⟩ := Option.map_eq_some_iff.mp h
  exact ⟨t, ⟨s, hs, path_of_run hG as ht⟩, hb⟩

theorem reach_of_anyStep {β : Type*} {f : σ → β} {b : β} {s : σ} {as : List α}
    (h : (M.run anyStep s as).map f = some b) (hs : M.init s) :
    ∃ t, Reach M Always t ∧ f t = b :=
  reach_of_run h hs (fun _ _ _ => trivial)

/-- The same of a test passed by the state an evaluated run ends in. -/
theorem reach_of_any {check : σ → α → Bool} {p : σ → Bool} {s : σ} {as : List α}
    (h : (M.run check s as).any p = true) (hs : M.init s)
    (hG : ∀ s a, check s a = true → G s a) : ∃ t, Reach M G t ∧ p t = true := by
  obtain ⟨t, ht, hp⟩ := (Option.any_eq_true _ _).mp h
  exact ⟨t, ⟨s, hs, path_of_run hG as ht⟩, hp⟩

/-! ## The calls of a system, in a list -/

theorem getElem?_set_some {γ : Type*} {l : List γ} {i j : Nat} {x y : γ}
    (h : (l.set i x)[j]? = some y) : (j = i ∧ y = x) ∨ (j ≠ i ∧ l[j]? = some y) := by
  rw [List.getElem?_set] at h
  by_cases hij : i = j
  · rw [if_pos hij] at h
    split at h
    · exact .inl ⟨hij.symm, (Option.some.inj h).symm⟩
    · cases h
  · rw [if_neg hij] at h
    exact .inr ⟨Ne.symm hij, h⟩

theorem getElem?_concat_some {γ : Type*} {l : List γ} {i : Nat} {x y : γ}
    (h : (l ++ [x])[i]? = some y) : l[i]? = some y ∨ (i = l.length ∧ y = x) := by
  rw [List.getElem?_append] at h
  split at h
  · exact .inl h
  · next hlt =>
    obtain ⟨hzero, heq⟩ := List.getElem?_eq_some_iff.mp h
    rw [List.length_singleton] at hzero
    refine .inr ⟨by omega, ?_⟩
    rw [← heq, List.getElem_singleton]

theorem filterMap_set_perm {γ δ : Type*} {f : γ → Option δ} {l : List γ} {i : Nat} {x : γ}
    (h : l[i]? = some x) (hx : f x = none) (y : γ) :
    ((l.set i y).filterMap f).Perm ((f y).toList ++ l.filterMap f) := by
  induction l generalizing i with
  | nil => cases h
  | cons z l ih =>
    cases i with
    | zero =>
      obtain rfl := Option.some.inj h
      rw [List.set_cons_zero, List.filterMap_cons, List.filterMap_cons, hx]
      cases f y <;> exact .refl _
    | succ i =>
      rw [List.set_cons_succ, List.filterMap_cons, List.filterMap_cons]
      have hrest := ih (i := i) h
      cases f z with
      | none => exact hrest
      | some w => exact (hrest.cons w).trans List.perm_middle.symm

end Runs
