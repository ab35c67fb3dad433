import Mathlib.Data.List.Basic
import Mathlib.Data.List.Count

/-
  Reading a shrinking listing by pages.

  A `Source` lists its rows in a fixed order in each state, and a visit of a row
  may remove it. `sweep` reads pages with skip and take while it visits the rows of
  the page just read: `skip` counts the visited rows that stayed, `budget` what may
  still be spent, and a page is never longer than the budget.

  `sweep_visits`: where a visit changes the listing only by removing its row
  (`Lawful`), a sweep returns, and it has visited a prefix of the rows, each once
  and in order, though the listing shrank under its cursor: all of them, or as many
  as the budget paid for. `charged_take`: the rows it was charged for are the first
  ones of those that cost, as many as the budget.
-/

namespace Paging

/-- What became of a visited row: removed and paid for, kept but paid for, or kept
for free. -/
inductive Visit where
  | removed
  | charged
  | kept
  deriving DecidableEq, Repr

def Visit.stays : Visit → Bool
  | removed => false
  | charged | kept => true

def Visit.charges : Visit → Bool
  | removed | charged => true
  | kept => false

/-- Rows, and what a visit does to what they come from. -/
structure Source (σ α : Type) where
  rows : σ → List α
  visit : σ → α → σ × Visit

/-- A sweep under way. -/
structure Cursor (σ : Type) where
  state : σ
  skip : Nat
  budget : Nat

variable {σ α : Type}

namespace Source

def visitOne (S : Source σ α) (c : Cursor σ) (a : α) : Cursor σ :=
  let visited := S.visit c.state a
  { state := visited.1
    skip := if visited.2.stays then c.skip + 1 else c.skip
    budget := if visited.2.charges then c.budget - 1 else c.budget }

/-- Pages until the budget is spent or a page comes short; `none` where the fuel
does not last. -/
def sweep (S : Source σ α) (batch : Nat) : Nat → Cursor σ → Option (Cursor σ)
  | 0, _ => none
  | fuel + 1, c =>
    if c.budget = 0 then some c
    else
      let take := min batch c.budget
      let page := ((S.rows c.state).drop c.skip).take take
      let next := page.foldl S.visitOne c
      if page.length < take then some next
      else sweep S batch fuel next

/-- The state after rows have been visited. -/
def after (S : Source σ α) (s : σ) (rows : List α) : σ :=
  rows.foldl (fun s a => (S.visit s a).1) s

/-- While the invariant holds a visit's outcome depends on the row only, and the
visit changes the listing in no other way than by removing the row. -/
structure Lawful (S : Source σ α) (I : σ → Prop) (outcome : α → Visit) : Prop where
  inv : ∀ s before a rest, I s → S.rows s = before ++ a :: rest → I (S.visit s a).1
  outcome_eq : ∀ s before a rest, I s → S.rows s = before ++ a :: rest →
    (S.visit s a).2 = outcome a
  rows_eq : ∀ s before a rest, I s → S.rows s = before ++ a :: rest →
    S.rows (S.visit s a).1 = before ++ (if (outcome a).stays then [a] else []) ++ rest

end Source

def charge (outcome : α → Visit) (rows : List α) : Nat := rows.countP (fun a => (outcome a).charges)

@[simp] theorem charge_nil (outcome : α → Visit) : charge outcome [] = 0 := rfl

theorem charge_cons (outcome : α → Visit) (a : α) (rows : List α) :
    charge outcome (a :: rows) = charge outcome rows + if (outcome a).charges then 1 else 0 :=
  List.countP_cons

theorem charge_append (outcome : α → Visit) (xs ys : List α) :
    charge outcome (xs ++ ys) = charge outcome xs + charge outcome ys := List.countP_append

theorem charge_le (outcome : α → Visit) (rows : List α) : charge outcome rows ≤ rows.length :=
  List.countP_le_length

section Sweep

variable {S : Source σ α} {I : σ → Prop} {outcome : α → Visit} (h : S.Lawful I outcome)
include h

/-- A page is visited row by row: the rows that stay join those the cursor skips,
and the rows after the page are not touched. -/
theorem foldl_visitOne (page : List α) : ∀ (kept rest : List α) (s : σ) (budget : Nat), I s →
    S.rows s = kept ++ page ++ rest →
    ∃ kept' : List α, page.foldl S.visitOne ⟨s, kept.length, budget⟩ =
        ⟨S.after s page, kept'.length, budget - charge outcome page⟩ ∧
      I (S.after s page) ∧ S.rows (S.after s page) = kept' ++ rest := by
  induction page with
  | nil =>
    intro kept rest s budget hi hrows
    rw [List.append_nil] at hrows
    exact ⟨kept, rfl, hi, hrows⟩
  | cons a page ih =>
    intro kept rest s budget hi hrows
    have hat : S.rows s = kept ++ a :: (page ++ rest) := by simpa using hrows
    have hout := h.outcome_eq s kept a (page ++ rest) hi hat
    have hnext := h.rows_eq s kept a (page ++ rest) hi hat
    have hinv := h.inv s kept a (page ++ rest) hi hat
    set stay : List α := if (outcome a).stays then [a] else [] with hstay
    have hone : S.visitOne ⟨s, kept.length, budget⟩ a =
        ⟨(S.visit s a).1, (kept ++ stay).length,
          budget - if (outcome a).charges then 1 else 0⟩ := by
      simp only [Source.visitOne, hout, hstay]
      cases outcome a <;> simp [Visit.stays, Visit.charges]
    rw [List.foldl_cons, hone]
    obtain ⟨kept', hfold, hinv', hrows'⟩ := ih (kept ++ stay) rest _ _ hinv
      (by rw [hnext, List.append_assoc, List.append_assoc, List.append_assoc])
    refine ⟨kept', ?_, hinv', hrows'⟩
    rw [hfold, charge_cons, Nat.sub_sub, Nat.add_comm (charge outcome page)]
    rfl

/-- **A sweep visits a prefix of the rows, each once and in order**: all that are
left after the cursor, or as many as the budget pays for. -/
theorem sweep_visits {batch : Nat} (hbatch : 0 < batch) (fuel : Nat) :
    ∀ (kept unseen : List α) (s : σ) (budget : Nat), I s → S.rows s = kept ++ unseen →
    unseen.length < fuel →
    ∃ visited left c, S.sweep batch fuel ⟨s, kept.length, budget⟩ = some c ∧
      unseen = visited ++ left ∧ c.state = S.after s visited ∧ I c.state ∧
      c.budget = budget - charge outcome visited ∧ charge outcome visited ≤ budget ∧
      (left = [] ∨ charge outcome visited = budget) := by
  induction fuel with
  | zero => intro kept unseen s budget _ _ hfuel; omega
  | succ fuel ih =>
    intro kept unseen s budget hi hrows hfuel
    rw [Source.sweep]
    split
    · next hzero =>
      have hzero : budget = 0 := hzero
      exact ⟨[], unseen, _, rfl, rfl, rfl, hi, by simp, Nat.zero_le _, .inr (by simp [hzero])⟩
    · next hpos =>
      have hpos : budget ≠ 0 := hpos
      have hpage : ((S.rows s).drop kept.length).take (min batch budget) =
          unseen.take (min batch budget) := by
        rw [hrows, List.drop_left]
      simp only [hpage]
      set page := unseen.take (min batch budget) with hp
      set rest := unseen.drop (min batch budget) with hr
      have hsplit : unseen = page ++ rest := (List.take_append_drop _ _).symm
      have hlen : page.length ≤ budget := by
        rw [hp, List.length_take]
        omega
      have hcharge := charge_le outcome page
      obtain ⟨kept', hfold, hinv', hrows'⟩ := foldl_visitOne h page kept rest s budget hi
        (by rw [hrows, hsplit, List.append_assoc])
      rw [hfold]
      split
      · next hshort =>
        -- a short page is the last one
        have hrest : rest = [] := by
          rw [hr, List.drop_eq_nil_iff]
          rw [hp, List.length_take] at hshort
          omega
        refine ⟨page, rest, _, rfl, hsplit, rfl, hinv', rfl, ?_, .inl hrest⟩
        omega
      · next hfull =>
        have hshorter : rest.length < fuel := by
          rw [hp, List.length_take] at hfull
          rw [hr, List.length_drop]
          omega
        obtain ⟨visited, left, c, hsweep, hvis, hstate, hinv, hbud, hle, hend⟩ :=
          ih kept' rest _ (budget - charge outcome page) hinv' hrows' hshorter
        refine ⟨page ++ visited, left, c, hsweep, ?_, ?_, hinv, ?_, ?_, ?_⟩
        · rw [hsplit, hvis, List.append_assoc]
        · rw [hstate, Source.after, Source.after, Source.after, List.foldl_append]
        · rw [hbud, charge_append, Nat.sub_sub]
        · rw [charge_append]
          omega
        · rcases hend with hnil | hspent
          · exact .inl hnil
          · right
            rw [charge_append, hspent]
            omega

end Sweep

theorem charged_take (outcome : α → Visit) {visited left : List α} {budget : Nat}
    (hle : charge outcome visited ≤ budget) (hend : left = [] ∨ charge outcome visited = budget) :
    visited.filter (fun a => (outcome a).charges) =
      ((visited ++ left).filter (fun a => (outcome a).charges)).take budget := by
  have hlen : (visited.filter (fun a => (outcome a).charges)).length = charge outcome visited :=
    List.countP_eq_length_filter.symm
  rw [List.filter_append]
  rcases hend with rfl | hspent
  · rw [List.filter_nil, List.append_nil, List.take_of_length_le (by omega)]
  · rw [← hspent, ← hlen, List.take_left]

end Paging
