import Mathlib.Data.List.Basic

/-
  Fencing tokens, over any keys and any holders.

  A `Table` says who holds each key, under which token, and the next token to be
  given out (the high-water mark). `Issue s t` is one reassignment: every grant
  of `t` is one of `s` kept unchanged, or a fresh one, made to a holder that did
  not hold the key before, with a token from `s.next` on and below `t.next`;
  fresh tokens of one reassignment are distinct, and the mark never goes back.

  A history is a list of tables, oldest first, each issued from the one before
  it and the first from the empty table. Over a history of any length:
    `History.same_hold`  a token is seen under one key, with one holder, and only
                         in one unbroken period of holding;
    `History.kept`       a holder that stays keeps its token;
    `History.fresh_gt`   a new holder's token exceeds every earlier token.
-/

namespace FencingTokens

variable {κ ν : Type}

/-- Who holds each key under which token, and the next token. -/
structure Table (κ ν : Type) where
  holder : κ → Option (ν × Nat)
  next : Nat

/-- Nobody holds anything and no token was given out. -/
def Table.empty : Table κ ν := ⟨fun _ => none, 0⟩

/-- One reassignment: holders stay, or get a token not given out before. -/
structure Issue (s t : Table κ ν) : Prop where
  next_le : s.next ≤ t.next
  grant : ∀ k n x, t.holder k = some (n, x) →
    s.holder k = some (n, x) ∨ ((∀ y, s.holder k ≠ some (n, y)) ∧ s.next ≤ x ∧ x < t.next)
  fresh_inj : ∀ k k' n n' x, t.holder k = some (n, x) → t.holder k' = some (n', x) →
    s.next ≤ x → k = k'

/-- The table a history's `i`-th table was issued from. -/
def before (ts : List (Table κ ν)) : Nat → Table κ ν
  | 0 => .empty
  | i + 1 => (ts[i]?).getD .empty

/-- Each table is issued from the one before it. -/
def History (ts : List (Table κ ν)) : Prop :=
  ∀ i t, ts[i]? = some t → Issue (before ts i) t

/-- `k` is held by `n` under token `x` in the `i`-th table. -/
def Holds (ts : List (Table κ ν)) (i : Nat) (k : κ) (n : ν) (x : Nat) : Prop :=
  ∃ t, ts[i]? = some t ∧ t.holder k = some (n, x)

/-- `k` is held by `n` in every table from the `i`-th to the `j`-th. -/
def HeldThrough (ts : List (Table κ ν)) (k : κ) (n : ν) (i j : Nat) : Prop :=
  ∀ l, i ≤ l → l ≤ j → ∃ x, Holds ts l k n x

namespace History

variable {ts : List (Table κ ν)} (h : History ts)
include h

variable {s t : Table κ ν}

theorem issue_succ {i : Nat} (hs : ts[i]? = some s) (ht : ts[i + 1]? = some t) :
    Issue s t := by
  simpa [before, hs] using h (i + 1) t ht

omit h in
theorem get_of_later {i j : Nat} (hij : i ≤ j) (ht : ts[j]? = some t) :
    ∃ s, ts[i]? = some s := by
  have hj := (List.getElem?_eq_some_iff.mp ht).1
  exact ⟨ts[i], List.getElem?_eq_getElem (by omega)⟩

theorem next_mono {i j : Nat} (hij : i ≤ j) (hs : ts[i]? = some s)
    (ht : ts[j]? = some t) : s.next ≤ t.next := by
  induction j generalizing t with
  | zero =>
    obtain rfl : i = 0 := by omega
    rw [hs] at ht
    simp_all
  | succ j ih =>
    rcases Nat.lt_or_ge j i with hlt | hge
    · obtain rfl : i = j + 1 := by omega
      rw [hs] at ht
      simp_all
    · obtain ⟨r, hr⟩ := get_of_later (Nat.le_succ j) ht
      exact Nat.le_trans (ih hge hr) (h.issue_succ hr ht).next_le

theorem token_lt_next {i : Nat} (ht : ts[i]? = some t) {k : κ} {n : ν} {x : Nat}
    (hk : t.holder k = some (n, x)) : x < t.next := by
  induction i generalizing t with
  | zero =>
    rcases (h 0 t ht).grant k n x hk with hold | ⟨-, -, hlt⟩
    · simp [before, Table.empty] at hold
    · exact hlt
  | succ i ih =>
    obtain ⟨s, hs⟩ := get_of_later (Nat.le_succ i) ht
    have hi := h.issue_succ hs ht
    rcases hi.grant k n x hk with hold | ⟨-, -, hlt⟩
    · exact Nat.lt_of_lt_of_le (ih hs hold) hi.next_le
    · exact hlt

theorem held_since {i j : Nat} (hij : i ≤ j) (hs : ts[i]? = some s) {k : κ}
    {n : ν} {x : Nat} (hx : x < s.next) (hj : Holds ts j k n x) :
    ∀ l, i ≤ l → l ≤ j → Holds ts l k n x := by
  induction j with
  | zero =>
    intro l _ hl
    obtain rfl : l = 0 := by omega
    exact hj
  | succ j ih =>
    intro l hil hlj
    rcases Nat.eq_or_lt_of_le hlj with rfl | hlt
    · exact hj
    obtain ⟨t, ht, hk⟩ := hj
    obtain ⟨r, hr⟩ := get_of_later (Nat.le_succ j) ht
    have hir : i ≤ j := by omega
    have hmark := h.next_mono hir hs hr
    rcases (h.issue_succ hr ht).grant k n x hk with hold | ⟨-, hge, -⟩
    · exact ih hir ⟨r, hr, hold⟩ l hil (by omega)
    · omega

theorem token_inj {i : Nat} (ht : ts[i]? = some t) {k k' : κ} {n n' : ν} {x : Nat}
    (hk : t.holder k = some (n, x)) (hk' : t.holder k' = some (n', x)) : k = k' := by
  induction i generalizing t with
  | zero => exact (h 0 t ht).fresh_inj k k' n n' x hk hk' (by simp [before, Table.empty])
  | succ i ih =>
    obtain ⟨s, hs⟩ := get_of_later (Nat.le_succ i) ht
    have hi := h.issue_succ hs ht
    rcases Nat.lt_or_ge x s.next with hlt | hge
    · -- below the mark before the reassignment, so both grants are kept ones
      rcases hi.grant k n x hk with hold | ⟨-, hge, -⟩
      · rcases hi.grant k' n' x hk' with hold' | ⟨-, hge, -⟩
        · exact ih hs hold hold'
        · omega
      · omega
    · exact hi.fresh_inj k k' n n' x hk hk' hge

theorem same_hold {i j : Nat} (hij : i ≤ j) {k k' : κ} {n n' : ν} {x : Nat}
    (hi : Holds ts i k n x) (hj : Holds ts j k' n' x) :
    k = k' ∧ n = n' ∧ HeldThrough ts k n i j := by
  obtain ⟨s, hs, hk⟩ := hi
  have hx := h.token_lt_next hs hk
  have hall := h.held_since hij hs hx hj
  obtain ⟨s', hs', hk'⟩ := hall i (Nat.le_refl i) hij
  obtain rfl : s = s' := by rw [hs] at hs'; exact Option.some.inj hs'
  obtain rfl := h.token_inj hs hk hk'
  rw [hk] at hk'
  obtain rfl : n = n' := by simpa using hk'
  exact ⟨rfl, rfl, fun l hil hlj => ⟨x, hall l hil hlj⟩⟩

theorem kept {i : Nat} {k : κ} {n : ν} {x y : Nat} (hi : Holds ts i k n x)
    (hj : Holds ts (i + 1) k n y) : y = x := by
  obtain ⟨s, hs, hk⟩ := hi
  obtain ⟨t, ht, hk'⟩ := hj
  rcases (h.issue_succ hs ht).grant k n y hk' with hold | ⟨hnot, -, -⟩
  · rw [hk] at hold
    simpa using hold.symm
  · exact absurd hk (hnot x)

/-- A new holder's token exceeds every token of every earlier table. -/
theorem fresh_gt {i j : Nat} (hij : i < j) {k k' : κ} {n n' : ν} {x y : Nat}
    (hnew : ∀ z, ¬ Holds ts (j - 1) k n z) (hj : Holds ts j k n x) (hi : Holds ts i k' n' y) :
    y < x := by
  obtain ⟨j, rfl⟩ : ∃ m, j = m + 1 := ⟨j - 1, by omega⟩
  simp only [Nat.add_sub_cancel] at hnew
  obtain ⟨t, ht, hk⟩ := hj
  obtain ⟨s, hs, hk'⟩ := hi
  obtain ⟨r, hr⟩ := get_of_later (Nat.le_succ j) ht
  have hy := h.token_lt_next hs hk'
  have hmark := h.next_mono (by omega) hs hr
  rcases (h.issue_succ hr ht).grant k n x hk with hold | ⟨-, hge, -⟩
  · exact absurd ⟨r, hr, hold⟩ (hnew x)
  · omega

end History

end FencingTokens
