import Mathlib.Data.List.Sort

/-
  Reading a listing by a cursor on a sort key that is not unique.

  A query asks for the rows from a bound on, skips an offset and takes a page. The next one
  starts at the key of the last row, or, where the page did not get past its bound, skips the
  page too. A `Listing` answers each query in an order that is sorted by the key and is free
  where keys are equal: the order of a query says nothing about the next.

    Listing.evasive     where a key has more, there is a listing
-/

namespace CursorPaging

variable {α τ : Type} [LinearOrder τ]

/-- Where the next page begins. -/
structure Cursor (τ : Type) where
  bound : Option τ
  offset : ℕ

/-- The bound lets the key through. -/
def Cursor.admits (c : Cursor τ) (t : τ) : Prop := ∀ b ∈ c.bound, b ≤ t

instance (c : Cursor τ) (t : τ) : Decidable (c.admits t) :=
  inferInstanceAs (Decidable (∀ b ∈ c.bound, b ≤ t))

/-- A key the reading has left behind. -/
def Cursor.passed (c : Cursor τ) (t : τ) : Prop := ∃ b ∈ c.bound, t < b ∨ t = b ∧ 0 < c.offset

/-- The answers to the queries: number `k` asks at a cursor. -/
@[ext] structure Listing (time : α → τ) (rows : List α) where
  order : ℕ → Cursor τ → List α
  perm : ∀ k c, (order k c).Perm (rows.filter fun x => c.admits (time x))
  sorted : ∀ k c, (order k c).Pairwise fun x y => time x ≤ time y

variable {time : α → τ} {rows : List α}

def page (L : Listing time rows) (size k : ℕ) (c : Cursor τ) : List α :=
  ((L.order k c).drop c.offset).take size

def next (time : α → τ) (size : ℕ) (c : Cursor τ) (page : List α) : Option (Cursor τ) :=
  if page.length < size then none
  else
    match page.getLast? with
    | none => none
    | some last =>
      if c.bound = some (time last) then some { c with offset := c.offset + page.length }
      else some { bound := some (time last), offset := 0 }

/-- The pages from query `k` at a cursor on; `none` where the fuel does not last. -/
def collect (L : Listing time rows) (size : ℕ) : ℕ → ℕ → Cursor τ → Option (List α)
  | 0, _, _ => none
  | fuel + 1, k, c =>
    match next time size c (page L size k c) with
    | none => some (page L size k c)
    | some c' => (collect L size fuel (k + 1) c').map (page L size k c ++ ·)

/-! ## Sorted lists -/

/-- The sort by key, whatever the order of the rows it is given. -/
def byTime (time : α → τ) (l : List α) : List α := l.mergeSort fun x y => time x ≤ time y

theorem byTime_perm (time : α → τ) (l : List α) : (byTime time l).Perm l := List.mergeSort_perm _ _

theorem key_trans (time : α → τ) (a b c : α) (hab : decide (time a ≤ time b) = true)
    (hbc : decide (time b ≤ time c) = true) : decide (time a ≤ time c) = true := by
  rw [decide_eq_true_eq] at hab hbc ⊢
  exact hab.trans hbc

theorem key_total (time : α → τ) (a b : α) :
    (decide (time a ≤ time b) || decide (time b ≤ time a)) = true := by
  rw [Bool.or_eq_true, decide_eq_true_eq, decide_eq_true_eq]
  exact le_total _ _

theorem byTime_sorted (time : α → τ) (l : List α) :
    (byTime time l).Pairwise fun x y => time x ≤ time y :=
  (List.pairwise_mergeSort (key_trans time) (key_total time) l).imp fun hab =>
    of_decide_eq_true hab

variable {l : List α}

theorem filter_append_filter_not {p : α → Bool}
    (hl : l.Pairwise fun x y => time x ≤ time y)
    (hp : ∀ x y, time x ≤ time y → p y = true → p x = true) :
    l.filter p ++ l.filter (fun x => !p x) = l := by
  induction l with
  | nil => rfl
  | cons a l ih =>
    rw [List.pairwise_cons] at hl
    by_cases ha : p a = true
    · rw [List.filter_cons_of_pos ha, List.filter_cons_of_neg (by simp [ha]), List.cons_append,
        ih hl.2]
    · have hnone : ∀ y ∈ l, p y = false := by
        intro y hy
        rw [Bool.eq_false_iff]
        intro hpy
        exact ha (hp a y (hl.1 y hy) hpy)
      have hempty : l.filter p = [] := by
        apply List.filter_eq_nil_iff.mpr
        intro y hy
        rw [hnone y hy]
        decide
      have hall : l.filter (fun x => !p x) = l := by
        apply List.filter_eq_self.mpr
        intro y hy
        rw [hnone y hy]
        rfl
      rw [List.filter_cons_of_neg ha, List.filter_cons_of_pos (by simp [ha]), hempty, hall]
      rfl

theorem byTime_of_sorted (hl : l.Pairwise fun x y => time x ≤ time y) :
    byTime time l = l :=
  List.mergeSort_of_pairwise (hl.imp fun hab => decide_eq_true hab)

theorem byTime_cons (time : α → τ) (a : α) (l : List α) :
    byTime time (a :: l) = (byTime time l).filter (fun x => time x < time a) ++
      a :: (byTime time l).filter (fun x => !decide (time x < time a)) := by
  obtain ⟨l₁, l₂, hcons, hrest, hlt⟩ := List.mergeSort_cons (key_trans time) (key_total time) a l
  have hsorted := byTime_sorted time (a :: l)
  rw [byTime, hcons, List.pairwise_append, List.pairwise_cons] at hsorted
  have hfirst : ∀ x ∈ l₁, time x < time a := by
    intro x hx
    have hnot := hlt x hx
    rw [Bool.not_eq_true', decide_eq_false_iff_not, not_le] at hnot
    exact hnot
  have hlast : ∀ x ∈ l₂, ¬ time x < time a := fun x hx => not_lt.mpr (hsorted.2.1.1 x hx)
  rw [byTime, hcons, byTime, hrest, List.filter_append, List.filter_append]
  rw [List.filter_eq_self.mpr (fun x hx => decide_eq_true (hfirst x hx)),
    List.filter_eq_nil_iff.mpr (fun x hx => by simpa using hlast x hx), List.append_nil,
    List.filter_eq_nil_iff.mpr (fun x hx => by simpa using hfirst x hx), List.nil_append,
    List.filter_eq_self.mpr (fun x hx => by simpa using hlast x hx)]

theorem byTime_sublist {l l' : List α} (h : l'.Sublist l) :
    (byTime time l').Sublist (byTime time l) := by
  induction h with
  | slnil => exact .refl _
  | @cons l' l a _ ih =>
    refine ih.trans ?_
    have hdown : ∀ x y, time x ≤ time y → decide (time y < time a) = true →
        decide (time x < time a) = true :=
      fun x y hxy hy => decide_eq_true (hxy.trans_lt (of_decide_eq_true hy))
    rw [byTime_cons]
    conv_lhs => rw [← filter_append_filter_not (byTime_sorted time l) hdown]
    exact (List.Sublist.refl _).append (List.sublist_cons_self a _)
  | @cons_cons l' l a _ ih =>
    rw [byTime_cons, byTime_cons]
    exact (ih.filter _).append ((ih.filter _).cons_cons a)

theorem mem_take_of_lt (hl : l.Pairwise fun x y => time x ≤ time y) {n : ℕ} {a x : α}
    (ha : a ∈ l.take n) (hx : x ∈ l) (hlt : time x < time a) : x ∈ l.take n := by
  rw [← List.take_append_drop n l, List.pairwise_append] at hl
  rw [← List.take_append_drop n l, List.mem_append] at hx
  cases hx with
  | inl hx => exact hx
  | inr hx => exact absurd (hl.2.2 a ha x hx) (not_le.mpr hlt)

theorem le_getLast (hl : l.Pairwise fun x y => time x ≤ time y) {last x : α}
    (hlast : l.getLast? = some last) (hx : x ∈ l) : time x ≤ time last := by
  obtain ⟨front, rfl⟩ := List.getLast?_eq_some_iff.mp hlast
  rw [List.pairwise_append] at hl
  rw [List.mem_append, List.mem_singleton] at hx
  cases hx with
  | inl hx => exact hl.2.2 x hx last (List.mem_singleton_self _)
  | inr hx => rw [hx]

/-! ## A page -/

variable {x : α} {c' : Cursor τ}

section Page

variable (L : Listing time rows) {size k : ℕ} {c : Cursor τ}

theorem mem_order : x ∈ L.order k c ↔ x ∈ rows ∧ c.admits (time x) := by
  rw [(L.perm k c).mem_iff]
  simp

theorem page_sublist : (page L size k c).Sublist (L.order k c) :=
  (List.take_sublist _ _).trans (List.drop_sublist _ _)

theorem mem_of_mem_page (h : x ∈ page L size k c) : x ∈ rows ∧ c.admits (time x) :=
  (mem_order L).mp ((page_sublist L).subset h)

theorem take_order : (L.order k c).take (c.offset + size) =
    (L.order k c).take c.offset ++ page L size k c :=
  List.take_add

theorem length_page_le : (page L size k c).length ≤ size := List.length_take_le _ _

theorem next_eq_some (h : next time size c (page L size k c) = some c') :
    (page L size k c).length = size ∧ ∃ last, (page L size k c).getLast? = some last ∧
      (c.bound = some (time last) ∧ c' = { c with offset := c.offset + size } ∨
        c.bound ≠ some (time last) ∧ c' = { bound := some (time last), offset := 0 }) := by
  simp only [next] at h
  split at h
  · cases h
  · next hfull =>
    have hsize : (page L size k c).length = size :=
      le_antisymm (length_page_le L) (not_lt.mp hfull)
    split at h
    · cases h
    · next last hlast =>
      refine ⟨hsize, last, hlast, ?_⟩
      split at h
      · next hbound =>
        cases h
        exact .inl ⟨hbound, by rw [hsize]⟩
      · next hbound =>
        cases h
        exact .inr ⟨hbound, rfl⟩

theorem length_of_next_eq_none (hsize : 0 < size)
    (h : next time size c (page L size k c) = none) : (page L size k c).length < size := by
  by_contra hfull
  simp only [next, if_neg hfull] at h
  split at h
  · next hnone =>
    rw [List.getLast?_eq_none_iff] at hnone
    rw [hnone] at hfull
    exact hfull hsize
  · split at h <;> cases h

end Page

/-! ## The reading ends -/

/-- The rows whose key the bound has not reached. -/
def ahead (time : α → τ) (rows : List α) (c : Cursor τ) : List α :=
  rows.filter fun x => ∀ b ∈ c.bound, b < time x

/-- What is left to read: first the rows ahead, then those the offset has not skipped. -/
def work (time : α → τ) (rows : List α) (c : Cursor τ) : ℕ :=
  (ahead time rows c).length * (rows.length + 1) + (rows.length - c.offset)

theorem length_order_le (L : Listing time rows) (k : ℕ) (c : Cursor τ) :
    (L.order k c).length ≤ rows.length := by
  rw [(L.perm k c).length_eq]
  exact List.length_filter_le _ _

theorem ahead_lt {c : Cursor τ} {last : α} (hlast : last ∈ rows) (hadmits : c.admits (time last))
    (hbound : c.bound ≠ some (time last)) :
    (ahead time rows { bound := some (time last), offset := 0 }).length <
      (ahead time rows c).length := by
  have hpast : ∀ b ∈ c.bound, b < time last := by
    intro b hb
    have hne : b ≠ time last := fun h => hbound (h ▸ hb)
    exact lt_of_le_of_ne (hadmits b hb) hne
  have hsub : ahead time rows { bound := some (time last), offset := 0 } =
      (ahead time rows c).filter fun x => time last < time x := by
    simp only [ahead, List.filter_filter]
    apply List.filter_congr
    intro x _
    simp only [Option.mem_def, Option.some.injEq, forall_eq', Bool.and_eq_decide,
      decide_eq_true_eq, decide_eq_decide]
    constructor
    · intro hx
      exact ⟨hx, fun b hb => (hpast b hb).trans hx⟩
    · exact fun hx => hx.1
  have hmem : last ∈ ahead time rows c := by
    simp only [ahead, List.mem_filter, hlast, true_and, decide_eq_true_eq]
    exact hpast
  rw [hsub]
  apply List.length_filter_lt_length_iff_exists.mpr
  exact ⟨last, hmem, by simp⟩

theorem work_lt (L : Listing time rows) {size k : ℕ} (hsize : 0 < size) {c c' : Cursor τ}
    (h : next time size c (page L size k c) = some c') : work time rows c' < work time rows c := by
  obtain ⟨hlength, last, hlast, hcase⟩ := next_eq_some L h
  have hmem := mem_of_mem_page L (List.mem_of_getLast? hlast)
  cases hcase with
  | inl hsame =>
    obtain ⟨-, rfl⟩ := hsame
    have hroom : c.offset + size ≤ rows.length := by
      have horder := length_order_le L k c
      simp only [page, List.length_take, List.length_drop] at hlength
      omega
    simp only [work, ahead]
    omega
  | inr hnew =>
    obtain ⟨hbound, rfl⟩ := hnew
    have hlt := ahead_lt hmem.1 hmem.2 hbound
    have hmul : ((ahead time rows { bound := some (time last), offset := 0 }).length + 1) *
        (rows.length + 1) ≤ (ahead time rows c).length * (rows.length + 1) :=
      Nat.mul_le_mul_right _ hlt
    rw [Nat.add_mul, Nat.one_mul] at hmul
    simp only [work]
    omega

/-- The reading ends, whatever the keys are and however the queries are answered. -/
theorem collect_returns (L : Listing time rows) {size : ℕ} (hsize : 0 < size) (fuel k : ℕ)
    (c : Cursor τ) (hfuel : work time rows c < fuel) :
    ∃ read, collect L size fuel k c = some read := by
  induction fuel generalizing k c with
  | zero => omega
  | succ fuel ih =>
    simp only [collect]
    split
    · exact ⟨_, rfl⟩
    · next c' hnext =>
      have hlt := work_lt L hsize hnext
      obtain ⟨read, hread⟩ := ih (k + 1) c' (by omega)
      exact ⟨_, by rw [hread]; rfl⟩

/-! ## What is read -/

theorem admits_of_next (L : Listing time rows) {size k : ℕ} {c c' : Cursor τ}
    (h : next time size c (page L size k c) = some c') {t : τ} (ht : c'.admits t) :
    c.admits t := by
  obtain ⟨-, last, hlast, hcase⟩ := next_eq_some L h
  have hmem := mem_of_mem_page L (List.mem_of_getLast? hlast)
  cases hcase with
  | inl hsame =>
    obtain ⟨-, rfl⟩ := hsame
    exact ht
  | inr hnew =>
    obtain ⟨-, rfl⟩ := hnew
    intro b hb
    exact (hmem.2 b hb).trans (ht _ rfl)

variable {read : List α}

theorem collect_sound (L : Listing time rows) {size : ℕ} (fuel k : ℕ) (c : Cursor τ)
    (h : collect L size fuel k c = some read) :
    ∀ x ∈ read, x ∈ rows ∧ c.admits (time x) := by
  induction fuel generalizing k c read with
  | zero => cases h
  | succ fuel ih =>
    simp only [collect] at h
    split at h
    · cases h
      exact fun x hx => mem_of_mem_page L hx
    · next c' hnext =>
      obtain ⟨rest, hrest, rfl⟩ := Option.map_eq_some_iff.mp h
      intro x hx
      rw [List.mem_append] at hx
      cases hx with
      | inl hx => exact mem_of_mem_page L hx
      | inr hx =>
        have hlater := ih (k + 1) c' hrest x hx
        exact ⟨hlater.1, admits_of_next L hnext hlater.2⟩

def group (time : α → τ) (rows : List α) (t : τ) : List α := rows.filter fun x => time x = t

/-- The offset skips nothing, or the rows at the bound. -/
def Aligned (time : α → τ) (rows : List α) (c : Cursor τ) : Prop :=
  c.offset = 0 ∨ ∃ b, c.bound = some b ∧ c.offset = (group time rows b).length

variable {b : τ}

section Aligned

variable (L : Listing time rows) {size k : ℕ} {c : Cursor τ}

/-- The rows at the bound come first. -/
theorem order_split (hbound : c.bound = some b) :
    (L.order k c).filter (fun x => time x ≤ b) ++
        (L.order k c).filter (fun x => !decide (time x ≤ b)) = L.order k c ∧
      ((L.order k c).filter fun x => time x ≤ b).length = (group time rows b).length := by
  refine ⟨filter_append_filter_not (L.sorted k c) ?_, ?_⟩
  · intro x y hxy hy
    rw [decide_eq_true_eq] at hy ⊢
    exact hxy.trans hy
  · rw [((L.perm k c).filter _).length_eq, List.filter_filter, group]
    congr 1
    apply List.filter_congr
    intro x _
    rw [← Bool.decide_and, decide_eq_decide]
    constructor
    · exact fun h => le_antisymm h.1 (h.2 b hbound)
    · intro h
      refine ⟨h.le, fun b' hb' => ?_⟩
      rw [hbound, Option.mem_def, Option.some.injEq] at hb'
      exact hb' ▸ h.ge

theorem passed_of_mem_take (haligned : Aligned time rows c)
    (hx : x ∈ (L.order k c).take c.offset) : c.passed (time x) := by
  cases haligned with
  | inl hzero =>
    rw [hzero, List.take_zero] at hx
    cases hx
  | inr hgroup =>
    obtain ⟨b, hbound, hoffset⟩ := hgroup
    have hpos : 0 < c.offset := by
      by_contra hzero
      rw [Nat.eq_zero_of_not_pos hzero, List.take_zero] at hx
      cases hx
    obtain ⟨hsplit, hlength⟩ := order_split L (k := k) hbound
    rw [← hsplit, hoffset, ← hlength, List.take_left' rfl] at hx
    have hadmits := (mem_order L).mp (List.mem_of_mem_filter hx)
    have hle := of_decide_eq_true (List.mem_filter.mp hx).2
    exact ⟨b, hbound, .inr ⟨le_antisymm hle (hadmits.2 b hbound), hpos⟩⟩

theorem ne_bound_of_mem_page (hbound : c.bound = some b)
    (hoffset : c.offset = (group time rows b).length) (hx : x ∈ page L size k c) :
    time x ≠ b := by
  obtain ⟨hsplit, hlength⟩ := order_split L (k := k) hbound
  have hdrop : x ∈ (L.order k c).drop c.offset := List.mem_of_mem_take hx
  rw [← hsplit, hoffset, ← hlength, List.drop_left' rfl] at hdrop
  have hgt := (List.mem_filter.mp hdrop).2
  intro heq
  simp [heq] at hgt

/-- A full page at the bound, where no more rows than a page are at the bound: it holds them
all. -/
theorem page_perm_group (hnodup : rows.Nodup)
    (hsmall : (group time rows b).length ≤ size) (hlength : (page L size k c).length = size)
    (hall : ∀ x ∈ page L size k c, time x = b) :
    (page L size k c).Perm (group time rows b) := by
  have horder : (L.order k c).Nodup := (L.perm k c).nodup_iff.mpr (hnodup.filter _)
  have hsub : page L size k c ⊆ group time rows b := by
    intro x hx
    exact List.mem_filter.mpr ⟨(mem_of_mem_page L hx).1, decide_eq_true (hall x hx)⟩
  have hsubperm := List.subperm_of_subset (horder.sublist (page_sublist L)) hsub
  exact hsubperm.perm_of_length_le (by omega)

/-- What a page that is not the last does to what is left behind. -/
theorem page_step (hnodup : rows.Nodup)
    (hsmall : ∀ t, c.admits t → (group time rows t).length ≤ size)
    (haligned : Aligned time rows c)
    (h : next time size c (page L size k c) = some c') :
    Aligned time rows c' ∧ ∀ x ∈ rows, c.admits (time x) → c'.passed (time x) →
      c.passed (time x) ∨ x ∈ page L size k c := by
  obtain ⟨hlength, last, hlast, hcase⟩ := next_eq_some L h
  have hlast_mem := List.mem_of_getLast? hlast
  have hlast_admits := (mem_of_mem_page L hlast_mem).2
  have hsorted : (page L size k c).Pairwise fun x y => time x ≤ time y :=
    (L.sorted k c).sublist (page_sublist L)
  cases hcase with
  | inl hsame =>
    obtain ⟨hbound, rfl⟩ := hsame
    have hzero : c.offset = 0 := by
      cases haligned with
      | inl hzero => exact hzero
      | inr hgroup =>
        obtain ⟨b, hb, hoffset⟩ := hgroup
        rw [hbound, Option.some.injEq] at hb
        exact absurd rfl (ne_bound_of_mem_page L hbound (hb ▸ hoffset) hlast_mem)
    have hall : ∀ x ∈ page L size k c, time x = time last := by
      intro x hx
      exact le_antisymm (le_getLast hsorted hlast hx) ((mem_of_mem_page L hx).2 _ hbound)
    have hperm := page_perm_group L hnodup (hsmall _ hlast_admits) hlength hall
    refine ⟨.inr ⟨time last, hbound, ?_⟩, ?_⟩
    · rw [← hperm.length_eq, hlength, hzero]
      simp
    · intro x hx hadmits hpassed
      obtain ⟨b, hb, hor⟩ := hpassed
      rw [show c.bound = some (time last) from hbound, Option.mem_def, Option.some.injEq] at hb
      have hge := hadmits _ hbound
      have heq : time x = time last := by
        cases hor with
        | inl hlt => exact absurd hge (not_le.mpr (hb ▸ hlt))
        | inr heq => exact heq.1.trans hb.symm
      exact .inr (hperm.mem_iff.mpr (List.mem_filter.mpr ⟨hx, decide_eq_true heq⟩))
  | inr hnew =>
    obtain ⟨-, rfl⟩ := hnew
    refine ⟨.inl rfl, ?_⟩
    intro x hx hadmits hpassed
    obtain ⟨b, hb, hor⟩ := hpassed
    have hlt : time x < time last := by
      cases hor with
      | inl hlt => exact (Option.some.inj hb) ▸ hlt
      | inr hzero => exact absurd hzero.2 (lt_irrefl _)
    have hfront : last ∈ (L.order k c).take (c.offset + size) := by
      rw [take_order]
      exact List.mem_append_right _ hlast_mem
    have hmem := mem_take_of_lt (L.sorted k c) hfront ((mem_order L).mpr ⟨hx, hadmits⟩) hlt
    rw [take_order, List.mem_append] at hmem
    cases hmem with
    | inl hskipped => exact .inl (passed_of_mem_take L haligned hskipped)
    | inr hread => exact .inr hread

theorem last_page (hsize : 0 < size) (haligned : Aligned time rows c)
    (h : next time size c (page L size k c) = none) :
    ∀ x ∈ rows, c.admits (time x) → c.passed (time x) ∨ x ∈ page L size k c := by
  intro x hx hadmits
  have hshort := length_of_next_eq_none L hsize h
  have hrest : page L size k c = (L.order k c).drop c.offset := by
    apply List.take_of_length_le
    simp only [page, List.length_take] at hshort
    omega
  have hmem := (mem_order L (k := k)).mpr ⟨hx, hadmits⟩
  rw [← List.take_append_drop c.offset (L.order k c), List.mem_append] at hmem
  cases hmem with
  | inl hskipped => exact .inl (passed_of_mem_take L haligned hskipped)
  | inr hleft => exact .inr (hrest ▸ hleft)

end Aligned

theorem collect_aligned (L : Listing time rows) {size : ℕ} (hsize : 0 < size)
    (hnodup : rows.Nodup) (fuel k : ℕ) (c : Cursor τ)
    (hsmall : ∀ t, c.admits t → (group time rows t).length ≤ size)
    (haligned : Aligned time rows c) (h : collect L size fuel k c = some read) :
    ∀ x ∈ rows, c.admits (time x) → c.passed (time x) ∨ x ∈ read := by
  induction fuel generalizing k c read with
  | zero => cases h
  | succ fuel ih =>
    simp only [collect] at h
    split at h
    · next hnext =>
      cases h
      exact last_page L hsize haligned hnext
    · next c' hnext =>
      obtain ⟨rest, hrest, rfl⟩ := Option.map_eq_some_iff.mp h
      obtain ⟨haligned', hstep⟩ := page_step L hnodup hsmall haligned hnext
      intro x hx hadmits
      have hlater : c'.passed (time x) ∨ x ∈ rest := by
        by_cases hx' : c'.admits (time x)
        · exact ih (k + 1) c' (fun t ht => hsmall t (admits_of_next L hnext ht)) haligned' hrest
            x hx hx'
        · simp only [Cursor.admits, not_forall, not_le] at hx'
          obtain ⟨b, hb, hlt⟩ := hx'
          exact .inl ⟨b, hb, .inl hlt⟩
      rw [List.mem_append]
      cases hlater with
      | inl hpassed =>
        cases hstep x hx hadmits hpassed with
        | inl hbefore => exact .inl hbefore
        | inr hread => exact .inr (.inl hread)
      | inr hrest => exact .inr (.inr hrest)

/-- Where no key has more rows than a page, a reading from offset 0 reads every row that its
bound admits. -/
theorem collect_complete (L : Listing time rows) {size : ℕ} (hsize : 0 < size)
    (hnodup : rows.Nodup) (fuel k : ℕ) {c : Cursor τ} (hoffset : c.offset = 0)
    (hsmall : ∀ t, c.admits t → (group time rows t).length ≤ size)
    (h : collect L size fuel k c = some read) :
    ∀ x ∈ rows, c.admits (time x) → x ∈ read := by
  intro x hx hadmits
  cases collect_aligned L hsize hnodup fuel k c hsmall (.inl hoffset) h x hx hadmits with
  | inl hpassed =>
    obtain ⟨b, hb, hor⟩ := hpassed
    cases hor with
    | inl hlt => exact absurd (hadmits b hb) (not_le.mpr hlt)
    | inr hzero => omega
  | inr hread => exact hread

/-! ## A row that is never read -/

/-- The rows before the key of `hidden`, those at it in the order given, the rows after it. -/
def arranged (time : α → τ) (rows : List α) (c : Cursor τ) (hidden : α) (same : List α) : List α :=
  byTime time (rows.filter fun x => c.admits (time x) ∧ time x < time hidden) ++ same ++
    byTime time (rows.filter fun x => time hidden < time x)

theorem arranged_sorted (c : Cursor τ) (hidden : α) {same : List α}
    (hsame : ∀ x ∈ same, time x = time hidden) :
    (arranged time rows c hidden same).Pairwise fun x y => time x ≤ time y := by
  have hbefore : ∀ x ∈ byTime time (rows.filter fun x => c.admits (time x) ∧
      time x < time hidden), time x < time hidden := by
    intro x hx
    rw [(byTime_perm _ _).mem_iff] at hx
    exact (of_decide_eq_true (List.mem_filter.mp hx).2).2
  have hafter : ∀ x ∈ byTime time (rows.filter fun x => time hidden < time x),
      time hidden < time x := by
    intro x hx
    rw [(byTime_perm _ _).mem_iff] at hx
    exact of_decide_eq_true (List.mem_filter.mp hx).2
  have hequal : same.Pairwise fun x y => time x ≤ time y := by
    apply List.pairwise_of_forall_mem_list
    intro x hx y hy
    rw [hsame x hx, hsame y hy]
  simp only [arranged]
  rw [List.pairwise_append, List.pairwise_append]
  refine ⟨⟨byTime_sorted time _, hequal, ?_⟩, byTime_sorted time _, ?_⟩
  · intro x hx y hy
    rw [hsame y hy]
    exact (hbefore x hx).le
  · intro x hx y hy
    rw [List.mem_append] at hx
    cases hx with
    | inl hx => exact ((hbefore x hx).trans (hafter y hy)).le
    | inr hx =>
      rw [hsame x hx]
      exact (hafter y hy).le

variable {hidden : α}

theorem arranged_perm {c : Cursor τ} (hadmits : c.admits (time hidden))
    {same : List α} (hsame : same.Perm (group time rows (time hidden))) :
    (arranged time rows c hidden same).Perm (rows.filter fun x => c.admits (time x)) := by
  have hlater : ∀ t, time hidden ≤ t → c.admits t := fun t ht b hb => (hadmits b hb).trans ht
  have hbefore : (rows.filter fun x => c.admits (time x) ∧ time x < time hidden) =
      (rows.filter fun x => c.admits (time x)).filter fun x => time x < time hidden := by
    rw [List.filter_filter]
    apply List.filter_congr
    intro x _
    rw [← Bool.decide_and, decide_eq_decide]
    exact and_comm
  have hequal : group time rows (time hidden) =
      ((rows.filter fun x => c.admits (time x)).filter fun x => !decide (time x < time hidden)).filter
        fun x => time x = time hidden := by
    rw [List.filter_filter, List.filter_filter, group]
    apply List.filter_congr
    intro x _
    by_cases heq : time x = time hidden
    · simp [heq, hlater _ le_rfl]
    · simp [heq]
  have hafter : (rows.filter fun x => time hidden < time x) =
      ((rows.filter fun x => c.admits (time x)).filter fun x => !decide (time x < time hidden)).filter
        fun x => !decide (time x = time hidden) := by
    rw [List.filter_filter, List.filter_filter]
    apply List.filter_congr
    intro x _
    by_cases hlt : time hidden < time x
    · simp [hlt, hlt.ne', hlt.le, hlater _ hlt.le]
    · by_cases heq : time x = time hidden
      · simp [heq]
      · have hless : time x < time hidden := lt_of_le_of_ne (not_lt.mp hlt) heq
        simp [hlt, hless]
  simp only [arranged]
  rw [List.append_assoc]
  refine List.Perm.trans ?_ (List.filter_append_perm (fun x => decide (time x < time hidden)) _)
  refine List.Perm.append ?_ ?_
  · rw [← hbefore]
    exact byTime_perm _ _
  · refine List.Perm.trans ?_ (List.filter_append_perm (fun x => decide (time x = time hidden)) _)
    refine List.Perm.append ?_ ?_
    · rw [← hequal]
      exact hsame
    · rw [← hafter]
      exact byTime_perm _ _

section Evasive

variable [DecidableEq α]

/-- The rows at the key of `hidden`: it stands first where the offset skips the first rows of
that key, and last where it does not. -/
def sameKey (time : α → τ) (rows : List α) (c : Cursor τ) (hidden : α) : List α :=
  if c.bound = some (time hidden) ∧ 0 < c.offset then
    hidden :: (group time rows (time hidden)).erase hidden
  else (group time rows (time hidden)).erase hidden ++ [hidden]

theorem sameKey_perm (h : hidden ∈ rows) (c : Cursor τ) :
    (sameKey time rows c hidden).Perm (group time rows (time hidden)) := by
  have hmem : hidden ∈ group time rows (time hidden) :=
    List.mem_filter.mpr ⟨h, decide_eq_true rfl⟩
  have herase := List.perm_cons_erase hmem
  simp only [sameKey]
  split
  · exact herase.symm
  · exact (List.perm_append_singleton _ _).trans herase.symm

/-- A listing that keeps one row out of every page. -/
def Listing.evasive (time : α → τ) (rows : List α) {hidden : α} (h : hidden ∈ rows) :
    Listing time rows where
  order _ c :=
    if c.admits (time hidden) then arranged time rows c hidden (sameKey time rows c hidden)
    else byTime time (rows.filter fun x => c.admits (time x))
  perm _ c := by
    split
    · next hadmits => exact arranged_perm hadmits (sameKey_perm h c)
    · exact byTime_perm _ _
  sorted _ c := by
    split
    · apply arranged_sorted
      intro x hx
      rw [(sameKey_perm h c).mem_iff] at hx
      exact of_decide_eq_true (List.mem_filter.mp hx).2
    · exact byTime_sorted time _

/-- The offset skips no more than the rows at the bound. -/
def Within (time : α → τ) (rows : List α) (c : Cursor τ) : Prop :=
  c.offset = 0 ∨ ∃ b, c.bound = some b ∧ c.offset ≤ (group time rows b).length

omit [DecidableEq α] in
theorem within_of_next (L : Listing time rows) (hnodup : rows.Nodup) {size k : ℕ}
    {c c' : Cursor τ} (h : next time size c (page L size k c) = some c') :
    Within time rows c' := by
  obtain ⟨hlength, last, hlast, hcase⟩ := next_eq_some L h
  cases hcase with
  | inr hnew =>
    obtain ⟨-, rfl⟩ := hnew
    exact .inl rfl
  | inl hsame =>
    obtain ⟨hbound, rfl⟩ := hsame
    refine .inr ⟨time last, hbound, ?_⟩
    have hfront : ((L.order k c).take (c.offset + size)).getLast? = some last := by
      rw [take_order, List.getLast?_append, hlast]
      rfl
    have hsub : (L.order k c).take (c.offset + size) ⊆ group time rows (time last) := by
      intro x hx
      have hmem := (mem_order L).mp (List.mem_of_mem_take hx)
      have hle := le_getLast ((L.sorted k c).sublist (List.take_sublist _ _)) hfront hx
      exact List.mem_filter.mpr ⟨hmem.1, decide_eq_true (le_antisymm hle (hmem.2 _ hbound))⟩
    have horder : (L.order k c).Nodup := (L.perm k c).nodup_iff.mpr (hnodup.filter _)
    have hcount := (List.subperm_of_subset (horder.sublist (List.take_sublist _ _)) hsub).length_le
    rw [take_order, List.length_append, hlength, List.length_take] at hcount
    have hroom : 0 < size → c.offset ≤ (L.order k c).length := by
      intro hpos
      simp only [page, List.length_take, List.length_drop] at hlength
      omega
    have hsize : 0 < size := by
      rw [← hlength]
      exact List.length_pos_of_mem (List.mem_of_getLast? hlast)
    have := hroom hsize
    simp only
    omega

theorem hidden_not_mem_page (hnodup : rows.Nodup) (h : hidden ∈ rows) {size : ℕ}
    (hmany : size < (group time rows (time hidden)).length) (k : ℕ) {c : Cursor τ}
    (hwithin : Within time rows c) : hidden ∉ page (Listing.evasive time rows h) size k c := by
  intro hpage
  have hadmits := (mem_of_mem_page _ hpage).2
  have hmem : hidden ∈ group time rows (time hidden) :=
    List.mem_filter.mpr ⟨h, decide_eq_true rfl⟩
  have horder : (Listing.evasive time rows h).order k c =
      arranged time rows c hidden (sameKey time rows c hidden) := if_pos hadmits
  have hdistinct : (arranged time rows c hidden (sameKey time rows c hidden)).Nodup := by
    rw [← horder]
    exact ((Listing.evasive time rows h).perm k c).nodup_iff.mpr (hnodup.filter _)
  rw [page, horder] at hpage
  by_cases hfirst : c.bound = some (time hidden) ∧ 0 < c.offset
  · -- It stands first, and the offset skips it.
    have hnone : (rows.filter fun x => c.admits (time x) ∧ time x < time hidden) = [] := by
      apply List.filter_eq_nil_iff.mpr
      intro x _ hx
      obtain ⟨hx, hlt⟩ := of_decide_eq_true hx
      exact absurd (hx _ hfirst.1) (not_le.mpr hlt)
    simp only [arranged, hnone, sameKey, if_pos hfirst, byTime, List.mergeSort_nil,
      List.nil_append, List.cons_append] at hpage hdistinct
    obtain ⟨skipped, hskipped⟩ := Nat.exists_eq_succ_of_ne_zero hfirst.2.ne'
    rw [hskipped, List.drop_succ_cons] at hpage
    exact (List.nodup_cons.mp hdistinct).1 (List.mem_of_mem_drop (List.mem_of_mem_take hpage))
  · -- It stands last of its key, and the page ends before it.
    have hlast : arranged time rows c hidden (sameKey time rows c hidden) =
        (byTime time (rows.filter fun x => c.admits (time x) ∧ time x < time hidden) ++
          (group time rows (time hidden)).erase hidden) ++
        hidden :: byTime time (rows.filter fun x => time hidden < time x) := by
      simp [arranged, sameKey, if_neg hfirst]
    have hoffset : c.offset ≤
        (byTime time (rows.filter fun x => c.admits (time x) ∧ time x < time hidden)).length := by
      cases hwithin with
      | inl hzero => omega
      | inr hbound =>
        obtain ⟨b, hbound, hle⟩ := hbound
        by_cases hb : b = time hidden
        · have hzero : c.offset = 0 := by
            by_contra hpos
            exact hfirst ⟨hb ▸ hbound, Nat.pos_of_ne_zero hpos⟩
          omega
        · have hlt : b < time hidden := lt_of_le_of_ne (hadmits b hbound) hb
          have hsub : (group time rows b).length ≤
              (rows.filter fun x => c.admits (time x) ∧ time x < time hidden).length := by
            apply List.Sublist.length_le
            apply List.monotone_filter_right
            intro x hx
            rw [decide_eq_true_eq] at hx ⊢
            refine ⟨?_, hx ▸ hlt⟩
            intro b' hb'
            rw [hbound, Option.mem_def, Option.some.injEq] at hb'
            exact hb' ▸ hx.ge
          rw [(byTime_perm _ _).length_eq]
          omega
    have herase := List.length_erase_of_mem hmem
    rw [hlast] at hpage hdistinct
    have hfront : hidden ∈ byTime time (rows.filter fun x => c.admits (time x) ∧
        time x < time hidden) ++ (group time rows (time hidden)).erase hidden := by
      rw [List.drop_append_of_le_length (by rw [List.length_append]; omega),
        List.take_append_of_le_length (by rw [List.length_drop, List.length_append]; omega)] at hpage
      exact List.mem_of_mem_drop (List.mem_of_mem_take hpage)
    rw [List.nodup_append] at hdistinct
    exact hdistinct.2.2 hidden hfront hidden List.mem_cons_self rfl

/-- Where more rows than a page share a key, a reading can miss one of them. -/
theorem collect_misses (hnodup : rows.Nodup) (h : hidden ∈ rows) {size : ℕ}
    (hmany : size < (group time rows (time hidden)).length) (fuel k : ℕ) {c : Cursor τ}
    (hwithin : Within time rows c)
    (hread : collect (Listing.evasive time rows h) size fuel k c = some read) :
    hidden ∉ read := by
  induction fuel generalizing k c read with
  | zero => cases hread
  | succ fuel ih =>
    have hpage := hidden_not_mem_page hnodup h hmany k hwithin
    simp only [collect] at hread
    split at hread
    · cases hread
      exact hpage
    · next c' hnext =>
      obtain ⟨rest, hrest, rfl⟩ := Option.map_eq_some_iff.mp hread
      rw [List.mem_append, not_or]
      exact ⟨hpage, ih (k + 1) (within_of_next _ hnodup hnext) hrest⟩

end Evasive

end CursorPaging
