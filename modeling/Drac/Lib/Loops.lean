import Mathlib.Data.List.Basic

/-
  Loops over lists: a `for` with an accumulator is a `foldl`, two nested ones are `pairs`.

    foldl_invariant     what every turn keeps holds at the end
    pairs               the items of a list two by two, the earlier one first
    mem_eraseIdx_two    an item is at one of two places or is left when both are erased
    eraseDups           is never longer, and keeps a list without duplicates
-/

namespace Loops

variable {α β : Type*}

theorem foldl_invariant {f : β → α → β} {P : β → Prop} (l : List α) (init : β)
    (hinit : P init) (hstep : ∀ b, ∀ a ∈ l, P b → P (f b a)) : P (l.foldl f init) := by
  induction l generalizing init with
  | nil => exact hinit
  | cons a l ih =>
    rw [List.foldl_cons]
    apply ih (f init a) (hstep init a List.mem_cons_self hinit)
    intro b x hx
    exact hstep b x (List.mem_cons_of_mem _ hx)

theorem concat_eq_split {l before after : List α} {x y : α}
    (h : l ++ [x] = before ++ y :: after) :
    (y = x ∧ before = l ∧ after = []) ∨ ∃ rest, after = rest ++ [x] ∧ l = before ++ y :: rest := by
  rcases after.eq_nil_or_concat' with rfl | ⟨rest, z, rfl⟩
  · obtain ⟨hl, hx⟩ := List.append_inj' h rfl
    exact .inl ⟨(List.cons.inj hx).1.symm, hl.symm, rfl⟩
  · rw [← List.cons_append, ← List.append_assoc] at h
    obtain ⟨hl, hx⟩ := List.append_inj' h rfl
    exact .inr ⟨rest, by rw [(List.cons.inj hx).1], hl⟩

theorem concat_forall {P : List α → α → Prop} {l : List α} {x : α}
    (hold : ∀ before y after, l = before ++ y :: after → P before y) (hnew : P l x) :
    ∀ before y after, l ++ [x] = before ++ y :: after → P before y := by
  intro before y after h
  obtain ⟨rfl, rfl, -⟩ | ⟨rest, -, hsplit⟩ := concat_eq_split h
  · exact hnew
  · exact hold before y rest hsplit

/-- `Q a` is what the turn for `a` brings about. -/
theorem foldl_reaches {f : β → α → β} {Q : α → β → Prop} (l : List α) (init : β)
    (hreach : ∀ b, ∀ a ∈ l, Q a (f b a))
    (hkeep : ∀ b, ∀ a ∈ l, ∀ x, Q x b → Q x (f b a)) :
    ∀ a ∈ l, Q a (l.foldl f init) := by
  induction l generalizing init with
  | nil => simp
  | cons a l ih =>
    intro x hx
    rw [List.foldl_cons]
    have hkeep' : ∀ b, ∀ y ∈ l, ∀ z, Q z b → Q z (f b y) := fun b y hy =>
      hkeep b y (List.mem_cons_of_mem _ hy)
    cases List.mem_cons.mp hx with
    | inl h =>
      rw [h]
      exact foldl_invariant l _ (hreach init a List.mem_cons_self)
        fun b y hy hb => hkeep' b y hy a hb
    | inr h =>
      exact ih (f init a) (fun b y hy => hreach b y (List.mem_cons_of_mem _ hy)) hkeep' x h

/-- In a loop over different items, whose turns touch only what is of their item, the turn for an
item finds what the loop began with. -/
theorem mem_out_foldl {κ γ : Type*} {f : β → κ → β} (out : β → List κ) (view : β → κ → γ)
    (hit : κ → γ → Prop)
    (hout : ∀ b k x, x ∈ out (f b k) → x ∈ out b ∨ (x = k ∧ hit k (view b k)))
    (hown : ∀ b k x, x ≠ k → view (f b k) x = view b x) {l : List κ} (hl : l.Nodup) (init : β)
    {x : κ} (hx : x ∈ out (l.foldl f init)) : x ∈ out init ∨ (x ∈ l ∧ hit x (view init x)) := by
  induction l generalizing init with
  | nil => exact .inl hx
  | cons k l ih =>
    obtain ⟨hk, hl⟩ := List.nodup_cons.mp hl
    rw [List.foldl_cons] at hx
    obtain hfirst | ⟨hmem, hhit⟩ := ih hl (f init k) hx
    · obtain hinit | ⟨rfl, hhit⟩ := hout init k x hfirst
      · exact .inl hinit
      · exact .inr ⟨List.mem_cons_self, hhit⟩
    · rw [hown init k x fun heq => hk (heq ▸ hmem)] at hhit
      exact .inr ⟨List.mem_cons_of_mem _ hmem, hhit⟩

/-- The items of a list two by two, the earlier one first. -/
def pairs : List α → List (α × α)
  | [] => []
  | a :: rest => rest.map (a, ·) ++ pairs rest

theorem rel_of_mem_pairs {R : α → α → Prop} {l : List α} (hl : l.Pairwise R) {p : α × α}
    (h : p ∈ pairs l) : R p.1 p.2 := by
  induction l with
  | nil => simp [pairs] at h
  | cons a l ih =>
    rw [List.pairwise_cons] at hl
    simp only [pairs, List.mem_append, List.mem_map] at h
    cases h with
    | inl h =>
      obtain ⟨b, hb, rfl⟩ := h
      exact hl.1 b hb
    | inr h => exact ih hl.2 h

theorem mem_of_mem_pairs {l : List α} {p : α × α} (h : p ∈ pairs l) : p.1 ∈ l ∧ p.2 ∈ l := by
  induction l with
  | nil => simp [pairs] at h
  | cons a l ih =>
    simp only [pairs, List.mem_append, List.mem_map] at h
    cases h with
    | inl h =>
      obtain ⟨b, hb, rfl⟩ := h
      exact ⟨List.mem_cons_self, List.mem_cons_of_mem _ hb⟩
    | inr h =>
      exact ⟨List.mem_cons_of_mem _ (ih h).1, List.mem_cons_of_mem _ (ih h).2⟩

theorem pairs_ne_nil {l : List α} (h : 2 ≤ l.length) : pairs l ≠ [] := by
  match l, h with
  | a :: b :: rest, _ => simp [pairs]

theorem pairwise_zipIdx (l : List α) :
    l.zipIdx.Pairwise fun a b => a.2 < b.2 := by
  rw [← List.pairwise_map (f := Prod.snd) (R := (· < ·)), List.zipIdx_map_snd]
  exact List.pairwise_lt_range'

theorem mem_eraseIdx_two {l : List α} {i j : ℕ} (hij : i < j) {a b x : α}
    (ha : l[i]? = some a) (hb : l[j]? = some b) (hx : x ∈ l) :
    x = a ∨ x = b ∨ x ∈ (l.eraseIdx j).eraseIdx i := by
  obtain ⟨k, hk⟩ := List.mem_iff_getElem?.mp hx
  by_cases hki : k = i
  · rw [hki, ha] at hk
    exact .inl (Option.some.inj hk).symm
  · by_cases hkj : k = j
    · rw [hkj, hb] at hk
      exact .inr (.inl (Option.some.inj hk).symm)
    · refine .inr (.inr ?_)
      rw [List.mem_eraseIdx_iff_getElem?]
      by_cases hlt : k < j
      · exact ⟨k, hki, by rw [List.getElem?_eraseIdx_of_lt hlt]; exact hk⟩
      · refine ⟨k - 1, by omega, ?_⟩
        rw [List.getElem?_eraseIdx_of_ge (by omega), show k - 1 + 1 = k by omega]
        exact hk

theorem length_eraseDups_le [DecidableEq α] (l : List α) : l.eraseDups.length ≤ l.length := by
  induction h : l.length using Nat.strongRecOn generalizing l with
  | ind n ih =>
    cases l with
    | nil => simp
    | cons a l =>
      rw [List.length_cons] at h
      have hfilter : (l.filter fun b => !b == a).length ≤ l.length := List.length_filter_le _ _
      have hrest := ih _ (by omega) (l.filter fun b => !b == a) rfl
      rw [List.eraseDups_cons, List.length_cons]
      omega

theorem eraseDups_of_nodup [DecidableEq α] {l : List α} (h : l.Nodup) : l.eraseDups = l := by
  induction l with
  | nil => rfl
  | cons a l ih =>
    rw [List.nodup_cons] at h
    have hkeep : (l.filter fun b => !b == a) = l := by
      apply List.filter_eq_self.mpr
      intro b hb
      have hne : b ≠ a := fun heq => h.1 (heq ▸ hb)
      simpa using hne
    rw [List.eraseDups_cons, hkeep, ih h.2]

end Loops
