import Mathlib.Data.List.Nodup
import Mathlib.Data.List.Perm.Subperm
import Mathlib.Data.List.TakeWhile
import Mathlib.Data.List.Count

/-
  The head of a queue.

  Each round serves the first `n` of a queue, and some of them stay. What stays stands in the
  way of what comes after it:

    not_mem_take       with `n` or more before it, an element is not in the round;

  Elements are told apart by a key.
-/

namespace QueueHead

variable {α κ : Type*} [DecidableEq κ] {key : α → κ} {l l' : List α} {r x : α} {n : ℕ}

/-- What stands before the element of a key. -/
def ahead (key : α → κ) (l : List α) (k : κ) : List α := l.takeWhile (fun x => key x ≠ k)

theorem ahead_prefix (l : List α) (k : κ) : ahead key l k <+: l := List.takeWhile_prefix _

theorem ne_of_mem_ahead {k : κ} (h : x ∈ ahead key l k) : key x ≠ k := by
  have hne := List.mem_takeWhile_imp (p := fun x => decide (key x ≠ k)) h
  exact of_decide_eq_true hne

theorem take_eq_take_ahead {k : κ} (h : n ≤ (ahead key l k).length) :
    l.take n = (ahead key l k).take n := by
  have hlead : ahead key l k <+: l := ahead_prefix l k
  obtain ⟨rest, hrest⟩ := hlead
  conv_lhs => rw [← hrest]
  exact List.take_append_of_le_length h

theorem not_mem_take (h : n ≤ (ahead key l (key r)).length) : r ∉ l.take n := by
  rw [take_eq_take_ahead h]
  exact fun hr => ne_of_mem_ahead (List.mem_of_mem_take hr) rfl

theorem mem_take (hr : r ∈ l) (hl : (l.map key).Nodup) (h : (ahead key l (key r)).length < n) :
    r ∈ l.take n := by
  induction l generalizing n with
  | nil => cases hr
  | cons a l ih =>
    obtain ⟨m, rfl⟩ : ∃ m, n = m + 1 := ⟨n - 1, by omega⟩
    rw [List.take_succ_cons]
    rw [List.map_cons, List.nodup_cons] at hl
    rcases List.mem_cons.mp hr with rfl | hr
    · exact List.mem_cons_self
    · have hne : key a ≠ key r := fun heq => hl.1 (heq ▸ List.mem_map_of_mem hr)
      have hcons : ahead key (a :: l) (key r) = a :: ahead key l (key r) :=
        List.takeWhile_cons_of_pos (decide_eq_true hne)
      rw [hcons, List.length_cons] at h
      exact List.mem_cons_of_mem a (ih hr hl.2 (by omega))

/-- With fewer than `n` of a kind before it, it is among the first `n`, or one of another
kind is. -/
theorem mem_take_or (p : α → Bool) (hr : r ∈ l) (hl : (l.map key).Nodup)
    (h : (ahead key l (key r)).countP p < n) : r ∈ l.take n ∨ ∃ x ∈ l.take n, p x = false := by
  by_cases hlen : (ahead key l (key r)).length < n
  · exact .inl (mem_take hr hl hlen)
  · right
    rw [not_lt] at hlen
    rw [take_eq_take_ahead hlen]
    by_contra hnone
    have hall : ∀ x ∈ (ahead key l (key r)).take n, p x = true := by
      intro x hx
      by_contra hpx
      exact hnone ⟨x, hx, Bool.eq_false_iff.mpr hpx⟩
    have hcount : ((ahead key l (key r)).take n).countP p = n := by
      rw [List.countP_eq_length.mpr hall, List.length_take, min_eq_left hlen]
    have hle := List.Sublist.countP_le (p := p) (List.take_sublist n (ahead key l (key r)))
    omega

theorem mem_ahead_of_sublist (hsub : l'.Sublist l) (hl : (l.map key).Nodup) (hx : x ∈ l')
    (hr : r ∈ l') : x ∈ ahead key l' (key r) ↔ x ∈ ahead key l (key r) := by
  induction hsub with
  | slnil => cases hx
  | @cons l' l a hsub ih =>
    rw [List.map_cons, List.nodup_cons] at hl
    have hout : ∀ y ∈ l', key a ≠ key y :=
      fun y hy heq => hl.1 (heq ▸ List.mem_map_of_mem (hsub.subset hy))
    have hcons : ahead key (a :: l) (key r) = a :: ahead key l (key r) :=
      List.takeWhile_cons_of_pos (decide_eq_true (hout r hr))
    rw [hcons, List.mem_cons, ih hl.2 hx hr]
    exact ⟨.inr, fun h => h.resolve_left (fun heq => hout x hx (heq ▸ rfl))⟩
  | @cons_cons l' l a hsub ih =>
    rw [List.map_cons, List.nodup_cons] at hl
    by_cases hkey : key a = key r
    · have hnil : ∀ m : List α, ahead key (a :: m) (key r) = [] :=
        fun m => List.takeWhile_cons_of_neg (by rw [hkey]; simp)
      rw [hnil, hnil]
    · have hcons : ∀ m : List α, ahead key (a :: m) (key r) = a :: ahead key m (key r) :=
        fun m => List.takeWhile_cons_of_pos (decide_eq_true hkey)
      have hr' : r ∈ l' := (List.mem_cons.mp hr).resolve_left (fun heq => hkey (heq ▸ rfl))
      rw [hcons, hcons, List.mem_cons, List.mem_cons]
      rcases List.mem_cons.mp hx with rfl | hx
      · exact ⟨fun _ => .inl rfl, fun _ => .inl rfl⟩
      · rw [ih hl.2 hx hr']

theorem countP_le_of_subset {p q : α → Bool} (hl : l.Nodup)
    (h : ∀ x ∈ l, p x = true → x ∈ l' ∧ q x = true) : l.countP p ≤ l'.countP q := by
  rw [List.countP_eq_length_filter, List.countP_eq_length_filter]
  refine ((hl.filter p).subperm ?_).length_le
  intro x hx
  obtain ⟨hmem, hpx⟩ := List.mem_filter.mp hx
  exact List.mem_filter.mpr (h x hmem hpx)

theorem nodup_ahead {k : κ} (hl : (l.map key).Nodup) : (ahead key l k).Nodup :=
  (List.Nodup.of_map key hl).sublist ( ahead_prefix l k).sublist

/-- What is of a kind and stays is still before it. -/
theorem countP_ahead_le {p q : α → Bool} (hsub : l'.Sublist l) (hl : (l.map key).Nodup)
    (hr : r ∈ l') (h : ∀ x ∈ l, p x = true → x ∈ l' ∧ q x = true) :
    (ahead key l (key r)).countP p ≤ (ahead key l' (key r)).countP q := by
  refine countP_le_of_subset (nodup_ahead hl) ?_
  intro x hx hpx
  obtain ⟨hmem, hqx⟩ := h x (( ahead_prefix l _).subset hx) hpx
  exact ⟨(mem_ahead_of_sublist hsub hl hmem hr).mpr hx, hqx⟩

theorem countP_ahead_ge {p q : α → Bool} (hsub : l'.Sublist l) (hl : (l.map key).Nodup)
    (hr : r ∈ l') (h : ∀ x ∈ l', q x = true → p x = true) :
    (ahead key l' (key r)).countP q ≤ (ahead key l (key r)).countP p := by
  refine countP_le_of_subset (nodup_ahead (hl.sublist (hsub.map key))) ?_
  intro x hx hqx
  have hmem := ( ahead_prefix l' _).subset hx
  exact ⟨(mem_ahead_of_sublist hsub hl hmem hr).mp hx, h x hmem hqx⟩

end QueueHead
