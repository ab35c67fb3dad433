import Mathlib.Data.List.Sort

/-
  Lists of records under distinct keys: an update by key, and sorting.

    map_update                what the change leaves alone is left alone in the list
-/

namespace KeyedList

variable {α β κ : Type} [DecidableEq κ] (key : α → κ)

/-- Every element under the key `k`, changed by `f`. -/
def update (k : κ) (f : α → α) (l : List α) : List α :=
  l.map (fun a => if key a = k then f a else a)

variable {k : κ} {f : α → α} {l : List α}

theorem mem_update {b : α} :
    b ∈ update key k f l ↔ ∃ a ∈ l, (if key a = k then f a else a) = b := List.mem_map

theorem update_of_notMem (h : k ∉ l.map key) :
    update key k f l = l := by
  conv_rhs => rw [← List.map_id l]
  apply List.map_congr_left
  intro a ha
  have hne : key a ≠ k := fun heq => h (heq ▸ List.mem_map_of_mem ha)
  simp [hne]

theorem map_update {g : α → β} (hg : ∀ a, g (f a) = g a) (l : List α) :
    (update key k f l).map g = l.map g := by
  simp only [update, List.map_map]
  apply List.map_congr_left
  intro a _
  simp only [Function.comp_apply]
  split
  · exact hg a
  · rfl

theorem update_update {f g : α → α} (hf : ∀ a, key (f a) = key a) (l : List α) :
    update key k g (update key k f l) = update key k (fun a => g (f a)) l := by
  simp only [update, List.map_map]
  apply List.map_congr_left
  intro a _
  by_cases hk : key a = k
  · simp [hk, hf]
  · simp [hk]

theorem modify_eq_update {i : Nat} (f : α → α)
    (hget : (l.map key)[i]? = some k) (honly : ∀ j, (l.map key)[j]? = some k → j = i) :
    l.modify i f = update key k f l := by
  apply List.ext_getElem?
  intro j
  rw [List.getElem?_modify, update, List.getElem?_map]
  rw [List.getElem?_map] at hget
  cases hj : l[j]? with
  | none => rfl
  | some a =>
    simp only [Option.map_eq_map, Option.map_some, Option.some.injEq]
    by_cases hij : i = j
    · subst hij
      rw [hj, Option.map_some, Option.some.injEq] at hget
      rw [if_pos rfl, if_pos hget]
    · have hne : key a ≠ k := by
        intro hk
        apply hij
        exact (honly j (by rw [List.getElem?_map, hj, Option.map_some, hk])).symm
      rw [if_neg hij, if_neg hne]

variable {a : α}

theorem exists_split (hnd : (l.map key).Nodup) (ha : a ∈ l) :
    ∃ s t, l = s ++ a :: t ∧ ∀ f, update key (key a) f l = s ++ f a :: t := by
  obtain ⟨s, t, rfl⟩ := List.append_of_mem ha
  refine ⟨s, t, rfl, fun f => ?_⟩
  rw [List.map_append, List.map_cons, List.nodup_append] at hnd
  obtain ⟨-, htail, hdisj⟩ := hnd
  have hs : key a ∉ s.map key := fun h => hdisj _ h _ List.mem_cons_self rfl
  have ht : key a ∉ t.map key := (List.nodup_cons.mp htail).1
  have hleft := update_of_notMem key (f := f) hs
  have hright := update_of_notMem key (f := f) ht
  simp only [update] at hleft hright ⊢
  rw [List.map_append, List.map_cons, hleft, hright, if_pos rfl]

omit [DecidableEq κ] in
variable {key} in
theorem eq_of_key (hnd : (l.map key).Nodup) {a b : α} (ha : a ∈ l) (hb : b ∈ l)
    (h : key a = key b) : a = b := List.inj_on_of_nodup_map hnd ha hb h

omit [DecidableEq κ] in
variable {key} in
theorem length_filter_filterMap (hnd : (l.map key).Nodup) (ha : a ∈ l)
    {f : α → Option β} {b : β} (hb : f a = some b) {keep : β → Bool} (hkeep : keep b = true)
    (hkey : ∀ a' b', f a' = some b' → keep b' = true → key a' = key a) :
    ((l.filterMap f).filter keep).length = 1 := by
  obtain ⟨s, t, rfl⟩ := List.append_of_mem ha
  rw [List.map_append, List.map_cons, List.nodup_append] at hnd
  obtain ⟨-, htail, hdisj⟩ := hnd
  have hnone {u : List α} (hu : ∀ a' ∈ u, key a' ≠ key a) : (u.filterMap f).filter keep = [] := by
    refine List.filter_eq_nil_iff.mpr (fun b' hb' hkept => ?_)
    obtain ⟨a', ha', hfa'⟩ := List.mem_filterMap.mp hb'
    exact hu a' ha' (hkey a' b' hfa' hkept)
  have hs := hnone (u := s) (fun a' ha' heq => by
    have hin := List.mem_map_of_mem (f := key) ha'
    exact hdisj _ hin _ List.mem_cons_self heq)
  have ht := hnone (u := t) (fun a' ha' heq => by
    have hin := List.mem_map_of_mem (f := key) ha'
    rw [heq] at hin
    exact (List.nodup_cons.mp htail).1 hin)
  rw [List.filterMap_append, List.filterMap_cons_some hb, List.filter_append, List.filter_cons, hs, ht]
  simp [hkeep]

theorem length_filter_filterMap_le {f : α → Option β} {keep : β → Bool} {p : α → Bool}
    (h : ∀ a b, f a = some b → keep b = true → p a = true) (l : List α) :
    ((l.filterMap f).filter keep).length ≤ (l.filter p).length := by
  induction l with
  | nil => exact Nat.le_refl 0
  | cons a rest ih =>
    have htail : (rest.filter p).length ≤ ((a :: rest).filter p).length :=
      ((List.sublist_cons_self a rest).filter p).length_le
    cases hf : f a with
    | none =>
      rw [List.filterMap_cons_none hf]
      exact ih.trans htail
    | some b =>
      rw [List.filterMap_cons_some hf]
      cases hkeep : keep b with
      | false =>
        rw [List.filter_cons_of_neg (by simp [hkeep])]
        exact ih.trans htail
      | true =>
        rw [List.filter_cons_of_pos hkeep, List.filter_cons_of_pos (h a b hf hkeep),
          List.length_cons, List.length_cons]
        exact Nat.succ_le_succ ih

theorem insertionSort_eq_of_perm {r : α → α → Prop} [DecidableRel r] [Std.Total r] [IsTrans α r]
    {l l' : List α} (hperm : l.Perm l') (hanti : ∀ a ∈ l, ∀ b ∈ l, r a b → r b a → a = b) :
    l.insertionSort r = l'.insertionSort r := by
  refine List.Perm.eq_of_pairwise ?_ (List.pairwise_insertionSort r l)
    (List.pairwise_insertionSort r l') ?_
  · intro a b ha hb
    rw [List.mem_insertionSort] at ha hb
    exact hanti a ha b (hperm.mem_iff.mpr hb)
  · exact (List.perm_insertionSort r l).trans (hperm.trans (List.perm_insertionSort r l').symm)

theorem eq_insertionSort {r : α → α → Prop} [DecidableRel r] [Std.Total r] [IsTrans α r]
    {l l' : List α} (hperm : l.Perm l') (hsorted : l.Pairwise r)
    (hanti : ∀ a ∈ l, ∀ b ∈ l, r a b → r b a → a = b) : l = l'.insertionSort r := by
  refine List.Perm.eq_of_pairwise ?_ hsorted (List.pairwise_insertionSort r l') ?_
  · intro a b ha hb
    rw [List.mem_insertionSort] at hb
    exact hanti a ha b (hperm.mem_iff.mpr hb)
  · exact hperm.trans (List.perm_insertionSort r l').symm

end KeyedList
