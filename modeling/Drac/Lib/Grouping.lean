import Mathlib.Algebra.BigOperators.Group.List.Basic
import Mathlib.Algebra.GroupWithZero.Nat
import Drac.Lib.JsMap

/-
  A list grouped by a key in a JavaScript map: each element is pushed to the list of
  its key.

    push          one element more
    Grouped       the map has each key of the list once, with its elements in order
    Grouped.push  one element more keeps it grouped
    Grouped.get?  the list of a key
    Grouped.sum   the groups count every element once
-/

namespace Grouping

variable {α κ : Type} [DecidableEq κ]

/-- The list of the key gets one element more; a new key gets a list of it. -/
def push (m : List (κ × List α)) (k : κ) (a : α) : List (κ × List α) :=
  match JsMap.get? m k with
  | some list => JsMap.set m k (list ++ [a])
  | none => JsMap.set m k [a]

/-- A map that groups a list by a key. -/
structure Grouped (key : α → κ) (l : List α) (m : List (κ × List α)) : Prop where
  nodup : (JsMap.keys m).Nodup
  keys : ∀ k, k ∈ JsMap.keys m ↔ ∃ a ∈ l, key a = k
  groups : ∀ e ∈ m, e.2 = l.filter (fun a => key a = e.1)

theorem grouped_nil (key : α → κ) : Grouped key [] [] := ⟨by simp [JsMap.keys], by simp [JsMap.keys], by simp⟩

variable {key : α → κ} {l : List α} {m : List (κ × List α)}

theorem Grouped.filter_eq_nil (h : Grouped key l m) {k : κ} (hget : JsMap.get? m k = none) :
    l.filter (fun a => key a = k) = [] := by
  refine List.filter_eq_nil_iff.mpr (fun a ha hkey => ?_)
  rw [decide_eq_true_eq] at hkey
  obtain ⟨e, he, hek⟩ := List.mem_map.mp ((h.keys k).mpr ⟨a, ha, hkey⟩)
  have hsome := JsMap.mem_get? h.nodup (k := e.1) (v := e.2) he
  rw [hek, hget] at hsome
  cases hsome

theorem push_eq (h : Grouped key l m) (k : κ) (a : α) :
    push m k a = JsMap.set m k (l.filter (fun b => key b = k) ++ [a]) := by
  unfold push
  split
  · next list hget => rw [← h.groups (k, list) (JsMap.get?_mem hget)]
  · next hget => rw [h.filter_eq_nil hget, List.nil_append]

theorem Grouped.push (h : Grouped key l m) (a : α) :
    Grouped key (l ++ [a]) (Grouping.push m (key a) a) := by
  rw [push_eq h]
  have hnd := JsMap.keys_nodup_set h.nodup (key a) (l.filter (fun b => key b = key a) ++ [a])
  refine ⟨hnd, fun k => ?_, fun e he => ?_⟩
  · have hkeys : k ∈ JsMap.keys (JsMap.set m (key a) (l.filter (fun b => key b = key a) ++ [a])) ↔
        k ∈ JsMap.keys m ∨ key a = k := by
      rw [JsMap.keys_set]
      split
      · next hmem =>
        constructor
        · exact .inl
        · rintro (hk | rfl)
          · exact hk
          · exact hmem
      · rw [List.mem_append, List.mem_singleton, eq_comm (a := k)]
    rw [hkeys, h.keys]
    simp only [List.mem_append, List.mem_singleton]
    constructor
    · rintro (⟨b, hb, hk⟩ | hk)
      · exact ⟨b, .inl hb, hk⟩
      · exact ⟨a, .inr rfl, hk⟩
    · rintro ⟨b, hb | rfl, hk⟩
      · exact .inl ⟨b, hb, hk⟩
      · exact .inr hk
  · have hget := JsMap.mem_get? hnd (k := e.1) (v := e.2) he
    rw [JsMap.get?_set] at hget
    rw [List.filter_append]
    split at hget
    · next hk =>
      rw [← Option.some.inj hget, ← hk]
      simp
    · next hk =>
      rw [h.groups _ (JsMap.get?_mem hget)]
      simp [hk]

theorem Grouped.foldl_push (h : Grouped key l m) (more : List α) :
    Grouped key (l ++ more) (more.foldl (fun m a => Grouping.push m (key a) a) m) := by
  induction more generalizing l m with
  | nil => rwa [List.append_nil]
  | cons a more ih =>
    have hall := ih (h.push a)
    rwa [List.append_assoc, List.singleton_append] at hall

theorem Grouped.get? (h : Grouped key l m) (k : κ) :
    (JsMap.get? m k).getD [] = l.filter (fun a => key a = k) := by
  cases hget : JsMap.get? m k with
  | some list => exact h.groups (k, list) (JsMap.get?_mem hget)
  | none => exact (h.filter_eq_nil hget).symm

/-- Under keys that are distinct and all there are, every element is counted once. -/
theorem sum_filter_key {keys : List κ} (hnd : keys.Nodup) (l : List α) (hkeys : ∀ a ∈ l, key a ∈ keys) :
    (keys.map (fun k => (l.filter (fun a => key a = k)).length)).sum = l.length := by
  induction l with
  | nil => simp
  | cons a rest ih =>
    have hrest := ih (fun b hb => hkeys b (List.mem_cons_of_mem _ hb))
    have hsplit (k : κ) : ((a :: rest).filter (fun b => key b = k)).length =
        (if key a = k then 1 else 0) + (rest.filter (fun b => key b = k)).length := by
      by_cases hk : key a = k
      · simp [hk, Nat.add_comm]
      · simp [hk]
    have hone : (keys.map (fun k => if key a = k then 1 else 0)).sum = 1 := by
      have hcount : (keys.map (fun k => if key a = k then 1 else 0)).sum = keys.count (key a) := by
        rw [List.count_eq_countP, List.countP_eq_length_filter]
        clear hnd hkeys ih hrest
        induction keys with
        | nil => rfl
        | cons k ks ih =>
          rw [List.map_cons, List.sum_cons, ih]
          by_cases hk : key a = k
          · simp [hk, Nat.add_comm]
          · simp [hk, Ne.symm hk]
      rw [hcount]
      exact List.count_eq_one_of_mem hnd (hkeys a List.mem_cons_self)
    simp only [hsplit, List.sum_map_add, hone, hrest, List.length_cons]
    omega

theorem Grouped.sum (h : Grouped key l m) : (m.map (fun e => e.2.length)).sum = l.length := by
  have hlengths : m.map (fun e => e.2.length) =
      (JsMap.keys m).map (fun k => (l.filter (fun a => key a = k)).length) := by
    rw [JsMap.keys, List.map_map]
    refine List.map_congr_left (fun e he => ?_)
    rw [h.groups e he]
    rfl
  rw [hlengths]
  exact sum_filter_key h.nodup l (fun a ha => (h.keys (key a)).mpr ⟨a, ha, rfl⟩)

end Grouping
