import Mathlib.Data.List.Induction
import Drac.Lib.JsMap

/-
  JavaScript objects as dictionaries.

  An `Obj` is a map whose keys are distinct: an object read with `Object.entries`, a `Map`,
  or a table with a primary key. `putAll` is the loop that puts one entry after another,
  the later ones over the earlier; an item with no key is passed over. `retain` keeps
  the entries whose key is wanted.

    `get?_putAll`      what the loop put wins over what was there;
    `get?_copy`        copying the entries of an object, key by key, gives its values;
    `get?_rebuild`     putting the values of an object again, each under its own key,
                       gives the object back, in whatever order they come.
-/

namespace JsObject

variable {κ β α : Type} [DecidableEq κ]

/-- An object: its entries in the order of insertion, no key twice. -/
structure Obj (κ β : Type) where
  entries : List (κ × β)
  nodup : (JsMap.keys entries).Nodup

namespace Obj

def empty : Obj κ β := ⟨[], List.nodup_nil⟩

def get? (m : Obj κ β) (k : κ) : Option β := JsMap.get? m.entries k

def keys (m : Obj κ β) : List κ := JsMap.keys m.entries

def put (m : Obj κ β) (k : κ) (v : β) : Obj κ β :=
  ⟨JsMap.set m.entries k v, JsMap.keys_nodup_set m.nodup k v⟩

def retain (p : κ → Bool) (m : Obj κ β) : Obj κ β where
  entries := m.entries.filter (fun e => p e.1)
  nodup := m.nodup.sublist (List.filter_sublist.map _)

/-- One turn of the loop. -/
def putOne (key : α → Option κ) (val : α → β) (m : Obj κ β) (a : α) : Obj κ β :=
  match key a with
  | none => m
  | some k => m.put k (val a)

def putAll (key : α → Option κ) (val : α → β) (xs : List α) (m : Obj κ β) : Obj κ β :=
  xs.foldl (putOne key val) m

theorem get?_put (m : Obj κ β) (k : κ) (v : β) (k' : κ) :
    (m.put k v).get? k' = if k = k' then some v else m.get? k' :=
  JsMap.get?_set m.entries k v k'

theorem get?_retain (p : κ → Bool) (m : Obj κ β) (k : κ) :
    (m.retain p).get? k = if p k then m.get? k else none :=
  JsMap.get?_filter p m.entries k

variable {m : Obj κ β} {k : κ}

theorem get?_eq_some {v : β} : m.get? k = some v ↔ (k, v) ∈ m.entries :=
  ⟨JsMap.get?_mem, JsMap.mem_get? m.nodup⟩

theorem mem_keys : k ∈ m.keys ↔ (m.get? k).isSome = true := by
  rw [Option.isSome_iff_exists]
  constructor
  · intro h
    obtain ⟨e, he, rfl⟩ := List.mem_map.mp h
    exact ⟨e.2, get?_eq_some.mpr he⟩
  · rintro ⟨v, hv⟩
    exact List.mem_map_of_mem (f := Prod.fst) (get?_eq_some.mp hv)

theorem get?_putOne (key : α → Option κ) (val : α → β) (m : Obj κ β) (a : α) (k : κ) :
    (putOne key val m a).get? k = if key a = some k then some (val a) else m.get? k := by
  unfold putOne
  cases hkey : key a with
  | none => simp
  | some k' => simp [get?_put]

theorem putAll_append (key : α → Option κ) (val : α → β) (xs ys : List α) (m : Obj κ β) :
    putAll key val (xs ++ ys) m = putAll key val ys (putAll key val xs m) :=
  List.foldl_append

theorem putAll_map {γ : Type} (f : γ → α) (key : α → Option κ) (val : α → β) (xs : List γ)
    (m : Obj κ β) :
    putAll key val (xs.map f) m = putAll (fun x => key (f x)) (fun x => val (f x)) xs m :=
  List.foldl_map

theorem get?_putAll (key : α → Option κ) (val : α → β) (xs : List α) (m : Obj κ β) (k : κ) :
    (putAll key val xs m).get? k = ((putAll key val xs empty).get? k).or (m.get? k) := by
  induction xs using List.reverseRecOn with
  | nil => rfl
  | append_singleton xs a ih =>
    rw [putAll_append, putAll_append]
    show (putOne key val _ a).get? k = ((putOne key val _ a).get? k).or _
    rw [get?_putOne, get?_putOne]
    split
    · rfl
    · exact ih

variable {key : α → Option κ} {val : α → β} {xs : List α}

theorem putAll_some {v : β}
    (h : (putAll key val xs empty).get? k = some v) : ∃ a ∈ xs, key a = some k ∧ val a = v := by
  induction xs using List.reverseRecOn with
  | nil => cases h
  | append_singleton xs a ih =>
    rw [putAll_append] at h
    change (putOne key val _ a).get? k = some v at h
    rw [get?_putOne] at h
    split at h
    · next hkey => exact ⟨a, by simp, hkey, Option.some.inj h⟩
    · obtain ⟨b, hb, hbk⟩ := ih h
      exact ⟨b, List.mem_append_left _ hb, hbk⟩

theorem putAll_eq_none :
    (putAll key val xs empty).get? k = none ↔ ∀ a ∈ xs, key a ≠ some k := by
  constructor
  · intro h
    induction xs using List.reverseRecOn with
    | nil => exact nofun
    | append_singleton xs a ih =>
      rw [putAll_append] at h
      change (putOne key val _ a).get? k = none at h
      rw [get?_putOne] at h
      split at h
      · cases h
      · next hlast =>
        intro b hb
        rcases List.mem_append.mp hb with hold | hnew
        · exact ih h b hold
        · rw [List.mem_singleton] at hnew
          exact hnew ▸ hlast
  · intro h
    cases hget : (putAll key val xs empty).get? k with
    | none => rfl
    | some v =>
      obtain ⟨a, ha, hkey, -⟩ := putAll_some hget
      exact absurd hkey (h a ha)

theorem get?_putAll_of_not
    (h : ∀ a ∈ xs, key a ≠ some k) : (putAll key val xs m).get? k = m.get? k := by
  rw [get?_putAll, putAll_eq_none.mpr h, Option.none_or]

theorem mem_keys_putAll :
    k ∈ (putAll key val xs m).keys ↔ k ∈ m.keys ∨ ∃ a ∈ xs, key a = some k := by
  rw [mem_keys, get?_putAll, mem_keys]
  cases hput : (putAll key val xs (empty : Obj κ β)).get? k with
  | none =>
    rw [Option.none_or]
    refine ⟨.inl, fun h => h.resolve_right ?_⟩
    rintro ⟨a, ha, hkey⟩
    exact putAll_eq_none.mp hput a ha hkey
  | some v =>
    obtain ⟨a, ha, hkey, -⟩ := putAll_some hput
    exact ⟨fun _ => .inr ⟨a, ha, hkey⟩, fun _ => rfl⟩

theorem get?_putAll_unique {a : α}
    (ha : a ∈ xs) (hkey : key a = some k) (hunique : ∀ b ∈ xs, key b = some k → b = a) :
    (putAll key val xs empty).get? k = some (val a) := by
  cases hget : (putAll key val xs empty).get? k with
  | some v =>
    obtain ⟨b, hb, hbk, hv⟩ := putAll_some hget
    rw [← hv, hunique b hb hbk]
  | none => exact absurd hkey (putAll_eq_none.mp hget a ha)

theorem putAll_congr (key' : α → Option κ)
    (val' : α → β) (h : ∀ a ∈ xs, key a = key' a ∧ val a = val' a) (m : Obj κ β) :
    putAll key val xs m = putAll key' val' xs m := by
  induction xs generalizing m with
  | nil => rfl
  | cons a rest ih =>
    obtain ⟨hkey, hval⟩ := h a List.mem_cons_self
    have hone : putOne key val m a = putOne key' val' m a := by
      unfold putOne
      rw [hkey, hval]
    show putAll key val rest (putOne key val m a) = putAll key' val' rest (putOne key' val' m a)
    rw [hone]
    exact ih (fun b hb => h b (List.mem_cons_of_mem a hb)) _

theorem get?_copy {γ : Type} (f : κ → β → γ) (m : Obj κ β) (k : κ) :
    (putAll (fun e : κ × β => some e.1) (fun e => f e.1 e.2) m.entries empty).get? k =
      (m.get? k).map (f k) := by
  cases hget : m.get? k with
  | none =>
    apply putAll_eq_none.mpr
    intro e he heq
    have hsome : m.get? k = some e.2 := get?_eq_some.mpr (by
      rw [← Option.some.inj heq]; exact he)
    rw [hget] at hsome
    cases hsome
  | some v =>
    have hmem := get?_eq_some.mp hget
    exact get?_putAll_unique (a := (k, v)) hmem rfl (fun e he heq =>
      List.inj_on_of_nodup_map m.nodup he hmem (Option.some.inj heq))

theorem get?_rebuild {key : β → Option κ} {vs : List β}
    (hperm : vs.Perm (m.entries.map Prod.snd)) (hkey : ∀ e ∈ m.entries, key e.2 = some e.1)
    (k : κ) : (putAll key id vs empty).get? k = m.get? k := by
  have hmem : ∀ v, v ∈ vs → ∃ e ∈ m.entries, e.2 = v := by
    intro v hv
    obtain ⟨e, he, heq⟩ := List.mem_map.mp (hperm.mem_iff.mp hv)
    exact ⟨e, he, heq⟩
  cases hget : m.get? k with
  | none =>
    apply putAll_eq_none.mpr
    intro v hv heq
    obtain ⟨e, he, rfl⟩ := hmem v hv
    rw [hkey e he, Option.some.injEq] at heq
    have hsome : m.get? k = some e.2 := get?_eq_some.mpr (by rw [← heq]; exact he)
    rw [hget] at hsome
    cases hsome
  | some v =>
    have he := get?_eq_some.mp hget
    have hv : v ∈ vs := hperm.mem_iff.mpr (List.mem_map.mpr ⟨(k, v), he, rfl⟩)
    refine get?_putAll_unique hv (hkey _ he) ?_
    intro w hw hwk
    obtain ⟨e, heEntry, rfl⟩ := hmem w hw
    rw [hkey e heEntry, Option.some.injEq] at hwk
    have hpair : e = (k, v) := List.inj_on_of_nodup_map m.nodup heEntry he hwk
    rw [hpair]

end Obj

end JsObject
