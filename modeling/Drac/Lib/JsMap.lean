import Mathlib.Data.List.Nodup

/-
  JavaScript maps.

  A `Map` is an association list in insertion order: `set` on a key that is
  present replaces its value where it stands, and on a new key appends it. The
  keys of a map built by `set` are distinct (`keys_nodup_set`).
-/

namespace JsMap

variable {κ : Type} {β : Type} [DecidableEq κ]

/-- `m.get(k)`. -/
def get? : List (κ × β) → κ → Option β
  | [], _ => none
  | (a, b) :: rest, k => if a = k then some b else get? rest k

/-- `m.set(k, v)`. -/
def set : List (κ × β) → κ → β → List (κ × β)
  | [], k, v => [(k, v)]
  | (a, b) :: rest, k, v => if a = k then (k, v) :: rest else (a, b) :: set rest k v

/-- `m.delete(k)`. -/
def erase (m : List (κ × β)) (k : κ) : List (κ × β) := m.filter (fun e => e.1 ≠ k)

def keys (m : List (κ × β)) : List κ := m.map Prod.fst

def values (m : List (κ × β)) : List β := m.map Prod.snd

theorem get?_set (m : List (κ × β)) (k : κ) (v : β) (k' : κ) :
    get? (set m k v) k' = if k = k' then some v else get? m k' := by
  induction m with
  | nil => simp [set, get?]
  | cons e rest ih =>
    obtain ⟨a, b⟩ := e
    by_cases hak : a = k
    · subst hak
      by_cases hk : a = k' <;> simp [set, get?, hk]
    · by_cases hk : a = k'
      · subst hk
        simp [set, get?, hak, Ne.symm hak]
      · simp [set, get?, hak, hk, ih]

theorem get?_erase (m : List (κ × β)) (k k' : κ) :
    get? (erase m k) k' = if k = k' then none else get? m k' := by
  induction m with
  | nil => simp [erase, get?]
  | cons e rest ih =>
    obtain ⟨a, b⟩ := e
    simp only [erase, ne_eq, decide_not] at ih
    by_cases hak : a = k
    · subst hak
      by_cases hk : a = k'
      · subst hk
        simpa [erase] using ih
      · simp [erase, get?, ih, hk]
    · by_cases hk : a = k'
      · subst hk
        simp [erase, get?, hak, Ne.symm hak]
      · simp [erase, get?, hak, hk, ih]

variable {m : List (κ × β)} {v : β}

theorem get?_of_erase {k k' : κ} (h : get? (erase m k) k' = some v) :
    get? m k' = some v := by
  rw [get?_erase] at h
  split at h
  · cases h
  · exact h

theorem get?_filter (p : κ → Bool) (m : List (κ × β)) (k : κ) :
    get? (m.filter (fun e => p e.1)) k = if p k then get? m k else none := by
  induction m with
  | nil => simp [get?]
  | cons e rest ih =>
    obtain ⟨a, b⟩ := e
    by_cases hak : a = k
    · subst hak
      by_cases hp : p a = true
      · simp [get?, hp]
      · simp only [Bool.not_eq_true] at hp
        simp [hp, ih]
    · by_cases hp : p a = true
      · simp [get?, hp, hak, ih]
      · simp only [Bool.not_eq_true] at hp
        simp [get?, hp, hak, ih]

variable {k : κ}

theorem get?_of_filter {p : κ → Bool}
    (h : get? (m.filter (fun e => p e.1)) k = some v) : get? m k = some v := by
  rw [get?_filter] at h
  split at h
  · exact h
  · cases h

theorem get?_mem (h : get? m k = some v) : (k, v) ∈ m := by
  induction m with
  | nil => simp [get?] at h
  | cons e rest ih =>
    obtain ⟨a, b⟩ := e
    by_cases hak : a = k
    · simp [get?, hak] at h
      simp [hak, h]
    · simp only [get?, hak, if_false] at h
      exact List.mem_cons_of_mem _ (ih h)

theorem mem_get? (hnd : (keys m).Nodup) (h : (k, v) ∈ m) :
    get? m k = some v := by
  induction m with
  | nil => simp at h
  | cons e rest ih =>
    obtain ⟨a, b⟩ := e
    simp only [keys, List.map_cons, List.nodup_cons] at hnd
    rcases List.mem_cons.mp h with heq | hrest
    · simp only [Prod.mk.injEq] at heq
      simp [get?, heq]
    · have hne : a ≠ k := by
        rintro rfl
        exact hnd.1 (List.mem_map.mpr ⟨_, hrest, rfl⟩)
      simp only [get?, hne, if_false]
      exact ih hnd.2 hrest

theorem mem_set {e : κ × β} (h : e ∈ set m k v) :
    e = (k, v) ∨ e ∈ m := by
  induction m with
  | nil => simpa [set] using h
  | cons f rest ih =>
    obtain ⟨a, b⟩ := f
    by_cases hak : a = k
    · simp only [set, hak, if_true, List.mem_cons] at h
      rcases h with h | h
      · exact .inl h
      · exact .inr (List.mem_cons_of_mem _ h)
    · simp only [set, hak, if_false, List.mem_cons] at h
      rcases h with h | h
      · exact .inr (by simp [h])
      · rcases ih h with h | h
        · exact .inl h
        · exact .inr (List.mem_cons_of_mem _ h)

theorem keys_set (m : List (κ × β)) (k : κ) (v : β) :
    keys (set m k v) = if k ∈ keys m then keys m else keys m ++ [k] := by
  induction m with
  | nil => simp [set, keys]
  | cons e rest ih =>
    obtain ⟨a, b⟩ := e
    by_cases hak : a = k
    · simp [set, keys, hak]
    · have hka : ¬ k = a := fun h => hak h.symm
      simp only [keys] at ih
      by_cases hmem : k ∈ rest.map Prod.fst <;> simp [set, keys, hak, hka, ih, hmem]

theorem length_set_of_get?_none (h : get? m k = none) (v : β) :
    (set m k v).length = m.length + 1 := by
  have hk : k ∉ keys m := by
    induction m with
    | nil => simp [keys]
    | cons e rest ih =>
      obtain ⟨a, b⟩ := e
      simp only [get?] at h
      split at h
      · cases h
      · next hne =>
        rw [keys, List.map_cons, List.mem_cons, not_or]
        exact ⟨fun heq => hne heq.symm, ih h⟩
  have hkeys := congrArg List.length (keys_set m k v)
  rw [if_neg hk] at hkeys
  simpa [keys] using hkeys

theorem length_set_of_get? {v' : β} (h : get? m k = some v') (v : β) :
    (set m k v).length = m.length := by
  have hk : k ∈ keys m := List.mem_map.mpr ⟨(k, v'), get?_mem h, rfl⟩
  have hkeys := congrArg List.length (keys_set m k v)
  rw [if_pos hk] at hkeys
  simpa [keys] using hkeys

theorem keys_nodup_set (h : (keys m).Nodup) (k : κ) (v : β) :
    (keys (set m k v)).Nodup := by
  rw [keys_set]
  split
  · exact h
  · next hk => exact List.nodup_append.mpr ⟨h, by simp, by simpa using fun a ha (e : a = k) => hk (e ▸ ha)⟩

theorem keys_nodup_erase (h : (keys m).Nodup) (k : κ) :
    (keys (erase m k)).Nodup := h.sublist (List.filter_sublist.map _)

omit [DecidableEq κ] in
theorem keys_filterMap_sublist (f : β → Option β) (m : List (κ × β)) :
    (keys (m.filterMap (fun e => (f e.2).map (e.1, ·)))).Sublist (keys m) := by
  induction m with
  | nil => exact .slnil
  | cons e rest ih =>
    obtain ⟨a, b⟩ := e
    cases hb : f b with
    | none => simpa [keys, hb] using ih.cons a
    | some b' => simpa [keys, hb] using ih.cons_cons a

theorem get?_none_of_notMem (h : k ∉ keys m) : get? m k = none := by
  cases hget : get? m k with
  | none => rfl
  | some v => exact absurd (List.mem_map_of_mem (get?_mem hget)) h

theorem get?_filterMap (hnd : (keys m).Nodup) (f : β → Option β) (k : κ) :
    get? (m.filterMap (fun e => (f e.2).map (e.1, ·))) k = (get? m k).bind f := by
  induction m with
  | nil => rfl
  | cons e rest ih =>
    obtain ⟨a, b⟩ := e
    simp only [keys, List.map_cons, List.nodup_cons] at hnd
    have hrest := ih hnd.2
    by_cases hak : a = k
    · subst hak
      -- a dropped entry leaves its key out of what follows
      have hnone : get? rest a = none := get?_none_of_notMem hnd.1
      cases hb : f b with
      | none => simpa [get?, hb, hnone] using hrest
      | some b' => simp [get?, hb]
    · cases hb : f b <;> simpa [get?, hb, hak] using hrest

theorem get?_foldl_set {α : Type} (key : α → κ) (val : α → β) (k : κ) (xs : List α) :
    ∀ (m : List (κ × β)), (xs.map key).Nodup →
    get? (xs.foldl (fun m a => set m (key a) (val a)) m) k =
      match xs.find? (fun a => key a = k) with
      | some a => some (val a)
      | none => get? m k := by
  induction xs with
  | nil => intro m _; rfl
  | cons a rest ih =>
    intro m hnd
    simp only [List.map_cons, List.nodup_cons] at hnd
    rw [List.foldl_cons, ih _ hnd.2]
    by_cases hak : key a = k
    · -- no later entry has the same key
      have hnone : rest.find? (fun b => key b = k) = none := by
        rw [List.find?_eq_none]
        intro b hb hbk
        simp only [decide_eq_true_eq] at hbk
        exact hnd.1 (List.mem_map.mpr ⟨b, hb, hbk.trans hak.symm⟩)
      simp [hak, hnone, get?_set]
    · simp [hak, get?_set]

theorem get?_index {α : Type} (key : α → κ) {xs : List α} (hnd : (xs.map key).Nodup) (k : κ)
    (i : Nat) :
    get? (xs.zipIdx.foldl (fun m e => set m (key e.1) e.2) []) k = some i ↔
      (xs.map key)[i]? = some k := by
  have hkeys : (xs.zipIdx.map (fun e => key e.1)).Nodup := by
    have heq : xs.zipIdx.map (fun e => key e.1) = xs.map key := by
      rw [show (fun e : α × Nat => key e.1) = key ∘ Prod.fst from rfl, ← List.map_map,
        List.zipIdx_map_fst]
    rwa [heq]
  rw [get?_foldl_set _ _ _ _ _ hkeys]
  constructor
  · intro h
    cases hfind : xs.zipIdx.find? (fun e => key e.1 = k) with
    | none => rw [hfind] at h; cases h
    | some e =>
      rw [hfind] at h
      cases h
      have hget := List.mem_zipIdx_iff_getElem?.mp (List.mem_of_find?_eq_some hfind)
      have hkey : key e.1 = k := by simpa using List.find?_some hfind
      rw [List.getElem?_map, hget, Option.map_some, hkey]
  · intro h
    rw [List.getElem?_map, Option.map_eq_some_iff] at h
    obtain ⟨a, hget, rfl⟩ := h
    have hmem : (a, i) ∈ xs.zipIdx := List.mem_zipIdx_iff_getElem?.mpr hget
    cases hfind : xs.zipIdx.find? (fun e => key e.1 = key a) with
    | none => simpa using List.find?_eq_none.mp hfind _ hmem
    | some e =>
      have hkey : key e.1 = key a := by simpa using List.find?_some hfind
      have heq : e = (a, i) :=
        List.inj_on_of_nodup_map hkeys (List.mem_of_find?_eq_some hfind) hmem hkey
      rw [heq]

theorem set_of_notMem (h : k ∉ keys m) (v : β) :
    set m k v = m ++ [(k, v)] := by
  induction m with
  | nil => rfl
  | cons e rest ih =>
    obtain ⟨a, b⟩ := e
    simp only [keys, List.map_cons, List.mem_cons, not_or] at h
    simp only [set, if_neg (Ne.symm h.1), List.cons_append, List.cons.injEq, true_and]
    exact ih h.2

theorem foldl_set_eq_append (entries : List (κ × β)) : ∀ (m : List (κ × β)),
    (keys (m ++ entries)).Nodup → entries.foldl (fun m e => set m e.1 e.2) m = m ++ entries := by
  induction entries with
  | nil => intro m _; simp
  | cons e rest ih =>
    intro m hnd
    have hnew : e.1 ∉ keys m := by
      simp only [keys, List.map_append, List.map_cons, List.nodup_append] at hnd
      exact fun hmem => hnd.2.2 _ hmem _ List.mem_cons_self rfl
    rw [List.foldl_cons, set_of_notMem hnew, ih]
    · simp
    · simpa [keys] using hnd

theorem get?_eq_of_perm {m m' : List (κ × β)} (hperm : m.Perm m') (hnd : (keys m).Nodup) (k : κ) :
    get? m k = get? m' k := by
  have hnd' : (keys m').Nodup := (hperm.map Prod.fst).nodup_iff.mp hnd
  ext v
  constructor
  · intro h
    exact mem_get? hnd' (hperm.mem_iff.mp (get?_mem h))
  · intro h
    exact mem_get? hnd (hperm.mem_iff.mpr (get?_mem h))

end JsMap
