import Mathlib.Data.List.Nodup
import Mathlib.Data.List.Perm.Basic
import Drac.Lib.JsonLayout

/-
  Values of JSON up to the order of keys.

  `IsJson` are the values with no date whose objects have each key once. `Reordered v w` says that
  `w` is `v` with the members of its objects, at any depth, in some other order.

    `reordered_refl`        a value as it is;
    `Reordered.isJson`      what is reordered is JSON again;
    `filter_reordered`      members may be left out by their keys on both sides.
-/

namespace JsonLayout

variable {ν : Type}

mutual

/-- A value that reading may give: no dates, and no key twice. -/
def IsJson : JsValue ν → Prop
  | .arr items => ItemsJson items
  | .obj members => (members.map Prod.fst).Nodup ∧ MembersJson members
  | .date _ => False
  | .null | .bool _ | .num _ | .str _ => True

def ItemsJson : List (JsValue ν) → Prop
  | [] => True
  | v :: vs => IsJson v ∧ ItemsJson vs

def MembersJson : List (List Char × JsValue ν) → Prop
  | [] => True
  | (_, v) :: ms => IsJson v ∧ MembersJson ms

end

mutual

/-- The same value, with the members of its objects in any order. -/
def Reordered : JsValue ν → JsValue ν → Prop
  | .arr items, w => ∃ items', w = .arr items' ∧ ItemsReordered items items'
  | .obj members, w =>
    ∃ members' ordered, w = .obj members' ∧ members'.Perm ordered ∧ MembersReordered members ordered
  | .date iso, w => w = .date iso
  | .null, w => w = .null
  | .bool b, w => w = .bool b
  | .num n, w => w = .num n
  | .str s, w => w = .str s

def ItemsReordered : List (JsValue ν) → List (JsValue ν) → Prop
  | [], ws => ws = []
  | v :: vs, ws => ∃ w ws', ws = w :: ws' ∧ Reordered v w ∧ ItemsReordered vs ws'

/-- The same keys in the same order, and their values reordered. -/
def MembersReordered : List (List Char × JsValue ν) → List (List Char × JsValue ν) → Prop
  | [], ns => ns = []
  | (k, v) :: ms, ns => ∃ w ns', ns = (k, w) :: ns' ∧ Reordered v w ∧ MembersReordered ms ns'

end

/-! ## A value as it is -/

mutual

theorem reordered_refl : ∀ v : JsValue ν, Reordered v v
  | .arr items => by
    rw [Reordered]
    exact ⟨items, rfl, itemsReordered_refl items⟩
  | .obj members => by
    rw [Reordered]
    exact ⟨members, members, rfl, .refl _, membersReordered_refl members⟩
  | .date _ | .null | .bool _ | .num _ | .str _ => by rw [Reordered]

theorem itemsReordered_refl : ∀ vs : List (JsValue ν), ItemsReordered vs vs
  | [] => by rw [ItemsReordered]
  | v :: vs => by
    rw [ItemsReordered]
    exact ⟨v, vs, rfl, reordered_refl v, itemsReordered_refl vs⟩

theorem membersReordered_refl : ∀ ms : List (List Char × JsValue ν), MembersReordered ms ms
  | [] => by rw [MembersReordered]
  | (k, v) :: ms => by
    rw [MembersReordered]
    exact ⟨v, ms, rfl, reordered_refl v, membersReordered_refl ms⟩

end

variable {ms ns : List (List Char × JsValue ν)}

theorem reordered_of_perm (h : ns.Perm ms) :
    Reordered (.obj ms) (.obj ns) := by
  rw [Reordered]
  exact ⟨ns, ms, rfl, h, membersReordered_refl ms⟩

/-! ## JSON -/

theorem membersJson_iff :
    MembersJson ms ↔ ∀ m ∈ ms, IsJson m.2 := by
  induction ms with
  | nil =>
    rw [MembersJson]
    exact ⟨fun _ _ h => (nomatch h), fun _ => trivial⟩
  | cons m ms ih => rw [MembersJson, ih, List.forall_mem_cons]

theorem membersReordered_keys :
    ∀ {ns : List (List Char × JsValue ν)}, MembersReordered ms ns →
      ns.map Prod.fst = ms.map Prod.fst := by
  induction ms with
  | nil =>
    intro ns h
    rw [MembersReordered] at h
    rw [h]
  | cons m ms ih =>
    intro ns h
    rw [MembersReordered] at h
    obtain ⟨w, ns', rfl, -, hrest⟩ := h
    rw [List.map_cons, List.map_cons, ih hrest]

theorem reordered_keys
    (h : Reordered (.obj ms) (.obj ns)) : (ns.map Prod.fst).Perm (ms.map Prod.fst) := by
  rw [Reordered] at h
  obtain ⟨members', ordered, heq, hperm, hmembers⟩ := h
  cases heq
  rw [← membersReordered_keys hmembers]
  exact hperm.map Prod.fst

theorem reordered_obj {w : JsValue ν}
    (h : Reordered (.obj ms) w) : ∃ ns, w = .obj ns := by
  rw [Reordered] at h
  obtain ⟨ns, _, rfl, _⟩ := h
  exact ⟨ns, rfl⟩

mutual

theorem Reordered.isJson : ∀ {v w : JsValue ν}, Reordered v w → IsJson v → IsJson w
  | .arr items, w, h, hv => by
    rw [Reordered] at h
    obtain ⟨items', rfl, hitems⟩ := h
    rw [IsJson] at hv ⊢
    exact itemsReordered_json hitems hv
  | .obj members, w, h, hv => by
    rw [Reordered] at h
    obtain ⟨members', ordered, rfl, hperm, hmembers⟩ := h
    rw [IsJson] at hv ⊢
    refine ⟨?_, ?_⟩
    · apply (hperm.map Prod.fst).nodup_iff.mpr
      rw [membersReordered_keys hmembers]
      exact hv.1
    · have hordered := membersJson_iff.mp (membersReordered_json hmembers hv.2)
      exact membersJson_iff.mpr (fun m hm => hordered m (hperm.mem_iff.mp hm))
  | .date _, w, h, hv => by
    rw [IsJson] at hv
    exact hv.elim
  | .null, w, h, _ | .bool _, w, h, _ | .num _, w, h, _ | .str _, w, h, _ => by
    rw [Reordered] at h
    rw [h, IsJson]
    trivial

theorem itemsReordered_json : ∀ {vs ws : List (JsValue ν)}, ItemsReordered vs ws → ItemsJson vs →
    ItemsJson ws
  | [], ws, h, _ => by
    rw [ItemsReordered] at h
    rw [h, ItemsJson]
    trivial
  | v :: vs, ws, h, hvs => by
    rw [ItemsReordered] at h
    obtain ⟨w, ws', rfl, hw, hrest⟩ := h
    rw [ItemsJson] at hvs ⊢
    exact ⟨hw.isJson hvs.1, itemsReordered_json hrest hvs.2⟩

theorem membersReordered_json : ∀ {ms ns : List (List Char × JsValue ν)}, MembersReordered ms ns →
    MembersJson ms → MembersJson ns
  | [], ns, h, _ => by
    rw [MembersReordered] at h
    rw [h, MembersJson]
    trivial
  | (k, v) :: ms, ns, h, hms => by
    rw [MembersReordered] at h
    obtain ⟨w, ns', rfl, hw, hrest⟩ := h
    rw [MembersJson] at hms ⊢
    exact ⟨hw.isJson hms.1, membersReordered_json hrest hms.2⟩

end

mutual

theorem plain_of_isJson : ∀ {v : JsValue ν}, IsJson v → plain v = v
  | .arr items, h => by
    rw [IsJson] at h
    rw [plain, plainItems_of_json h]
  | .obj members, h => by
    rw [IsJson] at h
    rw [plain, plainMembers_of_json h.2]
  | .date _, h => by
    rw [IsJson] at h
    exact h.elim
  | .null, _ | .bool _, _ | .num _, _ | .str _, _ => by rw [plain]

theorem plainItems_of_json : ∀ {vs : List (JsValue ν)}, ItemsJson vs → plainItems vs = vs
  | [], _ => by rw [plainItems]
  | v :: vs, h => by
    rw [ItemsJson] at h
    rw [plainItems, plain_of_isJson h.1, plainItems_of_json h.2]

theorem plainMembers_of_json : ∀ {ms : List (List Char × JsValue ν)}, MembersJson ms →
    plainMembers ms = ms
  | [], _ => by rw [plainMembers]
  | (k, v) :: ms, h => by
    rw [MembersJson] at h
    rw [plainMembers, plain_of_isJson h.1, plainMembers_of_json h.2]

end

/-! ## Members -/

theorem membersReordered_mem :
    ∀ {ns : List (List Char × JsValue ν)}, MembersReordered ms ns → ∀ {k v}, (k, v) ∈ ms →
      ∃ w, (k, w) ∈ ns ∧ Reordered v w := by
  induction ms with
  | nil => intro ns _ k v h; cases h
  | cons m ms ih =>
    intro ns h k v hmem
    rw [MembersReordered] at h
    obtain ⟨w, ns', rfl, hw, hrest⟩ := h
    rcases List.mem_cons.mp hmem with heq | hmem
    · cases heq
      exact ⟨w, List.mem_cons_self, hw⟩
    · obtain ⟨w', hw', hreordered⟩ := ih hrest hmem
      exact ⟨w', List.mem_cons_of_mem _ hw', hreordered⟩

theorem membersReordered_filter (keep : List Char → Bool) :
    ∀ {ns : List (List Char × JsValue ν)}, MembersReordered ms ns →
      MembersReordered (ms.filter (fun m => keep m.1)) (ns.filter (fun m => keep m.1)) := by
  induction ms with
  | nil =>
    intro ns h
    rw [MembersReordered] at h
    rw [h]
    exact membersReordered_refl []
  | cons m ms ih =>
    intro ns h
    rw [MembersReordered] at h
    obtain ⟨w, ns', rfl, hw, hrest⟩ := h
    rw [List.filter_cons, List.filter_cons]
    dsimp only
    split
    · rw [MembersReordered]
      exact ⟨w, _, rfl, hw, ih hrest⟩
    · exact ih hrest

theorem filter_reordered (keep : List Char → Bool)
    (h : Reordered (.obj ms) (.obj ns)) :
    Reordered (.obj (ms.filter (fun m => keep m.1))) (.obj (ns.filter (fun m => keep m.1))) := by
  rw [Reordered] at h ⊢
  obtain ⟨members', ordered, heq, hperm, hmembers⟩ := h
  cases heq
  exact ⟨_, _, rfl, hperm.filter _, membersReordered_filter keep hmembers⟩

theorem membersReordered_append :
    ∀ {ns : List (List Char × JsValue ν)}, MembersReordered ms ns → ∀ more,
      MembersReordered (ms ++ more) (ns ++ more) := by
  induction ms with
  | nil =>
    intro ns h more
    rw [MembersReordered] at h
    rw [h]
    exact membersReordered_refl _
  | cons m ms ih =>
    intro ns h more
    rw [MembersReordered] at h
    obtain ⟨w, ns', rfl, hw, hrest⟩ := h
    rw [List.cons_append, List.cons_append, MembersReordered]
    exact ⟨w, ns' ++ more, rfl, hw, ih hrest more⟩

theorem append_reordered (h : Reordered (.obj ms) (.obj ns))
    (more : List (List Char × JsValue ν)) :
    Reordered (.obj (ms ++ more)) (.obj (ns ++ more)) := by
  rw [Reordered] at h ⊢
  obtain ⟨members', ordered, heq, hperm, hmembers⟩ := h
  cases heq
  exact ⟨_, _, rfl, hperm.append_right more, membersReordered_append hmembers more⟩

variable {k : List Char} {v : JsValue ν}

theorem field_of_mem (hkeys : (ms.map Prod.fst).Nodup)
    (h : (k, v) ∈ ms) : field ms k = some v := by
  unfold field
  cases hfind : ms.find? (fun m => m.1 = k) with
  | none =>
    have hnone := List.find?_eq_none.mp hfind (k, v) h
    simp at hnone
  | some m =>
    have hm := List.mem_of_find?_eq_some hfind
    have hk : m.1 = k := by simpa using List.find?_some hfind
    rw [List.inj_on_of_nodup_map hkeys hm h hk]
    rfl

theorem mem_of_field
    (h : field ms k = some v) : (k, v) ∈ ms := by
  obtain ⟨m, hm, rfl⟩ := Option.map_eq_some_iff.mp h
  have hk : m.1 = k := by simpa using List.find?_some hm
  exact hk ▸ List.mem_of_find?_eq_some hm

/-- **A member is found where it was**, reordered. -/
theorem field_reordered (hjson : IsJson (.obj ms))
    (h : Reordered (.obj ms) (.obj ns)) (hv : field ms k = some v) :
    ∃ w, field ns k = some w ∧ Reordered v w := by
  have hns := h.isJson hjson
  rw [IsJson] at hns
  rw [Reordered] at h
  obtain ⟨members', ordered, heq, hperm, hmembers⟩ := h
  cases heq
  obtain ⟨w, hw, hreordered⟩ := membersReordered_mem hmembers (mem_of_field hv)
  exact ⟨w, field_of_mem hns.1 (hperm.mem_iff.mpr hw), hreordered⟩

end JsonLayout
