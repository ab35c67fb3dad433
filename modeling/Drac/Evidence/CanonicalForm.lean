import Mathlib.Data.List.Induction
import Mathlib.Data.List.Pairwise
import Mathlib.Data.Nat.Digits.Defs
import Drac.Lib.JsonReordering
import Drac.Evidence.EvidenceService

/-
  The canonical text of a JSON value.

  `normalizeForStableJson` sorts the members of every object by `localeCompare` alone. Keys that
  compare as equal stay in the order the value came in, so the text is one for all orders of the
  keys only where no two keys of an object compare as equal: `Separated`. Keys that are array
  indices are put in their order by the object itself, whatever they compare as.

    `reordered_of_normalize` values of one normal form differ in the order of keys only.
-/

namespace Drac.Evidence

open JsonLayout

variable {ν : Type}

/-! ## Array indices -/

def digitValues (key : Text) : List Nat := key.reverse.map (fun c => c.toNat - '0'.toNat)

theorem ofDigitChars_values (key : Text) :
    Nat.ofDigitChars 10 key 0 = Nat.ofDigits 10 (digitValues key) := by
  unfold digitValues
  induction key using List.reverseRecOn with
  | nil => rw [Nat.ofDigitChars_nil, List.reverse_nil, List.map_nil, Nat.ofDigits_nil]
  | append_singleton key c ih =>
    rw [Nat.ofDigitChars_append, Nat.ofDigitChars_cons, Nat.ofDigitChars_nil, ih,
      List.reverse_append, List.reverse_singleton, List.singleton_append, List.map_cons,
      Nat.ofDigits_cons, Nat.add_comm]

theorem digit_lt {c : Char} (h : c.isDigit = true) : c.toNat - '0'.toNat < 10 := by
  have hc := (Char.isDigit_iff_toNat.mp h).2
  have h0 : '0'.toNat = 48 := rfl
  have h9 : '9'.toNat = 57 := rfl
  omega

theorem digitChar_digit {c : Char} (h : c.isDigit = true) :
    Nat.digitChar (c.toNat - '0'.toNat) = c := by
  have hc := (Char.isDigit_iff_toNat.mp h).1
  have h0 : '0'.toNat = 48 := rfl
  apply Char.toNat_inj.mp
  rw [Nat.toNat_digitChar_of_lt_ten (digit_lt h)]
  omega

variable {key : Text}

theorem map_digitValues (h : ∀ c ∈ key, c.isDigit = true) :
    ((digitValues key).map Nat.digitChar).reverse = key := by
  unfold digitValues
  have hback : ∀ c ∈ key.reverse,
      (Nat.digitChar ∘ fun c : Char => c.toNat - '0'.toNat) c = id c := by
    intro c hc
    exact digitChar_digit (h c (List.mem_reverse.mp hc))
  rw [List.map_map, List.map_congr_left hback, List.map_id, List.reverse_reverse]

theorem digitValues_last (h : ∀ c ∈ key, c.isDigit = true)
    (hhead : key.head? ≠ some '0') (hne : digitValues key ≠ []) :
    (digitValues key).getLast hne ≠ 0 := by
  cases key with
  | nil => exact absurd rfl hne
  | cons c rest =>
    have hc : (digitValues (c :: rest)).getLast hne = c.toNat - '0'.toNat := by
      simp only [digitValues, List.reverse_cons, List.map_append, List.map_cons, List.map_nil,
        List.getLast_append_singleton]
    rw [hc]
    intro hzero
    apply hhead
    rw [List.head?_cons, ← digitChar_digit (h c List.mem_cons_self), hzero]
    rfl

theorem arrayIndex_some {n : Nat} (h : arrayIndex key = some n) :
    key ≠ [] ∧ (key = ['0'] ∧ n = 0 ∨ key = ((Nat.digits 10 n).map Nat.digitChar).reverse) := by
  unfold arrayIndex at h
  split at h
  · rename_i hkey
    obtain ⟨hne, hdigits, hhead, -⟩ := hkey
    rw [Option.some.injEq] at h
    refine ⟨hne, ?_⟩
    rcases hhead with hhead | rfl
    · right
      have hall : ∀ c ∈ key, c.isDigit = true := List.all_eq_true.mp hdigits
      have hlt : ∀ d ∈ digitValues key, d < 10 := by
        intro d hd
        obtain ⟨c, hc, rfl⟩ := List.mem_map.mp hd
        exact digit_lt (hall c (List.mem_reverse.mp hc))
      have hvalues : Nat.digits 10 n = digitValues key := by
        rw [← h, ofDigitChars_values]
        exact Nat.digits_ofDigits 10 (by decide) _ hlt (digitValues_last hall hhead)
      rw [hvalues, map_digitValues hall]
    · left
      exact ⟨rfl, h.symm⟩
  · cases h

theorem arrayIndex_inj {a b : Text} {n : Nat} (ha : arrayIndex a = some n)
    (hb : arrayIndex b = some n) : a = b := by
  obtain ⟨hane, ha⟩ := arrayIndex_some ha
  obtain ⟨hbne, hb⟩ := arrayIndex_some hb
  rcases ha with ⟨rfl, rfl⟩ | ha <;> rcases hb with ⟨rfl, hzero⟩ | hb
  · rfl
  · exact absurd (by rw [hb]; rfl) hbne
  · rw [hzero] at ha
    exact absurd (by rw [ha]; rfl) hane
  · rw [ha, hb]

/-! ## The order of an object's members -/

variable (rt : Runtime ν)

/-- No two of the keys that are left where the sort put them compare as equal. -/
def KeysApart (keys : List Text) : Prop :=
  ∀ a ∈ keys, ∀ b ∈ keys, arrayIndex a = none → arrayIndex b = none →
    rt.localeCompare a b = .eq → a = b

/-- What `normalizeForStableJson` does to the members of an object. -/
def ordered (entries : Members ν) : Members ν := fromEntries (sortEntries rt entries)

theorem ordered_perm (entries : Members ν) : (ordered rt entries).Perm entries := by
  have hsplit : ((sortEntries rt entries).filter (fun e => (arrayIndex e.1).isSome) ++
      (sortEntries rt entries).filter (fun e => (arrayIndex e.1).isNone)).Perm
        (sortEntries rt entries) := by
    simpa using List.filter_append_perm (fun e => (arrayIndex e.1).isSome) (sortEntries rt entries)
  exact (((List.perm_insertionSort _ _).append_right _).trans hsplit).trans
    (List.perm_insertionSort _ _)

variable {rt}

variable {es fs : Members ν}

theorem perm_of_ordered (h : ordered rt es = ordered rt fs) : es.Perm fs :=
  (ordered_perm rt es).symm.trans (h ▸ ordered_perm rt fs)

theorem fst_injOn {entries : Members ν} (h : (entries.map Prod.fst).Nodup)
    {a b : Text × JsValue ν} (ha : a ∈ entries) (hb : b ∈ entries) (hab : a.1 = b.1) : a = b :=
  List.inj_on_of_nodup_map h ha hb hab

theorem indices_eq (hkeys : (es.map Prod.fst).Nodup) (h : es.Perm fs)
    (hindex : ∀ e ∈ es, (arrayIndex e.1).isSome = true) :
    es.insertionSort (fun a b => (arrayIndex a.1).getD 0 ≤ (arrayIndex b.1).getD 0) =
      fs.insertionSort (fun a b => (arrayIndex a.1).getD 0 ≤ (arrayIndex b.1).getD 0) := by
  have htotal : Std.Total (fun a b : Text × JsValue ν =>
      (arrayIndex a.1).getD 0 ≤ (arrayIndex b.1).getD 0) := ⟨fun a b => Nat.le_total _ _⟩
  have htrans : IsTrans (Text × JsValue ν) (fun a b =>
      (arrayIndex a.1).getD 0 ≤ (arrayIndex b.1).getD 0) := ⟨fun a b c => Nat.le_trans⟩
  refine List.Perm.eq_of_pairwise ?_ (List.pairwise_insertionSort _ es)
    (List.pairwise_insertionSort _ fs) (((List.perm_insertionSort _ es).trans h).trans
      (List.perm_insertionSort _ fs).symm)
  intro a b ha hb hab hba
  have ha' : a ∈ es := (List.perm_insertionSort _ es).mem_iff.mp ha
  have hb' : b ∈ es := h.mem_iff.mpr ((List.perm_insertionSort _ fs).mem_iff.mp hb)
  obtain ⟨m, hm⟩ := Option.isSome_iff_exists.mp (hindex a ha')
  obtain ⟨n, hn⟩ := Option.isSome_iff_exists.mp (hindex b hb')
  rw [hm, hn] at hab hba
  have hmn : m = n := Nat.le_antisymm hab hba
  exact fst_injOn hkeys ha' hb' (arrayIndex_inj hm (hmn ▸ hn))

variable (rt) in
theorem sort_total [Std.TransCmp rt.localeCompare] :
    Std.Total (fun a b : Text × JsValue ν => (rt.localeCompare a.1 b.1).isLE = true) := by
  refine ⟨fun a b => ?_⟩
  have hswap : rt.localeCompare b.1 a.1 = (rt.localeCompare a.1 b.1).swap :=
    Std.OrientedCmp.eq_swap
  rw [hswap]
  cases rt.localeCompare a.1 b.1 <;> decide

variable (rt) in
theorem sort_trans [Std.TransCmp rt.localeCompare] :
    IsTrans (Text × JsValue ν) (fun a b => (rt.localeCompare a.1 b.1).isLE = true) :=
  ⟨fun _ _ _ => Std.TransCmp.isLE_trans⟩

/-- **Members with their keys apart come out in one order**, whatever order they came in. -/
theorem ordered_eq [Std.TransCmp rt.localeCompare]
    (hkeys : (es.map Prod.fst).Nodup) (hapart : KeysApart rt (es.map Prod.fst)) (h : es.Perm fs) :
    ordered rt es = ordered rt fs := by
  have hsorted : (sortEntries rt es).Perm (sortEntries rt fs) :=
    ((List.perm_insertionSort _ es).trans h).trans (List.perm_insertionSort _ fs).symm
  have hmem : ∀ e, e ∈ sortEntries rt es ↔ e ∈ es :=
    fun e => (List.perm_insertionSort _ es).mem_iff
  have hsortedKeys : ((sortEntries rt es).map Prod.fst).Nodup :=
    ((List.perm_insertionSort _ es).map Prod.fst).nodup_iff.mpr hkeys
  unfold ordered fromEntries
  congr 1
  · apply indices_eq
    · exact hsortedKeys.sublist (List.filter_sublist.map Prod.fst)
    · exact hsorted.filter _
    · intro e he
      simpa using List.of_mem_filter he
  · have htotal := sort_total rt
    have htrans := sort_trans rt
    refine List.Perm.eq_of_pairwise ?_ ((List.pairwise_insertionSort _ es).filter _)
      ((List.pairwise_insertionSort _ fs).filter _) (hsorted.filter _)
    intro a b ha hb hab hba
    have ha' : a ∈ es := (hmem a).mp (List.mem_of_mem_filter ha)
    have hb' : b ∈ es := (hmem b).mp (hsorted.mem_iff.mpr (List.mem_of_mem_filter hb))
    have hanone : arrayIndex a.1 = none := by simpa using List.of_mem_filter ha
    have hbnone : arrayIndex b.1 = none := by simpa using List.of_mem_filter hb
    have heq : rt.localeCompare a.1 b.1 = .eq := Std.OrientedCmp.isLE_antisymm hab hba
    exact fst_injOn hkeys ha' hb' (hapart a.1 (List.mem_map_of_mem ha') b.1
      (List.mem_map_of_mem hb') hanone hbnone heq)

theorem ordered_stable {a b : Text × JsValue ν} (h : [a, b].Sublist es)
    (ha : arrayIndex a.1 = none) (hb : arrayIndex b.1 = none)
    (heq : rt.localeCompare a.1 b.1 = .eq) : [a, b].Sublist (ordered rt es) := by
  have hsorted : [a, b].Sublist (sortEntries rt es) :=
    List.pair_sublist_insertionSort (by rw [heq]; rfl) h
  have hkept := hsorted.filter (fun e => (arrayIndex e.1).isNone)
  rw [List.filter_cons_of_pos (by rw [ha]; rfl), List.filter_cons_of_pos (by rw [hb]; rfl)] at hkept
  exact hkept.trans (List.sublist_append_right _ _)

theorem not_both_ways {α : Type} {l : List α} (hl : l.Nodup) {a b : α} (hab : [a, b].Sublist l)
    (hba : [b, a].Sublist l) : False := by
  induction l with
  | nil => cases hab
  | cons c l ih =>
    rw [List.nodup_cons] at hl
    rw [List.sublist_cons_iff] at hab hba
    rcases hab with hab | ⟨r, hr, hab⟩ <;> rcases hba with hba | ⟨r', hr', hba⟩
    · exact ih hl.2 hab hba
    · cases hr'
      exact hl.1 (hab.subset (by simp))
    · cases hr
      exact hl.1 (hba.subset (by simp))
    · cases hr
      cases hr'
      exact hl.1 (hab.subset (by simp))

/-- **The order of a whole object is undone only where its keys are apart.** -/
theorem apart_of_reverse [Std.TransCmp rt.localeCompare]
    (hkeys : (es.map Prod.fst).Nodup) (h : ordered rt es.reverse = ordered rt es) :
    KeysApart rt (es.map Prod.fst) := by
  have hnodup : (ordered rt es).Nodup := (ordered_perm rt es).nodup_iff.mpr (List.Nodup.of_map _ hkeys)
  have hpairs : es.Pairwise (fun x y => ¬(arrayIndex x.1 = none ∧ arrayIndex y.1 = none ∧
      rt.localeCompare x.1 y.1 = .eq)) := by
    rw [List.pairwise_iff_forall_sublist]
    intro x y hxy ⟨hx, hy, heq⟩
    have hback : [y, x].Sublist es.reverse := hxy.reverse
    have hyx := ordered_stable hback hy hx (Std.OrientedCmp.eq_symm heq)
    rw [h] at hyx
    exact not_both_ways hnodup (ordered_stable hxy hx hy heq) hyx
  intro a ha b hb hanone hbnone heq
  obtain ⟨x, hx, rfl⟩ := List.mem_map.mp ha
  obtain ⟨y, hy, rfl⟩ := List.mem_map.mp hb
  by_contra hne
  have hsymm : Std.Symm (fun x y : Text × JsValue ν => ¬(arrayIndex x.1 = none ∧
      arrayIndex y.1 = none ∧ rt.localeCompare x.1 y.1 = .eq)) :=
    ⟨fun x y hxy hyx => hxy ⟨hyx.2.1, hyx.1, Std.OrientedCmp.eq_symm hyx.2.2⟩⟩
  exact hpairs.forall hx hy (fun hxy => hne (congrArg Prod.fst hxy)) ⟨hanone, hbnone, heq⟩

theorem eq_of_keys : ∀ {fs : Members ν}, (es.map Prod.fst).Nodup →
    es.map Prod.fst = fs.map Prod.fst → es.Perm fs → es = fs := by
  induction es with
  | nil =>
    intro fs _ _ h
    exact h.nil_eq
  | cons e es ih =>
    intro fs hnodup hkeys h
    cases fs with
    | nil => cases hkeys
    | cons f fs =>
      obtain ⟨hfirst, hrest⟩ := List.cons.inj hkeys
      have hf : f ∈ e :: es := h.mem_iff.mpr List.mem_cons_self
      have hef : e = f := fst_injOn hnodup List.mem_cons_self hf hfirst
      subst hef
      rw [List.map_cons, List.nodup_cons] at hnodup
      rw [ih hnodup.2 hrest h.cons_inv]

/-! ## The normal form -/

theorem normalizeMembers_eq_map (ms : Members ν) :
    normalizeMembers rt ms = ms.map (fun m => (m.1, normalizeForStableJson rt m.2)) := by
  induction ms with
  | nil => rw [normalizeMembers, List.map_nil]
  | cons m ms ih => rw [normalizeMembers, ih, List.map_cons]

theorem normalize_obj (ms : Members ν) :
    normalizeForStableJson rt (.obj ms) = .obj (ordered rt (normalizeMembers rt ms)) := by
  rw [normalizeForStableJson]
  rfl

variable (rt) in
theorem normalizeMembers_keys (ms : Members ν) :
    (normalizeMembers rt ms).map Prod.fst = ms.map Prod.fst := by
  rw [normalizeMembers_eq_map, List.map_map]
  rfl

variable (rt)

mutual

/-- In every object of the value, however deep, the keys are apart. -/
def Separated : JsValue ν → Prop
  | .arr items => ItemsSeparated items
  | .obj members => KeysApart rt (members.map Prod.fst) ∧ MembersSeparated members
  | .date _ | .null | .bool _ | .num _ | .str _ => True

def ItemsSeparated : List (JsValue ν) → Prop
  | [] => True
  | v :: vs => Separated v ∧ ItemsSeparated vs

def MembersSeparated : Members ν → Prop
  | [] => True
  | (_, v) :: ms => Separated v ∧ MembersSeparated ms

end

variable {rt}

mutual

/-- **A separated value has one normal form**, in whatever order its keys come. -/
theorem normalize_reordered [Std.TransCmp rt.localeCompare] : ∀ {v w : JsValue ν}, Reordered v w →
    IsJson v → Separated rt v → normalizeForStableJson rt v = normalizeForStableJson rt w
  | .arr items, w, h, hjson, hsep => by
    rw [Reordered] at h
    obtain ⟨items', rfl, hitems⟩ := h
    rw [IsJson] at hjson
    rw [Separated] at hsep
    rw [normalizeForStableJson, normalizeForStableJson, normalizeItems_reordered hitems hjson hsep]
  | .obj members, w, h, hjson, hsep => by
    rw [Reordered] at h
    obtain ⟨members', others, rfl, hperm, hmembers⟩ := h
    rw [IsJson] at hjson
    rw [Separated] at hsep
    have hsame := normalizeMembers_reordered hmembers hjson.2 hsep.2
    have hothers : (normalizeMembers rt members).Perm (normalizeMembers rt members') := by
      rw [hsame, normalizeMembers_eq_map, normalizeMembers_eq_map]
      exact hperm.symm.map _
    have hkeys := normalizeMembers_keys rt members
    rw [normalize_obj, normalize_obj, ordered_eq (hkeys ▸ hjson.1) (hkeys ▸ hsep.1) hothers]
  | .date _, w, h, _, _ | .null, w, h, _, _ | .bool _, w, h, _, _ | .num _, w, h, _, _
  | .str _, w, h, _, _ => by
    rw [Reordered] at h
    rw [h]

theorem normalizeItems_reordered [Std.TransCmp rt.localeCompare] :
    ∀ {vs ws : List (JsValue ν)}, ItemsReordered vs ws → ItemsJson vs → ItemsSeparated rt vs →
      normalizeItems rt vs = normalizeItems rt ws
  | [], ws, h, _, _ => by
    rw [ItemsReordered] at h
    rw [h]
  | v :: vs, ws, h, hjson, hsep => by
    rw [ItemsReordered] at h
    obtain ⟨w, ws', rfl, hw, hrest⟩ := h
    rw [ItemsJson] at hjson
    rw [ItemsSeparated] at hsep
    rw [normalizeItems, normalizeItems, normalize_reordered hw hjson.1 hsep.1,
      normalizeItems_reordered hrest hjson.2 hsep.2]

theorem normalizeMembers_reordered [Std.TransCmp rt.localeCompare] :
    ∀ {ms ns : Members ν}, MembersReordered ms ns → MembersJson ms → MembersSeparated rt ms →
      normalizeMembers rt ms = normalizeMembers rt ns
  | [], ns, h, _, _ => by
    rw [MembersReordered] at h
    rw [h]
  | (k, v) :: ms, ns, h, hjson, hsep => by
    rw [MembersReordered] at h
    obtain ⟨w, ns', rfl, hw, hrest⟩ := h
    rw [MembersJson] at hjson
    rw [MembersSeparated] at hsep
    rw [normalizeMembers, normalizeMembers, normalize_reordered hw hjson.1 hsep.1,
      normalizeMembers_reordered hrest hjson.2 hsep.2]

end

mutual

/-- **No other value has one.** -/
theorem separated_of_same [Std.TransCmp rt.localeCompare] : ∀ {v : JsValue ν}, IsJson v →
    (∀ w, Reordered v w → normalizeForStableJson rt w = normalizeForStableJson rt v) →
    Separated rt v
  | .arr items, hjson, hsame => by
    rw [IsJson] at hjson
    rw [Separated]
    apply itemsSeparated_of_same hjson
    intro ws hws
    have hw := hsame (.arr ws) (by rw [Reordered]; exact ⟨ws, rfl, hws⟩)
    rw [normalizeForStableJson, normalizeForStableJson] at hw
    exact JsValue.arr.inj hw
  | .obj members, hjson, hsame => by
    rw [IsJson] at hjson
    have hkeys := normalizeMembers_keys rt members
    rw [Separated]
    refine ⟨?_, membersSeparated_of_same hjson.2 ?_⟩
    · have hw := hsame (.obj members.reverse) (reordered_of_perm (List.reverse_perm members))
      rw [normalize_obj, normalize_obj, normalizeMembers_eq_map, List.map_reverse,
        ← normalizeMembers_eq_map] at hw
      rw [← hkeys]
      exact apart_of_reverse (hkeys ▸ hjson.1) (JsValue.obj.inj hw)
    · intro ns hns
      have hw := hsame (.obj ns) (by rw [Reordered]; exact ⟨ns, ns, rfl, .refl ns, hns⟩)
      rw [normalize_obj, normalize_obj] at hw
      have hperm := perm_of_ordered (JsValue.obj.inj hw)
      have hnsKeys : (normalizeMembers rt ns).map Prod.fst =
          (normalizeMembers rt members).map Prod.fst := by
        rw [normalizeMembers_keys, hkeys, membersReordered_keys hns]
      exact eq_of_keys (hnsKeys ▸ hkeys ▸ hjson.1) hnsKeys hperm
  | .date _, _, _ | .null, _, _ | .bool _, _, _ | .num _, _, _ | .str _, _, _ => by
    rw [Separated]
    trivial

theorem itemsSeparated_of_same [Std.TransCmp rt.localeCompare] :
    ∀ {vs : List (JsValue ν)}, ItemsJson vs →
      (∀ ws, ItemsReordered vs ws → normalizeItems rt ws = normalizeItems rt vs) →
      ItemsSeparated rt vs
  | [], _, _ => by
    rw [ItemsSeparated]
    trivial
  | v :: vs, hjson, hsame => by
    rw [ItemsJson] at hjson
    rw [ItemsSeparated]
    refine ⟨separated_of_same hjson.1 ?_, itemsSeparated_of_same hjson.2 ?_⟩
    · intro w hw
      have h := hsame (w :: vs) (by
        rw [ItemsReordered]
        exact ⟨w, vs, rfl, hw, itemsReordered_refl vs⟩)
      rw [normalizeItems, normalizeItems] at h
      exact (List.cons.inj h).1
    · intro ws hws
      have h := hsame (v :: ws) (by
        rw [ItemsReordered]
        exact ⟨v, ws, rfl, reordered_refl v, hws⟩)
      rw [normalizeItems, normalizeItems] at h
      exact (List.cons.inj h).2

theorem membersSeparated_of_same [Std.TransCmp rt.localeCompare] :
    ∀ {ms : Members ν}, MembersJson ms →
      (∀ ns, MembersReordered ms ns → normalizeMembers rt ns = normalizeMembers rt ms) →
      MembersSeparated rt ms
  | [], _, _ => by
    rw [MembersSeparated]
    trivial
  | (k, v) :: ms, hjson, hsame => by
    rw [MembersJson] at hjson
    rw [MembersSeparated]
    refine ⟨separated_of_same hjson.1 ?_, membersSeparated_of_same hjson.2 ?_⟩
    · intro w hw
      have h := hsame ((k, w) :: ms) (by
        rw [MembersReordered]
        exact ⟨w, ms, rfl, hw, membersReordered_refl ms⟩)
      rw [normalizeMembers, normalizeMembers] at h
      exact congrArg Prod.snd (List.cons.inj h).1
    · intro ns hns
      have h := hsame ((k, v) :: ns) (by
        rw [MembersReordered]
        exact ⟨v, ns, rfl, reordered_refl v, hns⟩)
      rw [normalizeMembers, normalizeMembers] at h
      exact (List.cons.inj h).2

end

theorem exists_ordered {ms ns : Members ν}
    (h : (normalizeMembers rt ms).Perm (normalizeMembers rt ns)) :
    ∃ others : Members ν, ns.Perm others ∧ normalizeMembers rt others = normalizeMembers rt ms := by
  have hall : List.Forall₂ (fun e n => e = (n.1, normalizeForStableJson rt n.2))
      (normalizeMembers rt ns) ns := by
    rw [normalizeMembers_eq_map, List.forall₂_map_left_iff]
    exact List.forall₂_same.mpr (fun _ _ => rfl)
  obtain ⟨others, hothers, hperm⟩ := List.perm_comp_forall₂ h hall
  refine ⟨others, hperm.symm, ?_⟩
  rw [normalizeMembers_eq_map]
  clear hperm hall h
  generalize normalizeMembers rt ms = es at hothers
  induction hothers with
  | nil => rfl
  | cons hhead _ ih => rw [List.map_cons, ih, ← hhead]

mutual

/-- **Values of one normal form** differ in the order of keys only. -/
theorem reordered_of_normalize : ∀ {v w : JsValue ν}, IsJson v → IsJson w →
    normalizeForStableJson rt v = normalizeForStableJson rt w → Reordered v w
  | .arr items, w, hv, hw, h => by
    cases w <;> simp only [normalizeForStableJson, JsValue.arr.injEq, reduceCtorEq] at h
    rename_i items'
    rw [IsJson] at hv hw
    rw [Reordered]
    exact ⟨items', rfl, items_of_normalize hv hw h⟩
  | .obj members, w, hv, hw, h => by
    cases w with
    | obj members' =>
      rw [normalize_obj, normalize_obj] at h
      rw [IsJson] at hv hw
      obtain ⟨others, hperm, hsame⟩ := exists_ordered (perm_of_ordered (JsValue.obj.inj h))
      have hothers : MembersJson others := by
        rw [membersJson_iff] at hw ⊢
        exact fun m hm => hw.2 m (hperm.mem_iff.mpr hm)
      rw [Reordered]
      exact ⟨members', others, rfl, hperm, members_of_normalize hv.2 hothers hsame.symm⟩
    | date iso =>
      rw [IsJson] at hw
      exact hw.elim
    | null | bool | num | str | arr =>
      simp only [normalizeForStableJson, reduceCtorEq] at h
  | .date _, _, hv, _, _ => by
    rw [IsJson] at hv
    exact hv.elim
  | .null, w, _, _, h => by
    cases w <;> simp only [normalizeForStableJson, reduceCtorEq] at h
    exact reordered_refl _
  | .bool _, w, _, _, h | .num _, w, _, _, h | .str _, w, _, _, h => by
    cases w <;> simp only [normalizeForStableJson, JsValue.bool.injEq, JsValue.num.injEq,
      JsValue.str.injEq, reduceCtorEq] at h
    rw [h]
    exact reordered_refl _

theorem items_of_normalize : ∀ {vs ws : List (JsValue ν)}, ItemsJson vs → ItemsJson ws →
    normalizeItems rt vs = normalizeItems rt ws → ItemsReordered vs ws
  | [], ws, _, _, h => by
    cases ws with
    | nil => exact itemsReordered_refl []
    | cons w ws =>
      rw [normalizeItems, normalizeItems] at h
      cases h
  | v :: vs, ws, hvs, hws, h => by
    cases ws with
    | nil =>
      rw [normalizeItems, normalizeItems] at h
      cases h
    | cons w ws =>
      rw [normalizeItems, normalizeItems] at h
      rw [ItemsJson] at hvs hws
      obtain ⟨hfirst, hrest⟩ := List.cons.inj h
      rw [ItemsReordered]
      exact ⟨w, ws, rfl, reordered_of_normalize hvs.1 hws.1 hfirst,
        items_of_normalize hvs.2 hws.2 hrest⟩

theorem members_of_normalize : ∀ {ms ns : Members ν}, MembersJson ms → MembersJson ns →
    normalizeMembers rt ms = normalizeMembers rt ns → MembersReordered ms ns
  | [], ns, _, _, h => by
    cases ns with
    | nil => exact membersReordered_refl []
    | cons n ns =>
      rw [normalizeMembers, normalizeMembers] at h
      cases h
  | (k, v) :: ms, ns, hms, hns, h => by
    cases ns with
    | nil =>
      rw [normalizeMembers, normalizeMembers] at h
      cases h
    | cons n ns =>
      obtain ⟨k', w⟩ := n
      rw [normalizeMembers, normalizeMembers] at h
      rw [MembersJson] at hms hns
      obtain ⟨hfirst, hrest⟩ := List.cons.inj h
      obtain ⟨rfl, hvalue⟩ := Prod.mk.inj hfirst
      rw [MembersReordered]
      exact ⟨w, ns, rfl, reordered_of_normalize hms.1 hns.1 hvalue,
        members_of_normalize hms.2 hns.2 hrest⟩

end

mutual

theorem normalize_json : ∀ {v : JsValue ν}, IsJson v → IsJson (normalizeForStableJson rt v)
  | .arr items, h => by
    rw [IsJson] at h
    rw [normalizeForStableJson, IsJson]
    exact normalizeItems_json h
  | .obj members, h => by
    rw [IsJson] at h
    have hperm := ordered_perm rt (normalizeMembers rt members)
    have hmembers := membersJson_iff.mp (normalizeMembers_json h.2)
    rw [normalize_obj, IsJson, (hperm.map Prod.fst).nodup_iff, normalizeMembers_keys,
      membersJson_iff]
    exact ⟨h.1, fun m hm => hmembers m (hperm.mem_iff.mp hm)⟩
  | .date _, h => by
    rw [IsJson] at h
    exact h.elim
  | .null, h | .bool _, h | .num _, h | .str _, h => by
    rw [normalizeForStableJson]
    exact h

theorem normalizeItems_json : ∀ {vs : List (JsValue ν)}, ItemsJson vs →
    ItemsJson (normalizeItems rt vs)
  | [], h => by
    rw [normalizeItems]
    exact h
  | v :: vs, h => by
    rw [ItemsJson] at h
    rw [normalizeItems, ItemsJson]
    exact ⟨normalize_json h.1, normalizeItems_json h.2⟩

theorem normalizeMembers_json : ∀ {ms : Members ν}, MembersJson ms →
    MembersJson (normalizeMembers rt ms)
  | [], h => by
    rw [normalizeMembers]
    exact h
  | (k, v) :: ms, h => by
    rw [MembersJson] at h
    rw [normalizeMembers, MembersJson]
    exact ⟨normalize_json h.1, normalizeMembers_json h.2⟩

end

theorem sameText_iff {v w : JsValue ν} (hv : IsJson v) (hw : IsJson w) :
    stableStringify rt v = stableStringify rt w ↔
      normalizeForStableJson rt v = normalizeForStableJson rt w := by
  refine ⟨fun h => ?_, fun h => by rw [stableStringify, stableStringify, h]⟩
  have hplain := stringify_inj rt.numbers 0 h
  rwa [plain_of_isJson (normalize_json hv), plain_of_isJson (normalize_json hw)] at hplain

/-- **The text of a value is that of all its orders** just where its keys are apart. -/
theorem oneText_iff [Std.TransCmp rt.localeCompare] {v : JsValue ν} (hv : IsJson v) :
    (∀ w, Reordered v w → stableStringify rt w = stableStringify rt v) ↔ Separated rt v := by
  refine ⟨fun h => separated_of_same hv ?_, fun hsep w hw => ?_⟩
  · intro w hw
    exact (sameText_iff (hw.isJson hv) hv).mp (h w hw)
  · exact (sameText_iff (hw.isJson hv) hv).mpr (normalize_reordered hw hv hsep).symm

end Drac.Evidence
