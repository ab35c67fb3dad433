import Drac.Central.PlanBalance

/-
  The first two placement phases, one turn at a time.

  What a turn does is said once (`retainOne_cases`, `deferredOne_cases`), and every
  fact about a phase is an induction over its turns: retention leaves waiting
  exactly the records that are nowhere (`retain_retained`), and a record that then
  finds no node is one no node has room for (`foldl_deferredOne_settling`).

  `Placement.Full`: no placeable node has room for a weight. Later turns only fill
  placeable nodes (`Grows`), so what found no room finds none later.
-/

namespace Drac.Central

open Binary64

/-! ## Targets -/

variable {weight : ℚ} {node : PlanNode}

theorem betterTarget_sound {best : Option (PlanNode × ℚ)}
    {b : PlanNode × ℚ} (h : betterTarget weight best node = some b) :
    best = some b ∨ (b.1 = node ∧ isPlaceable node = true ∧ plus node.load weight ≤ node.capacity) := by
  simp only [betterTarget] at h
  split at h
  · exact .inl h
  · next hplaceable =>
    rw [not_not] at hplaceable
    split at h
    · exact .inl h
    · next hroom =>
      split at h
      · cases h
        exact .inr ⟨rfl, hplaceable, not_lt.mp hroom⟩
      · split at h
        · cases h
          exact .inr ⟨rfl, hplaceable, not_lt.mp hroom⟩
        · exact .inl h

theorem foldl_betterTarget_sound (nodes : List PlanNode) :
    ∀ {best : Option (PlanNode × ℚ)} {b : PlanNode × ℚ},
    nodes.foldl (betterTarget weight) best = some b →
    best = some b ∨ (isPlaceable b.1 = true ∧ plus b.1.load weight ≤ b.1.capacity) := by
  induction nodes with
  | nil => intro best b h; exact .inl h
  | cons node rest ih =>
    intro best b h
    rcases ih h with hbest | hrest
    · rcases betterTarget_sound hbest with hkept | ⟨rfl, hroom⟩
      · exact .inl hkept
      · exact .inr hroom
    · exact .inr hrest

theorem pickTarget_sound {nodes : List PlanNode} {target : PlanNode}
    (h : pickTarget nodes weight = some target) :
    target ∈ nodes ∧ isPlaceable target = true ∧ plus target.load weight ≤ target.capacity := by
  have hmem := pickTarget_mem h
  simp only [pickTarget, Option.map_eq_some_iff] at h
  obtain ⟨b, hfold, rfl⟩ := h
  rcases foldl_betterTarget_sound nodes hfold with hnone | hroom
  · cases hnone
  · exact ⟨hmem, hroom⟩

theorem betterTarget_isSome {best : Option (PlanNode × ℚ)} (node : PlanNode)
    (h : best.isSome) : (betterTarget weight best node).isSome := by
  obtain ⟨b, rfl⟩ := Option.isSome_iff_exists.mp h
  simp only [betterTarget]
  split
  · rfl
  · split
    · rfl
    · split <;> rfl

theorem foldl_betterTarget_isSome (nodes : List PlanNode) :
    ∀ {best : Option (PlanNode × ℚ)},
    (best.isSome ∨ ∃ n ∈ nodes, isPlaceable n = true ∧ plus n.load weight ≤ n.capacity) →
    (nodes.foldl (betterTarget weight) best).isSome := by
  induction nodes with
  | nil => intro best h; simpa using h
  | cons node rest ih =>
    intro best h
    rw [List.foldl_cons]
    refine ih ?_
    rcases h with hbest | ⟨n, hn, hplaceable, hroom⟩
    · exact .inl (betterTarget_isSome node hbest)
    · rcases List.mem_cons.mp hn with rfl | hn
      · left
        simp only [betterTarget, hplaceable, not_true_eq_false, if_false, not_lt.mpr hroom]
        split
        · rfl
        · split <;> rfl
      · exact .inr ⟨n, hn, hplaceable, hroom⟩

/-- No node that takes new load has room for the weight. -/
def Placement.Full (st : Placement) (weight : ℚ) : Prop :=
  ∀ n ∈ st.nodes, isPlaceable n = true → n.capacity < plus n.load weight

theorem pickTarget_none {st : Placement} :
    pickTarget st.nodes weight = none ↔ st.Full weight := by
  constructor
  · intro h n hn hplaceable
    by_contra hroom
    have hsome : (st.nodes.foldl (betterTarget weight) none).isSome :=
      foldl_betterTarget_isSome st.nodes (.inr ⟨n, hn, hplaceable, not_lt.mp hroom⟩)
    simp only [pickTarget, Option.map_eq_none_iff] at h
    rw [h] at hsome
    cases hsome
  · intro h
    cases hpick : pickTarget st.nodes weight with
    | none => rfl
    | some target =>
      obtain ⟨hmem, hplaceable, hroom⟩ := pickTarget_sound hpick
      exact absurd hroom (not_le.mpr (h target hmem hplaceable))

/-- Placeable nodes carry what they carried, and maybe more. -/
def Grows (st st' : Placement) : Prop :=
  ∀ n' ∈ st'.nodes, isPlaceable n' = true →
    ∃ n ∈ st.nodes, n.id = n'.id ∧ n.capacity = n'.capacity ∧ isPlaceable n = true ∧
      n.load ≤ n'.load

theorem Grows.refl (st : Placement) : Grows st st :=
  fun n hn hplaceable => ⟨n, hn, rfl, rfl, hplaceable, le_refl _⟩

theorem Grows.trans {a b c : Placement} (hab : Grows a b) (hbc : Grows b c) : Grows a c := by
  intro n hn hplaceable
  obtain ⟨m, hm, hid, hcap, hplaceable', hload⟩ := hbc n hn hplaceable
  obtain ⟨k, hk, hid', hcap', hplaceable'', hload'⟩ := hab m hm hplaceable'
  exact ⟨k, hk, hid'.trans hid, hcap'.trans hcap, hplaceable'', hload'.trans hload⟩

theorem Placement.Full.mono {st st' : Placement} (h : st.Full weight)
    (hgrows : Grows st st') : st'.Full weight := by
  intro n hn hplaceable
  obtain ⟨m, hm, -, hcap, hplaceable', hload⟩ := hgrows n hn hplaceable
  rw [← hcap]
  exact (h m hm hplaceable').trans_le (plus_mono hload)

variable {record r : PlanRecord} {previous : Previous} {workload : Workload}

section Turns

variable {nodes : List PlanNode} {st : Placement}

theorem grows_place (hdouble : ∀ n ∈ st.nodes, fl n.load = n.load) (nodeId : String)
    (hpos : 0 < record.weight) : Grows st (place st nodeId record) := by
  intro n' hn' hplaceable
  obtain ⟨n, hn, ⟨-, rfl⟩ | ⟨-, rfl⟩⟩ := Placement.Balanced.mem_updateNode hn'
  · exact ⟨n, hn, rfl, rfl, hplaceable, le_plus (hdouble n hn) hpos.le⟩
  · exact ⟨n', hn, rfl, rfl, hplaceable, le_refl _⟩

theorem grows_release {nodeId : String} (record : PlanRecord)
    (hdraining : ∀ n ∈ st.nodes, n.id = nodeId → isPlaceable n = false) :
    Grows st (release st nodeId record) := by
  intro n' hn' hplaceable
  obtain ⟨n, hn, ⟨hid, rfl⟩ | ⟨-, rfl⟩⟩ := Placement.Balanced.mem_updateNode hn'
  · have hplaceable₀ : isPlaceable n = true := hplaceable
    rw [hdraining n hn hid] at hplaceable₀
    cases hplaceable₀
  · exact ⟨n', hn, rfl, rfl, hplaceable, le_refl _⟩

/-! ## Retention -/

def waiting (previous : Previous) (workload : Workload) (reason : Reason) : PlanRecord :=
  { newRecord previous workload with reason := some reason }

/-- The node a workload was at, where that node may keep it and has room. -/
def CanStay (previous : Previous) (nodes : List PlanNode) (workload : Workload)
    (node : PlanNode) : Prop :=
  ∃ prev, JsMap.get? previous.byCamera workload.id = some prev ∧
    findNode nodes prev.nodeId = some node ∧ canRetain node = true ∧
    plus node.load workload.weight ≤ node.capacity

theorem retainOne_cases (previous : Previous) (st : Placement) (workload : Workload) :
    (∃ node, CanStay previous st.nodes workload node ∧
      retainOne previous st workload =
        place { st with records := st.records ++ [newRecord previous workload] } node.id
          (newRecord previous workload)) ∨
    ((∀ node, ¬ CanStay previous st.nodes workload node) ∧
      ∃ reason, reason ≠ .draining ∧ retainOne previous st workload =
        { st with records := st.records ++ [waiting previous workload reason]
                  deferred := st.deferred ++ [waiting previous workload reason] }) := by
  simp only [retainOne]
  split
  · next hprev =>
    right
    refine ⟨?_, .new, by decide, rfl⟩
    rintro node ⟨prev, hsome, -⟩
    rw [hprev] at hsome
    cases hsome
  · next prev hprev =>
    have huniq {node : PlanNode} (hstay : CanStay previous st.nodes workload node) :
        findNode st.nodes prev.nodeId = some node ∧ canRetain node = true ∧
          plus node.load workload.weight ≤ node.capacity := by
      obtain ⟨prev', hsome, hrest⟩ := hstay
      rw [hprev] at hsome
      cases hsome
      exact hrest
    split
    · next hfind =>
      right
      refine ⟨fun node hstay => ?_, .nodeRemoved, by decide, rfl⟩
      have hsome := (huniq hstay).1
      rw [hfind] at hsome
      cases hsome
    · next node hfind =>
      split
      · next hdead =>
        right
        refine ⟨fun node' hstay => ?_, .nodeDead, by decide, rfl⟩
        obtain ⟨hsome, hretain, -⟩ := huniq hstay
        rw [hfind] at hsome
        cases hsome
        exact hdead hretain
      · next hretain =>
        rw [not_not] at hretain
        split
        · next hover =>
          right
          refine ⟨fun node' hstay => ?_, .capacity, by decide, rfl⟩
          obtain ⟨hsome, -, hroom⟩ := huniq hstay
          rw [hfind] at hsome
          cases hsome
          exact absurd hroom (not_le.mpr hover)
        · next hroom =>
          exact .inl ⟨node, ⟨prev, hprev, hfind, hretain, not_lt.mp hroom⟩, rfl⟩

/-- What retention keeps: the waiting records are those that are nowhere, and a
placed one is where it was. -/
structure Placement.Retained (nodes : List PlanNode) (st : Placement) : Prop where
  balanced : st.Balanced nodes
  carries : st.Carries (fun _ => [])
  deferred : st.deferred = st.records.filter (·.nodeId.isNone)
  stayed : ∀ r ∈ st.records, ∀ m, r.nodeId = some m → r.previousNodeId = some m
  reasons : ∀ r ∈ st.records, r.reason ≠ some .draining

theorem findNode_id {nodes : List PlanNode} {id : String}
    (h : findNode nodes id = some node) : node.id = id := by
  have hid := List.find?_some h
  simpa using hid

theorem newRecord_previousNodeId {prev : PreviousEntry}
    (h : JsMap.get? previous.byCamera workload.id = some prev) :
    (newRecord previous workload).previousNodeId = some prev.nodeId := by
  simp [newRecord, h]

theorem mayHold_of_stay
    (h : CanStay previous nodes workload node) : MayHold node (newRecord previous workload) := by
  obtain ⟨prev, hprev, hfind, hretain, -⟩ := h
  simp only [canRetain, ne_eq, decide_not, Bool.not_eq_eq_eq_not, Bool.not_true,
    decide_eq_false_iff_not] at hretain
  cases hhealth : node.health with
  | alive => exact .inl (by simp [isPlaceable, hhealth])
  | unknown => exact .inl (by simp [isPlaceable, hhealth])
  | draining =>
    refine .inr ⟨hhealth, ?_⟩
    rw [newRecord_previousNodeId hprev, findNode_id hfind]
  | dead => exact absurd hhealth hretain

theorem updateRecord_append {records : List PlanRecord}
    (hnew : r.id ∉ records.map (·.id)) (f : PlanRecord → PlanRecord) :
    updateRecord (records ++ [r]) r.id f = records ++ [f r] := by
  have hkept := KeyedList.update_of_notMem PlanRecord.id (f := f) hnew
  simp only [KeyedList.update] at hkept
  simp [updateRecord, hkept]

theorem retainOne_ids (previous : Previous) (st : Placement) (workload : Workload) :
    (retainOne previous st workload).records.map (·.id) = st.records.map (·.id) ++ [workload.id] := by
  rcases retainOne_cases previous st workload with ⟨node, -, hstays⟩ | ⟨-, reason, -, hwaits⟩
  · have hids := KeyedList.map_update PlanRecord.id (k := workload.id) (g := PlanRecord.id)
      (f := fun r => { r with nodeId := some node.id }) (fun _ => rfl)
      (st.records ++ [newRecord previous workload])
    rw [hstays]
    refine hids.trans ?_
    simp [newRecord]
  · rw [hwaits]
    simp [waiting, newRecord]

theorem retainOne_retained (h : st.Retained nodes)
    (hnew : workload.id ∉ st.records.map (·.id)) (hpos : 0 < workload.weight) :
    (retainOne previous st workload).Retained nodes := by
  rcases retainOne_cases previous st workload with ⟨node, hstay, hstays⟩ | ⟨-, reason, hreason, hwaits⟩
  · have hjoined := h.balanced.append (newRecord previous workload) hnew hpos rfl st.deferred
    have hlast : newRecord previous workload ∈ st.records ++ [newRecord previous workload] :=
      List.mem_append_right _ List.mem_cons_self
    have hold := mayHold_of_stay hstay
    obtain ⟨prev, hprev, hfind, -, hroom⟩ := hstay
    have hplaced := hjoined.place hlast rfl rfl (findNode_mem hfind) hroom hold
    have hcarries : (place { st with records := st.records ++ [newRecord previous workload] } node.id
        (newRecord previous workload)).Carries (fun _ => []) :=
      (h.carries.append rfl st.deferred).place hjoined hlast rfl rfl rfl
    have hrecords : (place { st with records := st.records ++ [newRecord previous workload] } node.id
        (newRecord previous workload)).records =
        st.records ++ [{ newRecord previous workload with nodeId := some node.id }] :=
      updateRecord_append (r := newRecord previous workload) hnew _
    rw [hstays]
    refine ⟨hplaced, hcarries, ?_, ?_, ?_⟩
    · rw [hrecords, List.filter_append]
      simp [place, h.deferred]
    · intro r hr m hm
      rw [hrecords] at hr
      rcases List.mem_append.mp hr with hr | hr
      · exact h.stayed r hr m hm
      · obtain rfl := List.mem_singleton.mp hr
        show (newRecord previous workload).previousNodeId = some m
        rw [newRecord_previousNodeId hprev, ← findNode_id hfind]
        exact hm
    · intro r hr
      rw [hrecords] at hr
      rcases List.mem_append.mp hr with hr | hr
      · exact h.reasons r hr
      · rw [List.mem_singleton.mp hr]
        simp [newRecord]
  · have hjoined := h.balanced.append (waiting previous workload reason) hnew hpos rfl
      (st.deferred ++ [waiting previous workload reason])
    rw [hwaits]
    refine ⟨hjoined, h.carries.append rfl _, ?_, ?_, ?_⟩
    · simp [h.deferred, List.filter_append, waiting, newRecord]
    · intro r hr m hm
      rcases List.mem_append.mp hr with hr | hr
      · exact h.stayed r hr m hm
      · rw [List.mem_singleton.mp hr] at hm
        simp [waiting, newRecord] at hm
    · intro r hr
      rcases List.mem_append.mp hr with hr | hr
      · exact h.reasons r hr
      · rw [List.mem_singleton.mp hr]
        simpa [waiting] using hreason

theorem retain_retained (previous : Previous) (workloads : List Workload) : ∀ {st : Placement},
    st.Retained nodes → (st.records.map (·.id) ++ workloads.map (·.id)).Nodup →
    (∀ w ∈ workloads, 0 < w.weight) →
    (workloads.foldl (retainOne previous) st).Retained nodes := by
  induction workloads with
  | nil => intro st h _ _; exact h
  | cons w rest ih =>
    intro st h hnd hpos
    rw [List.foldl_cons]
    have hnew : w.id ∉ st.records.map (·.id) := by
      rw [List.map_cons, List.nodup_append] at hnd
      exact fun hmem => hnd.2.2 _ hmem _ List.mem_cons_self rfl
    refine ih (retainOne_retained h hnew (hpos w List.mem_cons_self)) ?_
      (fun v hv => hpos v (List.mem_cons_of_mem _ hv))
    rw [retainOne_ids, List.append_assoc]
    exact hnd

/-! ## Placement -/

theorem deferredOne_cases (st : Placement) (record : PlanRecord) :
    (∃ target ∈ st.nodes, isPlaceable target = true ∧
      plus target.load record.weight ≤ target.capacity ∧
      deferredOne st record = place st target.id record) ∨
    (st.Full record.weight ∧ deferredOne st record = st) := by
  simp only [deferredOne]
  split
  · next hnone => exact .inr ⟨pickTarget_none.mp hnone, rfl⟩
  · next target hsome =>
    obtain ⟨hmem, hplaceable, hroom⟩ := pickTarget_sound hsome
    exact .inl ⟨target, hmem, hplaceable, hroom, rfl⟩

/-- What placement keeps, with the records still to come: a record that is nowhere
is one of them, or no node has room for it. -/
structure Placement.Settling (nodes : List PlanNode) (rest : List PlanRecord) (st : Placement) :
    Prop where
  balanced : st.Balanced nodes
  carries : st.Carries (fun _ => [])
  coming : ∀ r ∈ rest, r ∈ st.records ∧ r.nodeId = none
  distinct : (rest.map (·.id)).Nodup
  nowhere : ∀ r ∈ st.records, r.nodeId = none → r ∈ rest ∨ st.Full r.weight
  reasons : ∀ r ∈ st.records, r.reason ≠ some .draining

theorem deferredOne_settling {rest : List PlanRecord}
    (h : st.Settling nodes (record :: rest)) : (deferredOne st record).Settling nodes rest := by
  obtain ⟨hmem, hnone⟩ := h.coming record List.mem_cons_self
  have hdistinct := List.nodup_cons.mp h.distinct
  have hother {r : PlanRecord} (hr : r ∈ rest) : r.id ≠ record.id := by
    intro heq
    have hin : r.id ∈ rest.map (·.id) := List.mem_map_of_mem hr
    rw [heq] at hin
    exact hdistinct.1 hin
  rcases deferredOne_cases st record with ⟨target, htarget, hplaceable, hroom, hplaces⟩ | ⟨hfull, hstays⟩
  · have hplaced := h.balanced.place hmem rfl hnone htarget hroom (.inl hplaceable)
    have hcarries : (place st target.id record).Carries (fun _ => []) :=
      h.carries.place h.balanced hmem rfl hnone rfl
    have hgrows : Grows st (place st target.id record) :=
      grows_place h.balanced.double target.id (h.balanced.positive record hmem)
    rw [hplaces]
    refine ⟨hplaced, hcarries, ?_, hdistinct.2, ?_, ?_⟩
    · intro r hr
      obtain ⟨hrmem, hrnone⟩ := h.coming r (List.mem_cons_of_mem _ hr)
      exact ⟨List.mem_map.mpr ⟨r, hrmem, if_neg (hother hr)⟩, hrnone⟩
    · intro r hr hrnone
      obtain ⟨r₀, hr₀, rfl⟩ := List.mem_map.mp hr
      by_cases heq : r₀.id = record.id
      · simp [heq] at hrnone
      · simp only [heq, if_false] at hrnone ⊢
        rcases h.nowhere r₀ hr₀ hrnone with hcoming | hfull
        · rcases List.mem_cons.mp hcoming with rfl | hrest
          · exact absurd rfl heq
          · exact .inl hrest
        · exact .inr (hfull.mono hgrows)
    · intro r hr
      obtain ⟨r₀, hr₀, rfl⟩ := List.mem_map.mp hr
      split <;> exact h.reasons r₀ hr₀
  · rw [hstays]
    refine ⟨h.balanced, h.carries, fun r hr => h.coming r (List.mem_cons_of_mem _ hr), hdistinct.2, ?_,
      h.reasons⟩
    intro r hr hrnone
    rcases h.nowhere r hr hrnone with hcoming | hfull'
    · rcases List.mem_cons.mp hcoming with rfl | hrest
      · exact .inr hfull
      · exact .inl hrest
    · exact .inr hfull'

theorem foldl_deferredOne_settling (rest : List PlanRecord) : ∀ {st : Placement},
    st.Settling nodes rest → (rest.foldl deferredOne st).Settling nodes [] := by
  induction rest with
  | nil => intro st h; exact h
  | cons record rest ih => intro st h; exact ih (deferredOne_settling h)

theorem Placement.Retained.settling (h : st.Retained nodes) : st.Settling nodes st.deferred where
  balanced := h.balanced
  carries := h.carries
  coming := by
    intro r hr
    rw [h.deferred, List.mem_filter, Option.isNone_iff_eq_none] at hr
    exact hr
  distinct := by
    rw [h.deferred]
    exact h.balanced.recordIds.sublist (List.filter_sublist.map _)
  nowhere := by
    intro r hr hnone
    left
    rw [h.deferred, List.mem_filter]
    exact ⟨hr, by rw [hnone]; rfl⟩
  reasons := h.reasons

end Turns

end Drac.Central
