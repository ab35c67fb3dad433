import Drac.Central.PlanTokens

/-
  What every move of a planning keeps: the load table is the records.

  `Placement.Balanced`: at every point of a planning each node's cameras are the
  records at it, no load is over the node's capacity, and every placed record is at a
  node that may hold it. `Placement.Carries`: each node's load is what the weights of
  its records add up to in doubles, less those moved off it. One lemma a move:
  `append`, `place`, `release`, `setReason`.
-/

namespace Drac.Central

open Binary64

/-! ## The records at a node -/

def recordsAt (records : List PlanRecord) (nodeId : String) : List PlanRecord :=
  records.filter (fun r => r.nodeId = some nodeId)

variable {records : List PlanRecord} {r : PlanRecord}

theorem mem_recordsAt {nodeId : String} :
    r ∈ recordsAt records nodeId ↔ r ∈ records ∧ r.nodeId = some nodeId := by
  simp [recordsAt]

theorem recordsAt_placed (hnd : (records.map (·.id)).Nodup)
    (hr : r ∈ records) (hnone : r.nodeId = none) (m k : String) :
    (recordsAt (updateRecord records r.id (fun r => { r with nodeId := some m })) k).Perm
      (if m = k then { r with nodeId := some m } :: recordsAt records k
        else recordsAt records k) := by
  obtain ⟨s, t, rfl, hupdate⟩ := KeyedList.exists_split PlanRecord.id hnd hr
  have hplaced := hupdate (fun r => { r with nodeId := some m })
  simp only [KeyedList.update] at hplaced
  simp only [updateRecord, hplaced, recordsAt, List.filter_append, List.filter_cons, hnone]
  by_cases hmk : m = k
  · simp only [hmk, decide_true, if_true, reduceCtorEq, decide_false, Bool.false_eq_true, if_false]
    exact List.perm_middle
  · simp [hmk]

theorem recordsAt_released (hnd : (records.map (·.id)).Nodup)
    (hr : r ∈ records) {m : String} (hat : r.nodeId = some m) (k : String) :
    (recordsAt records k).Perm
      (if m = k then
        r :: recordsAt (updateRecord records r.id (fun r => { r with nodeId := none })) k
      else recordsAt (updateRecord records r.id (fun r => { r with nodeId := none })) k) := by
  obtain ⟨s, t, rfl, hupdate⟩ := KeyedList.exists_split PlanRecord.id hnd hr
  have hfreed := hupdate (fun r => { r with nodeId := none })
  simp only [KeyedList.update] at hfreed
  simp only [updateRecord, hfreed, recordsAt, List.filter_append, List.filter_cons, hat]
  by_cases hmk : m = k
  · simp only [hmk, decide_true, if_true, reduceCtorEq, decide_false, Bool.false_eq_true, if_false]
    exact List.perm_middle
  · simp [hmk]

theorem recordsAt_relabel {α : Type} {f : PlanRecord → PlanRecord}
    (hf : ∀ r, (f r).nodeId = r.nodeId) {g : PlanRecord → α} (hg : ∀ r, g (f r) = g r)
    (id k : String) (records : List PlanRecord) :
    (recordsAt (updateRecord records id f) k).map g = (recordsAt records k).map g := by
  induction records with
  | nil => rfl
  | cons r rest ih =>
    have hnode : (if r.id = id then f r else r).nodeId = r.nodeId := by
      split
      · exact hf r
      · rfl
    have hmap : g (if r.id = id then f r else r) = g r := by
      split
      · exact hg r
      · rfl
    simp only [recordsAt, updateRecord] at ih
    simp only [recordsAt, updateRecord, List.map_cons, List.filter_cons, hnode]
    split
    · rw [List.map_cons, List.map_cons, hmap, ih]
    · exact ih

/-! ## The balance -/

def PlanNode.idle (n : PlanNode) : PlanNode := { n with load := 0, cameras := [] }

/-- Where a record may be: on a node that takes new load, or on a draining one
that it was at before. -/
def MayHold (n : PlanNode) (r : PlanRecord) : Prop :=
  isPlaceable n = true ∨ (n.health = .draining ∧ r.previousNodeId = some n.id)

/-- The nodes of the planning carry the records at them, within their capacity. -/
structure Placement.Balanced (nodes : List PlanNode) (st : Placement) : Prop where
  same : st.nodes.map PlanNode.idle = nodes.map PlanNode.idle
  nodeIds : (st.nodes.map (·.id)).Nodup
  recordIds : (st.records.map (·.id)).Nodup
  positive : ∀ r ∈ st.records, 0 < r.weight
  double : ∀ n ∈ st.nodes, fl n.load = n.load
  cameras : ∀ n ∈ st.nodes, n.cameras.Perm ((recordsAt st.records n.id).map (·.id))
  fits : ∀ n ∈ st.nodes, n.load ≤ n.capacity
  hosted : ∀ r ∈ st.records, ∀ m, r.nodeId = some m → ∃ n ∈ st.nodes, n.id = m ∧ MayHold n r

namespace Placement.Balanced

variable {nodes : List PlanNode} {st : Placement}

theorem node_eq (h : st.Balanced nodes) {a b : PlanNode} (ha : a ∈ st.nodes) (hb : b ∈ st.nodes)
    (hid : a.id = b.id) : a = b := KeyedList.eq_of_key h.nodeIds ha hb hid

theorem record_eq (h : st.Balanced nodes) {a b : PlanRecord} (ha : a ∈ st.records)
    (hb : b ∈ st.records) (hid : a.id = b.id) : a = b := KeyedList.eq_of_key h.recordIds ha hb hid

theorem append (h : st.Balanced nodes) (record : PlanRecord)
    (hnew : record.id ∉ st.records.map (·.id)) (hpos : 0 < record.weight) (hnone : record.nodeId = none) (waiting : List PlanRecord) :
    Balanced nodes { st with records := st.records ++ [record], deferred := waiting } := by
  have hat (k : String) : recordsAt (st.records ++ [record]) k = recordsAt st.records k := by
    simp [recordsAt, hnone]
  refine ⟨h.same, h.nodeIds, ?_, ?_, h.double, ?_, h.fits, ?_⟩
  · rw [List.map_append, List.map_singleton, List.nodup_append]
    refine ⟨h.recordIds, by simp, ?_⟩
    intro a ha b hb heq
    rw [List.mem_singleton.mp hb] at heq
    exact hnew (heq ▸ ha)
  · intro r hr
    rcases List.mem_append.mp hr with hr | hr
    · exact h.positive r hr
    · exact List.mem_singleton.mp hr ▸ hpos
  · intro n hn
    rw [hat]
    exact h.cameras n hn
  · intro r hr m hm
    rcases List.mem_append.mp hr with hr | hr
    · exact h.hosted r hr m hm
    · rw [List.mem_singleton.mp hr, hnone] at hm
      cases hm

variable {f : PlanNode → PlanNode}

theorem updateNode_same (h : st.Balanced nodes) (id : String)
    (hf : ∀ n, (f n).idle = n.idle) :
    (updateNode st.nodes id f).map PlanNode.idle = nodes.map PlanNode.idle :=
  (KeyedList.map_update PlanNode.id hf st.nodes).trans h.same

theorem updateNode_nodup (h : st.Balanced nodes) (id : String)
    (hf : ∀ n, (f n).id = n.id) : ((updateNode st.nodes id f).map (·.id)).Nodup := by
  rw [updateNode_ids st.nodes id f hf]
  exact h.nodeIds

theorem updateRecord_nodup (h : st.Balanced nodes) (id : String) {f : PlanRecord → PlanRecord}
    (hf : ∀ r, (f r).id = r.id) : ((updateRecord st.records id f).map (·.id)).Nodup := by
  have hids := KeyedList.map_update PlanRecord.id (k := id) (g := PlanRecord.id) hf st.records
  exact hids ▸ h.recordIds

theorem mem_updateNode {id : String} {n : PlanNode}
    (hn : n ∈ updateNode st.nodes id f) :
    ∃ n₀ ∈ st.nodes, (n₀.id = id ∧ n = f n₀) ∨ (n₀.id ≠ id ∧ n = n₀) := by
  simp only [updateNode, List.mem_map] at hn
  obtain ⟨n₀, hn₀, rfl⟩ := hn
  refine ⟨n₀, hn₀, ?_⟩
  by_cases hid : n₀.id = id
  · exact .inl ⟨hid, by simp [hid]⟩
  · exact .inr ⟨hid, by simp [hid]⟩

/-- A node that may hold a record still may, whatever it carries. -/
theorem hosted_updateNode {records : List PlanRecord}
    (h : ∀ r ∈ records, ∀ m, r.nodeId = some m → ∃ n ∈ st.nodes, n.id = m ∧ MayHold n r)
    (id : String) (hf : ∀ n, (f n).idle = n.idle) :
    ∀ r ∈ records, ∀ m, r.nodeId = some m →
      ∃ n ∈ updateNode st.nodes id f, n.id = m ∧ MayHold n r := by
  intro r hr m hm
  obtain ⟨n, hn, rfl, hold⟩ := h r hr m hm
  have hid := congrArg PlanNode.id (hf n)
  have hhealth := congrArg PlanNode.health (hf n)
  refine ⟨if n.id = id then f n else n, List.mem_map_of_mem hn, ?_, ?_⟩
  · split
    · exact hid
    · rfl
  · split
    · simp only [PlanNode.idle] at hid hhealth
      simpa only [MayHold, isPlaceable, hid, hhealth] using hold
    · exact hold

theorem place (h : st.Balanced nodes) {record r : PlanRecord} (hr : r ∈ st.records)
    (hid : r.id = record.id) (hnone : r.nodeId = none)
    {node : PlanNode} (hnode : node ∈ st.nodes)
    (hroom : plus node.load record.weight ≤ node.capacity) (hhold : MayHold node r) :
    Balanced nodes (Central.place st node.id record) := by
  have hat := recordsAt_placed h.recordIds hr hnone node.id
  rw [hid] at hat
  refine ⟨h.updateNode_same _ (fun _ => rfl), h.updateNode_nodup _ (fun _ => rfl),
    h.updateRecord_nodup _ (fun _ => rfl), ?_, ?_, ?_, ?_, ?_⟩
  · intro q hq
    obtain ⟨q₀, hq₀, rfl⟩ := List.mem_map.mp hq
    split <;> exact h.positive q₀ hq₀
  · intro n hn
    obtain ⟨n₀, hn₀, ⟨-, rfl⟩ | ⟨-, rfl⟩⟩ := mem_updateNode hn
    · exact fl_plus _ _
    · exact h.double n hn₀
  · intro n hn
    obtain ⟨n₀, hn₀, ⟨heq, rfl⟩ | ⟨hne, rfl⟩⟩ := mem_updateNode hn
    · obtain rfl := h.node_eq hn₀ hnode heq
      have hperm := (hat n₀.id).map (·.id)
      simp only [if_true, List.map_cons] at hperm
      refine ((List.perm_append_singleton record.id n₀.cameras).trans ?_).trans hperm.symm
      exact (h.cameras n₀ hnode).cons _
    · have hperm := (hat n.id).map (·.id)
      rw [if_neg (Ne.symm hne)] at hperm
      exact (h.cameras n hn₀).trans hperm.symm
  · intro n hn
    obtain ⟨n₀, hn₀, ⟨heq, rfl⟩ | ⟨hne, rfl⟩⟩ := mem_updateNode hn
    · obtain rfl := h.node_eq hn₀ hnode heq
      exact hroom
    · exact h.fits n hn₀
  · refine hosted_updateNode ?_ node.id (fun _ => rfl)
    intro q hq m hm
    obtain ⟨q₀, hq₀, rfl⟩ := List.mem_map.mp hq
    by_cases heq : q₀.id = record.id
    · obtain rfl := h.record_eq hq₀ hr (heq.trans hid.symm)
      simp only [heq, if_true, Option.some.injEq] at hm ⊢
      exact ⟨node, hnode, hm, hhold⟩
    · simp only [heq, if_false] at hm ⊢
      exact h.hosted q₀ hq₀ m hm

theorem release (h : st.Balanced nodes) {record : PlanRecord} (hr : record ∈ st.records)
    {nodeId : String} (hat : record.nodeId = some nodeId) :
    Balanced nodes (Central.release st nodeId record) := by
  have hperm := recordsAt_released h.recordIds hr hat
  refine ⟨h.updateNode_same _ (fun _ => rfl), h.updateNode_nodup _ (fun _ => rfl),
    h.updateRecord_nodup _ (fun _ => rfl), ?_, ?_, ?_, ?_, ?_⟩
  · intro q hq
    obtain ⟨q₀, hq₀, rfl⟩ := List.mem_map.mp hq
    split <;> exact h.positive q₀ hq₀
  · intro n hn
    obtain ⟨n₀, hn₀, ⟨-, rfl⟩ | ⟨-, rfl⟩⟩ := mem_updateNode hn
    · exact fl_minus _ _
    · exact h.double n hn₀
  · intro n hn
    obtain ⟨n₀, hn₀, ⟨heq, rfl⟩ | ⟨hne, rfl⟩⟩ := mem_updateNode hn
    · have hcams := (h.cameras n₀ hn₀).trans ((hperm n₀.id).map (·.id))
      simp only [heq, if_true, List.map_cons] at hcams
      simp only [Central.release, PlanNode.remove, heq]
      have herase := hcams.erase record.id
      rwa [List.erase_cons_head] at herase
    · have hcams := (h.cameras n hn₀).trans ((hperm n.id).map (·.id))
      rwa [if_neg (Ne.symm hne)] at hcams
  · intro n hn
    obtain ⟨n₀, hn₀, ⟨heq, rfl⟩ | ⟨hne, rfl⟩⟩ := mem_updateNode hn
    · exact (minus_le (h.double n₀ hn₀) (h.positive record hr).le).trans (h.fits n₀ hn₀)
    · exact h.fits n hn₀
  · refine hosted_updateNode ?_ nodeId (fun _ => rfl)
    intro q hq m hm
    obtain ⟨q₀, hq₀, rfl⟩ := List.mem_map.mp hq
    split at hm
    · cases hm
    · next hne =>
      simp only [hne, if_false]
      exact h.hosted q₀ hq₀ m hm

theorem setReason (h : st.Balanced nodes) (id : String) (reason : Reason) :
    Balanced nodes { st with
      records := updateRecord st.records id (fun r => { r with reason := some reason }) } := by
  have hrelabel {α : Type} {g : PlanRecord → α}
      (hg : ∀ r : PlanRecord, g { r with reason := some reason } = g r) (k : String) :=
    recordsAt_relabel (f := fun r => { r with reason := some reason }) (fun _ => rfl) hg id k
      st.records
  refine ⟨h.same, h.nodeIds, h.updateRecord_nodup _ (fun _ => rfl), ?_, h.double, ?_, h.fits, ?_⟩
  · intro q hq
    obtain ⟨q₀, hq₀, rfl⟩ := List.mem_map.mp hq
    split <;> exact h.positive q₀ hq₀
  · intro n hn
    rw [hrelabel (fun _ => rfl)]
    exact h.cameras n hn
  · intro q hq m hm
    obtain ⟨q₀, hq₀, rfl⟩ := List.mem_map.mp hq
    have hm₀ : q₀.nodeId = some m := by
      split at hm <;> exact hm
    obtain ⟨n, hn, hid, hold⟩ := h.hosted q₀ hq₀ m hm₀
    refine ⟨n, hn, hid, ?_⟩
    split <;> exact hold

end Placement.Balanced

/-! ## What a node carries -/

def PlanRecord.workload (r : PlanRecord) : Workload := ⟨r.id, r.weight⟩

def workloadsAt (records : List PlanRecord) (nodeId : String) : List Workload :=
  (recordsAt records nodeId).map PlanRecord.workload

/-- A load as doubles give it: the weights of the workloads here and of those that
left, added one by one, and then those that left taken off again. -/
def Laden (load : ℚ) (here left : List Workload) : Prop :=
  ∃ order : List Workload, order.Perm (here ++ left) ∧
    load = (left.map (·.weight)).foldl minus ((order.map (·.weight)).foldl plus 0)

theorem Laden.perm {load : ℚ} {here here' left : List Workload} (h : Laden load here left)
    (hperm : here.Perm here') : Laden load here' left := by
  obtain ⟨order, horder, hload⟩ := h
  exact ⟨order, horder.trans (hperm.append_right left), hload⟩

theorem Laden.put {load : ℚ} {here : List Workload} (h : Laden load here []) (w : Workload) :
    Laden (plus load w.weight) (w :: here) [] := by
  obtain ⟨order, horder, rfl⟩ := h
  refine ⟨order ++ [w], ?_, by simp⟩
  rw [List.append_nil] at horder ⊢
  exact (List.perm_append_singleton w order).trans (horder.cons w)

theorem Laden.take {load : ℚ} {w : Workload} {here left : List Workload}
    (h : Laden load (w :: here) left) : Laden (minus load w.weight) here (left ++ [w]) := by
  obtain ⟨order, horder, rfl⟩ := h
  refine ⟨order, horder.trans ?_, by simp⟩
  rw [← List.append_assoc]
  exact (List.perm_append_singleton w (here ++ left)).symm

/-- Where the weights are steps of a power of two and few enough, nothing is rounded. -/
theorem Laden.eq_sum {load : ℚ} {here left : List Workload} {e : ℤ} (h : Laden load here left)
    (hgrid : ∀ w ∈ here ++ left, OnGrid e w.weight) (hpos : ∀ w ∈ here ++ left, 0 < w.weight)
    (hlt : ((here ++ left).map (·.weight)).sum < 2 ^ 53 * 2 ^ e) :
    load = (here.map (·.weight)).sum := by
  obtain ⟨order, horder, rfl⟩ := h
  have hzero : OnGrid e 0 := ⟨0, by simp⟩
  have hsum : (order.map (·.weight)).sum = (here.map (·.weight)).sum + (left.map (·.weight)).sum := by
    rw [(horder.map _).sum_eq, List.map_append, List.sum_append]
  rw [List.map_append, List.sum_append] at hlt
  have hhere : 0 ≤ (here.map (·.weight)).sum := List.sum_nonneg (by
    rw [List.forall_mem_map]
    exact fun w hw => (hpos w (List.mem_append_left _ hw)).le)
  have hadded : (order.map (·.weight)).foldl plus 0 = (order.map (·.weight)).sum := by
    have hadded := foldl_plus_eq (e := e)
      (List.forall_mem_map.mpr fun w hw => hgrid w (horder.mem_iff.mp hw))
      (List.forall_mem_map.mpr fun w hw => (hpos w (horder.mem_iff.mp hw)).le)
      hzero le_rfl (by rwa [zero_add, hsum])
    rwa [zero_add] at hadded
  have hgridSum : OnGrid e (order.map (·.weight)).sum :=
    List.sum_induction (OnGrid e) (fun _ _ => OnGrid.add) hzero
      (List.forall_mem_map.mpr fun w hw => hgrid w (horder.mem_iff.mp hw))
  rw [hadded, foldl_minus_eq (e := e)
    (List.forall_mem_map.mpr fun w hw => hgrid w (List.mem_append_right _ hw))
    (List.forall_mem_map.mpr fun w hw => (hpos w (List.mem_append_right _ hw)).le)
    hgridSum (by rw [hsum]; linarith) (by rwa [hsum]), hsum, add_sub_cancel_right]

/-- Every node's load, with what was moved off it (`left`). -/
def Placement.Carries (st : Placement) (left : String → List Workload) : Prop :=
  ∀ n ∈ st.nodes, Laden n.load (workloadsAt st.records n.id) (left n.id)

namespace Placement.Carries

variable {nodes : List PlanNode} {st : Placement} {left : String → List Workload}

theorem append (h : st.Carries left) {record : PlanRecord} (hnone : record.nodeId = none)
    (waiting : List PlanRecord) :
    Carries { st with records := st.records ++ [record], deferred := waiting } left := by
  intro n hn
  have hat : workloadsAt (st.records ++ [record]) n.id = workloadsAt st.records n.id := by
    simp [workloadsAt, recordsAt, hnone]
  show Laden n.load (workloadsAt (st.records ++ [record]) n.id) (left n.id)
  rw [hat]
  exact h n hn

theorem place (h : st.Carries left) (hb : st.Balanced nodes) {record r : PlanRecord}
    (hr : r ∈ st.records) (hsame : r.workload = record.workload) (hnone : r.nodeId = none)
    {node : PlanNode} (hleft : left node.id = []) :
    Carries (Central.place st node.id record) left := by
  have hid : r.id = record.id := congrArg Workload.id hsame
  have hweight : r.weight = record.weight := congrArg Workload.weight hsame
  have hat (k : String) := (recordsAt_placed hb.recordIds hr hnone node.id k).map PlanRecord.workload
  rw [hid] at hat
  intro n hn
  obtain ⟨n₀, hn₀, ⟨heq, rfl⟩ | ⟨hne, rfl⟩⟩ := Balanced.mem_updateNode hn
  · have hload := h n₀ hn₀
    have hperm := hat n₀.id
    rw [heq, hleft] at hload
    rw [heq, if_pos rfl, List.map_cons] at hperm
    show Laden (plus n₀.load record.weight) (workloadsAt _ n₀.id) (left n₀.id)
    rw [heq, hleft]
    refine (hload.put record.workload).perm (List.Perm.trans (List.Perm.of_eq ?_) hperm.symm)
    show record.workload :: _ = (⟨record.id, r.weight⟩ : Workload) :: _
    rw [hweight]
    rfl
  · have hperm := hat n.id
    rw [if_neg (Ne.symm hne)] at hperm
    exact (h n hn₀).perm hperm.symm

theorem release (h : st.Carries left) (hb : st.Balanced nodes) {record : PlanRecord}
    (hr : record ∈ st.records) {nodeId : String} (hat : record.nodeId = some nodeId) :
    Carries (Central.release st nodeId record)
      (Function.update left nodeId (left nodeId ++ [record.workload])) := by
  have hperm (k : String) := (recordsAt_released hb.recordIds hr hat k).map PlanRecord.workload
  intro n hn
  obtain ⟨n₀, hn₀, ⟨heq, rfl⟩ | ⟨hne, rfl⟩⟩ := Balanced.mem_updateNode hn
  · have hload := h n₀ hn₀
    have hfreed := hperm n₀.id
    rw [heq] at hload
    rw [heq, if_pos rfl, List.map_cons] at hfreed
    show Laden (minus n₀.load record.weight) (workloadsAt _ n₀.id) (Function.update left _ _ n₀.id)
    rw [heq, Function.update_self]
    exact (hload.perm hfreed).take
  · have hkept := hperm n.id
    rw [if_neg (Ne.symm hne)] at hkept
    rw [Function.update_of_ne hne]
    exact (h n hn₀).perm hkept

theorem setReason (h : st.Carries left) (id : String) (reason : Reason) :
    Carries { st with
      records := updateRecord st.records id (fun r => { r with reason := some reason }) } left := by
  intro n hn
  have hrelabel := recordsAt_relabel (f := fun r => { r with reason := some reason }) (fun _ => rfl)
    (g := PlanRecord.workload) (fun _ => rfl) id n.id st.records
  show Laden n.load (workloadsAt _ n.id) (left n.id)
  rw [workloadsAt, hrelabel]
  exact h n hn

end Placement.Carries

end Drac.Central
