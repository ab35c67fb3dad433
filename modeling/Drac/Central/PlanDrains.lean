import Drac.Central.PlanPhases

/-
  The draining phase, and the three phases together.

  A `DrainMove` takes one record off a draining node and puts it on a node that
  takes new load and has room; draining is such moves (`drainNode_moves`), no more
  than the batch off each node (`placeAll_movedOff`). A record that is nowhere is
  not touched (`placeAll_nowhere`), and fits nowhere at the end either
  (`placeAll_full`).
-/

namespace Drac.Central

open Binary64

variable {node : PlanNode} {nodeId : String} {st' : Placement} {r : PlanRecord}

section Turns

variable {nodes : List PlanNode} {st : Placement}

/-! ## Draining -/

/-- The move of one record from a draining node to its target. -/
def drainMove (st : Placement) (nodeId : String) (record : PlanRecord) (target : PlanNode) :
    Placement :=
  let placed := place (release st nodeId record) target.id record
  { placed with
    records := updateRecord placed.records record.id (fun r => { r with reason := some .draining }) }

theorem drainMove_records (st : Placement) (nodeId : String) (record : PlanRecord)
    (target : PlanNode) : (drainMove st nodeId record target).records =
      updateRecord st.records record.id
        (fun r => { r with nodeId := some target.id, reason := some .draining }) := by
  have hplaced := KeyedList.update_update PlanRecord.id (k := record.id)
    (f := fun r => { r with nodeId := none }) (g := fun r => { r with nodeId := some target.id })
    (fun _ => rfl) st.records
  simp only [KeyedList.update] at hplaced
  simp only [drainMove, place, release, updateRecord, hplaced]
  exact KeyedList.update_update PlanRecord.id (f := fun r => { r with nodeId := some target.id })
    (g := fun r => { r with reason := some .draining }) (fun _ => rfl) st.records

/-- A move off the draining node `nodeId`: a record that is there goes to a node
that takes new load and has room for it. -/
def DrainMove (nodeId : String) (st st' : Placement) : Prop :=
  ∃ node ∈ st.nodes, node.id = nodeId ∧ node.health = .draining ∧
    ∃ record ∈ st.records, record.nodeId = some nodeId ∧
      ∃ target ∈ st.nodes, isPlaceable target = true ∧
        plus target.load record.weight ≤ target.capacity ∧
        st' = drainMove st nodeId record target

/-- So many moves off one node. -/
inductive DrainMoves (nodeId : String) : Nat → Placement → Placement → Prop where
  | none (st : Placement) : DrainMoves nodeId 0 st st
  | move {n : Nat} {st mid st' : Placement} (hmove : DrainMove nodeId st mid)
      (hrest : DrainMoves nodeId n mid st') : DrainMoves nodeId (n + 1) st st'

theorem not_placeable_of_draining (h : node.health = .draining) :
    isPlaceable node = false := by simp [isPlaceable, h]

theorem target_ne (hb : st.Balanced nodes) {node target : PlanNode}
    (hnode : node ∈ st.nodes) (hid : node.id = nodeId) (hdraining : node.health = .draining)
    (htarget : target ∈ st.nodes) (hplaceable : isPlaceable target = true) :
    target.id ≠ nodeId := by
  intro heq
  obtain rfl := hb.node_eq htarget hnode (heq.trans hid.symm)
  rw [not_placeable_of_draining hdraining] at hplaceable
  cases hplaceable

/-- `left` has, by node, what was moved off it: workloads of a draining node that are now
on another one. -/
structure Placement.DrainedOff (st : Placement) (left : String → List Workload) : Prop where
  whole : ∀ n ∈ st.nodes, n.health ≠ .draining → left n.id = []
  nodup : ∀ k, (left k).Nodup
  moved : ∀ k, ∀ w ∈ left k, ∃ r ∈ st.records, r.workload = w ∧ r.reason = some .draining ∧
    r.previousNodeId = some k ∧ r.nodeId ≠ none

/-- What the draining phase keeps: the load table, and that a record it moved is
away from a draining node where it was. -/
structure Placement.Draining (nodes : List PlanNode) (st : Placement) : Prop where
  balanced : st.Balanced nodes
  carries : ∃ left, st.Carries left ∧ st.DrainedOff left
  moved : ∀ r ∈ st.records, r.reason = some .draining →
    r.nodeId ≠ r.previousNodeId ∧
      ∃ n ∈ st.nodes, n.health = .draining ∧ r.previousNodeId = some n.id

theorem DrainMove.balanced (hb : st.Balanced nodes)
    (hmove : DrainMove nodeId st st') : st'.Balanced nodes := by
  obtain ⟨node, hnode, hid, hdraining, record, hr, hat, target, ht, hplaceable, hroom, rfl⟩ := hmove
  have hne := target_ne hb hnode hid hdraining ht hplaceable
  have hreleased := hb.release hr hat
  have hfreed : { record with nodeId := none } ∈ (release st nodeId record).records :=
    List.mem_map.mpr ⟨record, hr, if_pos rfl⟩
  have htarget : target ∈ (release st nodeId record).nodes :=
    List.mem_map.mpr ⟨target, ht, if_neg hne⟩
  have hplaced : (place (release st nodeId record) target.id record).Balanced nodes :=
    hreleased.place hfreed rfl rfl htarget hroom (.inl hplaceable)
  exact hplaced.setReason record.id .draining

theorem DrainMove.grows (hb : st.Balanced nodes)
    (hmove : DrainMove nodeId st st') : Grows st st' := by
  obtain ⟨node, hnode, hid, hdraining, record, hr, hat, target, -, -, -, rfl⟩ := hmove
  have hreleased : Grows st (release st nodeId record) := grows_release record (by
    intro n hn heq
    obtain rfl := hb.node_eq hn hnode (heq.trans hid.symm)
    exact not_placeable_of_draining hdraining)
  exact hreleased.trans
    (grows_place (hb.release hr hat).double target.id (hb.positive record hr))

theorem DrainMove.record (hb : st.Balanced nodes)
    (hmove : DrainMove nodeId st st') {r' : PlanRecord} (hr' : r' ∈ st'.records) :
    r' ∈ st.records ∨
      ∃ r ∈ st.records, r.nodeId = some nodeId ∧ ∃ target ∈ st.nodes, isPlaceable target = true ∧
        plus target.load r.weight ≤ target.capacity ∧
        r' = { r with nodeId := some target.id, reason := some .draining } := by
  obtain ⟨-, -, -, -, record, hr, hat, target, ht, hplaceable, hroom, rfl⟩ := hmove
  rw [drainMove_records] at hr'
  obtain ⟨r, hrmem, rfl⟩ := List.mem_map.mp hr'
  by_cases heq : r.id = record.id
  · obtain rfl := hb.record_eq hrmem hr heq
    exact .inr ⟨r, hrmem, hat, target, ht, hplaceable, hroom, if_pos rfl⟩
  · left
    rw [if_neg heq]
    exact hrmem

theorem DrainMove.keeps (hb : st.Balanced nodes)
    (hmove : DrainMove nodeId st st') (hr : r ∈ st.records)
    (haway : r.nodeId ≠ some nodeId) : r ∈ st'.records := by
  obtain ⟨-, -, -, -, record, hrecord, hat, target, -, -, -, rfl⟩ := hmove
  rw [drainMove_records]
  refine List.mem_map.mpr ⟨r, hr, if_neg (fun heq => haway ?_)⟩
  rw [hb.record_eq hr hrecord heq]
  exact hat

theorem Placement.Balanced.idle_of_same (h : st.Balanced nodes)
    (h' : st'.Balanced nodes) {n : PlanNode} (hn : n ∈ st.nodes) :
    ∃ n' ∈ st'.nodes, n'.idle = n.idle := by
  have hmem : n.idle ∈ st'.nodes.map PlanNode.idle := by
    rw [h'.same, ← h.same]
    exact List.mem_map_of_mem hn
  exact List.mem_map.mp hmem

theorem Placement.Balanced.node_of_same (h : st.Balanced nodes)
    (h' : st'.Balanced nodes) {n : PlanNode} (hn : n ∈ st.nodes) :
    ∃ n' ∈ st'.nodes, n'.id = n.id ∧ n'.health = n.health := by
  obtain ⟨n', hn', hidle⟩ := h.idle_of_same h' hn
  have hid : n'.idle.id = n.idle.id := congrArg PlanNode.id hidle
  have hhealth : n'.idle.health = n.idle.health := congrArg PlanNode.health hidle
  exact ⟨n', hn', hid, hhealth⟩

theorem Placement.Balanced.previous_of_draining (hb : st.Balanced nodes) {node : PlanNode}
    (hnode : node ∈ st.nodes) (hdraining : node.health = .draining) {r : PlanRecord}
    (hr : r ∈ st.records) (hat : r.nodeId = some node.id) : r.previousNodeId = some node.id := by
  obtain ⟨n, hn, hid, hold⟩ := hb.hosted r hr node.id hat
  obtain rfl := hb.node_eq hn hnode hid
  rcases hold with hplaceable | ⟨-, hprev⟩
  · rw [not_placeable_of_draining hdraining] at hplaceable
    cases hplaceable
  · exact hprev

theorem DrainMove.carries (h : st.Draining nodes)
    (hmove : DrainMove nodeId st st') : ∃ left, st'.Carries left ∧ st'.DrainedOff left := by
  have hb := h.balanced
  have hb' := hmove.balanced hb
  obtain ⟨left, hcarries, hoff⟩ := h.carries
  obtain ⟨node, hnode, rfl, hdraining, record, hr, hat, target, ht, hplaceable, hroom, rfl⟩ := hmove
  have hne := target_ne hb hnode rfl hdraining ht hplaceable
  have hprev := hb.previous_of_draining hnode hdraining hr hat
  have htarget : target.health ≠ .draining := fun heq => by
    rw [not_placeable_of_draining heq] at hplaceable
    cases hplaceable
  have hfreed : { record with nodeId := none } ∈ (release st node.id record).records :=
    List.mem_map.mpr ⟨record, hr, if_pos rfl⟩
  have hempty := hoff.whole target ht htarget
  rw [← Function.update_of_ne hne (left node.id ++ [record.workload]) left] at hempty
  have hplaced := (hcarries.release hb hr hat).place (hb.release hr hat) hfreed
    (show _ = record.workload from rfl) rfl hempty
  refine ⟨_, hplaced.setReason record.id .draining, ⟨?_, ?_, ?_⟩⟩
  · intro n' hn' hnot
    obtain ⟨n, hn, hid, hhealth⟩ := hb'.node_of_same hb hn'
    have hother : n'.id ≠ node.id := by
      intro heq
      obtain rfl := hb.node_eq hn hnode (hid.trans heq)
      exact hnot (hhealth.symm.trans hdraining)
    rw [Function.update_of_ne hother, ← hid]
    exact hoff.whole n hn (hhealth ▸ hnot)
  · intro k
    by_cases hk : k = node.id
    · -- what left before is no longer on the node, and the record is
      rw [hk, Function.update_self, List.nodup_append]
      refine ⟨hoff.nodup node.id, by simp, ?_⟩
      rintro w hw v hv rfl
      obtain ⟨q, hq, hsame, hreason, hqprev, -⟩ := hoff.moved _ w hw
      rw [List.mem_singleton.mp hv] at hsame
      obtain rfl := hb.record_eq hq hr (congrArg Workload.id hsame)
      exact (h.moved q hq hreason).1 (hat.trans hprev.symm)
    · rw [Function.update_of_ne hk]
      exact hoff.nodup k
  · intro k w hw
    rw [drainMove_records]
    have hbefore (hw : w ∈ left k) : ∃ r ∈ updateRecord st.records record.id
        (fun r => { r with nodeId := some target.id, reason := some .draining }),
        r.workload = w ∧ r.reason = some .draining ∧ r.previousNodeId = some k ∧ r.nodeId ≠ none := by
      obtain ⟨q, hq, hsame, hreason, hqprev, hsome⟩ := hoff.moved k w hw
      refine ⟨_, List.mem_map_of_mem hq, ?_⟩
      split
      · exact ⟨hsame, rfl, hqprev, by simp⟩
      · exact ⟨hsame, hreason, hqprev, hsome⟩
    by_cases hk : k = node.id
    · rw [hk, Function.update_self, List.mem_append, List.mem_singleton] at hw
      rcases hw with hw | rfl
      · exact hbefore (hk ▸ hw)
      · exact ⟨_, List.mem_map_of_mem hr, by simp [PlanRecord.workload, hprev, hk]⟩
    · rw [Function.update_of_ne hk] at hw
      exact hbefore hw

theorem DrainMove.draining (h : st.Draining nodes)
    (hmove : DrainMove nodeId st st') : st'.Draining nodes := by
  have hb' := hmove.balanced h.balanced
  refine ⟨hb', hmove.carries h, fun r' hr' hreason => ?_⟩
  have hsame {n : PlanNode} (hn : n ∈ st.nodes) (hdraining : n.health = .draining) :
      ∃ n' ∈ st'.nodes, n'.health = .draining ∧ n.id = n'.id := by
    obtain ⟨n', hn', hid, hhealth⟩ := h.balanced.node_of_same hb' hn
    exact ⟨n', hn', hhealth.trans hdraining, hid.symm⟩
  rcases hmove.record h.balanced hr' with hr | ⟨r, hr, hat, target, ht, hplaceable, -, rfl⟩
  · obtain ⟨hne, n, hn, hdraining, hprev⟩ := h.moved r' hr hreason
    obtain ⟨n', hn', hdraining', hid⟩ := hsame hn hdraining
    exact ⟨hne, n', hn', hdraining', by rw [hprev, hid]⟩
  · obtain ⟨node, hnode, hid, hdraining, -⟩ := hmove
    obtain ⟨n', hn', hdraining', hid'⟩ := hsame hnode hdraining
    have hprev := h.balanced.previous_of_draining hnode hdraining hr (hid ▸ hat)
    have hne := target_ne h.balanced hnode rfl hdraining ht hplaceable
    refine ⟨?_, n', hn', hdraining', ?_⟩
    · simp only [hprev, ne_eq, Option.some.injEq]
      exact hne
    · simp only [hprev, hid']

theorem DrainMove.still_draining (hb : st.Balanced nodes)
    (hmove : DrainMove nodeId st st') :
    ∃ node ∈ st'.nodes, node.id = nodeId ∧ node.health = .draining := by
  have hb' := hmove.balanced hb
  obtain ⟨node, hnode, hid, hdraining, -⟩ := hmove
  obtain ⟨node', hnode', hid', hhealth⟩ := hb.node_of_same hb' hnode
  exact ⟨node', hnode', hid'.trans hid, hhealth.trans hdraining⟩

theorem drainCameras_moves (config : SchedulerConfig) (nodeId : String) (cameras : List String) :
    ∀ (moved : Nat) {st : Placement}, st.Draining nodes →
    (∃ node ∈ st.nodes, node.id = nodeId ∧ node.health = .draining) → cameras.Nodup →
    (∀ c ∈ cameras, ∃ r ∈ st.records, r.id = c ∧ r.nodeId = some nodeId) →
    ∃ n, DrainMoves nodeId n st (drainCameras config nodeId cameras moved st) ∧
      ∀ b : Nat, config.drainBatch ≤ b → moved ≤ b → moved + n ≤ b := by
  induction cameras with
  | nil => intro moved st _ _ _ _; exact ⟨0, .none st, fun b _ hmoved => hmoved⟩
  | cons cameraId rest ih =>
    intro moved st h hnode hnd hat
    have hrest := (List.nodup_cons.mp hnd).2
    have hat' : ∀ c ∈ rest, ∃ r ∈ st.records, r.id = c ∧ r.nodeId = some nodeId :=
      fun c hc => hat c (List.mem_cons_of_mem _ hc)
    unfold drainCameras
    split
    · exact ⟨0, .none st, fun b _ hmoved => hmoved⟩
    · next hbatch =>
      split
      · exact ih moved h hnode hrest hat'
      · next record hfind =>
        have hrecord := List.mem_of_find?_eq_some hfind
        have hid := List.find?_some hfind
        simp only [decide_eq_true_eq] at hid
        split
        · exact ih moved h hnode hrest hat'
        · next target hpick =>
          obtain ⟨ht, hplaceable, hroom⟩ := pickTarget_sound hpick
          have hrecordAt : record.nodeId = some nodeId := by
            obtain ⟨r, hr, hrid, hrat⟩ := hat cameraId List.mem_cons_self
            rw [h.balanced.record_eq hrecord hr (hid.trans hrid.symm)]
            exact hrat
          have hmove : DrainMove nodeId st (drainMove st nodeId record target) := by
            obtain ⟨node, hmem, hnodeId, hdraining⟩ := hnode
            exact ⟨node, hmem, hnodeId, hdraining, record, hrecord, hrecordAt, target, ht,
              hplaceable, hroom, rfl⟩
          obtain ⟨n, hmoves, hbound⟩ := ih (moved + 1) (hmove.draining h)
            (hmove.still_draining h.balanced) hrest (by
              intro c hc
              obtain ⟨r, hr, hrid, hrat⟩ := hat' c hc
              rw [drainMove_records]
              refine ⟨r, List.mem_map.mpr ⟨r, hr, if_neg (fun heq => ?_)⟩, hrid, hrat⟩
              have hsame : c = cameraId := hrid.symm.trans (heq.trans hid)
              exact (List.nodup_cons.mp hnd).1 (hsame ▸ hc))
          refine ⟨n + 1, .move hmove hmoves, fun b hb hmoved => ?_⟩
          have hlt : moved < b := by
            have hlt' : (moved : ℚ) < b := lt_of_lt_of_le (not_le.mp hbatch) hb
            exact_mod_cast hlt'
          have hle := hbound b hb hlt
          omega

theorem drainNode_moves (config : SchedulerConfig) (h : st.Draining nodes) (nodeId : String) :
    ∃ n, DrainMoves nodeId n st (drainNode config st nodeId) ∧
      ∀ b : Nat, config.drainBatch ≤ b → n ≤ b := by
  unfold drainNode
  split
  · exact ⟨0, .none st, fun b _ => Nat.zero_le b⟩
  · next node hfind =>
    split
    · exact ⟨0, .none st, fun b _ => Nat.zero_le b⟩
    · next hdraining =>
      rw [not_not] at hdraining
      have hnode := findNode_mem hfind
      have hid := findNode_id hfind
      have hcams := h.balanced.cameras node hnode
      obtain ⟨n, hmoves, hbound⟩ := drainCameras_moves config nodeId node.cameras 0 h
        ⟨node, hnode, hid, hdraining⟩ (by
          rw [hcams.nodup_iff]
          exact h.balanced.recordIds.sublist (List.filter_sublist.map _)) (by
          intro c hc
          obtain ⟨r, hr, hrid⟩ := List.mem_map.mp (hcams.mem_iff.mp hc)
          obtain ⟨hmem, hat⟩ := mem_recordsAt.mp hr
          exact ⟨r, hmem, hrid, hid ▸ hat⟩)
      exact ⟨n, hmoves, fun b hb => by have hle := hbound b hb (Nat.zero_le b); omega⟩

theorem Placement.Draining.laden (h : st.Draining nodes) (hn : node ∈ st.nodes) :
    ∃ left, Laden node.load (workloadsAt st.records node.id) left ∧
      (workloadsAt st.records node.id ++ left).Subperm (st.records.map PlanRecord.workload) ∧
      (node.health ≠ .draining → left = []) ∧
      ∀ w ∈ left, ∃ r ∈ st.records, r.workload = w ∧ r.reason = some .draining ∧
        r.previousNodeId = some node.id ∧ r.nodeId ≠ none := by
  obtain ⟨left, hcarries, hoff⟩ := h.carries
  refine ⟨left node.id, hcarries node hn, List.subperm_of_subset ?_ ?_, hoff.whole node hn,
    hoff.moved node.id⟩
  · have hids : ((workloadsAt st.records node.id).map Workload.id).Nodup := by
      rw [workloadsAt, List.map_map]
      exact h.balanced.recordIds.sublist (List.filter_sublist.map _)
    rw [List.nodup_append]
    refine ⟨List.Nodup.of_map _ hids, hoff.nodup node.id, ?_⟩
    rintro w hw v hv rfl
    obtain ⟨r, hr, hsame⟩ := List.mem_map.mp hw
    obtain ⟨q, hq, hsame', hreason, hprev, -⟩ := hoff.moved _ w hv
    obtain ⟨hmem, hat⟩ := mem_recordsAt.mp hr
    obtain rfl := h.balanced.record_eq hq hmem (congrArg Workload.id (hsame'.trans hsame.symm))
    exact (h.moved q hq hreason).1 (hat.trans hprev.symm)
  · intro w hw
    rcases List.mem_append.mp hw with hw | hw
    · obtain ⟨r, hr, rfl⟩ := List.mem_map.mp hw
      exact List.mem_map_of_mem (mem_recordsAt.mp hr).1
    · obtain ⟨r, hr, rfl, -⟩ := hoff.moved _ w hw
      exact List.mem_map_of_mem hr

/-! ## Runs of moves -/

/-- Any number of moves off draining nodes. -/
def Drains : Placement → Placement → Prop :=
  Relation.ReflTransGen (fun a b => ∃ nodeId, DrainMove nodeId a b)

theorem DrainMoves.drains {n : Nat}
    (h : DrainMoves nodeId n st st') : Drains st st' := by
  induction h with
  | none st => exact .refl
  | move hmove _ ih => exact .head ⟨nodeId, hmove⟩ ih

theorem Drains.draining (hrun : Drains st st') (h : st.Draining nodes) :
    st'.Draining nodes := by
  induction hrun with
  | refl => exact h
  | tail _ hmove ih =>
    obtain ⟨nodeId, hmove⟩ := hmove
    exact hmove.draining ih

theorem Drains.grows (hrun : Drains st st') (h : st.Draining nodes) :
    Grows st st' := by
  induction hrun with
  | refl => exact .refl st
  | tail hrun hmove ih =>
    obtain ⟨nodeId, hmove⟩ := hmove
    exact ih.trans (hmove.grows (Drains.draining hrun h).balanced)

/-- A record that is at a node that takes new load, or nowhere. -/
def Undrained (st : Placement) (r : PlanRecord) : Prop :=
  ∀ n ∈ st.nodes, r.nodeId = some n.id → n.health ≠ .draining

theorem Undrained.of_same (hb : st.Balanced nodes) (hb' : st'.Balanced nodes)
    (h : Undrained st r) : Undrained st' r := by
  intro n' hn' hat
  obtain ⟨n, hn, hid, hhealth⟩ := hb'.node_of_same hb hn'
  have hnot := h n hn (hat.trans (congrArg some hid.symm))
  exact fun hdraining => hnot (hhealth.trans hdraining)

theorem Drains.keeps (hrun : Drains st st') (h : st.Draining nodes)
    (hr : r ∈ st.records) (hun : Undrained st r) : r ∈ st'.records := by
  induction hrun with
  | refl => exact hr
  | @tail mid _ hrun hmove ih =>
    obtain ⟨nodeId, hmove⟩ := hmove
    have hmid := Drains.draining hrun h
    refine hmove.keeps hmid.balanced ih (fun hat => ?_)
    have hun' := hun.of_same h.balanced hmid.balanced
    obtain ⟨node, hnode, hid, hdraining, -⟩ := hmove
    exact hun' node hnode (hat.trans (congrArg some hid.symm)) hdraining

theorem Drains.record (hrun : Drains st st') (h : st.Draining nodes)
    {r' : PlanRecord} (hr' : r' ∈ st'.records) :
    r' ∈ st.records ∨
      ∃ r ∈ st.records, ∃ node ∈ st.nodes, r.nodeId = some node.id ∧ node.health = .draining ∧
        ∃ target ∈ st.nodes, isPlaceable target = true ∧
          plus target.load r.weight ≤ target.capacity ∧
          r' = { r with nodeId := some target.id, reason := some .draining } := by
  induction hrun generalizing r' with
  | refl => exact .inl hr'
  | @tail mid last hrun hmove ih =>
    obtain ⟨nodeId, hmove⟩ := hmove
    have hmid := Drains.draining hrun h
    rcases hmove.record hmid.balanced hr' with hr | ⟨r, hr, hat, target, ht, hplaceable, hroom, rfl⟩
    · exact ih hr
    · -- the moved record was on a draining node, so it had not moved before
      obtain ⟨node, hnode, hid, hdraining, -⟩ := hmove
      obtain ⟨node₀, hnode₀, hid₀, hhealth⟩ := hmid.balanced.node_of_same h.balanced hnode
      obtain ⟨target₀, ht₀, htid, hcap, hplaceable₀, hload⟩ :=
        Drains.grows hrun h target ht hplaceable
      rcases ih hr with hr₀ | ⟨q, -, -, -, -, -, there, hthere, hplaceable', -, rfl⟩
      · refine .inr ⟨r, hr₀, node₀, hnode₀, ?_, hhealth.trans hdraining, target₀, ht₀, hplaceable₀,
          ?_, ?_⟩
        · exact hat.trans (congrArg some (hid₀.trans hid).symm)
        · rw [hcap]
          exact (plus_mono hload).trans hroom
        · rw [htid]
      · have hto : there.id = node₀.id := by
          have hat' : there.id = nodeId := Option.some.inj hat
          exact hat'.trans (hid₀.trans hid).symm
        obtain rfl := h.balanced.node_eq hthere hnode₀ hto
        rw [not_placeable_of_draining (hhealth.trans hdraining)] at hplaceable'
        cases hplaceable'

/-! ## How many move off a node -/

def movedOff (records : List PlanRecord) (nodeId : String) : List PlanRecord :=
  records.filter (fun r => r.reason = some .draining ∧ r.previousNodeId = some nodeId)

theorem DrainMove.movedOff (h : st.Draining nodes)
    (hmove : DrainMove nodeId st st') (k : String) :
    (movedOff st'.records k).length =
      (movedOff st.records k).length + if nodeId = k then 1 else 0 := by
  obtain ⟨node, hnode, rfl, hdraining, record, hr, hat, target, -, -, -, rfl⟩ := hmove
  have hprev := h.balanced.previous_of_draining hnode hdraining hr hat
  -- it stands where it was, so draining has not moved it yet
  have hreason : record.reason ≠ some .draining := fun hreason =>
    (h.moved record hr hreason).1 (hat.trans hprev.symm)
  obtain ⟨s, t, hsplit, hupdate⟩ :=
    KeyedList.exists_split PlanRecord.id h.balanced.recordIds hr
  have hafter := hupdate (fun r => { r with nodeId := some target.id, reason := some .draining })
  simp only [KeyedList.update] at hafter
  rw [drainMove_records, updateRecord, hafter, hsplit]
  by_cases hk : node.id = k
  · simp [Central.movedOff, List.filter_append, hprev, hreason, hk, Nat.add_assoc]
  · simp [Central.movedOff, List.filter_append, hprev, hreason, hk]

theorem DrainMoves.movedOff {n : Nat}
    (hmoves : DrainMoves nodeId n st st') (h : st.Draining nodes) (k : String) :
    (movedOff st'.records k).length =
      (movedOff st.records k).length + if nodeId = k then n else 0 := by
  induction hmoves with
  | none st => simp
  | move hmove _ ih =>
    rw [ih (hmove.draining h), hmove.movedOff h k]
    split <;> omega

theorem drainAll_zero {config : SchedulerConfig} (hzero : config.drainBatch ≤ 0)
    (ids : List String) : ∀ st : Placement, ids.foldl (drainNode config) st = st := by
  have hone (st : Placement) (id : String) : drainNode config st id = st := by
    have hcameras (cameras : List String) : drainCameras config id cameras 0 st = st := by
      cases cameras with
      | nil => rfl
      | cons c rest =>
        unfold drainCameras
        rw [Nat.cast_zero, if_pos hzero]
    unfold drainNode
    split
    · rfl
    · split
      · rfl
      · exact hcameras _
  induction ids with
  | nil => intro st; rfl
  | cons id rest ih =>
    intro st
    rw [List.foldl_cons, hone]
    exact ih st

theorem drainAll_drains (config : SchedulerConfig) (ids : List String) : ∀ {st : Placement},
    st.Draining nodes → Drains st (ids.foldl (drainNode config) st) := by
  induction ids with
  | nil => intro st _; exact .refl
  | cons id rest ih =>
    intro st h
    obtain ⟨n, hmoves, -⟩ := drainNode_moves config h id
    exact hmoves.drains.trans (ih (hmoves.drains.draining h))

theorem drainAll_movedOff (config : SchedulerConfig) {b : Nat} (hb : config.drainBatch ≤ b)
    (ids : List String) : ∀ {st : Placement}, st.Draining nodes → ids.Nodup →
    (∀ k, (movedOff st.records k).length ≤ if k ∈ ids then 0 else b) →
    ∀ k, (movedOff (ids.foldl (drainNode config) st).records k).length ≤ b := by
  induction ids with
  | nil => intro st _ _ hcount k; simpa using hcount k
  | cons id rest ih =>
    intro st h hnd hcount
    obtain ⟨n, hmoves, hbound⟩ := drainNode_moves config h id
    obtain ⟨hid, hrest⟩ := List.nodup_cons.mp hnd
    refine ih (hmoves.drains.draining h) hrest (fun k => ?_)
    have hn := hbound b hb
    have hk := hcount k
    rw [hmoves.movedOff h k]
    by_cases hkid : id = k
    · subst hkid
      simp only [List.mem_cons, true_or, if_true] at hk
      simp only [if_true, hid, if_false]
      omega
    · simp only [List.mem_cons, Ne.symm hkid, false_or] at hk
      simp only [hkid, if_false, Nat.add_zero]
      exact hk

end Turns

/-! ## The phases together -/

def retained (previous : Previous) (nodes : List PlanNode) (workloads : List Workload) : Placement :=
  workloads.foldl (retainOne previous) ⟨nodes, [], []⟩

/-- Retention and placement: the planning before anything is drained. -/
def settled (previous : Previous) (nodes : List PlanNode) (workloads : List Workload) : Placement :=
  (retained previous nodes workloads).deferred.foldl deferredOne (retained previous nodes workloads)

/-- A planning may start from these nodes and workloads. -/
structure Ready (nodes : List PlanNode) (workloads : List Workload) : Prop where
  nodeIds : (nodes.map (·.id)).Nodup
  idle : ∀ n ∈ nodes, n.load = 0 ∧ n.cameras = []
  capacity : ∀ n ∈ nodes, 0 ≤ n.capacity
  workloadIds : (workloads.map (·.id)).Nodup
  positive : ∀ w ∈ workloads, 0 < w.weight

section Together

variable {nodes : List PlanNode} {workloads : List Workload} (config : SchedulerConfig)
  (previous : Previous)

theorem Ready.start (h : Ready nodes workloads) :
    (⟨nodes, [], []⟩ : Placement).Retained nodes := by
  refine ⟨⟨rfl, h.nodeIds, by simp, by simp, ?_, ?_, ?_, by simp⟩, ?_, rfl, by simp, by simp⟩
  · intro n hn
    rw [(h.idle n hn).1, fl_zero]
  · intro n hn
    simp [recordsAt, (h.idle n hn).2]
  · intro n hn
    rw [(h.idle n hn).1]
    exact h.capacity n hn
  · intro n hn
    exact ⟨[], by simp [workloadsAt, recordsAt], (h.idle n hn).1⟩

theorem retained_spec (h : Ready nodes workloads) :
    (retained previous nodes workloads).Retained nodes :=
  retain_retained previous workloads h.start (by simpa using h.workloadIds) h.positive

theorem retained_frame (nodes : List PlanNode) (workloads : List Workload) :
    (retained previous nodes workloads).Frame (nodes.map (·.id))
      (workloads.map (newRecord previous)) := by
  have hstart : (⟨nodes, [], []⟩ : Placement).Frame (nodes.map (·.id)) [] := ⟨rfl, rfl, by simp⟩
  have hretained := retain_frame previous workloads hstart
  rwa [List.nil_append] at hretained

theorem settled_spec (h : Ready nodes workloads) :
    (settled previous nodes workloads).Settling nodes [] :=
  foldl_deferredOne_settling _ (retained_spec previous h).settling

theorem settled_frame (nodes : List PlanNode) (workloads : List Workload) :
    (settled previous nodes workloads).Frame (nodes.map (·.id))
      (workloads.map (newRecord previous)) :=
  List.foldlRecOn _ deferredOne (retained_frame previous nodes workloads)
    (fun _ h r _ => deferredOne_frame h r)

theorem settled_draining (h : Ready nodes workloads) :
    (settled previous nodes workloads).Draining nodes where
  balanced := (settled_spec previous h).balanced
  carries := ⟨_, (settled_spec previous h).carries, ⟨fun _ _ _ => rfl, fun _ => List.nodup_nil, by simp⟩⟩
  moved r hr hreason := absurd hreason ((settled_spec previous h).reasons r hr)

/-- After the phases the planning is the settled one, but for moves off draining nodes. -/
theorem placeAll_drains (h : Ready nodes workloads) :
    Drains (settled previous nodes workloads) (placeAll config previous nodes workloads) :=
  drainAll_drains config _ (settled_draining previous h)

theorem placeAll_draining (h : Ready nodes workloads) :
    (placeAll config previous nodes workloads).Draining nodes :=
  (placeAll_drains config previous h).draining (settled_draining previous h)

theorem placeAll_nowhere (h : Ready nodes workloads) (hnone : r.nodeId = none) :
    r ∈ (placeAll config previous nodes workloads).records ↔
      r ∈ (settled previous nodes workloads).records := by
  have hrun := placeAll_drains config previous h
  constructor
  · intro hr
    rcases hrun.record (settled_draining previous h) hr with hr | ⟨_, -, _, -, -, -, _, -, -, -, rfl⟩
    · exact hr
    · cases hnone
  · intro hr
    refine hrun.keeps (settled_draining previous h) hr (fun n _ hat => ?_)
    rw [hnone] at hat
    cases hat

theorem placeAll_full (h : Ready nodes workloads)
    (hr : r ∈ (placeAll config previous nodes workloads).records) (hnone : r.nodeId = none) :
    (placeAll config previous nodes workloads).Full r.weight := by
  have hgrows := (placeAll_drains config previous h).grows (settled_draining previous h)
  rw [placeAll_nowhere config previous h hnone] at hr
  rcases (settled_spec previous h).nowhere r hr hnone with hnil | hfull
  · cases hnil
  · exact hfull.mono hgrows

theorem placeAll_movedOff (h : Ready nodes workloads) {b : Nat} (hb : config.drainBatch ≤ b)
    (nodeId : String) :
    (movedOff (placeAll config previous nodes workloads).records nodeId).length ≤ b := by
  have hsettled := settled_draining previous h
  refine drainAll_movedOff config hb _ hsettled hsettled.balanced.nodeIds (fun k => ?_) nodeId
  have hnil : movedOff (settled previous nodes workloads).records k = [] := by
    refine List.filter_eq_nil_iff.mpr (fun r hr => ?_)
    simp [(settled_spec previous h).reasons r hr]
  rw [hnil]
  exact Nat.zero_le _

end Together

end Drac.Central
