import Drac.Central.CanonicalOrder
import Drac.Central.PlanDrains

/-
  A plan is sane.

  `planAssignments_computes` reads a returned plan back as the lists made from one
  placement; `ready` says that every planning starts from nodes and workloads the
  phases can start from. From these and the balance of the placement follows
  `planAssignments_sane`: every workload is in one list, once; loads are sums of
  weights as doubles add them, within capacity; no camera is on a dead node, nor newly
  on a draining one; and what is unassigned fits nowhere.
-/

namespace Drac.Central

open JsText Binary64

/-! ## What a planning starts from -/

theorem normalizeCapacity_nonneg {raw : Option RawCapacity} {c : ℚ}
    (h : normalizeCapacity raw = some c) : 0 ≤ c := by
  unfold normalizeCapacity at h
  split at h
  · split at h
    · next hn => exact Option.some.inj h ▸ hn
    · cases h
  · split at h
    · next hn => exact Option.some.inj h ▸ hn
    · cases h
  · cases h

theorem defaultNodeCapacity_nonneg (input : RawConfig) :
    0 ≤ (resolveSchedulerConfig input).defaultNodeCapacity := by
  simp only [resolveSchedulerConfig, readNumber, defaultSchedulerConfig]
  cases input.defaultNodeCapacity with
  | none => norm_num
  | some n =>
    simp only [Option.bind_some]
    split
    · norm_num
    · next hn => exact not_lt.mp hn

/-- The nodes a planning begins with. -/
structure FreshNodes (nodes : List PlanNode) : Prop where
  nodup : (nodes.map (·.id)).Nodup
  idle : ∀ n ∈ nodes, n.load = 0 ∧ n.cameras = []
  capacity : ∀ n ∈ nodes, 0 ≤ n.capacity

theorem addNode_fresh {config : SchedulerConfig} (hconfig : 0 ≤ config.defaultNodeCapacity)
    (states : List (String × NodeState)) (nowMs : ℚ) {raw : ComputeNode}
    (hraw : ∀ c, raw.capacity = some c → 0 ≤ c) {nodes : List PlanNode} (h : FreshNodes nodes) :
    FreshNodes (addNode config states nowMs nodes raw) := by
  unfold addNode
  split
  · exact h
  · next hnew =>
    refine ⟨?_, ?_, ?_⟩
    · rw [List.map_append, List.map_singleton, List.nodup_append]
      refine ⟨h.nodup, by simp, ?_⟩
      intro a ha b hb heq
      obtain ⟨n, hn, rfl⟩ := List.mem_map.mp ha
      rw [List.mem_singleton.mp hb] at heq
      exact hnew (.inr (List.any_eq_true.mpr ⟨n, hn, decide_eq_true heq⟩))
    · intro n hn
      rcases List.mem_append.mp hn with hn | hn
      · exact h.idle n hn
      · obtain rfl := List.mem_singleton.mp hn
        exact ⟨rfl, rfl⟩
    · intro n hn
      rcases List.mem_append.mp hn with hn | hn
      · exact h.capacity n hn
      · obtain rfl := List.mem_singleton.mp hn
        show 0 ≤ raw.capacity.getD config.defaultNodeCapacity
        cases hcap : raw.capacity with
        | none => exact hconfig
        | some c => exact hraw c hcap

theorem planNodes_fresh (config : RawConfig) (states : List (String × NodeState)) (nowMs : ℚ)
    (input : List (Option RawNode)) :
    FreshNodes (planNodes (resolveSchedulerConfig config) states nowMs input) := by
  refine List.foldlRecOn _ _ ⟨by simp, by simp, by simp⟩ (fun nodes h raw hraw => ?_)
  refine addNode_fresh (defaultNodeCapacity_nonneg config) states nowMs (fun c hc => ?_) h
  rw [List.mem_insertionSort, normalizeComputeNodes, List.mem_filterMap] at hraw
  obtain ⟨_, -, hraw⟩ := hraw
  obtain ⟨node, -, rfl⟩ := Option.map_eq_some_iff.mp hraw
  exact normalizeCapacity_nonneg hc

theorem RawWorkload.read_positive (raw : RawWorkload) : 0 < raw.read.weight := by
  cases raw with
  | bare id => exact one_pos
  | object id cameraId weight =>
    simp only [RawWorkload.read]
    split
    · split
      · next hw => exact hw
      · exact one_pos
    · exact one_pos

theorem normalizeWorkloads_positive (input : List RawWorkload) :
    ∀ w ∈ normalizeWorkloads input, 0 < w.weight := by
  have hall : ∀ e ∈ input.foldl readWorkload [], 0 < e.2.weight := by
    refine List.foldlRecOn (motive := fun m : List (String × Workload) => ∀ e ∈ m, 0 < e.2.weight)
      input readWorkload (by simp) (fun m hm raw _ e he => ?_)
    simp only [readWorkload] at he
    split at he
    · exact hm e he
    · rcases JsMap.mem_set he with rfl | he
      · exact raw.read_positive
      · exact hm e he
  intro w hw
  simp only [normalizeWorkloads, JsMap.values, List.mem_map] at hw
  obtain ⟨e, he, rfl⟩ := hw
  exact hall e he

def PlanInput.planNodes (input : PlanInput) (nowMs : ℚ) : List PlanNode :=
  Central.planNodes (resolveSchedulerConfig input.config) (normalizeNodeStates input.nodeStates)
    nowMs input.nodes

def PlanInput.ordered (input : PlanInput) : List Workload :=
  orderWorkloads (normalizeWorkloads input.workloads)

theorem ready (input : PlanInput) (nowMs : ℚ) : Ready (input.planNodes nowMs) input.ordered := by
  have hfresh := planNodes_fresh input.config (normalizeNodeStates input.nodeStates) nowMs input.nodes
  have hperm := orderWorkloads_perm (normalizeWorkloads input.workloads)
  refine ⟨hfresh.nodup, hfresh.idle, hfresh.capacity, ?_, ?_⟩
  · exact (hperm.map (·.id)).nodup_iff.mpr (normalizeWorkloads_clean input.workloads).1
  · exact fun w hw => normalizeWorkloads_positive input.workloads w (hperm.mem_iff.mp hw)

/-! ## What a returned plan is made of -/

def PlanInput.placement (input : PlanInput) (previous : RawPrevious) (nowMs : ℚ) : Placement :=
  placeAll (resolveSchedulerConfig input.config) (normalizePrevious previous)
    (input.planNodes nowMs) input.ordered

def PlanNode.reported (n : PlanNode) : PlanNode :=
  { n with cameras := n.cameras.insertionSort (fun a b => compareIds a b ≤ 0) }

def Placement.assigned (st : Placement) : List PlanRecord :=
  sortedById (st.records.filter (·.nodeId.isSome))

def Placement.unplaced (st : Placement) : List PlanRecord :=
  sortedById (st.records.filter (·.nodeId.isNone))

/-- The plan reports the placement `st`, its tokens issued from `next`. -/
structure Plan.Reports (p : Plan) (st : Placement) (next : Nat) : Prop where
  nodes : p.nodes = st.nodes.map PlanNode.reported
  assignments : ∃ lease, p.assignments = (issueTokens next st.assigned).1.map (toAssignment lease)
  unassigned : p.unassigned = st.unplaced.map toUnassigned
  migrations : p.migrations = (sortedById st.records).filterMap toMigration
  revoked : p.revoked = (sortedById st.records).filterMap toRevocation

def firstToken (previous : RawPrevious) : Nat := max (normalizePrevious previous).nextToken 1

theorem planAssignments_computes {input : PlanInput} {previous : RawPrevious} {p : Plan}
    (h : planAssignments input previous = .ok p) :
    ∃ nowMs, input.now = some nowMs ∧
      p.Reports (input.placement previous nowMs) (firstToken previous) := by
  obtain ⟨installationId, config, now, nodeStates, nodes, workloads⟩ := input
  cases now with
  | none => simp [planAssignments, bind, Except.bind, throw, throwThe, MonadExceptOf.throw] at h
  | some nowMs =>
    simp only [planAssignments, bind, Except.bind, pure, Except.pure] at h
    split at h
    · cases h
    · next lease _ =>
      split at h
      · cases h
      · cases h
        exact ⟨nowMs, rfl, rfl, ⟨lease, rfl⟩, rfl, rfl, rfl⟩

theorem planAssignments_returns (input : PlanInput) (previous : RawPrevious) :
    (∃ p, planAssignments input previous = .ok p) ↔
      ∃ nowMs lease generated, input.now = some nowMs ∧
        toISOString (plus nowMs (fl ((resolveSchedulerConfig input.config).leaseTtlSeconds * 1000))) =
          .ok lease ∧ toISOString nowMs = .ok generated := by
  obtain ⟨installationId, config, now, nodeStates, nodes, workloads⟩ := input
  cases now with
  | none => simp [planAssignments, bind, Except.bind, throw, throwThe, MonadExceptOf.throw]
  | some nowMs =>
    simp only [planAssignments, bind, Except.bind, pure, Except.pure, Option.some.injEq]
    cases hlease : toISOString (plus nowMs (fl ((resolveSchedulerConfig config).leaseTtlSeconds * 1000))) with
    | error e => simp [hlease]
    | ok lease =>
      cases hgenerated : toISOString nowMs with
      | error e => simp [hgenerated]
      | ok generated => simp [hlease, hgenerated]

theorem issueTokens_filter {α : Type} {keep : PlanRecord → Bool} {g : PlanRecord → α}
    (hkeep : ∀ r t, keep { r with token := t } = keep r) (hg : ∀ r t, g { r with token := t } = g r)
    (records : List PlanRecord) : ∀ (next : Nat),
    ((issueTokens next records).1.filter keep).map g = (records.filter keep).map g := by
  induction records with
  | nil => intro next; rfl
  | cons r rest ih =>
    intro next
    unfold issueTokens
    split
    · simp only [List.filter_cons, hkeep]
      split
      · rw [List.map_cons, List.map_cons, hg, ih next]
      · exact ih next
    · simp only [List.filter_cons, hkeep]
      split
      · rw [List.map_cons, List.map_cons, hg, ih (next + 1)]
      · exact ih (next + 1)

theorem issueTokens_map {α : Type} {g : PlanRecord → α} (hg : ∀ r t, g { r with token := t } = g r)
    (next : Nat) (records : List PlanRecord) :
    (issueTokens next records).1.map g = records.map g := by
  have hall := @issueTokens_filter α (fun _ => true) g (fun _ _ => rfl) hg records next
  rwa [List.filter_true, List.filter_true] at hall

section Reports

variable {p : Plan} {st : Placement} {next : Nat}

theorem mem_assigned {r : PlanRecord} : r ∈ st.assigned ↔ r ∈ st.records ∧ r.nodeId ≠ none := by
  rw [Placement.assigned, mem_sortedById, List.mem_filter, Option.isSome_iff_ne_none]

theorem mem_unplaced {r : PlanRecord} : r ∈ st.unplaced ↔ r ∈ st.records ∧ r.nodeId = none := by
  rw [Placement.unplaced, mem_sortedById, List.mem_filter, Option.isNone_iff_eq_none]

theorem Plan.Reports.assignment (h : p.Reports st next) {a : Assignment} (ha : a ∈ p.assignments) :
    ∃ r ∈ st.records, r.id = a.cameraId ∧ r.nodeId = some a.nodeId ∧ r.weight = a.weight ∧
      (r.previousNodeId = some a.nodeId → ∀ x, r.previousToken = some x → a.token = x) := by
  obtain ⟨lease, hassignments⟩ := h.assignments
  rw [hassignments, List.mem_map] at ha
  obtain ⟨issued, hissued, rfl⟩ := ha
  obtain ⟨r, hr, t, rfl, hcase⟩ := issueTokens_mem _ hissued
  obtain ⟨hmem, hat⟩ := mem_assigned.mp hr
  obtain ⟨m, hm⟩ := Option.ne_none_iff_exists'.mp hat
  refine ⟨r, hmem, rfl, ?_, rfl, ?_⟩
  · simp [toAssignment, hm]
  · intro hprev x hx
    have hsame : sameOwner r = true := by
      simp only [toAssignment, hm, Option.getD_some] at hprev
      simp [sameOwner, hprev, hm, hx]
    rcases hcase with ⟨-, ht⟩ | ⟨hnot, -⟩
    · rw [hx] at ht
      simp only [toAssignment, Option.getD_some]
      exact (Option.some.inj ht).symm
    · rw [hsame] at hnot
      cases hnot

theorem assigned_at (hnd : (st.records.map (·.id)).Nodup) (nodeId : String) :
    st.assigned.filter (fun r => r.nodeId.getD "" = nodeId ∧ r.nodeId.isSome) =
      sortedById (recordsAt st.records nodeId) := by
  have hperm := sortedById_perm (st.records.filter (·.nodeId.isSome))
  refine eq_insertionSort_compareIds PlanRecord.id ?_ ?_ ?_
  · refine (hperm.filter _).trans (List.Perm.of_eq ?_)
    rw [List.filter_filter, recordsAt]
    apply List.filter_congr
    intro r _
    cases r.nodeId <;> simp
  · have hassigned := (hperm.map (·.id)).nodup_iff.mpr
      (hnd.sublist (List.Sublist.map _ List.filter_sublist))
    exact hassigned.sublist (List.Sublist.map _ List.filter_sublist)
  · exact (sortedById_pairwise _).filter _

theorem Plan.Reports.assignmentsAt {α : Type} (h : p.Reports st next)
    (hnd : (st.records.map (·.id)).Nodup) (nodeId : String) {g : Assignment → α}
    (g' : PlanRecord → α) (hg : ∀ lease r, g (toAssignment lease r) = g' r)
    (hg' : ∀ r t, g' { r with token := t } = g' r) :
    (p.assignments.filter (·.nodeId = nodeId)).map g =
      (sortedById (recordsAt st.records nodeId)).map g' := by
  obtain ⟨lease, hassignments⟩ := h.assignments
  -- every record that takes a token is at a node
  have hsome : ∀ r ∈ (issueTokens next st.assigned).1, r.nodeId.isSome = true := by
    intro r hr
    obtain ⟨r₀, hr₀, _, rfl, -⟩ := issueTokens_mem _ hr
    exact Option.isSome_iff_ne_none.mpr (mem_assigned.mp hr₀).2
  calc (p.assignments.filter (·.nodeId = nodeId)).map g
      = ((issueTokens next st.assigned).1.filter
          (fun r => r.nodeId.getD "" = nodeId ∧ r.nodeId.isSome)).map g' := by
        rw [hassignments, List.filter_map, List.map_map]
        have hkeep : (issueTokens next st.assigned).1.filter
            ((fun a : Assignment => decide (a.nodeId = nodeId)) ∘ toAssignment lease) =
            (issueTokens next st.assigned).1.filter
              (fun r => r.nodeId.getD "" = nodeId ∧ r.nodeId.isSome) := by
          apply List.filter_congr
          intro r hr
          show decide (r.nodeId.getD "" = nodeId) = decide (r.nodeId.getD "" = nodeId ∧ _)
          rw [decide_eq_decide]
          exact ⟨fun heq => ⟨heq, hsome r hr⟩, And.left⟩
        rw [hkeep]
        exact List.map_congr_left (fun r _ => hg lease r)
    _ = (st.assigned.filter (fun r => r.nodeId.getD "" = nodeId ∧ r.nodeId.isSome)).map g' :=
        issueTokens_filter (fun _ _ => rfl) hg' st.assigned next
    _ = (sortedById (recordsAt st.records nodeId)).map g' := by rw [assigned_at hnd]

end Reports

/-! ## A sane plan -/

def Plan.workloadsOn (p : Plan) (nodeId : String) : List Workload :=
  (p.assignments.filter (·.nodeId = nodeId)).map (fun a => ⟨a.cameraId, a.weight⟩)

/-- What is promised of one plan. -/
structure Plan.Sane (input : PlanInput) (previous : RawPrevious) (p : Plan) : Prop where
  /-- Every distinct workload is in one of the two lists, with its weight. -/
  covered : (p.assignments.map (fun a => (a.cameraId, a.weight)) ++
    p.unassigned.map (fun u => (u.cameraId, u.weight))).Perm
      ((normalizeWorkloads input.workloads).map (fun w => (w.id, w.weight)))
  once : (p.assignments.map (·.cameraId) ++ p.unassigned.map (·.cameraId)).Nodup
  /-- The nodes are the registered ones, with their capacity and health. -/
  nodes : ∃ nowMs, input.now = some nowMs ∧
    p.nodes.map PlanNode.idle = (input.planNodes nowMs).map PlanNode.idle
  nodeIds : (p.nodes.map (·.id)).Nodup
  cameras : ∀ n ∈ p.nodes,
    n.cameras = (p.assignments.filter (·.nodeId = n.id)).map (·.cameraId)
  /-- A load is what the weights of the node's cameras add up to in doubles, less the weights
  of those that draining moved off it. -/
  load : ∀ n ∈ p.nodes, ∃ left, Laden n.load (p.workloadsOn n.id) left ∧
    (p.workloadsOn n.id ++ left).Subperm (normalizeWorkloads input.workloads) ∧
    (n.health ≠ .draining → left = []) ∧
    ∀ w ∈ left, ∃ m ∈ p.migrations, m.cameraId = w.id ∧ m.fromNode = n.id ∧ m.reason = .draining
  /-- With weights in steps of a power of two, and few enough, it is the sum. -/
  unrounded : ∀ e : ℤ, (∀ w ∈ normalizeWorkloads input.workloads, OnGrid e w.weight) →
    ((normalizeWorkloads input.workloads).map (·.weight)).sum < 2 ^ 53 * 2 ^ e →
    ∀ n ∈ p.nodes, n.load = ((p.workloadsOn n.id).map (·.weight)).sum
  fits : ∀ n ∈ p.nodes, n.load ≤ n.capacity
  alive : ∀ a ∈ p.assignments, ∃ n ∈ p.nodes, n.id = a.nodeId ∧ n.health ≠ .dead
  /-- On a draining node there is only what was there before. -/
  draining : ∀ a ∈ p.assignments, ∀ n ∈ p.nodes, n.id = a.nodeId → n.health = .draining →
    (JsMap.get? (normalizePrevious previous).byCamera a.cameraId).map (·.nodeId) = some n.id
  noRoom : ∀ u ∈ p.unassigned, ∀ n ∈ p.nodes, isPlaceable n = true → n.capacity < plus n.load u.weight

theorem Plan.Reports.mem_nodes {p : Plan} {st : Placement} {next : Nat} (h : p.Reports st next)
    {n : PlanNode} (hn : n ∈ p.nodes) : ∃ n₀ ∈ st.nodes, n = n₀.reported := by
  rw [h.nodes, List.mem_map] at hn
  obtain ⟨n₀, hn₀, rfl⟩ := hn
  exact ⟨n₀, hn₀, rfl⟩

theorem placement_records (input : PlanInput) (previous : RawPrevious) (nowMs : ℚ) :
    (input.placement previous nowMs).records.map PlanRecord.core =
      input.ordered.map (newRecord (normalizePrevious previous)) :=
  (placeAll_frame (normalizePrevious previous) (resolveSchedulerConfig input.config)
    (input.planNodes nowMs) input.ordered).records

theorem placement_workloads (input : PlanInput) (previous : RawPrevious) (nowMs : ℚ) :
    (input.placement previous nowMs).records.map PlanRecord.workload = input.ordered := by
  have hsame := congrArg (List.map PlanRecord.workload) (placement_records input previous nowMs)
  rw [List.map_map, List.map_map] at hsame
  exact hsame.trans (List.map_id _)

theorem Plan.Reports.workloadsOn_perm {p : Plan} {st : Placement} {next : Nat}
    (h : p.Reports st next) (hnd : (st.records.map (·.id)).Nodup) (nodeId : String) :
    (p.workloadsOn nodeId).Perm (workloadsAt st.records nodeId) := by
  rw [Plan.workloadsOn, h.assignmentsAt hnd nodeId PlanRecord.workload (fun _ _ => rfl)
    (fun _ _ => rfl)]
  exact (sortedById_perm _).map _

theorem Plan.Reports.load {input : PlanInput} {previous : RawPrevious} {p : Plan} {nowMs : ℚ}
    (h : p.Reports (input.placement previous nowMs) (firstToken previous)) {n : PlanNode}
    (hn : n ∈ p.nodes) : ∃ left, Laden n.load (p.workloadsOn n.id) left ∧
      (p.workloadsOn n.id ++ left).Subperm (normalizeWorkloads input.workloads) ∧
      (n.health ≠ .draining → left = []) ∧
      ∀ w ∈ left, ∃ m ∈ p.migrations, m.cameraId = w.id ∧ m.fromNode = n.id ∧
        m.reason = .draining := by
  have hdrained : (input.placement previous nowMs).Draining (input.planNodes nowMs) :=
    placeAll_draining _ _ (ready input nowMs)
  obtain ⟨n₀, hn₀, rfl⟩ := h.mem_nodes hn
  obtain ⟨left, hladen, hsub, hwhole, hmoved⟩ := hdrained.laden hn₀
  have hperm := h.workloadsOn_perm hdrained.balanced.recordIds n₀.id
  refine ⟨left, hladen.perm hperm.symm, ?_, hwhole, fun w hw => ?_⟩
  · rw [placement_workloads] at hsub
    exact (hperm.append_right left).subperm.trans (hsub.trans (orderWorkloads_perm _).subperm)
  · obtain ⟨r, hr, rfl, hreason, hprev, hsome⟩ := hmoved w hw
    obtain ⟨m, hm⟩ := Option.ne_none_iff_exists'.mp hsome
    have hne : m ≠ n₀.id := fun heq =>
      (hdrained.moved r hr hreason).1 (hm.trans (heq ▸ hprev.symm))
    refine ⟨⟨r.id, n₀.id, m, .draining⟩, ?_, rfl, rfl, rfl⟩
    rw [h.migrations, List.mem_filterMap]
    exact ⟨r, mem_sortedById.mpr hr, by simp [toMigration, hprev, hm, hne, hreason]⟩

theorem Plan.Reports.unrounded {input : PlanInput} {previous : RawPrevious} {p : Plan} {nowMs : ℚ}
    (h : p.Reports (input.placement previous nowMs) (firstToken previous)) {e : ℤ}
    (hgrid : ∀ w ∈ normalizeWorkloads input.workloads, OnGrid e w.weight)
    (hlt : ((normalizeWorkloads input.workloads).map (·.weight)).sum < 2 ^ 53 * 2 ^ e)
    {n : PlanNode} (hn : n ∈ p.nodes) : n.load = ((p.workloadsOn n.id).map (·.weight)).sum := by
  obtain ⟨left, hladen, hsub, -⟩ := h.load hn
  have hpos : ∀ w ∈ normalizeWorkloads input.workloads, 0 < w.weight := fun w hw =>
    (ready input nowMs).positive w ((orderWorkloads_perm _).mem_iff.mpr hw)
  refine hladen.eq_sum (fun w hw => hgrid w (hsub.subset hw)) (fun w hw => hpos w (hsub.subset hw))
    (lt_of_le_of_lt ?_ hlt)
  obtain ⟨part, hperm, hpart⟩ := hsub
  rw [← (hperm.map Workload.weight).sum_eq]
  exact (hpart.map Workload.weight).sum_le_sum
    (List.forall_mem_map.mpr fun w hw => (hpos w hw).le)

theorem Plan.Reports.sane {input : PlanInput} {previous : RawPrevious} {p : Plan} {nowMs : ℚ}
    (hnow : input.now = some nowMs)
    (hreports : p.Reports (input.placement previous nowMs) (firstToken previous)) :
    p.Sane input previous := by
  have hready := ready input nowMs
  have hdrained : (input.placement previous nowMs).Draining (input.planNodes nowMs) :=
    placeAll_draining _ _ hready
  have hb := hdrained.balanced
  have hcores := placement_records input previous nowMs
  set st := input.placement previous nowMs with hst
  have hids : (st.assigned ++ st.unplaced).Perm st.records :=
    ((sortedById_perm _).append (sortedById_perm _)).trans (by
      have hsplit := List.filter_append_perm (fun r : PlanRecord => r.nodeId.isSome) st.records
      have hneg : st.records.filter (fun r => !r.nodeId.isSome) =
          st.records.filter (·.nodeId.isNone) :=
        List.filter_congr (fun r _ => by cases r.nodeId <;> rfl)
      rwa [hneg] at hsplit)
  obtain ⟨lease, hassignments⟩ := hreports.assignments
  have hlists {α : Type} (g : Assignment → α) (u : Unassigned → α) (g' : PlanRecord → α)
      (hg : ∀ lease r, g (toAssignment lease r) = g' r) (hu : ∀ r, u (toUnassigned r) = g' r)
      (hg' : ∀ r t, g' { r with token := t } = g' r) :
      (p.assignments.map g ++ p.unassigned.map u).Perm (st.records.map g') := by
    rw [hassignments, hreports.unassigned, List.map_map, List.map_map]
    have hleft : (issueTokens (firstToken previous) st.assigned).1.map (g ∘ toAssignment lease) =
        st.assigned.map g' := by
      rw [← issueTokens_map hg' (firstToken previous) st.assigned]
      exact List.map_congr_left (fun r _ => hg lease r)
    have hright : st.unplaced.map (u ∘ toUnassigned) = st.unplaced.map g' :=
      List.map_congr_left (fun r _ => hu r)
    rw [hleft, hright, ← List.map_append]
    exact hids.map g'
  refine ⟨?_, ?_, ⟨nowMs, hnow, ?_⟩, ?_, ?_, fun n hn => hreports.load hn,
    fun e hgrid hlt n hn => hreports.unrounded hgrid hlt hn, ?_, ?_, ?_, ?_⟩
  · -- one record a workload, with its weight
    refine (hlists _ _ (fun r => (r.id, r.weight)) (fun _ _ => rfl) (fun _ => rfl)
      (fun _ _ => rfl)).trans ?_
    have hpairs := congrArg (List.map (fun r : PlanRecord => (r.id, r.weight))) hcores
    rw [List.map_map, List.map_map] at hpairs
    refine (List.Perm.of_eq hpairs).trans ?_
    exact (orderWorkloads_perm (normalizeWorkloads input.workloads)).map _
  · exact (hlists _ _ (·.id) (fun _ _ => rfl) (fun _ => rfl)
      (fun _ _ => rfl)).nodup_iff.mpr hb.recordIds
  · rw [hreports.nodes, List.map_map]
    exact hb.same
  · rw [hreports.nodes, List.map_map]
    exact hb.nodeIds
  · intro n hn
    obtain ⟨n₀, hn₀, rfl⟩ := hreports.mem_nodes hn
    rw [hreports.assignmentsAt hb.recordIds n₀.reported.id (·.id) (fun _ _ => rfl)
      (fun _ _ => rfl)]
    symm
    refine eq_insertionSort_compareIds (fun c : String => c) ?_ ?_ ?_
    · exact ((sortedById_perm _).map _).trans (hb.cameras n₀ hn₀).symm
    · rw [List.map_id']
      have hat := hb.recordIds.sublist
        ((List.filter_sublist (p := fun r : PlanRecord => r.nodeId = some n₀.id)).map (·.id))
      exact ((sortedById_perm _).map (·.id)).nodup_iff.mpr hat
    · exact List.pairwise_map.mpr (sortedById_pairwise _)
  · intro n hn
    obtain ⟨n₀, hn₀, rfl⟩ := hreports.mem_nodes hn
    exact hb.fits n₀ hn₀
  · intro a ha
    obtain ⟨r, hr, -, hat, -⟩ := hreports.assignment ha
    obtain ⟨n, hn, hid, hold⟩ := hb.hosted r hr a.nodeId hat
    refine ⟨n.reported, hreports.nodes ▸ List.mem_map_of_mem hn, hid, fun hdead => ?_⟩
    have hdead' : n.health = .dead := hdead
    rcases hold with hplaceable | ⟨hdraining, -⟩
    · simp [isPlaceable, hdead'] at hplaceable
    · rw [hdead'] at hdraining
      cases hdraining
  · intro a ha n hn hid hdraining
    obtain ⟨n₀, hn₀, rfl⟩ := hreports.mem_nodes hn
    obtain ⟨r, hr, hcam, hat, -⟩ := hreports.assignment ha
    obtain ⟨w, -, -, hprev, -⟩ := record_of_frame (placeAll_frame (normalizePrevious previous)
      (resolveSchedulerConfig input.config) (input.planNodes nowMs) input.ordered) hr
    rw [← hcam, ← hprev]
    exact hb.previous_of_draining hn₀ hdraining hr (hat.trans (congrArg some hid.symm))
  · intro u hu n hn hplaceable
    obtain ⟨n₀, hn₀, rfl⟩ := hreports.mem_nodes hn
    rw [hreports.unassigned, List.mem_map] at hu
    obtain ⟨r, hr, rfl⟩ := hu
    obtain ⟨hmem, hnone⟩ := mem_unplaced.mp hr
    exact placeAll_full _ _ hready hmem hnone n₀ hn₀ hplaceable

/-- **A plan is sane.** -/
theorem planAssignments_sane {input : PlanInput} {previous : RawPrevious} {p : Plan}
    (h : planAssignments input previous = .ok p) : p.Sane input previous := by
  obtain ⟨nowMs, hnow, hreports⟩ := planAssignments_computes h
  exact hreports.sane hnow

/-- A dead node, a draining one that is over its capacity and one that never
reported, under a previous plan with a stale and a repeated entry. -/
def shrunkFleet : PlanInput where
  now := some 1000
  nodeStates := [("a", { down := true }), ("b", { status := some "draining" })]
  nodes := [some { id := some "a" }, some { id := some "b", capacity := some (.number 2) },
    some { id := some "c", capacity := some (.number (3 / 2)) }]
  workloads := [.bare (some "cam-1"), .object (some "cam-2") none (some 2), .bare (some "cam-3"),
    .bare (some " cam-1 ")]

def shrunkPrevious : RawPrevious :=
  .list [{ cameraId := some "cam-1", nodeId := some "a", token := some 3 },
    { cameraId := some "cam-2", nodeId := some "gone", token := some 4 },
    { cameraId := some "cam-2", nodeId := some "b", token := some 5 },
    { cameraId := none, nodeId := some "b" }, { cameraId := some "cam-9", nodeId := some "c" }]

theorem planAssignments_sane_shrunk : ∃ p, planAssignments shrunkFleet shrunkPrevious = .ok p ∧
    p.Sane shrunkFleet shrunkPrevious := by
  have hreturns : (planAssignments shrunkFleet shrunkPrevious).isOk = true := by decide +kernel
  cases hp : planAssignments shrunkFleet shrunkPrevious with
  | error e => rw [hp] at hreturns; cases hreturns
  | ok p => exact ⟨p, rfl, planAssignments_sane hp⟩

/-- Two cameras of 1.2 and 1 on a node that never reported. -/
def roundedFleet : PlanInput where
  now := some 1000
  nodes := [some { id := some "a" }]
  workloads := [.object (some "cam-1") none (some (fl (12 / 10))), .bare (some "cam-2")]

/-- A node that never reported takes cameras, and the load it reports is not their sum. -/
theorem unknown_node_takes_cameras : ∃ p, planAssignments roundedFleet .absent = .ok p ∧
    ∃ n ∈ p.nodes, n.health = .unknown ∧ p.workloadsOn n.id ≠ [] ∧
      n.load ≠ ((p.workloadsOn n.id).map (·.weight)).sum := by
  have hplaced : (planAssignments roundedFleet .absent).toOption.any (fun p =>
      p.nodes.any (fun n => n.health = .unknown ∧ p.workloadsOn n.id ≠ [] ∧
        n.load ≠ ((p.workloadsOn n.id).map (·.weight)).sum)) = true := by
    decide +kernel
  cases hp : planAssignments roundedFleet .absent with
  | error e => rw [hp] at hplaced; cases hplaced
  | ok p =>
    simp only [hp, Except.toOption, Option.any_some, List.any_eq_true, decide_eq_true_eq] at hplaced
    exact ⟨p, rfl, hplaced⟩

end Drac.Central
