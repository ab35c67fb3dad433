import Drac.Lib.FencingTokens
import Drac.Lib.KeyedList
import Drac.Central.Scheduler

/-
  One planning, seen as a reassignment of fencing tokens.

  The placement phases (retention, placement, draining) decide each record's node
  and nothing else (`placeAll_frame`), so what the token phase compares is exactly
  the previous assignment and the node chosen. `planAssignments_issue`: a planning
  from a plan issues the table of the new plan from the table of the previous one,
  in the sense of `FencingTokens.Issue`, and its result is again well formed.
-/

namespace Drac.Central

open JsText FencingTokens

/-! ## What placement leaves alone -/

def PlanRecord.core (r : PlanRecord) : PlanRecord := { r with nodeId := none, reason := none }

theorem core_updateRecord (records : List PlanRecord) (id : String) (f : PlanRecord → PlanRecord)
    (hf : ∀ r, (f r).core = r.core) :
    (updateRecord records id f).map PlanRecord.core = records.map PlanRecord.core :=
  KeyedList.map_update PlanRecord.id hf records

theorem updateNode_ids (nodes : List PlanNode) (id : String) (f : PlanNode → PlanNode)
    (hf : ∀ n, (f n).id = n.id) : (updateNode nodes id f).map (·.id) = nodes.map (·.id) :=
  KeyedList.map_update PlanNode.id hf nodes

/-- The node ids and the records' cores of a planning under way, every placed
record being at one of the nodes. -/
structure Placement.Frame (ids : List String) (cores : List PlanRecord) (st : Placement) :
    Prop where
  nodes : st.nodes.map (·.id) = ids
  records : st.records.map PlanRecord.core = cores
  placed : ∀ r ∈ st.records, ∀ n, r.nodeId = some n → n ∈ ids

namespace Placement.Frame

variable {ids : List String} {cores : List PlanRecord} {st : Placement}

theorem place (h : Frame ids cores st) {nodeId : String} (hn : nodeId ∈ ids)
    (record : PlanRecord) : Frame ids cores (Central.place st nodeId record) where
  nodes := by
    have hids := updateNode_ids st.nodes nodeId (·.add record) (fun _ => rfl)
    exact hids.trans h.nodes
  records := by
    have hcores := core_updateRecord st.records record.id
      (fun r => { r with nodeId := some nodeId }) (fun _ => rfl)
    exact hcores.trans h.records
  placed := by
    intro r hr n hrn
    simp only [Central.place, updateRecord, List.mem_map] at hr
    obtain ⟨r₀, hr₀, rfl⟩ := hr
    split at hrn
    · simp only [Option.some.injEq] at hrn
      exact hrn ▸ hn
    · exact h.placed r₀ hr₀ n hrn

theorem release (h : Frame ids cores st) (nodeId : String) (record : PlanRecord) :
    Frame ids cores (Central.release st nodeId record) where
  nodes := by
    have hids := updateNode_ids st.nodes nodeId (·.remove record) (fun _ => rfl)
    exact hids.trans h.nodes
  records := by
    have hcores := core_updateRecord st.records record.id
      (fun r => { r with nodeId := none }) (fun _ => rfl)
    exact hcores.trans h.records
  placed := by
    intro r hr n hrn
    simp only [Central.release, updateRecord, List.mem_map] at hr
    obtain ⟨r₀, hr₀, rfl⟩ := hr
    split at hrn
    · simp at hrn
    · exact h.placed r₀ hr₀ n hrn

theorem setReason (h : Frame ids cores st) (id : String) (reason : Reason) :
    Frame ids cores { st with
      records := updateRecord st.records id (fun r => { r with reason := some reason }) } where
  nodes := h.nodes
  records := by
    have hcores := core_updateRecord st.records id (fun r => { r with reason := some reason })
      (fun _ => rfl)
    exact hcores.trans h.records
  placed := by
    intro r hr n hrn
    simp only [updateRecord, List.mem_map] at hr
    obtain ⟨r₀, hr₀, rfl⟩ := hr
    split at hrn <;> exact h.placed r₀ hr₀ n hrn

theorem append (h : Frame ids cores st) (record : PlanRecord) (hr : record.nodeId = none)
    (waiting : List PlanRecord) :
    Frame ids (cores ++ [record.core])
      { st with records := st.records ++ [record], deferred := waiting } where
  nodes := h.nodes
  records := by simp [h.records]
  placed := by
    intro r hr' n hrn
    rcases List.mem_append.mp hr' with hr' | hr'
    · exact h.placed r hr' n hrn
    · obtain rfl := List.mem_singleton.mp hr'
      rw [hr] at hrn
      cases hrn

end Placement.Frame

variable {weight : ℚ} {node : PlanNode}

theorem betterTarget_cases {best : Option (PlanNode × ℚ)}
    {b : PlanNode × ℚ} (h : betterTarget weight best node = some b) :
    best = some b ∨ b.1 = node := by
  simp only [betterTarget] at h
  split at h
  · exact .inl h
  · split at h
    · exact .inl h
    · split at h
      · cases h
        exact .inr rfl
      · split at h
        · cases h
          exact .inr rfl
        · exact .inl h

theorem foldl_betterTarget_mem (nodes : List PlanNode) :
    ∀ {best : Option (PlanNode × ℚ)} {b : PlanNode × ℚ},
    nodes.foldl (betterTarget weight) best = some b → best = some b ∨ b.1 ∈ nodes := by
  induction nodes with
  | nil => intro best b h; exact .inl h
  | cons node rest ih =>
    intro best b h
    rcases ih h with hbest | hrest
    · rcases betterTarget_cases hbest with hkept | hnew
      · exact .inl hkept
      · exact .inr (hnew ▸ List.mem_cons_self)
    · exact .inr (List.mem_cons_of_mem _ hrest)

variable {nodes : List PlanNode}

theorem pickTarget_mem {target : PlanNode}
    (h : pickTarget nodes weight = some target) : target ∈ nodes := by
  simp only [pickTarget, Option.map_eq_some_iff] at h
  obtain ⟨b, hfold, rfl⟩ := h
  rcases foldl_betterTarget_mem nodes hfold with hnone | hmem
  · cases hnone
  · exact hmem

theorem findNode_mem {id : String}
    (h : findNode nodes id = some node) : node ∈ nodes := List.mem_of_find?_eq_some h

section Phases

variable {ids : List String} {cores : List PlanRecord} {st : Placement} (previous : Previous)
  (config : SchedulerConfig)

theorem node_id_mem (h : st.Frame ids cores) (hn : node ∈ st.nodes) :
    node.id ∈ ids := h.nodes ▸ List.mem_map_of_mem hn

theorem retainOne_frame (h : st.Frame ids cores) (workload : Workload) :
    (retainOne previous st workload).Frame ids (cores ++ [newRecord previous workload]) := by
  have hwait (reason : Reason) := h.append { newRecord previous workload with
    reason := some reason } rfl (st.deferred ++ [{ newRecord previous workload with
    reason := some reason }])
  simp only [retainOne]
  split
  · exact hwait .new
  · split
    · exact hwait .nodeRemoved
    · next node hfind =>
      split
      · exact hwait .nodeDead
      · split
        · exact hwait .capacity
        · have hstay := h.append (newRecord previous workload) rfl st.deferred
          exact hstay.place (node_id_mem h (findNode_mem hfind)) _

theorem retain_frame (workloads : List Workload) : ∀ {cores : List PlanRecord} {st : Placement},
    st.Frame ids cores →
    (workloads.foldl (retainOne previous) st).Frame ids (cores ++ workloads.map (newRecord previous)) := by
  induction workloads with
  | nil => intro cores st h; simpa using h
  | cons w rest ih =>
    intro cores st h
    simpa using ih (retainOne_frame previous h w)

theorem deferredOne_frame (h : st.Frame ids cores) (record : PlanRecord) :
    (deferredOne st record).Frame ids cores := by
  unfold deferredOne
  split
  · exact h
  · next target ht => exact h.place (node_id_mem h (pickTarget_mem ht)) record

theorem drainCameras_frame (nodeId : String) (cameras : List String) :
    ∀ (moved : Nat) {st : Placement}, st.Frame ids cores →
    (drainCameras config nodeId cameras moved st).Frame ids cores := by
  induction cameras with
  | nil => intro moved st h; exact h
  | cons cameraId rest ih =>
    intro moved st h
    unfold drainCameras
    split
    · exact h
    · split
      · exact ih moved h
      · next record _ =>
        split
        · exact ih moved h
        · next target ht =>
          have hplaced := (h.release nodeId record).place (node_id_mem h (pickTarget_mem ht)) record
          exact ih (moved + 1) (hplaced.setReason record.id .draining)

theorem drainNode_frame (h : st.Frame ids cores) (nodeId : String) :
    (drainNode config st nodeId).Frame ids cores := by
  unfold drainNode
  split
  · exact h
  · split
    · exact h
    · exact drainCameras_frame config nodeId _ 0 h

/-- **Placement decides nodes and nothing else.** After the three phases there is
one record for each workload, in order, as it was read from the previous
assignment, and each is at a node of the planning or at none. -/
theorem placeAll_frame (nodes : List PlanNode) (workloads : List Workload) :
    (placeAll config previous nodes workloads).Frame (nodes.map (·.id))
      (workloads.map (newRecord previous)) := by
  have hstart : (⟨nodes, [], []⟩ : Placement).Frame (nodes.map (·.id)) [] :=
    ⟨rfl, rfl, by simp⟩
  have hretained := retain_frame previous workloads hstart
  rw [List.nil_append] at hretained
  have hplaced := List.foldlRecOn (workloads.foldl (retainOne previous) ⟨nodes, [], []⟩).deferred
    deferredOne hretained (fun _ h r _ => deferredOne_frame h r)
  exact List.foldlRecOn _ (drainNode config) hplaced (fun _ h id _ => drainNode_frame config h id)

end Phases

/-! ## The token phase -/

theorem issueTokens_le (records : List PlanRecord) : ∀ (next : Nat),
    next ≤ (issueTokens next records).2 := by
  induction records with
  | nil => intro next; exact Nat.le_refl next
  | cons r rest ih =>
    intro next
    unfold issueTokens
    split
    · exact ih next
    · exact Nat.le_trans (Nat.le_succ next) (ih (next + 1))

theorem issueTokens_ids (records : List PlanRecord) : ∀ (next : Nat),
    (issueTokens next records).1.map (·.id) = records.map (·.id) := by
  induction records with
  | nil => intro next; rfl
  | cons r rest ih =>
    intro next
    unfold issueTokens
    split <;> simp [ih]

/-- What the token phase does to a record: its own token back where the owner is
the same, and one of the tokens given out here otherwise. -/
theorem issueTokens_mem {issued : PlanRecord} (records : List PlanRecord) : ∀ {next : Nat},
    issued ∈ (issueTokens next records).1 →
    ∃ r ∈ records, ∃ x, issued = { r with token := some x } ∧
      ((sameOwner r = true ∧ r.previousToken = some x) ∨
        (sameOwner r = false ∧ next ≤ x ∧ x < (issueTokens next records).2)) := by
  induction records with
  | nil => intro next h; simp [issueTokens] at h
  | cons r rest ih =>
    intro next h
    unfold issueTokens at h ⊢
    cases hsame : sameOwner r with
    | true =>
      simp only [hsame, if_true, List.mem_cons] at h ⊢
      rcases h with rfl | h
      · have hsome : r.previousToken.isSome = true := by
          simp only [sameOwner, Bool.and_eq_true] at hsame
          exact hsame.2
        obtain ⟨x, hx⟩ := Option.isSome_iff_exists.mp hsome
        exact ⟨r, .inl rfl, x, by rw [hx], .inl ⟨hsame, hx⟩⟩
      · obtain ⟨r', hr', x, hx, hcase⟩ := ih h
        exact ⟨r', .inr hr', x, hx, hcase⟩
    | false =>
      simp only [hsame, Bool.false_eq_true, if_false, List.mem_cons] at h ⊢
      rcases h with rfl | h
      · exact ⟨r, .inl rfl, next, rfl, .inr ⟨hsame, Nat.le_refl _, issueTokens_le rest (next + 1)⟩⟩
      · obtain ⟨r', hr', x, hx, hcase⟩ := ih h
        refine ⟨r', .inr hr', x, hx, ?_⟩
        rcases hcase with hkept | ⟨hfresh, hge, hlt⟩
        · exact .inl hkept
        · exact .inr ⟨hfresh, by omega, hlt⟩

theorem issueTokens_inj {a b : PlanRecord} {x : Nat} (records : List PlanRecord) :
    ∀ {next : Nat}, a ∈ (issueTokens next records).1 → b ∈ (issueTokens next records).1 →
    sameOwner a = false → sameOwner b = false → a.token = some x → b.token = some x →
    a.id = b.id := by
  induction records with
  | nil => intro next h; simp [issueTokens] at h
  | cons r rest ih =>
    intro next ha hb hao hbo hax hbx
    unfold issueTokens at ha hb
    -- a token given out further on is not the one given out at the head
    have hlater {c : PlanRecord} (hc : c ∈ (issueTokens (next + 1) rest).1)
        (hco : sameOwner c = false) : c.token ≠ some next := by
      obtain ⟨r', -, y, rfl, hcase⟩ := issueTokens_mem rest hc
      rcases hcase with ⟨hsame, -⟩ | ⟨-, hge, -⟩
      · exact absurd (hsame.symm.trans hco) (by decide)
      · simp only [ne_eq, Option.some.injEq]
        omega
    cases hsame : sameOwner r with
    | true =>
      simp only [hsame, if_true, List.mem_cons] at ha hb
      have hnot {c : PlanRecord} (hco : sameOwner c = false)
          (hc : c = { r with token := r.previousToken }) : False := by
        subst hc
        exact absurd (hsame.symm.trans hco) (by decide)
      rcases ha with ha | ha
      · exact (hnot hao ha).elim
      · rcases hb with hb | hb
        · exact (hnot hbo hb).elim
        · exact ih ha hb hao hbo hax hbx
    | false =>
      simp only [hsame, Bool.false_eq_true, if_false, List.mem_cons] at ha hb
      rcases ha with rfl | ha
      · rcases hb with rfl | hb
        · rfl
        · exact absurd (hbx.trans hax.symm) (hlater hb hbo)
      · rcases hb with rfl | hb
        · exact absurd (hax.trans hbx.symm) (hlater ha hao)
        · exact ih ha hb hao hbo hax hbx

/-! ## What is planned -/

/-- An id as the planner reads it: trimmed and not empty. -/
def CleanId (id : String) : Prop := Trimmed id ∧ id ≠ ""

/-- In the map under construction every workload is under its own id. -/
def OwnIds (byId : List (String × Workload)) : Prop :=
  (JsMap.keys byId).Nodup ∧ ∀ e ∈ byId, e.1 = e.2.id ∧ CleanId e.2.id

theorem readWorkload_own {byId : List (String × Workload)} (h : OwnIds byId) (raw : RawWorkload) :
    OwnIds (readWorkload byId raw) := by
  unfold readWorkload
  simp only
  split
  · exact h
  · next hne =>
    refine ⟨JsMap.keys_nodup_set h.1 _ _, ?_⟩
    intro e he
    rcases JsMap.mem_set he with rfl | he
    · refine ⟨rfl, ?_, hne⟩
      cases raw <;> exact trim_trimmed _
    · exact h.2 e he

theorem normalizeWorkloads_clean (input : List RawWorkload) :
    ((normalizeWorkloads input).map (·.id)).Nodup ∧
      ∀ w ∈ normalizeWorkloads input, CleanId w.id := by
  have hstart : OwnIds [] := ⟨by simp [JsMap.keys], by simp⟩
  have hown : OwnIds (input.foldl readWorkload []) :=
    List.foldlRecOn input readWorkload hstart (fun _ h raw _ => readWorkload_own h raw)
  constructor
  · have hkeys : (normalizeWorkloads input).map (·.id) =
        JsMap.keys (input.foldl readWorkload []) := by
      simp only [normalizeWorkloads, JsMap.values, JsMap.keys, List.map_map]
      exact List.map_congr_left (fun e he => (hown.2 e he).1.symm)
    rw [hkeys]
    exact hown.1
  · intro w hw
    simp only [normalizeWorkloads, JsMap.values, List.mem_map] at hw
    obtain ⟨e, he, rfl⟩ := hw
    exact (hown.2 e he).2

theorem addNode_clean {config : SchedulerConfig} {states : List (String × NodeState)} {nowMs : ℚ}
    {raw : ComputeNode} (hraw : Trimmed raw.id)
    (h : ∀ n ∈ nodes, CleanId n.id) : ∀ n ∈ addNode config states nowMs nodes raw, CleanId n.id := by
  intro n hn
  unfold addNode at hn
  split at hn
  · exact h n hn
  · next hnot =>
    rcases List.mem_append.mp hn with hn | hn
    · exact h n hn
    · obtain rfl := List.mem_singleton.mp hn
      exact ⟨hraw, fun he => hnot (.inl he)⟩

theorem foldl_addNode_clean {config : SchedulerConfig} {states : List (String × NodeState)}
    {nowMs : ℚ} (sorted : List ComputeNode) : ∀ {nodes : List PlanNode},
    (∀ raw ∈ sorted, Trimmed raw.id) → (∀ n ∈ nodes, CleanId n.id) →
    ∀ n ∈ sorted.foldl (addNode config states nowMs) nodes, CleanId n.id := by
  induction sorted with
  | nil => intro nodes _ h; exact h
  | cons raw rest ih =>
    intro nodes hsorted h
    have hrest : ∀ r ∈ rest, Trimmed r.id := fun r hr => hsorted r (List.mem_cons_of_mem _ hr)
    exact ih hrest (addNode_clean (hsorted raw List.mem_cons_self) h)

theorem planNodes_clean (config : SchedulerConfig) (states : List (String × NodeState)) (nowMs : ℚ)
    (input : List (Option RawNode)) : ∀ n ∈ planNodes config states nowMs input, CleanId n.id := by
  refine foldl_addNode_clean _ ?_ (by simp)
  intro raw hraw
  rw [List.mem_insertionSort] at hraw
  simp only [normalizeComputeNodes, List.mem_filterMap, Option.map_eq_some_iff] at hraw
  obtain ⟨_, -, node, -, rfl⟩ := hraw
  exact trim_trimmed _

/-! ## The previous assignment and its table -/

/-- What a plan must be for the next one to be planned from it: its ids as the
planner reads them, one assignment a camera, its tokens positive, and all those it
mentions below its mark. Every plan `planAssignments` returns is (`planAssignments_issue`). -/
structure Plan.WellFormed (p : Plan) : Prop where
  cameras : (p.assignments.map (·.cameraId)).Nodup
  cleanCamera : ∀ a ∈ p.assignments, CleanId a.cameraId
  cleanNode : ∀ a ∈ p.assignments, CleanId a.nodeId
  token_pos : ∀ a ∈ p.assignments, 0 < a.token
  token_lt : ∀ a ∈ p.assignments, a.token < p.nextToken
  revoked_lt : ∀ e ∈ p.revoked, ∀ x, e.token = some x → x < p.nextToken

/-- A plan as a table of tokens: the node and token of each camera. -/
def Plan.table (p : Plan) : Table String String where
  holder c := (p.assignments.find? (fun a => a.cameraId = c)).map (fun a => (a.nodeId, a.token))
  next := p.nextToken

/-- The assignment read back holds what the table holds, whose tokens are positive
and below its mark. -/
structure Represents (prev : Previous) (t : Table String String) : Prop where
  lookup : ∀ c, JsMap.get? prev.byCamera c = (t.holder c).map (fun g => ⟨g.1, some g.2⟩)
  next_le : t.next ≤ prev.nextToken
  token_pos : ∀ c n x, t.holder c = some (n, x) → 0 < x
  token_lt : ∀ c n x, t.holder c = some (n, x) → x < t.next

theorem le_raiseNextToken (next : Nat) (byCamera : List (String × PreviousEntry)) :
    next ≤ raiseNextToken next byCamera := by
  unfold raiseNextToken
  refine List.foldlRecOn (motive := fun m => next ≤ m) _ _ (Nat.le_refl next) ?_
  intro m hm entry _
  split
  · split <;> omega
  · exact hm

theorem readAssignment_clean {a : Assignment} (hc : CleanId a.cameraId) (hn : CleanId a.nodeId)
    (ht : 0 < a.token) (byCamera : List (String × PreviousEntry)) :
    readAssignment byCamera
        { cameraId := some a.cameraId, nodeId := some a.nodeId, token := some a.token } =
      JsMap.set byCamera a.cameraId ⟨a.nodeId, some a.token⟩ := by
  have hcamera : trim a.cameraId = a.cameraId := hc.1
  have hnode : trim a.nodeId = a.nodeId := hn.1
  simp [readAssignment, hcamera, hnode, hc.2, hn.2, positive, Option.filter_some, ht]

theorem foldl_readAssignment (assignments : List Assignment) :
    ∀ (byCamera : List (String × PreviousEntry)), (∀ a ∈ assignments, CleanId a.cameraId) →
    (∀ a ∈ assignments, CleanId a.nodeId) → (∀ a ∈ assignments, 0 < a.token) →
    (assignments.map (fun a => ({ cameraId := some a.cameraId
                                  nodeId := some a.nodeId
                                  token := some a.token } : RawAssignment))).foldl
        readAssignment byCamera =
      assignments.foldl (fun m a => JsMap.set m a.cameraId ⟨a.nodeId, some a.token⟩) byCamera := by
  induction assignments with
  | nil => intro byCamera _ _ _; rfl
  | cons a rest ih =>
    intro byCamera hc hn ht
    have ha := List.mem_cons_self (a := a) (l := rest)
    rw [List.map_cons, List.foldl_cons, List.foldl_cons,
      readAssignment_clean (hc a ha) (hn a ha) (ht a ha)]
    exact ih _ (fun b hb => hc b (List.mem_cons_of_mem _ hb))
      (fun b hb => hn b (List.mem_cons_of_mem _ hb)) (fun b hb => ht b (List.mem_cons_of_mem _ hb))

theorem represents_absent : Represents (normalizePrevious .absent) Table.empty :=
  ⟨fun _ => rfl, Nat.le_refl 0, by simp [Table.empty], by simp [Table.empty]⟩

variable {p : Plan}

theorem Plan.table_holder {c n : String} {x : Nat}
    (h : p.table.holder c = some (n, x)) :
    ∃ a ∈ p.assignments, a.cameraId = c ∧ a.nodeId = n ∧ a.token = x := by
  simp only [Plan.table, Option.map_eq_some_iff, Prod.mk.injEq] at h
  obtain ⟨a, hfind, hn, hx⟩ := h
  have hc := List.find?_some hfind
  simp only [decide_eq_true_eq] at hc
  exact ⟨a, List.mem_of_find?_eq_some hfind, hc, hn, hx⟩

theorem lookup_asPrevious (hcamera : ∀ a ∈ p.assignments, CleanId a.cameraId)
    (hnode : ∀ a ∈ p.assignments, CleanId a.nodeId) (htoken : ∀ a ∈ p.assignments, 0 < a.token)
    (hnd : (p.assignments.map (·.cameraId)).Nodup) (c : String) :
    JsMap.get? (normalizePrevious p.asPrevious).byCamera c =
      (p.assignments.find? (fun a => a.cameraId = c)).map (fun a => ⟨a.nodeId, some a.token⟩) := by
  simp only [Plan.asPrevious, normalizePrevious]
  rw [foldl_readAssignment p.assignments [] hcamera hnode htoken,
    JsMap.get?_foldl_set _ _ c p.assignments [] hnd]
  cases p.assignments.find? (fun a => a.cameraId = c) <;> rfl

theorem represents_asPrevious (h : p.WellFormed) :
    Represents (normalizePrevious p.asPrevious) p.table where
  lookup := by
    intro c
    rw [lookup_asPrevious h.cleanCamera h.cleanNode h.token_pos h.cameras]
    simp only [Plan.table]
    cases p.assignments.find? (fun a => a.cameraId = c) <;> rfl
  next_le := by
    simp only [Plan.asPrevious, normalizePrevious]
    refine Nat.le_trans ?_ (le_raiseNextToken _ _)
    rcases Nat.eq_zero_or_pos p.nextToken with hz | hpos
    · simp [Plan.table, hz]
    · simp [Plan.table, positive, Option.filter_some, hpos]
  token_pos := by
    intro c n x hg
    obtain ⟨a, ha, -, -, rfl⟩ := Plan.table_holder hg
    exact h.token_pos a ha
  token_lt := by
    intro c n x hg
    obtain ⟨a, ha, -, -, rfl⟩ := Plan.table_holder hg
    exact h.token_lt a ha

/-! ## One planning is one reassignment -/

theorem planAssignments_ok {input : PlanInput} {raw : RawPrevious} {q : Plan}
    (h : planAssignments input raw = .ok q) :
    ∃ (ids : List String) (workloads : List Workload) (placed : Placement) (lease : Int),
      (∀ n ∈ ids, CleanId n) ∧ (workloads.map (·.id)).Nodup ∧ (∀ w ∈ workloads, CleanId w.id) ∧
      placed.Frame ids (workloads.map (newRecord (normalizePrevious raw))) ∧
      q.assignments = (issueTokens (max (normalizePrevious raw).nextToken 1)
        (sortedById (placed.records.filter (·.nodeId.isSome)))).1.map (toAssignment lease) ∧
      q.nextToken = (issueTokens (max (normalizePrevious raw).nextToken 1)
        (sortedById (placed.records.filter (·.nodeId.isSome)))).2 ∧
      q.revoked = (sortedById placed.records).filterMap toRevocation := by
  obtain ⟨installationId, config, now, nodeStates, nodes, workloads⟩ := input
  cases now with
  | none => simp [planAssignments, bind, Except.bind, throw, throwThe, MonadExceptOf.throw] at h
  | some nowMs =>
    simp only [planAssignments, bind, Except.bind, pure, Except.pure] at h
    split at h
    · cases h
    · next lease _ =>
      split at h
      · cases h
      · cases h
        have hperm : (orderWorkloads (normalizeWorkloads workloads)).Perm
            (normalizeWorkloads workloads) := List.perm_insertionSort _ _
        obtain ⟨hnd, hclean⟩ := normalizeWorkloads_clean workloads
        have hframe := placeAll_frame (normalizePrevious raw) (resolveSchedulerConfig config)
          (planNodes (resolveSchedulerConfig config) (normalizeNodeStates nodeStates) nowMs nodes)
          (orderWorkloads (normalizeWorkloads workloads))
        refine ⟨_, _, _, lease, ?_, ?_, ?_, hframe, rfl, rfl, rfl⟩
        · intro id hid
          obtain ⟨n, hn, rfl⟩ := List.mem_map.mp hid
          exact planNodes_clean _ _ _ _ n hn
        · exact ((hperm.map (·.id)).nodup_iff).mpr hnd
        · exact fun w hw => hclean w (hperm.mem_iff.mp hw)

section Grants

variable {prev : Previous} {ids : List String} {workloads : List Workload} {placed : Placement}

theorem record_of_frame (hframe : placed.Frame ids (workloads.map (newRecord prev)))
    {r : PlanRecord} (hr : r ∈ placed.records) :
    ∃ w ∈ workloads, r.id = w.id ∧
      r.previousNodeId = (JsMap.get? prev.byCamera r.id).map (·.nodeId) ∧
      r.previousToken = (JsMap.get? prev.byCamera r.id).bind (·.token) := by
  have hcore : r.core ∈ workloads.map (newRecord prev) :=
    hframe.records ▸ List.mem_map_of_mem hr
  obtain ⟨w, hw, heq⟩ := List.mem_map.mp hcore
  have hid : w.id = r.id := congrArg PlanRecord.id heq
  have hnode : (newRecord prev w).previousNodeId = r.core.previousNodeId :=
    congrArg PlanRecord.previousNodeId heq
  have htoken : (newRecord prev w).previousToken = r.core.previousToken :=
    congrArg PlanRecord.previousToken heq
  refine ⟨w, hw, hid.symm, ?_, ?_⟩
  · show r.core.previousNodeId = _
    rw [← hnode, ← hid]
    rfl
  · show r.core.previousToken = _
    rw [← htoken, ← hid]
    rfl

theorem sameOwner_iff {r : PlanRecord} {n : String} (hn : r.nodeId = some n)
    (hnode : r.previousNodeId = (JsMap.get? prev.byCamera r.id).map (·.nodeId))
    (htoken : r.previousToken = (JsMap.get? prev.byCamera r.id).bind (·.token)) :
    sameOwner r = true ↔ ∃ x, JsMap.get? prev.byCamera r.id = some ⟨n, some x⟩ := by
  unfold sameOwner
  rw [hnode, htoken, hn]
  cases JsMap.get? prev.byCamera r.id with
  | none => simp
  | some e =>
    obtain ⟨m, token⟩ := e
    cases token with
    | none => simp
    | some x => simp

/-- An issued record is at a node of the planning under a token that is the one
the previous assignment has for that node, or else one given out here. -/
theorem issued_grant (hframe : placed.Frame ids (workloads.map (newRecord prev)))
    {next : Nat} {issued : PlanRecord}
    (h : issued ∈ (issueTokens next (sortedById (placed.records.filter (·.nodeId.isSome)))).1) :
    ∃ n x, issued.nodeId = some n ∧ n ∈ ids ∧ issued.token = some x ∧
      (∃ w ∈ workloads, issued.id = w.id) ∧
      (JsMap.get? prev.byCamera issued.id = some ⟨n, some x⟩ ∨
        (sameOwner issued = false ∧ (∀ y, JsMap.get? prev.byCamera issued.id ≠ some ⟨n, some y⟩) ∧
          next ≤ x ∧
          x < (issueTokens next (sortedById (placed.records.filter (·.nodeId.isSome)))).2)) := by
  obtain ⟨r, hr, x, rfl, hcase⟩ := issueTokens_mem _ h
  rw [sortedById, List.mem_insertionSort, List.mem_filter] at hr
  obtain ⟨hrec, hsome⟩ := hr
  obtain ⟨n, hn⟩ := Option.isSome_iff_exists.mp hsome
  obtain ⟨w, hw, hid, hnode, htoken⟩ := record_of_frame hframe hrec
  have hiff := sameOwner_iff hn hnode htoken
  refine ⟨n, x, hn, hframe.placed r hrec n hn, rfl, ⟨w, hw, hid⟩, ?_⟩
  rcases hcase with ⟨hsame, hx⟩ | ⟨hsame, hge, hlt⟩
  · left
    obtain ⟨y, hy⟩ := hiff.mp hsame
    rw [htoken, hy] at hx
    obtain rfl : y = x := by simpa using hx
    exact hy
  · right
    refine ⟨hsame, fun y hy => ?_, hge, hlt⟩
    exact absurd (hiff.mpr ⟨y, hy⟩) (by rw [hsame]; decide)

end Grants

/-- **One planning is one reassignment.** From a previous assignment that holds
what a table holds, the plan's table is issued from that table; and the plan is
well formed, so that the next planning can start from it. -/
theorem planAssignments_issue {input : PlanInput} {raw : RawPrevious} {q : Plan}
    {t : Table String String} (hrep : Represents (normalizePrevious raw) t)
    (h : planAssignments input raw = .ok q) : Issue t q.table ∧ q.WellFormed := by
  obtain ⟨ids, workloads, placed, lease, hids, hnd, hclean, hframe, hassign, hnext, hrevoked⟩ :=
    planAssignments_ok h
  set next := max (normalizePrevious raw).nextToken 1 with hmax
  set sorted := sortedById (placed.records.filter (·.nodeId.isSome)) with hsorted
  have hmark : t.next ≤ next := Nat.le_trans hrep.next_le (Nat.le_max_left _ _)
  have hlast : next ≤ q.nextToken := hnext ▸ issueTokens_le sorted next
  -- every assignment is an issued record
  have hissued : ∀ a ∈ q.assignments, ∃ r ∈ (issueTokens next sorted).1, a.cameraId = r.id ∧
      r.nodeId = some a.nodeId ∧ a.nodeId ∈ ids ∧ r.token = some a.token ∧
      (∃ w ∈ workloads, a.cameraId = w.id) ∧
      (t.holder a.cameraId = some (a.nodeId, a.token) ∨
        (sameOwner r = false ∧ (∀ y, t.holder a.cameraId ≠ some (a.nodeId, y)) ∧
          next ≤ a.token ∧ a.token < q.nextToken)) := by
    intro a ha
    rw [hassign] at ha
    obtain ⟨r, hr, rfl⟩ := List.mem_map.mp ha
    obtain ⟨n, x, hn, hmem, hx, hw, hcase⟩ := issued_grant hframe hr
    refine ⟨r, hr, rfl, ?_, ?_, ?_, hw, ?_⟩
    · simp [toAssignment, hn]
    · simpa [toAssignment, hn] using hmem
    · simp [toAssignment, hx]
    · simp only [toAssignment, hn, hx, Option.getD_some, hrep.lookup] at hcase ⊢
      rcases hcase with hkept | ⟨hsame, hnot, hge, hlt⟩
      · left
        simp only [Option.map_eq_some_iff, PreviousEntry.mk.injEq, Option.some.injEq] at hkept
        obtain ⟨g, hg, rfl, rfl⟩ := hkept
        exact hg
      · refine .inr ⟨hsame, fun y hy => hnot y ?_, hge, hnext ▸ hlt⟩
        simp [hy]
  constructor
  · refine ⟨Nat.le_trans hmark hlast, ?_, ?_⟩
    · intro c n x hg
      obtain ⟨a, ha, rfl, rfl, rfl⟩ := Plan.table_holder hg
      obtain ⟨r, -, -, -, -, -, -, hkept | ⟨-, hnot, hge, hlt⟩⟩ := hissued a ha
      · exact .inl hkept
      · exact .inr ⟨hnot, by omega, hlt⟩
    · intro c c' n n' x hg hg' hx
      obtain ⟨a, ha, rfl, rfl, rfl⟩ := Plan.table_holder hg
      obtain ⟨b, hb, rfl, rfl, hab⟩ := Plan.table_holder hg'
      obtain ⟨r, hr, hrid, -, -, hrx, -, hrk | ⟨hro, -⟩⟩ := hissued a ha
      · exact absurd (hrep.token_lt _ _ _ hrk) (by omega)
      obtain ⟨r', hr', hrid', -, -, hrx', -, hrk' | ⟨hro', -⟩⟩ := hissued b hb
      · exact absurd (hrep.token_lt _ _ _ hrk') (by omega)
      rw [hrid, hrid']
      exact issueTokens_inj sorted hr hr' hro hro' hrx (hab ▸ hrx')
  · refine ⟨?_, ?_, ?_, ?_, ?_, ?_⟩
    · -- the issued records are the placed ones, sorted, one for each workload
      have hcams : q.assignments.map (·.cameraId) = sorted.map (·.id) := by
        rw [hassign, List.map_map, ← issueTokens_ids sorted next]
        rfl
      have hrecs : (placed.records.map (·.id)) = workloads.map (·.id) := by
        have hcores := congrArg (List.map PlanRecord.id) hframe.records
        rw [List.map_map, List.map_map] at hcores
        exact hcores
      have hperm : sorted.Perm (placed.records.filter (·.nodeId.isSome)) :=
        List.perm_insertionSort _ _
      rw [hcams, (hperm.map (·.id)).nodup_iff]
      refine List.Nodup.sublist (List.filter_sublist.map _) ?_
      rw [hrecs]
      exact hnd
    · intro a ha
      obtain ⟨r, -, -, -, -, -, ⟨w, hw, hcam⟩, -⟩ := hissued a ha
      exact hcam ▸ hclean w hw
    · intro a ha
      obtain ⟨r, -, -, -, hmem, -⟩ := hissued a ha
      exact hids _ hmem
    · intro a ha
      obtain ⟨r, -, -, -, -, -, -, hkept | ⟨-, -, hge, -⟩⟩ := hissued a ha
      · exact hrep.token_pos _ _ _ hkept
      · omega
    · intro a ha
      obtain ⟨r, -, -, -, -, -, -, hkept | ⟨-, -, -, hlt⟩⟩ := hissued a ha
      · exact Nat.lt_of_lt_of_le (hrep.token_lt _ _ _ hkept) (Nat.le_trans hmark hlast)
      · exact hlt
    · intro e he x hx
      rw [hrevoked, List.mem_filterMap] at he
      obtain ⟨r, hr, hre⟩ := he
      rw [sortedById, List.mem_insertionSort] at hr
      obtain ⟨w, -, -, -, htoken⟩ := record_of_frame hframe hr
      have hprev : r.previousToken = some x := by
        unfold toRevocation at hre
        split at hre
        · split at hre
          · cases hre
            exact hx
          · cases hre
        · cases hre
      rw [htoken, hrep.lookup, Option.bind_map, Option.bind_eq_some_iff] at hprev
      obtain ⟨⟨n, y⟩, hg, hy⟩ := hprev
      obtain rfl : y = x := by simpa using hy
      exact Nat.lt_of_lt_of_le (hrep.token_lt _ _ _ hg) (Nat.le_trans hmark hlast)

end Drac.Central
