import Drac.Central.PlanSanity

/-
  The order of the input does not matter.

  Where ids are distinct, the nodes and the workloads are sorted into one order
  whatever order they came in (`planNodes_perm`, `orderWorkloads_perm_input`), and
  the previous assignment is only looked up (`SameReading`). So planning from
  permuted lists gives the same plan (`planAssignments_perm`).
-/

namespace Drac.Central

open JsText

/-! ## Nodes -/

theorem foldl_addNode_filter (config : SchedulerConfig) (states : List (String × NodeState))
    (nowMs : ℚ) (l : List ComputeNode) : ∀ nodes : List PlanNode,
    (l.filter (fun n => n.id ≠ "")).foldl (addNode config states nowMs) nodes =
      l.foldl (addNode config states nowMs) nodes := by
  induction l with
  | nil => intro nodes; rfl
  | cons raw rest ih =>
    intro nodes
    by_cases hid : raw.id = ""
    · have hskip : addNode config states nowMs nodes raw = nodes := by simp [addNode, hid]
      rw [List.filter_cons_of_neg (by simp [hid]), List.foldl_cons, hskip]
      exact ih nodes
    · rw [List.filter_cons_of_pos (by simp [hid]), List.foldl_cons, List.foldl_cons]
      exact ih _

/-- The ids of the registered nodes, without those that are empty. -/
def nodeIds (nodes : List (Option RawNode)) : List String :=
  ((normalizeComputeNodes nodes).map (·.id)).filter (· ≠ "")

theorem planNodes_perm (config : SchedulerConfig) (states : List (String × NodeState)) (nowMs : ℚ)
    {nodes nodes' : List (Option RawNode)} (hperm : nodes.Perm nodes') (hnd : (nodeIds nodes).Nodup) :
    planNodes config states nowMs nodes = planNodes config states nowMs nodes' := by
  have hlist : (normalizeComputeNodes nodes).Perm (normalizeComputeNodes nodes') := hperm.filterMap _
  have hnd' : (((normalizeComputeNodes nodes).filter (fun n => n.id ≠ "")).map (·.id)).Nodup := by
    rw [nodeIds, List.filter_map] at hnd
    exact hnd
  have hsorted (l : List ComputeNode) (h : (normalizeComputeNodes nodes).Perm l) :
      (l.insertionSort (fun a b => compareIds a.id b.id ≤ 0)).filter (fun n => n.id ≠ "") =
        ((normalizeComputeNodes nodes).filter (fun n => n.id ≠ "")).insertionSort
          (fun a b => compareIds a.id b.id ≤ 0) := by
    have hp := ((List.perm_insertionSort (fun a b : ComputeNode => compareIds a.id b.id ≤ 0) l).trans
      h.symm).filter (fun n => n.id ≠ "")
    exact eq_insertionSort_compareIds ComputeNode.id hp ((hp.map _).nodup_iff.mpr hnd')
      ((pairwise_compareIds ComputeNode.id l).filter _)
  have hkept := foldl_addNode_filter config states nowMs
    ((normalizeComputeNodes nodes).insertionSort (fun a b => compareIds a.id b.id ≤ 0)) []
  have hkept' := foldl_addNode_filter config states nowMs
    ((normalizeComputeNodes nodes').insertionSort (fun a b => compareIds a.id b.id ≤ 0)) []
  rw [hsorted _ (List.Perm.refl _)] at hkept
  rw [hsorted _ hlist] at hkept'
  exact hkept.symm.trans hkept'

/-! ## Workloads -/

/-- The ids of the workloads, without those that are empty. -/
def workloadIds (workloads : List RawWorkload) : List String :=
  (workloads.map (·.read.id)).filter (· ≠ "")

def workloadEntry (raw : RawWorkload) : Option (String × Workload) :=
  if raw.read.id = "" then none else some (raw.read.id, raw.read)

theorem keys_workloadEntry (workloads : List RawWorkload) :
    JsMap.keys (workloads.filterMap workloadEntry) = workloadIds workloads := by
  induction workloads with
  | nil => rfl
  | cons raw rest ih =>
    simp only [JsMap.keys, workloadIds] at ih
    by_cases hid : raw.read.id = ""
    · simp [JsMap.keys, workloadIds, workloadEntry, hid, ih]
    · simp [JsMap.keys, workloadIds, workloadEntry, hid, ih]

theorem normalizeWorkloads_eq {workloads : List RawWorkload} (hnd : (workloadIds workloads).Nodup) :
    normalizeWorkloads workloads = JsMap.values (workloads.filterMap workloadEntry) := by
  have hfill := JsMap.foldl_set_eq_append (workloads.filterMap workloadEntry) []
    (by rw [List.nil_append, keys_workloadEntry]; exact hnd)
  rw [List.foldl_filterMap, List.nil_append] at hfill
  rw [normalizeWorkloads, ← hfill]
  congr 2
  funext m raw
  simp only [readWorkload, workloadEntry]
  split <;> rfl

theorem orderWorkloads_perm_input {workloads workloads' : List RawWorkload}
    (hperm : workloads.Perm workloads') (hnd : (workloadIds workloads).Nodup) :
    orderWorkloads (normalizeWorkloads workloads) = orderWorkloads (normalizeWorkloads workloads') := by
  have hnd' : (workloadIds workloads').Nodup := ((hperm.map _).filter _).nodup_iff.mp hnd
  refine orderWorkloads_eq_of_perm ?_ (normalizeWorkloads_clean workloads).1
  rw [normalizeWorkloads_eq hnd, normalizeWorkloads_eq hnd']
  exact (hperm.filterMap workloadEntry).map Prod.snd

/-! ## The previous assignment -/

def assignmentEntry (raw : RawAssignment) : Option (String × PreviousEntry) :=
  let cameraId := trim ((raw.cameraId <|> raw.id).getD "")
  let nodeId := trim (raw.nodeId.getD "")
  if cameraId = "" ∨ nodeId = "" then none else some (cameraId, ⟨nodeId, positive raw.token⟩)

def nodeOfEntry (entry : String × Option String) : Option (String × PreviousEntry) :=
  let cameraId := trim entry.1
  let nodeId := trim (entry.2.getD "")
  if cameraId = "" ∨ nodeId = "" then none else some (cameraId, ⟨nodeId, none⟩)

def RawPrevious.entries : RawPrevious → List (String × PreviousEntry)
  | .absent => []
  | .list assignments => assignments.filterMap assignmentEntry
  | .plan assignments _ _ => assignments.filterMap assignmentEntry
  | .map nodeOf => nodeOf.filterMap nodeOfEntry

/-- The same previous assignment, its list in another order. -/
inductive RawPrevious.Permuted : RawPrevious → RawPrevious → Prop where
  | absent : Permuted .absent .absent
  | list {a b : List RawAssignment} (h : a.Perm b) : Permuted (.list a) (.list b)
  | plan {a b : List RawAssignment} (h : a.Perm b) (nextToken epoch : Option Nat) :
      Permuted (.plan a nextToken epoch) (.plan b nextToken epoch)
  | map {a b : List (String × Option String)} (h : a.Perm b) : Permuted (.map a) (.map b)

theorem RawPrevious.Permuted.entries {raw raw' : RawPrevious} (h : raw.Permuted raw') :
    raw.entries.Perm raw'.entries := by
  cases h with
  | absent => exact .refl _
  | list h => exact h.filterMap _
  | plan h => exact h.filterMap _
  | map h => exact h.filterMap _

theorem foldl_readAssignment_eq {assignments : List RawAssignment}
    (hnd : (JsMap.keys (assignments.filterMap assignmentEntry)).Nodup) :
    assignments.foldl readAssignment [] = assignments.filterMap assignmentEntry := by
  have hfill := JsMap.foldl_set_eq_append (assignments.filterMap assignmentEntry) [] hnd
  rw [List.foldl_filterMap, List.nil_append] at hfill
  rw [← hfill]
  congr 1
  funext m raw
  simp only [readAssignment, assignmentEntry]
  split <;> rfl

theorem foldl_readNodeOf_eq {nodeOf : List (String × Option String)}
    (hnd : (JsMap.keys (nodeOf.filterMap nodeOfEntry)).Nodup) :
    nodeOf.foldl readNodeOf [] = nodeOf.filterMap nodeOfEntry := by
  have hfill := JsMap.foldl_set_eq_append (nodeOf.filterMap nodeOfEntry) [] hnd
  rw [List.foldl_filterMap, List.nil_append] at hfill
  rw [← hfill]
  congr 1
  funext m entry
  simp only [readNodeOf, nodeOfEntry]
  split <;> rfl

theorem normalizePrevious_byCamera {raw : RawPrevious} (hnd : (JsMap.keys raw.entries).Nodup) :
    (normalizePrevious raw).byCamera = raw.entries := by
  cases raw with
  | absent => rfl
  | list assignments => exact foldl_readAssignment_eq hnd
  | plan assignments nextToken epoch => exact foldl_readAssignment_eq hnd
  | map nodeOf => exact foldl_readNodeOf_eq hnd

theorem raiseNextToken_perm (next : Nat) {m m' : List (String × PreviousEntry)} (h : m.Perm m') :
    raiseNextToken next m = raiseNextToken next m' := by
  have hmax (next x : Nat) : (if next ≤ x then x + 1 else next) = max next (x + 1) := by
    split <;> omega
  refine (h.map Prod.snd).foldl_eq' (fun a _ b _ z => ?_) next
  cases a.token with
  | none => rfl
  | some x =>
    cases b.token with
    | none => rfl
    | some y =>
      simp only [hmax]
      omega

/-- What a planning takes from the previous assignment. -/
structure SameReading (a b : Previous) : Prop where
  lookup : ∀ c, JsMap.get? a.byCamera c = JsMap.get? b.byCamera c
  nextToken : a.nextToken = b.nextToken
  epoch : a.epoch = b.epoch

theorem RawPrevious.Permuted.sameReading {raw raw' : RawPrevious} (h : raw.Permuted raw')
    (hnd : (JsMap.keys raw.entries).Nodup) :
    SameReading (normalizePrevious raw) (normalizePrevious raw') := by
  have hperm := h.entries
  have hnd' : (JsMap.keys raw'.entries).Nodup := (hperm.map Prod.fst).nodup_iff.mp hnd
  have hmap := normalizePrevious_byCamera hnd
  have hmap' := normalizePrevious_byCamera hnd'
  have hbyCamera : (normalizePrevious raw).byCamera.Perm (normalizePrevious raw').byCamera := by
    rw [hmap, hmap']
    exact hperm
  refine ⟨fun c => ?_, ?_, ?_⟩
  · exact JsMap.get?_eq_of_perm hbyCamera (hmap ▸ hnd) c
  · cases h with
    | absent => rfl
    | list h => exact raiseNextToken_perm 0 hbyCamera
    | plan h nextToken epoch => exact raiseNextToken_perm _ hbyCamera
    | map h => exact raiseNextToken_perm 0 hbyCamera
  · cases h <;> rfl

theorem SameReading.retainOne {a b : Previous} (h : SameReading a b) :
    Central.retainOne a = Central.retainOne b := by
  have hrecord : newRecord a = newRecord b := by
    funext workload
    simp only [newRecord, h.lookup]
  funext st workload
  unfold Central.retainOne
  rw [hrecord, h.lookup]

theorem SameReading.placeAll {a b : Previous} (h : SameReading a b) (config : SchedulerConfig)
    (nodes : List PlanNode) (workloads : List Workload) :
    Central.placeAll config a nodes workloads = Central.placeAll config b nodes workloads := by
  simp only [Central.placeAll, h.retainOne]

/-! ## The plan -/

/-- **The order of the input does not matter.** Where the ids of the nodes, of the
workloads and of the previous cameras are distinct, the lists may come in any
order. -/
theorem planAssignments_perm {input : PlanInput} {nodes : List (Option RawNode)}
    {workloads : List RawWorkload} {raw raw' : RawPrevious}
    (hnodes : (nodeIds input.nodes).Nodup) (hworkloads : (workloadIds input.workloads).Nodup)
    (hprevious : (JsMap.keys raw.entries).Nodup) (hn : input.nodes.Perm nodes)
    (hw : input.workloads.Perm workloads) (hp : raw.Permuted raw') :
    planAssignments { input with nodes := nodes, workloads := workloads } raw' =
      planAssignments input raw := by
  have hreading := hp.sameReading hprevious
  have hlist := orderWorkloads_perm_input hw hworkloads
  have hplan (config : SchedulerConfig) (states : List (String × NodeState)) (nowMs : ℚ) :=
    planNodes_perm config states nowMs hn hnodes
  unfold planAssignments
  simp only [hlist, hplan, hreading.placeAll, hreading.nextToken, hreading.epoch]

def tiedFleet : PlanInput where
  now := some 1000
  nodes := [some { id := some "a" }, some { id := some "b" }]
  workloads := [.bare (some "cam-1"), .object none (some "cam-2") none]

theorem planAssignments_perm_tied :
    planAssignments { tiedFleet with
        nodes := [some { id := some "b" }, some { id := some "a" }],
        workloads := [.object none (some "cam-2") none, .bare (some "cam-1")] }
      (.list [{ cameraId := some "cam-9", nodeId := some "b", token := some 7 },
        { cameraId := some "cam-1", nodeId := some "gone", token := some 3 }]) =
    planAssignments tiedFleet
      (.list [{ cameraId := some "cam-1", nodeId := some "gone", token := some 3 },
        { cameraId := some "cam-9", nodeId := some "b", token := some 7 }]) :=
  planAssignments_perm (by decide +kernel) (by decide +kernel) (by decide +kernel)
    (.swap _ _ _) (.swap _ _ _) (.list (.swap _ _ _))

end Drac.Central
