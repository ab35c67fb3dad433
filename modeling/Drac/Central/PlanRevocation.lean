import Drac.Central.PlanSanity

/-
  Which leases a plan revokes.

  The list is made from the planner's records, one a workload, so a lease ends in
  it by whatever road its camera lost the node (`lease_of_workload`) — but a camera
  that left the workloads has no record. `revokes_iff`: a plan revokes every lease
  that it does not keep exactly when every leased camera is still a workload.
-/

namespace Drac.Central

/-- The previous assignment leases camera `c` to node `n` under the token `x`. -/
def Leased (previous : RawPrevious) (c n : String) (x : Nat) : Prop :=
  JsMap.get? (normalizePrevious previous).byCamera c = some ⟨n, some x⟩

/-- The plan has camera `c` on node `n`. -/
def Plan.Holds (p : Plan) (c n : String) : Prop :=
  ∃ a ∈ p.assignments, a.cameraId = c ∧ a.nodeId = n

/-- The plan has camera `c` on node `n` under the token `x`. -/
def Plan.Keeps (p : Plan) (c n : String) (x : Nat) : Prop :=
  ∃ a ∈ p.assignments, a.cameraId = c ∧ a.nodeId = n ∧ a.token = x

def Plan.revocations (p : Plan) (c n : String) (x : Nat) : List Revocation :=
  p.revoked.filter (fun e => e.cameraId = c ∧ e.nodeId = n ∧ e.token = some x)

/-- Every lease that is not kept is revoked once, and what is held is not revoked. -/
structure Plan.Revokes (previous : RawPrevious) (p : Plan) : Prop where
  complete : ∀ c n x, Leased previous c n x → ¬ p.Keeps c n x → (p.revocations c n x).length = 1
  sound : ∀ e ∈ p.revoked, ¬ p.Holds e.cameraId e.nodeId

theorem toRevocation_eq_some {r : PlanRecord} {e : Revocation} :
    toRevocation r = some e ↔ ∃ m, r.previousNodeId = some m ∧ r.nodeId ≠ some m ∧
      e = ⟨r.id, m, r.previousToken, r.reason.getD .capacity⟩ := by
  unfold toRevocation
  split
  · next m hm =>
    split
    · next hne => simp [hm, Ne.symm hne, eq_comm]
    · next heq =>
      rw [not_not] at heq
      rw [hm, ← heq]
      simp
  · next hnone => simp [hnone]

section Records

variable {input : PlanInput} {previous : RawPrevious} {p : Plan} {nowMs : ℚ}

theorem placement_balanced (input : PlanInput) (previous : RawPrevious) (nowMs : ℚ) :
    (input.placement previous nowMs).Balanced (input.planNodes nowMs) :=
  (placeAll_draining _ _ (ready input nowMs)).balanced

theorem placement_record {r : PlanRecord} (hr : r ∈ (input.placement previous nowMs).records) :
    (∃ w ∈ normalizeWorkloads input.workloads, r.id = w.id ∧ r.weight = w.weight) ∧
      r.previousNodeId =
        (JsMap.get? (normalizePrevious previous).byCamera r.id).map (·.nodeId) ∧
      r.previousToken =
        (JsMap.get? (normalizePrevious previous).byCamera r.id).bind (·.token) := by
  have hframe := placeAll_frame (normalizePrevious previous) (resolveSchedulerConfig input.config)
    (input.planNodes nowMs) input.ordered
  obtain ⟨w, hw, hid, hprev, htoken⟩ := record_of_frame hframe hr
  refine ⟨?_, hprev, htoken⟩
  have hcore : r.core ∈ input.ordered.map (newRecord (normalizePrevious previous)) := by
    rw [← placement_records input previous nowMs]
    exact List.mem_map_of_mem hr
  obtain ⟨v, hv, heq⟩ := List.mem_map.mp hcore
  have hvid : v.id = r.id := congrArg PlanRecord.id heq
  have hweight : v.weight = r.weight := congrArg PlanRecord.weight heq
  exact ⟨v, (orderWorkloads_perm _).mem_iff.mp hv, hvid.symm, hweight.symm⟩

theorem exists_record (previous : RawPrevious) (nowMs : ℚ) {w : Workload}
    (hw : w ∈ normalizeWorkloads input.workloads) :
    ∃ r ∈ (input.placement previous nowMs).records, r.id = w.id ∧ r.weight = w.weight := by
  have hcore : newRecord (normalizePrevious previous) w ∈
      (input.placement previous nowMs).records.map PlanRecord.core := by
    rw [placement_records]
    exact List.mem_map_of_mem ((orderWorkloads_perm _).mem_iff.mpr hw)
  obtain ⟨r, hr, heq⟩ := List.mem_map.mp hcore
  have hid : r.id = w.id := congrArg PlanRecord.id heq
  have hweight : r.weight = w.weight := congrArg PlanRecord.weight heq
  exact ⟨r, hr, hid, hweight⟩

theorem Plan.Reports.of_record {next : Nat} {st : Placement} (h : p.Reports st next)
    {r : PlanRecord} (hr : r ∈ st.records) {m : String} (hat : r.nodeId = some m) :
    ∃ a ∈ p.assignments, a.cameraId = r.id ∧ a.nodeId = m := by
  obtain ⟨lease, hassignments⟩ := h.assignments
  have hmem : (r.id, r.nodeId) ∈
      (issueTokens next st.assigned).1.map (fun r => (r.id, r.nodeId)) := by
    rw [issueTokens_map (g := fun r => (r.id, r.nodeId)) (fun _ _ => rfl)]
    exact List.mem_map_of_mem
      (mem_assigned.mpr ⟨hr, by rw [hat]; exact Option.some_ne_none m⟩)
  obtain ⟨r', hr', heq⟩ := List.mem_map.mp hmem
  simp only [Prod.mk.injEq] at heq
  refine ⟨toAssignment lease r', hassignments ▸ List.mem_map_of_mem hr', heq.1, ?_⟩
  simp [toAssignment, heq.2, hat]

variable (hreports : p.Reports (input.placement previous nowMs) (firstToken previous))
include hreports

theorem lease_of_workload {c n : String} {x : Nat} (hlease : Leased previous c n x)
    (hw : c ∈ (normalizeWorkloads input.workloads).map (·.id)) (hnot : ¬ p.Keeps c n x) :
    (p.revocations c n x).length = 1 := by
  obtain ⟨w, hmem, rfl⟩ := List.mem_map.mp hw
  obtain ⟨r, hr, hid, -⟩ := exists_record previous nowMs hmem
  obtain ⟨-, hprev, htoken⟩ := placement_record hr
  have hentry : JsMap.get? (normalizePrevious previous).byCamera r.id = some ⟨n, some x⟩ :=
    hid ▸ hlease
  rw [hentry] at hprev htoken
  have hmoved : r.nodeId ≠ some n := by
    intro hat
    obtain ⟨a, ha, hcam, hnode⟩ := hreports.of_record hr hat
    refine hnot ⟨a, ha, hcam.trans hid, hnode, ?_⟩
    obtain ⟨r', hr', hid', -, -, hkept⟩ := hreports.assignment ha
    obtain rfl := (placement_balanced input previous nowMs).record_eq hr' hr (hid'.trans hcam)
    exact hkept (hprev.trans (congrArg some hnode.symm)) x htoken
  have hrevokes : toRevocation r = some ⟨r.id, n, some x, r.reason.getD .capacity⟩ :=
    toRevocation_eq_some.mpr ⟨n, hprev, hmoved, by rw [htoken]; rfl⟩
  rw [Plan.revocations, hreports.revoked]
  have hids := ((sortedById_perm _).map (·.id)).nodup_iff.mpr
    (placement_balanced input previous nowMs).recordIds
  refine KeyedList.length_filter_filterMap hids (mem_sortedById.mpr hr) hrevokes (by simp [hid]) ?_
  intro r' e he hkept
  obtain ⟨m, -, -, rfl⟩ := toRevocation_eq_some.mp he
  simp only [decide_eq_true_eq] at hkept
  exact hkept.1.trans hid.symm

theorem revoked_not_held {e : Revocation} (he : e ∈ p.revoked) : ¬ p.Holds e.cameraId e.nodeId := by
  rintro ⟨a, ha, hcam, hnode⟩
  rw [hreports.revoked, List.mem_filterMap] at he
  obtain ⟨r, hr, hre⟩ := he
  rw [mem_sortedById] at hr
  obtain ⟨m, -, hmoved, rfl⟩ := toRevocation_eq_some.mp hre
  obtain ⟨r', hr', hid', hat, -⟩ := hreports.assignment ha
  obtain rfl := (placement_balanced input previous nowMs).record_eq hr' hr (hid'.trans hcam)
  exact hmoved (hat.trans (congrArg some hnode))

theorem not_mentioned {c : String} (hc : c ∉ (normalizeWorkloads input.workloads).map (·.id))
    (n : String) (x : Nat) : ¬ p.Keeps c n x ∧ p.revocations c n x = [] := by
  have hrecord {r : PlanRecord} (hr : r ∈ (input.placement previous nowMs).records) : r.id ≠ c := by
    obtain ⟨⟨w, hw, hid, -⟩, -⟩ := placement_record hr
    intro heq
    exact hc (List.mem_map.mpr ⟨w, hw, hid.symm.trans heq⟩)
  constructor
  · rintro ⟨a, ha, hcam, -⟩
    obtain ⟨r, hr, hid, -⟩ := hreports.assignment ha
    exact hrecord hr (hid.trans hcam)
  · refine List.filter_eq_nil_iff.mpr (fun e he hkept => ?_)
    rw [hreports.revoked, List.mem_filterMap] at he
    obtain ⟨r, hr, hre⟩ := he
    obtain ⟨m, -, -, rfl⟩ := toRevocation_eq_some.mp hre
    simp only [decide_eq_true_eq] at hkept
    exact hrecord (mem_sortedById.mp hr) hkept.1

end Records

/-- **Revocation is complete exactly where every leased camera is still a workload.** -/
theorem revokes_iff {input : PlanInput} {previous : RawPrevious} {p : Plan}
    (h : planAssignments input previous = .ok p) :
    p.Revokes previous ↔ ∀ c n x, Leased previous c n x →
      c ∈ (normalizeWorkloads input.workloads).map (·.id) := by
  obtain ⟨nowMs, -, hreports⟩ := planAssignments_computes h
  constructor
  · intro hrevokes c n x hlease
    by_contra hc
    obtain ⟨hnot, hnil⟩ := not_mentioned hreports hc n x
    have hone := hrevokes.complete c n x hlease hnot
    rw [hnil] at hone
    cases hone
  · intro hall
    refine ⟨?_, fun e he => revoked_not_held hreports he⟩
    intro c n x hlease hnot
    exact lease_of_workload hreports hlease (hall c n x hlease) hnot

def oneCameraLeft : PlanInput where
  now := some 1000
  nodes := [some { id := some "a" }]
  workloads := [.bare (some "cam-1")]

def twoLeases : RawPrevious :=
  .plan [{ cameraId := some "cam-1", nodeId := some "a", token := some 1 },
    { cameraId := some "cam-2", nodeId := some "a", token := some 2 }] (some 3) (some 1)

theorem revokes_iff_shrunk : ∃ p, planAssignments oneCameraLeft twoLeases = .ok p ∧
    (p.Revokes twoLeases ↔ ∀ c n x, Leased twoLeases c n x →
      c ∈ (normalizeWorkloads oneCameraLeft.workloads).map (·.id)) := by
  have hreturns : (planAssignments oneCameraLeft twoLeases).isOk = true := by decide +kernel
  cases hp : planAssignments oneCameraLeft twoLeases with
  | error e => rw [hp] at hreturns; cases hreturns
  | ok p => exact ⟨p, rfl, revokes_iff hp⟩

/-- A camera that leaves the workloads keeps its lease out of the list. -/
theorem removed_camera_not_revoked : ¬ ∀ (input : PlanInput) (previous : RawPrevious) (p : Plan),
    planAssignments input previous = .ok p → p.Revokes previous := by
  intro hall
  have hnone : (planAssignments oneCameraLeft twoLeases).toOption.any (fun p =>
      p.assignments.all (fun a => a.cameraId ≠ "cam-2") ∧ p.revoked = []) = true := by
    decide +kernel
  cases hp : planAssignments oneCameraLeft twoLeases with
  | error e => rw [hp] at hnone; cases hnone
  | ok p =>
    simp only [hp, Except.toOption, Option.any_some, decide_eq_true_eq, List.all_eq_true] at hnone
    have hlease : Leased twoLeases "cam-2" "a" 2 := by unfold Leased; rfl
    have hone := (hall _ _ p hp).complete "cam-2" "a" 2 hlease (by
      rintro ⟨a, ha, hcam, -⟩
      exact hnone.1 a ha hcam)
    rw [Plan.revocations, hnone.2] at hone
    cases hone

end Drac.Central
