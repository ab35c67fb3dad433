import Drac.Central.PlanRevocation

/-
  Draining is gradual and safe.

  A plan is compared with the one the same input gives when nothing may be drained
  (`PlanInput.undrained`): that one is the placement before the draining phase.
  Draining leaves the list of unassigned cameras as it is (`unassigned_undrained`),
  takes no more than the batch off each draining node, each to a node that takes new
  load, and leaves every other camera where it was.
-/

namespace Drac.Central

open Binary64

/-- The same planning with no camera allowed to move off a draining node. -/
def PlanInput.undrained (input : PlanInput) : PlanInput :=
  { input with config := { input.config with drainBatch := some 0 } }

section Undrained

variable (input : PlanInput) (raw : RawPrevious) (nowMs : ℚ)

theorem drainBatch_undrained : (resolveSchedulerConfig input.undrained.config).drainBatch = 0 := by
  simp [resolveSchedulerConfig, PlanInput.undrained, readNumber]

theorem placement_undrained : input.undrained.placement raw nowMs =
    settled (normalizePrevious raw) (input.planNodes nowMs) input.ordered :=
  drainAll_zero (le_of_eq (drainBatch_undrained input)) _ _

end Undrained

theorem planAssignments_undrained {input : PlanInput} {raw : RawPrevious} {p : Plan}
    (h : planAssignments input raw = .ok p) : ∃ p₀, planAssignments input.undrained raw = .ok p₀ := by
  obtain ⟨nowMs, lease, generated, hnow, hlease, hgenerated⟩ :=
    (planAssignments_returns input raw).mp ⟨p, h⟩
  exact (planAssignments_returns input.undrained raw).mpr
    ⟨nowMs, lease, generated, hnow, hlease, hgenerated⟩

theorem toMigration_eq_some {r : PlanRecord} {m : Migration} :
    toMigration r = some m ↔ ∃ p n, r.previousNodeId = some p ∧ r.nodeId = some n ∧ n ≠ p ∧
      m = ⟨r.id, p, n, r.reason.getD .capacity⟩ := by
  unfold toMigration
  split
  · next p n hp hn =>
    split
    · next hne => simp [hp, hn, hne, eq_comm]
    · next heq =>
      rw [not_not] at heq
      simp [hp, hn, heq]
  · next hnone =>
    constructor
    · intro h
      cases h
    · rintro ⟨p, n, hp, hn, -⟩
      exact absurd hn (hnone p n hp)

section Reports

variable {input : PlanInput} {raw : RawPrevious} {nowMs : ℚ} {p : Plan}
  (hreports : p.Reports (input.placement raw nowMs) (firstToken raw))
include hreports

theorem draining_record {m : Migration} (hm : m ∈ p.migrations) (hreason : m.reason = .draining) :
    ∃ r ∈ (input.placement raw nowMs).records, r.id = m.cameraId ∧ r.reason = some .draining ∧
      r.previousNodeId = some m.fromNode ∧ r.nodeId = some m.toNode := by
  rw [hreports.migrations, List.mem_filterMap] at hm
  obtain ⟨r, hr, hrm⟩ := hm
  obtain ⟨a, b, ha, hb, -, rfl⟩ := toMigration_eq_some.mp hrm
  refine ⟨r, mem_sortedById.mp hr, rfl, ?_, ha, hb⟩
  cases hreason' : r.reason with
  | none => simp [hreason'] at hreason
  | some reason =>
    simp only [hreason', Option.getD_some] at hreason
    rw [hreason]

theorem draining_count {k : Nat} (hk : (resolveSchedulerConfig input.config).drainBatch ≤ k)
    (d : String) :
    (p.migrations.filter (fun m => m.fromNode = d ∧ m.reason = .draining)).length ≤ k := by
  have hmoved := placeAll_movedOff (resolveSchedulerConfig input.config) (normalizePrevious raw)
    (ready input nowMs) hk d
  rw [hreports.migrations]
  refine (KeyedList.length_filter_filterMap_le (p := fun r : PlanRecord =>
    r.reason = some .draining ∧ r.previousNodeId = some d) ?_ _).trans ?_
  · intro r m hrm hkeep
    obtain ⟨a, b, ha, hb, -, rfl⟩ := toMigration_eq_some.mp hrm
    simp only [decide_eq_true_eq] at hkeep ⊢
    refine ⟨?_, ha.trans (congrArg some hkeep.1)⟩
    cases hreason : r.reason with
    | none => simp [hreason] at hkeep
    | some reason =>
      have heq := hkeep.2
      simp only [hreason, Option.getD_some] at heq
      rw [heq]
  · exact le_of_eq_of_le ((sortedById_perm _).filter _).length_eq hmoved

theorem draining_target {m : Migration} (hm : m ∈ p.migrations) (hreason : m.reason = .draining) :
    (∃ n ∈ p.nodes, n.id = m.fromNode ∧ n.health = .draining) ∧
      ∃ n ∈ p.nodes, n.id = m.toNode ∧ isPlaceable n = true ∧ m.cameraId ∈ n.cameras ∧
        n.load ≤ n.capacity := by
  obtain ⟨r, hr, hid, hrreason, hprev, hat⟩ := draining_record hreports hm hreason
  have hdrained : (input.placement raw nowMs).Draining (input.planNodes nowMs) :=
    placeAll_draining _ _ (ready input nowMs)
  have hb := hdrained.balanced
  obtain ⟨hne, d, hd, hdraining, hdprev⟩ := hdrained.moved r hr hrreason
  obtain ⟨t, ht, htid, hold⟩ := hb.hosted r hr m.toNode hat
  have hreported {n : PlanNode} (hn : n ∈ (input.placement raw nowMs).nodes) :
      n.reported ∈ p.nodes := hreports.nodes ▸ List.mem_map_of_mem hn
  refine ⟨⟨d.reported, hreported hd, ?_, hdraining⟩, t.reported, hreported ht, htid, ?_, ?_, hb.fits t ht⟩
  · exact Option.some.inj (hdprev.symm.trans hprev)
  · rcases hold with hplaceable | ⟨-, hprev'⟩
    · exact hplaceable
    · exact absurd (hat.trans (hprev'.trans (congrArg some htid)).symm) hne
  · show m.cameraId ∈ t.cameras.insertionSort _
    rw [List.mem_insertionSort, (hb.cameras t ht).mem_iff, ← hid]
    exact List.mem_map_of_mem (mem_recordsAt.mpr ⟨hr, hat.trans (congrArg some htid.symm)⟩)

variable {p₀ : Plan} (hreports₀ : p₀.Reports
  (settled (normalizePrevious raw) (input.planNodes nowMs) input.ordered) (firstToken raw))
include hreports₀

theorem unassigned_undrained : p.unassigned = p₀.unassigned := by
  have hready := ready input nowMs
  have hb := placement_balanced input raw nowMs
  have hb₀ := (settled_spec (normalizePrevious raw) hready).balanced
  rw [hreports.unassigned, hreports₀.unassigned]
  congr 1
  have hnd {records : List PlanRecord} (h : (records.map (·.id)).Nodup) :
      ((records.filter (·.nodeId.isNone)).map (·.id)).Nodup :=
    h.sublist (List.Sublist.map _ List.filter_sublist)
  refine sortedById_eq_of_perm ?_ (hnd hb.recordIds)
  refine (List.perm_ext_iff_of_nodup (List.Nodup.of_map _ (hnd hb.recordIds))
    (List.Nodup.of_map _ (hnd hb₀.recordIds))).mpr (fun r => ?_)
  rw [List.mem_filter, List.mem_filter, Option.isNone_iff_eq_none]
  constructor
  · rintro ⟨hr, hnone⟩
    exact ⟨(placeAll_nowhere _ _ hready hnone).mp hr, hnone⟩
  · rintro ⟨hr, hnone⟩
    exact ⟨(placeAll_nowhere _ _ hready hnone).mpr hr, hnone⟩

theorem moved_or_kept {a : Assignment} (ha : a ∈ p₀.assignments) :
    (∃ b ∈ p.assignments, b.cameraId = a.cameraId ∧ b.nodeId = a.nodeId ∧
      ∀ x, Leased raw a.cameraId a.nodeId x → b.token = x) ∨
    ((∃ m ∈ p.migrations, m.cameraId = a.cameraId ∧ m.fromNode = a.nodeId ∧ m.reason = .draining) ∧
      ∃ n ∈ p₀.nodes, isPlaceable n = true ∧ plus n.load a.weight ≤ n.capacity) := by
  have hready := ready input nowMs
  have hsettled := settled_draining (normalizePrevious raw) hready
  have hb₀ := hsettled.balanced
  have hb := placement_balanced input raw nowMs
  have hrun := placeAll_drains (resolveSchedulerConfig input.config) (normalizePrevious raw) hready
  obtain ⟨r₀, hr₀, hid₀, hat₀, hweight₀, -⟩ := hreports₀.assignment ha
  -- the record of the camera after the draining
  have hids : r₀.id ∈ (input.placement raw nowMs).records.map (·.id) := by
    have hcores := congrArg (List.map PlanRecord.id) (placement_records input raw nowMs)
    have hcores₀ := congrArg (List.map PlanRecord.id)
      (settled_frame (normalizePrevious raw) (input.planNodes nowMs) input.ordered).records
    rw [List.map_map, List.map_map] at hcores hcores₀
    have hboth := hcores₀.trans hcores.symm
    have hmem : r₀.id ∈ (settled (normalizePrevious raw) (input.planNodes nowMs)
      input.ordered).records.map (PlanRecord.id ∘ PlanRecord.core) := List.mem_map_of_mem hr₀
    rw [hboth] at hmem
    exact hmem
  obtain ⟨r, hr, hid⟩ := List.mem_map.mp hids
  rcases hrun.record hsettled hr with hkept | ⟨q, hq, node, hnode, hqat, hdraining, t, ht, hplaceable,
    hroom, rfl⟩
  · left
    obtain rfl := hb₀.record_eq hkept hr₀ hid
    obtain ⟨b, hbm, hcam, hnode⟩ := hreports.of_record hr hat₀
    obtain ⟨r', hr', hid', -, -, htoken⟩ := hreports.assignment hbm
    obtain rfl := hb.record_eq hr' hr (hid'.trans hcam)
    obtain ⟨-, hprev, hprevToken⟩ := placement_record hr'
    refine ⟨b, hbm, hcam.trans hid₀, hnode, fun x hlease => ?_⟩
    unfold Leased at hlease
    rw [hid₀, hlease] at hprev hprevToken
    exact htoken (hprev.trans (congrArg some hnode.symm)) x hprevToken
  · right
    have hqr : q = r₀ := hb₀.record_eq hq hr₀ hid
    subst hqr
    have hprev := hb₀.previous_of_draining hnode hdraining hq hqat
    have hne : t.id ≠ node.id := target_ne hb₀ hnode rfl hdraining ht hplaceable
    have hnodeId : node.id = a.nodeId := Option.some.inj (hqat.symm.trans hat₀)
    constructor
    · refine ⟨⟨q.id, node.id, t.id, .draining⟩, ?_, hid₀, hnodeId, rfl⟩
      rw [hreports.migrations, List.mem_filterMap]
      exact ⟨_, mem_sortedById.mpr hr, toMigration_eq_some.mpr ⟨node.id, t.id, hprev, rfl, hne, rfl⟩⟩
    · refine ⟨t.reported, hreports₀.nodes ▸ List.mem_map_of_mem ht, hplaceable, ?_⟩
      rw [← hweight₀]
      exact hroom

end Reports

/-- What draining may do to the plan `p₀` that nothing was drained from. -/
structure Plan.Drained (raw : RawPrevious) (batch : Nat) (p₀ p : Plan) : Prop where
  gradual : ∀ d,
    (p.migrations.filter (fun m => m.fromNode = d ∧ m.reason = .draining)).length ≤ batch
  target : ∀ m ∈ p.migrations, m.reason = .draining →
    (∃ n ∈ p.nodes, n.id = m.fromNode ∧ n.health = .draining) ∧
      ∃ n ∈ p.nodes, n.id = m.toNode ∧ isPlaceable n = true ∧ m.cameraId ∈ n.cameras ∧
        n.load ≤ n.capacity
  /-- It leaves no camera without a node. -/
  unassigned : p.unassigned = p₀.unassigned
  kept : ∀ a ∈ p₀.assignments,
    (¬ ∃ m ∈ p.migrations, m.cameraId = a.cameraId ∧ m.fromNode = a.nodeId ∧ m.reason = .draining) →
    ∃ b ∈ p.assignments, b.cameraId = a.cameraId ∧ b.nodeId = a.nodeId ∧
      ∀ x, Leased raw a.cameraId a.nodeId x → b.token = x
  /-- A camera that no node that takes new load has room for is not moved. -/
  stuck : ∀ a ∈ p₀.assignments,
    (∀ n ∈ p₀.nodes, isPlaceable n = true → n.capacity < plus n.load a.weight) →
    ∃ b ∈ p.assignments, b.cameraId = a.cameraId ∧ b.nodeId = a.nodeId ∧
      ∀ x, Leased raw a.cameraId a.nodeId x → b.token = x
  /-- The room it takes is of no use to a camera without a node. -/
  orphans : ∀ u ∈ p.unassigned, ∀ n ∈ p₀.nodes, isPlaceable n = true →
    n.capacity < plus n.load u.weight

/-- **Draining is gradual and safe.** -/
theorem planAssignments_drained {input : PlanInput} {raw : RawPrevious} {p : Plan} {batch : Nat}
    (hbatch : (resolveSchedulerConfig input.config).drainBatch = batch)
    (h : planAssignments input raw = .ok p) :
    ∃ p₀, planAssignments input.undrained raw = .ok p₀ ∧ Plan.Drained raw batch p₀ p := by
  obtain ⟨p₀, hp₀⟩ := planAssignments_undrained h
  obtain ⟨nowMs, hnow, hreports⟩ := planAssignments_computes h
  obtain ⟨nowMs₀, hnow₀, hreports₀⟩ := planAssignments_computes hp₀
  obtain rfl : nowMs₀ = nowMs := Option.some.inj (hnow₀.symm.trans hnow)
  have hsane := hreports₀.sane hnow₀
  rw [placement_undrained] at hreports₀
  have hunassigned := unassigned_undrained hreports hreports₀
  refine ⟨p₀, hp₀, ⟨draining_count hreports (le_of_eq hbatch),
    fun m hm hreason => draining_target hreports hm hreason, hunassigned, ?_, ?_, ?_⟩⟩
  · intro a ha hnot
    rcases moved_or_kept hreports hreports₀ ha with hkept | ⟨hmoved, -⟩
    · exact hkept
    · exact absurd hmoved hnot
  · intro a ha hfull
    rcases moved_or_kept hreports hreports₀ ha with hkept | ⟨-, n, hn, hplaceable, hroom⟩
    · exact hkept
    · exact absurd hroom (not_le.mpr (hfull n hn hplaceable))
  · rw [hunassigned]
    exact hsane.noRoom

/-- A draining node with three cameras, and room for one of them elsewhere. -/
def drainingFleet : PlanInput where
  config := { drainBatch := some 2 }
  now := some 1000
  nodeStates := [("a", { draining := true })]
  nodes := [some { id := some "a" }, some { id := some "b", capacity := some (.number 1) }]
  workloads := [.bare (some "cam-1"), .bare (some "cam-2"), .bare (some "cam-3")]

def drainingPrevious : RawPrevious :=
  .list [{ cameraId := some "cam-1", nodeId := some "a", token := some 1 },
    { cameraId := some "cam-2", nodeId := some "a", token := some 2 },
    { cameraId := some "cam-3", nodeId := some "a", token := some 3 }]

theorem planAssignments_drained_fleet :
    ∃ p, planAssignments drainingFleet drainingPrevious = .ok p ∧
      ∃ p₀, planAssignments drainingFleet.undrained drainingPrevious = .ok p₀ ∧
        Plan.Drained drainingPrevious 2 p₀ p := by
  have hreturns : (planAssignments drainingFleet drainingPrevious).isOk = true := by decide +kernel
  have hbatch : (resolveSchedulerConfig drainingFleet.config).drainBatch = ((2 : Nat) : ℚ) := by
    rfl
  cases hp : planAssignments drainingFleet drainingPrevious with
  | error e => rw [hp] at hreturns; cases hreturns
  | ok p => exact ⟨p, rfl, planAssignments_drained hbatch hp⟩

end Drac.Central
