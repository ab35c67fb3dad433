import Drac.Lib.GreedyChoice
import Drac.Vision.RegionPlanner
import Mathlib.Data.List.Sort

/-
  One detection for each object.

  `dedupe_by_iou` goes through the detections by descending score, keeps one unless it overlaps
  a kept one of its class (`GreedyChoice.chosen`), and puts what it keeps back in the order of
  the input. A score is a number: where it is `NaN`, the order of the sort is not defined.

  `dedupeByIou_represents`: what is kept is a sublist of the input that overlaps less than the
  threshold within a class; each detection dropped has one kept of its class, with no lower
  score, that it overlaps; and a second pass keeps all.
-/

namespace Drac.Vision

open GreedyChoice

section Deduplication

variable {α : Type} (ops : ItemOps α) (threshold : ℚ)

theorem intersectionOverUnion_comm (a b : Box) :
    intersectionOverUnion a b = intersectionOverUnion b a := by
  simp only [intersectionOverUnion, min_comm a.x2, min_comm a.y2, max_comm a.x1, max_comm a.y1,
    add_comm (area a)]

/-- Two entries that the pass takes for one object. -/
def sameObject (a b : α × ℕ) : Bool :=
  ops.classOf a.1 = ops.classOf b.1 &&
    intersectionOverUnion (ops.boxOf a.1) (ops.boxOf b.1) ≥ threshold

def byScore (items : List α) : List (α × ℕ) :=
  items.zipIdx.mergeSort fun a b => ops.scoreOf b.1 ≤ ops.scoreOf a.1

/-- What is kept, by descending score. -/
def keptByScore (items : List α) : List (α × ℕ) :=
  chosen (sameObject ops threshold) (byScore ops items)

def keptInOrder (items : List α) : List (α × ℕ) :=
  (keptByScore ops threshold items).mergeSort fun a b => a.2 ≤ b.2

theorem dedupeByIou_eq (items : List α) :
    dedupeByIou ops items threshold = (keptInOrder ops threshold items).map Prod.fst := rfl

variable {ops threshold}

theorem sameObject_comm (a b : α × ℕ) :
    sameObject ops threshold a b = sameObject ops threshold b a := by
  rw [sameObject, sameObject, intersectionOverUnion_comm]
  simp only [eq_comm]

theorem sameObject_eq_false {a b : α × ℕ} : sameObject ops threshold a b = false ↔
    (ops.classOf a.1 = ops.classOf b.1 →
      intersectionOverUnion (ops.boxOf a.1) (ops.boxOf b.1) < threshold) := by
  simp [sameObject]

theorem byScore_perm (items : List α) : (byScore ops items).Perm items.zipIdx :=
  List.mergeSort_perm _ _

theorem byScore_sorted (items : List α) :
    (byScore ops items).Pairwise (fun a b => ops.scoreOf b.1 ≤ ops.scoreOf a.1) := by
  have htrans : ∀ a b c : α × ℕ, decide (ops.scoreOf b.1 ≤ ops.scoreOf a.1) = true →
      decide (ops.scoreOf c.1 ≤ ops.scoreOf b.1) = true →
      decide (ops.scoreOf c.1 ≤ ops.scoreOf a.1) = true := by
    intro a b c hab hbc
    rw [decide_eq_true_eq] at hab hbc ⊢
    exact hbc.trans hab
  have htotal : ∀ a b : α × ℕ, (decide (ops.scoreOf b.1 ≤ ops.scoreOf a.1) ||
      decide (ops.scoreOf a.1 ≤ ops.scoreOf b.1)) = true := by
    intro a b
    rw [Bool.or_eq_true, decide_eq_true_eq, decide_eq_true_eq]
    exact le_total _ _
  exact (List.pairwise_mergeSort htrans htotal items.zipIdx).imp fun h => of_decide_eq_true h

/-! ## Back in order -/

theorem zipIdx_indexed (items : List α) : items.zipIdx.Pairwise (fun a b => a.2 < b.2) := by
  have hindices : (items.zipIdx.map Prod.snd).Pairwise (· < ·) := by
    rw [List.zipIdx_map_snd]
    exact List.pairwise_lt_range'
  exact List.pairwise_map.mp hindices

theorem sort_indexed {l m : List (α × ℕ)} (hperm : l.Perm m)
    (hm : m.Pairwise (fun a b => a.2 < b.2)) : l.mergeSort (fun a b => a.2 ≤ b.2) = m := by
  have hsort := List.mergeSort_perm l (fun a b => decide (a.2 ≤ b.2))
  have hnodup : (m.map Prod.snd).Nodup := by
    rw [List.Nodup, List.pairwise_map]
    exact hm.imp (fun h => h.ne)
  have hinj : ∀ a b, a ∈ l.mergeSort (fun a b => decide (a.2 ≤ b.2)) → b ∈ m → a.2 ≤ b.2 →
      b.2 ≤ a.2 → a = b := by
    intro a b ha hb hab hba
    have ham := (hsort.trans hperm).mem_iff.mp ha
    exact List.inj_on_of_nodup_map hnodup ham hb (le_antisymm hab hba)
  have hsorted : (l.mergeSort (fun a b => decide (a.2 ≤ b.2))).Pairwise (fun a b => a.2 ≤ b.2) := by
    have hmerge := List.pairwise_mergeSort
      (fun (a b c : α × ℕ) (hab : decide (a.2 ≤ b.2) = true) (hbc : decide (b.2 ≤ c.2) = true) =>
        decide_eq_true ((of_decide_eq_true hab).trans (of_decide_eq_true hbc)))
      (fun a b => by simpa using le_total a.2 b.2) l
    exact hmerge.imp (fun h => of_decide_eq_true h)
  exact List.Perm.eq_of_pairwise hinj hsorted (hm.imp (fun h => h.le)) (hsort.trans hperm)

theorem keptInOrder_perm (items : List α) :
    (keptInOrder ops threshold items).Perm (keptByScore ops threshold items) :=
  List.mergeSort_perm _ _

theorem keptInOrder_sublist (items : List α) :
    (keptInOrder ops threshold items).Sublist items.zipIdx := by
  have hsub : (keptByScore ops threshold items).Subperm items.zipIdx :=
    (chosen_sublist (byScore ops items)).subperm.trans (byScore_perm items).subperm
  obtain ⟨m, hperm, hm⟩ := hsub
  have hsorted : keptInOrder ops threshold items = m :=
    sort_indexed hperm.symm ((zipIdx_indexed items).sublist hm)
  rw [hsorted]
  exact hm

theorem keptInOrder_apart (items : List α) :
    (keptInOrder ops threshold items).Pairwise (fun a b => sameObject ops threshold a b = false) := by
  refine (List.Perm.pairwise_iff ?_ (keptInOrder_perm items)).mpr (chosen_pairwise _)
  intro a b h
  rw [sameObject_comm]
  exact h

theorem keptInOrder_dominates {items : List α} {e : α × ℕ} (he : e ∈ items.zipIdx)
    (hdropped : e ∉ keptInOrder ops threshold items) :
    ∃ k ∈ keptInOrder ops threshold items, sameObject ops threshold k e = true ∧
      ops.scoreOf e.1 ≤ ops.scoreOf k.1 := by
  rw [(keptInOrder_perm items).mem_iff] at hdropped
  obtain ⟨k, hk, hsame, hscore⟩ := chosen_dominates (byScore_sorted items)
    ((byScore_perm items).mem_iff.mpr he) hdropped
  exact ⟨k, (keptInOrder_perm items).mem_iff.mpr hk, hsame, hscore⟩

theorem dedupeByIou_eq_self {items : List α}
    (h : items.Pairwise (fun a b => ops.classOf a = ops.classOf b →
      intersectionOverUnion (ops.boxOf a) (ops.boxOf b) < threshold)) :
    dedupeByIou ops items threshold = items := by
  have hzip : items.zipIdx.Pairwise (fun a b => sameObject ops threshold a b = false) := by
    have hfst : (items.zipIdx.map Prod.fst).Pairwise (fun a b => ops.classOf a = ops.classOf b →
        intersectionOverUnion (ops.boxOf a) (ops.boxOf b) < threshold) := by
      rw [List.zipIdx_map_fst]
      exact h
    exact (List.pairwise_map.mp hfst).imp (fun h => sameObject_eq_false.mpr h)
  have hsorted : (byScore ops items).Pairwise (fun a b => sameObject ops threshold a b = false) := by
    refine (List.Perm.pairwise_iff ?_ (byScore_perm items)).mpr hzip
    intro a b h
    rw [sameObject_comm]
    exact h
  calc dedupeByIou ops items threshold
      = ((chosen (sameObject ops threshold) (byScore ops items)).mergeSort
          fun a b => a.2 ≤ b.2).map Prod.fst := rfl
    _ = ((byScore ops items).mergeSort fun a b => a.2 ≤ b.2).map Prod.fst := by
        rw [chosen_eq_self hsorted]
    _ = items.zipIdx.map Prod.fst := by
        rw [sort_indexed (byScore_perm items) (zipIdx_indexed items)]
    _ = items := List.zipIdx_map_fst 0 items

/-- **Deduplication keeps a dominating representative.** -/
theorem dedupeByIou_represents (ops : ItemOps α) (items : List α) (threshold : ℚ) :
    ∃ kept : List (α × ℕ), dedupeByIou ops items threshold = kept.map Prod.fst ∧
      kept.Sublist items.zipIdx ∧
      (dedupeByIou ops items threshold).Pairwise (fun a b => ops.classOf a = ops.classOf b →
        intersectionOverUnion (ops.boxOf a) (ops.boxOf b) < threshold) ∧
      (∀ e ∈ items.zipIdx, e ∉ kept → ∃ k ∈ kept, ops.classOf k.1 = ops.classOf e.1 ∧
        ops.scoreOf e.1 ≤ ops.scoreOf k.1 ∧
        threshold ≤ intersectionOverUnion (ops.boxOf k.1) (ops.boxOf e.1)) ∧
      dedupeByIou ops (dedupeByIou ops items threshold) threshold =
        dedupeByIou ops items threshold := by
  have hapart : (dedupeByIou ops items threshold).Pairwise (fun a b =>
      ops.classOf a = ops.classOf b →
        intersectionOverUnion (ops.boxOf a) (ops.boxOf b) < threshold) := by
    rw [dedupeByIou_eq, List.pairwise_map]
    exact (keptInOrder_apart items).imp (fun h => sameObject_eq_false.mp h)
  refine ⟨keptInOrder ops threshold items, rfl, keptInOrder_sublist items, hapart, ?_,
    dedupeByIou_eq_self hapart⟩
  intro e he hdropped
  obtain ⟨k, hk, hsame, hscore⟩ := keptInOrder_dominates he hdropped
  simp only [sameObject, Bool.and_eq_true, decide_eq_true_eq] at hsame
  exact ⟨k, hk, hsame.1, hscore, hsame.2⟩

end Deduplication

end Drac.Vision
