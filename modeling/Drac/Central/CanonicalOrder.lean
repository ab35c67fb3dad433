import Drac.Lib.KeyedList
import Drac.Lib.TextOrder
import Drac.Central.Scheduler

/-
  The canonical orders of a planning.

  `compareIds` is a total order on ids and `orderWorkloads` compares by weight
  first, so what the planner sorts no longer depends on the order it was given:
  `sortedById_eq_of_perm`, `orderWorkloads_eq_of_perm`.
-/

namespace Drac.Central

open JsText

theorem compareIds_le_zero (a b : String) :
    compareIds a b ≤ 0 ↔ utf16 a.toList ≤ utf16 b.toList := by
  unfold compareIds
  by_cases hab : a = b
  · simp [hab]
  · have hne : utf16 a.toList ≠ utf16 b.toList := fun h => hab (utf16_toList_injective h)
    cases hlt : lt a b with
    | true =>
      have hle := le_of_lt ((lt_iff a b).mp hlt)
      simp [hab, hle]
    | false =>
      have hnot : ¬ utf16 a.toList < utf16 b.toList := fun h => by
        rw [(lt_iff a b).mpr h] at hlt
        cases hlt
      have hgt := lt_of_le_of_ne (not_lt.mp hnot) hne.symm
      simp [hab, not_le.mpr hgt]

theorem compareIds_antisymm {a b : String} (hab : compareIds a b ≤ 0) (hba : compareIds b a ≤ 0) :
    a = b := by
  rw [compareIds_le_zero] at hab hba
  exact utf16_toList_injective (le_antisymm hab hba)

section ById

variable {α : Type} (id : α → String)

theorem compareIds_total : Std.Total (fun a b : α => compareIds (id a) (id b) ≤ 0) where
  total a b := by
    simp only [compareIds_le_zero]
    exact le_total _ _

theorem compareIds_trans : IsTrans α (fun a b : α => compareIds (id a) (id b) ≤ 0) where
  trans a b c hab hbc := by
    simp only [compareIds_le_zero] at hab hbc ⊢
    exact hab.trans hbc

theorem insertionSort_compareIds {l l' : List α} (hperm : l.Perm l') (hnd : (l.map id).Nodup) :
    l.insertionSort (fun a b => compareIds (id a) (id b) ≤ 0) =
      l'.insertionSort (fun a b => compareIds (id a) (id b) ≤ 0) := by
  have htotal := compareIds_total id
  have htrans := compareIds_trans id
  refine KeyedList.insertionSort_eq_of_perm hperm (fun a ha b hb hab hba => ?_)
  exact KeyedList.eq_of_key hnd ha hb (compareIds_antisymm hab hba)

theorem pairwise_compareIds (l : List α) :
    (l.insertionSort (fun a b => compareIds (id a) (id b) ≤ 0)).Pairwise
      (fun a b => compareIds (id a) (id b) ≤ 0) := by
  have htotal := compareIds_total id
  have htrans := compareIds_trans id
  exact List.pairwise_insertionSort _ l

theorem eq_insertionSort_compareIds {l l' : List α} (hperm : l.Perm l') (hnd : (l.map id).Nodup)
    (hsorted : l.Pairwise (fun a b => compareIds (id a) (id b) ≤ 0)) :
    l = l'.insertionSort (fun a b => compareIds (id a) (id b) ≤ 0) := by
  have htotal := compareIds_total id
  have htrans := compareIds_trans id
  refine KeyedList.eq_insertionSort hperm hsorted (fun a ha b hb hab hba => ?_)
  exact KeyedList.eq_of_key hnd ha hb (compareIds_antisymm hab hba)

end ById

theorem sortedById_perm (records : List PlanRecord) : (sortedById records).Perm records :=
  List.perm_insertionSort _ _

@[simp] theorem mem_sortedById {records : List PlanRecord} {r : PlanRecord} :
    r ∈ sortedById records ↔ r ∈ records := List.mem_insertionSort _

theorem sortedById_eq_of_perm {records records' : List PlanRecord} (hperm : records.Perm records')
    (hnd : (records.map (·.id)).Nodup) : sortedById records = sortedById records' :=
  insertionSort_compareIds PlanRecord.id hperm hnd

theorem sortedById_pairwise (records : List PlanRecord) :
    (sortedById records).Pairwise (fun a b => compareIds a.id b.id ≤ 0) :=
  pairwise_compareIds PlanRecord.id records

theorem orderWorkloads_perm (list : List Workload) : (orderWorkloads list).Perm list :=
  List.perm_insertionSort _ _

/-- Before or level with, in the order of processing. -/
def Workload.Precedes (a b : Workload) : Prop :=
  b.weight < a.weight ∨ (a.weight = b.weight ∧ compareIds a.id b.id ≤ 0)

theorem precedes_total : Std.Total Workload.Precedes where
  total a b := by
    rcases lt_trichotomy a.weight b.weight with hlt | heq | hgt
    · exact .inr (.inl hlt)
    · rcases (compareIds_total Workload.id).total a b with hab | hba
      · exact .inl (.inr ⟨heq, hab⟩)
      · exact .inr (.inr ⟨heq.symm, hba⟩)
    · exact .inl (.inl hgt)

theorem precedes_trans : IsTrans Workload Workload.Precedes where
  trans a b c hab hbc := by
    rcases hab with hab | ⟨hab, hid⟩
    · rcases hbc with hbc | ⟨hbc, -⟩
      · exact .inl (hbc.trans hab)
      · exact .inl (hbc ▸ hab)
    · rcases hbc with hbc | ⟨hbc, hid'⟩
      · exact .inl (hab ▸ hbc)
      · exact .inr ⟨hab.trans hbc, (compareIds_trans Workload.id).trans _ _ _ hid hid'⟩

theorem precedes_antisymm {a b : Workload} (hab : a.Precedes b) (hba : b.Precedes a) :
    a.id = b.id := by
  rcases hab with hab | ⟨hab, hid⟩
  · rcases hba with hba | ⟨hba, -⟩
    · exact absurd hab (lt_asymm hba)
    · exact absurd hab (hba ▸ lt_irrefl _)
  · rcases hba with hba | ⟨-, hid'⟩
    · exact absurd hba (hab ▸ lt_irrefl _)
    · exact compareIds_antisymm hid hid'

theorem orderWorkloads_eq_of_perm {list list' : List Workload} (hperm : list.Perm list')
    (hnd : (list.map (·.id)).Nodup) : orderWorkloads list = orderWorkloads list' := by
  have htotal : Std.Total (fun a b : Workload =>
    b.weight < a.weight ∨ (a.weight = b.weight ∧ compareIds a.id b.id ≤ 0)) := precedes_total
  have htrans : IsTrans Workload (fun a b : Workload =>
    b.weight < a.weight ∨ (a.weight = b.weight ∧ compareIds a.id b.id ≤ 0)) := precedes_trans
  refine KeyedList.insertionSort_eq_of_perm hperm (fun a ha b hb hab hba => ?_)
  exact KeyedList.eq_of_key hnd ha hb (precedes_antisymm hab hba)

end Drac.Central
