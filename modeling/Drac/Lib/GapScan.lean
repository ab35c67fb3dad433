import Mathlib.Order.MinMax
import Mathlib.Data.List.Basic

/-
  Finding the gaps of a cover.

  Half-open intervals, sorted by where they begin, are walked once from `c` up to
  `t`: whenever the next one begins long after all before it have ended, what lies
  between is a gap. What "long" means is a parameter; a shorter stretch is a hole
  that goes unreported.

  `scan_covers`: every point up to `t` is in an interval, in a gap or in a hole, also
  where intervals overlap, nest or repeat. `scan_gaps`, `scan_sorted`: the gaps are
  sorted, apart from each other and from every interval, and within bounds.
-/

namespace GapScan

variable {α : Type} [LinearOrder α]

/-- An interval, closed below and open above. -/
abbrev Interval (α : Type) := α × α

/-- Half-open, as everywhere here. -/
def Interval.Holds (i : Interval α) (x : α) : Prop := i.1 ≤ x ∧ x < i.2

/-- The gaps between `c` and `t`; the cursor is the end of all seen so far. -/
def scan (long : α → α → Bool) (t : α) : α → List (Interval α) → List (Interval α)
  | c, [] => if long c t then [(c, t)] else []
  | c, i :: rest =>
    if long c i.1 then (c, i.1) :: scan long t (max c i.2) rest
    else scan long t (max c i.2) rest

/-- Intervals that may be walked up to `t`: sorted by their beginnings, which are
below `t`, and none of them empty. -/
structure Walkable (t : α) (is : List (Interval α)) : Prop where
  sorted : is.Pairwise (fun i j => i.1 ≤ j.1)
  below : ∀ i ∈ is, i.1 < t
  filled : ∀ i ∈ is, i.1 < i.2

/-- A whole stretch between `c` and `t` that no interval meets and that is not long. -/
structure Hole (long : α → α → Bool) (c t : α) (is : List (Interval α)) (h : Interval α) :
    Prop where
  begins : h.1 = c ∨ ∃ i ∈ is, h.1 = i.2
  ends : h.2 = t ∨ ∃ i ∈ is, h.2 = i.1
  within : c ≤ h.1 ∧ h.2 ≤ t
  apart : ∀ i ∈ is, h.2 ≤ i.1 ∨ i.2 ≤ h.1
  short : long h.1 h.2 = false

section Scan

variable {long : α → α → Bool} {t : α}

theorem Walkable.tail {i : Interval α} {is : List (Interval α)} (h : Walkable t (i :: is)) :
    Walkable t is where
  sorted := (List.pairwise_cons.mp h.sorted).2
  below j hj := h.below j (List.mem_cons_of_mem _ hj)
  filled j hj := h.filled j (List.mem_cons_of_mem _ hj)

theorem Walkable.head_le {i : Interval α} {is : List (Interval α)} (h : Walkable t (i :: is)) :
    ∀ j ∈ is, i.1 ≤ j.1 := (List.pairwise_cons.mp h.sorted).1

/-- A gap begins at or after the cursor, ends by `t`, is not empty where long
stretches are not, and meets no interval. -/
theorem scan_gaps (hlong : ∀ a b, long a b = true → a < b) (is : List (Interval α)) :
    ∀ {c : α}, Walkable t is → ∀ g ∈ scan long t c is,
    c ≤ g.1 ∧ g.1 < g.2 ∧ g.2 ≤ t ∧ long g.1 g.2 = true ∧
      ∀ i ∈ is, g.2 ≤ i.1 ∨ i.2 ≤ g.1 := by
  induction is with
  | nil =>
    intro c _ g hg
    unfold scan at hg
    split at hg
    · next h =>
      obtain rfl := List.mem_singleton.mp hg
      exact ⟨le_refl c, hlong _ _ h, le_refl t, h, by simp⟩
    · cases hg
  | cons i is ih =>
    intro c hw g hg
    -- a gap found further on begins after this interval has ended
    have hlater : g ∈ scan long t (max c i.2) is →
        c ≤ g.1 ∧ g.1 < g.2 ∧ g.2 ≤ t ∧ long g.1 g.2 = true ∧
          ∀ j ∈ i :: is, g.2 ≤ j.1 ∨ j.2 ≤ g.1 := by
      intro hmem
      obtain ⟨hc, hlt, hle, hl, hapart⟩ := ih hw.tail g hmem
      refine ⟨le_trans (le_max_left _ _) hc, hlt, hle, hl, ?_⟩
      intro j hj
      rcases List.mem_cons.mp hj with rfl | hj
      · exact .inr (le_trans (le_max_right _ _) hc)
      · exact hapart j hj
    unfold scan at hg
    split at hg
    · next h =>
      rcases List.mem_cons.mp hg with rfl | hg
      · have hi := List.mem_cons_self (a := i) (l := is)
        refine ⟨le_refl c, hlong _ _ h, le_of_lt (hw.below i hi), h, ?_⟩
        intro j hj
        rcases List.mem_cons.mp hj with rfl | hj
        · exact .inl (le_refl _)
        · exact .inl (hw.head_le j hj)
      · exact hlater hg
    · exact hlater hg

theorem scan_bounds (is : List (Interval α)) : ∀ {c : α}, ∀ g ∈ scan long t c is,
    (g.1 = c ∨ ∃ i ∈ is, g.1 = i.2) ∧ (g.2 = t ∨ ∃ i ∈ is, g.2 = i.1) := by
  induction is with
  | nil =>
    intro c g hg
    unfold scan at hg
    split at hg
    · obtain rfl := List.mem_singleton.mp hg
      exact ⟨.inl rfl, .inl rfl⟩
    · cases hg
  | cons i is ih =>
    intro c g hg
    have hi := List.mem_cons_self (a := i) (l := is)
    have hlater : g ∈ scan long t (max c i.2) is →
        (g.1 = c ∨ ∃ j ∈ i :: is, g.1 = j.2) ∧ (g.2 = t ∨ ∃ j ∈ i :: is, g.2 = j.1) := by
      intro hmem
      obtain ⟨hlo, hhi⟩ := ih g hmem
      constructor
      · rcases hlo with heq | ⟨j, hj, heq⟩
        · rcases max_choice c i.2 with hmax | hmax
          · exact .inl (heq.trans hmax)
          · exact .inr ⟨i, hi, heq.trans hmax⟩
        · exact .inr ⟨j, List.mem_cons_of_mem _ hj, heq⟩
      · rcases hhi with heq | ⟨j, hj, heq⟩
        · exact .inl heq
        · exact .inr ⟨j, List.mem_cons_of_mem _ hj, heq⟩
    unfold scan at hg
    split at hg
    · rcases List.mem_cons.mp hg with rfl | hg
      · exact ⟨.inl rfl, .inr ⟨i, hi, rfl⟩⟩
      · exact hlater hg
    · exact hlater hg

theorem scan_sorted (hlong : ∀ a b, long a b = true → a < b) (is : List (Interval α)) :
    ∀ {c : α}, Walkable t is → (scan long t c is).Pairwise (fun g g' => g.2 ≤ g'.1) := by
  induction is with
  | nil =>
    intro c _
    unfold scan
    split
    · exact List.pairwise_singleton _ _
    · exact List.Pairwise.nil
  | cons i is ih =>
    intro c hw
    unfold scan
    split
    · rw [List.pairwise_cons]
      refine ⟨?_, ih hw.tail⟩
      intro g hg
      have hi := hw.filled i List.mem_cons_self
      have hfrom := (scan_gaps hlong is hw.tail g hg).1
      exact le_trans (le_of_lt hi) (le_trans (le_max_right _ _) hfrom)
    · exact ih hw.tail

/-- **Nothing is lost between the cursor and `t`.** -/
theorem scan_covers (is : List (Interval α)) : ∀ {c : α}, Walkable t is → ∀ x, c ≤ x → x < t →
    (∃ i ∈ is, Interval.Holds i x) ∨ (∃ g ∈ scan long t c is, Interval.Holds g x) ∨
      ∃ h, Hole long c t is h ∧ Interval.Holds h x := by
  induction is with
  | nil =>
    intro c _ x hcx hxt
    unfold scan
    cases hl : long c t with
    | true => exact .inr (.inl ⟨(c, t), by simp, hcx, hxt⟩)
    | false =>
      refine .inr (.inr ⟨(c, t), ⟨.inl rfl, .inl rfl, ⟨le_refl c, le_refl t⟩, ?_, hl⟩, hcx, hxt⟩)
      simp
  | cons i is ih =>
    intro c hw x hcx hxt
    have hi := List.mem_cons_self (a := i) (l := is)
    rcases lt_or_ge x i.1 with hbefore | hafter
    · -- between the cursor and this interval lies a gap or a hole
      right
      cases hl : long c i.1 with
      | true =>
        left
        refine ⟨(c, i.1), ?_, hcx, hbefore⟩
        unfold scan
        rw [if_pos hl]
        exact List.mem_cons_self
      | false =>
        right
        refine ⟨(c, i.1), ⟨.inl rfl, .inr ⟨i, hi, rfl⟩, ⟨le_refl c, le_of_lt (hw.below i hi)⟩, ?_,
          hl⟩, hcx, hbefore⟩
        intro j hj
        rcases List.mem_cons.mp hj with rfl | hj
        · exact .inl (le_refl _)
        · exact .inl (hw.head_le j hj)
    · rcases lt_or_ge x i.2 with hin | hpast
      · exact .inl ⟨i, hi, hafter, hin⟩
      · -- past this interval the walk goes on from the later of the two ends
        have hcur : max c i.2 ≤ x := max_le hcx hpast
        rcases ih hw.tail x hcur hxt with ⟨j, hj, hx⟩ | ⟨g, hg, hx⟩ | ⟨h, hh, hx⟩
        · exact .inl ⟨j, List.mem_cons_of_mem _ hj, hx⟩
        · refine .inr (.inl ⟨g, ?_, hx⟩)
          unfold scan
          split
          · exact List.mem_cons_of_mem _ hg
          · exact hg
        · refine .inr (.inr ⟨h, ⟨?_, ?_, ?_, ?_, hh.short⟩, hx⟩)
          · rcases hh.begins with heq | ⟨j, hj, heq⟩
            · rcases max_choice c i.2 with hmax | hmax
              · exact .inl (heq.trans hmax)
              · exact .inr ⟨i, hi, heq.trans hmax⟩
            · exact .inr ⟨j, List.mem_cons_of_mem _ hj, heq⟩
          · rcases hh.ends with heq | ⟨j, hj, heq⟩
            · exact .inl heq
            · exact .inr ⟨j, List.mem_cons_of_mem _ hj, heq⟩
          · exact ⟨le_trans (le_max_left _ _) hh.within.1, hh.within.2⟩
          · intro j hj
            rcases List.mem_cons.mp hj with rfl | hj
            · exact .inr (le_trans (le_max_right _ _) hh.within.1)
            · exact hh.apart j hj

theorem scan_past (hlong : ∀ a b, long a b = true → a < b) (is : List (Interval α)) :
    ∀ {c : α}, t ≤ c → (∀ i ∈ is, i.1 ≤ t) → scan long t c is = [] := by
  induction is with
  | nil =>
    intro c hc _
    unfold scan
    rw [if_neg (fun h => absurd (hlong _ _ h) (not_lt.mpr hc))]
  | cons i is ih =>
    intro c hc hle
    have hi := (hle i List.mem_cons_self).trans hc
    unfold scan
    rw [if_neg (fun h => absurd (hlong _ _ h) (not_lt.mpr hi))]
    exact ih (hc.trans (le_max_left _ _)) (fun j hj => hle j (List.mem_cons_of_mem _ hj))

theorem scan_filter_below (hlong : ∀ a b, long a b = true → a < b) (is : List (Interval α)) :
    ∀ {c : α}, is.Pairwise (fun i j => i.1 ≤ j.1) → (∀ i ∈ is, i.1 ≤ t) → (∀ i ∈ is, i.1 < i.2) →
    scan long t c is = scan long t c (is.filter (fun i => i.1 < t)) := by
  induction is with
  | nil => exact fun _ _ _ => rfl
  | cons i is ih =>
    intro c hsorted hle hfilled
    obtain ⟨hbefore, hrest⟩ := List.pairwise_cons.mp hsorted
    have hrec := fun {c : α} => ih (c := c) hrest (fun j hj => hle j (List.mem_cons_of_mem _ hj))
      (fun j hj => hfilled j (List.mem_cons_of_mem _ hj))
    by_cases hi : i.1 < t
    · rw [List.filter_cons_of_pos (by simpa using hi), scan, scan, hrec]
    · -- this one begins at `t`, and so do all after it
      have heq : i.1 = t := le_antisymm (hle i List.mem_cons_self) (not_lt.mp hi)
      have hnone : (i :: is).filter (fun i => decide (i.1 < t)) = [] := by
        refine List.filter_eq_nil_iff.mpr (fun j hj => ?_)
        rw [decide_eq_true_eq, not_lt, ← heq]
        rcases List.mem_cons.mp hj with rfl | hj
        · exact le_refl _
        · exact hbefore j hj
      have hpast : scan long t (max c i.2) is = [] :=
        scan_past hlong is (heq ▸ (hfilled i List.mem_cons_self).le.trans (le_max_right _ _))
          (fun j hj => hle j (List.mem_cons_of_mem _ hj))
      rw [hnone, scan, scan, hpast, heq]

end Scan

end GapScan
