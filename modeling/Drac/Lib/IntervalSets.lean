import Drac.Lib.GapScan
import Mathlib.Data.List.Pairwise

/-
  Lists of intervals as sets of points.

  `Covers` says which points a list holds, and `Apart` that it is sorted with room between
  its intervals, so that one set is one list. Over these:

    fuse         intervals sorted by their beginnings, those that meet made one: the union
    holes        what a sorted list leaves of an interval: the difference
    Consecutive  pieces laid end to end, which hold what lies between their ends
-/

namespace IntervalSets

open GapScan

variable {α : Type} [LinearOrder α]

/-- The point lies in one of the intervals. -/
def Covers (is : List (GapScan.Interval α)) (x : α) : Prop := ∃ i ∈ is, GapScan.Interval.Holds i x

/-- Sorted intervals with room between them. -/
structure Apart (is : List (GapScan.Interval α)) : Prop where
  filled : ∀ i ∈ is, i.1 < i.2
  sorted : is.Pairwise (fun i j => i.2 < j.1)

section Points

variable {is js : List (GapScan.Interval α)} {i : GapScan.Interval α} {x : α}

@[simp] theorem covers_nil : ¬ Covers [] x := by
  rintro ⟨i, hi, _⟩
  cases hi

@[simp] theorem covers_cons : Covers (i :: is) x ↔ GapScan.Interval.Holds i x ∨ Covers is x := by
  simp [Covers]

theorem covers_append : Covers (is ++ js) x ↔ Covers is x ∨ Covers js x := by
  simp only [Covers, List.mem_append, or_and_right, exists_or]

@[simp] theorem covers_reverse : Covers is.reverse x ↔ Covers is x := by
  simp [Covers]

theorem covers_perm (h : is.Perm js) : Covers is x ↔ Covers js x := by
  simp only [Covers, h.mem_iff]

theorem covers_filter_filled : Covers (is.filter (fun i => i.1 < i.2)) x ↔ Covers is x := by
  constructor
  · rintro ⟨i, hi, hx⟩
    exact ⟨i, (List.mem_filter.mp hi).1, hx⟩
  · rintro ⟨i, hi, hx⟩
    exact ⟨i, List.mem_filter.mpr ⟨hi, decide_eq_true (lt_of_le_of_lt hx.1 hx.2)⟩, hx⟩

theorem apart_nil : Apart ([] : List (GapScan.Interval α)) := ⟨by simp, .nil⟩

theorem apart_cons : Apart (i :: is) ↔ i.1 < i.2 ∧ (∀ j ∈ is, i.2 < j.1) ∧ Apart is := by
  constructor
  · intro h
    have hsorted := List.pairwise_cons.mp h.sorted
    exact ⟨h.filled i List.mem_cons_self, hsorted.1,
      fun j hj => h.filled j (List.mem_cons_of_mem _ hj), hsorted.2⟩
  · rintro ⟨hi, hbefore, hrest⟩
    refine ⟨?_, List.pairwise_cons.mpr ⟨hbefore, hrest.sorted⟩⟩
    intro j hj
    rcases List.mem_cons.mp hj with rfl | hj
    · exact hi
    · exact hrest.filled j hj

theorem Apart.le_of_covers (h : Apart (i :: is)) (hx : Covers (i :: is) x) : i.1 ≤ x := by
  obtain ⟨hi, hbefore, _⟩ := apart_cons.mp h
  rcases covers_cons.mp hx with hx | ⟨j, hj, hx⟩
  · exact hx.1
  · exact le_trans (le_of_lt (hi.trans (hbefore j hj))) hx.1

theorem Apart.le_last (h : Apart is) {last : GapScan.Interval α} (hlast : is.getLast? = some last) :
    ∀ j ∈ is, j.2 ≤ last.2 := by
  obtain ⟨before, rfl⟩ := List.getLast?_eq_some_iff.mp hlast
  intro j hj
  rcases List.mem_append.mp hj with hj | hj
  · have hbefore := (List.pairwise_append.mp h.sorted).2.2 j hj last List.mem_cons_self
    exact (hbefore.trans (h.filled last (List.mem_append_right _ List.mem_cons_self))).le
  · rw [List.mem_singleton.mp hj]

end Points

/-! ## Union -/

/-- One interval more, which begins after those before it; the last one is the head. -/
def absorb (merged : List (GapScan.Interval α)) (range : GapScan.Interval α) :
    List (GapScan.Interval α) :=
  match merged with
  | [] => [range]
  | last :: rest =>
    if last.2 < range.1 then range :: last :: rest
    else (last.1, max last.2 range.2) :: rest

/-- For intervals sorted by their beginnings. -/
def fuse (ranges : List (GapScan.Interval α)) : List (GapScan.Interval α) :=
  (ranges.foldl absorb []).reverse

section Union

variable {merged ranges : List (GapScan.Interval α)} {range : GapScan.Interval α}

theorem covers_absorb (hle : ∀ i ∈ merged, i.1 ≤ range.1) (hr : range.1 < range.2) (x : α) :
    Covers (absorb merged range) x ↔ Covers merged x ∨ GapScan.Interval.Holds range x := by
  unfold absorb
  cases merged with
  | nil => simp
  | cons last rest =>
    have hlast := hle last List.mem_cons_self
    simp only
    split
    · rw [covers_cons, or_comm]
    · next hmeet =>
      have hgrown : GapScan.Interval.Holds (last.1, max last.2 range.2) x ↔
          GapScan.Interval.Holds last x ∨ GapScan.Interval.Holds range x := by
        simp only [GapScan.Interval.Holds, lt_max_iff]
        grind
      rw [covers_cons, covers_cons, hgrown]
      tauto

theorem apart_absorb (h : Apart merged.reverse) (hle : ∀ i ∈ merged, i.1 ≤ range.1)
    (hr : range.1 < range.2) :
    Apart (absorb merged range).reverse ∧ ∀ i ∈ absorb merged range, i.1 ≤ range.1 := by
  have hfilled : ∀ i ∈ merged, i.1 < i.2 := fun i hi => h.filled i (List.mem_reverse.mpr hi)
  have hsorted : merged.Pairwise (fun i j => j.2 < i.1) := List.pairwise_reverse.mp h.sorted
  suffices hstack : (∀ i ∈ absorb merged range, i.1 < i.2) ∧
      (absorb merged range).Pairwise (fun i j => j.2 < i.1) ∧
      ∀ i ∈ absorb merged range, i.1 ≤ range.1 from
    ⟨⟨fun i hi => hstack.1 i (List.mem_reverse.mp hi), List.pairwise_reverse.mpr hstack.2.1⟩,
      hstack.2.2⟩
  unfold absorb
  cases merged with
  | nil => simp [hr]
  | cons last rest =>
    obtain ⟨hbefore, hrest⟩ := List.pairwise_cons.mp hsorted
    have hlast := hfilled last List.mem_cons_self
    simp only
    split
    · next hfree =>
      refine ⟨?_, List.pairwise_cons.mpr ⟨?_, hsorted⟩, ?_⟩
      · exact List.forall_mem_cons.mpr ⟨hr, hfilled⟩
      · -- the head ends last, and it ends before `range` begins
        refine List.forall_mem_cons.mpr ⟨hfree, fun j hj => ?_⟩
        exact ((hbefore j hj).trans hlast).trans hfree
      · exact List.forall_mem_cons.mpr ⟨le_refl _, hle⟩
    · refine ⟨?_, List.pairwise_cons.mpr ⟨hbefore, hrest⟩, ?_⟩
      · exact List.forall_mem_cons.mpr ⟨lt_max_of_lt_left hlast,
          fun j hj => hfilled j (List.mem_cons_of_mem _ hj)⟩
      · exact List.forall_mem_cons.mpr ⟨hle last List.mem_cons_self,
          fun j hj => hle j (List.mem_cons_of_mem _ hj)⟩

theorem foldl_absorb (hsorted : ranges.Pairwise (fun i j => i.1 ≤ j.1))
    (hfilled : ∀ i ∈ ranges, i.1 < i.2) (h : Apart merged.reverse)
    (hle : ∀ r ∈ ranges, ∀ i ∈ merged, i.1 ≤ r.1) :
    Apart (ranges.foldl absorb merged).reverse ∧
      ∀ x, Covers (ranges.foldl absorb merged) x ↔ Covers merged x ∨ Covers ranges x := by
  induction ranges generalizing merged with
  | nil => exact ⟨h, fun x => by simp⟩
  | cons r rest ih =>
    obtain ⟨hbefore, hrest⟩ := List.pairwise_cons.mp hsorted
    have hr := hfilled r List.mem_cons_self
    have hfirst := hle r List.mem_cons_self
    obtain ⟨hapart, hstarts⟩ := apart_absorb h hfirst hr
    obtain ⟨hdone, hcovers⟩ := ih hrest (fun i hi => hfilled i (List.mem_cons_of_mem _ hi)) hapart
      (fun s hs i hi => (hstarts i hi).trans (hbefore s hs))
    refine ⟨hdone, fun x => ?_⟩
    calc Covers (rest.foldl absorb (absorb merged r)) x
        ↔ Covers (absorb merged r) x ∨ Covers rest x := hcovers x
      _ ↔ (Covers merged x ∨ GapScan.Interval.Holds r x) ∨ Covers rest x := by
          rw [covers_absorb hfirst hr]
      _ ↔ Covers merged x ∨ Covers (r :: rest) x := by rw [covers_cons, or_assoc]

theorem fuse_spec (hsorted : ranges.Pairwise (fun i j => i.1 ≤ j.1))
    (hfilled : ∀ i ∈ ranges, i.1 < i.2) :
    Apart (fuse ranges) ∧ ∀ x, Covers (fuse ranges) x ↔ Covers ranges x := by
  have hnone : Apart ([] : List (GapScan.Interval α)).reverse := apart_nil
  obtain ⟨hapart, hcovers⟩ := foldl_absorb hsorted hfilled hnone (by simp)
  refine ⟨hapart, fun x => ?_⟩
  rw [fuse, covers_reverse, hcovers x]
  simp

theorem absorb_ends (x : GapScan.Interval α) (hx : x ∈ absorb merged range) :
    ((∃ i ∈ merged, x.1 = i.1) ∨ x.1 = range.1) ∧ ((∃ i ∈ merged, x.2 = i.2) ∨ x.2 = range.2) := by
  unfold absorb at hx
  cases merged with
  | nil =>
    rw [List.mem_singleton.mp hx]
    exact ⟨.inr rfl, .inr rfl⟩
  | cons last rest =>
    have hlast : last ∈ last :: rest := List.mem_cons_self
    simp only at hx
    split at hx
    · rcases List.mem_cons.mp hx with rfl | hx
      · exact ⟨.inr rfl, .inr rfl⟩
      · exact ⟨.inl ⟨x, hx, rfl⟩, .inl ⟨x, hx, rfl⟩⟩
    · rcases List.mem_cons.mp hx with rfl | hx
      · refine ⟨.inl ⟨last, hlast, rfl⟩, ?_⟩
        rcases max_choice last.2 range.2 with hmax | hmax
        · exact .inl ⟨last, hlast, hmax⟩
        · exact .inr hmax
      · have hmem := List.mem_cons_of_mem last hx
        exact ⟨.inl ⟨x, hmem, rfl⟩, .inl ⟨x, hmem, rfl⟩⟩

theorem absorb_within (hle : ∀ i ∈ merged, i.1 ≤ range.1) (x : GapScan.Interval α)
    (hx : x ∈ merged ∨ x = range) : ∃ j ∈ absorb merged range, j.1 ≤ x.1 ∧ x.2 ≤ j.2 := by
  unfold absorb
  cases merged with
  | nil =>
    rcases hx with hx | rfl
    · cases hx
    · exact ⟨x, List.mem_cons_self, le_refl _, le_refl _⟩
  | cons last rest =>
    have hlast := hle last List.mem_cons_self
    simp only
    split
    · rcases hx with hx | rfl
      · exact ⟨x, List.mem_cons_of_mem _ hx, le_refl _, le_refl _⟩
      · exact ⟨x, List.mem_cons_self, le_refl _, le_refl _⟩
    · rcases hx with hx | rfl
      · rcases List.mem_cons.mp hx with rfl | hx
        · exact ⟨_, List.mem_cons_self, le_refl _, le_max_left _ _⟩
        · exact ⟨x, List.mem_cons_of_mem _ hx, le_refl _, le_refl _⟩
      · exact ⟨_, List.mem_cons_self, hlast, le_max_right _ _⟩

theorem foldl_absorb_ends : ∀ (merged : List (GapScan.Interval α)),
    ∀ x ∈ ranges.foldl absorb merged,
    (∃ i ∈ merged ++ ranges, x.1 = i.1) ∧ ∃ i ∈ merged ++ ranges, x.2 = i.2 := by
  induction ranges with
  | nil =>
    intro merged x hx
    rw [List.append_nil]
    exact ⟨⟨x, hx, rfl⟩, x, hx, rfl⟩
  | cons r rest ih =>
    intro merged x hx
    obtain ⟨⟨i, hi, hbegins⟩, j, hj, hends⟩ := ih (absorb merged r) x hx
    have hr : r ∈ merged ++ r :: rest := List.mem_append_right _ List.mem_cons_self
    constructor
    · rw [hbegins]
      rcases List.mem_append.mp hi with hi | hi
      · rcases (absorb_ends i hi).1 with ⟨k, hk, heq⟩ | heq
        · exact ⟨k, List.mem_append_left _ hk, heq⟩
        · exact ⟨r, hr, heq⟩
      · exact ⟨i, List.mem_append_right _ (List.mem_cons_of_mem _ hi), rfl⟩
    · rw [hends]
      rcases List.mem_append.mp hj with hj | hj
      · rcases (absorb_ends j hj).2 with ⟨k, hk, heq⟩ | heq
        · exact ⟨k, List.mem_append_left _ hk, heq⟩
        · exact ⟨r, hr, heq⟩
      · exact ⟨j, List.mem_append_right _ (List.mem_cons_of_mem _ hj), rfl⟩

theorem fuse_ends {x : GapScan.Interval α} (hx : x ∈ fuse ranges) :
    (∃ i ∈ ranges, x.1 = i.1) ∧ ∃ i ∈ ranges, x.2 = i.2 :=
  foldl_absorb_ends [] x (List.mem_reverse.mp hx)

theorem foldl_absorb_within (hsorted : ranges.Pairwise (fun i j => i.1 ≤ j.1)) :
    ∀ (merged : List (GapScan.Interval α)), (∀ r ∈ ranges, ∀ i ∈ merged, i.1 ≤ r.1) →
    ∀ x, x ∈ merged ∨ x ∈ ranges → ∃ j ∈ ranges.foldl absorb merged, j.1 ≤ x.1 ∧ x.2 ≤ j.2 := by
  induction ranges with
  | nil =>
    intro merged _ x hx
    rcases hx with hx | hx
    · exact ⟨x, hx, le_refl _, le_refl _⟩
    · cases hx
  | cons r rest ih =>
    intro merged hle x hx
    obtain ⟨hbefore, hrest⟩ := List.pairwise_cons.mp hsorted
    have hfirst := hle r List.mem_cons_self
    have hstarts : ∀ s ∈ rest, ∀ i ∈ absorb merged r, i.1 ≤ s.1 := by
      intro s hs i hi
      rcases (absorb_ends i hi).1 with ⟨k, hk, heq⟩ | heq
      · exact heq ▸ (hfirst k hk).trans (hbefore s hs)
      · exact heq ▸ hbefore s hs
    have hstep : x ∈ merged ∨ x = r → ∃ j ∈ rest.foldl absorb (absorb merged r),
        j.1 ≤ x.1 ∧ x.2 ≤ j.2 := by
      intro hx
      obtain ⟨j, hj, hlo, hhi⟩ := absorb_within hfirst x hx
      obtain ⟨k, hk, hlo', hhi'⟩ := ih hrest (absorb merged r) hstarts j (.inl hj)
      exact ⟨k, hk, hlo'.trans hlo, hhi.trans hhi'⟩
    rcases hx with hx | hx
    · exact hstep (.inl hx)
    · rcases List.mem_cons.mp hx with rfl | hx
      · exact hstep (.inr rfl)
      · exact ih hrest (absorb merged r) hstarts x (.inr hx)

theorem fuse_within (hsorted : ranges.Pairwise (fun i j => i.1 ≤ j.1)) {x : GapScan.Interval α}
    (hx : x ∈ ranges) : ∃ j ∈ fuse ranges, j.1 ≤ x.1 ∧ x.2 ≤ j.2 := by
  obtain ⟨j, hj, hx⟩ := foldl_absorb_within hsorted [] (by simp) x (.inr hx)
  exact ⟨j, List.mem_reverse.mpr hj, hx⟩

end Union

/-! ## Difference -/

/-- What is left of `[cursor, stop)` past the last range. -/
def lastHole (stop cursor : α) : List (GapScan.Interval α) :=
  if cursor < stop then [(cursor, stop)] else []

/-- What ranges that are sorted leave of `[cursor, stop)`. -/
def holes (stop : α) : α → List (GapScan.Interval α) → List (GapScan.Interval α)
  | cursor, [] => lastHole stop cursor
  | cursor, range :: rest =>
    if range.2 ≤ cursor then holes stop cursor rest
    else if stop ≤ range.1 then lastHole stop cursor
    else
      (if cursor < range.1 then [(cursor, min range.1 stop)] else []) ++
        (if stop ≤ max cursor range.2 then lastHole stop (max cursor range.2)
          else holes stop (max cursor range.2) rest)

section Difference

variable {stop cursor : α} {ranges : List (GapScan.Interval α)} {x : α}

theorem covers_lastHole : Covers (lastHole stop cursor) x ↔ cursor ≤ x ∧ x < stop := by
  unfold lastHole
  split
  · simp [GapScan.Interval.Holds]
  · next hnone =>
    simp only [covers_nil, false_iff]
    intro hx
    exact hnone (lt_of_le_of_lt hx.1 hx.2)

theorem apart_lastHole : Apart (lastHole stop cursor) := by
  unfold lastHole
  split
  · next hlt => exact apart_cons.mpr ⟨hlt, by simp, apart_nil⟩
  · exact apart_nil

theorem covers_holes (h : Apart ranges) (x : α) :
    Covers (holes stop cursor ranges) x ↔ (cursor ≤ x ∧ x < stop) ∧ ¬ Covers ranges x := by
  induction ranges generalizing cursor with
  | nil => simp [holes, covers_lastHole]
  | cons range rest ih =>
    obtain ⟨hfilled, hbefore, hrest⟩ := apart_cons.mp h
    have hfirst := h.le_of_covers (x := x)
    have hlater : Covers rest x → range.2 < x := by
      rintro ⟨j, hj, hx⟩
      exact lt_of_lt_of_le (hbefore j hj) hx.1
    simp only [covers_cons] at hfirst ⊢
    unfold holes
    split
    · next hpast =>
      rw [ih hrest]
      simp only [GapScan.Interval.Holds]
      grind
    · split
      · next hout =>
        rw [covers_lastHole]
        simp only [GapScan.Interval.Holds] at hfirst ⊢
        grind
      · next hin hout =>
        -- up to the range, and past it
        have hhead : Covers (if cursor < range.1 then [(cursor, min range.1 stop)] else []) x ↔
            cursor ≤ x ∧ x < range.1 := by
          rw [min_eq_left (le_of_lt (not_le.mp hout))]
          exact covers_lastHole
        have htail : Covers (if stop ≤ max cursor range.2 then lastHole stop (max cursor range.2)
            else holes stop (max cursor range.2) rest) x ↔
              (max cursor range.2 ≤ x ∧ x < stop) ∧ ¬ Covers rest x := by
          split
          · next hdone =>
            rw [covers_lastHole]
            grind
          · exact ih hrest
        rw [covers_append, hhead, htail]
        simp only [GapScan.Interval.Holds, max_le_iff] at hfirst ⊢
        grind

theorem holes_apart (h : Apart ranges) :
    Apart (holes stop cursor ranges) ∧ ∀ hole ∈ holes stop cursor ranges, cursor ≤ hole.1 := by
  have hlast : ∀ cursor : α, Apart (lastHole stop cursor) ∧
      ∀ hole ∈ lastHole stop cursor, cursor ≤ hole.1 := by
    intro cursor
    refine ⟨apart_lastHole, ?_⟩
    unfold lastHole
    split <;> simp
  induction ranges generalizing cursor with
  | nil => exact hlast cursor
  | cons range rest ih =>
    obtain ⟨hfilled, _, hrest⟩ := apart_cons.mp h
    unfold holes
    split
    · exact ih hrest
    · split
      · exact hlast cursor
      · next hin hout =>
        have htail : Apart (if stop ≤ max cursor range.2 then lastHole stop (max cursor range.2)
            else holes stop (max cursor range.2) rest) ∧
              ∀ hole ∈ (if stop ≤ max cursor range.2 then lastHole stop (max cursor range.2)
                else holes stop (max cursor range.2) rest), max cursor range.2 ≤ hole.1 := by
          split
          · exact hlast _
          · exact ih hrest
        split
        · next hfree =>
          rw [min_eq_left (le_of_lt (not_le.mp hout)), List.singleton_append]
          refine ⟨apart_cons.mpr ⟨hfree, fun hole hmem => ?_, htail.1⟩, ?_⟩
          · -- the range itself lies between its hole and the next
            calc range.1 < range.2 := hfilled
              _ ≤ max cursor range.2 := le_max_right _ _
              _ ≤ hole.1 := htail.2 hole hmem
          · exact List.forall_mem_cons.mpr ⟨le_refl _,
              fun hole hmem => (le_max_left _ _).trans (htail.2 hole hmem)⟩
        · rw [List.nil_append]
          exact ⟨htail.1, fun hole hmem => (le_max_left _ _).trans (htail.2 hole hmem)⟩

end Difference

/-! ## Pieces laid end to end -/

/-- The pieces lead from `a` to `b`, none of them empty. -/
def Consecutive : α → List (GapScan.Interval α) → α → Prop
  | a, [], b => a = b
  | a, piece :: rest, b => piece.1 = a ∧ piece.1 < piece.2 ∧ Consecutive piece.2 rest b

theorem Consecutive.le {pieces : List (GapScan.Interval α)} :
    ∀ {a b : α}, Consecutive a pieces b → a ≤ b := by
  induction pieces with
  | nil => exact fun h => le_of_eq h
  | cons piece rest ih =>
    rintro a b ⟨rfl, hlt, hrest⟩
    exact (le_of_lt hlt).trans (ih hrest)

theorem covers_consecutive {pieces : List (GapScan.Interval α)} (x : α) :
    ∀ {a b : α}, Consecutive a pieces b → (Covers pieces x ↔ a ≤ x ∧ x < b) := by
  induction pieces with
  | nil =>
    rintro a b rfl
    simp only [covers_nil, false_iff]
    intro hx
    exact absurd hx.2 (not_lt.mpr hx.1)
  | cons piece rest ih =>
    rintro a b ⟨rfl, hlt, hrest⟩
    have hle := hrest.le
    rw [covers_cons, ih hrest]
    simp only [GapScan.Interval.Holds]
    grind

end IntervalSets
