import Drac.Lib.BinarySearch
import Drac.Lib.GapScan

/-
  The spans the timeline's ruler draws.

  Correspondence (`timeline-window.ts`, web):
    overlaps, visibleSpanRange, sliceVisibleSpans  ↔ the same names

  A minute of the day is a value of any linear order, since the functions only compare, and
  `span` reads where an item begins and ends. Places are counted without bound: `>> 1` halves
  up to `2 ^ 31`, and no array of the page is that long.

  Spans sorted by where they begin need not be sorted by where they end, so the two cuts are
  found differently: the lower by walking up to the first span that reaches the window, the
  upper by halving. `sliceVisibleSpans_eq_filter`: the slice is what a filter of the whole
  list keeps, in its order and with its places.
-/

namespace Drac.Playback

open BinarySearch GapScan

section Slice

variable {α τ : Type} [LinearOrder α] (span : τ → GapScan.Interval α)

def overlaps (item window : GapScan.Interval α) : Bool :=
  window.1 ≤ item.2 && item.1 ≤ window.2

/-- `spans[i].start > window.end`. -/
def startsAfter (spans : List τ) (window : GapScan.Interval α) (i : Nat) : Bool :=
  spans[i]?.any (fun s => window.2 < (span s).1)

/-- Both cuts; the list is walked for the lower and halved for the upper. -/
def visibleSpanRange (spans : List τ) (window : GapScan.Interval α) : Nat × Nat :=
  let startIndex := spans.findIdx (fun s => window.1 ≤ (span s).2)
  if startIndex = spans.length then (spans.length, spans.length)
  else (startIndex, firstTrue (startsAfter span spans window) startIndex spans.length)

structure VisibleSlice (τ : Type) where
  items : List τ
  indices : List Nat
  startIndex : Nat
  endIndex : Nat
  deriving DecidableEq, Repr

/-- The places of an item are those of the whole list. -/
def sliceVisibleSpans (spans : List τ) (window : GapScan.Interval α) : VisibleSlice τ :=
  let range := visibleSpanRange span spans window
  let visible := ((spans.zipIdx.take range.2).drop range.1).filter
    (fun e => overlaps (span e.1) window)
  { items := visible.map Prod.fst, indices := visible.map Prod.snd,
    startIndex := range.1, endIndex := range.2 }

/-! ## The cuts -/

variable {span} {spans : List τ} {window : GapScan.Interval α}

theorem startsAfter_upward (h : spans.Pairwise (fun a b => (span a).1 ≤ (span b).1)) (low : Nat) :
    Upward (startsAfter span spans window) low spans.length := by
  intro i j _ hij hj hi
  rcases Nat.eq_or_lt_of_le hij with rfl | hlt
  · exact hi
  · have hle : (span spans[i]).1 ≤ (span spans[j]).1 :=
      List.pairwise_iff_getElem.mp h i j (by omega) hj hlt
    simp only [startsAfter, List.getElem?_eq_getElem (show i < spans.length by omega),
      Option.any_some, decide_eq_true_eq] at hi
    simp only [startsAfter, List.getElem?_eq_getElem hj, Option.any_some, decide_eq_true_eq]
    exact lt_of_lt_of_le hi hle

theorem visibleSpanRange_fst :
    (visibleSpanRange span spans window).1 = spans.findIdx (fun s => window.1 ≤ (span s).2) := by
  simp only [visibleSpanRange, apply_ite Prod.fst]
  split
  · next hall => exact hall.symm
  · rfl

theorem overlaps_of_lt_fst {i : Nat} (hi : i < spans.length)
    (hlt : i < (visibleSpanRange span spans window).1) :
    overlaps (span spans[i]) window = false := by
  rw [visibleSpanRange_fst] at hlt
  have hends := List.not_of_lt_findIdx hlt
  simp only [overlaps, Bool.and_eq_false_imp]
  intro hreach
  exact absurd hreach (by simpa using hends)

theorem overlaps_of_snd_le (h : spans.Pairwise (fun a b => (span a).1 ≤ (span b).1)) {i : Nat}
    (hi : i < spans.length) (hle : (visibleSpanRange span spans window).2 ≤ i) :
    overlaps (span spans[i]) window = false := by
  have hafter : startsAfter span spans window i = true := by
    simp only [visibleSpanRange, apply_ite Prod.snd] at hle
    split at hle
    · exact absurd hi (Nat.not_lt.mpr hle)
    · exact (firstTrue_spec (startsAfter_upward h _) List.findIdx_le_length).2.2.2 i hle hi
  simp only [startsAfter, List.getElem?_eq_getElem hi, Option.any_some, decide_eq_true_eq] at hafter
  simp only [overlaps, Bool.and_eq_false_imp]
  intro _
  exact decide_eq_false (not_le.mpr hafter)

/-! ## The slice -/

/-- What is cut off on both sides holds nothing that a filter would keep. -/
theorem filter_drop_take {β : Type} {l : List β} {p : β → Bool} {s e : Nat}
    (hbefore : ∀ i (hi : i < l.length), i < s → p l[i] = false)
    (hafter : ∀ i (hi : i < l.length), e ≤ i → p l[i] = false) :
    ((l.take e).drop s).filter p = l.filter p := by
  have hhead : ((l.take e).take s).filter p = [] := by
    refine List.filter_eq_nil_iff.mpr (fun a ha => ?_)
    obtain ⟨i, hi, rfl⟩ := List.mem_iff_getElem.mp ha
    simp only [List.length_take] at hi
    simp [List.getElem_take, hbefore i (by omega) (by omega)]
  have htail : (l.drop e).filter p = [] := by
    refine List.filter_eq_nil_iff.mpr (fun a ha => ?_)
    obtain ⟨i, hi, rfl⟩ := List.mem_iff_getElem.mp ha
    simp only [List.length_drop] at hi
    simp [List.getElem_drop, hafter (e + i) (by omega) (by omega)]
  calc ((l.take e).drop s).filter p
      = ((l.take e).take s).filter p ++ ((l.take e).drop s).filter p := by
        rw [hhead, List.nil_append]
    _ = (l.take e).filter p := by rw [← List.filter_append, List.take_append_drop]
    _ = (l.take e).filter p ++ (l.drop e).filter p := by rw [htail, List.append_nil]
    _ = l.filter p := by rw [← List.filter_append, List.take_append_drop]

/-- For spans sorted by where they begin, the slice is the filter of the whole list. -/
theorem sliceVisibleSpans_eq_filter
    (hsorted : spans.Pairwise (fun a b => (span a).1 ≤ (span b).1)) (window : GapScan.Interval α) :
    (sliceVisibleSpans span spans window).items =
        spans.filter (fun s => overlaps (span s) window) ∧
      (sliceVisibleSpans span spans window).indices =
        (spans.zipIdx.filter (fun e => overlaps (span e.1) window)).map Prod.snd := by
  have hslice : ((spans.zipIdx.take (visibleSpanRange span spans window).2).drop
      (visibleSpanRange span spans window).1).filter (fun e => overlaps (span e.1) window) =
        spans.zipIdx.filter (fun e => overlaps (span e.1) window) := by
    apply filter_drop_take
    · intro i hi hlt
      rw [List.getElem_zipIdx]
      exact overlaps_of_lt_fst (by simpa using hi) hlt
    · intro i hi hle
      rw [List.getElem_zipIdx]
      exact overlaps_of_snd_le hsorted (by simpa using hi) hle
  refine ⟨?_, ?_⟩
  · calc (sliceVisibleSpans span spans window).items
        = (spans.zipIdx.filter (fun e => overlaps (span e.1) window)).map Prod.fst :=
          congrArg (List.map Prod.fst) hslice
      _ = (spans.zipIdx.map Prod.fst).filter (fun s => overlaps (span s) window) := by
          rw [List.filter_map]
          rfl
      _ = spans.filter (fun s => overlaps (span s) window) := by
          rw [List.zipIdx_map_fst]
  · exact congrArg (List.map Prod.snd) hslice

/-- A night-long span that begins first, and a short one that ends before the window. -/
theorem sliceVisibleSpans_eq_filter_nested :
    [((0 : Int), (900 : Int)), (5, 10), (700, 800), (860, 870)].Pairwise
        (fun a b => (id a).1 ≤ (id b).1) ∧
      (sliceVisibleSpans id [((0 : Int), (900 : Int)), (5, 10), (700, 800), (860, 870)]
        (720, 840)).items =
          [((0 : Int), (900 : Int)), (5, 10), (700, 800), (860, 870)].filter
            (fun s => overlaps (id s) (720, 840)) := by
  have hsorted : [((0 : Int), (900 : Int)), (5, 10), (700, 800), (860, 870)].Pairwise
      (fun a b => (id a).1 ≤ (id b).1) := by decide
  exact ⟨hsorted, (sliceVisibleSpans_eq_filter hsorted (720, 840)).1⟩

end Slice

end Drac.Playback
