import Drac.Lib.Binary64
import Drac.Lib.CursorPaging
import Drac.Lib.IntervalSets
import Mathlib.Data.Rat.Floor

/-
  What the timeline still has to fetch for a window.

  Correspondence (`timeline-window.ts`, web):
    finite, clamp, planWindowFetch ↔ the same names
    mergeRanges    ↔ the same name, its loop as `IntervalSets.fuse`
    subtractRanges ↔ the same name, its loop as `IntervalSets.holes`
    chunkRanges    ↔ the same name, its inner loop as `chunkFrom`, so many turns of it

  Minutes are rationals, the doubles among them, and sums are rounded as doubles are. A
  number that may be missing, or not finite, is `none`; the source gives both the same
  default. The base of a subtraction and the ranges that are cut into chunks are computed
  by the page and finite. A loop of chunks ends unless a size is lost when it is added.

  Results:
    `mergeRanges_spec`      the union of the finite ranges, sorted and apart
    `subtractRanges_spec`   the difference, sorted and apart
    `planWindowFetch_spec`  the minutes of the padded window that are within the day and not
                            loaded
    `chunkRanges_spec`      chunks end to end, none over the largest size as doubles add it
    `chunkRanges_ends`      when the loops end
-/

namespace Drac.Playback

open Binary64 CursorPaging GapScan IntervalSets

abbrev RawRange := Option ℚ × Option ℚ

def timelineTotalMinutes : ℚ := 24 * 60

def finite (value : Option ℚ) (fallback : ℚ) : ℚ := value.getD fallback

def clamp (value least most : ℚ) : ℚ := max least (min most value)

/-! ## Merging and subtracting -/

def finiteRange : RawRange → Option (GapScan.Interval ℚ)
  | (some start, some stop) => some (start, stop)
  | _ => none

def finiteRanges (ranges : List RawRange) : List (GapScan.Interval ℚ) :=
  ranges.filterMap finiteRange

def mergeRanges (ranges : List RawRange) : List (GapScan.Interval ℚ) :=
  fuse (byTime Prod.fst ((finiteRanges ranges).filter (fun r => r.1 < r.2)))

def subtractRanges (base : GapScan.Interval ℚ) (taken : List RawRange) :
    List (GapScan.Interval ℚ) :=
  (holes base.2 base.1 (mergeRanges taken)).filter (fun hole => hole.1 < hole.2)

theorem mergeRanges_spec (ranges : List RawRange) :
    Apart (mergeRanges ranges) ∧
      ∀ x, Covers (mergeRanges ranges) x ↔ Covers (finiteRanges ranges) x := by
  have hperm := byTime_perm Prod.fst ((finiteRanges ranges).filter (fun r => r.1 < r.2))
  have hfilled : ∀ r ∈ byTime Prod.fst ((finiteRanges ranges).filter (fun r => r.1 < r.2)),
      r.1 < r.2 :=
    fun r hr => of_decide_eq_true (List.mem_filter.mp (hperm.mem_iff.mp hr)).2
  obtain ⟨hapart, hcovers⟩ := fuse_spec (byTime_sorted Prod.fst _) hfilled
  refine ⟨hapart, fun x => ?_⟩
  rw [mergeRanges, hcovers x, covers_perm hperm, covers_filter_filled]

theorem subtractRanges_spec (base : GapScan.Interval ℚ) (taken : List RawRange) :
    Apart (subtractRanges base taken) ∧
      ∀ x, Covers (subtractRanges base taken) x ↔
        GapScan.Interval.Holds base x ∧ ¬ Covers (finiteRanges taken) x := by
  obtain ⟨hmerged, hcovers⟩ := mergeRanges_spec taken
  have hapart : Apart (holes base.2 base.1 (mergeRanges taken)) := (holes_apart hmerged).1
  -- no hole is empty, so the last filter of the source drops none
  have hall : subtractRanges base taken = holes base.2 base.1 (mergeRanges taken) :=
    List.filter_eq_self.mpr (fun hole hmem => decide_eq_true (hapart.filled hole hmem))
  rw [hall]
  refine ⟨hapart, fun x => ?_⟩
  rw [covers_holes hmerged, hcovers x, GapScan.Interval.Holds]

/-! ## The plan of a window -/

/-- What `planWindowFetch` is called with. -/
structure WindowFetch where
  window : RawRange
  loaded : List RawRange
  padMinutes : Option ℚ := none
  lookbackMinutes : Option ℚ := none
  totalMins : Option ℚ := none

namespace WindowFetch

def total (input : WindowFetch) : ℚ := max 1 (finite input.totalMins timelineTotalMinutes)

/-- Where the fetch begins, before it is kept within the day. -/
def earliest (input : WindowFetch) : ℚ :=
  minus (minus (finite input.window.1 0) (max 0 (finite input.padMinutes 0)))
    (max 0 (finite input.lookbackMinutes 0))

def latest (input : WindowFetch) : ℚ :=
  plus (finite input.window.2 input.total) (max 0 (finite input.padMinutes 0))

/-- The minute is of the day and of the window to fetch. -/
def Needs (input : WindowFetch) (x : ℚ) : Prop :=
  (0 ≤ x ∧ x < input.total) ∧ input.earliest ≤ x ∧ x < input.latest

end WindowFetch

def planWindowFetch (input : WindowFetch) : List (GapScan.Interval ℚ) :=
  let start := clamp input.earliest 0 input.total
  let stop := clamp input.latest 0 input.total
  if stop ≤ start then [] else subtractRanges (start, stop) input.loaded

/-- Two ends kept within the day hold the points of the day between them. -/
theorem holds_clamp {a b total x : ℚ} :
    GapScan.Interval.Holds (clamp a 0 total, clamp b 0 total) x ↔
      (0 ≤ x ∧ x < total) ∧ a ≤ x ∧ x < b := by
  simp only [GapScan.Interval.Holds, clamp, max_le_iff, min_le_iff, lt_max_iff, lt_min_iff]
  constructor
  · rintro ⟨⟨hx, hstart⟩, hstop⟩
    have hin : x < total ∧ x < b := hstop.resolve_left (not_lt.mpr hx)
    exact ⟨⟨hx, hin.1⟩, hstart.resolve_left (not_le.mpr hin.1), hin.2⟩
  · rintro ⟨⟨hx, htotal⟩, hstart, hstop⟩
    exact ⟨⟨hx, .inr hstart⟩, .inr ⟨htotal, hstop⟩⟩

theorem planWindowFetch_spec (input : WindowFetch) :
    Apart (planWindowFetch input) ∧
      ∀ x, Covers (planWindowFetch input) x ↔
        input.Needs x ∧ ¬ Covers (finiteRanges input.loaded) x := by
  unfold planWindowFetch
  simp only
  split
  · next hempty =>
    refine ⟨apart_nil, fun x => ?_⟩
    have hnone : ¬ input.Needs x := by
      intro hx
      have hholds := holds_clamp.mpr hx
      exact absurd (lt_of_le_of_lt hholds.1 hholds.2) (not_lt.mpr hempty)
    simp [hnone]
  · obtain ⟨hapart, hcovers⟩ := subtractRanges_spec
      (clamp input.earliest 0 input.total, clamp input.latest 0 input.total) input.loaded
    refine ⟨hapart, fun x => ?_⟩
    rw [hcovers x, holds_clamp, WindowFetch.Needs]

/-! ## Chunks -/

/-- The chunks of `[start, stop)`, where the loop is over in so many turns. -/
def chunkFrom (size stop : ℚ) : ℕ → ℚ → Option (List (GapScan.Interval ℚ))
  | turns, start =>
    if start < stop then
      match turns with
      | 0 => none
      | turns + 1 => (chunkFrom size stop turns (plus start size)).map
          ((start, min (plus start size) stop) :: ·)
    else some []

def chunkAll (size : ℚ) (turns : ℕ) :
    List (GapScan.Interval ℚ) → Option (List (GapScan.Interval ℚ))
  | [] => some []
  | range :: rest =>
    (chunkFrom size range.2 turns range.1).bind (fun chunks =>
      (chunkAll size turns rest).map (chunks ++ ·))

def chunkRanges (turns : ℕ) (ranges : List (GapScan.Interval ℚ)) (maxMinutes : Option ℚ) :
    Option (List (GapScan.Interval ℚ)) :=
  if 0 < finite maxMinutes 0 then chunkAll (finite maxMinutes 0) turns ranges
  else some ranges

/-- The pieces of one range: end to end, none empty and none longer than the size as the loop
adds it. -/
structure Chunked (size : ℚ) (range : GapScan.Interval ℚ) (chunks : List (GapScan.Interval ℚ)) :
    Prop where
  consecutive : Consecutive range.1 chunks (max range.1 range.2)
  short : ∀ chunk ∈ chunks, chunk.2 ≤ plus chunk.1 size

/-- No double in the range takes the size without a step. -/
def Advances (size : ℚ) (range : GapScan.Interval ℚ) : Prop :=
  ∀ s, fl s = s → range.1 ≤ s → s < range.2 → s < plus s size

section Loop

variable {size stop start : ℚ} {turns : ℕ} {chunks : List (GapScan.Interval ℚ)}

theorem chunkFrom_stuck {s : ℚ} (hstop : s < stop) (hstuck : plus s size ≤ s) :
    ∀ (turns : ℕ) {start : ℚ}, start ≤ s → chunkFrom size stop turns start = none := by
  intro turns
  induction turns with
  | zero =>
    intro start hle
    rw [chunkFrom, if_pos (hle.trans_lt hstop)]
  | succ turns ih =>
    intro start hle
    rw [chunkFrom, if_pos (hle.trans_lt hstop), ih ((plus_mono hle).trans hstuck), Option.map_none]

theorem chunkFrom_advances (h : chunkFrom size stop turns start = some chunks) :
    Advances size (start, stop) := by
  intro s hs hle hstop
  by_contra hstuck
  rw [chunkFrom_stuck hstop (not_lt.mp hstuck) turns hle] at h
  cases h

theorem chunkFrom_chunked : ∀ (turns : ℕ) {start : ℚ} {chunks : List (GapScan.Interval ℚ)},
    fl start = start → chunkFrom size stop turns start = some chunks →
    Chunked size (start, stop) chunks := by
  intro turns
  induction turns with
  | zero =>
    intro start chunks _ h
    rw [chunkFrom] at h
    split at h
    · cases h
    · next hge =>
      cases h
      exact ⟨(max_eq_left (not_lt.mp hge)).symm, by simp⟩
  | succ turns ih =>
    intro start chunks hstart h
    have hadvances := chunkFrom_advances h
    rw [chunkFrom] at h
    split at h
    · next hlt =>
      obtain ⟨rest, hrest, rfl⟩ := Option.map_eq_some_iff.mp h
      have hstep := hadvances start hstart le_rfl hlt
      obtain ⟨hconsecutive, hshort⟩ := ih (fl_plus _ _) hrest
      refine ⟨⟨rfl, lt_min hstep hlt, ?_⟩, List.forall_mem_cons.mpr ⟨min_le_left _ _, hshort⟩⟩
      rcases le_or_gt stop (plus start size) with hlast | hmore
      · -- the last chunk: what comes after it is empty
        have hnone : rest = [] := by
          unfold chunkFrom at hrest
          rw [if_neg (not_lt.mpr hlast)] at hrest
          exact (Option.some.inj hrest).symm
        rw [hnone, min_eq_right hlast, max_eq_right hlt.le]
        rfl
      · rw [min_eq_left hmore.le, max_eq_right hlt.le]
        simpa only [max_eq_right hmore.le] using hconsecutive
    · next hge =>
      cases h
      exact ⟨(max_eq_left (not_lt.mp hge)).symm, by simp⟩

/-- A loop that advances takes at least a quarter of the size in each turn. -/
theorem chunkFrom_isSome (hsize : 0 < size) : ∀ (turns : ℕ) {start : ℚ}, fl start = start →
    Advances size (start, stop) → stop ≤ start + turns * (size / 4) →
    (chunkFrom size stop turns start).isSome := by
  intro turns
  induction turns with
  | zero =>
    intro start _ _ hle
    rw [Nat.cast_zero, zero_mul, add_zero] at hle
    rw [chunkFrom, if_neg (not_lt.mpr hle)]
    rfl
  | succ turns ih =>
    intro start hstart hadvances hle
    rw [chunkFrom]
    split
    · next hlt =>
      have hstep := hadvances start hstart le_rfl hlt
      have hlong := plus_step hstart hsize hstep
      rw [Option.isSome_map]
      refine ih (fl_plus _ _) (fun s hs hfrom => hadvances s hs (hstep.le.trans hfrom)) ?_
      push_cast at hle
      linarith
    · rfl

end Loop

section

variable {size : ℚ} {turns : ℕ}

theorem chunkAll_chunked : ∀ {ranges chunks : List (GapScan.Interval ℚ)},
    (∀ range ∈ ranges, fl range.1 = range.1) → chunkAll size turns ranges = some chunks →
    ∃ parts, chunks = parts.flatten ∧ List.Forall₂ (Chunked size) ranges parts := by
  intro ranges
  induction ranges with
  | nil =>
    intro chunks _ h
    cases h
    exact ⟨[], rfl, .nil⟩
  | cons range rest ih =>
    intro chunks hstarts h
    obtain ⟨hstart, hstarts⟩ := List.forall_mem_cons.mp hstarts
    obtain ⟨first, hfirst, h⟩ := Option.bind_eq_some_iff.mp h
    obtain ⟨others, hothers, rfl⟩ := Option.map_eq_some_iff.mp h
    obtain ⟨parts, rfl, hparts⟩ := ih hstarts hothers
    exact ⟨first :: parts, rfl, .cons (chunkFrom_chunked turns hstart hfirst) hparts⟩

theorem chunkAll_advances : ∀ {ranges chunks : List (GapScan.Interval ℚ)},
    chunkAll size turns ranges = some chunks → ∀ range ∈ ranges, Advances size range := by
  intro ranges
  induction ranges with
  | nil => intro chunks _ range hmem; cases hmem
  | cons range rest ih =>
    intro chunks h
    obtain ⟨first, hfirst, h⟩ := Option.bind_eq_some_iff.mp h
    obtain ⟨others, hothers, -⟩ := Option.map_eq_some_iff.mp h
    exact List.forall_mem_cons.mpr ⟨chunkFrom_advances hfirst, ih hothers⟩

theorem chunkAll_isSome (hsize : 0 < size) : ∀ {ranges : List (GapScan.Interval ℚ)},
    (∀ range ∈ ranges, fl range.1 = range.1) → (∀ range ∈ ranges, Advances size range) →
    (∀ range ∈ ranges, range.2 ≤ range.1 + turns * (size / 4)) →
    (chunkAll size turns ranges).isSome := by
  intro ranges
  induction ranges with
  | nil => intro _ _ _; rfl
  | cons range rest ih =>
    intro hstarts hadvances hturns
    obtain ⟨hstart, hstarts⟩ := List.forall_mem_cons.mp hstarts
    obtain ⟨hadvance, hadvances⟩ := List.forall_mem_cons.mp hadvances
    obtain ⟨hturn, hturns⟩ := List.forall_mem_cons.mp hturns
    obtain ⟨first, hfirst⟩ := Option.isSome_iff_exists.mp
      (chunkFrom_isSome hsize turns hstart hadvance hturn)
    rw [chunkAll, hfirst, Option.bind_some, Option.isSome_map]
    exact ih hstarts hadvances hturns

theorem exists_turns (hsize : 0 < size) (ranges : List (GapScan.Interval ℚ)) :
    ∃ turns : ℕ, ∀ range ∈ ranges, range.2 ≤ range.1 + turns * (size / 4) := by
  induction ranges with
  | nil => exact ⟨0, by simp⟩
  | cons range rest ih =>
    obtain ⟨more, hrest⟩ := ih
    have hfirst := Nat.le_ceil ((range.2 - range.1) / (size / 4))
    rw [div_le_iff₀ (by positivity)] at hfirst
    set first := ⌈(range.2 - range.1) / (size / 4)⌉₊
    have hmore : ∀ n ≤ max first more, (n : ℚ) * (size / 4) ≤ (max first more : ℕ) * (size / 4) :=
      fun n hn => mul_le_mul_of_nonneg_right (by exact_mod_cast hn) (by positivity)
    refine ⟨max first more, List.forall_mem_cons.mpr ⟨?_, fun r hr => ?_⟩⟩
    · linarith [hmore first (le_max_left _ _)]
    · linarith [hrest r hr, hmore more (le_max_right _ _)]

end

section

variable {ranges : List (GapScan.Interval ℚ)} {size : ℚ}

theorem chunkRanges_ends (h : 0 < size) (hstarts : ∀ range ∈ ranges, fl range.1 = range.1) :
    (∃ turns chunks, chunkRanges turns ranges (some size) = some chunks) ↔
      ∀ range ∈ ranges, Advances size range := by
  have hchunks (turns : ℕ) : chunkRanges turns ranges (some size) = chunkAll size turns ranges :=
    if_pos h
  simp only [hchunks]
  constructor
  · rintro ⟨turns, chunks, hall⟩
    exact chunkAll_advances hall
  · intro hadvances
    obtain ⟨turns, hturns⟩ := exists_turns h ranges
    exact ⟨turns, Option.isSome_iff_exists.mp (chunkAll_isSome h hstarts hadvances hturns)⟩

theorem chunkRanges_spec (h : 0 < size) (hstarts : ∀ range ∈ ranges, fl range.1 = range.1)
    {turns : ℕ} {chunks : List (GapScan.Interval ℚ)}
    (hchunks : chunkRanges turns ranges (some size) = some chunks) :
    (∃ parts, chunks = parts.flatten ∧ List.Forall₂ (Chunked size) ranges parts) ∧
      ∀ x, Covers chunks x ↔ Covers ranges x := by
  obtain ⟨parts, rfl, hparts⟩ := chunkAll_chunked hstarts ((if_pos h).symm.trans hchunks)
  refine ⟨⟨parts, rfl, hparts⟩, fun x => ?_⟩
  clear hchunks hstarts
  induction hparts with
  | nil => rfl
  | @cons range part rest others hpart _ ih =>
    rw [List.flatten_cons, covers_append, covers_cons, ih,
      covers_consecutive x hpart.consecutive, lt_max_iff, GapScan.Interval.Holds]
    have hside : range.1 ≤ x ∧ (x < range.1 ∨ x < range.2) ↔ range.1 ≤ x ∧ x < range.2 :=
      and_congr_right (fun hle => or_iff_right (not_lt.mpr hle))
    rw [hside]

theorem chunkRanges_whole (turns : ℕ) {maxMinutes : Option ℚ} (h : ¬ 0 < finite maxMinutes 0) :
    chunkRanges turns ranges maxMinutes = some ranges :=
  if_neg h

end

/-! ## All of it -/

/-- Planning, subtracting, merging and chunking are exact on the finite ranges, up to the
rounding of sums; a loop of chunks ends exactly where every double of its range advances. -/
theorem windowFetch_exact :
    (∀ input : WindowFetch, Apart (planWindowFetch input) ∧
      ∀ x, Covers (planWindowFetch input) x ↔
        input.Needs x ∧ ¬ Covers (finiteRanges input.loaded) x) ∧
    (∀ base taken, Apart (subtractRanges base taken) ∧
      ∀ x, Covers (subtractRanges base taken) x ↔
        GapScan.Interval.Holds base x ∧ ¬ Covers (finiteRanges taken) x) ∧
    (∀ ranges, Apart (mergeRanges ranges) ∧
      ∀ x, Covers (mergeRanges ranges) x ↔ Covers (finiteRanges ranges) x) ∧
    (∀ ranges size, 0 < size → (∀ range ∈ ranges, fl range.1 = range.1) →
      ((∃ turns chunks, chunkRanges turns ranges (some size) = some chunks) ↔
        ∀ range ∈ ranges, Advances size range) ∧
      ∀ turns chunks, chunkRanges turns ranges (some size) = some chunks →
        (∃ parts, chunks = parts.flatten ∧ List.Forall₂ (Chunked size) ranges parts) ∧
        ∀ x, Covers chunks x ↔ Covers ranges x) ∧
    ∀ turns ranges maxMinutes, ¬ 0 < finite maxMinutes 0 →
      chunkRanges turns ranges maxMinutes = some ranges :=
  ⟨planWindowFetch_spec, subtractRanges_spec, mergeRanges_spec,
    fun _ _ h hstarts => ⟨chunkRanges_ends h hstarts, fun _ _ hchunks =>
      chunkRanges_spec h hstarts hchunks⟩,
    fun turns _ _ h => chunkRanges_whole turns h⟩

/-- Three hours from minute 76.1 are more than 180 minutes as doubles, and a size of zero leaves
ten minutes whole. -/
theorem chunkRanges_long :
    chunkRanges 1 [(fl (761 / 10), plus (fl (761 / 10)) 180)] (some 180) =
        some [(fl (761 / 10), plus (fl (761 / 10)) 180)] ∧
      180 < plus (fl (761 / 10)) 180 - fl (761 / 10) ∧
      chunkRanges 0 [(0, 10)] (some 0) = some [(0, 10)] := by
  decide +kernel

end Drac.Playback
