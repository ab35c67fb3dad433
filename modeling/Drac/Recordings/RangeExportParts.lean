import Drac.Recordings.RangeExport

/-
  The parts of a range export.

  In whole milliseconds a part reaches from the later of its segment's beginning and
  the margin before the interval to the earlier of the segment's end and the margin
  after it (`partLo_eq`, `partHi_eq`). `foldl_addPart` says what the loop over the
  segments makes: one part of each, and the margins of the last one cut.
-/

namespace Drac.Recordings

open GapScan

/-! ## Rounding -/

@[simp] theorem roundMs_intCast (k : Int) : roundMs k = k := by
  unfold roundMs
  rw [Int.floor_intCast_add]
  norm_num

theorem roundMs_intCast_add (k : Int) (x : ℚ) : roundMs (k + x) = k + roundMs x := by
  unfold roundMs
  rw [add_assoc, Int.floor_intCast_add]

theorem roundMs_mono {x y : ℚ} (h : x ≤ y) : roundMs x ≤ roundMs y := by
  unfold roundMs
  exact Int.floor_mono (by linarith)

/-- A whole number of milliseconds survives being written in seconds. -/
theorem roundSeconds_mul (ms : ℚ) : roundSeconds ms * 1000 = roundMs ms := by
  unfold roundSeconds
  rw [div_mul_cancel₀]
  norm_num

theorem dateMs_intCast (k : Int) : dateMs k = k := by
  unfold dateMs
  split
  · exact Int.floor_intCast k
  · exact Int.ceil_intCast k

/-! ## One part -/

/-- A segment that overlaps the interval in more than a border. -/
structure Overlaps (fromMs toMs : Int) (c : Candidate) : Prop where
  filled : c.startMs < c.endMs
  ends : fromMs < c.endMs
  starts : c.startMs < toMs

section Part

variable {fromMs toMs : Int} {margin : ℚ} {c : Candidate}

def partLo (fromMs : Int) (margin : ℚ) (c : Candidate) : Int :=
  c.startMs + roundMs (cutIn fromMs margin c)

def partHi (toMs : Int) (margin : ℚ) (c : Candidate) : Int :=
  c.startMs + roundMs (cutOut toMs margin c)

theorem cutIn_eq (fromMs : Int) (c : Candidate) (hm : 0 ≤ margin) :
    (c.startMs : ℚ) + cutIn fromMs margin c = max (c.startMs : ℚ) (fromMs - margin) := by
  unfold cutIn rawIn
  split
  · next hpos =>
    have hcut : (0 : ℚ) < fromMs - c.startMs := by
      rcases lt_max_iff.mp hpos with h | h
      · exact absurd h (lt_irrefl 0)
      · exact h
    rw [max_eq_right (le_of_lt hcut)]
    rcases le_total (fromMs - c.startMs : ℚ) margin with h | h
    · rw [max_eq_left (by linarith), max_eq_left (by linarith)]
      ring
    · rw [max_eq_right (by linarith), max_eq_right (by linarith)]
      ring
  · next hneg =>
    have hcut : (fromMs : ℚ) - c.startMs ≤ 0 := by
      by_contra h
      exact hneg (lt_max_of_lt_right (not_le.mp h))
    rw [max_eq_left (by linarith)]
    ring

theorem cutOut_eq (toMs : Int) (c : Candidate) (hm : 0 ≤ margin) :
    (c.startMs : ℚ) + cutOut toMs margin c = min (c.endMs : ℚ) (toMs + margin) := by
  unfold cutOut rawOut fileDuration
  split
  · next hcut =>
    have hto : (toMs : ℚ) - c.startMs < c.endMs - c.startMs := by
      rcases min_lt_iff.mp hcut with h | h
      · exact absurd h (lt_irrefl _)
      · exact h
    rw [min_eq_right (le_of_lt hto)]
    rcases le_total (c.endMs - c.startMs : ℚ) (toMs - c.startMs + margin) with h | h
    · rw [min_eq_left h, min_eq_left (by linarith)]
      ring
    · rw [min_eq_right h, min_eq_right (by linarith)]
      ring
  · next hwhole =>
    have hto : (c.endMs : ℚ) ≤ toMs := by
      by_contra h
      exact hwhole (min_lt_of_right_lt (by linarith [not_le.mp h]))
    rw [min_eq_left (by linarith)]
    ring

/-- The margin before the interval, as it comes out in whole milliseconds. -/
def backMargin (margin : ℚ) : Int := ⌈margin - 1 / 2⌉

theorem roundMs_neg (x : ℚ) : roundMs (-x) = -backMargin x := by
  unfold roundMs backMargin
  rw [← Int.floor_neg]
  congr 1
  ring

theorem roundMs_max (x y : ℚ) : roundMs (max x y) = max (roundMs x) (roundMs y) :=
  Monotone.map_max (fun _ _ h => roundMs_mono h)

theorem roundMs_min (x y : ℚ) : roundMs (min x y) = min (roundMs x) (roundMs y) :=
  Monotone.map_min (fun _ _ h => roundMs_mono h)

theorem backMargin_nonneg (hm : 0 ≤ margin) : 0 ≤ backMargin margin := by
  have hlt : (-1 : ℚ) < margin - 1 / 2 := by linarith
  have hceil : (-1 : Int) < ⌈margin - 1 / 2⌉ := Int.lt_ceil.mpr (by exact_mod_cast hlt)
  unfold backMargin
  omega

theorem roundMs_nonneg (hm : 0 ≤ margin) : 0 ≤ roundMs margin := by
  have h := roundMs_mono hm
  rwa [show (0 : ℚ) = ((0 : Int) : ℚ) from rfl, roundMs_intCast] at h

theorem backMargin_le (margin : ℚ) : backMargin margin ≤ roundMs margin := by
  unfold backMargin roundMs
  have hfloor := Int.lt_floor_add_one (margin + 1 / 2)
  exact Int.ceil_le.mpr (by linarith)

theorem partLo_eq (hm : 0 ≤ margin) :
    partLo fromMs margin c = max c.startMs (fromMs - backMargin margin) := by
  rw [partLo, ← roundMs_intCast_add, cutIn_eq fromMs c hm, roundMs_max, roundMs_intCast, sub_eq_add_neg,
    roundMs_intCast_add, roundMs_neg, ← sub_eq_add_neg]

theorem partHi_eq (hm : 0 ≤ margin) :
    partHi toMs margin c = min c.endMs (toMs + roundMs margin) := by
  rw [partHi, ← roundMs_intCast_add, cutOut_eq toMs c hm, roundMs_min, roundMs_intCast,
    roundMs_intCast_add]

theorem partLo_lt_partHi (hm : 0 ≤ margin) (hint : fromMs < toMs) (h : Overlaps fromMs toMs c) :
    partLo fromMs margin c < partHi toMs margin c := by
  have hback := backMargin_nonneg hm
  have hround := roundMs_nonneg hm
  have hfilled := h.filled
  have hends := h.ends
  have hstarts := h.starts
  rw [partLo_eq hm, partHi_eq hm]
  omega

theorem cutIn_lt_cutOut (hm : 0 ≤ margin) (hint : fromMs < toMs) (h : Overlaps fromMs toMs c) :
    cutIn fromMs margin c < cutOut toMs margin c := by
  have hlo := cutIn_eq fromMs c hm
  have hhi := cutOut_eq toMs c hm
  have hfilled : (c.startMs : ℚ) < c.endMs := by exact_mod_cast h.filled
  have hends : (fromMs : ℚ) < c.endMs := by exact_mod_cast h.ends
  have hstarts : (c.startMs : ℚ) < toMs := by exact_mod_cast h.starts
  have hint' : (fromMs : ℚ) < toMs := by exact_mod_cast hint
  have hlt : max (c.startMs : ℚ) (fromMs - margin) < min (c.endMs : ℚ) (toMs + margin) := by
    rw [max_lt_iff, lt_min_iff, lt_min_iff]
    refine ⟨⟨hfilled, ?_⟩, ?_, ?_⟩ <;> linarith
  linarith

theorem rawIn_sub_cutIn (fromMs : Int) (margin : ℚ) {c : Candidate} (hcut : c.startMs < fromMs) :
    rawIn fromMs c - cutIn fromMs margin c = min ((fromMs - c.startMs : Int) : ℚ) margin := by
  have hcut' : (c.startMs : ℚ) < fromMs := by exact_mod_cast hcut
  have hraw : rawIn fromMs c = fromMs - c.startMs := max_eq_right (by linarith)
  rw [cutIn, if_pos (by rw [hraw]; linarith), hraw, Int.cast_sub]
  rcases le_total ((fromMs : ℚ) - c.startMs) margin with h | h
  · rw [max_eq_left (by linarith), min_eq_left h]
    ring
  · rw [max_eq_right (by linarith), min_eq_right h]
    ring

theorem cutOut_sub_rawOut (toMs : Int) (margin : ℚ) {c : Candidate} (hcut : toMs < c.endMs) :
    cutOut toMs margin c - rawOut toMs c = min ((c.endMs - toMs : Int) : ℚ) margin := by
  have hcut' : (toMs : ℚ) < c.endMs := by exact_mod_cast hcut
  have hraw : rawOut toMs c = toMs - c.startMs := by
    unfold rawOut fileDuration
    exact min_eq_right (by linarith)
  rw [cutOut, if_pos (by rw [hraw, fileDuration]; linarith), hraw, fileDuration, Int.cast_sub]
  rcases le_total ((c.endMs : ℚ) - toMs) margin with h | h
  · rw [min_eq_left (by linarith), min_eq_left h]
    ring
  · rw [min_eq_right (by linarith), min_eq_right h]
    ring

theorem rawIn_pos_iff : 0 < rawIn fromMs c ↔ c.startMs < fromMs := by
  unfold rawIn
  rw [lt_max_iff, sub_pos, Int.cast_lt]
  constructor
  · rintro (h | h)
    · exact absurd h (lt_irrefl 0)
    · exact h
  · exact .inr

theorem rawOut_lt_iff : rawOut toMs c < fileDuration c ↔ toMs < c.endMs := by
  unfold rawOut fileDuration
  have hcast : (toMs : ℚ) - c.startMs < c.endMs - c.startMs ↔ toMs < c.endMs := by
    rw [sub_lt_sub_iff_right, Int.cast_lt]
  rw [min_lt_iff, hcast]
  constructor
  · rintro (h | h)
    · exact absurd h (lt_irrefl _)
    · exact h
  · exact .inr

end Part

/-! ## All parts -/

/-- What a plan keeps of a part: whose it is, and the instants it reaches from and to. -/
def RangeExportPart.reach (p : RangeExportPart) : String × ℚ × ℚ := (p.recordingId, p.fromMs, p.toMs)

def reachOf (fromMs toMs : Int) (margin : ℚ) (c : Candidate) : String × ℚ × ℚ :=
  (c.id, (partLo fromMs margin c : ℚ), (partHi toMs margin c : ℚ))

/-- The last segment that begins before the interval, and the last that ends after
it: those whose margins the plan declares. -/
def lastEarly (fromMs : Int) (selected : List Candidate) : Option Candidate :=
  (selected.filter (fun c => c.startMs < fromMs)).getLast?

def lastLate (toMs : Int) (selected : List Candidate) : Option Candidate :=
  (selected.filter (fun c => toMs < c.endMs)).getLast?

section Parts

variable {fromMs toMs : Int} {margin : ℚ} (hm : 0 ≤ margin) (hint : fromMs < toMs)

include hm hint

theorem addPart_eq (st : PartsState) {c : Candidate} (hc : Overlaps fromMs toMs c) :
    (addPart fromMs toMs margin st c).parts.map (·.reach) =
        st.parts.map (·.reach) ++ [reachOf fromMs toMs margin c] ∧
      (addPart fromMs toMs margin st c).leadInMs =
        (if c.startMs < fromMs then min ((fromMs - c.startMs : Int) : ℚ) margin else st.leadInMs) ∧
      (addPart fromMs toMs margin st c).leadOutMs =
        (if toMs < c.endMs then min ((c.endMs - toMs : Int) : ℚ) margin else st.leadOutMs) := by
  have hlt := cutIn_lt_cutOut hm hint hc
  have hdur : ¬ cutOut toMs margin c - cutIn fromMs margin c ≤ 0 := by linarith
  simp only [addPart, if_neg hdur, rawIn_pos_iff, rawOut_lt_iff]
  refine ⟨?_, ?_, ?_⟩
  · rw [List.map_append]
    simp only [List.map_cons, List.map_nil, RangeExportPart.reach, RangeExportPart.fromMs,
      RangeExportPart.toMs, roundSeconds_mul, reachOf, partLo, partHi, Int.cast_add]
  · split
    · next hcut => exact rawIn_sub_cutIn fromMs margin hcut
    · rfl
  · split
    · next hcut => exact cutOut_sub_rawOut toMs margin hcut
    · rfl

/-- **The loop over the segments** makes one part of each, in order; the margins it
ends with are those of the last segment cut at either end. -/
theorem foldl_addPart (selected : List Candidate) : ∀ (st : PartsState),
    (∀ c ∈ selected, Overlaps fromMs toMs c) →
    (selected.foldl (addPart fromMs toMs margin) st).parts.map (·.reach) =
        st.parts.map (·.reach) ++ selected.map (reachOf fromMs toMs margin) ∧
      (selected.foldl (addPart fromMs toMs margin) st).leadInMs =
        ((lastEarly fromMs selected).map
          (fun c => min ((fromMs - c.startMs : Int) : ℚ) margin)).getD st.leadInMs ∧
      (selected.foldl (addPart fromMs toMs margin) st).leadOutMs =
        ((lastLate toMs selected).map
          (fun c => min ((c.endMs - toMs : Int) : ℚ) margin)).getD st.leadOutMs := by
  induction selected with
  | nil => intro st _; simp [lastEarly, lastLate]
  | cons c rest ih =>
    intro st hall
    have hc := hall c List.mem_cons_self
    obtain ⟨hparts, hin, hout⟩ := addPart_eq hm hint st hc
    obtain ⟨hparts', hin', hout'⟩ := ih (addPart fromMs toMs margin st c)
      (fun d hd => hall d (List.mem_cons_of_mem _ hd))
    rw [List.foldl_cons]
    refine ⟨?_, ?_, ?_⟩
    · rw [hparts', hparts, List.map_cons, List.append_assoc, List.singleton_append]
    · rw [hin', hin]
      unfold lastEarly
      by_cases hcut : c.startMs < fromMs
      · rw [if_pos hcut, List.filter_cons_of_pos (by simpa using hcut), List.getLast?_cons]
        cases (rest.filter (fun c => decide (c.startMs < fromMs))).getLast? <;> rfl
      · rw [if_neg hcut, List.filter_cons_of_neg (by simpa using hcut)]
    · rw [hout', hout]
      unfold lastLate
      by_cases hcut : toMs < c.endMs
      · rw [if_pos hcut, List.filter_cons_of_pos (by simpa using hcut), List.getLast?_cons]
        cases (rest.filter (fun c => decide (toMs < c.endMs))).getLast? <;> rfl
      · rw [if_neg hcut, List.filter_cons_of_neg (by simpa using hcut)]

end Parts

/-! ## The segments selected -/

theorem usableEnd_gt {raw : RangeSourceSegment} {startMs endMs : Int}
    (h : usableEnd raw startMs = some endMs) : startMs < endMs := by
  unfold usableEnd at h
  split at h
  · next e he =>
    cases h
    rw [Option.filter_eq_some_iff] at he
    simpa using he.2
  · rw [Option.map_eq_some_iff] at h
    obtain ⟨d, hd, rfl⟩ := h
    rw [Option.filter_eq_some_iff] at hd
    have hpos : 0 < d := by simpa using hd.2
    omega

theorem candidateOf_some {fromMs toMs : Int} {raw : RangeSourceSegment} {c : Candidate}
    (h : candidateOf fromMs toMs raw = some c) :
    c.id = raw.id ∧ raw.startedAt = some c.startMs ∧ usableEnd raw c.startMs = some c.endMs ∧
      Overlaps fromMs toMs c := by
  simp only [candidateOf, Option.bind_eq_some_iff] at h
  obtain ⟨startMs, hstart, endMs, hend, h⟩ := h
  split at h
  · cases h
  · next hborder =>
    cases h
    rw [not_or, not_le, not_le] at hborder
    exact ⟨rfl, hstart, hend, usableEnd_gt hend, hborder.1, hborder.2⟩

theorem candidateOf_usable {fromMs toMs : Int} {raw : RangeSourceSegment} {startMs endMs : Int}
    (hstart : raw.startedAt = some startMs) (hend : usableEnd raw startMs = some endMs)
    (hfrom : fromMs < endMs) (hto : startMs < toMs) :
    ∃ c, candidateOf fromMs toMs raw = some c ∧ c.id = raw.id ∧ c.startMs = startMs ∧
      c.endMs = endMs := by
  have hborder : ¬ (endMs ≤ fromMs ∨ toMs ≤ startMs) := by omega
  simp only [candidateOf, hstart, hend, Option.bind_some, if_neg hborder]
  exact ⟨_, rfl, rfl, rfl, rfl⟩

namespace LocaleOrder

variable (order : LocaleOrder)

instance totalPrecedesCandidate : Std.Total order.precedes where
  total a b := by
    unfold precedes
    rcases Int.lt_trichotomy a.startMs b.startMs with hlt | heq | hgt
    · exact .inl (.inl hlt)
    · rcases order.total a.id b.id with h | h
      · exact .inl (.inr ⟨heq, h⟩)
      · exact .inr (.inr ⟨heq.symm, h⟩)
    · exact .inr (.inl hgt)

instance transPrecedesCandidate : IsTrans Candidate order.precedes where
  trans a b c h k := by
    unfold precedes at *
    rcases h with h | ⟨h, hid⟩
    · rcases k with k | ⟨k, -⟩
      · exact .inl (by omega)
      · exact .inl (by omega)
    · rcases k with k | ⟨k, kid⟩
      · exact .inl (by omega)
      · exact .inr ⟨h.trans k, order.trans _ _ _ hid kid⟩

end LocaleOrder

section Selected

variable {order : LocaleOrder} {input : PlanRangeExportInput} {fromMs toMs : Int}

theorem selected_sorted :
    (selectSegments order input fromMs toMs).Pairwise (fun c d => c.startMs ≤ d.startMs) := by
  have hsorted : (candidatesOf order input fromMs toMs).Pairwise order.precedes :=
    List.pairwise_insertionSort _ _
  refine (hsorted.sublist (List.take_sublist _ _)).imp ?_
  rintro c d (h | ⟨h, -⟩)
  · exact Int.le_of_lt h
  · exact Int.le_of_eq h

theorem mem_candidatesOf {c : Candidate} : c ∈ candidatesOf order input fromMs toMs ↔
    ∃ raw ∈ input.segments, candidateOf fromMs toMs raw = some c := by
  rw [candidatesOf, List.mem_insertionSort, List.mem_filterMap]

theorem selected_overlaps :
    ∀ c ∈ selectSegments order input fromMs toMs, Overlaps fromMs toMs c := by
  intro c hc
  obtain ⟨raw, -, h⟩ := mem_candidatesOf.mp (List.mem_of_mem_take hc)
  exact (candidateOf_some h).2.2.2

theorem marginMs_nonneg (input : PlanRangeExportInput) (strategy : RangeExportStrategy) :
    0 ≤ marginMs input strategy := by
  cases strategy with
  | copy => exact mul_nonneg (le_max_left _ _) (by norm_num)
  | transcode => exact le_refl 0

end Selected

end Drac.Recordings
