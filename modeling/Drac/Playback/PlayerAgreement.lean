import Drac.Playback.VodPlaylist
import Drac.Recordings.RangeExportCoverage

/-
  The player reads the playlist the API planned.

  The API sums whole milliseconds and turns each sum to seconds; the player sums seconds and
  rounds each sum to milliseconds. `Drift` bounds what its sum has gone astray after some
  segments: as long as that stays below half a millisecond, both say the same offset.
-/

namespace Drac.Playback

open Binary64 JsText Recordings

/-! ## Sums of seconds -/

/-- How far the sum of `k` durations may be from the seconds it stands for: they are part of
a playlist `total` milliseconds long. -/
def Drift (total : ℤ) (k : ℕ) (sum : ℤ) (seconds : ℚ) : Prop :=
  |seconds - sum / 1000| ≤ 3 * k * total / (1000 * 2 ^ 53)

/-- The bound on a playlist of `n` segments. -/
def WithinPrecision (n : ℕ) (total : ℤ) : Prop := (3 * n + 2) * total < 2 ^ 52

instance (n : ℕ) (total : ℤ) : Decidable (WithinPrecision n total) :=
  inferInstanceAs (Decidable (_ < _))

section Sums

variable {n k : ℕ} {total sum length : ℤ} {seconds : ℚ}

theorem drift_zero : Drift total 0 0 0 := by
  simp [Drift]

theorem abs_seconds_sub_le (hlength : 0 ≤ length) (hle : length ≤ total) :
    |fl ((length : ℚ) / 1000) - length / 1000| ≤ total / (1000 * 2 ^ 53) := by
  have hl : (0 : ℚ) ≤ length := by exact_mod_cast hlength
  have ht : (length : ℚ) ≤ total := by exact_mod_cast hle
  have h := abs_fl_sub_le ((length : ℚ) / 1000)
  rw [abs_of_nonneg (by positivity : (0 : ℚ) ≤ length / 1000)] at h
  refine h.trans ?_
  rw [div_div]
  exact div_le_div_of_nonneg_right ht (by positivity)

theorem drift_small (hprecision : WithinPrecision n total) (htotal : 0 < total) (hk : k ≤ n) :
    (3 * (k : ℚ) + 2) * total < 2 ^ 52 ∧ 3 * (k : ℚ) + 2 < 2 ^ 52 := by
  have hbound : (3 * (n : ℤ) + 2) * total < 2 ^ 52 := hprecision
  have hkn : (3 * (k : ℤ) + 2) * total ≤ (3 * (n : ℤ) + 2) * total :=
    mul_le_mul_of_nonneg_right (by omega) htotal.le
  have hone : 3 * (k : ℤ) + 2 ≤ (3 * (k : ℤ) + 2) * total :=
    le_mul_of_one_le_right (by omega) (by omega)
  constructor
  · exact_mod_cast hkn.trans_lt hbound
  · exact_mod_cast (hone.trans hkn).trans_lt hbound

theorem drift_step (hprecision : WithinPrecision n total) (htotal : 0 < total) (hk : k < n)
    (hsum : 0 ≤ sum) (hlength : 0 ≤ length) (hle : sum + length ≤ total)
    (h : Drift total k sum seconds) :
    Drift total (k + 1) (sum + length) (fl (seconds + fl ((length : ℚ) / 1000))) := by
  have hs : (0 : ℚ) ≤ sum := by exact_mod_cast hsum
  have hl : (0 : ℚ) ≤ length := by exact_mod_cast hlength
  have ht : (sum : ℚ) + length ≤ total := by exact_mod_cast hle
  have htpos : (0 : ℚ) < total := by exact_mod_cast htotal
  obtain ⟨-, hcount⟩ := drift_small hprecision htotal hk.le
  have hduration := abs_seconds_sub_le hlength (show length ≤ total by omega)
  have hround := abs_fl_sub_le (seconds + fl ((length : ℚ) / 1000))
  have hcountTotal : 3 * (k : ℚ) * total + 2 * total ≤ 2 ^ 52 * total := by
    rw [← add_mul]
    exact mul_le_mul_of_nonneg_right hcount.le htpos.le
  simp only [Drift] at h ⊢
  -- The sum that is rounded is at most twice the total.
  have hsize : |seconds + fl ((length : ℚ) / 1000)| ≤ 2 * total / 1000 := by
    rw [abs_le] at h hduration ⊢
    constructor <;> linarith
  have hsizeRound : |fl (seconds + fl ((length : ℚ) / 1000)) -
      (seconds + fl ((length : ℚ) / 1000))| ≤ 2 * total / 1000 / 2 ^ 53 :=
    hround.trans (div_le_div_of_nonneg_right hsize (by positivity))
  rw [abs_le] at h hduration hsizeRound ⊢
  push_cast
  constructor <;> linarith

theorem roundToMs_eq (hprecision : WithinPrecision n total) (htotal : 0 < total) (hk : k ≤ n)
    (hsum : 0 ≤ sum) (hle : sum ≤ total) (h : Drift total k sum seconds) :
    roundToMs seconds = fl ((sum : ℚ) / 1000) := by
  have hs : (0 : ℚ) ≤ sum := by exact_mod_cast hsum
  have ht : (sum : ℚ) ≤ total := by exact_mod_cast hle
  have htpos : (0 : ℚ) < total := by exact_mod_cast htotal
  obtain ⟨hsmall, hcount⟩ := drift_small hprecision htotal hk
  have hround := abs_fl_sub_le (seconds * 1000)
  have hcountTotal : 3 * (k : ℚ) * total + 2 * total ≤ 2 ^ 52 * total := by
    rw [← add_mul]
    exact mul_le_mul_of_nonneg_right hcount.le htpos.le
  simp only [Drift] at h
  have hsize : |seconds * 1000| ≤ 2 * total := by
    rw [abs_le] at h ⊢
    constructor <;> linarith
  have hsizeRound : |fl (seconds * 1000) - seconds * 1000| ≤ 2 * total / 2 ^ 53 :=
    hround.trans (div_le_div_of_nonneg_right hsize (by positivity))
  have hms : mathRound (fl (seconds * 1000)) = sum := by
    apply mathRound_eq
    rw [abs_le] at h hsizeRound
    rw [abs_lt]
    constructor <;> linarith
  rw [roundToMs, hms]

end Sums

/-! ## Reading a planned segment -/

/-- A segment on a timeline: which recording, when it starts, how long it is and where. -/
structure TimelineEntry where
  recordingId : String
  startedAtMs : ℤ
  durationSeconds : ℚ
  offsetSeconds : ℚ
  deriving DecidableEq

def VodPlaylistSegment.entry (segment : VodPlaylistSegment) : TimelineEntry where
  recordingId := segment.recordingId.text
  startedAtMs := segment.startedAt
  durationSeconds := segment.durationSeconds
  offsetSeconds := segment.offsetSeconds

def PlayerSegment.entry (segment : PlayerSegment) : TimelineEntry where
  recordingId := segment.recordingId
  startedAtMs := segment.startedAtMs
  durationSeconds := segment.durationSeconds
  offsetSeconds := segment.offsetSeconds

/-- A planned segment as the player reads it, before its offset is reckoned. -/
def playerOf (token : String → String) (segment : VodPlaylistSegment) : PlayerSegment where
  recordingId := segment.recordingId.text
  startedAtMs := segment.startedAt
  endedAtMs := fl (segment.startedAt + fl (segment.durationSeconds * 1000))
  durationSeconds := segment.durationSeconds
  offsetSeconds := 0
  discontinuity := segment.discontinuityReason.isSome
  playUrl := trim (segmentUrl token segment.recordingId)

def VodCandidate.length (current : VodCandidate) : ℤ := current.endMs - current.startMs

/-- A candidate of positive length, no longer than the playlist. -/
structure Usable (total : ℤ) (current : VodCandidate) : Prop where
  pos : 0 < current.length
  le : current.length ≤ total

section Read

variable {n : ℕ} {total : ℤ} {current : VodCandidate}

theorem total_lt (hprecision : WithinPrecision n total) (htotal : 0 < total) :
    total < 2 ^ 51 := by
  have h : (3 * (n : ℤ) + 2) * total < 2 ^ 52 := hprecision
  have htwo : 2 * total ≤ (3 * (n : ℤ) + 2) * total :=
    mul_le_mul_of_nonneg_right (by omega) htotal.le
  omega

theorem lengthMs_eq (hprecision : WithinPrecision n total) (h : Usable total current) :
    current.lengthMs = current.length := by
  have hlt := total_lt hprecision (h.pos.trans_le h.le)
  have hpos := h.pos
  have hle := h.le
  simp only [VodCandidate.length] at hpos hle
  exact fl_intCast (by rw [abs_lt]; constructor <;> omega)

theorem secondsOf_intCast (ms : ℤ) : secondsOf ms = fl ((ms : ℚ) / 1000) := by
  rw [secondsOf, mathRound_intCast]

theorem secondsOf_length (hprecision : WithinPrecision n total) (h : Usable total current) :
    secondsOf current.lengthMs = fl ((current.length : ℚ) / 1000) := by
  rw [lengthMs_eq hprecision h, secondsOf_intCast]

theorem seconds_pos (h : Usable total current) : 0 < fl ((current.length : ℚ) / 1000) := by
  have hpos : (0 : ℚ) < current.length := by exact_mod_cast h.pos
  exact fl_pos (by positivity)

theorem roundToMs_seconds (hprecision : WithinPrecision n total) (hn : 0 < n)
    (h : Usable total current) :
    roundToMs (fl ((current.length : ℚ) / 1000)) = fl ((current.length : ℚ) / 1000) := by
  have htotal := h.pos.trans_le h.le
  have htpos : (0 : ℚ) < total := by exact_mod_cast htotal
  refine roundToMs_eq (k := 1) hprecision htotal hn h.pos.le h.le ?_
  refine (abs_seconds_sub_le h.pos.le h.le).trans ?_
  apply div_le_div_of_nonneg_right _ (by positivity)
  push_cast
  linarith

theorem segmentUrl_ne_empty (token : String → String) (id : RecordingId) :
    trim (segmentUrl token id) ≠ "" := by
  have hslash : '/' ∈ (segmentUrl token id).toList := by
    simp [segmentUrl]
  exact trim_ne_empty hslash (by decide)

theorem readSegment_rawOf (token : String → String) {segment : VodPlaylistSegment}
    (hpos : 0 < segment.durationSeconds)
    (hround : roundToMs segment.durationSeconds = segment.durationSeconds) :
    readSegment (rawOf token segment) = some (playerOf token segment) := by
  have hid : trim segment.recordingId.text = segment.recordingId.text :=
    segment.recordingId.trimmed
  have hduration : durationOf (rawOf token segment) segment.startedAt =
      segment.durationSeconds := by
    have hdeclared : (rawOf token segment).durationSeconds.filter (0 < ·) =
        some segment.durationSeconds :=
      Option.filter_some_pos (decide_eq_true hpos)
    simp only [durationOf, hdeclared]
  simp only [readSegment]
  rw [show (rawOf token segment).recordingId = some segment.recordingId.text from rfl,
    show (rawOf token segment).playUrl = some (segmentUrl token segment.recordingId) from rfl,
    show (rawOf token segment).startedAt = some segment.startedAt from rfl]
  simp only [Option.map_some, Option.getD_some, Option.bind_some, hid, hduration]
  rw [if_neg (by
    rw [not_or]
    exact ⟨segment.recordingId.nonempty, segmentUrl_ne_empty token _⟩), if_pos hpos, hround]
  rfl

end Read

/-! ## The two loops -/

section Loops

variable (toleranceMs : ℚ)

theorem planSegments_keys (previous : Option VodCandidate) (cursorMs : ℚ)
    (selected : List VodCandidate) :
    (planSegments toleranceMs previous cursorMs selected).map
        (fun segment => (segment.startedAt, segment.recordingId.text)) =
      selected.map fun current => (current.startMs, current.id.text) := by
  induction selected generalizing previous cursorMs with
  | nil => rfl
  | cons current rest ih => simp [planSegments, ih]

theorem planSegments_length (previous : Option VodCandidate) (cursorMs : ℚ)
    (selected : List VodCandidate) :
    (planSegments toleranceMs previous cursorMs selected).length = selected.length := by
  simpa using congrArg List.length (planSegments_keys toleranceMs previous cursorMs selected)

theorem planSegments_mem {previous : Option VodCandidate} {cursorMs : ℚ}
    {selected : List VodCandidate} {segment : VodPlaylistSegment}
    (h : segment ∈ planSegments toleranceMs previous cursorMs selected) :
    ∃ current ∈ selected, segment.durationSeconds = secondsOf current.lengthMs := by
  induction selected generalizing previous cursorMs with
  | nil => cases h
  | cons current rest ih =>
    rw [planSegments, List.mem_cons] at h
    cases h with
    | inl heq => exact ⟨current, List.mem_cons_self, by rw [heq]⟩
    | inr hrest =>
      obtain ⟨found, hfound, heq⟩ := ih hrest
      exact ⟨found, List.mem_cons_of_mem _ hfound, heq⟩

def totalLength (selected : List VodCandidate) : ℤ := (selected.map VodCandidate.length).sum

theorem totalLength_nonneg {total : ℤ} {selected : List VodCandidate}
    (h : ∀ current ∈ selected, Usable total current) : 0 ≤ totalLength selected := by
  apply List.sum_nonneg
  intro length hlength
  obtain ⟨current, hcurrent, rfl⟩ := List.mem_map.mp hlength
  exact (h current hcurrent).pos.le

theorem usable_of_mem {selected : List VodCandidate} {current : VodCandidate}
    (hpos : ∀ c ∈ selected, c.startMs < c.endMs) (h : current ∈ selected) :
    Usable (totalLength selected) current := by
  have hlengths : ∀ length ∈ selected.map VodCandidate.length, 0 ≤ length := by
    intro length hlength
    obtain ⟨c, hc, rfl⟩ := List.mem_map.mp hlength
    exact (sub_pos.mpr (hpos c hc)).le
  exact ⟨sub_pos.mpr (hpos current h),
    List.single_le_sum hlengths _ (List.mem_map_of_mem h)⟩

variable {n : ℕ} {total : ℤ}

/-- From a cursor that stands for the same milliseconds on both sides, the same entries and
the same end. -/
theorem loops_agree (token : String → String) (hprecision : WithinPrecision n total)
    (htotal : 0 < total) (selected : List VodCandidate) (previous : Option VodCandidate)
    {k : ℕ} {sum : ℤ} {seconds : ℚ} (hk : k + selected.length ≤ n) (hsum : 0 ≤ sum)
    (hle : sum + totalLength selected ≤ total)
    (husable : ∀ current ∈ selected, Usable total current) (hdrift : Drift total k sum seconds) :
    (withOffsets seconds ((planSegments toleranceMs previous sum selected).map
        (playerOf token))).map PlayerSegment.entry =
        (planSegments toleranceMs previous sum selected).map VodPlaylistSegment.entry ∧
      roundToMs (((planSegments toleranceMs previous sum selected).map
        (playerOf token)).foldl advanceSeconds seconds) =
        secondsOf (selected.foldl advanceMs sum) ∧
      secondsOf (selected.foldl advanceMs sum) =
        fl (((sum + totalLength selected : ℤ) : ℚ) / 1000) := by
  induction selected generalizing previous k sum seconds with
  | nil =>
    have hround := roundToMs_eq hprecision htotal (by simpa using hk) hsum
      (by simpa [totalLength] using hle) hdrift
    simp [withOffsets, planSegments, totalLength, hround, secondsOf_intCast]
  | cons current rest ih =>
    have hcurrent := husable current List.mem_cons_self
    have hrest : ∀ c ∈ rest, Usable total c := fun c hc => husable c (List.mem_cons_of_mem _ hc)
    have hrestLength := totalLength_nonneg hrest
    have hsplit : totalLength (current :: rest) = current.length + totalLength rest := by
      simp [totalLength]
    rw [hsplit] at hle
    have hpos := hcurrent.pos
    have hlt := total_lt hprecision htotal
    rw [List.length_cons] at hk
    have hround := roundToMs_eq hprecision htotal (show k ≤ n by omega) hsum (by omega) hdrift
    have hcursor : advanceMs sum current = ((sum + current.length : ℤ) : ℚ) := by
      rw [advanceMs, lengthMs_eq hprecision hcurrent]
      exact fl_eq_intCast (by push_cast; rfl) (by rw [abs_lt]; constructor <;> omega)
    have hstep := drift_step hprecision htotal (show k < n by omega) hsum hpos.le (by omega) hdrift
    obtain ⟨hentries, hend, hlength⟩ := ih (some current) (show k + 1 + rest.length ≤ n by omega)
      (by omega) (by omega) hrest hstep
    have hduration := secondsOf_length hprecision hcurrent
    refine ⟨?_, ?_, ?_⟩
    · simp only [planSegments, List.map_cons, withOffsets, hcursor]
      rw [show advanceSeconds seconds (playerOf token _) = fl (seconds + fl ((current.length : ℚ) /
        1000)) from by rw [advanceSeconds, playerOf, hduration], hentries]
      simp only [PlayerSegment.entry, VodPlaylistSegment.entry, playerOf, hround, secondsOf_intCast]
    · simp only [planSegments, List.map_cons, List.foldl_cons, hcursor]
      rw [← hend]
      simp only [advanceSeconds, playerOf, hduration]
    · rw [List.foldl_cons, hcursor, hlength, hsplit, add_assoc]

end Loops

/-! ## The playlist -/

section Playlist

variable (order : LocaleOrder)

theorem startsBefore_total (startA startB : ℤ) (idA idB : String) :
    startsBefore order startA idA startB idB ∨ startsBefore order startB idB startA idA := by
  simp only [startsBefore]
  have hid := order.total idA idB
  have hstart := lt_trichotomy startA startB
  tauto

theorem startsBefore_trans {startA startB startC : ℤ} {idA idB idC : String}
    (hab : startsBefore order startA idA startB idB)
    (hbc : startsBefore order startB idB startC idC) :
    startsBefore order startA idA startC idC := by
  simp only [startsBefore] at hab hbc ⊢
  cases hab with
  | inl hlt =>
    left
    omega
  | inr heq =>
    cases hbc with
    | inl hlt =>
      left
      omega
    | inr heq' => exact .inr ⟨heq.1.trans heq'.1, order.trans _ _ _ heq.2 heq'.2⟩

theorem vodCandidates_sorted (input : PlanVodPlaylistInput) (fromMs toMs : ℤ) :
    (vodCandidates order input fromMs toMs).Pairwise fun a b =>
      startsBefore order a.startMs a.id.text b.startMs b.id.text := by
  have htotal : Std.Total fun a b : VodCandidate =>
      startsBefore order a.startMs a.id.text b.startMs b.id.text :=
    ⟨fun a b => startsBefore_total order _ _ _ _⟩
  have htrans : IsTrans VodCandidate fun a b =>
      startsBefore order a.startMs a.id.text b.startMs b.id.text :=
    ⟨fun a b c hab hbc => startsBefore_trans order hab hbc⟩
  exact List.pairwise_insertionSort _ _

theorem vodCandidateOf_some {fromMs toMs : ℤ} {raw : VodSourceSegment} {current : VodCandidate}
    (h : vodCandidateOf fromMs toMs raw = some current) :
    current.startMs < current.endMs ∧ fromMs < current.endMs := by
  simp only [vodCandidateOf, Option.bind_eq_some_iff] at h
  obtain ⟨startMs, -, endMs, hend, h⟩ := h
  have hlt : startMs < endMs := by
    simp only [usableEndMs] at hend
    split at hend
    · next ended hended =>
      rw [Option.filter_eq_some_iff, decide_eq_true_eq] at hended
      cases hend
      exact hended.2
    · rw [Option.map_eq_some_iff] at hend
      obtain ⟨duration, hduration, rfl⟩ := hend
      rw [Option.filter_eq_some_iff, decide_eq_true_eq] at hduration
      omega
  split at h
  · cases h
  · next hoverlap =>
    cases h
    simp only
    omega

theorem selected_mem {input : PlanVodPlaylistInput} {fromMs toMs : ℤ} {current : VodCandidate}
    (h : current ∈ selectedSegments order input fromMs toMs) :
    current.startMs < current.endMs ∧ fromMs < current.endMs := by
  have hmem := List.mem_of_mem_take h
  rw [vodCandidates, List.mem_insertionSort, List.mem_filterMap] at hmem
  obtain ⟨raw, -, hraw⟩ := hmem
  exact vodCandidateOf_some hraw

def VodPlaylistPlan.totalMs (plan : VodPlaylistPlan) : ℤ :=
  (plan.segments.map fun segment => segment.endedAt - segment.startedAt).sum

theorem planSegments_totalMs (toleranceMs : ℚ) (previous : Option VodCandidate) (cursorMs : ℚ)
    (selected : List VodCandidate) :
    ((planSegments toleranceMs previous cursorMs selected).map fun segment =>
      segment.endedAt - segment.startedAt).sum = totalLength selected := by
  induction selected generalizing previous cursorMs with
  | nil => rfl
  | cons current rest ih => simp [planSegments, totalLength, VodCandidate.length, ih]

theorem startOffset_mem {n : ℕ} {total : ℤ} (hprecision : WithinPrecision n total) {x : ℤ}
    (hx : x < total) (htotal : 0 < total) :
    max 0 (secondsOf (fl x)) ≤ fl ((total : ℚ) / 1000) := by
  have hend : 0 < fl ((total : ℚ) / 1000) := fl_pos (by
    have : (0 : ℚ) < total := by exact_mod_cast htotal
    positivity)
  apply max_le hend.le
  by_cases hpos : 0 < x
  · have hlt := total_lt hprecision htotal
    rw [fl_intCast (by rw [abs_lt]; constructor <;> omega), secondsOf_intCast]
    have hxq : (0 : ℚ) < x := by exact_mod_cast hpos
    have hone : (x : ℚ) + 1 ≤ total := by exact_mod_cast hx
    have hsmall : (total : ℚ) < 2 ^ 51 := by exact_mod_cast hlt
    have hlow := abs_fl_sub_le ((x : ℚ) / 1000)
    have hhigh := abs_fl_sub_le ((total : ℚ) / 1000)
    rw [abs_of_pos (by positivity : (0 : ℚ) < x / 1000), abs_le] at hlow
    rw [abs_of_pos (by linarith : (0 : ℚ) < total / 1000), abs_le] at hhigh
    linarith
  · have hnonpos : fl (x : ℚ) ≤ 0 := fl_nonpos (by exact_mod_cast not_lt.mp hpos)
    have hround : mathRound (fl x) ≤ 0 := by
      rw [mathRound, Int.floor_le_iff]
      push_cast
      linarith
    have hseconds : secondsOf (fl x) ≤ 0 := by
      apply fl_nonpos
      have : (mathRound (fl x) : ℚ) ≤ 0 := by exact_mod_cast hround
      linarith
    exact hseconds.trans hend.le

theorem startOffset_eq {declared total : ℚ} (hpos : 0 ≤ declared) (hle : declared ≤ total) :
    (match (some declared).filter (0 < ·) with
      | some declared => min declared total
      | none => 0) = declared := by
  by_cases h : 0 < declared
  · have hfilter : (some declared).filter (0 < ·) = some declared :=
      Option.filter_some_pos (decide_eq_true h)
    simp only [hfilter]
    exact min_eq_left hle
  · have hfilter : (some declared).filter (0 < ·) = none :=
      Option.filter_some_neg (by simpa using h)
    simp only [hfilter]
    exact le_antisymm hpos (not_lt.mp h)

/-- Whether the player's playlist is the plan: the same segments in the same order at the
same offsets, the same length and the same start. -/
def Agrees (plan : VodPlaylistPlan) (playlist : VodPlaylist) : Prop :=
  playlist.segments.map PlayerSegment.entry = plan.segments.map VodPlaylistSegment.entry ∧
    playlist.totalDurationSeconds = plan.totalDurationSeconds ∧
    playlist.startOffsetSeconds = plan.startOffsetSeconds

theorem withOffsets_ne_nil {seconds : ℚ} {items : List PlayerSegment} (h : items ≠ []) :
    withOffsets seconds items ≠ [] := by
  cases items with
  | nil => exact absurd rfl h
  | cons item rest => simp [withOffsets]

/-- The player reads every planned segment, and finds them in order. -/
theorem parsed_eq (token : String → String) (toleranceMs : ℚ) {n : ℕ} {total : ℤ}
    {selected : List VodCandidate} (hprecision : WithinPrecision n total) (hn : 0 < n)
    (husable : ∀ current ∈ selected, Usable total current)
    (hsorted : selected.Pairwise fun a b =>
      startsBefore order a.startMs a.id.text b.startMs b.id.text) :
    (((planSegments toleranceMs none 0 selected).map (rawOf token)).filterMap
        readSegment).insertionSort (fun a b =>
          startsBefore order a.startedAtMs a.recordingId b.startedAtMs b.recordingId) =
      (planSegments toleranceMs none 0 selected).map (playerOf token) := by
  have hread : ((planSegments toleranceMs none 0 selected).map (rawOf token)).filterMap
      readSegment = (planSegments toleranceMs none 0 selected).map (playerOf token) := by
    rw [List.filterMap_map]
    apply List.filterMap_eq_map_iff_forall_eq_some.mpr
    intro segment hsegment
    obtain ⟨current, hcurrent, hduration⟩ := planSegments_mem toleranceMs hsegment
    have hfits := husable current hcurrent
    rw [secondsOf_length hprecision hfits] at hduration
    apply readSegment_rawOf
    · rw [hduration]
      exact seconds_pos hfits
    · rw [hduration]
      exact roundToMs_seconds hprecision hn hfits
  have hkeys : ((planSegments toleranceMs none 0 selected).map fun segment =>
      (segment.startedAt, segment.recordingId.text)).Pairwise fun a b =>
        startsBefore order a.1 a.2 b.1 b.2 := by
    rw [planSegments_keys, List.pairwise_map]
    exact hsorted
  rw [List.pairwise_map] at hkeys
  rw [hread]
  apply List.Pairwise.insertionSort_eq
  rw [List.pairwise_map]
  exact hkeys

/-- The player has no playlist where the plan has no segment. Otherwise, as long as the length
of the playlist is within precision, its playlist is the plan. -/
theorem player_agrees (cameraId : String) (token : String → String)
    (input : PlanVodPlaylistInput) {plan : VodPlaylistPlan}
    (hplan : planVodPlaylist order input = .ok plan)
    (hprecision : WithinPrecision plan.segments.length plan.totalMs) :
    (plan.segments = [] ∧ normalizeVodPlaylist order (answerOf cameraId token plan) = none) ∨
      ∃ playlist, normalizeVodPlaylist order (answerOf cameraId token plan) = some playlist ∧
        Agrees plan playlist := by
  simp only [planVodPlaylist] at hplan
  split at hplan
  · next fromMs toMs hfrom hto =>
    split at hplan
    · cases hplan
    · cases hplan
      simp only [VodPlaylistPlan.totalMs, planSegments_totalMs, planSegments_length] at hprecision
      generalize max 0 (fl (input.gapToleranceSeconds.getD 1 * 1000)) = toleranceMs
      have hsorted : (selectedSegments order input fromMs toMs).Pairwise fun a b =>
          startsBefore order a.startMs a.id.text b.startMs b.id.text :=
        (vodCandidates_sorted order input fromMs toMs).sublist (List.take_sublist _ _)
      have hselected : ∀ current ∈ selectedSegments order input fromMs toMs,
          current.startMs < current.endMs ∧ fromMs < current.endMs :=
        fun current hcurrent => selected_mem order hcurrent
      generalize selectedSegments order input fromMs toMs = selected at *
      cases selected with
      | nil => exact .inl ⟨rfl, rfl⟩
      | cons first rest =>
        right
        have husable : ∀ current ∈ first :: rest, Usable (totalLength (first :: rest)) current :=
          fun current hcurrent =>
            usable_of_mem (fun c hc => (hselected c hc).1) hcurrent
        have hfirst := husable first List.mem_cons_self
        have htotal := hfirst.pos.trans_le hfirst.le
        have hparsed := parsed_eq order token toleranceMs hprecision (by simp) husable hsorted
        have hloops := loops_agree toleranceMs token hprecision htotal (first :: rest) none
          (k := 0) (by simp) (le_refl 0) (by simp) husable drift_zero
        rw [Int.cast_zero] at hloops
        obtain ⟨hentries, hend, hlength⟩ := hloops
        rw [zero_add] at hlength
        have hne : withOffsets 0 ((planSegments toleranceMs none 0 (first :: rest)).map
            (playerOf token)) ≠ [] :=
          withOffsets_ne_nil (by simp [planSegments])
        simp only [normalizeVodPlaylist, answerOf, Option.bind_some, hparsed,
          List.head?_eq_some_head hne, List.getLast?_eq_some_getLast hne]
        refine ⟨_, rfl, hentries, hend, ?_⟩
        have hmin : min fromMs first.endMs = fromMs :=
          min_eq_left (hselected first List.mem_cons_self).2.le
        have hx : fromMs - first.startMs < totalLength (first :: rest) := by
          have hbefore := (hselected first List.mem_cons_self).2
          have hle := hfirst.le
          simp only [VodCandidate.length] at hle
          omega
        have hoffset := startOffset_mem hprecision hx htotal
        simp only [hmin, hend, hlength]
        exact startOffset_eq (le_max_left _ _) hoffset
  · cases hplan

end Playlist

/-- Three recordings of five minutes, the second with a short gap before it. -/
def morning : PlanVodPlaylistInput where
  segments :=
    [{ id := ⟨"am-a", by decide, by decide⟩, startedAt := some 0, endedAt := some 300033 },
      { id := ⟨"am-c", by decide, by decide⟩, startedAt := some 600066, durationMs := some 300000 },
      { id := ⟨"am-b", by decide, by decide⟩, startedAt := some 305000, endedAt := some 600066 }]
  fromAt := some 1500
  toAt := some 700000

theorem player_agrees_morning :
    ∃ plan playlist, planVodPlaylist byCodePoint morning = .ok plan ∧
      normalizeVodPlaylist byCodePoint (answerOf "yard" id plan) = some playlist ∧
      Agrees plan playlist := by
  have hplan : ∃ plan, planVodPlaylist byCodePoint morning = .ok plan ∧
      plan.segments.length = 3 ∧ plan.totalMs = 895099 := by
    refine ⟨_, rfl, ?_, ?_⟩ <;> rfl
  obtain ⟨plan, hplan, hlength, htotal⟩ := hplan
  cases player_agrees byCodePoint "yard" id morning hplan
      (by rw [hlength, htotal]; decide) with
  | inl hempty =>
    rw [hempty.1] at hlength
    cases hlength
  | inr hagrees =>
    obtain ⟨playlist, hplaylist, hagrees⟩ := hagrees
    exact ⟨plan, playlist, hplan, hplaylist, hagrees⟩

def ages : PlanVodPlaylistInput where
  segments :=
    [{ id := ⟨"am-a", by decide, by decide⟩, startedAt := some 0, endedAt := some 1125899906842631 },
      { id := ⟨"am-b", by decide, by decide⟩, startedAt := some 1, endedAt := some 1125899906842632 },
      { id := ⟨"am-c", by decide, by decide⟩, startedAt := some 2, endedAt := some 1125899906842633 }]
  fromAt := some 10
  toAt := some 20

/-- Whether the lengths are the same, where the plan has a segment and the player a playlist. -/
def sameLength (input : PlanVodPlaylistInput) : Option Bool :=
  match planVodPlaylist byCodePoint input with
  | .ok plan =>
    if plan.segments.isEmpty then none
    else
      (normalizeVodPlaylist byCodePoint (answerOf "yard" id plan)).map fun playlist =>
        playlist.totalDurationSeconds = plan.totalDurationSeconds
  | .error _ => none

/-- Sums of seconds of that size are a millisecond apart, and the player's is off by one. -/
theorem player_drifts :
    ¬ ∀ (order : LocaleOrder) (cameraId : String) (token : String → String)
      (input : PlanVodPlaylistInput) (plan : VodPlaylistPlan),
      planVodPlaylist order input = .ok plan → plan.segments ≠ [] →
        ∃ playlist, normalizeVodPlaylist order (answerOf cameraId token plan) = some playlist ∧
          Agrees plan playlist := by
  intro h
  have hlength : sameLength ages = some false := by decide +kernel
  simp only [sameLength] at hlength
  split at hlength
  · next plan hplan =>
    split at hlength
    · cases hlength
    · next hempty =>
      have hne : plan.segments ≠ [] := fun heq => hempty (by rw [heq]; rfl)
      obtain ⟨playlist, hplaylist, -, htotal, -⟩ := h byCodePoint "yard" id ages plan hplan hne
      rw [hplaylist, Option.map_some, htotal] at hlength
      simp at hlength
  · cases hlength

end Drac.Playback
