import Mathlib.Data.Rat.Floor
import Drac.Lib.LineScan
import Drac.Security.SensitiveText

/-
  The last lines of a process's stderr.

  Correspondence (`ffmpeg-stderr-ring.helper.ts` ↔ Lean, under the same names):
    pushLine             cleans the whole line, and only then cuts it
    appendStderrChunk    `pending` is a line that has not ended
    drainStderrRing      gives the lines and empties the ring

  A text is its UTF-16 code units, as the redaction has it. `trim` takes away what `\s` matches.
-/

namespace Drac.Recordings.StderrRing

open Security LineScan

def MAX_PENDING_LENGTH : ℕ := 8 * 1024

def DEFAULT_STDERR_RING_LINES : ℤ := 50

def DEFAULT_STDERR_LINE_LENGTH : ℤ := 500

structure FfmpegStderrRing where
  lines : List Text
  pending : Text
  maxLines : ℕ
  maxLineLength : ℕ
  deriving DecidableEq

/-- A number that is not finite is `none`. -/
def createStderrRing (maxLines maxLineLength : Option ℚ) : FfmpegStderrRing :=
  let lines := (maxLines.map Int.floor).getD DEFAULT_STDERR_RING_LINES
  let length := (maxLineLength.map Int.floor).getD DEFAULT_STDERR_LINE_LENGTH
  { lines := []
    pending := []
    maxLines := (max 0 (min 500 lines)).toNat
    maxLineLength := (max 40 (min 4000 length)).toNat }

def carriageReturn : ℕ := 0x0D

def lineFeed : ℕ := 0x0A

/-- `text.split(/\r\n|\r|\n/)`. -/
def split (text : Text) : List Text := splitLines carriageReturn lineFeed text

def trim (text : Text) : Text :=
  ((text.dropWhile isSpace).reverse.dropWhile isSpace).reverse

/-- `sanitizeSensitiveText(raw).trim()`. -/
def clean (raw : Text) : Text := trim (redactSensitiveText raw)

/-- `while (ring.lines.length > ring.maxLines) ring.lines.shift();`. -/
def shiftOld (maxLines : ℕ) : List Text → List Text
  | [] => []
  | line :: lines =>
    if maxLines < (line :: lines).length then shiftOld maxLines lines else line :: lines

def pushLine (ring : FfmpegStderrRing) (raw : Text) : FfmpegStderrRing :=
  if clean raw = [] then ring
  else { ring with
    lines := shiftOld ring.maxLines (ring.lines ++ [(clean raw).take ring.maxLineLength]) }

def appendStderrChunk (ring : FfmpegStderrRing) (text : Text) : FfmpegStderrRing :=
  if ring.maxLines = 0 then { ring with pending := [], lines := [] }
  else if text = [] then ring
  else
    let parts := split (ring.pending ++ text)
    let pushed := parts.dropLast.foldl pushLine
      { ring with pending := parts.getLast?.getD [] }
    if MAX_PENDING_LENGTH < pushed.pending.length then
      { pushLine pushed pushed.pending with pending := [] }
    else pushed

/-- The lines held, and the ring without them. -/
def drainStderrRing (ring : FfmpegStderrRing) : List Text × FfmpegStderrRing :=
  let pushed := if ring.pending = [] then ring else { pushLine ring ring.pending with pending := [] }
  (pushed.lines, { pushed with lines := [] })

/-! ## A line -/

/-- `line.trim()` is not empty. -/
def nonBlank (line : Text) : Bool := line.any fun c => !isSpace c

theorem trim_eq_nil (text : Text) : trim text = [] ↔ nonBlank text = false := by
  unfold trim nonBlank
  rw [List.reverse_eq_nil_iff, List.dropWhile_eq_nil_iff, List.any_eq_false]
  constructor
  · intro h c hc
    rw [← List.takeWhile_append_dropWhile (p := isSpace) (l := text)] at hc
    obtain hc | hc := List.mem_append.mp hc
    · simpa using List.mem_takeWhile_imp hc
    · simpa using h c (List.mem_reverse.mpr hc)
  · intro h c hc
    have hmem : c ∈ text := (List.dropWhile_suffix _).subset (List.mem_reverse.mp hc)
    simpa using h c hmem

theorem clean_eq_nil (raw : Text) : clean raw = [] ↔ nonBlank raw = false := by
  rw [clean, trim_eq_nil, nonBlank, redactSensitiveText_blank, nonBlank]

theorem shiftOld_eq (maxLines : ℕ) (lines : List Text) :
    shiftOld maxLines lines = lines.rtake maxLines := by
  induction lines with
  | nil => simp [shiftOld]
  | cons line lines ih =>
    rw [shiftOld, List.rtake]
    split
    next hlong =>
      rw [ih, List.rtake, show (line :: lines).length - maxLines =
        lines.length - maxLines + 1 by simp only [List.length_cons] at hlong ⊢; omega]
      rfl
    next hshort => rw [Nat.sub_eq_zero_of_le (not_lt.mp hshort), List.drop_zero]

/-- What is kept of some lines: those that are not blank, clean and then cut. -/
def shown (maxLineLength : ℕ) (lines : List Text) : List Text :=
  (lines.filter nonBlank).map fun line => (clean line).take maxLineLength

theorem shown_append (maxLineLength : ℕ) (lines more : List Text) :
    shown maxLineLength (lines ++ more) = shown maxLineLength lines ++ shown maxLineLength more := by
  rw [shown, List.filter_append, List.map_append, shown, shown]

variable {ring : FfmpegStderrRing}

theorem pushLine_eq (hroom : ring.lines.length ≤ ring.maxLines)
    (raw : Text) : pushLine ring raw =
      { ring with lines := (ring.lines ++ shown ring.maxLineLength [raw]).rtake ring.maxLines } := by
  unfold pushLine
  by_cases hblank : nonBlank raw = true
  · rw [if_neg (by rw [clean_eq_nil, hblank]; simp), shiftOld_eq]
    simp [shown, hblank]
  · rw [if_pos ((clean_eq_nil raw).mpr (Bool.eq_false_iff.mpr hblank))]
    simp [shown, hblank, List.rtake, Nat.sub_eq_zero_of_le hroom]

theorem pushLines_eq (hroom : ring.lines.length ≤ ring.maxLines)
    (lines : List Text) : lines.foldl pushLine ring =
      { ring with lines := (ring.lines ++ shown ring.maxLineLength lines).rtake ring.maxLines } := by
  induction lines generalizing ring with
  | nil => simp [shown, List.rtake, Nat.sub_eq_zero_of_le hroom]
  | cons line lines ih =>
    rw [List.foldl_cons, pushLine_eq hroom, ih (length_rtake_le _ _), rtake_rtake_append,
      List.append_assoc, ← shown_append, List.singleton_append]

/-! ## What a ring holds -/

/-- The ring is within its limits. -/
structure Within (ring : FfmpegStderrRing) : Prop where
  lines : ring.lines.length ≤ ring.maxLines
  line : ∀ line ∈ ring.lines, line.length ≤ ring.maxLineLength
  pending : ring.pending.length ≤ MAX_PENDING_LENGTH

theorem within_create (maxLines maxLineLength : Option ℚ) :
    Within (createStderrRing maxLines maxLineLength) :=
  ⟨Nat.zero_le _, by simp [createStderrRing], Nat.zero_le _⟩

theorem length_shown_le {maxLineLength : ℕ} {lines : List Text} {line : Text}
    (h : line ∈ shown maxLineLength lines) : line.length ≤ maxLineLength := by
  obtain ⟨raw, -, rfl⟩ := List.mem_map.mp h
  exact List.length_take_le _ _

theorem within_pushed (h : Within ring) (lines : List Text)
    {pending : Text} (hpending : pending.length ≤ MAX_PENDING_LENGTH) :
    Within { ring with
      lines := (ring.lines ++ shown ring.maxLineLength lines).rtake ring.maxLines
      pending := pending } := by
  refine ⟨length_rtake_le _ _, ?_, hpending⟩
  intro line hline
  obtain hold | hnew := List.mem_append.mp (mem_of_mem_rtake hline)
  · exact h.line line hold
  · exact length_shown_le hnew

theorem within_append (h : Within ring) (chunk : Text) :
    Within (appendStderrChunk ring chunk) := by
  unfold appendStderrChunk
  split
  · exact ⟨Nat.zero_le _, by simp, Nat.zero_le _⟩
  · split
    · exact h
    · dsimp only
      rw [@pushLines_eq
        { ring with pending := (split (ring.pending ++ chunk)).getLast?.getD [] } h.lines]
      dsimp only
      split
      · rw [pushLine_eq (length_rtake_le _ _)]
        dsimp only
        rw [rtake_rtake_append, List.append_assoc, ← shown_append]
        exact within_pushed h _ (Nat.zero_le _)
      next hshort => exact within_pushed h _ (not_lt.mp hshort)

theorem within_drain (h : Within ring) : Within (drainStderrRing ring).2 := by
  unfold drainStderrRing
  dsimp only
  split
  · exact ⟨Nat.zero_le _, by simp, h.pending⟩
  · rw [pushLine_eq h.lines]
    exact ⟨Nat.zero_le _, by simp, Nat.zero_le _⟩

inductive Call where
  | append (chunk : Text)
  | drain
  deriving DecidableEq

def FfmpegStderrRing.call (ring : FfmpegStderrRing) : Call → FfmpegStderrRing
  | .append chunk => appendStderrChunk ring chunk
  | .drain => (drainStderrRing ring).2

/-- **Nothing beyond the limits is held**, between any calls. -/
theorem within_calls (h : Within ring) (calls : List Call) :
    Within (calls.foldl FfmpegStderrRing.call ring) := by
  induction calls generalizing ring with
  | nil => exact h
  | cons call calls ih =>
    apply ih
    cases call with
    | append chunk => exact within_append h chunk
    | drain => exact within_drain h

/-! ## A text in chunks -/

/-- The ring after the pieces of a text. -/
structure Holds (ring : FfmpegStderrRing) (text : Text) : Prop where
  pending : ring.pending = (feed carriageReturn lineFeed [] text).2
  lines : ring.lines =
    (shown ring.maxLineLength (feed carriageReturn lineFeed [] text).1).rtake ring.maxLines

theorem holds_append {text chunk : Text} (h : Holds ring text)
    (hsome : ring.maxLines ≠ 0)
    (hshort : (feed carriageReturn lineFeed [] (text ++ chunk)).2.length ≤ MAX_PENDING_LENGTH) :
    Holds (appendStderrChunk ring chunk) (text ++ chunk) ∧
      (appendStderrChunk ring chunk).maxLines = ring.maxLines ∧
      (appendStderrChunk ring chunk).maxLineLength = ring.maxLineLength := by
  unfold appendStderrChunk
  rw [if_neg hsome]
  by_cases hnil : chunk = []
  · rw [if_pos hnil, hnil, List.append_nil]
    exact ⟨h, rfl, rfl⟩
  have hroom : ring.lines.length ≤ ring.maxLines := by
    rw [h.lines]
    exact length_rtake_le _ _
  have hopen := @feed_snd_open _ _ carriageReturn lineFeed [] text (by simp)
  rw [← h.pending] at hopen
  -- the chunk is fed after the line that had not ended
  have hfeed : feed carriageReturn lineFeed [] (ring.pending ++ chunk) =
      feed carriageReturn lineFeed ring.pending chunk := by
    rw [feed_append, feed_open hopen]
    rfl
  have hwhole := @feed_append _ _ carriageReturn lineFeed [] text chunk
  rw [← h.pending] at hwhole
  obtain ⟨lines, hsplit, hfilter⟩ := @splitFrom_eq_feed _ _ carriageReturn lineFeed []
    nonBlank rfl (ring.pending ++ chunk)
  rw [hfeed] at hsplit hfilter
  have hparts : split (ring.pending ++ chunk) =
      lines ++ [(feed carriageReturn lineFeed ring.pending chunk).2] := hsplit
  rw [if_neg hnil, hparts]
  dsimp only
  rw [List.dropLast_concat, List.getLast?_concat, Option.getD_some,
    @pushLines_eq
      { ring with pending := (feed carriageReturn lineFeed ring.pending chunk).2 } hroom]
  dsimp only
  rw [hwhole] at hshort
  rw [if_neg (not_lt.mpr hshort)]
  refine ⟨⟨by rw [hwhole], ?_⟩, rfl, rfl⟩
  dsimp only
  rw [hwhole, shown_append, h.lines, rtake_rtake_append, shown, shown, shown, hfilter]

theorem drain_holds {text : Text} (h : Holds ring text) :
    (drainStderrRing ring).1 = (shown ring.maxLineLength (split text)).rtake ring.maxLines := by
  have hroom : ring.lines.length ≤ ring.maxLines := by
    rw [h.lines]
    exact length_rtake_le _ _
  have hsplit : shown ring.maxLineLength (split text) =
      shown ring.maxLineLength (feed carriageReturn lineFeed [] text).1 ++
        shown ring.maxLineLength [ring.pending] := by
    rw [← shown_append, h.pending, shown, shown, split, splitLines_filter rfl]
  rw [hsplit, ← rtake_rtake_append, ← h.lines]
  unfold drainStderrRing
  by_cases hnil : ring.pending = []
  · rw [if_pos hnil, hnil]
    simp [shown, nonBlank, List.rtake, Nat.sub_eq_zero_of_le hroom]
  · rw [if_neg hnil, pushLine_eq hroom]

theorem holds_chunks {chunks : List Text} : ∀ {ring : FfmpegStderrRing} {text : Text},
    Holds ring text → ring.maxLines ≠ 0 →
    (∀ line ∈ split (text ++ chunks.flatten), line.length ≤ MAX_PENDING_LENGTH) →
    Holds (chunks.foldl appendStderrChunk ring) (text ++ chunks.flatten) ∧
      (chunks.foldl appendStderrChunk ring).maxLines = ring.maxLines ∧
      (chunks.foldl appendStderrChunk ring).maxLineLength = ring.maxLineLength := by
  induction chunks with
  | nil =>
    intro ring text h _ _
    rw [List.flatten_nil, List.append_nil]
    exact ⟨h, rfl, rfl⟩
  | cons chunk chunks ih =>
    intro ring text h hsome hlines
    rw [List.flatten_cons, ← List.append_assoc] at hlines ⊢
    -- what is pending begins a line of the whole text
    have hshort : (feed carriageReturn lineFeed [] (text ++ chunk)).2.length ≤
        MAX_PENDING_LENGTH := by
      obtain ⟨line, hline, hpre⟩ := @feed_begins _ _ carriageReturn lineFeed
        (feed carriageReturn lineFeed [] (text ++ chunk)).2 chunks.flatten
      refine hpre.length_le.trans ?_
      have hmem : line ∈ (feed carriageReturn lineFeed [] (text ++ chunk ++ chunks.flatten)).1 ++
          [(feed carriageReturn lineFeed [] (text ++ chunk ++ chunks.flatten)).2] := by
        rw [feed_append, List.append_assoc]
        exact List.mem_append_right _ hline
      obtain rfl | hsplit := mem_splitLines hmem
      · exact Nat.zero_le _
      · exact hlines line hsplit
    obtain ⟨hholds, hmax, hlength⟩ := holds_append h hsome hshort
    obtain ⟨hall, hmax', hlength'⟩ := ih hholds (by rwa [hmax]) hlines
    exact ⟨hall, hmax'.trans hmax, hlength'.trans hlength⟩

theorem no_lines {chunks : List Text} : ∀ {ring : FfmpegStderrRing}, ring.maxLines = 0 →
    ring.lines = [] → ring.pending = [] →
    (drainStderrRing (chunks.foldl appendStderrChunk ring)).1 = [] := by
  induction chunks with
  | nil =>
    intro ring _ hlines hpending
    simp [drainStderrRing, hpending, hlines]
  | cons chunk chunks ih =>
    intro ring hzero _ _
    rw [List.foldl_cons, appendStderrChunk, if_pos hzero]
    exact ih hzero rfl rfl

/-- **Where the text was cut makes no difference**: out come its last lines that are not blank, each
redacted as a whole and then cut. No call leaves more in a ring than its limits allow. -/
theorem drain_chunks (maxLines maxLineLength : Option ℚ) (chunks : List Text)
    (hlines : ∀ line ∈ split chunks.flatten, line.length ≤ MAX_PENDING_LENGTH) :
    (drainStderrRing (chunks.foldl appendStderrChunk
        (createStderrRing maxLines maxLineLength))).1 =
      (((split chunks.flatten).filter nonBlank).map fun line =>
        (trim (redactSensitiveText line)).take
          (createStderrRing maxLines maxLineLength).maxLineLength).rtake
        (createStderrRing maxLines maxLineLength).maxLines ∧
    ∀ calls : List Call,
      Within (calls.foldl FfmpegStderrRing.call (createStderrRing maxLines maxLineLength)) := by
  refine ⟨?_, within_calls (within_create maxLines maxLineLength)⟩
  by_cases hzero : (createStderrRing maxLines maxLineLength).maxLines = 0
  · rw [no_lines hzero rfl rfl, hzero]
    simp [List.rtake]
  · have hempty : Holds (createStderrRing maxLines maxLineLength) [] :=
      ⟨rfl, by simp [createStderrRing, feed, shown]⟩
    obtain ⟨hholds, hmax, hlength⟩ := holds_chunks hempty hzero hlines
    rw [List.nil_append] at hholds
    rw [drain_holds hholds, hmax, hlength]
    rfl

/-- A pair of breaks and a password, both cut in two. -/
theorem drain_chunks_cut :
    (drainStderrRing ([units "one\r", units "\nrtsp://u:pa", units "ss@h"].foldl appendStderrChunk
        (createStderrRing (some 5) none))).1 =
      (((split ([units "one\r", units "\nrtsp://u:pa", units "ss@h"]).flatten).filter nonBlank).map
        fun line => (trim (redactSensitiveText line)).take
          (createStderrRing (some 5) none).maxLineLength).rtake
        (createStderrRing (some 5) none).maxLines ∧
    ∀ calls : List Call, Within (calls.foldl FfmpegStderrRing.call (createStderrRing (some 5) none)) :=
  drain_chunks (some 5) none [units "one\r", units "\nrtsp://u:pa", units "ss@h"] (by decide +kernel)

end Drac.Recordings.StderrRing
