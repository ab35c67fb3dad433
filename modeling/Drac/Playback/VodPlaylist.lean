import Drac.Lib.Binary64
import Drac.Recordings.RangeExport

/-
  A playlist over many recordings, planned by the API and read by the player.

  Correspondence:
    `vod-playlist.helper.ts`   toMs, roundSeconds ↔ `secondsOf`, normalizeCodec,
                               planVodPlaylist ↔ `planVodPlaylist`, cut into `candidateOf`,
                               `selectSegments` and `planSegments` (the turns of its loop)
    `recordings.service.ts`, `buildVodPlaylist`   what it answers of a plan ↔ `answerOf`
    `vod-continuous.ts`        roundSeconds, normalizeVodPlaylist, cut into `readSegment` and
                               `withOffsets`

  An instant is its epoch milliseconds, a whole number, and its ISO text is the instant; so is
  the end of a segment reckoned from its duration. Seconds are doubles: `fl` after each
  operation. The answer carries numbers and texts unchanged, and a field the player reads is
  `none` where it is missing or of another type. The tokens of the segments are left out.
-/

namespace Drac.Playback

open Binary64 JsText Recordings

/-- A generated key, with no white space at its ends. -/
structure RecordingId where
  text : String
  nonempty : text ≠ ""
  trimmed : Trimmed text

instance decidableEqRecordingId : DecidableEq RecordingId := fun a b =>
  decidable_of_iff (a.text = b.text) ⟨fun h => by cases a; cases b; cases h; rfl, congrArg _⟩

/-! ## The API -/

structure VodSourceSegment where
  id : RecordingId
  startedAt : Option ℤ
  endedAt : Option ℤ := none
  /-- `durationSeconds * 1000`. -/
  durationMs : Option ℤ := none
  codec : Option String := none

inductive VodDiscontinuityReason where
  | gap
  | overlap
  | codec
  deriving DecidableEq, Repr

structure VodPlaylistSegment where
  recordingId : RecordingId
  startedAt : ℤ
  endedAt : ℤ
  durationSeconds : ℚ
  offsetSeconds : ℚ
  discontinuityReason : Option VodDiscontinuityReason
  codec : Option String
  deriving DecidableEq

structure VodPlaylistPlan where
  fromAt : ℤ
  toAt : ℤ
  segments : List VodPlaylistSegment
  targetDurationSeconds : ℤ
  totalDurationSeconds : ℚ
  startOffsetSeconds : ℚ
  discontinuities : ℕ
  skipped : ℕ
  truncated : Bool
  coverage : Option ℤ × Option ℤ
  deriving DecidableEq

structure PlanVodPlaylistInput where
  segments : List VodSourceSegment
  fromAt : Option ℤ
  toAt : Option ℤ
  gapToleranceSeconds : Option ℚ := none
  maxSegments : Option ℚ := none

inductive VodPlaylistError where
  /-- `Intervalo inválido para a playlist VOD.` -/
  | invalidInterval
  /-- `toISOString` of an instant outside the range of dates. -/
  | invalidDate
  deriving DecidableEq, Repr

/-- A segment whose two instants are known. -/
structure VodCandidate where
  id : RecordingId
  startMs : ℤ
  endMs : ℤ
  codec : Option String
  deriving DecidableEq

/-- `roundSeconds` of the helper. -/
def secondsOf (ms : ℚ) : ℚ := fl (mathRound ms / 1000)

def normalizeVodCodec (codec : Option String) : Option String :=
  some ((trim (codec.getD "")).toLower) |>.filter (· ≠ "")

/-- Where a segment that starts at an instant ends, if it has a usable duration. -/
def usableEndMs (raw : VodSourceSegment) (startMs : ℤ) : Option ℤ :=
  match raw.endedAt.filter (startMs < ·) with
  | some endMs => some endMs
  | none => (raw.durationMs.filter (0 < ·)).map (startMs + ·)

def vodCandidateOf (fromMs toMs : ℤ) (raw : VodSourceSegment) : Option VodCandidate :=
  raw.startedAt.bind fun startMs =>
    (usableEndMs raw startMs).bind fun endMs =>
      if endMs ≤ fromMs ∨ startMs ≥ toMs then none
      else some { id := raw.id, startMs, endMs, codec := normalizeVodCodec raw.codec }

/-- A segment with no usable duration that starts before the end of the interval. -/
def isVodSkipped (toMs : ℤ) (raw : VodSourceSegment) : Bool :=
  raw.startedAt.any fun startMs => (usableEndMs raw startMs).isNone && startMs < toMs

/-- The order of both sorts: by start, then by id. -/
def startsBefore (order : LocaleOrder) (startA : ℤ) (idA : String) (startB : ℤ) (idB : String) :
    Prop :=
  startA < startB ∨ (startA = startB ∧ order.le idA idB = true)

instance (order : LocaleOrder) (startA : ℤ) (idA : String) (startB : ℤ) (idB : String) :
    Decidable (startsBefore order startA idA startB idB) :=
  inferInstanceAs (Decidable (_ ∨ _))

def vodCandidates (order : LocaleOrder) (input : PlanVodPlaylistInput) (fromMs toMs : ℤ) :
    List VodCandidate :=
  (input.segments.filterMap (vodCandidateOf fromMs toMs)).insertionSort fun a b =>
    startsBefore order a.startMs a.id.text b.startMs b.id.text

def maxVodSegments (input : PlanVodPlaylistInput) : ℕ :=
  max 1 ⌊input.maxSegments.getD 720⌋.toNat

def selectedSegments (order : LocaleOrder) (input : PlanVodPlaylistInput) (fromMs toMs : ℤ) :
    List VodCandidate :=
  (vodCandidates order input fromMs toMs).take (maxVodSegments input)

def discontinuityOf (toleranceMs : ℚ) (previous : Option VodCandidate) (current : VodCandidate) :
    Option VodDiscontinuityReason :=
  match previous with
  | none => none
  | some previous =>
    let deltaMs := fl (current.startMs - previous.endMs : ℤ)
    if deltaMs > toleranceMs then some .gap
    else if deltaMs < -toleranceMs then some .overlap
    else if previous.codec.isSome && current.codec.isSome && previous.codec ≠ current.codec then
      some .codec
    else none

def VodCandidate.lengthMs (current : VodCandidate) : ℚ := fl (current.endMs - current.startMs : ℤ)

/-- `cursorMs += current.endMs - current.startMs`. -/
def advanceMs (cursorMs : ℚ) (current : VodCandidate) : ℚ := fl (cursorMs + current.lengthMs)

def planSegments (toleranceMs : ℚ) :
    Option VodCandidate → ℚ → List VodCandidate → List VodPlaylistSegment
  | _, _, [] => []
  | previous, cursorMs, current :: rest =>
    { recordingId := current.id
      startedAt := current.startMs
      endedAt := current.endMs
      durationSeconds := secondsOf current.lengthMs
      offsetSeconds := secondsOf cursorMs
      discontinuityReason := discontinuityOf toleranceMs previous current
      codec := current.codec } ::
    planSegments toleranceMs (some current) (advanceMs cursorMs current) rest

/-- The last instant of a `Date`. -/
def maxTime : ℤ := 8640000000000000

def planVodPlaylist (order : LocaleOrder) (input : PlanVodPlaylistInput) :
    Except VodPlaylistError VodPlaylistPlan :=
  match input.fromAt, input.toAt with
  | some fromMs, some toMs =>
    let toleranceMs := max 0 (fl (input.gapToleranceSeconds.getD 1 * 1000))
    let selected := selectedSegments order input fromMs toMs
    let segments := planSegments toleranceMs none 0 selected
    if selected.any fun current => maxTime < |current.endMs| then .error .invalidDate
    else .ok {
      fromAt := fromMs
      toAt := toMs
      segments
      targetDurationSeconds :=
        max 1 ⌈segments.foldl (fun longest segment => max longest segment.durationSeconds) 0⌉
      totalDurationSeconds := secondsOf (selected.foldl advanceMs 0)
      startOffsetSeconds :=
        match selected with
        | [] => 0
        | first :: _ => max 0 (secondsOf (fl (min fromMs first.endMs - first.startMs : ℤ)))
      discontinuities := segments.countP (·.discontinuityReason.isSome)
      skipped := input.segments.countP (isVodSkipped toMs)
      truncated := maxVodSegments input < (vodCandidates order input fromMs toMs).length
      coverage := (selected.head?.map (·.startMs), selected.getLast?.map (·.endMs)) }
  | _, _ => .error .invalidInterval

/-! ## The answer -/

structure RawVodSegment where
  recordingId : Option String
  startedAt : Option ℤ
  endedAt : Option ℤ
  durationSeconds : Option ℚ
  discontinuity : Bool
  playUrl : Option String

structure RawVodPlaylist where
  cameraId : Option String
  fromAt : Option ℤ
  toAt : Option ℤ
  segments : Option (List RawVodSegment)
  startOffsetSeconds : Option ℚ
  truncated : Bool

/-- `buildSegmentUrl`, given the encoded token of a recording. -/
def segmentUrl (token : String → String) (id : RecordingId) : String :=
  id.text ++ "/play.mp4?token=" ++ token id.text

/-- What the answer says of a planned segment. -/
def rawOf (token : String → String) (segment : VodPlaylistSegment) : RawVodSegment where
  recordingId := some segment.recordingId.text
  startedAt := some segment.startedAt
  endedAt := some segment.endedAt
  durationSeconds := some segment.durationSeconds
  discontinuity := segment.discontinuityReason.isSome
  playUrl := some (segmentUrl token segment.recordingId)

def answerOf (cameraId : String) (token : String → String) (plan : VodPlaylistPlan) :
    RawVodPlaylist where
  cameraId := some cameraId
  fromAt := some plan.fromAt
  toAt := some plan.toAt
  segments := some (plan.segments.map (rawOf token))
  startOffsetSeconds := some plan.startOffsetSeconds
  truncated := plan.truncated

/-! ## The player -/

/-- A segment as the player keeps it. -/
structure PlayerSegment where
  recordingId : String
  startedAtMs : ℤ
  endedAtMs : ℚ
  durationSeconds : ℚ
  offsetSeconds : ℚ
  discontinuity : Bool
  playUrl : String
  deriving DecidableEq

structure VodPlaylist where
  cameraId : String
  fromMs : ℚ
  toMs : ℚ
  segments : List PlayerSegment
  totalDurationSeconds : ℚ
  startOffsetSeconds : ℚ
  truncated : Bool
  deriving DecidableEq

/-- `roundSeconds` of the player. -/
def roundToMs (seconds : ℚ) : ℚ := fl (mathRound (fl (seconds * 1000)) / 1000)

/-- The duration of a segment of the answer: declared, else between its ends, else none. -/
def durationOf (item : RawVodSegment) (startedAtMs : ℤ) : ℚ :=
  match item.durationSeconds.filter (0 < ·) with
  | some declared => declared
  | none =>
    match item.endedAt.filter (startedAtMs < ·) with
    | some endedAtMs => fl (fl (endedAtMs - startedAtMs : ℤ) / 1000)
    | none => 0

/-- A segment of the answer, its offset not reckoned yet (0), or `none` where it is dropped. -/
def readSegment (item : RawVodSegment) : Option PlayerSegment :=
  let recordingId := (item.recordingId.map trim).getD ""
  let playUrl := (item.playUrl.map trim).getD ""
  if recordingId = "" ∨ playUrl = "" then none
  else
    item.startedAt.bind fun startedAtMs =>
      let durationSeconds := durationOf item startedAtMs
      if durationSeconds > 0 then
        some {
          recordingId
          startedAtMs
          endedAtMs := fl (startedAtMs + fl (durationSeconds * 1000))
          durationSeconds := roundToMs durationSeconds
          offsetSeconds := 0
          discontinuity := item.discontinuity
          playUrl }
      else none

def advanceSeconds (cursorSeconds : ℚ) (item : PlayerSegment) : ℚ :=
  fl (cursorSeconds + item.durationSeconds)

/-- The offsets, reckoned from the durations in the order of the clock. -/
def withOffsets : ℚ → List PlayerSegment → List PlayerSegment
  | _, [] => []
  | cursorSeconds, item :: rest =>
    { item with offsetSeconds := roundToMs cursorSeconds } ::
      withOffsets (advanceSeconds cursorSeconds item) rest

def normalizeVodPlaylist (order : LocaleOrder) (raw : RawVodPlaylist) : Option VodPlaylist :=
  raw.segments.bind fun items =>
    let parsed := (items.filterMap readSegment).insertionSort fun a b =>
      startsBefore order a.startedAtMs a.recordingId b.startedAtMs b.recordingId
    let segments := withOffsets 0 parsed
    let totalDurationSeconds := roundToMs (parsed.foldl advanceSeconds 0)
    match segments.head?, segments.getLast? with
    | some first, some last =>
      some {
        cameraId := raw.cameraId.getD ""
        fromMs := (raw.fromAt.map (↑)).getD first.startedAtMs
        toMs := (raw.toAt.map (↑)).getD last.endedAtMs
        segments
        totalDurationSeconds
        startOffsetSeconds :=
          match raw.startOffsetSeconds.filter (0 < ·) with
          | some declared => min declared totalDurationSeconds
          | none => 0
        truncated := raw.truncated }
    | _, _ => none

end Drac.Playback
