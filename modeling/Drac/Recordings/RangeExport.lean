import Mathlib.Data.Rat.Floor
import Mathlib.Data.List.Sort
import Drac.Lib.JsText
import Drac.Lib.GapScan

/-
  Planning an export over an interval: from the recordings on disk, the parts to
  cut, the gaps to report and the margins to declare.

  Correspondence (`range-export.helper.ts` ↔ Lean):
    roundSeconds, normalizeCodec ↔ the same names
    decideStrategy   ↔ `decideStrategy`
    planRangeExport  ↔ `planRangeExport`, cut into `candidateOf` (its reading of a
                       segment), `selectSegments` (sort and limit), `addPart` (the turn
                       of its loop over the segments) and `GapScan.scan` (its walk over
                       the parts)

  An instant is its epoch milliseconds, as `toMs` reads it (`none` where it is no
  date); durations are whole milliseconds. Seconds are exact rationals, which differ
  from the doubles of the code for instants of the first hours of 1970.
-/

namespace Drac.Recordings

open JsText

structure RangeSourceSegment where
  id : String
  filePath : String
  startedAt : Option Int
  endedAt : Option Int := none
  durationMs : Option Int := none
  videoCodec : Option String := none
  audioCodec : Option String := none

inductive RangeExportStrategy where
  | copy
  | transcode
  deriving DecidableEq, Repr

/-- What is taken of one segment. -/
structure RangeExportPart where
  recordingId : String
  filePath : String
  inpointSeconds : ℚ
  outpointSeconds : ℚ
  durationSeconds : ℚ
  offsetSeconds : ℚ
  segmentStartedAt : Int
  fileDurationSeconds : ℚ
  deriving DecidableEq

structure RangeExportGap where
  fromAt : Int
  toAt : Int
  seconds : ℚ
  deriving DecidableEq

structure RangeExportPlan where
  requestedFrom : Int
  requestedTo : Int
  parts : List RangeExportPart
  strategy : RangeExportStrategy
  strategyReasons : List String
  videoCodec : Option String
  tagHvc1 : Bool
  totalDurationSeconds : ℚ
  coveredFrom : Option Int
  coveredTo : Option Int
  requestedSeconds : ℚ
  coveredSeconds : ℚ
  gaps : List RangeExportGap
  continuous : Bool
  leadInSeconds : ℚ
  leadOutSeconds : ℚ
  truncated : Bool
  skipped : Nat
  deriving DecidableEq

structure PlanRangeExportInput where
  segments : List RangeSourceSegment
  fromAt : Option Int
  toAt : Option Int
  gapToleranceSeconds : Option ℚ := none
  maxSegments : Option ℚ := none
  copySafetySeconds : Option ℚ := none
  forceTranscode : Bool := false

inductive RangeExportError where
  /-- `Intervalo inválido para a exportação.` -/
  | invalidInterval
  /-- `Intervalo inválido: o fim precisa ser depois do início.` -/
  | endNotAfterStart
  /-- `toISOString` of an instant outside the range of dates. -/
  | invalidDate
  deriving DecidableEq, Repr

/-- `a.localeCompare(b) <= 0`: total and transitive, also among texts that compare
equal. -/
structure LocaleOrder where
  le : String → String → Bool
  total : ∀ a b, le a b = true ∨ le b a = true
  trans : ∀ a b c, le a b = true → le b c = true → le a c = true

/-! ## Reading the segments -/

/-- `Math.round`. -/
def roundMs (ms : ℚ) : Int := ⌊ms + 1 / 2⌋

def roundSeconds (ms : ℚ) : ℚ := roundMs ms / 1000

def normalizeCodec (codec : Option String) : String := (trim (codec.getD "")).toLower

/-- A segment whose two instants are known. -/
structure Candidate where
  id : String
  filePath : String
  startMs : Int
  endMs : Int
  videoCodec : String
  audioCodec : String
  deriving DecidableEq

/-- Where a segment that starts at an instant ends: its own end where that is later,
else its duration where that is positive. -/
def usableEnd (raw : RangeSourceSegment) (startMs : Int) : Option Int :=
  match raw.endedAt.filter (startMs < ·) with
  | some endMs => some endMs
  | none => (raw.durationMs.filter (0 < ·)).map (startMs + ·)

/-- The segment as a candidate, where it overlaps the interval in more than a border. -/
def candidateOf (fromMs toMs : Int) (raw : RangeSourceSegment) : Option Candidate :=
  raw.startedAt.bind (fun startMs =>
    (usableEnd raw startMs).bind (fun endMs =>
      if endMs ≤ fromMs ∨ toMs ≤ startMs then none
      else some {
        id := raw.id
        filePath := raw.filePath
        startMs := startMs
        endMs := endMs
        videoCodec := normalizeCodec raw.videoCodec
        audioCodec := normalizeCodec raw.audioCodec }))

/-- A segment of no usable duration that starts before the end of the interval. -/
def isSkipped (toMs : Int) (raw : RangeSourceSegment) : Bool :=
  raw.startedAt.any (fun startMs => (usableEnd raw startMs).isNone && startMs < toMs)

def LocaleOrder.precedes (order : LocaleOrder) (a b : Candidate) : Prop :=
  a.startMs < b.startMs ∨ (a.startMs = b.startMs ∧ order.le a.id b.id = true)

instance decidablePrecedesCandidate (order : LocaleOrder) (a b : Candidate) :
    Decidable (order.precedes a b) :=
  inferInstanceAs (Decidable (_ ∨ _))

def segmentLimit (input : PlanRangeExportInput) : Nat := max 1 ⌊input.maxSegments.getD 240⌋.toNat

/-- The segments that meet the interval, in order. -/
def candidatesOf (order : LocaleOrder) (input : PlanRangeExportInput) (fromMs toMs : Int) :
    List Candidate :=
  (input.segments.filterMap (candidateOf fromMs toMs)).insertionSort order.precedes

/-- The segments an export is made of. -/
def selectSegments (order : LocaleOrder) (input : PlanRangeExportInput) (fromMs toMs : Int) :
    List Candidate :=
  (candidatesOf order input fromMs toMs).take (segmentLimit input)

/-! ## Strategy -/

def copySafeVideo : List String := ["h264", "hevc", "h265"]

def copySafeAudio : List String := ["aac", "mp3"]

def hevcCodecs : List String := ["hevc", "h265"]

structure StrategyDecision where
  strategy : RangeExportStrategy
  reasons : List String
  videoCodec : Option String
  deriving DecidableEq

/-- Stream copy only where every codec is known, the same and safe to copy. -/
def decideStrategy (candidates : List Candidate) (forceTranscode : Bool) : StrategyDecision :=
  let unknown := (candidates.filter (·.videoCodec = "")).map ("codec_desconhecido:" ++ ·.id)
  let videos := ((candidates.map (·.videoCodec)).filter (· ≠ "")).eraseDups
  let mixedVideo :=
    if 1 < videos.length then ["codec_video_misto:" ++ String.intercalate "+" videos] else []
  let unsafeVideo :=
    (videos.filter (· ∉ copySafeVideo)).map ("codec_video_nao_copiavel:" ++ ·)
  let audios := (candidates.map (·.audioCodec)).eraseDups
  let mixedAudio :=
    if 1 < audios.length then
      ["audio_misto:" ++
        String.intercalate "+" (audios.map (fun a => if a = "" then "sem_audio" else a))]
    else []
  let unsafeAudio :=
    (audios.filter (fun a => a ≠ "" && a ∉ copySafeAudio)).map ("codec_audio_nao_copiavel:" ++ ·)
  let forced := if forceTranscode then ["perfil_compativel_solicitado"] else []
  let reasons := unknown ++ mixedVideo ++ unsafeVideo ++ mixedAudio ++ unsafeAudio ++ forced
  { strategy := if reasons.isEmpty then .copy else .transcode
    reasons := reasons.eraseDups
    videoCodec := (candidates.head?.map (·.videoCodec)).filter (· ≠ "") }

/-- The keyframe margin, which only a stream copy needs. -/
def marginMs (input : PlanRangeExportInput) (strategy : RangeExportStrategy) : ℚ :=
  match strategy with
  | .copy => max 0 (input.copySafetySeconds.getD 2) * 1000
  | .transcode => 0

def toleranceMs (input : PlanRangeExportInput) : ℚ :=
  max 0 (input.gapToleranceSeconds.getD 1 * 1000)

/-! ## Parts -/

def rawIn (fromMs : Int) (c : Candidate) : ℚ := max 0 (fromMs - c.startMs)

def fileDuration (c : Candidate) : ℚ := c.endMs - c.startMs

def rawOut (toMs : Int) (c : Candidate) : ℚ := min (fileDuration c) (toMs - c.startMs)

/-- The entry point, drawn back by the margin where the interval cuts. -/
def cutIn (fromMs : Int) (margin : ℚ) (c : Candidate) : ℚ :=
  if 0 < rawIn fromMs c then max 0 (rawIn fromMs c - margin) else 0

/-- The exit point, put off by the margin where the interval cuts. -/
def cutOut (toMs : Int) (margin : ℚ) (c : Candidate) : ℚ :=
  if rawOut toMs c < fileDuration c then min (fileDuration c) (rawOut toMs c + margin)
  else fileDuration c

/-- The loop over the segments, so far. -/
structure PartsState where
  parts : List RangeExportPart := []
  cursorMs : ℚ := 0
  leadInMs : ℚ := 0
  leadOutMs : ℚ := 0

def addPart (fromMs toMs : Int) (margin : ℚ) (st : PartsState) (c : Candidate) : PartsState :=
  let inMs := cutIn fromMs margin c
  let outMs := cutOut toMs margin c
  let declared := { st with
    leadInMs := if 0 < rawIn fromMs c then rawIn fromMs c - inMs else st.leadInMs
    leadOutMs := if rawOut toMs c < fileDuration c then outMs - rawOut toMs c else st.leadOutMs }
  let durationMs := outMs - inMs
  if durationMs ≤ 0 then declared
  else
    { declared with
      parts := declared.parts ++ [{
        recordingId := c.id
        filePath := c.filePath
        inpointSeconds := roundSeconds inMs
        outpointSeconds := roundSeconds outMs
        durationSeconds := roundSeconds durationMs
        offsetSeconds := roundSeconds declared.cursorMs
        segmentStartedAt := c.startMs
        fileDurationSeconds := roundSeconds (fileDuration c) }]
      cursorMs := declared.cursorMs + durationMs }

/-! ## The plan -/

/-- The instant a part begins at. -/
def RangeExportPart.fromMs (p : RangeExportPart) : ℚ := p.segmentStartedAt + p.inpointSeconds * 1000

/-- The instant a part ends at. -/
def RangeExportPart.toMs (p : RangeExportPart) : ℚ := p.segmentStartedAt + p.outpointSeconds * 1000

/-- The instant of a date made from a number: its fraction is cut off. -/
def dateMs (ms : ℚ) : Int := if 0 ≤ ms then ⌊ms⌋ else ⌈ms⌉

def isDate (ms : Int) : Bool := ms.natAbs ≤ 8640000000000000

/-- A stretch longer than the tolerance. -/
def isLong (tolerance : ℚ) (a b : ℚ) : Bool := tolerance < b - a

def toGap (g : GapScan.Interval ℚ) : RangeExportGap where
  fromAt := dateMs g.1
  toAt := dateMs g.2
  seconds := roundSeconds (g.2 - g.1)

def planRangeExport (order : LocaleOrder) (input : PlanRangeExportInput) :
    Except RangeExportError RangeExportPlan :=
  match input.fromAt, input.toAt with
  | some fromMs, some toMs =>
    if toMs ≤ fromMs then .error .endNotAfterStart
    else
      let selected := selectSegments order input fromMs toMs
      let decision := decideStrategy selected input.forceTranscode
      let margin := marginMs input decision.strategy
      let cut := selected.foldl (addPart fromMs toMs margin) {}
      let gaps := (GapScan.scan (isLong (toleranceMs input)) (toMs : ℚ) (fromMs : ℚ)
        (cut.parts.map (fun p => (p.fromMs, p.toMs)))).map toGap
      let coveredFrom := cut.parts.head?.map (fun p => dateMs p.fromMs)
      let coveredTo := cut.parts.getLast?.map (fun p => dateMs p.toMs)
      let requestedSeconds := roundSeconds (toMs - fromMs)
      let gapSeconds := (gaps.map (·.seconds)).sum
      let dates := cut.parts.map (·.segmentStartedAt) ++ gaps.map (·.fromAt) ++ gaps.map (·.toAt) ++
        coveredFrom.toList ++ coveredTo.toList
      if dates.all isDate then
        .ok {
          requestedFrom := fromMs
          requestedTo := toMs
          parts := cut.parts
          strategy := decision.strategy
          strategyReasons := decision.reasons
          videoCodec := decision.videoCodec
          tagHvc1 := decision.strategy = .copy && decision.videoCodec.any (· ∈ hevcCodecs)
          totalDurationSeconds := roundSeconds cut.cursorMs
          coveredFrom := coveredFrom
          coveredTo := coveredTo
          requestedSeconds := requestedSeconds
          coveredSeconds := max 0 (roundSeconds ((requestedSeconds - gapSeconds) * 1000))
          gaps := gaps
          continuous := !cut.parts.isEmpty && gaps.isEmpty
          leadInSeconds := roundSeconds cut.leadInMs
          leadOutSeconds := roundSeconds cut.leadOutMs
          truncated := segmentLimit input < (candidatesOf order input fromMs toMs).length
          skipped := input.segments.countP (isSkipped toMs) }
      else .error .invalidDate
  | _, _ => .error .invalidInterval

end Drac.Recordings
