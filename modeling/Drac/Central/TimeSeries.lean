import Mathlib.Data.List.Sort
import Drac.Lib.IsoTime
import Drac.Lib.JsMap

/-
  The time series of the fleet: aggregates of an hour and the plan of retention.

  Correspondence (`timeseries.js` ↔ Lean):
    round2, bucketStartMs, cloneAggregate, mergeAggregate ↔ the same names
    aggregateSamples ↔ the same name, one turn of its loop `addSample`
    planRetention    ↔ the same name, one turn of its loop `retainSample`

  A sample is what the code reads of it: its time as `toMs` makes it and each metric
  as `toNumber` makes it, `none` for what is not a number; a sample that is no
  object is `none`. Finite numbers are rationals. An object keyed by metrics is the
  function of its keys.
-/

namespace Drac.Central.TimeSeries

def hourMs : ℚ := 3600 * 1000

def defaultRawRetentionHours : ℚ := 48

/-- `METRIC_KEYS`. -/
inductive Metric where
  | camerasTotal
  | camerasOnline
  | camerasOffline
  | camerasError
  | camerasStalled
  | recordingsActive
  | diskUsagePercent
  | alertsCritical
  deriving DecidableEq, Repr

structure Sample where
  t : Option ℚ
  value : Metric → Option ℚ

/-- `Math.round(n * 100) / 100`. -/
def round2 (value : ℚ) : ℚ := (⌊value * 100 + 1 / 2⌋ : ℚ) / 100

/-! ## Aggregates -/

structure Stat where
  min : ℚ
  avg : ℚ
  max : ℚ
  count : Nat
  deriving DecidableEq

@[ext] structure Aggregate where
  samples : Nat
  stats : Metric → Option Stat

/-- What the loop of `aggregateSamples` keeps of a metric. -/
@[ext] structure Accumulated where
  min : ℚ
  max : ℚ
  sum : ℚ
  count : Nat

def addValue (current : Option Accumulated) (value : ℚ) : Accumulated :=
  match current with
  | none => ⟨value, value, value, 1⟩
  | some a =>
    { min := if value < a.min then value else a.min
      max := if a.max < value then value else a.max
      sum := a.sum + value
      count := a.count + 1 }

/-- One turn: each metric the sample has is added to what there is of it. -/
def addSample (acc : Metric → Option Accumulated) (sample : Sample) : Metric → Option Accumulated :=
  fun key =>
    match sample.value key with
    | none => acc key
    | some value => some (addValue (acc key) value)

def Accumulated.stat (a : Accumulated) : Stat where
  min := round2 a.min
  avg := round2 (a.sum / a.count)
  max := round2 a.max
  count := a.count

def aggregateSamples (samples : List (Option Sample)) : Aggregate where
  samples := (samples.filterMap id).length
  stats := fun key =>
    ((samples.filterMap id).foldl addSample (fun _ => none) key).map Accumulated.stat

def cloneAggregate (aggregate : Option Aggregate) : Aggregate :=
  aggregate.getD ⟨0, fun _ => none⟩

def mergeStat (a b : Stat) : Stat :=
  let count := a.count + b.count
  { min := Min.min a.min b.min
    max := Max.max a.max b.max
    avg :=
      if 0 < count then round2 ((a.avg * a.count + b.avg * b.count) / count) else round2 a.avg
    count := count }

def mergeAggregate (left right : Option Aggregate) : Aggregate :=
  match left, right with
  | none, right => cloneAggregate right
  | left, none => cloneAggregate left
  | some left, some right =>
    { samples := left.samples + right.samples
      stats := fun key =>
        match left.stats key, right.stats key with
        | none, b => b
        | some a, none => some a
        | some a, some b => some (mergeStat a b) }

/-! ## Retention -/

def bucketStartMs (ms : ℚ) : Int := ⌊ms / 3600000⌋ * 3600000

/-- `RangeError: Invalid time value`. -/
inductive TimeError where
  | invalidTime
  deriving DecidableEq, Repr

/-- `new Date(ms).toISOString()`. -/
def toISOString (ms : ℚ) : Except TimeError String :=
  let t := IsoTime.truncate ms
  if t.natAbs ≤ IsoTime.maxTime then .ok (String.ofList (IsoTime.isoText t))
  else .error .invalidTime

structure Bucket where
  bucket : String
  aggregate : Aggregate

structure RetentionOptions where
  /-- `toMs(options.now) ?? Date.now()`. -/
  now : ℚ
  rawRetentionHours : Option ℚ

structure RetentionPlan where
  cutoff : String
  kept : List (Option Sample)
  pruned : List (Option Sample)
  invalid : List (Option Sample)
  buckets : List Bucket

/-- The lists of the loop, so far. -/
structure Sorting where
  kept : List (Option Sample)
  pruned : List (Option Sample)
  invalid : List (Option Sample)
  byBucket : List (String × List (Option Sample))

/-- `toMs(sample?.t)`. -/
def sampleMs (sample : Option Sample) : Option ℚ := sample.bind (·.t)

/-- One turn: the sample goes to `invalid`, to `kept`, or to `pruned` and to the
bucket of its hour. -/
def retainSample (cutoffMs : ℚ) (st : Sorting) (sample : Option Sample) : Except TimeError Sorting :=
  match sampleMs sample with
  | none => .ok { st with invalid := st.invalid ++ [sample] }
  | some ms =>
    if cutoffMs ≤ ms then .ok { st with kept := st.kept ++ [sample] }
    else do
      let bucket ← toISOString (bucketStartMs ms)
      return { st with
        pruned := st.pruned ++ [sample]
        byBucket :=
          match JsMap.get? st.byBucket bucket with
          | some list => JsMap.set st.byBucket bucket (list ++ [sample])
          | none => JsMap.set st.byBucket bucket [sample] }

/-- Not after, as `<` compares texts. -/
def textLe (a b : String) : Prop := JsText.lt b a = false

instance (a b : String) : Decidable (textLe a b) :=
  inferInstanceAs (Decidable (JsText.lt b a = false))

/-- Samples before it are pruned. -/
def cutoffMs (options : RetentionOptions) : ℚ :=
  let hours :=
    match options.rawRetentionHours with
    | some hours => if 0 ≤ hours then hours else defaultRawRetentionHours
    | none => defaultRawRetentionHours
  options.now - hours * hourMs

def planRetention (samples : List (Option Sample)) (options : RetentionOptions) :
    Except TimeError RetentionPlan := do
  let st ← samples.foldlM (retainSample (cutoffMs options)) ⟨[], [], [], []⟩
  let buckets := (st.byBucket.insertionSort (fun a b => textLe a.1 b.1)).map
    (fun entry => ⟨entry.1, aggregateSamples entry.2⟩)
  let cutoff ← toISOString (cutoffMs options)
  return ⟨cutoff, st.kept, st.pruned, st.invalid, buckets⟩

end Drac.Central.TimeSeries
