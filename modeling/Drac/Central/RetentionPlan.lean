import Mathlib.Data.Set.List
import Drac.Lib.Grouping
import Drac.Lib.TextOrder
import Drac.Central.TimeSeries

/-
  The plan of retention parts the samples.

    RetentionPlan.Partitions   kept, pruned and invalid are the samples at or after the
                               cutoff, before it and without a time; one bucket an hour,
                               sorted, has all the pruned samples of its hour
    foldlM_retainSample        the lists the loop leaves, and the pruned ones grouped by
                               the text of their hour
-/

namespace Drac.Central.TimeSeries

open IsoTime

def hourOf (sample : Option Sample) : Option Int := (sampleMs sample).map bucketStartMs

def hourText (hour : Int) : String := String.ofList (isoText hour)

def isKept (cutoff : ℚ) (sample : Option Sample) : Bool := (sampleMs sample).any (cutoff ≤ ·)

def isPruned (cutoff : ℚ) (sample : Option Sample) : Bool := (sampleMs sample).any (· < cutoff)

def isInvalid (sample : Option Sample) : Bool := (sampleMs sample).isNone

def ofHour (samples : List (Option Sample)) (hour : Int) : List (Option Sample) :=
  samples.filter (fun sample => hourOf sample = some hour)

/-- Each sample is in one of the three lists, by its time. -/
structure RetentionPlan.Partitions (samples : List (Option Sample)) (cutoff : ℚ)
    (plan : RetentionPlan) : Prop where
  all : (plan.kept ++ plan.pruned ++ plan.invalid).Perm samples
  kept : plan.kept = samples.filter (isKept cutoff)
  pruned : plan.pruned = samples.filter (isPruned cutoff)
  invalid : plan.invalid = samples.filter isInvalid
  buckets : ∃ hours : List Int, hours.Nodup ∧
    (∀ hour, hour ∈ hours ↔ ∃ sample ∈ plan.pruned, hourOf sample = some hour) ∧
    plan.buckets = hours.map (fun hour => ⟨hourText hour, aggregateSamples (ofHour plan.pruned hour)⟩)
  sorted : plan.buckets.Pairwise (fun a b => JsText.lt a.bucket b.bucket = true)
  counts : (plan.buckets.map (fun b => b.aggregate.samples)).sum = plan.pruned.length

/-! ## Instants a date can hold -/

theorem toISOString_int (t : Int) : toISOString (t : ℚ) =
    if t.natAbs ≤ maxTime then .ok (hourText t) else .error .invalidTime := by
  simp only [toISOString, truncate_intCast]
  rfl

theorem toISOString_isOk (ms : ℚ) : (∃ text, toISOString ms = .ok text) ↔ |ms| < maxTime + 1 := by
  rw [← natAbs_truncate_le]
  by_cases h : (truncate ms).natAbs ≤ maxTime
  · exact iff_of_true ⟨_, if_pos h⟩ h
  · refine iff_of_false ?_ h
    rintro ⟨text, htext⟩
    rw [toISOString, if_neg h] at htext
    cases htext

theorem bucketStartMs_le (ms : ℚ) : (bucketStartMs ms : ℚ) ≤ ms := by
  have hfloor := Int.floor_le (ms / 3600000)
  have hmul : (⌊ms / 3600000⌋ : ℚ) * 3600000 ≤ ms := by
    rw [← le_div_iff₀ (by norm_num)]
    exact hfloor
  simpa [bucketStartMs] using hmul

theorem le_bucketStartMs (ms : ℚ) : -maxTime ≤ bucketStartMs ms ↔ (-maxTime : ℚ) ≤ ms := by
  constructor
  · intro h
    have hcast : (-maxTime : ℚ) ≤ bucketStartMs ms := by exact_mod_cast h
    exact hcast.trans (bucketStartMs_le ms)
  · intro h
    have hfloor : (-2400000000 : Int) ≤ ⌊ms / 3600000⌋ := by
      rw [Int.le_floor, le_div_iff₀ (by norm_num)]
      simp only [maxTime] at h
      norm_num at h ⊢
      exact h
    simp only [bucketStartMs, maxTime]
    omega

/-! ## The loop -/

/-- A date can hold the hour of the sample, where the sample is before the cutoff. -/
def Datable (cutoff : ℚ) (sample : Option Sample) : Prop :=
  ∀ ms, sampleMs sample = some ms → ms < cutoff → (-maxTime : ℚ) ≤ ms

def hourKey (sample : Option Sample) : String := ((hourOf sample).map hourText).getD ""

theorem natAbs_bucketStartMs {cutoff ms : ℚ} (hcutoff : cutoff < maxTime + 1) (hms : ms < cutoff) :
    (bucketStartMs ms).natAbs ≤ maxTime ↔ (-maxTime : ℚ) ≤ ms := by
  have hhigh : (bucketStartMs ms : ℚ) < ((maxTime + 1 : Int) : ℚ) := by
    push_cast
    exact (bucketStartMs_le ms).trans_lt (hms.trans hcutoff)
  have hhigh' : bucketStartMs ms < maxTime + 1 := by exact_mod_cast hhigh
  rw [← le_bucketStartMs]
  omega

/-- The lists hold what the loop has seen so far, by its time. -/
structure Sorting.Sorted (cutoff : ℚ) (samples : List (Option Sample)) (st : Sorting) : Prop where
  kept : st.kept = samples.filter (isKept cutoff)
  pruned : st.pruned = samples.filter (isPruned cutoff)
  invalid : st.invalid = samples.filter isInvalid
  grouped : Grouping.Grouped hourKey st.pruned st.byBucket

theorem sorted_nil (cutoff : ℚ) : Sorting.Sorted cutoff [] ⟨[], [], [], []⟩ :=
  ⟨rfl, rfl, rfl, Grouping.grouped_nil _⟩

section

variable {cutoff : ℚ} {samples : List (Option Sample)} {st st' : Sorting} {sample : Option Sample}

theorem retainSample_pruned {ms : ℚ} {text : String} (hms : sampleMs sample = some ms)
    (hlt : ms < cutoff) (htext : toISOString (bucketStartMs ms) = .ok text) :
    retainSample cutoff st sample = .ok { st with
      pruned := st.pruned ++ [sample]
      byBucket := Grouping.push st.byBucket text sample } := by
  simp only [retainSample, hms, if_neg (not_le.mpr hlt), htext, Grouping.push]
  cases hget : JsMap.get? st.byBucket text <;> simp only [bind, Except.bind, hget] <;> rfl

theorem retainSample_sorted (hcutoff : cutoff < maxTime + 1) (h : st.Sorted cutoff samples)
    (hdate : Datable cutoff sample) :
    ∃ st', retainSample cutoff st sample = .ok st' ∧ st'.Sorted cutoff (samples ++ [sample]) := by
  cases hms : sampleMs sample with
  | none =>
    have hkept : isKept cutoff sample = false := by simp [isKept, hms]
    have hpruned : isPruned cutoff sample = false := by simp [isPruned, hms]
    have hinvalid : isInvalid sample = true := by simp [isInvalid, hms]
    refine ⟨{ st with invalid := st.invalid ++ [sample] }, by simp only [retainSample, hms], ?_⟩
    constructor <;> simp [List.filter_append, hkept, hpruned, hinvalid, h.kept, h.pruned, h.invalid]
    simpa [h.pruned] using h.grouped
  | some ms =>
    have hinvalid : isInvalid sample = false := by simp [isInvalid, hms]
    by_cases hle : cutoff ≤ ms
    · have hkept : isKept cutoff sample = true := by simp [isKept, hms, hle]
      have hpruned : isPruned cutoff sample = false := by simp [isPruned, hms, hle]
      refine ⟨{ st with kept := st.kept ++ [sample] },
        by simp only [retainSample, hms, if_pos hle], ?_⟩
      constructor <;> simp [List.filter_append, hkept, hpruned, hinvalid, h.kept, h.pruned, h.invalid]
      simpa [h.pruned] using h.grouped
    · have hlt := not_le.mp hle
      have hkept : isKept cutoff sample = false := by simp [isKept, hms, hlt]
      have hpruned : isPruned cutoff sample = true := by simp [isPruned, hms, hlt]
      have htext : toISOString (bucketStartMs ms) = .ok (hourText (bucketStartMs ms)) := by
        rw [toISOString_int, if_pos ((natAbs_bucketStartMs hcutoff hlt).mpr (hdate ms hms hlt))]
      have hkey : hourKey sample = hourText (bucketStartMs ms) := by simp [hourKey, hourOf, hms]
      have hgrouped := h.grouped.push sample
      rw [hkey] at hgrouped
      refine ⟨_, retainSample_pruned hms hlt htext, ?_⟩
      constructor
      · simp [List.filter_append, hkept, h.kept]
      · simp [List.filter_append, hpruned, h.pruned]
      · simp [List.filter_append, hinvalid, h.invalid]
      · exact hgrouped

theorem foldlM_retainSample (hcutoff : cutoff < maxTime + 1) (rest : List (Option Sample)) :
    ∀ {done : List (Option Sample)} {st : Sorting}, st.Sorted cutoff done →
      (∀ sample ∈ rest, Datable cutoff sample) →
      ∃ st', rest.foldlM (retainSample cutoff) st = .ok st' ∧ st'.Sorted cutoff (done ++ rest) := by
  induction rest with
  | nil =>
    intro done st h _
    exact ⟨st, rfl, by simpa using h⟩
  | cons sample rest ih =>
    intro done st h hdate
    obtain ⟨st', hstep, h'⟩ := retainSample_sorted hcutoff h (hdate sample List.mem_cons_self)
    obtain ⟨st'', hrest, h''⟩ := ih h' (fun s hs => hdate s (List.mem_cons_of_mem _ hs))
    refine ⟨st'', ?_, by simpa using h''⟩
    rw [List.foldlM_cons, hstep]
    exact hrest

theorem datable_of_retainSample (hcutoff : cutoff < maxTime + 1)
    (h : retainSample cutoff st sample = .ok st') : Datable cutoff sample := by
  intro ms hms hlt
  rw [← natAbs_bucketStartMs hcutoff hlt]
  by_contra hfar
  simp only [retainSample, hms, if_neg (not_le.mpr hlt), toISOString_int, if_neg hfar] at h
  cases h

theorem datable_of_foldlM (hcutoff : cutoff < maxTime + 1) (rest : List (Option Sample)) :
    ∀ {st st' : Sorting}, rest.foldlM (retainSample cutoff) st = .ok st' →
      ∀ sample ∈ rest, Datable cutoff sample := by
  induction rest with
  | nil =>
    intro st st' _ sample hmem
    cases hmem
  | cons head rest ih =>
    intro st st' h
    rw [List.foldlM_cons] at h
    cases hstep : retainSample cutoff st head with
    | error e => rw [hstep] at h; cases h
    | ok st'' =>
      rw [hstep] at h
      rintro sample (_ | ⟨_, hmem⟩)
      · exact datable_of_retainSample hcutoff hstep
      · exact ih h sample hmem

end

/-! ## The buckets -/

theorem textLe_iff (a b : String) : textLe a b ↔ JsText.utf16 a.toList ≤ JsText.utf16 b.toList := by
  rw [textLe, ← Bool.not_eq_true, JsText.lt_iff, not_lt]

section

variable {β : Type}

theorem textLe_total : Std.Total (fun a b : String × β => textLe a.1 b.1) where
  total a b := by
    simp only [textLe_iff]
    exact le_total _ _

theorem textLe_trans : IsTrans (String × β) (fun a b => textLe a.1 b.1) where
  trans a b c hab hbc := by
    simp only [textLe_iff] at hab hbc ⊢
    exact hab.trans hbc

theorem pairwise_lt_of_sorted {m : List (String × β)} (hnd : (JsMap.keys m).Nodup) :
    (m.insertionSort (fun a b => textLe a.1 b.1)).Pairwise (fun a b => JsText.lt a.1 b.1 = true) := by
  have htotal : Std.Total (fun a b : String × β => textLe a.1 b.1) := textLe_total
  have htrans : IsTrans (String × β) (fun a b => textLe a.1 b.1) := textLe_trans
  have hsorted := List.pairwise_insertionSort (fun a b : String × β => textLe a.1 b.1) m
  have hperm := (List.perm_insertionSort (fun a b : String × β => textLe a.1 b.1) m).map Prod.fst
  have hne : ((m.insertionSort (fun a b => textLe a.1 b.1)).map Prod.fst).Nodup :=
    hperm.nodup_iff.mpr hnd
  rw [List.Nodup, List.pairwise_map] at hne
  refine (hsorted.and hne).imp (fun {a b} h => ?_)
  rw [JsText.lt_iff]
  exact lt_of_le_of_ne ((textLe_iff _ _).mp h.1) (fun heq => h.2 (JsText.utf16_toList_injective heq))

end

variable {cutoff : ℚ} {samples : List (Option Sample)}

theorem sampleMs_of_pruned {sample : Option Sample} (h : isPruned cutoff sample = true) :
    ∃ ms, sampleMs sample = some ms ∧ ms < cutoff := by
  unfold isPruned at h
  cases hms : sampleMs sample with
  | none => rw [hms] at h; cases h
  | some ms =>
    rw [hms, Option.any_some, decide_eq_true_eq] at h
    exact ⟨ms, rfl, h⟩

theorem hourKey_eq_iff (hcutoff : cutoff < maxTime + 1) {sample other : Option Sample}
    (h : isPruned cutoff sample = true) (hdate : Datable cutoff sample)
    (h' : isPruned cutoff other = true) (hdate' : Datable cutoff other) :
    hourKey sample = hourKey other ↔ hourOf sample = hourOf other := by
  obtain ⟨ms, hms, hlt⟩ := sampleMs_of_pruned h
  obtain ⟨ms', hms', hlt'⟩ := sampleMs_of_pruned h'
  have hrange := (natAbs_bucketStartMs hcutoff hlt).mpr (hdate ms hms hlt)
  have hrange' := (natAbs_bucketStartMs hcutoff hlt').mpr (hdate' ms' hms' hlt')
  simp only [hourKey, hourOf, hms, hms', Option.map_some, Option.getD_some, Option.some.injEq]
  constructor
  · intro htext
    exact isoText_injective hrange hrange' (String.ofList_injective htext)
  · intro hhour
    rw [hhour]

theorem filter_partition (cutoff : ℚ) (samples : List (Option Sample)) :
    (samples.filter (isKept cutoff) ++ samples.filter (isPruned cutoff) ++
      samples.filter isInvalid).Perm samples := by
  have hpruned : (samples.filter (fun s => !isKept cutoff s)).filter (isPruned cutoff) =
      samples.filter (isPruned cutoff) := by
    rw [List.filter_filter]
    refine List.filter_congr (fun s _ => ?_)
    cases hms : sampleMs s with
    | none => simp [isPruned, isKept, hms]
    | some ms => simp [isPruned, isKept, hms]
  have hinvalid : (samples.filter (fun s => !isKept cutoff s)).filter (fun s => !isPruned cutoff s) =
      samples.filter isInvalid := by
    rw [List.filter_filter]
    refine List.filter_congr (fun s _ => ?_)
    cases hms : sampleMs s with
    | none => simp [isPruned, isKept, isInvalid, hms]
    | some ms => simp [isPruned, isKept, isInvalid, hms]
  have hrest := List.filter_append_perm (isPruned cutoff) (samples.filter (fun s => !isKept cutoff s))
  rw [hpruned, hinvalid] at hrest
  rw [List.append_assoc]
  exact (hrest.append_left _).trans (List.filter_append_perm (isKept cutoff) samples)

theorem aggregateSamples_samples (h : ∀ sample ∈ samples, sample ≠ none) :
    (aggregateSamples samples).samples = samples.length := by
  show (samples.filterMap id).length = samples.length
  induction samples with
  | nil => rfl
  | cons sample rest ih =>
    cases sample with
    | none => exact absurd rfl (h none List.mem_cons_self)
    | some s =>
      have hcons : (some s :: rest).filterMap id = s :: rest.filterMap id := rfl
      rw [hcons, List.length_cons, List.length_cons,
        ih (fun s hs => h s (List.mem_cons_of_mem _ hs))]

def planBuckets (byBucket : List (String × List (Option Sample))) : List Bucket :=
  (byBucket.insertionSort (fun a b => textLe a.1 b.1)).map
    (fun entry => ⟨entry.1, aggregateSamples entry.2⟩)

section

variable {pruned : List (Option Sample)} {byBucket : List (String × List (Option Sample))}

theorem planBuckets_hours (hcutoff : cutoff < maxTime + 1)
    (hpruned : ∀ sample ∈ pruned, isPruned cutoff sample = true)
    (hdate : ∀ sample ∈ pruned, Datable cutoff sample)
    (hgrouped : Grouping.Grouped hourKey pruned byBucket) :
    ∃ hours : List Int, hours.Nodup ∧
      (∀ hour, hour ∈ hours ↔ ∃ sample ∈ pruned, hourOf sample = some hour) ∧
      planBuckets byBucket =
        hours.map (fun hour => ⟨hourText hour, aggregateSamples (ofHour pruned hour)⟩) := by
  have hperm := List.perm_insertionSort
    (fun a b : String × List (Option Sample) => textLe a.1 b.1) byBucket
  unfold planBuckets
  generalize byBucket.insertionSort (fun a b => textLe a.1 b.1) = entries at hperm
  have hkeys := hperm.map Prod.fst
  have hkey {sample : Option Sample} {hour : Int} (hhour : hourOf sample = some hour) :
      hourKey sample = hourText hour := by simp [hourKey, hhour]
  have hsame {sample other : Option Sample} (hs : sample ∈ pruned) (ho : other ∈ pruned) :=
    hourKey_eq_iff hcutoff (hpruned sample hs) (hdate sample hs) (hpruned other ho) (hdate other ho)
  -- the hours behind the keys
  obtain ⟨hours, htexts, hhours⟩ : ∃ hours : List Int, hours.map hourText = entries.map Prod.fst ∧
      ∀ hour ∈ hours, ∃ sample ∈ pruned, hourOf sample = some hour := by
    have hrange : entries.map Prod.fst ∈ Set.range (List.map
        (fun hour : {hour // ∃ sample ∈ pruned, hourOf sample = some hour} => hourText hour.1)) := by
      rw [Set.range_list_map]
      intro key hmem
      obtain ⟨sample, hs, rfl⟩ := (hgrouped.keys key).mp (hkeys.mem_iff.mp hmem)
      obtain ⟨ms, hms, -⟩ := sampleMs_of_pruned (hpruned sample hs)
      have hhour : hourOf sample = some (bucketStartMs ms) := by simp [hourOf, hms]
      exact ⟨⟨_, sample, hs, hhour⟩, (hkey hhour).symm⟩
    obtain ⟨found, hfound⟩ := hrange
    refine ⟨found.map Subtype.val, by rw [← hfound, List.map_map]; rfl, ?_⟩
    intro hour hmem
    obtain ⟨h, -, rfl⟩ := List.mem_map.mp hmem
    exact h.2
  refine ⟨hours, ?_, fun hour => ⟨hhours hour, ?_⟩, ?_⟩
  · have hnd : (hours.map hourText).Nodup := by
      rw [htexts]
      exact hkeys.nodup_iff.mpr hgrouped.nodup
    exact hnd.of_map
  · rintro ⟨sample, hs, hhour⟩
    have hmem : hourKey sample ∈ hours.map hourText := by
      rw [htexts]
      exact hkeys.mem_iff.mpr ((hgrouped.keys _).mpr ⟨sample, hs, rfl⟩)
    obtain ⟨other, hother, htext⟩ := List.mem_map.mp hmem
    obtain ⟨first, hf, hfirst⟩ := hhours other hother
    rw [← hkey hfirst, hsame hf hs, hfirst, hhour] at htext
    rwa [← Option.some.inj htext]
  · have hgroups : entries.map (fun entry => (⟨entry.1, aggregateSamples entry.2⟩ : Bucket)) =
        (entries.map Prod.fst).map
          (fun key => ⟨key, aggregateSamples (pruned.filter (fun s => hourKey s = key))⟩) := by
      rw [List.map_map]
      refine List.map_congr_left (fun e he => ?_)
      rw [hgrouped.groups e (hperm.mem_iff.mp he)]
      rfl
    rw [hgroups, ← htexts, List.map_map]
    refine List.map_congr_left (fun hour hmem => ?_)
    obtain ⟨first, hf, hfirst⟩ := hhours hour hmem
    have hfilter : pruned.filter (fun s => hourKey s = hourText hour) = ofHour pruned hour := by
      refine List.filter_congr (fun s hs => ?_)
      rw [decide_eq_decide, ← hkey hfirst, hsame hs hf, hfirst]
    rw [Function.comp, hfilter]

theorem planBuckets_sorted (hgrouped : Grouping.Grouped hourKey pruned byBucket) :
    (planBuckets byBucket).Pairwise (fun a b => JsText.lt a.bucket b.bucket = true) := by
  unfold planBuckets
  rw [List.pairwise_map]
  exact pairwise_lt_of_sorted hgrouped.nodup

theorem planBuckets_counts (hpruned : ∀ sample ∈ pruned, isPruned cutoff sample = true)
    (hgrouped : Grouping.Grouped hourKey pruned byBucket) :
    ((planBuckets byBucket).map (fun b => b.aggregate.samples)).sum = pruned.length := by
  have hperm := List.perm_insertionSort
    (fun a b : String × List (Option Sample) => textLe a.1 b.1) byBucket
  have hlengths : (planBuckets byBucket).map (fun b => b.aggregate.samples) =
      (byBucket.insertionSort (fun a b => textLe a.1 b.1)).map (fun e => e.2.length) := by
    unfold planBuckets
    rw [List.map_map]
    refine List.map_congr_left (fun e he => ?_)
    refine aggregateSamples_samples (fun sample hs => ?_)
    rw [hgrouped.groups e (hperm.mem_iff.mp he)] at hs
    obtain ⟨ms, hms, -⟩ := sampleMs_of_pruned (hpruned sample (List.mem_of_mem_filter hs))
    rintro rfl
    cases hms
  rw [hlengths, (hperm.map _).sum_eq, hgrouped.sum]

end

/-! ## The plan -/

theorem planRetention_eq {options : RetentionOptions} {st : Sorting} {text : String}
    (hst : samples.foldlM (retainSample (cutoffMs options)) ⟨[], [], [], []⟩ = .ok st)
    (htext : toISOString (cutoffMs options) = .ok text) :
    planRetention samples options =
      .ok ⟨text, st.kept, st.pruned, st.invalid, planBuckets st.byBucket⟩ := by
  unfold planRetention
  rw [hst]
  simp only [bind, Except.bind, htext]
  rfl

/-- The plan is made and parts the samples exactly where a `Date` can hold the cutoff and
the hour of every sample before it. -/
theorem planRetention_iff (samples : List (Option Sample)) (options : RetentionOptions) :
    (∃ plan, planRetention samples options = .ok plan ∧
      plan.Partitions samples (cutoffMs options)) ↔
    |cutoffMs options| < maxTime + 1 ∧
      ∀ sample ∈ samples, ∀ ms, sampleMs sample = some ms → ms < cutoffMs options →
        (-maxTime : ℚ) ≤ ms := by
  constructor
  · rintro ⟨plan, hplan, -⟩
    unfold planRetention at hplan
    cases hst : samples.foldlM (retainSample (cutoffMs options)) ⟨[], [], [], []⟩ with
    | error e => rw [hst] at hplan; cases hplan
    | ok st =>
      cases htext : toISOString (cutoffMs options) with
      | error e => simp only [hst, htext, bind, Except.bind] at hplan; cases hplan
      | ok text =>
        have hcutoff := (toISOString_isOk _).mp ⟨text, htext⟩
        exact ⟨hcutoff, datable_of_foldlM (abs_lt.mp hcutoff).2 samples hst⟩
  · rintro ⟨hcutoff, hdate⟩
    have hhigh := (abs_lt.mp hcutoff).2
    obtain ⟨text, htext⟩ := (toISOString_isOk _).mpr hcutoff
    obtain ⟨st, hst, hsorted⟩ := foldlM_retainSample hhigh samples (sorted_nil _) hdate
    rw [List.nil_append] at hsorted
    have hpruned : ∀ sample ∈ st.pruned, isPruned (cutoffMs options) sample = true := by
      rw [hsorted.pruned]
      exact fun sample hs => List.of_mem_filter hs
    have hdate' : ∀ sample ∈ st.pruned, Datable (cutoffMs options) sample := by
      rw [hsorted.pruned]
      exact fun sample hs => hdate sample (List.mem_of_mem_filter hs)
    refine ⟨_, planRetention_eq hst htext, ?_, hsorted.kept, hsorted.pruned, hsorted.invalid,
      planBuckets_hours hhigh hpruned hdate' hsorted.grouped,
      planBuckets_sorted hsorted.grouped, planBuckets_counts hpruned hsorted.grouped⟩
    show (st.kept ++ st.pruned ++ st.invalid).Perm samples
    rw [hsorted.kept, hsorted.pruned, hsorted.invalid]
    exact filter_partition _ samples

/-- A sample of a time that is a number, and no date. -/
def beforeDates : Option Sample := some ⟨some (-100000000000000000), fun _ => none⟩

/-- It is not set apart as invalid: there is no plan. -/
theorem no_plan_before_dates : ¬ ∀ (samples : List (Option Sample)) (options : RetentionOptions),
    ∃ plan, planRetention samples options = .ok plan ∧
      plan.Partitions samples (cutoffMs options) := by
  intro hall
  obtain ⟨plan, hplan, -⟩ := hall [beforeDates] ⟨1785153600000, none⟩
  have herror : (planRetention [beforeDates] ⟨1785153600000, none⟩).isOk = false := by decide +kernel
  rw [hplan] at herror
  cases herror

end Drac.Central.TimeSeries
