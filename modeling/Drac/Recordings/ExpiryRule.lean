import Drac.Lib.Binary64
import Drac.Lib.IsoTime
import Drac.Recordings.Retention

/-
  The filter of the expiry and the rule it translates, on any number of days.

  Correspondence (`retention.service.ts` ↔ Lean):
    resolveRetentionWindow, isExpiredByAge ↔ the same names
    readMotionScore  ↔ the same name, of a row as its client reads it (`asRead`)
    buildExpiryWhere ↔ the same name, and `satisfies` for what the database makes of it

  `Retention` has these of whole days, as cameras and the policy have them. The days of
  the settings are any number from 1 to 365. Their milliseconds (`span`), the age of a row
  and the cut are doubles, so the cut may be rounded back before an instant that the rule
  expires, and the filter's date drops what is left of a millisecond.
-/

namespace Drac.Recordings.ExpiryRule

open IsoTime Binary64

/-- A window of the settings, in days that may be fractions. -/
structure RetentionWindow where
  allDays : ℚ
  motionDays : ℚ
  deriving DecidableEq

def resolveRetentionWindow (baseDays : ℚ) (policy : TwoTierPolicy) : RetentionWindow :=
  if ¬ policy.enabled then ⟨baseDays, baseDays⟩
  else
    let allDays := if 0 < policy.allDays then (policy.allDays : ℚ) else baseDays
    let motionDays := if 0 < policy.motionDays then (policy.motionDays : ℚ) else baseDays
    ⟨allDays, max allDays motionDays⟩

/-- What the expiry reads of a row: `startedAt` is a date, and the score is `none`
where it is null or not there. -/
structure ExpiringRecording where
  cameraId : String
  startedAt : Int
  motionScore : Option ℚ
  isDate : startedAt.natAbs ≤ maxTime

/-- A client without the column reads no score. -/
def ExpiringRecording.asRead (hasMotionScoreColumn : Bool) (r : ExpiringRecording) :
    ExpiringRecording :=
  if hasMotionScoreColumn then r else { r with motionScore := none }

def readMotionScore (r : ExpiringRecording) : Int :=
  match r.motionScore with
  | none => motionScoreUnknown
  | some raw => if raw.den = 1 ∧ 0 ≤ raw.num then raw.num else motionScoreUnknown

/-- So many days in milliseconds. -/
def span (days : ℚ) : ℚ := fl (days * dayMs)

def isExpiredByAge (startedAt motionScore now : Int) (window : RetentionWindow) : Bool :=
  let ageMs := minus now startedAt
  if span window.motionDays < ageMs then true
  else if ageMs ≤ span window.allDays then false
  else motionScore = 0

/-- `new Date(ms)`, where that is a date. -/
def dateOf (ms : ℚ) : Option Int :=
  if (truncate ms).natAbs ≤ maxTime then some (truncate ms) else none

def buildExpiryWhere (hasMotionScoreColumn : Bool) (filter : CameraFilter)
    (window : RetentionWindow) (now : Int) : Option ExpiryWhere :=
  if window.motionDays ≤ window.allDays then
    (dateOf (minus now (span window.allDays))).map (⟨filter, ·, none⟩)
  else if ¬ hasMotionScoreColumn then
    (dateOf (minus now (span window.motionDays))).map (⟨filter, ·, none⟩)
  else
    (dateOf (minus now (span window.allDays))).bind (fun all =>
      (dateOf (minus now (span window.motionDays))).map (fun motion => ⟨filter, all, some motion⟩))

/-- The database accepts the row; a filter with a date that is none is refused, with
the whole query. -/
def satisfies (filter : Option ExpiryWhere) (r : ExpiringRecording) : Bool :=
  filter.any (fun w =>
    w.filter.accepts r.cameraId && r.startedAt < w.startedBefore &&
      match w.orStartedBefore with
      | none => true
      | some before => r.startedAt < before || r.motionScore = some 0)

/-! ## The rule -/

section

variable {startedAt motionScore now : Int} {window : RetentionWindow}

theorem isExpiredByAge_iff : isExpiredByAge startedAt motionScore now window = true ↔
    span window.motionDays < minus now startedAt ∨
      (span window.allDays < minus now startedAt ∧ motionScore = 0) := by
  simp only [isExpiredByAge]
  split
  · next h => exact iff_of_true rfl (.inl h)
  · next hmotion =>
    split
    · next h => simp [hmotion, not_lt.mpr h]
    · next h => simp [hmotion, not_le.mp h]

/-- Motion never makes a recording expire. -/
theorem isExpiredByAge_without_motion
    (h : isExpiredByAge startedAt motionScore now window = true) :
    isExpiredByAge startedAt 0 now window = true := by
  rw [isExpiredByAge_iff] at h ⊢
  exact h.imp id (fun hall => ⟨hall.1, rfl⟩)

end

theorem resolveRetentionWindow_le (baseDays : ℚ) (policy : TwoTierPolicy) :
    (resolveRetentionWindow baseDays policy).allDays ≤
      (resolveRetentionWindow baseDays policy).motionDays := by
  unfold resolveRetentionWindow
  split
  · exact le_refl _
  · exact le_max_left _ _

@[simp] theorem fl_span (days : ℚ) : fl (span days) = span days := fl_fl _

theorem span_le {days days' : ℚ} (h : days ≤ days') : span days ≤ span days' := by
  have hday : (0 : ℚ) ≤ dayMs := by exact_mod_cast (by decide : (0 : Int) ≤ dayMs)
  exact fl_mono (mul_le_mul_of_nonneg_right h hday)

theorem readMotionScore_eq_zero (r : ExpiringRecording) :
    readMotionScore r = 0 ↔ r.motionScore = some 0 := by
  unfold readMotionScore motionScoreUnknown
  cases r.motionScore with
  | none => simp
  | some raw =>
    simp only [Option.some.injEq]
    split
    · exact Rat.num_eq_zero
    · next h =>
      refine iff_of_false (by decide) ?_
      rintro rfl
      exact h (by decide)

/-! ## One cut -/

/-- The cut of a span is a date that parts the instants as the ages do: it is not before the
exact difference, and an age of one millisecond more than the span is more as a double. -/
structure Kept (now : Int) (d : ℚ) : Prop where
  isDate : |minus now d| < maxTime + 1
  notBefore : now - d ≤ truncate (minus now d)
  nextAge : d < plus d 1 ∨ now - d ≤ -maxTime

theorem dateOf_eq_some {c : ℚ} (h : |c| < maxTime + 1) : dateOf c = some (truncate c) :=
  if_pos ((natAbs_truncate_le c).mpr h)

theorem dateOf_eq_none {c : ℚ} (h : ¬ |c| < maxTime + 1) : dateOf c = none :=
  if_neg (fun hle => h ((natAbs_truncate_le c).mp hle))

section

variable {now : Int} {d : ℚ}

/-- The difference a date is made of is well below the whole doubles that are two apart. -/
theorem abs_difference_lt (hdate : |minus now d| < maxTime + 1) :
    |(now : ℚ) - d| < ((2 ^ 53 - 1 : ℤ) : ℚ) := by
  obtain ⟨hlow, hhigh⟩ := abs_lt.mp hdate
  have hmax : (maxTime : ℚ) + 1 < ((2 ^ 53 - 1 : ℤ) : ℚ) := by norm_num [maxTime]
  by_contra hlarge
  rcases le_abs'.mp (not_lt.mp hlarge) with hneg | hpos
  · have hle := fl_le_intCast (n := -(2 ^ 53 - 1)) (by decide) (by push_cast at hneg ⊢; exact hneg)
    push_cast at hle hmax
    unfold minus at hlow
    linarith
  · have hge := intCast_le_fl (by decide) hpos
    unfold minus at hhigh
    linarith

theorem truncate_le_ceil (hdate : |minus now d| < maxTime + 1) :
    truncate (minus now d) ≤ ⌈(now : ℚ) - d⌉ := by
  obtain ⟨hlow, hhigh⟩ := abs_lt.mp (abs_difference_lt hdate)
  have hceil : |⌈(now : ℚ) - d⌉| < 2 ^ 53 := by
    have hup := Int.ceil_le.mpr hhigh.le
    have hdown : -(2 ^ 53 - 1) < ⌈(now : ℚ) - d⌉ := Int.lt_ceil.mpr (by push_cast at hlow ⊢; exact hlow)
    rw [abs_lt]
    constructor <;> omega
  have hle : minus now d ≤ ⌈(now : ℚ) - d⌉ := fl_le_intCast hceil (Int.le_ceil _)
  unfold truncate
  split
  · exact_mod_cast (Int.floor_le _).trans hle
  · exact Int.ceil_le.mpr hle

/-- A span of `2 ^ 53` or more is whole, and so is its cut. -/
theorem truncate_of_large (hd : fl d = d) (hdate : |minus now d| < maxTime + 1)
    (hlarge : 2 ^ 53 ≤ |d|) : (truncate (minus now d) : ℚ) = now - d := by
  obtain ⟨n, rfl⟩ := exists_intCast hd hlarge
  have hlt := abs_difference_lt hdate
  rw [← Int.cast_sub, ← Int.cast_abs, Int.cast_lt] at hlt
  rw [minus, ← Int.cast_sub, fl_intCast (hlt.trans (by decide)), truncate_intCast]

/-- **The cut parts the dates as the ages do** exactly where it is kept. -/
theorem kept_iff (hd : fl d = d) (hdate : |minus now d| < maxTime + 1) :
    (∀ t : Int, t.natAbs ≤ maxTime → (t < truncate (minus now d) ↔ d < minus now t)) ↔
      Kept now d := by
  have hofAge {t : Int} (h : d < minus now t) : (t : ℚ) < now - d := by
    have hexact : d < (now : ℚ) - t := lt_of_not_ge fun hle => (fl_mono hle).not_gt (hd.symm ▸ h)
    linarith
  constructor
  · intro h
    have hrange := (natAbs_truncate_le _).mpr hdate
    refine ⟨hdate, not_lt.mp fun hlt => ?_, ?_⟩
    · -- the date itself is expired, so its age is a double
      have hyoung : ¬ d < minus now (truncate (minus now d)) :=
        fun hage => lt_irrefl _ ((h _ hrange).mpr hage)
      rcases le_or_gt (2 ^ 53) |d| with hlarge | hsmall
      · exact hlt.ne (truncate_of_large hd hdate hlarge)
      · have hage : d < ((now - truncate (minus now d) : Int) : ℚ) := by
          push_cast
          linarith
        have hold := lt_fl_intCast hd (lt_plus_one hsmall) hage
        rw [Int.cast_sub] at hold
        exact hyoung hold
    · -- the last date before a cut with no fraction is one millisecond older than the span
      by_contra hlost
      obtain ⟨hnext, hlater⟩ := not_or.mp hlost
      have hlarge : 2 ^ 53 ≤ |d| := not_lt.mp fun hsmall => hnext (lt_plus_one hsmall)
      have hcut := truncate_of_large hd hdate hlarge
      have hfirst : -maxTime < truncate (minus now d) := by
        have hlt := not_le.mp hlater
        rw [← hcut] at hlt
        exact_mod_cast hlt
      have hold := (h (truncate (minus now d) - 1) (by omega)).mp (by omega)
      refine hnext (hold.trans_eq ?_)
      rw [minus, plus, Int.cast_sub, hcut]
      congr 1
      push_cast
      ring
  · rintro ⟨-, hbefore, hnext⟩ t ht
    constructor
    · intro h
      have hexact : (t : ℚ) < now - d := Int.lt_ceil.mp (h.trans_le (truncate_le_ceil hdate))
      rcases hnext with hnext | hfirst
      · have hage : d < ((now - t : Int) : ℚ) := by
          push_cast
          linarith
        have hold := lt_fl_intCast hd hnext hage
        rwa [Int.cast_sub] at hold
      · have hlow : (t : ℚ) < ((-maxTime : Int) : ℚ) := by
          push_cast
          linarith
        have hlow' := Int.cast_lt.mp hlow
        omega
    · intro h
      exact_mod_cast (hofAge h).trans_le hbefore

end

/-! ## The filter -/

/-- The spans the filter cuts at. -/
def spans (hasMotionScoreColumn : Bool) (window : RetentionWindow) : List ℚ :=
  if window.motionDays ≤ window.allDays then [span window.allDays]
  else if ¬ hasMotionScoreColumn then [span window.motionDays]
  else [span window.allDays, span window.motionDays]

/-- The filter accepts the rows of its cameras that the rule expires. -/
def FilterIsRule (hasMotionScoreColumn : Bool) (filter : CameraFilter) (window : RetentionWindow)
    (now : Int) : Prop :=
  ∀ r : ExpiringRecording,
    satisfies (buildExpiryWhere hasMotionScoreColumn filter window now) r = true ↔
      filter.accepts r.cameraId = true ∧
        isExpiredByAge r.startedAt (readMotionScore (r.asRead hasMotionScoreColumn)) now window = true

/-- Every cut is kept; or the query is refused, for a cut that is no date, and the first date of
all is within every span; or there is no camera. -/
def Faithful (filter : CameraFilter) (now : Int) (spans : List ℚ) : Prop :=
  (∀ d ∈ spans, Kept now d) ∨
    ((∃ d ∈ spans, ¬ |minus now d| < maxTime + 1) ∧ ∀ d ∈ spans, plus now maxTime ≤ d) ∨
    ∀ cameraId, filter.accepts cameraId = false

theorem satisfies_one (filter : CameraFilter) (c : ℚ) (r : ExpiringRecording) :
    satisfies ((dateOf c).map (⟨filter, ·, none⟩)) r = true ↔
      |c| < maxTime + 1 ∧ filter.accepts r.cameraId = true ∧ r.startedAt < truncate c := by
  by_cases h : |c| < maxTime + 1
  · simp [dateOf_eq_some h, satisfies, h]
  · simp [dateOf_eq_none h, satisfies, h]

theorem satisfies_two (filter : CameraFilter) (a m : ℚ) (r : ExpiringRecording) :
    satisfies ((dateOf a).bind (fun all => (dateOf m).map (fun motion =>
      ⟨filter, all, some motion⟩))) r = true ↔
      (|a| < maxTime + 1 ∧ |m| < maxTime + 1) ∧ filter.accepts r.cameraId = true ∧
        r.startedAt < truncate a ∧ (r.startedAt < truncate m ∨ r.motionScore = some 0) := by
  by_cases ha : |a| < maxTime + 1
  · by_cases hm : |m| < maxTime + 1
    · simp [dateOf_eq_some ha, dateOf_eq_some hm, satisfies, ha, hm, and_assoc]
    · simp [dateOf_eq_some ha, dateOf_eq_none hm, satisfies, hm]
  · simp [dateOf_eq_none ha, satisfies, ha]

section

variable {now : Int} {d a m : ℚ}

theorem age_le {t : Int} (ht : t.natAbs ≤ maxTime) : minus now t ≤ plus now maxTime := by
  refine fl_mono ?_
  have hlow : ((-maxTime : Int) : ℚ) ≤ t := Int.cast_le.mpr (by omega)
  push_cast at hlow
  linarith

/-- The oldest row there can be. -/
def firstRow (cameraId : String) (motionScore : Option ℚ) : ExpiringRecording :=
  ⟨cameraId, -maxTime, motionScore, by decide⟩

theorem age_first : minus now ((-maxTime : Int) : ℚ) = plus now maxTime := by
  rw [minus, plus, Int.cast_neg, sub_neg_eq_add]

theorem oneCut_iff (filter : CameraFilter) (hd : fl d = d) :
    (∀ r : ExpiringRecording, satisfies ((dateOf (minus now d)).map (⟨filter, ·, none⟩)) r = true ↔
      filter.accepts r.cameraId = true ∧ d < minus now r.startedAt) ↔ Faithful filter now [d] := by
  simp only [satisfies_one, Faithful, List.mem_singleton, forall_eq, exists_eq_left]
  constructor
  · intro h
    by_cases hcamera : ∀ cameraId, filter.accepts cameraId = false
    · exact .inr (.inr hcamera)
    · simp only [not_forall, Bool.not_eq_false] at hcamera
      obtain ⟨cameraId, hacc⟩ := hcamera
      by_cases hrange : |minus now d| < maxTime + 1
      · refine .inl ((kept_iff hd hrange).mp fun t ht => ?_)
        have hrow := h ⟨cameraId, t, none, ht⟩
        simpa [hrange, hacc] using hrow
      · -- the query is refused, so the rule may expire nothing
        refine .inr (.inl ⟨hrange, not_lt.mp fun hold => hrange ?_⟩)
        exact ((h (firstRow cameraId none)).mpr ⟨hacc, age_first.symm ▸ hold⟩).1
  · rintro (hkept | ⟨hrange, hyoung⟩ | hnone) r
    · have hside := (kept_iff hd hkept.isDate).mpr hkept r.startedAt r.isDate
      simp [hkept.isDate, hside]
    · exact iff_of_false (fun h => hrange h.1)
        (fun h => (h.2.trans_le (age_le r.isDate)).not_ge hyoung)
    · simp [hnone]

theorem twoCuts_iff (filter : CameraFilter) (ha : fl a = a) (hm : fl m = m) (hle : a ≤ m) :
    (∀ r : ExpiringRecording, satisfies ((dateOf (minus now a)).bind (fun all =>
        (dateOf (minus now m)).map (fun motion => ⟨filter, all, some motion⟩))) r = true ↔
      filter.accepts r.cameraId = true ∧
        (m < minus now r.startedAt ∨ (a < minus now r.startedAt ∧ r.motionScore = some 0))) ↔
      Faithful filter now [a, m] := by
  simp only [satisfies_two, Faithful, List.mem_cons, List.not_mem_nil, or_false, forall_eq_or_imp,
    forall_eq, exists_eq_or_imp, exists_eq_left, ← not_and_or]
  constructor
  · intro h
    by_cases hcamera : ∀ cameraId, filter.accepts cameraId = false
    · exact .inr (.inr hcamera)
    · simp only [not_forall, Bool.not_eq_false] at hcamera
      obtain ⟨cameraId, hacc⟩ := hcamera
      by_cases hrange : |minus now a| < maxTime + 1 ∧ |minus now m| < maxTime + 1
      · have hcuts : truncate (minus now m) ≤ truncate (minus now a) :=
          truncate_mono (fl_mono (sub_le_sub_left hle _))
        refine .inl ⟨(kept_iff ha hrange.1).mp fun t ht => ?_, (kept_iff hm hrange.2).mp fun t ht => ?_⟩
        · have hrow := h ⟨cameraId, t, some 0, ht⟩
          simp only [hrange, hacc, true_and, or_true, and_true] at hrow
          exact hrow.trans ⟨fun hor => hor.elim hle.trans_lt id, .inr⟩
        · have hrow := h ⟨cameraId, t, none, ht⟩
          simp only [hrange, hacc, true_and, reduceCtorEq, or_false, and_false] at hrow
          exact ⟨fun hlt => hrow.mp ⟨hlt.trans_le hcuts, hlt⟩, fun hold => (hrow.mpr hold).2⟩
      · have hyoung : plus now maxTime ≤ a := not_lt.mp fun hold => hrange
          ((h (firstRow cameraId (some 0))).mpr ⟨hacc, .inr ⟨age_first.symm ▸ hold, rfl⟩⟩).1
        exact .inr (.inl ⟨hrange, hyoung, hyoung.trans hle⟩)
  · rintro (⟨hkept, hkept'⟩ | ⟨hrange, hyoung, hyoung'⟩ | hnone) r
    · have hall := (kept_iff ha hkept.isDate).mpr hkept r.startedAt r.isDate
      have hmotion := (kept_iff hm hkept'.isDate).mpr hkept' r.startedAt r.isDate
      rw [hall, hmotion]
      constructor
      · rintro ⟨-, hacc, hlate, hor⟩
        exact ⟨hacc, hor.imp id (fun hzero => ⟨hlate, hzero⟩)⟩
      · rintro ⟨hacc, hlong | ⟨hlate, hzero⟩⟩
        · exact ⟨⟨hkept.isDate, hkept'.isDate⟩, hacc, hle.trans_lt hlong, .inl hlong⟩
        · exact ⟨⟨hkept.isDate, hkept'.isDate⟩, hacc, hlate, .inr hzero⟩
    · have hage : minus now r.startedAt ≤ plus now maxTime := age_le r.isDate
      refine iff_of_false (fun h => hrange h.1) ?_
      rintro ⟨-, h | ⟨h, -⟩⟩
      · exact (h.trans_le hage).not_ge hyoung'
      · exact (h.trans_le hage).not_ge hyoung
    · simp [hnone]

end

theorem filterIsRule_iff (hasMotionScoreColumn : Bool) (filter : CameraFilter)
    {window : RetentionWindow} (hle : window.allDays ≤ window.motionDays) (now : Int) :
    FilterIsRule hasMotionScoreColumn filter window now ↔
      Faithful filter now (spans hasMotionScoreColumn window) := by
  unfold FilterIsRule buildExpiryWhere spans
  by_cases hone : window.motionDays ≤ window.allDays
  · -- one cut: between the two there is nothing
    simp only [isExpiredByAge_iff, le_antisymm hone hle, le_refl, if_true]
    rw [← oneCut_iff filter (fl_span _)]
    refine forall_congr' (fun r => iff_congr Iff.rfl (and_congr_right fun _ => ?_))
    exact ⟨fun h => h.elim id And.left, .inl⟩
  · simp only [if_neg hone]
    cases hasMotionScoreColumn with
    | false =>
      -- without the column no score is known to be zero
      simp only [Bool.false_eq_true, not_false_eq_true, if_true, isExpiredByAge_iff]
      rw [← oneCut_iff filter (fl_span _)]
      refine forall_congr' (fun r => iff_congr Iff.rfl (and_congr_right fun _ => ?_))
      rw [readMotionScore_eq_zero]
      exact ⟨fun h => h.resolve_right (fun hzero => by cases hzero.2), .inl⟩
    | true =>
      simp only [not_true_eq_false, if_false, isExpiredByAge_iff]
      rw [← twoCuts_iff filter (fl_span _) (fl_span _) (span_le hle)]
      refine forall_congr' (fun r => iff_congr Iff.rfl (and_congr_right fun _ => ?_))
      rw [readMotionScore_eq_zero]
      rfl

/-- **The filter is the rule** for every row, and motion never makes a row expire, exactly
where each cut becomes a date that is not before it; or one is no date and no row can be old
enough; or the group has no camera. -/
theorem expiryFilter_iff (hasMotionScoreColumn : Bool) (filter : CameraFilter) (baseDays : ℚ)
    (policy : TwoTierPolicy) (now : Int) :
    (FilterIsRule hasMotionScoreColumn filter (resolveRetentionWindow baseDays policy) now ∧
      ∀ startedAt motionScore,
        isExpiredByAge startedAt motionScore now (resolveRetentionWindow baseDays policy) = true →
        isExpiredByAge startedAt 0 now (resolveRetentionWindow baseDays policy) = true) ↔
    Faithful filter now (spans hasMotionScoreColumn (resolveRetentionWindow baseDays policy)) := by
  rw [← filterIsRule_iff hasMotionScoreColumn filter (resolveRetentionWindow_le baseDays policy) now]
  exact and_iff_left (fun _ _ => isExpiredByAge_without_motion)

/-- A recording 2.3 days old at `1700000000000`. -/
def atTheCut : ExpiringRecording := ⟨"cam", 1700000000000 - 198720000, some 0, by decide⟩

/-- 2.3 days are a little less than that as doubles, so the rule expires it; the filter's date is
rounded to its own instant. -/
theorem filter_misses_fraction : ¬ ∀ (hasMotionScoreColumn : Bool) (filter : CameraFilter)
    (baseDays : ℚ) (policy : TwoTierPolicy) (now : Int),
    FilterIsRule hasMotionScoreColumn filter (resolveRetentionWindow baseDays policy) now ∧
      ∀ startedAt motionScore,
        isExpiredByAge startedAt motionScore now (resolveRetentionWindow baseDays policy) = true →
        isExpiredByAge startedAt 0 now (resolveRetentionWindow baseDays policy) = true := by
  intro hall
  have hrule := (hall true .any (fl (23 / 10)) ⟨false, true, 0, 0⟩ 1700000000000).1 atTheCut
  revert hrule
  decide +kernel

end Drac.Recordings.ExpiryRule
