import Drac.Lib.Binary64
import Drac.Lib.Loops

/-
  The guard that reports an impossible capture rate.

  Correspondence (`capture_rate_guard.py` ↔ Lean):
    `_finite`                         ↔ `none` for what is no finite number
    `__init__`                        ↔ `GuardParams.guard`
    `threshold_fps`, `set_expected_fps`, `observed_fps`, `observe` ↔ the same names
  Times and rates are exact. `measure` is the part of `observe` before its decision.

  What is proved: the mark the guard keeps is the moment of an observation from which on
  every one measured an excess (`Sound`), so an alarm stands for an excess that lasted
  (`observe_alarms_sound`). A frame of the same instant as the mark may come before it, and
  be normal (`normal_at_border`).
-/

namespace Drac.Vision.CaptureRate

/-! ## The guard -/

structure CaptureRateGuard where
  expectedFps : ℚ
  marginFps : ℚ
  sustainSeconds : ℚ
  windowSeconds : ℚ
  cooldownSeconds : ℚ
  minSamples : Nat
  /-- The `maxlen` of the samples. -/
  maxSamples : Nat
  samples : List ℚ := []
  abnormalSince : Option ℚ := none
  lastReportAt : Option ℚ := none
  reports : Nat := 0
  lastObservedFps : ℚ := 0

def CaptureRateGuard.thresholdFps (g : CaptureRateGuard) : ℚ := g.expectedFps + g.marginFps

/-- What is no plausible rate is ignored. -/
def CaptureRateGuard.setExpectedFps (g : CaptureRateGuard) (fps : Option ℚ) : CaptureRateGuard :=
  { g with expectedFps := (fps.filter (fun n => 0 < n && n ≤ 1000)).getD g.expectedFps }

structure GuardParams where
  expectedFps : Option ℚ := some 0
  marginFps : Option ℚ := some 10
  sustainSeconds : Option ℚ := some 30
  windowSeconds : Option ℚ := some 5
  cooldownSeconds : Option ℚ := some 300
  minSamples : Int := 12
  maxSamples : Int := 1024
  fallbackExpectedFps : Option ℚ := some 30

/-- `max(1.0, _finite(value) or default)`. -/
def atLeastOne (value : Option ℚ) (default : ℚ) : ℚ := max 1 ((value.filter (· ≠ 0)).getD default)

/-- The constructor, with its bounds. -/
def GuardParams.guard (p : GuardParams) : CaptureRateGuard :=
  let minSamples := max 2 (if p.minSamples = 0 then 12 else p.minSamples.toNat)
  let guard : CaptureRateGuard := {
    expectedFps := atLeastOne p.fallbackExpectedFps 30
    marginFps := atLeastOne p.marginFps 10
    sustainSeconds := atLeastOne p.sustainSeconds 30
    windowSeconds := atLeastOne p.windowSeconds 5
    cooldownSeconds := atLeastOne p.cooldownSeconds 300
    minSamples := minSamples
    maxSamples := max minSamples (if p.maxSamples = 0 then 1024 else p.maxSamples.toNat) }
  guard.setExpectedFps p.expectedFps

namespace CaptureRateGuard

/-- The rate over the samples kept; `0` where they are too few. -/
def observedFps (g : CaptureRateGuard) : ℚ :=
  if g.samples.length < g.minSamples then 0
  else
    let span := g.samples.getLastD 0 - g.samples.headD 0
    if span ≤ 0 then 0 else (g.samples.length - 1) / span

/-- One sample more: the oldest leaves where there are too many, and all older than the window. -/
def measure (g : CaptureRateGuard) (moment : ℚ) : CaptureRateGuard :=
  let samples := g.samples ++ [moment]
  let kept := (samples.drop (samples.length - g.maxSamples)).dropWhile (· < moment - g.windowSeconds)
  let measured := { g with samples := kept }
  { measured with lastObservedFps := measured.observedFps }

end CaptureRateGuard

structure RateEvent where
  observedFps : ℚ
  expectedFps : ℚ
  thresholdFps : ℚ
  sustainedSeconds : ℚ
  occurrences : Nat
  deriving DecidableEq

/-- `round(x, digits)`. -/
def round (x : ℚ) (digits : Nat) : ℚ := Binary64.roundHalfEven (x * 10 ^ digits) / 10 ^ digits

/-- One frame consumed; a moment that is no finite number counts for nothing. -/
def CaptureRateGuard.observe (g : CaptureRateGuard) (now : Option ℚ) :
    CaptureRateGuard × Option RateEvent :=
  match now with
  | none => (g, none)
  | some moment =>
    let measured := g.measure moment
    let rate := measured.lastObservedFps
    let threshold := measured.thresholdFps
    if rate ≤ 0 ∨ rate < threshold then ({ measured with abnormalSince := none }, none)
    else
      match g.abnormalSince with
      | none => ({ measured with abnormalSince := some moment }, none)
      | some since =>
        let sustained := moment - since
        if sustained < g.sustainSeconds then (measured, none)
        else if g.lastReportAt.any (fun last => moment - last < g.cooldownSeconds) then
          (measured, none)
        else
          ({ measured with lastReportAt := some moment, reports := g.reports + 1 }, some {
            observedFps := round rate 2
            expectedFps := round g.expectedFps 2
            thresholdFps := round threshold 2
            sustainedSeconds := round sustained 1
            occurrences := g.reports + 1 })

/-! ## Runs -/

/-- The two calls of the guard. -/
inductive Call where
  | setExpectedFps (fps : Option ℚ)
  | observe (now : Option ℚ)

/-- What one observation measured, the threshold then in force, and what it returned. -/
structure Observation where
  moment : ℚ
  rate : ℚ
  threshold : ℚ
  event : Option RateEvent

def observation (moment : ℚ) (r : CaptureRateGuard × Option RateEvent) : Observation where
  moment := moment
  rate := r.1.lastObservedFps
  threshold := r.1.thresholdFps
  event := r.2

/-- The guard, and what it was given. -/
structure History where
  guard : CaptureRateGuard
  observations : List Observation := []

def History.call (h : History) : Call → History
  | .setExpectedFps fps => { h with guard := h.guard.setExpectedFps fps }
  | .observe now => {
      guard := (h.guard.observe now).1
      observations := h.observations ++
        (now.map (fun moment => observation moment (h.guard.observe now))).toList }

def run (g : CaptureRateGuard) (calls : List Call) : History := calls.foldl History.call { guard := g }

/-! ## The statement -/

/-- At or over the threshold. -/
def Observation.Abnormal (o : Observation) : Prop := 0 < o.rate ∧ o.threshold ≤ o.rate

instance decidableAbnormal (o : Observation) : Decidable o.Abnormal :=
  inferInstanceAs (Decidable (_ ∧ _))

/-- An excess that began by some time, and has not ceased since. -/
def AbnormalFrom (time : ℚ) (observations : List Observation) : Prop :=
  ∃ before first rest, observations = before ++ first :: rest ∧ first.moment ≤ time ∧
    ∀ o ∈ first :: rest, o.Abnormal

def alarms (observations : List Observation) : List ℚ :=
  (observations.filter (·.event.isSome)).map (·.moment)

/-- **Alarms that are sound.** -/
structure AlarmsSound (sustain cooldown : ℚ) (observations : List Observation) : Prop where
  sustained : ∀ before o after, observations = before ++ o :: after → o.event.isSome = true →
    o.Abnormal ∧ AbnormalFrom (o.moment - sustain) before ∧
      ∀ x ∈ before, o.moment - sustain < x.moment → x.Abnormal
  apart : (alarms observations).Pairwise (fun a b => cooldown ≤ b - a)

/-! ## One observation -/

/-- A call is silent, or raises an alarm and remembers when. -/
inductive Outcome (g : CaptureRateGuard) (moment : ℚ) (r : CaptureRateGuard × Option RateEvent) :
    Prop where
  | silent (event : r.2 = none) (last : r.1.lastReportAt = g.lastReportAt)
  | alarm (event : r.2.isSome = true) (abnormal : (observation moment r).Abnormal) (began : ℚ)
      (marked : g.abnormalSince = some began) (long : g.sustainSeconds ≤ moment - began)
      (rested : ∀ last, g.lastReportAt = some last → g.cooldownSeconds ≤ moment - last)
      (last : r.1.lastReportAt = some moment)

/-- Who marks, or keeps a mark, measures an excess. -/
def Marks (g : CaptureRateGuard) (moment : ℚ) (r : CaptureRateGuard × Option RateEvent) : Prop :=
  ∀ t, r.1.abnormalSince = some t →
    (observation moment r).Abnormal ∧ (t = moment ∨ g.abnormalSince = some t)

/-- Neither the sustain nor the cooldown has changed. -/
def SameConfig (g g' : CaptureRateGuard) : Prop :=
  g'.sustainSeconds = g.sustainSeconds ∧ g'.cooldownSeconds = g.cooldownSeconds

theorem observe_spec (g : CaptureRateGuard) (moment : ℚ) :
    SameConfig g (g.observe (some moment)).1 ∧ Marks g moment (g.observe (some moment)) ∧
      Outcome g moment (g.observe (some moment)) := by
  unfold CaptureRateGuard.observe
  simp only
  split
  · exact ⟨⟨rfl, rfl⟩, by rintro t ⟨⟩, .silent rfl rfl⟩
  · next hrate =>
    rw [not_or, not_le, not_lt] at hrate
    cases hmark : g.abnormalSince with
    | none =>
      refine ⟨⟨rfl, rfl⟩, ?_, .silent rfl rfl⟩
      rintro t ⟨⟩
      exact ⟨hrate, .inl rfl⟩
    | some began =>
      have hmarks : ∀ t, g.abnormalSince = some t → t = moment ∨ g.abnormalSince = some t :=
        fun t ht => .inr ht
      simp only
      split
      · exact ⟨⟨rfl, rfl⟩, fun t ht => ⟨hrate, hmarks t ht⟩, .silent rfl rfl⟩
      · next hlong =>
        split
        · exact ⟨⟨rfl, rfl⟩, fun t ht => ⟨hrate, hmarks t ht⟩, .silent rfl rfl⟩
        · next hrest =>
          refine ⟨⟨rfl, rfl⟩, fun t ht => ⟨hrate, hmarks t ht⟩,
            .alarm rfl hrate began hmark (not_lt.mp hlong) ?_ rfl⟩
          intro last hlast
          simpa [hlast] using hrest

/-! ## The invariant -/

/-- What the guard remembers of the observations so far. -/
structure Sound (sustain cooldown : ℚ) (h : History) : Prop where
  config : h.guard.sustainSeconds = sustain ∧ h.guard.cooldownSeconds = cooldown
  mark : ∀ t, h.guard.abnormalSince = some t → AbnormalFrom t h.observations
  /-- The last report is the last alarm. -/
  last : ∀ a ∈ alarms h.observations, ∃ r, h.guard.lastReportAt = some r ∧ a ≤ r
  sustained : ∀ before o after, h.observations = before ++ o :: after → o.event.isSome = true →
    o.Abnormal ∧ AbnormalFrom (o.moment - sustain) before
  apart : (alarms h.observations).Pairwise (fun a b => cooldown ≤ b - a)

section Invariant

variable {sustain cooldown t : ℚ} {H : History} {observations : List Observation} {o : Observation}

theorem AbnormalFrom.concat (h : AbnormalFrom t observations) (ho : o.Abnormal) :
    AbnormalFrom t (observations ++ [o]) := by
  obtain ⟨before, first, rest, rfl, hfirst, hall⟩ := h
  refine ⟨before, first, rest ++ [o], by simp, hfirst, ?_⟩
  rw [← List.cons_append]
  intro x hx
  rcases List.mem_append.mp hx with hx | hx
  · exact hall x hx
  · rwa [List.mem_singleton.mp hx]

theorem AbnormalFrom.mono {t' : ℚ} (h : AbnormalFrom t observations) (ht : t ≤ t') :
    AbnormalFrom t' observations := by
  obtain ⟨before, first, rest, heq, hfirst, hall⟩ := h
  exact ⟨before, first, rest, heq, hfirst.trans ht, hall⟩

theorem alarms_concat_silent (hevent : o.event = none) :
    alarms (observations ++ [o]) = alarms observations := by
  simp [alarms, hevent]

theorem alarms_concat (hevent : o.event.isSome = true) :
    alarms (observations ++ [o]) = alarms observations ++ [o.moment] := by
  simp [alarms, hevent]

theorem Sound.observe (h : Sound sustain cooldown H) (hc : 0 ≤ cooldown) (moment : ℚ) :
    Sound sustain cooldown (H.call (.observe (some moment))) := by
  obtain ⟨hconfig, hmarks, houtcome⟩ := observe_spec H.guard moment
  show Sound sustain cooldown ⟨_, H.observations ++ [observation moment _]⟩
  generalize H.guard.observe (some moment) = r at hconfig hmarks houtcome ⊢
  have hmark : ∀ t, r.1.abnormalSince = some t →
      AbnormalFrom t (H.observations ++ [observation moment r]) := by
    intro t ht
    obtain ⟨habnormal, rfl | hmarked⟩ := hmarks t ht
    · exact ⟨H.observations, _, [], rfl, le_refl _, by simpa using habnormal⟩
    · exact (h.mark t hmarked).concat habnormal
  have hsame := And.intro (hconfig.1.trans h.config.1) (hconfig.2.trans h.config.2)
  have hlast := h.last
  have hapart := h.apart
  cases houtcome with
  | silent event last =>
    have halarms : alarms (H.observations ++ [observation moment r]) = alarms H.observations :=
      alarms_concat_silent event
    rw [← halarms] at hlast hapart
    refine ⟨hsame, hmark, ?_, Loops.concat_forall h.sustained ?_, hapart⟩
    · show ∀ a ∈ _, ∃ r', r.1.lastReportAt = some r' ∧ a ≤ r'
      rw [last]
      exact hlast
    · intro hevent
      rw [observation, event] at hevent
      cases hevent
  | alarm event abnormal began marked long rested last =>
    rw [h.config.1] at long
    rw [h.config.2] at rested
    have halarms : alarms (H.observations ++ [observation moment r]) =
        alarms H.observations ++ [moment] := alarms_concat event
    -- what was reported before, was reported a cooldown ago
    have hago : ∀ a ∈ alarms H.observations, cooldown ≤ moment - a := by
      intro a ha
      obtain ⟨r', hr', hle⟩ := hlast a ha
      exact (rested r' hr').trans (sub_le_sub_left hle moment)
    refine ⟨hsame, hmark, ?_, ?_, ?_⟩
    · intro a ha
      rw [halarms] at ha
      refine ⟨moment, last, ?_⟩
      rcases List.mem_append.mp ha with ha | ha
      · exact sub_nonneg.mp (hc.trans (hago a ha))
      · exact le_of_eq (List.mem_singleton.mp ha)
    · refine Loops.concat_forall h.sustained (fun _ => ⟨abnormal, (h.mark began marked).mono ?_⟩)
      show began ≤ moment - sustain
      linarith
    · rw [halarms]
      refine List.pairwise_append.mpr ⟨hapart, List.pairwise_singleton _ _, ?_⟩
      intro a ha b hb
      rw [List.mem_singleton.mp hb]
      exact hago a ha

theorem Sound.call (h : Sound sustain cooldown H) (hc : 0 ≤ cooldown) (c : Call) :
    Sound sustain cooldown (H.call c) := by
  cases c with
  | setExpectedFps fps => exact ⟨h.config, h.mark, h.last, h.sustained, h.apart⟩
  | observe now =>
    cases now with
    | none =>
      have hcall : H.call (.observe none) = H := by
        simp [History.call, CaptureRateGuard.observe]
      rwa [hcall]
    | some moment => exact h.observe hc moment

end Invariant

/-! ## The theorem -/

theorem run_sound (p : GuardParams) (calls : List Call) :
    Sound p.guard.sustainSeconds p.guard.cooldownSeconds (run p.guard calls) := by
  have hc : 0 ≤ p.guard.cooldownSeconds := zero_le_one.trans (le_max_left _ _)
  refine Loops.foldl_invariant calls _ ?_ (fun H c _ h => h.call hc c)
  exact ⟨⟨rfl, rfl⟩, by rintro t ⟨⟩, by simp [alarms], fun before o after heq => by simp at heq,
    by simp [alarms]⟩

/-- **An alarm stands for an excess that lasted**: it began by the time the alarm looks back
to, and no observation made since was normal. -/
theorem observe_alarms_sound (p : GuardParams) (calls : List Call)
    (hordered : (run p.guard calls).observations.Pairwise (fun x y => x.moment ≤ y.moment)) :
    AlarmsSound p.guard.sustainSeconds p.guard.cooldownSeconds (run p.guard calls).observations := by
  have hsound := run_sound p calls
  refine ⟨?_, hsound.apart⟩
  intro before o after heq hevent
  obtain ⟨hnow, hfrom⟩ := hsound.sustained before o after heq hevent
  refine ⟨hnow, hfrom, ?_⟩
  obtain ⟨normal, first, rest, rfl, hfirst, hall⟩ := hfrom
  intro x hx hlate
  rcases List.mem_append.mp hx with hx | hx
  · -- what was observed before the excess began is no later
    rw [heq, List.append_assoc] at hordered
    have hle := (List.pairwise_append.mp hordered).2.2 x hx first (by simp)
    exact absurd (hle.trans hfirst) (not_le.mpr hlate)
  · exact hall x hx

/-- A window and a second of excess, over frames expected once a second. -/
def quickParams : GuardParams where
  expectedFps := some 1
  marginFps := some 1
  sustainSeconds := some 1
  windowSeconds := some 1
  minSamples := 2

/-- Two frames of the instant `1`. -/
def twoAtOnce : List Call := [0, 1, 1, 3 / 2, 2].map (fun moment => .observe (some moment))

theorem observe_alarms_sound_twoAtOnce :
    AlarmsSound quickParams.guard.sustainSeconds quickParams.guard.cooldownSeconds
      (run quickParams.guard twoAtOnce).observations :=
  observe_alarms_sound quickParams twoAtOnce (by decide +kernel)

/-- The first of them was normal, and is as far back as the alarm looks. -/
theorem normal_at_border :
    (run quickParams.guard twoAtOnce).observations.Pairwise (fun x y => x.moment ≤ y.moment) ∧
      ∃ o ∈ (run quickParams.guard twoAtOnce).observations, o.event.isSome = true ∧
        ∃ x ∈ (run quickParams.guard twoAtOnce).observations,
          o.moment - quickParams.guard.sustainSeconds ≤ x.moment ∧ x.moment ≤ o.moment ∧
            ¬ x.Abnormal := by
  decide +kernel

end Drac.Vision.CaptureRate
