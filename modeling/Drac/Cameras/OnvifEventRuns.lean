import Drac.Cameras.OnvifEvents

/-
  An armed camera and its reserve.

  The watchdog counts the syncs that find no live listener, and a camera that has one is
  silent to it only if it has never sent an event since the service started and its present
  listener is older than the limit. A listener is subscribed anew after some minutes and the
  limit is hours, so the silence of a camera that once sent an event, or whose listener
  is replaced in time, is never counted.
-/

namespace Drac.Cameras.OnvifEvents

open Runs

variable {config : Config} {s t : System} {a : Label}

/-! ## The property and the condition -/

/-- No event for longer than the limit since the camera was last heard or first watched. -/
def System.silent (config : Config) (s : System) : Bool :=
  (s.lastEventAt.or s.history.firstWatched).any (fun at_ =>
    decide (s.clock - at_ > config.silenceFallbackMs))

/-- No listener for the configured number of syncs, or silent. -/
def System.deaf (config : Config) (s : System) : Bool :=
  decide (config.deadSyncsForFallback ≤ s.history.deadRun) || s.silent config

/-- The row a call of a sync works with. -/
def Phase.syncRow : Phase → Option Row
  | .watching row => some row
  | .activating row | .registering row => row
  | _ => none

/-- The row of the camera where the step is the last of a sync's turn with it. -/
def completed (s : System) (a : Label) (t : System) : Option Row :=
  match a with
  | .advance i _ =>
    if t.calls[i]? = some .ended then (s.calls[i]?).bind Phase.syncRow else none
  | _ => none

/-- After each sync a deaf camera that it found armed has its reserve, or the last attempt to
give it one has failed. -/
def Guarded (config : Config) (G : System → Label → Prop) : Prop :=
  ∀ s a t row, Reach (onvifMachine config) G s → G s a → step config s a = some t →
    completed s a t = some row → row.armed = true → t.deaf config = true →
    t.fallbackActive = true ∨ t.history.lastAttemptFailed = true

def Phase.activates : Phase → Bool
  | .activating _ | .registering _ => true
  | _ => false

def System.activationUnderWay (s : System) : Bool := s.calls.any Phase.activates

/-- A silence the watchdog does something about: the camera is connected, was never heard and
its listener is older than the limit, or it is down for the last sync it may be. -/
def System.countsSilence (config : Config) (s : System) : Bool :=
  if s.connected then s.lastEventAt = none && decide (s.sinceMs > config.silenceFallbackMs)
  else decide (config.deadSyncsForFallback ≤ s.deadSyncs + 1)

/-- The watchdog counts the silence there is; no event and no second reserve while one is
activated. -/
def heeded (config : Config) (s : System) : Label → Bool
  | .advance i _ =>
    match s.calls[i]? with
    | some (.watching row) =>
      !(row.armed && s.silent config && !s.fallbackActive) || s.countsSilence config
    | some (.flipping _ .system) => !s.activationUnderWay
    | _ => true
  | .event _ => !s.activationUnderWay
  | _ => true

def Heeded (config : Config) (s : System) (a : Label) : Prop := heeded config s a = true

/-! ## The invariant -/

/-- The watchdog's count is no less than the syncs in a row, and one activation at a time is
under way, with the reserve already counted as active. -/
structure Inv (s : System) : Prop where
  counted : s.history.deadRun ≤ s.deadSyncs
  active : ∀ (i : Nat) (phase : Phase), s.calls[i]? = some phase → phase.activates = true →
    s.fallbackActive = true
  single : ∀ (i j : Nat) (p q : Phase), s.calls[i]? = some p → p.activates = true →
    s.calls[j]? = some q → q.activates = true → i = j

theorem no_activation (h : s.activationUnderWay = false) {i : Nat} {phase : Phase}
    (hget : s.calls[i]? = some phase) : phase.activates = false := by
  by_contra hne
  have hany : s.calls.any Phase.activates = true :=
    List.any_eq_true.mpr ⟨phase, List.mem_of_getElem? hget, by simpa using hne⟩
  rw [System.activationUnderWay, hany] at h
  cases h

theorem Inv.inactive (h : Inv s) (hflag : s.fallbackActive = false) {i : Nat} {phase : Phase}
    (hget : s.calls[i]? = some phase) : phase.activates = false := by
  by_contra hne
  rw [h.active i phase hget (by simpa using hne)] at hflag
  cases hflag

theorem Inv.keep (h : Inv s) (hcount : t.history.deadRun ≤ t.deadSyncs)
    (hflag : t.fallbackActive = s.fallbackActive)
    (hcalls : ∀ (j : Nat) (q : Phase), t.calls[j]? = some q → q.activates = true →
      ∃ p, s.calls[j]? = some p ∧ p.activates = true) : Inv t := by
  refine ⟨hcount, ?_, ?_⟩
  · intro i phase hget hactivates
    obtain ⟨p, hp, hpact⟩ := hcalls i phase hget hactivates
    rw [hflag]
    exact h.active i p hp hpact
  · intro i j p q hp hpact hq hqact
    obtain ⟨p', hp', hpact'⟩ := hcalls i p hp hpact
    obtain ⟨q', hq', hqact'⟩ := hcalls j q hq hqact
    exact h.single i j p' q' hp' hpact' hq' hqact'

theorem Inv.same_calls (h : Inv s) (hcount : t.history.deadRun ≤ t.deadSyncs)
    (hflag : t.fallbackActive = s.fallbackActive) (hcalls : t.calls = s.calls) : Inv t := by
  apply h.keep hcount hflag
  intro j q hget hact
  rw [hcalls] at hget
  exact ⟨q, hget, hact⟩

theorem Inv.goto_other (h : Inv s) (hcount : t.history.deadRun ≤ t.deadSyncs)
    (hflag : t.fallbackActive = s.fallbackActive) {i : Nat} {p : Phase}
    (hcalls : t.calls = s.calls.set i p) (hphase : p.activates = false) : Inv t := by
  apply h.keep hcount hflag
  intro j q hget hact
  rw [hcalls] at hget
  rcases getElem?_set_some hget with ⟨-, rfl⟩ | ⟨-, hold⟩
  · rw [hphase] at hact
    cases hact
  · exact ⟨q, hold, hact⟩

theorem Inv.drop (hcount : t.history.deadRun ≤ t.deadSyncs)
    (hnone : ∀ (j : Nat) (q : Phase), t.calls[j]? = some q → q.activates = false) : Inv t := by
  refine ⟨hcount, ?_, ?_⟩
  · intro i phase hget hact
    rw [hnone i phase hget] at hact
    cases hact
  · intro i j p q hp hpact _ _
    rw [hnone i p hp] at hpact
    cases hpact

theorem Inv.activate (h : Inv s) (i : Nat) (row : Option Row) : Inv (activate s i row) := by
  unfold OnvifEvents.activate
  split
  · exact h.goto_other h.counted rfl rfl rfl
  · next hflag =>
    have hinactive : s.fallbackActive = false := by simpa using hflag
    -- the one under way now is the one just started
    have honly : ∀ (j : Nat) (q : Phase), (s.calls.set i (.activating row))[j]? = some q →
        q.activates = true → j = i := by
      intro j q hget hact
      rcases getElem?_set_some hget with ⟨hj, -⟩ | ⟨-, hold⟩
      · exact hj
      · rw [h.inactive hinactive hold] at hact
        cases hact
    refine ⟨h.counted, fun _ _ _ _ => rfl, ?_⟩
    intro j k p q hp hpact hq hqact
    rw [honly j p hp hpact, honly k q hq hqact]

/-! ## Steps -/

theorem dropListener_keeps (row : Option Row) :
    (dropListener config s row).calls = s.calls ∧
      (dropListener config s row).fallbackActive = s.fallbackActive ∧
      (dropListener config s row).history = s.history ∧
      (dropListener config s row).deadSyncs = s.deadSyncs := by
  unfold dropListener
  split
  · exact ⟨rfl, rfl, rfl, rfl⟩
  · split <;> exact ⟨rfl, rfl, rfl, rfl⟩

theorem subscribe_keeps (row : Option Row) :
    (subscribe config s row).calls = s.calls ∧
      (subscribe config s row).fallbackActive = s.fallbackActive ∧
      (subscribe config s row).history = s.history ∧
      (subscribe config s row).deadSyncs = s.deadSyncs := by
  have hdrop := @dropListener_keeps config s row
  unfold subscribe connectCamera
  cases row with
  | none => exact hdrop
  | some camera =>
    dsimp only
    split
    · exact hdrop
    · split
      · exact hdrop
      · split
        · exact hdrop
        · split
          · split <;> exact hdrop
          · exact hdrop

theorem Inv.watch (h : Inv s) (i : Nat) (row : Row) : Inv (watch config s i row) := by
  have hcounted := h.counted
  unfold OnvifEvents.watch
  split
  · exact h.goto_other (Nat.zero_le _) rfl rfl rfl
  · split
    · -- one more sync without a listener, for both counts
      have hmore : Inv { s with
          deadSyncs := s.deadSyncs + 1
          history := { s.history with deadRun := s.history.deadRun + 1 } } :=
        h.same_calls (Nat.succ_le_succ hcounted) rfl rfl
      dsimp only
      split
      · exact hmore.activate i (some row)
      · exact hmore.goto_other hmore.counted rfl rfl rfl
    · have hnone : Inv { s with
          deadSyncs := 0
          history := { s.history with deadRun := 0 } } :=
        h.same_calls (Nat.le_refl 0) rfl rfl
      dsimp only
      split
      · exact hnone.activate i (some row)
      · exact hnone.goto_other hnone.counted rfl rfl rfl

theorem Inv.flip (h : Inv s) (i : Nat) (row : Row) (target : MotionTrigger)
    (hquiet : target = .system → s.activationUnderWay = false) : Inv (flip s i row target) := by
  unfold OnvifEvents.flip
  split
  · exact h.goto_other h.counted rfl rfl rfl
  · cases target with
    | camera => exact h.activate i none
    | system =>
      refine Inv.drop h.counted ?_
      intro j q hget
      rcases getElem?_set_some hget with ⟨-, rfl⟩ | ⟨-, hold⟩
      · rfl
      · exact no_activation (hquiet rfl) hold

theorem Inv.probe (h : Inv s) (i : Nat) (row : Row) (answer : Option Bool) :
    Inv (probe s i row answer) := by
  unfold OnvifEvents.probe
  split
  · exact h.goto_other h.counted rfl rfl rfl
  · split
    · exact h.goto_other h.counted rfl rfl rfl
    · exact h.goto_other h.counted rfl rfl rfl

theorem inv_advance (h : Inv s) {i : Nat} {answer : Answer} {phase : Phase}
    (hget : s.calls[i]? = some phase) (hguard : Heeded config s (.advance i answer))
    (hstep : advance config s i answer phase = some t) : Inv t := by
  cases phase with
  | reading =>
    simp only [advance] at hstep
    obtain ⟨hcalls, hflag, hhistory, hdead⟩ := @subscribe_keeps config s
      (s.row.filter (fun r => r.motionTrigger = .camera))
    split at hstep
    · next hrow =>
      cases hstep
      refine h.goto_other (i := i) (p := .ended) (Nat.zero_le _) hflag ?_ rfl
      rw [← hcalls]
      rfl
    · next row hrow =>
      cases hstep
      have hcount : (subscribe config s (s.row.filter (fun r => r.motionTrigger = .camera))).history.deadRun ≤
          (subscribe config s (s.row.filter (fun r => r.motionTrigger = .camera))).deadSyncs := by
        rw [hhistory, hdead]
        exact h.counted
      refine h.goto_other (i := i) (p := .watching row) hcount hflag ?_ rfl
      rw [← hcalls]
      rfl
  | watching row =>
    cases hstep
    exact h.watch i row
  | activating row =>
    cases answer with
    | thrown =>
      cases hstep
      refine Inv.drop h.counted ?_
      intro j q hq
      rcases getElem?_set_some hq with ⟨-, rfl⟩ | ⟨hne, hold⟩
      · rfl
      · by_contra hact
        exact hne (h.single j i q _ hold (by simpa using hact) hget rfl)
    | done | supports =>
      cases hstep
      refine h.keep h.counted rfl ?_
      intro j q hq hact
      rcases getElem?_set_some hq with ⟨rfl, -⟩ | ⟨-, hold⟩
      · exact ⟨_, hget, rfl⟩
      · exact ⟨q, hold, hact⟩
  | registering row =>
    cases hstep
    exact h.goto_other h.counted rfl rfl rfl
  | probeReading =>
    simp only [advance] at hstep
    split at hstep
    · cases hstep
      exact h.goto_other h.counted rfl rfl rfl
    · split at hstep
      · cases hstep
        exact h.goto_other h.counted rfl rfl rfl
      · cases hstep
        exact h.goto_other h.counted rfl rfl rfl
  | probing row =>
    cases hstep
    exact h.probe i row answer.supported
  | updating row target =>
    cases hstep
    exact h.goto_other h.counted rfl rfl rfl
  | flipping row target =>
    cases hstep
    apply h.flip i row target
    intro htarget
    subst htarget
    simpa [Heeded, heeded, hget] using hguard
  | ended | stopped => cases hstep

theorem inv_step (h : Inv s) (hguard : Heeded config s a) (hstep : step config s a = some t) :
    Inv t := by
  cases a with
  | sync | probe =>
    simp only [step] at hstep
    split at hstep
    · cases hstep
    · cases hstep
      refine h.keep h.counted rfl ?_
      intro j q hget hact
      rcases getElem?_concat_some hget with hold | ⟨-, rfl⟩
      · exact ⟨q, hold, hact⟩
      · cases hact
  | advance i answer =>
    obtain ⟨phase, hget, hadvance⟩ := Option.bind_eq_some_iff.mp hstep
    exact inv_advance h hget hguard hadvance
  | giveUp i =>
    obtain ⟨phase, hget, hstop⟩ := Option.bind_eq_some_iff.mp hstep
    split at hstop
    · cases hstop
      exact h.goto_other h.counted rfl rfl rfl
    · cases hstop
  | connected k | connectFailed k =>
    simp only [step] at hstep
    split at hstep
    · cases hstep
      exact h.same_calls h.counted rfl rfl
    · cases hstep
  | listenerError k =>
    simp only [step] at hstep
    split at hstep
    · cases hstep
      split
      · exact h.same_calls h.counted rfl rfl
      · exact h
    · cases hstep
  | event k =>
    simp only [step] at hstep
    split at hstep
    · cases hstep
      have hquiet : s.activationUnderWay = false := by simpa [Heeded, heeded] using hguard
      refine Inv.drop h.counted ?_
      intro j q hget
      exact no_activation hquiet hget
    · cases hstep
  | edit row =>
    cases hstep
    exact h.same_calls h.counted rfl rfl
  | clock now =>
    simp only [step] at hstep
    split at hstep
    · cases hstep
      exact h.same_calls h.counted rfl rfl
    · cases hstep

theorem inv_reach (h : Reach (onvifMachine config) (Heeded config) s) : Inv s := by
  apply h.invariant (I := Inv)
  · intro s hinit
    obtain ⟨clock, row, rfl⟩ := hinit
    refine Inv.drop (Nat.le_refl 0) ?_
    intro j q hget
    cases hget
  · intro s a t hinv hguard hstep
    exact inv_step hinv hguard hstep

/-! ## A sync's turn with the camera -/

theorem activate_active (i : Nat) (row : Option Row) :
    (activate s i row).fallbackActive = true := by
  unfold activate
  split
  · next hflag => exact hflag
  · rfl

/-- The watchdog's look: a camera that is then deaf has its reserve, where a silence found is
one the watchdog counts. -/
theorem watch_guards (h : Inv s) {i : Nat} {row : Row} (harmed : row.armed = true)
    (hheeded : s.silent config = true → s.fallbackActive = false → s.countsSilence config = true)
    (hdeaf : (watch config s i row).deaf config = true) :
    (watch config s i row).fallbackActive = true := by
  have hdead := config.dead_min
  have hcounted := h.counted
  by_contra hnone
  rw [Bool.not_eq_true] at hnone
  unfold watch at hdeaf hnone
  rw [if_neg (by simp [harmed])] at hdeaf hnone
  split at hdeaf
  · next hdown =>
    rw [if_pos hdown] at hnone
    dsimp only at hdeaf hnone
    split at hdeaf
    · next hlimit =>
      rw [if_pos hlimit, activate_active] at hnone
      cases hnone
    · next hlimit =>
      rw [if_neg hlimit] at hnone
      have hflag : s.fallbackActive = false := hnone
      have hfew : s.deadSyncs + 1 < config.deadSyncsForFallback := by
        by_contra hge
        exact hlimit ⟨by omega, hflag⟩
      -- too few syncs for both counts, so it is a silence, which is counted at the last only
      rcases Bool.or_eq_true_iff.mp hdeaf with hrun | hsilent
      · have hrun : config.deadSyncsForFallback ≤ s.history.deadRun + 1 := of_decide_eq_true hrun
        omega
      · have hcounts := hheeded hsilent hflag
        rw [System.countsSilence, if_neg (by simp [hdown]), decide_eq_true_eq] at hcounts
        omega
  · next hup =>
    rw [if_neg hup] at hnone
    dsimp only at hdeaf hnone
    split at hdeaf
    · next hquiet =>
      rw [if_pos hquiet, activate_active] at hnone
      cases hnone
    · next hquiet =>
      rw [if_neg hquiet] at hnone
      have hflag : s.fallbackActive = false := hnone
      rcases Bool.or_eq_true_iff.mp hdeaf with hrun | hsilent
      · have hrun : config.deadSyncsForFallback ≤ 0 := of_decide_eq_true hrun
        omega
      · have hcounts := hheeded hsilent hflag
        rw [System.countsSilence, if_pos (by simpa using hup), Bool.and_eq_true,
          decide_eq_true_eq, decide_eq_true_eq] at hcounts
        exact hquiet ⟨hflag, hcounts.1, hcounts.2⟩

theorem completed_some {row : Row} (h : completed s a t = some row) :
    ∃ i answer phase, a = .advance i answer ∧ t.calls[i]? = some .ended ∧
      s.calls[i]? = some phase ∧ phase.syncRow = some row := by
  cases a with
  | advance i answer =>
    simp only [completed] at h
    split at h
    · next hended =>
      obtain ⟨phase, hget, hrow⟩ := Option.bind_eq_some_iff.mp h
      exact ⟨i, answer, phase, rfl, hended, hget, hrow⟩
    · cases h
  | _ =>
    cases h

/-- **No deaf camera is left without its reserve** where no sync finds a silence it does not
count, and neither an event nor a change of the trigger falls into an activation. -/
theorem deaf_camera_guarded (config : Config) : Guarded config (Heeded config) := by
  intro s a t row hreach hguard hstep hcompleted harmed hdeaf
  have hinv : Inv s := inv_reach hreach
  obtain ⟨i, answer, phase, rfl, hended, hget, hrow⟩ := completed_some hcompleted
  simp only [step, hget, Option.bind_some] at hstep
  cases phase with
  | watching row' =>
    cases hrow
    cases hstep
    left
    apply watch_guards hinv harmed _ hdeaf
    intro hsilent hflag
    simpa [Heeded, heeded, hget, harmed, hsilent, hflag] using hguard
  | activating row' =>
    cases answer with
    | thrown =>
      cases hstep
      exact Or.inr rfl
    | done | supports =>
      cases hstep
      exact Or.inl (hinv.active i _ hget rfl)
  | registering row' =>
    cases hstep
    exact Or.inl (hinv.active i _ hget rfl)
  | _ => cases hrow

/-! ## Runs -/

theorem resubscribe_default : (300000 : Int) ≤ 600000 := by decide

theorem silence_default : (3600000 : Int) ≤ 43200000 := by decide

theorem dead_default : 1 ≤ 3 := by decide

def defaultConfig : Config where
  disabled := false
  resubscribeAfterMs := 600000
  silenceFallbackMs := 43200000
  deadSyncsForFallback := 3
  resubscribe_min := resubscribe_default
  silence_min := silence_default
  dead_min := dead_default

def yardRow : Row where
  enabled := true
  motionTrigger := .camera
  recordingMode := .motion
  onvifPort := some 80
  targetAllowed := true
  passwordReadable := true

def midnight : Int := 1772600000000

/-- The camera connects and sends one event; thirteen hours later a sync subscribes it anew,
and the next finds it connected. -/
def oneEvent : List Label :=
  [.sync, .advance 0 .done, .advance 0 .done, .connected 0, .clock (midnight + 60000), .event 0,
    .clock (midnight + 46860000), .sync, .advance 1 .done, .advance 1 .done, .connected 1,
    .clock (midnight + 46920000), .sync, .advance 2 .done]

def turn (config : Config) (a : Label) (s : System) : Option (Option Row × Bool × Bool × Bool) :=
  (step config s a).map (fun t =>
    (completed s a t, t.deaf config, t.fallbackActive, t.history.lastAttemptFailed))

theorem turn_some {config : Config} {a : Label} {row : Row} {deaf active failed : Bool}
    (h : turn config a s = some (some row, deaf, active, failed)) :
    ∃ t, step config s a = some t ∧ completed s a t = some row ∧ t.deaf config = deaf ∧
      t.fallbackActive = active ∧ t.history.lastAttemptFailed = failed := by
  obtain ⟨t, hstep, heq⟩ := Option.map_eq_some_iff.mp h
  simp only [Prod.mk.injEq] at heq
  exact ⟨t, hstep, heq⟩

/-- A camera that sent an event and then nothing for thirteen hours has no reserve. -/
theorem heard_once : ¬ Guarded defaultConfig Always := by
  intro hguarded
  have hrun : (Machine.run (onvifMachine defaultConfig) anyStep (start midnight (some yardRow))
      oneEvent).bind (turn defaultConfig (.advance 2 .done)) =
      some (some yardRow, true, false, false) := by
    rfl
  obtain ⟨s, hs, hturn⟩ := Option.bind_eq_some_iff.mp hrun
  obtain ⟨t, hstep, hcompleted, hdeaf, hactive, hfailed⟩ := turn_some hturn
  have hreach : Reach (onvifMachine defaultConfig) Always s :=
    ⟨_, ⟨midnight, some yardRow, rfl⟩, path_of_run (fun _ _ _ => trivial) _ hs⟩
  rcases hguarded s _ t yardRow hreach trivial hstep hcompleted rfl hdeaf with h | h
  · rw [hactive] at h
    cases h
  · rw [hfailed] at h
    cases h

def refused : List Label :=
  [.sync, .advance 0 .done, .advance 0 .done, .connectFailed 0,
    .sync, .advance 1 .done, .advance 1 .done, .connectFailed 1,
    .sync, .advance 2 .done, .advance 2 .done, .advance 2 .done]

/-- A listener may stay for a day. -/
def quietConfig : Config :=
  { defaultConfig with
    resubscribeAfterMs := 86400000
    resubscribe_min := by decide }

/-- The camera connects and sends nothing for thirteen hours; the second sync finds it so. -/
def quiet : List Label :=
  [.sync, .advance 0 .done, .advance 0 .done, .connected 0, .clock (midnight + 46860000),
    .sync, .advance 1 .done, .advance 1 .done, .advance 1 .done]

theorem turn_reached {config : Config} {labels : List Label} {a : Label} {r : Bool × Bool}
    (hrun : (Machine.run (onvifMachine config) (heeded config) (start midnight (some yardRow))
      labels).bind (fun s => (turn config a s).map (fun r => (r, heeded config s a))) =
        some ((some yardRow, true, r), true)) :
    ∃ s t, Reach (onvifMachine config) (Heeded config) s ∧ Heeded config s a ∧
      step config s a = some t ∧ completed s a t = some yardRow ∧ t.deaf config = true := by
  obtain ⟨s, hs, hlast⟩ := Option.bind_eq_some_iff.mp hrun
  obtain ⟨r, hturn, heq⟩ := Option.map_eq_some_iff.mp hlast
  rw [Prod.mk.injEq] at heq
  obtain ⟨rfl, hheeded⟩ := heq
  obtain ⟨t, hstep, hcompleted, hdeaf, -, -⟩ := turn_some hturn
  have hreach : Reach (onvifMachine config) (Heeded config) s :=
    ⟨_, ⟨midnight, some yardRow, rfl⟩, path_of_run (fun _ _ h => h) _ hs⟩
  exact ⟨s, t, hreach, hheeded, hstep, hcompleted, hdeaf⟩

/-- A listener refused at three syncs, and one that hears nothing for longer than the limit. -/
theorem deaf_camera_guarded_refused :
    (∃ s t, Reach (onvifMachine defaultConfig) (Heeded defaultConfig) s ∧
      step defaultConfig s (.advance 2 .done) = some t ∧ t.deaf defaultConfig = true ∧
      (t.fallbackActive = true ∨ t.history.lastAttemptFailed = true)) ∧
    ∃ s t, Reach (onvifMachine quietConfig) (Heeded quietConfig) s ∧
      step quietConfig s (.advance 1 .done) = some t ∧ t.deaf quietConfig = true ∧
      (t.fallbackActive = true ∨ t.history.lastAttemptFailed = true) := by
  constructor
  · obtain ⟨s, t, hreach, hheeded, hstep, hcompleted, hdeaf⟩ :=
      @turn_reached defaultConfig refused (.advance 2 .done) (true, false) rfl
    exact ⟨s, t, hreach, hstep, hdeaf, deaf_camera_guarded defaultConfig s _ t yardRow hreach
      hheeded hstep hcompleted rfl hdeaf⟩
  · obtain ⟨s, t, hreach, hheeded, hstep, hcompleted, hdeaf⟩ :=
      @turn_reached quietConfig quiet (.advance 1 .done) (true, false) rfl
    exact ⟨s, t, hreach, hstep, hdeaf, deaf_camera_guarded quietConfig s _ t yardRow hreach
      hheeded hstep hcompleted rfl hdeaf⟩

end Drac.Cameras.OnvifEvents
