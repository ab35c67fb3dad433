import Drac.Lib.JsMap
import Drac.Lib.JsText
import Drac.Lib.Loops
import Drac.Lib.Runs

/-
  The watchdog of the analysis processors.

  Correspondence (`ai-manager.service.ts` ↔ Lean):
    recoverDegradedProcessors   ↔ the same name; its three loops are `absentCamera`,
                                  `strayProcessor` and `degradedProcessor`
    performSyncAll, startCamera ↔ the same names, as to which cameras they start
    isCameraAllowedByAiEnv      ↔ the same name

  A tick is what it finds: the health answer, the settings and the table of cameras, and which of
  its reads fail. The answer of `getHealth` is `offline` where asking fails. The clock is what
  `Date.now()` gives each time it is read; whether a stop or a start succeeds shows in the answers
  to come.
-/

namespace Drac.Vision.AiWatchdog

open Runs

/-! ## The cameras to analyse -/

structure Camera where
  id : String
  name : String
  enabled : Bool := true
  aiEnabled : Bool := true
  recordingMode : String := "continuous"
  motionTrigger : String := "SYSTEM"
  deriving DecidableEq

inductive AiMode where
  | motion
  | face
  | general
  deriving DecidableEq

structure AiSettings where
  enabled : Bool
  mode : AiMode
  deriving DecidableEq

structure AiEnv where
  AI_FORCE_SINGLE_CAMERA : Option String := none
  AI_SINGLE_CAMERA_ID : Option String := none
  AI_ENABLED_CAMERA_IDS : Option String := none
  AI_ACTIVE_CAMERA_IDS : Option String := none
  AI_ANALYTICS_CAMERA_IDS : Option String := none

section Env

-- `value.toLowerCase()` of the language.
variable (toLowerCase : String → String)

/-- A run of such symbols becomes one hyphen; `inside` where the last symbol was one. -/
def collapse (p : Char → Bool) (inside : Bool) : List Char → List Char
  | [] => []
  | c :: cs =>
    if p c then if inside then collapse p true cs else '-' :: collapse p true cs
    else c :: collapse p false cs

def normalizeAiCameraToken (value : String) : String :=
  let lower := (toLowerCase (JsText.trim value)).toList
  let hyphens := collapse (fun c => c = '_' || JsText.isSpace c) false lower
  String.ofList (collapse (· = '-') false hyphens)

def parseAiCameraSet (raw : String) : List String :=
  ((raw.toList.splitOn ',').map fun item =>
    normalizeAiCameraToken toLowerCase (String.ofList item)).filter (· ≠ "")

/-- The rows of the table have no `slug` and no `displayName`. -/
def cameraMatchesAiToken (cam : Camera) (token : String) : Bool :=
  token ≠ "" && ([cam.id, cam.name].map (normalizeAiCameraToken toLowerCase)).contains token

def isCameraAllowedByAiEnv (env : AiEnv) (cam : Camera) : Bool :=
  let forceSingle := toLowerCase (JsText.trim (env.AI_FORCE_SINGLE_CAMERA.getD "false"))
  let singleEnabled := ["1", "true", "yes", "on"].contains forceSingle
  let singleId := normalizeAiCameraToken toLowerCase (env.AI_SINGLE_CAMERA_ID.getD "")
  if singleEnabled && singleId ≠ "" then cameraMatchesAiToken toLowerCase cam singleId
  else
    let configured := ([env.AI_ENABLED_CAMERA_IDS, env.AI_ACTIVE_CAMERA_IDS,
      env.AI_ANALYTICS_CAMERA_IDS].filterMap id).filter (JsText.trim · ≠ "")
    if configured = [] then true
    else (configured.flatMap (parseAiCameraSet toLowerCase)).any
      (cameraMatchesAiToken toLowerCase cam)

end Env

/-- Whether the commercial policy allows a feature, or `none` where asking fails. -/
structure Policy where
  aiMotion : Option Bool
  aiAdvanced : Option Bool

/-- The environment, and what is read of it. -/
structure Config where
  toLowerCase : String → String
  env : AiEnv := {}
  /-- What `resolveDegradedRecoveryCooldownMs` gives, to the next whole millisecond. -/
  cooldownMs : ℕ
  /-- What `Date.now()` gives each time it is read. -/
  clock : ℕ → ℕ
  clock_mono : Monotone clock

/-- The cameras that `performSyncAll` starts. -/
def performSyncAll (cfg : Config) (policy : Policy) (settings : AiSettings)
    (cameras : List Camera) : List Camera :=
  if !policy.aiMotion.getD true then []
  else if settings.mode ≠ .motion && policy.aiAdvanced.isNone then []
  else
    let mode := if settings.mode ≠ .motion && !policy.aiAdvanced.getD false then .motion
      else settings.mode
    if !settings.enabled then []
    else cameras.filter fun cam =>
      if !cam.enabled then false
      else if !cam.aiEnabled || !isCameraAllowedByAiEnv cfg.toLowerCase cfg.env cam then false
      else if mode = AiMode.motion then
        cam.recordingMode = "motion" && cam.motionTrigger = "SYSTEM"
      else true

structure StartOptions where
  allowCameraTrigger : Bool := false
  liveAutoStart : Bool := false

/-- Does `startCamera` start the analysis of the camera? It does not ask whether the camera is
enabled. -/
def startCamera (cfg : Config) (policy : Policy) (settings : AiSettings) (cameras : List Camera)
    (options : StartOptions) (cameraId : String) : Bool :=
  if !settings.enabled then false
  else if !policy.aiMotion.getD true then false
  else if settings.mode ≠ .motion && !policy.aiAdvanced.getD false then false
  else
    match cameras.find? (·.id = cameraId) with
    | none => false
    | some cam =>
      if !cam.aiEnabled || !isCameraAllowedByAiEnv cfg.toLowerCase cfg.env cam then false
      else if options.liveAutoStart && settings.mode = .motion && cam.recordingMode ≠ "motion" then
        false
      else if settings.mode = .motion && cam.motionTrigger ≠ "SYSTEM" &&
          !options.allowCameraTrigger then
        false
      else true

/-! ## A tick -/

inductive HealthStatus where
  | online
  | degraded
  | other
  deriving DecidableEq

structure Health where
  status : HealthStatus
  /-- `none` where the answer has no such array. -/
  active_processors : Option (List String) := none
  degraded_processors : Option (List String) := none

/-- What one tick has read. -/
structure Tick where
  health : Health
  /-- `none` where they cannot be read. -/
  settings : Option AiSettings
  cameras : List Camera
  /-- The read of the armed cameras fails. -/
  armedFails : Bool := false
  /-- The read of the cameras that may be analysed fails. -/
  legitimasFails : Bool := false

def Tick.active (tick : Tick) : List String := tick.health.active_processors.getD []

def Tick.degraded (tick : Tick) : List String := tick.health.degraded_processors.getD []

def Tick.armed (tick : Tick) : List Camera :=
  tick.cameras.filter fun cam =>
    cam.recordingMode = "motion" && cam.motionTrigger = "SYSTEM" && cam.enabled

def Tick.legitimas (tick : Tick) : List String :=
  (tick.cameras.filter fun cam => cam.enabled && cam.aiEnabled).map (·.id)

inductive Kind where
  | absent
  | degraded
  deriving DecidableEq

structure Recovery where
  kind : Kind
  cameraId : String
  at_ : ℕ
  deriving DecidableEq

/-- The recoveries so far, the newest first, and how often the clock has been read. -/
structure Times where
  lastDegradedRecoveryAt : List (String × ℕ) := []
  reads : ℕ := 0
  recoveries : List Recovery := []

/-- The time that a recovery keeps from the one before. -/
def cooldown (cfg : Config) : Kind → ℕ
  | .absent => 5 * 60000
  | .degraded => cfg.cooldownMs

/-- Read the clock, and unless it is too early read it again and write it down. -/
def Times.recover (cfg : Config) (kind : Kind) (times : Times) (cameraId : String) : Bool × Times :=
  let lastAt := (JsMap.get? times.lastDegradedRecoveryAt cameraId).getD 0
  if cfg.clock times.reads < lastAt + cooldown cfg kind then
    (false, { times with reads := times.reads + 1 })
  else
    let at_ := cfg.clock (times.reads + 1)
    (true, {
      lastDegradedRecoveryAt := JsMap.set times.lastDegradedRecoveryAt cameraId at_
      reads := times.reads + 2
      recoveries := ⟨kind, cameraId, at_⟩ :: times.recoveries })

def absentCamera (cfg : Config) (active : List String) (times : Times) (cam : Camera) : Times :=
  if cam.id ∈ active then times else (times.recover cfg .absent cam.id).2

/-- The loop over the processors, so far. -/
structure Strays where
  strayStrikes : List (String × ℕ) := []
  orphans : List String := []

def strayProcessor (legitimas : List String) (s : Strays) (cameraId : String) : Strays :=
  if cameraId ∈ legitimas then { s with strayStrikes := JsMap.erase s.strayStrikes cameraId }
  else
    let strikes := (JsMap.get? s.strayStrikes cameraId).getD 0 + 1
    if strikes < 2 then { s with strayStrikes := JsMap.set s.strayStrikes cameraId strikes }
    else {
      strayStrikes := JsMap.erase (JsMap.set s.strayStrikes cameraId strikes) cameraId
      orphans := cameraId :: s.orphans }

/-- The loop over the degraded cameras, so far. -/
structure Degraded where
  degradedStrikes : List (String × ℕ)
  times : Times
  restarts : List String := []

def degradedProcessor (cfg : Config) (s : Degraded) (cameraId : String) : Degraded :=
  let strikes := (JsMap.get? s.degradedStrikes cameraId).getD 0 + 1
  let struck := JsMap.set s.degradedStrikes cameraId strikes
  if strikes < 2 then { s with degradedStrikes := struck }
  else
    let (due, times) := s.times.recover cfg .degraded cameraId
    if due then ⟨JsMap.erase struck cameraId, times, cameraId :: s.restarts⟩
    else { s with degradedStrikes := struck, times := times }

/-- A tick, and what it stopped and restarted. -/
structure Done where
  tick : Tick
  orphans : List String
  restarts : List String

/-- The strikes and the times between ticks. -/
structure Manager where
  degradedStrikes : List (String × ℕ) := []
  strayStrikes : List (String × ℕ) := []
  times : Times := {}
  history : List Done := []

/-- The loops over the armed cameras and over the active processors. Does the tick go on? -/
def reconcile (cfg : Config) (tick : Tick) (strays : List (String × ℕ)) (times : Times) :
    Bool × Strays × Times :=
  if tick.health.status = .other then (true, ⟨strays, []⟩, times)
  else match tick.settings with
    | none => (false, ⟨strays, []⟩, times)
    | some settings =>
      if !(settings.enabled && settings.mode = .motion) then (true, ⟨strays, []⟩, times)
      else if tick.armedFails then (false, ⟨strays, []⟩, times)
      else
        let times := tick.armed.foldl (absentCamera cfg tick.active) times
        if tick.legitimasFails then (false, ⟨strays, []⟩, times)
        else (true, tick.active.foldl (strayProcessor tick.legitimas) ⟨strays, []⟩, times)

def recoverDegradedProcessors (cfg : Config) (tick : Tick) (s : Manager) : Manager :=
  let strikes := s.degradedStrikes.filter fun e => e.1 ∈ tick.degraded
  let (goesOn, strays, times) := reconcile cfg tick s.strayStrikes s.times
  let restarted := if goesOn then
      tick.degraded.foldl (degradedProcessor cfg) ⟨strikes, times, []⟩
    else ⟨strikes, times, []⟩
  { degradedStrikes := restarted.degradedStrikes
    strayStrikes := strays.strayStrikes
    times := restarted.times
    history := ⟨tick, strays.orphans, restarted.restarts⟩ :: s.history }

/-- The manager, one tick after another. -/
def watchdog (cfg : Config) : Machine Manager Tick where
  init := fun s => s = {}
  step := fun s tick => some (recoverDegradedProcessors cfg tick s)

/-! ## What a run keeps to -/

/-- The processor is active for a camera that is not to be analysed. -/
def Tick.stray (tick : Tick) (cameraId : String) : Prop :=
  cameraId ∈ tick.active ∧ cameraId ∉ tick.legitimas

/-- What a tick has done to a processor has its reason in the tick and in the one before. -/
def TwoTicks (done : Done → List String) (reason : Tick → String → Prop) : List Done → Prop
  | [] => True
  | d :: ds => (∀ cameraId ∈ done d, reason d.tick cameraId ∧
      ∃ before, ds.head? = some before ∧ reason before.tick cameraId) ∧ TwoTicks done reason ds

/-- A recovery keeps its time from those of the camera that came before. -/
def Apart (cfg : Config) (later earlier : Recovery) : Prop :=
  later.cameraId = earlier.cameraId → earlier.at_ + cooldown cfg later.kind ≤ later.at_

/-- Would anything start the analysis of the camera, with the table as it is? -/
def Wanted (cfg : Config) (cameras : List Camera) (cameraId : String) : Prop :=
  ∃ policy settings, cameraId ∈ (performSyncAll cfg policy settings cameras).map (·.id) ∨
    ∃ options, startCamera cfg policy settings cameras options cameraId = true

/-- What is promised of the history. -/
structure Disciplined (cfg : Config) (s : Manager) : Prop where
  orphans : TwoTicks Done.orphans Tick.stray s.history
  restarts : TwoTicks Done.restarts (fun tick cameraId => cameraId ∈ tick.degraded) s.history
  apart : s.times.recoveries.Pairwise (Apart cfg)
  unwanted : ∀ d ∈ s.history, ∀ cameraId ∈ d.orphans, ¬ Wanted cfg d.tick.cameras cameraId

/-- The tick looks at every active processor. -/
def Tick.reconciles (tick : Tick) : Bool :=
  tick.health.status ≠ .other &&
    tick.settings.any (fun settings => settings.enabled && settings.mode = .motion) &&
    !tick.armedFails && !tick.legitimasFails

/-- No processor is listed twice, none that has a strike is missed, and no active one is of a
camera that is disabled and may be started. -/
structure Clean (cfg : Config) (s : Manager) (tick : Tick) : Prop where
  activeOnce : tick.active.Nodup
  degradedOnce : tick.degraded.Nodup
  seen : ∀ cameraId ∈ JsMap.keys s.strayStrikes,
    tick.reconciles = true ∧ cameraId ∈ tick.active
  enabled : ∀ cam ∈ tick.cameras, cam.id ∈ tick.active → cam.aiEnabled = true →
    isCameraAllowedByAiEnv cfg.toLowerCase cfg.env cam = true → cam.enabled = true

/-! ## The times of the recoveries -/

/-- What the map holds of a camera is not before any of its recoveries, and these keep apart. -/
structure Kept (cfg : Config) (times : Times) : Prop where
  latest : ∀ r ∈ times.recoveries, ∃ last,
    JsMap.get? times.lastDegradedRecoveryAt r.cameraId = some last ∧ r.at_ ≤ last
  apart : times.recoveries.Pairwise (Apart cfg)

variable {cfg : Config} {times : Times}

theorem recover_kept (h : Kept cfg times) (kind : Kind) (cameraId : String) :
    Kept cfg (times.recover cfg kind cameraId).2 := by
  unfold Times.recover
  dsimp only
  split
  · exact ⟨h.latest, h.apart⟩
  next hdue =>
    have hlater : cfg.clock times.reads ≤ cfg.clock (times.reads + 1) :=
      cfg.clock_mono (Nat.le_succ times.reads)
    -- the earlier recoveries of the camera are before the time it is checked against
    have hold : ∀ r ∈ times.recoveries, r.cameraId = cameraId →
        r.at_ ≤ (JsMap.get? times.lastDegradedRecoveryAt cameraId).getD 0 := by
      intro r hr hcamera
      obtain ⟨last, hlast, hle⟩ := h.latest r hr
      rw [← hcamera, hlast]
      exact hle
    refine ⟨?_, List.pairwise_cons.mpr ⟨?_, h.apart⟩⟩
    · intro r hr
      dsimp only
      rw [JsMap.get?_set]
      obtain rfl | hr := List.mem_cons.mp hr
      · exact ⟨_, if_pos rfl, le_refl _⟩
      · by_cases hcamera : cameraId = r.cameraId
        · have := hold r hr hcamera.symm
          exact ⟨_, if_pos hcamera, by omega⟩
        · rw [if_neg hcamera]
          exact h.latest r hr
    · intro r hr hcamera
      have := hold r hr hcamera.symm
      dsimp only
      omega

/-! ## The strikes -/

/-- A strike against a processor is held. -/
def Struck (strikes : List (String × ℕ)) (cameraId : String) : Prop :=
  JsMap.get? strikes cameraId ≠ none

variable {strikes : List (String × ℕ)} {cameraId other : String}

theorem struck_of_strikes (h : ¬ (JsMap.get? strikes cameraId).getD 0 + 1 < 2) :
    Struck strikes cameraId := by
  intro hnone
  rw [hnone] at h
  exact h (by decide)

theorem struck_erase (h : Struck (JsMap.erase strikes other) cameraId) :
    cameraId ≠ other ∧ Struck strikes cameraId := by
  rw [Struck, JsMap.get?_erase] at h
  split at h
  · exact absurd rfl h
  next hne => exact ⟨Ne.symm hne, h⟩

theorem struck_filter {p : String → Bool} (h : Struck (strikes.filter fun e => p e.1) cameraId) :
    p cameraId = true ∧ Struck strikes cameraId := by
  rw [Struck, JsMap.get?_filter] at h
  split at h
  next hp => exact ⟨hp, h⟩
  · exact absurd rfl h

theorem mem_keys_of_struck (h : Struck strikes cameraId) : cameraId ∈ JsMap.keys strikes := by
  by_contra hmem
  exact h (JsMap.get?_none_of_notMem hmem)

/-! ## The loop over the active processors -/

variable {legitimas : List String} {s : Strays}

theorem strayProcessor_own (hne : cameraId ≠ other) :
    JsMap.get? (strayProcessor legitimas s other).strayStrikes cameraId =
      JsMap.get? s.strayStrikes cameraId := by
  unfold strayProcessor
  dsimp only
  split
  · rw [JsMap.get?_erase, if_neg hne.symm]
  · split
    · rw [JsMap.get?_set, if_neg hne.symm]
    · rw [JsMap.get?_erase, if_neg hne.symm, JsMap.get?_set, if_neg hne.symm]

theorem strayProcessor_orphan (h : cameraId ∈ (strayProcessor legitimas s other).orphans) :
    cameraId ∈ s.orphans ∨
      (cameraId = other ∧ other ∉ legitimas ∧ JsMap.get? s.strayStrikes other ≠ none) := by
  unfold strayProcessor at h
  dsimp only at h
  split at h
  · exact .inl h
  next hstray =>
    split at h
    · exact .inl h
    next htwo =>
      obtain rfl | hbefore := List.mem_cons.mp h
      · exact .inr ⟨rfl, hstray, struck_of_strikes htwo⟩
      · exact .inl hbefore

theorem strayProcessor_struck
    (h : Struck (strayProcessor legitimas s other).strayStrikes cameraId) :
    (cameraId = other ∧ other ∉ legitimas) ∨ (cameraId ≠ other ∧ Struck s.strayStrikes cameraId) := by
  by_cases heq : cameraId = other
  · refine .inl ⟨heq, fun hmem => ?_⟩
    rw [strayProcessor, if_pos hmem] at h
    exact (struck_erase h).1 heq
  · rw [Struck, strayProcessor_own heq] at h
    exact .inr ⟨heq, h⟩

/-- Who has a strike when every active processor has been looked at, is a stray one. -/
theorem strays_struck {active : List String} (hall : ∀ id, Struck s.strayStrikes id → id ∈ active)
    (h : Struck (active.foldl (strayProcessor legitimas) s).strayStrikes cameraId) :
    cameraId ∈ active ∧ cameraId ∉ legitimas := by
  have hactive : ∀ id, Struck (active.foldl (strayProcessor legitimas) s).strayStrikes id →
      id ∈ active := by
    refine Loops.foldl_invariant active s (P := fun b => ∀ id, Struck b.strayStrikes id → id ∈ active)
      hall ?_
    intro b other hother hb id hid
    obtain ⟨rfl, -⟩ | ⟨-, hstruck⟩ := strayProcessor_struck hid
    · exact hother
    · exact hb id hstruck
  have hlooked := Loops.foldl_reaches active s
    (Q := fun id b => Struck b.strayStrikes id → id ∉ legitimas)
    (f := strayProcessor legitimas) ?_ ?_ cameraId (hactive cameraId h)
  · exact ⟨hactive cameraId h, hlooked h⟩
  · intro b id _ hid
    obtain ⟨-, hstray⟩ | ⟨hne, -⟩ := strayProcessor_struck hid
    · exact hstray
    · exact absurd rfl hne
  · intro b other _ id hkept hid
    obtain ⟨rfl, hstray⟩ | ⟨-, hstruck⟩ := strayProcessor_struck hid
    · exact hstray
    · exact hkept hstruck

theorem strays_orphan {active : List String} (honce : active.Nodup) {strikes : List (String × ℕ)}
    (h : cameraId ∈ (active.foldl (strayProcessor legitimas) ⟨strikes, []⟩).orphans) :
    (cameraId ∈ active ∧ cameraId ∉ legitimas) ∧ Struck strikes cameraId := by
  have hout := Loops.mem_out_foldl Strays.orphans (fun b id => JsMap.get? b.strayStrikes id)
    (fun id found => id ∉ legitimas ∧ found ≠ none)
    (fun b other id hid => strayProcessor_orphan hid)
    (fun b other id hne => strayProcessor_own hne) honce _ h
  obtain hnil | ⟨hactive, hstray, hstruck⟩ := hout
  · cases hnil
  · exact ⟨⟨hactive, hstray⟩, hstruck⟩

/-! ## The loop over the degraded processors -/

section Degraded

variable {s : Degraded}

theorem degradedProcessor_own (hne : cameraId ≠ other) :
    JsMap.get? (degradedProcessor cfg s other).degradedStrikes cameraId =
      JsMap.get? s.degradedStrikes cameraId := by
  unfold degradedProcessor
  dsimp only
  split
  · rw [JsMap.get?_set, if_neg hne.symm]
  · split
    · rw [JsMap.get?_erase, if_neg hne.symm, JsMap.get?_set, if_neg hne.symm]
    · rw [JsMap.get?_set, if_neg hne.symm]

theorem degradedProcessor_restart (h : cameraId ∈ (degradedProcessor cfg s other).restarts) :
    cameraId ∈ s.restarts ∨ (cameraId = other ∧ JsMap.get? s.degradedStrikes other ≠ none) := by
  unfold degradedProcessor at h
  dsimp only at h
  split at h
  · exact .inl h
  next htwo =>
    split at h
    · obtain rfl | hbefore := List.mem_cons.mp h
      · exact .inr ⟨rfl, struck_of_strikes htwo⟩
      · exact .inl hbefore
    · exact .inl h

theorem degradedProcessor_struck
    (h : Struck (degradedProcessor cfg s other).degradedStrikes cameraId) :
    cameraId = other ∨ Struck s.degradedStrikes cameraId := by
  by_cases heq : cameraId = other
  · exact .inl heq
  · rw [Struck, degradedProcessor_own heq] at h
    exact .inr h

theorem degradedProcessor_kept (h : Kept cfg s.times) (other : String) :
    Kept cfg (degradedProcessor cfg s other).times := by
  unfold degradedProcessor
  dsimp only
  split
  · exact h
  · split
    · exact recover_kept h .degraded other
    · exact recover_kept h .degraded other

end Degraded

/-! ## A tick -/

variable {tick : Tick} {m : Manager}

theorem reconcile_strays (cfg : Config) (tick : Tick) (strikes : List (String × ℕ)) (times : Times) :
    (reconcile cfg tick strikes times).2.1 =
      if tick.reconciles then tick.active.foldl (strayProcessor tick.legitimas) ⟨strikes, []⟩
      else ⟨strikes, []⟩ := by
  unfold reconcile Tick.reconciles
  by_cases hstatus : tick.health.status = .other
  · rw [if_pos hstatus]
    simp [hstatus]
  rw [if_neg hstatus]
  cases tick.settings with
  | none => simp
  | some settings =>
    dsimp only
    cases hmotion : settings.enabled && settings.mode = .motion with
    | false => simp [hmotion]
    | true => cases tick.armedFails <;> cases tick.legitimasFails <;> simp [hstatus, hmotion]

theorem reconcile_kept (h : Kept cfg times) (tick : Tick) (strikes : List (String × ℕ)) :
    Kept cfg (reconcile cfg tick strikes times).2.2 := by
  have hloop : Kept cfg (tick.armed.foldl (absentCamera cfg tick.active) times) := by
    refine Loops.foldl_invariant _ times (P := Kept cfg) h ?_
    intro b cam _ hb
    unfold absentCamera
    split
    · exact hb
    · exact recover_kept hb .absent cam.id
  unfold reconcile
  split
  · exact h
  · split
    · exact h
    · split
      · exact h
      · split
        · exact h
        · split
          · exact hloop
          · exact hloop

/-- What a tick does to the processors that are degraded. -/
def restarted (cfg : Config) (tick : Tick) (m : Manager) : Degraded :=
  let strikes := m.degradedStrikes.filter fun e => e.1 ∈ tick.degraded
  let times := (reconcile cfg tick m.strayStrikes m.times).2.2
  if (reconcile cfg tick m.strayStrikes m.times).1 then
    tick.degraded.foldl (degradedProcessor cfg) ⟨strikes, times, []⟩
  else ⟨strikes, times, []⟩

theorem recoverDegradedProcessors_eq (cfg : Config) (tick : Tick) (m : Manager) :
    recoverDegradedProcessors cfg tick m = {
      degradedStrikes := (restarted cfg tick m).degradedStrikes
      strayStrikes := (reconcile cfg tick m.strayStrikes m.times).2.1.strayStrikes
      times := (restarted cfg tick m).times
      history := ⟨tick, (reconcile cfg tick m.strayStrikes m.times).2.1.orphans,
        (restarted cfg tick m).restarts⟩ :: m.history } := rfl

theorem restarted_struck (h : Struck (restarted cfg tick m).degradedStrikes cameraId) :
    cameraId ∈ tick.degraded := by
  have hclear : ∀ id, Struck (m.degradedStrikes.filter fun e => e.1 ∈ tick.degraded) id →
      id ∈ tick.degraded := by
    intro id hid
    have := (struck_filter (p := fun id => id ∈ tick.degraded) hid).1
    simpa using this
  unfold restarted at h
  dsimp only at h
  split at h
  · refine Loops.foldl_invariant tick.degraded _
      (P := fun b : Degraded => ∀ id, Struck b.degradedStrikes id → id ∈ tick.degraded) hclear ?_
      cameraId h
    intro b other hother hb id hid
    obtain rfl | hstruck := degradedProcessor_struck hid
    · exact hother
    · exact hb id hstruck
  · exact hclear _ h

theorem restarted_mem (honce : tick.degraded.Nodup)
    (h : cameraId ∈ (restarted cfg tick m).restarts) :
    cameraId ∈ tick.degraded ∧ Struck m.degradedStrikes cameraId := by
  unfold restarted at h
  dsimp only at h
  split at h
  · have hout := Loops.mem_out_foldl Degraded.restarts
      (fun b id => JsMap.get? b.degradedStrikes id) (fun _ found => found ≠ none)
      (fun b other id hid => degradedProcessor_restart hid)
      (fun b other id hne => degradedProcessor_own hne) honce _ h
    obtain hnil | ⟨hmem, hstruck⟩ := hout
    · cases hnil
    · exact ⟨hmem, (struck_filter (p := fun id => id ∈ tick.degraded) hstruck).2⟩
  · cases h

theorem restarted_kept (h : Kept cfg m.times) (tick : Tick) :
    Kept cfg (restarted cfg tick m).times := by
  have htimes := reconcile_kept h tick m.strayStrikes
  unfold restarted
  dsimp only
  split
  · exact Loops.foldl_invariant _ _ (P := fun b : Degraded => Kept cfg b.times) htimes
      fun b other _ hb => degradedProcessor_kept hb other
  · exact htimes

theorem not_wanted (hclean : Clean cfg m tick) (h : tick.stray cameraId) :
    ¬ Wanted cfg tick.cameras cameraId := by
  obtain ⟨hactive, hstray⟩ := h
  -- a row of the camera that is enabled and has the detection on would make it legitimate
  have hrow : ∀ cam ∈ tick.cameras, cam.id = cameraId → cam.enabled = true →
      cam.aiEnabled = true → False := by
    intro cam hcam hid henabled hai
    apply hstray
    rw [Tick.legitimas, ← hid]
    exact List.mem_map_of_mem (List.mem_filter.mpr ⟨hcam, by rw [henabled, hai]; rfl⟩)
  rintro ⟨policy, settings, hsync | ⟨options, hstart⟩⟩
  · obtain ⟨cam, hcam, hid⟩ := List.mem_map.mp hsync
    unfold performSyncAll at hcam
    split at hcam
    · cases hcam
    · split at hcam
      · cases hcam
      · dsimp only at hcam
        split at hcam
        · cases hcam
        · obtain ⟨hmem, hkeep⟩ := List.mem_filter.mp hcam
          apply hrow cam hmem hid
          · by_contra hoff
            simp [hoff] at hkeep
          · by_contra hoff
            simp [hoff] at hkeep
  · unfold startCamera at hstart
    split at hstart
    · cases hstart
    · split at hstart
      · cases hstart
      · split at hstart
        · cases hstart
        · split at hstart
          · cases hstart
          next cam hfind =>
            split at hstart
            · cases hstart
            next hallowed =>
              have hid : cam.id = cameraId := by simpa using List.find?_some hfind
              have hmem := List.mem_of_find?_eq_some hfind
              simp only [Bool.or_eq_true, Bool.not_eq_true', not_or, Bool.not_eq_false] at hallowed
              exact hrow cam hmem hid
                (hclean.enabled cam hmem (hid ▸ hactive) hallowed.1 hallowed.2) hallowed.1

/-! ## Runs -/

/-- Who has a strike had its reason in the last tick. -/
structure Sound (cfg : Config) (m : Manager) : Prop where
  disciplined : Disciplined cfg m
  kept : Kept cfg m.times
  strays : ∀ cameraId, Struck m.strayStrikes cameraId →
    ∃ before, m.history.head? = some before ∧ before.tick.stray cameraId
  degraded : ∀ cameraId, Struck m.degradedStrikes cameraId →
    ∃ before, m.history.head? = some before ∧ cameraId ∈ before.tick.degraded

theorem sound_init : Sound cfg {} where
  disciplined := ⟨trivial, trivial, .nil, by simp⟩
  kept := ⟨by simp, .nil⟩
  strays := fun _ h => absurd rfl h
  degraded := fun _ h => absurd rfl h

/-- **A clean tick keeps the strikes sound.** -/
theorem sound_step (h : Sound cfg m) (hclean : Clean cfg m tick) :
    Sound cfg (recoverDegradedProcessors cfg tick m) := by
  have hkept := restarted_kept h.kept tick
  have hstrays := reconcile_strays cfg tick m.strayStrikes m.times
  -- a strike is against a stray processor of this tick, since none is missed
  have hstruck : ∀ id, Struck (reconcile cfg tick m.strayStrikes m.times).2.1.strayStrikes id →
      tick.stray id := by
    intro id hid
    rw [hstrays] at hid
    split at hid
    · exact strays_struck (fun other hother => (hclean.seen other (mem_keys_of_struck hother)).2) hid
    next hskip => exact absurd (hclean.seen id (mem_keys_of_struck hid)).1 hskip
  have horphans : ∀ id ∈ (reconcile cfg tick m.strayStrikes m.times).2.1.orphans,
      tick.stray id ∧ Struck m.strayStrikes id := by
    intro id hid
    rw [hstrays] at hid
    split at hid
    · exact strays_orphan hclean.activeOnce hid
    · cases hid
  rw [recoverDegradedProcessors_eq]
  refine ⟨⟨⟨?_, h.disciplined.orphans⟩, ⟨?_, h.disciplined.restarts⟩, hkept.apart, ?_⟩, hkept, ?_, ?_⟩
  · intro id hid
    obtain ⟨hstray, hstrike⟩ := horphans id hid
    exact ⟨hstray, h.strays id hstrike⟩
  · intro id hid
    obtain ⟨hdegraded, hstrike⟩ := restarted_mem hclean.degradedOnce hid
    exact ⟨hdegraded, h.degraded id hstrike⟩
  · intro d hd id hid
    obtain rfl | hd := List.mem_cons.mp hd
    · exact not_wanted hclean (horphans id hid).1
    · exact h.disciplined.unwanted d hd id hid
  · intro id hid
    exact ⟨_, rfl, hstruck id hid⟩
  · intro id hid
    exact ⟨_, rfl, restarted_struck hid⟩

/-- **The discipline of the watchdog**, where no processor that has a strike leaves the answers. -/
theorem watchdog_disciplined (cfg : Config) {m : Manager}
    (h : Reach (watchdog cfg) (Clean cfg) m) : Disciplined cfg m := by
  have hsound : Sound cfg m := by
    refine h.invariant (I := Sound cfg) ?_ ?_
    · rintro s rfl
      exact sound_init
    · intro s tick t hs hclean hstep
      cases hstep
      exact sound_step hs hclean
  exact hsound.disciplined

/-! ## Two ticks, and a gap between two -/

def minutes : Config where
  toLowerCase := id
  cooldownMs := 120000
  clock := fun n => 60000 * (n + 10)
  clock_mono := by
    intro a b hab
    dsimp only
    omega

/-- A processor is left of a camera that is gone, and that of another is degraded. -/
def leftOver : Tick where
  health := ⟨.degraded, some ["gone", "yard"], some ["yard"]⟩
  settings := some ⟨true, .motion⟩
  cameras := [{ id := "yard", name := "Yard" }]

def restarting : Tick := { leftOver with health := ⟨.online, some [], none⟩ }

def afterTwo : Manager :=
  recoverDegradedProcessors minutes leftOver (recoverDegradedProcessors minutes leftOver {})

theorem watchdog_disciplined_two :
    afterTwo.history.map (fun d => (d.orphans, d.restarts)) = [(["gone"], ["yard"]), ([], [])] ∧
      Disciplined minutes afterTwo := by
  have hyard : ∀ cam ∈ leftOver.cameras, cam.enabled = true := by decide
  have hfirst : Clean minutes {} leftOver :=
    ⟨by decide, by decide, by simp [JsMap.keys], fun cam hcam _ _ _ => hyard cam hcam⟩
  have hsecond : Clean minutes (recoverDegradedProcessors minutes leftOver {}) leftOver :=
    ⟨by decide, by decide, by decide, fun cam hcam _ _ _ => hyard cam hcam⟩
  exact ⟨by decide, watchdog_disciplined minutes
    ⟨{}, rfl, .tail (.tail (.refl _) hfirst rfl) hsecond rfl⟩⟩

/-- A processor that is seen, is not there in the next tick and is there again, is stopped. -/
theorem stopped_after_a_gap : ¬ ∀ cfg m, Reach (watchdog cfg) Always m → Disciplined cfg m := by
  intro h
  have hreach : Reach (watchdog minutes) Always
      (recoverDegradedProcessors minutes leftOver (recoverDegradedProcessors minutes restarting
        (recoverDegradedProcessors minutes leftOver {}))) :=
    ⟨{}, rfl, .tail (.tail (.tail (.refl _) trivial rfl) trivial rfl) trivial rfl⟩
  obtain ⟨-, before, hbefore, hactive, -⟩ := (h minutes _ hreach).orphans.1 "gone" (by decide)
  cases hbefore
  exact absurd hactive (by decide)

end Drac.Vision.AiWatchdog
