import Mathlib.Data.Rat.Floor
import Drac.Lib.JsText
import Drac.Lib.JsMap

/-
  The source gateway: for each camera and profile, whether a connection to the
  camera is up, who uses it, and which URL a consumer is to open.

  Correspondence (`source-gateway.service.ts` ↔ Lean):
    readSetting with `positive`, `nonNegative`, `clamp01` ↔ the readings of `Settings`
    computeBackoffDelayMs  ↔ `computeBackoffDelayMs`
    ensureEntry, evictOneIdle ↔ `ensureEntry`, `oldestIdle`
    isActive, activeEntry, activeEntries, pickSubstitute ↔ the same names
    resolveSourceUrl       ↔ `resolveSourceUrl` (its choice of an entry is `sourceFor`)
    registerPublishedSource, clearPublishedSource, acquire, release, noteConnecting,
    noteProgress, noteFailure, canAttempt, tick ↔ the same names

  An operation takes the settings it reads, the instant its clock shows and, where
  it draws one, a random number; instants are rational milliseconds. A map key
  `camera::profile` is the pair. The decision journal and the logs are left out.
-/

namespace Drac.CameraStream

open JsText

/-! ## Settings -/

/-- The settings as read at one call: texts, and numbers where `Number` of the
setting is finite. -/
structure Settings where
  enabled : Option String := none
  maxExternalPerCamera : Option ℚ := none
  stallTimeoutMs : Option ℚ := none
  backoffBaseMs : Option ℚ := none
  backoffCapMs : Option ℚ := none
  backoffJitter : Option ℚ := none
  circuitThreshold : Option ℚ := none
  circuitOpenMs : Option ℚ := none
  circuitMaxOpenMs : Option ℚ := none
  idleTtlMs : Option ℚ := none

def positive (value : Option ℚ) (fallback : ℚ) : ℚ :=
  match value with
  | some n => if 0 < n then n else fallback
  | none => fallback

def nonNegative (value : Option ℚ) (fallback : ℚ) : ℚ :=
  match value with
  | some n => if 0 ≤ n then n else fallback
  | none => fallback

def clamp01 (n : ℚ) : ℚ := if n ≤ 0 then 0 else min 1 n

namespace Settings

def isEnabled (s : Settings) : Bool := (trim (s.enabled.getD "")).toLower = "true"

def maxExternalConnectionsPerCamera (s : Settings) : Nat :=
  max 1 ⌊positive s.maxExternalPerCamera 2⌋.toNat

def stallTimeout (s : Settings) : ℚ := positive s.stallTimeoutMs 20000

def threshold (s : Settings) : Nat := max 1 ⌊positive s.circuitThreshold 5⌋.toNat

def openMs (s : Settings) : ℚ := positive s.circuitOpenMs 60000

def maxOpenMs (s : Settings) : ℚ := max s.openMs (positive s.circuitMaxOpenMs 480000)

def idleTtl (s : Settings) : ℚ := positive s.idleTtlMs 300000

end Settings

/-- Exponential backoff with jitter: `random` is the number drawn in `[0, 1)`. -/
def computeBackoffDelayMs (s : Settings) (attempt : Nat) (random : ℚ) : ℚ :=
  let baseMs := positive s.backoffBaseMs 1000
  let capMs := positive s.backoffCapMs 60000
  let jitter := clamp01 (nonNegative s.backoffJitter (1 / 5))
  let n := max 1 attempt
  let raw := if 53 ≤ n then capMs else baseMs * 2 ^ (n - 1)
  let delay := min capMs raw
  if jitter ≤ 0 then max 0 delay else max 0 (delay * (1 + jitter * (2 * random - 1)))

/-! ## Entries -/

inductive SourceProfile where
  | main
  | sub
  deriving DecidableEq, Repr

def normalizeSourceProfile (value : Option String) : SourceProfile :=
  if (trim (value.getD "")).toLower = "sub" then .sub else .main

inductive SourceState where
  | idle
  | connecting
  | online
  | stalled
  | backoff
  | circuitOpen
  deriving DecidableEq, Repr

inductive RtspTransport where
  | tcp
  | udp
  deriving DecidableEq, Repr

abbrev LeaseId := Nat

/-- One source of a camera, with those who consume it. -/
structure SourceEntry where
  cameraId : String
  profile : SourceProfile
  state : SourceState
  consumers : List (LeaseId × String)
  publishedUrl : Option String
  transport : Option RtspTransport
  lastPacketAtMs : Option ℚ
  lastFrameAtMs : Option ℚ
  consecutiveFailures : Nat
  attempt : Nat
  lastBackoffMs : Option ℚ
  nextAttemptAtMs : Option ℚ
  circuitOpenUntilMs : Option ℚ
  circuitCooldownMs : Option ℚ
  degraded : Bool
  createdAtMs : ℚ
  touchedAtMs : ℚ
  deriving DecidableEq

abbrev SourceKey := String × SourceProfile

def SourceEntry.key (e : SourceEntry) : SourceKey := (e.cameraId, e.profile)

structure GatewayCounters where
  acquisitions : Nat := 0
  releases : Nat := 0
  cappedAcquisitions : Nat := 0
  stalls : Nat := 0
  failures : Nat := 0
  recoveries : Nat := 0
  circuitOpens : Nat := 0
  deriving DecidableEq

/-- The registry, its two indexes and its counters. -/
structure Gateway where
  entries : List (SourceKey × SourceEntry) := []
  leases : List (LeaseId × SourceKey) := []
  leaseSeq : Nat := 0
  counters : GatewayCounters := {}
  deriving DecidableEq

namespace Gateway

def entryAt (g : Gateway) (key : SourceKey) : Option SourceEntry := JsMap.get? g.entries key

def setEntry (g : Gateway) (key : SourceKey) (e : SourceEntry) : Gateway :=
  { g with entries := JsMap.set g.entries key e }

end Gateway

/-- `circuitOpenUntilMs` is ahead: the circuit is cooling down. -/
def SourceEntry.cooling (e : SourceEntry) (now : ℚ) : Bool :=
  e.circuitOpenUntilMs.any (fun until_ => now < until_)

/-- An entry that holds, or is bringing up, a connection. -/
def isActive (e : SourceEntry) : Bool :=
  e.consumers.length > 0 || e.state = .connecting || e.state = .online

def activeEntries (g : Gateway) (cameraId : String) : List SourceEntry :=
  (JsMap.values g.entries).filter (fun e => e.cameraId = cameraId && isActive e)

def activeEntry (g : Gateway) (cameraId : String) (profile : SourceProfile) : Option SourceEntry :=
  (g.entryAt (cameraId, profile)).filter (fun e =>
    isActive e || e.state = .backoff || e.state = .circuitOpen || e.state = .stalled)

/-- An entry that is online rather than one that is not, and of those the main
profile rather than the first. -/
def pickSubstitute (candidates : List SourceEntry) : Option SourceEntry :=
  let online := candidates.filter (fun e => e.state = .online)
  let pool := if online.length > 0 then online else candidates
  (pool.find? (fun e => e.profile = .main)).or pool.head?

def maxTrackedSources : Nat := 2000

/-- The idle entry touched the longest ago, which `evictOneIdle` gives up. -/
def oldestIdle (entries : List (SourceKey × SourceEntry)) : Option SourceKey :=
  (entries.foldl (fun oldest entry =>
    if entry.2.consumers.length > 0 then oldest
    else
      match oldest with
      | none => some (entry.1, entry.2.touchedAtMs)
      | some (_, oldestAt) =>
        if entry.2.touchedAtMs < oldestAt then some (entry.1, entry.2.touchedAtMs) else oldest)
    (none : Option (SourceKey × ℚ))).map Prod.fst

def newEntry (cameraId : String) (profile : SourceProfile) (now : ℚ) : SourceEntry where
  cameraId := cameraId
  profile := profile
  state := .idle
  consumers := []
  publishedUrl := none
  transport := none
  lastPacketAtMs := none
  lastFrameAtMs := none
  consecutiveFailures := 0
  attempt := 0
  lastBackoffMs := none
  nextAttemptAtMs := none
  circuitOpenUntilMs := none
  circuitCooldownMs := none
  degraded := false
  createdAtMs := now
  touchedAtMs := now

/-- The gateway with an entry for the key, and that entry; nothing where the
registry is full of entries in use. -/
def ensureEntry (now : ℚ) (cameraId : String) (profile : SourceProfile) (g : Gateway) :
    Option (Gateway × SourceEntry) :=
  match g.entryAt (cameraId, profile) with
  | some existing => some (g, existing)
  | none =>
    let fresh := newEntry cameraId profile now
    if g.entries.length < maxTrackedSources then
      some (g.setEntry (cameraId, profile) fresh, fresh)
    else
      match oldestIdle g.entries with
      | none => none
      | some oldest =>
        let evicted := { g with entries := JsMap.erase g.entries oldest }
        some (evicted.setEntry (cameraId, profile) fresh, fresh)

/-- The common shape of the `note…` operations: nothing while the gateway is off
or no entry can be had, and otherwise a change of the key's entry. -/
def onEntry (s : Settings) (now : ℚ) (cameraId : String) (profile : Option String)
    (change : SourceEntry → SourceEntry) (g : Gateway) : Gateway :=
  if ¬ s.isEnabled then g
  else
    match ensureEntry now cameraId (normalizeSourceProfile profile) g with
    | none => g
    | some (g', e) => g'.setEntry (cameraId, normalizeSourceProfile profile) (change e)

/-! ## Routing -/

inductive SourceOrigin where
  | direct
  | gateway
  deriving DecidableEq, Repr

inductive SourceDecisionReason where
  | gatewayDisabled
  | consumerRequiresDirect
  | noActiveSource
  | noPublishedSource
  | sourceStalled
  | circuitOpen
  | gatewayPublished
  | capReusedProfile
  deriving DecidableEq, Repr

structure ResolveSourceInput where
  cameraId : String
  profile : Option String
  consumer : String
  directUrl : String
  internalUrl : Option String := none
  requireDirect : Bool := false

/-- What a resolve answers. -/
structure SourceDecision where
  url : String
  origin : SourceOrigin
  reason : SourceDecisionReason
  cameraId : String
  consumer : String
  requestedProfile : SourceProfile
  servedProfile : SourceProfile
  atMs : ℚ
  deriving DecidableEq

/-- The entry that would serve a request, and why: the one of its profile, or,
where the camera's connections are all taken, one already open. -/
def sourceFor (s : Settings) (input : ResolveSourceInput) (g : Gateway) :
    Option (SourceEntry × SourceDecisionReason) :=
  let requestedProfile := normalizeSourceProfile input.profile
  match activeEntry g input.cameraId requestedProfile with
  | some e => some (e, .gatewayPublished)
  | none =>
    let others := (activeEntries g input.cameraId).filter (fun e => e.profile ≠ requestedProfile)
    if s.maxExternalConnectionsPerCamera ≤ others.length then
      (pickSubstitute others).map (fun e => (e, .capReusedProfile))
    else none

/-- The URL an entry is published at: what the caller knows of its own profile
first, then what was registered. The empty text is none. -/
def publishedUrlFor (input : ResolveSourceInput) (e : SourceEntry) : Option String :=
  let url :=
    if e.profile = normalizeSourceProfile input.profile then input.internalUrl <|> e.publishedUrl
    else e.publishedUrl
  url.filter (· ≠ "")

def resolveSourceUrl (s : Settings) (now : ℚ) (input : ResolveSourceInput) (g : Gateway) :
    SourceDecision :=
  let requestedProfile := normalizeSourceProfile input.profile
  let decide_ (url : String) (origin : SourceOrigin) (reason : SourceDecisionReason)
      (servedProfile : SourceProfile) : SourceDecision :=
    { url := url
      origin := origin
      reason := reason
      cameraId := input.cameraId
      consumer := input.consumer
      requestedProfile := requestedProfile
      servedProfile := servedProfile
      atMs := now }
  let direct := decide_ input.directUrl .direct
  if ¬ s.isEnabled then direct .gatewayDisabled requestedProfile
  else if input.requireDirect then direct .consumerRequiresDirect requestedProfile
  else
    match sourceFor s input g with
    | none => direct .noActiveSource requestedProfile
    | some (e, reason) =>
      if e.cooling now then direct .circuitOpen e.profile
      else if e.state = .stalled ∨ e.state = .backoff then direct .sourceStalled e.profile
      else
        match publishedUrlFor input e with
        | none => direct .noPublishedSource e.profile
        | some published => decide_ published .gateway reason e.profile

def registerPublishedSource (s : Settings) (now : ℚ) (cameraId : String) (profile : Option String)
    (url : Option String) (g : Gateway) : Gateway :=
  onEntry s now cameraId profile
    (fun e => { e with publishedUrl := url.filter (trim · ≠ ""), touchedAtMs := now }) g

def clearPublishedSource (s : Settings) (now : ℚ) (cameraId : String) (profile : Option String)
    (g : Gateway) : Gateway :=
  registerPublishedSource s now cameraId profile none g

/-! ## Reference counting -/

/-- What an acquire answers. -/
structure SourceLease where
  id : LeaseId
  cameraId : String
  consumer : String
  requestedProfile : SourceProfile
  servedProfile : SourceProfile
  gatewayEnabled : Bool
  capped : Bool
  deriving DecidableEq

/-- The open entry an acquire is put on instead of opening one more. -/
def acquireSubstitute (s : Settings) (cameraId : String) (profile : SourceProfile) (g : Gateway) :
    Option SourceEntry :=
  if (g.entryAt (cameraId, profile)).any (fun e => e.consumers.length > 0) then none
  else
    let others := (activeEntries g cameraId).filter (fun e => e.profile ≠ profile)
    if s.maxExternalConnectionsPerCamera ≤ others.length then pickSubstitute others else none

/-- The consumer joins an entry, which starts connecting if it was idle. -/
def attach (id : LeaseId) (consumer : String) (now : ℚ) (e : SourceEntry) : SourceEntry :=
  { e with
    state := if e.state = .idle then .connecting else e.state
    consumers := JsMap.set e.consumers id consumer
    touchedAtMs := now }

def acquire (s : Settings) (now : ℚ) (cameraId : String) (profile : Option String)
    (consumer : String) (g : Gateway) : Gateway × SourceLease :=
  let requestedProfile := normalizeSourceProfile profile
  let id := g.leaseSeq + 1
  let g := { g with leaseSeq := id }
  let inert (enabled : Bool) : SourceLease :=
    ⟨id, cameraId, consumer, requestedProfile, requestedProfile, enabled, false⟩
  if ¬ s.isEnabled then (g, inert false)
  else
    let substitute := acquireSubstitute s cameraId requestedProfile g
    let found : Option (Gateway × SourceEntry) :=
      match substitute with
      | some e => some (g, e)
      | none => ensureEntry now cameraId requestedProfile g
    match found with
    | none => (g, inert true)
    | some (g, e) =>
      let capped := substitute.isSome
      let joined := g.setEntry e.key (attach id consumer now e)
      ({ joined with
          leases := JsMap.set joined.leases id e.key
          counters := { joined.counters with
            acquisitions := joined.counters.acquisitions + 1
            cappedAcquisitions := joined.counters.cappedAcquisitions + if capped then 1 else 0 } },
        ⟨id, cameraId, consumer, requestedProfile, e.profile, true, capped⟩)

/-- A consumer leaves. The last one leaves an open circuit open. -/
def detach (id : LeaseId) (now : ℚ) (e : SourceEntry) : SourceEntry :=
  let consumers := JsMap.erase e.consumers id
  { e with
    state :=
      if consumers.length = 0 then (if e.cooling now then .circuitOpen else .idle) else e.state
    consumers := consumers
    touchedAtMs := now }

def release (now : ℚ) (id : LeaseId) (g : Gateway) : Gateway :=
  match JsMap.get? g.leases id with
  | none => g
  | some key =>
    let g := { g with leases := JsMap.erase g.leases id }
    match g.entryAt key with
    | none => g
    | some e =>
      { g.setEntry key (detach id now e) with
        counters := { g.counters with releases := g.counters.releases + 1 } }

/-! ## The state machine -/

def noteConnecting (s : Settings) (now : ℚ) (cameraId : String) (profile : Option String)
    (g : Gateway) : Gateway :=
  onEntry s now cameraId profile (fun e => { e with state := .connecting, touchedAtMs := now }) g

structure ProgressInfo where
  transport : Option String := none
  frame : Bool := false

def readTransport (transport : Option String) : Option RtspTransport :=
  let text := (trim (transport.getD "")).toLower
  if text = "tcp" then some .tcp else if text = "udp" then some .udp else none

def progressed (info : ProgressInfo) (now : ℚ) (e : SourceEntry) : SourceEntry :=
  { e with
    state := .online
    lastPacketAtMs := some now
    lastFrameAtMs := if info.frame then some now else e.lastFrameAtMs
    transport := readTransport info.transport <|> e.transport
    consecutiveFailures := 0
    attempt := 0
    lastBackoffMs := none
    nextAttemptAtMs := none
    circuitOpenUntilMs := none
    circuitCooldownMs := none
    degraded := false
    touchedAtMs := now }

/-- Whether an operation on the key finds a degraded entry there. -/
def degradedAt (s : Settings) (cameraId : String) (profile : Option String) (g : Gateway) : Bool :=
  s.isEnabled && (g.entryAt (cameraId, normalizeSourceProfile profile)).any (·.degraded)

def noteProgress (s : Settings) (now : ℚ) (cameraId : String) (profile : Option String)
    (info : ProgressInfo) (g : Gateway) : Gateway :=
  let noted := onEntry s now cameraId profile (progressed info now) g
  { noted with counters := { noted.counters with
      recoveries := noted.counters.recoveries + if degradedAt s cameraId profile g then 1 else 0 } }

/-- What a failure makes of an entry: at the threshold the circuit opens, its
cooldown doubled at each reopening up to a cap; below it, a backoff. -/
def failed (s : Settings) (now random : ℚ) (e : SourceEntry) : SourceEntry :=
  let e := { e with
    consecutiveFailures := e.consecutiveFailures + 1
    attempt := e.attempt + 1
    degraded := true
    touchedAtMs := now }
  if s.threshold ≤ e.consecutiveFailures then
    let next := match e.circuitCooldownMs with
      | none => s.openMs
      | some cooldown => cooldown * 2
    let cooldown := min next s.maxOpenMs
    { e with
      circuitCooldownMs := some cooldown
      circuitOpenUntilMs := some (now + cooldown)
      nextAttemptAtMs := some (now + cooldown)
      lastBackoffMs := some cooldown
      state := .circuitOpen }
  else
    let delay := computeBackoffDelayMs s e.attempt random
    { e with
      lastBackoffMs := some delay
      nextAttemptAtMs := some (now + delay)
      state := .backoff }

/-- Whether a failure noted on the key opens its circuit. -/
def opensCircuit (s : Settings) (now : ℚ) (cameraId : String) (profile : Option String)
    (g : Gateway) : Bool :=
  s.isEnabled &&
    (ensureEntry now cameraId (normalizeSourceProfile profile) g).any
      (fun found => s.threshold ≤ found.2.consecutiveFailures + 1)

def noteFailure (s : Settings) (now : ℚ) (cameraId : String) (profile : Option String)
    (random : ℚ) (g : Gateway) : Gateway :=
  let noted := onEntry s now cameraId profile (failed s now random) g
  let counted :=
    s.isEnabled && (ensureEntry now cameraId (normalizeSourceProfile profile) g).isSome
  { noted with counters := { noted.counters with
      failures := noted.counters.failures + if counted then 1 else 0
      circuitOpens :=
        noted.counters.circuitOpens + if opensCircuit s now cameraId profile g then 1 else 0 } }

def canAttempt (s : Settings) (now : ℚ) (cameraId : String) (profile : Option String)
    (g : Gateway) : Bool :=
  if ¬ s.isEnabled then true
  else
    match g.entryAt (cameraId, normalizeSourceProfile profile) with
    | none => true
    | some e => !e.cooling now && !e.nextAttemptAtMs.any (fun next => now < next)

def stalls (s : Settings) (now : ℚ) (e : SourceEntry) : Bool :=
  e.state = .online && e.lastPacketAtMs.any (fun last => s.stallTimeout < now - last)

def tickEntry (s : Settings) (now : ℚ) (e : SourceEntry) : Option SourceEntry :=
  if stalls s now e then some { e with state := .stalled, degraded := true }
  else if e.consumers.length = 0 ∧ ¬ e.cooling now ∧ s.idleTtl < now - e.touchedAtMs then none
  else some e

def tick (s : Settings) (now : ℚ) (g : Gateway) : Gateway :=
  if ¬ s.isEnabled then g
  else
    { g with
      entries := g.entries.filterMap (fun entry => (tickEntry s now entry.2).map (entry.1, ·))
      counters := { g.counters with
        stalls := g.counters.stalls + (g.entries.filter (fun entry => stalls s now entry.2)).length } }

end Drac.CameraStream
