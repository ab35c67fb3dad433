import Drac.Lib.Runs

/-
  What the Central asks of an installation, and what the installation says it applied.

  Correspondence (`server.js`, `ai-policy.js` ↔ Lean):
    licenseResponse, applyAiPolicyToRestrictions, bumpConfigRevision   ↔ the same names
    handlePatchAiPolicy, handlePatchCloudStorage   ↔ the same names
    the license route   ↔ `handlePatchLicense`
    handleHeartbeat     ↔ `handleHeartbeat`, for a body that has `configState`
  Correspondence (`cloud-connector.service.ts` ↔ Lean):
    applyStatusCaps     ↔ `applyStatusCaps`
    syncHeartbeat       ↔ `Phase`, a constructor an await, and `Label.send` to `outcomeWritten`
    collectPayload      ↔ `collectPayload`, its `configState`
    enforceRuntimeRestrictions, enforceAiRestrictions   ↔ `enforce`, `enforceAi`

  A heartbeat may be answered after the installation gave it up, and before or after later
  ones; an answer may get lost. `lastEnforced` is of the model: the restrictions last
  enforced with no error in any step.

  The answers are this Central's, so the keys of the AI policy are always in them.
-/

namespace Drac.Central.AppliedPolicy

open Runs

/-! ## Restrictions -/

inductive LicenseStatus where
  | active
  | grace
  | restricted
  | suspended
  deriving DecidableEq, Repr

structure AiPolicy where
  motion : Bool := true
  object : Bool := false
  face : Bool := false
  deriving DecidableEq

/-- The capabilities a request names. -/
structure AiPolicyPatch where
  motion : Option Bool := none
  object : Option Bool := none
  face : Option Bool := none

structure Restrictions where
  adminAccess : Bool
  cloudSupport : Bool
  updates : Bool
  addCameras : Bool
  aiAdvanced : Bool
  exports : Bool
  localLive : Bool
  localPlayback : Bool
  localRecording : Bool
  aiMotion : Bool
  aiObject : Bool
  aiFace : Bool
  deriving DecidableEq

/-- The license is the ceiling: the policy only restricts below it. -/
def applyAiPolicyToRestrictions (base : Restrictions) (wanted : AiPolicy) : Restrictions :=
  { base with
    aiMotion := wanted.motion
    aiObject := wanted.object && base.aiAdvanced
    aiFace := wanted.face && base.aiAdvanced
    aiAdvanced := base.aiAdvanced && (wanted.object || wanted.face) }

/-- The restrictions of a license, before the policy. -/
def licenseRestrictions (status : LicenseStatus) : Restrictions where
  adminAccess := true
  cloudSupport := status ≠ .suspended
  updates := status = .active || status = .grace
  addCameras := status ≠ .restricted && status ≠ .suspended
  aiAdvanced := status = .active || status = .grace
  exports := true
  localLive := status ≠ .suspended
  localPlayback := true
  localRecording := status ≠ .suspended
  aiMotion := true
  aiObject := false
  aiFace := false

inductive ApplyStatus where
  | unknown
  | applied
  | failed
  deriving DecidableEq, Repr

/-- A revision and whether it was applied: what is persisted, sent and shown. -/
@[ext]
structure ConfigState where
  appliedRevision : Nat
  applyStatus : ApplyStatus
  deriving DecidableEq

structure Item where
  licenseStatus : LicenseStatus
  aiPolicy : AiPolicy
  configRevision : Nat
  reported : ConfigState
  deriving DecidableEq

/-- What the Central answers to a heartbeat. -/
structure Response where
  licenseStatus : LicenseStatus
  restrictions : Restrictions
  configRevision : Nat
  deriving DecidableEq

def licenseResponse (item : Item) : Response where
  licenseStatus := item.licenseStatus
  restrictions := applyAiPolicyToRestrictions (licenseRestrictions item.licenseStatus) item.aiPolicy
  configRevision := item.configRevision

def applyStatusCaps (status : LicenseStatus) (restrictions : Restrictions) : Restrictions :=
  match status with
  | .suspended =>
    { restrictions with
      localLive := false, localRecording := false, addCameras := false, aiAdvanced := false,
      cloudSupport := false, updates := false }
  | .restricted =>
    { restrictions with addCameras := false, aiAdvanced := false, updates := false }
  | _ => restrictions

theorem applyStatusCaps_licenseResponse (item : Item) :
    applyStatusCaps (licenseResponse item).licenseStatus (licenseResponse item).restrictions =
      (licenseResponse item).restrictions := by
  obtain ⟨status, policy, revision, reported⟩ := item
  cases status <;> rfl

/-! ## The Central -/

def bumpConfigRevision (item : Item) : Item :=
  { item with configRevision := item.configRevision + 1 }

def handlePatchAiPolicy (patch : AiPolicyPatch) (item : Item) : Item :=
  bumpConfigRevision { item with
    aiPolicy := {
      motion := patch.motion.getD item.aiPolicy.motion
      object := patch.object.getD item.aiPolicy.object
      face := patch.face.getD item.aiPolicy.face } }

def handlePatchCloudStorage (item : Item) : Item := bumpConfigRevision item

def handlePatchLicense (status : LicenseStatus) (item : Item) : Item :=
  { item with licenseStatus := status }

def handleHeartbeat (configState : ConfigState) (item : Item) : Item × Response :=
  let item := { item with reported := configState }
  (item, licenseResponse item)

/-- The Central shows its current revision as applied. -/
def showsApplied (item : Item) : Prop :=
  item.reported = ⟨item.configRevision, .applied⟩

instance decidableShowsApplied (item : Item) : Decidable (showsApplied item) :=
  inferInstanceAs (Decidable (item.reported = _))

/-! ## The installation -/

/-- Where the connector is with an answer. -/
inductive Phase where
  | idle
  | awaiting (number : Nat)
  | answered (response : Response)
  | stoppingRecording (response : Response)
  /-- `clean`: no step of the enforcement has failed. -/
  | stoppingAi (response : Response) (clean : Bool)
  | recording (response : Response) (status : ApplyStatus)
  deriving DecidableEq

structure Heartbeat where
  number : Nat
  configState : ConfigState
  deriving DecidableEq

structure System where
  item : Item
  network : List Heartbeat
  sent : Nat
  phase : Phase
  settings : ConfigState
  lastEnforced : Option Restrictions
  deriving DecidableEq

/-- What is enforced of an answer. -/
def Response.enforced (r : Response) : Restrictions :=
  applyStatusCaps r.licenseStatus r.restrictions

/-- The `configState` of a heartbeat; settings that cannot be read count as none. -/
def collectPayload (readOk : Bool) (settings : ConfigState) : ConfigState :=
  if readOk then settings else ⟨0, .unknown⟩

/-- The enforcement is over; its errors were only logged. -/
def enforced (r : Response) (clean : Bool) (s : System) : System :=
  { s with
    phase := .recording r .applied
    lastEnforced := if clean then some r.enforced else s.lastEnforced }

def enforceAi (r : Response) (clean : Bool) (s : System) : System :=
  if r.enforced.aiMotion then enforced r clean s else { s with phase := .stoppingAi r clean }

def enforce (r : Response) (s : System) : System :=
  if r.enforced.localRecording then enforceAi r true s
  else { s with phase := .stoppingRecording r }

def writeOutcome (r : Response) (status : ApplyStatus) (statusOk revisionOk : Bool)
    (settings : ConfigState) : ConfigState where
  applyStatus := if statusOk then status else settings.applyStatus
  appliedRevision :=
    if status = .applied ∧ revisionOk then r.configRevision else settings.appliedRevision

/-- One step: a change in the panel, a heartbeat, an answer, or a step of enforcement. -/
inductive Label where
  | patchAiPolicy (patch : AiPolicyPatch)
  | patchCloudStorage
  | patchLicense (status : LicenseStatus)
  | send (readOk : Bool)
  | deliver (k : Nat)
  | giveUp
  | settingsWritten (ok : Bool)
  | recordingStopped (ok : Bool)
  | aiStopped (ok : Bool)
  | outcomeWritten (statusOk revisionOk : Bool)
  | restart

/-- The Central answers a heartbeat that reached it; nobody may wait for the answer. -/
def deliver (h : Heartbeat) (k : Nat) (s : System) : System :=
  let answer := handleHeartbeat h.configState s.item
  { s with
    item := answer.1
    network := s.network.eraseIdx k
    phase := if s.phase = .awaiting h.number then .answered answer.2 else s.phase }

def step (s : System) : Label → Option System
  | .patchAiPolicy patch => some { s with item := handlePatchAiPolicy patch s.item }
  | .patchCloudStorage => some { s with item := handlePatchCloudStorage s.item }
  | .patchLicense status => some { s with item := handlePatchLicense status s.item }
  | .send readOk =>
    if s.phase = .idle then
      some { s with
        network := s.network ++ [⟨s.sent, collectPayload readOk s.settings⟩]
        sent := s.sent + 1
        phase := .awaiting s.sent }
    else none
  | .deliver k => (s.network[k]?).map (deliver · k s)
  | .giveUp =>
    match s.phase with
    | .awaiting _ | .answered _ => some { s with phase := .idle }
    | _ => none
  | .settingsWritten ok =>
    match s.phase with
    | .answered r => some (if ok then enforce r s else { s with phase := .recording r .failed })
    | _ => none
  | .recordingStopped ok =>
    match s.phase with
    | .stoppingRecording r => some (enforceAi r ok s)
    | _ => none
  | .aiStopped ok =>
    match s.phase with
    | .stoppingAi r clean => some (enforced r (clean && ok) s)
    | _ => none
  | .outcomeWritten statusOk revisionOk =>
    match s.phase with
    | .recording r status =>
      some { s with
        phase := .idle
        settings := writeOutcome r status statusOk revisionOk s.settings }
    | _ => none
  | .restart => some { s with phase := .idle }

def newSystem (item : Item) : System where
  item := { item with reported := ⟨0, .unknown⟩ }
  network := []
  sent := 0
  phase := .idle
  settings := ⟨0, .unknown⟩
  lastEnforced := none

/-- An installation and the Central, before the first heartbeat. -/
def policyMachine : Machine System Label where
  init s := ∃ item, s = newSystem item
  step := step

end Drac.Central.AppliedPolicy
