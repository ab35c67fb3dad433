import Drac.Lib.JsObject
import Drac.Lib.JsonLayout
import Drac.Access.AccessControl

/-
  What a licence allows.

  Correspondence:
    `commercial-policy.service.ts`   CommercialFeature, DEFAULT_RESTRICTIONS, STATUS_DEFAULTS,
      parseRestrictions, statusCaps, getPolicy, isAllowed ↔ the same names; the keys of
      RestrictionMap ↔ `Restriction`
    `cloud-connector.service.ts`   applyStatusCaps ↔ the same name; writeSetting of the licence
      ↔ `writeLicence`

  The settings are a table by key. What the Central sends is any JSON object; the connector
  writes it as text and the policy reads it back, so `parseRestrictions_stringify` is where the
  two services meet. `T` says how JSON numbers are written and read.
-/

namespace Drac.Licence.CommercialPolicy

open JsonLayout JsObject
open Drac.Access (UserRole)

abbrev Text := List Char

/-! ## The restrictions -/

inductive CommercialFeature where
  | localLive
  | localRecording
  | localPlayback
  | addCameras
  | aiAdvanced
  | aiMotion
  | exports
  deriving DecidableEq, Repr

inductive CommercialLicenseStatus where
  | unknown
  | active
  | grace
  | restricted
  | suspended
  deriving DecidableEq, Repr

/-- A key of `RestrictionMap`. -/
inductive Restriction where
  | feature (of : CommercialFeature)
  | adminAccess
  | cloudSupport
  | updates
  deriving DecidableEq

def CommercialFeature.name : CommercialFeature → Text
  | .localLive => "localLive".toList
  | .localRecording => "localRecording".toList
  | .localPlayback => "localPlayback".toList
  | .addCameras => "addCameras".toList
  | .aiAdvanced => "aiAdvanced".toList
  | .aiMotion => "aiMotion".toList
  | .exports => "exports".toList

def Restriction.name : Restriction → Text
  | .feature f => f.name
  | .adminAccess => "adminAccess".toList
  | .cloudSupport => "cloudSupport".toList
  | .updates => "updates".toList

abbrev RestrictionMap := Restriction → Bool

/-- `Partial<RestrictionMap>`, `none` where the key is missing. -/
abbrev PartialRestrictions := Restriction → Option Bool

/-- `{ ...base, ...updates }`. -/
def spread (base : RestrictionMap) (updates : PartialRestrictions) : RestrictionMap :=
  fun key => (updates key).getD (base key)

def defaultRestrictions : RestrictionMap := fun _ => true

/-- `{ ...DEFAULT_RESTRICTIONS, key: false, … }`. -/
def without (keys : List Restriction) : RestrictionMap :=
  fun key => if key ∈ keys then false else defaultRestrictions key

def statusDefaults : CommercialLicenseStatus → RestrictionMap
  | .unknown => defaultRestrictions
  | .active => defaultRestrictions
  | .grace => defaultRestrictions
  | .restricted => without [.feature .addCameras, .feature .aiAdvanced, .updates]
  | .suspended =>
    without [.feature .localLive, .feature .localRecording, .feature .addCameras,
      .feature .aiAdvanced, .cloudSupport, .updates]

/-- The whole map of the status, or none of it. -/
def statusCaps (status : CommercialLicenseStatus) : PartialRestrictions :=
  if status = .suspended then fun key => some (statusDefaults .suspended key)
  else if status = .restricted then fun key => some (statusDefaults .restricted key)
  else fun _ => none

def CommercialLicenseStatus.text : CommercialLicenseStatus → Text
  | .unknown => "UNKNOWN".toList
  | .active => "ACTIVE".toList
  | .grace => "GRACE".toList
  | .restricted => "RESTRICTED".toList
  | .suspended => "SUSPENDED".toList

def normalizeStatus (value : Option Text) : CommercialLicenseStatus :=
  if value = some "ACTIVE".toList then .active
  else if value = some "GRACE".toList then .grace
  else if value = some "RESTRICTED".toList then .restricted
  else if value = some "SUSPENDED".toList then .suspended
  else .unknown

@[simp] theorem normalizeStatus_text (status : CommercialLicenseStatus) :
    normalizeStatus (some status.text) = status := by
  cases status <;> decide

/-! ## The stored text -/

variable {ν : Type}

/-- The object of a list of members: a later member replaces an earlier one of its key. -/
def object (members : List (Text × JsValue ν)) : Obj Text (JsValue ν) :=
  Obj.putAll (fun m => some m.1) Prod.snd members Obj.empty

/-- `typeof value === 'boolean'`, and which. -/
def boolean? : JsValue ν → Option Bool
  | .bool b => some b
  | _ => none

/-- The entries of the parsed object that are known keys with a boolean. -/
def known : JsValue ν → PartialRestrictions
  | .obj members => fun key => ((object members).get? key.name).bind boolean?
  | _ => fun _ => none

def parseRestrictions (T : NumberText ν) (value : Option Text) : PartialRestrictions :=
  match value with
  | none => fun _ => none
  | some [] => fun _ => none
  | some text =>
    match parse T text with
    | some parsed => known parsed
    | none => fun _ => none

/-! ## The policy -/

/-- The table of settings, by `key`. -/
abbrev Settings := Obj Text Text

def licenseStatusKey : Text := "cloud.licenseStatus".toList
def licenseMessageKey : Text := "cloud.licenseMessage".toList
def restrictionsKey : Text := "cloud.restrictions".toList
def lastSyncAtKey : Text := "cloud.lastSyncAt".toList
def lastErrorKey : Text := "cloud.lastError".toList

def policyKeys : List Text :=
  [licenseStatusKey, licenseMessageKey, restrictionsKey, lastSyncAtKey, lastErrorKey]

structure Policy where
  licenseStatus : CommercialLicenseStatus
  licenseMessage : Option Text
  lastSyncAt : Option Text
  lastError : Option Text
  restrictions : RestrictionMap

/-- `value || null`. -/
def orNull (value : Option Text) : Option Text := value.filter (fun text => text ≠ [])

def getPolicy (T : NumberText ν) (table : Settings) : Policy :=
  let settings := table.retain (fun key => key ∈ policyKeys)
  let licenseStatus := normalizeStatus (settings.get? licenseStatusKey)
  let centralRestrictions := parseRestrictions T (settings.get? restrictionsKey)
  { licenseStatus := licenseStatus
    licenseMessage := orNull (settings.get? licenseMessageKey)
    lastSyncAt := orNull (settings.get? lastSyncAtKey)
    lastError := orNull (settings.get? lastErrorKey)
    restrictions :=
      spread (spread defaultRestrictions centralRestrictions) (statusCaps licenseStatus) }

def isAllowed (T : NumberText ν) (table : Settings) (feature : CommercialFeature) : Bool :=
  (getPolicy T table).restrictions (.feature feature) ≠ false

/-! ## The connector -/

/-- `{ ...restrictions, key: false, … }`. -/
def putFalse (keys : List Text) (restrictions : Obj Text (JsValue ν)) : Obj Text (JsValue ν) :=
  Obj.putAll some (fun _ => .bool false) keys restrictions

/-- The keys the connector puts to `false`. -/
def cappedKeys : CommercialLicenseStatus → List Text
  | .suspended =>
    ["localLive".toList, "localRecording".toList, "addCameras".toList, "aiAdvanced".toList,
      "cloudSupport".toList, "updates".toList]
  | .restricted => ["addCameras".toList, "aiAdvanced".toList, "updates".toList]
  | _ => []

def applyStatusCaps (status : CommercialLicenseStatus) (restrictions : Obj Text (JsValue ν)) :
    Obj Text (JsValue ν) :=
  if status = .suspended then putFalse (cappedKeys .suspended) restrictions
  else if status = .restricted then putFalse (cappedKeys .restricted) restrictions
  else restrictions

/-- What a heartbeat writes of the licence: the status and the text of the restrictions. -/
def writeLicence (table : Settings) (status : CommercialLicenseStatus) (restrictions : Text) :
    Settings :=
  (table.put licenseStatusKey status.text).put restrictionsKey restrictions

/-- `JSON.stringify(restrictions)`. -/
def restrictionsText (T : NumberText ν) (restrictions : Obj Text (JsValue ν)) : Text :=
  stringify T 0 0 (.obj restrictions.entries)

end Drac.Licence.CommercialPolicy
