import Drac.Lib.JsMap
import Drac.Lib.Runs
import Drac.Evidence.EvidenceService

/-
  The worker that writes evidence packages.

  Correspondence (`evidence-export.processor.ts`, `investigations.service.ts`,
  `EvidencePage.tsx` ↔ Lean):
    writePackageArtifact, setPackageStatus, getExportPackageDownload, verifyPackageFile
      ↔ the same names
    process, retrySingleSignature ↔ `advance`, an await a step

  What an await may bring is in the label: a time that has passed, a service started anew
  with other secrets, tables the other calls have changed in any way, and a fault, thrown by
  the operation awaited. A worker may stop at any await. The files are those below the
  packages' root; the audit log is left out.
-/

namespace Drac.Evidence

open JsonLayout Runs

variable {ν : Type}

/-! ## Tables -/

structure InvestigationItem (ν : Type) where
  id : Text
  investigationId : Text
  type : Text
  label : Text
  cameraId : Option Text
  recordingId : Option Text
  timestamp : Int
  metadata : JsValue ν

structure Investigation where
  id : Text
  title : Text

def utf8Length (s : Text) : Nat := (s.map Char.utf8Size).sum

mutual

/-- A value as a column of type `jsonb` gives it back: an object's keys by length and then
by their bytes. -/
def stored : JsValue ν → JsValue ν
  | .arr items => .arr (storedItems items)
  | .obj members =>
    .obj (fromEntries ((storedMembers members).insertionSort (fun a b =>
      utf8Length a.1 < utf8Length b.1 ∨ utf8Length a.1 = utf8Length b.1 ∧ a.1 ≤ b.1)))
  | .date iso => .str iso
  | .null => .null
  | .bool b => .bool b
  | .num n => .num n
  | .str s => .str s

def storedItems : List (JsValue ν) → List (JsValue ν)
  | [] => []
  | v :: vs => stored v :: storedItems vs

def storedMembers : Members ν → Members ν
  | [] => []
  | (k, v) :: ms => (k, stored v) :: storedMembers ms

end

/-- `value && typeof value === 'object'`. -/
def isObject : JsValue ν → Bool
  | .obj _ | .arr _ | .date _ => true
  | _ => false

/-- `{ ...value }`. -/
def spread : JsValue ν → Members ν
  | .obj members => members
  | .arr items => items.zipIdx.map (fun e => (Nat.toDigits 10 e.2, e.1))
  | _ => []

def member (v : JsValue ν) (name : Text) : Option (JsValue ν) :=
  match v with
  | .obj members => field members name
  | _ => none

/-- `value?.name === text`. -/
def hasText (v : JsValue ν) (name : Text) (s : String) : Bool :=
  match member v name with
  | some (.str t) => t = s.toList
  | _ => false

def textOrNull : Option Text → JsValue ν
  | some s => .str s
  | none => .null

/-! ## The worker -/

structure ExecuteExportJob where
  investigationId : Text
  requestId : Text
  packageItemId : Text
  executionReason : Text
  executedByUserId : Text
  executedByUserName : Text

structure RetrySignatureJob where
  investigationId : Text
  packageItemId : Text

/-- What the queue holds. -/
inductive Job where
  | executeExport (data : ExecuteExportJob)
  | retrySignature (data : RetrySignatureJob)
  | retryAllPendingSignatures

/-- Where a job is between two awaits. -/
inductive Phase (ν : Type) where
  | processing (data : ExecuteExportJob)
  | readRequest (data : ExecuteExportJob)
  | readInvestigation (data : ExecuteExportJob) (reqMeta : JsValue ν)
  | progress (data : ExecuteExportJob) (reqMeta : JsValue ν) (inv : Investigation)
      (items : List (InvestigationItem ν))
  | writing (data : ExecuteExportJob) (payload : JsValue ν) (signature : Members ν)
  | ready (data : ExecuteExportJob) (payload : JsValue ν) (signature artifact : Members ν)
  | writingUnsigned (data : ExecuteExportJob) (payload : JsValue ν) (error : Text)
  | pending (data : ExecuteExportJob) (payload : JsValue ν) (error : Text) (artifact : Members ν)
  | failing (data : ExecuteExportJob) (error : Text)
  | retryAll
  | retry (queue : List RetrySignatureJob)
  | rewriting (data : RetrySignatureJob) (payload : JsValue ν) (signature : Members ν)
      (queue : List RetrySignatureJob)
  | retryReady (data : RetrySignatureJob) (signature artifact : Members ν)
      (queue : List RetrySignatureJob)
  | retryFailed (data : RetrySignatureJob) (error : Text) (queue : List RetrySignatureJob)
  | ended

structure System (ν : Type) where
  clock : Int
  service : EvidenceService
  investigations : List Investigation
  items : List (InvestigationItem ν)
  files : List (Text × Text)
  jobs : List (Phase ν)

namespace System

def goto (s : System ν) (i : Nat) (phase : Phase ν) : System ν :=
  { s with jobs := s.jobs.set i phase }

def findItem (s : System ν) (id : Text) : Option (InvestigationItem ν) :=
  s.items.find? (fun item => item.id = id)

end System

variable (rt : Runtime ν) (root : Text)

/-- Year, month and day of the time as directories. -/
def dayPath (now : Int) : Text := ((rt.iso now).take 10).map (fun c => if c = '-' then '/' else c)

def packagePath (investigationId packageItemId : Text) (now : Int) : Text :=
  root ++ '/' :: (investigationId ++ '/' :: (dayPath rt now ++
    "/package-".toList ++ packageItemId ++ ".json".toList))

/-- `JSON.stringify(content, null, 2)`. -/
def artifactText (content : Members ν) : Text := stringify rt.numbers 2 0 (.obj content)

def writePackageArtifact (s : System ν) (investigationId packageItemId : Text)
    (content : Members ν) : System ν × Members ν :=
  let filePath := packagePath rt root investigationId packageItemId s.clock
  let raw := artifactText rt content
  ({ s with files := JsMap.set s.files filePath raw },
    [("filePath".toList, .str filePath),
      ("sizeBytes".toList, .num (rt.number (utf8Length raw))),
      ("sha256".toList, .str (rt.sha256Hex raw))])

/-- `{ ...metadata, ...patch }`. -/
def patched (metadata : JsValue ν) (patch : Members ν) : JsValue ν :=
  .obj (patch.foldl (fun m e => JsMap.set m e.1 e.2) (spread metadata))

def setPackageStatus (s : System ν) (packageItemId : Text) (patch : Members ν) : System ν :=
  let patch := patch ++ [("updatedAt".toList, .str (rt.iso s.clock))]
  { s with items := s.items.map (fun item =>
      if item.id = packageItemId then { item with metadata := stored (patched item.metadata patch) }
      else item) }

def evidenceTypes : List Text :=
  ["event".toList, "clip".toList, "snapshot".toList, "bookmark".toList]

/-- An item of the payload: its time is the `Date` the database gave. -/
def evidenceItem (i : InvestigationItem ν) : JsValue ν :=
  .obj [("id".toList, .str i.id), ("type".toList, .str i.type), ("label".toList, .str i.label),
    ("cameraId".toList, textOrNull i.cameraId), ("recordingId".toList, textOrNull i.recordingId),
    ("timestamp".toList, .date (rt.iso i.timestamp))]

def exportPayload (now : Int) (data : ExecuteExportJob) (reqMeta : JsValue ν)
    (inv : Investigation) (items : List (InvestigationItem ν)) : JsValue ν :=
  .obj [("investigationId".toList, .str inv.id), ("investigationTitle".toList, .str inv.title),
    ("exportedAt".toList, .str (rt.iso now)),
    ("executedByUserId".toList, .str data.executedByUserId),
    ("executedByUserName".toList, .str data.executedByUserName),
    ("executionReason".toList, .str data.executionReason),
    ("requestId".toList, .str data.requestId), ("request".toList, reqMeta),
    ("evidenceItems".toList,
      .arr ((items.filter (fun i => i.type ∈ evidenceTypes)).map (evidenceItem rt)))]

def signedContent (payload : JsValue ν) (signature : Members ν) : Members ν :=
  [("payload".toList, payload), ("signature".toList, .obj signature)]

def unsignedContent (payload : JsValue ν) (error : Text) : Members ν :=
  [("payload".toList, payload), ("signature".toList, .null), ("signatureError".toList, .str error)]

def readyPatch (signature artifact : Members ν) : Members ν :=
  [("status".toList, text "READY"), ("signature".toList, .obj signature),
    ("artifact".toList, .obj artifact), ("signatureError".toList, .null)]

/-- The packages without a signature, the two hundred oldest. -/
def pendingJobs (s : System ν) : List RetrySignatureJob :=
  ((s.items.filter (fun i => i.type = "export_package".toList &&
      hasText i.metadata "status".toList "PENDING_SIGNATURE")).take 200).map
    (fun i => ⟨i.investigationId, i.id⟩)

/-- The payload a package keeps while it waits for a signature. -/
def pendingPayload (s : System ν) (data : RetrySignatureJob) : Option (JsValue ν) :=
  (s.findItem data.packageItemId).bind (fun item =>
    if hasText item.metadata "status".toList "PENDING_SIGNATURE" then
      (member item.metadata "payload".toList).filter isObject
    else none)

/-- One await of a job is over; `fault` is the error it threw. -/
def advance (s : System ν) (i : Nat) (fault : Option Text) : Phase ν → System ν
  | .processing data =>
    match fault with
    | some _ => s.goto i .ended
    | none =>
      (setPackageStatus rt s data.packageItemId
        [("status".toList, text "PROCESSING"), ("progress".toList, .num (rt.number 20))]).goto i
        (.readRequest data)
  | .readRequest data =>
    match fault with
    | some _ => s.goto i .ended
    | none =>
      match s.items.find? (fun r => r.investigationId = data.investigationId &&
          r.id = data.requestId && r.type = "export_request".toList) with
      | none => s.goto i (.failing data "request_not_found".toList)
      | some reqItem =>
        let reqMeta := if isObject reqItem.metadata then reqItem.metadata else .obj []
        if hasText reqMeta "status".toList "APPROVED" then s.goto i (.readInvestigation data reqMeta)
        else s.goto i (.failing data "request_not_approved".toList)
  | .readInvestigation data reqMeta =>
    match fault with
    | some _ => s.goto i .ended
    | none =>
      match s.investigations.find? (fun inv => inv.id = data.investigationId) with
      | none => s.goto i (.failing data "investigation_not_found".toList)
      | some inv =>
        s.goto i (.progress data reqMeta inv
          ((s.items.filter (fun item => item.investigationId = inv.id)).insertionSort
            (fun a b => a.timestamp ≤ b.timestamp)))
  | .progress data reqMeta inv items =>
    match fault with
    | some _ => s.goto i .ended
    | none =>
      let s := setPackageStatus rt s data.packageItemId [("progress".toList, .num (rt.number 60))]
      let payload := exportPayload rt s.clock data reqMeta inv items
      match signPackage rt s.service (rt.iso s.clock) payload with
      | .ok signature => s.goto i (.writing data payload signature)
      | .error error => s.goto i (.writingUnsigned data payload error)
  | .writing data payload signature =>
    match fault with
    | some error => s.goto i (.writingUnsigned data payload error)
    | none =>
      let w := writePackageArtifact rt root s data.investigationId data.packageItemId
        (signedContent payload signature)
      w.1.goto i (.ready data payload signature w.2)
  | .ready data payload signature artifact =>
    match fault with
    -- thrown inside the `try`: the package is written again, without its signature
    | some error => s.goto i (.writingUnsigned data payload error)
    | none =>
      (setPackageStatus rt s data.packageItemId
        (("progress".toList, .num (rt.number 100)) :: ("payload".toList, payload) ::
          readyPatch signature artifact)).goto i .ended
  | .writingUnsigned data payload error =>
    match fault with
    | some _ => s.goto i .ended
    | none =>
      let w := writePackageArtifact rt root s data.investigationId data.packageItemId
        (unsignedContent payload error)
      w.1.goto i (.pending data payload error w.2)
  | .pending data payload error artifact =>
    match fault with
    | some _ => s.goto i .ended
    | none =>
      (setPackageStatus rt s data.packageItemId
        [("status".toList, text "PENDING_SIGNATURE"), ("progress".toList, .num (rt.number 100)),
          ("payload".toList, payload), ("signature".toList, .null),
          ("artifact".toList, .obj artifact), ("signatureError".toList, .str error)]).goto i .ended
  | .failing data error =>
    match fault with
    | some _ => s.goto i .ended
    | none =>
      (setPackageStatus rt s data.packageItemId
        [("status".toList, text "FAILED"), ("error".toList, .str error)]).goto i .ended
  | .retryAll =>
    match fault with
    | some _ => s.goto i .ended
    | none => s.goto i (.retry (pendingJobs s))
  | .retry [] => s.goto i .ended
  | .retry (data :: queue) =>
    match fault with
    | some _ => s.goto i .ended
    | none =>
      match pendingPayload s data with
      | none => s.goto i (.retry queue)
      | some payload =>
        match signPackage rt s.service (rt.iso s.clock) payload with
        | .ok signature => s.goto i (.rewriting data payload signature queue)
        | .error error => s.goto i (.retryFailed data error queue)
  | .rewriting data payload signature queue =>
    match fault with
    | some error => s.goto i (.retryFailed data error queue)
    | none =>
      let w := writePackageArtifact rt root s data.investigationId data.packageItemId
        (signedContent payload signature)
      w.1.goto i (.retryReady data signature w.2 queue)
  | .retryReady data signature artifact queue =>
    match fault with
    | some error => s.goto i (.retryFailed data error queue)
    | none =>
      (setPackageStatus rt s data.packageItemId
        (readyPatch signature artifact ++ [("retriedAt".toList, .str (rt.iso s.clock))])).goto i
        (.retry queue)
  | .retryFailed data error queue =>
    match fault with
    | some _ => s.goto i .ended
    | none =>
      (setPackageStatus rt s data.packageItemId
        [("status".toList, text "PENDING_SIGNATURE"), ("signatureError".toList, .str error),
          ("retriedAt".toList, .str (rt.iso s.clock))]).goto i (.retry queue)
  | .ended => s

/-! ## Runs -/

inductive Label (ν : Type) where
  | job (job : Job)
  | advance (i : Nat) (fault : Option Text)
  | giveUp (i : Nat)
  | tables (investigations : List Investigation) (items : List (InvestigationItem ν))
  | restart (service : EvidenceService)
  | clock (now : Int)

def Job.start : Job → Phase ν
  | .executeExport data => .processing data
  | .retrySignature data => .retry [data]
  | .retryAllPendingSignatures => .retryAll

def step (s : System ν) : Label ν → Option (System ν)
  | .job job => some { s with jobs := s.jobs ++ [job.start] }
  | .advance i fault => (s.jobs[i]?).map (advance rt root s i fault)
  | .giveUp i => some (s.goto i .ended)
  | .tables investigations items => some { s with investigations, items }
  | .restart service => some { s with service }
  | .clock now => if s.clock ≤ now then some { s with clock := now } else none

/-- The worker with no files and no jobs, over any tables. -/
def exportMachine : Machine (System ν) (Label ν) where
  init s := s.files = [] ∧ s.jobs = []
  step := step rt root

/-! ## What the users do with a package -/

/-- The row of a package, by both ids. -/
def findPackage (s : System ν) (investigationId packageItemId : Text) :
    Option (InvestigationItem ν) :=
  s.items.find? (fun item => item.id = packageItemId && item.investigationId = investigationId &&
    item.type = "export_package".toList)

def isReady (item : InvestigationItem ν) : Bool := hasText item.metadata "status".toList "READY"

def getExportPackageDownload (s : System ν) (investigationId packageItemId : Text) : Option Text :=
  (findPackage s investigationId packageItemId).bind (fun pkg =>
    match (member pkg.metadata "artifact".toList).bind (member · "filePath".toList) with
    | some (.str filePath) => JsMap.get? s.files filePath
    | _ => none)

/-- The file chosen on the page: parsed, and sent to be verified. -/
def verifyPackageFile (service : EvidenceService) (raw : Text) : Bool :=
  match parse rt.numbers raw with
  | some (.obj evidencePackage) => accepts rt service evidencePackage
  | _ => false

/-- The file verifies, and with another payload in it no longer. -/
def Covered (service : EvidenceService) (raw : Text) : Prop :=
  ∃ file, parse rt.numbers raw = some (.obj file) ∧ accepts rt service file = true ∧
    ∀ payload, field file "payload".toList ≠ some payload →
      accepts rt service (JsMap.set file "payload".toList payload) = false

end Drac.Evidence
