import Drac.Lib.Runs
import Drac.Access.AccessControl
import Drac.Recordings.Protection

/-
  The record of an investigation, and what its users do with it.

  Correspondence (`investigations.service.ts` ↔ Lean):
    addActivity, getActiveLegalHold, assertAccessible, normalizeLifecycle   ↔ the same names
    the methods that write                          ↔ `Request`, their writes `writes`
    SERVER_OWNED_INVESTIGATION_ITEM_TYPES           ↔ `serverOwned`; `addItem` refuses them as
                                                      `CreateInvestigationItemDto` does
    setPackageStatus (evidence-export.processor.ts) ↔ `Label.package`
    getProtectionSets (retention.service.ts)        ↔ `retentionHold`

  A call looks at the tables and then writes, one row after another; it may fail before any
  of its writes (`done`). Ids are generated and never used again. A request says `none` for
  `undefined`. `lastHold` is for the statements: what the last `setLegalHold` of each
  investigation set. `updatedAt`, which nothing reads, is left out.
-/

namespace Drac.Investigations

open Runs
open Recordings (LegalHold InvestigationItem holdRows latestHoldByInvestigation textsOf truthy)

/-! ## Tables -/

structure Item extends InvestigationItem where
  label : String
  cameraId : Option String
  cameraName : Option String
  timestamp : Int
  notes : Option String

structure Investigation where
  id : String
  title : String
  status : String
  summary : Option String
  createdByUserId : Option String

structure AuthUser where
  id : String
  name : String
  role : Access.UserRole

def serverOwned : List String :=
  ["export_package", "export_request", "legal_hold", "activity", "lifecycle", "case_meta"]

/-- The tables of investigations, the ids given out and the queue. -/
structure CaseRecord where
  investigations : List Investigation
  items : List Item
  used : List String
  queue : List String
  lastHold : List (String × LegalHold)

/-! ## Texts -/

/-- `text?.trim() || null`. -/
def trimmed (text : Option String) : Option String := (text.map JsText.trim).filter (· ≠ "")

/-- `toUpperCase` as far as the statuses are concerned: of the letters outside ASCII, the
dotless i and the long s become letters of theirs. -/
def upperChar (c : Char) : Char :=
  if c = 'ı' then 'I' else if c = 'ſ' then 'S' else c.toUpper

def allowedLifecycle : List String := ["OPEN", "IN_REVIEW", "PENDING_APPROVAL", "CLOSED", "ARCHIVED"]

def normalizeLifecycle (status : Option String) : String :=
  let raw := String.ofList ((JsText.trim (status.getD "OPEN")).toList.map upperChar)
  if raw = "ACTIVE" then "IN_REVIEW"
  else if raw = "REVIEW" then "IN_REVIEW"
  else if raw ∈ allowedLifecycle then raw
  else "OPEN"

def text (s : String) : Json.Value := .str s.toList

def orNull (s : Option String) : Json.Value := (s.map text).getD .null

/-! ## The hold in force -/

def noHold : LegalHold := ⟨false, none, [], [], []⟩

/-- A hold as its metadata say. -/
def holdOf (v : Json.Value) : LegalHold where
  enabled := (Json.field v "enabled".toList).any truthy
  reason := (Json.textField v "reason".toList).map String.ofList
  recordingIds := textsOf v "recordingIds"
  clipIds := textsOf v "clipIds"
  itemIds := textsOf v "itemIds"

def latestHold (items : List Item) (investigationId : String) : Option InvestigationItem :=
  (holdRows (items.map (·.toInvestigationItem))).find? (fun item =>
    item.investigationId = investigationId)

def getActiveLegalHold (items : List Item) (investigationId : String) : LegalHold :=
  match (latestHold items investigationId).bind (·.metadata) with
  | none => noHold
  | some v => holdOf v

/-- What the retention pass takes the investigation's hold to protect. -/
def retentionHold (items : List Item) (investigationId : String) : Recordings.ProtectionSets :=
  match JsMap.get? (latestHoldByInvestigation (holdRows (items.map (·.toInvestigationItem))))
      investigationId with
  | none => Recordings.noProtection
  | some metadata => Recordings.holdProtection metadata

/-- The hold a request asks for, `none` where `dto.reason.trim` is no function. -/
def requestedHold (dto : Json.Value) : Option LegalHold :=
  let hold (reason : Option String) : LegalHold := {
    enabled := (Json.field dto "enabled".toList).any truthy
    reason := trimmed reason
    recordingIds := textsOf dto "recordingIds"
    clipIds := textsOf dto "clipIds"
    itemIds := textsOf dto "itemIds" }
  match Json.field dto "reason".toList with
  | none | some .null => some (hold none)
  | some (.str reason) => some (hold (some (String.ofList reason)))
  | _ => none

/-! ## Requests -/

structure ItemDto where
  type : String
  label : String
  cameraId : Option String
  cameraName : Option String
  eventId : Option String
  recordingId : Option String
  timestamp : Int
  notes : Option String
  metadata : Option Json.Value

structure BookmarkDto where
  label : String
  timestamp : Int
  cameraId : Option String
  cameraName : Option String
  notes : Option String

/-- `dto.notes`, which may be `null` as well. -/
inductive Notes where
  | absent
  | null
  | text (s : String)

structure MetaDto where
  priority : Option String
  classification : Option String
  ownerUserId : Option String
  ownerUserName : Option String
  participants : List (String × String)

/-- The calls of the users. -/
inductive Request where
  | create (title : String) (status summary : Option String)
  | update (investigationId : String) (title status summary : Option String)
  | addItem (investigationId : String) (dto : ItemDto)
  | updateItem (investigationId itemId : String) (notes : Notes)
  | removeItem (investigationId itemId : String)
  | addBookmark (investigationId : String) (dto : BookmarkDto)
  | addNote (investigationId note : String)
  | transitionLifecycle (investigationId : String) (status : String) (summary note : Option String)
  | setLegalHold (investigationId : String) (dto : Json.Value)
  | createExportRequest (investigationId : String) (reason format : Option String)
      (itemIds recordingIds clipIds : List String)
  | reviewExportRequest (investigationId requestId decision : String) (reason : Option String)
  | executeExportRequest (investigationId requestId : String) (reason : Option String)
  | enqueueRetryPendingSignatures (investigationId : String)
  | upsertCaseMeta (investigationId : String) (dto : MetaDto)

/-- One write of a call. -/
inductive Write where
  | putInvestigation (investigation : Investigation) (item : Option Item)
  | createItem (item : Item)
  | setNotes (id : String) (notes : Option String)
  | setMetadata (id : String) (metadata : Json.Value)
  | deleteItem (id : String)
  | enqueue (packageItemId : String)

/-- The moment of a call and the ids it generates. -/
structure Moment where
  now : Int
  mainId : String
  activityId : String

variable (iso : Int → List Char)

def newItem (id investigationId type label : String) (at_ : Moment) (timestamp : Int)
    (notes : Option String) (metadata : Option Json.Value) : Item where
  id := id
  investigationId := investigationId
  type := type
  eventId := none
  recordingId := none
  metadata := metadata
  createdAt := at_.now
  label := label
  cameraId := none
  cameraName := none
  timestamp := timestamp
  notes := notes

def actor (user : AuthUser) : Json.Value :=
  .obj [("actorUserId".toList, text user.id), ("actorUserName".toList, text user.name)]

def addActivity (at_ : Moment) (user : AuthUser) (investigationId label : String)
    (notes : Option String) : Write :=
  .createItem (newItem at_.activityId investigationId "activity" label at_ at_.now (trimmed notes)
    (some (actor user)))

def notFound : String := "Investigation não encontrada."

def assertAccessible (r : CaseRecord) (user : AuthUser) (id : String) : Except String Investigation :=
  match r.investigations.find? (fun inv => inv.id = id) with
  | none => .error notFound
  | some inv =>
    if user.role = .admin ∨ user.role = .superAdmin then .ok inv
    else if inv.createdByUserId = some user.id then .ok inv
    else .error notFound

def findItem (r : CaseRecord) (investigationId itemId : String) : Option Item :=
  r.items.find? (fun item => item.id = itemId && item.investigationId = investigationId)

def findRequest (r : CaseRecord) (investigationId requestId : String) : Option Item :=
  r.items.find? (fun item => item.id = requestId && item.investigationId = investigationId &&
    item.type = "export_request")

/-- `hold.enabled && hold.itemIds.includes(itemId)`. -/
def keptByHold (r : CaseRecord) (investigationId itemId : String) : Bool :=
  let hold := getActiveLegalHold r.items investigationId
  hold.enabled && itemId ∈ hold.itemIds

def holdPayload (hold : LegalHold) (user : AuthUser) (now : Int) : Json.Value :=
  .obj [("enabled".toList, .bool hold.enabled), ("reason".toList, orNull hold.reason),
    ("recordingIds".toList, Recordings.textsValue hold.recordingIds),
    ("clipIds".toList, Recordings.textsValue hold.clipIds),
    ("itemIds".toList, Recordings.textsValue hold.itemIds),
    ("updatedByUserId".toList, text user.id), ("updatedByUserName".toList, text user.name),
    ("updatedAt".toList, .str (iso now))]

def holdLabel (hold : LegalHold) : String :=
  if hold.enabled then "Legal hold ativado" else "Legal hold desativado"

/-- The members of a row's metadata, `{}` where it has none. -/
def membersOf : Option Json.Value → List (List Char × Json.Value)
  | some (.obj members) => members
  | _ => []

def hasStatus (item : Item) (status : String) : Bool :=
  match JsMap.get? (membersOf item.metadata) "status".toList with
  | some (.str s) => s = status.toList
  | _ => false

def lifecycleItem (at_ : Moment) (user : AuthUser) (investigationId previousStatus nextStatus : String)
    (note : Option String) : Item :=
  newItem at_.mainId investigationId "lifecycle"
    (if nextStatus = "CLOSED" then "Caso fechado" else "Status alterado para " ++ nextStatus)
    at_ at_.now (trimmed note)
    (some (.obj ([("actorUserId".toList, text user.id), ("actorUserName".toList, text user.name),
      ("previousStatus".toList, text previousStatus), ("nextStatus".toList, text nextStatus),
      ("changedAt".toList, .str (iso at_.now))] ++
      if nextStatus = "CLOSED" then
        [("closedAt".toList, .str (iso at_.now)), ("closedByUserId".toList, text user.id),
          ("closedByUserName".toList, text user.name),
          ("closureNote".toList, orNull (trimmed note))]
      else [])))

def exportRequestMeta (user : AuthUser) (reason : String) (format : Option String)
    (itemIds recordingIds clipIds : List String) : Json.Value :=
  .obj [("status".toList, text "PENDING"), ("format".toList, text (format.getD "MP4")),
    ("requestedByUserId".toList, text user.id), ("requestedByUserName".toList, text user.name),
    ("reason".toList, text reason), ("itemIds".toList, Recordings.textsValue itemIds),
    ("recordingIds".toList, Recordings.textsValue recordingIds),
    ("clipIds".toList, Recordings.textsValue clipIds), ("reviewedByUserId".toList, .null),
    ("reviewedByUserName".toList, .null), ("reviewedAt".toList, .null)]

/-- `{ ...metadata, ...patch }`. -/
def patched (metadata : Option Json.Value) (patch : List (List Char × Json.Value)) : Json.Value :=
  .obj (patch.foldl (fun m e => JsMap.set m e.1 e.2) (membersOf metadata))

def reviewPatch (user : AuthUser) (decision reason : String) (now : Int) :
    List (List Char × Json.Value) :=
  [("status".toList, text decision), ("decisionReason".toList, text reason),
    ("reviewedByUserId".toList, text user.id), ("reviewedByUserName".toList, text user.name),
    ("reviewedAt".toList, .str (iso now))]

def packageMeta (user : AuthUser) (requestId : String) (now : Int) : Json.Value :=
  .obj [("requestId".toList, text requestId), ("status".toList, text "QUEUED"),
    ("progress".toList, .num 0), ("queuedAt".toList, .str (iso now)),
    ("queuedByUserId".toList, text user.id), ("queuedByUserName".toList, text user.name)]

def caseMeta (user : AuthUser) (dto : MetaDto) : Json.Value :=
  let ownerUserId := trimmed dto.ownerUserId
  let ownerUserName := trimmed dto.ownerUserName
  let participants := (dto.participants.map (fun p => (JsText.trim p.1, JsText.trim p.2))).filter
    (fun p => p.1 ≠ "" ∧ p.2 ≠ "")
  .obj [("priority".toList, text (dto.priority.getD "NORMAL")),
    ("classification".toList, text ((trimmed (some (dto.classification.getD "GENERAL"))).getD "GENERAL")),
    ("owner".toList,
      match ownerUserId, ownerUserName with
      | some id, some name => .obj [("userId".toList, text id), ("userName".toList, text name)]
      | _, _ => .null),
    ("participants".toList, .arr (participants.map (fun p =>
      .obj [("userId".toList, text p.1), ("userName".toList, text p.2)]))),
    ("updatedByUserId".toList, text user.id), ("updatedByUserName".toList, text user.name)]

def awaitsSignature (item : Item) : Bool :=
  hasStatus item "PENDING_SIGNATURE" &&
    match JsMap.get? (membersOf item.metadata) "payload".toList with
    | some (.obj _) | some (.arr _) => true
    | _ => false

/-- The jobs `enqueueRetryPendingSignatures` adds: of the two hundred newest packages. -/
def retryIds (r : CaseRecord) (investigationId : String) : List String :=
  ((((r.items.filter (fun item => item.investigationId = investigationId &&
      item.type = "export_package")).insertionSort (fun a b => b.createdAt ≤ a.createdAt)).take
    200).filter awaitsSignature).map (·.id)

/-- The writes of a request, or the message it is refused with. -/
def writes (r : CaseRecord) (user : AuthUser) (at_ : Moment) : Request → Except String (List Write)
  | .create title status summary => .ok [
      .putInvestigation
        ⟨at_.mainId, JsText.trim title, normalizeLifecycle status, trimmed summary, some user.id⟩ none,
      addActivity at_ user at_.mainId "Investigation criada" summary]
  | .update id title status summary => do
    let inv ← assertAccessible r user id
    .ok [
      .putInvestigation
        { inv with
          title := (title.map JsText.trim).getD inv.title
          status := if status.isSome then normalizeLifecycle status else inv.status
          summary := if summary.isSome then trimmed summary else inv.summary } none,
      addActivity at_ user id "Investigation atualizada" none]
  | .addItem id dto => do
    if dto.type ∈ serverOwned then .error "type reservado ao servidor."
    let _ ← assertAccessible r user id
    .ok [
      .createItem {
        newItem at_.mainId id dto.type (JsText.trim dto.label) at_ dto.timestamp (trimmed dto.notes)
          dto.metadata with
        cameraId := dto.cameraId
        cameraName := dto.cameraName
        eventId := dto.eventId
        recordingId := dto.recordingId },
      addActivity at_ user id ("Evidência adicionada (" ++ dto.type ++ ")") (some dto.label)]
  | .updateItem id itemId notes => do
    let _ ← assertAccessible r user id
    match findItem r id itemId with
    | none => .error "Item de evidência não encontrado."
    | some item =>
      let activity := addActivity at_ user id "Evidência atualizada" (some item.label)
      match notes with
      | .null => .error "Cannot read properties of null"
      | .absent => .ok [activity]
      | .text s => .ok [.setNotes itemId (trimmed (some s)), activity]
  | .removeItem id itemId => do
    let _ ← assertAccessible r user id
    if keptByHold r id itemId then .error "Item protegido por legal hold ativo."
    match findItem r id itemId with
    | none => .error "Item de evidência não encontrado."
    | some item =>
      .ok [.deleteItem itemId, addActivity at_ user id "Evidência removida" (some item.label)]
  | .addBookmark id dto => do
    let _ ← assertAccessible r user id
    .ok [
      .createItem {
        newItem at_.mainId id "bookmark" (JsText.trim dto.label) at_ dto.timestamp
          (trimmed dto.notes) none with
        cameraId := dto.cameraId
        cameraName := dto.cameraName },
      addActivity at_ user id "Bookmark adicionado" (some dto.label)]
  | .addNote id note => do
    let _ ← assertAccessible r user id
    match trimmed (some note) with
    | none => .error "Nota não pode ser vazia."
    | some clean => .ok [
        .createItem (newItem at_.mainId id "note" ("Nota de " ++ user.name) at_ at_.now (some clean)
          (some (actor user))),
        addActivity at_ user id "Nota adicionada" (some clean)]
  | .transitionLifecycle id status summary note => do
    let current ← assertAccessible r user id
    let nextStatus := normalizeLifecycle (some status)
    let previousStatus := normalizeLifecycle (some current.status)
    .ok (.putInvestigation
        { current with
          status := nextStatus
          summary := if summary.isSome then trimmed summary else current.summary }
        (some (lifecycleItem iso at_ user id previousStatus nextStatus note)) ::
      if nextStatus = "CLOSED" then
        [addActivity at_ user id "Caso fechado e auditado" (trimmed note)]
      else [])
  | .setLegalHold id dto => do
    let _ ← assertAccessible r user id
    match requestedHold dto with
    | none => .error "dto.reason?.trim is not a function"
    | some hold => .ok [
        .createItem (newItem at_.mainId id "legal_hold" (holdLabel hold) at_ at_.now hold.reason
          (some (holdPayload iso hold user at_.now))),
        addActivity at_ user id (holdLabel hold) hold.reason]
  | .createExportRequest id reason format itemIds recordingIds clipIds => do
    let _ ← assertAccessible r user id
    match trimmed reason with
    | none => .error "Motivo é obrigatório para solicitar exportação."
    | some reason => .ok [
        .createItem (newItem at_.mainId id "export_request"
          ("Solicitação de exportação (" ++ format.getD "MP4" ++ ")") at_ at_.now (some reason)
          (some (exportRequestMeta user reason format itemIds recordingIds clipIds))),
        addActivity at_ user id "Solicitação de exportação criada" (some reason)]
  | .reviewExportRequest id requestId decision reason => do
    let _ ← assertAccessible r user id
    if user.role ≠ .admin ∧ user.role ≠ .superAdmin then
      .error "Apenas ADMIN/SUPER_ADMIN podem aprovar ou rejeitar exportação."
    match findRequest r id requestId with
    | none => .error "Solicitação de exportação não encontrada."
    | some reqItem =>
      match trimmed reason with
      | none => .error "Motivo da decisão é obrigatório."
      | some reason => .ok [
          .setMetadata requestId
            (patched reqItem.metadata (reviewPatch iso user decision reason at_.now)),
          addActivity at_ user id ("Solicitação de exportação " ++
            if decision = "APPROVED" then "aprovada" else "rejeitada") (some reason)]
  | .executeExportRequest id requestId reason => do
    let _ ← assertAccessible r user id
    match trimmed reason with
    | none => .error "Motivo é obrigatório para executar exportação."
    | some reason =>
      match findRequest r id requestId with
      | none => .error "Solicitação de exportação não encontrada."
      | some reqItem =>
        if hasStatus reqItem "APPROVED" then .ok [
          .createItem {
            newItem at_.mainId id "export_package"
              ("Pacote exportado " ++ String.ofList (iso at_.now)) at_ at_.now (some reason)
              (some (packageMeta iso user requestId at_.now)) with
            eventId := some requestId },
          .enqueue at_.mainId,
          addActivity at_ user id "Execução de exportação enfileirada" (some reason)]
        else .error "Solicitação ainda não aprovada."
  | .enqueueRetryPendingSignatures id => do
    let _ ← assertAccessible r user id
    let ids := retryIds r id
    .ok (ids.map Write.enqueue ++ [addActivity at_ user id "Reprocessamento de assinatura enfileirado"
      (some ("itens=" ++ toString ids.length))])
  | .upsertCaseMeta id dto => do
    let _ ← assertAccessible r user id
    .ok [
      .createItem (newItem at_.mainId id "case_meta" "Metadados do caso" at_ at_.now none
        (some (caseMeta user dto))),
      addActivity at_ user id "Metadados do caso atualizados" none]

/-! ## Runs -/

def insertItem (r : CaseRecord) (item : Item) : Option CaseRecord :=
  if item.id ∈ r.used then none
  else some { r with items := r.items ++ [item], used := item.id :: r.used }

def changeItem (r : CaseRecord) (id : String) (f : Item → Item) : Option CaseRecord :=
  if r.items.any (fun item => item.id = id) then
    some { r with items := r.items.map (fun item => if item.id = id then f item else item) }
  else none

def Item.withNotes (notes : Option String) (item : Item) : Item := { item with notes }

def Item.withMetadata (metadata : Json.Value) (item : Item) : Item :=
  { item with metadata := some metadata }

def apply (r : CaseRecord) : Write → Option CaseRecord
  | .putInvestigation inv item =>
    let r := { r with
      investigations := inv :: r.investigations.filter (fun other => other.id ≠ inv.id) }
    match item with
    | none => some r
    | some item => insertItem r item
  | .createItem item => insertItem r item
  | .setNotes id notes => changeItem r id (Item.withNotes notes)
  | .setMetadata id metadata => changeItem r id (Item.withMetadata metadata)
  | .deleteItem id => some { r with items := r.items.filter (fun item => item.id ≠ id) }
  | .enqueue id => some { r with queue := r.queue ++ [id] }

def applyAll (r : CaseRecord) : List Write → CaseRecord
  | [] => r
  | w :: ws =>
    match apply r w with
    | none => r
    | some r => applyAll r ws

/-- The hold a call has set once its first write is done. -/
def holdSet (r : CaseRecord) (at_ : Moment) (done : Nat) : Request → List (String × LegalHold)
  | .setLegalHold id dto =>
    match requestedHold dto with
    | some hold => if 0 < done ∧ at_.mainId ∉ r.used then JsMap.set r.lastHold id hold else r.lastHold
    | none => r.lastHold
  | _ => r.lastHold

def perform (r : CaseRecord) (user : AuthUser) (at_ : Moment) (done : Nat) (request : Request) :
    CaseRecord :=
  match writes iso r user at_ request with
  | .error _ => r
  | .ok ws => { applyAll r (ws.take done) with lastHold := holdSet r at_ done request }

/-- One step: a call with so many of its writes done, or the worker. -/
inductive Label where
  | call (user : AuthUser) (request : Request) (at_ : Moment) (done : Nat)
  | package (packageItemId : String) (patch : List (List Char × Json.Value))

/-- The worker writes a package's status: `findUnique`, and an update if it is there. -/
def setPackageStatus (r : CaseRecord) (packageItemId : String)
    (patch : List (List Char × Json.Value)) : CaseRecord :=
  match r.items.find? (fun item => item.id = packageItemId) with
  | none => r
  | some item =>
    (changeItem r packageItemId (Item.withMetadata (patched item.metadata patch))).getD r

def step (r : CaseRecord) : Label → Option CaseRecord
  | .call user request at_ done => some (perform iso r user at_ done request)
  | .package packageItemId patch =>
    if packageItemId ∈ r.queue then some (setPackageStatus r packageItemId patch) else none

def caseMachine : Machine CaseRecord Label where
  init r := r = ⟨[], [], [], [], []⟩
  step := step iso

end Drac.Investigations
