import Mathlib.Data.List.Infix
import Mathlib.Data.List.Sort
import Drac.Access.AccessAgreement
import Drac.Lib.Json

/-
  The list of alarms.

  Correspondence (`cameras.controller.ts`, `alarms.service.ts`, `cameras.service.ts` ↔ Lean):
    listAlarms       ↔ the same name, over the raw query
    list             ↔ `AlarmsService.list`, its where-clause `AlarmWhere`
    findAll          ↔ the same name
    the items        ↔ `AlarmItem`: the row, and what is read out of its metadata

  An empty text is an absent parameter. What the database client does not take (a status that
  is none, a date that is invalid, a page that is not a number) is `Refusal.query`. How texts
  are lowered and dates are read is the runtime's (`Runtime`).

  The camera filter is left out of the where-clause when the list of cameras is empty, so a
  user who can see no camera is shown every alarm; and an administrator's list is of every
  camera, those private cameras included that access control keeps from administrators.
  `list_respects_iff` says when a listing keeps to the cameras of its user.
-/

namespace Drac.Alarms

open Drac.Access

/-! ## Rows -/

inductive AlarmSource where
  | stream
  | health
  | motion
  | analytics
  | system
  | manual
  deriving DecidableEq

inductive AlarmStatus where
  | open
  | acked
  | resolved
  deriving DecidableEq

inductive AlarmPriority where
  | p1
  | p2
  | p3
  | p4
  deriving DecidableEq

def AlarmSource.ofText : String → Option AlarmSource
  | "STREAM" => some .stream
  | "HEALTH" => some .health
  | "MOTION" => some .motion
  | "ANALYTICS" => some .analytics
  | "SYSTEM" => some .system
  | "MANUAL" => some .manual
  | _ => none

def AlarmStatus.ofText : String → Option AlarmStatus
  | "OPEN" => some .open
  | "ACKED" => some .acked
  | "RESOLVED" => some .resolved
  | _ => none

def AlarmPriority.ofText : String → Option AlarmPriority
  | "P1" => some .p1
  | "P2" => some .p2
  | "P3" => some .p3
  | "P4" => some .p4
  | _ => none

def AlarmStatus.rank : AlarmStatus → Nat
  | .open => 0
  | .acked => 1
  | .resolved => 2

def AlarmPriority.rank : AlarmPriority → Nat
  | .p1 => 0
  | .p2 => 1
  | .p3 => 2
  | .p4 => 3

structure AlarmInstance where
  id : String
  cameraId : Option Id
  eventId : Option String := none
  source : AlarmSource
  type : String
  title : String
  message : String
  severity : String
  priority : AlarmPriority
  status : AlarmStatus := .open
  metadata : Option Json.Value := none
  note : Option String := none
  occurrenceCount : Nat := 1
  firstOccurredAt : Int
  lastOccurredAt : Int
  acknowledgedAt : Option Int := none
  acknowledgedByUserId : Option String := none
  acknowledgedByUserName : Option String := none
  resolvedAt : Option Int := none
  resolvedByUserId : Option String := none
  resolvedByUserName : Option String := none

/-- The names a camera goes by: its own, and those of its area, its site and its group. -/
structure CameraNames where
  name : String
  area : Option String
  site : Option String
  group : Option String

/-- The tables a listing reads. -/
structure AlarmDatabase where
  access : Database
  names : Id → CameraNames
  alarms : List AlarmInstance

/-- `toLowerCase`, the milliseconds of `new Date(text)` (`none` for an invalid date), and now. -/
structure Runtime where
  toLowerCase : String → String
  date : String → Option Int
  now : Int

/-! ## The service -/

/-- How a listing is refused. -/
inductive Refusal where
  | forbidden (message : String)
  | query
  deriving DecidableEq

/-- The where-clause; what is absent does not filter. -/
structure AlarmWhere where
  cameraIdIn : Option (List Id)
  status : Option AlarmStatus
  severity : Option String
  priority : Option AlarmPriority
  source : Option AlarmSource
  type : Option String
  gte : Option Int
  lte : Option Int

def AlarmWhere.accepts (w : AlarmWhere) (alarm : AlarmInstance) : Bool :=
  w.cameraIdIn.all (fun ids => alarm.cameraId.any (· ∈ ids)) &&
    w.status.all (alarm.status = ·) && w.severity.all (alarm.severity = ·) &&
    w.priority.all (alarm.priority = ·) && w.source.all (alarm.source = ·) &&
    w.type.all (alarm.type = ·) && w.gte.all (· ≤ alarm.lastOccurredAt) &&
    w.lte.all (alarm.lastOccurredAt ≤ ·)

/-- `orderBy: [{ status: 'asc' }, { priority: 'asc' }, { lastOccurredAt: 'desc' }]`. -/
def AlarmInstance.precedes (a b : AlarmInstance) : Bool :=
  if a.status.rank ≠ b.status.rank then a.status.rank < b.status.rank
  else if a.priority.rank ≠ b.priority.rank then a.priority.rank < b.priority.rank
  else b.lastOccurredAt ≤ a.lastOccurredAt

structure AlarmItem where
  alarm : AlarmInstance
  cameraName : Option String
  isSnoozed : Bool
  snoozedUntil : Option (List Char)
  transitionHistory : List Json.Value
  notificationDelivery : List Json.Value
  lastNotificationStatus : Option (List Char)

/-- `Boolean(value)`. -/
def truthy : Json.Value → Bool
  | .null => false
  | .bool b => b
  | .num n => n ≠ 0
  | .str s => !s.isEmpty
  | .arr _ | .obj _ => true

def toItem (rt : Runtime) (db : AlarmDatabase) (alarm : AlarmInstance) : AlarmItem :=
  let metadataObj := alarm.metadata.getD (.obj [])
  let snoozeRaw := (Json.field metadataObj "snooze".toList).getD .null
  let until_ := Json.textField snoozeRaw "until".toList
  let active := (Json.field snoozeRaw "active".toList).any truthy
  { alarm := alarm
    cameraName := (alarm.cameraId.bind db.access.camera).map (fun c => (db.names c.id).name)
    isSnoozed := active && until_.any (fun text =>
      !text.isEmpty && (rt.date (String.ofList text)).any (rt.now < ·))
    snoozedUntil := until_
    transitionHistory := (Json.itemsField metadataObj "transitionHistory".toList).getD []
    notificationDelivery := (Json.itemsField metadataObj "notificationDelivery".toList).getD []
    lastNotificationStatus := Json.textField metadataObj "lastNotificationStatus".toList }

/-- One page, and how many there are in all. -/
structure AlarmPage where
  items : List AlarmItem
  total : Nat
  limit : Int
  offset : Int

/-- A text that is there and not empty. -/
def given (text : Option String) : Option String := text.filter (· ≠ "")

/-- A filter as the database client takes it. -/
def readFilter {α : Type} (read : String → Option α) (text : Option String) :
    Except Refusal (Option α) :=
  match given text with
  | none => .ok none
  | some t =>
    match read t with
    | some a => .ok (some a)
    | none => .error .query

structure ListParams where
  accessibleCameraIds : List Id
  cameraId : Option Id
  from_ : Option String
  to_ : Option String
  status : Option String
  severity : Option String
  priority : Option String
  source : Option String
  type : Option String
  /-- `none` is not a number. -/
  limit : Option Int
  offset : Option Int

def ListParams.cameraIds (params : ListParams) : List Id :=
  match params.cameraId with
  | some id => [id]
  | none => params.accessibleCameraIds

def ListParams.where_ (rt : Runtime) (params : ListParams) : Except Refusal AlarmWhere := do
  let from_ ← readFilter rt.date params.from_
  let to_ ← readFilter rt.date params.to_
  let status ← readFilter AlarmStatus.ofText params.status
  let priority ← readFilter AlarmPriority.ofText params.priority
  let source ← readFilter AlarmSource.ofText params.source
  return {
    cameraIdIn := if params.cameraIds.length = 0 then none else some params.cameraIds
    status := status
    severity := given params.severity
    priority := priority
    source := source
    type := given params.type
    gte := from_
    lte := to_ }

def AlarmsService.list (rt : Runtime) (db : AlarmDatabase) (params : ListParams) :
    Except Refusal AlarmPage :=
  match params.limit, params.offset with
  | some limit, some offset => do
    let limit := max 1 (min 200 limit)
    let offset := max 0 offset
    let w ← params.where_ rt
    let rows := (db.alarms.filter w.accepts).insertionSort (fun a b => a.precedes b)
    return {
      items := ((rows.drop offset.toNat).take limit.toNat).map (toItem rt db)
      total := db.alarms.countP w.accepts
      limit := limit
      offset := offset }
  -- NaN survives `Math.max` and `Math.min`
  | _, _ => .error .query

/-! ## The controller -/

/-- The query string, unread. -/
structure ListAlarmsQuery where
  cameraId : Option String := none
  from_ : Option String := none
  to_ : Option String := none
  status : Option String := none
  severity : Option String := none
  priority : Option String := none
  source : Option String := none
  type : Option String := none
  zone : Option String := none
  limit : Option String := none
  offset : Option String := none

def idOfText (text : String) : Option Id :=
  if h : text ≠ "" then some ⟨text, h⟩ else none

def ListAlarmsQuery.requested (query : ListAlarmsQuery) : Option Id := query.cameraId.bind idOfText

/-- `parseInt(text, 10)`. -/
def parseInt (text : String) : Option Int :=
  let cs := JsText.trimStart text.toList
  let digits := (if cs.head? = some '-' ∨ cs.head? = some '+' then cs.tail else cs).takeWhile
    Char.isDigit
  let value : Nat := digits.foldl (fun n c => 10 * n + (c.toNat - 48)) 0
  if digits.isEmpty then none
  else some (if cs.head? = some '-' then -value else value)

def findAll (db : Database) : Option (List Id) → List Camera
  | some ids => db.cameras.filter (fun c => c.id ∈ ids)
  | none => db.cameras

/-- The zone a listing is narrowed to, as it is compared. -/
def ListAlarmsQuery.normalizedZone (rt : Runtime) (query : ListAlarmsQuery) : Option String :=
  (query.zone.filter (fun zone => JsText.trim zone ≠ "")).map
    (fun zone => rt.toLowerCase (JsText.trim zone))

def CameraNames.inZone (rt : Runtime) (names : CameraNames) (normalizedZone : String) : Bool :=
  (([names.area, names.site, names.group].filterMap id).filter
    (fun value => JsText.trim value ≠ "")).any
    (fun value => normalizedZone.toList <:+: (rt.toLowerCase (JsText.trim value)).toList)

/-- The controller's own list: for an administrator, every camera. -/
def roleCameraIds (db : Database) (user : AuthUser) : List Id :=
  if user.role = .admin ∨ user.role = .superAdmin then (findAll db none).map (·.id)
  else getAccessibleCameraIds db user

def accessibleCameraIds (rt : Runtime) (db : AlarmDatabase) (user : AuthUser)
    (query : ListAlarmsQuery) : List Id :=
  let ids := roleCameraIds db.access user
  match query.normalizedZone rt with
  | none => ids
  | some zone =>
    ((findAll db.access (some ids)).filter (fun c => (db.names c.id).inZone rt zone)).map (·.id)

def assertCanViewCamera (db : Database) (user : AuthUser) (cameraId : Id) : Except Refusal Unit :=
  if canViewCamera db user cameraId then .ok ()
  else .error (.forbidden "Sem permissão para visualizar esta câmera.")

def ListAlarmsQuery.params (query : ListAlarmsQuery) (ids : List Id) : ListParams where
  accessibleCameraIds := ids
  cameraId := query.requested
  from_ := query.from_
  to_ := query.to_
  status := query.status
  severity := query.severity
  priority := query.priority
  source := query.source
  type := query.type
  limit := match given query.limit with
    | some text => parseInt text
    | none => some 100
  offset := match given query.offset with
    | some text => parseInt text
    | none => some 0

def listAlarms (rt : Runtime) (db : AlarmDatabase) (user : AuthUser) (query : ListAlarmsQuery) :
    Except Refusal AlarmPage := do
  if let some cameraId := query.requested then
    assertCanViewCamera db.access user cameraId
  AlarmsService.list rt db (query.params (accessibleCameraIds rt db user query))

/-! ## What a listing should hold -/

variable {rt : Runtime} {db : AlarmDatabase} {user : AuthUser} {query : ListAlarmsQuery}

/-- The camera goes by a name that has the zone in it. -/
def InZone (rt : Runtime) (db : AlarmDatabase) (zone : String) (id : Id) : Prop :=
  ∃ camera ∈ db.access.cameras, camera.id = id ∧ ∃ value,
    (some value = (db.names id).area ∨ some value = (db.names id).site ∨
      some value = (db.names id).group) ∧ JsText.trim value ≠ "" ∧
    (rt.toLowerCase (JsText.trim zone)).toList <:+: (rt.toLowerCase (JsText.trim value)).toList

/-- The camera is in the zone asked for, where one is. -/
def InQueryZone (rt : Runtime) (db : AlarmDatabase) (query : ListAlarmsQuery) (id : Id) : Prop :=
  ∀ zone, query.zone = some zone → JsText.trim zone ≠ "" → InZone rt db zone id

/-- A camera that access control gives the caller, after the zone filter. -/
def Accessible (rt : Runtime) (db : AlarmDatabase) (user : AuthUser) (query : ListAlarmsQuery)
    (id : Id) : Prop :=
  id ∈ getAccessibleCameraIds db.access user ∧ InQueryZone rt db query id

/-- The alarm is of the camera asked for, which the caller may view, or else of a camera of
the caller's. -/
def Belongs (rt : Runtime) (db : AlarmDatabase) (user : AuthUser) (query : ListAlarmsQuery)
    (alarm : AlarmInstance) : Prop :=
  match query.requested with
  | some id => alarm.cameraId = some id ∧ canViewCamera db.access user id = true
  | none => ∃ id, alarm.cameraId = some id ∧ Accessible rt db user query id

/-- An alarm satisfies the filters of a query, as their texts mean them. -/
structure Satisfies (rt : Runtime) (query : ListAlarmsQuery) (alarm : AlarmInstance) : Prop where
  status : ∀ text, given query.status = some text → AlarmStatus.ofText text = some alarm.status
  severity : ∀ text, given query.severity = some text → alarm.severity = text
  priority : ∀ text, given query.priority = some text →
    AlarmPriority.ofText text = some alarm.priority
  source : ∀ text, given query.source = some text → AlarmSource.ofText text = some alarm.source
  type : ∀ text, given query.type = some text → alarm.type = text
  from_ : ∀ text, given query.from_ = some text →
    ∃ date, rt.date text = some date ∧ date ≤ alarm.lastOccurredAt
  to_ : ∀ text, given query.to_ = some text →
    ∃ date, rt.date text = some date ∧ alarm.lastOccurredAt ≤ date

open scoped Classical in
/-- The page keeps to the caller's cameras and to the filters, and counts just such alarms. -/
structure Respects (rt : Runtime) (db : AlarmDatabase) (user : AuthUser) (query : ListAlarmsQuery)
    (page : AlarmPage) : Prop where
  items : ∀ item ∈ page.items, item.alarm ∈ db.alarms ∧ Belongs rt db user query item.alarm ∧
    Satisfies rt query item.alarm
  total : page.total = db.alarms.countP (fun alarm =>
    Belongs rt db user query alarm ∧ Satisfies rt query alarm)

/-- The caller is an administrator, or the camera is one access control gives; and it is in
the zone asked for. -/
def Drawn (rt : Runtime) (db : AlarmDatabase) (user : AuthUser) (query : ListAlarmsQuery)
    (id : Id) : Prop :=
  (id ∈ getAccessibleCameraIds db.access user ∨
    isPrivileged user = true ∧ ∃ camera ∈ db.access.cameras, camera.id = id) ∧
    InQueryZone rt db query id

/-- The caller is an administrator, and the alarm is of a private camera in the zone asked for
that the caller neither owns nor has a grant on. -/
def Withheld (rt : Runtime) (db : AlarmDatabase) (user : AuthUser) (query : ListAlarmsQuery)
    (alarm : AlarmInstance) : Prop :=
  isPrivileged user = true ∧ ∃ camera ∈ db.access.cameras, alarm.cameraId = some camera.id ∧
    camera.isPrivate = true ∧ camera.ownerUserId ≠ some user.id ∧
    ¬ Direct db.access user.id camera ∧ InQueryZone rt db query camera.id

/-! ## The where-clause -/

theorem inZone_iff {camera : Camera} (hmem : camera ∈ db.access.cameras) {zone : String} :
    (db.names camera.id).inZone rt (rt.toLowerCase (JsText.trim zone)) = true ↔
      InZone rt db zone camera.id := by
  have hvalue : ∀ value, value ∈ ([(db.names camera.id).area, (db.names camera.id).site,
      (db.names camera.id).group].filterMap id) ↔ some value = (db.names camera.id).area ∨
      some value = (db.names camera.id).site ∨ some value = (db.names camera.id).group := by
    intro value
    simp [List.mem_filterMap]
  unfold CameraNames.inZone InZone
  simp only [List.any_eq_true, List.mem_filter, decide_eq_true_eq, hvalue]
  constructor
  · rintro ⟨value, ⟨hname, hblank⟩, hin⟩
    exact ⟨camera, hmem, rfl, value, hname, hblank, hin⟩
  · rintro ⟨-, -, -, value, hname, hblank, hin⟩
    exact ⟨value, ⟨hname, hblank⟩, hin⟩

theorem normalizedZone_eq_some {zone : String} (hzone : query.zone = some zone)
    (hblank : JsText.trim zone ≠ "") :
    query.normalizedZone rt = some (rt.toLowerCase (JsText.trim zone)) := by
  simp [ListAlarmsQuery.normalizedZone, hzone, Option.filter, hblank]

theorem normalizedZone_eq_none (h : ∀ zone, query.zone = some zone → JsText.trim zone = "") :
    query.normalizedZone rt = none := by
  unfold ListAlarmsQuery.normalizedZone
  cases hzone : query.zone with
  | none => rfl
  | some zone => simp [Option.filter, h zone hzone]

theorem mem_accessible_camera {id : Id} (hp : isPrivileged user = true)
    (h : id ∈ getAccessibleCameraIds db.access user) : ∃ camera ∈ db.access.cameras, camera.id = id := by
  unfold getAccessibleCameraIds at h
  simp only [hp, if_true, List.mem_eraseDups, List.mem_append, List.mem_map, List.mem_filter] at h
  obtain ⟨camera, hmem, hid⟩ | ⟨camera, hmem, hid⟩ | ⟨camera, hmem, hid⟩ := h
  all_goals exact ⟨camera, hmem.1, hid⟩

theorem mem_roleCameraIds {id : Id} : id ∈ roleCameraIds db.access user ↔
    id ∈ getAccessibleCameraIds db.access user ∨
      isPrivileged user = true ∧ ∃ camera ∈ db.access.cameras, camera.id = id := by
  have hrole : (user.role = .admin ∨ user.role = .superAdmin) ↔ isPrivileged user = true := by
    simp [isPrivileged, or_comm]
  unfold roleCameraIds
  rw [if_congr hrole rfl rfl]
  split
  · next hp =>
    simp only [findAll, List.mem_map, hp, true_and]
    exact (or_iff_right_of_imp (mem_accessible_camera hp)).symm
  · next hp => simp [hp]

theorem mem_accessibleCameraIds {id : Id} :
    id ∈ accessibleCameraIds rt db user query ↔ Drawn rt db user query id := by
  unfold accessibleCameraIds Drawn
  rw [← mem_roleCameraIds]
  by_cases hzone : ∃ zone, query.zone = some zone ∧ JsText.trim zone ≠ ""
  · obtain ⟨zone, hsome, hblank⟩ := hzone
    rw [normalizedZone_eq_some hsome hblank]
    simp only [findAll, List.mem_map, List.mem_filter, decide_eq_true_eq]
    constructor
    · rintro ⟨camera, ⟨⟨hmem, hrole⟩, hin⟩, rfl⟩
      refine ⟨hrole, ?_⟩
      intro zone' hsome' _
      rw [hsome, Option.some.injEq] at hsome'
      subst hsome'
      exact (inZone_iff hmem).mp hin
    · rintro ⟨hrole, hin⟩
      obtain ⟨camera, hmem, rfl, hrest⟩ := hin zone hsome hblank
      exact ⟨camera, ⟨⟨hmem, hrole⟩, (inZone_iff hmem).mpr ⟨camera, hmem, rfl, hrest⟩⟩, rfl⟩
  · push Not at hzone
    rw [normalizedZone_eq_none hzone]
    constructor
    · intro hrole
      exact ⟨hrole, fun zone hsome hblank => absurd (hzone zone hsome) hblank⟩
    · intro h
      exact h.1

theorem readFilter_ok {α : Type} {read : String → Option α} {text : Option String}
    {value : Option α} (h : readFilter read text = .ok value) (p : α → Prop) [DecidablePred p] :
    value.all (fun a => p a) = true ↔
      ∀ t, given text = some t → ∃ a, read t = some a ∧ p a := by
  unfold readFilter at h
  cases hgiven : given text with
  | none =>
    rw [hgiven] at h
    cases h
    simp
  | some t =>
    rw [hgiven] at h
    dsimp only at h
    split at h
    · next a hread =>
      cases h
      simp [hread]
    · cases h

theorem given_all {text : Option String} (p : String → Prop) [DecidablePred p] :
    (given text).all (fun t => p t) = true ↔ ∀ t, given text = some t → p t := by
  cases given text <;> simp

theorem bind_ok {α β : Type} {x : Except Refusal α} {f : α → Except Refusal β} {b : β}
    (h : x >>= f = .ok b) : ∃ a, x = .ok a ∧ f a = .ok b := by
  cases x with
  | error e => cases h
  | ok a => exact ⟨a, rfl, h⟩

theorem accepts_iff {params : ListParams} {w : AlarmWhere} {ids : List Id}
    (hparams : params = query.params ids) (hw : params.where_ rt = .ok w) (alarm : AlarmInstance) :
    w.accepts alarm = true ↔
      (params.cameraIds ≠ [] → ∃ id, alarm.cameraId = some id ∧ id ∈ params.cameraIds) ∧
      Satisfies rt query alarm := by
  subst hparams
  obtain ⟨gte, hgte, hw⟩ := bind_ok hw
  obtain ⟨lte, hlte, hw⟩ := bind_ok hw
  obtain ⟨status, hstatus, hw⟩ := bind_ok hw
  obtain ⟨priority, hpriority, hw⟩ := bind_ok hw
  obtain ⟨source, hsource, hw⟩ := bind_ok hw
  cases hw
  have hcameras : ((if (query.params ids).cameraIds.length = 0 then none
      else some (query.params ids).cameraIds).all (fun ids => alarm.cameraId.any (· ∈ ids)) =
      true) ↔ ((query.params ids).cameraIds ≠ [] →
        ∃ id, alarm.cameraId = some id ∧ id ∈ (query.params ids).cameraIds) := by
    split
    · next hempty => simp [List.length_eq_zero_iff.mp hempty]
    · next hsome =>
      rw [List.length_eq_zero_iff] at hsome
      simp [hsome, Option.any_eq_true]
  simp only [AlarmWhere.accepts, Bool.and_eq_true, hcameras,
    readFilter_ok hgte (· ≤ alarm.lastOccurredAt), readFilter_ok hlte (alarm.lastOccurredAt ≤ ·),
    readFilter_ok hstatus (alarm.status = ·), readFilter_ok hpriority (alarm.priority = ·),
    readFilter_ok hsource (alarm.source = ·), given_all (alarm.severity = ·),
    given_all (alarm.type = ·), and_assoc]
  refine and_congr_right fun _ => ?_
  constructor
  · rintro ⟨h₁, h₂, h₃, h₄, h₅, h₆, h₇⟩
    refine ⟨?_, h₂, ?_, ?_, h₅, h₆, h₇⟩
    · intro text htext
      obtain ⟨a, hread, rfl⟩ := h₁ text htext
      exact hread
    · intro text htext
      obtain ⟨a, hread, rfl⟩ := h₃ text htext
      exact hread
    · intro text htext
      obtain ⟨a, hread, rfl⟩ := h₄ text htext
      exact hread
  · intro h
    exact ⟨fun text htext => ⟨_, h.status text htext, rfl⟩, h.severity,
      fun text htext => ⟨_, h.priority text htext, rfl⟩,
      fun text htext => ⟨_, h.source text htext, rfl⟩, h.type, h.from_, h.to_⟩

/-! ## The listing -/

theorem listAlarms_ok {page : AlarmPage} (h : listAlarms rt db user query = .ok page) :
    (∀ id, query.requested = some id → canViewCamera db.access user id = true) ∧
    ∃ w, (query.params (accessibleCameraIds rt db user query)).where_ rt = .ok w ∧
      (∀ item ∈ page.items, item.alarm ∈ db.alarms ∧ w.accepts item.alarm = true) ∧
      page.total = db.alarms.countP w.accepts := by
  unfold listAlarms at h
  obtain ⟨hview, hlist⟩ : (∀ id, query.requested = some id →
      canViewCamera db.access user id = true) ∧
      AlarmsService.list rt db (query.params (accessibleCameraIds rt db user query)) =
        .ok page := by
    cases hrequested : query.requested with
    | none =>
      rw [hrequested] at h
      exact ⟨(fun id hid => nomatch hid), h⟩
    | some id =>
      rw [hrequested] at h
      obtain ⟨_, hcheck, hrest⟩ := bind_ok h
      refine ⟨?_, hrest⟩
      intro id' hid
      cases hid
      unfold assertCanViewCamera at hcheck
      split at hcheck
      · next hcan => exact hcan
      · cases hcheck
  refine ⟨hview, ?_⟩
  unfold AlarmsService.list at hlist
  split at hlist
  · obtain ⟨w, hw, hpage⟩ := bind_ok hlist
    cases hpage
    refine ⟨w, hw, ?_, rfl⟩
    intro item hitem
    obtain ⟨alarm, halarm, rfl⟩ := List.mem_map.mp hitem
    have hsorted := List.mem_of_mem_drop (List.mem_of_mem_take halarm)
    rw [List.mem_insertionSort, List.mem_filter] at hsorted
    exact hsorted
  · cases hlist

theorem accepts_drawn {page : AlarmPage} (h : listAlarms rt db user query = .ok page)
    {w : AlarmWhere}
    (hw : (query.params (accessibleCameraIds rt db user query)).where_ rt = .ok w)
    (alarm : AlarmInstance) :
    w.accepts alarm = true ↔ (match query.requested with
      | some id => alarm.cameraId = some id ∧ canViewCamera db.access user id = true
      | none => (∃ id, Drawn rt db user query id) →
          ∃ id, alarm.cameraId = some id ∧ Drawn rt db user query id) ∧
      Satisfies rt query alarm := by
  rw [accepts_iff rfl hw]
  refine and_congr_left fun _ => ?_
  unfold ListParams.cameraIds
  cases hrequested : query.requested with
  | some id =>
    have hview : canViewCamera db.access user id = true := (listAlarms_ok h).1 id hrequested
    simp [ListAlarmsQuery.params, hrequested, hview]
  | none =>
    simp only [ListAlarmsQuery.params, hrequested, mem_accessibleCameraIds]
    refine imp_congr_left ⟨?_, ?_⟩
    · intro hids
      obtain ⟨id, hid⟩ := List.exists_mem_of_ne_nil _ hids
      exact ⟨id, mem_accessibleCameraIds.mp hid⟩
    · rintro ⟨id, hid⟩
      exact List.ne_nil_of_mem (mem_accessibleCameraIds.mpr hid)

theorem drawn_iff {alarm : AlarmInstance} : (∃ id, alarm.cameraId = some id ∧
      Drawn rt db user query id) ↔ (∃ id, alarm.cameraId = some id ∧
      Accessible rt db user query id) ∨ Withheld rt db user query alarm := by
  constructor
  · rintro ⟨id, hid, hrole, hin⟩
    obtain hgiven | ⟨hp, camera, hmem, rfl⟩ := hrole
    · exact Or.inl ⟨id, hid, hgiven, hin⟩
    · by_cases hgiven : camera.id ∈ getAccessibleCameraIds db.access user
      · exact Or.inl ⟨camera.id, hid, hgiven, hin⟩
      · rw [mem_accessible_privileged hp hmem, not_or, Bool.not_eq_false] at hgiven
        obtain ⟨hprivate, hnot⟩ := hgiven
        refine Or.inr ⟨hp, camera, hmem, hid, hprivate, ?_, ?_, hin⟩
        · exact fun howner => hnot ⟨hprivate, Or.inl howner⟩
        · exact fun hdirect => hnot ⟨hprivate, Or.inr hdirect⟩
  · rintro (⟨id, hid, hgiven, hin⟩ | ⟨hp, camera, hmem, hid, -, -, -, hin⟩)
    · exact ⟨id, hid, Or.inl hgiven, hin⟩
    · exact ⟨camera.id, hid, Or.inr ⟨hp, camera, hmem, rfl⟩, hin⟩

/-- What is kept from the caller does not belong to the listing. -/
theorem not_accessible_of_withheld {alarm : AlarmInstance}
    (h : Withheld rt db user query alarm) {id : Id} (hid : alarm.cameraId = some id) :
    ¬ Accessible rt db user query id := by
  obtain ⟨hp, camera, hmem, hcamera, hprivate, howner, hdirect, -⟩ := h
  rw [hcamera, Option.some.injEq] at hid
  subst hid
  rintro ⟨hgiven, -⟩
  obtain hpublic | ⟨-, howns | hgrant⟩ := (mem_accessible_privileged hp hmem).mp hgiven
  · rw [hprivate] at hpublic
    cases hpublic
  · exact howner howns
  · exact hdirect hgrant

open scoped Classical in
theorem respects_iff {page : AlarmPage} {w : AlarmWhere}
    (hitems : ∀ item ∈ page.items, item.alarm ∈ db.alarms ∧ w.accepts item.alarm = true)
    (htotal : page.total = db.alarms.countP w.accepts)
    (hall : ∀ alarm, Belongs rt db user query alarm ∧ Satisfies rt query alarm →
      w.accepts alarm = true) :
    Respects rt db user query page ↔ ∀ alarm ∈ db.alarms, w.accepts alarm = true →
      Belongs rt db user query alarm ∧ Satisfies rt query alarm := by
  constructor
  · intro hrespects alarm hmem haccepted
    -- what belongs is among what is selected, and as many
    have hsub : (db.alarms.filter fun alarm => Belongs rt db user query alarm ∧
        Satisfies rt query alarm).Sublist (db.alarms.filter w.accepts) :=
      List.monotone_filter_right db.alarms fun alarm hboth => hall alarm (of_decide_eq_true hboth)
    have hlength := hrespects.total
    rw [htotal, List.countP_eq_length_filter, List.countP_eq_length_filter] at hlength
    have hboth := List.mem_filter.mpr ⟨hmem, haccepted⟩
    rw [← hsub.eq_of_length hlength.symm] at hboth
    exact of_decide_eq_true (List.mem_filter.mp hboth).2
  · intro hbelongs
    constructor
    · intro item hitem
      obtain ⟨hmem, haccepted⟩ := hitems item hitem
      exact ⟨hmem, hbelongs item.alarm hmem haccepted⟩
    · rw [htotal]
      refine List.countP_congr fun alarm hmem => ?_
      rw [decide_eq_true_eq]
      exact ⟨hbelongs alarm hmem, hall alarm⟩

/-- A listing keeps to the caller's cameras just where one is asked for; or there is a camera
to draw from, and no alarm that meets the other filters is of a camera kept from the caller; or
no alarm meets the other filters. -/
theorem list_respects_iff {page : AlarmPage} (h : listAlarms rt db user query = .ok page) :
    Respects rt db user query page ↔
      query.requested.isSome = true ∨
        ((∃ id, Drawn rt db user query id) ∧ ∀ alarm ∈ db.alarms, Satisfies rt query alarm →
          ¬ Withheld rt db user query alarm) ∨
        ∀ alarm ∈ db.alarms, ¬ Satisfies rt query alarm := by
  obtain ⟨-, w, hw, hitems, htotal⟩ := listAlarms_ok h
  have haccepts := accepts_drawn h hw
  cases hrequested : query.requested with
  | some id =>
    simp only [hrequested] at haccepts
    have hbelongs : ∀ alarm, Belongs rt db user query alarm ↔
        alarm.cameraId = some id ∧ canViewCamera db.access user id = true := by
      intro alarm
      simp only [Belongs, hrequested]
    refine iff_of_true ?_ (Or.inl rfl)
    have hselected : ∀ alarm, w.accepts alarm = true ↔
        Belongs rt db user query alarm ∧ Satisfies rt query alarm := by
      intro alarm
      rw [haccepts, hbelongs]
    rw [respects_iff hitems htotal fun alarm => (hselected alarm).mpr]
    exact fun alarm _ => (hselected alarm).mp
  | none =>
    simp only [hrequested] at haccepts
    have hbelongs : ∀ alarm, Belongs rt db user query alarm ↔
        ∃ id, alarm.cameraId = some id ∧ Accessible rt db user query id := by
      intro alarm
      simp only [Belongs, hrequested]
    have hall : ∀ alarm, Belongs rt db user query alarm ∧ Satisfies rt query alarm →
        w.accepts alarm = true := by
      rintro alarm ⟨hmine, hsat⟩
      rw [haccepts]
      exact ⟨fun _ => drawn_iff.mpr (Or.inl ((hbelongs alarm).mp hmine)), hsat⟩
    rw [respects_iff hitems htotal hall]
    by_cases hany : ∃ id, Drawn rt db user query id
    · have hdrawn : ∀ alarm, w.accepts alarm = true ↔ (Belongs rt db user query alarm ∨
          Withheld rt db user query alarm) ∧ Satisfies rt query alarm := by
        intro alarm
        rw [haccepts, hbelongs, ← drawn_iff, forall_prop_of_true hany]
      constructor
      · intro hmine
        refine Or.inr (Or.inl ⟨hany, ?_⟩)
        intro alarm hmem hsat hwithheld
        have hselected := (hdrawn alarm).mpr ⟨Or.inr hwithheld, hsat⟩
        obtain ⟨id, hid, haccessible⟩ := (hbelongs alarm).mp (hmine alarm hmem hselected).1
        exact not_accessible_of_withheld hwithheld hid haccessible
      · rintro (hlost | ⟨-, hnone⟩ | hempty) alarm hmem hselected
        · cases hlost
        · obtain ⟨hmine | hwithheld, hsat⟩ := (hdrawn alarm).mp hselected
          · exact ⟨hmine, hsat⟩
          · exact absurd hwithheld (hnone alarm hmem hsat)
        · exact absurd ((hdrawn alarm).mp hselected).2 (hempty alarm hmem)
    · -- the where-clause has lost its camera filter, and nothing belongs
      have hforeign : ∀ alarm, ¬ Belongs rt db user query alarm := by
        intro alarm hmine
        obtain ⟨id, -, hid⟩ := drawn_iff.mpr (Or.inl ((hbelongs alarm).mp hmine))
        exact hany ⟨id, hid⟩
      have hlost : ∀ alarm, w.accepts alarm = true ↔ Satisfies rt query alarm := by
        intro alarm
        rw [haccepts, forall_prop_of_false hany, true_and]
      constructor
      · intro hmine
        refine Or.inr (Or.inr ?_)
        intro alarm hmem hsat
        exact hforeign alarm (hmine alarm hmem ((hlost alarm).mpr hsat)).1
      · rintro (hrequest | ⟨hsome, -⟩ | hempty) alarm hmem hselected
        · cases hrequest
        · exact absurd hsome hany
        · exact absurd ((hlost alarm).mp hselected) (hempty alarm hmem)

/-! ## Two listings -/

theorem yard_nonempty : "yard" ≠ "" := by decide

theorem gate_nonempty : "gate" ≠ "" := by decide

theorem porter_nonempty : "porter" ≠ "" := by decide

def yard : Id := ⟨"yard", yard_nonempty⟩

def gate : Id := ⟨"gate", gate_nonempty⟩

def twoCameras : List Camera := [⟨yard, none, false, none⟩, ⟨gate, none, false, none⟩]

theorem twoCameras_ids : (twoCameras.map (·.id)).Nodup := by decide

def twoAlarms (permissions : List CameraPermission) : AlarmDatabase where
  access := {
    cameras := twoCameras
    groups := []
    permissions := permissions
    camera_ids := twoCameras_ids
    group_ids := List.nodup_nil }
  names _ := { name := "Cam", area := none, site := some "Matriz", group := none }
  alarms := [yard, gate].map (fun camera => {
    id := camera.text, cameraId := some camera, source := .motion, type := "MOTION_DETECTED"
    title := "MOTION DETECTED", message := "motion (0.27)", severity := "INFO", priority := .p3
    firstOccurredAt := 0, lastOccurredAt := 0 })

def asciiRuntime : Runtime where
  toLowerCase := fun text => String.ofList (text.toList.map Char.toLower)
  date := fun _ => none
  now := 0

def porter : AuthUser := ⟨⟨"porter", porter_nonempty⟩, .viewer⟩

theorem toOption_ok {page : AlarmPage} {r : Except Refusal AlarmPage}
    (h : r.toOption = some page) : r = .ok page := by
  cases r with
  | error e => cases h
  | ok p =>
    cases h
    rfl

/-- A porter who may view the yard is shown the yard's alarm. -/
theorem list_respects_yard : ∃ page,
    listAlarms asciiRuntime (twoAlarms [⟨porter.id, some yard, none, .view⟩]) porter {} =
      .ok page ∧ page.items.map (fun item => item.alarm.id) = ["yard"] ∧
    Respects asciiRuntime (twoAlarms [⟨porter.id, some yard, none, .view⟩]) porter {} page := by
  have hlist : (listAlarms asciiRuntime (twoAlarms [⟨porter.id, some yard, none, .view⟩])
      porter {}).toOption.map (fun page => page.items.map (fun item => item.alarm.id)) =
      some ["yard"] := by
    decide
  rw [Option.map_eq_some_iff] at hlist
  obtain ⟨page, hpage, hitems⟩ := hlist
  have hok := toOption_ok hpage
  have hyard : Drawn asciiRuntime (twoAlarms [⟨porter.id, some yard, none, .view⟩]) porter {}
      yard := ⟨Or.inl (by decide), fun zone hzone => nomatch hzone⟩
  have hrole : isPrivileged porter ≠ true := by decide
  exact ⟨page, hok, hitems, (list_respects_iff hok).mpr
    (Or.inr (Or.inl ⟨⟨yard, hyard⟩, fun alarm _ _ hwithheld => hrole hwithheld.1⟩))⟩

/-- A porter who may view nothing is shown everything. -/
theorem list_shows_all : ∃ page,
    listAlarms asciiRuntime (twoAlarms []) porter {} = .ok page ∧
    page.items.map (fun item => item.alarm.id) = ["yard", "gate"] ∧
    ¬ Respects asciiRuntime (twoAlarms []) porter {} page := by
  have hlist : (listAlarms asciiRuntime (twoAlarms []) porter {}).toOption.map
      (fun page => page.items.map (fun item => item.alarm.id)) = some ["yard", "gate"] := by
    decide
  rw [Option.map_eq_some_iff] at hlist
  obtain ⟨page, hpage, hitems⟩ := hlist
  refine ⟨page, toOption_ok hpage, hitems, ?_⟩
  intro hrespects
  cases hpageItems : page.items with
  | nil =>
    rw [hpageItems] at hitems
    cases hitems
  | cons item rest =>
    obtain ⟨-, ⟨id, -, hgiven, -⟩, -⟩ :=
      hrespects.items item (hpageItems ▸ List.mem_cons_self)
    have hnone : getAccessibleCameraIds (twoAlarms []).access porter = [] := by decide
    rw [hnone] at hgiven
    exact List.not_mem_nil hgiven

end Drac.Alarms
