import Drac.Lib.JsMap
import Drac.Lib.Runs
import Drac.Alarms.AlarmListing

/-
  The history an alarm carries in its metadata, and who writes it.

  Correspondence (`alarms.service.ts`, `alarm-notification.processor.ts`,
  `push-receipts.processor.ts` ↔ Lean):
    appendTransition, inferSource, isRecoveryEvent   ↔ the same names
    acknowledge, resolve, addNote, snooze, unsnooze  ↔ `Action`, its write `Action.write`
    appendDelivery, appendPushOutcome                ↔ the same names
    processEvent, resolveStaleMotionAlarms, autoResolveForCamera   ↔ `Request`, `advance`

  One alarm, and calls that go from await to await. Every writer of the metadata reads the
  row, builds the new metadata from what it read and writes it whole; a repeated event
  writes its own. A call may end at any await (`Label.giveUp`): it failed, or what it was
  to write is not this alarm. What the rules and the camera say may change at any time.
-/

namespace Drac.Alarms

open Runs

/-! ## Metadata -/

/-- `{ ...metadata }`: the members of an object, the items of an array by their index. -/
def spread : Option Json.Value → List (List Char × Json.Value)
  | some (.obj members) => members
  | some (.arr items) => items.zipIdx.map (fun e => (Nat.toDigits 10 e.2, e.1))
  | _ => []

def itemsOf : Option Json.Value → List Json.Value
  | some (.arr items) => items
  | _ => []

def historyOf (metadata : Option Json.Value) : List Json.Value :=
  itemsOf (JsMap.get? (spread metadata) "transitionHistory".toList)

def deliveryOf (metadata : Option Json.Value) : List Json.Value :=
  itemsOf (JsMap.get? (spread metadata) "notificationDelivery".toList)

def snoozeOf (metadata : Option Json.Value) : Option Json.Value :=
  JsMap.get? (spread metadata) "snooze".toList

def text (s : String) : Json.Value := .str s.toList

/-- `value ?? null`. -/
def orNull : Option Json.Value → Json.Value
  | some v => v
  | none => .null

/-- One transition in the history of an alarm. -/
structure Entry where
  at_ : List Char
  action : String
  byUserId : String
  byUserName : String
  note : Option String
  extra : List (List Char × Json.Value) := []

def Entry.toValue (entry : Entry) : Json.Value :=
  .obj (entry.extra.foldl (fun members e => JsMap.set members e.1 e.2)
    [("at".toList, .str entry.at_), ("action".toList, text entry.action),
      ("byUserId".toList, text entry.byUserId), ("byUserName".toList, text entry.byUserName),
      ("note".toList, orNull (entry.note.map text))])

def appendTransition (metadata : Option Json.Value) (entry : Entry) : Json.Value :=
  .obj (JsMap.set (spread metadata) "transitionHistory".toList
    (.arr (historyOf metadata ++ [entry.toValue])))

/-- `list.slice(-30)`. -/
def lastThirty (list : List Json.Value) : List Json.Value := list.drop (list.length - 30)

/-- What a notification worker adds; `entry` is the record of the attempt. -/
def appendDelivery (metadata : Option Json.Value) (entry : Json.Value) : Json.Value :=
  let members := JsMap.set (spread metadata) "notificationDelivery".toList
    (.arr (lastThirty (deliveryOf metadata ++ [entry])))
  let members := JsMap.set members "lastNotificationStatus".toList
    (orNull (Json.field entry "status".toList))
  .obj (JsMap.set members "lastNotificationAt".toList (orNull (Json.field entry "at".toList)))

def appendPushOutcome (metadata : Option Json.Value) (entry : Json.Value) : Json.Value :=
  .obj (JsMap.set (spread metadata) "notificationDelivery".toList
    (.arr (deliveryOf metadata ++ [entry])))

/-! ## Actions of operators -/

/-- Who acts on an alarm. -/
structure Operator where
  id : String
  name : String

/-- The four calls of an operator. -/
inductive Action where
  | acknowledge (note : Option String)
  | resolve (note : Option String)
  | addNote (note : String)
  | snooze (minutes : Rat) (note : Option String)
  | unsnooze (note : Option String)

/-- `note?.trim() || null`. -/
def trimmedNote (note : Option String) : Option String := given (note.map JsText.trim)

def safeMinutes (minutes : Rat) : Int := max 1 (min 1440 minutes.floor)

section

variable (iso : Int → List Char)

def Action.entry (user : Operator) (now : Int) : Action → Entry
  | .acknowledge note => ⟨iso now, "ACKNOWLEDGED", user.id, user.name, trimmedNote note, []⟩
  | .resolve note => ⟨iso now, "RESOLVED", user.id, user.name, trimmedNote note, []⟩
  | .addNote note => ⟨iso now, "NOTE_ADDED", user.id, user.name, some (JsText.trim note), []⟩
  | .snooze minutes note =>
    ⟨iso now, "SNOOZED", user.id, user.name, trimmedNote note,
      [("minutes".toList, .num (safeMinutes minutes)),
        ("until".toList, .str (iso (now + safeMinutes minutes * 60 * 1000)))]⟩
  | .unsnooze note => ⟨iso now, "UNSNOOZED", user.id, user.name, trimmedNote note, []⟩

def snoozed (user : Operator) (now : Int) (minutes : Rat) (note : Option String) : Json.Value :=
  .obj [("active".toList, .bool true),
    ("until".toList, .str (iso (now + safeMinutes minutes * 60 * 1000))),
    ("byUserId".toList, text user.id), ("byUserName".toList, text user.name),
    ("note".toList, orNull ((trimmedNote note).map text))]

def cleared (user : Operator) (now : Int) (note : Option String) (snooze : Option Json.Value) :
    Json.Value :=
  .obj ([("active".toList, .bool false), ("clearedAt".toList, .str (iso now)),
    ("clearedByUserId".toList, text user.id), ("clearedByUserName".toList, text user.name),
    ("clearNote".toList, orNull ((trimmedNote note).map text))].foldl
      (fun members e => JsMap.set members e.1 e.2) (spread snooze))

def Action.base (user : Operator) (now : Int) (metadata : Option Json.Value) :
    Action → Option Json.Value
  | .acknowledge _ | .resolve _ | .addNote _ => metadata
  | .snooze minutes note =>
    some (.obj (JsMap.set (spread metadata) "snooze".toList (snoozed iso user now minutes note)))
  | .unsnooze note =>
    some (.obj (JsMap.set (spread metadata) "snooze".toList
      (cleared iso user now note (snoozeOf metadata))))

def Action.metadata (user : Operator) (now : Int) (existing : AlarmInstance) (action : Action) :
    Json.Value :=
  appendTransition (action.base iso user now existing.metadata) (action.entry iso user now)

/-- The update of an action: the columns it names, from the row it has read. -/
def Action.write (user : Operator) (now : Int) (existing row : AlarmInstance) (action : Action) :
    AlarmInstance :=
  let row := { row with metadata := some (action.metadata iso user now existing) }
  match action with
  | .acknowledge note =>
    { row with
      status := .acked
      acknowledgedAt := some now
      acknowledgedByUserId := some user.id
      acknowledgedByUserName := some user.name
      note := (trimmedNote note).or row.note }
  | .resolve note =>
    { row with
      status := .resolved
      resolvedAt := some now
      resolvedByUserId := some user.id
      resolvedByUserName := some user.name
      note := (trimmedNote note).or row.note }
  | .addNote note =>
    { row with
      note := some (match existing.note.filter (fun old => JsText.trim old ≠ "") with
        | some old => old ++ "\n" ++ JsText.trim note
        | none => JsText.trim note) }
  | .snooze _ note =>
    { row with
      status := .acked
      acknowledgedAt := existing.acknowledgedAt.or (some now)
      acknowledgedByUserId := existing.acknowledgedByUserId.or (some user.id)
      acknowledgedByUserName := existing.acknowledgedByUserName.or (some user.name)
      note := ((trimmedNote note).or (given existing.note)).or row.note }
  | .unsnooze _ => row

end

/-! ## Events -/

structure AlarmRule where
  isEnabled : Bool
  dedupWindowSeconds : Int
  priority : AlarmPriority

/-- What the camera, the rules and the mutes say at a moment. -/
structure Settings where
  alarmsEnabled : Bool
  /-- Enabled, and recording on motion. -/
  armed : Bool
  rule : AlarmSource → String → Option AlarmRule
  muted : Bool
  quietSeconds : Int

def inferSource (type : String) : Option AlarmSource :=
  if "STREAM_".toList <+: type.toList then some .stream
  else if "HEALTH_".toList <+: type.toList then some .health
  else if type = "MOTION_DETECTED" then some .motion
  else if "MOTION_".toList <+: type.toList then some .motion
  else if "AI_".toList <+: type.toList ∨ "ANALYTICS_".toList <+: type.toList then some .analytics
  else none

def isRecoveryEvent (type : String) : Bool :=
  type ∈ ["HEALTH_AUTO_RECOVERED", "HEALTH_RECORDING_RECOVERED", "STREAM_RESUMED",
    "STREAM_RECOVERED"]

structure EventInput where
  eventId : String
  cameraId : Access.Id
  type : String
  severity : String
  message : String
  metadata : Option Json.Value
  occurredAt : Int

/-- `typeof input.metadata === 'object' && input.metadata ? input.metadata : {}`. -/
def EventInput.payload (input : EventInput) : Json.Value :=
  match input.metadata with
  | some (.obj members) => .obj members
  | some (.arr items) => .arr items
  | _ => .obj []

def recovered : AlarmSource → List AlarmSource
  | .health => [.health, .stream]
  | source => [source]

/-- `status: { in: [OPEN, ACKED] }`. -/
def unresolved (row : AlarmInstance) : Bool := row.status = .open || row.status = .acked

/-! ## Calls -/

/-- What reaches an alarm: an operator, a delivery or an event. -/
inductive Request where
  | act (user : Operator) (action : Action)
  | deliver (entry : Json.Value)
  | receipt (entry : Json.Value)
  | event (input : EventInput)
  | resolveStale (now : Int)

/-- Where a request is between two queries. -/
inductive Phase where
  | arrived
  | writing (existing : AlarmInstance)
  | quietRule (now : Int)
  | quieting (now quietSeconds : Int)
  | recovering (source : AlarmSource)
  | resolving
  | checking (source : AlarmSource)
  | ruling (source : AlarmSource)
  | muting (source : AlarmSource) (rule : AlarmRule)
  | looking (source : AlarmSource) (rule : AlarmRule)
  | updating (rule : AlarmRule)
  | ended

structure Call where
  request : Request
  phase : Phase := .arrived

structure System where
  alarm : AlarmInstance
  settings : Settings
  calls : List Call := []
  clock : Int := 0

def System.goTo (s : System) (i : Nat) (c : Call) (phase : Phase) : System :=
  { s with calls := s.calls.set i { c with phase := phase } }

def System.write (s : System) (alarm : AlarmInstance) : System := { s with alarm := alarm }

/-- Where an event goes once its stale alarms are resolved. -/
def afterStale (input : EventInput) : Phase :=
  match inferSource input.type with
  | none => .ended
  | some source => if isRecoveryEvent input.type then .recovering source else .checking source

def arrive (s : System) (i : Nat) (c : Call) : System :=
  match c.request with
  | .act _ (.addNote note) =>
    s.goTo i c (if JsText.trim note = "" then .ended else .writing s.alarm)
  | .act _ _ | .deliver _ | .receipt _ => s.goTo i c (.writing s.alarm)
  | .event input =>
    if (inferSource input.type).isSome && input.type = "MOTION_DETECTED" then
      s.goTo i c (.quietRule input.occurredAt)
    else s.goTo i c (afterStale input)
  | .resolveStale now => s.goTo i c (.quietRule now)

/-- The metadata a writer of the metadata writes, from the row it has read. -/
def Request.metadata (iso : Int → List Char) (now : Int) (existing : AlarmInstance) :
    Request → Option Json.Value
  | .act user action => some (action.metadata iso user now existing)
  | .deliver entry => some (appendDelivery existing.metadata entry)
  | .receipt entry => some (appendPushOutcome existing.metadata entry)
  | .event _ | .resolveStale _ => none

def Request.write (iso : Int → List Char) (now : Int) (existing row : AlarmInstance) :
    Request → AlarmInstance
  | .act user action => action.write iso user now existing row
  | .deliver entry => { row with metadata := some (appendDelivery existing.metadata entry) }
  | .receipt entry => { row with metadata := some (appendPushOutcome existing.metadata entry) }
  | .event _ | .resolveStale _ => row

def resolveQuiet (row : AlarmInstance) (now quietSeconds : Int) : AlarmInstance :=
  if row.source = .motion && row.type = "MOTION_DETECTED" && unresolved row &&
      row.lastOccurredAt ≤ now - quietSeconds * 1000 then
    { row with
      status := .resolved
      resolvedAt := some now
      resolvedByUserName := some "SYSTEM_MOTION_QUIET"
      note := some ("Resolvido automaticamente após " ++ toString quietSeconds ++
        "s sem novo movimento.") }
  else row

def autoResolve (row : AlarmInstance) (input : EventInput) : AlarmInstance :=
  { row with
    status := .resolved
    resolvedAt := some input.occurredAt
    resolvedByUserName := some "SYSTEM_AUTO_RECOVERY"
    note := some input.message
    eventId := some input.eventId }

def repeatEvent (row : AlarmInstance) (input : EventInput) (rule : AlarmRule) : AlarmInstance :=
  { row with
    eventId := some input.eventId
    message := input.message
    severity := input.severity
    priority := rule.priority
    metadata := some input.payload
    lastOccurredAt := input.occurredAt
    occurrenceCount := row.occurrenceCount + 1 }

def advanceEvent (s : System) (i : Nat) (c : Call) (input : EventInput) : Option System :=
  match c.phase with
  | .recovering source =>
    some (s.goTo i c (if s.alarm.cameraId = some input.cameraId && unresolved s.alarm &&
      s.alarm.source ∈ recovered source then .resolving else .ended))
  | .resolving => some ((s.write (autoResolve s.alarm input)).goTo i c .ended)
  | .checking source =>
    some (s.goTo i c (if !s.settings.alarmsEnabled ||
      (input.type = "MOTION_DETECTED" && !s.settings.armed) then .ended else .ruling source))
  | .ruling source =>
    match s.settings.rule source input.type with
    | some rule => some (s.goTo i c (if rule.isEnabled then .muting source rule else .ended))
    | none => some (s.goTo i c .ended)
  | .muting source rule =>
    some (s.goTo i c (if s.settings.muted then .ended else .looking source rule))
  | .looking source rule =>
    some (s.goTo i c (if s.alarm.cameraId = some input.cameraId && s.alarm.source = source &&
      s.alarm.type = input.type && unresolved s.alarm &&
      input.occurredAt - rule.dedupWindowSeconds * 1000 ≤ s.alarm.lastOccurredAt then
      .updating rule else .ended))
  | .updating rule => some ((s.write (repeatEvent s.alarm input rule)).goTo i c .ended)
  | _ => none

/-- What a request does when its query is answered. -/
def advance (iso : Int → List Char) (s : System) (i : Nat) (c : Call) : Option System :=
  match c.phase, c.request with
  | .arrived, _ => some (arrive s i c)
  | .ended, _ => none
  | .writing existing, request =>
    some ((s.write (request.write iso s.clock existing s.alarm)).goTo i c .ended)
  | .quietRule now, _ => some (s.goTo i c (.quieting now (max 30 s.settings.quietSeconds)))
  | .quieting now quietSeconds, .event input =>
    some ((s.write (resolveQuiet s.alarm now quietSeconds)).goTo i c (afterStale input))
  | .quieting now quietSeconds, _ =>
    some ((s.write (resolveQuiet s.alarm now quietSeconds)).goTo i c .ended)
  | _, .event input => advanceEvent s i c input
  | _, _ => none

inductive Label where
  | request (r : Request)
  | advance (i : Nat)
  | giveUp (i : Nat)
  | configure (settings : Settings)
  | setClock (clock : Int)

def step (iso : Int → List Char) (s : System) : Label → Option System
  | .request r => some { s with calls := s.calls ++ [{ request := r }] }
  | .advance i => (s.calls[i]?).bind (advance iso s i)
  | .giveUp i => (s.calls[i]?).map (fun c => s.goTo i c .ended)
  | .configure settings => some { s with settings := settings }
  | .setClock clock => some { s with clock := clock }

def alarmMachine (iso : Int → List Char) : Machine System Label where
  init s := ∃ alarm settings clock, s = { alarm := alarm, settings := settings, clock := clock }
  step := step iso

end Drac.Alarms
