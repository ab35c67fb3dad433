import Drac.Lib.JsObject
import Drac.Lib.JsText

/-
  The store of the Central's document.

  Correspondence (`server.js`, `datastore/*.js` ↔ Lean):
    normalizeDb, legacyLoadDb, legacySaveDb   ↔ the same names
    installationToRow, rowToInstallation, userToRow   ↔ the same names; the other mappers
                                                copy a record and are not written out
    mergeMap, sortAuditEvents, mergeAuditEvents, mergeDb   ↔ the same names
    reconcile, migrateFromLegacy   ↔ the same names
    readAll, writeAll   ↔ the same names
    doInit, ensureInit, load, save   ↔ the same names

  A record is the list of its fields, with values of any type that is read as JSON. A table
  is its key column and `payload`; the columns drawn from the payload are read by no
  function here. The file holds a document, the empty one where it is missing, and keeps
  what is written, as the tables do.
-/

namespace Drac.Central.Datastore

open JsObject

/-- What JavaScript makes of the values of a record. -/
class JsonValue (V : Type) where
  text : String → V
  isNullish : V → Bool
  /-- `String(value)`. -/
  toText : V → String
  /-- `new Date(value || 0).getTime() || 0`. -/
  toMillis : V → Int
  toText_text : ∀ s, toText (text s) = s
  text_present : ∀ s, isNullish (text s) = false

/-- What JavaScript makes of texts. -/
structure Locale where
  toLowerCase : String → String
  /-- `a.localeCompare(b) <= 0`. -/
  precedes : String → String → Bool

/-- `DATA_STORE`. -/
inductive Mode where
  | json
  | dual
  | pg
  deriving DecidableEq, Repr

variable {V : Type}

abbrev Record (V : Type) := List (String × V)

abbrev Collection (V : Type) := Obj String (Record V)

structure Db (V : Type) where
  installations : Collection V
  users : Collection V
  sessions : Collection V
  auditEvents : List (Record V)

def emptyDb : Db V := ⟨Obj.empty, Obj.empty, Obj.empty, []⟩

structure Postgres (V : Type) where
  installations : Collection V
  users : Collection V
  sessions : Collection V
  auditEvents : Collection V
  /-- `meta` has the marker of the migration. -/
  migration : Bool

/-- The file, the tables and whether they were set up. -/
structure Store (V : Type) where
  file : Db V
  pg : Postgres V
  initialized : Bool

/-! ## The legacy file -/

/-- `delete item.installerToken`. -/
def dropToken (item : Record V) : Record V := JsMap.erase item "installerToken"

def copyEntries (f : String → Record V → Record V) (m : Collection V) : Collection V :=
  Obj.putAll (fun e : String × Record V => some e.1) (fun e => f e.1 e.2) m.entries Obj.empty

def normalizeDb (db : Db V) : Db V :=
  { db with installations := copyEntries (fun _ => dropToken) db.installations }

def legacyLoadDb (s : Store V) : Db V := normalizeDb s.file

def legacySaveDb (db : Db V) (s : Store V) : Store V := { s with file := normalizeDb db }

/-! ## Rows -/

section Rows

variable [JsonValue V] (locale : Locale)

open JsonValue

/-- `{ ...item, id }`. -/
def installationToRow (id : String) (item : Record V) : Record V :=
  JsMap.set item "id" (text id)

/-- A field that is there and neither null nor undefined. -/
def field? (record : Record V) (name : String) : Option V :=
  (JsMap.get? record name).bind (fun v => if isNullish v then none else some v)

/-- The record, with the key it is put under; a payload without an id has none to read. -/
def rowToInstallation (payload : Record V) : String × Record V :=
  match field? payload "id" with
  | some v => (toText v, payload)
  | none => ("undefined", JsMap.erase payload "id")

def userKey (email : String) : String := locale.toLowerCase (JsText.trim email)

/-- `ev.id`, as the text it is kept under. -/
def eventKey (event : Record V) : Option String := (field? event "id").map toText

/-! ## PostgreSQL -/

def readAll (pg : Postgres V) : Db V where
  installations := Obj.putAll (fun e : String × Record V => some (rowToInstallation e.2).1)
    (fun e => (rowToInstallation e.2).2) pg.installations.entries Obj.empty
  users := copyEntries (fun _ => id) pg.users
  sessions := copyEntries (fun _ => id) pg.sessions
  auditEvents := pg.auditEvents.entries.map Prod.snd

/-- The upserts of a collection, and the removal of every other row. -/
def writeCollection (rowKey : String → String) (toRow : String → Record V → Record V)
    (source table : Collection V) : Collection V :=
  (Obj.putAll (fun e : String × Record V => some (rowKey e.1)) (fun e => toRow e.1 e.2)
    source.entries table).retain (fun k => k ∈ source.keys)

def writeAuditEvents (events : List (Record V)) (table : Collection V) : Collection V :=
  (Obj.putAll eventKey id events table).retain (fun k => k ∈ events.filterMap eventKey)

def writeAll (db : Db V) (pg : Postgres V) : Postgres V :=
  { pg with
    installations := writeCollection id installationToRow db.installations pg.installations
    users := writeCollection (userKey locale) (fun _ => id) db.users pg.users
    sessions := writeCollection id (fun _ => id) db.sessions pg.sessions
    auditEvents := writeAuditEvents db.auditEvents pg.auditEvents }

def missingFromMap (map : Collection V) (existing : List String) : List (String × Record V) :=
  map.entries.filter (fun e => e.1 ∉ existing)

def missingAudit (events : List (Record V)) (existing : List String) : List (Record V) :=
  events.filter (fun ev => (eventKey ev).any (fun k => k ∉ existing))

def migrateFromLegacy (legacy : Db V) (pg : Postgres V) : Postgres V :=
  { pg with
    installations := Obj.putAll (fun e : String × Record V => some e.1)
      (fun e => installationToRow e.1 e.2)
      (missingFromMap legacy.installations pg.installations.keys) pg.installations
    users := Obj.putAll (fun e : String × Record V => some (userKey locale e.1)) Prod.snd
      (missingFromMap legacy.users pg.users.keys) pg.users
    sessions := Obj.putAll (fun e : String × Record V => some e.1) Prod.snd
      (missingFromMap legacy.sessions pg.sessions.keys) pg.sessions
    auditEvents := Obj.putAll eventKey id
      (missingAudit legacy.auditEvents pg.auditEvents.keys) pg.auditEvents }

/-! ## Reading both -/

def mergeMap (pgMap legacyMap : Collection V) : Collection V :=
  Obj.putAll (fun e : String × Record V => some e.1) Prod.snd pgMap.entries
    (copyEntries (fun _ => id) legacyMap)

/-- `String(ev?.id || '')`, for the events that have one. -/
def eventId (event : Record V) : String := (eventKey event).getD ""

def eventMillis (event : Record V) : Int := ((JsMap.get? event "at").map toMillis).getD 0

def sortAuditEvents (events : List (Record V)) : List (Record V) :=
  events.mergeSort (fun a b => eventMillis a < eventMillis b ||
    (eventMillis a = eventMillis b && locale.precedes (eventId a) (eventId b)))

/-- The events by their key: of two with one key the later. -/
def byId (events : List (Record V)) : Collection V := Obj.putAll eventKey id events Obj.empty

def mergeAuditEvents (pgEvents legacyEvents : List (Record V)) : List (Record V) :=
  sortAuditEvents locale
    ((Obj.putAll eventKey id pgEvents (byId legacyEvents)).entries.map Prod.snd)

def mergeDb (pgDb legacyDb : Db V) : Db V where
  installations := mergeMap pgDb.installations legacyDb.installations
  users := mergeMap pgDb.users legacyDb.users
  sessions := mergeMap pgDb.sessions legacyDb.sessions
  auditEvents := mergeAuditEvents locale pgDb.auditEvents legacyDb.auditEvents

/-! ## The store -/

def doInit (s : Store V) : Store V :=
  if s.pg.migration then s
  else { s with pg := { migrateFromLegacy locale (legacyLoadDb s) s.pg with migration := true } }

def ensureInit (mode : Mode) (s : Store V) : Store V :=
  if mode = .json ∨ s.initialized then s else { doInit locale s with initialized := true }

/-- The document, and the store after the read. -/
def load (mode : Mode) (s : Store V) : Db V × Store V :=
  let s' := ensureInit locale mode s
  match mode with
  | .json => (legacyLoadDb s', s')
  | .pg => (readAll s'.pg, s')
  | .dual => (mergeDb locale (readAll s'.pg) (legacyLoadDb s'), s')

def save (mode : Mode) (db : Db V) (s : Store V) : Store V :=
  let s' := ensureInit locale mode s
  match mode with
  | .json => legacySaveDb db s'
  | .pg | .dual => { s' with pg := writeAll locale db s'.pg }

inductive Call (V : Type) where
  | load
  | save (db : Db V)

def call (mode : Mode) (s : Store V) : Call V → Store V
  | .load => (load locale mode s).2
  | .save db => save locale mode db s

def calls (mode : Mode) (s : Store V) (chain : List (Call V)) : Store V :=
  chain.foldl (call locale mode) s

end Rows

end Drac.Central.Datastore
