import Drac.Lib.CursorPaging
import Drac.Lib.JsMap
import Drac.Lib.KeyedList
import Drac.Lib.Runs
import Drac.Cameras.RtspUrl

/-
  The alerts of an installation, and the history the Central keeps of them.

  Correspondence (`server.js` ↔ Lean):
    alertKey             ↔ `alertKey`
    updateAlertHistory   ↔ `updateAlertHistory`: `observe`, `settle`, `byLastSeen`, `sliceTo`
    handleHeartbeat      ↔ `heartbeat`, what it makes of the alerts

  A heartbeat brings any list of JSON values as alerts; `Values` says what the language makes
  of one. The history is read with its index as it stood before the heartbeat: an alert whose
  key is not in it is pushed, and is not put into the index, so that the same alert twice in
  one heartbeat is pushed twice. A heartbeat that throws (an alert that is `null`, a value
  with no text) is answered 500 and saves nothing.

  Each alert comes with the id drawn for it, should it be pushed.
-/

namespace Drac.Central.AlertHistory

open Runs
open Security (Text units)
open Cameras (trim)

/-- JSON values: which are truthy, their `String(value)` where it does not throw, and the value
of a literal. -/
structure Values (β : Type) where
  truthy : β → Bool
  string : β → Option Text
  text : Text → β

variable {β : Type}

/-- `value || fallback`. -/
def Values.or (V : Values β) (value : Option β) (fallback : β) : β :=
  (value.filter V.truthy).getD fallback

inductive Alert (β : Type) where
  | null
  | value (code message level : Option β)

def Alert.code : Alert β → Option β
  | .null => none
  | .value code _ _ => code

def Alert.message : Alert β → Option β
  | .null => none
  | .value _ message _ => message

inductive AlertStatus where
  | active
  | resolved
  deriving DecidableEq, Repr

/-- One alert in the history, by its key. -/
structure Entry (β : Type) where
  id : Text
  key : Text
  status : AlertStatus
  level : β
  code : β
  message : β
  firstSeenAt : Int
  lastSeenAt : Int
  resolvedAt : Option Int
  occurrences : Nat
  deriving DecidableEq

/-- What an installation runs on: its values, `toLowerCase`, and `ALERT_HISTORY_LIMIT` (0 where
it is no number). -/
structure Runtime (β : Type) where
  values : Values β
  toLowerCase : Text → Text
  limit : Int := 500

section

variable (R : Runtime β)

def alertKey (alert : Alert β) : Option Text := do
  let code ← R.values.string (R.values.or alert.code (R.values.text (units "generic")))
  let message ← R.values.string (R.values.or alert.message (R.values.text []))
  some (R.toLowerCase (trim code) ++ units ":" ++ (R.toLowerCase (trim message)).take 120)

/-- `new Map(history.map((entry, index) => [entry.key, index]))`. -/
def indexByKey (history : List (Entry β)) : List (Text × Nat) :=
  history.zipIdx.foldl (fun m e => JsMap.set m e.1.key e.2) []

def newEntry (id key : Text) (code message level : Option β) (now : Int) : Entry β where
  id := id
  key := key
  status := .active
  level := R.values.or level (R.values.text (units "warning"))
  code := R.values.or code (R.values.text (units "generic"))
  message := R.values.or message (R.values.text (units "Alerta operacional."))
  firstSeenAt := now
  lastSeenAt := now
  resolvedAt := none
  occurrences := 1

def seenAgain (code message level : Option β) (now : Int) (entry : Entry β) : Entry β :=
  { entry with
    status := .active
    level := R.values.or level (R.values.or (some entry.level) (R.values.text (units "warning")))
    code := R.values.or code (R.values.or (some entry.code) (R.values.text (units "generic")))
    message := R.values.or message (R.values.or (some entry.message)
      (R.values.text (units "Alerta operacional.")))
    lastSeenAt := now
    resolvedAt := none
    occurrences := entry.occurrences + 1 }

def observe (index : List (Text × Nat)) (now : Int) (history : List (Entry β)) :
    Alert β × Text → Option (List (Entry β))
  | (.null, _) => none
  | (.value code message level, id) =>
    (alertKey R (.value code message level)).map fun key =>
      match JsMap.get? index key with
      | none => history ++ [newEntry R id key code message level now]
      | some previousIndex => history.modify previousIndex (seenAgain R code message level now)

def settle (activeKeys : List Text) (now : Int) (entry : Entry β) : Entry β :=
  if entry.status = .active ∧ entry.key ∉ activeKeys then
    { entry with status := .resolved, resolvedAt := some now }
  else entry

/-- Last seen first; the sort is stable. -/
def byLastSeen (history : List (Entry β)) : List (Entry β) :=
  CursorPaging.byTime (fun entry => -entry.lastSeenAt) history

/-- `list.slice(0, limit)`. -/
def sliceTo (limit : Int) (list : List (Entry β)) : List (Entry β) :=
  if 0 ≤ limit then list.take limit.toNat else list.take (list.length - limit.natAbs)

def alertKeys (alerts : List (Alert β × Text)) : Option (List Text) :=
  alerts.mapM (fun alert => alertKey R alert.1)

def updateAlertHistory (history : List (Entry β)) (alerts : List (Alert β × Text)) (now : Int) :
    Option (List (Entry β)) := do
  let activeKeys ← alertKeys R alerts
  let seen ← alerts.foldlM (observe R (indexByKey history) now) history
  some (sliceTo R.limit (byLastSeen (seen.map (settle activeKeys now))))

/-! ## Heartbeats -/

/-- The alerts of one heartbeat, with the keys that `alertKey` gives them. -/
structure Heartbeat (β : Type) where
  alerts : List (Alert β × Text)
  now : Int

/-- The stored history, and the keys of the latest heartbeat accepted. -/
structure Installation (β : Type) where
  alertHistory : List (Entry β) := []
  latest : List Text := []

/-- What the heartbeat leaves; one that throws leaves what there was. -/
def heartbeat (s : Installation β) (h : Heartbeat β) : Installation β :=
  match updateAlertHistory R s.alertHistory h.alerts h.now, alertKeys R h.alerts with
  | some history, some keys => ⟨history, keys⟩
  | _, _ => s

/-- The heartbeats of an installation, from its provision. -/
def heartbeats : Machine (Installation β) (Heartbeat β) where
  init s := s = {}
  step s h := some (heartbeat R s h)

end

end Drac.Central.AlertHistory
