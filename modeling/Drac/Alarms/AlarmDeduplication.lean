import Drac.Alarms.AlarmLifeCycle
import Mathlib.Data.List.MinMax

/-
  Which alarm an event is counted in.

  Correspondence (`alarms.service.ts` ↔ Lean):
    processEvent                 ↔ `Call`, `advance`; its query `findFirst`
    resolveStaleMotionAlarms     ↔ the phases `quietRule`, `quieting`
    autoResolveForCamera         ↔ the phases `recovering`, `resolving`
    the status an operator sets  ↔ `Label.setStatus`

  The table of the alarms, named by their place in it, and events that go from await to await.
  The alarm an event repeats is looked for in one query and written in another, and so is a new
  one. An event that is turned away (the camera, the rule, a mute) or fails ends at its await
  (`Label.giveUp`). What else an alarm carries, and who writes that, is in `AlarmHistory`.
-/

namespace Drac.Alarms.Deduplication

open Runs

/-- Where an event is between two queries. -/
inductive Phase where
  | arrived
  | quietRule
  | quieting (quietSeconds : Int)
  | recovering (source : AlarmSource)
  | resolving (targets : List Nat)
  | checking (source : AlarmSource)
  | ruling (source : AlarmSource)
  | muting (source : AlarmSource) (rule : AlarmRule)
  | looking (source : AlarmSource) (rule : AlarmRule)
  | updating (source : AlarmSource) (rule : AlarmRule) (existing : Nat)
  | creating (source : AlarmSource) (rule : AlarmRule)
  | counted (alarm : Nat)
  | ended

/-- An event on its way. -/
structure Call where
  input : EventInput
  phase : Phase := .arrived

structure System where
  alarms : List AlarmInstance := []
  settings : Settings
  calls : List Call := []

def System.goTo (s : System) (i : Nat) (c : Call) (phase : Phase) : System :=
  { s with calls := s.calls.set i { c with phase := phase } }

/-! ## The queries -/

def windowMs (rule : AlarmRule) : Int := rule.dedupWindowSeconds * 1000

/-- The `where` of the alarm an event repeats. -/
def repeats (input : EventInput) (source : AlarmSource) (rule : AlarmRule) (row : AlarmInstance) :
    Bool :=
  row.cameraId = some input.cameraId && row.source = source && row.type = input.type &&
    unresolved row && input.occurredAt - windowMs rule ≤ row.lastOccurredAt

def lastOf (alarms : List AlarmInstance) (k : Nat) : Int :=
  ((alarms[k]?).map AlarmInstance.lastOccurredAt).getD 0

/-- `findFirst`, the latest first. -/
def findFirst (alarms : List AlarmInstance) (input : EventInput) (source : AlarmSource)
    (rule : AlarmRule) : Option Nat :=
  @List.argmax _ _ Int.instLinearOrder.toPreorder _ (lastOf alarms)
    ((List.range alarms.length).filter (fun k => (alarms[k]?).any (repeats input source rule)))

def targetsOf (alarms : List AlarmInstance) (input : EventInput) (source : AlarmSource) : List Nat :=
  (List.range alarms.length).filter (fun k => (alarms[k]?).any (fun row =>
    row.cameraId = some input.cameraId && unresolved row && row.source ∈ recovered source))

def quietSecondsOf (settings : Settings) : Int :=
  max (max 30 settings.quietSeconds)
    (((settings.rule .motion "MOTION_DETECTED").map AlarmRule.dedupWindowSeconds).getD 0)

/-! ## Steps -/

/-- Where an event goes once the quiet alarms are resolved. -/
def afterStale (input : EventInput) (source : AlarmSource) : Phase :=
  if isRecoveryEvent input.type then .recovering source else .checking source

def arrive (input : EventInput) : Phase :=
  match inferSource input.type with
  | none => .ended
  | some source => if input.type = "MOTION_DETECTED" then .quietRule else afterStale input source

/-- What a call does when its query is answered. -/
def advance (s : System) (i : Nat) (c : Call) : Option System :=
  match c.phase with
  | .arrived => some (s.goTo i c (arrive c.input))
  | .quietRule => some (s.goTo i c (.quieting (quietSecondsOf s.settings)))
  | .quieting quietSeconds =>
    let alarms := s.alarms.map (fun row => resolveQuiet row c.input.occurredAt quietSeconds)
    -- only an event of motion waits here
    some ({ s with alarms := alarms }.goTo i c (afterStale c.input .motion))
  | .recovering source =>
    let targets := targetsOf s.alarms c.input source
    some (s.goTo i c (if targets.isEmpty then .ended else .resolving targets))
  | .resolving targets =>
    let alarms := s.alarms.mapIdx (fun k row => if k ∈ targets then autoResolve row c.input else row)
    some ({ s with alarms := alarms }.goTo i c .ended)
  | .checking source =>
    let refused := !s.settings.alarmsEnabled ||
      (c.input.type = "MOTION_DETECTED" && !s.settings.armed)
    some (s.goTo i c (if refused then .ended else .ruling source))
  | .ruling source =>
    match s.settings.rule source c.input.type with
    | some rule => some (s.goTo i c (if rule.isEnabled then .muting source rule else .ended))
    | none => some (s.goTo i c .ended)
  | .muting source rule =>
    some (s.goTo i c (if s.settings.muted then .ended else .looking source rule))
  | .looking source rule =>
    match findFirst s.alarms c.input source rule with
    | some existing => some (s.goTo i c (.updating source rule existing))
    | none => some (s.goTo i c (.creating source rule))
  | .updating _ rule existing =>
    let alarms := s.alarms.modify existing (fun row => repeatEvent row c.input rule)
    some ({ s with alarms := alarms }.goTo i c (.counted existing))
  | .creating source rule =>
    let created := openAlarm (toString s.alarms.length) c.input source rule
    some ({ s with alarms := s.alarms ++ [created] }.goTo i c (.counted s.alarms.length))
  | .counted _ | .ended => none

def giveUp (s : System) (i : Nat) (c : Call) : Option System :=
  match c.phase with
  | .counted _ | .ended => none
  | _ => some (s.goTo i c .ended)

/-- One step: an event, an await of one, its failure, or a change from outside. -/
inductive Label where
  | event (input : EventInput)
  | advance (i : Nat)
  | giveUp (i : Nat)
  | configure (settings : Settings)
  | setStatus (alarm : Nat) (status : AlarmStatus)

def step (s : System) : Label → Option System
  | .event input => some { s with calls := s.calls ++ [{ input := input }] }
  | .advance i => (s.calls[i]?).bind (advance s i)
  | .giveUp i => (s.calls[i]?).bind (giveUp s i)
  | .configure settings => some { s with settings := settings }
  | .setStatus alarm status =>
    some { s with alarms := s.alarms.modify alarm (fun row => { row with status := status }) }

/-- The service with no alarms and no calls, under any settings. -/
def alarmsMachine : Machine System Label where
  init s := ∃ settings, s = { settings := settings }
  step := step

end Drac.Alarms.Deduplication
