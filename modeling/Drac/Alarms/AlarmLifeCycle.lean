import Drac.Alarms.AlarmHistoryRuns

/-
  The life cycle of an alarm.

  An alarm starts open, as `processEvent` creates it, and then lives the runs of
  `alarmMachine`. No write of an operator asks for the status first: an acknowledge or a
  snooze that comes after the alarm is resolved leaves it acknowledged, its `resolvedAt` as it
  was. `step_status` says what each step does to the status.
-/

namespace Drac.Alarms

open Runs

variable {iso : Int → List Char} {s t : System} {a : Label}

/-- The alarm `processEvent` creates. -/
def openAlarm (id : String) (input : EventInput) (source : AlarmSource) (rule : AlarmRule) :
    AlarmInstance where
  id := id
  cameraId := some input.cameraId
  eventId := some input.eventId
  source := source
  type := input.type
  title := String.ofList (input.type.toList.map (fun c => if c = '_' then ' ' else c))
  message := input.message
  severity := input.severity
  priority := rule.priority
  metadata := some input.payload
  firstOccurredAt := input.occurredAt
  lastOccurredAt := input.occurredAt

/-- An alarm from its opening on. -/
def lifeMachine (iso : Int → List Char) : Machine System Label where
  init s := ∃ id input source rule settings clock,
    s = { alarm := openAlarm id input source rule, settings := settings, clock := clock }
  step := step iso

/-! ## The property and the condition -/

/-- A resolved alarm has the time of it, and no other has one. -/
def Consistent (row : AlarmInstance) : Prop :=
  row.status = .resolved ↔ row.resolvedAt.isSome = true

def Action.acks : Action → Bool
  | .acknowledge _ => true
  | .snooze _ _ => true
  | _ => false

def Request.acks : Request → Bool
  | .act _ action => action.acks
  | _ => false

/-- The step is the write of an operator's acknowledge or snooze. -/
def acks (s : System) (a : Label) : Bool := ((writer s a).map (fun w => w.1.acks)).getD false

/-- No acknowledge and no snooze of a resolved alarm. -/
def timely (s : System) (a : Label) : Bool := !(acks s a && s.alarm.status = .resolved)

def Timely (s : System) (a : Label) : Prop := timely s a = true

/-! ## Steps -/

/-- What a step leaves of a row's status; the flag says whether it acknowledged it. -/
inductive Leaves (row row' : AlarmInstance) : Bool → Prop where
  | same (hstatus : row'.status = row.status) (hresolved : row'.resolvedAt = row.resolvedAt) :
    Leaves row row' false
  | resolved (hstatus : row'.status = .resolved) (hresolved : row'.resolvedAt.isSome = true) :
    Leaves row row' false
  | acked (hstatus : row'.status = .acked) (hresolved : row'.resolvedAt = row.resolvedAt) :
    Leaves row row' true

theorem leaves_write (request : Request) (now : Int) (existing row : AlarmInstance) :
    Leaves row (request.write iso now existing row) request.acks := by
  cases request with
  | act user action =>
    cases action with
    | acknowledge note => exact .acked rfl rfl
    | resolve note => exact .resolved rfl rfl
    | addNote note => exact .same rfl rfl
    | snooze minutes note => exact .acked rfl rfl
    | unsnooze note => exact .same rfl rfl
  | _ => exact .same rfl rfl

theorem leaves_resolveQuiet (row : AlarmInstance) (now quietSeconds : Int) :
    Leaves row (resolveQuiet row now quietSeconds) false := by
  unfold resolveQuiet
  split
  · exact .resolved rfl rfl
  · exact .same rfl rfl

theorem leaves_advanceEvent {i : Nat} {input : EventInput} {phase : Phase}
    (h : advanceEvent s i ⟨.event input, phase⟩ input = some t) :
    Leaves s.alarm t.alarm false := by
  unfold advanceEvent at h
  cases phase with
  | resolving =>
    cases h
    exact .resolved rfl rfl
  | ruling source =>
    dsimp only at h
    split at h
    · cases h
      exact .same rfl rfl
    · cases h
      exact .same rfl rfl
  | recovering | checking | muting | looking | updating =>
    cases h
    exact .same rfl rfl
  | _ =>
    cases h

theorem acks_of_phase {i : Nat} {request : Request} {phase : Phase}
    (hget : s.calls[i]? = some ⟨request, phase⟩) (hwriting : ∀ existing, phase ≠ .writing existing) :
    acks s (.advance i) = false := by
  cases phase with
  | writing existing => exact absurd rfl (hwriting existing)
  | arrived | quietRule | quieting | recovering | resolving | checking | ruling | muting
  | looking | updating | ended => simp [acks, writer, hget]

theorem leaves_event {i : Nat} {input : EventInput} {phase : Phase}
    (hget : s.calls[i]? = some ⟨.event input, phase⟩)
    (hwriting : ∀ existing, phase ≠ .writing existing)
    (h : advanceEvent s i ⟨.event input, phase⟩ input = some t) :
    Leaves s.alarm t.alarm (acks s (.advance i)) := by
  rw [acks_of_phase hget hwriting]
  exact leaves_advanceEvent h

theorem leaves_advance {i : Nat} {c : Call} (hget : s.calls[i]? = some c)
    (h : advance iso s i c = some t) : Leaves s.alarm t.alarm (acks s (.advance i)) := by
  obtain ⟨request, phase⟩ := c
  cases phase with
  | writing existing =>
    cases h
    have hacks : acks s (.advance i) = request.acks := by
      simp [acks, writer, hget]
    rw [hacks]
    exact leaves_write request s.clock existing s.alarm
  | arrived =>
    rw [acks_of_phase hget (by simp)]
    cases h
    apply Leaves.same
    · rw [arrive_alarm]
    · rw [arrive_alarm]
  | quietRule now =>
    rw [acks_of_phase hget (by simp)]
    cases h
    exact .same rfl rfl
  | quieting now quietSeconds =>
    rw [acks_of_phase hget (by simp)]
    cases request <;> cases h <;> exact leaves_resolveQuiet s.alarm now quietSeconds
  | recovering | resolving | checking | ruling | muting | looking | updating =>
    cases request with
    | event input => exact leaves_event hget (by simp) h
    | _ => cases h
  | ended => cases h

/-- **What a step does to the status**: it acknowledges, or it resolves, or it leaves it. -/
theorem step_status (h : step iso s a = some t) : Leaves s.alarm t.alarm (acks s a) := by
  cases a with
  | request r =>
    cases h
    exact .same rfl rfl
  | advance i =>
    obtain ⟨c, hget, hc⟩ := Option.bind_eq_some_iff.mp h
    exact leaves_advance hget hc
  | giveUp i =>
    obtain ⟨c, -, rfl⟩ := Option.map_eq_some_iff.mp h
    exact .same rfl rfl
  | configure settings =>
    cases h
    exact .same rfl rfl
  | setClock clock =>
    cases h
    exact .same rfl rfl

theorem timely_iff (hconsistent : Consistent s.alarm) (h : step iso s a = some t) :
    Timely s a ↔ Consistent t.alarm := by
  have hleaves := step_status h
  unfold Timely timely Consistent at *
  cases hacks : acks s a with
  | false =>
    rw [hacks] at hleaves
    refine ⟨fun _ => ?_, fun _ => rfl⟩
    cases hleaves with
    | same hstatus hresolved => rw [hstatus, hresolved]; exact hconsistent
    | resolved hstatus hresolved => exact ⟨fun _ => hresolved, fun _ => hstatus⟩
  | true =>
    rw [hacks] at hleaves
    cases hleaves with
    | acked hstatus hresolved =>
      -- acknowledged now, so consistent exactly when there was no `resolvedAt`
      rw [hstatus, hresolved, ← hconsistent]
      simp

/-! ## Runs -/

/-- **The life cycle.** In a run with no acknowledge and no snooze of a resolved alarm, the
alarm is resolved exactly when it has a `resolvedAt`, and no operator opens or acknowledges it
again. And from there, a step that is such a click breaks the property, and no other does. -/
theorem alarm_life_cycle (iso : Int → List Char) :
    (∀ t, Reach (lifeMachine iso) Timely t → Consistent t.alarm) ∧
    ∀ s a t, Reach (lifeMachine iso) Timely s → step iso s a = some t →
      (Timely s a ↔ Consistent t.alarm ∧
        (acks s a = true → s.alarm.status = .resolved → t.alarm.status = .resolved)) := by
  have hkept : ∀ t, Reach (lifeMachine iso) Timely t → Consistent t.alarm := by
    intro t ht
    refine ht.invariant (I := fun t => Consistent t.alarm) ?_ ?_
    · rintro s ⟨id, input, source, rule, settings, clock, rfl⟩
      exact ⟨(fun h => nomatch h), (fun h => nomatch h)⟩
    · intro s a t hs hguard hstep
      exact (timely_iff hs hstep).mp hguard
  refine ⟨hkept, ?_⟩
  intro s a t hs hstep
  have hiff := timely_iff (hkept s hs) hstep
  constructor
  · intro htimely
    refine ⟨hiff.mp htimely, fun hacks hresolved => ?_⟩
    simp [Timely, timely, hacks, hresolved] at htimely
  · intro h
    exact hiff.mpr h.1

def yardOpened : System where
  alarm := openAlarm "a1" ⟨"e1", yard, "MOTION_DETECTED", "INFO", "motion (0.27)", none, 0⟩ .motion
    ⟨true, 300, .p3⟩
  settings := {
    alarmsEnabled := true, armed := true, muted := false, quietSeconds := 300
    rule := fun _ _ => some ⟨true, 300, .p3⟩ }

def resolvedByRui (i : Nat) : List Label :=
  begins i (.act ⟨"u1", "Rui"⟩ (.resolve none)) ++ [Label.advance i]

/-- The alarm is acknowledged and resolved. -/
theorem alarm_life_cycle_resolved : ∃ t, Reach (lifeMachine untold) Timely t ∧
    Consistent t.alarm ∧ t.alarm.status = .resolved := by
  have hrun : ((lifeMachine untold).run timely yardOpened
      (acknowledged 0 ++ resolvedByRui 1)).map (fun s => s.alarm.status) = some .resolved := by
    rfl
  obtain ⟨t, hreach, hresolved⟩ :=
    reach_of_run (G := Timely) hrun ⟨_, _, _, _, _, _, rfl⟩ (fun _ _ h => h)
  exact ⟨t, hreach, (alarm_life_cycle untold).1 t hreach, hresolved⟩

/-- The alarm is resolved and then acknowledged: it is acknowledged, and resolved at a time. -/
theorem late_click : ¬ ∀ t, Reach (lifeMachine untold) Always t → Consistent t.alarm := by
  have hrun : ((lifeMachine untold).run anyStep yardOpened
      (resolvedByRui 0 ++ acknowledged 1)).map
        (fun s => (s.alarm.status, s.alarm.resolvedAt.isSome)) = some (.acked, true) := by
    rfl
  obtain ⟨t, hreach, heq⟩ :=
    reach_of_anyStep hrun ⟨_, _, _, _, _, _, rfl⟩
  obtain ⟨hstatus, hsome⟩ := Prod.mk.inj heq
  intro hconsistent
  have hresolved := (hconsistent t hreach).mpr hsome
  rw [hstatus] at hresolved
  cases hresolved

end Drac.Alarms
