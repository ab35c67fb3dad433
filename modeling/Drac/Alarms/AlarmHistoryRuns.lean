import Drac.Alarms.AlarmHistory

/-
  What is kept of an alarm's history.

  Every writer adds to what it has read: an action of an operator appends one transition, a
  worker its note, and each leaves the rest as it was. Three things take entries away. A
  repeated event writes its own metadata over the alarm's. Nothing orders the writers, so one
  that writes what it read before another wrote undoes that. And the delivery worker keeps
  the last thirty notes only (`lastThirty`).
-/

namespace Drac.Alarms

open Runs

variable {iso : Int → List Char} {s t : System} {a : Label}

/-! ## The property and the condition -/

/-- The writer of metadata a step lets write, and the row it has read. -/
def writer (s : System) : Label → Option (Request × AlarmInstance)
  | .advance i => (s.calls[i]?).bind (fun c =>
    match c.phase with
    | .writing existing => some (c.request, existing)
    | _ => none)
  | _ => none

def repeats (s : System) : Label → Option EventInput
  | .advance i => (s.calls[i]?).bind (fun c =>
    match c.phase, c.request with
    | .updating _, .event input => some input
    | _, _ => none)
  | _ => none

def transition (iso : Int → List Char) (s : System) (a : Label) : Option Json.Value :=
  (writer s a).bind (fun w =>
    match w.1 with
    | .act user action => some (action.entry iso user s.clock).toValue
    | _ => none)

/-- The snooze an action leaves: its own, the old one cleared, or the old one. -/
def Action.snoozeLeft (iso : Int → List Char) (user : Operator) (now : Int)
    (metadata : Option Json.Value) : Action → Option Json.Value
  | .snooze minutes note => some (snoozed iso user now minutes note)
  | .unsnooze note => some (cleared iso user now note (snoozeOf metadata))
  | _ => snoozeOf metadata

def snoozeAfter (iso : Int → List Char) (s : System) (a : Label) : Option Json.Value :=
  match (writer s a).map Prod.fst with
  | some (.act user action) => action.snoozeLeft iso user s.clock s.alarm.metadata
  | _ => snoozeOf s.alarm.metadata

/-- The notes after a step, where `kept` is what a delivery keeps of them. -/
def notesAfter (kept : List Json.Value → List Json.Value) (s : System) (a : Label) :
    List Json.Value :=
  match (writer s a).map Prod.fst with
  | some (.deliver entry) => kept (deliveryOf s.alarm.metadata ++ [entry])
  | some (.receipt entry) => deliveryOf s.alarm.metadata ++ [entry]
  | _ => deliveryOf s.alarm.metadata

/-- The history only grows, by one entry for each action completed, and a snooze and the
notes are what their own operations leave. -/
structure AppendOnly (iso : Int → List Char) (kept : List Json.Value → List Json.Value)
    (G : System → Label → Prop) : Prop where
  history : ∀ s a t, Reach (alarmMachine iso) G s → G s a → step iso s a = some t →
    historyOf t.alarm.metadata = historyOf s.alarm.metadata ++ (transition iso s a).toList
  grows : ∀ s t, Reach (alarmMachine iso) G s → Path (alarmMachine iso) G s t →
    historyOf s.alarm.metadata <+: historyOf t.alarm.metadata
  snooze : ∀ s a t, Reach (alarmMachine iso) G s → G s a → step iso s a = some t →
    snoozeOf t.alarm.metadata = snoozeAfter iso s a
  notes : ∀ s a t, Reach (alarmMachine iso) G s → G s a → step iso s a = some t →
    deliveryOf t.alarm.metadata = notesAfter kept s a

/-- A writer finds the metadata it has read; an event writes the history, the snooze and the
notes that are there. -/
def undisturbed (s : System) (a : Label) : Bool :=
  (writer s a).all (fun w => w.2.metadata = s.alarm.metadata) &&
    (repeats s a).all (fun input =>
      historyOf (some input.payload) = historyOf s.alarm.metadata &&
        snoozeOf (some input.payload) = snoozeOf s.alarm.metadata &&
        deliveryOf (some input.payload) = deliveryOf s.alarm.metadata)

def Undisturbed (s : System) (a : Label) : Prop := undisturbed s a = true

/-- A delivery finds fewer notes than the thirty it keeps. -/
def roomForNote (s : System) (a : Label) : Bool :=
  match (writer s a).map Prod.fst with
  | some (.deliver _) => (deliveryOf s.alarm.metadata).length < 30
  | _ => true

/-- Undisturbed, with room for the notes. -/
def Careful (s : System) (a : Label) : Prop := (undisturbed s a && roomForNote s a) = true

/-! ## What the writers leave -/

theorem get?_spread_set (members : List (List Char × Json.Value)) (k : List Char)
    (v : Json.Value) (k' : List Char) :
    JsMap.get? (spread (some (.obj (JsMap.set members k v)))) k' =
      if k = k' then some v else JsMap.get? members k' :=
  JsMap.get?_set members k v k'

variable (metadata : Option Json.Value)

theorem history_appendTransition (entry : Entry) :
    historyOf (some (appendTransition metadata entry)) =
      historyOf metadata ++ [entry.toValue] := by
  unfold appendTransition
  rw [historyOf, get?_spread_set, if_pos rfl]
  rfl

theorem delivery_appendTransition (entry : Entry) :
    deliveryOf (some (appendTransition metadata entry)) = deliveryOf metadata := by
  unfold appendTransition
  rw [deliveryOf, get?_spread_set, if_neg (by decide)]
  rfl

theorem snooze_appendTransition (entry : Entry) :
    snoozeOf (some (appendTransition metadata entry)) = snoozeOf metadata := by
  unfold appendTransition
  rw [snoozeOf, get?_spread_set, if_neg (by decide)]
  rfl

theorem history_appendDelivery (entry : Json.Value) :
    historyOf (some (appendDelivery metadata entry)) = historyOf metadata := by
  unfold appendDelivery
  dsimp only
  rw [historyOf, get?_spread_set, if_neg (by decide), JsMap.get?_set, if_neg (by decide),
    JsMap.get?_set, if_neg (by decide)]
  rfl

theorem delivery_appendDelivery (entry : Json.Value) :
    deliveryOf (some (appendDelivery metadata entry)) =
      lastThirty (deliveryOf metadata ++ [entry]) := by
  unfold appendDelivery
  dsimp only
  rw [deliveryOf, get?_spread_set, if_neg (by decide), JsMap.get?_set, if_neg (by decide),
    JsMap.get?_set, if_pos rfl]
  rfl

theorem snooze_appendDelivery (entry : Json.Value) :
    snoozeOf (some (appendDelivery metadata entry)) = snoozeOf metadata := by
  unfold appendDelivery
  dsimp only
  rw [snoozeOf, get?_spread_set, if_neg (by decide), JsMap.get?_set, if_neg (by decide),
    JsMap.get?_set, if_neg (by decide)]
  rfl

theorem history_appendPushOutcome (entry : Json.Value) :
    historyOf (some (appendPushOutcome metadata entry)) = historyOf metadata := by
  unfold appendPushOutcome
  rw [historyOf, get?_spread_set, if_neg (by decide)]
  rfl

theorem delivery_appendPushOutcome (entry : Json.Value) :
    deliveryOf (some (appendPushOutcome metadata entry)) = deliveryOf metadata ++ [entry] := by
  unfold appendPushOutcome
  rw [deliveryOf, get?_spread_set, if_pos rfl]
  rfl

theorem snooze_appendPushOutcome (entry : Json.Value) :
    snoozeOf (some (appendPushOutcome metadata entry)) = snoozeOf metadata := by
  unfold appendPushOutcome
  rw [snoozeOf, get?_spread_set, if_neg (by decide)]
  rfl

/-- What an action appends its transition to has the history and the notes there were. -/
theorem history_base (user : Operator) (now : Int) (metadata : Option Json.Value)
    (action : Action) :
    historyOf (action.base iso user now metadata) = historyOf metadata := by
  cases action with
  | acknowledge | resolve | addNote => rfl
  | snooze | unsnooze =>
    unfold Action.base
    rw [historyOf, get?_spread_set, if_neg (by decide)]
    rfl

theorem delivery_base (user : Operator) (now : Int) (metadata : Option Json.Value)
    (action : Action) :
    deliveryOf (action.base iso user now metadata) = deliveryOf metadata := by
  cases action with
  | acknowledge | resolve | addNote => rfl
  | snooze | unsnooze =>
    unfold Action.base
    rw [deliveryOf, get?_spread_set, if_neg (by decide)]
    rfl

theorem snooze_base (user : Operator) (now : Int) (metadata : Option Json.Value)
    (action : Action) :
    snoozeOf (action.base iso user now metadata) =
      action.snoozeLeft iso user now metadata := by
  cases action with
  | acknowledge | resolve | addNote => rfl
  | snooze | unsnooze =>
    unfold Action.base
    rw [snoozeOf, get?_spread_set, if_pos rfl]
    rfl

/-! ## Steps -/

/-- What a step leaves of the metadata: what a writer made of what it had read, what an
event brought, or what there was. -/
structure Writes (iso : Int → List Char) (s : System) (a : Label) (t : System) : Prop where
  of_writer : ∀ request existing, writer s a = some (request, existing) →
    t.alarm.metadata = (request.metadata iso s.clock existing).or s.alarm.metadata
  of_repeats : ∀ input, repeats s a = some input → t.alarm.metadata = some input.payload
  of_other : writer s a = none → repeats s a = none → t.alarm.metadata = s.alarm.metadata

theorem writes_nothing (hwriter : writer s a = none) (hrepeats : repeats s a = none)
    (h : t.alarm.metadata = s.alarm.metadata) : Writes iso s a t := by
  refine ⟨?_, ?_, fun _ _ => h⟩
  · intro request existing hsome
    rw [hwriter] at hsome
    cases hsome
  · intro input hsome
    rw [hrepeats] at hsome
    cases hsome

theorem metadata_write (request : Request) (now : Int) (existing row : AlarmInstance) :
    (request.write iso now existing row).metadata =
      (request.metadata iso now existing).or row.metadata := by
  cases request with
  | act user action => cases action <;> rfl
  | _ => rfl

theorem metadata_resolveQuiet (row : AlarmInstance) (now quietSeconds : Int) :
    (resolveQuiet row now quietSeconds).metadata = row.metadata := by
  unfold resolveQuiet
  split <;> rfl

theorem arrive_alarm (s : System) (i : Nat) (c : Call) : (arrive s i c).alarm = s.alarm := by
  unfold arrive
  split
  · rfl
  · rfl
  · rfl
  · rfl
  · split <;> rfl
  · rfl

theorem advanceEvent_metadata {i : Nat} {c : Call} {input : EventInput}
    (h : advanceEvent s i c input = some t) :
    (∃ rule, c.phase = .updating rule) ∧ t.alarm.metadata = some input.payload ∨
      (∀ rule, c.phase ≠ .updating rule) ∧ t.alarm.metadata = s.alarm.metadata := by
  unfold advanceEvent at h
  cases hphase : c.phase with
  | updating rule =>
    rw [hphase] at h
    cases h
    exact Or.inl ⟨⟨rule, rfl⟩, rfl⟩
  | ruling source =>
    rw [hphase] at h
    dsimp only at h
    split at h
    · cases h
      exact Or.inr ⟨(fun _ h => nomatch h), rfl⟩
    · cases h
      exact Or.inr ⟨(fun _ h => nomatch h), rfl⟩
  | recovering | resolving | checking | muting | looking =>
    rw [hphase] at h
    cases h
    exact Or.inr ⟨(fun _ h => nomatch h), rfl⟩
  | _ =>
    rw [hphase] at h
    cases h

theorem writes_plain {i : Nat} {request : Request} {phase : Phase}
    (hget : s.calls[i]? = some ⟨request, phase⟩) (hwriting : ∀ existing, phase ≠ .writing existing)
    (hupdating : ∀ rule, phase ≠ .updating rule) (hsame : t.alarm.metadata = s.alarm.metadata) :
    Writes iso s (.advance i) t := by
  apply writes_nothing _ _ hsame
  · cases phase <;> simp_all [writer]
  · cases phase <;> simp_all [repeats]

theorem writes_event {i : Nat} {input : EventInput} {phase : Phase}
    (hget : s.calls[i]? = some ⟨.event input, phase⟩)
    (hwriting : ∀ existing, phase ≠ .writing existing)
    (h : advanceEvent s i ⟨.event input, phase⟩ input = some t) : Writes iso s (.advance i) t := by
  obtain ⟨⟨rule, hphase⟩, hpayload⟩ | ⟨hupdating, hsame⟩ := advanceEvent_metadata h
  · subst hphase
    refine ⟨?_, ?_, ?_⟩
    · intro request existing hsome
      simp [writer, hget] at hsome
    · intro input' hsome
      simp only [repeats, hget, Option.bind_some, Option.some.injEq] at hsome
      rw [← hsome]
      exact hpayload
    · intro _ hnone
      simp [repeats, hget] at hnone
  · exact writes_plain hget hwriting hupdating hsame

theorem writes_advance {i : Nat} {c : Call} (hget : s.calls[i]? = some c)
    (h : advance iso s i c = some t) : Writes iso s (.advance i) t := by
  obtain ⟨request, phase⟩ := c
  cases phase with
  | arrived =>
    cases h
    apply writes_plain hget (fun _ h => nomatch h) (fun _ h => nomatch h)
    rw [arrive_alarm]
  | writing existing =>
    cases h
    refine ⟨?_, ?_, ?_⟩
    · intro request' existing' hsome
      simp only [writer, hget, Option.bind_some, Option.some.injEq, Prod.mk.injEq] at hsome
      obtain ⟨rfl, rfl⟩ := hsome
      exact metadata_write request s.clock existing s.alarm
    · intro input hsome
      simp [repeats, hget] at hsome
    · intro hnone
      simp [writer, hget] at hnone
  | quietRule now =>
    cases h
    exact writes_plain hget (fun _ h => nomatch h) (fun _ h => nomatch h) rfl
  | quieting now quietSeconds =>
    apply writes_plain hget (fun _ h => nomatch h) (fun _ h => nomatch h)
    cases request <;> cases h <;> exact metadata_resolveQuiet s.alarm now quietSeconds
  | recovering | resolving | checking | ruling | muting | looking | updating =>
    cases request with
    | event input => exact writes_event hget (fun _ h => nomatch h) h
    | _ => cases h
  | ended => cases h

theorem step_writes (h : step iso s a = some t) : Writes iso s a t := by
  cases a with
  | request r =>
    cases h
    exact writes_nothing rfl rfl rfl
  | advance i =>
    obtain ⟨c, hget, hc⟩ := Option.bind_eq_some_iff.mp h
    exact writes_advance hget hc
  | giveUp i =>
    obtain ⟨c, -, rfl⟩ := Option.map_eq_some_iff.mp h
    exact writes_nothing rfl rfl rfl
  | configure settings =>
    cases h
    exact writes_nothing rfl rfl rfl
  | setClock clock =>
    cases h
    exact writes_nothing rfl rfl rfl

/-! ## Undisturbed steps -/

/-- What is made of the request of a writer: `other` where there is none, or it writes nothing. -/
def Request.elim {β : Type} (act : Operator → Action → β) (deliver receipt : Json.Value → β)
    (other : β) : Option Request → β
  | some (.act user action) => act user action
  | some (.deliver entry) => deliver entry
  | some (.receipt entry) => receipt entry
  | _ => other

theorem read_after {β : Type} (read : Option Json.Value → β) (act : Operator → Action → β)
    (deliver receipt : Json.Value → β) (hstep : step iso s a = some t) (hguard : Undisturbed s a)
    (hact : ∀ user action, read (some (appendTransition
      (action.base iso user s.clock s.alarm.metadata) (action.entry iso user s.clock))) =
        act user action)
    (hdeliver : ∀ entry, read (some (appendDelivery s.alarm.metadata entry)) = deliver entry)
    (hreceipt : ∀ entry, read (some (appendPushOutcome s.alarm.metadata entry)) = receipt entry)
    (hrepeats : ∀ input, repeats s a = some input →
      read (some input.payload) = read s.alarm.metadata) :
    read t.alarm.metadata = Request.elim act deliver receipt (read s.alarm.metadata)
      ((writer s a).map Prod.fst) := by
  have hw : Writes iso s a t := step_writes hstep
  unfold Undisturbed undisturbed at hguard
  rw [Bool.and_eq_true] at hguard
  cases hwriter : writer s a with
  | some w =>
    obtain ⟨request, existing⟩ := w
    have hsame : existing.metadata = s.alarm.metadata := by
      simpa [hwriter] using hguard.1
    rw [hw.of_writer request existing hwriter]
    cases request with
    | act user action => exact hsame ▸ hact user action
    | deliver entry => exact hsame ▸ hdeliver entry
    | receipt entry => exact hsame ▸ hreceipt entry
    | event | resolveStale => rfl
  | none =>
    cases hrepeat : repeats s a with
    | some input =>
      rw [hw.of_repeats input hrepeat]
      exact hrepeats input hrepeat
    | none =>
      rw [hw.of_other hwriter hrepeat]
      rfl

/-- What an undisturbed event brings. -/
theorem repeats_same (hguard : Undisturbed s a) {input : EventInput}
    (hinput : repeats s a = some input) :
    historyOf (some input.payload) = historyOf s.alarm.metadata ∧
      snoozeOf (some input.payload) = snoozeOf s.alarm.metadata ∧
      deliveryOf (some input.payload) = deliveryOf s.alarm.metadata := by
  unfold Undisturbed undisturbed at hguard
  simpa [hinput, and_assoc] using (Bool.and_eq_true_iff.mp hguard).2

theorem history_step (hstep : step iso s a = some t) (hguard : Undisturbed s a) :
    historyOf t.alarm.metadata = historyOf s.alarm.metadata ++ (transition iso s a).toList := by
  rw [read_after historyOf
    (fun user action => historyOf s.alarm.metadata ++ [(action.entry iso user s.clock).toValue])
    (fun _ => historyOf s.alarm.metadata) (fun _ => historyOf s.alarm.metadata) hstep hguard
    (fun _ _ => by rw [history_appendTransition, history_base]) (history_appendDelivery _)
    (history_appendPushOutcome _) (fun _ hinput => (repeats_same hguard hinput).1)]
  unfold transition
  cases writer s a with
  | none => exact (List.append_nil _).symm
  | some w =>
    obtain ⟨request, existing⟩ := w
    cases request <;> simp [Request.elim]

theorem snooze_step (hstep : step iso s a = some t) (hguard : Undisturbed s a) :
    snoozeOf t.alarm.metadata = snoozeAfter iso s a := by
  rw [read_after snoozeOf
    (fun user action => action.snoozeLeft iso user s.clock s.alarm.metadata)
    (fun _ => snoozeOf s.alarm.metadata) (fun _ => snoozeOf s.alarm.metadata) hstep hguard
    (fun _ _ => by rw [snooze_appendTransition, snooze_base]) (snooze_appendDelivery _)
    (snooze_appendPushOutcome _) (fun _ hinput => (repeats_same hguard hinput).2.1)]
  unfold snoozeAfter
  cases writer s a with
  | none => rfl
  | some w =>
    obtain ⟨request, existing⟩ := w
    cases request <;> rfl

theorem notes_step (hstep : step iso s a = some t) (hguard : Undisturbed s a) :
    deliveryOf t.alarm.metadata = notesAfter lastThirty s a := by
  rw [read_after deliveryOf (fun _ _ => deliveryOf s.alarm.metadata)
    (fun entry => lastThirty (deliveryOf s.alarm.metadata ++ [entry]))
    (fun entry => deliveryOf s.alarm.metadata ++ [entry]) hstep hguard
    (fun _ _ => by rw [delivery_appendTransition, delivery_base]) (delivery_appendDelivery _)
    (delivery_appendPushOutcome _) (fun _ hinput => (repeats_same hguard hinput).2.2)]
  unfold notesAfter
  cases writer s a with
  | none => rfl
  | some w =>
    obtain ⟨request, existing⟩ := w
    cases request <;> rfl

theorem notesAfter_room (hroom : roomForNote s a = true) :
    notesAfter lastThirty s a = notesAfter id s a := by
  unfold notesAfter
  unfold roomForNote at hroom
  cases hwriter : (writer s a).map Prod.fst with
  | none => rfl
  | some request =>
    cases request with
    | deliver entry =>
      rw [hwriter] at hroom
      have hfew : (deliveryOf s.alarm.metadata).length < 30 := of_decide_eq_true hroom
      have hdrop : (deliveryOf s.alarm.metadata ++ [entry]).length - 30 = 0 := by
        rw [List.length_append, List.length_singleton]
        omega
      simp only [lastThirty, hdrop, List.drop_zero, id]
    | _ => rfl

/-! ## Runs -/

/-- Undisturbed runs are append-only, with the notes their steps leave. -/
theorem appendOnly_of_steps {kept : List Json.Value → List Json.Value}
    {G : System → Label → Prop} (hG : ∀ s a, G s a → Undisturbed s a)
    (hnotes : ∀ s a t, G s a → step iso s a = some t →
      deliveryOf t.alarm.metadata = notesAfter kept s a) : AppendOnly iso kept G := by
  refine ⟨?_, ?_, ?_, ?_⟩
  · intro s a t _ hguard hstep
    exact history_step hstep (hG s a hguard)
  · intro s t _ hpath
    refine hpath.invariant (I := fun t => historyOf s.alarm.metadata <+: historyOf t.alarm.metadata)
      ?_ (List.prefix_refl _)
    intro t a w hprefix hguard hstep
    have hnext := history_step hstep (hG t a hguard)
    rw [hnext]
    exact hprefix.trans (List.prefix_append _ _)
  · intro s a t _ hguard hstep
    exact snooze_step hstep (hG s a hguard)
  · intro s a t _ hguard hstep
    exact hnotes s a t hguard hstep

/-- In a run in which no writer writes over another and no event over the history, the
history is append-only, and so are the notes but for the last thirty; with room for each
delivery nothing is removed. -/
theorem history_append_only (iso : Int → List Char) :
    AppendOnly iso lastThirty Undisturbed ∧ AppendOnly iso id Careful := by
  constructor
  · exact appendOnly_of_steps (fun _ _ h => h) (fun _ _ _ hguard hstep => notes_step hstep hguard)
  · apply appendOnly_of_steps
    · exact fun _ _ h => (Bool.and_eq_true_iff.mp h).1
    · intro s a t hguard hstep
      obtain ⟨hundisturbed, hroom⟩ := Bool.and_eq_true_iff.mp hguard
      rw [notes_step hstep hundisturbed, notesAfter_room hroom]

/-- An alarm of motion in the yard, and a rule that records repetitions. -/
def yardMotion : System where
  alarm := {
    id := "a1", cameraId := some yard, source := .motion, type := "MOTION_DETECTED"
    title := "MOTION DETECTED", message := "motion (0.27)", severity := "INFO", priority := .p3
    firstOccurredAt := 0, lastOccurredAt := 0 }
  settings := {
    alarmsEnabled := true, armed := true, muted := false, quietSeconds := 300
    rule := fun _ _ => some ⟨true, 300, .p3⟩ }

def untold : Int → List Char := fun _ => []

/-- A call that reads the alarm and writes it, before its write. -/
def begins (i : Nat) (request : Request) : List Label := [.request request, .advance i]

def acknowledged (i : Nat) : List Label :=
  begins i (.act ⟨"u1", "Rui"⟩ (.acknowledge (some "Visto"))) ++ [Label.advance i]

/-- The alarm is acknowledged, notified and resolved. -/
theorem history_append_only_resolved : ∃ s t, Reach (alarmMachine untold) Careful s ∧
    step untold s (.advance 2) = some t ∧
    historyOf t.alarm.metadata =
      historyOf s.alarm.metadata ++ (transition untold s (.advance 2)).toList ∧
    (historyOf t.alarm.metadata).length = 2 := by
  have hrun : ((alarmMachine untold).run (fun s a => undisturbed s a && roomForNote s a)
      yardMotion (acknowledged 0 ++ begins 1 (.deliver (.num 1)) ++ [Label.advance 1] ++
        begins 2 (.act ⟨"u1", "Rui"⟩ (.resolve none)))).map
      (fun s => (undisturbed s (.advance 2) && roomForNote s (.advance 2),
        (step untold s (.advance 2)).map (fun t => (historyOf t.alarm.metadata).length))) =
      some (true, some 2) := by
    rfl
  obtain ⟨s, hreach, heq⟩ := reach_of_run (G := Careful) hrun ⟨_, _, _, rfl⟩ (fun _ _ h => h)
  simp only [Prod.mk.injEq, Option.map_eq_some_iff] at heq
  obtain ⟨hguard, t, ht, hlength⟩ := heq
  exact ⟨s, t, hreach, ht, (history_append_only untold).2.history s _ t hreach hguard ht, hlength⟩

/-- Motion goes on in the yard a second later. -/
def yardAgain : EventInput where
  eventId := "e2"
  cameraId := yard
  type := "MOTION_DETECTED"
  severity := "INFO"
  message := "motion (0.31)"
  metadata := none
  occurredAt := 1000

/-- The alarm is acknowledged, and the event of the next motion takes that away. -/
theorem repeated_event_erases : ¬ AppendOnly untold id Always := by
  have hrun : ((alarmMachine untold).run anyStep yardMotion
      (acknowledged 0 ++ .request (.event yardAgain) :: List.replicate 7 (.advance 1))).map
      (fun s => ((historyOf s.alarm.metadata).length, (step untold s (.advance 1)).map
        (fun t => (historyOf t.alarm.metadata).length))) = some (1, some 0) := by
    rfl
  obtain ⟨s, hreach, heq⟩ := reach_of_anyStep hrun ⟨_, _, _, rfl⟩
  simp only [Prod.mk.injEq, Option.map_eq_some_iff] at heq
  obtain ⟨hone, t, ht, herased⟩ := heq
  intro hkept
  rw [hkept.history s _ t hreach trivial ht, List.length_append, hone] at herased
  omega

end Drac.Alarms
