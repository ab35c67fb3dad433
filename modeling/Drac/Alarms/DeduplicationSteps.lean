import Drac.Alarms.AlarmDeduplication

/-
  What an event does, step by step.

  An event looks for the alarm it repeats, and writes one await later. `Settled` is the condition
  that what it has read still stands then: the query would find no other alarm, and the event is
  not earlier than the alarm it goes to.
-/

namespace Drac.Alarms.Deduplication

open Runs

variable {s t : System} {a : Label} {i k : Nat} {c : Call} {input : EventInput}
  {source : AlarmSource} {rule : AlarmRule} {row : AlarmInstance}

/-! ## What is counted -/

def Phase.alarm : Phase → Option Nat
  | .counted k => some k
  | _ => none

def Call.counted (c : Call) : Option (Nat × EventInput) := c.phase.alarm.map (fun k => (k, c.input))

/-- The events processed, each with the alarm it is counted in. -/
def countedEvents (s : System) : List (Nat × EventInput) := s.calls.filterMap Call.counted

/-- What the alarms count, in all. -/
def occurrences (s : System) : Nat := (s.alarms.map AlarmInstance.occurrenceCount).sum

/-- The rule that applies to an event, if its type has a source. -/
def ruleOf (settings : Settings) (input : EventInput) : Option AlarmRule :=
  (inferSource input.type).bind (fun source => settings.rule source input.type)

/-! ## The condition -/

/-- Two alarms of one camera, source and type. -/
def SameKind (row row' : AlarmInstance) : Prop :=
  row.cameraId = row'.cameraId ∧ row.source = row'.source ∧ row.type = row'.type

/-- More than a window between the last times. -/
def Apart (windowMs : Int) (row row' : AlarmInstance) : Prop :=
  row.lastOccurredAt + windowMs < row'.lastOccurredAt ∨
    row'.lastOccurredAt + windowMs < row.lastOccurredAt

/-- The event that writes now would find the same alarm, and is not earlier than it. -/
def timely (s : System) (i : Nat) : Bool :=
  match s.calls[i]? with
  | some ⟨input, .updating source rule existing⟩ =>
    (findFirst s.alarms input source rule).all (fun k => k = existing) &&
      lastOf s.alarms existing ≤ input.occurredAt
  | some ⟨input, .creating source rule⟩ => (findFirst s.alarms input source rule).isNone
  | _ => true

/-- The alarm opened again has no open one of its kind within the window. -/
def Alone (s : System) (k : Nat) : Prop :=
  ∀ row j row' rule, s.alarms[k]? = some row → s.alarms[j]? = some row' → j ≠ k →
    unresolved row' = true → SameKind row row' → s.settings.rule row.source row.type = some rule →
    Apart (windowMs rule) row row'

/-- What an event has read stands when it writes, the rules stay, and no alarm is opened again
beside another. -/
def Settled (s : System) : Label → Prop
  | .advance i => timely s i = true
  | .configure settings => settings.rule = s.settings.rule
  | .setStatus k status => status = .resolved ∨
    (∀ row, s.alarms[k]? = some row → unresolved row = true) ∨ Alone s k
  | .event _ | .giveUp _ => True

/-! ## The queries -/

theorem repeats_iff : repeats input source rule row = true ↔
    row.cameraId = some input.cameraId ∧ row.source = source ∧ row.type = input.type ∧
      unresolved row = true ∧ input.occurredAt - windowMs rule ≤ row.lastOccurredAt := by
  unfold repeats
  simp only [Bool.and_eq_true, decide_eq_true_eq, and_assoc]

variable {alarms : List AlarmInstance}

theorem lastOf_eq (h : alarms[k]? = some row) :
    lastOf alarms k = row.lastOccurredAt := by
  rw [lastOf, h]
  rfl

theorem mem_candidates :
    k ∈ (List.range alarms.length).filter (fun k => (alarms[k]?).any (repeats input source rule)) ↔
      ∃ row, alarms[k]? = some row ∧ repeats input source rule row = true := by
  rw [List.mem_filter, List.mem_range, Option.any_eq_true]
  constructor
  · rintro ⟨-, h⟩
    exact h
  · rintro ⟨row, hrow, h⟩
    exact ⟨(List.getElem?_eq_some_iff.mp hrow).1, row, hrow, h⟩

theorem findFirst_of_repeats (hrow : alarms[k]? = some row)
    (h : repeats input source rule row = true) :
    ∃ j row', findFirst alarms input source rule = some j ∧ alarms[j]? = some row' ∧
      repeats input source rule row' = true ∧ row.lastOccurredAt ≤ row'.lastOccurredAt := by
  have hmem := mem_candidates.mpr ⟨row, hrow, h⟩
  cases hfind : findFirst alarms input source rule with
  | none =>
    rw [findFirst, List.argmax_eq_none] at hfind
    rw [hfind] at hmem
    cases hmem
  | some j =>
    obtain ⟨row', hrow', h'⟩ := mem_candidates.mp (List.argmax_mem hfind)
    have hle := List.le_of_mem_argmax hmem hfind
    rw [lastOf_eq hrow, lastOf_eq hrow'] at hle
    exact ⟨j, row', rfl, hrow', h', hle⟩

theorem findFirst_some
    (h : findFirst alarms input source rule = some k) :
    ∃ row, alarms[k]? = some row ∧ repeats input source rule row = true :=
  mem_candidates.mp (List.argmax_mem h)

/-! ## What a step does -/

/-- The event is of the alarm's camera, source and type. -/
def Home (row : AlarmInstance) (input : EventInput) : Prop :=
  row.cameraId = some input.cameraId ∧ inferSource input.type = some row.source ∧
    row.type = input.type

/-- An alarm as a step leaves it that counts nothing in it and opens it to nobody. -/
structure Kept (row row' : AlarmInstance) : Prop where
  kind : SameKind row row'
  last : row'.lastOccurredAt = row.lastOccurredAt
  count : row'.occurrenceCount = row.occurrenceCount
  unresolved : unresolved row' = true → unresolved row = true

theorem Kept.refl (row : AlarmInstance) : Kept row row := ⟨⟨rfl, rfl, rfl⟩, rfl, rfl, id⟩

/-- What a step does to the alarms and to what they count. -/
inductive Effect (s t : System) : Prop where
  | kept
    (hkept : ∀ k : Nat, Option.Rel Kept s.alarms[k]? t.alarms[k]?)
    (hcounted : (countedEvents t).Perm (countedEvents s))
  | status (k : Nat) (status : AlarmStatus)
    (halarms : t.alarms = s.alarms.modify k (fun row => { row with status := status }))
    (hcalls : t.calls = s.calls)
    (halone : status = .resolved ∨
      (∀ row, s.alarms[k]? = some row → Alarms.unresolved row = true) ∨ Alone s k)
  | updated (i k : Nat) (input : EventInput) (source : AlarmSource) (rule : AlarmRule)
    (row : AlarmInstance)
    (hrow : s.alarms[k]? = some row)
    (hhome : Home row input)
    (hrule : ruleOf s.settings input = some rule)
    (hfound : ∀ j, findFirst s.alarms input source rule = some j → j = k)
    (hlate : row.lastOccurredAt ≤ input.occurredAt)
    (hsource : inferSource input.type = some source)
    (halarms : t.alarms = s.alarms.modify k (fun row => repeatEvent row input rule))
    (hcounted : (countedEvents t).Perm ((k, input) :: countedEvents s))
  | created (i : Nat) (input : EventInput) (source : AlarmSource) (rule : AlarmRule)
    (hrule : ruleOf s.settings input = some rule)
    (hfound : findFirst s.alarms input source rule = none)
    (hsource : inferSource input.type = some source)
    (halarms : t.alarms = s.alarms ++ [openAlarm (toString s.alarms.length) input source rule])
    (hcounted : (countedEvents t).Perm ((s.alarms.length, input) :: countedEvents s))

theorem countedEvents_goTo (hget : s.calls[i]? = some c) (hc : c.phase.alarm = none)
    (alarms : List AlarmInstance) (phase : Phase) :
    (countedEvents ({ s with alarms := alarms }.goTo i c phase)).Perm
      ((phase.alarm.map (fun k => (k, c.input))).toList ++ countedEvents s) := by
  have hbefore : c.counted = none := by rw [Call.counted, hc]; rfl
  exact filterMap_set_perm hget hbefore { c with phase := phase }

variable {f : AlarmInstance → AlarmInstance}

theorem rel_of_map
    (hf : ∀ row, Kept row (f row)) (k : Nat) : Option.Rel Kept alarms[k]? (alarms.map f)[k]? := by
  rw [List.getElem?_map]
  cases alarms[k]? with
  | none => exact .none
  | some row => exact .some (hf row)

theorem rel_refl (alarms : List AlarmInstance) (k : Nat) : Option.Rel Kept alarms[k]? alarms[k]? := by
  cases alarms[k]? with
  | none => exact .none
  | some row => exact .some (.refl row)

theorem kept_resolveQuiet (row : AlarmInstance) (now quietSeconds : Int) :
    Kept row (resolveQuiet row now quietSeconds) := by
  unfold resolveQuiet
  split
  · exact ⟨⟨rfl, rfl, rfl⟩, rfl, rfl, fun h => nomatch h⟩
  · exact .refl row

theorem kept_autoResolve (row : AlarmInstance) (input : EventInput) :
    Kept row (autoResolve row input) := ⟨⟨rfl, rfl, rfl⟩, rfl, rfl, fun h => nomatch h⟩

/-! ## Events under way -/

/-- What an event under way has read of the rules, and which alarm it is to go to. -/
def Phase.Fits (s : System) (input : EventInput) : Phase → Prop
  | .quietRule | .quieting _ => inferSource input.type = some .motion
  | .recovering source | .checking source | .ruling source => inferSource input.type = some source
  | .muting source rule | .looking source rule | .creating source rule =>
    inferSource input.type = some source ∧ s.settings.rule source input.type = some rule
  | .updating source rule existing =>
    inferSource input.type = some source ∧ s.settings.rule source input.type = some rule ∧
      ∃ row, s.alarms[existing]? = some row ∧ Home row input
  | .counted k => ∃ row, s.alarms[k]? = some row ∧ Home row input
  | .arrived | .resolving _ | .ended => True

/-- What every call in flight holds is so. -/
def Flight (s : System) : Prop :=
  ∀ (i : Nat) (c : Call), s.calls[i]? = some c → c.phase.Fits s c.input

/-- The rules and the kinds of the alarms are as they were. -/
structure Carries (s t : System) : Prop where
  rules : t.settings.rule = s.settings.rule
  kinds : ∀ (k : Nat) (row : AlarmInstance), s.alarms[k]? = some row → ∃ row', t.alarms[k]? = some row' ∧ SameKind row row'

theorem Carries.home (h : Carries s t)
    (hrow : ∃ row, s.alarms[k]? = some row ∧ Home row input) :
    ∃ row, t.alarms[k]? = some row ∧ Home row input := by
  obtain ⟨row, hrow, hcamera, hsource, htype⟩ := hrow
  obtain ⟨row', hrow', hkind⟩ := h.kinds k row hrow
  refine ⟨row', hrow', hkind.1.symm.trans hcamera, ?_, hkind.2.2.symm.trans htype⟩
  rw [hsource, hkind.2.1]

variable {phase : Phase}

theorem Carries.fits (h : Carries s t) (hfits : phase.Fits s input) :
    phase.Fits t input := by
  cases phase with
  | muting | looking | creating => exact ⟨hfits.1, by rw [h.rules]; exact hfits.2⟩
  | updating => exact ⟨hfits.1, by rw [h.rules]; exact hfits.2.1, h.home hfits.2.2⟩
  | counted => exact h.home hfits
  | _ => exact hfits

theorem flight_goTo (hflight : Flight s) (hcarries : Carries s t) (hcalls : t.calls = s.calls)
    (hfits : phase.Fits t c.input) : Flight (t.goTo i c phase) := by
  intro j c' hget
  have hget' : (s.calls.set i { c with phase := phase })[j]? = some c' := hcalls ▸ hget
  obtain ⟨-, rfl⟩ | ⟨-, hget'⟩ := getElem?_set_some hget'
  · exact hfits
  · exact hcarries.fits (hflight j c' hget')

theorem inferSource_motion : inferSource "MOTION_DETECTED" = some .motion := by decide +kernel

theorem fits_afterStale (h : inferSource input.type = some source) :
    (afterStale input source).Fits s input := by
  unfold afterStale
  split
  · exact h
  · exact h

theorem fits_arrive (s : System) (input : EventInput) : (arrive input).Fits s input := by
  unfold arrive
  split
  · trivial
  · next source hsource =>
    split
    · next htype =>
      show inferSource input.type = some .motion
      rw [htype]
      exact inferSource_motion
    · exact fits_afterStale hsource

/-! ## Steps -/

theorem carries_of_kept (hrules : t.settings.rule = s.settings.rule)
    (h : ∀ k : Nat, Option.Rel Kept s.alarms[k]? t.alarms[k]?) : Carries s t where
  rules := hrules
  kinds := by
    intro k row hrow
    have hrel := h k
    rw [hrow] at hrel
    cases hrow' : t.alarms[k]? with
    | none =>
      rw [hrow'] at hrel
      cases hrel
    | some row' =>
      rw [hrow'] at hrel
      cases hrel with
      | some hkept => exact ⟨row', rfl, hkept.kind⟩

theorem getElem?_modify_some {j : Nat} (hrow : alarms[j]? = some row)
    :
    (alarms.modify k f)[j]? = some (if k = j then f row else row) := by
  rw [List.getElem?_modify, hrow]
  rfl

theorem carries_of_modify (hrules : t.settings.rule = s.settings.rule) {k : Nat}
    (hf : ∀ row, SameKind row (f row))
    (h : t.alarms = s.alarms.modify k f) : Carries s t where
  rules := hrules
  kinds := by
    intro j row hrow
    rw [h, getElem?_modify_some hrow]
    refine ⟨_, rfl, ?_⟩
    split
    · exact hf row
    · exact ⟨rfl, rfl, rfl⟩

theorem carries_of_append (hrules : t.settings.rule = s.settings.rule) {row' : AlarmInstance}
    (h : t.alarms = s.alarms ++ [row']) : Carries s t where
  rules := hrules
  kinds := by
    intro j row hrow
    have hlt := (List.getElem?_eq_some_iff.mp hrow).1
    rw [h, List.getElem?_append_left hlt]
    exact ⟨row, hrow, rfl, rfl, rfl⟩

/-- What a step leaves: its effect, the rules, and what the events under way have read. -/
structure Spec (s t : System) : Prop where
  effect : Effect s t
  rules : t.settings.rule = s.settings.rule
  flight : Flight t

theorem spec_goTo (hflight : Flight s) (hget : s.calls[i]? = some c) (hc : c.phase.alarm = none)
    (hkept : ∀ k : Nat, Option.Rel Kept s.alarms[k]? alarms[k]?)
    (hphase : phase.alarm = none) (hfits : phase.Fits s c.input) :
    Spec s ({ s with alarms := alarms }.goTo i c phase) := by
  have hcarries : Carries s { s with alarms := alarms } := carries_of_kept rfl hkept
  refine ⟨.kept hkept ?_, rfl, flight_goTo hflight hcarries rfl (hcarries.fits hfits)⟩
  have hcounted := countedEvents_goTo hget hc alarms phase
  rwa [hphase] at hcounted

theorem ruleOf_eq {settings : Settings} (hsource : inferSource input.type = some source)
    (hrule : settings.rule source input.type = some rule) : ruleOf settings input = some rule := by
  rw [ruleOf, hsource, Option.bind_some, hrule]

theorem spec_updating (hflight : Flight s) {existing : Nat}
    (hget : s.calls[i]? = some ⟨input, .updating source rule existing⟩)
    (htimely : timely s i = true) :
    Spec s ({ s with alarms := s.alarms.modify existing (fun row => repeatEvent row input rule) }.goTo
      i ⟨input, .updating source rule existing⟩ (.counted existing)) := by
  obtain ⟨hsource, hrule, row, hrow, hhome⟩ := hflight i _ hget
  simp only [timely, hget, Bool.and_eq_true, decide_eq_true_eq] at htimely
  rw [lastOf_eq hrow] at htimely
  have hcarries : Carries s { s with
      alarms := s.alarms.modify existing (fun row => repeatEvent row input rule) } :=
    carries_of_modify (f := fun row => repeatEvent row input rule) rfl (fun _ => ⟨rfl, rfl, rfl⟩) rfl
  refine ⟨.updated i existing input source rule row hrow hhome (ruleOf_eq hsource hrule) ?_ htimely.2
    hsource rfl ?_, rfl, flight_goTo hflight hcarries rfl (hcarries.home ⟨row, hrow, hhome⟩)⟩
  · intro j hj
    have hall := htimely.1
    rw [hj, Option.all_some] at hall
    exact of_decide_eq_true hall
  · exact countedEvents_goTo hget rfl _ _

theorem spec_creating (hflight : Flight s)
    (hget : s.calls[i]? = some ⟨input, .creating source rule⟩) (htimely : timely s i = true) :
    Spec s ({ s with
      alarms := s.alarms ++ [openAlarm (toString s.alarms.length) input source rule] }.goTo
      i ⟨input, .creating source rule⟩ (.counted s.alarms.length)) := by
  obtain ⟨hsource, hrule⟩ := hflight i _ hget
  simp only [timely, hget] at htimely
  have hcarries : Carries s { s with
      alarms := s.alarms ++ [openAlarm (toString s.alarms.length) input source rule] } :=
    carries_of_append rfl rfl
  refine ⟨.created i input source rule (ruleOf_eq hsource hrule) (Option.isNone_iff_eq_none.mp htimely)
    hsource rfl ?_, rfl, flight_goTo hflight hcarries rfl ?_⟩
  · exact countedEvents_goTo hget rfl _ _
  · exact ⟨_, List.getElem?_concat_length, rfl, hsource, rfl⟩

theorem spec_advance (hflight : Flight s) (hget : s.calls[i]? = some c)
    (htimely : timely s i = true) (h : advance s i c = some t) : Spec s t := by
  obtain ⟨input, phase⟩ := c
  have hfits := hflight i _ hget
  have hrel := rel_refl s.alarms
  cases phase with
  | arrived =>
    cases h
    refine spec_goTo hflight hget rfl hrel ?_ (fits_arrive s input)
    dsimp only [arrive, afterStale]
    repeat' split
    all_goals rfl
  | quietRule =>
    cases h
    exact spec_goTo hflight hget rfl hrel rfl hfits
  | quieting quietSeconds =>
    cases h
    refine spec_goTo hflight hget rfl
      (rel_of_map (fun row => kept_resolveQuiet row input.occurredAt quietSeconds)) ?_
      (fits_afterStale hfits)
    unfold afterStale
    split <;> rfl
  | recovering source =>
    cases h
    refine spec_goTo hflight hget rfl hrel ?_ ?_
    · split <;> rfl
    · split <;> trivial
  | resolving targets =>
    cases h
    refine spec_goTo hflight hget rfl ?_ rfl trivial
    intro k
    rw [List.getElem?_mapIdx]
    cases s.alarms[k]? with
    | none => exact .none
    | some row =>
      refine .some ?_
      split
      · exact kept_autoResolve row input
      · exact .refl row
  | checking source =>
    cases h
    refine spec_goTo hflight hget rfl hrel ?_ ?_
    · split <;> rfl
    · split
      · trivial
      · exact hfits
  | ruling source =>
    dsimp only [advance] at h
    cases hrule : s.settings.rule source input.type with
    | none =>
      rw [hrule] at h
      cases h
      exact spec_goTo hflight hget rfl hrel rfl trivial
    | some rule =>
      rw [hrule] at h
      cases h
      refine spec_goTo hflight hget rfl hrel ?_ ?_
      · split <;> rfl
      · split
        · exact ⟨hfits, hrule⟩
        · trivial
  | muting source rule =>
    cases h
    refine spec_goTo hflight hget rfl hrel ?_ ?_
    · split <;> rfl
    · split
      · trivial
      · exact hfits
  | looking source rule =>
    dsimp only [advance] at h
    cases hfind : findFirst s.alarms input source rule with
    | none =>
      rw [hfind] at h
      cases h
      exact spec_goTo hflight hget rfl hrel rfl hfits
    | some existing =>
      rw [hfind] at h
      cases h
      obtain ⟨row, hrow, hrepeats⟩ := findFirst_some hfind
      obtain ⟨hcamera, hsource, htype, -⟩ := repeats_iff.mp hrepeats
      refine spec_goTo hflight hget rfl hrel rfl ⟨hfits.1, hfits.2, row, hrow, hcamera, ?_, htype⟩
      rw [hsource]
      exact hfits.1
  | updating source rule existing =>
    cases h
    exact spec_updating hflight hget htimely
  | creating source rule =>
    cases h
    exact spec_creating hflight hget htimely
  | counted | ended => cases h

/-- **What a step does**, in a run whose events write what still stands. -/
theorem step_spec (hflight : Flight s) (hsettled : Settled s a) (h : step s a = some t) :
    Spec s t := by
  cases a with
  | event input =>
    cases h
    refine ⟨.kept (rel_refl s.alarms) ?_, rfl, ?_⟩
    · rw [countedEvents, List.filterMap_append]
      exact .of_eq (List.append_nil _)
    · intro j c hget
      obtain hget | ⟨-, rfl⟩ := getElem?_concat_some hget
      · have hcarries : Carries s { s with calls := s.calls ++ [{ input := input }] } :=
          ⟨rfl, fun k row hrow => ⟨row, hrow, rfl, rfl, rfl⟩⟩
        exact hcarries.fits (hflight j c hget)
      · trivial
  | advance i =>
    obtain ⟨c, hget, hc⟩ := Option.bind_eq_some_iff.mp h
    exact spec_advance hflight hget hsettled hc
  | giveUp i =>
    obtain ⟨c, hget, hc⟩ := Option.bind_eq_some_iff.mp h
    have hcounted : c.phase.alarm = none ∧ t = s.goTo i c .ended := by
      unfold giveUp at hc
      split at hc
      · cases hc
      · cases hc
      · next hnotCounted _ =>
        cases hc
        refine ⟨?_, rfl⟩
        cases hphase : c.phase with
        | counted k => exact absurd hphase (hnotCounted k)
        | _ => rfl
    rw [hcounted.2]
    exact spec_goTo hflight hget hcounted.1 (rel_refl s.alarms) rfl trivial
  | configure settings =>
    cases h
    refine ⟨.kept (rel_refl s.alarms) (.refl _), hsettled, ?_⟩
    intro j c hget
    have hcarries : Carries s { s with settings := settings } :=
      ⟨hsettled, fun k row hrow => ⟨row, hrow, rfl, rfl, rfl⟩⟩
    exact hcarries.fits (hflight j c hget)
  | setStatus k status =>
    cases h
    refine ⟨.status k status rfl rfl hsettled, rfl, ?_⟩
    intro j c hget
    have hcarries : Carries s { s with
        alarms := s.alarms.modify k (fun row => { row with status := status }) } :=
      carries_of_modify (f := fun row => { row with status := status }) rfl
        (fun _ => ⟨rfl, rfl, rfl⟩) rfl
    exact hcarries.fits (hflight j c hget)

end Drac.Alarms.Deduplication
