import Drac.Alarms.DeduplicationSteps
import Mathlib.Data.Multiset.ZeroCons

/-
  Alarm deduplication.

  Two events of one moment both find no alarm and open one each, and an event sets the last time
  of the alarm it finds to its own, later or not. Where what an event has read still stands when
  it writes (`Settled`), the open alarms of a kind stay more than a window apart (`Ledger.apart`),
  and so

    `deduplication`   an event is counted in the open alarm of any event within the window, the
                      last time of an alarm is the latest of its events and never goes back, and
                      the counts add up to the events.
-/

namespace Drac.Alarms.Deduplication

open Runs

variable {s t : System} {a : Label} {i k : Nat} {c : Call} {input : EventInput}
  {source : AlarmSource} {rule : AlarmRule} {row : AlarmInstance}

/-! ## The alarms and their events -/

/-- The occurrences add up to the events counted, each of them at an alarm near its time. -/
structure Ledger (s : System) : Prop where
  sum : occurrences s = (countedEvents s).length
  counted : ∀ k e, (k, e) ∈ countedEvents s →
    ∃ row, s.alarms[k]? = some row ∧ Home row e ∧ e.occurredAt ≤ row.lastOccurredAt
  latest : ∀ (k : Nat) (row : AlarmInstance), s.alarms[k]? = some row →
    ∃ e, (k, e) ∈ countedEvents s ∧ e.occurredAt = row.lastOccurredAt
  apart : ∀ (j k : Nat) (row row' : AlarmInstance) rule, s.alarms[j]? = some row →
    s.alarms[k]? = some row' → j ≠ k → unresolved row = true → unresolved row' = true →
    SameKind row row' → s.settings.rule row.source row.type = some rule →
    Apart (windowMs rule) row row'

theorem Apart.symm {windowMs : Int} {row row' : AlarmInstance} (h : Apart windowMs row row') :
    Apart windowMs row' row := Or.symm h

theorem SameKind.symm {row row' : AlarmInstance} (h : SameKind row row') : SameKind row' row :=
  ⟨h.1.symm, h.2.1.symm, h.2.2.symm⟩

theorem SameKind.trans {row row' row'' : AlarmInstance} (h : SameKind row row')
    (h' : SameKind row' row'') : SameKind row row'' :=
  ⟨h.1.trans h'.1, h.2.1.trans h'.2.1, h.2.2.trans h'.2.2⟩

theorem rel_right {R : AlarmInstance → AlarmInstance → Prop} {a b : Option AlarmInstance}
    (h : Option.Rel R a b) {y : AlarmInstance} (hb : b = some y) : ∃ x, a = some x ∧ R x y := by
  cases h with
  | none => cases hb
  | some hr =>
    cases hb
    exact ⟨_, rfl, hr⟩

theorem rel_left {R : AlarmInstance → AlarmInstance → Prop} {a b : Option AlarmInstance}
    (h : Option.Rel R a b) {x : AlarmInstance} (ha : a = some x) : ∃ y, b = some y ∧ R x y := by
  cases h with
  | none => cases ha
  | some hr =>
    cases ha
    exact ⟨_, rfl, hr⟩

/-- One alarm is rewritten: only its distance from the others is to be seen to. -/
theorem apart_modify {f : AlarmInstance → AlarmInstance} (hledger : Ledger s)
    (halarms : t.alarms = s.alarms.modify k f) (hrules : t.settings.rule = s.settings.rule)
    (hkind : ∀ row, SameKind row (f row))
    (hnew : ∀ row j row' rule, s.alarms[k]? = some row → s.alarms[j]? = some row' → j ≠ k →
      unresolved (f row) = true → unresolved row' = true → SameKind row row' →
      s.settings.rule row.source row.type = some rule → Apart (windowMs rule) (f row) row')
    (j l : Nat) (row row' : AlarmInstance) (rule : AlarmRule) (hrow : t.alarms[j]? = some row)
    (hrow' : t.alarms[l]? = some row') (hjl : j ≠ l) (hopen : unresolved row = true)
    (hopen' : unresolved row' = true) (hsame : SameKind row row')
    (hrule : t.settings.rule row.source row.type = some rule) : Apart (windowMs rule) row row' := by
  have hbefore : ∀ {m : Nat} {r : AlarmInstance}, t.alarms[m]? = some r →
      ∃ r₀, s.alarms[m]? = some r₀ ∧ r = if k = m then f r₀ else r₀ := by
    intro m r hr
    rw [halarms, List.getElem?_modify] at hr
    obtain ⟨r₀, hr₀, heq⟩ := Option.map_eq_some_iff.mp hr
    exact ⟨r₀, hr₀, heq.symm⟩
  obtain ⟨row₀, hrow₀, rfl⟩ := hbefore hrow
  obtain ⟨row₀', hrow₀', rfl⟩ := hbefore hrow'
  rw [hrules] at hrule
  by_cases hj : k = j
  · subst hj
    rw [if_pos rfl] at hopen hsame hrule ⊢
    rw [if_neg hjl] at hopen' hsame ⊢
    have hsame₀ := (hkind row₀).trans hsame
    rw [← (hkind row₀).2.1, ← (hkind row₀).2.2] at hrule
    exact hnew row₀ l row₀' rule hrow₀ hrow₀' (Ne.symm hjl) hopen hopen' hsame₀ hrule
  · rw [if_neg hj] at hopen hsame hrule ⊢
    by_cases hl : k = l
    · subst hl
      rw [if_pos rfl] at hopen' hsame ⊢
      have hsame₀ := (hkind row₀').trans hsame.symm
      rw [← hsame₀.2.1, ← hsame₀.2.2] at hrule
      exact (hnew row₀' j row₀ rule hrow₀' hrow₀ hjl hopen' hopen hsame₀ hrule).symm
    · rw [if_neg hl] at hopen' hsame ⊢
      exact hledger.apart j l row₀ row₀' rule hrow₀ hrow₀' hjl hopen hopen' hsame hrule

theorem occurrences_modify {alarms : List AlarmInstance} (hrow : alarms[k]? = some row)
    (input : EventInput) (rule : AlarmRule) :
    ((alarms.modify k (fun row => repeatEvent row input rule)).map
      AlarmInstance.occurrenceCount).sum = (alarms.map AlarmInstance.occurrenceCount).sum + 1 := by
  induction alarms generalizing k with
  | nil => cases hrow
  | cons first alarms ih =>
    cases k with
    | zero =>
      simp only [List.modify_zero_cons, List.map_cons, List.sum_cons, repeatEvent]
      omega
    | succ k =>
      have hrest := ih (k := k) hrow
      simp only [List.modify_succ_cons, List.map_cons, List.sum_cons, hrest]
      omega

theorem ledger_kept (hledger : Ledger s) (hrules : t.settings.rule = s.settings.rule)
    (hkept : ∀ k : Nat, Option.Rel Kept s.alarms[k]? t.alarms[k]?)
    (hcounted : (countedEvents t).Perm (countedEvents s)) : Ledger t where
  sum := by
    have hcounts : t.alarms.map AlarmInstance.occurrenceCount =
        s.alarms.map AlarmInstance.occurrenceCount := by
      apply List.ext_getElem?
      intro k
      rw [List.getElem?_map, List.getElem?_map]
      have hrel := hkept k
      cases hrow : s.alarms[k]? with
      | none =>
        rw [hrow] at hrel
        cases hrow' : t.alarms[k]? with
        | none => rfl
        | some row' => rw [hrow'] at hrel; cases hrel
      | some row =>
        obtain ⟨row', hrow', hsame⟩ := rel_left hrel hrow
        rw [hrow', Option.map_some, Option.map_some, hsame.count]
    rw [occurrences, hcounts, hcounted.length_eq]
    exact hledger.sum
  counted := by
    intro k e he
    obtain ⟨row, hrow, hhome, hle⟩ := hledger.counted k e (hcounted.mem_iff.mp he)
    obtain ⟨row', hrow', hsame⟩ := rel_left (hkept k) hrow
    refine ⟨row', hrow', ⟨hsame.kind.1.symm.trans hhome.1, ?_, hsame.kind.2.2.symm.trans hhome.2.2⟩, ?_⟩
    · rw [hhome.2.1, hsame.kind.2.1]
    · rw [hsame.last]
      exact hle
  latest := by
    intro k row' hrow'
    obtain ⟨row, hrow, hsame⟩ := rel_right (hkept k) hrow'
    obtain ⟨e, he, hlast⟩ := hledger.latest k row hrow
    exact ⟨e, hcounted.mem_iff.mpr he, by rw [hsame.last, hlast]⟩
  apart := by
    intro j k row₁ row₂ rule h₁ h₂ hjk hopen₁ hopen₂ hkind hrule
    obtain ⟨row, hrow, hsame⟩ := rel_right (hkept j) h₁
    obtain ⟨row', hrow', hsame'⟩ := rel_right (hkept k) h₂
    rw [hrules, ← hsame.kind.2.1, ← hsame.kind.2.2] at hrule
    have hfar := hledger.apart j k row row' rule hrow hrow' hjk (hsame.unresolved hopen₁)
      (hsame'.unresolved hopen₂) ((hsame.kind.trans hkind).trans hsame'.kind.symm) hrule
    unfold Apart at hfar ⊢
    rwa [hsame.last, hsame'.last]

/-- A status is set, to an alarm that is open, or beside no other. -/
theorem ledger_status (hledger : Ledger s) (hrules : t.settings.rule = s.settings.rule)
    {status : AlarmStatus}
    (halarms : t.alarms = s.alarms.modify k (fun row => { row with status := status }))
    (hcalls : t.calls = s.calls)
    (halone : status = .resolved ∨
      (∀ row, s.alarms[k]? = some row → unresolved row = true) ∨ Alone s k) : Ledger t where
  sum := by
    have hcounts : (t.alarms.map AlarmInstance.occurrenceCount) =
        s.alarms.map AlarmInstance.occurrenceCount := by
      rw [halarms]
      apply List.ext_getElem?
      intro j
      rw [List.getElem?_map, List.getElem?_map, List.getElem?_modify]
      cases s.alarms[j]? with
      | none => rfl
      | some row =>
        by_cases hjk : k = j
        · simp [hjk]
        · simp [hjk]
    rw [occurrences, hcounts, countedEvents, hcalls]
    exact hledger.sum
  counted := by
    intro j e he
    rw [countedEvents, hcalls] at he
    obtain ⟨row, hrow, hhome, hle⟩ := hledger.counted j e he
    rw [halarms, getElem?_modify_some hrow]
    refine ⟨_, rfl, ?_⟩
    split
    · exact ⟨hhome, hle⟩
    · exact ⟨hhome, hle⟩
  latest := by
    intro j row' hrow'
    rw [halarms, List.getElem?_modify] at hrow'
    obtain ⟨row, hrow, rfl⟩ := Option.map_eq_some_iff.mp hrow'
    obtain ⟨e, he, hlast⟩ := hledger.latest j row hrow
    refine ⟨e, by rw [countedEvents, hcalls]; exact he, ?_⟩
    split
    · exact hlast
    · exact hlast
  apart := by
    apply apart_modify hledger halarms hrules (fun _ => ⟨rfl, rfl, rfl⟩)
    intro row j row' rule hrow hrow' hjk hopen hopen' hkind hrule
    have hfar : Apart (windowMs rule) row row' := by
      obtain rfl | hwasOpen | halone := halone
      · cases hopen
      · exact hledger.apart k j row row' rule hrow hrow' (Ne.symm hjk) (hwasOpen row hrow) hopen' hkind
          hrule
      · exact halone row j row' rule hrow hrow' hjk hopen' hkind hrule
    exact hfar

/-- An alarm takes an event that is not earlier than it, and nearest to it. -/
theorem ledger_updated (hledger : Ledger s) (hrules : t.settings.rule = s.settings.rule)
    (hrow : s.alarms[k]? = some row) (hhome : Home row input)
    (hrule : ruleOf s.settings input = some rule)
    (hfound : ∀ j, findFirst s.alarms input row.source rule = some j → j = k)
    (hlate : row.lastOccurredAt ≤ input.occurredAt)
    (halarms : t.alarms = s.alarms.modify k (fun row => repeatEvent row input rule))
    (hcounted : (countedEvents t).Perm ((k, input) :: countedEvents s)) : Ledger t where
  sum := by
    rw [occurrences, halarms, occurrences_modify hrow, hcounted.length_eq, List.length_cons,
      ← hledger.sum]
    rfl
  counted := by
    intro j e he
    rw [halarms]
    rcases List.mem_cons.mp (hcounted.mem_iff.mp he) with heq | he
    · cases heq
      rw [getElem?_modify_some hrow, if_pos rfl]
      exact ⟨_, rfl, hhome, Int.le_refl _⟩
    · obtain ⟨row', hrow', hhome', hle⟩ := hledger.counted j e he
      rw [getElem?_modify_some hrow']
      refine ⟨_, rfl, ?_⟩
      split
      · next hkj =>
        subst hkj
        obtain rfl := Option.some.inj (hrow.symm.trans hrow')
        exact ⟨hhome', hle.trans hlate⟩
      · exact ⟨hhome', hle⟩
  latest := by
    intro j row' hrow'
    rw [halarms, List.getElem?_modify] at hrow'
    obtain ⟨row₀, hrow₀, rfl⟩ := Option.map_eq_some_iff.mp hrow'
    split
    · next hkj => exact ⟨input, hcounted.mem_iff.mpr (hkj ▸ List.mem_cons_self), rfl⟩
    · obtain ⟨e, he, hlast⟩ := hledger.latest j row₀ hrow₀
      exact ⟨e, hcounted.mem_iff.mpr (List.mem_cons_of_mem _ he), hlast⟩
  apart := by
    apply apart_modify hledger halarms hrules (fun _ => ⟨rfl, rfl, rfl⟩)
    intro row₁ j row' rule' hrow₁ hrow' hjk hopen hopen' hkind hrule'
    obtain rfl := Option.some.inj (hrow.symm.trans hrow₁)
    have hsame : rule' = rule := by
      rw [ruleOf, hhome.2.1, Option.bind_some, ← hhome.2.2] at hrule
      exact Option.some.inj (hrule'.symm.trans hrule)
    subst hsame
    right
    show row'.lastOccurredAt + windowMs rule' < input.occurredAt
    by_contra hnear
    have hrepeats : repeats input row.source rule' row' = true := by
      apply repeats_iff.mpr
      exact ⟨hkind.1.symm.trans hhome.1, hkind.2.1.symm, hkind.2.2.symm.trans hhome.2.2, hopen',
        by omega⟩
    obtain ⟨m, rowm, hm, hrowm, hrepeatsm, hle⟩ := findFirst_of_repeats hrow' hrepeats
    obtain rfl := hfound m hm
    obtain rfl := Option.some.inj (hrow.symm.trans hrowm)
    have hwithin := (repeats_iff.mp hrepeatsm).2.2.2.2
    obtain hfar | hfar := hledger.apart m j row row' rule' hrow hrow' (Ne.symm hjk) hopen hopen'
      hkind hrule'
    · omega
    · omega

/-- A new alarm, where no open one is near. -/
theorem ledger_created (hledger : Ledger s) (hrules : t.settings.rule = s.settings.rule)
    (hsource : inferSource input.type = some source) (hrule : ruleOf s.settings input = some rule)
    (hfound : findFirst s.alarms input source rule = none) {id : String}
    (halarms : t.alarms = s.alarms ++ [openAlarm id input source rule])
    (hcounted : (countedEvents t).Perm ((s.alarms.length, input) :: countedEvents s)) : Ledger t where
  sum := by
    rw [occurrences, halarms, List.map_append, List.sum_append, hcounted.length_eq, List.length_cons,
      ← hledger.sum]
    rfl
  counted := by
    intro j e he
    rw [halarms]
    rcases List.mem_cons.mp (hcounted.mem_iff.mp he) with heq | he
    · cases heq
      exact ⟨_, List.getElem?_concat_length, ⟨rfl, hsource, rfl⟩, Int.le_refl _⟩
    · obtain ⟨row, hrow, hhome, hle⟩ := hledger.counted j e he
      have hlt := (List.getElem?_eq_some_iff.mp hrow).1
      rw [List.getElem?_append_left hlt]
      exact ⟨row, hrow, hhome, hle⟩
  latest := by
    intro j row hrow
    rw [halarms] at hrow
    obtain hrow | ⟨rfl, rfl⟩ := getElem?_concat_some hrow
    · obtain ⟨e, he, hlast⟩ := hledger.latest j row hrow
      exact ⟨e, hcounted.mem_iff.mpr (List.mem_cons_of_mem _ he), hlast⟩
    · exact ⟨input, hcounted.mem_iff.mpr List.mem_cons_self, rfl⟩
  apart := by
    have hnew : ∀ (j : Nat) (row : AlarmInstance) rule', s.alarms[j]? = some row →
        unresolved row = true → SameKind row (openAlarm id input source rule) →
        s.settings.rule source input.type = some rule' →
        Apart (windowMs rule') row (openAlarm id input source rule) := by
      intro j row rule' hrow hopen hkind hrule'
      have hsame : rule' = rule := by
        rw [ruleOf, hsource, Option.bind_some] at hrule
        exact Option.some.inj (hrule'.symm.trans hrule)
      subst hsame
      left
      show row.lastOccurredAt + windowMs rule' < input.occurredAt
      by_contra hnear
      have hrepeats : repeats input source rule' row = true := by
        apply repeats_iff.mpr
        exact ⟨hkind.1, hkind.2.1, hkind.2.2, hopen, by omega⟩
      obtain ⟨m, -, hm, -⟩ := findFirst_of_repeats hrow hrepeats
      rw [hfound] at hm
      cases hm
    intro j l row row' rule' hrow hrow' hjl hopen hopen' hkind hrule'
    rw [halarms] at hrow hrow'
    rw [hrules] at hrule'
    obtain hrow | ⟨rfl, rfl⟩ := getElem?_concat_some hrow
    · obtain hrow' | ⟨rfl, rfl⟩ := getElem?_concat_some hrow'
      · exact hledger.apart j l row row' rule' hrow hrow' hjl hopen hopen' hkind hrule'
      · rw [hkind.2.1, hkind.2.2] at hrule'
        exact hnew j row rule' hrow hopen hkind hrule'
    · obtain hrow' | ⟨rfl, rfl⟩ := getElem?_concat_some hrow'
      · exact (hnew l row' rule' hrow' hopen' hkind.symm hrule').symm
      · exact absurd rfl hjl

theorem ledger_effect (hledger : Ledger s) (heffect : Effect s t)
    (hrules : t.settings.rule = s.settings.rule) : Ledger t := by
  cases heffect with
  | kept hkept hcounted => exact ledger_kept hledger hrules hkept hcounted
  | status k status halarms hcalls halone =>
    exact ledger_status hledger hrules halarms hcalls halone
  | updated i k input source rule row hrow hhome hrule hfound hlate hsource halarms hcounted =>
    obtain rfl := Option.some.inj (hsource.symm.trans hhome.2.1)
    exact ledger_updated hledger hrules hrow hhome hrule hfound hlate halarms hcounted
  | created i input source rule hrule hfound hsource halarms hcounted =>
    exact ledger_created hledger hrules hsource hrule hfound halarms hcounted

/-! ## Runs -/

theorem last_forward (heffect : Effect s t) (hrow : s.alarms[k]? = some row) :
    ∃ row', t.alarms[k]? = some row' ∧ row.lastOccurredAt ≤ row'.lastOccurredAt := by
  cases heffect with
  | kept hkept =>
    obtain ⟨row', hrow', hsame⟩ := rel_left (hkept k) hrow
    exact ⟨row', hrow', by rw [hsame.last]⟩
  | status j status halarms =>
    rw [halarms, getElem?_modify_some hrow]
    refine ⟨_, rfl, ?_⟩
    split <;> exact Int.le_refl _
  | updated i j input source rule row₀ hrow₀ hhome hrule hfound hlate hsource halarms =>
    rw [halarms, getElem?_modify_some hrow]
    refine ⟨_, rfl, ?_⟩
    split
    · next hjk =>
      subst hjk
      obtain rfl := Option.some.inj (hrow₀.symm.trans hrow)
      exact hlate
    · exact Int.le_refl _
  | created i input source rule hrule hfound hsource halarms =>
    have hlt := (List.getElem?_eq_some_iff.mp hrow).1
    rw [halarms, List.getElem?_append_left hlt]
    exact ⟨row, hrow, Int.le_refl _⟩

/-- An event goes where the open alarm of a near event is. -/
theorem counted_together (hledger : Ledger s) (heffect : Effect s t)
    (hcounts : (countedEvents t).Perm ((k, input) :: countedEvents s)) {j : Nat} {e : EventInput}
    (he : (j, e) ∈ countedEvents s) (hcamera : e.cameraId = input.cameraId)
    (htype : e.type = input.type) (hrow : s.alarms[j]? = some row) (hopen : unresolved row = true)
    (hrule : ruleOf s.settings input = some rule)
    (hnear : |e.occurredAt - input.occurredAt| ≤ windowMs rule) : j = k := by
  obtain ⟨row₀, hrow₀, hhome, hle⟩ := hledger.counted j e he
  obtain rfl := Option.some.inj (hrow.symm.trans hrow₀)
  obtain ⟨hback, hforth⟩ := abs_le.mp hnear
  have hrepeats : ∀ source, inferSource input.type = some source →
      repeats input source rule row = true := by
    intro source hsource
    apply repeats_iff.mpr
    refine ⟨hcamera ▸ hhome.1, ?_, hhome.2.2.trans htype, hopen, by omega⟩
    have hboth := hhome.2.1
    rw [htype, hsource] at hboth
    exact (Option.some.inj hboth).symm
  -- a step counts one event at most
  have hone : ∀ {k' : Nat} {input' : EventInput},
      (countedEvents t).Perm ((k', input') :: countedEvents s) → k' = k ∧ input' = input := by
    intro k' input' hcounted
    have hperm := Multiset.coe_eq_coe.mpr (hcounted.symm.trans hcounts)
    rw [← Multiset.cons_coe, ← Multiset.cons_coe] at hperm
    exact Prod.mk.inj ((Multiset.cons_inj_left _).mp hperm)
  have hmore := hcounts.length_eq
  rw [List.length_cons] at hmore
  cases heffect with
  | kept hkept hcounted =>
    rw [hcounted.length_eq] at hmore
    omega
  | status k status halarms hcalls =>
    rw [countedEvents, countedEvents, hcalls] at hmore
    omega
  | created i input' source rule' hrule' hfound hsource halarms hcounted =>
    obtain ⟨-, rfl⟩ := hone hcounted
    obtain rfl := Option.some.inj (hrule.symm.trans hrule')
    obtain ⟨m, -, hm, -⟩ := findFirst_of_repeats hrow (hrepeats source hsource)
    rw [hfound] at hm
    cases hm
  | updated i k' input' source rule' row' hrow' hhome' hrule' hfound hlate hsource halarms hcounted =>
    obtain ⟨rfl, rfl⟩ := hone hcounted
    obtain rfl := Option.some.inj (hrule.symm.trans hrule')
    obtain ⟨m, rowm, hm, hrowm, hrepeatsm, hlem⟩ := findFirst_of_repeats hrow (hrepeats source hsource)
    obtain rfl := hfound m hm
    obtain rfl := Option.some.inj (hrowm.symm.trans hrow')
    by_contra hjk
    -- both are open and within the window of the event, so nearer to each other than open alarms are
    obtain ⟨hcamera₁, hsource₁, htype₁, -, hwithin₁⟩ := repeats_iff.mp (hrepeats source hsource)
    obtain ⟨hcamera₂, hsource₂, htype₂, hopen₂, hwithin₂⟩ := repeats_iff.mp hrepeatsm
    have hkind : SameKind row rowm :=
      ⟨hcamera₁.trans hcamera₂.symm, hsource₁.trans hsource₂.symm, htype₁.trans htype₂.symm⟩
    have hrule₁ : s.settings.rule row.source row.type = some rule := by
      rw [ruleOf, hsource, Option.bind_some] at hrule
      rw [hsource₁, htype₁]
      exact hrule
    obtain hfar | hfar := hledger.apart j m row rowm rule hrow hrowm hjk hopen hopen₂ hkind hrule₁
    · omega
    · omega

theorem advance_calls (h : advance s i c = some t) :
    c.phase.alarm = none ∧ ∃ phase, t.calls = s.calls.set i { c with phase := phase } := by
  obtain ⟨input, phase⟩ := c
  cases phase with
  | ruling source =>
    dsimp only [advance] at h
    split at h <;> cases h <;> exact ⟨rfl, _, rfl⟩
  | looking source rule =>
    dsimp only [advance] at h
    split at h <;> cases h <;> exact ⟨rfl, _, rfl⟩
  | counted | ended => cases h
  | arrived | quietRule | quieting | recovering | resolving | checking | muting | updating
  | creating =>
    cases h
    exact ⟨rfl, _, rfl⟩

theorem counts_of_step (h : step s (.advance i) = some t) (hget : t.calls[i]? = some c)
    (hc : c.phase = .counted k) :
    (countedEvents t).Perm ((k, c.input) :: countedEvents s) := by
  obtain ⟨c₀, hget₀, hadvance⟩ := Option.bind_eq_some_iff.mp h
  obtain ⟨hnone, phase, hcalls⟩ := advance_calls hadvance
  have hlt := (List.getElem?_eq_some_iff.mp hget₀).1
  rw [hcalls, List.getElem?_set_self hlt] at hget
  obtain rfl := Option.some.inj hget
  have hcounted := countedEvents_goTo hget₀ hnone s.alarms phase
  dsimp only at hc
  rw [hc] at hcounted
  have hsame : countedEvents t = countedEvents (s.goTo i c₀ (.counted k)) := by
    rw [countedEvents, hcalls, hc]
    rfl
  rw [hsame]
  exact hcounted

/-- **Alarm deduplication.** In a run whose events write what still stands, the counts of the
alarms add up to the events, the last time of an alarm is the latest of its events and never goes
back, and an event is counted in the open alarm of any event within the window. -/
theorem deduplication (t : System) (h : Reach alarmsMachine Settled t) :
    occurrences t = (countedEvents t).length ∧
    (∀ (k : Nat) (row : AlarmInstance), t.alarms[k]? = some row →
      (∀ e, (k, e) ∈ countedEvents t → e.occurredAt ≤ row.lastOccurredAt) ∧
      ∃ e, (k, e) ∈ countedEvents t ∧ e.occurredAt = row.lastOccurredAt) ∧
    ∀ a u, Settled t a → step t a = some u →
      (∀ (k : Nat) (row : AlarmInstance), t.alarms[k]? = some row →
        ∃ row', u.alarms[k]? = some row' ∧ row.lastOccurredAt ≤ row'.lastOccurredAt) ∧
      ∀ (i : Nat) (c : Call) (k : Nat), a = .advance i → u.calls[i]? = some c → c.phase = .counted k →
        ∀ (j : Nat) (e : EventInput) (row : AlarmInstance) (rule : AlarmRule), (j, e) ∈ countedEvents t → e.cameraId = c.input.cameraId →
          e.type = c.input.type → t.alarms[j]? = some row → unresolved row = true →
          ruleOf t.settings c.input = some rule →
          |e.occurredAt - c.input.occurredAt| ≤ windowMs rule → j = k := by
  have hkept : Flight t ∧ Ledger t := by
    refine h.invariant (I := fun t => Flight t ∧ Ledger t) ?_ ?_
    · rintro s ⟨settings, rfl⟩
      refine ⟨fun i c hget => (nomatch hget), ?_⟩
      exact ⟨rfl, (fun k e he => nomatch he), (fun k row hrow => nomatch hrow),
        fun j k row row' rule hrow => nomatch hrow⟩
    · rintro s a t ⟨hflight, hledger⟩ hsettled hstep
      have hspec := step_spec hflight hsettled hstep
      exact ⟨hspec.flight, ledger_effect hledger hspec.effect hspec.rules⟩
  obtain ⟨hflight, hledger⟩ := hkept
  refine ⟨hledger.sum, ?_, ?_⟩
  · intro k row hrow
    refine ⟨?_, hledger.latest k row hrow⟩
    intro e he
    obtain ⟨row', hrow', -, hle⟩ := hledger.counted k e he
    obtain rfl := Option.some.inj (hrow.symm.trans hrow')
    exact hle
  · intro a u hsettled hstep
    have hspec := step_spec hflight hsettled hstep
    refine ⟨fun k row hrow => last_forward hspec.effect hrow, ?_⟩
    rintro i c k rfl hget hc j e row rule he hcamera htype hrow hopen hrule hnear
    exact counted_together hledger hspec.effect (counts_of_step hstep hget hc) he hcamera htype hrow
      hopen hrule hnear

/-! ## The yard -/

def lost (occurredAt : Int) : EventInput :=
  ⟨"e", yard, "STREAM_LOST", "ERROR", "stream lost", none, occurredAt⟩

def watched : System where
  settings := {
    alarmsEnabled := true, armed := true, muted := false, quietSeconds := 300
    rule := fun _ _ => some ⟨true, 300, .p1⟩ }

def settledSoFar (s : System) : Label → Bool
  | .advance i => timely s i
  | .event _ | .giveUp _ => true
  | .configure _ | .setStatus _ _ => false

theorem settled_of_soFar (s : System) (a : Label) (h : settledSoFar s a = true) : Settled s a := by
  cases a with
  | advance i => exact h
  | event | giveUp => trivial
  | configure | setStatus => cases h

def shown (e : EventInput) : Int × String × Access.Id := (e.occurredAt, e.type, e.cameraId)

/-- The stream is lost twice within the window. -/
theorem deduplication_yard : ∃ t, Reach alarmsMachine Settled t ∧ t.alarms.length = 1 ∧
    occurrences t = (countedEvents t).length ∧ (countedEvents t).length = 2 := by
  have hrun : (alarmsMachine.run settledSoFar watched
      (.event (lost 0) :: List.replicate 6 (.advance 0) ++
        .event (lost 60000) :: List.replicate 6 (.advance 1))).map
      (fun t => (t.alarms.length, (countedEvents t).length)) = some (1, 2) := by
    decide +kernel
  obtain ⟨t, hreach, heq⟩ := reach_of_run (G := Settled) hrun ⟨_, rfl⟩ settled_of_soFar
  obtain ⟨hone, htwo⟩ := Prod.mk.inj heq
  exact ⟨t, hreach, hone, (deduplication t hreach).1, htwo⟩

/-- Two events of one moment, side by side, are counted in two alarms. -/
theorem opened_twice : ¬ ∀ t u, Reach alarmsMachine (fun _ a => ∀ settings, a ≠ .configure settings) t →
    step t (.advance 1) = some u →
    ∀ (c : Call) (k j : Nat) (e : EventInput) (row : AlarmInstance) (rule : AlarmRule),
      u.calls[1]? = some c → c.phase = .counted k → (j, e) ∈ countedEvents t →
      e.cameraId = c.input.cameraId → e.type = c.input.type → t.alarms[j]? = some row →
      unresolved row = true → ruleOf t.settings c.input = some rule →
      |e.occurredAt - c.input.occurredAt| ≤ windowMs rule → j = k := by
  have hrun : (alarmsMachine.run settledSoFar watched
      (.event (lost 0) :: .event (lost 0) :: List.replicate 5 (.advance 0) ++
        List.replicate 5 (.advance 1) ++ [.advance 0])).map
      (fun t => decide ((countedEvents t).map (fun x => (x.1, shown x.2)) = [(0, shown (lost 0))] ∧
        (t.alarms[0]?).map unresolved = some true ∧
        ((step t (.advance 1)).bind (fun u => u.calls[1]?)).map (fun c => (c.phase.alarm,
          shown c.input)) = some (some 1, shown (lost 0)) ∧
        (ruleOf t.settings (lost 0)).map windowMs = some 300000)) = some true := by
    decide +kernel
  obtain ⟨t, ht, heq⟩ := Option.map_eq_some_iff.mp hrun
  obtain ⟨hcounted, hopen, hnext, hrule⟩ := of_decide_eq_true heq
  obtain ⟨⟨j, e⟩, he, hevent⟩ : ∃ x ∈ countedEvents t,
      (x.1, shown x.2) = (0, shown (lost 0)) := by
    apply List.mem_map.mp
    rw [hcounted]
    exact List.mem_cons_self
  obtain ⟨row, hrow, hunresolved⟩ := Option.map_eq_some_iff.mp hopen
  obtain ⟨c, hget, hcall⟩ := Option.map_eq_some_iff.mp hnext
  obtain ⟨u, hstep, hget⟩ := Option.bind_eq_some_iff.mp hget
  simp only [shown, Prod.mk.injEq] at hevent hcall
  obtain ⟨rfl, hzero, htype, hcamera⟩ := hevent
  obtain ⟨halarm, hzero', htype', hcamera'⟩ := hcall
  obtain ⟨rule, hrule, hwindow⟩ := Option.map_eq_some_iff.mp hrule
  have hphase : c.phase = .counted 1 := by
    cases hphase : c.phase with
    | counted k =>
      rw [hphase] at halarm
      rw [Option.some.inj halarm]
    | _ =>
      rw [hphase] at halarm
      cases halarm
  have hpath : Path alarmsMachine (fun _ a => ∀ settings, a ≠ .configure settings) watched t := by
    refine path_of_run (fun s a h => ?_) _ ht
    rintro settings rfl
    cases h
  intro h
  have hsame := h t u ⟨watched, ⟨_, rfl⟩, hpath⟩ hstep c 1 0 e row rule hget hphase he
    (hcamera.trans hcamera'.symm) (htype.trans htype'.symm) hrow hunresolved
    (by rw [ruleOf, htype']; exact hrule)
    (by rw [hzero, hzero', hwindow]; exact abs_le.mpr ⟨by decide, by decide⟩)
  cases hsame

end Drac.Alarms.Deduplication
