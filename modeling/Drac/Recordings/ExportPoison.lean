import Drac.Recordings.ExportQueue

/-
  An export that kills its worker.

  A pass of recovery takes the attempts made from the job, removes it, and adds a new one that
  starts with none. So unless a single attempt is allowed, an export that kills its worker is
  started again after every pass, without an end (`restarts`), and is given up after one start
  where it is (`poison_abandoned`). Whatever is allowed, a pass that finds a job as it was
  listed removes none within the limit of its last sign of life.
-/

namespace Drac.Recordings.ExportQueue

open Runs

variable {κ : Type}

/-- The job, if it is there, gave the sign of life that was listed. -/
def asListed (s : Exports κ) (p : Nat) : Bool :=
  match s.passes[p]? with
  | some (.deciding ((view, decision) :: _)) =>
    (s.jobs decision.id).all fun job =>
      lastBeat job.heartbeatAt job.processedOn = lastBeat view.heartbeatAt view.processedOn
  | _ => true

variable [DecidableEq κ]

/-- The export is accepted once, and each of its executions kills the worker. -/
def poisonous (k : κ) (s : Exports κ) : Label κ → Bool
  | .answer i => (s.requests[i]?).all fun id => id ≠ k || s.answers.all (·.1 ≠ k)
  | .complete id | .fail id => id ≠ k
  | _ => true

def Poisonous (k : κ) (s : Exports κ) (a : Label κ) : Prop := poisonous k s a = true

/-- A pass that comes to remove a job finds it as it was listed. -/
def Attentive (s : Exports κ) (a : Label κ) : Prop := ∀ p, a = .remove p → asListed s p = true

/-- An export that kills its workers is started as often as is allowed, and no attentive pass
is hasty. -/
structure GivenUp (c : Settings) (k : κ) : Prop where
  starts : ∀ s : Exports κ, Reach (exports c) (Poisonous k) s → s.starts k ≤ c.maxAttempts
  patient : ∀ s : Exports κ, Reach (exports c) Attentive s → s.hasty = false

/-! ## Started again and again -/

variable {c : Settings} {k : κ} {s t : Exports κ}

def added (c : Settings) : Job := { attempts := c.maxAttempts }

omit [DecidableEq κ] in
theorem decideOne_restart (hmany : 2 ≤ c.maxAttempts) (now : Nat) :
    decideOne c (now + (c.staleAfterMs + 1)) ⟨k, some now, none, 0⟩ =
      ⟨k, .requeue, "batimento_expirado", some (c.staleAfterMs + 1)⟩ := by
  have hmax : ¬ max 1 c.maxAttempts ≤ 1 := by omega
  have hstale : c.staleAfterMs + now < now + (c.staleAfterMs + 1) := by omega
  simp [decideOne, lastBeat, fresh, hmax, hstale]

/-- A worker takes the export and dies, and a pass puts it back. -/
theorem restart (hmany : 2 ≤ c.maxAttempts) (hjob : s.jobs k = some (added c)) :
    ∃ t, Path (exports c) (Poisonous k) s t ∧ t.jobs k = some (added c) ∧
      t.starts k = s.starts k + 1 := by
  have hrun : ((exports c).run (poisonous k) s [.start k, .die k, .tick (c.staleAfterMs + 1),
      .recover [k], .plan s.passes.length, .remove s.passes.length, .follow s.passes.length]).map
        (fun t => (t.jobs k, t.starts k)) = some (some (added c), s.starts k + 1) := by
    simp [Option.filter_some, Machine.run, exports, step, poisonous, hjob, added, held, setJob, view,
      planOrphanRecovery, decideOne_restart hmany, lastBeat, setPass, removeNext,
      followUp, add]
  obtain ⟨t, ht, hends⟩ := Option.map_eq_some_iff.mp hrun
  obtain ⟨hback, hstarts⟩ := Prod.mk.inj hends
  exact ⟨t, path_of_run (fun _ _ h => h) _ ht, hback, hstarts⟩

theorem restarts (hmany : 2 ≤ c.maxAttempts) (n : Nat) :
    ∃ s, Reach (exports c) (Poisonous k) s ∧ s.jobs k = some (added c) ∧ s.starts k = n := by
  induction n with
  | zero =>
    have hrun : ((exports c).run (poisonous k) {} [.request k, .answer 0]).map
        (fun t => (t.jobs k, t.starts k)) = some (some (added c), 0) := by
      simp [Machine.run, exports, step, poisonous, added, setJob, add]
    obtain ⟨t, ht, hends⟩ := Option.map_eq_some_iff.mp hrun
    obtain ⟨hjob, hstarts⟩ := Prod.mk.inj hends
    exact ⟨t, ⟨{}, rfl, path_of_run (fun _ _ h => h) _ ht⟩, hjob, hstarts⟩
  | succ n ih =>
    obtain ⟨s, hreach, hjob, rfl⟩ := ih
    obtain ⟨t, hpath, hback, hstarts⟩ := restart hmany hjob
    exact ⟨t, hreach.trans hpath, hback, hstarts⟩

/-! ## No pass is hasty -/

def Pass.rest : Pass κ → List (ActiveExportJobView κ × OrphanRecoveryDecision κ)
  | .listed _ => []
  | .deciding rest | .removed _ rest => rest

/-- What a pass does not keep was stale when it planned, and is. -/
structure Patient (c : Settings) (s : Exports κ) : Prop where
  patient : s.hasty = false
  stale : ∀ pass ∈ s.passes, ∀ e ∈ pass.rest, e.2.action ≠ .keep →
    fresh c s.now (lastBeat e.1.heartbeatAt e.1.processedOn) = false

omit [DecidableEq κ] in
theorem decideOne_keep {now : Nat} {job : ActiveExportJobView κ}
    (h : (decideOne c now job).action ≠ .keep) :
    fresh c now (lastBeat job.heartbeatAt job.processedOn) = false := by
  by_contra hfresh
  rw [Bool.not_eq_false] at hfresh
  exact h (by simp [decideOne, hfresh])

omit [DecidableEq κ] in
theorem mem_plan {now : Nat} {jobs : List (ActiveExportJobView κ)}
    {e : ActiveExportJobView κ × OrphanRecoveryDecision κ}
    (h : e ∈ jobs.zip (planOrphanRecovery c now jobs)) : e.2 = decideOne c now e.1 := by
  induction jobs with
  | nil => cases h
  | cons job rest ih =>
    cases List.mem_cons.mp h with
    | inl heq => rw [heq]
    | inr hrest => exact ih hrest

theorem fresh_tick {now ms : Nat} {beat : Option Nat} (h : fresh c now beat = false) :
    fresh c (now + ms) beat = false := by
  cases beat with
  | none => rfl
  | some at_ =>
    simp only [fresh, Option.any_some, decide_eq_false_iff_not] at h ⊢
    omega

omit [DecidableEq κ] in
theorem Patient.move (h : Patient c s) {p : Nat} {pass new : Pass κ}
    (hget : s.passes[p]? = some pass) (hpasses : t.passes = s.passes.set p new)
    (hrest : ∀ e ∈ new.rest, e ∈ pass.rest ∨
      (e.2.action ≠ .keep → fresh c s.now (lastBeat e.1.heartbeatAt e.1.processedOn) = false))
    (hnow : t.now = s.now) (hhasty : t.hasty = false) : Patient c t := by
  refine ⟨hhasty, fun other hother e he => ?_⟩
  rw [hnow]
  rw [hpasses] at hother
  cases List.mem_or_eq_of_mem_set hother with
  | inl hin => exact h.stale other hin e he
  | inr heq =>
    subst heq
    exact (hrest e he).elim (h.stale pass (List.mem_of_getElem? hget) e) id

omit [DecidableEq κ] in
theorem Patient.same (h : Patient c s) (hpasses : t.passes = s.passes) (hnow : t.now = s.now)
    (hhasty : t.hasty = s.hasty) : Patient c t :=
  ⟨hhasty.trans h.patient, by rw [hpasses, hnow]; exact h.stale⟩

theorem add_still (c : Settings) (s : Exports κ) (id : κ) :
    (add c s id).passes = s.passes ∧ (add c s id).now = s.now ∧
      (add c s id).hasty = s.hasty ∧ (add c s id).starts = s.starts := by
  unfold add
  split <;> exact ⟨rfl, rfl, rfl, rfl⟩

theorem Patient.step {a : Label κ} (h : Patient c s) (hlisted : Attentive s a)
    (hstep : step c s a = some t) : Patient c t := by
  cases a with
  | tick ms =>
    cases hstep
    exact ⟨h.patient, fun pass hpass e he hne => fresh_tick (h.stale pass hpass e he hne)⟩
  | request id =>
    cases hstep
    split <;> exact h.same rfl rfl rfl
  | answer i =>
    obtain ⟨id, -, rfl⟩ := Option.map_eq_some_iff.mp hstep
    obtain ⟨hpasses, hnow, hhasty, -⟩ := add_still c s id
    exact h.same hpasses hnow hhasty
  | promote id | start id | heartbeat id | writeClip id | complete id | die id | expire id =>
    obtain ⟨job, -, rfl⟩ := Option.map_eq_some_iff.mp hstep
    exact h.same rfl rfl rfl
  | fail id =>
    obtain ⟨job, -, rfl⟩ := Option.map_eq_some_iff.mp hstep
    dsimp only
    split <;> exact h.same rfl rfl rfl
  | deleteClip id => cases hstep; exact h.same rfl rfl rfl
  | recover ids =>
    cases hstep
    refine ⟨h.patient, fun pass hpass => ?_⟩
    cases List.mem_append.mp hpass with
    | inl hin => exact h.stale pass hin
    | inr hnew =>
      rw [List.mem_singleton.mp hnew]
      exact nofun
  | plan p =>
    obtain ⟨pass, hget, hplan⟩ := Option.bind_eq_some_iff.mp hstep
    split at hplan
    · next jobs =>
      cases hplan
      refine h.move hget rfl (fun e he => .inr ?_) rfl h.patient
      rw [mem_plan he]
      exact decideOne_keep
    · cases hplan
  | remove p =>
    obtain ⟨pass, hget, hremove⟩ := Option.bind_eq_some_iff.mp hstep
    split at hremove
    · next view decision rest =>
      cases hremove
      have hmoves : ∀ e ∈ rest, e ∈ (Pass.deciding ((view, decision) :: rest)).rest ∨
          (e.2.action ≠ .keep →
            fresh c s.now (lastBeat e.1.heartbeatAt e.1.processedOn) = false) :=
        fun e he => .inl (List.mem_cons_of_mem _ he)
      unfold removeNext
      split
      · exact h.move hget rfl hmoves rfl h.patient
      · next hkeep =>
        split
        · exact h.move hget rfl hmoves rfl h.patient
        · next job hjob =>
          split
          · exact h.move hget rfl hmoves rfl h.patient
          · refine h.move hget rfl hmoves rfl ?_
            have hstale := h.stale _ (List.mem_of_getElem? hget) _ List.mem_cons_self hkeep
            have hsame := hlisted p rfl
            simp only [asListed, hget, hjob, Option.all_some, decide_eq_true_eq] at hsame
            rw [← hsame] at hstale
            exact Bool.or_eq_false_iff.mpr ⟨h.patient, hstale⟩
    · cases hremove
  | follow p =>
    obtain ⟨pass, hget, hfollow⟩ := Option.bind_eq_some_iff.mp hstep
    split at hfollow
    · next decision rest =>
      cases hfollow
      obtain ⟨hpasses, hnow, hhasty, -⟩ := add_still c s decision.id
      unfold followUp
      split
      · have hset : (setPass (add c s decision.id) p (.deciding rest)).passes =
            s.passes.set p (.deciding rest) := by
          rw [setPass, hpasses]
        exact h.move hget hset (fun e he => .inl he) hnow (hhasty.trans h.patient)
      · exact h.move hget rfl (fun e he => .inl he) rfl h.patient
    · cases hfollow
  | crash p =>
    obtain ⟨pass, hget, rfl⟩ := Option.map_eq_some_iff.mp hstep
    exact h.move hget rfl nofun rfl h.patient

/-! ## One start, where one attempt is allowed -/

def Pass.decisions : Pass κ → List (OrphanRecoveryDecision κ)
  | .listed _ => []
  | .deciding rest => rest.map Prod.snd
  | .removed decision rest => decision :: rest.map Prod.snd

/-- No pass puts an export back, and that of `k` was begun at most once. -/
structure Once (k : κ) (s : Exports κ) : Prop where
  noRequeue : ∀ pass ∈ s.passes, ∀ decision ∈ pass.decisions, decision.action ≠ .requeue
  unasked : (∀ answer ∈ s.answers, answer.1 ≠ k) → s.jobs k = none ∧ s.starts k = 0
  job : ∀ job, s.jobs k = some job →
    job.state = .waiting ∧ s.starts k = 0 ∨ job.state = .active
  starts : s.starts k ≤ 1

omit [DecidableEq κ] in
theorem decideOne_once (hone : c.maxAttempts = 1) (now : Nat) (job : ActiveExportJobView κ) :
    (decideOne c now job).action ≠ .requeue := by
  unfold decideOne
  dsimp only
  split
  · exact nofun
  · rw [if_pos (by omega)]
    exact nofun

/-- A job of another export changes, or the one of this stays active. -/
theorem Once.modify (h : Once k s) {id : κ} {job : Option Job} {starts : Nat}
    (hjob : id = k → (s.jobs k).isSome ∧ ∀ new, job = some new → new.state = .active)
    (hstarts : id = k → starts ≤ 1) (hpasses : t.passes = s.passes) (hanswers : t.answers = s.answers)
    (hjobs : t.jobs = Function.update s.jobs id job)
    (hcount : t.starts = Function.update s.starts id starts) : Once k t := by
  by_cases hk : id = k
  · subst hk
    obtain ⟨hsome, hactive⟩ := hjob rfl
    refine ⟨by rw [hpasses]; exact h.noRequeue, fun hun => ?_, fun new hnew => ?_, ?_⟩
    · rw [hanswers] at hun
      rw [(h.unasked hun).1] at hsome
      cases hsome
    · rw [hjobs, Function.update_self] at hnew
      exact .inr (hactive new hnew)
    · rw [hcount, Function.update_self]
      exact hstarts rfl
  · have hsame : t.jobs k = s.jobs k := by rw [hjobs, Function.update_of_ne (Ne.symm hk)]
    have hk' : t.starts k = s.starts k := by rw [hcount, Function.update_of_ne (Ne.symm hk)]
    refine ⟨by rw [hpasses]; exact h.noRequeue, ?_, ?_, ?_⟩ <;> simp only [hsame, hk', hanswers]
    · exact h.unasked
    · exact h.job
    · exact h.starts

omit [DecidableEq κ] in
theorem Once.move (h : Once k s) {p : Nat} {pass new : Pass κ} (hget : s.passes[p]? = some pass)
    (hpasses : t.passes = s.passes.set p new)
    (hdecisions : ∀ decision ∈ new.decisions, decision ∈ pass.decisions ∨
      decision.action ≠ .requeue)
    (hanswers : t.answers = s.answers) (hstarts : t.starts = s.starts)
    (hjobs : t.jobs k = s.jobs k ∨ t.jobs k = none) : Once k t := by
  refine ⟨fun other hother decision hin => ?_, fun hun => ?_, fun job hjob => ?_, by
    rw [hstarts]; exact h.starts⟩
  · rw [hpasses] at hother
    cases List.mem_or_eq_of_mem_set hother with
    | inl hold => exact h.noRequeue other hold decision hin
    | inr heq =>
      subst heq
      exact (hdecisions decision hin).elim
        (h.noRequeue pass (List.mem_of_getElem? hget) decision) id
  · rw [hanswers] at hun
    obtain ⟨hnone, hzero⟩ := h.unasked hun
    refine ⟨?_, by rw [hstarts]; exact hzero⟩
    obtain hsame | hgone := hjobs
    · exact hsame.trans hnone
    · exact hgone
  · rw [hstarts]
    obtain hsame | hgone := hjobs
    · exact h.job job (hsame ▸ hjob)
    · rw [hgone] at hjob
      cases hjob

theorem Once.answer (h : Once k s) {i : Nat} {id : κ}
    (hfirst : id ≠ k ∨ ∀ answer ∈ s.answers, answer.1 ≠ k) {owed : κ → Bool} :
    Once k { add c s id with
      requests := s.requests.eraseIdx i
      answers := s.answers ++ [(id, pendingAt (add c s id) id)]
      owed := owed } := by
  obtain ⟨hpasses, -, -, hstarts⟩ := add_still c s id
  have hunasked : (∀ answer ∈ s.answers ++ [(id, pendingAt (add c s id) id)], answer.1 ≠ k) →
      (∀ answer ∈ s.answers, answer.1 ≠ k) ∧ id ≠ k :=
    fun hun => ⟨fun answer ha => hun answer (List.mem_append_left _ ha),
      hun (id, _) (List.mem_append_right _ List.mem_cons_self)⟩
  by_cases hk : id = k
  · subst hk
    obtain ⟨hnone, hzero⟩ := h.unasked (hfirst.resolve_left fun hne => hne rfl)
    refine ⟨by rw [hpasses]; exact h.noRequeue, fun hun => absurd rfl (hunasked hun).2,
      fun job hjob => ?_, by rw [hstarts]; exact h.starts⟩
    have hadd : (add c s id).jobs id = some { attempts := c.maxAttempts } := by
      simp [add, hnone, setJob]
    rw [show (add c s id).jobs id = some job from hjob, Option.some.injEq] at hadd
    subst hadd
    exact .inl ⟨rfl, (congrFun hstarts id).trans hzero⟩
  · have hsame : (add c s id).jobs k = s.jobs k := by
      unfold add
      split
      · rfl
      · exact Function.update_of_ne (Ne.symm hk) ..
    refine ⟨by rw [hpasses]; exact h.noRequeue, fun hun => ?_, fun job hjob => ?_, by
      rw [hstarts]; exact h.starts⟩ <;> dsimp only
    · rw [hsame, hstarts]
      exact h.unasked (hunasked hun).1
    · rw [hstarts]
      exact h.job job (hsame ▸ hjob)

theorem Once.step (hone : c.maxAttempts = 1) {a : Label κ} (h : Once k s)
    (hguard : Poisonous k s a) (hstep : step c s a = some t) : Once k t := by
  have hstays : ∀ {id : κ}, Function.update s.starts id (s.starts id) = s.starts :=
    Function.update_eq_self ..
  -- the job of the export is neither delayed nor over
  have hpending : ∀ job, s.jobs k = some job → job.state ≠ .delayed ∧ job.pending = true := by
    intro job hjob
    obtain ⟨hstate, -⟩ | hstate := h.job job hjob <;> simp [Job.pending, hstate]
  cases a with
  | tick ms => cases hstep; exact ⟨h.noRequeue, h.unasked, h.job, h.starts⟩
  | request id =>
    cases hstep
    split <;> exact ⟨h.noRequeue, h.unasked, h.job, h.starts⟩
  | answer i =>
    obtain ⟨id, hid, rfl⟩ := Option.map_eq_some_iff.mp hstep
    exact h.answer (by simpa [Poisonous, poisonous, hid] using hguard)
  | promote id =>
    obtain ⟨job, hjob, rfl⟩ := Option.map_eq_some_iff.mp hstep
    obtain ⟨hjob, hdelayed⟩ := Option.filter_eq_some_iff.mp hjob
    have hk : id ≠ k := by
      rintro rfl
      exact (hpending job hjob).1 (of_decide_eq_true hdelayed)
    exact h.modify (absurd · hk) (absurd · hk) rfl rfl rfl hstays.symm
  | start id =>
    obtain ⟨job, hjob, rfl⟩ := Option.map_eq_some_iff.mp hstep
    obtain ⟨hjob, hwaiting⟩ := Option.filter_eq_some_iff.mp hjob
    refine h.modify (fun hk => ⟨by rw [← hk, hjob]; rfl, ?_⟩) (fun hk => ?_) rfl rfl rfl rfl
    · rintro new ⟨⟩
      rfl
    · subst hk
      obtain ⟨-, hzero⟩ | hactive := h.job job hjob
      · omega
      · rw [of_decide_eq_true hwaiting] at hactive
        cases hactive
  | heartbeat id | die id =>
    obtain ⟨job, hheld, rfl⟩ := Option.map_eq_some_iff.mp hstep
    obtain ⟨hjob, hactive⟩ := Option.filter_eq_some_iff.mp hheld
    refine h.modify (fun hk => ⟨by rw [← hk, hjob]; rfl, ?_⟩) (fun hk => hk ▸ h.starts) rfl rfl rfl
      hstays.symm
    rintro new ⟨⟩
    exact of_decide_eq_true (Bool.and_eq_true_iff.mp hactive).1
  | writeClip id =>
    obtain ⟨job, -, rfl⟩ := Option.map_eq_some_iff.mp hstep
    exact ⟨h.noRequeue, h.unasked, h.job, h.starts⟩
  | complete id =>
    have hk : id ≠ k := of_decide_eq_true hguard
    obtain ⟨job, -, rfl⟩ := Option.map_eq_some_iff.mp hstep
    exact h.modify (absurd · hk) (absurd · hk) rfl rfl rfl hstays.symm
  | fail id =>
    have hk : id ≠ k := of_decide_eq_true hguard
    obtain ⟨job, -, rfl⟩ := Option.map_eq_some_iff.mp hstep
    dsimp only
    split <;> exact h.modify (absurd · hk) (absurd · hk) rfl rfl rfl hstays.symm
  | expire id =>
    obtain ⟨job, hjob, rfl⟩ := Option.map_eq_some_iff.mp hstep
    obtain ⟨hjob, hover⟩ := Option.filter_eq_some_iff.mp hjob
    have hk : id ≠ k := by
      rintro rfl
      rw [(hpending job hjob).2] at hover
      cases hover
    exact h.modify (absurd · hk) (absurd · hk) rfl rfl rfl hstays.symm
  | deleteClip id => cases hstep; exact ⟨h.noRequeue, h.unasked, h.job, h.starts⟩
  | recover ids =>
    cases hstep
    refine ⟨fun pass hpass => ?_, h.unasked, h.job, h.starts⟩
    cases List.mem_append.mp hpass with
    | inl hin => exact h.noRequeue pass hin
    | inr hnew =>
      rw [List.mem_singleton.mp hnew]
      exact nofun
  | plan p =>
    obtain ⟨pass, hget, hplan⟩ := Option.bind_eq_some_iff.mp hstep
    split at hplan
    · cases hplan
      refine h.move hget rfl (fun decision hin => .inr ?_) rfl rfl (.inl rfl)
      obtain ⟨e, he, rfl⟩ := List.mem_map.mp hin
      rw [mem_plan he]
      exact decideOne_once hone _ _
    · cases hplan
  | remove p =>
    obtain ⟨pass, hget, hremove⟩ := Option.bind_eq_some_iff.mp hstep
    split at hremove
    · next view decision rest =>
      cases hremove
      have hmoves : ∀ d ∈ rest.map Prod.snd, d ∈ decision :: rest.map Prod.snd ∨
          d.action ≠ .requeue := fun d hd => .inl (List.mem_cons_of_mem _ hd)
      unfold removeNext
      split
      · exact h.move hget rfl hmoves rfl rfl (.inl rfl)
      · split
        · exact h.move hget rfl (fun d hd => .inl hd) rfl rfl (.inl rfl)
        · split
          · exact h.move hget rfl hmoves rfl rfl (.inl rfl)
          · refine h.move hget rfl (fun d hd => .inl hd) rfl rfl ?_
            by_cases hk : k = decision.id
            · exact .inr (by simp [setPass, setJob, hk])
            · exact .inl (Function.update_of_ne hk ..)
    · cases hremove
  | follow p =>
    obtain ⟨pass, hget, hfollow⟩ := Option.bind_eq_some_iff.mp hstep
    split at hfollow
    · next decision rest =>
      cases hfollow
      have hnot := h.noRequeue _ (List.mem_of_getElem? hget) decision List.mem_cons_self
      rw [followUp, if_neg hnot]
      exact h.move hget rfl (fun d hd => .inl (List.mem_cons_of_mem _ hd)) rfl rfl (.inl rfl)
    · cases hfollow
  | crash p =>
    obtain ⟨pass, hget, rfl⟩ := Option.map_eq_some_iff.mp hstep
    exact h.move hget rfl nofun rfl rfl (.inl rfl)

/-- An export whose executions all kill their worker is started at most as often as is allowed,
in every such run, just where one attempt is. -/
theorem poison_abandoned (c : Settings) (k : κ) : GivenUp c k ↔ c.maxAttempts = 1 := by
  constructor
  · intro h
    by_contra hne
    have hmany : 2 ≤ c.maxAttempts := by
      have hmin := c.attempts_mem.1
      omega
    obtain ⟨s, hreach, -, hstarts⟩ := restarts (k := k) hmany (c.maxAttempts + 1)
    have hgiven := h.starts s hreach
    omega
  · intro hone
    refine ⟨?_, ?_⟩
    · intro s h
      have honce : Once k s := by
        refine h.invariant ?_ fun s a t hs hguard hstep => hs.step hone hguard hstep
        rintro s rfl
        exact ⟨nofun, fun _ => ⟨rfl, rfl⟩, nofun, Nat.zero_le _⟩
      rw [hone]
      exact honce.starts
    · intro s h
      have hpatient : Patient c s := by
        refine h.invariant ?_ fun s a t hs hguard hstep => hs.step hguard hstep
        rintro s rfl
        exact ⟨rfl, nofun⟩
      exact hpatient.patient

/-- Three attempts are allowed, and the export is started a fourth time. -/
theorem not_abandoned : ¬ GivenUp defaults (0 : Nat) := by
  intro h
  obtain ⟨s, hreach, -, hstarts⟩ := restarts (k := 0) (c := defaults) (by decide) 4
  have hgiven := h.starts s hreach
  rw [hstarts] at hgiven
  exact absurd hgiven (by decide)

end Drac.Recordings.ExportQueue
