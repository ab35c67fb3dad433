import Drac.Recordings.ExportQueue

/-
  What was accepted is in the queue.

  A request whose clip the retention has deleted finds the job of the first export under its
  id, finished: nothing is added, and the answer is `queued` all the same
  (`queued_swallowed`). And a pass of recovery that dies between its two steps leaves the
  export in no state at all. Where neither happens, `queued` means queued, and an accepted
  export is there until it has completed, failed or been reported as given up
  (`queued_means_queued`).
-/

namespace Drac.Recordings.ExportQueue

open Runs

variable {κ : Type}

/-- The pass has taken the job out of the queue, and lives. -/
def removing (s : Exports κ) (id : κ) : Prop :=
  ∃ (p : Nat) (decision : OrphanRecoveryDecision κ)
    (rest : List (ActiveExportJobView κ × OrphanRecoveryDecision κ)),
    s.passes[p]? = some (.removed decision rest) ∧ decision.id = id

/-- Every `queued` was answered with a job pending. What was accepted and has not ended is
pending, or with a pass that is to add or report it. -/
structure QueuedMeansQueued (s : Exports κ) : Prop where
  answers : ∀ answer ∈ s.answers, answer.2 = true
  owed : ∀ id, s.owed id = true → pendingAt s id = true ∨ removing s id

/-- No finished job is there under the id of a request that is to be added, and no pass dies
between its two steps. -/
def sound (s : Exports κ) : Label κ → Bool
  | .answer i => (s.requests[i]?).all fun id => (s.jobs id).all (·.pending)
  | .crash p => (s.passes[p]?).all fun pass =>
    match pass with
    | .removed _ _ => false
    | _ => true
  | _ => true

def Sound (s : Exports κ) (a : Label κ) : Prop := sound s a = true

/-! ## Every run -/

/-- Requests are answered well, and what is owed is pending. -/
structure Kept (s : Exports κ) : Prop where
  answers : ∀ answer ∈ s.answers, answer.2 = true
  there : ∀ id, s.owed id = true → (s.jobs id).isSome ∨ removing s id
  pending : ∀ id job, s.owed id = true → s.jobs id = some job → job.pending = true

theorem Kept.queued {s : Exports κ} (h : Kept s) : QueuedMeansQueued s := by
  refine ⟨h.answers, fun id howed => ?_⟩
  cases h.there id howed with
  | inl hsome =>
    obtain ⟨job, hjob⟩ := Option.isSome_iff_exists.mp hsome
    left
    rw [pendingAt, hjob]
    exact h.pending id job howed hjob
  | inr hremoving => exact .inr hremoving

variable [DecidableEq κ] {c : Settings} {s t : Exports κ}

theorem Kept.modify (h : Kept s) {id : κ} {job : Job} {owed : κ → Bool}
    (hjobs : t.jobs = Function.update s.jobs id (some job)) (hpasses : t.passes = s.passes)
    (hanswers : t.answers = s.answers) (howed : t.owed = owed)
    (hle : ∀ k, owed k = true → s.owed k = true)
    (hpending : owed id = true → job.pending = true) : Kept t := by
  subst howed
  refine ⟨by rw [hanswers]; exact h.answers, fun k hk => ?_, fun k other hk hother => ?_⟩
  · unfold removing
    rw [hjobs, hpasses, Function.update_apply]
    split
    · exact .inl rfl
    · exact h.there k (hle k hk)
  · rw [hjobs, Function.update_apply] at hother
    split at hother
    · next heq =>
      obtain rfl := Option.some.inj hother
      exact hpending (heq ▸ hk)
    · exact h.pending k other (hle k hk) hother

omit [DecidableEq κ] in
theorem Kept.move (h : Kept s) {p : Nat} {pass new : Pass κ} (hget : s.passes[p]? = some pass)
    (hidle : ∀ decision rest, pass ≠ .removed decision rest) (hpasses : t.passes = s.passes.set p new)
    (hanswers : t.answers = s.answers) (howed : t.owed = s.owed)
    (hjobs : ∀ id, t.jobs id = s.jobs id ∨ t.jobs id = none ∧
      ∃ decision rest, new = .removed decision rest ∧ decision.id = id) : Kept t := by
  have hlt : p < s.passes.length := (List.getElem?_eq_some_iff.mp hget).1
  refine ⟨by rw [hanswers]; exact h.answers, fun id hid => ?_, fun id job hid hjob => ?_⟩
  · rw [howed] at hid
    obtain hsame | ⟨-, decision, rest, rfl, hdecision⟩ := hjobs id
    · rw [hsame]
      refine (h.there id hid).imp_right ?_
      rintro ⟨q, decision, rest, hq, hdecision⟩
      refine ⟨q, decision, rest, ?_, hdecision⟩
      have hne : p ≠ q := by
        rintro rfl
        rw [hget, Option.some.injEq] at hq
        exact hidle _ _ hq
      rw [hpasses, List.getElem?_set_ne hne]
      exact hq
    · refine .inr ⟨p, decision, rest, ?_, hdecision⟩
      rw [hpasses, List.getElem?_set_self hlt]
  · rw [howed] at hid
    obtain hsame | ⟨hnone, -⟩ := hjobs id
    · exact h.pending id job hid (hsame ▸ hjob)
    · rw [hnone] at hjob
      cases hjob

theorem Kept.removeNext (h : Kept s) {p : Nat} {decision : OrphanRecoveryDecision κ}
    {view : ActiveExportJobView κ} {rest : List (ActiveExportJobView κ × OrphanRecoveryDecision κ)}
    (hget : s.passes[p]? = some (.deciding ((view, decision) :: rest))) :
    Kept (removeNext c s p decision rest) := by
  have hon : ∀ new : Pass κ, Kept (setPass s p new) :=
    fun new => h.move hget nofun rfl rfl rfl fun _ => .inl rfl
  unfold ExportQueue.removeNext
  split
  · exact hon _
  · split
    · exact hon _
    · split
      · exact hon _
      · refine h.move hget nofun rfl rfl rfl fun id => ?_
        by_cases heq : id = decision.id
        · subst heq
          exact .inr ⟨Function.update_self .., _, _, rfl, rfl⟩
        · exact .inl (Function.update_of_ne heq ..)

theorem add_jobs (c : Settings) (s : Exports κ) (id : κ) :
    ((add c s id).jobs id).isSome ∧ ∀ k, (add c s id).jobs k = s.jobs k ∨
      s.jobs k = none ∧ (add c s id).jobs k = some { attempts := c.maxAttempts } := by
  unfold add
  split
  · next job hjob => exact ⟨by rw [hjob]; rfl, fun _ => .inl rfl⟩
  · next hnone =>
    refine ⟨by simp [setJob], fun k => ?_⟩
    by_cases heq : k = id
    · subst heq
      exact .inr ⟨hnone, Function.update_self ..⟩
    · exact .inl (Function.update_of_ne heq ..)

theorem add_rest (c : Settings) (s : Exports κ) (id : κ) :
    (add c s id).passes = s.passes ∧ (add c s id).answers = s.answers ∧
      (add c s id).owed = s.owed ∧ (add c s id).requests = s.requests := by
  unfold add
  split <;> exact ⟨rfl, rfl, rfl, rfl⟩

theorem Kept.pending_add (h : Kept s) {id k : κ} {job : Job} (hk : s.owed k = true)
    (hjob : (add c s id).jobs k = some job) : job.pending = true := by
  obtain hsame | ⟨-, hnew⟩ := (add_jobs c s id).2 k
  · exact h.pending k job hk (hsame ▸ hjob)
  · rw [hnew, Option.some.injEq] at hjob
    subst hjob
    rfl

theorem Kept.answer (h : Kept s) {i : Nat} {id : κ} (hpending : (s.jobs id).all (·.pending) = true) :
    Kept { add c s id with
      requests := s.requests.eraseIdx i
      answers := s.answers ++ [(id, pendingAt (add c s id) id)]
      owed := Function.update s.owed id true } := by
  obtain ⟨hsome, hjobs⟩ := add_jobs c s id
  have hadded : pendingAt (add c s id) id = true := by
    obtain ⟨job, hjob⟩ := Option.isSome_iff_exists.mp hsome
    rw [pendingAt, hjob]
    obtain hsame | ⟨-, hnew⟩ := hjobs id
    · rw [← hsame, hjob] at hpending
      exact hpending
    · rw [hnew, Option.some.injEq] at hjob
      subst hjob
      rfl
  have hothers : ∀ {k}, k ≠ id → Function.update s.owed id true k = true → s.owed k = true :=
    fun hne hk => by rwa [Function.update_of_ne hne] at hk
  refine ⟨fun answer hanswer => ?_, fun k hk => ?_, fun k job hk hjob => ?_⟩
  · cases List.mem_append.mp hanswer with
    | inl hold => exact h.answers answer hold
    | inr hnew =>
      rw [List.mem_singleton.mp hnew]
      exact hadded
  · by_cases heq : k = id
    · subst heq
      exact .inl hsome
    · obtain hin | ⟨p, decision, rest, hp, hdecision⟩ := h.there k (hothers heq hk)
      · obtain hsame | ⟨hnone, -⟩ := hjobs k
        · exact .inl (by rw [← hsame] at hin; exact hin)
        · rw [hnone] at hin
          cases hin
      · exact .inr ⟨p, decision, rest, by rw [← (add_rest c s id).1] at hp; exact hp, hdecision⟩
  · by_cases heq : k = id
    · subst heq
      have hall := hadded
      rw [pendingAt, show (add c s k).jobs k = some job from hjob] at hall
      exact hall
    · exact h.pending_add (hothers heq hk) hjob

theorem Kept.follow (h : Kept s) {p : Nat} {decision : OrphanRecoveryDecision κ}
    {rest : List (ActiveExportJobView κ × OrphanRecoveryDecision κ)}
    (hget : s.passes[p]? = some (.removed decision rest)) :
    Kept (setPass (followUp c s decision) p (.deciding rest)) := by
  -- the other passes hold what they held
  have hothers : ∀ {u : Exports κ} {id : κ}, u.passes = s.passes → removing s id →
      id ≠ decision.id → removing (setPass u p (.deciding rest)) id := by
    rintro u id hu ⟨q, other, left, hq, rfl⟩ hne
    refine ⟨q, other, left, ?_, rfl⟩
    have hpq : p ≠ q := by
      rintro rfl
      rw [hget, Option.some.injEq, Pass.removed.injEq] at hq
      exact hne (by rw [hq.1])
    rw [setPass, hu, List.getElem?_set_ne hpq]
    exact hq
  unfold followUp
  split
  · obtain ⟨hsome, hjobs⟩ := add_jobs c s decision.id
    obtain ⟨hpasses, hanswers, howed, -⟩ := add_rest c s decision.id
    refine ⟨by rw [setPass, hanswers]; exact h.answers, fun id hid => ?_, fun id job hid hjob => ?_⟩
    · rw [setPass, howed] at hid
      by_cases heq : id = decision.id
      · subst heq
        exact .inl hsome
      · refine (h.there id hid).imp (fun hin => ?_) (hothers hpasses · heq)
        obtain hsame | ⟨hnone, -⟩ := hjobs id
        · exact (congrArg Option.isSome hsame).trans hin
        · rw [hnone] at hin
          cases hin
    · rw [setPass, howed] at hid
      exact h.pending_add hid hjob
  · have howed : ∀ id, Function.update s.owed decision.id
        (s.owed decision.id && (s.jobs decision.id).isSome) id = true →
          s.owed id = true ∧ (id = decision.id → (s.jobs id).isSome = true) := by
      intro id hid
      rw [Function.update_apply] at hid
      split at hid
      · next heq =>
        rw [Bool.and_eq_true, ← heq] at hid
        exact ⟨hid.1, fun _ => hid.2⟩
      · next hne => exact ⟨hid, fun heq => absurd heq hne⟩
    refine ⟨h.answers, fun id hid => ?_, fun id job hid => h.pending id job (howed id hid).1⟩
    obtain ⟨hold, hthere⟩ := howed id hid
    by_cases heq : id = decision.id
    · exact .inl (hthere heq)
    · exact (h.there id hold).imp_right (hothers rfl · heq)

omit [DecidableEq κ] in
theorem held_some {id : κ} {job : Job} (h : held s id = some job) :
    s.jobs id = some job ∧ job.state = .active := by
  obtain ⟨hjob, hstate⟩ := Option.filter_eq_some_iff.mp h
  exact ⟨hjob, of_decide_eq_true (Bool.and_eq_true_iff.mp hstate).1⟩

theorem Kept.step {a : Label κ} (h : Kept s) (hsound : Sound s a)
    (hstep : step c s a = some t) : Kept t := by
  have hforgets : ∀ (id k : κ), Function.update s.owed id false k = true → s.owed k = true := by
    intro id k hk
    rw [Function.update_apply] at hk
    split at hk
    · cases hk
    · exact hk
  cases a with
  | tick ms => cases hstep; exact ⟨h.answers, h.there, h.pending⟩
  | request id =>
    cases hstep
    split
    · exact h
    · exact ⟨h.answers, h.there, h.pending⟩
  | answer i =>
    obtain ⟨id, hid, rfl⟩ := Option.map_eq_some_iff.mp hstep
    exact h.answer (by simpa [Sound, sound, hid] using hsound)
  | promote id =>
    obtain ⟨job, -, rfl⟩ := Option.map_eq_some_iff.mp hstep
    exact h.modify rfl rfl rfl rfl (fun _ hk => hk) fun _ => rfl
  | start id =>
    obtain ⟨job, -, rfl⟩ := Option.map_eq_some_iff.mp hstep
    exact h.modify rfl rfl rfl rfl (fun _ hk => hk) fun _ => rfl
  | heartbeat id =>
    obtain ⟨job, hheld, rfl⟩ := Option.map_eq_some_iff.mp hstep
    obtain ⟨-, hactive⟩ := held_some hheld
    exact h.modify rfl rfl rfl rfl (fun _ hk => hk) fun _ => by simp [Job.pending, hactive]
  | writeClip id =>
    obtain ⟨job, -, rfl⟩ := Option.map_eq_some_iff.mp hstep
    exact ⟨h.answers, h.there, h.pending⟩
  | complete id =>
    obtain ⟨job, -, rfl⟩ := Option.map_eq_some_iff.mp hstep
    exact h.modify rfl rfl rfl rfl (hforgets id) fun hk => by simp at hk
  | fail id =>
    obtain ⟨job, -, rfl⟩ := Option.map_eq_some_iff.mp hstep
    dsimp only
    split
    · exact h.modify rfl rfl rfl rfl (fun _ hk => hk) fun _ => rfl
    · exact h.modify rfl rfl rfl rfl (hforgets id) fun hk => by simp at hk
  | die id =>
    obtain ⟨job, hheld, rfl⟩ := Option.map_eq_some_iff.mp hstep
    obtain ⟨-, hactive⟩ := held_some hheld
    exact h.modify rfl rfl rfl rfl (fun _ hk => hk) fun _ => by simp [Job.pending, hactive]
  | expire id =>
    obtain ⟨job, hjob, rfl⟩ := Option.map_eq_some_iff.mp hstep
    obtain ⟨hjob, hover⟩ := Option.filter_eq_some_iff.mp hjob
    -- what has ended is not owed
    have hnot : ∀ k, s.owed k = true → k ≠ id := by
      rintro k hk rfl
      rw [h.pending k job hk hjob] at hover
      cases hover
    refine ⟨h.answers, fun k hk => ?_, fun k other hk hother => ?_⟩
    · rw [show (setJob s id none).jobs k = s.jobs k from Function.update_of_ne (hnot k hk) ..]
      exact h.there k hk
    · rw [show (setJob s id none).jobs k = s.jobs k from Function.update_of_ne (hnot k hk) ..]
        at hother
      exact h.pending k other hk hother
  | deleteClip id => cases hstep; exact ⟨h.answers, h.there, h.pending⟩
  | recover ids =>
    cases hstep
    refine ⟨h.answers, fun id hid => ?_, h.pending⟩
    refine (h.there id hid).imp_right ?_
    rintro ⟨p, decision, rest, hp, hdecision⟩
    refine ⟨p, decision, rest, ?_, hdecision⟩
    rw [List.getElem?_append_left (List.getElem?_eq_some_iff.mp hp).1]
    exact hp
  | plan p =>
    obtain ⟨pass, hget, hplan⟩ := Option.bind_eq_some_iff.mp hstep
    split at hplan
    · cases hplan
      exact h.move hget nofun rfl rfl rfl fun _ => .inl rfl
    · cases hplan
  | remove p =>
    obtain ⟨pass, hget, hremove⟩ := Option.bind_eq_some_iff.mp hstep
    split at hremove
    · cases hremove
      exact h.removeNext hget
    · cases hremove
  | follow p =>
    obtain ⟨pass, hget, hfollow⟩ := Option.bind_eq_some_iff.mp hstep
    split at hfollow
    · cases hfollow
      exact h.follow hget
    · cases hfollow
  | crash p =>
    obtain ⟨pass, hget, rfl⟩ := Option.map_eq_some_iff.mp hstep
    refine h.move hget ?_ rfl rfl rfl fun _ => .inl rfl
    rintro decision rest rfl
    simp [Sound, sound, hget] at hsound

/-- In every run whose steps meet the condition `queued` means queued. -/
theorem queued_means_queued (h : Reach (exports (κ := κ) c) Sound s) : QueuedMeansQueued s := by
  have hkept : Kept s := by
    refine h.invariant ?_ fun s a t hs hsound hstep => hs.step hsound hstep
    rintro s rfl
    exact ⟨nofun, nofun, nofun⟩
  exact hkept.queued

/-! ## Runs -/

def exported : List (Label Nat) := [.request 0, .answer 0, .start 0, .writeClip 0, .complete 0]

/-- Its worker dies, and a pass of recovery takes it out of the queue. -/
def orphaned : List (Label Nat) :=
  [.request 1, .answer 0, .start 1, .die 1, .tick 600001, .recover [1], .plan 0, .remove 0]

theorem queued_means_queued_orphaned : ∃ s : Exports Nat, Reach (exports defaults) Sound s ∧
    s.owed 1 = true ∧ s.answers = [(0, true), (1, true)] ∧ QueuedMeansQueued s := by
  have hrun : ((exports defaults).run sound {} (exported ++ orphaned ++ [.follow 0])).map
      (fun s => (s.owed 1, s.answers)) = some (true, [(0, true), (1, true)]) := by
    decide
  obtain ⟨s, hreach, hends⟩ := reach_of_run (G := Sound) hrun rfl (fun _ _ h => h)
  obtain ⟨howed, hanswers⟩ := Prod.mk.inj hends
  exact ⟨s, hreach, howed, hanswers, queued_means_queued hreach⟩

/-- The clip is deleted, and the export asked for again. -/
theorem queued_swallowed :
    ¬ ∀ s : Exports Nat, Reach (exports defaults) Always s → QueuedMeansQueued s := by
  intro h
  have hrun : ((exports defaults).run anyStep {}
      (exported ++ ([.deleteClip 0, .request 0, .answer 0] : List (Label Nat)))).map
        (·.answers) = some [(0, true), (0, false)] := by
    decide
  obtain ⟨s, hreach, hanswers⟩ := reach_of_anyStep hrun rfl
  have hqueued := h s hreach
  exact absurd (hqueued.answers (0, false) (by simp [hanswers])) (by decide)

end Drac.Recordings.ExportQueue
