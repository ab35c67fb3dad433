import Mathlib.Data.List.Nodup
import Drac.Lib.Runs

/-
  Tasks that read and write one document whole.

  A task loads the document, changes what it holds by pure functions, and after each of
  them saves it: the document is then what the task holds. Any other task may come in
  between two of its steps. `since` keeps the origins of the other tasks that saved
  since this one loaded.

  A machine that admits only some of these steps has the theorem by running in this one.
-/

namespace SharedDocument

open Runs

variable {τ δ : Type}

/-- Where a task is with the document. -/
inductive Phase (δ : Type) where
  | queued
  | holding (db : δ)
  | ended

/-- Who asked, what it will do to the document, and what was saved since it loaded. -/
structure Task (τ δ : Type) where
  origin : τ
  updates : List (δ → δ)
  phase : Phase δ
  saved : Nat
  since : List τ

/-- The document stored, and the tasks. -/
structure State (τ δ : Type) where
  stored : δ
  tasks : List (Task τ δ)

/-- One step of a task, or a new one. -/
inductive Label (τ δ : Type) where
  | arrive (origin : τ) (updates : List (δ → δ))
  | load (i : Nat)
  | save (i : Nat)
  | finish (i : Nat)

def Task.holds? (t : Task τ δ) : Option δ :=
  match t.phase with
  | .holding db => some db
  | _ => none

def Task.note (origin : τ) (t : Task τ δ) : Task τ δ := { t with since := origin :: t.since }

def Task.load (t : Task τ δ) (stored : δ) : Option (Task τ δ) :=
  match t.phase with
  | .queued => some { t with phase := .holding stored, since := [] }
  | _ => none

def Task.save (t : Task τ δ) : Option (δ × Task τ δ) :=
  match t.holds?, t.updates[t.saved]? with
  | some db, some f => some (f db, { t with phase := .holding (f db), saved := t.saved + 1 })
  | _, _ => none

def Task.finish (t : Task τ δ) : Option (Task τ δ) :=
  match t.phase with
  | .ended => none
  | _ => some { t with phase := .ended }

def step (s : State τ δ) : Label τ δ → Option (State τ δ)
  | .arrive origin updates =>
    some { s with tasks := s.tasks ++ [⟨origin, updates, .queued, 0, []⟩] }
  | .load i => do
    let t ← s.tasks[i]?
    let t' ← t.load s.stored
    return { s with tasks := s.tasks.set i t' }
  | .save i => do
    let t ← s.tasks[i]?
    let (db, t') ← t.save
    return { stored := db, tasks := (s.tasks.map (Task.note t.origin)).set i t' }
  | .finish i => do
    let t ← s.tasks[i]?
    let t' ← t.finish
    return { s with tasks := s.tasks.set i t' }

/-! ## The property and the condition -/

def Task.effect (t : Task τ δ) (db : δ) : δ :=
  (t.updates.take t.saved).foldl (fun db f => f db) db

def State.effectAt (s : State τ δ) (db : δ) (i : Nat) : δ :=
  ((s.tasks[i]?).map (fun t => t.effect db)).getD db

def State.replay (s : State τ δ) (initial : δ) (order : List Nat) : δ :=
  order.foldl s.effectAt initial

/-- The document is the result of the tasks that saved, one after another. -/
def Serial (initial : δ) (s : State τ δ) : Prop :=
  ∃ order : List Nat, order.Nodup ∧
    (∀ i, i ∈ order ↔ ∃ t, s.tasks[i]? = some t ∧ 0 < t.saved) ∧
    s.stored = s.replay initial order

/-- A task saves only if no other has saved since it loaded. -/
def Undisturbed (s : State τ δ) : Label τ δ → Prop
  | .save i => ∀ t, s.tasks[i]? = some t → t.since = []
  | _ => True

/-! ## What a step does -/

variable {t t' : Task τ δ} {db : δ}

theorem save_eq (h : t.save = some (db, t')) :
    ∃ held f, t.phase = .holding held ∧ t.updates[t.saved]? = some f ∧ db = f held ∧
      t' = { t with phase := .holding db, saved := t.saved + 1 } := by
  unfold Task.save Task.holds? at h
  cases hphase : t.phase with
  | queued | ended => rw [hphase] at h; cases h
  | holding held =>
    rw [hphase] at h
    cases hf : t.updates[t.saved]? with
    | none => rw [hf] at h; cases h
    | some f =>
      rw [hf] at h
      simp only [Option.some.injEq, Prod.mk.injEq] at h
      exact ⟨held, f, rfl, rfl, h.1.symm, by rw [← h.2, ← h.1]⟩

theorem effect_save {db held : δ} {f : δ → δ}
    (hf : t.updates[t.saved]? = some f) (hdb : db = f held)
    (ht' : t' = { t with phase := .holding db, saved := t.saved + 1 }) (base : δ)
    (hheld : t.effect base = held) : t'.effect base = db := by
  rw [ht']
  show (t.updates.take (t.saved + 1)).foldl (fun db f => f db) base = db
  obtain ⟨hlt, hget⟩ := List.getElem?_eq_some_iff.mp hf
  rw [List.take_succ_eq_append_getElem hlt, List.foldl_append, hget, hdb, ← hheld]
  rfl

theorem getElem?_save_some {tasks : List (Task τ δ)} {origin : τ} {i j : Nat} {t' u : Task τ δ}
    (h : ((tasks.map (Task.note origin)).set i t')[j]? = some u) :
    (j = i ∧ u = t') ∨ (j ≠ i ∧ ∃ u₀, tasks[j]? = some u₀ ∧ u = u₀.note origin) := by
  rcases getElem?_set_some h with hself | ⟨hne, hother⟩
  · exact .inl hself
  · rw [List.getElem?_map, Option.map_eq_some_iff] at hother
    obtain ⟨u₀, hu₀, heq⟩ := hother
    exact .inr ⟨hne, u₀, hu₀, heq.symm⟩

variable {i : Nat}

theorem effectAt_of_get {s : State τ δ} (h : s.tasks[i]? = some t)
    (db : δ) : s.effectAt db i = t.effect db := by
  rw [State.effectAt, h, Option.map_some, Option.getD_some]

theorem replay_congr {s s' : State τ δ} {order : List Nat} (initial : δ)
    (h : ∀ i ∈ order, ∀ db, s'.effectAt db i = s.effectAt db i) :
    s'.replay initial order = s.replay initial order := by
  unfold State.replay
  induction order generalizing initial with
  | nil => rfl
  | cons i rest ih =>
    rw [List.foldl_cons, List.foldl_cons, h i List.mem_cons_self initial]
    exact ih _ (fun j hj => h j (List.mem_cons_of_mem i hj))

theorem replay_concat (s : State τ δ) (initial : δ) (order : List Nat) (i : Nat) :
    s.replay initial (order ++ [i]) = s.effectAt (s.replay initial order) i := by
  unfold State.replay
  rw [List.foldl_append]
  rfl

/-! ## What every run keeps -/

/-- The document is that of the tasks in the order of their first saves, and a task that
is not disturbed holds it; one that has saved was the last to do so. -/
structure Serves (initial : δ) (s : State τ δ) (order : List Nat) : Prop where
  nodup : order.Nodup
  mem : ∀ i, i ∈ order ↔ ∃ t, s.tasks[i]? = some t ∧ 0 < t.saved
  stored : s.stored = s.replay initial order
  queued : ∀ (i : Nat) t, s.tasks[i]? = some t → t.phase = .queued → t.saved = 0
  holds : ∀ (i : Nat) t db, s.tasks[i]? = some t → t.phase = .holding db → t.since = [] →
    db = s.stored ∧ (0 < t.saved → ∃ rest, order = rest ++ [i])

variable {initial : δ} {s : State τ δ} {order : List Nat}

theorem Serves.serial (h : Serves initial s order) : Serial initial s :=
  ⟨order, h.nodup, h.mem, h.stored⟩

theorem Serves.arrive (h : Serves initial s order) (origin : τ) (updates : List (δ → δ)) :
    Serves initial { s with tasks := s.tasks ++ [⟨origin, updates, .queued, 0, []⟩] } order := by
  have hold : ∀ {i : Nat} {t}, s.tasks[i]? = some t →
      (s.tasks ++ [⟨origin, updates, .queued, 0, []⟩])[i]? = some t := by
    intro i t ht
    rw [List.getElem?_append_left (List.getElem?_eq_some_iff.mp ht).1]
    exact ht
  refine ⟨h.nodup, ?_, ?_, ?_, ?_⟩
  · intro i
    rw [h.mem]
    constructor
    · rintro ⟨t, ht, hsaved⟩
      exact ⟨t, hold ht, hsaved⟩
    · rintro ⟨t, ht, hsaved⟩
      cases getElem?_concat_some ht with
      | inl hget => exact ⟨t, hget, hsaved⟩
      | inr heq => rw [heq.2] at hsaved; exact absurd hsaved (Nat.lt_irrefl 0)
  · rw [replay_congr (s := s) initial]
    · exact h.stored
    · intro i hi db
      obtain ⟨t, ht, -⟩ := (h.mem i).mp hi
      rw [effectAt_of_get ht, effectAt_of_get (hold ht)]
  · intro i t ht hphase
    cases getElem?_concat_some ht with
    | inl hget => exact h.queued i t hget hphase
    | inr heq => rw [heq.2]
  · intro i t db ht hphase hsince
    cases getElem?_concat_some ht with
    | inl hget => exact h.holds i t db hget hphase hsince
    | inr heq => rw [heq.2] at hphase; cases hphase

theorem Serves.setPhase (h : Serves initial s order)
    (hget : s.tasks[i]? = some t) (hupdates : t'.updates = t.updates) (hsaved : t'.saved = t.saved)
    (hqueued : t'.phase ≠ .queued)
    (hholds : ∀ db, t'.phase = .holding db → db = s.stored ∧ t.saved = 0) :
    Serves initial { s with tasks := s.tasks.set i t' } order := by
  have hat : (s.tasks.set i t')[i]? = some t' := by
    rw [List.getElem?_set_self (List.getElem?_eq_some_iff.mp hget).1]
  have hoff : ∀ {j : Nat}, j ≠ i → (s.tasks.set i t')[j]? = s.tasks[j]? :=
    fun hj => List.getElem?_set_ne (Ne.symm hj)
  refine ⟨h.nodup, ?_, ?_, ?_, ?_⟩
  · intro j
    rw [h.mem]
    by_cases hj : j = i
    · subst hj
      simp only [hat, hget, Option.some.injEq, exists_eq_left', hsaved]
    · simp only [hoff hj]
  · rw [replay_congr (s := s) initial]
    · exact h.stored
    · intro j _ db
      by_cases hj : j = i
      · subst hj
        rw [effectAt_of_get hget, effectAt_of_get hat]
        unfold Task.effect
        rw [hupdates, hsaved]
      · show (((s.tasks.set i t')[j]?).map _).getD db = _
        rw [hoff hj]
        rfl
  · intro j t₁ ht hphase
    rcases getElem?_set_some ht with ⟨rfl, rfl⟩ | ⟨hj, hold⟩
    · exact absurd hphase hqueued
    · exact h.queued j t₁ hold hphase
  · intro j t₁ db ht hphase hsince
    rcases getElem?_set_some ht with ⟨rfl, rfl⟩ | ⟨hj, hold⟩
    · refine ⟨(hholds db hphase).1, fun hpos => ?_⟩
      rw [hsaved, (hholds db hphase).2] at hpos
      exact absurd hpos (Nat.lt_irrefl 0)
    · exact h.holds j t₁ db hold hphase hsince

/-- The order without a task that holds the document undisturbed. -/
theorem Serves.before (h : Serves initial s order)
    (hget : s.tasks[i]? = some t) (hphase : t.phase = .holding db) (halone : t.since = []) :
    ∃ base : List Nat, (base ++ [i]).Nodup ∧ (∀ j, j ≠ i → (j ∈ base ↔ j ∈ order)) ∧
      db = t.effect (s.replay initial base) := by
  obtain ⟨hdb, hlast⟩ := h.holds i t db hget hphase halone
  by_cases hsaved : t.saved = 0
  · have hnot : i ∉ order := by
      intro hi
      obtain ⟨t₁, ht₁, hpos⟩ := (h.mem i).mp hi
      rw [hget, Option.some.injEq] at ht₁
      rw [← ht₁, hsaved] at hpos
      exact absurd hpos (Nat.lt_irrefl 0)
    refine ⟨order, ?_, fun _ _ => Iff.rfl, ?_⟩
    · rw [List.nodup_append]
      refine ⟨h.nodup, List.nodup_singleton i, ?_⟩
      intro x hx y hy heq
      rw [List.mem_singleton] at hy
      exact hnot (by rw [← hy, ← heq]; exact hx)
    · rw [hdb, h.stored, Task.effect, hsaved]
      rfl
  · obtain ⟨rest, rfl⟩ := hlast (Nat.pos_of_ne_zero hsaved)
    refine ⟨rest, h.nodup, ?_, ?_⟩
    · intro j hj
      rw [List.mem_append, List.mem_singleton, or_iff_left hj]
    · rw [hdb, h.stored, replay_concat, effectAt_of_get hget]

theorem Serves.save (h : Serves initial s order)
    (hget : s.tasks[i]? = some t) (hsave : t.save = some (db, t')) (halone : t.since = []) :
    ∃ order', Serves initial
      { stored := db, tasks := (s.tasks.map (Task.note t.origin)).set i t' } order' := by
  obtain ⟨held, f, hphase, hf, hdb, ht'⟩ := save_eq hsave
  obtain ⟨base, hnodup, hbase, hheld⟩ := h.before hget hphase halone
  have hat : ((s.tasks.map (Task.note t.origin)).set i t')[i]? = some t' := by
    rw [List.getElem?_set_self]
    rw [List.length_map]
    exact (List.getElem?_eq_some_iff.mp hget).1
  have hoff : ∀ {j : Nat}, j ≠ i → ((s.tasks.map (Task.note t.origin)).set i t')[j]? =
      (s.tasks[j]?).map (Task.note t.origin) := by
    intro j hj
    rw [List.getElem?_set_ne (Ne.symm hj), List.getElem?_map]
  refine ⟨base ++ [i], hnodup, ?_, ?_, ?_, ?_⟩
  · intro j
    by_cases hj : j = i
    · subst hj
      simp only [hat, List.mem_append, List.mem_singleton, or_true, true_iff]
      exact ⟨t', rfl, by rw [ht']; exact Nat.succ_pos _⟩
    · rw [List.mem_append, List.mem_singleton, or_iff_left hj, hbase j hj, h.mem]
      constructor
      · rintro ⟨t₀, ht₀, hpos⟩
        exact ⟨t₀.note t.origin, by rw [hoff hj, ht₀]; rfl, hpos⟩
      · rintro ⟨t₁, ht₁, hpos⟩
        rcases getElem?_save_some ht₁ with ⟨rfl, -⟩ | ⟨-, t₀, ht₀, rfl⟩
        · exact absurd rfl hj
        · exact ⟨t₀, ht₀, hpos⟩
  · rw [replay_concat, effectAt_of_get hat, replay_congr (s := s) initial]
    · exact (effect_save hf hdb ht' _ hheld.symm).symm
    · intro j hj db'
      have hne : j ≠ i := by
        intro heq
        rw [List.nodup_append] at hnodup
        exact hnodup.2.2 j hj i (List.mem_singleton_self i) heq
      unfold State.effectAt
      show (((s.tasks.map (Task.note t.origin)).set i t')[j]?.map _).getD db' = _
      rw [hoff hne, Option.map_map]
      rfl
  · intro j t₁ ht hqueued
    rcases getElem?_save_some ht with ⟨rfl, rfl⟩ | ⟨-, t₀, ht₀, rfl⟩
    · rw [ht'] at hqueued
      cases hqueued
    · exact h.queued j t₀ ht₀ hqueued
  · intro j t₁ db' ht hholding hsince
    rcases getElem?_save_some ht with ⟨rfl, rfl⟩ | ⟨-, t₀, -, rfl⟩
    · rw [ht'] at hholding
      exact ⟨(Phase.holding.inj hholding).symm, fun _ => ⟨base, rfl⟩⟩
    · cases hsince

theorem load_eq {stored : δ} (h : t.load stored = some t') :
    t.phase = .queued ∧ t' = { t with phase := .holding stored, since := [] } := by
  unfold Task.load at h
  split at h
  · next hphase =>
    cases h
    exact ⟨hphase, rfl⟩
  · cases h

theorem finish_eq (h : t.finish = some t') :
    t' = { t with phase := .ended } := by
  unfold Task.finish at h
  split at h
  · cases h
  · cases h; rfl

variable {s' : State τ δ}

theorem step_load (h : step s (.load i) = some s') :
    ∃ t t', s.tasks[i]? = some t ∧ t.load s.stored = some t' ∧
      s' = { s with tasks := s.tasks.set i t' } := by
  simp only [SharedDocument.step, Option.bind_eq_bind, Option.bind_eq_some_iff] at h
  obtain ⟨t, hget, t', hload, heq⟩ := h
  exact ⟨t, t', hget, hload, (Option.some.inj heq).symm⟩

theorem step_save (h : step s (.save i) = some s') :
    ∃ t db t', s.tasks[i]? = some t ∧ t.save = some (db, t') ∧
      s' = ⟨db, (s.tasks.map (Task.note t.origin)).set i t'⟩ := by
  simp only [SharedDocument.step, Option.bind_eq_bind, Option.bind_eq_some_iff] at h
  obtain ⟨t, hget, ⟨db, t'⟩, hsave, heq⟩ := h
  exact ⟨t, db, t', hget, hsave, (Option.some.inj heq).symm⟩

theorem step_finish (h : step s (.finish i) = some s') :
    ∃ t t', s.tasks[i]? = some t ∧ t.finish = some t' ∧
      s' = { s with tasks := s.tasks.set i t' } := by
  simp only [SharedDocument.step, Option.bind_eq_bind, Option.bind_eq_some_iff] at h
  obtain ⟨t, hget, t', hfinish, heq⟩ := h
  exact ⟨t, t', hget, hfinish, (Option.some.inj heq).symm⟩

theorem Serves.step (h : Serves initial s order) {a : Label τ δ}
    (hguard : Undisturbed s a) (hstep : step s a = some s') :
    ∃ order', Serves initial s' order' := by
  cases a with
  | arrive origin updates => cases hstep; exact ⟨order, h.arrive origin updates⟩
  | load i =>
    obtain ⟨t, t', hget, hload, rfl⟩ := step_load hstep
    obtain ⟨hqueued, rfl⟩ := load_eq hload
    refine ⟨order, h.setPhase hget rfl rfl nofun ?_⟩
    intro db hdb
    exact ⟨(Phase.holding.inj hdb).symm, h.queued i t hget hqueued⟩
  | save i =>
    obtain ⟨t, db, t', hget, hsave, rfl⟩ := step_save hstep
    exact h.save hget hsave (hguard t hget)
  | finish i =>
    obtain ⟨t, t', hget, hfinish, rfl⟩ := step_finish hstep
    rw [finish_eq hfinish]
    exact ⟨order, h.setPhase hget rfl rfl nofun nofun⟩

def start (initial : δ) : State τ δ := ⟨initial, []⟩

theorem serves_start (initial : δ) : Serves initial (start initial : State τ δ) [] := by
  refine ⟨List.nodup_nil, ?_, rfl, ?_, ?_⟩
  · intro i
    simp [start]
  · intro i t h
    simp [start] at h
  · intro i t db h
    simp [start] at h

def machine (initial : δ) : Machine (State τ δ) (Label τ δ) where
  init s := s = start initial
  step := step

/-- Where no task saves over another, the tasks are as if one after another. -/
theorem serial_of_undisturbed (h : Reach (machine initial) Undisturbed s) : Serial initial s := by
  have hserves : ∃ order, Serves initial s order := by
    refine h.invariant (I := fun s => ∃ order, Serves initial s order) ?_ ?_
    · rintro s rfl
      exact ⟨[], serves_start initial⟩
    · rintro s a s' ⟨order, hs⟩ hguard hstep
      exact hs.step hguard hstep
  obtain ⟨order, hs⟩ := hserves
  exact hs.serial

end SharedDocument
