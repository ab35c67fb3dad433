import Mathlib.Data.List.Permutation
import Drac.Lib.JsMap
import Drac.Lib.SharedDocument

/-
  Requests on the document of the Central.

  Correspondence (`server.js` ↔ Lean):
    runSerialized        ↔ `admits`: a task of the queue loads when those before it have ended
    startServer          ↔ `Label.request`, with `touchesDb`
    handleRemoteInstall (onLearnHostKey)   ↔ `Label.background`
    loadDb, saveDb       ↔ `SharedDocument.Label.load`, `save`
    handleHeartbeat, handleRemoteInstall, onLearnHostKey   ↔ the same names in the runs below

  A handler loads the document once, with the session it checks, and saves it at most
  twice; whatever it awaits in between, and what it makes of the document, is in the
  `updates` of its request. A route that saves nothing has none. `normalizeDb` is part
  of the update.

  The queue takes a request by its raw url. Two things get past it: what a handler leaves
  running after it has answered, and a url that only the parser turns into one of the api
  (`//host/api/…`). `Apart` is the condition that these do not come between the load and
  the save of another task, nor another task between theirs; then the document is that of
  the tasks one after another (`requests_serial`). `host_key_lost` is a run in which a
  heartbeat writes over the host key.
-/

namespace Drac.Central.Requests

open Runs SharedDocument

/-! ## The queue -/

inductive Origin where
  | serialized
  | aside
  deriving DecidableEq, Repr

def touchesDb (url : String) : Bool :=
  ("/api/".toList.isPrefixOf url.toList && url ≠ "/api/health") ||
    "/install/".toList.isPrefixOf url.toList

inductive Label (δ : Type) where
  | request (url : String) (updates : List (δ → δ))
  | background (update : δ → δ)
  | load (i : Nat)
  | save (i : Nat)
  | finish (i : Nat)

variable {δ : Type}

abbrev Server (δ : Type) := SharedDocument.State Origin δ

def Label.task : Label δ → SharedDocument.Label Origin δ
  | .request url updates => .arrive (if touchesDb url then .serialized else .aside) updates
  | .background update => .arrive .aside [update]
  | .load i => .load i
  | .save i => .save i
  | .finish i => .finish i

def hasEnded (t : SharedDocument.Task Origin δ) : Bool :=
  match t.phase with
  | .ended => true
  | _ => false

/-- `_dbGate.then(task, task)`. -/
def admits (s : Server δ) : Label δ → Bool
  | .load i => (s.tasks[i]?).all (fun t => t.origin = .aside ||
      (s.tasks.take i).all (fun u => u.origin = .aside || hasEnded u))
  | _ => true

def step (s : Server δ) (a : Label δ) : Option (Server δ) :=
  if admits s a then SharedDocument.step s a.task else none

/-- The server with one document and no tasks. -/
def central (initial : δ) : Machine (Server δ) (Label δ) where
  init s := s = start initial
  step := step

/-- No task past the queue has saved between the load and the save of another, and none
between its own. -/
def apart (s : Server δ) : Label δ → Bool
  | .save i => (s.tasks[i]?).all (fun t =>
      match t.origin with
      | .aside => t.since.isEmpty
      | .serialized => .aside ∉ t.since)
  | _ => true

def Apart (s : Server δ) (a : Label δ) : Prop := apart s a = true

/-! ## One task of the queue at a time -/

/-- The task went through the queue. -/
def Serialized (s : Server δ) (i : Nat) (t : SharedDocument.Task Origin δ) : Prop :=
  s.tasks[i]? = some t ∧ t.origin = .serialized

/-- The task has loaded the document, and not saved it. -/
def Holding (t : SharedDocument.Task Origin δ) : Prop := ∃ db, t.phase = .holding db

/-- While a task of the queue holds the document those before it have ended, and no other
task of the queue has saved since. -/
structure OneAtATime (s : Server δ) : Prop where
  before : ∀ i j t u, Serialized s j t → Holding t → i < j → Serialized s i u → u.phase = .ended
  since : ∀ j t, Serialized s j t → Holding t → .serialized ∉ t.since

variable {s : Server δ}

theorem OneAtATime.unique (h : OneAtATime s) {i j : Nat}
    {t u : SharedDocument.Task Origin δ} (ht : Serialized s i t) (hu : Serialized s j u)
    (htHolding : Holding t) (huHolding : Holding u) : i = j := by
  obtain ⟨db, hdb⟩ := htHolding
  obtain ⟨db', hdb'⟩ := huHolding
  rcases Nat.lt_trichotomy i j with hlt | heq | hgt
  · have hended := h.before i j u t hu ⟨db', hdb'⟩ hlt ht
    rw [hdb] at hended
    cases hended
  · exact heq
  · have hended := h.before j i t u ht ⟨db, hdb⟩ hgt hu
    rw [hdb'] at hended
    cases hended

variable {s' : Server δ} {a : Label δ}

theorem step_eq (h : step s a = some s') :
    admits s a = true ∧ SharedDocument.step s a.task = some s' := by
  unfold step at h
  split at h
  · next hadmits => exact ⟨hadmits, h⟩
  · cases h

theorem OneAtATime.arrive (h : OneAtATime s) (origin : Origin)
    (updates : List (δ → δ)) :
    OneAtATime { s with tasks := s.tasks ++ [⟨origin, updates, .queued, 0, []⟩] } := by
  have hold : ∀ {j : Nat} {t}, Serialized { s with tasks := s.tasks ++ [⟨origin, updates, .queued, 0, []⟩] } j t →
      Holding t → Serialized s j t := by
    rintro j t ⟨ht, horigin⟩ ⟨db, hdb⟩
    cases getElem?_concat_some ht with
    | inl hget => exact ⟨hget, horigin⟩
    | inr heq => rw [heq.2] at hdb; cases hdb
  constructor
  · intro i j t u ht hholding hlt hu
    have ht' := hold ht hholding
    cases getElem?_concat_some hu.1 with
    | inl hget => exact h.before i j t u ht' hholding hlt ⟨hget, hu.2⟩
    | inr heq =>
      have hbound := (List.getElem?_eq_some_iff.mp ht'.1).1
      omega
  · exact fun j t ht hholding => h.since j t (hold ht hholding) hholding

variable {i : Nat} {t t' : SharedDocument.Task Origin δ}

theorem OneAtATime.load (h : OneAtATime s)
    (hget : s.tasks[i]? = some t)
    (hload : t.load s.stored = some t')
    (hadmits : t.origin = .aside ∨ ∀ j u, j < i → Serialized s j u → u.phase = .ended) :
    OneAtATime { s with tasks := s.tasks.set i t' } := by
  obtain ⟨hqueued, ht'⟩ := load_eq hload
  have horigin : t'.origin = t.origin := by rw [ht']
  constructor
  · intro j k u v hu hholding hlt hv
    rcases getElem?_set_some hu.1 with ⟨rfl, rfl⟩ | ⟨hk, hu'⟩
    · rcases getElem?_set_some hv.1 with ⟨rfl, -⟩ | ⟨-, hv'⟩
      · exact absurd hlt (Nat.lt_irrefl _)
      · cases hadmits with
        | inl haside =>
          have := hu.2
          rw [horigin, haside] at this
          cases this
        | inr hbefore => exact hbefore j v hlt ⟨hv', hv.2⟩
    · rcases getElem?_set_some hv.1 with ⟨rfl, rfl⟩ | ⟨-, hv'⟩
      · have hended := h.before j k u t ⟨hu', hu.2⟩ hholding hlt ⟨hget, by rw [← horigin]; exact hv.2⟩
        rw [hqueued] at hended
        cases hended
      · exact h.before j k u v ⟨hu', hu.2⟩ hholding hlt ⟨hv', hv.2⟩
  · intro j u hu hholding
    rcases getElem?_set_some hu.1 with ⟨rfl, rfl⟩ | ⟨-, hu'⟩
    · rw [ht']
      exact List.not_mem_nil
    · exact h.since j u ⟨hu', hu.2⟩ hholding

theorem OneAtATime.save (h : OneAtATime s)
    {db : δ} (hget : s.tasks[i]? = some t)
    (hsave : t.save = some (db, t')) :
    OneAtATime { stored := db, tasks := (s.tasks.map (Task.note t.origin)).set i t' } := by
  obtain ⟨held, -, hphase, -, -, ht'⟩ := save_eq hsave
  have hholds : Holding t := ⟨held, hphase⟩
  have horigin : t'.origin = t.origin := by rw [ht']
  constructor
  · intro j k u v hu hholding hlt hv
    have hu' : ∃ u₀, Serialized s k u₀ ∧ Holding u₀ := by
      rcases getElem?_save_some hu.1 with ⟨rfl, rfl⟩ | ⟨-, u₀, hu₀, rfl⟩
      · exact ⟨t, ⟨hget, by rw [← horigin]; exact hu.2⟩, hholds⟩
      · exact ⟨u₀, ⟨hu₀, hu.2⟩, hholding⟩
    obtain ⟨u₀, hu₀, hholding₀⟩ := hu'
    rcases getElem?_save_some hv.1 with ⟨rfl, rfl⟩ | ⟨-, v₀, hv₀, rfl⟩
    · have hended := h.before j k u₀ t hu₀ hholding₀ hlt ⟨hget, by rw [← horigin]; exact hv.2⟩
      rw [hphase] at hended
      cases hended
    · exact h.before j k u₀ v₀ hu₀ hholding₀ hlt ⟨hv₀, hv.2⟩
  · intro j u hu hholding
    rcases getElem?_save_some hu.1 with ⟨rfl, rfl⟩ | ⟨hne, u₀, hu₀, rfl⟩
    · have hsince := h.since j t ⟨hget, by rw [← horigin]; exact hu.2⟩ hholds
      rw [ht']
      exact hsince
    · intro hmem
      rcases List.mem_cons.mp hmem with heq | hold
      · exact hne (h.unique ⟨hu₀, hu.2⟩ ⟨hget, heq.symm⟩ hholding hholds)
      · exact h.since j u₀ ⟨hu₀, hu.2⟩ hholding hold

theorem OneAtATime.finish (h : OneAtATime s)
    (hfinish : t.finish = some t') :
    OneAtATime { s with tasks := s.tasks.set i t' } := by
  have hended : t'.phase = .ended := by rw [finish_eq hfinish]
  have hold : ∀ {j : Nat} {u}, Serialized { s with tasks := s.tasks.set i t' } j u →
      Holding u → Serialized s j u := by
    rintro j u ⟨hu, horigin⟩ ⟨db, hdb⟩
    rcases getElem?_set_some hu with ⟨-, rfl⟩ | ⟨-, hu'⟩
    · rw [hended] at hdb
      cases hdb
    · exact ⟨hu', horigin⟩
  constructor
  · intro j k u v hu hholding hlt hv
    rcases getElem?_set_some hv.1 with ⟨-, rfl⟩ | ⟨-, hv'⟩
    · exact hended
    · exact h.before j k u v (hold hu hholding) hholding hlt ⟨hv', hv.2⟩
  · exact fun j u hu hholding => h.since j u (hold hu hholding) hholding

theorem step_oneAtATime (h : OneAtATime s)
    (hstep : step s a = some s') : OneAtATime s' := by
  obtain ⟨hadmits, hstep⟩ := step_eq hstep
  cases a with
  | request url updates => cases hstep; exact h.arrive _ updates
  | background update => cases hstep; exact h.arrive _ [update]
  | load i =>
    obtain ⟨t, t', hget, hload, rfl⟩ := step_load hstep
    refine h.load hget hload ?_
    simp only [admits, hget, Option.all_some, Bool.or_eq_true, decide_eq_true_eq] at hadmits
    refine hadmits.imp id ?_
    intro hall j u hlt hu
    have hmem : u ∈ s.tasks.take i :=
      List.mem_of_getElem? ((List.getElem?_take_of_lt hlt).trans hu.1)
    have hone := List.all_eq_true.mp hall u hmem
    simp only [hu.2, reduceCtorEq, decide_false, Bool.false_or, hasEnded] at hone
    split at hone
    · next hphase => exact hphase
    · cases hone
  | save i =>
    obtain ⟨t, db, t', hget, hsave, rfl⟩ := step_save hstep
    exact h.save hget hsave
  | finish i =>
    obtain ⟨t, t', hget, hfinish, rfl⟩ := step_finish hstep
    exact h.finish hfinish

theorem start_oneAtATime (initial : δ) : OneAtATime (start initial : Server δ) := by
  constructor
  · intro i j t u ht
    simp [Serialized, start] at ht
  · intro j t ht
    simp [Serialized, start] at ht

/-! ## The theorem -/

theorem undisturbed_of_apart (h : OneAtATime s)
    (hapart : Apart s a) (hstep : step s a = some s') : Undisturbed s a.task := by
  cases a with
  | request | background | load | finish => trivial
  | save i =>
    intro t hget
    have hrule : (match t.origin with
        | .aside => t.since.isEmpty
        | .serialized => decide (Origin.aside ∉ t.since)) = true := by
      simpa only [Apart, apart, hget, Option.all_some] using hapart
    cases horigin : t.origin with
    | aside =>
      rw [horigin] at hrule
      exact List.isEmpty_iff.mp hrule
    | serialized =>
      rw [horigin] at hrule
      have haside : Origin.aside ∉ t.since := of_decide_eq_true hrule
      have hsaves := (step_eq hstep).2
      simp only [Label.task, SharedDocument.step, Option.bind_eq_bind, Option.bind_eq_some_iff,
        hget, Option.some.injEq, exists_eq_left'] at hsaves
      obtain ⟨⟨db, t'⟩, hsave, -⟩ := hsaves
      obtain ⟨held, -, hphase, -⟩ := save_eq hsave
      have hserialized := h.since i t ⟨hget, horigin⟩ ⟨held, hphase⟩
      apply List.eq_nil_iff_forall_not_mem.mpr
      intro origin hmem
      cases origin with
      | aside => exact haside hmem
      | serialized => exact hserialized hmem

theorem undisturbed_reach {initial : δ} (h : Reach (central initial) Apart s) :
    Reach (machine initial) Undisturbed s := by
  have hundisturbed : Reach (central initial) (fun s a => Undisturbed s a.task) s := by
    refine h.strengthen (I := OneAtATime) ?_ ?_ ?_
    · rintro s rfl
      exact start_oneAtATime initial
    · exact fun s a t hs _ hstep => step_oneAtATime hs hstep
    · exact fun s a t hs hapart hstep => undisturbed_of_apart hs hapart hstep
  exact hundisturbed.relabel (N := machine initial) (H := Undisturbed) (f := Label.task)
    (fun _ hs => hs) (fun _ _ hg => hg) (fun _ _ _ hstep => (step_eq hstep).2)

/-- In every run in which what got past the queue comes between no load and save, the
document is that of the tasks one after another. -/
theorem requests_serial (initial : δ) {s : Server δ} (h : Reach (central initial) Apart s) :
    Serial initial s := serial_of_undisturbed (undisturbed_reach h)

/-! ## Runs -/

structure Installation where
  lastHeartbeatAt : Option Int
  remoteInstall : Option String
  sshHostKeys : List (String × String)
  deriving DecidableEq

/-- `db.installations`. -/
abbrev Doc := List (String × Installation)

def edit (id : String) (f : Installation → Installation) (db : Doc) : Doc :=
  ((JsMap.get? db id).map (fun item => JsMap.set db id (f item))).getD db

def handleHeartbeat (id : String) (now : Int) : Doc → Doc :=
  edit id (fun item => { item with lastHeartbeatAt := some now })

def handleRemoteInstall (id jobId : String) : Doc → Doc :=
  edit id (fun item => { item with remoteInstall := some jobId })

def onLearnHostKey (id hostKeyId fingerprint : String) : Doc → Doc :=
  edit id (fun item => { item with sshHostKeys := JsMap.set item.sshHostKeys hostKeyId fingerprint })

def provisioned : Doc := [("loja", ⟨none, none, []⟩)]

/-- A remote install, which leaves the host key to be learnt, and a heartbeat. -/
def installAndHeartbeat : List (Label Doc) :=
  [.request "/api/admin/installations/loja/remote-install" [handleRemoteInstall "loja" "job"],
    .load 0, .save 0, .finish 0,
    .background (onLearnHostKey "loja" "10.0.0.9:22" "SHA256:f"),
    .request "/api/agent/heartbeat" [handleHeartbeat "loja" 60000]]

theorem requests_serial_apart : ∃ s, Reach (central provisioned) Apart s ∧
    s.stored = [("loja", ⟨some 60000, some "job", [("10.0.0.9:22", "SHA256:f")]⟩)] ∧
    Serial provisioned s := by
  have hrun : ((central provisioned).run apart (start provisioned)
      (installAndHeartbeat ++ ([.load 1, .save 1, .load 2, .save 2] : List (Label Doc)))).map (·.stored) =
      some [("loja", ⟨some 60000, some "job", [("10.0.0.9:22", "SHA256:f")]⟩)] := by
    rfl
  obtain ⟨s, hreach, hstored⟩ := reach_of_run (G := Apart) hrun rfl (fun _ _ h => h)
  exact ⟨s, hreach, hstored, requests_serial provisioned hreach⟩

/-- The heartbeat loads before the host key is saved, and saves after it. -/
theorem host_key_lost : ∃ s, Reach (central provisioned) Always s ∧ ¬ Serial provisioned s := by
  have hrun : ((central provisioned).run anyStep (start provisioned)
      (installAndHeartbeat ++ ([.load 2, .load 1, .save 1, .save 2] : List (Label Doc)))).map
      (fun s => (s.tasks.map (·.saved),
        [0, 1, 2].permutations'.all (fun order => s.stored ≠ s.replay provisioned order))) =
      some ([1, 1, 1], true) := by
    rfl
  obtain ⟨s, hreach, heq⟩ := reach_of_anyStep hrun rfl
  rw [Prod.mk.injEq] at heq
  obtain ⟨hsaved, hnone⟩ := heq
  refine ⟨s, hreach, ?_⟩
  rintro ⟨order, hnodup, hmem, hstored⟩
  have hperm : order.Perm [0, 1, 2] := by
    rw [List.perm_ext_iff_of_nodup hnodup (by decide)]
    intro i
    rw [hmem]
    have hget : (s.tasks[i]?).map (·.saved) = [1, 1, 1][i]? := by
      rw [← hsaved, List.getElem?_map]
    constructor
    · rintro ⟨t, ht, -⟩
      rw [ht, Option.map_some] at hget
      have hlt : i < 3 := (List.getElem?_eq_some_iff.mp hget.symm).1
      simp only [List.mem_cons, List.not_mem_nil, or_false]
      omega
    · intro hi
      have hone : [1, 1, 1][i]? = some 1 := by
        simp only [List.mem_cons, List.not_mem_nil, or_false] at hi
        rcases hi with rfl | rfl | rfl <;> rfl
      rw [hone] at hget
      obtain ⟨t, ht, hsave⟩ := Option.map_eq_some_iff.mp hget
      exact ⟨t, ht, by rw [hsave]; exact Nat.one_pos⟩
  have hne := List.all_eq_true.mp hnone order (List.mem_permutations'.mpr hperm)
  exact (of_decide_eq_true hne) hstored

end Drac.Central.Requests
