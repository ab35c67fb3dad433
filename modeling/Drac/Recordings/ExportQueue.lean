import Drac.Lib.Runs

/-
  The queue of the exports of an interval.

  An export is asked for under an id made of its camera, interval and profile, and is a job of
  that id. The queue is a map: to add under an id that is there, in whatever state, does
  nothing; a finished job stays until it expires; `remove` refuses a job that a worker holds.
  A worker that dies leaves its job active and unlocked, and a pass of recovery takes such a
  job out and adds it again, or gives it up.

  Correspondence (TypeScript ↔ Lean):
    enqueueCameraRangeExport   ↔ `Label.request` up to its add, `Label.answer` from there
    rangeExportJobOptions      ↔ `add`, for `attempts`
    planOrphanRecovery         ↔ `planOrphanRecovery`, `decideOne` for one job
    recoverOrphanRangeExports  ↔ `Pass`: `Label.recover` up to `getJobs`, `plan`, and for each
                                 decision `remove` and then `follow`
    RecordingExportProcessor   ↔ `Label.start` to `Label.die`
    buildRangeExportJobId      ↔ the type of the ids

  A request is refused here only for the clip that is there; its checks are left out. A pass
  may look at any of the active jobs. A worker may die at any time, and so may the process of
  a pass. Times are in milliseconds, and the clock does not go back.
-/

namespace Drac.Recordings.ExportQueue

open Runs

/-! ## Jobs, and the plan of a recovery -/

inductive JobState where
  | waiting
  | delayed
  | active
  | completed
  | failed
  deriving DecidableEq, Repr

/-- A job as the queue keeps it. -/
structure Job where
  state : JobState := .waiting
  locked : Bool := false
  attempts : Nat
  attemptsMade : Nat := 0
  processedOn : Option Nat := none
  /-- `progress.at` -/
  heartbeatAt : Option Nat := none
  deriving DecidableEq, Repr

def Job.pending (job : Job) : Bool :=
  match job.state with
  | .waiting | .delayed | .active => true
  | .completed | .failed => false

structure ActiveExportJobView (κ : Type) where
  id : κ
  processedOn : Option Nat
  heartbeatAt : Option Nat
  attemptsMade : Nat

/-- What a pass does with a job that seems lost. -/
inductive OrphanAction where
  | keep
  | requeue
  | abandon
  deriving DecidableEq, Repr

structure OrphanRecoveryDecision (κ : Type) where
  id : κ
  action : OrphanAction
  reason : String
  /-- `none` is infinite. -/
  staleForMs : Option Nat

/-- As the environment is read: clamped, and a default where it is not a number. -/
structure Settings where
  maxAttempts : Nat
  staleAfterMs : Nat
  attempts_mem : 1 ≤ maxAttempts ∧ maxAttempts ≤ 10
  stale_mem : 60000 ≤ staleAfterMs ∧ staleAfterMs ≤ 21600000

def defaults : Settings := ⟨3, 600000, by decide, by decide⟩

def lastBeat (heartbeatAt processedOn : Option Nat) : Option Nat := heartbeatAt.or processedOn

variable {κ : Type}

def fresh (c : Settings) (now : Nat) (beat : Option Nat) : Bool :=
  beat.any fun at_ => now - at_ ≤ c.staleAfterMs

def decideOne (c : Settings) (now : Nat) (job : ActiveExportJobView κ) :
    OrphanRecoveryDecision κ :=
  let heartbeat := lastBeat job.heartbeatAt job.processedOn
  let staleForMs := heartbeat.map (now - ·)
  if fresh c now heartbeat then ⟨job.id, .keep, "batimento_recente", staleForMs⟩
  else if max 1 c.maxAttempts ≤ job.attemptsMade + 1 then
    ⟨job.id, .abandon,
      "tentativas_esgotadas:" ++ toString job.attemptsMade ++ "/" ++ toString (max 1 c.maxAttempts),
      staleForMs⟩
  else
    ⟨job.id, .requeue, if heartbeat.isNone then "sem_batimento" else "batimento_expirado",
      staleForMs⟩

def planOrphanRecovery (c : Settings) (now : Nat) (jobs : List (ActiveExportJobView κ)) :
    List (OrphanRecoveryDecision κ) :=
  jobs.map (decideOne c now)

/-! ## The system -/

/-- A pass of recovery. Of a job it is still to decide on it has what was listed. -/
inductive Pass (κ : Type) where
  | listed (jobs : List (ActiveExportJobView κ))
  | deciding (rest : List (ActiveExportJobView κ × OrphanRecoveryDecision κ))
  /-- The job is out of the queue, and the pass is to add it again or to report it. -/
  | removed (decision : OrphanRecoveryDecision κ)
      (rest : List (ActiveExportJobView κ × OrphanRecoveryDecision κ))

/-- The queue, the clips, and what was asked and answered. -/
structure Exports (κ : Type) where
  now : Nat := 0
  jobs : κ → Option Job := fun _ => none
  clip : κ → Bool := fun _ => false
  /-- The requests that found no clip and are to add their job. -/
  requests : List κ := []
  passes : List (Pass κ) := []
  /-- The answers `queued`, and whether a job was pending then. -/
  answers : List (κ × Bool) := []
  /-- An export was accepted, and has neither completed, nor failed, nor been reported as given
  up. -/
  owed : κ → Bool := fun _ => false
  starts : κ → Nat := fun _ => 0
  /-- A pass has removed a job within the limit of its last sign of life. -/
  hasty : Bool := false

/-- One step of a request, a worker or a pass. -/
inductive Label (κ : Type) where
  | tick (ms : Nat)
  | request (id : κ)
  | answer (i : Nat)
  | promote (id : κ)
  | start (id : κ)
  | heartbeat (id : κ)
  | writeClip (id : κ)
  | complete (id : κ)
  | fail (id : κ)
  | die (id : κ)
  | expire (id : κ)
  | deleteClip (id : κ)
  | recover (ids : List κ)
  | plan (p : Nat)
  | remove (p : Nat)
  | follow (p : Nat)
  | crash (p : Nat)

variable [DecidableEq κ]

def setJob (s : Exports κ) (id : κ) (job : Option Job) : Exports κ :=
  { s with jobs := Function.update s.jobs id job }

def setPass (s : Exports κ) (p : Nat) (pass : Pass κ) : Exports κ :=
  { s with passes := s.passes.set p pass }

def add (c : Settings) (s : Exports κ) (id : κ) : Exports κ :=
  match s.jobs id with
  | some _ => s
  | none => setJob s id (some { attempts := c.maxAttempts })

def pendingAt (s : Exports κ) (id : κ) : Bool := (s.jobs id).any (·.pending)

def held (s : Exports κ) (id : κ) : Option Job :=
  (s.jobs id).filter fun job => job.state = .active && job.locked

def view (s : Exports κ) (id : κ) : Option (ActiveExportJobView κ) :=
  ((s.jobs id).filter fun job => job.state = .active).map fun job =>
    ⟨id, job.processedOn, job.heartbeatAt, job.attemptsMade⟩

def removeNext (c : Settings) (s : Exports κ) (p : Nat) (decision : OrphanRecoveryDecision κ)
    (rest : List (ActiveExportJobView κ × OrphanRecoveryDecision κ)) : Exports κ :=
  if decision.action = .keep then setPass s p (.deciding rest)
  else
    match s.jobs decision.id with
    | none => setPass s p (.removed decision rest)
    | some job =>
      if job.locked then setPass s p (.deciding rest)
      else setPass { setJob s decision.id none with
        hasty := s.hasty || fresh c s.now (lastBeat job.heartbeatAt job.processedOn) } p
          (.removed decision rest)

/-- And adds what it has removed, or reports it. -/
def followUp (c : Settings) (s : Exports κ) (decision : OrphanRecoveryDecision κ) : Exports κ :=
  if decision.action = .requeue then add c s decision.id
  else { s with
    owed := Function.update s.owed decision.id
      (s.owed decision.id && (s.jobs decision.id).isSome) }

def step (c : Settings) (s : Exports κ) : Label κ → Option (Exports κ)
  | .tick ms => some { s with now := s.now + ms }
  | .request id => some (if s.clip id then s else { s with requests := s.requests ++ [id] })
  | .answer i =>
    (s.requests[i]?).map fun id =>
      let added := add c s id
      { added with
        requests := s.requests.eraseIdx i
        answers := s.answers ++ [(id, pendingAt added id)]
        owed := Function.update s.owed id true }
  | .promote id =>
    ((s.jobs id).filter (·.state = .delayed)).map fun job =>
      setJob s id (some { job with state := .waiting })
  | .start id =>
    ((s.jobs id).filter (·.state = .waiting)).map fun job =>
      { setJob s id (some { job with
          state := .active, locked := true, processedOn := some s.now }) with
        starts := Function.update s.starts id (s.starts id + 1) }
  | .heartbeat id =>
    (held s id).map fun job => setJob s id (some { job with heartbeatAt := some s.now })
  | .writeClip id => (held s id).map fun _ => { s with clip := Function.update s.clip id true }
  | .complete id =>
    (held s id).map fun job =>
      { setJob s id (some { job with
          state := .completed, locked := false, attemptsMade := job.attemptsMade + 1 }) with
        owed := Function.update s.owed id false }
  | .fail id =>
    (held s id).map fun job =>
      let made := job.attemptsMade + 1
      if made < job.attempts then
        setJob s id (some { job with state := .delayed, locked := false, attemptsMade := made })
      else
        { setJob s id (some { job with
            state := .failed, locked := false, attemptsMade := made }) with
          owed := Function.update s.owed id false }
  | .die id => (held s id).map fun job => setJob s id (some { job with locked := false })
  | .expire id => ((s.jobs id).filter fun job => !job.pending).map fun _ => setJob s id none
  | .deleteClip id => some { s with clip := Function.update s.clip id false }
  | .recover ids => some { s with passes := s.passes ++ [.listed (ids.filterMap (view s))] }
  | .plan p =>
    (s.passes[p]?).bind fun pass =>
      match pass with
      | .listed jobs =>
        some (setPass s p (.deciding (jobs.zip (planOrphanRecovery c s.now jobs))))
      | _ => none
  | .remove p =>
    (s.passes[p]?).bind fun pass =>
      match pass with
      | .deciding ((_, decision) :: rest) => some (removeNext c s p decision rest)
      | _ => none
  | .follow p =>
    (s.passes[p]?).bind fun pass =>
      match pass with
      | .removed decision rest => some (setPass (followUp c s decision) p (.deciding rest))
      | _ => none
  | .crash p => (s.passes[p]?).map fun _ => setPass s p (.deciding [])

/-- The queue with no jobs and no clips. -/
def exports (c : Settings) : Machine (Exports κ) (Label κ) where
  init s := s = {}
  step := step c

end Drac.Recordings.ExportQueue
