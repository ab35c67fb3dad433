import Mathlib.Data.Rat.Floor
import Drac.Recordings.SegmentPipeline

/-
  The attempts at a segment that does not become an `.mp4`, over the segment pipeline.

  An attempt at a file begins with the turn of a loop that takes it up. The counter of its
  failures is in memory and dropped with the last one allowed, when the marker is written;
  that may fail. Then neither the counter nor a marker is left, and the next recovery begins
  again from nothing.

  `Life` is the pipeline with a history of the process life: how often each file was taken
  up, and which were processed. `Bounded` is what is to hold of it, and `Met` the condition
  on a step under which it does.

  Correspondence (`recording-process-manager.service.ts` ↔ Lean):
    getSegmentRemuxMaxAttempts   ↔ `getSegmentRemuxMaxAttempts`
    segmentQuarantineMarkerPath  ↔ the kind of a `Candidate`: each has its own marker
    the turn of a loop           ↔ `due`, what `takeUp` begins to work at

  A second task cannot come between the last failure of a file and its marker here; the
  condition excludes two tasks at one file anyway.
-/

namespace Drac.Recordings.SegmentPipeline.RemuxAttempts

open Runs

/-- `configured` is what `envNumber` returns, which is finite. -/
def getSegmentRemuxMaxAttempts (configured : ℚ) : Nat :=
  if 1 ≤ configured then ⌊configured⌋.toNat else 3

theorem getSegmentRemuxMaxAttempts_pos (configured : ℚ) :
    0 < getSegmentRemuxMaxAttempts configured := by
  unfold getSegmentRemuxMaxAttempts
  split
  · next hle =>
    have hfloor : 1 ≤ ⌊configured⌋ := Int.le_floor.mpr (by exact_mod_cast hle)
    omega
  · omega

def configOf (graceSeconds : Nat) (configured : ℚ) : Config :=
  ⟨graceSeconds, getSegmentRemuxMaxAttempts configured⟩

/-! ## What a task is at work on -/

/-- The file that a task has taken up, with its counter and its marker. -/
def subject : Pc → Option Candidate
  | .probingCodec path | .remuxing path _ _ _ | .removing path | .syncing path
  | .unlinking path _ => some ⟨path, .ts⟩
  | .checking path => some ⟨path, .mp4⟩
  | .probing candidate | .lookingUp candidate _ | .writing candidate _ _
  | .failing candidate => some candidate
  | .walking | .next | .finished => none

/-- The `.mp4` that a task makes of a `.ts`, or is to remove again. -/
def making : Pc → Option SegmentPath
  | .probingCodec path | .remuxing path _ _ _ | .removing path => some path
  | _ => none

/-- A loop leaves the candidate out. -/
def skips (s : System) (owner : Owner) (candidate : Candidate) : Bool :=
  s.quarantined candidate ||
    match owner with
    | .scan pid _ =>
      s.known pid candidate.path || (s.ts candidate.path).all fun file => file.media.length = 0
    | .recovery => s.active.isSome

def found : Pc → Option SegmentPath
  | .unlinking path _ => some path
  | .writing candidate _ true => some candidate.path
  | _ => none

/-- What the next turn of the loop takes up. -/
def due (s : System) (task : Task) : Option Candidate :=
  match task.pc, task.queue with
  | .next, candidate :: _ => if skips s task.owner candidate then none else some candidate
  | _, _ => none

/-- The `.mp4` of a `.ts` is registered, so that the recovery only removes the `.ts`. -/
def leftover (task : Task) (candidate : Candidate) : Bool :=
  task.owner = .recovery && candidate.kind = .ts && task.registered.contains candidate.path

/-! ## Histories -/

/-- A process life, with what it has attempted. -/
structure Life where
  sys : System
  /-- The attempts begun at each file, in this process life. -/
  attempts : Candidate → Nat
  /-- The files processed without a failure, in this process life. -/
  processed : Candidate → Bool

def begun (s : System) (i : Nat) : Event → Option Candidate
  | .taken => (s.tasks[i]?).bind fun task => (due s task).filter fun c => !leftover task c
  | _ => none

/-- The file that a task has come to the end of, from `s` to `t`. -/
def completed (s t : System) (i : Nat) : Option Candidate :=
  (s.tasks[i]?).bind fun task =>
    match task.pc with
    | .unlinking path _ => some ⟨path, .ts⟩
    | .writing candidate _ _ =>
      if (t.tasks[i]?).any (·.pc = .next) then some candidate else none
    | _ => none

def count (attempts : Candidate → Nat) : Option Candidate → Candidate → Nat
  | none => attempts
  | some c => Function.update attempts c (attempts c + 1)

def mark (processed : Candidate → Bool) : Option Candidate → Candidate → Bool
  | none => processed
  | some c => Function.update processed c true

def step (config : Config) (l : Life) (a : Label) : Option Life :=
  (SegmentPipeline.step config l.sys a).map fun t =>
    match a with
    | .task i event =>
      ⟨t, count l.attempts (begun l.sys i event), mark l.processed (completed l.sys t i)⟩
    | .crash => ⟨t, fun _ => 0, fun _ => false⟩
    | _ => { l with sys := t }

/-- A process starts, on whatever files, rows and markers there are. -/
def startLife (s : System) : Life where
  sys := { s with
    procs := [], active := none, tasks := []
    failures := fun _ => 0, known := fun _ _ => false }
  attempts := fun _ => 0
  processed := fun _ => false

/-- A process life, from its start on the files there are. -/
def life (config : Config) : Machine Life Label where
  init l := ∃ s, l = startLife s
  step := step config

/-! ## The property -/

def exists? (s : System) (c : Candidate) : Bool :=
  match c.kind with
  | .ts => (s.ts c.path).isSome
  | .mp4 => (s.mp4 c.path).isSome

/-- What is promised of the attempts. -/
structure Bounded (config : Config) (l : Life) : Prop where
  /-- What only fails is not attempted more often than is configured. -/
  attempts : ∀ c, l.processed c = false → l.attempts c ≤ config.maxAttempts
  /-- What has been attempted and only failed is still there. -/
  kept : ∀ c, 0 < l.attempts c → l.processed c = false → exists? l.sys c = true
  /-- Whatever the next step is, it attempts nothing that has a marker. -/
  quarantined : ∀ c a l', step config l a = some l' → l.sys.quarantined c = true →
    l'.attempts c ≤ l.attempts c
  /-- What was processed is registered, without a marker. -/
  processed : ∀ c, l.processed c = true →
    (l.sys.rows c.path).isSome ∧ l.sys.quarantined c = false

/-! ## The condition -/

/-- The file is there and was not processed before, no other task is at work on its path, and a
remux has no empty `.mp4` to write over that the recovery has tried as an orphan. -/
def mayTake (l : Life) (c : Candidate) : Bool :=
  exists? l.sys c && !l.processed c &&
  (l.sys.tasks.all fun task => (subject task.pc).all fun d => d.path ≠ c.path) &&
  (c.kind = .mp4 || (l.sys.mp4 c.path).all fun file =>
    !file.content.isEmpty || l.attempts ⟨c.path, .mp4⟩ = 0)

/-- A task takes a file that no other is at, and the marker of a last failure is written. -/
def met (config : Config) (l : Life) : Label → Bool
  | .task i .taken => (l.sys.tasks[i]?).all fun task => (due l.sys task).all (mayTake l)
  | .task i (.failureCounted marked) =>
    (l.sys.tasks[i]?).all fun task => (subject task.pc).all fun c =>
      -- the marker is written where the failure is the last one allowed
      marked || l.sys.failures c + 1 < config.maxAttempts
  | _ => true

def Met (config : Config) (l : Life) (a : Label) : Prop := met config l a = true

end Drac.Recordings.SegmentPipeline.RemuxAttempts
