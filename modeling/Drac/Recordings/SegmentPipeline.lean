import Mathlib.Data.List.Sort
import Drac.Lib.Runs

/-
  The segment pipeline of one camera.

  A capture writes `.ts` files, each named by the second it was opened. The scans of a
  recording and the recovery of orphans remux a `.ts` to the `.mp4` of its name, register
  that, and remove the `.ts`. Any number of them are at work at once, each a task with a
  program counter, in pieces from one await to the next.

  Correspondence (`recording-process-manager.service.ts` ↔ Lean):
    buildRecordingOutputDir, buildRecordingOutputPattern   ↔ `SegmentPath`, `outputDir`
    start, from its spawn on      ↔ `Label.spawn`
    finalizeRecordingState        ↔ `Label.finalize`, the scan it awaits, and `finishScan`
    scanAndRegister               ↔ `Label.scan`, for `scanInFlight`
    performSegmentScan            ↔ `scanCandidates`, and `takeUp` for a turn of its loop
    recoverOrphanedSegmentsInner  ↔ `Label.recover`, `eligible`, and `takeUp` likewise
    remuxAndRegisterTsSegment     ↔ `beginRemux`, and the events up to `unlinked`
    registerSegment               ↔ the events `probed`, `lookedUp` and `written`
    registerSegmentRemuxFailure   ↔ `registerSegmentRemuxFailure`
    isSegmentQuarantined          ↔ `System.quarantined`

  The clock counts seconds and may be set to any time. The names are in UTC and compare as
  their times do. A crash takes ffmpeg and the tasks with it. What `finalize` is called for
  (`close`, `error`, or a stop that no longer waits) and what `start` found in `active`
  before its awaits is left open. The buffer before an event is off, and the format of the
  recordings is `.mp4`. Durations, sizes in bytes and thumbnails are left out.
-/

namespace Drac.Recordings.SegmentPipeline

open Runs

/-! ## Files -/

/-- Where a segment is, without its extension: the directory is of the hour the recording
began in, the name of the second the file was opened in. -/
structure SegmentPath where
  hour : Nat
  second : Nat
  deriving DecidableEq, Repr

/-- The order of `localeCompare`. -/
def SegmentPath.Le (p q : SegmentPath) : Prop :=
  p.hour < q.hour ∨ (p.hour = q.hour ∧ p.second ≤ q.second)

instance decidableLe (p q : SegmentPath) : Decidable (p.Le q) :=
  inferInstanceAs (Decidable (_ ∨ _))

theorem SegmentPath.Le.antisymm {p q : SegmentPath} (h : p.Le q) (k : q.Le p) : p = q := by
  obtain ⟨hour, second⟩ := p
  obtain ⟨hour', second'⟩ := q
  unfold SegmentPath.Le at h k
  simp only at h k
  rw [SegmentPath.mk.injEq]
  omega

instance totalLe : Std.Total SegmentPath.Le where
  total p q := by
    unfold SegmentPath.Le
    omega

instance transLe : IsTrans SegmentPath SegmentPath.Le where
  trans p q r h k := by
    unfold SegmentPath.Le at h k ⊢
    omega

/-- A stretch of video: which capture it is of, and how much of it. -/
structure Media where
  capture : Nat
  length : Nat
  deriving DecidableEq, Repr

/-- A segment being recorded, or recorded. -/
structure TsFile where
  media : Media
  mtime : Nat
  deriving DecidableEq, Repr

/-- What an `.mp4` holds. A partial remux knows the ffmpeg that opened the file last, the
capture it reads, and how much it has written. A file that another ffmpeg wrote to since is
no remux of anything. -/
inductive Mp4Content where
  | partialRemux (remux capture size : Nat)
  | complete (media : Media)
  | mixed (capture : Nat)
  deriving DecidableEq, Repr

def Mp4Content.capture : Mp4Content → Nat
  | .partialRemux _ capture _ | .mixed capture => capture
  | .complete media => media.capture

def Mp4Content.isEmpty : Mp4Content → Bool
  | .partialRemux _ _ size => size = 0
  | .complete _ | .mixed _ => false

/-- An `.mp4`, with the ffmpeg that have it open. -/
structure Mp4File where
  content : Mp4Content
  mtime : Nat
  writers : List Nat
  deriving DecidableEq, Repr

/-- An ffmpeg writes on. -/
def Mp4Content.write (remux : Nat) : Mp4Content → Mp4Content
  | .partialRemux r capture size =>
    if r = remux then .partialRemux r capture (size + 1) else .mixed capture
  | content => .mixed content.capture

/-- An ffmpeg ends, and moves what is there about in place (`+faststart`). -/
def Mp4Content.finish (remux : Nat) (input : Media) : Mp4Content → Mp4Content
  | .partialRemux r capture _ => if r = remux then .complete input else .mixed capture
  | content => .mixed content.capture

def Mp4File.close (remux : Nat) (file : Mp4File) : Mp4File :=
  { file with writers := file.writers.filter (· ≠ remux) }

inductive Kind where
  | mp4
  | ts
  deriving DecidableEq, Repr

/-- A file that a scan or the recovery is to look at. -/
structure Candidate where
  path : SegmentPath
  kind : Kind
  deriving DecidableEq, Repr

/-! ## Processes and tasks -/

inductive Finalization where
  | notStarted
  | scanning
  | done
  deriving DecidableEq, Repr

/-- An ffmpeg that records: its directory, the file it has open, and its capture. -/
structure RecordingProcess where
  hour : Nat
  file : Option SegmentPath := none
  capture : Nat := 0
  running : Bool := true
  finalize : Finalization := .notStarted
  deriving DecidableEq, Repr

/-- Who scans: the watcher of a process, or the recovery. -/
inductive Owner where
  | scan (pid : Nat) (final : Bool)
  | recovery
  deriving DecidableEq, Repr

/-- What a task awaits. From the probe that accepted an `.mp4` on, it knows whose capture
that was of. -/
inductive Pc where
  | walking
  | next
  | probingCodec (path : SegmentPath)
  | remuxing (path : SegmentPath) (remux : Nat) (input : Media) (read : Bool)
  /-- The removal of the `.mp4` of a remux that failed. -/
  | removing (path : SegmentPath)
  | syncing (path : SegmentPath)
  /-- The recovery's own probe of an `.mp4`. -/
  | checking (path : SegmentPath)
  | probing (candidate : Candidate)
  | lookingUp (candidate : Candidate) (capture : Nat)
  | writing (candidate : Candidate) (capture : Nat) (existing : Bool)
  /-- The removal of the `.ts`; `registered`: this task has registered its `.mp4`. -/
  | unlinking (path : SegmentPath) (registered : Bool)
  | failing (candidate : Candidate)
  | finished
  deriving DecidableEq, Repr

/-- A scan, with what it holds. -/
structure Task where
  owner : Owner
  /-- `registeredPaths`, by the `.ts` they are twins of. -/
  registered : List SegmentPath := []
  queue : List Candidate := []
  pc : Pc := .next
  deriving DecidableEq, Repr

structure Config where
  graceSeconds : Nat
  maxAttempts : Nat

structure System where
  clock : Nat
  captures : Nat
  remuxes : Nat
  names : List SegmentPath
  ts : SegmentPath → Option TsFile
  mp4 : SegmentPath → Option Mp4File
  /-- The rows, each with the capture that was behind it when the probe accepted it. -/
  rows : SegmentPath → Option Nat
  quarantined : Candidate → Bool
  /-- `segmentRemuxFailures` -/
  failures : Candidate → Nat
  /-- `knownFiles`, of each recording. -/
  known : Nat → SegmentPath → Bool
  procs : List RecordingProcess
  active : Option Nat
  tasks : List Task

def System.setProc (s : System) (pid : Nat) (proc : RecordingProcess) : System :=
  { s with procs := s.procs.set pid proc }

def System.setTask (s : System) (i : Nat) (task : Task) : System :=
  { s with tasks := s.tasks.set i task }

def System.setTs (s : System) (path : SegmentPath) (file : Option TsFile) : System :=
  { s with ts := Function.update s.ts path file }

def System.setMp4 (s : System) (path : SegmentPath) (file : Option Mp4File) : System :=
  { s with mp4 := Function.update s.mp4 path file }

def System.setRow (s : System) (path : SegmentPath) (capture : Nat) : System :=
  { s with rows := Function.update s.rows path (some capture) }

@[simp] theorem System.setTs_self (s : System) (path : SegmentPath) (file : Option TsFile) :
    (s.setTs path file).ts path = file := Function.update_self ..

theorem System.setTs_ne (s : System) {path q : SegmentPath} (h : q ≠ path)
    (file : Option TsFile) : (s.setTs path file).ts q = s.ts q := Function.update_of_ne h ..

@[simp] theorem System.setMp4_self (s : System) (path : SegmentPath) (file : Option Mp4File) :
    (s.setMp4 path file).mp4 path = file := Function.update_self ..

theorem System.setMp4_ne (s : System) {path q : SegmentPath} (h : q ≠ path)
    (file : Option Mp4File) : (s.setMp4 path file).mp4 q = s.mp4 q := Function.update_of_ne h ..

@[simp] theorem System.setRow_self (s : System) (path : SegmentPath) (capture : Nat) :
    (s.setRow path capture).rows path = some capture := Function.update_self ..

theorem System.setRow_ne (s : System) {path q : SegmentPath} (h : q ≠ path) (capture : Nat) :
    (s.setRow path capture).rows q = s.rows q := Function.update_of_ne h ..

def System.setKnown (s : System) (owner : Owner) (path : SegmentPath) : System :=
  match owner with
  | .scan pid _ =>
    { s with known := Function.update s.known pid (Function.update (s.known pid) path true) }
  | .recovery => s

/-! ## Capture -/

def outputDir (clock : Nat) : Nat := clock / 3600

/-- A segment is opened under a name, that of the second; a file of that name is truncated. -/
def System.create (s : System) (path : SegmentPath) : System :=
  { s.setTs path (some ⟨⟨s.captures, 0⟩, s.clock⟩) with
    captures := s.captures + 1
    names := s.names.insert path }

def openSegment (s : System) (pid : Nat) (proc : RecordingProcess) : System :=
  let path : SegmentPath := ⟨proc.hour, s.clock⟩
  (s.create path).setProc pid { proc with file := some path, capture := s.captures }

/-- ffmpeg writes on; what it writes to a file no longer there under this name is lost. -/
def writeSegment (s : System) (proc : RecordingProcess) : System :=
  match proc.file with
  | none => s
  | some path =>
    match s.ts path with
    | none => s
    | some file =>
      if file.media.capture = proc.capture then
        s.setTs path (some ⟨⟨file.media.capture, file.media.length + 1⟩, s.clock⟩)
      else s

/-! ## Scans and recovery -/

/-- The `.ts` files of the camera, in the order of their names. -/
def System.listing (s : System) : List SegmentPath :=
  (s.names.filter fun path => (s.ts path).isSome).insertionSort SegmentPath.Le

/-- What a scan looks at: the last file by name is taken to be in the making. -/
def scanCandidates (s : System) (final : Bool) : List Candidate :=
  (if final then s.listing else s.listing.dropLast).map (⟨·, .ts⟩)

/-- `scanInFlight` -/
def scanInFlight (s : System) (pid : Nat) : Bool :=
  s.tasks.any fun task =>
    match task.owner with
    | .scan p _ => p = pid && task.pc ≠ .finished
    | .recovery => false

/-- A scan may begin: none is in flight; the watcher looks for the recording in `active`,
and the final one is awaited by the finalization. -/
def mayScan (s : System) (pid : Nat) (final : Bool) : Bool :=
  (s.procs[pid]?).any fun proc =>
    !scanInFlight s pid &&
      if final then proc.finalize = .scanning else s.active = some pid

/-- The recovery takes up what is old enough, and of the `.mp4` what is not registered. -/
def eligible (config : Config) (s : System) (registered : List SegmentPath)
    (candidate : Candidate) : Bool :=
  match candidate.kind with
  | .ts => (s.ts candidate.path).any fun file => config.graceSeconds ≤ s.clock - file.mtime
  | .mp4 =>
    !registered.contains candidate.path &&
      (s.mp4 candidate.path).any fun file => config.graceSeconds ≤ s.clock - file.mtime

/-- A scan is over; where it was the final one, so is the finalization. -/
def finishScan (s : System) : Owner → System
  | .scan pid true =>
    match s.procs[pid]? with
    | none => s
    | some proc =>
      { s with
        procs := s.procs.set pid { proc with finalize := .done }
        active := if s.active = some pid then none else s.active }
  | _ => s

/-- A remux is made only where there is no `.mp4`, or an empty one. -/
def beginRemux (s : System) (path : SegmentPath) : Pc :=
  match s.mp4 path with
  | none => .probingCodec path
  | some file => if file.content.isEmpty then .probingCodec path else .syncing path

/-- `-y`: the file of that name is truncated, and others may still have it open. -/
def openMp4 (s : System) (path : SegmentPath) (capture : Nat) : System :=
  let writers := ((s.mp4 path).map (·.writers)).getD []
  { s.setMp4 path (some ⟨.partialRemux s.remuxes capture 0, s.clock, s.remuxes :: writers⟩) with
    remuxes := s.remuxes + 1 }

/-- An ffmpeg changes the file it has open; what it writes to a file no longer there under
this name is lost. -/
def changeMp4 (s : System) (path : SegmentPath) (remux : Nat) (change : Mp4File → Mp4File) :
    System :=
  match s.mp4 path with
  | none => s
  | some file => if remux ∈ file.writers then s.setMp4 path (some (change file)) else s

/-- What ffmpeg finds in the file it opened, which may be gone by now. -/
def readInput (s : System) (path : SegmentPath) (input : Media) : Media :=
  match s.ts path with
  | none => input
  | some file => if file.media.capture = input.capture then file.media else input

/-- A turn of the loop of a scan or of the recovery, up to its first await. -/
def takeUp (s : System) (i : Nat) (task : Task) : System :=
  match task.queue with
  | [] => (finishScan s task.owner).setTask i { task with pc := .finished }
  | candidate :: rest =>
    let skipped : Task := { task with queue := rest }
    match task.owner with
    | .scan pid _ =>
      if s.known pid candidate.path then s.setTask i skipped
      else if s.quarantined candidate then
        (s.setKnown task.owner candidate.path).setTask i skipped
      else
        match s.ts candidate.path with
        -- `statSync` throws, which ends the scan
        | none => (finishScan s task.owner).setTask i { task with pc := .finished }
        | some file =>
          if file.media.length = 0 then s.setTask i skipped
          else s.setTask i { skipped with pc := beginRemux s candidate.path }
    | .recovery =>
      if s.active.isSome then s.setTask i skipped
      else if s.quarantined candidate then s.setTask i skipped
      else
        match candidate.kind with
        | .ts =>
          if task.registered.contains candidate.path then
            s.setTask i { skipped with pc := .unlinking candidate.path false }
          else s.setTask i { skipped with pc := beginRemux s candidate.path }
        | .mp4 => s.setTask i { skipped with pc := .checking candidate.path }

/-- A failure is counted; the last one allowed puts the file in quarantine. The marker may
fail to be written. -/
def registerSegmentRemuxFailure (config : Config) (s : System) (i : Nat) (task : Task)
    (candidate : Candidate) (marked : Bool) : System :=
  let attempts := s.failures candidate + 1
  if attempts < config.maxAttempts then
    { s with failures := Function.update s.failures candidate attempts }.setTask i
      { task with pc := .next }
  else
    let quarantined := Function.update s.quarantined candidate (marked || s.quarantined candidate)
    ({ s with
      failures := Function.update s.failures candidate 0
      quarantined := quarantined }.setKnown task.owner candidate.path).setTask i
        { task with pc := .next }

/-- What a task's await brings. -/
inductive Event where
  | walked (candidates : List Candidate)
  | taken
  | remuxOpened
  | remuxWrote
  | remuxRead
  | remuxDone
  | remuxFailed
  | removed (ok : Bool)
  | synced
  | probed (ok : Bool)
  | lookedUp (ok : Bool)
  | written (ok : Bool)
  | unlinked (ok : Bool)
  | failureCounted (marked : Bool)

def goTo (s : System) (i : Nat) (task : Task) (pc : Pc) : System :=
  s.setTask i { task with pc := pc }

def registered (s : System) (i : Nat) (task : Task) (candidate : Candidate) : System :=
  ({ s with failures := Function.update s.failures candidate 0 }.setKnown task.owner
    candidate.path).setTask i
      { task with pc := .next, registered := candidate.path :: task.registered }

def advance (config : Config) (s : System) (i : Nat) (task : Task) : Event → Option System
  | .walked candidates =>
    match task.pc with
    | .walking =>
      if s.active.isSome then some (goTo s i task .next)
      else if candidates.all (eligible config s task.registered) then
        some (s.setTask i { task with queue := candidates, pc := .next })
      else none
    | _ => none
  | .taken =>
    match task.pc with
    | .next => some (takeUp s i task)
    | _ => none
  | .remuxOpened =>
    match task.pc with
    | .probingCodec path =>
      (s.ts path).map fun file =>
        goTo (openMp4 s path file.media.capture) i task (.remuxing path s.remuxes file.media false)
    | _ => none
  | .remuxWrote =>
    match task.pc with
    | .remuxing path remux _ _ =>
      some (changeMp4 s path remux fun file =>
        { file with content := file.content.write remux, mtime := s.clock })
    | _ => none
  | .remuxRead =>
    match task.pc with
    | .remuxing path remux input false =>
      some (goTo s i task (.remuxing path remux (readInput s path input) true))
    | _ => none
  | .remuxDone =>
    match task.pc with
    | .remuxing path remux input true =>
      let ended := changeMp4 s path remux fun file =>
        { file with content := file.content.finish remux input, mtime := s.clock }.close remux
      some (goTo ended i task (.syncing path))
    | _ => none
  | .remuxFailed =>
    match task.pc with
    | .probingCodec path => some (goTo s i task (.removing path))
    | .remuxing path remux _ _ =>
      some (goTo (changeMp4 s path remux (·.close remux)) i task (.removing path))
    | _ => none
  | .removed ok =>
    match task.pc with
    | .removing path =>
      some (goTo (if ok then s.setMp4 path none else s) i task (.failing ⟨path, .ts⟩))
    | _ => none
  | .synced =>
    match task.pc with
    | .syncing path => some (goTo s i task (.probing ⟨path, .ts⟩))
    | _ => none
  | .probed ok =>
    match task.pc with
    | .checking path =>
      some (goTo s i task (if ok then .probing ⟨path, .mp4⟩ else .failing ⟨path, .mp4⟩))
    | .probing candidate =>
      if ok then
        match s.mp4 candidate.path with
        | none => none
        | some file =>
          if file.content.isEmpty then none
          else some (goTo s i task (.lookingUp candidate file.content.capture))
      else some (goTo s i task (.failing candidate))
    | _ => none
  | .lookedUp ok =>
    match task.pc with
    | .lookingUp candidate capture =>
      some (goTo s i task
        (if ok then .writing candidate capture (s.rows candidate.path).isSome
        else .failing candidate))
    | _ => none
  | .written ok =>
    match task.pc with
    | .writing candidate capture existing =>
      -- a row that was not there at the lookup makes the insert fail
      if ok && (existing || (s.rows candidate.path).isNone) then
        let s := if existing then s else s.setRow candidate.path capture
        match candidate.kind with
        | .ts => some (goTo s i task (.unlinking candidate.path true))
        | .mp4 => some (registered s i task candidate)
      else some (goTo s i task (.failing candidate))
    | _ => none
  | .unlinked ok =>
    match task.pc with
    | .unlinking path fresh =>
      let s := if ok then s.setTs path none else s
      if fresh then some (registered s i task ⟨path, .ts⟩) else some (goTo s i task .next)
    | _ => none
  | .failureCounted marked =>
    match task.pc with
    | .failing candidate => some (registerSegmentRemuxFailure config s i task candidate marked)
    | _ => none

/-! ## The machine -/

/-- One step: the clock, a process, a task, or who starts one. -/
inductive Label where
  | setClock (clock : Nat)
  | spawn
  | opens (pid : Nat)
  | writes (pid : Nat)
  | closes (pid : Nat)
  | finalize (pid : Nat)
  | scan (pid : Nat) (final : Bool)
  | recover
  | task (i : Nat) (event : Event)
  | crash

def step (config : Config) (s : System) : Label → Option System
  | .setClock clock => some { s with clock := clock }
  | .spawn =>
    some { s with
      procs := s.procs ++ [{ hour := outputDir s.clock }]
      active := some s.procs.length }
  | .opens pid =>
    (s.procs[pid]?).bind fun proc => if proc.running then some (openSegment s pid proc) else none
  | .writes pid =>
    (s.procs[pid]?).bind fun proc => if proc.running then some (writeSegment s proc) else none
  | .closes pid => (s.procs[pid]?).map fun proc => s.setProc pid { proc with running := false }
  | .finalize pid =>
    (s.procs[pid]?).bind fun proc =>
      if proc.finalize = .notStarted then
        some (s.setProc pid { proc with finalize := .scanning })
      else none
  | .scan pid final =>
    if mayScan s pid final then
      some { s with
        tasks := s.tasks ++ [{ owner := .scan pid final, queue := scanCandidates s final }] }
    else none
  | .recover =>
    some { s with
      tasks := s.tasks ++ [{
        owner := .recovery
        registered := s.names.filter fun path => (s.rows path).isSome
        pc := .walking }] }
  | .task i event => (s.tasks[i]?).bind fun task => advance config s i task event
  | .crash =>
    some { s with
      mp4 := fun path => (s.mp4 path).map fun file => { file with writers := [] }
      procs := [], active := none, tasks := []
      failures := fun _ => 0, known := fun _ _ => false }

def newSystem (clock : Nat) : System where
  clock := clock
  captures := 0
  remuxes := 0
  names := []
  ts := fun _ => none
  mp4 := fun _ => none
  rows := fun _ => none
  quarantined := fun _ => false
  failures := fun _ => 0
  known := fun _ _ => false
  procs := []
  active := none
  tasks := []

/-- No files and no tasks, at any time. -/
def pipeline (config : Config) : Machine System Label where
  init s := ∃ clock, s = newSystem clock
  step := step config

end Drac.Recordings.SegmentPipeline
