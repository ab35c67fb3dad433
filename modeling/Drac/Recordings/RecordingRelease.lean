import Mathlib.Data.List.Basic
import Drac.Lib.Runs

/-
  A recording whose process has ended.

  Correspondence (`recording-process-manager.service.ts` ↔ Lean):
    performSegmentScan      ↔ the same name up to its first `await`, and `afterRemux`
    scanAndRegister         ↔ the same name, and `resume` after its `await`s
    finalizeRecordingState  ↔ the same name, and the label `finalized`
    start's watcher, `close` and `error` handlers ↔ the labels `tick`, `close` and `error`
    stop                    ↔ the labels `stop`, `stopWakes` and `stopReturns`

  One recording is followed, from the start of its process. A scan is a promise; its pieces, and
  those of the calls that wait for it, come in any order, with what the directory holds then.
  The files are those below the camera's directory that end in `.ts`, in the order of their
  names. Metrics and logs are left out, and what is done about a restart once
  `scheduleRecordingRestart` is called.
-/

namespace Drac.Recordings.Release

open Runs

/-! ## Scans -/

structure Disk where
  /-- `none` where a directory cannot be read. -/
  files : Option (List String)
  quarantined : List String := []
  /-- `none` where the file is gone. -/
  size : String → Option ℕ

/-- A scan that several may wait for. -/
inductive Scan where
  | remuxing (fullPath : String) (rest : List String)
  | fulfilled
  | rejected
  deriving DecidableEq

/-- The loop over the candidates, up to the first one that is remuxed. -/
def scanFiles (disk : Disk) (knownFiles : List String) : List String → Scan × List String
  | [] => (.fulfilled, knownFiles)
  | fullPath :: rest =>
    if fullPath ∈ knownFiles then scanFiles disk knownFiles rest
    else if fullPath ∈ disk.quarantined then scanFiles disk (fullPath :: knownFiles) rest
    else match disk.size fullPath with
      | none => (.rejected, knownFiles)
      | some 0 => scanFiles disk knownFiles rest
      | some _ => (.remuxing fullPath rest, knownFiles)

/-- The newest file may still be written, so only the last scan takes it. -/
def performSegmentScan (disk : Disk) (knownFiles : List String) (finalize : Bool) :
    Scan × List String :=
  match disk.files with
  | none => (.rejected, knownFiles)
  | some files => scanFiles disk knownFiles (if finalize then files else files.dropLast)

/-- How `remuxAndRegisterTsSegment` and, where it fails, `registerSegmentRemuxFailure` end. -/
inductive Remux where
  | registered
  | failed (quarantined : Bool)
  | threw
  deriving DecidableEq

def afterRemux (disk : Disk) (knownFiles : List String) (fullPath : String) (rest : List String) :
    Remux → Scan × List String
  | .registered | .failed true => scanFiles disk (fullPath :: knownFiles) rest
  | .failed false => scanFiles disk knownFiles rest
  | .threw => (.rejected, knownFiles)

/-! ## The recording -/

inductive Caller where
  | watcher
  | finalization
  deriving DecidableEq

/-- Where a call of `scanAndRegister` is. -/
inductive CallPhase where
  | waiting (scan : ℕ)
  | running (scan : ℕ)
  | settled (fulfilled : Bool)
  deriving DecidableEq

/-- Who waits for a scan, and how far it is. -/
structure ScanCall where
  caller : Caller
  phase : CallPhase
  deriving DecidableEq

/-- `finalizePromise`, and what it has come to. -/
inductive Finalization where
  | notStarted
  /-- It waits for its call of `scanAndRegister`. -/
  | scanning (abnormal : Bool) (call : ℕ)
  | fulfilled (abnormal : Bool)
  | rejected (abnormal : Bool)
  deriving DecidableEq

/-- Whether the death was judged abnormal, once a finalization has begun. -/
def Finalization.abnormal : Finalization → Option Bool
  | .notStarted => none
  | .scanning abnormal _ | .fulfilled abnormal | .rejected abnormal => some abnormal

inductive StopPhase where
  /-- At `stopProcessAndWait`. -/
  | waiting
  | finalizing
  | returned
  | failed
  deriving DecidableEq

/-- A recording process, its scans and its stops. -/
structure Recording where
  exited : Bool := false
  closed : Bool := false
  stopRequested : Bool := false
  /-- `this.active.get(cameraId) === state`. -/
  active : Bool := true
  watching : Bool := true
  knownFiles : List String := []
  scans : List Scan := []
  scanInFlight : Option ℕ := none
  calls : List ScanCall := []
  finalizePromise : Finalization := .notStarted
  stops : List StopPhase := []
  /-- How often `scheduleRecordingRestart` has been called. -/
  schedules : ℕ := 0
  /-- How many promises have been rejected while nobody handled them. -/
  unhandled : ℕ := 0

def startScan (disk : Disk) (s : Recording) (finalize : Bool) : Recording :=
  let operation := performSegmentScan disk s.knownFiles finalize
  { s with
    knownFiles := operation.2
    scans := s.scans ++ [operation.1]
    scanInFlight := some s.scans.length }

def scanAndRegister (disk : Disk) (s : Recording) (caller : Caller) : Recording :=
  match s.scanInFlight with
  | some scan => { s with calls := s.calls ++ [⟨caller, .waiting scan⟩] }
  | none => { startScan disk s (caller = .finalization) with
      calls := s.calls ++ [⟨caller, .running s.scans.length⟩] }

def finalizeRecordingState (disk : Disk) (s : Recording) : Recording :=
  if s.finalizePromise ≠ .notStarted then s
  else { scanAndRegister disk { s with watching := false } .finalization with
    finalizePromise := .scanning (!s.stopRequested) s.calls.length }

/-- A call of `scanAndRegister` settles. Nobody handles the promise of the watcher's. -/
def settle (s : Recording) (i : ℕ) (caller : Caller) (fulfilled : Bool) : Recording :=
  { s with
    calls := s.calls.set i ⟨caller, .settled fulfilled⟩
    unhandled := if caller = .watcher && !fulfilled then s.unhandled + 1 else s.unhandled }

inductive Label where
  | exit
  | close (disk : Disk)
  | error (disk : Disk)
  | tick (disk : Disk)
  | remuxed (scan : ℕ) (how : Remux) (disk : Disk)
  | resume (call : ℕ) (disk : Disk)
  | finalized
  | stop
  /-- The process has closed, failed or not ended in time. -/
  | stopWakes (i : ℕ) (disk : Disk)
  | stopReturns (i : ℕ)

def step (s : Recording) : Label → Option Recording
  | .exit => if s.exited then none else some { s with exited := true }
  | .close disk =>
    if !s.exited || s.closed then none
    else some { finalizeRecordingState disk s with closed := true }
  | .error disk => some (finalizeRecordingState disk s)
  | .tick disk => if s.watching && s.active then some (scanAndRegister disk s .watcher) else none
  | .remuxed scan how disk =>
    match s.scans[scan]? with
    | some (.remuxing fullPath rest) =>
      let next := afterRemux disk s.knownFiles fullPath rest how
      some { s with scans := s.scans.set scan next.1, knownFiles := next.2 }
    | _ => none
  | .resume i disk =>
    match s.calls[i]? with
    | some ⟨caller, .waiting scan⟩ =>
      match s.scans[scan]? with
      | some .fulfilled =>
        if caller = .watcher then some (settle s i caller true)
        else some { startScan disk s true with
          calls := s.calls.set i ⟨caller, .running s.scans.length⟩ }
      | some .rejected => some (settle s i caller false)
      | _ => none
    | some ⟨caller, .running scan⟩ =>
      -- a scan that has failed is logged, and the call goes on
      match s.scans[scan]? with
      | some .fulfilled | some .rejected =>
        let scanInFlight := if s.scanInFlight = some scan then none else s.scanInFlight
        some (settle { s with scanInFlight := scanInFlight } i caller true)
      | _ => none
    | _ => none
  | .finalized =>
    match s.finalizePromise with
    | .scanning abnormal call =>
      match s.calls[call]? with
      | some ⟨_, .settled true⟩ => some { s with
          active := false
          finalizePromise := .fulfilled abnormal
          schedules := s.schedules + abnormal.toNat }
      | some ⟨_, .settled false⟩ => some { s with
          finalizePromise := .rejected abnormal
          unhandled := if .finalizing ∈ s.stops then s.unhandled else s.unhandled + 1 }
      | _ => none
    | _ => none
  | .stop =>
    if !s.active then some s
    else some { s with watching := false, stopRequested := true, stops := s.stops ++ [.waiting] }
  | .stopWakes i disk =>
    if s.stops[i]? = some .waiting then
      some { finalizeRecordingState disk s with stops := s.stops.set i .finalizing }
    else none
  | .stopReturns i =>
    if s.stops[i]? = some .finalizing then
      match s.finalizePromise with
      | .fulfilled _ => some { s with stops := s.stops.set i .returned }
      | .rejected _ => some { s with stops := s.stops.set i .failed }
      | _ => none
    else none

/-- A process that has just been started. -/
def recording : Machine Recording Label where
  init := fun s => s = {}
  step := step

/-! ## What is claimed of it -/

def Label.pending : Label → Bool
  | .close _ | .remuxed .. | .resume .. | .finalized | .stopWakes .. | .stopReturns _ => true
  | _ => false

/-- Nothing that has begun can go on. -/
def Idle (s : Recording) : Prop := ∀ a : Label, a.pending = true → step s a = none

/-- The recording is not active, its finalization has ended, with a restart scheduled once or
never, and no promise was left without a handler. -/
structure Released (s : Recording) : Prop where
  inactive : s.active = false
  scheduled : ∃ abnormal, s.finalizePromise = .fulfilled abnormal ∧ s.schedules = abnormal.toNat
  handled : s.unhandled = 0

/-- What the state a run has come through says of the restarts at its end: none where a stop had
been requested before anything was finalized, and one where the finalization began unrequested. -/
structure Scheduled (r s : Recording) : Prop where
  requested : r.finalizePromise = .notStarted → r.stopRequested = true → s.schedules = 0
  abnormal : r.finalizePromise ≠ .notStarted → r.stopRequested = false → s.schedules = 1

/-- No scan fails while a call waits for it, and no call begins to wait for one that has failed. -/
def NotShared (s : Recording) : Label → Prop
  | .remuxed scan how disk => ∀ fullPath rest, s.scans[scan]? = some (.remuxing fullPath rest) →
    (afterRemux disk s.knownFiles fullPath rest how).1 = .rejected →
      ∀ call ∈ s.calls, call.phase ≠ .waiting scan
  | .close _ | .error _ | .tick _ | .stopWakes _ _ =>
    ∀ scan, s.scanInFlight = some scan → s.scans[scan]? ≠ some .rejected
  | _ => True

/-! ## Scans and the calls that wait for them -/

/-- No call waits for a scan that has failed, or has failed itself. -/
structure ScansSound (s : Recording) : Prop where
  inFlight : ∀ scan, s.scanInFlight = some scan → scan < s.scans.length
  waits : ∀ call ∈ s.calls, ∀ scan, call.phase = .waiting scan →
    ∃ found, s.scans[scan]? = some found ∧ found ≠ .rejected
  runs : ∀ call ∈ s.calls, ∀ scan, call.phase = .running scan → scan < s.scans.length
  settled : ∀ call ∈ s.calls, call.phase ≠ .settled false
  handled : s.unhandled = 0

variable {s t : Recording} {disk : Disk} {i : ℕ}

theorem ScansSound.of_same (h : ScansSound s) (hinFlight : t.scanInFlight = s.scanInFlight)
    (hscans : t.scans = s.scans) (hcalls : t.calls = s.calls) (hunhandled : t.unhandled = s.unhandled) :
    ScansSound t := by
  refine ⟨?_, ?_, ?_, ?_, ?_⟩
  · rw [hinFlight, hscans]
    exact h.inFlight
  · rw [hcalls, hscans]
    exact h.waits
  · rw [hcalls, hscans]
    exact h.runs
  · rw [hcalls]
    exact h.settled
  · rw [hunhandled]
    exact h.handled

theorem ScansSound.with_call (h : ScansSound s) {next : ScanCall} {calls : List ScanCall}
    (hcalls : ∀ call ∈ calls, call ∈ s.calls ∨ call = next)
    (hwaits : ∀ scan, next.phase = .waiting scan →
      ∃ found, s.scans[scan]? = some found ∧ found ≠ .rejected)
    (hruns : ∀ scan, next.phase = .running scan → scan < s.scans.length)
    (hsettled : next.phase ≠ .settled false) : ScansSound { s with calls := calls } := by
  refine ⟨h.inFlight, ?_, ?_, ?_, h.handled⟩
  · intro call hcall scan hphase
    obtain hold | rfl := hcalls call hcall
    · exact h.waits call hold scan hphase
    · exact hwaits scan hphase
  · intro call hcall scan hphase
    obtain hold | rfl := hcalls call hcall
    · exact h.runs call hold scan hphase
    · exact hruns scan hphase
  · intro call hcall
    obtain hold | rfl := hcalls call hcall
    · exact h.settled call hold
    · exact hsettled

theorem ScansSound.set_call (h : ScansSound s) {next : ScanCall}
    (hwaits : ∀ scan, next.phase ≠ .waiting scan)
    (hruns : ∀ scan, next.phase = .running scan → scan < s.scans.length)
    (hsettled : next.phase ≠ .settled false) :
    ScansSound { s with calls := s.calls.set i next } :=
  h.with_call (fun _ => List.mem_or_eq_of_mem_set)
    (fun scan hphase => absurd hphase (hwaits scan)) hruns hsettled

theorem ScansSound.startScan (h : ScansSound s) (disk : Disk) (finalize : Bool) :
    ScansSound (startScan disk s finalize) := by
  unfold Release.startScan
  refine ⟨?_, ?_, ?_, h.settled, h.handled⟩
  · intro scan hscan
    cases hscan
    simp
  · intro call hcall scan hphase
    obtain ⟨found, hfound, hne⟩ := h.waits call hcall scan hphase
    obtain ⟨hlt, -⟩ := List.getElem?_eq_some_iff.mp hfound
    exact ⟨found, (List.getElem?_append_left hlt).trans hfound, hne⟩
  · intro call hcall scan hphase
    have hlt := h.runs call hcall scan hphase
    rw [List.length_append]
    omega

theorem ScansSound.scanAndRegister (h : ScansSound s)
    (hshared : ∀ scan, s.scanInFlight = some scan → s.scans[scan]? ≠ some .rejected)
    (disk : Disk) (caller : Caller) : ScansSound (scanAndRegister disk s caller) := by
  have hadded : ∀ (next call : ScanCall), call ∈ s.calls ++ [next] → call ∈ s.calls ∨ call = next :=
    fun next call hcall => (List.mem_append.mp hcall).imp_right List.mem_singleton.mp
  unfold Release.scanAndRegister
  split
  · next scan hscan =>
    have hlt := h.inFlight scan hscan
    refine h.with_call (hadded _) ?_ nofun nofun
    rintro other ⟨⟩
    refine ⟨_, List.getElem?_eq_getElem hlt, fun hfailed => hshared scan hscan ?_⟩
    rw [List.getElem?_eq_getElem hlt, hfailed]
  · refine (h.startScan disk (caller = .finalization)).with_call (hadded _) nofun ?_ nofun
    rintro scan ⟨⟩
    simp [Release.startScan]

theorem ScansSound.settle (h : ScansSound s) (i : ℕ) (caller : Caller) :
    ScansSound (settle s i caller true) := by
  have hset : ScansSound { s with calls := s.calls.set i ⟨caller, .settled true⟩ } :=
    h.set_call (by simp) (by simp) (by simp)
  exact hset.of_same rfl rfl rfl (by simp [Release.settle])

theorem ScansSound.set_scan (h : ScansSound s) {scan : ℕ} {next : Scan} (knownFiles : List String)
    (halone : next = .rejected → ∀ call ∈ s.calls, call.phase ≠ .waiting scan) :
    ScansSound { s with scans := s.scans.set scan next, knownFiles := knownFiles } := by
  refine ⟨?_, ?_, ?_, h.settled, h.handled⟩
  · intro other hother
    rw [List.length_set]
    exact h.inFlight other hother
  · intro call hcall other hphase
    obtain ⟨found, hfound, hne⟩ := h.waits call hcall other hphase
    obtain ⟨hlt, -⟩ := List.getElem?_eq_some_iff.mp hfound
    by_cases heq : scan = other
    · subst heq
      exact ⟨next, List.getElem?_set_self hlt, fun hfailed => halone hfailed call hcall hphase⟩
    · exact ⟨found, (List.getElem?_set_ne heq).trans hfound, hne⟩
  · intro call hcall other hphase
    rw [List.length_set]
    exact h.runs call hcall other hphase

/-! ## The finalization -/

/-- What has been done to the recording is what its promise says. -/
def FinalizationSound (s : Recording) : Prop :=
  match s.finalizePromise with
  | .notStarted => s.active = true ∧ s.schedules = 0 ∧ s.closed = false
  | .scanning abnormal call => s.active = true ∧ s.schedules = 0 ∧ call < s.calls.length ∧
      (abnormal = false → s.stopRequested = true)
  | .fulfilled abnormal => s.active = false ∧ s.schedules = abnormal.toNat ∧
      (abnormal = false → s.stopRequested = true)
  | .rejected _ => False

/-- What is known of the scans and of the finalization. -/
structure Sound (s : Recording) : Prop where
  scans : ScansSound s
  finalization : FinalizationSound s

theorem sound_init : Sound {} where
  scans := ⟨by simp, by simp, by simp, by simp, rfl⟩
  finalization := ⟨rfl, rfl, rfl⟩

theorem FinalizationSound.of_more (h : FinalizationSound s)
    (hpromise : t.finalizePromise = s.finalizePromise) (hactive : t.active = s.active)
    (hschedules : t.schedules = s.schedules) (hclosed : t.closed = s.closed)
    (hcalls : s.calls.length ≤ t.calls.length)
    (hstop : s.stopRequested = true → t.stopRequested = true) : FinalizationSound t := by
  unfold FinalizationSound at *
  rw [hpromise]
  cases hfound : s.finalizePromise with
  | notStarted =>
    rw [hfound] at h
    exact ⟨hactive.trans h.1, hschedules.trans h.2.1, hclosed.trans h.2.2⟩
  | scanning abnormal call =>
    rw [hfound] at h
    exact ⟨hactive.trans h.1, hschedules.trans h.2.1, Nat.lt_of_lt_of_le h.2.2.1 hcalls,
      fun habnormal => hstop (h.2.2.2 habnormal)⟩
  | fulfilled abnormal =>
    rw [hfound] at h
    exact ⟨hactive.trans h.1, hschedules.trans h.2.1, fun habnormal => hstop (h.2.2 habnormal)⟩
  | rejected abnormal =>
    rw [hfound] at h
    exact h

theorem scanAndRegister_same (disk : Disk) (s : Recording) (caller : Caller) :
    (scanAndRegister disk s caller).finalizePromise = s.finalizePromise ∧
      (scanAndRegister disk s caller).active = s.active ∧
      (scanAndRegister disk s caller).schedules = s.schedules ∧
      (scanAndRegister disk s caller).closed = s.closed ∧
      (scanAndRegister disk s caller).stopRequested = s.stopRequested ∧
      (scanAndRegister disk s caller).calls.length = s.calls.length + 1 := by
  unfold scanAndRegister startScan
  split
  · exact ⟨rfl, rfl, rfl, rfl, rfl, by simp⟩
  · exact ⟨rfl, rfl, rfl, rfl, rfl, by simp⟩

/-- **A finalization is begun once**, by whoever comes first. -/
theorem sound_finalize (h : Sound s)
    (hshared : ∀ scan, s.scanInFlight = some scan → s.scans[scan]? ≠ some .rejected)
    (disk : Disk) : Sound (finalizeRecordingState disk s) ∧
      (finalizeRecordingState disk s).finalizePromise ≠ .notStarted := by
  unfold finalizeRecordingState
  split
  next hbegun => exact ⟨h, hbegun⟩
  next hnot =>
    rw [not_not] at hnot
    have hfinal := h.finalization
    unfold FinalizationSound at hfinal
    rw [hnot] at hfinal
    have hstopped : ScansSound { s with watching := false } := h.scans.of_same rfl rfl rfl rfl
    obtain ⟨-, hactive, hschedules, -, hrequested, hlength⟩ :=
      scanAndRegister_same disk { s with watching := false } .finalization
    refine ⟨⟨(hstopped.scanAndRegister hshared disk .finalization).of_same rfl rfl rfl rfl, ?_⟩,
      by simp⟩
    refine ⟨hactive.trans hfinal.1, hschedules.trans hfinal.2.1, ?_, ?_⟩
    · dsimp only at hlength ⊢
      omega
    · intro habnormal
      exact hrequested.trans (by simpa using habnormal)

/-! ## Steps -/

theorem Sound.of_same (h : Sound s) (hinFlight : t.scanInFlight = s.scanInFlight)
    (hscans : t.scans = s.scans) (hcalls : t.calls = s.calls)
    (hunhandled : t.unhandled = s.unhandled) (hpromise : t.finalizePromise = s.finalizePromise)
    (hactive : t.active = s.active) (hschedules : t.schedules = s.schedules)
    (hclosed : t.closed = s.closed)
    (hstop : s.stopRequested = true → t.stopRequested = true) : Sound t where
  scans := h.scans.of_same hinFlight hscans hcalls hunhandled
  finalization := h.finalization.of_more hpromise hactive hschedules hclosed (Nat.le_of_eq (congrArg _ hcalls.symm)) hstop

theorem sound_resume (h : Sound s) (hstep : step s (.resume i disk) = some t) : Sound t := by
  have hlength : ∀ next, s.calls.length ≤ (s.calls.set i next).length := by simp
  simp only [step] at hstep
  split at hstep
  next caller scan hcall =>
    obtain ⟨found, hfound, hne⟩ := h.scans.waits _ (List.mem_of_getElem? hcall) scan rfl
    rw [hfound] at hstep
    cases found with
    | remuxing fullPath rest => cases hstep
    | rejected => exact absurd rfl hne
    | fulfilled =>
      dsimp only at hstep
      split at hstep
      · cases hstep
        exact ⟨h.scans.settle i caller,
          h.finalization.of_more rfl rfl rfl rfl (hlength _) fun hstop => hstop⟩
      · cases hstep
        have hstart := h.scans.startScan disk true
        refine ⟨hstart.set_call (by simp) ?_ (by simp),
          h.finalization.of_more rfl rfl rfl rfl (hlength _) fun hstop => hstop⟩
        intro other hother
        cases hother
        simp [startScan]
  next caller scan hcall =>
    have hcleared : ScansSound { s with
        scanInFlight := if s.scanInFlight = some scan then none else s.scanInFlight } := by
      refine ⟨?_, h.scans.waits, h.scans.runs, h.scans.settled, h.scans.handled⟩
      intro other hother
      dsimp only at hother
      split at hother
      · cases hother
      · exact h.scans.inFlight other hother
    have hnext : Sound (settle { s with
        scanInFlight := if s.scanInFlight = some scan then none else s.scanInFlight } i caller true) :=
      ⟨hcleared.settle i caller,
        h.finalization.of_more rfl rfl rfl rfl (hlength _) fun hstop => hstop⟩
    split at hstep
    · cases hstep
      exact hnext
    · cases hstep
      exact hnext
    · cases hstep
  · cases hstep

theorem sound_finalized (h : Sound s) (hstep : step s .finalized = some t) : Sound t := by
  have hfinal := h.finalization
  unfold FinalizationSound at hfinal
  simp only [step] at hstep
  split at hstep
  next abnormal call hpromise =>
    rw [hpromise] at hfinal
    obtain ⟨-, hschedules, -, hrequested⟩ := hfinal
    split at hstep
    · cases hstep
      refine ⟨h.scans.of_same rfl rfl rfl rfl, rfl, ?_, hrequested⟩
      dsimp only
      rw [hschedules, Nat.zero_add]
    next caller hcall =>
      -- no call of `scanAndRegister` fails
      exact absurd rfl (h.scans.settled _ (List.mem_of_getElem? hcall))
    · cases hstep
  · cases hstep

/-- **Every step keeps the recording sound** that does not fail a scan for another call. -/
theorem sound_step {a : Label} (h : Sound s) (halone : NotShared s a) (hstep : step s a = some t) :
    Sound t := by
  cases a with
  | exit =>
    simp only [step] at hstep
    split at hstep
    · cases hstep
    · cases hstep
      exact h.of_same rfl rfl rfl rfl rfl rfl rfl rfl fun hstop => hstop
  | close disk =>
    simp only [step] at hstep
    split at hstep
    · cases hstep
    · cases hstep
      obtain ⟨hsound, hbegun⟩ := sound_finalize h halone disk
      refine ⟨hsound.scans.of_same rfl rfl rfl rfl, ?_⟩
      have hfinal := hsound.finalization
      unfold FinalizationSound at hfinal ⊢
      dsimp only
      cases hpromise : (finalizeRecordingState disk s).finalizePromise with
      | notStarted => exact absurd hpromise hbegun
      | scanning | fulfilled | rejected =>
        rw [hpromise] at hfinal
        exact hfinal
  | error disk =>
    cases hstep
    exact (sound_finalize h halone disk).1
  | tick disk =>
    simp only [step] at hstep
    split at hstep
    · cases hstep
      obtain ⟨hpromise, hactive, hschedules, hclosed, hrequested, hlength⟩ :=
        scanAndRegister_same disk s .watcher
      exact ⟨h.scans.scanAndRegister halone disk .watcher,
        h.finalization.of_more hpromise hactive hschedules hclosed (by omega)
          fun hstop => hrequested.trans hstop⟩
    · cases hstep
  | remuxed scan how disk =>
    simp only [step] at hstep
    split at hstep
    next fullPath rest hscan =>
      cases hstep
      exact ⟨h.scans.set_scan _ (halone fullPath rest hscan),
        h.finalization.of_more rfl rfl rfl rfl (Nat.le_refl _) fun hstop => hstop⟩
    · cases hstep
  | resume call disk => exact sound_resume h hstep
  | finalized => exact sound_finalized h hstep
  | stop =>
    simp only [step] at hstep
    split at hstep
    · cases hstep
      exact h
    · cases hstep
      exact h.of_same rfl rfl rfl rfl rfl rfl rfl rfl fun _ => rfl
  | stopWakes i disk =>
    simp only [step] at hstep
    split at hstep
    · cases hstep
      exact (sound_finalize h halone disk).1.of_same rfl rfl rfl rfl rfl rfl rfl rfl
        fun hstop => hstop
    · cases hstep
  | stopReturns i =>
    simp only [step] at hstep
    split at hstep
    · split at hstep
      · cases hstep
        exact h.of_same rfl rfl rfl rfl rfl rfl rfl rfl fun hstop => hstop
      · cases hstep
        exact h.of_same rfl rfl rfl rfl rfl rfl rfl rfl fun hstop => hstop
      · cases hstep
    · cases hstep

/-! ## When nothing is pending -/

theorem settled_of_idle (h : ScansSound s) (hidle : Idle s) {call : ScanCall}
    (hcall : s.calls[i]? = some call) : call.phase = .settled true := by
  -- any disk will do, the step is enabled
  have hresume := hidle (.resume i ⟨none, [], fun _ => none⟩) rfl
  have hremux : ∀ (scan : ℕ) (fullPath : String) (rest : List String),
      s.scans[scan]? ≠ some (.remuxing fullPath rest) := by
    intro scan fullPath rest hscan
    have hblocked := hidle (.remuxed scan .threw ⟨none, [], fun _ => none⟩) rfl
    simp only [step, hscan] at hblocked
    cases hblocked
  obtain ⟨caller, phase⟩ := call
  cases phase with
  | waiting scan =>
    obtain ⟨found, hfound, hne⟩ := h.waits _ (List.mem_of_getElem? hcall) scan rfl
    cases found with
    | remuxing fullPath rest => exact absurd hfound (hremux scan fullPath rest)
    | rejected => exact absurd rfl hne
    | fulfilled =>
      simp only [step, hcall, hfound] at hresume
      split at hresume <;> cases hresume
  | running scan =>
    have hlt := h.runs _ (List.mem_of_getElem? hcall) scan rfl
    have hfound := List.getElem?_eq_getElem hlt
    generalize s.scans[scan] = found at hfound
    cases found with
    | remuxing fullPath rest => exact absurd hfound (hremux scan fullPath rest)
    | fulfilled | rejected =>
      simp only [step, hcall, hfound] at hresume
      cases hresume
  | settled fulfilled =>
    cases fulfilled with
    | true => rfl
    | false => exact absurd rfl (h.settled _ (List.mem_of_getElem? hcall))

theorem released_of_idle (h : Sound s) (hexited : s.exited = true) (hidle : Idle s) :
    Released s := by
  have hfinal := h.finalization
  unfold FinalizationSound at hfinal
  cases hpromise : s.finalizePromise with
  | notStarted =>
    rw [hpromise] at hfinal
    have hclose := hidle (.close ⟨none, [], fun _ => none⟩) rfl
    simp [step, hexited, hfinal.2.2] at hclose
  | scanning abnormal call =>
    rw [hpromise] at hfinal
    have hcall := List.getElem?_eq_getElem hfinal.2.2.1
    have hsettled := settled_of_idle h.scans hidle hcall
    have hfinalized := hidle .finalized rfl
    generalize s.calls[call] = found at hcall hsettled
    obtain ⟨caller, phase⟩ := found
    dsimp only at hsettled
    subst hsettled
    simp [step, hpromise, hcall] at hfinalized
  | fulfilled abnormal =>
    rw [hpromise] at hfinal
    exact ⟨hfinal.1, ⟨abnormal, hpromise, hfinal.2.1⟩, h.scans.handled⟩
  | rejected abnormal =>
    rw [hpromise] at hfinal
    exact hfinal.elim

/-! ## Whether a death is abnormal -/

theorem finalize_abnormal (disk : Disk) (s : Recording) :
    ((finalizeRecordingState disk s).finalizePromise.abnormal = s.finalizePromise.abnormal ∨
      s.finalizePromise = .notStarted ∧
        (finalizeRecordingState disk s).finalizePromise.abnormal = some (!s.stopRequested)) ∧
      (finalizeRecordingState disk s).stopRequested = s.stopRequested := by
  unfold finalizeRecordingState
  split
  · exact ⟨.inl rfl, rfl⟩
  next hnot =>
    rw [not_not] at hnot
    obtain ⟨-, -, -, -, hrequested, -⟩ :=
      scanAndRegister_same disk { s with watching := false } .finalization
    exact ⟨.inr ⟨hnot, rfl⟩, hrequested⟩

/-- It is judged once, as the finalization begins, by the stop requested until then. -/
theorem step_abnormal {a : Label} (hstep : step s a = some t) :
    (t.finalizePromise.abnormal = s.finalizePromise.abnormal ∨
      s.finalizePromise = .notStarted ∧ t.finalizePromise.abnormal = some (!s.stopRequested)) ∧
      (s.stopRequested = true → t.stopRequested = true) := by
  cases a with
  | exit =>
    obtain ⟨-, heq⟩ := Option.ite_none_left_eq_some.mp hstep
    cases heq
    exact ⟨.inl rfl, id⟩
  | close disk =>
    obtain ⟨-, heq⟩ := Option.ite_none_left_eq_some.mp hstep
    cases heq
    exact (finalize_abnormal disk s).imp_right fun h => h.trans
  | error disk =>
    cases hstep
    exact (finalize_abnormal disk s).imp_right fun h => h.trans
  | tick disk =>
    obtain ⟨-, heq⟩ := Option.ite_none_right_eq_some.mp hstep
    cases heq
    obtain ⟨hpromise, -, -, -, hrequested, -⟩ := scanAndRegister_same disk s .watcher
    exact ⟨.inl (congrArg _ hpromise), hrequested.trans⟩
  | remuxed scan how disk =>
    simp only [step] at hstep
    split at hstep <;> cases hstep
    exact ⟨.inl rfl, id⟩
  | resume call disk =>
    simp only [step] at hstep
    repeat' split at hstep
    all_goals cases hstep <;> exact ⟨.inl rfl, id⟩
  | finalized =>
    simp only [step] at hstep
    split at hstep
    next abnormal call hpromise =>
      rw [hpromise]
      split at hstep <;> cases hstep <;> exact ⟨.inl rfl, id⟩
    · cases hstep
  | stop =>
    simp only [step] at hstep
    split at hstep <;> cases hstep
    · exact ⟨.inl rfl, id⟩
    · exact ⟨.inl rfl, fun _ => rfl⟩
  | stopWakes i disk =>
    obtain ⟨-, heq⟩ := Option.ite_none_right_eq_some.mp hstep
    cases heq
    exact (finalize_abnormal disk s).imp_right fun h => h.trans
  | stopReturns i =>
    obtain ⟨-, hstep⟩ := Option.ite_none_right_eq_some.mp hstep
    split at hstep <;> cases hstep <;> exact ⟨.inl rfl, id⟩

theorem requested_path (h : Path recording NotShared s t) (hnot : s.finalizePromise = .notStarted)
    (hrequested : s.stopRequested = true) : t.finalizePromise.abnormal ≠ some true := by
  refine (h.invariant (I := fun u => u.stopRequested = true ∧
    u.finalizePromise.abnormal ≠ some true) ?_ ⟨hrequested, by rw [hnot]; nofun⟩).2
  rintro u a v ⟨hu, hjudged⟩ - hstep
  obtain ⟨hsame | ⟨-, hnew⟩, hstop⟩ := step_abnormal hstep
  · exact ⟨hstop hu, hsame ▸ hjudged⟩
  · rw [hnew, hu]
    exact ⟨hstop hu, nofun⟩

theorem abnormal_path (h : Path recording NotShared s t) {abnormal : Bool}
    (hjudged : s.finalizePromise.abnormal = some abnormal) :
    t.finalizePromise.abnormal = some abnormal := by
  refine h.invariant (I := fun u => u.finalizePromise.abnormal = some abnormal) ?_ hjudged
  intro u a v hu _ hstep
  obtain ⟨hsame | ⟨hnot, -⟩, -⟩ := step_abnormal hstep
  · exact hsame.trans hu
  · rw [hnot] at hu
    cases hu

theorem abnormal_of_sound (h : Sound s) (hbegun : s.finalizePromise ≠ .notStarted)
    (hrequested : s.stopRequested = false) : s.finalizePromise.abnormal = some true := by
  have hfinal := h.finalization
  unfold FinalizationSound at hfinal
  cases hpromise : s.finalizePromise with
  | notStarted => exact absurd hpromise hbegun
  | scanning abnormal call =>
    rw [hpromise] at hfinal
    have hrest := hfinal.2.2.2
    cases abnormal <;> simp_all [Finalization.abnormal]
  | fulfilled abnormal =>
    rw [hpromise] at hfinal
    have hrest := hfinal.2.2
    cases abnormal <;> simp_all [Finalization.abnormal]
  | rejected abnormal =>
    rw [hpromise] at hfinal
    exact hfinal.elim

theorem sound_reach (h : Reach recording NotShared s) : Sound s := by
  refine h.invariant (I := Sound) ?_ ?_
  · rintro s rfl
    exact sound_init
  · intro s a t hs halone hstep
    exact sound_step hs halone hstep

/-- **A dead recording is released**, where no scan fails that a second call waits for; and its
restart is scheduled exactly once if nobody had asked for the stop, and never if somebody had. -/
theorem dead_recording_released (h : Reach recording NotShared s) (hexited : s.exited = true)
    (hidle : Idle s) : Released s ∧ ∀ r, Reach recording NotShared r →
      Path recording NotShared r s → Scheduled r s := by
  have hreleased : Released s := released_of_idle (sound_reach h) hexited hidle
  refine ⟨hreleased, fun r hr hpath => ?_⟩
  obtain ⟨abnormal, hpromise, hschedules⟩ := hreleased.scheduled
  refine ⟨fun hnot hrequested => hschedules.trans ?_, fun hbegun hrequested => hschedules.trans ?_⟩
  · have hjudged := requested_path hpath hnot hrequested
    rw [hpromise] at hjudged
    cases abnormal with
    | false => rfl
    | true => exact absurd rfl hjudged
  · have hjudged := abnormal_path hpath (abnormal_of_sound (sound_reach hr) hbegun hrequested)
    rw [hpromise] at hjudged
    rw [Option.some.inj hjudged]
    rfl

/-! ## Two runs -/

/-- Nothing is under way, as far as a test can see. -/
def Recording.quiet (s : Recording) : Bool :=
  s.closed && s.scans.all (fun scan => scan = .fulfilled || scan = .rejected) &&
    s.calls.all (fun call => call.phase = .settled true || call.phase = .settled false) &&
    (match s.finalizePromise with
      | .scanning _ _ => false
      | _ => true) &&
    s.stops.all (fun stop => stop = .returned || stop = .failed)

theorem idle_of_quiet (h : s.quiet = true) : Idle s := by
  simp only [Recording.quiet, Bool.and_eq_true, List.all_eq_true, Bool.or_eq_true,
    decide_eq_true_eq] at h
  obtain ⟨⟨⟨⟨hclosed, hscans⟩, hcalls⟩, hpromise⟩, hstops⟩ := h
  intro a ha
  cases a with
  | exit | error | tick | stop => cases ha
  | close disk => simp [step, hclosed]
  | remuxed scan how disk =>
    simp only [step]
    split
    next fullPath rest hscan =>
      have := hscans _ (List.mem_of_getElem? hscan)
      simp at this
    · rfl
  | resume i disk =>
    simp only [step]
    split
    next caller scan hcall =>
      have := hcalls _ (List.mem_of_getElem? hcall)
      simp at this
    next caller scan hcall =>
      have := hcalls _ (List.mem_of_getElem? hcall)
      simp at this
    · rfl
  | finalized =>
    simp only [step]
    split
    next hscanning =>
      rw [hscanning] at hpromise
      cases hpromise
    · rfl
  | stopWakes i disk =>
    simp only [step]
    split
    next hstop =>
      have := hstops _ (List.mem_of_getElem? hstop)
      simp at this
    · rfl
  | stopReturns i =>
    simp only [step]
    split
    next hstop =>
      have := hstops _ (List.mem_of_getElem? hstop)
      simp at this
    · rfl

def three : Disk := ⟨some ["1.ts", "2.ts", "3.ts"], [], fun _ => some 1⟩

def gone : Disk := { three with size := fun fullPath => if fullPath = "2.ts" then none else some 1 }

/-- The process dies while a scan is under way, which then ends well. -/
def dies : List Label := [.tick three, .exit, .close three, .remuxed 0 .registered three,
  .remuxed 0 .registered three, .resume 0 three, .resume 1 three, .remuxed 1 .registered three,
  .resume 1 three, .finalized]

/-- In the same run, a file vanishes between the listing and its turn. -/
def vanishes : List Label := [.tick three, .exit, .close three, .remuxed 0 .registered gone,
  .resume 0 gone, .resume 1 gone, .finalized]

def isNotShared (s : Recording) : Label → Bool
  | .remuxed scan how disk =>
    match s.scans[scan]? with
    | some (.remuxing fullPath rest) =>
      (afterRemux disk s.knownFiles fullPath rest how).1 ≠ .rejected
    | _ => true
  | .close _ | .error _ | .tick _ | .stopWakes _ _ => !s.scans.contains .rejected
  | _ => true

theorem notShared_of_isNotShared (s : Recording) (a : Label) (h : isNotShared s a = true) :
    NotShared s a := by
  have hnone : (!s.scans.contains .rejected) = true →
      ∀ scan, s.scanInFlight = some scan → s.scans[scan]? ≠ some .rejected := by
    intro hall scan _ hscan
    have := List.mem_of_getElem? hscan
    simp [this] at hall
  cases a with
  | remuxed scan how disk =>
    intro fullPath rest hscan hfails
    simp only [isNotShared, hscan, hfails] at h
    simp at h
  | close | error | tick | stopWakes => exact hnone h
  | _ => trivial

/-- A recording whose stop is requested before its process dies. -/
def stops : List Label := [.stop, .exit, .close three, .remuxed 0 .registered three,
  .remuxed 0 .registered three, .remuxed 0 .registered three, .resume 0 three, .finalized,
  .stopWakes 0 three, .stopReturns 0]

theorem dead_recording_released_three :
    (∃ s, recording.run isNotShared {} dies = some s ∧ Released s ∧ s.schedules = 1) ∧
      ∃ s, recording.run isNotShared {} stops = some s ∧ Released s ∧ s.schedules = 0 := by
  have hruns (labels : List Label) (schedules : ℕ)
      (hend : (recording.run isNotShared {} labels).map
        (fun s => (s.quiet, s.exited, s.schedules)) = some (true, true, schedules)) :
      ∃ s, recording.run isNotShared {} labels = some s ∧ Released s ∧ s.schedules = schedules := by
    obtain ⟨s, hs, hend⟩ := Option.map_eq_some_iff.mp hend
    obtain ⟨hquiet, hend⟩ := Prod.mk.inj hend
    obtain ⟨hexited, hschedules⟩ := Prod.mk.inj hend
    exact ⟨s, hs, (dead_recording_released ⟨_, rfl, path_of_run notShared_of_isNotShared _ hs⟩
      hexited (idle_of_quiet hquiet)).1, hschedules⟩
  exact ⟨hruns dies 1 (by decide), hruns stops 0 (by decide)⟩

/-- The finalization fails with the scan that it waits for: the recording stays active. -/
theorem failed_scan_is_shared : ¬ ∀ s, Reach recording Always s → s.exited = true → Idle s →
    Released s := by
  intro h
  have hrun : (recording.run anyStep {} vanishes).map
      (fun s => (s.quiet, s.exited, s.active, s.schedules, s.unhandled)) =
        some (true, true, true, 0, 1) := by decide
  obtain ⟨s, hreach, hend⟩ := reach_of_anyStep hrun rfl
  obtain ⟨hquiet, hend⟩ := Prod.mk.inj hend
  obtain ⟨hexited, hend⟩ := Prod.mk.inj hend
  have hreleased := h s hreach hexited
    (idle_of_quiet hquiet)
  rw [hreleased.inactive] at hend
  exact absurd hend (by simp)

end Drac.Recordings.Release
