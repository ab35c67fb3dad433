import Mathlib.Data.Int.Notation
import Drac.Lib.JsMap
import Drac.Lib.Runs

/-
  The recordings of the worker.

  Correspondence (`main.go`, `recorder.go` ↔ Lean):
    the loop of `main`         ↔ the labels `fetched` and `nextCamera`
    handleRecordingCommand     ↔ `start` (its fetch has answered) and `stop`
    startRecordingLocked, stopRecordingLocked ↔ the same names
    startRecording             ↔ `Goroutine`, and its labels from one lock or wait to the next

  The three maps are behind one mutex, so a step is what happens while it is held, or what a
  goroutine does in between. What the API answers, and how old that is, is in the labels: a list
  or a camera may have been read at any time before. A context is cancelled only through the map;
  the end of the worker, which cancels all of them, is left out.

    recordings_consistent   one recording of a camera at most, and the map is right about it
-/

namespace Drac.CameraWorker

open Runs

structure Camera where
  ID : String
  Enabled : Option Bool := none
  RecordingEnabled : Bool := true
  deriving DecidableEq

def cameraIsEnabled (cam : Camera) : Bool := cam.Enabled.getD true

def cameraIsRecordable (cam : Camera) : Bool := cameraIsEnabled cam && cam.RecordingEnabled

inductive Phase where
  | top
  | refreshed (currentCam : Camera)
  | checked (currentCam : Camera)
  | segment (segmentSeconds : ℤ)
  /-- At `waitForContext`. -/
  | waiting
  | ended
  deriving DecidableEq

/-- A recording loop, its camera and whether its context is cancelled. -/
structure Goroutine where
  cam : Camera
  cancelled : Bool := false
  phase : Phase := .top
  deriving DecidableEq

/-- The worker's maps, and its goroutines. -/
structure Worker where
  activeRecordings : List String := []
  recordingSegments : List (String × ℤ) := []
  /-- The goroutine whose context the function cancels. -/
  recordingCancels : List (String × ℕ) := []
  goroutines : List Goroutine := []
  /-- The cameras that a pass of the main loop has still to look at. -/
  listing : List Camera := []
  /-- Who has cancelled whom: a goroutine, or the main loop or a command (`none`). -/
  cancels : List (Option ℕ × ℕ) := []

def startRecordingLocked (s : Worker) (cam : Camera) : Worker :=
  { s with
    activeRecordings := if cam.ID ∈ s.activeRecordings then s.activeRecordings
      else cam.ID :: s.activeRecordings
    recordingCancels := JsMap.set s.recordingCancels cam.ID s.goroutines.length
    goroutines := s.goroutines ++ [{ cam := cam }] }

def Goroutine.cancel (g : Goroutine) : Goroutine := { g with cancelled := true }

def stopRecordingLocked (by_ : Option ℕ) (s : Worker) (cameraID : String) : Worker :=
  let s := match JsMap.get? s.recordingCancels cameraID with
    | some i => { s with
        goroutines := s.goroutines.modify i Goroutine.cancel
        cancels := (by_, i) :: s.cancels }
    | none => s
  { s with
    recordingCancels := JsMap.erase s.recordingCancels cameraID
    activeRecordings := s.activeRecordings.filter (· ≠ cameraID)
    recordingSegments := JsMap.erase s.recordingSegments cameraID }

inductive SegmentEnd where
  | recorded
  | failed
  /-- Its directory could not be made, or its address not handed over. -/
  | refused
  deriving DecidableEq

inductive Move where
  /-- `none` where the camera could not be fetched. -/
  | refresh (answer : Option Camera)
  | check
  | decide
  | segmentEnds (how : SegmentEnd)
  | waited (elapsed : Bool)
  | crash

/-- One step: the worker's list, a start, a stop, or a move of a goroutine. -/
inductive Label where
  /-- The list of cameras is there; recordings of cameras that are not on it are stopped. -/
  | fetched (cameras : List Camera)
  | nextCamera
  | start (cam : Camera) (segmentSeconds : ℤ)
  | stop (cameraID : String)
  | goroutine (i : ℕ) (move : Move)

def Worker.goto (s : Worker) (i : ℕ) (phase : Phase) : Worker :=
  { s with goroutines := s.goroutines.modify i fun g => { g with phase := phase } }

/-- Where a move takes a goroutine, and the camera whose recording it stops. -/
def goOn (s : Worker) (g : Goroutine) : Move → Option (Phase × Option String)
  | .refresh answer =>
    -- a request whose context is cancelled fails, and an answer is for the camera asked for
    if g.phase ≠ .top || (g.cancelled && answer.isSome) || !answer.all (·.ID = g.cam.ID) then none
    else some (.refreshed (answer.getD g.cam), none)
  | .check =>
    match g.phase with
    | .refreshed currentCam =>
      some (if currentCam.ID ∈ s.activeRecordings then .checked currentCam else .ended, none)
    | _ => none
  | .decide =>
    match g.phase with
    | .checked currentCam =>
      if !cameraIsEnabled currentCam then some (.ended, some currentCam.ID)
      else
        let configured := (JsMap.get? s.recordingSegments currentCam.ID).getD 0
        some (.segment (if 0 < configured then configured else 300), none)
    | _ => none
  | .segmentEnds how =>
    match g.phase with
    | .segment _ => some (match how with
        | .recorded => .top
        | .failed => if g.cancelled then .ended else .waiting
        | .refused => .waiting, none)
    | _ => none
  | .waited elapsed =>
    if g.phase ≠ .waiting then none
    else if elapsed then some (.top, none)
    else if g.cancelled then some (.ended, none)
    else none
  | .crash => if g.phase = .ended then none else some (.ended, some g.cam.ID)

def goroutineStep (s : Worker) (i : ℕ) (phase : Phase) : Option String → Worker
  | some cameraID => (stopRecordingLocked (some i) s cameraID).goto i phase
  | none => s.goto i phase

def step (s : Worker) : Label → Option Worker
  | .fetched cameras =>
    if s.listing ≠ [] then none
    else
      let currentCamIds := cameras.map (·.ID)
      let gone := s.activeRecordings.filter (· ∉ currentCamIds)
      some { gone.foldl (stopRecordingLocked none) s with listing := cameras }
  | .nextCamera =>
    match s.listing with
    | [] => none
    | cam :: rest =>
      let s := { s with listing := rest }
      some (if cameraIsRecordable cam then
          if cam.ID ∈ s.activeRecordings then s else startRecordingLocked s cam
        else if cam.ID ∈ s.activeRecordings then stopRecordingLocked none s cam.ID
        else s)
  | .start cam segmentSeconds =>
    if !cameraIsEnabled cam then some s
    else
      let s := if 0 < segmentSeconds then
          { s with recordingSegments := JsMap.set s.recordingSegments cam.ID segmentSeconds }
        else s
      some (if cam.ID ∈ s.activeRecordings then s else startRecordingLocked s cam)
  | .stop cameraID =>
    some (if cameraID ∈ s.activeRecordings then stopRecordingLocked none s cameraID else s)
  | .goroutine i move =>
    (s.goroutines[i]?).bind fun g => (goOn s g move).map fun next => goroutineStep s i next.1 next.2

def recordings : Machine Worker Label where
  init := fun s => s = {}
  step := step

/-! ## What a move does -/

def Phase.about (cameraID : String) : Phase → Prop
  | .refreshed currentCam | .checked currentCam => currentCam.ID = cameraID
  | _ => True

variable {s t : Worker} {g : Goroutine} {i : ℕ} {cameraID : String}

variable {move : Move} {phase : Phase} {stopped : Option String}

theorem goOn_cases
    (habout : g.phase.about g.cam.ID) (h : goOn s g move = some (phase, stopped)) :
    (stopped = none ∧ phase.about g.cam.ID ∧
        (phase = .ended → g.cancelled = true ∨ g.cam.ID ∉ s.activeRecordings)) ∨
      (phase = .ended ∧ stopped = some g.cam.ID ∧
        ((move = .decide ∧ ∃ cam, g.phase = .checked cam ∧ cameraIsEnabled cam = false) ∨
          (move = .crash ∧ g.phase ≠ .ended))) := by
  cases move with
  | refresh answer =>
    simp only [goOn] at h
    split at h
    · cases h
    next hguard =>
      cases h
      refine .inl ⟨rfl, ?_, by simp⟩
      cases answer with
      | none => rfl
      | some cam =>
        simp only [Bool.or_eq_true, not_or] at hguard
        simpa [Phase.about] using hguard.2
  | check =>
    simp only [goOn] at h
    split at h
    next currentCam hphase =>
      rw [hphase] at habout
      cases h
      refine .inl ⟨rfl, ?_, ?_⟩
      · split
        · exact habout
        · trivial
      · intro hended
        split at hended
        · cases hended
        next hgone => exact .inr (habout ▸ hgone)
    · cases h
  | decide =>
    simp only [goOn] at h
    split at h
    next currentCam hphase =>
      rw [hphase] at habout
      split at h
      next hdisabled =>
        cases h
        exact .inr ⟨rfl, congrArg some habout, .inl ⟨rfl, currentCam, hphase, by simpa using hdisabled⟩⟩
      · cases h
        exact .inl ⟨rfl, trivial, by simp⟩
    · cases h
  | segmentEnds how =>
    simp only [goOn] at h
    split at h
    · cases h
      refine .inl ⟨rfl, ?_, ?_⟩
      · cases how <;> first | trivial | (dsimp only; split <;> trivial)
      · intro hended
        cases how with
        | recorded | refused => cases hended
        | failed =>
          dsimp only at hended
          split at hended
          next hcancelled => exact .inl hcancelled
          · cases hended
    · cases h
  | waited elapsed =>
    simp only [goOn] at h
    split at h
    · cases h
    · split at h
      · cases h
        exact .inl ⟨rfl, trivial, by simp⟩
      · split at h
        next hcancelled =>
          cases h
          exact .inl ⟨rfl, trivial, fun _ => .inl hcancelled⟩
        · cases h
  | crash =>
    simp only [goOn] at h
    split at h
    · cases h
    next hrunning =>
      cases h
      exact .inr ⟨rfl, rfl, .inr ⟨rfl, hrunning⟩⟩

/-! ## The maps and the goroutines -/

/-- The maps name the goroutines whose contexts are not cancelled, and none of these has ended. -/
structure Consistent (s : Worker) : Prop where
  registered : ∀ i g, s.goroutines[i]? = some g → g.cancelled = false →
    JsMap.get? s.recordingCancels g.cam.ID = some i
  held : ∀ cameraID i, JsMap.get? s.recordingCancels cameraID = some i →
    ∃ g, s.goroutines[i]? = some g ∧ g.cam.ID = cameraID ∧ g.cancelled = false ∧ g.phase ≠ .ended
  active : ∀ cameraID, cameraID ∈ s.activeRecordings ↔
    JsMap.get? s.recordingCancels cameraID ≠ none
  about : ∀ g ∈ s.goroutines, g.phase.about g.cam.ID

theorem consistent_init : Consistent {} where
  registered := fun i g h => by simp at h
  held := fun _ _ h => by cases h
  active := fun cameraID => by simp [JsMap.get?]
  about := fun g h => by cases h

theorem stopRecordingLocked_cases (by_ : Option ℕ) (s : Worker) (cameraID : String) :
    (JsMap.get? s.recordingCancels cameraID = none ∧
      (stopRecordingLocked by_ s cameraID).goroutines = s.goroutines ∧
      (stopRecordingLocked by_ s cameraID).cancels = s.cancels) ∨
    ∃ i, JsMap.get? s.recordingCancels cameraID = some i ∧
      (stopRecordingLocked by_ s cameraID).goroutines = s.goroutines.modify i Goroutine.cancel ∧
      (stopRecordingLocked by_ s cameraID).cancels = (by_, i) :: s.cancels := by
  cases hget : JsMap.get? s.recordingCancels cameraID with
  | none => exact .inl ⟨rfl, by rw [stopRecordingLocked, hget], by rw [stopRecordingLocked, hget]⟩
  | some i =>
    exact .inr ⟨i, rfl, by rw [stopRecordingLocked, hget], by rw [stopRecordingLocked, hget]⟩

theorem stopRecordingLocked_cancels (by_ : Option ℕ) (s : Worker) (cameraID : String) :
    (stopRecordingLocked by_ s cameraID).recordingCancels =
      JsMap.erase s.recordingCancels cameraID := by
  rw [stopRecordingLocked]
  split <;> rfl

theorem stopRecordingLocked_active (by_ : Option ℕ) (s : Worker) (cameraID : String) :
    (stopRecordingLocked by_ s cameraID).activeRecordings =
      s.activeRecordings.filter (· ≠ cameraID) := by
  rw [stopRecordingLocked]
  split <;> rfl

theorem getElem?_stopRecordingLocked (h : Consistent s) (by_ : Option ℕ) {j : ℕ} {g' : Goroutine}
    (hg' : (stopRecordingLocked by_ s cameraID).goroutines[j]? = some g') :
    ∃ g, s.goroutines[j]? = some g ∧
      ((g.cam.ID = cameraID ∧ g'.cancelled = true ∧ g'.cam = g.cam ∧ g'.phase = g.phase) ∨
        (g.cam.ID ≠ cameraID ∧ g' = g)) := by
  obtain ⟨hnone, hsame, -⟩ | ⟨i, hi, hmodify, -⟩ := stopRecordingLocked_cases by_ s cameraID
  · rw [hsame] at hg'
    refine ⟨g', hg', ?_⟩
    by_cases hid : g'.cam.ID = cameraID
    · cases hcancelled : g'.cancelled with
      | true => exact .inl ⟨hid, rfl, rfl, rfl⟩
      | false =>
        have hreg := h.registered j g' hg' hcancelled
        rw [hid, hnone] at hreg
        cases hreg
    · exact .inr ⟨hid, rfl⟩
  · rw [hmodify, List.getElem?_modify] at hg'
    obtain ⟨g, hg, hg'⟩ := Option.map_eq_some_iff.mp hg'
    refine ⟨g, hg, ?_⟩
    obtain ⟨held, hheld, hheldID, -⟩ := h.held cameraID i hi
    by_cases hij : i = j
    · subst hij
      rw [hg] at hheld
      cases hheld
      rw [if_pos rfl] at hg'
      exact .inl ⟨hheldID, hg' ▸ rfl, hg' ▸ rfl, hg' ▸ rfl⟩
    · rw [if_neg hij] at hg'
      subst hg'
      by_cases hid : g.cam.ID = cameraID
      · cases hcancelled : g.cancelled with
        | true => exact .inl ⟨hid, rfl, rfl, rfl⟩
        | false =>
          have hreg := h.registered j g hg hcancelled
          rw [hid, hi] at hreg
          exact absurd (Option.some.inj hreg) hij
      · exact .inr ⟨hid, rfl⟩

theorem consistent_stop (h : Consistent s) (by_ : Option ℕ) (cameraID : String) :
    Consistent (stopRecordingLocked by_ s cameraID) := by
  have hother : ∀ id j, id ≠ cameraID → JsMap.get? s.recordingCancels id = some j →
      (stopRecordingLocked by_ s cameraID).goroutines[j]? = s.goroutines[j]? := by
    intro id j hne hj
    obtain ⟨-, hsame, -⟩ | ⟨i, hi, hmodify, -⟩ := stopRecordingLocked_cases by_ s cameraID
    · rw [hsame]
    · rw [hmodify, List.getElem?_modify]
      have hij : i ≠ j := by
        rintro rfl
        obtain ⟨g, hg, hid, -⟩ := h.held id i hj
        obtain ⟨g', hg', hid', -⟩ := h.held cameraID i hi
        rw [hg] at hg'
        cases hg'
        exact hne (hid.symm.trans hid')
      simp [hij]
  refine ⟨?_, ?_, ?_, ?_⟩
  · intro j g' hg' hcancelled
    obtain ⟨g, hg, ⟨-, hgone, -⟩ | ⟨hne, rfl⟩⟩ := getElem?_stopRecordingLocked h by_ hg'
    · rw [hcancelled] at hgone
      cases hgone
    · rw [stopRecordingLocked_cancels, JsMap.get?_erase, if_neg hne.symm]
      exact h.registered j g' hg hcancelled
  · intro id j hj
    rw [stopRecordingLocked_cancels, JsMap.get?_erase] at hj
    split at hj
    · cases hj
    next hne =>
      rw [hother id j (Ne.symm hne) hj]
      exact h.held id j hj
  · intro id
    rw [stopRecordingLocked_active, stopRecordingLocked_cancels, JsMap.get?_erase, List.mem_filter,
      h.active id]
    by_cases hid : cameraID = id
    · simp [hid]
    · simp [hid, Ne.symm hid]
  · intro g' hg'
    obtain ⟨j, hj⟩ := List.getElem?_of_mem hg'
    obtain ⟨g, hg, ⟨-, -, hcam, hphase⟩ | ⟨-, rfl⟩⟩ := getElem?_stopRecordingLocked h by_ hj
    · rw [hcam, hphase]
      exact h.about g (List.mem_of_getElem? hg)
    · exact h.about g' (List.mem_of_getElem? hg)

theorem consistent_start (h : Consistent s) {cam : Camera} (hnew : cam.ID ∉ s.activeRecordings) :
    Consistent (startRecordingLocked s cam) := by
  have hnone : JsMap.get? s.recordingCancels cam.ID = none := by
    by_contra hsome
    exact hnew ((h.active cam.ID).mpr hsome)
  refine ⟨?_, ?_, ?_, ?_⟩
  · intro j g hg hcancelled
    dsimp only [startRecordingLocked] at hg ⊢
    rw [JsMap.get?_set]
    obtain hold | ⟨rfl, rfl⟩ := getElem?_concat_some hg
    · have hreg := h.registered j g hold hcancelled
      rw [if_neg (fun hid => by rw [← hid, hnone] at hreg; cases hreg)]
      exact hreg
    · exact if_pos rfl
  · intro id j hj
    dsimp only [startRecordingLocked] at hj ⊢
    rw [JsMap.get?_set] at hj
    split at hj
    next hid =>
      cases hj
      exact ⟨{ cam := cam }, List.getElem?_concat_length, hid, rfl, by simp⟩
    · obtain ⟨g, hg, hrest⟩ := h.held id j hj
      obtain ⟨hlt, -⟩ := List.getElem?_eq_some_iff.mp hg
      exact ⟨g, (List.getElem?_append_left hlt).trans hg, hrest⟩
  · intro id
    dsimp only [startRecordingLocked]
    rw [if_neg hnew, JsMap.get?_set, List.mem_cons, h.active id]
    by_cases hid : cam.ID = id
    · simp [hid]
    · simp [hid, Ne.symm hid]
  · intro g hg
    obtain hold | hlast := List.mem_append.mp hg
    · exact h.about g hold
    · rw [List.mem_singleton.mp hlast]
      trivial

theorem consistent_goto (h : Consistent s) (hg : s.goroutines[i]? = some g)
    (habout : phase.about g.cam.ID) (hended : phase = .ended → g.cancelled = true) :
    Consistent (s.goto i phase) := by
  have hget : ∀ j, (s.goto i phase).goroutines[j]? =
      if i = j then some { g with phase := phase } else s.goroutines[j]? := by
    intro j
    rw [Worker.goto, List.getElem?_modify]
    by_cases hij : i = j
    · subst hij
      rw [hg]
      simp
    · simp [hij]
  refine ⟨?_, ?_, h.active, ?_⟩
  · intro j g' hg' hcancelled
    rw [hget] at hg'
    split at hg'
    next hij =>
      cases hg'
      exact hij ▸ h.registered i g hg hcancelled
    · exact h.registered j g' hg' hcancelled
  · intro id j hj
    obtain ⟨g', hg', hid, hcancelled, hrunning⟩ := h.held id j hj
    rw [hget]
    by_cases hij : i = j
    · subst hij
      rw [hg] at hg'
      cases hg'
      refine ⟨_, if_pos rfl, hid, hcancelled, fun hphase => ?_⟩
      rw [hended hphase] at hcancelled
      cases hcancelled
    · exact ⟨g', by rw [if_neg hij]; exact hg', hid, hcancelled, hrunning⟩
  · intro g' hg'
    obtain ⟨j, hj⟩ := List.getElem?_of_mem hg'
    rw [hget] at hj
    split at hj
    · cases hj
      exact habout
    · exact h.about g' (List.mem_of_getElem? hj)

/-! ## Steps -/

theorem Consistent.of_same (h : Consistent s) (hgoroutines : t.goroutines = s.goroutines)
    (hcancels : t.recordingCancels = s.recordingCancels)
    (hactive : t.activeRecordings = s.activeRecordings) : Consistent t := by
  refine ⟨?_, ?_, ?_, ?_⟩
  · rw [hgoroutines, hcancels]
    exact h.registered
  · rw [hgoroutines, hcancels]
    exact h.held
  · rw [hactive, hcancels]
    exact h.active
  · rw [hgoroutines]
    exact h.about

theorem consistent_stops (h : Consistent s) (gone : List String) :
    Consistent (gone.foldl (stopRecordingLocked none) s) := by
  induction gone generalizing s with
  | nil => exact h
  | cons cameraID gone ih => exact ih (consistent_stop h none cameraID)

theorem consistent_start_or_keep (h : Consistent s) (cam : Camera) :
    Consistent (if cam.ID ∈ s.activeRecordings then s else startRecordingLocked s cam) := by
  split
  · exact h
  next hnew => exact consistent_start h hnew

theorem consistent_stop_or_keep (h : Consistent s) (cameraID : String) :
    Consistent (if cameraID ∈ s.activeRecordings then stopRecordingLocked none s cameraID else s) := by
  split
  · exact consistent_stop h none cameraID
  · exact h

theorem consistent_goroutine (h : Consistent s) (hg : s.goroutines[i]? = some g)
    (hgo : goOn s g move = some (phase, stopped)) :
    Consistent (goroutineStep s i phase stopped) := by
  have habout := h.about g (List.mem_of_getElem? hg)
  obtain ⟨rfl, hphase, hended⟩ | ⟨rfl, rfl, -⟩ := goOn_cases habout hgo
  · refine consistent_goto h hg hphase fun hend => ?_
    obtain hcancelled | hgone := hended hend
    · exact hcancelled
    · -- a camera that is not recorded has no goroutine whose context is not cancelled
      by_contra hrunning
      rw [Bool.not_eq_true] at hrunning
      exact hgone ((h.active g.cam.ID).mpr (by rw [h.registered i g hg hrunning]; simp))
  · have hstop := consistent_stop h (some i) g.cam.ID
    have hlength : i < (stopRecordingLocked (some i) s g.cam.ID).goroutines.length := by
      obtain ⟨hlt, -⟩ := List.getElem?_eq_some_iff.mp hg
      obtain ⟨-, hsame, -⟩ | ⟨j, -, hmodify, -⟩ :=
        stopRecordingLocked_cases (some i) s g.cam.ID
      · rw [hsame]
        exact hlt
      · rw [hmodify, List.length_modify]
        exact hlt
    have hnow := List.getElem?_eq_getElem hlength
    obtain ⟨old, hold, hcases⟩ := getElem?_stopRecordingLocked h (some i) hnow
    rw [hg] at hold
    cases hold
    obtain ⟨-, hcancelled, -⟩ | ⟨hne, -⟩ := hcases
    · exact consistent_goto hstop hnow trivial fun _ => hcancelled
    · exact absurd rfl hne

/-- **Every step keeps the maps right.** -/
theorem consistent_step {a : Label} (h : Consistent s) (hstep : step s a = some t) :
    Consistent t := by
  cases a with
  | fetched cameras =>
    simp only [step] at hstep
    split at hstep
    · cases hstep
    · cases hstep
      exact (consistent_stops h _).of_same rfl rfl rfl
  | nextCamera =>
    simp only [step] at hstep
    split at hstep
    · cases hstep
    next cam rest _ =>
      have hrest : Consistent { s with listing := rest } := h.of_same rfl rfl rfl
      cases hstep
      split
      · exact consistent_start_or_keep hrest cam
      · exact consistent_stop_or_keep hrest cam.ID
  | start cam segmentSeconds =>
    simp only [step] at hstep
    split at hstep
    · cases hstep
      exact h
    · cases hstep
      apply consistent_start_or_keep
      split
      · exact h.of_same rfl rfl rfl
      · exact h
  | stop cameraID =>
    cases hstep
    exact consistent_stop_or_keep h cameraID
  | goroutine i move =>
    obtain ⟨g, hg, hstep⟩ := Option.bind_eq_some_iff.mp hstep
    obtain ⟨⟨phase, stopped⟩, hgo, rfl⟩ := Option.map_eq_some_iff.mp hstep
    exact consistent_goroutine h hg hgo

theorem consistent_reach {G : Worker → Label → Prop} (h : Reach recordings G s) : Consistent s := by
  refine h.invariant (I := Consistent) ?_ ?_
  · rintro s rfl
    exact consistent_init
  · intro s a t hs _ hstep
    exact consistent_step hs hstep

/-! ## Whom a goroutine cancels -/

/-- No goroutine finds its camera disabled, or fails, when its own context has been cancelled and
another recording of the camera has been started. -/
def NotReplaced (s : Worker) : Label → Prop
  | .goroutine i .decide => ∀ g currentCam, s.goroutines[i]? = some g →
    g.phase = .checked currentCam → cameraIsEnabled currentCam = false → g.cancelled = true →
      g.cam.ID ∉ s.activeRecordings
  | .goroutine i .crash => ∀ g, s.goroutines[i]? = some g → g.phase ≠ .ended →
    g.cancelled = true → g.cam.ID ∉ s.activeRecordings
  | _ => True

/-- Each goroutine that has cancelled one has cancelled itself. -/
def Own (cancels : List (Option ℕ × ℕ)) : Prop := ∀ i j, (some i, j) ∈ cancels → i = j

theorem own_stop (h : Own s.cancels) (cameraID : String) :
    Own (stopRecordingLocked none s cameraID).cancels := by
  obtain ⟨-, -, hsame⟩ | ⟨k, -, -, hcons⟩ := stopRecordingLocked_cases none s cameraID
  · rw [hsame]
    exact h
  · rw [hcons]
    intro i j hmem
    obtain heq | hold := List.mem_cons.mp hmem
    · cases heq
    · exact h i j hold

theorem own_stops (h : Own s.cancels) (gone : List String) :
    Own (gone.foldl (stopRecordingLocked none) s).cancels := by
  induction gone generalizing s with
  | nil => exact h
  | cons cameraID gone ih => exact ih (own_stop h cameraID)

theorem own_goroutine (hs : Consistent s) (h : Own s.cancels) (hg : s.goroutines[i]? = some g)
    (hown : NotReplaced s (.goroutine i move))
    (hgo : goOn s g move = some (phase, stopped)) :
    Own (goroutineStep s i phase stopped).cancels := by
  have habout := hs.about g (List.mem_of_getElem? hg)
  obtain ⟨rfl, -⟩ | ⟨rfl, rfl, hmove⟩ := goOn_cases habout hgo
  · exact h
  · change Own (stopRecordingLocked (some i) s g.cam.ID).cancels
    obtain ⟨-, -, hsame⟩ | ⟨k, hk, -, hcons⟩ := stopRecordingLocked_cases (some i) s g.cam.ID
    · rw [hsame]
      exact h
    · -- the map has the goroutine itself, unless it has been replaced
      have hik : i = k := by
        cases hcancelled : g.cancelled with
        | false =>
          have hreg := hs.registered i g hg hcancelled
          rw [hk] at hreg
          exact (Option.some.inj hreg).symm
        | true =>
          have hactive : g.cam.ID ∈ s.activeRecordings := (hs.active _).mpr (by rw [hk]; simp)
          obtain ⟨rfl, cam, hphase, hdisabled⟩ | ⟨rfl, hrunning⟩ := hmove
          · exact absurd hactive (hown g cam hg hphase hdisabled hcancelled)
          · exact absurd hactive (hown g hg hrunning hcancelled)
      rw [hcons]
      intro a b hmem
      obtain heq | hold := List.mem_cons.mp hmem
      · cases heq
        exact hik
      · exact h a b hold

theorem own_step {a : Label} (hs : Consistent s) (h : Own s.cancels) (hown : NotReplaced s a)
    (hstep : step s a = some t) : Own t.cancels := by
  cases a with
  | fetched cameras =>
    simp only [step] at hstep
    split at hstep
    · cases hstep
    · cases hstep
      exact own_stops h _
  | nextCamera =>
    simp only [step] at hstep
    split at hstep
    · cases hstep
    next cam rest _ =>
      cases hstep
      split
      · split <;> exact h
      · split
        · exact own_stop (s := { s with listing := rest }) h cam.ID
        · exact h
  | start cam segmentSeconds =>
    simp only [step] at hstep
    split at hstep
    · cases hstep
      exact h
    · cases hstep
      split <;> split <;> exact h
  | stop cameraID =>
    cases hstep
    split
    · exact own_stop h cameraID
    · exact h
  | goroutine i move =>
    obtain ⟨g, hg, hstep⟩ := Option.bind_eq_some_iff.mp hstep
    obtain ⟨⟨phase, stopped⟩, hgo, rfl⟩ := Option.map_eq_some_iff.mp hstep
    exact own_goroutine hs h hg hown hgo

/-! ## The life cycle -/

/-- The goroutine records, or is about to: its context is not cancelled. -/
def Recording (s : Worker) (i : ℕ) (cameraID : String) : Prop :=
  ∃ g, s.goroutines[i]? = some g ∧ g.cam.ID = cameraID ∧ g.cancelled = false

theorem recordings_consistent {G : Worker → Label → Prop} (h : Reach recordings G s) :
    (∀ cameraID i j, Recording s i cameraID → Recording s j cameraID → i = j) ∧
      ∀ cameraID, cameraID ∈ s.activeRecordings ↔ ∃ i, Recording s i cameraID := by
  have hs := consistent_reach h
  refine ⟨?_, ?_⟩
  · rintro cameraID i j ⟨g, hg, rfl, hcancelled⟩ ⟨g', hg', hid, hcancelled'⟩
    have hi := hs.registered i g hg hcancelled
    have hj := hs.registered j g' hg' hcancelled'
    rw [hid, hi] at hj
    exact Option.some.inj hj
  · intro cameraID
    rw [hs.active]
    constructor
    · intro hsome
      obtain ⟨i, hi⟩ := Option.ne_none_iff_exists'.mp hsome
      obtain ⟨g, hg, hid, hcancelled, -⟩ := hs.held cameraID i hi
      exact ⟨i, g, hg, hid, hcancelled⟩
    · rintro ⟨i, g, hg, rfl, hcancelled⟩
      rw [hs.registered i g hg hcancelled]
      simp

/-- **The life cycle of the recordings**, where no goroutine that has been replaced stops the
recording of its camera. -/
theorem recordings_own (h : Reach recordings NotReplaced s) :
    (∀ cameraID i j, Recording s i cameraID → Recording s j cameraID → i = j) ∧
      (∀ cameraID, cameraID ∈ s.activeRecordings ↔ ∃ i, Recording s i cameraID) ∧
      Own s.cancels := by
  have hboth : Consistent s ∧ Own s.cancels := by
    refine h.invariant (I := fun s => Consistent s ∧ Own s.cancels) ?_ ?_
    · rintro s rfl
      exact ⟨consistent_init, fun i j hmem => by cases hmem⟩
    · intro s a t hs hown hstep
      exact ⟨consistent_step hs.1 hstep, own_step hs.1 hs.2 hown hstep⟩
  exact ⟨(recordings_consistent h).1, (recordings_consistent h).2, hboth.2⟩

/-! ## One camera, switched off and on -/

def gate : Camera := { ID := "gate" }

def gateOff : Camera := { gate with Enabled := some false }

/-- The goroutine reads that its camera is disabled, and stops itself. -/
def switchedOff : List Label := [.start gate 300, .goroutine 0 (.refresh (some gateOff)),
  .goroutine 0 .check, .goroutine 0 .decide]

def switchedOnAgain : List Label := [.start gate 300, .goroutine 0 (.refresh (some gateOff)),
  .stop "gate", .start gate 300, .goroutine 0 .check, .goroutine 0 .decide]

def isOwnContext (s : Worker) : Label → Bool
  | .goroutine i _ => (s.goroutines[i]?).all fun g => !g.cancelled
  | _ => true

theorem notReplaced_of_isOwnContext (s : Worker) (a : Label) (h : isOwnContext s a = true) :
    NotReplaced s a := by
  cases a with
  | goroutine i move =>
    have hown : ∀ g, s.goroutines[i]? = some g → g.cancelled = true → False := by
      intro g hg hcancelled
      rw [isOwnContext, hg, Option.all_some, hcancelled] at h
      cases h
    cases move with
    | decide => exact fun g _ hg _ _ hcancelled => (hown g hg hcancelled).elim
    | crash => exact fun g hg _ hcancelled => (hown g hg hcancelled).elim
    | _ => trivial
  | _ => trivial

theorem recordings_own_gate : ∃ s, recordings.run isOwnContext {} switchedOff = some s ∧
    s.cancels = [(some 0, 0)] ∧ Own s.cancels := by
  have hrun : (recordings.run isOwnContext {} switchedOff).map (·.cancels) = some [(some 0, 0)] := by
    decide
  obtain ⟨s, hs, hcancels⟩ := Option.map_eq_some_iff.mp hrun
  have hreach : Reach recordings NotReplaced s :=
    ⟨_, rfl, path_of_run notReplaced_of_isOwnContext _ hs⟩
  exact ⟨s, hs, hcancels, (recordings_own hreach).2.2⟩

/-- The goroutine of the first recording cancels the second one. -/
theorem stale_answer_cancels : ¬ ∀ s, Reach recordings Always s → Own s.cancels := by
  intro h
  have hrun : (recordings.run anyStep {} switchedOnAgain).map (·.cancels) =
      some [(some 0, 1), (none, 0)] := by decide
  obtain ⟨s, hreach, hcancels⟩ := reach_of_anyStep hrun rfl
  have hown := h s hreach
  rw [hcancels] at hown
  exact absurd (hown 0 1 List.mem_cons_self) (by decide)

end Drac.CameraWorker
