import Drac.Lib.Runs

/-
  The ring of the seconds before an event, of one camera.

  `startPreBuffer` looks at the map, awaits the row of the camera, and stores the process it
  spawned without looking again: two calls that overlap there leave a ring that nobody can
  stop (`takes_overlap`). And it does not look whether the camera was disarmed meanwhile.
  `Alone` excludes both by the state in which a call comes back from its lookup; in every run
  whose steps meet it there is one ring, the one stored, and none after a disarming
  (`one_ring`).

  Correspondence (`recording-process-manager.service.ts` ↔ Lean):
    startPreBuffer                 ↔ `startPreBuffer` up to its await, `spawnRing` after it
    stopPreBuffer                  ↔ `stopPreBuffer`
    setMotionRecording             ↔ `Label.setMotionRecording`, `Call.arm`, `Call.disarm`
    stopMotionRecordingAfterQuiet  ↔ `Label.afterQuiet`, `Call.afterQuiet`
    the handlers of a ring's exit  ↔ `Label.exits`

  A call is taken from one await to the next. What an await returns is in the label: `ok` is
  false where the callee throws, and where a look at the camera finds it gone or disabled.
  What else changes the row of the camera is open. The files of the ring are left out.
-/

namespace Drac.Recordings.PreBuffer

open Runs

/-- A ring that was killed is on its way out: the kill is repeated until it is gone. -/
inductive Ring where
  | running
  | killed
  | gone
  deriving DecidableEq, Repr

/-- What `setMotionRecording` awaits. -/
inductive SetPc where
  | checking
  | stopping
  | updating
  deriving DecidableEq, Repr

inductive QuietPc where
  | reading
  /-- The lookup of its `startPreBuffer`. -/
  | starting
  | stopping
  deriving DecidableEq, Repr

/-- A call under way, with what it has begun. -/
inductive Call where
  | start
  | arm (pc : SetPc)
  /-- `last`: no ring has been asked for since. -/
  | disarm (pc : SetPc) (last : Bool)
  | afterQuiet (pc : QuietPc)
  | finished
  deriving DecidableEq, Repr

structure Settings where
  preEventSeconds : Int
  /-- `controlMode` is `local`. -/
  isLocal : Bool

/-- The rings of a camera, and the calls under way. -/
structure Buffer where
  /-- All rings spawned; a ring is known by its place. -/
  rings : List Ring := []
  /-- The ring in `preBufferProcs`. -/
  stored : Option Nat := none
  calls : List Call := []
  /-- `recordingMode` is `motion`. -/
  motion : Bool := false
  recordingEnabled : Bool := false
  /-- The last request was to disarm, and its call has stopped the ring. -/
  off : Bool := false
  /-- And the call has returned. -/
  disarmed : Bool := false

def setCall (b : Buffer) (i : Nat) (call : Call) : Buffer :=
  { b with calls := b.calls.set i call }

/-- A ring is asked for: no disarming before counts any more. -/
def request (b : Buffer) : Buffer :=
  { b with
    calls := b.calls.map fun call =>
      match call with
      | .disarm pc _ => .disarm pc false
      | call => call
    off := false
    disarmed := false }

/-- The first part of `startPreBuffer`: whether it goes on to look the camera up. -/
def startPreBuffer (c : Settings) (b : Buffer) (ffmpegAvailable : Bool) : Bool :=
  0 < c.preEventSeconds && c.isLocal && b.stored.isNone && ffmpegAvailable

/-- And the second. -/
def spawnRing (b : Buffer) (ok : Bool) : Buffer :=
  if ok then { b with rings := b.rings ++ [.running], stored := some b.rings.length } else b

def stopPreBuffer (b : Buffer) : Buffer :=
  match b.stored with
  | none => b
  | some ring => { b with rings := b.rings.set ring .killed, stored := none }

inductive Label where
  /-- A start from elsewhere: at boot, or where a recording could not be started. -/
  | startPreBuffer (ffmpegAvailable : Bool)
  | stopPreBuffer
  | setMotionRecording (enabled : Bool)
  /-- The timer of the post-roll fires. -/
  | afterQuiet
  /-- What the call awaits is there. -/
  | advance (i : Nat) (ok ffmpegAvailable : Bool)
  | exits (ring : Nat)
  /-- `recordingEnabled` is set, by a recording that starts or stops. -/
  | setEnabled (enabled : Bool)
  /-- The mode is set by the start or the stop of a recording. -/
  | setMode (motion : Bool)

def advance (c : Settings) (b : Buffer) (i : Nat) (ok ffmpegAvailable : Bool) :
    Call → Option Buffer
  | .start => some (setCall (spawnRing b ok) i .finished)
  | .arm .checking => some (setCall b i (if ok then .arm .stopping else .finished))
  -- an error of `stop` is caught
  | .arm .stopping => some (setCall b i (.arm .updating))
  | .arm .updating =>
    if ok then
      let b := { b with motion := true, recordingEnabled := false }
      some (setCall b i (if startPreBuffer c b ffmpegAvailable then .start else .finished))
    else some (setCall b i .finished)
  | .disarm .checking last =>
    some (setCall b i (if ok then .disarm .stopping last else .finished))
  | .disarm .stopping last =>
    let b := stopPreBuffer b
    some (setCall { b with off := b.off || last } i (.disarm .updating last))
  | .disarm .updating last =>
    if ok then
      some (setCall { b with
        motion := false, recordingEnabled := false, disarmed := b.disarmed || last } i .finished)
    else some (setCall b i .finished)
  | .afterQuiet .reading =>
    if ok && b.motion && b.recordingEnabled then
      some (setCall b i (.afterQuiet
        (if startPreBuffer c b ffmpegAvailable then .starting else .stopping)))
    else some (setCall b i .finished)
  | .afterQuiet .starting => some (setCall (spawnRing b ok) i (.afterQuiet .stopping))
  | .afterQuiet .stopping => some (setCall b i .finished)
  | .finished => none

def step (c : Settings) (b : Buffer) : Label → Option Buffer
  | .startPreBuffer ffmpegAvailable =>
    let b := request b
    if startPreBuffer c b ffmpegAvailable then some { b with calls := b.calls ++ [.start] }
    else some b
  | .stopPreBuffer => some (stopPreBuffer b)
  | .setMotionRecording true =>
    let b := request b
    some { b with calls := b.calls ++ [.arm .checking] }
  | .setMotionRecording false => some { b with calls := b.calls ++ [.disarm .checking true] }
  | .afterQuiet => some { b with calls := b.calls ++ [.afterQuiet .reading] }
  | .advance i ok ffmpegAvailable =>
    (b.calls[i]?).bind fun call => advance c b i ok ffmpegAvailable call
  | .exits ring =>
    if ring < b.rings.length then
      some { b with
        rings := b.rings.set ring .gone
        stored := if b.stored = some ring then none else b.stored }
    else none
  | .setEnabled enabled => some { b with recordingEnabled := enabled }
  | .setMode motion =>
    let b := if motion then request b else b
    some { b with motion := motion }

/-- A camera without rings or calls. -/
def preBuffer (c : Settings) : Machine Buffer Label where
  init b := ∃ motion recordingEnabled, b = { motion, recordingEnabled }
  step := step c

/-! ## The property and the condition -/

/-- One ring, which is stored; and none once a call that disarms has returned, no ring was asked
for since, and no call is in flight. -/
structure OneRing (b : Buffer) : Prop where
  single : ∀ i j : Nat, b.rings[i]? = some .running → b.rings[j]? = some .running → i = j
  stored : ∀ i : Nat, b.rings[i]? = some .running → b.stored = some i
  disarmed : b.disarmed = true → (∀ call ∈ b.calls, call = .finished) →
    ∀ i : Nat, b.rings[i]? ≠ some .running

def spawns (b : Buffer) : Label → Bool
  | .advance i ok _ =>
    ok && (b.calls[i]?).any fun call => call = .start || call = .afterQuiet .starting
  | _ => false

/-- A ring is spawned only where none is stored, and the camera is not disarmed. -/
def alone (b : Buffer) (a : Label) : Bool := !spawns b a || b.stored.isNone && !b.off

def Alone (b : Buffer) (a : Label) : Prop := alone b a = true

/-! ## Every run -/

/-- A live ring is the one stored, and none is where none is wanted. -/
structure Kept (b : Buffer) : Prop where
  stored : ∀ i : Nat, b.rings[i]? = some .running → b.stored = some i
  off : b.off = true → b.stored = none
  disarmed : b.disarmed = true → b.off = true
  last : ∀ call ∈ b.calls, call = .disarm .updating true → b.off = true

variable {c : Settings} {b t : Buffer}

theorem Kept.setCall (h : Kept b) {i : Nat} {call : Call} (hcall : call ≠ .disarm .updating true) :
    Kept (setCall b i call) := by
  refine { h with last := fun other hother heq => ?_ }
  cases List.mem_or_eq_of_mem_set hother with
  | inl hin => exact h.last other hin heq
  | inr hnew => exact absurd (hnew.symm.trans heq) hcall

theorem Kept.addCall (h : Kept b) {call : Call} (hcall : call ≠ .disarm .updating true) :
    Kept { b with calls := b.calls ++ [call] } := by
  refine { h with last := fun other hother heq => ?_ }
  cases List.mem_append.mp hother with
  | inl hin => exact h.last other hin heq
  | inr hnew => exact absurd ((List.mem_singleton.mp hnew).symm.trans heq) hcall

theorem Kept.request (h : Kept b) : Kept (request b) := by
  refine ⟨h.stored, nofun, nofun, ?_⟩
  intro call hcall heq
  obtain ⟨old, -, rfl⟩ := List.mem_map.mp hcall
  split at heq
  · cases heq
  · next hother => exact absurd heq (hother _ _)

theorem Kept.spawnRing (h : Kept b) {ok : Bool}
    (hfree : ok = true → b.stored = none ∧ b.off = false) :
    Kept (spawnRing b ok) := by
  unfold PreBuffer.spawnRing
  split
  · next hok =>
    obtain ⟨hnone, hoff⟩ := hfree hok
    refine { h with stored := fun i hi => ?_, off := fun hcontra => ?_ }
    · obtain hold | ⟨rfl, -⟩ := getElem?_concat_some hi
      · have hstored := h.stored i hold
        rw [hnone] at hstored
        cases hstored
      · rfl
    · rw [hoff] at hcontra
      cases hcontra
  · exact h

theorem stopPreBuffer_stored (b : Buffer) : (stopPreBuffer b).stored = none := by
  unfold stopPreBuffer
  split
  · next hnone => exact hnone
  · rfl

theorem Kept.stopPreBuffer (h : Kept b) : Kept (stopPreBuffer b) := by
  unfold PreBuffer.stopPreBuffer
  split
  · exact h
  · next ring hring =>
    refine { h with stored := fun i hi => ?_, off := fun _ => rfl }
    obtain ⟨-, hkilled⟩ | ⟨hne, hold⟩ := getElem?_set_some hi
    · cases hkilled
    · have hstored := h.stored i hold
      rw [hring] at hstored
      exact absurd (Option.some.inj hstored).symm hne

theorem Kept.none_running (h : Kept b) (hnone : b.stored = none) (i : Nat) :
    b.rings[i]? ≠ some .running := by
  intro hi
  have hstored := h.stored i hi
  rw [hnone] at hstored
  cases hstored

theorem Kept.advance (h : Kept b) {i : Nat} {ok ffmpegAvailable : Bool} {call : Call}
    (hget : b.calls[i]? = some call) (halone : Alone b (.advance i ok ffmpegAvailable))
    (hstep : advance c b i ok ffmpegAvailable call = some t) : Kept t := by
  have hfree : call = .start ∨ call = .afterQuiet .starting → ok = true →
      b.stored = none ∧ b.off = false := by
    intro hcall hok
    have hspawns : spawns b (.advance i ok ffmpegAvailable) = true := by
      simpa [spawns, hget, hok] using hcall
    simpa [Alone, alone, hspawns] using halone
  have hrow : ∀ motion, Kept { b with motion := motion, recordingEnabled := false } :=
    fun _ => ⟨h.stored, h.off, h.disarmed, h.last⟩
  cases call with
  | start =>
    cases hstep
    exact (h.spawnRing (hfree (.inl rfl))).setCall nofun
  | arm pc =>
    cases pc with
    | checking => cases hstep; exact h.setCall (by split <;> exact nofun)
    | stopping => cases hstep; exact h.setCall nofun
    | updating =>
      simp only [PreBuffer.advance] at hstep
      split at hstep
      · cases hstep; exact (hrow true).setCall (by split <;> exact nofun)
      · cases hstep; exact h.setCall nofun
  | disarm pc last =>
    cases pc with
    | checking => cases hstep; exact h.setCall (by split <;> exact nofun)
    | stopping =>
      cases hstep
      have hstop := h.stopPreBuffer
      refine ⟨hstop.stored, fun _ => stopPreBuffer_stored b, fun hd => ?_, fun other hother heq => ?_⟩
      · exact Bool.or_eq_true_iff.mpr (.inl (hstop.disarmed hd))
      · cases List.mem_or_eq_of_mem_set hother with
        | inl hin => exact Bool.or_eq_true_iff.mpr (.inl (hstop.last other hin heq))
        | inr hnew =>
          rw [hnew, Call.disarm.injEq] at heq
          exact Bool.or_eq_true_iff.mpr (.inr heq.2)
    | updating =>
      simp only [PreBuffer.advance] at hstep
      split at hstep
      · cases hstep
        have hlast : Kept { b with
            motion := false, recordingEnabled := false, disarmed := b.disarmed || last } := by
          refine ⟨h.stored, h.off, fun hd => ?_, h.last⟩
          cases Bool.or_eq_true_iff.mp hd with
          | inl hold => exact h.disarmed hold
          | inr hlast => exact h.last _ (List.mem_of_getElem? hget) (by rw [hlast])
        exact hlast.setCall nofun
      · cases hstep; exact h.setCall nofun
  | afterQuiet pc =>
    cases pc with
    | reading =>
      simp only [PreBuffer.advance] at hstep
      split at hstep <;> cases hstep <;> exact h.setCall nofun
    | starting =>
      cases hstep
      exact (h.spawnRing (hfree (.inr rfl))).setCall nofun
    | stopping => cases hstep; exact h.setCall nofun
  | finished => cases hstep

theorem Kept.step {a : Label} (h : Kept b) (halone : Alone b a)
    (hstep : step c b a = some t) : Kept t := by
  cases a with
  | startPreBuffer ffmpegAvailable =>
    simp only [PreBuffer.step] at hstep
    split at hstep
    · cases hstep; exact h.request.addCall nofun
    · cases hstep; exact h.request
  | stopPreBuffer => cases hstep; exact h.stopPreBuffer
  | setMotionRecording enabled =>
    cases enabled with
    | true => cases hstep; exact h.request.addCall nofun
    | false => cases hstep; exact h.addCall nofun
  | afterQuiet => cases hstep; exact h.addCall nofun
  | advance i ok ffmpegAvailable =>
    obtain ⟨call, hget, hadvance⟩ := Option.bind_eq_some_iff.mp hstep
    exact h.advance hget halone hadvance
  | exits ring =>
    simp only [PreBuffer.step] at hstep
    split at hstep
    · cases hstep
      refine ⟨fun i hi => ?_, fun hoff => ?_, h.disarmed, h.last⟩
      · obtain ⟨-, hgone⟩ | ⟨hne, hold⟩ := getElem?_set_some hi
        · cases hgone
        · have hstored := h.stored i hold
          simpa [hstored] using hne
      · simp [h.off hoff]
    · cases hstep
  | setEnabled enabled => cases hstep; exact ⟨h.stored, h.off, h.disarmed, h.last⟩
  | setMode motion =>
    cases motion with
    | true =>
      cases hstep
      have hrequest := h.request
      exact ⟨hrequest.stored, hrequest.off, hrequest.disarmed, hrequest.last⟩
    | false => cases hstep; exact ⟨h.stored, h.off, h.disarmed, h.last⟩

/-- In every run whose steps meet the condition one ring runs at most, the one that is stored, and
none after the camera was disarmed. -/
theorem one_ring (h : Reach (preBuffer c) Alone b) : OneRing b := by
  have hkept : Kept b := by
    refine h.invariant ?_ fun s a t hs halone hstep => hs.step halone hstep
    rintro - ⟨motion, recordingEnabled, rfl⟩
    exact ⟨by simp, nofun, nofun, by simp⟩
  refine ⟨fun i j hi hj => ?_, hkept.stored, fun hd _ => ?_⟩
  · exact Option.some.inj ((hkept.stored i hi).symm.trans (hkept.stored j hj))
  · exact hkept.none_running (hkept.off (hkept.disarmed hd))

/-! ## Runs -/

def fiveSeconds : Settings := ⟨5, true⟩

/-- The camera is armed, and the lookup of the ring it asks for is awaited. -/
def armed (i : Nat) : List Label :=
  [.setMotionRecording true, .advance i true true, .advance i true true, .advance i true true]

def disarmed (i : Nat) : List Label :=
  [.setMotionRecording false, .advance i true true, .advance i true true, .advance i true true]

theorem one_ring_disarmed : ∃ b, Reach (preBuffer fiveSeconds) Alone b ∧
    b.rings = [.killed] ∧ b.disarmed = true ∧ OneRing b := by
  have hrun : ((preBuffer fiveSeconds).run alone {}
      (armed 0 ++ ([.advance 0 true true] : List Label) ++ disarmed 1)).map
        (fun b => (b.rings, b.disarmed)) = some ([.killed], true) := by
    decide
  obtain ⟨b, hreach, hends⟩ := reach_of_run (G := Alone) hrun ⟨false, false, rfl⟩ (fun _ _ h => h)
  obtain ⟨hrings, hdisarmed⟩ := Prod.mk.inj hends
  exact ⟨b, hreach, hrings, hdisarmed, one_ring hreach⟩

/-- The camera is armed twice, and both requests find no ring in the map. -/
theorem takes_overlap : ¬ ∀ b, Reach (preBuffer fiveSeconds) Always b → OneRing b := by
  intro h
  have hrun : ((preBuffer fiveSeconds).run anyStep {}
      (armed 0 ++ armed 1 ++ ([.advance 0 true true, .advance 1 true true] : List Label))).map
        (·.rings) = some [.running, .running] := by
    decide
  obtain ⟨b, hreach, hrings⟩ := reach_of_anyStep hrun ⟨false, false, rfl⟩
  have hone := h b hreach
  exact absurd (hone.single 0 1 (by rw [hrings]; rfl) (by rw [hrings]; rfl)) (by decide)

end Drac.Recordings.PreBuffer
