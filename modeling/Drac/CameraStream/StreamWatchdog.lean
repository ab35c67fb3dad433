import Drac.CameraStream.RecoveryBrake
import Drac.Lib.Runs

/-
  The watchdog of stuck paths.

  Correspondence (`mediamtx-proxy.service.ts` ↔ Lean):
    streamWatchdogTick      ↔ `observe` (its loop over a listing) and the label `finish`
    recoverStuckPaths       ↔ the label `slice`, four paths at a time
    recoverStuckPath        ↔ the same name, up to its first `await`; its `finally` is `settle`
    cameraIdFromPathName    ↔ the same name

  A tick waits for its recoveries, and the next ones come while it waits. So ticks are a list,
  and between their steps anything may happen, at any later time. Whether a path could be made
  again changes nothing here; it shows in the listings to come.
-/

namespace Drac.CameraStream.Watchdog

open Runs

def WATCHDOG_BAD_TICKS : ℕ := 3

def CONCURRENCY : ℕ := 4

/-- What the watchdog remembers of a path. -/
structure Watch where
  lastBytes : ℤ := -1
  badTicks : ℕ := 0
  deriving DecidableEq

/-- A path as the server lists it. -/
structure Item where
  name : String
  ready : Bool
  readers : ℤ
  bytesReceived : ℤ
  deriving DecidableEq

inductive LiveViewMode where
  | selected
  | grid
  | original
  deriving DecidableEq

def isHex (c : Char) : Bool :=
  ('0' ≤ c && c ≤ '9') || ('a' ≤ c && c ≤ 'f') || ('A' ≤ c && c ≤ 'F')

/-- `^cam_([0-9a-fA-F]{32})(_grid|_orig)?$`; the camera is its hexadecimal digits. -/
def cameraIdFromPathName (pathName : String) : Option (List Char × LiveViewMode) :=
  let rest := pathName.toList.drop 4
  let digits := rest.take 32
  let suffix := rest.drop 32
  if !"cam_".toList.isPrefixOf pathName.toList || digits.length < 32 || !digits.all isHex then none
  else if suffix = [] then some (digits, .selected)
  else if suffix = "_grid".toList then some (digits, .grid)
  else if suffix = "_orig".toList then some (digits, .original)
  else none

/-- A tick that is under way: the names of its listing, and the stuck paths that it has still to
recover and is recovering. -/
structure Tick where
  seen : List String
  queue : List String
  pending : List String := []

/-- The watchdog between ticks. -/
structure Service where
  now : ℕ := 0
  watchdogState : String → Option Watch := fun _ => none
  /-- The entries of `recoveryBrake`, with what has happened to each path. -/
  records : String → Record := fun _ => {}
  recoveringPaths : List String := []
  ticks : List Tick := []

/-! ## A listing -/

/-- One tick, in the middle of its listing. -/
structure Scan where
  watchdogState : String → Option Watch
  records : String → Record
  seen : List String := []
  stuck : List String := []

/-- The source is not ready, or has sent nothing new; the first observation never counts. -/
def noProgress (prev : Watch) (item : Item) : Bool :=
  if prev.lastBytes < 0 then false
  else if item.ready then item.bytesReceived ≤ prev.lastBytes else true

def provesProgress (prev : Watch) (item : Item) : Bool :=
  0 ≤ prev.lastBytes && item.ready && prev.lastBytes < item.bytesReceived

def watchItem (now : ℕ) (scan : Scan) (item : Item) : Scan :=
  if !"cam_".toList.isPrefixOf item.name.toList then scan
  else
    let scan := { scan with seen := scan.seen ++ [item.name] }
    if item.readers ≤ 0 then
      { scan with watchdogState := Function.update scan.watchdogState item.name none }
    else
      let prev := (scan.watchdogState item.name).getD {}
      let badTicks := if noProgress prev item then prev.badTicks + 1 else 0
      let scan := if provesProgress prev item then
          { scan with
            records := Function.update scan.records item.name
              ((scan.records item.name).progress now) }
        else scan
      if WATCHDOG_BAD_TICKS ≤ badTicks then
        { scan with
          watchdogState := Function.update scan.watchdogState item.name none
          stuck := scan.stuck ++ [item.name] }
      else
        { scan with
          watchdogState := Function.update scan.watchdogState item.name
            (some ⟨item.bytesReceived, badTicks⟩) }

def observe (now : ℕ) (s : Service) (items : List Item) : Scan :=
  items.foldl (watchItem now) { watchdogState := s.watchdogState, records := s.records }

/-! ## Recoveries -/

/-- Is a recovery under way now? -/
def recoverStuckPath (now : ℕ) (s : Service) (pathName : String) : Bool × Service :=
  if (cameraIdFromPathName pathName).isNone then (false, s)
  else if pathName ∈ s.recoveringPaths then (false, s)
  else
    let asked := (s.records pathName).attempt now
    let s := { s with records := Function.update s.records pathName asked.2 }
    if asked.1 then (true, { s with recoveringPaths := pathName :: s.recoveringPaths })
    else (false, s)

def recoverSlice (now : ℕ) : Service → List String → List String × Service
  | s, [] => ([], s)
  | s, name :: names =>
    let one := recoverStuckPath now s name
    let rest := recoverSlice now one.2 names
    (if one.1 then name :: rest.1 else rest.1, rest.2)

inductive Label where
  | list (items : List Item) (at_ : ℕ)
  | slice (tick : ℕ) (at_ : ℕ)
  | settle (tick : ℕ) (path : String)
  /-- The recoveries of a tick have ended; paths that are not in its listing are forgotten. -/
  | finish (tick : ℕ) (at_ : ℕ)

def step (s : Service) : Label → Option Service
  | .list items at_ =>
    if at_ < s.now then none
    else
      let scan := observe at_ s items
      some { s with
        now := at_
        watchdogState := scan.watchdogState
        records := scan.records
        ticks := s.ticks ++ [⟨scan.seen, scan.stuck, []⟩] }
  | .slice i at_ =>
    (s.ticks[i]?).bind fun tick =>
      if at_ < s.now || tick.pending ≠ [] || tick.queue = [] then none
      else
        let slice := recoverSlice at_ { s with now := at_ } (tick.queue.take CONCURRENCY)
        some { slice.2 with
          ticks := s.ticks.set i
            { tick with queue := tick.queue.drop CONCURRENCY, pending := slice.1 } }
  | .settle i path =>
    (s.ticks[i]?).bind fun tick =>
      if path ∉ tick.pending then none
      else some { s with
        recoveringPaths := s.recoveringPaths.filter (· ≠ path)
        ticks := s.ticks.set i { tick with pending := tick.pending.erase path } }
  | .finish i at_ =>
    (s.ticks[i]?).bind fun tick =>
      if at_ < s.now || tick.pending ≠ [] || tick.queue ≠ [] then none
      else some { s with
        now := at_
        watchdogState := fun path => if path ∈ tick.seen then s.watchdogState path else none
        records := fun path =>
          if path ∈ tick.seen then s.records path else (s.records path).missing at_
        ticks := s.ticks.eraseIdx i }

def watchdog : Machine Service Label where
  init := fun s => s = {}
  step := step

/-! ## What the steps preserve -/

def AllSound (records : String → Record) (now : ℕ) : Prop := ∀ path, Sound (records path) now

variable {now next : ℕ} {records : String → Record}

theorem AllSound.later (h : AllSound records now) (hle : now ≤ next) : AllSound records next :=
  fun path => (h path).later hle

theorem AllSound.update (h : AllSound records now) {name : String} {r : Record} (hr : Sound r now) :
    AllSound (Function.update records name r) now := by
  intro path
  by_cases hpath : path = name
  · rw [hpath, Function.update_self]
    exact hr
  · rw [Function.update_of_ne hpath]
    exact h path

theorem watchItem_records (now : ℕ) (scan : Scan) (item : Item) :
    (watchItem now scan item).records = scan.records ∨
      (watchItem now scan item).records =
        Function.update scan.records item.name ((scan.records item.name).progress now) := by
  unfold watchItem
  dsimp only
  split_ifs <;> simp

theorem watchItem_sound {scan : Scan} (h : AllSound scan.records now) (item : Item) :
    AllSound (watchItem now scan item).records now := by
  obtain hsame | hprogress := watchItem_records now scan item
  · rw [hsame]
    exact h
  · rw [hprogress]
    exact h.update (clear_sound (h item.name) rfl rfl)

theorem watchItems_sound {scan : Scan} (h : AllSound scan.records now) (items : List Item) :
    AllSound (items.foldl (watchItem now) scan).records now := by
  induction items generalizing scan with
  | nil => exact h
  | cons item items ih => exact ih (watchItem_sound h item)

theorem recoverStuckPath_sound {s : Service} (h : AllSound s.records now) (pathName : String) :
    AllSound (recoverStuckPath now s pathName).2.records now := by
  have hattempt : AllSound
      (Function.update s.records pathName ((s.records pathName).attempt now).2) now :=
    h.update (attempt_sound (h pathName))
  unfold recoverStuckPath
  dsimp only
  split
  · exact h
  · split
    · exact h
    · split
      · exact hattempt
      · exact hattempt

theorem recoverSlice_sound {s : Service} (h : AllSound s.records now) (names : List String) :
    AllSound (recoverSlice now s names).2.records now := by
  induction names generalizing s with
  | nil => exact h
  | cons name names ih => exact ih (recoverStuckPath_sound h name)

theorem recoverStuckPath_now (s : Service) (pathName : String) :
    (recoverStuckPath now s pathName).2.now = s.now := by
  unfold recoverStuckPath
  dsimp only
  split
  · rfl
  · split
    · rfl
    · split <;> rfl

theorem recoverSlice_now (s : Service) (names : List String) :
    (recoverSlice now s names).2.now = s.now := by
  induction names generalizing s with
  | nil => rfl
  | cons name names ih => exact (ih _).trans (recoverStuckPath_now s name)

/-- **Every step keeps the entries sound.** -/
theorem step_sound {s t : Service} {a : Label} (h : AllSound s.records s.now)
    (hstep : step s a = some t) : AllSound t.records t.now := by
  cases a with
  | list items at_ =>
    unfold step at hstep
    dsimp only at hstep
    split at hstep
    · cases hstep
    next hlater =>
      cases hstep
      exact watchItems_sound (h.later (not_lt.mp hlater)) items
  | slice i at_ =>
    obtain ⟨tick, -, hstep⟩ := Option.bind_eq_some_iff.mp hstep
    split at hstep
    · cases hstep
    next hguard =>
      simp only [Bool.or_eq_true, decide_eq_true_eq, not_or] at hguard
      cases hstep
      dsimp only
      rw [recoverSlice_now]
      exact recoverSlice_sound (s := { s with now := at_ }) (h.later (not_lt.mp hguard.1.1)) _
  | settle i path =>
    obtain ⟨tick, -, hstep⟩ := Option.bind_eq_some_iff.mp hstep
    split at hstep
    · cases hstep
    · cases hstep
      exact h
  | finish i at_ =>
    obtain ⟨tick, -, hstep⟩ := Option.bind_eq_some_iff.mp hstep
    split at hstep
    · cases hstep
    next hguard =>
      simp only [Bool.or_eq_true, decide_eq_true_eq, not_or] at hguard
      cases hstep
      have hlater := h.later (not_lt.mp hguard.1.1)
      intro path
      dsimp only
      split
      · exact hlater path
      · exact clear_sound (hlater path) rfl rfl

/-- **The watchdog keeps to the brake**, on every path and in every run. -/
theorem brake_disciplined {t : Service} (h : Reach watchdog Always t) (path : String) :
    Disciplined (t.records path).log := by
  have hsound : AllSound t.records t.now := by
    refine h.invariant (I := fun s => AllSound s.records s.now) ?_ ?_
    · rintro s rfl path
      exact sound_init
    · intro s a u hs _ hstep
      exact step_sound hs hstep
  exact (hsound path).disciplined

/-! ## A camera that is dead -/

def dead : Item := ⟨"cam_0123456789abcdef0123456789abcdef", false, 1, 0⟩

/-- The tick at `k` times twenty seconds: the fourth one after each attempt makes the next. -/
def deadTick (k : ℕ) : List Label :=
  if k % 4 ≠ 3 then [.list [dead] (20000 * k), .finish 0 (20000 * k)]
  else if k = 23 then [.list [dead] (20000 * k), .slice 0 (20000 * k), .finish 0 (20000 * k)]
  else [.list [dead] (20000 * k), .slice 0 (20000 * k), .settle 0 dead.name, .finish 0 (20000 * k)]

def deadRun : List Label := (List.range 32).flatMap deadTick

theorem reach_run {labels : List Label} {t : Service} (h : watchdog.run anyStep {} labels = some t) :
    Reach watchdog Always t := ⟨{}, rfl, path_of_run (fun _ _ _ => trivial) labels h⟩

/-- Seven recoveries are started within ten minutes without progress: five, and two more when the
cooldown of two minutes has elapsed. -/
theorem seven_in_a_window : ¬ ∀ t, Reach watchdog Always t → ∀ path from_,
    (∀ e ∈ (t.records path).log, inWindow from_ e.time = true → ∀ at_, e ≠ .progress at_) →
      ((starts (t.records path).log).filter (inWindow from_)).length ≤ BRAKE_MAX_RECOVERIES := by
  have hrun : ((watchdog.run anyStep {} deadRun).map fun t =>
      (((starts (t.records dead.name).log).filter (inWindow 60000)).length,
        (t.records dead.name).log.all fun e => !decide (e = .progress e.time))) = some (7, true) := by
    decide +kernel
  obtain ⟨t, ht, hcount⟩ := Option.map_eq_some_iff.mp hrun
  obtain ⟨hseven, hnone⟩ := Prod.mk.inj hcount
  intro h
  have hfew := h t (reach_run ht) dead.name 60000 (by
    intro e he _ at_ heq
    have hprogress := List.all_eq_true.mp hnone e he
    rw [heq] at hprogress
    simp [Event.time] at hprogress)
  rw [hseven] at hfew
  exact absurd hfew (by decide)

/-- The dead path is kept to the brake. -/
theorem brake_disciplined_dead : ∃ t, watchdog.run anyStep {} deadRun = some t ∧
    Disciplined (t.records dead.name).log := by
  have hrun : (watchdog.run anyStep {} deadRun).isSome = true := by decide +kernel
  obtain ⟨t, ht⟩ := Option.isSome_iff_exists.mp hrun
  exact ⟨t, ht, brake_disciplined (reach_run ht) dead.name⟩

end Drac.CameraStream.Watchdog
