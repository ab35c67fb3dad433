import Mathlib.Tactic.Linarith
import Drac.Lib.Runs

/-
  The slots in which thumbnails are generated.

  A generation takes a slot where the counter is below the limit, and else waits in a queue.
  A release takes one from the counter and wakes the first of the queue; the woken one adds
  itself to the counter when it goes on, which is later.

  Correspondence (`recordings.service.ts` ↔ Lean):
    thumbnailGenerationConcurrency   ↔ `thumbnailGenerationConcurrency`, of what the
                                       environment configures, which may be a fraction
    acquireThumbnailGenerationSlot   ↔ `acquire`, up to its await, and `resume` after it
    releaseThumbnailGenerationSlot   ↔ `release`
    ensureThumbnailGenerated         ↔ `request`, `finish`, and `forget` once it has awaited
                                       the generation

  Generations are numbered in the order they begin. What the disk answers is in the label of
  a step; what ffmpeg makes of a recording is left out.

  Between a release and the resumption of the one it woke the counter is too low by one, and a
  generation that begins then takes the slot promised to another (`slots_exceeded`). Where none
  does, the slots suffice, and in every run the counter is right and no wake-up is lost
  (`slots_bounded`).
-/

namespace Drac.Recordings.Thumbnails

open Runs

def thumbnailGenerationConcurrency (configured : ℚ) : ℚ := max 1 (min 4 configured)

/-- The counter of the slots, who waits, and the calls. -/
structure ThumbnailSlots where
  /-- `thumbnailGenerationActive`. -/
  active : ℕ := 0
  /-- `thumbnailGenerationWaiters`, the first in the queue first. -/
  waiters : List ℕ := []
  woken : List ℕ := []
  holders : List ℕ := []
  /-- `thumbnailGenerationInFlight`: recordings, and the generations awaited for them. -/
  inFlight : List (String × ℕ) := []
  begun : ℕ := 0
  /-- History: the generations woken, in order, and how many slots were released. -/
  wakeups : List ℕ := []
  releases : ℕ := 0
  deriving DecidableEq, Repr

def acquire (limit : ℚ) (n : ℕ) (s : ThumbnailSlots) : ThumbnailSlots :=
  if (s.active : ℚ) < limit then { s with active := s.active + 1, holders := s.holders ++ [n] }
  else { s with waiters := s.waiters ++ [n] }

/-- The counter does not go below zero. -/
def release (n : ℕ) (s : ThumbnailSlots) : ThumbnailSlots :=
  { s with
    active := s.active - 1
    holders := s.holders.erase n
    waiters := s.waiters.tail
    woken := s.woken ++ s.waiters.head?.toList
    wakeups := s.wakeups ++ s.waiters.head?.toList
    releases := s.releases + 1 }

/-- One step: a request, or what a call waits for. -/
inductive Label where
  /-- A thumbnail is asked for; whether it and its recording are on the disk. -/
  | request (recordingId : String) (output input : Bool)
  | finish (n : ℕ)
  | resume (n : ℕ)
  /-- The request that began a generation goes on. -/
  | forget (recordingId : String) (n : ℕ)
  deriving DecidableEq, Repr

/-- The request begins a generation of its own. -/
def begins (s : ThumbnailSlots) (recordingId : String) (output input : Bool) : Bool :=
  !output && input && (s.inFlight.lookup recordingId).isNone

def step (configured : ℚ) (s : ThumbnailSlots) : Label → Option ThumbnailSlots
  | .request recordingId output input =>
    if begins s recordingId output input then
      some { acquire (thumbnailGenerationConcurrency configured) s.begun s with
        inFlight := (recordingId, s.begun) :: s.inFlight
        begun := s.begun + 1 }
    else some s
  | .finish n => if n ∈ s.holders then some (release n s) else none
  | .resume n =>
    if n ∈ s.woken then
      some { s with active := s.active + 1, woken := s.woken.erase n, holders := s.holders ++ [n] }
    else none
  | .forget recordingId n =>
    if (recordingId, n) ∈ s.inFlight ∧ n ∉ s.holders ∧ n ∉ s.woken ∧ n ∉ s.waiters then
      some { s with inFlight := s.inFlight.filter (fun e => e.1 ≠ recordingId) }
    else none

/-- No thumbnail has been asked for. -/
def slotsMachine (configured : ℚ) : Machine ThumbnailSlots Label where
  init s := s = {}
  step := step configured

/-! ## The property -/

/-- A waiter is woken by the release that comes after those of all before it. -/
def WokenInTurn (configured : ℚ) (s : ThumbnailSlots) : Prop :=
  ∀ (k n : ℕ), s.waiters[k]? = some n →
    ∀ t, Path (slotsMachine configured) Always s t →
      (t.releases ≤ s.releases + k → t.waiters[s.releases + k - t.releases]? = some n) ∧
      (s.releases + k < t.releases → n ∈ t.wakeups)

/-- What the slots promise: no more generations than the limit, a counter that says how many
there are, and that a waiter is woken: someone is to release a slot, or to take one that was
released, and every release wakes the first that waits. -/
structure Promised (configured : ℚ) (s : ThumbnailSlots) : Prop where
  bounded : (s.holders.length : ℚ) ≤ thumbnailGenerationConcurrency configured
  counted : s.woken = [] → s.active = s.holders.length
  awaited : s.waiters ≠ [] → s.holders ≠ [] ∨ s.woken ≠ []
  inTurn : WokenInTurn configured s

/-- A generation that begins with a slot leaves slots for those already woken. -/
def leavesSlots (configured : ℚ) (s : ThumbnailSlots) : Label → Bool
  | .request recordingId output input =>
    !(begins s recordingId output input) ||
      !((s.active : ℚ) < thumbnailGenerationConcurrency configured) ||
      (s.active + s.woken.length + 1 : ℚ) ≤ thumbnailGenerationConcurrency configured
  | _ => true

def LeavesSlots (configured : ℚ) (s : ThumbnailSlots) (a : Label) : Prop :=
  leavesSlots configured s a = true

/-! ## The counter -/

/-- What every step keeps: the counter says how many generations have a slot, and the first
that waits has someone to wait for. -/
structure Counted (s : ThumbnailSlots) : Prop where
  active : s.active = s.holders.length
  awaited : s.waiters ≠ [] → s.holders ≠ [] ∨ s.woken ≠ []

variable {configured : ℚ} {s t : ThumbnailSlots}

theorem one_le_limit (configured : ℚ) : 1 ≤ thumbnailGenerationConcurrency configured :=
  le_max_left _ _

theorem acquire_counted (configured : ℚ) (n : ℕ) (h : Counted s) :
    Counted (acquire (thumbnailGenerationConcurrency configured) n s) := by
  unfold acquire
  split
  · refine ⟨?_, fun _ => .inl (by simp)⟩
    show s.active + 1 = (s.holders ++ [n]).length
    rw [h.active, List.length_append, List.length_singleton]
  · next hfull =>
    refine ⟨h.active, fun _ => .inl ?_⟩
    -- the limit is at least one, so someone has a slot
    intro hnone
    have hzero : s.active = 0 := by
      rw [h.active]
      exact congrArg List.length hnone
    have hone := one_le_limit configured
    rw [hzero] at hfull
    exact hfull (by push_cast; linarith)

theorem release_counted {n : ℕ} (hn : n ∈ s.holders) (h : Counted s) : Counted (release n s) := by
  refine ⟨?_, ?_⟩
  · show s.active - 1 = (s.holders.erase n).length
    rw [h.active, List.length_erase_of_mem hn]
  · intro hwait
    refine .inr ?_
    show s.woken ++ s.waiters.head?.toList ≠ []
    cases hwaiters : s.waiters with
    | nil =>
      have htail : (release n s).waiters = s.waiters.tail := rfl
      rw [htail, hwaiters] at hwait
      exact absurd rfl hwait
    | cons w ws => simp

theorem step_counted {a : Label} (h : Counted s) (hstep : step configured s a = some t) :
    Counted t := by
  cases a with
  | request recordingId output input =>
    simp only [step] at hstep
    split at hstep
    · cases hstep
      have hacquire := acquire_counted configured s.begun h
      exact ⟨hacquire.active, hacquire.awaited⟩
    · cases hstep
      exact h
  | finish n =>
    simp only [step] at hstep
    split at hstep
    · next hn =>
      cases hstep
      exact release_counted hn h
    · cases hstep
  | resume n =>
    simp only [step] at hstep
    split at hstep
    · cases hstep
      refine ⟨?_, fun _ => .inl (by simp)⟩
      show s.active + 1 = (s.holders ++ [n]).length
      rw [h.active, List.length_append, List.length_singleton]
    · cases hstep
  | forget recordingId n =>
    simp only [step] at hstep
    split at hstep
    · cases hstep
      exact ⟨h.active, h.awaited⟩
    · cases hstep

/-! ## The queue -/

theorem step_queue {a : Label} (hstep : step configured s a = some t) :
    (∃ more, t.waiters = s.waiters ++ more ∧ t.releases = s.releases ∧ t.wakeups = s.wakeups) ∨
      (t.waiters = s.waiters.tail ∧ t.releases = s.releases + 1 ∧
        t.wakeups = s.wakeups ++ s.waiters.head?.toList) := by
  have hsame : t.waiters = s.waiters → t.releases = s.releases → t.wakeups = s.wakeups →
      ∃ more, t.waiters = s.waiters ++ more ∧ t.releases = s.releases ∧ t.wakeups = s.wakeups :=
    fun hwaiters hreleases hwakeups =>
      ⟨[], by rw [hwaiters, List.append_nil], hreleases, hwakeups⟩
  cases a with
  | request recordingId output input =>
    simp only [step] at hstep
    split at hstep
    · cases hstep
      unfold acquire
      split
      · exact .inl ⟨[], (List.append_nil _).symm, rfl, rfl⟩
      · exact .inl ⟨[s.begun], rfl, rfl, rfl⟩
    · cases hstep
      exact .inl (hsame rfl rfl rfl)
  | finish n =>
    simp only [step] at hstep
    split at hstep
    · cases hstep
      exact .inr ⟨rfl, rfl, rfl⟩
    · cases hstep
  | resume n =>
    simp only [step] at hstep
    split at hstep
    · cases hstep
      exact .inl (hsame rfl rfl rfl)
    · cases hstep
  | forget recordingId n =>
    simp only [step] at hstep
    split at hstep
    · cases hstep
      exact .inl (hsame rfl rfl rfl)
    · cases hstep

/-- **No wake-up is lost**: each release brings a waiter one place on, and the last of them
wakes it. -/
theorem woken_in_turn (configured : ℚ) (s : ThumbnailSlots) : WokenInTurn configured s := by
  intro k n hk t hpath
  have hturn : s.releases ≤ t.releases ∧
      (t.releases ≤ s.releases + k → t.waiters[s.releases + k - t.releases]? = some n) ∧
      (s.releases + k < t.releases → n ∈ t.wakeups) := by
    induction hpath with
    | refl =>
      refine ⟨Nat.le_refl _, fun _ => ?_, fun hlt => by omega⟩
      rwa [Nat.add_sub_cancel_left]
    | @tail u v a _ _ hstep ih =>
      obtain ⟨hle, hplace, hdone⟩ := ih
      rcases step_queue hstep with ⟨more, hwaiters, hreleases, hwakeups⟩ |
        ⟨hwaiters, hreleases, hwakeups⟩
      · rw [hwaiters, hreleases, hwakeups]
        refine ⟨hle, ?_, hdone⟩
        intro hturn
        have hget := hplace hturn
        rw [List.getElem?_append_left (List.getElem?_eq_some_iff.mp hget).1]
        exact hget
      · rw [hwaiters, hreleases, hwakeups]
        refine ⟨by omega, ?_, ?_⟩
        · intro hturn
          have hget := hplace (by omega)
          rw [List.getElem?_tail, ← hget]
          congr 1
          omega
        · intro hturn
          rcases Nat.lt_or_ge (s.releases + k) u.releases with hlt | hge
          · exact List.mem_append_left _ (hdone hlt)
          · have hget := hplace hge
            have hzero : s.releases + k - u.releases = 0 := by omega
            rw [hzero, ← List.head?_eq_getElem?] at hget
            rw [hget]
            exact List.mem_append_right _ List.mem_cons_self
  exact hturn.2

/-! ## The bound -/

/-- The generations with a slot and those woken to take one. -/
def Spaced (configured : ℚ) (s : ThumbnailSlots) : Prop :=
  (s.holders.length + s.woken.length : ℚ) ≤ thumbnailGenerationConcurrency configured

theorem step_spaced {a : Label} (hcounted : Counted s) (h : Spaced configured s)
    (hguard : LeavesSlots configured s a) (hstep : step configured s a = some t) :
    Spaced configured t := by
  unfold Spaced at *
  cases a with
  | request recordingId output input =>
    simp only [step] at hstep
    split at hstep
    · next hbegins =>
      cases hstep
      simp only [LeavesSlots, leavesSlots, hbegins, Bool.not_true, Bool.false_or] at hguard
      unfold acquire
      split
      · next hfree =>
        rw [decide_eq_true hfree, Bool.not_true, Bool.false_or] at hguard
        have hroom := of_decide_eq_true hguard
        rw [hcounted.active] at hroom
        show ((s.holders ++ [s.begun]).length + s.woken.length : ℚ) ≤ _
        rw [List.length_append, List.length_singleton]
        push_cast
        linarith
      · exact h
    · cases hstep
      exact h
  | finish n =>
    simp only [step] at hstep
    split at hstep
    · next hn =>
      cases hstep
      have hlength : (s.holders.erase n).length + 1 = s.holders.length := by
        rw [List.length_erase_of_mem hn]
        exact Nat.sub_add_cancel (List.length_pos_of_mem hn)
      have hwoken : (s.woken ++ s.waiters.head?.toList).length ≤ s.woken.length + 1 := by
        rw [List.length_append]
        cases s.waiters.head? <;> simp
      have hsum : (s.holders.erase n).length + (s.woken ++ s.waiters.head?.toList).length ≤
          s.holders.length + s.woken.length := by omega
      refine le_trans ?_ h
      exact_mod_cast hsum
    · cases hstep
  | resume n =>
    simp only [step] at hstep
    split at hstep
    · next hn =>
      cases hstep
      have hlength : (s.woken.erase n).length + 1 = s.woken.length := by
        rw [List.length_erase_of_mem hn]
        exact Nat.sub_add_cancel (List.length_pos_of_mem hn)
      have hsum : (s.holders ++ [n]).length + (s.woken.erase n).length ≤
          s.holders.length + s.woken.length := by
        rw [List.length_append, List.length_singleton]
        omega
      refine le_trans ?_ h
      exact_mod_cast hsum
    · cases hstep
  | forget recordingId n =>
    simp only [step] at hstep
    split at hstep
    · cases hstep
      exact h
    · cases hstep

/-! ## The theorem -/

/-- **The slots hold what they promise** in the runs in which no generation begins in a slot
that one of the woken is to have. -/
theorem slots_bounded (configured : ℚ)
    (h : Reach (slotsMachine configured) (LeavesSlots configured) s) : Promised configured s := by
  have hkept : Counted s ∧ Spaced configured s := by
    refine Reach.invariant (I := fun s => Counted s ∧ Spaced configured s) ?_ ?_ h
    · intro s hinit
      rw [show s = {} from hinit]
      refine ⟨⟨rfl, fun hne => absurd rfl hne⟩, ?_⟩
      have hone := one_le_limit configured
      show ((0 : ℕ) + (0 : ℕ) : ℚ) ≤ _
      push_cast
      linarith
    · intro s a t hs hguard hstep
      exact ⟨step_counted hs.1 hstep, step_spaced hs.1 hs.2 hguard hstep⟩
  obtain ⟨hcounted, hspaced⟩ := hkept
  have hwoken : (0 : ℚ) ≤ s.woken.length := Nat.cast_nonneg _
  refine ⟨?_, fun _ => hcounted.active, hcounted.awaited, woken_in_turn configured s⟩
  unfold Spaced at hspaced
  linarith

/-! ## Runs -/

def begin (recordingId : String) : Label := .request recordingId false true

/-- Two slots are taken, a third generation waits and is woken when the first ends. -/
def threeThumbnails : List Label := [begin "a", begin "b", begin "c", .finish 0]

theorem slots_bounded_three : ∃ s, Reach (slotsMachine 2) (LeavesSlots 2) s ∧
    (s.active, s.holders, s.woken) = (2, [1, 2], []) ∧ Promised 2 s := by
  have hrun : ((slotsMachine 2).run (leavesSlots 2) {}
      (threeThumbnails ++ ([.resume 2] : List Label))).map (fun s => (s.active, s.holders, s.woken)) =
      some (2, [1, 2], []) := by
    decide +kernel
  obtain ⟨s, hreach, heq⟩ := reach_of_run (G := LeavesSlots 2) hrun rfl (fun _ _ h => h)
  exact ⟨s, hreach, heq, slots_bounded 2 hreach⟩

/-- A fourth generation begins before the third goes on: three have the two slots. -/
theorem slots_exceeded : ∃ s, Reach (slotsMachine 2) Always s ∧ ¬ Promised 2 s := by
  have hrun : ((slotsMachine 2).run anyStep {}
      (threeThumbnails ++ ([begin "d", .resume 2] : List Label))).map (·.holders) =
      some [1, 3, 2] := by
    decide +kernel
  obtain ⟨s, hreach, hholders⟩ := reach_of_anyStep hrun rfl
  refine ⟨s, hreach, ?_⟩
  intro hpromised
  have hbound := hpromised.bounded
  have hlimit : thumbnailGenerationConcurrency 2 = 2 := by norm_num [thumbnailGenerationConcurrency]
  rw [hholders, hlimit] at hbound
  norm_num at hbound

end Drac.Recordings.Thumbnails
