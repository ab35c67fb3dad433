import Drac.Lib.FrontPages
import Drac.Recordings.RetentionExpiry

/-
  The disk guard: recordings deleted by pressure, oldest first, until the disk gives way.

  Correspondence (`retention.service.ts` ↔ Lean):
    checkDiskUsage   ↔ `checkDiskUsage`; its loop is `guardLoop`, one turn `guardTurn`, and
                       what a turn does to one recording `deleteOne`
    diskUsagePercent ↔ `usage`: its answer before the loop, then after each batch

  `protection` is as read at the start, `fails` holds of the recordings whose deletion
  throws, and recordings of one instant come in any fixed order of their ids. A state
  keeps, of each batch that deleted, how much it did and the use of the disk around it.

    StopsForCause        why a pass may stop
-/

namespace Drac.Recordings

structure DiskGuard where
  triggerPercent : Nat
  targetPercent : Nat
  maxNoProgressBatches : Nat
  autoCleanup : Bool
  protection : ProtectionSets
  fails : String → Bool
  collation : Collation
  brake_pos : 0 < maxNoProgressBatches

/-- A batch that deleted, with the use of the disk before and after it. -/
structure GuardBatch where
  deleted : Nat
  before : Nat
  after : Nat

/-- The loop between two turns. -/
structure GuardState where
  db : Database
  iteration : Nat
  current : Nat
  noProgressBatches : Nat
  totalDeleted : Nat
  batches : List GuardBatch

/-- What ends a turn of the loop: the next one, or a `break`. -/
inductive GuardTurn where
  | next (st : GuardState)
  | stop (st : GuardState)

section Guard

variable (g : DiskGuard)

def deleteOne (acc : Database × Nat) (r : Recording) : Database × Nat :=
  match deleteRecording g.protection g.fails r acc.1 with
  | .ok (some db) => (db, acc.2 + 1)
  | .ok none => acc
  | .error _ => acc

def unprotected (db : Database) : List Recording :=
  listing g.collation (fun r => r.id ∉ g.protection.recordingIds) db

def guardUsage (st : GuardState) (db : Database) (batchDeleted current : Nat) : GuardTurn :=
  let st' : GuardState :=
    { db := db
      iteration := st.iteration
      current := current
      noProgressBatches := if current < st.current then 0 else st.noProgressBatches + 1
      totalDeleted := st.totalDeleted + batchDeleted
      batches := ⟨batchDeleted, st.current, current⟩ :: st.batches }
  if current < st.current then .next { st' with iteration := st.iteration + 1 }
  else if g.maxNoProgressBatches ≤ st.noProgressBatches + 1 then .stop st'
  else .next { st' with iteration := st.iteration + 1 }

def guardTurn (usage : Nat → Nat) (st : GuardState) : GuardTurn :=
  let oldest := (unprotected g st.db).take 20
  if oldest.isEmpty then .stop st
  else
    let done := oldest.foldl (deleteOne g) (st.db, 0)
    if done.2 = 0 then .stop { st with db := done.1 }
    else guardUsage g st done.1 done.2 (usage (st.iteration + 1))

def guardLoop (usage : Nat → Nat) : Nat → GuardState → GuardState
  | 0, st => st
  | n + 1, st =>
    if g.targetPercent < st.current then
      match guardTurn g usage st with
      | .next st => guardLoop usage n st
      | .stop st => st
    else st

/-- A pass: nothing where the disk is not critical or the cleanup is off. -/
def checkDiskUsage (usage : Nat → Nat) (db : Database) : Option GuardState :=
  if usage 0 ≤ g.triggerPercent then none
  else if ¬ g.autoCleanup then none
  else some (guardLoop g usage 100 ⟨db, 0, usage 0, 0, 0, []⟩)

/-! ## One batch -/

def freedNothing (batches : List GuardBatch) : Nat :=
  (batches.takeWhile (fun b => b.before ≤ b.after)).length

/-- The target is reached, or the cap, or the brake is hit after batches that deleted and
freed nothing, or no recording is left that can be deleted. -/
def StopsForCause (st : GuardState) : Prop :=
  st.current ≤ g.targetPercent ∨ 100 ≤ st.iteration ∨
    (g.maxNoProgressBatches ≤ freedNothing st.batches ∧ ∀ b ∈ st.batches, 0 < b.deleted) ∨
    ∀ r ∈ st.db.recordings, deletable g.protection g.fails st.db r = false

end Guard

variable {g : DiskGuard} {db₀ : Database}

theorem foldl_deleteOne (page : List Recording) : ∀ (kept rest : List Recording)
    (acc : Database × Nat), Shrunk db₀ acc.1 → unprotected g acc.1 = kept ++ (page ++ rest) →
    Shrunk db₀ (page.foldl (deleteOne g) acc).1 ∧
      unprotected g (page.foldl (deleteOne g) acc).1 =
        kept ++ (page.filter (fun r => !deletable g.protection g.fails db₀ r) ++ rest) ∧
      (page.foldl (deleteOne g) acc).2 =
        acc.2 + page.countP (deletable g.protection g.fails db₀) := by
  induction page with
  | nil =>
    intro kept rest acc hsh hrows
    exact ⟨hsh, hrows, rfl⟩
  | cons a page ih =>
    intro kept rest acc hsh hrows
    have hmem : a ∈ acc.1.recordings := by
      have hlisted : a ∈ unprotected g acc.1 := by
        rw [hrows]
        simp
      exact (mem_listing.mp hlisted).1
    have hsame := hsh.deletable_eq hmem g.protection g.fails
    rw [List.foldl_cons]
    rcases deleteRecording_eq g.protection g.fails a acc.1 with ⟨hdel, heq⟩ | ⟨hdel, heq⟩
    · have hone : deleteOne g acc a = (acc.1.deleteRecordingRow a.id, acc.2 + 1) := by
        rw [deleteOne, heq]
      rw [hsame] at hdel
      rw [hone]
      obtain ⟨hshrunk, hlist, hcount⟩ := ih kept rest (acc.1.deleteRecordingRow a.id, acc.2 + 1)
        (hsh.trans (Shrunk.deleteRecordingRow acc.1 a.id)) (listing_delete_middle hrows)
      refine ⟨hshrunk, ?_, ?_⟩
      · rw [hlist, List.filter_cons_of_neg (by simp [hdel])]
      · rw [hcount, List.countP_cons_of_pos hdel]
        omega
    · have hone : deleteOne g acc a = acc := by
        unfold deleteOne
        rcases heq with heq | heq <;> rw [heq]
      rw [hsame] at hdel
      rw [hone]
      obtain ⟨hshrunk, hlist, hcount⟩ := ih (kept ++ [a]) rest acc hsh (by simpa using hrows)
      refine ⟨hshrunk, ?_, ?_⟩
      · rw [hlist, List.filter_cons_of_pos (by simp [hdel])]
        simp
      · rw [hcount, List.countP_cons_of_neg (by simp [hdel])]

theorem batch_sweep {db : Database} (hsh : Shrunk db₀ db) :
    Shrunk db₀ (((unprotected g db).take 20).foldl (deleteOne g) (db, 0)).1 ∧
      unprotected g (((unprotected g db).take 20).foldl (deleteOne g) (db, 0)).1 =
        FrontPages.sweep 20 (deletable g.protection g.fails db₀) (unprotected g db) ∧
      (((unprotected g db).take 20).foldl (deleteOne g) (db, 0)).2 =
        ((unprotected g db).take 20).countP (deletable g.protection g.fails db₀) := by
  obtain ⟨hshrunk, hlist, hcount⟩ := foldl_deleteOne ((unprotected g db).take 20) []
    ((unprotected g db).drop 20) (db, 0) hsh (by rw [List.nil_append, List.take_append_drop])
  exact ⟨hshrunk, by rw [hlist, List.nil_append]; rfl, by rw [hcount, Nat.zero_add]⟩

theorem none_deletable_iff {db : Database} (hsh : Shrunk db₀ db) :
    (∀ r ∈ db.recordings, deletable g.protection g.fails db r = false) ↔
      ∀ r ∈ unprotected g db, deletable g.protection g.fails db₀ r = false := by
  constructor
  · intro h r hr
    have hmem := (mem_listing.mp hr).1
    rw [← hsh.deletable_eq hmem]
    exact h r hmem
  · intro h r hr
    by_cases hheld : r.id ∈ g.protection.recordingIds
    · simp [deletable, hheld]
    · rw [hsh.deletable_eq hr]
      exact h r (mem_listing.mpr ⟨hr, by simp [hheld]⟩)

/-! ## The disk -/

/-- The answers up to this one that freed nothing, in a row. -/
def stalled (usage : Nat → Nat) : Nat → Nat
  | 0 => 0
  | k + 1 => if usage (k + 1) < usage k then 0 else stalled usage k + 1

/-- After so many batches the disk ends the pass, whatever the rows are. -/
def DiskEnds (g : DiskGuard) (usage : Nat → Nat) (k : Nat) : Prop :=
  100 ≤ k ∨ usage k ≤ g.targetPercent ∨ g.maxNoProgressBatches ≤ stalled usage k

/-- The first so many pages have each a row to delete. -/
def PagesDelete (deletable : Recording → Bool) (rows : List Recording) (k : Nat) : Prop :=
  ∀ j < k, ∃ r ∈ ((FrontPages.sweep 20 deletable)^[j] rows).take 20, deletable r = true

theorem pagesDelete_succ (p : Recording → Bool) (rows : List Recording) (k : Nat) :
    PagesDelete p rows (k + 1) ↔
      (∃ r ∈ rows.take 20, p r = true) ∧ PagesDelete p (FrontPages.sweep 20 p rows) k := by
  constructor
  · intro h
    refine ⟨h 0 k.succ_pos, fun j hj => ?_⟩
    have hlater := h (j + 1) (Nat.succ_lt_succ hj)
    rwa [Function.iterate_succ_apply] at hlater
  · rintro ⟨hfirst, hrest⟩ j hj
    cases j with
    | zero => exact hfirst
    | succ j =>
      rw [Function.iterate_succ_apply]
      exact hrest j (Nat.lt_of_succ_lt_succ hj)

/-! ## The loop -/

/-- What holds whenever the loop comes round. -/
structure GuardInv (g : DiskGuard) (usage : Nat → Nat) (db₀ : Database) (st : GuardState) : Prop where
  shrunk : Shrunk db₀ st.db
  current : st.current = usage st.iteration
  noProgress : st.noProgressBatches = stalled usage st.iteration
  batches : freedNothing st.batches = stalled usage st.iteration
  deleted : ∀ b ∈ st.batches, 0 < b.deleted
  brake : stalled usage st.iteration < g.maxNoProgressBatches

section Loop

variable {usage : Nat → Nat} {st : GuardState}

theorem guardTurn_stuck (hinv : GuardInv g usage db₀ st)
    (hpage : ∀ r ∈ (unprotected g st.db).take 20, deletable g.protection g.fails db₀ r = false) :
    ∃ db, guardTurn g usage st = .stop { st with db := db } ∧ Shrunk db₀ db ∧
      unprotected g db = unprotected g st.db := by
  obtain ⟨hshrunk, hlist, hcount⟩ := batch_sweep hinv.shrunk (g := g)
  have hzero : ((unprotected g st.db).take 20).countP (deletable g.protection g.fails db₀) = 0 :=
    List.countP_eq_zero.mpr (fun r hr => by rw [hpage r hr]; decide)
  have hsame : FrontPages.sweep 20 (deletable g.protection g.fails db₀) (unprotected g st.db) =
      unprotected g st.db := by
    rw [FrontPages.sweep, List.filter_eq_self.mpr (fun r hr => by rw [hpage r hr]; rfl),
      List.take_append_drop]
  rw [hsame] at hlist
  simp only [guardTurn, hcount, hzero, if_true]
  split
  · exact ⟨st.db, rfl, hinv.shrunk, rfl⟩
  · exact ⟨_, rfl, hshrunk, hlist⟩

theorem guardTurn_deletes (hinv : GuardInv g usage db₀ st)
    (hpage : ∃ r ∈ (unprotected g st.db).take 20, deletable g.protection g.fails db₀ r = true) :
    (g.maxNoProgressBatches ≤ stalled usage (st.iteration + 1) ∧
      ∃ st', guardTurn g usage st = .stop st' ∧ StopsForCause g st') ∨
    ∃ st', guardTurn g usage st = .next st' ∧ GuardInv g usage db₀ st' ∧
      st'.iteration = st.iteration + 1 ∧ unprotected g st'.db =
        FrontPages.sweep 20 (deletable g.protection g.fails db₀) (unprotected g st.db) := by
  obtain ⟨hshrunk, hlist, hcount⟩ := batch_sweep hinv.shrunk (g := g)
  set done := ((unprotected g st.db).take 20).foldl (deleteOne g) (st.db, 0)
  have hpos : 0 < done.2 := by
    rw [hcount]
    exact List.countP_pos_iff.mpr hpage
  have hsome : ((unprotected g st.db).take 20).isEmpty = false := by
    obtain ⟨r, hr, -⟩ := hpage
    exact List.isEmpty_eq_false_iff_exists_mem.mpr ⟨r, hr⟩
  have hturn : guardTurn g usage st =
      guardUsage g st done.1 done.2 (usage (st.iteration + 1)) := by
    simp only [guardTurn, hsome, Bool.false_eq_true, if_false]
    rw [if_neg (Nat.ne_of_gt hpos)]
  have hdeleted (current : Nat) :
      ∀ b ∈ (⟨done.2, st.current, current⟩ : GuardBatch) :: st.batches, 0 < b.deleted := by
    rintro b (_ | ⟨_, hb⟩)
    · exact hpos
    · exact hinv.deleted b hb
  rw [hturn]
  unfold guardUsage
  by_cases hfall : usage (st.iteration + 1) < st.current
  · have hstalled : stalled usage (st.iteration + 1) = 0 := by
      rw [stalled, if_pos (by rw [← hinv.current]; exact hfall)]
    refine .inr ⟨_, if_pos hfall, ⟨hshrunk, rfl, ?_, ?_, hdeleted _, ?_⟩, rfl, hlist⟩
    · rw [hstalled, if_pos hfall]
    · rw [hstalled, freedNothing, List.takeWhile_cons_of_neg (by simpa using hfall)]
      rfl
    · rw [hstalled]
      exact g.brake_pos
  · have hstalled : stalled usage (st.iteration + 1) = stalled usage st.iteration + 1 := by
      rw [stalled, if_neg (by rw [← hinv.current]; exact hfall)]
    have hfreed : freedNothing (⟨done.2, st.current, usage (st.iteration + 1)⟩ :: st.batches) =
        stalled usage (st.iteration + 1) := by
      rw [hstalled, ← hinv.batches, freedNothing,
        List.takeWhile_cons_of_pos (by simpa using not_lt.mp hfall)]
      rfl
    by_cases hbrake : g.maxNoProgressBatches ≤ st.noProgressBatches + 1
    · have hle : g.maxNoProgressBatches ≤ stalled usage (st.iteration + 1) := by
        rw [hstalled, ← hinv.noProgress]
        exact hbrake
      refine .inl ⟨hle, _, by rw [if_neg hfall, if_pos hbrake], .inr (.inr (.inl ⟨?_, hdeleted _⟩))⟩
      rw [hfreed]
      exact hle
    · refine .inr ⟨_, by rw [if_neg hfall, if_neg hbrake],
        ⟨hshrunk, rfl, ?_, hfreed, hdeleted _, ?_⟩, rfl, hlist⟩
      · rw [hstalled, if_neg hfall, hinv.noProgress]
      · rw [hstalled, ← hinv.noProgress]
        exact not_le.mp hbrake

theorem guardLoop_iff (n : Nat) : ∀ {st : GuardState}, GuardInv g usage db₀ st →
    st.iteration + n = 100 →
    (StopsForCause g (guardLoop g usage n st) ↔
      FrontPages.Reachable 20 (deletable g.protection g.fails db₀) (unprotected g st.db) ∨
      ∃ k, DiskEnds g usage (st.iteration + k) ∧
        PagesDelete (deletable g.protection g.fails db₀) (unprotected g st.db) k) := by
  induction n with
  | zero =>
    intro st hinv hn
    have hcap : 100 ≤ st.iteration := by omega
    exact iff_of_true (.inr (.inl hcap)) (.inr ⟨0, .inl hcap, fun j hj => by omega⟩)
  | succ n ih =>
    intro st hinv hn
    unfold guardLoop
    by_cases htarget : g.targetPercent < st.current
    · rw [if_pos htarget]
      -- the disk does not end the pass here
      have hends : ¬ DiskEnds g usage (st.iteration + 0) := by
        rintro (hcap | hreached | hbrake)
        · omega
        · rw [hinv.current] at htarget
          exact absurd hreached (not_le.mpr htarget)
        · exact absurd hinv.brake (not_lt.mpr hbrake)
      by_cases hpage : ∃ r ∈ (unprotected g st.db).take 20, deletable g.protection g.fails db₀ r = true
      · rcases guardTurn_deletes hinv hpage with ⟨hbrake, st', hturn, hcause⟩ |
          ⟨st', hturn, hinv', hiter, hrows⟩
        · rw [hturn]
          refine iff_of_true hcause (.inr ⟨1, .inr (.inr hbrake), ?_⟩)
          rw [pagesDelete_succ]
          exact ⟨hpage, fun j hj => by omega⟩
        · rw [hturn]
          show StopsForCause g (guardLoop g usage n st') ↔ _
          rw [ih hinv' (by omega), hrows, hiter, FrontPages.reachable_sweep]
          refine or_congr Iff.rfl ⟨?_, ?_⟩
          · rintro ⟨k, hk, hdelete⟩
            refine ⟨k + 1, by rwa [Nat.add_right_comm] at hk, ?_⟩
            exact (pagesDelete_succ _ _ k).mpr ⟨hpage, hdelete⟩
          · rintro ⟨k, hk, hdelete⟩
            cases k with
            | zero => exact absurd hk hends
            | succ k =>
              refine ⟨k, by rwa [Nat.add_right_comm], ?_⟩
              exact ((pagesDelete_succ _ _ k).mp hdelete).2
      · have hnone : ∀ r ∈ (unprotected g st.db).take 20,
            deletable g.protection g.fails db₀ r = false := by
          intro r hr
          rw [← Bool.not_eq_true]
          exact fun hdel => hpage ⟨r, hr, hdel⟩
        obtain ⟨db, hturn, hshrunk, hrows⟩ := guardTurn_stuck hinv hnone
        rw [hturn]
        show StopsForCause g { st with db := db } ↔ _
        have hleft : StopsForCause g { st with db := db } ↔
            ∀ r ∈ db.recordings, deletable g.protection g.fails db r = false := by
          constructor
          · rintro (hreached | hcap | ⟨hbrake, -⟩ | hleft)
            · exact absurd htarget (not_lt.mpr hreached)
            · exact absurd hcap (by show ¬ 100 ≤ st.iteration; omega)
            · have hfreed : g.maxNoProgressBatches ≤ freedNothing st.batches := hbrake
              rw [hinv.batches] at hfreed
              exact absurd hinv.brake (not_lt.mpr hfreed)
            · exact hleft
          · exact fun hleft => .inr (.inr (.inr hleft))
        rw [hleft, none_deletable_iff hshrunk, hrows, FrontPages.front_stuck hnone]
        constructor
        · exact .inl
        · rintro (hreach | ⟨k, hk, hdelete⟩)
          · exact hreach
          · cases k with
            | zero => exact absurd hk hends
            | succ k => exact absurd ((pagesDelete_succ _ _ k).mp hdelete).1 hpage
    · rw [if_neg htarget]
      have hreached := not_lt.mp htarget
      refine iff_of_true (.inl hreached) (.inr ⟨0, .inr (.inl ?_), fun j hj => by omega⟩)
      rw [Nat.add_zero, ← hinv.current]
      exact hreached

end Loop

/-- **The guard does not give up while it can delete** exactly where it is not called for,
or no row that can be deleted has twenty unprotected ones that cannot before it, or the
disk ends the pass after batches whose pages each had a row to delete. -/
theorem checkDiskUsage_iff (g : DiskGuard) (usage : Nat → Nat) (db : Database) :
    (∀ st, checkDiskUsage g usage db = some st → StopsForCause g st) ↔
      (usage 0 ≤ g.triggerPercent ∨ g.autoCleanup = false) ∨
      FrontPages.Reachable 20 (deletable g.protection g.fails db) (unprotected g db) ∨
      ∃ k, DiskEnds g usage k ∧
        PagesDelete (deletable g.protection g.fails db) (unprotected g db) k := by
  unfold checkDiskUsage
  by_cases htrigger : usage 0 ≤ g.triggerPercent
  · simp [htrigger]
  · cases hauto : g.autoCleanup with
    | false => simp
    | true =>
      have hinv : GuardInv g usage db ⟨db, 0, usage 0, 0, 0, []⟩ :=
        ⟨Shrunk.refl db, rfl, rfl, rfl, by simp, g.brake_pos⟩
      have hloop := guardLoop_iff 100 hinv rfl
      simp only [Nat.zero_add] at hloop
      simp only [htrigger, if_false, not_true_eq_false, Option.some.injEq, forall_eq',
        Bool.true_eq_false, or_false, false_or]
      exact hloop

/-! Twenty recordings whose deletion fails, and a newer one. -/

def guardRecording (n : Nat) : Recording :=
  { id := String.ofList (List.replicate n 'r'), cameraId := "cam", filePath := "cam/r.mp4",
    startedAt := n, sizeBytes := some 1, motionScore := 0 }

def blockedDatabase : Database where
  cameras := [⟨"cam", some 7⟩]
  recordings := (List.range 21).map guardRecording
  clips := []
  camera_ids := by decide
  recording_ids := by decide +kernel

def blockedGuard : DiskGuard where
  triggerPercent := 90
  targetPercent := 85
  maxNoProgressBatches := 3
  autoCleanup := true
  protection := ⟨[], [], []⟩
  fails id := id.length < 20
  collation := codePoints
  brake_pos := by decide

/-- The pass gives up on its first page, though the newest recording can be deleted. -/
theorem blocked_rows_stop_guard : ¬ ∀ (g : DiskGuard) (usage : Nat → Nat) (db : Database)
    (st : GuardState),
    checkDiskUsage g usage db = some st → StopsForCause g st := by
  intro hall
  have hstop : (checkDiskUsage blockedGuard (fun _ => 95) blockedDatabase).any (fun st =>
      decide (85 < st.current ∧ st.iteration < 100 ∧ freedNothing st.batches < 3 ∧
        guardRecording 20 ∈ st.db.recordings ∧
        deletable blockedGuard.protection blockedGuard.fails st.db (guardRecording 20) = true)) =
      true := by decide +kernel
  cases hst : checkDiskUsage blockedGuard (fun _ => 95) blockedDatabase with
  | none =>
    rw [hst] at hstop
    cases hstop
  | some st =>
    rw [hst, Option.any_some, decide_eq_true_eq] at hstop
    obtain ⟨htarget, hcap, hbrake, hmem, hdel⟩ := hstop
    rcases hall blockedGuard (fun _ => 95) blockedDatabase st hst with h | h | h | h
    · exact absurd htarget (not_lt.mpr h)
    · omega
    · exact absurd hbrake (not_lt.mpr h.1)
    · rw [h _ hmem] at hdel
      cases hdel

end Drac.Recordings
