import Drac.Recordings.ProtectedRetention
import Drac.Recordings.RetentionExpiry

/-
  Protection against a pass of retention.

  The pass deletes by the sets it read at its beginning and looks at no protection again,
  and the schema has no reference from an item to a recording: a hold set while the pass
  runs is not seen by it (`retention_deletes_held`).

  `pending` is what the sets of the pass are, or will be once the queries it still has to
  make are answered. `KnownProtection` says that it covers a recording if that is covered
  now. The pass keeps this by itself; `UserHeeded` is the condition that the users keep it
  too. In every run whose steps meet it for a recording, that one is not deleted if it is
  covered when its row goes (`protection_wins`).
-/

namespace Drac.Recordings

open Runs

/-! ## The property and the condition -/

/-- The recording was not covered when the pass deleted its row. -/
def ProtectionWins (id : String) (run : RetentionRun) : Prop :=
  ∀ d ∈ run.deleted, d.1 = id → id ∉ d.2.recordingIds

/-- The sets of the pass once the queries it still has to make are answered. -/
def pending (a : Archive) : PassPc → ProtectionSets
  | .diskFirst | .snapshot .holds _ | .finished => getProtectionSets a
  | .snapshot (.evidence sets) _ => readClips a.db.clips (readEvidence a.items sets)
  | .snapshot (.clips sets) _ => readClips a.db.clips sets
  | .running sets _ => sets

/-- If the recording is there and covered now, it is so in the sets of the pass. -/
def knownProtection (id : String) (a : Archive) (pc : PassPc) : Bool :=
  a.db.recordings.all (fun r => r.id ≠ id || !covered a id || id ∈ (pending a pc).recordingIds)

def KnownProtection (id : String) (a : Archive) (pc : PassPc) : Prop :=
  knownProtection id a pc = true

variable {id : String} {pc : PassPc}

theorem knownProtection_iff {a : Archive} :
    KnownProtection id a pc ↔ ∀ r ∈ a.db.recordings, r.id = id →
      id ∈ (getProtectionSets a).recordingIds → id ∈ (pending a pc).recordingIds := by
  simp only [KnownProtection, knownProtection, covered, List.all_eq_true, Bool.or_eq_true,
    Bool.not_eq_true', decide_eq_true_eq, decide_eq_false_iff_not, ne_eq]
  refine forall₂_congr ?_
  intro r _
  tauto

/-- A user does not cover the recording behind the back of the pass. -/
def userHeeded (id : String) (run : RetentionRun) : RetentionLabel → Bool
  | .pass .. => true
  | .user u => knownProtection id (u.apply run.archive) run.pc

def UserHeeded (id : String) (run : RetentionRun) (l : RetentionLabel) : Prop :=
  userHeeded id run l = true

/-! ## The pass keeps what it knows -/

variable {ok : Bool} {percent : Nat} {next : PassPc × PassEffect} {sets : ProtectionSets}
  {work w : PassWork} {db : Database}

section Pass

variable {s : PassSettings} {a : Archive}

theorem diskLoop_pending (sets : ProtectionSets) (c : DiskCursor) :
    pending a (diskLoop s sets c) = sets ∨ diskLoop s sets c = .finished := by
  unfold diskLoop
  split
  · exact .inl rfl
  · exact .inr rfl

theorem afterSnapshot_pending (sets : ProtectionSets) (stage : PassStage) :
    pending a (afterSnapshot s sets stage) = sets ∨ afterSnapshot s sets stage = .finished := by
  cases stage with
  | retention => exact .inl rfl
  | disk percent => exact diskLoop_pending sets _

theorem snapshotStep_pending (query : SnapshotQuery) (stage : PassStage) :
    pending a (snapshotStep s a query stage) = pending a (.snapshot query stage) ∨
      snapshotStep s a query stage = .finished := by
  cases query with
  | holds => exact .inl rfl
  | evidence sets =>
    simp only [snapshotStep]
    split
    · next hnil =>
      show _ = readClips a.db.clips (readEvidence a.items sets) ∨ _
      rw [readClips_nil hnil]
      exact afterSnapshot_pending _ stage
    · exact .inl rfl
  | clips sets => exact afterSnapshot_pending _ stage

theorem runningOr_pending (sets : ProtectionSets) (work : Option PassWork) :
    pending a (runningOr sets work) = sets ∨ runningOr sets work = .finished := by
  cases work with
  | none => exact .inr rfl
  | some w => exact .inl rfl

theorem row_pending (sets : ProtectionSets) (loop : RowLoop) (page : List Recording) :
    pending a (row s sets loop page) = sets ∨ row s sets loop page = .finished := by
  unfold row
  repeat' split
  all_goals first | exact .inl rfl | exact .inr rfl

theorem workStep_pending (sets : ProtectionSets) (ok : Bool) (percent : Nat) (work : PassWork) :
    pending a (workStep s a sets ok percent work).1 = sets ∨
      (workStep s a sets ok percent work).1 = .finished := by
  cases work with
  | cameras | clipRows | clipDeleting | readingClips | deleting => exact .inl rfl
  | clipPage | recordingGroup | recordingPage => exact runningOr_pending sets _
  | rows loop page => exact row_pending sets loop page
  | diskCheck =>
    simp only [workStep]
    split
    · exact .inr rfl
    · exact diskLoop_pending sets _
  | diskPage c =>
    simp only [workStep, diskPage]
    split
    · exact .inr rfl
    · exact .inl rfl
  | diskUsage c =>
    simp only [workStep, diskUsed]
    split
    · exact diskLoop_pending sets _
    · split
      · exact .inr rfl
      · exact diskLoop_pending sets _

theorem passStep_pending
    (h : passStep s a ok percent pc = some next) :
    pending a next.1 = pending a pc ∨ next.1 = .finished := by
  cases pc with
  | diskFirst =>
    simp only [passStep, Option.some.injEq] at h
    rw [← h]
    show pending a (if _ then _ else _) = _ ∨ (if _ then _ else _) = _
    split
    · exact .inl rfl
    · exact .inr rfl
  | snapshot query stage =>
    simp only [passStep, Option.some.injEq] at h
    rw [← h]
    show pending a (if _ then _ else _) = _ ∨ (if _ then _ else _) = _
    split
    · exact snapshotStep_pending query stage
    · exact .inr rfl
  | running sets work =>
    simp only [passStep, Option.some.injEq] at h
    rw [← h]
    split
    · exact workStep_pending sets ok percent work
    · exact .inr rfl
  | finished => cases h

theorem passStep_effect
    (h : passStep s a ok percent pc = some next) :
    next.2 = .nothing ∨ (∃ sets work id, next.1 = .running sets work ∧ next.2 = .clipRow id) ∨
      ∃ sets work loop page r, pc = .running sets (.deleting loop page r) ∧
        next.1 = .running sets work ∧ next.2 = .recordingRow r.id ∧
        ∃ row ∈ a.db.recordings, row.id = r.id := by
  cases pc with
  | diskFirst | snapshot =>
    simp only [passStep, Option.some.injEq] at h
    exact .inl (h ▸ rfl)
  | finished => cases h
  | running sets work =>
    simp only [passStep, Option.some.injEq] at h
    rw [← h]
    cases work with
    | clipDeleting groups c page clip =>
      simp only [caught, Bool.or_true, if_true, workStep]
      split
      · exact .inr (.inl ⟨sets, _, clip.id, rfl, rfl⟩)
      · exact .inl rfl
    | deleting loop page r =>
      simp only [caught, Bool.or_true, if_true, workStep]
      split
      · next hdeleted =>
        rw [Bool.and_eq_true, List.any_eq_true] at hdeleted
        obtain ⟨-, row, hrow, hid⟩ := hdeleted
        exact .inr (.inr ⟨sets, _, loop, page, r, rfl, rfl, rfl, row, hrow, of_decide_eq_true hid⟩)
      · exact .inl rfl
    | _ => left; split <;> rfl

/-! ## The pass deletes only what its sets leave out -/

/-- The recording a place is about to delete. -/
def PassWork.target : PassWork → Option Recording
  | .readingClips _ _ r | .deleting _ _ r => some r
  | _ => none

/-- The sets leave out the recording that is about to be deleted. -/
def LeftOut : PassPc → Prop
  | .running sets work => ∀ r, work.target = some r → r.id ∉ sets.recordingIds
  | _ => True

theorem leftOut_of_target (h : work.target = none) :
    LeftOut (.running sets work) := by
  intro r hr
  rw [h] at hr
  cases hr

theorem diskLoop_leftOut (sets : ProtectionSets) (c : DiskCursor) :
    LeftOut (diskLoop s sets c) := by
  unfold diskLoop
  split
  · exact leftOut_of_target rfl
  · trivial

theorem clipGroup_target (groups : List RetentionGroup) (budget : Nat)
    (rest : List RetentionGroup) : (clipGroup s groups budget rest).target = none := by
  unfold clipGroup
  repeat' split
  all_goals rfl

theorem runningOr_leftOut {work : Option PassWork}
    (h : ∀ w, work = some w → w.target = none) : LeftOut (runningOr sets work) := by
  cases work with
  | none => trivial
  | some w => exact leftOut_of_target (h w rfl)

theorem clipPage_target {groups : List RetentionGroup} {c : GroupCursor}
    (h : clipPage s groups c db = some w) : w.target = none := by
  obtain ⟨cutoff, -, rfl⟩ := Option.map_eq_some_iff.mp h
  simp only
  split
  · exact clipGroup_target ..
  · rfl

theorem recordingGroup_target {groups : List RetentionGroup} {budget : Nat}
    (h : recordingGroup s groups budget db = some w) : w.target = none := by
  cases groups with
  | nil => cases h; rfl
  | cons group rest =>
    simp only [recordingGroup] at h
    split at h
    · cases h; rfl
    · split at h
      · cases h
      · cases h; rfl

theorem recordingPage_target {c : GroupCursor}
    (h : recordingPage s c db = some w) : w.target = none := by
  obtain ⟨query, -, rfl⟩ := Option.map_eq_some_iff.mp h
  simp only
  split <;> rfl

theorem clipRow_target (sets : ProtectionSets) (groups : List RetentionGroup) (c : GroupCursor)
    (page : List ExportedClip) : (clipRow s sets groups c page).target = none := by
  unfold clipRow
  repeat' split
  all_goals first | rfl | exact clipGroup_target ..

theorem visit_leftOut (sets : ProtectionSets) (loop refused : RowLoop) (page : List Recording)
    (r : Recording) : LeftOut (.running sets (visit sets loop page r refused)) := by
  unfold visit
  split
  · exact leftOut_of_target rfl
  · next hout =>
    intro r' hr'
    cases hr'
    exact hout

theorem row_leftOut (sets : ProtectionSets) (loop : RowLoop) (page : List Recording) :
    LeftOut (row s sets loop page) := by
  cases page with
  | nil =>
    unfold row
    repeat' split
    all_goals first | trivial | exact leftOut_of_target rfl
  | cons r page =>
    cases loop with
    | disk c => exact visit_leftOut sets _ _ page r
    | expiry c =>
      simp only [row, rowExpiry]
      split
      · exact leftOut_of_target rfl
      · split
        · split <;> exact leftOut_of_target rfl
        · exact visit_leftOut sets _ _ page r

theorem workStep_leftOut (ok : Bool) (percent : Nat)
    (h : LeftOut (.running sets work)) : LeftOut (workStep s a sets ok percent work).1 := by
  cases work with
  | cameras => exact leftOut_of_target (clipGroup_target ..)
  | clipPage groups c => exact runningOr_leftOut (fun w hw => clipPage_target hw)
  | clipRows groups c page => exact leftOut_of_target (clipRow_target ..)
  | clipDeleting groups c page clip =>
    simp only [workStep, clipDone]
    split <;> exact leftOut_of_target rfl
  | recordingGroup groups budget => exact runningOr_leftOut (fun w hw => recordingGroup_target hw)
  | recordingPage c => exact runningOr_leftOut (fun w hw => recordingPage_target hw)
  | rows loop page => exact row_leftOut sets loop page
  | readingClips loop page r =>
    simp only [workStep]
    split
    · exact leftOut_of_target rfl
    · intro r' hr'
      cases hr'
      exact h r rfl
  | deleting => exact leftOut_of_target rfl
  | diskCheck =>
    simp only [workStep]
    split
    · trivial
    · exact diskLoop_leftOut sets _
  | diskPage c =>
    simp only [workStep, diskPage]
    split
    · trivial
    · exact leftOut_of_target rfl
  | diskUsage c =>
    simp only [workStep, diskUsed]
    repeat' split
    all_goals first | trivial | exact diskLoop_leftOut sets _

theorem passStep_leftOut
    (h : passStep s a ok percent pc = some next) (hpc : LeftOut pc) : LeftOut next.1 := by
  have hafter : ∀ sets stage, LeftOut (afterSnapshot s sets stage) := by
    intro sets stage
    cases stage with
    | retention => exact leftOut_of_target rfl
    | disk percent => exact diskLoop_leftOut sets _
  cases pc with
  | diskFirst =>
    simp only [passStep, Option.some.injEq] at h
    rw [← h]
    show LeftOut (if _ then _ else _)
    split <;> trivial
  | snapshot query stage =>
    simp only [passStep, Option.some.injEq] at h
    rw [← h]
    show LeftOut (if _ then _ else _)
    split
    · cases query with
      | holds => trivial
      | evidence sets =>
        simp only [snapshotStep]
        split
        · exact hafter ..
        · trivial
      | clips sets => exact hafter ..
    · trivial
  | running sets work =>
    simp only [passStep, Option.some.injEq] at h
    rw [← h]
    split
    · exact workStep_leftOut ok percent hpc
    · trivial
  | finished => cases h

end Pass

/-! ## The theorem -/

/-- What a pass keeps about one recording. -/
structure PassInv (id : String) (run : RetentionRun) : Prop where
  known : KnownProtection id run.archive run.pc
  leftOut : LeftOut run.pc
  wins : ProtectionWins id run

theorem known_of_pending {a : Archive} {pc pc' : PassPc} (h : KnownProtection id a pc)
    (hpending : pending a pc' = pending a pc ∨ pc' = .finished) : KnownProtection id a pc' := by
  rw [knownProtection_iff] at h ⊢
  intro r hr hid hcovered
  rcases hpending with heq | rfl
  · rw [heq]
    exact h r hr hid hcovered
  · exact hcovered

/-- With fewer rows of recordings and clips, the sets of a pass that has read them still
cover the recording if it is covered. -/
theorem known_of_fewer {a a' : Archive}
    (h : KnownProtection id a (.running sets work)) (hitems : a'.items = a.items)
    (hrecordings : ∀ r ∈ a'.db.recordings, r ∈ a.db.recordings)
    (hclips : a'.db.clips.Sublist a.db.clips) : KnownProtection id a' (.running sets work) := by
  rw [knownProtection_iff] at h ⊢
  intro r hr hid hcovered
  refine h r (hrecordings r hr) hid ?_
  unfold getProtectionSets at hcovered ⊢
  rw [hitems] at hcovered
  exact readClips_sublist hclips hcovered

theorem step_passInv {s : PassSettings} {run run' : RetentionRun} {l : RetentionLabel}
    (h : PassInv id run) (hguard : UserHeeded id run l)
    (hstep : retentionStep s run l = some run') : PassInv id run' := by
  cases l with
  | user u =>
    cases hstep
    exact ⟨hguard, h.leftOut, h.wins⟩
  | pass ok percent =>
    obtain ⟨next, hnext, rfl⟩ := Option.map_eq_some_iff.mp hstep
    have hknown := known_of_pending h.known (passStep_pending hnext)
    have hleft := passStep_leftOut hnext h.leftOut
    rcases passStep_effect hnext with he | hclip | hrecording
    · rw [he]
      exact ⟨hknown, hleft, h.wins⟩
    · obtain ⟨sets, work, clip, hpc, he⟩ := hclip
      rw [he]
      refine ⟨?_, hleft, h.wins⟩
      rw [hpc] at hknown
      show KnownProtection id _ next.1
      rw [hpc]
      exact known_of_fewer hknown rfl (fun r hr => hr) List.filter_sublist
    · obtain ⟨sets, work, loop, page, r, hpc, hpc', he, row, hrow, hrowId⟩ := hrecording
      rw [he]
      refine ⟨?_, hleft, ?_⟩
      · rw [hpc'] at hknown
        show KnownProtection id _ next.1
        rw [hpc']
        exact known_of_fewer hknown rfl (fun r hr => List.mem_of_mem_filter hr)
          List.filter_sublist
      · intro d hd
        rcases List.mem_append.mp hd with hold | hnew
        · exact h.wins d hold
        · rw [List.mem_singleton] at hnew
          subst hnew
          intro hid hcovered
          change r.id = id at hid
          have hleftOut := h.leftOut
          have hall := knownProtection_iff.mp h.known
          rw [hpc] at hleftOut hall
          refine hleftOut r rfl ?_
          rw [hid]
          exact hall row hrow (hrowId.trans hid) hcovered

/-- In every run in which no user covers a recording behind the back of the pass, that
recording is not deleted if it is covered when its row goes, whatever becomes of others. -/
theorem protection_wins (s : PassSettings) {run : RetentionRun}
    (h : Reach (retentionMachine s) (UserHeeded id) run) : ProtectionWins id run := by
  refine (h.invariant (I := PassInv id) ?_ ?_).wins
  · rintro run ⟨hpc, hdeleted⟩
    refine ⟨?_, ?_, ?_⟩
    · rw [knownProtection_iff]
      intro r _ _ hcovered
      rcases hpc with hpc | hpc
      · rw [hpc]
        exact hcovered
      · rw [hpc]
        exact hcovered
    · rcases hpc with hpc | hpc
      · rw [hpc]
        trivial
      · rw [hpc]
        trivial
    · intro d hd
      rw [hdeleted] at hd
      cases hd
  · intro run l run' hinv hguard hstep
    exact step_passInv hinv hguard hstep

/-! ## Runs -/

def tenthDay : PassSettings where
  globalDays := 7
  now := 10 * dayMs
  policy := ⟨false, true, 0, 0⟩
  limits := ⟨500, 20000⟩
  hasMotionScoreColumn := true
  collation := codePoints
  triggerPercent := 90
  targetPercent := 85
  maxNoProgressBatches := 3

def idleRecording : Recording := { oldRecording with id := "idle", filePath := "cam/idle.mp4" }

def twoOldDatabase : Database where
  cameras := [⟨"cam", some 1⟩]
  recordings := [oldRecording, idleRecording]
  clips := []
  camera_ids := oneDayDatabase.camera_ids
  recording_ids := by decide

def beforePass : RetentionRun := ⟨⟨twoOldDatabase, []⟩, .snapshot .holds .retention, []⟩

def holdOld : RetentionLabel := .user (.setLegalHold "item" "case" ⟨true, none, ["old"], [], []⟩ 5)

def holdIdle : RetentionLabel :=
  .user (.setLegalHold "note" "matter" ⟨true, none, ["idle"], [], []⟩ 6)

def passes (n : Nat) : List RetentionLabel := List.replicate n (.pass true 0)

/-- One recording is held before the pass; a hold set on the other during it comes too late for
that one, and takes nothing from the first. -/
theorem protection_wins_held : ∃ run,
    Reach (retentionMachine tenthDay) (UserHeeded "old") run ∧
      run.deleted.map (·.1) = ["idle"] ∧ ProtectionWins "old" run := by
  have hrun : ((retentionMachine tenthDay).run (userHeeded "old") beforePass
      ([holdOld] ++ passes 5 ++ [holdIdle] ++ passes 7)).map (·.deleted.map (·.1)) =
      some ["idle"] := by
    rfl
  obtain ⟨run, hreach, hdeleted⟩ :=
    reach_of_run (G := UserHeeded "old") hrun ⟨.inl rfl, rfl⟩ (fun _ _ h => h)
  exact ⟨run, hreach, hdeleted, protection_wins tenthDay hreach⟩

/-- A hold set once the pass has read the protections: the recording goes all the same. -/
theorem retention_deletes_held : ∃ run, Reach (retentionMachine tenthDay) Always run ∧
    ¬ ProtectionWins "old" run := by
  have hrun : ((retentionMachine tenthDay).run anyStep beforePass
      (passes 2 ++ [holdOld] ++ passes 12)).map
      (fun run => run.deleted.any (fun d => d.1 = "old" && d.2.recordingIds = ["old"])) =
      some true := by
    rfl
  obtain ⟨run, hreach, hdeleted⟩ := reach_of_anyStep hrun ⟨.inl rfl, rfl⟩
  refine ⟨run, hreach, ?_⟩
  rw [List.any_eq_true] at hdeleted
  obtain ⟨d, hd, hboth⟩ := hdeleted
  rw [Bool.and_eq_true, decide_eq_true_eq, decide_eq_true_eq] at hboth
  intro hwins
  refine hwins d hd hboth.1 ?_
  rw [hboth.2]
  exact List.mem_singleton_self _

end Drac.Recordings
