import Drac.Recordings.StagedFiles

/-
  Writer and reader of the deletion journal.

  `Settles` is what recovery owes to a deletion that a crash cut short: at whatever
  point of its staging, every entry is put back, or every entry is cleaned away, and
  nothing of the operation remains. `recovery_settles_iff` says when it does: just
  within the limits of the reader, which the writer does not check.
-/

namespace Drac.Recordings

open PosixPath Files FileTree

/-- A recovered operation, by what its guards say: all its files back, or none of
those that had been staged. -/
structure Settled (root : AbsPath) (j : DeletionJournal) (before : Tree) (done : List JournalEntry)
    (guarded : Bool) (after : Tree × RecoveryOutcome) : Prop where
  outcome : after.2 = if guarded then .restored else .cleaned
  empty : ∀ p ∈ after.1.paths, ¬ operationRoot root j.operationId <+: p
  files : ∀ p content, (p, .file content) ∈ after.1.nodes ↔ (p, .file content) ∈ before.nodes ∧
    (guarded = false → ∀ e ∈ done, ¬ originalPath root e <+: p)

/-- From every point of the staging, and whatever guards exist by then. -/
def Settles (root : AbsPath) (j : DeletionJournal) (before base : Tree) : Prop :=
  ∀ done rest t, j.entries = done ++ rest → stageEntries root base done = some t →
    ∀ guardExists : DeletionGuard → Bool,
      Settled root j before done (j.guards.any guardExists)
        (recoverOperation root guardExists t j.operationId)

section Agreement

variable {root : AbsPath} {j : DeletionJournal} {rels : List (List Char)} {before base t : Tree}
  {done rest : List JournalEntry}

theorem staged_journal (hw : Written j rels) (hfresh : Fresh root j.operationId before)
    (hbase : Based root j before base) (hes : j.entries = done ++ rest)
    (ht : stageEntries root base done = some t) :
    t.readFile (journalPath root j.operationId) = some (journalText j) := by
  have hown := (ownEntries_written root hw).own
  have hstaged := stagedTree_of_stageEntries hw.operation_isName (hbase.quarantine hfresh) done
    (fun e he => hown e (hes ▸ List.mem_append_left rest he)) ht
  have hinside := hstaged.inside (journalPath root j.operationId) (.file (journalText j))
    (List.prefix_append _ _) journalPath_not_quarantine
  rw [readFile_eq_some, hinside]
  exact hbase.journal

theorem recoverOperation_settled (hw : Written j rels) (hfresh : Fresh root j.operationId before)
    (hbase : Based root j before base) (hes : j.entries = done ++ rest)
    (ht : stageEntries root base done = some t) (hread : Readable j.guards rels)
    (guardExists : DeletionGuard → Bool) :
    Settled root j before done (j.guards.any guardExists)
      (recoverOperation root guardExists t j.operationId) := by
  have hop := hw.operation_isName
  have hquar := hbase.quarantine hfresh
  have hown := ownEntries_written root hw
  have hempty : ∀ (u : Tree), ∀ p ∈ (u.prune (operationRoot root j.operationId)).paths,
      ¬ operationRoot root j.operationId <+: p := by
    intro u p hp
    obtain ⟨e, he, rfl⟩ := List.mem_map.mp hp
    exact (mem_prune.mp he).2
  have hout : ∀ p content, (p, .file content) ∈ before.nodes →
      ¬ operationRoot root j.operationId <+: p :=
    fun p content hp => hfresh p (List.mem_map_of_mem (f := Prod.fst) hp)
  rw [recoverOperation, staged_journal hw hfresh hbase hes ht, Option.bind_some,
    (readJournal_journalText hw).1 hread]
  simp only
  cases hguarded : j.guards.any guardExists with
  | true =>
    rw [hes] at hown
    rw [if_pos rfl, hes, restoreEntries_staged hop hquar hown ht]
    refine ⟨rfl, hempty base, ?_⟩
    intro p content
    rw [if_pos rfl, mem_prune]
    constructor
    · rintro ⟨hp, hnot⟩
      exact ⟨(hbase.files p content hnot).mp hp, fun h => by cases h⟩
    · rintro ⟨hp, -⟩
      exact ⟨(hbase.files p content (hout p content hp)).mpr hp, hout p content hp⟩
  | false =>
    have hstaged := stagedTree_of_stageEntries hop hquar done
      (fun e he => hown.own e (hes ▸ List.mem_append_left rest he)) ht
    rw [if_neg (by decide)]
    refine ⟨rfl, hempty t, ?_⟩
    intro p content
    rw [mem_prune]
    constructor
    · rintro ⟨hp, hnot⟩
      obtain ⟨hp, hall⟩ := (hstaged.outside p _ hnot).mp hp
      exact ⟨(hbase.files p content hnot).mp hp, fun _ => hall⟩
    · rintro ⟨hp, hall⟩
      have hnot := hout p content hp
      exact ⟨(hstaged.outside p _ hnot).mpr
        ⟨(hbase.files p content hnot).mpr hp, hall rfl⟩, hnot⟩

end Agreement

theorem readable_of_settles {root : AbsPath} {j : DeletionJournal} {rels : List (List Char)}
    {before base : Tree} (hw : Written j rels) (hfresh : Fresh root j.operationId before)
    (hbase : Based root j before base) (h : Settles root j before base) :
    Readable j.guards rels := by
  by_contra hread
  have hes : j.entries = [] ++ j.entries := rfl
  have hnone : stageEntries root base [] = some base := rfl
  have houtcome := (h [] j.entries base hes hnone (fun _ => false)).outcome
  have hfailed : (recoverOperation root (fun _ => false) base j.operationId).2 = .failed := by
    rw [recoverOperation, staged_journal hw hfresh hbase hes hnone, Option.bind_some,
      (readJournal_journalText hw).2 hread]
  rw [hfailed] at houtcome
  split at houtcome <;> cases houtcome

/-- **When recovery settles what a deletion staged**: just when the journal's text,
measured from the paths and the guards, is within a million code units, and the
guards' ids are neither empty nor longer than 256. -/
theorem recovery_settles_iff (root : AbsPath) (candidates rels : List (List Char))
    (guards : List DeletionGuard) (operationId : Uuid) (createdAt : IsoInstant) (j : DeletionJournal)
    (before base : Tree) (hrels : relativePaths root candidates = .ok rels)
    (hstage : stageJournal root candidates guards operationId createdAt = .ok j)
    (hfresh : Fresh root operationId.text before)
    (hbase : writeDurableJournal root before j = some base) :
    Settles root j before base ↔ Readable guards rels := by
  obtain ⟨rels', hrels', hguards, hop, hw⟩ := stageJournal_written hstage
  rw [hrels] at hrels'
  cases hrels'
  rw [← hop] at hfresh
  rw [← hguards]
  constructor
  · exact readable_of_settles hw hfresh (based_of_write hbase)
  · intro hread done rest t hes ht guardExists
    exact recoverOperation_settled hw hfresh (based_of_write hbase) hes ht hread guardExists

/-! A day of recordings of ten seconds each, under one root. -/

theorem rec_isName : ∀ s ∈ ["rec".toList], IsName s := by decide

def recordingsRoot : AbsPath where
  names := ["rec".toList]
  plain := rec_isName

def emptyDisk : Tree where
  nodes := [([], .dir)]
  nodup := by decide
  closed := closed_of_dropLast (by decide)

def someOperation : Uuid where
  text := "0b1c2d3e-0000-4000-8000-00000000abcd".toList
  shaped := by decide

def someInstant : IsoInstant where
  text := "2026-07-01T12:00:00.000Z".toList
  shaped := by decide

/-- The path of the `i`-th recording, relative to the root. -/
def segmentNames (i : Nat) : Path := ["cam".toList, padIndex i ++ ".mp4".toList]

def segments (n : Nat) : List (List Char) := (List.range n).map (fun i => render (segmentNames i))

theorem segmentNames_target (i : Nat) : Target (segmentNames i) := by
  have hdigit := padIndex_digit i
  have hlen := (length_padIndex i).1
  have hhead : some "cam".toList ≠ some journalDir := by decide
  refine ⟨List.cons_ne_nil _ _, ?_, hhead⟩
  intro s hs
  rcases List.mem_cons.mp hs with rfl | hs
  · decide
  · rw [List.mem_singleton.mp hs]
    have hlong : ∀ t : List Char, t.length ≤ 2 → padIndex i ++ ".mp4".toList ≠ t := by
      rintro t ht rfl
      rw [List.length_append] at ht
      omega
    refine ⟨hlong _ (by decide), hlong _ (by decide), hlong _ (by decide), ?_⟩
    intro hslash
    rcases List.mem_append.mp hslash with h | h
    · exact absurd (hdigit '/' h) (by decide)
    · exact absurd h (by decide)

theorem segments_nodup (n : Nat) : (segments n).Nodup := by
  refine List.Nodup.map ?_ List.nodup_range
  intro i k h
  have hi := segmentNames_target i
  have hk := segmentNames_target k
  have hnames := render_inj hi.names hk.names hi.ne_nil hk.ne_nil h
  simp only [segmentNames, List.cons.injEq, and_true, true_and] at hnames
  exact padIndex_inj (List.append_cancel_right hnames)

theorem mapM_ok {α β ε : Type} {f : α → Except ε β} {g : α → β} : ∀ {l : List α},
    (∀ a ∈ l, f a = .ok (g a)) → l.mapM f = .ok (l.map g)
  | [], _ => rfl
  | a :: l, h => by
    rw [List.mapM_cons, h a List.mem_cons_self, mapM_ok (fun b hb => h b (List.mem_cons_of_mem _ hb))]
    rfl

theorem segments_staged (n : Nat) (guards : List DeletionGuard) :
    (∃ rels, relativePaths recordingsRoot (segments n) = .ok rels ∧ n ≤ rels.length) ∧
      ∃ j, stageJournal recordingsRoot (segments n) guards someOperation someInstant = .ok j ∧
        j.operationId = someOperation.text := by
  have hmap : (segments n).mapM (fun c => assertUnderRoot recordingsRoot.names
      (candidatePath recordingsRoot c)) = .ok (segments n) := by
    have hok := mapM_ok (l := segments n) (g := id) (f := fun c => assertUnderRoot
      recordingsRoot.names (candidatePath recordingsRoot c)) (by
      intro c hc
      obtain ⟨i, -, rfl⟩ := List.mem_map.mp hc
      have ht := segmentNames_target i
      rw [candidatePath, isAbsolute_render ht.names, if_neg (by decide),
        joinUnder_render recordingsRoot.plain ht.names ht.ne_nil]
      exact assertUnderRoot_target ht)
    rwa [List.map_id] at hok
  refine ⟨⟨(segments n).eraseDups, ?_, ?_⟩, ?_⟩
  · rw [relativePaths, hmap]
    rfl
  · have hsub : (segments n).Subperm (segments n).eraseDups :=
      List.subperm_of_subset (segments_nodup n) (fun c hc => List.mem_eraseDups.mpr hc)
    have := hsub.length_le
    rwa [segments, List.length_map, List.length_range, ← segments] at this
  · rw [stageJournal, hmap]
    exact ⟨_, rfl, rfl⟩

theorem emptyDisk_written (j : DeletionJournal) (hop : j.operationId = someOperation.text) :
    ∃ base, writeDurableJournal recordingsRoot emptyDisk j = some base := by
  have hmade : ((emptyDisk.mkdirs (quarantineRoot recordingsRoot someOperation.text)).map
      (fun made => decide (journalPath recordingsRoot someOperation.text ∉ made.paths) &&
        made.isDir (journalPath recordingsRoot someOperation.text).dropLast)) = some true := by
    rfl
  rw [Option.map_eq_some_iff] at hmade
  obtain ⟨made, hmade, hfree⟩ := hmade
  rw [Bool.and_eq_true, decide_eq_true_eq] at hfree
  rw [writeDurableJournal, hop, hmade, Option.bind_some, create, dif_pos hfree]
  exact ⟨_, rfl⟩

theorem emptyDisk_fresh : Fresh recordingsRoot someOperation.text emptyDisk := by
  intro p hp
  rw [List.mem_singleton.mp hp]
  decide

theorem recovery_settles_one : ∃ j base,
    stageJournal recordingsRoot (segments 1) [⟨.recording, ['r']⟩] someOperation someInstant = .ok j ∧
      writeDurableJournal recordingsRoot emptyDisk j = some base ∧
      Settles recordingsRoot j emptyDisk base := by
  obtain ⟨-, j, hj, hop⟩ := segments_staged 1 [⟨.recording, ['r']⟩]
  obtain ⟨base, hbase⟩ := emptyDisk_written j hop
  have hrels : relativePaths recordingsRoot (segments 1) = .ok (segments 1) := by rfl
  refine ⟨j, base, hj, hbase, ?_⟩
  refine (recovery_settles_iff recordingsRoot (segments 1) (segments 1) _ someOperation someInstant j
    emptyDisk base hrels hj emptyDisk_fresh hbase).mpr ⟨by decide +kernel, ?_⟩
  intro g hg
  rw [List.mem_singleton.mp hg]
  exact ⟨by decide, by decide⟩

/-- Ten thousand recordings, deleted in one call: their journal is refused. -/
theorem recovery_refuses_day : ∃ j base,
    stageJournal recordingsRoot (segments 10000) [⟨.recording, ['r']⟩] someOperation someInstant =
        .ok j ∧
      writeDurableJournal recordingsRoot emptyDisk j = some base ∧
      ¬ Settles recordingsRoot j emptyDisk base := by
  obtain ⟨⟨rels, hrels, hmany⟩, j, hj, hop⟩ := segments_staged 10000 [⟨.recording, ['r']⟩]
  obtain ⟨base, hbase⟩ := emptyDisk_written j hop
  obtain ⟨rels', hrels', hguards, -, hw⟩ := stageJournal_written hj
  rw [hrels] at hrels'
  cases hrels'
  refine ⟨j, base, hj, hbase, ?_⟩
  intro hsettles
  have hread : ¬ Readable j.guards rels := by
    intro h
    have hlen := h.length
    have hsum : 117 * rels.length ≤ (rels.map entryLength).sum :=
      mul_length_le_sum (fun rel => Nat.le_add_right 117 (Json.quotedLength rel)) rels
    rw [journalLength] at hlen
    omega
  have hfresh : Fresh recordingsRoot j.operationId emptyDisk := hop ▸ emptyDisk_fresh
  exact hread (readable_of_settles hw hfresh (based_of_write hbase) hsettles)

end Drac.Recordings
