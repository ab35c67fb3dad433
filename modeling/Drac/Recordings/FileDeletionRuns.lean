import Drac.Lib.Runs
import Drac.Recordings.JournalAgreement

/-
  Deletions and their recovery, step by step.

  One deletion runs from its first directory to the removal of its operation, every
  change of the file system a step of its own, with a crash possible before any of
  them and recoveries after it, which may crash as well. The database is the set of
  its guard rows.

  Correspondence (`transactional-file-delete.helper.ts`, `retention.service.ts` ↔ Lean):
    mkdir, writeFile            ↔ `mkdir`, `writeJournal`, `tornJournal` (cut short by a crash)
    the loop of stageFileDeletion   ↔ `stageNext`, `stageFails` where it throws
    the transaction of deleteRowsWithFiles   ↔ `commit`, `abort`
    the loop of restoreJournal  ↔ `restoreNext`, `restoreDone`
    rm(operationRoot)           ↔ `unlink`, one path at a time in any order the tree allows,
                                  and `removed`
    recoverPendingFileDeletions ↔ `recover`, for the operation's directory, and what follows
-/

namespace Drac.Recordings

open PosixPath Files FileTree Runs

inductive DeletionPhase where
  | preparing
  /-- So many entries have been staged. -/
  | staging (next : Nat)
  /-- So many entries remain to be restored; whether all went well; whether by a recovery. -/
  | restoring (remaining : Nat) (work : JournalWork) (ok : Bool) (recovery : Bool)
  | removing (recovery : Bool)
  | stopped
  | recovered
  deriving DecidableEq

/-- The disk, the guarded rows and where the operation is. -/
structure DeletionState where
  tree : Tree
  rows : List DeletionGuard
  phase : DeletionPhase
  staged : Nat

/-- One step of the operation, of its undo or of a recovery, or a crash. -/
inductive DeletionAction where
  | mkdir
  | writeJournal
  | tornJournal (written : Nat)
  | stageNext
  | stageFails
  | commit
  | abort
  | restoreNext
  | restoreDone
  | unlink (p : Path)
  | removed
  | crash
  | recover
  deriving DecidableEq

section Machine

variable (root : AbsPath) (j : DeletionJournal)

def JournalWork.ofJournal (j : DeletionJournal) : JournalWork where
  guards := j.guards
  entries := j.entries

def guarded (j : DeletionJournal) (s : DeletionState) : Bool := j.guards.any (· ∈ s.rows)

/-- The journal of the operation's directory, where there is one and it is accepted. -/
def found (t : Tree) : Option JournalWork :=
  if t.isDir (operationRoot root j.operationId) then
    (t.readFile (journalPath root j.operationId)).bind (readJournal root j.operationId)
  else none

def recoverStep (s : DeletionState) : DeletionState :=
  match found root j s.tree with
  | none => { s with phase := .recovered }
  | some work =>
    if work.guards.any (· ∈ s.rows) then
      { s with phase := .restoring work.entries.length work true true }
    else { s with phase := .removing true }

def deletionStep (s : DeletionState) : DeletionAction → Option DeletionState
  | .mkdir =>
    match s.phase with
    | .preparing =>
      ((quarantineRoot root j.operationId).inits.find? (fun p => !s.tree.isDir p)).bind (fun p =>
        (s.tree.create p .dir).map (fun t => { s with tree := t }))
    | _ => none
  | .writeJournal =>
    match s.phase with
    | .preparing =>
      (s.tree.create (journalPath root j.operationId) (.file (journalText j))).map (fun t =>
        { s with tree := t, phase := .staging 0 })
    | _ => none
  | .tornJournal written =>
    match s.phase with
    | .preparing =>
      if written < (journalText j).length then
        (s.tree.create (journalPath root j.operationId)
          (.file ((journalText j).take written))).map (fun t =>
            { s with tree := t, phase := .stopped })
      else none
    | _ => none
  | .stageNext =>
    match s.phase with
    | .staging next =>
      (j.entries[next]?).bind (fun e => (stageEntry root s.tree e).map (fun t =>
        { s with tree := t, phase := .staging (next + 1), staged := next + 1 }))
    | _ => none
  | .stageFails =>
    match s.phase with
    | .staging next =>
      if next < j.entries.length then
        some { s with phase := .restoring j.entries.length (.ofJournal j) true false }
      else none
    | _ => none
  | .commit =>
    match s.phase with
    | .staging next =>
      if next = j.entries.length then
        some { s with rows := s.rows.filter (· ∉ j.guards), phase := .removing false }
      else none
    | _ => none
  | .abort =>
    match s.phase with
    | .staging next =>
      if next = j.entries.length then
        some { s with phase := .restoring j.entries.length (.ofJournal j) true false }
      else none
    | _ => none
  | .restoreNext =>
    match s.phase with
    | .restoring (remaining + 1) work ok recovery =>
      (work.entries[remaining]?).map (fun e =>
        let r := restoreEntry root s.tree e
        { s with tree := r.1, phase := .restoring remaining work (ok && r.2) recovery })
    | _ => none
  | .restoreDone =>
    match s.phase with
    | .restoring 0 _ ok recovery =>
      if ok then some { s with phase := .removing recovery }
      else some { s with phase := if recovery then .recovered else .stopped }
    | _ => none
  | .unlink p =>
    match s.phase with
    | .removing _ =>
      if operationRoot root j.operationId <+: p then
        (s.tree.remove p).map (fun t => { s with tree := t })
      else none
    | _ => none
  | .removed =>
    match s.phase with
    | .removing recovery =>
      if s.tree.has (operationRoot root j.operationId) then none
      else some { s with phase := if recovery then .recovered else .stopped }
    | _ => none
  | .crash => some { s with phase := .stopped }
  | .recover =>
    match s.phase with
    | .stopped => some (recoverStep root j s)
    | .recovered => some (recoverStep root j s)
    | _ => none

/-- One operation from its beginning on, over any rows. -/
def deletionMachine (before : Tree) : Machine DeletionState DeletionAction where
  init s := s.tree = before ∧ s.phase = .preparing ∧ s.staged = 0
  step := deletionStep root j

end Machine

/-! ## Where a crash does no harm -/

/-- Nothing stands in quarantine. -/
def Vacant (root : AbsPath) (op : Name) (t : Tree) : Prop :=
  ∀ p ∈ t.paths, quarantineRoot root op <+: p → p = quarantineRoot root op

instance decidableVacant (root : AbsPath) (op : Name) (t : Tree) : Decidable (Vacant root op t) :=
  inferInstanceAs (Decidable (∀ p ∈ t.paths, quarantineRoot root op <+: p → p = quarantineRoot root op))

/-- Where an operation may stop and leave the rest to recovery: the journal is in
place, within the limits of its reader; or nothing is in quarantine, and the journal
is gone or a guard row is still there. -/
def Recoverable (root : AbsPath) (j : DeletionJournal) (rels : List (List Char))
    (s : DeletionState) : Prop :=
  (s.tree.has (journalPath root j.operationId) = true ∧ Readable j.guards rels) ∨
    (Vacant root j.operationId s.tree ∧
      (guarded j s = true ∨ s.tree.has (journalPath root j.operationId) = false))

/-- The condition of a run: it crashes where the rest is recoverable, and undoes
nothing, and leaves no journal half written, when no guard row is there. -/
def CrashesSafely (root : AbsPath) (j : DeletionJournal) (rels : List (List Char))
    (s : DeletionState) : DeletionAction → Prop
  | .crash => Recoverable root j rels s
  | .tornJournal _ => guarded j s = true
  | .stageFails => guarded j s = true
  | .abort => guarded j s = true
  | _ => True

/-! ## Trees a deletion goes through -/

variable {p q : Path}

section Trees

variable {root : AbsPath} {j : DeletionJournal} {before base t u : Tree}

/-- The files are where they were before the operation. -/
structure Back (root : AbsPath) (op : Name) (before t : Tree) : Prop where
  files : ∀ p content, ¬ operationRoot root op <+: p →
    ((p, .file content) ∈ t.nodes ↔ (p, .file content) ∈ before.nodes)
  vacant : Vacant root op t

/-- What the first entries took is gone, and nothing else. -/
def Gone (root : AbsPath) (j : DeletionJournal) (before : Tree) (staged : Nat) (t : Tree) : Prop :=
  ∀ p content, ¬ operationRoot root j.operationId <+: p →
    ((p, .file content) ∈ t.nodes ↔ (p, .file content) ∈ before.nodes ∧
      ∀ e ∈ j.entries.take staged, ¬ originalPath root e <+: p)

/-- So many entries have been staged, and nothing else was done since. -/
structure StagedTo (root : AbsPath) (j : DeletionJournal) (before : Tree) (count : Nat) (t : Tree) :
    Prop where
  reached : ∃ base, Based root j before base ∧ stageEntries root base (j.entries.take count) = some t

/-- The journal, where one is in place, is what was written of it. -/
def OwnJournal (root : AbsPath) (j : DeletionJournal) (t : Tree) : Prop :=
  ∀ n, (journalPath root j.operationId, n) ∈ t.nodes →
    ∃ written, n = .file ((journalText j).take written)

/-- And all of it. -/
def WholeJournal (root : AbsPath) (j : DeletionJournal) (t : Tree) : Prop :=
  ∀ n, (journalPath root j.operationId, n) ∈ t.nodes → n = .file (journalText j)

theorem WholeJournal.own (h : WholeJournal root j t) : OwnJournal root j t := by
  intro n hn
  exact ⟨(journalText j).length, by rw [List.take_length]; exact h n hn⟩

theorem journalPath_ne (op : Name) : ¬ journalPath root op <+: quarantineRoot root op := by
  rw [quarantineRoot, journalPath, List.prefix_append_right_inj]
  decide

theorem back_of_made (hfresh : Fresh root j.operationId before)
    (h : Made before (quarantineRoot root j.operationId) t) :
    Back root j.operationId before t ∧ t.has (journalPath root j.operationId) = false := by
  refine ⟨⟨?_, ?_⟩, ?_⟩
  · intro p content _
    constructor
    · intro hp
      rcases h.added _ hp with hp | ⟨hdir, -⟩
      · exact hp
      · cases hdir
    · exact h.kept _
  · intro p hp hunder
    obtain ⟨e, he, rfl⟩ := List.mem_map.mp hp
    rcases h.added e he with he | ⟨-, hpre⟩
    · exact absurd (operationRoot_prefix_quarantine.trans hunder)
        (hfresh _ (List.mem_map_of_mem (f := Prod.fst) he))
    · exact hpre.eq_of_length (Nat.le_antisymm hpre.length_le hunder.length_le)
  · rw [← Bool.not_eq_true, has_iff]
    intro hp
    obtain ⟨e, he, heq⟩ := List.mem_map.mp hp
    rcases h.added e he with he | ⟨-, hpre⟩
    · refine hfresh _ (List.mem_map_of_mem (f := Prod.fst) he) ?_
      rw [heq]
      exact List.prefix_append _ _
    · rw [heq] at hpre
      exact journalPath_ne _ hpre

theorem back_of_based (hfresh : Fresh root j.operationId before) (h : Based root j before base) :
    Back root j.operationId before base := ⟨h.files, h.quarantine hfresh⟩

theorem Back.gone (h : Back root j.operationId before t) : Gone root j before 0 t := by
  intro p content hout
  rw [h.files p content hout, List.take_zero]
  simp

theorem mem_remove_outside {op : Name} (hq : operationRoot root op <+: q)
    (hout : ¬ operationRoot root op <+: p) (h : t.remove q = some u) (n : Node (List Char)) :
    (p, n) ∈ u.nodes ↔ (p, n) ∈ t.nodes := by
  rw [mem_remove h]
  constructor
  · exact fun hp => hp.1
  · intro hp
    refine ⟨hp, ?_⟩
    rintro rfl
    exact hout hq

theorem Back.remove (hq : operationRoot root j.operationId <+: q)
    (h : t.remove q = some u) (hb : Back root j.operationId before t) :
    Back root j.operationId before u where
  files p content hout := by
    rw [mem_remove_outside hq hout h]
    exact hb.files p content hout
  vacant p hp hunder := by
    obtain ⟨e, he, rfl⟩ := List.mem_map.mp hp
    exact hb.vacant _ (List.mem_map_of_mem (f := Prod.fst) ((mem_remove h).mp he).1) hunder

theorem Gone.remove {staged : Nat} (hq : operationRoot root j.operationId <+: q)
    (h : t.remove q = some u) (hg : Gone root j before staged t) :
    Gone root j before staged u := by
  intro p content hout
  rw [mem_remove_outside hq hout h]
  exact hg p content hout

theorem OwnJournal.remove (h : t.remove q = some u) (hj : OwnJournal root j t) :
    OwnJournal root j u := fun n hn => hj n ((mem_remove h).mp hn).1

theorem WholeJournal.remove (h : t.remove q = some u) (hj : WholeJournal root j t) :
    WholeJournal root j u := fun n hn => hj n ((mem_remove h).mp hn).1

theorem vacant_of_not_has {op : Name} (h : t.has (operationRoot root op) = false) :
    Vacant root op t ∧ t.has (journalPath root op) = false := by
  rw [← Bool.not_eq_true, has_iff] at h
  refine ⟨?_, ?_⟩
  · intro p hp hunder
    exact absurd (t.mem_of_prefix (operationRoot_prefix_quarantine.trans hunder) hp) h
  · rw [← Bool.not_eq_true, has_iff]
    intro hp
    exact h (t.mem_of_prefix (List.prefix_append _ _) hp)

theorem isDir_of_below {x : Name} (h : t.has (p ++ [x]) = true) : t.isDir p = true := by
  rw [has_iff] at h
  exact isDir_iff.mpr (t.closed p x h)

end Trees

variable {e : JournalEntry}

section Staging

variable {root : AbsPath} {j : DeletionJournal} {rels : List (List Char)} {before t : Tree} {k : Nat}
  (hw : Written j rels) (hfresh : Fresh root j.operationId before)

include hw hfresh

theorem StagedTo.tree (h : StagedTo root j before k t) : ∃ base, Based root j before base ∧
    stageEntries root base (j.entries.take k) = some t ∧
    StagedTree root j.operationId base (j.entries.take k) t := by
  obtain ⟨base, hbase, ht⟩ := h.reached
  refine ⟨base, hbase, ht, ?_⟩
  exact stagedTree_of_stageEntries hw.operation_isName (hbase.quarantine hfresh) _
    (fun e he => hw.ownEntry (List.mem_of_mem_take he)) ht

theorem StagedTo.gone (h : StagedTo root j before k t) : Gone root j before k t := by
  obtain ⟨base, hbase, -, hst⟩ := h.tree hw hfresh
  intro p content hout
  rw [hst.outside p _ hout, hbase.files p content hout]

theorem StagedTo.journal (h : StagedTo root j before k t) :
    t.has (journalPath root j.operationId) = true ∧ WholeJournal root j t := by
  obtain ⟨base, hbase, -, hst⟩ := h.tree hw hfresh
  have hinside := fun n => hst.inside (journalPath root j.operationId) n (List.prefix_append _ _)
    journalPath_not_quarantine
  refine ⟨?_, ?_⟩
  · rw [has_iff]
    exact List.mem_map_of_mem (f := Prod.fst) ((hinside _).mpr hbase.journal)
  · intro n hn
    exact base.node_unique ((hinside n).mp hn) hbase.journal

theorem StagedTo.back (h : StagedTo root j before k t) (hv : Vacant root j.operationId t) :
    Back root j.operationId before t := by
  obtain ⟨base, hbase, -, hst⟩ := h.tree hw hfresh
  refine ⟨?_, hv⟩
  intro p content hout
  rw [← hbase.files p content hout]
  constructor
  · exact fun hp => ((hst.outside p _ hout).mp hp).1
  · intro hp
    rcases hst.kept p _ hout hp with hp | ⟨e, he, rest, -, hp⟩
    · exact hp
    · -- a staged entry stands in quarantine, which is vacant
      exfalso
      obtain ⟨i, q, hown⟩ := hw.ownEntry (List.mem_of_mem_take he)
      have hunder := quarantine_under root hw.operation_isName hown rest
      have heq := hv _ (List.mem_map_of_mem (f := Prod.fst) hp) hunder
      rw [quarantinePath_own root hw.operation_isName hown] at heq
      have := congrArg List.length heq
      simp at this

omit hfresh in
theorem restoreEntry_vacant (hv : Vacant root j.operationId t)
    (he : e ∈ j.entries) : restoreEntry root t e = (t, true) := by
  refine restoreEntry_missing ?_
  intro hmem
  obtain ⟨i, q, hown⟩ := hw.ownEntry he
  have hunder := quarantine_under root hw.operation_isName hown []
  rw [List.append_nil] at hunder
  have heq := hv _ hmem hunder
  rw [quarantinePath_own root hw.operation_isName hown] at heq
  have := congrArg List.length heq
  simp at this

theorem restoreEntry_stagedTo (h : StagedTo root j before k t) {m : Nat} (hk : k ≤ m + 1)
    (he : j.entries[m]? = some e) :
    ∃ u, restoreEntry root t e = (u, true) ∧ ∃ k', k' ≤ m ∧ StagedTo root j before k' u := by
  obtain ⟨base, hbase, ht, hst⟩ := h.tree hw hfresh
  obtain ⟨hlt, hget⟩ := List.getElem?_eq_some_iff.mp he
  have hmem : e ∈ j.entries := hget ▸ List.getElem_mem hlt
  have hquar := hbase.quarantine hfresh
  obtain ⟨i, q, hown⟩ := hw.ownEntry hmem
  -- its place is not that of an earlier entry
  have hearlier : ∀ count, count ≤ m → ∀ e' ∈ j.entries.take count,
      (∃ i q, OwnEntry j.operationId e' i q) ∧ quarantinePath root e' ≠ quarantinePath root e := by
    intro count hcount e' he'
    refine ⟨hw.ownEntry (List.mem_of_mem_take he'), ?_⟩
    have hapart := (ownEntries_written root hw).apart
    rw [← List.take_append_drop count j.entries, List.map_append, List.nodup_append] at hapart
    refine hapart.2.2 _ (List.mem_map_of_mem he') _ (List.mem_map_of_mem ?_)
    rw [List.mem_drop_iff_getElem]
    refine ⟨m - count, by omega, ?_⟩
    rw [← hget]
    congr 1
    omega
  rcases Nat.lt_or_ge m k with hgt | hle
  · have hkm : k = m + 1 := by omega
    rw [hkm, List.take_succ_eq_append_getElem hlt, hget, stageEntries, List.foldlM_append] at ht
    obtain ⟨u, hu, ht⟩ := Option.bind_eq_some_iff.mp ht
    rw [List.foldlM_cons, Option.bind_eq_bind, Option.bind_eq_some_iff] at ht
    obtain ⟨t', ht', ht⟩ := ht
    cases ht
    have hst' := stagedTree_of_stageEntries hw.operation_isName hquar _
      (fun e he => hw.ownEntry (List.mem_of_mem_take he)) hu
    have hfree := quarantine_free hw.operation_isName hst' hown (hearlier m (Nat.le_refl m))
    exact ⟨u, restoreEntry_stageEntry ht' hfree, m, Nat.le_refl m, ⟨base, hbase, hu⟩⟩
  · have hfree := quarantine_free hw.operation_isName hst hown (hearlier k hle)
    exact ⟨t, restoreEntry_missing hfree, k, hle, h⟩

theorem StagedTo.zero (h : StagedTo root j before 0 t) : Back root j.operationId before t := by
  obtain ⟨base, hbase, ht, -⟩ := h.tree hw hfresh
  cases ht
  exact back_of_based hfresh hbase

theorem StagedTo.next (h : StagedTo root j before k t)
    (he : j.entries[k]? = some e) {u : Tree} (hu : stageEntry root t e = some u) :
    StagedTo root j before (k + 1) u := by
  obtain ⟨base, hbase, ht, -⟩ := h.tree hw hfresh
  obtain ⟨hlt, hget⟩ := List.getElem?_eq_some_iff.mp he
  refine ⟨base, hbase, ?_⟩
  rw [List.take_succ_eq_append_getElem hlt, hget, stageEntries, List.foldlM_append]
  rw [stageEntries] at ht
  rw [ht]
  simp only [Option.bind_eq_bind, Option.bind_some, List.foldlM_cons, List.foldlM_nil, hu]
  rfl

end Staging

/-! ## The invariant -/

/-- How the tree of a guarded operation may stand: back, or staged so far. -/
def Kept (root : AbsPath) (j : DeletionJournal) (before : Tree) (count : Nat) (t : Tree) : Prop :=
  Back root j.operationId before t ∨ ∃ k, k ≤ count ∧ StagedTo root j before k t

/-- **What holds of a deletion in every phase.** -/
def DeletionInv (root : AbsPath) (j : DeletionJournal) (rels : List (List Char)) (before : Tree)
    (s : DeletionState) : Prop :=
  match s.phase with
  | .preparing => s.staged = 0 ∧ Made before (quarantineRoot root j.operationId) s.tree
  | .staging next => s.staged = next ∧ next ≤ j.entries.length ∧ StagedTo root j before next s.tree
  | .restoring remaining work ok _ =>
    guarded j s = true ∧ work = .ofJournal j ∧ ok = true ∧ remaining ≤ j.entries.length ∧
      OwnJournal root j s.tree ∧ Kept root j before remaining s.tree
  | .removing _ =>
    OwnJournal root j s.tree ∧
      ((guarded j s = true ∧ Back root j.operationId before s.tree) ∨
        (guarded j s = false ∧ Gone root j before s.staged s.tree ∧ WholeJournal root j s.tree))
  | .stopped =>
    OwnJournal root j s.tree ∧
      ((guarded j s = true ∧ (Back root j.operationId before s.tree ∨
          (Readable j.guards rels ∧ Kept root j before j.entries.length s.tree))) ∨
        (guarded j s = false ∧ Gone root j before s.staged s.tree ∧ WholeJournal root j s.tree ∧
          ((s.tree.has (journalPath root j.operationId) = true ∧ Readable j.guards rels) ∨
            (Vacant root j.operationId s.tree ∧
              s.tree.has (journalPath root j.operationId) = false))))
  | .recovered =>
    OwnJournal root j s.tree ∧ found root j s.tree = none ∧
      ((guarded j s = true ∧ Back root j.operationId before s.tree) ∨
        (guarded j s = false ∧ Gone root j before s.staged s.tree ∧
          Vacant root j.operationId s.tree ∧
          s.tree.has (journalPath root j.operationId) = false))

variable {work : JournalWork} {recovery : Bool}

section Invariant

variable {root : AbsPath} {j : DeletionJournal} {rels : List (List Char)} {before : Tree}
  {s t : DeletionState} (hw : Written j rels) (hfresh : Fresh root j.operationId before)

theorem found_whole (hw : Written j rels) {u : Tree} (hj : WholeJournal root j u)
    (hhas : u.has (journalPath root j.operationId) = true) (hread : Readable j.guards rels) :
    found root j u = some (.ofJournal j) := by
  have hmem : (journalPath root j.operationId, .file (journalText j)) ∈ u.nodes := by
    obtain ⟨e, he, heq⟩ := List.mem_map.mp (has_iff.mp hhas)
    have hn := hj e.2 (heq ▸ he)
    rw [← heq, ← hn]
    exact he
  rw [found, if_pos (isDir_of_below hhas), readFile_eq_some.mpr hmem, Option.bind_some,
    (readJournal_journalText hw).1 hread]
  rfl

theorem found_own (hw : Written j rels) {u : Tree} (hj : OwnJournal root j u)
    (h : found root j u = some work) : work = .ofJournal j := by
  unfold found at h
  split at h
  · rw [Option.bind_eq_some_iff] at h
    obtain ⟨content, hcontent, h⟩ := h
    obtain ⟨written, hwritten⟩ := hj _ (readFile_eq_some.mp hcontent)
    cases hwritten
    exact readJournal_take hw h
  · cases h

include hw hfresh

theorem inv_crash (h : DeletionInv root j rels before s) (hsafe : Recoverable root j rels s) :
    DeletionInv root j rels before { s with phase := .stopped } := by
  -- from what the phase knows of the tree, and from where it may stop
  have hkept : ∀ count, count ≤ j.entries.length → guarded j s = true → OwnJournal root j s.tree →
      Kept root j before count s.tree → DeletionInv root j rels before { s with phase := .stopped } := by
    intro count hcount hguard hown hk
    refine ⟨hown, .inl ⟨hguard, ?_⟩⟩
    rcases hk with hback | ⟨k, hk, hst⟩
    · exact .inl hback
    · rcases hsafe with ⟨-, hread⟩ | ⟨hv, -⟩
      · exact .inr ⟨hread, .inr ⟨k, hk.trans hcount, hst⟩⟩
      · exact .inl (hst.back hw hfresh hv)
  have hgone : guarded j s = false → Gone root j before s.staged s.tree → WholeJournal root j s.tree →
      DeletionInv root j rels before { s with phase := .stopped } := by
    intro hguard hg hwhole
    refine ⟨hwhole.own, .inr ⟨hguard, hg, hwhole, ?_⟩⟩
    rcases hsafe with h | ⟨hv, hguard' | hno⟩
    · exact .inl h
    · rw [hguard] at hguard'
      cases hguard'
    · exact .inr ⟨hv, hno⟩
  unfold DeletionInv at h
  cases hphase : s.phase with
  | preparing =>
    rw [hphase] at h
    obtain ⟨hstaged, hmade⟩ := h
    obtain ⟨hback, hno⟩ := back_of_made hfresh hmade
    have hnone := not_mem_of_not_has hno
    cases hguard : guarded j s with
    | true => exact hkept 0 (Nat.zero_le _) hguard (fun n hn => absurd hn (hnone n)) (.inl hback)
    | false => exact hgone hguard (hstaged ▸ hback.gone) (fun n hn => absurd hn (hnone n))
  | staging next =>
    rw [hphase] at h
    obtain ⟨hstaged, hle, hst⟩ := h
    cases hguard : guarded j s with
    | true =>
      exact hkept next hle hguard (hst.journal hw hfresh).2.own (.inr ⟨next, Nat.le_refl _, hst⟩)
    | false => exact hgone hguard (hstaged ▸ hst.gone hw hfresh) (hst.journal hw hfresh).2
  | restoring remaining work ok recovery =>
    rw [hphase] at h
    obtain ⟨hguard, -, -, hle, hown, hk⟩ := h
    exact hkept remaining hle hguard hown hk
  | removing recovery =>
    rw [hphase] at h
    obtain ⟨hown, ⟨hguard, hback⟩ | ⟨hguard, hg, hwhole⟩⟩ := h
    · exact hkept 0 (Nat.zero_le _) hguard hown (.inl hback)
    · exact hgone hguard hg hwhole
  | stopped =>
    rw [hphase] at h
    exact h
  | recovered =>
    rw [hphase] at h
    obtain ⟨hown, -, ⟨hguard, hback⟩ | ⟨hguard, hg, hv, hno⟩⟩ := h
    · exact ⟨hown, .inl ⟨hguard, .inl hback⟩⟩
    · exact ⟨hown, .inr ⟨hguard, hg, fun n hn => absurd hn (not_mem_of_not_has hno n),
        .inr ⟨hv, hno⟩⟩⟩

theorem inv_recover (h : DeletionInv root j rels before s)
    (hphase : s.phase = .stopped ∨ s.phase = .recovered) :
    DeletionInv root j rels before (recoverStep root j s) := by
  unfold DeletionInv at h
  rcases hphase with hphase | hphase
  · rw [hphase] at h
    obtain ⟨hown, h⟩ := h
    unfold recoverStep
    cases hfound : found root j s.tree with
    | none =>
      refine ⟨hown, hfound, ?_⟩
      rcases h with ⟨hguard, hback | ⟨hread, hback | ⟨k, -, hst⟩⟩⟩ | ⟨hguard, hg, hwhole, hrest⟩
      · exact .inl ⟨hguard, hback⟩
      · exact .inl ⟨hguard, hback⟩
      · obtain ⟨hhas, hwhole⟩ := hst.journal hw hfresh
        rw [found_whole hw hwhole hhas hread] at hfound
        cases hfound
      · rcases hrest with ⟨hhas, hread⟩ | hrest
        · rw [found_whole hw hwhole hhas hread] at hfound
          cases hfound
        · exact .inr ⟨hguard, hg, hrest⟩
    | some work =>
      obtain rfl := found_own hw hown hfound
      simp only
      split
      · next hany =>
        rcases h with ⟨hguard, hk⟩ | ⟨hguard, -⟩
        · refine ⟨hguard, rfl, rfl, Nat.le_refl _, hown, ?_⟩
          rcases hk with hback | ⟨-, hk⟩
          · exact .inl hback
          · exact hk
        · rw [guarded] at hguard
          rw [show (JournalWork.ofJournal j).guards = j.guards from rfl, hguard] at hany
          cases hany
      · next hany =>
        rcases h with ⟨hguard, -⟩ | ⟨hguard, hg, hwhole, -⟩
        · exact absurd hguard hany
        · exact ⟨hown, .inr ⟨hguard, hg, hwhole⟩⟩
  · -- a recovery that has completed finds nothing more
    have hstay : recoverStep root j s = { s with phase := .recovered } := by
      rw [hphase] at h
      rw [recoverStep, h.2.1]
    rw [hstay]
    rw [hphase] at h
    exact h

theorem inv_restoreNext {m : Nat} {ok recovery : Bool}
    (h : DeletionInv root j rels before s) (hphase : s.phase = .restoring (m + 1) work ok recovery)
    (he : work.entries[m]? = some e) :
    DeletionInv root j rels before
      { s with
        tree := (restoreEntry root s.tree e).1
        phase := .restoring m work (ok && (restoreEntry root s.tree e).2) recovery } := by
  unfold DeletionInv at h
  rw [hphase] at h
  obtain ⟨hguard, rfl, rfl, hle, hown, hk⟩ := h
  replace he : j.entries[m]? = some e := he
  rcases hk with hback | ⟨k, hk, hst⟩
  · have hmem : e ∈ j.entries := by
      obtain ⟨hlt, rfl⟩ := List.getElem?_eq_some_iff.mp he
      exact List.getElem_mem hlt
    rw [restoreEntry_vacant hw hback.vacant hmem]
    exact ⟨hguard, rfl, rfl, Nat.le_of_succ_le hle, hown, .inl hback⟩
  · obtain ⟨u, hu, k', hk', hst'⟩ := restoreEntry_stagedTo hw hfresh hst hk he
    rw [hu]
    exact ⟨hguard, rfl, rfl, Nat.le_of_succ_le hle, (hst'.journal hw hfresh).2.own,
      .inr ⟨k', hk', hst'⟩⟩

omit hw in
/-- A crash in the middle of writing the journal: nothing has been staged yet. -/
theorem inv_tornJournal {written : Nat} {u : Tree} (h : DeletionInv root j rels before s)
    (hphase : s.phase = .preparing) (hguard : guarded j s = true)
    (hu : s.tree.create (journalPath root j.operationId)
      (.file ((journalText j).take written)) = some u) :
    DeletionInv root j rels before { s with tree := u, phase := .stopped } := by
  unfold DeletionInv at h
  rw [hphase] at h
  obtain ⟨hback, hno⟩ := back_of_made hfresh h.2
  refine ⟨?_, .inl ⟨hguard, .inl ⟨?_, ?_⟩⟩⟩
  · intro n hn
    rcases (mem_create hu).mp hn with hn | heq
    · exact absurd hn (not_mem_of_not_has hno n)
    · exact ⟨written, (Prod.mk.inj heq).2⟩
  · intro p content hout
    rw [← hback.files p content hout]
    show (p, _) ∈ u.nodes ↔ _
    rw [mem_create hu]
    constructor
    · rintro (hp | heq)
      · exact hp
      · obtain ⟨rfl, -⟩ := Prod.mk.inj heq
        exact absurd (List.prefix_append _ _) hout
    · exact .inl
  · intro p hp hunder
    obtain ⟨e, he, rfl⟩ := List.mem_map.mp hp
    rcases (mem_create hu).mp he with he | rfl
    · exact hback.vacant _ (List.mem_map_of_mem (f := Prod.fst) he) hunder
    · exact absurd hunder journalPath_not_quarantine

/-- What follows a failed move or a failed transaction restores every entry of the journal. -/
theorem inv_undo {next : Nat} (h : DeletionInv root j rels before s)
    (hphase : s.phase = .staging next) (hguard : guarded j s = true) :
    DeletionInv root j rels before
      { s with phase := .restoring j.entries.length (.ofJournal j) true false } := by
  unfold DeletionInv at h
  rw [hphase] at h
  obtain ⟨-, hle, hst⟩ := h
  exact ⟨hguard, rfl, rfl, Nat.le_refl _, (hst.journal hw hfresh).2.own, .inr ⟨next, hle, hst⟩⟩

/-- The transaction removes the guard rows: from here on the files are to be gone. -/
theorem inv_commit {next : Nat} (h : DeletionInv root j rels before s)
    (hphase : s.phase = .staging next) :
    DeletionInv root j rels before
      { s with rows := s.rows.filter (· ∉ j.guards), phase := .removing false } := by
  unfold DeletionInv at h
  rw [hphase] at h
  obtain ⟨hstaged, -, hst⟩ := h
  have hwhole := (hst.journal hw hfresh).2
  refine ⟨hwhole.own, .inr ⟨?_, hstaged ▸ hst.gone hw hfresh, hwhole⟩⟩
  rw [guarded, ← Bool.not_eq_true, List.any_eq_true]
  rintro ⟨g, hg, hrow⟩
  simp only [List.mem_filter, decide_eq_true_eq] at hrow
  exact hrow.2 hg

theorem inv_restoreDone {ok recovery : Bool}
    (h : DeletionInv root j rels before s) (hphase : s.phase = .restoring 0 work ok recovery) :
    ok = true ∧ DeletionInv root j rels before { s with phase := .removing recovery } := by
  unfold DeletionInv at h
  rw [hphase] at h
  obtain ⟨hguard, -, hok, -, hown, hk⟩ := h
  refine ⟨hok, hown, .inl ⟨hguard, ?_⟩⟩
  rcases hk with hback | ⟨k, hk, hst⟩
  · exact hback
  · obtain rfl := Nat.le_zero.mp hk
    exact hst.zero hw hfresh

omit hw hfresh in
theorem inv_unlink {u : Tree} (h : DeletionInv root j rels before s)
    (hphase : s.phase = .removing recovery) (hunder : operationRoot root j.operationId <+: p)
    (hu : s.tree.remove p = some u) :
    DeletionInv root j rels before { s with tree := u } := by
  unfold DeletionInv at h ⊢
  rw [hphase] at h
  simp only [hphase]
  obtain ⟨hown, ⟨hguard, hback⟩ | ⟨hguard, hg, hwhole⟩⟩ := h
  · exact ⟨hown.remove hu, .inl ⟨hguard, hback.remove hunder hu⟩⟩
  · exact ⟨hown.remove hu, .inr ⟨hguard, hg.remove hunder hu, hwhole.remove hu⟩⟩

omit hw hfresh in
theorem inv_removed (h : DeletionInv root j rels before s)
    (hphase : s.phase = .removing recovery)
    (hgone : s.tree.has (operationRoot root j.operationId) = false) :
    DeletionInv root j rels before
      { s with phase := if recovery then .recovered else .stopped } := by
  obtain ⟨hv, hno⟩ := vacant_of_not_has hgone
  unfold DeletionInv at h
  rw [hphase] at h
  obtain ⟨hown, h⟩ := h
  cases recovery with
  | true =>
    have hdir : ¬ s.tree.isDir (operationRoot root j.operationId) = true :=
      fun hdir => not_mem_of_not_has hgone _ (isDir_iff.mp hdir)
    refine ⟨hown, by rw [found, if_neg hdir], ?_⟩
    rcases h with h | ⟨hguard, hg, -⟩
    · exact .inl h
    · exact .inr ⟨hguard, hg, hv, hno⟩
  | false =>
    refine ⟨hown, ?_⟩
    rcases h with ⟨hguard, hback⟩ | ⟨hguard, hg, hwhole⟩
    · exact .inl ⟨hguard, .inl hback⟩
    · exact .inr ⟨hguard, hg, hwhole, .inr ⟨hv, hno⟩⟩

/-- **The step lemma.** -/
theorem inv_step (h : DeletionInv root j rels before s) (a : DeletionAction)
    (hsafe : CrashesSafely root j rels s a) (hstep : deletionStep root j s a = some t) :
    DeletionInv root j rels before t := by
  cases a with
  | crash =>
    cases hstep
    exact inv_crash hw hfresh h hsafe
  | recover =>
    simp only [deletionStep] at hstep
    split at hstep
    · next hphase =>
      cases hstep
      exact inv_recover hw hfresh h (.inl hphase)
    · next hphase =>
      cases hstep
      exact inv_recover hw hfresh h (.inr hphase)
    · cases hstep
  | mkdir =>
    simp only [deletionStep] at hstep
    split at hstep
    · next hphase =>
      rw [Option.bind_eq_some_iff] at hstep
      obtain ⟨p, hp, hstep⟩ := hstep
      rw [Option.map_eq_some_iff] at hstep
      obtain ⟨u, hu, rfl⟩ := hstep
      unfold DeletionInv at h ⊢
      rw [hphase] at h
      simp only [hphase]
      have hpre := (List.mem_inits _ _).mp (List.mem_of_find?_eq_some hp)
      exact ⟨h.1, h.2.create hpre hu⟩
    · cases hstep
  | writeJournal =>
    simp only [deletionStep] at hstep
    split at hstep
    · next hphase =>
      rw [Option.map_eq_some_iff] at hstep
      obtain ⟨u, hu, rfl⟩ := hstep
      unfold DeletionInv at h
      rw [hphase] at h
      refine ⟨h.1, Nat.zero_le _, u, based_of_create h.2 hu, ?_⟩
      rw [List.take_zero]
      rfl
    · cases hstep
  | tornJournal written =>
    simp only [deletionStep] at hstep
    split at hstep
    · next hphase =>
      split at hstep
      · rw [Option.map_eq_some_iff] at hstep
        obtain ⟨u, hu, rfl⟩ := hstep
        exact inv_tornJournal hfresh h hphase hsafe hu
      · cases hstep
    · cases hstep
  | stageNext =>
    simp only [deletionStep] at hstep
    split at hstep
    · next next hphase =>
      rw [Option.bind_eq_some_iff] at hstep
      obtain ⟨e, he, hstep⟩ := hstep
      rw [Option.map_eq_some_iff] at hstep
      obtain ⟨u, hu, rfl⟩ := hstep
      unfold DeletionInv at h
      rw [hphase] at h
      obtain ⟨hlt, -⟩ := List.getElem?_eq_some_iff.mp he
      exact ⟨rfl, hlt, h.2.2.next hw hfresh he hu⟩
    · cases hstep
  | stageFails =>
    simp only [deletionStep] at hstep
    split at hstep
    · next next hphase =>
      split at hstep
      · cases hstep; exact inv_undo hw hfresh h hphase hsafe
      · cases hstep
    · cases hstep
  | commit =>
    simp only [deletionStep] at hstep
    split at hstep
    · next next hphase =>
      split at hstep
      · cases hstep; exact inv_commit hw hfresh h hphase
      · cases hstep
    · cases hstep
  | abort =>
    simp only [deletionStep] at hstep
    split at hstep
    · next next hphase =>
      split at hstep
      · cases hstep; exact inv_undo hw hfresh h hphase hsafe
      · cases hstep
    · cases hstep
  | restoreNext =>
    simp only [deletionStep] at hstep
    split at hstep
    · next m work ok recovery hphase =>
      rw [Option.map_eq_some_iff] at hstep
      obtain ⟨e, he, rfl⟩ := hstep
      exact inv_restoreNext hw hfresh h hphase he
    · cases hstep
  | restoreDone =>
    simp only [deletionStep] at hstep
    split at hstep
    · next work ok recovery hphase =>
      obtain ⟨hok, hinv⟩ := inv_restoreDone hw hfresh h hphase
      rw [if_pos hok] at hstep
      cases hstep
      exact hinv
    · cases hstep
  | unlink p =>
    simp only [deletionStep] at hstep
    split at hstep
    · next recovery hphase =>
      split at hstep
      · next hunder =>
        rw [Option.map_eq_some_iff] at hstep
        obtain ⟨u, hu, rfl⟩ := hstep
        exact inv_unlink h hphase hunder hu
      · cases hstep
    · cases hstep
  | removed =>
    simp only [deletionStep] at hstep
    split at hstep
    · next recovery hphase =>
      split at hstep
      · cases hstep
      · next hgone =>
        cases hstep
        exact inv_removed h hphase (Bool.not_eq_true _ ▸ hgone)
    · cases hstep

theorem inv_files (h : DeletionInv root j rels before s) (hguard : guarded j s = true) :
    ∀ p content, (p, .file content) ∈ before.nodes → (p, .file content) ∈ s.tree.nodes ∨
      ∃ e ∈ j.entries, ∃ rest, p = originalPath root e ++ rest ∧
        (quarantinePath root e ++ rest, .file content) ∈ s.tree.nodes := by
  intro p content hp
  have hout : ¬ operationRoot root j.operationId <+: p :=
    hfresh p (List.mem_map_of_mem (f := Prod.fst) hp)
  have hback : Back root j.operationId before s.tree → (p, .file content) ∈ s.tree.nodes :=
    fun hb => (hb.files p content hout).mpr hp
  have hstaged : ∀ k, StagedTo root j before k s.tree → (p, .file content) ∈ s.tree.nodes ∨
      ∃ e ∈ j.entries, ∃ rest, p = originalPath root e ++ rest ∧
        (quarantinePath root e ++ rest, .file content) ∈ s.tree.nodes := by
    intro k hst
    obtain ⟨base, hbase, -, htree⟩ := hst.tree hw hfresh
    rcases htree.kept p _ hout ((hbase.files p content hout).mpr hp) with h | ⟨e, he, rest, h⟩
    · exact .inl h
    · exact .inr ⟨e, List.mem_of_mem_take he, rest, h⟩
  have hfalse : ¬ guarded j s = false := by
    rw [hguard]
    decide
  unfold DeletionInv at h
  cases hphase : s.phase with
  | preparing =>
    rw [hphase] at h
    exact .inl (hback (back_of_made hfresh h.2).1)
  | staging next =>
    rw [hphase] at h
    exact hstaged next h.2.2
  | restoring remaining work ok recovery =>
    rw [hphase] at h
    rcases h.2.2.2.2.2 with hb | ⟨k, -, hst⟩
    · exact .inl (hback hb)
    · exact hstaged k hst
  | removing recovery =>
    rw [hphase] at h
    rcases h.2 with ⟨-, hb⟩ | ⟨hno, -⟩
    · exact .inl (hback hb)
    · exact absurd hno hfalse
  | stopped =>
    rw [hphase] at h
    rcases h.2 with ⟨-, hb | ⟨-, hb | ⟨k, -, hst⟩⟩⟩ | ⟨hno, -⟩
    · exact .inl (hback hb)
    · exact .inl (hback hb)
    · exact hstaged k hst
    · exact absurd hno hfalse
  | recovered =>
    rw [hphase] at h
    rcases h.2.2 with ⟨-, hb⟩ | ⟨hno, -⟩
    · exact .inl (hback hb)
    · exact absurd hno hfalse

end Invariant

/-! ## Atomicity -/

/-- **A deletion is whole or undone.** While a guard row is there, no file is lost;
once a recovery has completed, every file is back, or, with no guard row left, none of
those staged is, and the quarantine is empty and the journal gone; and a further
recovery changes nothing. -/
structure Atomic (root : AbsPath) (j : DeletionJournal) (before : Tree) (s : DeletionState) : Prop where
  lossless : guarded j s = true → ∀ p content, (p, .file content) ∈ before.nodes →
    (p, .file content) ∈ s.tree.nodes ∨
      ∃ e ∈ j.entries, ∃ rest, p = originalPath root e ++ rest ∧
        (quarantinePath root e ++ rest, .file content) ∈ s.tree.nodes
  restored : s.phase = .recovered → guarded j s = true → Back root j.operationId before s.tree
  cleaned : s.phase = .recovered → guarded j s = false → Gone root j before s.staged s.tree ∧
    Vacant root j.operationId s.tree ∧ s.tree.has (journalPath root j.operationId) = false
  again : s.phase = .recovered → deletionStep root j s .recover = some s

/-- **Crash atomicity of a deletion**, over every run whose crashes find the rest
recoverable, however many they are. -/
theorem deletion_atomic (root : AbsPath) (candidates rels : List (List Char))
    (guards : List DeletionGuard) (operationId : Uuid) (createdAt : IsoInstant) (j : DeletionJournal)
    (before : Tree) (hrels : relativePaths root candidates = .ok rels)
    (hstage : stageJournal root candidates guards operationId createdAt = .ok j)
    (hfresh : Fresh root operationId.text before) (s : DeletionState)
    (hreach : Reach (deletionMachine root j before) (CrashesSafely root j rels) s) :
    Atomic root j before s := by
  obtain ⟨rels', hrels', -, hop, hw⟩ := stageJournal_written hstage
  rw [hrels] at hrels'
  cases hrels'
  rw [← hop] at hfresh
  have hinv : DeletionInv root j rels before s := by
    refine hreach.invariant ?_ (fun s a t h hsafe hstep => inv_step hw hfresh h a hsafe hstep)
    rintro s ⟨htree, hphase, hstaged⟩
    unfold DeletionInv
    rw [hphase]
    exact ⟨hstaged, htree ▸ Made.refl _ _⟩
  refine ⟨inv_files hw hfresh hinv, ?_, ?_, ?_⟩
  · intro hphase hguard
    unfold DeletionInv at hinv
    rw [hphase] at hinv
    rcases hinv.2.2 with ⟨-, hback⟩ | ⟨hno, -⟩
    · exact hback
    · rw [hguard] at hno
      cases hno
  · intro hphase hguard
    unfold DeletionInv at hinv
    rw [hphase] at hinv
    rcases hinv.2.2 with ⟨hyes, -⟩ | ⟨-, hclean⟩
    · rw [hguard] at hyes
      cases hyes
    · exact hclean
  · intro hphase
    unfold DeletionInv at hinv
    rw [hphase] at hinv
    simp only [deletionStep, hphase, recoverStep, hinv.2.1]
    rw [← hphase]

/-! One recording of a camera, its guard row, and the deletion of both. -/

def oneSegment : Tree where
  nodes := [([], .dir), (["rec".toList], .dir), (["rec".toList, "cam".toList], .dir),
    ("rec".toList :: segmentNames 0, .file ['v'])]
  nodup := by decide
  closed := closed_of_dropLast (by decide)

def segmentGuard : DeletionGuard := ⟨.recording, ['r']⟩

def segmentJournal : DeletionJournal where
  operationId := someOperation.text
  createdAt := someInstant.text
  guards := [segmentGuard]
  entries := makeEntries someOperation.text (segments 1)

def beginning : DeletionState where
  tree := oneSegment
  rows := [segmentGuard]
  phase := .preparing
  staged := 0

theorem oneSegment_fresh : Fresh recordingsRoot someOperation.text oneSegment := by
  intro p hp
  revert p
  show ∀ p ∈ oneSegment.paths, _
  decide

theorem segmentJournal_staged :
    relativePaths recordingsRoot (segments 1) = .ok (segments 1) ∧
      stageJournal recordingsRoot (segments 1) [segmentGuard] someOperation someInstant =
        .ok segmentJournal := by
  refine ⟨by rfl, ?_⟩
  have hmap : (segments 1).mapM (fun c => assertUnderRoot recordingsRoot.names
      (candidatePath recordingsRoot c)) = .ok (segments 1) := by rfl
  have hdups : (segments 1).eraseDups = segments 1 := by rfl
  rw [stageJournal, hmap]
  show Except.ok _ = _
  rw [hdups]
  rfl

instance decidableReadable (guards : List DeletionGuard) (rels : List (List Char)) :
    Decidable (Readable guards rels) :=
  decidable_of_iff (journalLength guards rels ≤ 1000000 ∧
    ∀ g ∈ guards, g.id ≠ [] ∧ JsText.length g.id ≤ 256) ⟨fun h => ⟨h.1, h.2⟩, fun h => ⟨h.length, h.ids⟩⟩

instance decidableRecoverable (root : AbsPath) (j : DeletionJournal) (rels : List (List Char))
    (s : DeletionState) : Decidable (Recoverable root j rels s) :=
  inferInstanceAs (Decidable (_ ∨ _))

def crashesSafely (root : AbsPath) (j : DeletionJournal) (rels : List (List Char))
    (s : DeletionState) (a : DeletionAction) : Bool :=
  match a with
  | .crash => decide (Recoverable root j rels s)
  | .tornJournal _ => guarded j s
  | .stageFails => guarded j s
  | .abort => guarded j s
  | _ => true

theorem crashesSafely_iff (root : AbsPath) (j : DeletionJournal) (rels : List (List Char))
    (s : DeletionState) (a : DeletionAction) (h : crashesSafely root j rels s a = true) :
    CrashesSafely root j rels s a := by
  cases a with
  | crash =>
    have hsafe : Recoverable root j rels s := by simpa [crashesSafely] using h
    exact hsafe
  | tornJournal written => exact h
  | stageFails => exact h
  | abort => exact h
  | _ => trivial

/-- A crash once the file is in quarantine, and the recovery after it. -/
theorem deletion_atomic_crashed : ∃ s,
    Reach (deletionMachine recordingsRoot segmentJournal oneSegment)
        (CrashesSafely recordingsRoot segmentJournal (segments 1)) s ∧
      s.phase = .recovered ∧ Atomic recordingsRoot segmentJournal oneSegment s := by
  have hrun : ((deletionMachine recordingsRoot segmentJournal oneSegment).run
      (crashesSafely recordingsRoot segmentJournal (segments 1)) beginning
      [.mkdir, .mkdir, .mkdir, .writeJournal, .stageNext, .crash, .recover, .restoreNext, .restoreDone,
        .unlink (journalPath recordingsRoot someOperation.text),
        .unlink (quarantineRoot recordingsRoot someOperation.text),
        .unlink (operationRoot recordingsRoot someOperation.text), .removed]).map (·.phase) =
      some .recovered := by
    decide +kernel
  rw [Option.map_eq_some_iff] at hrun
  obtain ⟨s, hs, hphase⟩ := hrun
  have hreach : Reach (deletionMachine recordingsRoot segmentJournal oneSegment)
      (CrashesSafely recordingsRoot segmentJournal (segments 1)) s :=
    ⟨beginning, ⟨rfl, rfl, rfl⟩, path_of_run (crashesSafely_iff _ _ _) _ hs⟩
  exact ⟨s, hreach, hphase, deletion_atomic recordingsRoot (segments 1) (segments 1) [segmentGuard]
    someOperation someInstant segmentJournal oneSegment segmentJournal_staged.1
    segmentJournal_staged.2 oneSegment_fresh s hreach⟩

/-- The removal of a committed deletion may take the journal first: a crash then leaves
the file in quarantine, where no recovery finds it. -/
theorem deletion_leaves_quarantine : ∃ s,
    Reach (deletionMachine recordingsRoot segmentJournal oneSegment) Always s ∧
      ¬ Atomic recordingsRoot segmentJournal oneSegment s := by
  have hrun : ((deletionMachine recordingsRoot segmentJournal oneSegment).run anyStep beginning
      [.mkdir, .mkdir, .mkdir, .writeJournal, .stageNext, .commit,
        .unlink (journalPath recordingsRoot someOperation.text), .crash, .recover]).map
      (fun s => (s.phase, guarded segmentJournal s,
        decide (Vacant recordingsRoot segmentJournal.operationId s.tree))) =
      some (.recovered, false, false) := by
    rfl
  obtain ⟨s, hreach, heq⟩ := reach_of_anyStep hrun ⟨rfl, rfl, rfl⟩
  simp only [Prod.mk.injEq, decide_eq_false_iff_not] at heq
  refine ⟨s, hreach, ?_⟩
  intro hatomic
  exact heq.2.2 (hatomic.cleaned heq.1 heq.2.1).2.1

end Drac.Recordings
