import Drac.Lib.FaultyFiles
import Drac.Recordings.FileDeletion

/-
  Staging a deletion, call by call.

  Correspondence (`transactional-file-delete.helper.ts` ↔ Lean):
    writeDurableJournal   ↔ `writeJournalCalls`
    stageFileDeletion     ↔ `stageFileDeletion`, the turn of its loop `stageOne`
    restoreJournal        ↔ `restoreJournal`, the turn of its loop `restoreOne`
    StagedFileDeletion    ↔ the same name, with the journal its functions close over
  Any call may fail, those of the staging by one list of faults and those of the undo in its
  `catch` by another. Where none fails, a turn is `stageEntry` and `restoreEntry`.
-/

namespace Drac.Recordings

open PosixPath Files FileIO

abbrev Calls := FileIO Name Char

/-! ## Errors -/

/-- A line of what `restoreJournal` reports. -/
inductive RestoreProblem where
  /-- `destino já existe: ${basename(original)}` -/
  | alreadyThere (name : Option Name)
  /-- `${basename(original)}: ${error.message}` -/
  | failed (name : Option Name) (error : FileError)
  deriving DecidableEq, Repr

inductive RestoreError where
  /-- `Falha ao restaurar exclusão não confirmada: ${errors.join('; ')}` -/
  | notRestored (problems : List RestoreProblem)
  | call (error : FileError)
  deriving DecidableEq, Repr

inductive StageFailure where
  | refused (error : StageError)
  | call (error : FileError)
  /-- `AggregateError`: `Falha ao preparar exclusão e ao restaurar os arquivos.` -/
  | both (error : FileError) (rollbackError : RestoreError)
  deriving DecidableEq, Repr

/-! ## Staging -/

/-- `changedDirectories.add(directory)`. -/
def noteDirectory (changed : List Path) (directory : Path) : List Path :=
  if directory ∈ changed then changed else changed ++ [directory]

def flushAll : List Path → Calls Unit
  | [] => pure ()
  | p :: ps => do
    flush p
    flushAll ps

def writeJournalCalls (root : AbsPath) (j : DeletionJournal) : Calls Unit := do
  mkdirs (quarantineRoot root j.operationId)
  writeNew (journalPath root j.operationId) (journalText j)
  flush (journalPath root j.operationId)
  flush (operationRoot root j.operationId)
  flush (operationsRoot root)

/-- What was staged, so far. -/
structure Staging where
  movedFiles : Nat := 0
  missingFiles : Nat := 0
  changedDirectories : List Path := []

def stageOne (root : AbsPath) (st : Staging) (e : JournalEntry) : Calls Staging := do
  let original := originalPath root e
  let quarantined := quarantinePath root e
  if ← pathExists original then
    rename original quarantined
    return { st with
      movedFiles := st.movedFiles + 1
      changedDirectories :=
        noteDirectory (noteDirectory st.changedDirectories original.dropLast) quarantined.dropLast }
  else
    return { st with missingFiles := st.missingFiles + 1 }

def stageAll (root : AbsPath) : List JournalEntry → Staging → Calls Staging
  | [], st => pure st
  | e :: es, st => do
    let next ← stageOne root st e
    stageAll root es next

/-- The `try` of the staging: the files one by one, then the directories they were in. -/
def stageFiles (root : AbsPath) (j : DeletionJournal) : Calls Staging := do
  let st ← stageAll root j.entries {}
  flushAll st.changedDirectories
  return st

/-! ## Undoing -/

/-- What was restored, so far. -/
structure Restoring where
  errors : List RestoreProblem := []
  changedDirectories : List Path := []

def restoreOne (root : AbsPath) (st : Restoring) (e : JournalEntry) : Calls Restoring := do
  let original := originalPath root e
  let quarantined := quarantinePath root e
  if ← pathExists quarantined then
    if ← pathExists original then
      return { st with errors := st.errors ++ [.alreadyThere original.getLast?] }
    else
      let back ← attempt (do
        mkdirs original.dropLast
        rename quarantined original)
      match back with
      | .ok () => return { st with
          changedDirectories := noteDirectory
            (noteDirectory st.changedDirectories original.dropLast) quarantined.dropLast }
      | .error error => return { st with errors := st.errors ++ [.failed original.getLast? error] }
  else
    return st

def restoreAll (root : AbsPath) : List JournalEntry → Restoring → Calls Restoring
  | [], st => pure st
  | e :: es, st => do
    let next ← restoreOne root st e
    restoreAll root es next

/-- What could not be restored; where all could, the operation is gone. -/
def restoreJournal (root : AbsPath) (j : DeletionJournal) : Calls (List RestoreProblem) := do
  let st ← restoreAll root j.entries.reverse {}
  if st.errors = [] then
    flushAll st.changedDirectories
    rm (operationRoot root j.operationId)
    flush (operationsRoot root)
    return []
  else
    return st.errors

/-- How `restoreJournal` ends. -/
def undone : Except FileError (List RestoreProblem) → Except RestoreError Unit
  | .ok [] => .ok ()
  | .ok problems => .error (.notRestored problems)
  | .error error => .error (.call error)

def runRestore (root : AbsPath) (j : DeletionJournal) (faults : Faults Name) (t : Tree) :
    Except RestoreError Unit × Tree :=
  let r := restoreJournal root j faults ⟨t, 0⟩
  (undone r.1, r.2.tree)

/-! ## The staged deletion -/

/-- What the staging gives its caller. -/
structure StagedFileDeletion where
  operationId : Name
  movedFiles : Nat
  missingFiles : Nat
  journal : DeletionJournal

def StagedFileDeletion.rollback (root : AbsPath) (staged : StagedFileDeletion)
    (faults : Faults Name) (t : Tree) : Except RestoreError Unit × Tree :=
  runRestore root staged.journal faults t

/-- What the staging of a journal comes to, and the undo where it fails. -/
def stageOrUndo (root : AbsPath) (j : DeletionJournal) (staging undo : Faults Name)
    (d : Disk Name Char) : Except StageFailure StagedFileDeletion × Tree :=
  match stageFiles root j staging d with
  | (.ok st, d) =>
    (.ok { operationId := j.operationId, movedFiles := st.movedFiles,
           missingFiles := st.missingFiles, journal := j }, d.tree)
  | (.error error, d) =>
    match runRestore root j undo d.tree with
    | (.ok (), t) => (.error (.call error), t)
    | (.error rollbackError, t) => (.error (.both error rollbackError), t)

def stageFileDeletion (root : AbsPath) (candidates : List (List Char)) (guards : List DeletionGuard)
    (operationId : Uuid) (createdAt : IsoInstant) (staging undo : Faults Name) (t : Tree) :
    Except StageFailure StagedFileDeletion × Tree :=
  match mkdirs root.names staging ⟨t, 0⟩ with
  | (.error error, d) => (.error (.call error), d.tree)
  | (.ok (), d) =>
    match stageJournal root candidates guards operationId createdAt with
    | .error error => (.error (.refused error), d.tree)
    | .ok j =>
      match writeJournalCalls root j staging d with
      | (.error error, d) => (.error (.call error), d.tree)
      | (.ok (), d) => stageOrUndo root j staging undo d

end Drac.Recordings
