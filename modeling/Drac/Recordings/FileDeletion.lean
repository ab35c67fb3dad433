import Drac.Lib.Json
import Drac.Lib.PosixPath
import Drac.Lib.FileTree

/-
  Deleting files by a journal.

  Correspondence (`transactional-file-delete.helper.ts` ↔ Lean):
    DeletionGuard, JournalEntry, DeletionJournal, assertUnderRoot ↔ the same names
    journalPaths              ↔ `operationsRoot`, `operationRoot`, `quarantineRoot`,
                                `journalPath`
    validateJournal           ↔ `validateJournal`, with `readEntry` and `readGuard`
    writeDurableJournal       ↔ `writeDurableJournal`, its text `journalText`
    stageFileDeletion         ↔ `stageJournal` (the journal it makes) and `stageEntry` (the
                                turn of its loop)
    restoreJournal            ↔ `restoreEntries` and the removal of the operation
    cleanupCommittedJournal   ↔ the removal of the operation, `FileTree.prune`
    recoverPendingFileDeletions   ↔ the turn of its loop, `recoverOperation`

  A path of the file system is resolved, and no symbolic link stands on it. What is
  flushed to disk is not told apart from what is written.
-/

namespace Drac.Recordings

open JsText PosixPath Files

inductive GuardModel where
  | recording
  | exportedClip
  deriving DecidableEq, Repr

def GuardModel.text : GuardModel → List Char
  | .recording => "recording".toList
  | .exportedClip => "exportedClip".toList

/-- A row that is there as long as the deletion is not confirmed. -/
structure DeletionGuard where
  model : GuardModel
  id : List Char
  deriving DecidableEq

/-- One file of a journal, and its place in the quarantine. -/
structure JournalEntry where
  originalRelative : List Char
  quarantineRelative : List Char
  deriving DecidableEq

structure DeletionJournal where
  operationId : List Char
  createdAt : List Char
  guards : List DeletionGuard
  entries : List JournalEntry

abbrev Tree := FileTree Name (List Char)

def journalDir : Name := ".drac-file-deletions".toList

def journalFile : Name := "journal.json".toList

def quarantineDir : Name := "files".toList

/-! ## Texts of a fixed shape -/

/-- Each character is of its class. -/
def fits : List (Char → Bool) → List Char → Bool
  | [], [] => true
  | p :: ps, c :: cs => p c && fits ps cs
  | _, _ => false

def isLowerHex (c : Char) : Bool := ('0' ≤ c && c ≤ '9') || ('a' ≤ c && c ≤ 'f')

def isHex (c : Char) : Bool := isLowerHex c || ('A' ≤ c && c ≤ 'F')

def isDash (c : Char) : Bool := c = '-'

def uuidShape : List (Char → Bool) :=
  List.replicate 8 isLowerHex ++ [isDash] ++ List.replicate 4 isLowerHex ++ [isDash] ++
    List.replicate 4 isLowerHex ++ [isDash] ++ List.replicate 4 isLowerHex ++ [isDash] ++
    List.replicate 12 isLowerHex

/-- `/^[0-9a-f]{8}-[0-9a-f-]{27}$/i`. -/
def operationShape : List (Char → Bool) :=
  List.replicate 8 isHex ++ [isDash] ++ List.replicate 27 (fun c => isHex c || isDash c)

def isStamp (c : Char) : Bool :=
  ('0' ≤ c && c ≤ '9') || c = '-' || c = 'T' || c = ':' || c = '.' || c = 'Z'

/-- What `randomUUID` gives. -/
structure Uuid where
  text : List Char
  shaped : fits uuidShape text = true

/-- What `toISOString` gives for a year of four digits. -/
structure IsoInstant where
  text : List Char
  shaped : fits (List.replicate 24 isStamp) text = true

/-! ## Paths -/

inductive StageError where
  /-- `A raiz de gravações não pode ser movida ou removida.` -/
  | rootItself
  /-- `O journal de exclusão não pode ser alvo de exclusão.` -/
  | journalTarget
  /-- `Artefato fora da raiz de gravações.` -/
  | outsideRoot
  deriving DecidableEq, Repr

/-- `text.startsWith(`${prefix}/`)`. -/
def startsBelow (text pre : List Char) : Bool := pre ++ ['/'] <+: text

def parentDir : List Char := ['.', '.']

def assertUnderRoot (root candidate : Path) : Except StageError (List Char) :=
  let rel := relativeTo root candidate
  if rel = [] ∨ rel = ['.'] then .error .rootItself
  else if rel = journalDir ∨ startsBelow rel journalDir then .error .journalTarget
  else if startsBelow rel parentDir ∨ rel = parentDir ∨ isAbsolute rel then .error .outsideRoot
  else .ok rel

def operationsRoot (root : AbsPath) : Path := root.names ++ [journalDir]

def operationRoot (root : AbsPath) (operationId : Name) : Path :=
  operationsRoot root ++ [operationId]

def quarantineRoot (root : AbsPath) (operationId : Name) : Path :=
  operationRoot root operationId ++ [quarantineDir]

def journalPath (root : AbsPath) (operationId : Name) : Path :=
  operationRoot root operationId ++ [journalFile]

/-! ## Staging -/

def candidatePath (root : AbsPath) (candidate : List Char) : Path :=
  if isAbsolute candidate then resolve root.names candidate
  else joinUnder root.names candidate

/-- `String(index).padStart(8, '0')`. -/
def padIndex (i : Nat) : List Char :=
  List.replicate (8 - (Nat.toDigits 10 i).length) '0' ++ Nat.toDigits 10 i

def quarantinePrefix (operationId : Name) : List Char :=
  joinRelative [journalDir, operationId, quarantineDir]

def makeEntries (operationId : Name) (rels : List (List Char)) : List JournalEntry :=
  rels.zipIdx.map (fun r => {
    originalRelative := r.1
    quarantineRelative := joinRelative [journalDir, operationId, quarantineDir, padIndex r.2] })

def stageJournal (root : AbsPath) (candidates : List (List Char)) (guards : List DeletionGuard)
    (operationId : Uuid) (createdAt : IsoInstant) : Except StageError DeletionJournal := do
  let rels ← candidates.mapM (fun c => assertUnderRoot root.names (candidatePath root c))
  return {
    operationId := operationId.text
    createdAt := createdAt.text
    guards := guards
    entries := makeEntries operationId.text rels.eraseDups }

def guardValue (g : DeletionGuard) : Json.Value :=
  .obj [("model".toList, .str g.model.text), ("id".toList, .str g.id)]

def entryValue (e : JournalEntry) : Json.Value :=
  .obj [("originalRelative".toList, .str e.originalRelative),
    ("quarantineRelative".toList, .str e.quarantineRelative)]

def journalMembers (j : DeletionJournal) : List (List Char × Json.Value) :=
  [("version".toList, .num 1), ("operationId".toList, .str j.operationId),
    ("createdAt".toList, .str j.createdAt), ("guards".toList, .arr (j.guards.map guardValue)),
    ("entries".toList, .arr (j.entries.map entryValue))]

def journalText (j : DeletionJournal) : List Char :=
  Json.stringify (.obj (journalMembers j)) ++ ['\n']

def writeDurableJournal (root : AbsPath) (t : Tree) (j : DeletionJournal) : Option Tree :=
  (t.mkdirs (quarantineRoot root j.operationId)).bind
    (·.create (journalPath root j.operationId) (.file (journalText j)))

def originalPath (root : AbsPath) (e : JournalEntry) : Path := joinUnder root.names e.originalRelative

def quarantinePath (root : AbsPath) (e : JournalEntry) : Path :=
  joinUnder root.names e.quarantineRelative

def stageEntry (root : AbsPath) (t : Tree) (e : JournalEntry) : Option Tree :=
  if t.has (originalPath root e) then t.rename (originalPath root e) (quarantinePath root e)
  else some t

def stageEntries (root : AbsPath) (t : Tree) (es : List JournalEntry) : Option Tree :=
  es.foldlM (stageEntry root) t

/-! ## Restoring -/

/-- One file back from quarantine, where it is there: the tree after it, and whether it
went well. -/
def restoreEntry (root : AbsPath) (t : Tree) (e : JournalEntry) : Tree × Bool :=
  if t.has (quarantinePath root e) = false then (t, true)
  else if t.has (originalPath root e) then (t, false)
  else
    match t.mkdirs (originalPath root e).dropLast with
    | none => (t, false)
    | some made =>
      match made.rename (quarantinePath root e) (originalPath root e) with
      | none => (made, false)
      | some moved => (moved, true)

/-- All files back, last first; an error does not stop the others. -/
def restoreEntries (root : AbsPath) (t : Tree) (es : List JournalEntry) : Tree × Bool :=
  es.reverse.foldl (fun st e =>
    let r := restoreEntry root st.1 e
    (r.1, st.2 && r.2)) (t, true)

/-! ## Reading the journal -/

/-- The quarantine of an entry is the operation's own. -/
def quarantineAllowed (root : AbsPath) (operationId : Name) (quarantineRelative : List Char) :
    Bool :=
  let quarantine := relativeTo root.names (resolve root.names quarantineRelative)
  !(startsBelow quarantine parentDir || quarantine = parentDir || isAbsolute quarantine ||
    (quarantine ≠ quarantinePrefix operationId &&
      !startsBelow quarantine (quarantinePrefix operationId)))

def readEntry (root : AbsPath) (operationId : Name) (v : Json.Value) : Option JournalEntry :=
  match Json.textField v "originalRelative".toList, Json.textField v "quarantineRelative".toList with
  | some original, some quarantine =>
    if isAbsolute original || isAbsolute quarantine then none
    else
      match assertUnderRoot root.names (joinUnder root.names original) with
      | .error _ => none
      | .ok _ =>
        if quarantineAllowed root operationId quarantine then
          some { originalRelative := original, quarantineRelative := quarantine }
        else none
  | _, _ => none

def readModel (text : List Char) : Option GuardModel :=
  if text = GuardModel.recording.text then some .recording
  else if text = GuardModel.exportedClip.text then some .exportedClip
  else none

def readGuard (v : Json.Value) : Option DeletionGuard :=
  match (Json.textField v "model".toList).bind readModel, Json.textField v "id".toList with
  | some model, some id =>
    if id = [] ∨ 256 < JsText.length id then none else some { model := model, id := id }
  | _, _ => none

structure JournalWork where
  guards : List DeletionGuard
  entries : List JournalEntry
  deriving DecidableEq

def validateJournal (root : AbsPath) (expectedOperationId : Name) (v : Json.Value) :
    Option JournalWork :=
  if Json.isNumber 1 (Json.field v "version".toList) &&
      Json.textField v "operationId".toList = some expectedOperationId &&
      fits operationShape expectedOperationId then
    match Json.itemsField v "entries".toList, Json.itemsField v "guards".toList with
    | some entries, some guards =>
      if 100000 < entries.length ∨ 100000 < guards.length then none
      else
        (entries.mapM (readEntry root expectedOperationId)).bind (fun es =>
          (guards.mapM readGuard).map (fun gs => { guards := gs, entries := es }))
    | _, _ => none
  else none

/-- The journal of a directory, where recovery accepts it. -/
def readJournal (root : AbsPath) (dirName : Name) (raw : List Char) : Option JournalWork :=
  if 1000000 < JsText.length raw then none
  else (Json.parse raw).bind (validateJournal root dirName)

/-! ## Recovery -/

/-- What recovery did with an operation. -/
inductive RecoveryOutcome where
  | restored
  | cleaned
  | failed
  deriving DecidableEq, Repr

/-- One operation: its files back while a guard exists, else none of them. -/
def recoverOperation (root : AbsPath) (guardExists : DeletionGuard → Bool) (t : Tree)
    (dirName : Name) : Tree × RecoveryOutcome :=
  match (t.readFile (journalPath root dirName)).bind (readJournal root dirName) with
  | none => (t, .failed)
  | some work =>
    if work.guards.any guardExists then
      let r := restoreEntries root t work.entries
      if r.2 then (r.1.prune (operationRoot root dirName), .restored) else (r.1, .failed)
    else (t.prune (operationRoot root dirName), .cleaned)

end Drac.Recordings
