import Drac.Lib.CursorPaging
import Drac.Lib.JsText
import Drac.Lib.PosixPath
import Drac.Lib.Runs

/-
  Recordings offloaded to a bucket.

  Correspondence (`cloud-offload.service.ts`, `s3-client.ts`, `storage-policy.ts`,
  `safe-file.helper.ts` ↔ Lean):
    StoragePolicy, enabledTriggerModes   ↔ the same names
    ensureFileUnderRoot, isWithin        ↔ the same names
    joinS3Key, buildCloudKey             ↔ the same names
    uploadPending     ↔ `Stage.planning`, `listing` and `uploading`; `nextUpload` is the head
                        of its loop, `turnUpload` what follows each of its awaits
    putObjectMultipart   ↔ `initiating`, `readingPart`, `sendingPart`, `completing`
    pruneUploaded     ↔ `pruning`, `selecting`, `unlinking`, `markingDeleted`; `nextPrune` is
                        the head of its loop
    runOnce           ↔ `Label.call`, `configure` and `goto`, with the flag `running`

  A cycle stands at an await; what it awaits is answered by the label of the step, and
  any other cycle, the recorder or a crash may come in between. A read returns whatever
  bytes the label says, for the file may change under it. The server stores any prefix
  of what it is sent, or nothing, and may answer that it is fine.

  The bucket and the prefix are those of one provisioning. Rows of one `startedAt` come in
  the order of the table.
-/

namespace Drac.CloudStorage

open PosixPath Runs

abbrev Text := List Char

abbrev Bytes := List UInt8

/-! ## The policy -/

inductive TriggerMode where
  | continuous
  | motion
  | manual
  deriving DecidableEq, Repr

def TriggerMode.text : TriggerMode → String
  | .continuous => "continuous"
  | .motion => "motion"
  | .manual => "manual"

def triggerModes : List TriggerMode := [.continuous, .motion, .manual]

structure StoragePolicy where
  enabled : Bool
  triggerModes : TriggerMode → Bool
  keepLocalCopy : Bool

def defaultStoragePolicy : StoragePolicy where
  enabled := false
  triggerModes
    | .continuous => false
    | .motion => true
    | .manual => true
  keepLocalCopy := false

def enabledTriggerModes (policy : StoragePolicy) : List TriggerMode :=
  triggerModes.filter policy.triggerModes

inductive StorageMode where
  | tier
  | mount
  deriving DecidableEq, Repr

structure CloudStorageConfig where
  mode : StorageMode
  localWindowHours : Nat

/-! ## Paths and keys -/

def isWithin (root candidate : Path) : Bool :=
  let pathFromRoot := relativeTo root candidate
  pathFromRoot = [] || (pathFromRoot ≠ ['.', '.'] && !(['.', '.', '/'].isPrefixOf pathFromRoot) &&
    !isAbsolute pathFromRoot)

def ensureFileUnderRoot (root : AbsPath) (filePath : Text) : Option Path :=
  let resolvedFile := resolve root.names filePath
  if isWithin root.names resolvedFile then some resolvedFile else none

/-- `value.replace(/^\/+|\/+$/g, '')`. -/
def stripSlashes (value : Text) : Text :=
  ((value.dropWhile (· = '/')).reverse.dropWhile (· = '/')).reverse

def joinS3Key (keyPrefix key : Text) : Text :=
  let p := stripSlashes keyPrefix
  let k := stripSlashes key
  if p = [] then k else p ++ '/' :: k

/-! ## Rows -/

structure Recording where
  id : Text
  cameraId : Text
  filePath : Text
  triggerMode : String
  startedAt : Int
  cloudKey : Option Text
  cloudUploadedAt : Option Int
  localDeletedAt : Option Int

/-- The name after the last slash, from its last dot on. -/
def buildCloudKey (recording : Recording) : Text :=
  let nome := (recording.filePath.splitOn '/').getLastD []
  let extensao :=
    if '.' ∈ nome then '.' :: (nome.splitOn '.').getLastD [] else ".mp4".toList
  "recordings/".toList ++ recording.cameraId ++ '/' :: recording.id ++ extensao

/-- `id` is the primary key. -/
structure RecordingTable where
  rows : List Recording
  ids : (rows.map (·.id)).Nodup

namespace RecordingTable

def empty : RecordingTable := ⟨[], List.nodup_nil⟩

/-- `recording.update({ where: { id }, data })`. -/
def update (t : RecordingTable) (id : Text) (data : Recording → Recording)
    (hdata : ∀ r, (data r).id = r.id) : RecordingTable where
  rows := t.rows.map (fun r => if r.id = id then data r else r)
  ids := by
    have hsame : (fun r => (if r.id = id then data r else r).id) = (·.id) := by
      funext r
      split
      · exact hdata r
      · rfl
    rw [List.map_map]
    show (t.rows.map (fun r => (if r.id = id then data r else r).id)).Nodup
    rw [hsame]
    exact t.ids

def markUploaded (t : RecordingTable) (id key : Text) (now : Int) : RecordingTable :=
  t.update id (fun r => { r with cloudKey := some key, cloudUploadedAt := some now })
    (fun _ => rfl)

def markDeleted (t : RecordingTable) (id : Text) (now : Int) : RecordingTable :=
  t.update id (fun r => { r with localDeletedAt := some now }) (fun _ => rfl)

/-- The recorder adds a row, with nothing in the cloud. -/
def record (t : RecordingTable) (r : Recording) : Option RecordingTable :=
  if h : r.id ∈ t.rows.map (·.id) then none
  else some {
    rows := t.rows ++ [{ r with cloudKey := none, cloudUploadedAt := none, localDeletedAt := none }]
    ids := by
      rw [List.map_append, List.nodup_append]
      refine ⟨t.ids, List.nodup_singleton _, ?_⟩
      intro x hx y hy heq
      rw [List.map_singleton, List.mem_singleton] at hy
      exact h (by rw [← hy, ← heq]; exact hx) }

theorem eq_of_id (t : RecordingTable) {r r' : Recording} (h : r ∈ t.rows) (h' : r' ∈ t.rows)
    (hid : r.id = r'.id) : r = r' :=
  List.inj_on_of_nodup_map t.ids h h' hid

end RecordingTable

/-- The rows still without a copy, of the modes that go up. -/
def pendentes (batch : Nat) (tipos : List TriggerMode) (t : RecordingTable) : List Recording :=
  (CursorPaging.byTime (·.startedAt) (t.rows.filter (fun r =>
    r.cloudKey.isNone && r.triggerMode ∈ tipos.map TriggerMode.text))).take batch

/-- The rows whose file may go: copied before the cut, and still there. -/
def candidatas (corte : Int) (t : RecordingTable) : List Recording :=
  (CursorPaging.byTime (·.startedAt) (t.rows.filter (fun r =>
    r.cloudKey.isSome && r.cloudUploadedAt.any (· < corte) && r.localDeletedAt.isNone))).take 200

theorem mem_pendentes {batch : Nat} {tipos : List TriggerMode} {t : RecordingTable}
    {r : Recording} (h : r ∈ pendentes batch tipos t) : r ∈ t.rows := by
  have hsorted := (CursorPaging.byTime_perm _ _).mem_iff.mp (List.mem_of_mem_take h)
  exact List.mem_of_mem_filter hsorted

theorem mem_candidatas {corte : Int} {t : RecordingTable} {r : Recording}
    (h : r ∈ candidatas corte t) : r ∈ t.rows ∧ r.cloudKey.isSome = true := by
  have hsorted := (CursorPaging.byTime_perm _ _).mem_iff.mp (List.mem_of_mem_take h)
  have hfilter := List.mem_filter.mp hsorted
  simp only [Bool.and_eq_true] at hfilter
  exact ⟨hfilter.1, hfilter.2.1.1⟩

/-! ## Cycles -/

def maxSinglePutBytes : Nat := 200 * 1024 * 1024

def minMultipartPartBytes : Nat := 5 * 1024 * 1024

def defaultPartBytes : Nat := 16 * 1024 * 1024

def partSize : Nat := max minMultipartPartBytes defaultPartBytes

/-- Where the upload of one recording is. -/
inductive UploadStage where
  | sizing (caminho : Path)
  | reading
  | putting (conteudo : Bytes)
  | initiating (tamanho : Nat)
  | readingPart (tamanho offset : Nat) (sent : Bytes)
  | sendingPart (tamanho offset : Nat) (sent chunk : Bytes)
  | completing (sent : Bytes)
  | confirming
  | marking

/-- Where a cycle is. -/
inductive Stage where
  | planning
  | listing (tipos : List TriggerMode)
  | uploading (rec : Recording) (rest : List Recording) (stage : UploadStage)
  | pruning
  | selecting (corte : Int)
  | unlinking (rec : Recording) (caminho : Path) (rest : List Recording)
  | markingDeleted (rec : Recording) (rest : List Recording)
  | returned

inductive Cycle where
  | configuring
  | skipped
  | running (cfg : CloudStorageConfig) (stage : Stage)

/-- What the disk, the database or the bucket answers. -/
inductive Answer where
  | fails
  | ok
  | time (now : Int)
  | bytes (data : Bytes)
  /-- A PUT or a completion: how much of the data is stored, and whether it is said to be fine. -/
  | stores (length : Option Nat) (ok : Bool)

/-- What a step does outside of its cycle. -/
inductive Effect where
  | nothing
  | store (key : Text) (data : Bytes)
  | markUploaded (id key : Text) (now : Int)
  | unlink (caminho : Path)
  | markDeleted (id : Text) (now : Int)

structure Settings where
  recordingsRoot : AbsPath
  keyPrefix : Text
  batch : Nat

/-- The disk, the bucket, the table and the cycles under way. -/
structure Installation where
  files : Path → Option Bytes
  bucket : Text → Option Bytes
  table : RecordingTable
  policy : StoragePolicy
  storage : Option CloudStorageConfig
  running : Bool
  cycles : List Cycle

def Settings.fullKey (c : Settings) (key : Text) : Text := joinS3Key c.keyPrefix key

/-- The loop of the uploads: a path outside the root is passed over. -/
def nextUpload (c : Settings) : List Recording → Stage
  | [] => .pruning
  | rec :: rest =>
    match ensureFileUnderRoot c.recordingsRoot rec.filePath with
    | none => nextUpload c rest
    | some caminho => .uploading rec rest (.sizing caminho)

def nextPrune (c : Settings) : List Recording → Stage
  | [] => .returned
  | rec :: rest =>
    match ensureFileUnderRoot c.recordingsRoot rec.filePath with
    | none => nextPrune c rest
    | some caminho => .unlinking rec caminho rest

/-- `Buffer.alloc(length)`, filled as far as the read went. -/
def partBuffer (length : Nat) (data : Bytes) : Bytes :=
  data.take length ++ List.replicate (length - data.length) 0

/-- What the server keeps of what it was sent: a prefix, or nothing. -/
def stored (key : Text) (data : Bytes) : Option Nat → Effect
  | none => .nothing
  | some length => .store key (data.take length)

/-- The upload of one recording after an answer; `none` leads to the next one. -/
def turnUpload (c : Settings) (s : Installation) (rec : Recording) :
    UploadStage → Answer → Option (Effect × Option UploadStage)
  | _, .fails => some (.nothing, none)
  | .sizing caminho, .ok =>
    match s.files caminho with
    | none => some (.nothing, none)
    | some content =>
      if content.length = 0 then some (.nothing, none)
      else if content.length > maxSinglePutBytes then
        some (.nothing, some (.initiating content.length))
      else some (.nothing, some .reading)
  | .reading, .bytes conteudo => some (.nothing, some (.putting conteudo))
  | .putting conteudo, .stores length ok =>
    some (stored (c.fullKey (buildCloudKey rec)) conteudo length,
      if ok then some .confirming else none)
  | .initiating tamanho, .ok => some (.nothing, some (.readingPart tamanho 0 []))
  | .readingPart tamanho offset sent, .bytes data =>
    some (.nothing, some (.sendingPart tamanho offset sent
      (partBuffer (min partSize (tamanho - offset)) data)))
  | .sendingPart tamanho offset sent chunk, .ok =>
    let offset' := offset + min partSize (tamanho - offset)
    some (.nothing, some (if offset' < tamanho then .readingPart tamanho offset' (sent ++ chunk)
      else .completing (sent ++ chunk)))
  | .completing sent, .stores length ok =>
    some (stored (c.fullKey (buildCloudKey rec)) sent length,
      if ok then some .confirming else none)
  | .confirming, .ok =>
    some (.nothing,
      if (s.bucket (c.fullKey (buildCloudKey rec))).isSome then some .marking else none)
  | .marking, .time now => some (.markUploaded rec.id (buildCloudKey rec) now, none)
  | _, _ => none

/-- A cycle that has its configuration, after an answer. -/
def turn (c : Settings) (s : Installation) (cfg : CloudStorageConfig) :
    Stage → Answer → Option (Effect × Stage)
  | .planning, .ok =>
    let tipos := enabledTriggerModes s.policy
    some (.nothing, if !s.policy.enabled || tipos.isEmpty then .pruning else .listing tipos)
  | .listing tipos, .ok => some (.nothing, nextUpload c (pendentes c.batch tipos s.table))
  | .uploading rec rest stage, answer =>
    (turnUpload c s rec stage answer).map (fun r =>
      (r.1, (r.2.map (.uploading rec rest ·)).getD (nextUpload c rest)))
  | .pruning, .time now =>
    let direto := cfg.mode = .mount
    let janelaHoras := if direto then 0 else cfg.localWindowHours
    some (.nothing, if s.policy.keepLocalCopy ∧ ¬direto then .returned
      else .selecting (now - janelaHoras * 3600000))
  | .selecting corte, .ok => some (.nothing, nextPrune c (candidatas corte s.table))
  | .unlinking rec caminho rest, .ok => some (.unlink caminho, .markingDeleted rec rest)
  | .unlinking _ _ rest, .fails => some (.nothing, nextPrune c rest)
  | .markingDeleted rec rest, .time now => some (.markDeleted rec.id now, nextPrune c rest)
  | .returned, _ => none
  | _, .fails => some (.nothing, .returned)
  | _, _ => none

def Effect.apply (s : Installation) : Effect → Installation
  | .nothing => s
  | .store key data => { s with bucket := Function.update s.bucket key (some data) }
  | .markUploaded id key now => { s with table := s.table.markUploaded id key now }
  | .unlink caminho => { s with files := Function.update s.files caminho none }
  | .markDeleted id now => { s with table := s.table.markDeleted id now }

def Stage.hasReturned : Stage → Bool
  | .returned => true
  | _ => false

/-- The cycle goes on, or leaves and takes back `running`. -/
def goto (i : Nat) (cfg : CloudStorageConfig) (stage : Stage) (s : Installation) :
    Installation :=
  { s with
    running := s.running && !stage.hasReturned
    cycles := s.cycles.set i (.running cfg stage) }

inductive Label where
  | call
  | advance (i : Nat) (answer : Answer)
  | crash
  | setPolicy (policy : StoragePolicy)
  | provision (storage : Option CloudStorageConfig)
  | write (caminho : Path) (content : Option Bytes)
  | record (r : Recording)

/-- `running` is looked at before the configuration is awaited, and set after it. -/
def configure (i : Nat) (s : Installation) : Answer → Option Installation
  | .fails => some { s with cycles := s.cycles.set i .skipped }
  | .ok =>
    match s.storage with
    | none => some { s with cycles := s.cycles.set i .skipped }
    | some cfg =>
      some { s with running := true, cycles := s.cycles.set i (.running cfg .planning) }
  | _ => none

/-- What a cycle does with an answer. -/
def advance (c : Settings) (s : Installation) (i : Nat) (answer : Answer) :
    Cycle → Option Installation
  | .configuring => configure i s answer
  | .skipped => none
  | .running cfg stage => (turn c s cfg stage answer).map (fun r => goto i cfg r.2 (r.1.apply s))

def step (c : Settings) (s : Installation) : Label → Option Installation
  | .call => some (if s.running then s else { s with cycles := s.cycles ++ [.configuring] })
  | .advance i answer => s.cycles[i]?.bind (advance c s i answer)
  | .crash => some { s with running := false, cycles := [] }
  | .setPolicy policy => some { s with policy := policy }
  | .provision storage => some { s with storage := storage }
  | .write caminho content => some { s with files := Function.update s.files caminho content }
  | .record r => (s.table.record r).map (fun table => { s with table := table })

/-- No cycle runs, and no row says that it is in the cloud. -/
def offload (c : Settings) : Machine Installation Label where
  init s := s.running = false ∧ s.cycles = [] ∧ ∀ r ∈ s.table.rows, r.cloudKey = none
  step := step c

end Drac.CloudStorage
