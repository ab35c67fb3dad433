import Drac.Lib.JsMap
import Drac.Lib.Json
import Drac.Recordings.Store

/-
  What protects a recording from retention.

  Correspondence (↔ Lean):
    retention.service.ts, getProtectionSets   ↔ `getProtectionSets`; its three queries, with
                                                what follows each, are `readHolds`,
                                                `readEvidence` and `readClips`
    investigations.service.ts, getActiveLegalHold ↔ `holdKeepsItem`, as `removeItem` uses it
    setLegalHold, addItem, removeItem         ↔ the same names
    the row a clip export creates             ↔ `exportClip`

  A set is a list here, read only through membership. The activity entries, labels and
  notes the investigations service writes beside an item protect nothing and are left out.
-/

namespace Drac.Recordings

structure InvestigationItem where
  id : String
  investigationId : String
  type : String
  eventId : Option String
  recordingId : Option String
  metadata : Option Json.Value
  createdAt : Int

/-- The recordings, the clips and the items of investigations. -/
structure Archive where
  db : Database
  items : List InvestigationItem

/-! ## Reading an item -/

/-- The texts of `value.name` where that is an array. -/
def textsOf (v : Json.Value) (name : String) : List String :=
  ((Json.itemsField v name.toList).getD []).filterMap (fun item =>
    match item with
    | .str s => some (String.ofList s)
    | _ => none)

/-- `value.name` where that is a text. -/
def textOf (v : Json.Value) (name : String) : List String :=
  ((Json.textField v name.toList).map String.ofList).toList

def holdEnabled (v : Json.Value) : Bool :=
  match Json.field v "enabled".toList with
  | some (.bool b) => b
  | some (.num n) => n = 1
  | some (.str s) => s = "true".toList
  | _ => false

def noProtection : ProtectionSets := ⟨[], [], []⟩

def ProtectionSets.union (a b : ProtectionSets) : ProtectionSets :=
  ⟨a.recordingIds ++ b.recordingIds, a.clipIds ++ b.clipIds, a.eventIds ++ b.eventIds⟩

/-- What the latest hold of an investigation protects. -/
def holdProtection (metadata : Option Json.Value) : ProtectionSets :=
  match metadata with
  | none => noProtection
  | some v =>
    if holdEnabled v then ⟨textsOf v "recordingIds", textsOf v "clipIds", textsOf v "eventIds"⟩
    else noProtection

/-- What an item that is no hold protects by being there. -/
def evidenceProtection (item : InvestigationItem) : ProtectionSets :=
  let own : ProtectionSets :=
    ⟨(item.recordingId.filter (· ≠ "")).toList, [], (item.eventId.filter (· ≠ "")).toList⟩
  match item.metadata with
  | none => own
  | some v => own.union
      ⟨textOf v "recordingId" ++ textsOf v "recordingIds", textOf v "clipId" ++ textsOf v "clipIds",
        textOf v "eventId"⟩

/-! ## The protection sets -/

/-- `where: { type: 'legal_hold' }, orderBy: { createdAt: 'desc' }`. -/
def holdRows (items : List InvestigationItem) : List InvestigationItem :=
  (items.filter (fun item => item.type = "legal_hold")).insertionSort
    (fun a b => b.createdAt ≤ a.createdAt)

def latestHoldByInvestigation (rows : List InvestigationItem) :
    List (String × Option Json.Value) :=
  rows.foldl (fun latest row =>
    if (JsMap.get? latest row.investigationId).isSome then latest
    else JsMap.set latest row.investigationId row.metadata) []

def readHolds (items : List InvestigationItem) : ProtectionSets :=
  (JsMap.values (latestHoldByInvestigation (holdRows items))).foldl
    (fun sets metadata => sets.union (holdProtection metadata)) noProtection

def readEvidence (items : List InvestigationItem) (sets : ProtectionSets) : ProtectionSets :=
  (items.filter (fun item => item.type ≠ "legal_hold")).foldl
    (fun sets item => sets.union (evidenceProtection item)) sets

/-- The source recordings of the protected clips join the protected recordings. -/
def readClips (clips : List ExportedClip) (sets : ProtectionSets) : ProtectionSets :=
  { sets with recordingIds := sets.recordingIds ++
      (clips.filter (fun c => c.id ∈ sets.clipIds)).map (·.sourceRecordingId) }

def getProtectionSets (a : Archive) : ProtectionSets :=
  readClips a.db.clips (readEvidence a.items (readHolds a.items))

/-- The recording is covered by an active hold, by an item of an investigation, or by a clip
of it that is. -/
def covered (a : Archive) (recordingId : String) : Bool :=
  recordingId ∈ (getProtectionSets a).recordingIds

theorem readClips_nil {clips : List ExportedClip} {sets : ProtectionSets}
    (h : sets.clipIds = []) : readClips clips sets = sets := by
  have hnone : clips.filter (fun c => c.id ∈ sets.clipIds) = [] := by
    rw [h]
    simp
  rw [readClips, hnone, List.map_nil, List.append_nil]

theorem readClips_sublist {clips clips' : List ExportedClip} {sets : ProtectionSets}
    (h : clips'.Sublist clips) {id : String} (hid : id ∈ (readClips clips' sets).recordingIds) :
    id ∈ (readClips clips sets).recordingIds := by
  simp only [readClips, List.mem_append] at hid ⊢
  refine hid.imp_right ?_
  intro hmem
  exact ((h.filter _).map _).subset hmem

/-! ## What the users do -/

/-- `Boolean(value)`. -/
def truthy : Json.Value → Bool
  | .null => false
  | .bool b => b
  | .num n => n ≠ 0
  | .str s => s ≠ []
  | .arr _ | .obj _ => true

/-- The hold in force keeps the item: `hold.enabled && hold.itemIds.includes(itemId)`. -/
def holdKeepsItem (items : List InvestigationItem) (investigationId itemId : String) : Bool :=
  match ((holdRows items).find? (fun item => item.investigationId = investigationId)).bind
      (·.metadata) with
  | none => false
  | some v => (Json.field v "enabled".toList).any truthy && itemId ∈ textsOf v "itemIds"

structure LegalHold where
  enabled : Bool
  reason : Option String := none
  recordingIds : List String
  clipIds : List String := []
  itemIds : List String := []
  deriving DecidableEq

def textsValue (texts : List String) : Json.Value := .arr (texts.map (fun t => .str t.toList))

def LegalHold.payload (hold : LegalHold) : Json.Value :=
  .obj [("enabled".toList, .bool hold.enabled),
    ("reason".toList, (hold.reason.map (fun r => Json.Value.str r.toList)).getD .null),
    ("recordingIds".toList, textsValue hold.recordingIds),
    ("clipIds".toList, textsValue hold.clipIds),
    ("itemIds".toList, textsValue hold.itemIds)]

def setLegalHold (id investigationId : String) (hold : LegalHold) (now : Int) (a : Archive) :
    Archive :=
  { a with items := a.items ++ [{
      id := id
      investigationId := investigationId
      type := "legal_hold"
      eventId := none
      recordingId := none
      metadata := some hold.payload
      createdAt := now }] }

def addItem (item : InvestigationItem) (a : Archive) : Archive :=
  { a with items := a.items ++ [item] }

/-- An item of the investigation goes, unless a hold in force keeps it. -/
def removeItem (investigationId itemId : String) (a : Archive) : Archive :=
  if holdKeepsItem a.items investigationId itemId then a
  else
    { a with items := a.items.filter (fun item =>
        ¬ (item.id = itemId ∧ item.investigationId = investigationId)) }

def exportClip (clip : ExportedClip) (a : Archive) : Archive :=
  { a with db := { a.db with clips := a.db.clips ++ [clip] } }

theorem textsOf_textsValue {v : Json.Value} {name : String} {texts : List String}
    (h : Json.field v name.toList = some (textsValue texts)) : textsOf v name = texts := by
  have hitems : Json.itemsField v name.toList =
      some (texts.map (fun t => Json.Value.str t.toList)) := by
    rw [Json.itemsField, h]
    rfl
  rw [textsOf, hitems, Option.getD_some, List.filterMap_map]
  have hid : ∀ t : String, String.ofList t.toList = t := fun t => String.ofList_toList
  simp [hid]

end Drac.Recordings
