import Mathlib.Data.List.Sort

/-
  The rows the recordings services share: cameras, recordings and exported clips,
  with what deletes a recording.

  Correspondence (`retention.service.ts` ↔ Lean):
    ProtectionSets  ↔ `ProtectionSets`
    deleteRecording ↔ `deleteRecording`, with `fails` for the rows whose files or
                      transaction cannot be removed (`deleteRowsWithFiles` throws)

  An instant is its epoch milliseconds. `Database` carries the primary keys: an id
  is on one row of its table.
-/

namespace Drac.Recordings

structure Camera where
  id : String
  retentionDays : Option Int
  deriving DecidableEq

structure Recording where
  id : String
  cameraId : String
  filePath : String
  startedAt : Int
  sizeBytes : Option Nat
  motionScore : Int
  deriving DecidableEq

structure ExportedClip where
  id : String
  sourceRecordingId : String
  filePath : String
  startedAt : Int
  deriving DecidableEq

/-- Cameras, recordings and clips, no id twice. -/
structure Database where
  cameras : List Camera
  recordings : List Recording
  clips : List ExportedClip
  camera_ids : (cameras.map (·.id)).Nodup
  recording_ids : (recordings.map (·.id)).Nodup

namespace Database

/-- The row of a recording goes, with those of its clips. -/
def deleteRecordingRow (db : Database) (id : String) : Database where
  cameras := db.cameras
  camera_ids := db.camera_ids
  recordings := db.recordings.filter (fun r => r.id ≠ id)
  clips := db.clips.filter (fun c => c.sourceRecordingId ≠ id)
  recording_ids := db.recording_ids.sublist (List.filter_sublist.map _)

def clipsOf (db : Database) (id : String) : List ExportedClip :=
  db.clips.filter (fun c => c.sourceRecordingId = id)

theorem eq_of_id (db : Database) {r r' : Recording} (h : r ∈ db.recordings)
    (h' : r' ∈ db.recordings) (hid : r.id = r'.id) : r = r' :=
  List.inj_on_of_nodup_map db.recording_ids h h' hid

end Database

/-- What must not be deleted. -/
structure ProtectionSets where
  recordingIds : List String
  clipIds : List String
  eventIds : List String

inductive DeletionError where
  | notRemoved
  deriving DecidableEq, Repr

/-- The database without the recording, or nothing where it is protected. -/
def deleteRecording (protection : ProtectionSets) (fails : String → Bool) (r : Recording)
    (db : Database) : Except DeletionError (Option Database) :=
  if r.id ∈ protection.recordingIds then .ok none
  else if (db.clipsOf r.id).any (fun c => c.id ∈ protection.clipIds) then .ok none
  else if fails r.id then .error .notRemoved
  else .ok (some (db.deleteRecordingRow r.id))

/-- A recording neither protected, itself or by a clip, nor one whose deletion
fails. -/
def deletable (protection : ProtectionSets) (fails : String → Bool) (db : Database)
    (r : Recording) : Bool :=
  r.id ∉ protection.recordingIds && !(db.clipsOf r.id).any (fun c => c.id ∈ protection.clipIds) &&
    !fails r.id

theorem deleteRecording_eq (protection : ProtectionSets) (fails : String → Bool) (r : Recording)
    (db : Database) :
    (deletable protection fails db r = true ∧
      deleteRecording protection fails r db = .ok (some (db.deleteRecordingRow r.id))) ∨
    (deletable protection fails db r = false ∧
      (deleteRecording protection fails r db = .ok none ∨
        deleteRecording protection fails r db = .error .notRemoved)) := by
  unfold deletable deleteRecording
  by_cases hrec : r.id ∈ protection.recordingIds
  · exact .inr (by simp [hrec])
  · by_cases hclip : (db.clipsOf r.id).any (fun c => c.id ∈ protection.clipIds) = true
    · exact .inr (by simp only [hrec, hclip, if_true, if_false]; simp)
    · by_cases hfail : fails r.id = true
      · exact .inr (by simp only [hrec, hclip, hfail, if_true, if_false]; simp)
      · exact .inl (by simp only [hrec, hclip, hfail, if_false]; simp)

/-- The order of a text column: total, with equal texts only at equal places. -/
structure Collation where
  le : String → String → Bool
  total : ∀ a b, le a b = true ∨ le b a = true
  trans : ∀ a b c, le a b = true → le b c = true → le a c = true
  antisymm : ∀ a b, le a b = true → le b a = true → a = b

/-- `orderBy: [{ startedAt: 'asc' }, { id: 'asc' }]`. -/
def Collation.precedes (c : Collation) (a b : Recording) : Prop :=
  a.startedAt < b.startedAt ∨ (a.startedAt = b.startedAt ∧ c.le a.id b.id = true)

instance decidablePrecedesRecording (c : Collation) (a b : Recording) :
    Decidable (c.precedes a b) :=
  inferInstanceAs (Decidable (_ ∨ _))

namespace Collation

variable (c : Collation)

theorem precedes_total (a b : Recording) : c.precedes a b ∨ c.precedes b a := by
  unfold precedes
  rcases Int.lt_trichotomy a.startedAt b.startedAt with hlt | heq | hgt
  · exact .inl (.inl hlt)
  · rcases c.total a.id b.id with h | h
    · exact .inl (.inr ⟨heq, h⟩)
    · exact .inr (.inr ⟨heq.symm, h⟩)
  · exact .inr (.inl hgt)

theorem precedes_trans {x y z : Recording} (h : c.precedes x y) (k : c.precedes y z) :
    c.precedes x z := by
  unfold precedes at *
  rcases h with h | ⟨h, hid⟩
  · rcases k with k | ⟨k, -⟩
    · exact .inl (by omega)
    · exact .inl (by omega)
  · rcases k with k | ⟨k, kid⟩
    · exact .inl (by omega)
    · exact .inr ⟨h.trans k, c.trans _ _ _ hid kid⟩

theorem precedes_antisymm {x y : Recording} (h : c.precedes x y) (k : c.precedes y x) :
    x.id = y.id := by
  unfold precedes at *
  rcases h with h | ⟨h, hid⟩
  · rcases k with k | ⟨k, -⟩ <;> omega
  · rcases k with k | ⟨-, kid⟩
    · omega
    · exact c.antisymm _ _ hid kid

instance totalPrecedesRecording : Std.Total c.precedes := ⟨c.precedes_total⟩

instance transPrecedesRecording : IsTrans Recording c.precedes := ⟨fun _ _ _ => c.precedes_trans⟩

end Collation

/-- The rows of a query that match, oldest first. -/
def listing (c : Collation) (accepts : Recording → Bool) (db : Database) : List Recording :=
  (db.recordings.filter accepts).insertionSort c.precedes

section Listing

variable {c : Collation} {accepts : Recording → Bool} {db : Database}

@[simp] theorem mem_listing {r : Recording} :
    r ∈ listing c accepts db ↔ r ∈ db.recordings ∧ accepts r = true := by
  simp [listing]

theorem listing_sorted : (listing c accepts db).Pairwise c.precedes :=
  List.pairwise_insertionSort _ _

theorem listing_ids : ((listing c accepts db).map (·.id)).Nodup := by
  have hperm : (listing c accepts db).Perm (db.recordings.filter accepts) :=
    List.perm_insertionSort _ _
  rw [(hperm.map (·.id)).nodup_iff]
  exact db.recording_ids.sublist (List.filter_sublist.map _)

theorem listing_unique {rows : List Recording} (hsorted : rows.Pairwise c.precedes)
    (hperm : rows.Perm (db.recordings.filter accepts)) : rows = listing c accepts db := by
  refine List.Perm.eq_of_pairwise ?_ hsorted listing_sorted
    (hperm.trans (List.perm_insertionSort _ _).symm)
  intro a b ha hb hab hba
  have ha' := List.mem_of_mem_filter (hperm.mem_iff.mp ha)
  have hb' := (mem_listing.mp hb).1
  exact db.eq_of_id ha' hb' (c.precedes_antisymm hab hba)

theorem listing_deleteRecordingRow (id : String) :
    listing c accepts (db.deleteRecordingRow id) =
      (listing c accepts db).filter (fun r => r.id ≠ id) := by
  symm
  refine listing_unique (listing_sorted.sublist List.filter_sublist) ?_
  have hperm : (listing c accepts db).Perm (db.recordings.filter accepts) :=
    List.perm_insertionSort _ _
  have hcomm : ((db.recordings.filter accepts).filter (fun r => r.id ≠ id)) =
      (db.deleteRecordingRow id).recordings.filter accepts := by
    simp only [Database.deleteRecordingRow, List.filter_filter, Bool.and_comm]
  rw [← hcomm]
  exact hperm.filter _

theorem listing_delete_middle {before rest : List Recording} {a : Recording}
    (h : listing c accepts db = before ++ a :: rest) :
    listing c accepts (db.deleteRecordingRow a.id) = before ++ rest := by
  have hids : ((listing c accepts db).map (·.id)).Nodup := listing_ids
  rw [h, List.map_append, List.map_cons, List.nodup_append, List.nodup_cons] at hids
  obtain ⟨-, ⟨hrest, -⟩, hdisj⟩ := hids
  rw [listing_deleteRecordingRow, h, List.filter_append, List.filter_cons_of_neg (by simp),
    List.filter_eq_self.mpr, List.filter_eq_self.mpr]
  · intro r hr
    have hne : r.id ≠ a.id := fun he => hrest (List.mem_map.mpr ⟨r, hr, he⟩)
    simpa using hne
  · intro r hr
    have hne := hdisj r.id (List.mem_map_of_mem hr) a.id List.mem_cons_self
    simpa using hne

end Listing

end Drac.Recordings
