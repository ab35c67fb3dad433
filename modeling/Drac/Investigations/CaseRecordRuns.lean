import Drac.Investigations.CaseRecord
import Drac.Lib.Checks

/-
  What is kept of a case record.

  The methods of the service that write a server-owned row create it, or change the metadata
  of one of their own type. `updateItem` and `removeItem` take any row of the investigation,
  and the one thing they look at is whether the hold in force names the row. So a user of the
  case may rewrite or delete its trail, and the hold with it.
-/

namespace Drac.Investigations

open Checks Runs
open Recordings (LegalHold InvestigationItem holdRows latestHoldByInvestigation textsOf truthy)

variable {iso : Int → List Char} {r r' s t : CaseRecord} {a : Label}

/-! ## The property and the condition -/

/-- The service's own method for a row: the review of a request, the worker on a package. -/
def OwnMethod (a : Label) (item : Item) : Prop :=
  match a with
  | .call _ (.reviewExportRequest _ requestId _ _) _ _ =>
    item.type = "export_request" ∧ requestId = item.id
  | .package id _ => item.type = "export_package" ∧ id = item.id
  | _ => False

/-- What a hold protects from retention. -/
def protection (hold : LegalHold) : Recordings.ProtectionSets :=
  if hold.enabled then ⟨hold.recordingIds, hold.clipIds, []⟩ else Recordings.noProtection

def CaseRecord.lastSet (r : CaseRecord) (investigationId : String) : LegalHold :=
  (JsMap.get? r.lastHold investigationId).getD noHold

/-- The server's rows are neither deleted nor altered but by their own method, and the hold in
force is the last one set, to the service and to retention. -/
structure AppendOnly (iso : Int → List Char) (G : CaseRecord → Label → Prop) : Prop where
  kept : ∀ s a t, Reach (caseMachine iso) G s → G s a → step iso s a = some t →
    ∀ item ∈ s.items, item.type ∈ serverOwned →
      item ∈ t.items ∨ OwnMethod a item ∧ ∃ metadata, item.withMetadata metadata ∈ t.items
  active : ∀ s, Reach (caseMachine iso) G s → ∀ investigationId,
    getActiveLegalHold s.items investigationId = s.lastSet investigationId
  retained : ∀ s, Reach (caseMachine iso) G s → ∀ investigationId,
    retentionHold s.items investigationId = protection (s.lastSet investigationId)

/-- No server-owned row of the investigation has this id. -/
def usersOwn (r : CaseRecord) (investigationId itemId : String) : Bool :=
  r.items.all (fun item => item.id ≠ itemId || item.investigationId ≠ investigationId ||
    item.type ∉ serverOwned)

def isHold (investigationId : String) (item : Item) : Bool :=
  item.type = "legal_hold" && item.investigationId = investigationId

/-- Every hold of the investigation is older. -/
def newestHold (r : CaseRecord) (investigationId : String) (now : Int) : Bool :=
  r.items.all (fun item => !isHold investigationId item || decide (item.createdAt < now))

/-- No call changes or removes a row of the server's that no hold keeps, and a new hold is
newer than the others. -/
def usersRows (r : CaseRecord) : Label → Bool
  | .call _ (.updateItem id itemId (.text _)) _ _ => usersOwn r id itemId
  | .call _ (.removeItem id itemId) _ _ => usersOwn r id itemId || keptByHold r id itemId
  | .call _ (.setLegalHold id _) at_ _ => newestHold r id at_.now
  | _ => true

def UsersRows (r : CaseRecord) (a : Label) : Prop := usersRows r a = true

/-! ## The tables -/

/-- The id has been used, and rows of that id are of such a type, now and later. -/
def OfType (P : String → Prop) (r : CaseRecord) (id : String) : Prop :=
  id ∈ r.used ∧ ∀ item ∈ r.items, item.id = id → P item.type

/-- An id is on one row and is known to have been used; the queue holds packages. -/
structure Wf (r : CaseRecord) : Prop where
  distinct : ∀ item ∈ r.items, ∀ other ∈ r.items, item.id = other.id → item = other
  used : ∀ item ∈ r.items, item.id ∈ r.used
  queued : ∀ id ∈ r.queue, OfType (· = "export_package") r id

/-- The rows may have gone or changed, but not their ids or types, and new rows have new ids. -/
structure Follows (r r' : CaseRecord) : Prop where
  used : ∀ id ∈ r.used, id ∈ r'.used
  rows : ∀ item ∈ r'.items, item.id ∈ r.used →
    ∃ old ∈ r.items, old.id = item.id ∧ old.type = item.type

variable {id : String}

theorem Follows.ofType (h : Follows r r') {P : String → Prop}
    (hid : OfType P r id) : OfType P r' id := by
  refine ⟨h.used id hid.1, ?_⟩
  intro item hitem heq
  obtain ⟨old, hold, hsame, htype⟩ := h.rows item hitem (heq ▸ hid.1)
  rw [← htype]
  exact hid.2 old hold (hsame.trans heq)

variable {item : Item}

theorem ofType_row (hwf : Wf r) {P : String → Prop} (hitem : item ∈ r.items)
    (hP : P item.type) : OfType P r item.id := by
  refine ⟨hwf.used item hitem, ?_⟩
  intro other hother heq
  rw [hwf.distinct other hother item hitem heq]
  exact hP

theorem insertItem_some (h : insertItem r item = some r') :
    item.id ∉ r.used ∧ r' = { r with items := r.items ++ [item], used := item.id :: r.used } := by
  unfold insertItem at h
  split at h
  · cases h
  · next hfresh =>
    cases h
    exact ⟨hfresh, rfl⟩

theorem insertItem_follows (h : insertItem r item = some r') : Follows r r' := by
  obtain ⟨hfresh, rfl⟩ := insertItem_some h
  refine ⟨fun id hid => List.mem_cons_of_mem _ hid, ?_⟩
  intro x hx hused
  rcases List.mem_append.mp hx with hold | hnew
  · exact ⟨x, hold, rfl, rfl⟩
  · rw [List.mem_singleton.mp hnew] at hused
    exact absurd hused hfresh

theorem insertItem_wf (hwf : Wf r) (h : insertItem r item = some r') : Wf r' := by
  have hfollows : Follows r r' := insertItem_follows h
  obtain ⟨hfresh, rfl⟩ := insertItem_some h
  refine ⟨?_, ?_, fun id hid => hfollows.ofType (hwf.queued id hid)⟩
  · intro x hx y hy heq
    rcases List.mem_append.mp hx with hx | hx <;> rcases List.mem_append.mp hy with hy | hy
    · exact hwf.distinct x hx y hy heq
    · rw [List.mem_singleton.mp hy] at heq
      exact absurd (heq ▸ hwf.used x hx) hfresh
    · rw [List.mem_singleton.mp hx] at heq
      exact absurd (heq ▸ hwf.used y hy) hfresh
    · rw [List.mem_singleton.mp hx, List.mem_singleton.mp hy]
  · intro x hx
    rcases List.mem_append.mp hx with hold | hnew
    · exact List.mem_cons_of_mem _ (hwf.used x hold)
    · rw [List.mem_singleton.mp hnew]
      exact List.mem_cons_self

def KeepsKey (f : Item → Item) : Prop := ∀ item, (f item).id = item.id ∧ (f item).type = item.type

theorem withNotes_keeps (notes : Option String) : KeepsKey (Item.withNotes notes) :=
  fun _ => ⟨rfl, rfl⟩

theorem withMetadata_keeps (metadata : Json.Value) : KeepsKey (Item.withMetadata metadata) :=
  fun _ => ⟨rfl, rfl⟩

variable {f : Item → Item}

theorem changeItem_some (h : changeItem r id f = some r') :
    r' = { r with items := r.items.map (fun item => if item.id = id then f item else item) } := by
  unfold changeItem at h
  split at h
  · cases h
    rfl
  · cases h

variable {x : Item}

theorem changeItem_row (hf : KeepsKey f)
    (h : changeItem r id f = some r') (hx : x ∈ r'.items) :
    ∃ old ∈ r.items, old.id = x.id ∧ old.type = x.type ∧ x = if old.id = id then f old else old := by
  rw [changeItem_some h] at hx
  obtain ⟨old, hold, rfl⟩ := List.mem_map.mp hx
  refine ⟨old, hold, ?_, ?_, rfl⟩
  · split
    · exact (hf old).1.symm
    · rfl
  · split
    · exact (hf old).2.symm
    · rfl

theorem changeItem_follows (hf : KeepsKey f)
    (h : changeItem r id f = some r') : Follows r r' := by
  refine ⟨?_, ?_⟩
  · rw [changeItem_some h]
    exact fun _ hid => hid
  · intro x hx _
    obtain ⟨old, hold, hid, htype, -⟩ := changeItem_row hf h hx
    exact ⟨old, hold, hid, htype⟩

theorem changeItem_wf (hf : KeepsKey f) (hwf : Wf r)
    (h : changeItem r id f = some r') : Wf r' := by
  have hfollows : Follows r r' := changeItem_follows hf h
  refine ⟨?_, ?_, ?_⟩
  · intro x hx y hy heq
    obtain ⟨old, hold, hid, -, hxold⟩ := changeItem_row hf h hx
    obtain ⟨other, hother, hid', -, hyold⟩ := changeItem_row hf h hy
    have hsame : old = other := hwf.distinct old hold other hother (by rw [hid, hid', heq])
    rw [hxold, hyold, hsame]
  · intro x hx
    obtain ⟨old, hold, hid, -, -⟩ := changeItem_row hf h hx
    rw [← hid]
    exact hfollows.used _ (hwf.used old hold)
  · intro other hother
    rw [changeItem_some h] at hother
    exact hfollows.ofType (hwf.queued other hother)

variable {w : Write}

theorem apply_follows (h : apply r w = some r') : Follows r r' := by
  cases w with
  | putInvestigation inv item =>
    cases item with
    | none =>
      cases h
      exact ⟨fun _ h => h, fun item h _ => ⟨item, h, rfl, rfl⟩⟩
    | some item =>
      have hfollows : Follows { r with
          investigations := inv :: r.investigations.filter (fun other => other.id ≠ inv.id) } r' :=
        insertItem_follows h
      exact ⟨hfollows.used, hfollows.rows⟩
  | createItem item => exact insertItem_follows h
  | setNotes id notes => exact changeItem_follows (withNotes_keeps notes) h
  | setMetadata id metadata => exact changeItem_follows (withMetadata_keeps metadata) h
  | deleteItem id =>
    cases h
    exact ⟨fun _ h => h, fun item h _ => ⟨item, List.mem_of_mem_filter h, rfl, rfl⟩⟩
  | enqueue id =>
    cases h
    exact ⟨fun _ h => h, fun item h _ => ⟨item, h, rfl, rfl⟩⟩

theorem apply_wf (hwf : Wf r)
    (hqueue : ∀ id, w = .enqueue id → OfType (· = "export_package") r id)
    (h : apply r w = some r') : Wf r' := by
  have hfollows : Follows r r' := apply_follows h
  cases w with
  | putInvestigation inv item =>
    have hwf' : Wf { r with
        investigations := inv :: r.investigations.filter (fun other => other.id ≠ inv.id) } :=
      ⟨hwf.distinct, hwf.used, hwf.queued⟩
    cases item with
    | none =>
      cases h
      exact hwf'
    | some item => exact insertItem_wf hwf' h
  | createItem item => exact insertItem_wf hwf h
  | setNotes id notes => exact changeItem_wf (withNotes_keeps notes) hwf h
  | setMetadata id metadata => exact changeItem_wf (withMetadata_keeps metadata) hwf h
  | deleteItem id =>
    cases h
    refine ⟨?_, ?_, fun id hid => hfollows.ofType (hwf.queued id hid)⟩
    · intro x hx y hy heq
      exact hwf.distinct x (List.mem_of_mem_filter hx) y (List.mem_of_mem_filter hy) heq
    · intro x hx
      exact hwf.used x (List.mem_of_mem_filter hx)
  | enqueue id =>
    cases h
    refine ⟨hwf.distinct, hwf.used, ?_⟩
    intro other hother
    rcases List.mem_append.mp hother with hold | hnew
    · exact hwf.queued other hold
    · rw [List.mem_singleton.mp hnew]
      exact hqueue id rfl

variable {ws : List Write}

theorem applyAll_wf (hwf : Wf r)
    (hqueue : ∀ id, Write.enqueue id ∈ ws → OfType (· = "export_package") r id) :
    Wf (applyAll r ws) := by
  induction ws generalizing r with
  | nil => exact hwf
  | cons w ws ih =>
    rw [applyAll]
    cases happly : apply r w with
    | none => exact hwf
    | some r' =>
      have hwf' : Wf r' := apply_wf hwf (fun id heq => hqueue id (heq ▸ List.mem_cons_self)) happly
      exact ih hwf' (fun id hid =>
        (apply_follows happly).ofType (hqueue id (List.mem_cons_of_mem _ hid)))

/-! ## What a write leaves of a row -/

def Write.touches : Write → Option String
  | .setNotes id _ | .setMetadata id _ | .deleteItem id => some id
  | _ => none

def Write.creates : Write → Option Item
  | .putInvestigation _ item => item
  | .createItem item => some item
  | _ => none

theorem insertItem_mem (h : insertItem r item = some r') :
    x ∈ r'.items ↔ x ∈ r.items ∨ x = item := by
  obtain ⟨-, rfl⟩ := insertItem_some h
  rw [List.mem_append, List.mem_singleton]

theorem apply_kept (h : apply r w = some r') (hitem : item ∈ r.items)
    (hspared : w.touches ≠ some item.id) : item ∈ r'.items := by
  have hchanged : ∀ {id : String} {f : Item → Item}, id ≠ item.id →
      changeItem r id f = some r' → item ∈ r'.items := by
    intro id f hne hchange
    rw [changeItem_some hchange]
    exact List.mem_map.mpr ⟨item, hitem, if_neg (fun heq => hne heq.symm)⟩
  cases w with
  | putInvestigation inv created =>
    cases created with
    | none =>
      cases h
      exact hitem
    | some created => exact (insertItem_mem h).mpr (Or.inl hitem)
  | createItem created => exact (insertItem_mem h).mpr (Or.inl hitem)
  | setNotes id notes => exact hchanged (fun heq => hspared (congrArg some heq)) h
  | setMetadata id metadata => exact hchanged (fun heq => hspared (congrArg some heq)) h
  | deleteItem id =>
    cases h
    refine List.mem_filter.mpr ⟨hitem, decide_eq_true ?_⟩
    exact fun heq => hspared (congrArg some heq.symm)
  | enqueue id =>
    cases h
    exact hitem

theorem applyAll_kept (hitem : item ∈ r.items)
    (hspared : ∀ w ∈ ws, w.touches ≠ some item.id) : item ∈ (applyAll r ws).items := by
  induction ws generalizing r with
  | nil => exact hitem
  | cons w ws ih =>
    rw [applyAll]
    cases happly : apply r w with
    | none => exact hitem
    | some r' =>
      exact ih (apply_kept happly hitem (hspared w List.mem_cons_self))
        (fun w hw => hspared w (List.mem_cons_of_mem _ hw))

theorem apply_origin (h : apply r w = some r') (hx : x ∈ r'.items) :
    x ∈ r.items ∨ w.creates = some x ∨
      ∃ old ∈ r.items, w.touches = some old.id ∧ old.type = x.type := by
  have hchanged : ∀ {id : String} {f : Item → Item}, KeepsKey f → changeItem r id f = some r' →
      x ∈ r.items ∨ ∃ old ∈ r.items, some id = some old.id ∧ old.type = x.type := by
    intro id f hf hchange
    obtain ⟨old, hold, -, htype, hxold⟩ := changeItem_row hf hchange hx
    by_cases hid : old.id = id
    · exact Or.inr ⟨old, hold, congrArg some hid.symm, htype⟩
    · rw [if_neg hid] at hxold
      exact Or.inl (hxold ▸ hold)
  cases w with
  | putInvestigation inv created =>
    cases created with
    | none =>
      cases h
      exact Or.inl hx
    | some created =>
      rcases (insertItem_mem h).mp hx with hold | rfl
      · exact Or.inl hold
      · exact Or.inr (Or.inl rfl)
  | createItem created =>
    rcases (insertItem_mem h).mp hx with hold | rfl
    · exact Or.inl hold
    · exact Or.inr (Or.inl rfl)
  | setNotes id notes => exact (hchanged (withNotes_keeps notes) h).imp_right Or.inr
  | setMetadata id metadata => exact (hchanged (withMetadata_keeps metadata) h).imp_right Or.inr
  | deleteItem id =>
    cases h
    exact Or.inl (List.mem_of_mem_filter hx)
  | enqueue id =>
    cases h
    exact Or.inl hx

/-- The same holds are in both. -/
def SameHolds (r r' : CaseRecord) : Prop :=
  ∀ x : Item, x.type = "legal_hold" → (x ∈ r'.items ↔ x ∈ r.items)

/-- The write creates no hold and touches none. -/
def SparesHolds (r : CaseRecord) (w : Write) : Prop :=
  (∀ x, w.creates = some x → x.type ≠ "legal_hold") ∧
    ∀ id, w.touches = some id → OfType (· ≠ "legal_hold") r id

theorem apply_sameHolds (hspares : SparesHolds r w) (h : apply r w = some r') :
    SameHolds r r' := by
  intro x hx
  refine ⟨?_, ?_⟩
  · intro hmem
    rcases apply_origin h hmem with hold | hnew | ⟨old, hold, htouch, htype⟩
    · exact hold
    · exact absurd hx (hspares.1 x hnew)
    · exact absurd (htype.trans hx) ((hspares.2 old.id htouch).2 old hold rfl)
  · intro hmem
    apply apply_kept h hmem
    intro htouch
    exact (hspares.2 x.id htouch).2 x hmem rfl hx

theorem applyAll_sameHolds (hspares : ∀ w ∈ ws, SparesHolds r w) :
    SameHolds r (applyAll r ws) := by
  induction ws generalizing r with
  | nil => exact fun _ _ => Iff.rfl
  | cons w ws ih =>
    rw [applyAll]
    cases happly : apply r w with
    | none => exact fun _ _ => Iff.rfl
    | some r' =>
      have hfirst : SameHolds r r' := apply_sameHolds (hspares w List.mem_cons_self) happly
      have hrest : SameHolds r' (applyAll r' ws) := by
        apply ih
        intro w' hw'
        obtain ⟨hcreates, htouches⟩ := hspares w' (List.mem_cons_of_mem _ hw')
        exact ⟨hcreates, fun id hid => (apply_follows happly).ofType (htouches id hid)⟩
      exact fun x hx => (hrest x hx).trans (hfirst x hx)

/-! ## What a request writes -/

/-- A write that only adds, no hold, and to the queue packages only. -/
def Adds (r : CaseRecord) (w : Write) : Prop :=
  w.touches = none ∧ (∀ x, w.creates = some x → x.type ≠ "legal_hold") ∧
    ∀ id, w = .enqueue id → OfType (· = "export_package") r id

theorem adds_createItem (h : item.type ≠ "legal_hold") :
    Adds r (.createItem item) := by
  refine ⟨rfl, ?_, fun _ heq => nomatch heq⟩
  intro x hx
  cases hx
  exact h

theorem adds_putInvestigation (inv : Investigation) {item : Option Item}
    (h : ∀ x, item = some x → x.type ≠ "legal_hold") : Adds r (.putInvestigation inv item) :=
  ⟨rfl, h, fun _ heq => nomatch heq⟩

theorem adds_activity (at_ : Moment) (user : AuthUser) (id label : String) (notes : Option String) :
    Adds r (addActivity at_ user id label notes) :=
  adds_createItem (by decide : "activity" ≠ "legal_hold")

theorem adds_enqueue (h : OfType (· = "export_package") r id) :
    Adds r (.enqueue id) := by
  refine ⟨rfl, (fun _ hx => nomatch hx), ?_⟩
  intro other heq
  cases heq
  exact h

theorem Adds.spares (h : Adds r w) : SparesHolds r w := by
  refine ⟨h.2.1, ?_⟩
  intro id hid
  rw [h.1] at hid
  cases hid

/-- The writes of a request: all of them add, or the first is the one the request is for. -/
inductive Shape (iso : Int → List Char) (r : CaseRecord) (user : AuthUser) (at_ : Moment) :
    Request → List Write → Prop
  | adds {request : Request} {ws : List Write} (hother : ∀ id dto, request ≠ .setLegalHold id dto)
      (h : ∀ w ∈ ws, Adds r w) : Shape iso r user at_ request ws
  | notes {id itemId s : String} {item : Item} {notes : Option String} {activity : Write}
      (hfind : findItem r id itemId = some item) (hactivity : ∀ r, Adds r activity) :
      Shape iso r user at_ (.updateItem id itemId (.text s)) [.setNotes itemId notes, activity]
  | removal {id itemId : String} {item : Item} {activity : Write}
      (hfind : findItem r id itemId = some item) (hkept : keptByHold r id itemId = false)
      (hactivity : ∀ r, Adds r activity) :
      Shape iso r user at_ (.removeItem id itemId) [.deleteItem itemId, activity]
  | review {id requestId decision : String} {reason : Option String} {item : Item}
      {metadata : Json.Value} {activity : Write} (hfind : findRequest r id requestId = some item)
      (hactivity : ∀ r, Adds r activity) :
      Shape iso r user at_ (.reviewExportRequest id requestId decision reason)
        [.setMetadata requestId metadata, activity]
  | hold {id : String} {dto : Json.Value} {hold : LegalHold} {activity : Write}
      (hrequested : requestedHold dto = some hold) (hactivity : ∀ r, Adds r activity) :
      Shape iso r user at_ (.setLegalHold id dto)
        [.createItem (newItem at_.mainId id "legal_hold" (holdLabel hold) at_ at_.now hold.reason
          (some (holdPayload iso hold user at_.now))), activity]
  | package {id requestId : String} {reason : Option String} {item : Item} {activity : Write}
      (htype : item.type = "export_package") (hactivity : ∀ r, Adds r activity) :
      Shape iso r user at_ (.executeExportRequest id requestId reason)
        [.createItem item, .enqueue item.id, activity]

variable {activity : Write}

theorem adds_pair (h : Adds r w) (hactivity : Adds r activity) :
    ∀ w' ∈ [w, activity], Adds r w' := by
  intro w' hw'
  rcases List.mem_cons.mp hw' with rfl | hw'
  · exact h
  · rw [List.mem_singleton.mp hw']
    exact hactivity

variable {investigationId : String}

theorem retryIds_packages (hwf : Wf r)
    (hid : id ∈ retryIds r investigationId) : OfType (· = "export_package") r id := by
  obtain ⟨item, hitem, rfl⟩ := List.mem_map.mp hid
  have hsorted := List.mem_of_mem_take (List.mem_of_mem_filter hitem)
  have hrow := List.mem_filter.mp ((List.mem_insertionSort _).mp hsorted)
  exact ofType_row hwf hrow.1 (of_decide_eq_true (Bool.and_eq_true_iff.mp hrow.2).2)

variable {user : AuthUser} {at_ : Moment} {request : Request}

theorem writes_shape
    (hwf : Wf r) (h : writes iso r user at_ request = .ok ws) :
    Shape iso r user at_ request ws := by
  have hactivity : ∀ id label notes r, Adds r (addActivity at_ user id label notes) :=
    fun id label notes r => adds_activity at_ user id label notes
  cases request with
  | create title status summary =>
    cases h
    exact .adds (fun _ _ h => nomatch h)
      (adds_pair (adds_putInvestigation _ (fun _ hx => nomatch hx)) (hactivity _ _ _ r))
  | update id title status summary =>
    obtain ⟨inv, -, h⟩ := bind_ok h
    cases h
    exact .adds (fun _ _ h => nomatch h)
      (adds_pair (adds_putInvestigation _ (fun _ hx => nomatch hx)) (hactivity _ _ _ r))
  | addItem id dto =>
    unfold writes at h
    dsimp only at h
    split at h
    · cases h
    · next htype =>
      obtain ⟨inv, -, h⟩ := bind_ok h
      cases h
      refine .adds (fun _ _ h => nomatch h) (adds_pair (adds_createItem ?_) (hactivity _ _ _ r))
      intro hhold
      have hhold : dto.type = "legal_hold" := hhold
      exact htype (by rw [hhold]; decide)
  | updateItem id itemId notes =>
    unfold writes at h
    obtain ⟨inv, -, h⟩ := bind_ok h
    dsimp only at h
    split at h
    · cases h
    · next item hfind =>
      cases notes with
      | null => cases h
      | absent =>
        cases h
        refine .adds (fun _ _ h => nomatch h) ?_
        intro w hw
        rw [List.mem_singleton.mp hw]
        exact hactivity _ _ _ r
      | text s =>
        cases h
        exact .notes hfind (hactivity _ _ _)
  | removeItem id itemId =>
    unfold writes at h
    obtain ⟨inv, -, h⟩ := bind_ok h
    dsimp only at h
    split at h
    · cases h
    · next hkept =>
      split at h
      · cases h
      · next item hfind =>
        cases h
        exact .removal hfind (by simpa using hkept) (hactivity _ _ _)
  | addBookmark id dto =>
    obtain ⟨inv, -, h⟩ := bind_ok h
    cases h
    exact .adds (fun _ _ h => nomatch h)
      (adds_pair (adds_createItem (by decide : "bookmark" ≠ "legal_hold")) (hactivity _ _ _ r))
  | addNote id note =>
    obtain ⟨inv, -, h⟩ := bind_ok h
    split at h
    · cases h
    · cases h
      exact .adds (fun _ _ h => nomatch h)
        (adds_pair (adds_createItem (by decide : "note" ≠ "legal_hold")) (hactivity _ _ _ r))
  | transitionLifecycle id status summary note =>
    obtain ⟨current, -, h⟩ := bind_ok h
    cases h
    refine .adds (fun _ _ h => nomatch h) ?_
    intro w hw
    rcases List.mem_cons.mp hw with rfl | hw
    · refine adds_putInvestigation _ ?_
      intro x hx
      cases hx
      exact (by decide : "lifecycle" ≠ "legal_hold")
    · split at hw
      · rw [List.mem_singleton.mp hw]
        exact hactivity _ _ _ r
      · cases hw
  | setLegalHold id dto =>
    obtain ⟨inv, -, h⟩ := bind_ok h
    split at h
    · cases h
    · next hold hrequested =>
      cases h
      exact .hold hrequested (hactivity _ _ _)
  | createExportRequest id reason format itemIds recordingIds clipIds =>
    obtain ⟨inv, -, h⟩ := bind_ok h
    split at h
    · cases h
    · cases h
      exact .adds (fun _ _ h => nomatch h)
        (adds_pair (adds_createItem (by decide : "export_request" ≠ "legal_hold"))
          (hactivity _ _ _ r))
  | reviewExportRequest id requestId decision reason =>
    unfold writes at h
    obtain ⟨inv, -, h⟩ := bind_ok h
    dsimp only at h
    split at h
    · cases h
    · split at h
      · cases h
      · next reqItem hfind =>
        split at h
        · cases h
        · cases h
          exact .review hfind (hactivity _ _ _)
  | executeExportRequest id requestId reason =>
    obtain ⟨inv, -, h⟩ := bind_ok h
    dsimp only at h
    split at h
    · cases h
    · split at h
      · cases h
      · split at h
        · cases h
          exact .package rfl (hactivity _ _ _)
        · cases h
  | enqueueRetryPendingSignatures id =>
    obtain ⟨inv, -, h⟩ := bind_ok h
    cases h
    refine .adds (fun _ _ h => nomatch h) ?_
    intro w hw
    rcases List.mem_append.mp hw with hw | hw
    · obtain ⟨other, hother, rfl⟩ := List.mem_map.mp hw
      exact adds_enqueue (retryIds_packages hwf hother)
    · rw [List.mem_singleton.mp hw]
      exact hactivity _ _ _ r
  | upsertCaseMeta id dto =>
    obtain ⟨inv, -, h⟩ := bind_ok h
    cases h
    exact .adds (fun _ _ h => nomatch h)
      (adds_pair (adds_createItem (by decide : "case_meta" ≠ "legal_hold")) (hactivity _ _ _ r))

/-! ## A call -/

theorem perform_shape (done : Nat)
    (hwf : Wf r) : perform iso r user at_ done request = r ∨ ∃ ws,
      Shape iso r user at_ request ws ∧ perform iso r user at_ done request =
        { applyAll r (ws.take done) with lastHold := holdSet r at_ done request } := by
  unfold perform
  cases hwrites : writes iso r user at_ request with
  | error e => exact Or.inl rfl
  | ok ws => exact Or.inr ⟨ws, writes_shape hwf hwrites, rfl⟩

variable {itemId : String}

theorem findItem_some
    (h : findItem r investigationId itemId = some item) :
    item ∈ r.items ∧ item.id = itemId ∧ item.investigationId = investigationId := by
  have hfound := List.find?_some h
  simp only [Bool.and_eq_true, decide_eq_true_eq] at hfound
  exact ⟨List.mem_of_find?_eq_some h, hfound⟩

theorem findRequest_some {investigationId requestId : String}
    (h : findRequest r investigationId requestId = some item) :
    item ∈ r.items ∧ item.id = requestId ∧ item.type = "export_request" := by
  have hfound := List.find?_some h
  simp only [Bool.and_eq_true, decide_eq_true_eq] at hfound
  exact ⟨List.mem_of_find?_eq_some h, hfound.1.1, hfound.2⟩

theorem found_usersOwn (hwf : Wf r) {found item : Item}
    (hfind : findItem r investigationId itemId = some found)
    (hown : usersOwn r investigationId itemId = true) (hitem : item ∈ r.items)
    (htype : item.type ∈ serverOwned) : itemId ≠ item.id := by
  obtain ⟨hmem, hid, hinv⟩ := findItem_some hfind
  intro heq
  have hsame : found = item := hwf.distinct found hmem item hitem (hid.trans heq)
  have hrow := List.all_eq_true.mp hown item hitem
  simp only [Bool.or_eq_true, decide_eq_true_eq] at hrow
  rcases hrow with (hne | hne) | hfree
  · exact hne heq.symm
  · exact hne (hsame ▸ hinv)
  · exact hfree htype

theorem take_pair {α : Type} {w v x : α} {n : Nat} (h : x ∈ [w, v].take n) : x = w ∨ x = v := by
  have hmem := List.mem_of_mem_take h
  simpa using hmem

theorem applyAll_package (done : Nat) (hwf : Wf r)
    (htype : item.type = "export_package") (hactivity : ∀ r, Adds r activity) :
    Wf (applyAll r (([.createItem item, .enqueue item.id, activity] : List Write).take done)) := by
  cases done with
  | zero => exact hwf
  | succ n =>
    rw [List.take_succ_cons, applyAll]
    cases happly : apply r (.createItem item) with
    | none => exact hwf
    | some r' =>
      have hwf' : Wf r' := insertItem_wf hwf happly
      have hpackage : OfType (· = "export_package") r' item.id :=
        ofType_row hwf' ((insertItem_mem happly).mpr (Or.inr rfl)) htype
      apply applyAll_wf hwf'
      intro id hid
      rcases take_pair hid with hid | hid
      · cases hid
        exact hpackage
      · exact (hactivity r').2.2 id hid.symm

theorem applyAll_shape_wf
    (done : Nat) (hwf : Wf r) (h : Shape iso r user at_ request ws) :
    Wf (applyAll r (ws.take done)) := by
  -- the first of two writes queues nothing, the second is an activity
  have hpair : ∀ {w activity : Write}, (∀ id, w ≠ .enqueue id) → (∀ r, Adds r activity) →
      Wf (applyAll r ([w, activity].take done)) := by
    intro w activity hw hactivity
    apply applyAll_wf hwf
    intro id hid
    rcases take_pair hid with hid | hid
    · exact absurd hid.symm (hw id)
    · exact (hactivity r).2.2 id hid.symm
  cases h with
  | adds _ h => exact applyAll_wf hwf (fun id hid => (h _ (List.mem_of_mem_take hid)).2.2 id rfl)
  | notes _ hactivity => exact hpair (fun _ h => nomatch h) hactivity
  | removal _ _ hactivity => exact hpair (fun _ h => nomatch h) hactivity
  | review _ hactivity => exact hpair (fun _ h => nomatch h) hactivity
  | hold _ hactivity => exact hpair (fun _ h => nomatch h) hactivity
  | package htype hactivity => exact applyAll_package done hwf htype hactivity

variable {done : Nat}

theorem applyAll_shape_kept
    (hwf : Wf r) (h : Shape iso r user at_ request ws)
    (hguard : UsersRows r (.call user request at_ done)) (hitem : item ∈ r.items)
    (htype : item.type ∈ serverOwned) :
    item ∈ (applyAll r (ws.take done)).items ∨ OwnMethod (.call user request at_ done) item ∧
      ∃ metadata, item.withMetadata metadata ∈ (applyAll r (ws.take done)).items := by
  have hspared : ∀ {w activity : Write}, w.touches ≠ some item.id → (∀ r, Adds r activity) →
      item ∈ (applyAll r ([w, activity].take done)).items := by
    intro w activity hw hactivity
    apply applyAll_kept hitem
    intro v hv
    rcases take_pair hv with rfl | rfl
    · exact hw
    · rw [(hactivity r).1]
      exact Option.some_ne_none _ ∘ Eq.symm
  cases h with
  | adds _ h =>
    left
    apply applyAll_kept hitem
    intro w hw
    rw [(h w (List.mem_of_mem_take hw)).1]
    exact Option.some_ne_none _ ∘ Eq.symm
  | notes hfind hactivity =>
    have hne := found_usersOwn hwf hfind hguard hitem htype
    exact Or.inl (hspared (fun heq => hne (Option.some.inj heq)) hactivity)
  | @removal id itemId found activity hfind hkept hactivity =>
    have hown : usersOwn r id itemId = true := by
      simpa [UsersRows, usersRows, hkept] using hguard
    have hne := found_usersOwn hwf hfind hown hitem htype
    exact Or.inl (hspared (fun heq => hne (Option.some.inj heq)) hactivity)
  | @review id requestId decision reason found metadata activity hfind hactivity =>
    by_cases hid : requestId = item.id
    · obtain ⟨hmem, hfound, hrequest⟩ := findRequest_some hfind
      have hsame : found = item := hwf.distinct found hmem item hitem (hfound.trans hid)
      cases done with
      | zero => exact Or.inl hitem
      | succ n =>
        refine Or.inr ⟨⟨hsame ▸ hrequest, hid⟩, metadata, ?_⟩
        rw [List.take_succ_cons, applyAll]
        have hany : r.items.any (fun x => x.id = requestId) = true :=
          List.any_eq_true.mpr ⟨item, hitem, decide_eq_true hid.symm⟩
        have hchange : apply r (.setMetadata requestId metadata) = some { r with
            items := r.items.map (fun x =>
              if x.id = requestId then x.withMetadata metadata else x) } := if_pos hany
        rw [hchange]
        apply applyAll_kept
        · exact List.mem_map.mpr ⟨item, hitem, if_pos hid.symm⟩
        · intro w hw
          have hw : w = activity := by simpa using List.mem_of_mem_take hw
          rw [hw, (hactivity r).1]
          exact Option.some_ne_none _ ∘ Eq.symm
    · exact Or.inl (hspared (fun heq => hid (Option.some.inj heq)) hactivity)
  | hold _ hactivity => exact Or.inl (hspared (fun heq => nomatch heq) hactivity)
  | package _ hactivity =>
    left
    apply applyAll_kept hitem
    intro w hw
    have hw := List.mem_of_mem_take hw
    simp only [List.mem_cons, List.not_mem_nil, or_false] at hw
    rcases hw with rfl | rfl | rfl
    · exact fun heq => nomatch heq
    · exact fun heq => nomatch heq
    · rw [(hactivity r).1]
      exact Option.some_ne_none _ ∘ Eq.symm

/-! ## The worker -/

theorem setPackageStatus_eq (r : CaseRecord) (id : String)
    (patch : List (List Char × Json.Value)) : setPackageStatus r id patch = r ∨
      ∃ metadata, changeItem r id (Item.withMetadata metadata) = some (setPackageStatus r id patch) := by
  unfold setPackageStatus
  cases hfind : r.items.find? (fun item => item.id = id) with
  | none => exact Or.inl rfl
  | some item =>
    dsimp only
    cases hchange : changeItem r id (Item.withMetadata (patched item.metadata patch)) with
    | none => exact Or.inl rfl
    | some r' => exact Or.inr ⟨_, hchange⟩

theorem setPackageStatus_kept {patch : List (List Char × Json.Value)}
    (hqueued : OfType (· = "export_package") r id) (hitem : item ∈ r.items) :
    item ∈ (setPackageStatus r id patch).items ∨ OwnMethod (.package id patch) item ∧
      ∃ metadata, item.withMetadata metadata ∈ (setPackageStatus r id patch).items := by
  rcases setPackageStatus_eq r id patch with hsame | ⟨metadata, hchange⟩
  · rw [hsame]
    exact Or.inl hitem
  · rw [changeItem_some hchange]
    by_cases hid : item.id = id
    · exact Or.inr ⟨⟨hqueued.2 item hitem hid, hid.symm⟩, metadata,
        List.mem_map.mpr ⟨item, hitem, if_pos hid⟩⟩
    · exact Or.inl (List.mem_map.mpr ⟨item, hitem, if_neg hid⟩)

/-! ## The hold in force -/

theorem isHold_iff : isHold investigationId item = true ↔
    item.type = "legal_hold" ∧ item.investigationId = investigationId := by
  simp [isHold]

theorem find?_newest {p : InvestigationItem → Bool} {x : InvestigationItem} :
    ∀ {rows : List InvestigationItem},
    rows.Pairwise (fun a b => b.createdAt ≤ a.createdAt) → x ∈ rows → p x = true →
    (∀ y ∈ rows, p y = true → y = x ∨ y.createdAt < x.createdAt) → rows.find? p = some x
  | [], _, hx, _, _ => nomatch hx
  | y :: rows, hsorted, hx, hp, hnewest => by
    obtain ⟨hfirst, hrest⟩ := List.pairwise_cons.mp hsorted
    by_cases hy : p y = true
    · rw [List.find?_cons_of_pos hy]
      rcases hnewest y List.mem_cons_self hy with rfl | holder
      · rfl
      · -- an older row does not come before the newest
        rcases List.mem_cons.mp hx with rfl | hx
        · rfl
        · have := hfirst x hx
          omega
    · rw [List.find?_cons_of_neg hy]
      rcases List.mem_cons.mp hx with rfl | hx
      · exact absurd hp hy
      · exact find?_newest hrest hx hp (fun z hz => hnewest z (List.mem_cons_of_mem _ hz))

theorem mem_holdRows {items : List Item} {row : InvestigationItem} :
    row ∈ holdRows (items.map (·.toInvestigationItem)) ↔
      ∃ item ∈ items, item.toInvestigationItem = row ∧ item.type = "legal_hold" := by
  unfold holdRows
  rw [List.mem_insertionSort, List.mem_filter, List.mem_map, decide_eq_true_eq]
  refine ⟨?_, ?_⟩
  · intro h
    obtain ⟨⟨item, hitem, rfl⟩, htype⟩ := h
    exact ⟨item, hitem, rfl, htype⟩
  · intro h
    obtain ⟨item, hitem, rfl, htype⟩ := h
    exact ⟨⟨item, hitem, rfl⟩, htype⟩

theorem holdRows_sorted (items : List InvestigationItem) :
    (holdRows items).Pairwise (fun a b => b.createdAt ≤ a.createdAt) := by
  have htotal : Std.Total (fun a b : InvestigationItem => b.createdAt ≤ a.createdAt) :=
    ⟨fun a b => Int.le_total b.createdAt a.createdAt⟩
  have htrans : IsTrans InvestigationItem (fun a b => b.createdAt ≤ a.createdAt) :=
    ⟨fun _ _ _ hab hbc => Int.le_trans hbc hab⟩
  exact List.pairwise_insertionSort _ _

theorem get?_latestHold (id : String) (rows : List InvestigationItem)
    (latest : List (String × Option Json.Value)) :
    JsMap.get? (rows.foldl (fun latest row =>
      if (JsMap.get? latest row.investigationId).isSome then latest
      else JsMap.set latest row.investigationId row.metadata) latest) id =
    (JsMap.get? latest id).or ((rows.find? (fun row => row.investigationId = id)).map
      (·.metadata)) := by
  induction rows generalizing latest with
  | nil => simp
  | cons row rows ih =>
    rw [List.foldl_cons, ih]
    by_cases hid : row.investigationId = id
    · subst hid
      cases hget : JsMap.get? latest row.investigationId with
      | none => simp [JsMap.get?_set]
      | some v => simp [hget]
    · rw [List.find?_cons_of_neg (by simpa using hid)]
      split
      · rfl
      · rw [JsMap.get?_set, if_neg hid]

/-- The two computations of the hold look at the same row. -/
theorem retentionHold_eq (items : List Item) (id : String) :
    retentionHold items id = match (latestHold items id).map (·.metadata) with
      | none => Recordings.noProtection
      | some metadata => Recordings.holdProtection metadata := by
  unfold retentionHold latestHoldByInvestigation
  rw [get?_latestHold]
  rfl

theorem holdOf_payload (hold : LegalHold) (user : AuthUser) (now : Int) :
    holdOf (holdPayload iso hold user now) = hold := by
  have hrecordings : textsOf (holdPayload iso hold user now) "recordingIds" = hold.recordingIds :=
    Recordings.textsOf_textsValue rfl
  have hclips : textsOf (holdPayload iso hold user now) "clipIds" = hold.clipIds :=
    Recordings.textsOf_textsValue rfl
  have hitems : textsOf (holdPayload iso hold user now) "itemIds" = hold.itemIds :=
    Recordings.textsOf_textsValue rfl
  have henabled : (Json.field (holdPayload iso hold user now) "enabled".toList).any truthy =
      hold.enabled := rfl
  have hreason : (Json.textField (holdPayload iso hold user now) "reason".toList).map
      String.ofList = hold.reason := by
    have hfield : Json.field (holdPayload iso hold user now) "reason".toList =
        some (orNull hold.reason) := rfl
    rw [Json.textField, hfield]
    cases hold.reason with
    | none => rfl
    | some reason => exact congrArg some String.ofList_toList
  unfold holdOf
  rw [henabled, hreason, hrecordings, hclips, hitems]

theorem holdProtection_payload (hold : LegalHold) (user : AuthUser) (now : Int) :
    Recordings.holdProtection (some (holdPayload iso hold user now)) = protection hold := by
  have henabled : Recordings.holdEnabled (holdPayload iso hold user now) = hold.enabled := rfl
  have hrecordings : textsOf (holdPayload iso hold user now) "recordingIds" = hold.recordingIds :=
    Recordings.textsOf_textsValue rfl
  have hclips : textsOf (holdPayload iso hold user now) "clipIds" = hold.clipIds :=
    Recordings.textsOf_textsValue rfl
  have hevents : textsOf (holdPayload iso hold user now) "eventIds" = [] := rfl
  unfold Recordings.holdProtection protection
  dsimp only
  rw [henabled, hrecordings, hclips, hevents]

/-- The newest row of the investigation's holds is the last one set; where none was set there
is none. -/
def HoldStands (iso : Int → List Char) (r : CaseRecord) (id : String) : Prop :=
  match JsMap.get? r.lastHold id with
  | none => ∀ item ∈ r.items, isHold id item = false
  | some hold => ∃ item ∈ r.items, isHold id item = true ∧
      (∃ user now, item.metadata = some (holdPayload iso hold user now)) ∧
      ∀ other ∈ r.items, isHold id other = true → other = item ∨ other.createdAt < item.createdAt

theorem latestHold_newest (hitem : item ∈ r.items)
    (hhold : isHold id item = true)
    (hnewest : ∀ other ∈ r.items, isHold id other = true →
      other = item ∨ other.createdAt < item.createdAt) :
    latestHold r.items id = some item.toInvestigationItem := by
  obtain ⟨htype, hinv⟩ := isHold_iff.mp hhold
  apply find?_newest (holdRows_sorted _)
  · exact mem_holdRows.mpr ⟨item, hitem, rfl, htype⟩
  · exact decide_eq_true hinv
  · intro row hrow hrowInv
    obtain ⟨other, hother, rfl, hotherType⟩ := mem_holdRows.mp hrow
    have hotherHold : isHold id other = true :=
      isHold_iff.mpr ⟨hotherType, of_decide_eq_true hrowInv⟩
    rcases hnewest other hother hotherHold with rfl | holder
    · exact Or.inl rfl
    · exact Or.inr holder

theorem latestHold_none (hnone : ∀ item ∈ r.items, isHold id item = false) :
    latestHold r.items id = none := by
  unfold latestHold
  apply List.find?_eq_none.mpr
  intro row hrow hinv
  obtain ⟨item, hitem, rfl, htype⟩ := mem_holdRows.mp hrow
  have hhold : isHold id item = true := isHold_iff.mpr ⟨htype, of_decide_eq_true hinv⟩
  rw [hnone item hitem] at hhold
  cases hhold

theorem HoldStands.inForce (h : HoldStands iso r id) :
    getActiveLegalHold r.items id = r.lastSet id ∧
      retentionHold r.items id = protection (r.lastSet id) := by
  rw [retentionHold_eq]
  unfold getActiveLegalHold CaseRecord.lastSet
  unfold HoldStands at h
  cases hlast : JsMap.get? r.lastHold id with
  | none =>
    rw [hlast] at h
    rw [latestHold_none h]
    exact ⟨rfl, rfl⟩
  | some hold =>
    rw [hlast] at h
    obtain ⟨item, hitem, hhold, ⟨user, now, hmetadata⟩, hnewest⟩ := h
    rw [latestHold_newest hitem hhold hnewest, Option.bind_some, Option.map_some, hmetadata]
    exact ⟨holdOf_payload hold user now, holdProtection_payload hold user now⟩

theorem HoldStands.same (h : HoldStands iso r id) (hsame : SameHolds r r')
    (hlast : r'.lastHold = r.lastHold) : HoldStands iso r' id := by
  have hrow : ∀ {item : Item}, isHold id item = true → (item ∈ r'.items ↔ item ∈ r.items) :=
    fun hhold => hsame _ (isHold_iff.mp hhold).1
  unfold HoldStands at h ⊢
  rw [hlast]
  cases hget : JsMap.get? r.lastHold id with
  | none =>
    rw [hget] at h
    intro item hitem
    by_contra hhold
    have hhold : isHold id item = true := by simpa using hhold
    rw [h item ((hrow hhold).mp hitem)] at hhold
    cases hhold
  | some hold =>
    rw [hget] at h
    obtain ⟨item, hitem, hhold, hmetadata, hnewest⟩ := h
    refine ⟨item, (hrow hhold).mpr hitem, hhold, hmetadata, ?_⟩
    intro other hother hotherHold
    exact hnewest other ((hrow hotherHold).mp hother) hotherHold

/-- A hold newer than the ones before it stands, and those of other investigations with it. -/
theorem HoldStands.added {i i' : String} {hold : LegalHold}
    (h : HoldStands iso r i') (hold_row : isHold i item = true)
    (hmetadata : ∃ user now, item.metadata = some (holdPayload iso hold user now))
    (hnewest : newestHold r i item.createdAt = true)
    (hitems : r'.items = r.items ++ [item]) (hlast : r'.lastHold = JsMap.set r.lastHold i hold) :
    HoldStands iso r' i' := by
  unfold HoldStands
  rw [hlast, hitems, JsMap.get?_set]
  by_cases hid : i = i'
  · subst hid
    rw [if_pos rfl]
    refine ⟨item, List.mem_append_right _ (List.mem_singleton.mpr rfl), hold_row,
      hmetadata, ?_⟩
    intro other hother hotherHold
    rcases List.mem_append.mp hother with hother | hother
    · right
      have hrow := List.all_eq_true.mp hnewest other hother
      simpa [hotherHold] using hrow
    · exact Or.inl (List.mem_singleton.mp hother)
  · rw [if_neg hid]
    -- the new row is no hold of this investigation
    have hnot : isHold i' item = false := by
      by_contra hhold
      have hhold : isHold i' item = true := by simpa using hhold
      exact hid ((isHold_iff.mp hold_row).2.symm.trans (isHold_iff.mp hhold).2)
    unfold HoldStands at h
    cases hget : JsMap.get? r.lastHold i' with
    | none =>
      rw [hget] at h
      intro other hother
      rcases List.mem_append.mp hother with hother | hother
      · exact h other hother
      · rw [List.mem_singleton.mp hother]
        exact hnot
    | some old =>
      rw [hget] at h
      obtain ⟨row, hrow, hhold, hmeta, hrest⟩ := h
      refine ⟨row, List.mem_append_left _ hrow, hhold, hmeta, ?_⟩
      intro other hother hotherHold
      rcases List.mem_append.mp hother with hother | hother
      · exact hrest other hother hotherHold
      · rw [List.mem_singleton.mp hother, hnot] at hotherHold
        cases hotherHold

theorem holdSet_other
    (h : ∀ id dto, request ≠ .setLegalHold id dto) : holdSet r at_ done request = r.lastHold := by
  cases request with
  | setLegalHold id dto => exact absurd rfl (h id dto)
  | create | update | addItem | updateItem | removeItem | addBookmark | addNote
  | transitionLifecycle | createExportRequest | reviewExportRequest | executeExportRequest
  | enqueueRetryPendingSignatures | upsertCaseMeta => rfl

theorem applyAll_pair_sameHolds (done : Nat) (hw : SparesHolds r w)
    (hactivity : ∀ r, Adds r activity) : SameHolds r (applyAll r ([w, activity].take done)) := by
  apply applyAll_sameHolds
  intro v hv
  rcases take_pair hv with rfl | rfl
  · exact hw
  · exact (hactivity r).spares

theorem spares_touch (hcreates : w.creates = none)
    (htouches : w.touches = some id) (hid : OfType (· ≠ "legal_hold") r id) :
    SparesHolds r w := by
  refine ⟨?_, ?_⟩
  · intro x hx
    rw [hcreates] at hx
    cases hx
  · intro other hother
    rw [htouches] at hother
    cases hother
    exact hid

theorem found_no_hold (hwf : Wf r) {found : Item}
    (hfind : findItem r investigationId itemId = some found)
    (hown : usersOwn r investigationId itemId = true) : OfType (· ≠ "legal_hold") r itemId := by
  obtain ⟨hmem, hid, -⟩ := findItem_some hfind
  rw [← hid]
  apply ofType_row hwf hmem
  intro htype
  exact found_usersOwn hwf hfind hown hmem (by rw [htype]; decide) hid.symm

theorem applyAll_shape_holds
    (hwf : Wf r) (h : Shape iso r user at_ request ws)
    (hguard : UsersRows r (.call user request at_ done))
    (hstands : HoldStands iso r id) :
    HoldStands iso { applyAll r (ws.take done) with lastHold := holdSet r at_ done request } id := by
  cases h with
  | adds hother h =>
    refine hstands.same (applyAll_sameHolds ?_) (holdSet_other hother)
    intro w hw
    exact (h w (List.mem_of_mem_take hw)).spares
  | notes hfind hactivity =>
    exact hstands.same (applyAll_pair_sameHolds done
      (spares_touch rfl rfl (found_no_hold hwf hfind hguard)) hactivity) rfl
  | @removal id itemId found activity hfind hkept hactivity =>
    have hown : usersOwn r id itemId = true := by
      simpa [UsersRows, usersRows, hkept] using hguard
    exact hstands.same (applyAll_pair_sameHolds done
      (spares_touch rfl rfl (found_no_hold hwf hfind hown)) hactivity) rfl
  | review hfind hactivity =>
    obtain ⟨hmem, hid, htype⟩ := findRequest_some hfind
    have hrow : OfType (· ≠ "legal_hold") r _ :=
      hid ▸ ofType_row hwf hmem (by rw [htype]; decide)
    exact hstands.same
      (applyAll_pair_sameHolds done (spares_touch rfl rfl hrow) hactivity) rfl
  | @hold id' dto hold activity hrequested hactivity =>
    cases done with
    | zero =>
      refine hstands.same (fun _ _ => Iff.rfl) ?_
      simp [holdSet, hrequested]
    | succ n =>
      rw [List.take_succ_cons, applyAll]
      cases happly : apply r (.createItem (newItem at_.mainId id' "legal_hold" (holdLabel hold)
          at_ at_.now hold.reason (some (holdPayload iso hold user at_.now)))) with
      | none =>
        refine hstands.same (fun _ _ => Iff.rfl) ?_
        -- the row could not be created, so no hold was set
        have hused : at_.mainId ∈ r.used := by
          by_contra hfresh
          have hinsert : apply r (.createItem (newItem at_.mainId id' "legal_hold" (holdLabel hold)
              at_ at_.now hold.reason (some (holdPayload iso hold user at_.now)))) = some _ :=
            if_neg hfresh
          rw [hinsert] at happly
          cases happly
        simp [holdSet, hrequested, hused]
      | some r' =>
        obtain ⟨hfresh, hr'⟩ := insertItem_some happly
        have hset : holdSet r at_ (n + 1) (.setLegalHold id' dto) = JsMap.set r.lastHold id' hold := by
          have hfresh : at_.mainId ∉ r.used := hfresh
          simp [holdSet, hrequested, hfresh]
        have hadded : HoldStands iso { r' with lastHold := JsMap.set r.lastHold id' hold } id := by
          subst hr'
          refine hstands.added (i := id') ?_ ?_ ?_ rfl rfl
          · exact isHold_iff.mpr ⟨rfl, rfl⟩
          · exact ⟨user, at_.now, rfl⟩
          · exact hguard
        refine hadded.same ?_ hset
        apply applyAll_sameHolds
        intro w hw
        have hw : w = activity := by simpa using List.mem_of_mem_take hw
        rw [hw]
        exact (hactivity r').spares
  | @package id' requestId reason item activity htype hactivity =>
    refine hstands.same (applyAll_sameHolds ?_) rfl
    intro w hw
    have hw := List.mem_of_mem_take hw
    simp only [List.mem_cons, List.not_mem_nil, or_false] at hw
    rcases hw with rfl | rfl | rfl
    · exact (adds_createItem (r := r) (by rw [htype]; decide)).spares
    · exact ⟨(fun _ hx => nomatch hx), (fun _ hx => nomatch hx)⟩
    · exact (hactivity r).spares

/-! ## Steps and runs -/

/-- The tables are in order and every investigation's last hold stands. -/
structure Inv (iso : Int → List Char) (r : CaseRecord) : Prop where
  wf : Wf r
  stands : ∀ id, HoldStands iso r id

theorem setPackageStatus_inv {patch : List (List Char × Json.Value)}
    (h : Inv iso r) (hqueued : OfType (· = "export_package") r id) :
    Inv iso (setPackageStatus r id patch) := by
  rcases setPackageStatus_eq r id patch with hsame | ⟨metadata, hchange⟩
  · rw [hsame]
    exact h
  · have happly : apply r (.setMetadata id metadata) = some (setPackageStatus r id patch) := hchange
    have hno : OfType (· ≠ "legal_hold") r id := by
      refine ⟨hqueued.1, ?_⟩
      intro item hitem hid
      rw [hqueued.2 item hitem hid]
      decide
    refine ⟨changeItem_wf (withMetadata_keeps metadata) h.wf hchange, ?_⟩
    intro other
    refine (h.stands other).same (apply_sameHolds (spares_touch rfl rfl hno) happly) ?_
    rw [changeItem_some hchange]

theorem inv_step (h : Inv iso s) (hguard : UsersRows s a) (hstep : step iso s a = some t) :
    Inv iso t := by
  cases a with
  | call user request at_ done =>
    cases hstep
    rcases @perform_shape iso s user at_ request done h.wf
      with hsame | ⟨ws, hshape, hperform⟩
    · rw [hsame]
      exact h
    · have hwf : Wf (applyAll s (ws.take done)) := applyAll_shape_wf done h.wf hshape
      rw [hperform]
      exact ⟨⟨hwf.distinct, hwf.used, hwf.queued⟩,
        fun id => applyAll_shape_holds h.wf hshape hguard (h.stands id)⟩
  | package id patch =>
    simp only [step] at hstep
    split at hstep
    · next hqueue =>
      cases hstep
      exact setPackageStatus_inv h (h.wf.queued id hqueue)
    · cases hstep

theorem inv_reach (h : Reach (caseMachine iso) UsersRows s) : Inv iso s := by
  apply h.invariant (I := Inv iso)
  · intro s hinit
    cases hinit
    refine ⟨⟨?_, ?_, ?_⟩, ?_⟩
    · intro item hitem
      cases hitem
    · intro item hitem
      cases hitem
    · intro id hid
      cases hid
    · intro id item hitem
      cases hitem
  · intro s a t hinv hguard hstep
    exact inv_step hinv hguard hstep

/-- **The case record is append-only** where the users set no notes on the server's rows and
remove none of them, and a hold is newer than the ones before it. -/
theorem record_append_only (iso : Int → List Char) : AppendOnly iso UsersRows where
  kept := by
    intro s a t hreach hguard hstep item hitem htype
    have hinv : Inv iso s := inv_reach hreach
    cases a with
    | call user request at_ done =>
      cases hstep
      rcases @perform_shape iso s user at_ request done hinv.wf
        with hsame | ⟨ws, hshape, hperform⟩
      · rw [hsame]
        exact Or.inl hitem
      · rw [hperform]
        exact applyAll_shape_kept hinv.wf hshape hguard hitem htype
    | package id patch =>
      simp only [step] at hstep
      split at hstep
      · next hqueue =>
        cases hstep
        exact setPackageStatus_kept (hinv.wf.queued id hqueue) hitem
      · cases hstep
  active s hreach id := ((inv_reach hreach).stands id).inForce.1
  retained s hreach id := ((inv_reach hreach).stands id).inForce.2

/-! ## Runs of an operator on a case of his own -/

def ana : AuthUser := ⟨"user-1", "Ana", .operator⟩

def noon : Int := 1772625600000

/-- Every call at its own minute, with the rows it creates named after it. -/
def moment (minute : Int) (mainId activityId : String) : Moment :=
  ⟨noon + 60000 * minute, mainId, activityId⟩

def exampleIso : Int → List Char := fun _ => "2026-03-04T12:00:00.000Z".toList

def holdDto : Json.Value :=
  .obj [("enabled".toList, .bool true), ("reason".toList, .str "processo".toList),
    ("recordingIds".toList, .arr [.str "recording-1".toList])]

def yardHold : LegalHold := ⟨true, some "processo", ["recording-1"], [], []⟩

def holdCase : List Label :=
  [.call ana (.create "Portão" none none) (moment 0 "case" "activity-0") 2,
    .call ana (.setLegalHold "case" holdDto) (moment 1 "hold" "activity-1") 2]

def removeHold : List Label :=
  holdCase ++ ([.call ana (.removeItem "case" "hold") (moment 2 "none" "activity-2") 2] : List Label)

/-- The user removes the row of the hold: nothing is held, though a hold was set last. -/
theorem hold_removed : ¬ AppendOnly exampleIso Always := by
  intro happend
  have hrun : (Machine.run (caseMachine exampleIso) anyStep ⟨[], [], [], [], []⟩ removeHold).map
      (fun s => (getActiveLegalHold s.items "case", s.lastSet "case")) =
      some (noHold, yardHold) := by
    rfl
  obtain ⟨s, hreach, heq⟩ := reach_of_anyStep hrun rfl
  rw [Prod.mk.injEq] at heq
  have hactive := happend.active s hreach "case"
  rw [heq.1, heq.2] at hactive
  exact absurd hactive (by decide)

def noteCase : List Label :=
  holdCase ++ ([.call ana (.addNote "case" "placa legível") (moment 2 "note" "activity-2") 2,
    .call ana (.updateItem "case" "note" (.text "placa ilegível")) (moment 3 "none" "activity-3") 2,
    .call ana (.removeItem "case" "note") (moment 4 "none" "activity-4") 2] : List Label)

theorem record_append_only_note : ∃ s, Reach (caseMachine exampleIso) UsersRows s ∧
    s.lastSet "case" = yardHold ∧ getActiveLegalHold s.items "case" = s.lastSet "case" := by
  have hrun : (Machine.run (caseMachine exampleIso) usersRows ⟨[], [], [], [], []⟩ noteCase).map
      (fun s => s.lastSet "case") = some yardHold := by
    rfl
  obtain ⟨s, hreach, hlast⟩ := reach_of_run (G := UsersRows) hrun rfl (fun _ _ h => h)
  exact ⟨s, hreach, hlast, (record_append_only exampleIso).active s hreach "case"⟩

end Drac.Investigations
