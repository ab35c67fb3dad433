import Drac.Lib.CursorPaging
import Drac.Lib.JsMap
import Drac.Lib.Loops
import Drac.Recordings.Store
import Mathlib.Algebra.Order.Group.Int

/-
  The timeline's reading of a window of recordings, page by page.

  Correspondence:
    `timeline-window.ts` (web)        ↔ `PagePlan`, `planNextPage`, `mergeByIdSorted`
    `PlaybackPage.tsx`, `fetchRangeItems` ↔ `fetchRange`, without its cap on the pages
    `recordings.service.ts`, `list`   ↔ `ListRecordingsQuery`, `matching`, `list`

  An instant is its epoch milliseconds; the two sides exchange it as the ISO text of one
  format, so texts are equal, and ordered, as the instants are. `Answers` is the database
  answering `findMany`: the rows that match, ordered by `startedAt` and nothing else, so that
  each query orders the rows of one instant as it likes.
-/

namespace Drac.Playback

open CursorPaging Loops Recordings

inductive Direction where
  | asc
  | desc
  deriving DecidableEq, Repr

/-! ## `GET /recordings` -/

structure ListRecordingsQuery where
  cameraId : Option String
  fromAt : Option ℤ
  toAt : Option ℤ
  offset : Option ℕ
  limit : Option ℕ
  sort : Option Direction
  deriving DecidableEq

def ListRecordingsQuery.order (query : ListRecordingsQuery) : Direction :=
  if query.sort = some .asc then .asc else .desc

/-- `accessible` is `accessibleCameraIds`, `none` where the user sees every camera. -/
def cameraFilter (cameraId : Option String) (accessible : Option (List String)) (r : Recording) :
    Bool :=
  match cameraId.filter (· ≠ ""), accessible with
  | some id, some ids => if id ∉ ids then false else r.cameraId = id
  | some id, none => r.cameraId = id
  | none, some ids => r.cameraId ∈ ids
  | none, none => true

/-- `where`. -/
def matching (accessible : Option (List String)) (query : ListRecordingsQuery) (r : Recording) :
    Bool :=
  cameraFilter query.cameraId accessible r &&
    (decide (∀ b ∈ query.fromAt, b ≤ r.startedAt) && decide (∀ b ∈ query.toAt, r.startedAt ≤ b))

def Direction.le (d : Direction) (a b : Recording) : Prop :=
  match d with
  | .asc => a.startedAt ≤ b.startedAt
  | .desc => b.startedAt ≤ a.startedAt

/-- A database that answers each query in some order of its rows. -/
structure Answers (db : Database) (accessible : Option (List String)) where
  order : ℕ → ListRecordingsQuery → List Recording
  perm : ∀ n query, (order n query).Perm (db.recordings.filter (matching accessible query))
  sorted : ∀ n query, (order n query).Pairwise query.order.le

structure ListResult where
  items : List Recording
  total : ℕ

def list {db : Database} {accessible : Option (List String)} (answers : Answers db accessible)
    (n : ℕ) (query : ListRecordingsQuery) : ListResult where
  items := ((answers.order n query).drop (query.offset.getD 0)).take (query.limit.getD 50)
  total := (db.recordings.filter (matching accessible query)).length

/-! ## The client -/

/-- The query of the next page. -/
structure PagePlan where
  fromAt : Option ℤ
  toAt : Option ℤ
  offset : ℕ

def PagePlan.boundary (plan : PagePlan) : Direction → Option ℤ
  | .desc => plan.toAt
  | .asc => plan.fromAt

/-- The plan of what follows an instant, in the direction of the read. -/
def PagePlan.startingAt (plan : PagePlan) (last : ℤ) : Direction → PagePlan
  | .desc => { fromAt := plan.fromAt, toAt := some last, offset := 0 }
  | .asc => { fromAt := some last, toAt := plan.toAt, offset := 0 }

def planNextPage (plan : PagePlan) (pageLength pageSize : ℕ) (lastTimestamp : Option ℤ)
    (direction : Direction) : Option PagePlan :=
  if pageLength ≤ 0 ∨ pageLength < pageSize then none
  else
    match lastTimestamp with
    | none => none
    | some last =>
      if plan.boundary direction = some last then
        some { plan with offset := plan.offset + pageLength }
      else some (plan.startingAt last direction)

/-- What a range asks for: the camera and the order stay, the plan moves. -/
structure RangeQuery where
  cameraId : Option String
  direction : Direction
  pageSize : ℕ

def RangeQuery.at (range : RangeQuery) (plan : PagePlan) : ListRecordingsQuery where
  cameraId := range.cameraId
  fromAt := plan.fromAt
  toAt := plan.toAt
  offset := some plan.offset
  limit := some range.pageSize
  sort := some range.direction

/-- The pages from query `n` on, as long as `planNextPage` gives a plan. -/
def fetchRange {db : Database} {accessible : Option (List String)}
    (answers : Answers db accessible) (range : RangeQuery) :
    ℕ → ℕ → PagePlan → Option (List Recording)
  | 0, _, _ => none
  | fuel + 1, n, plan =>
    let items := (list answers n (range.at plan)).items
    match planNextPage plan items.length range.pageSize
        (items.getLast?.map Recording.startedAt) range.direction with
    | none => some items
    | some plan' => (fetchRange answers range fuel (n + 1) plan').map (items ++ ·)

def mergeByIdSorted {α κ τ : Type} [DecidableEq κ] [LinearOrder τ] (current incoming : List α)
    (getId : α → κ) (getSortKey : α → τ) : List α :=
  let byId := (current ++ incoming).foldl (fun byId item => JsMap.set byId (getId item) item) []
  byTime getSortKey (JsMap.values byId)

/-! ## Merging -/

section Merge

variable {α κ τ : Type} [DecidableEq κ] [LinearOrder τ]

theorem mergeByIdSorted_sorted (current incoming : List α) (getId : α → κ) (getSortKey : α → τ) :
    (mergeByIdSorted current incoming getId getSortKey).Pairwise fun a b =>
      getSortKey a ≤ getSortKey b :=
  byTime_sorted getSortKey _

theorem mem_of_mem_mergeByIdSorted {items : List α} {getId : α → κ} {getSortKey : α → τ} {a : α}
    (h : a ∈ mergeByIdSorted [] items getId getSortKey) : a ∈ items := by
  have hentries : ∀ e ∈ items.foldl (fun byId item => JsMap.set byId (getId item) item)
      ([] : List (κ × α)), e.2 ∈ items := by
    refine foldl_invariant (P := fun m : List (κ × α) => ∀ e ∈ m, e.2 ∈ items) _ _ (by simp) ?_
    intro m b hb hm e he
    cases JsMap.mem_set he with
    | inl heq =>
      rw [heq]
      exact hb
    | inr hold => exact hm e hold
  rw [mergeByIdSorted, (byTime_perm _ _).mem_iff] at h
  obtain ⟨e, he, rfl⟩ := List.mem_map.mp h
  exact hentries e he

/-- Items that are told apart by their ids are all kept, each once. -/
theorem mergeByIdSorted_perm {items kept : List α} (getId : α → κ) (getSortKey : α → τ)
    (hids : (kept.map getId).Nodup) (hitems : ∀ a, a ∈ items ↔ a ∈ kept) :
    (mergeByIdSorted [] items getId getSortKey).Perm kept := by
  let byId := items.foldl (fun byId item => JsMap.set byId (getId item) item) []
  have hentries : ∀ e ∈ byId, e.1 = getId e.2 ∧ e.2 ∈ items := by
    refine foldl_invariant (P := fun m : List (κ × α) => ∀ e ∈ m, e.1 = getId e.2 ∧ e.2 ∈ items)
      _ _ (by simp) ?_
    intro m a ha hm e he
    cases JsMap.mem_set he with
    | inl heq =>
      rw [heq]
      exact ⟨rfl, ha⟩
    | inr hold => exact hm e hold
  have hkeys : (JsMap.keys byId).Nodup := by
    refine foldl_invariant (P := fun m : List (κ × α) => (JsMap.keys m).Nodup) _ _
      (by simp [JsMap.keys]) ?_
    intro m a _ hm
    exact JsMap.keys_nodup_set hm _ _
  have hreach : ∀ a ∈ items, getId a ∈ JsMap.keys byId := by
    refine foldl_reaches (Q := fun (a : α) (m : List (κ × α)) => getId a ∈ JsMap.keys m) _ _ ?_ ?_
    · intro m a _
      rw [JsMap.keys_set]
      split
      · assumption
      · exact List.mem_append_right _ (List.mem_singleton_self _)
    · intro m a _ x hx
      rw [JsMap.keys_set]
      split
      · exact hx
      · exact List.mem_append_left _ hx
  have hvalues : JsMap.keys byId = (JsMap.values byId).map getId := by
    rw [JsMap.values, List.map_map, JsMap.keys]
    exact List.map_congr_left fun e he => (hentries e he).1
  have hnodup : (JsMap.values byId).Nodup := by
    rw [hvalues] at hkeys
    exact hkeys.of_map _
  refine (byTime_perm getSortKey _).trans ?_
  rw [List.nil_append, List.perm_ext_iff_of_nodup hnodup (hids.of_map _)]
  intro a
  constructor
  · intro ha
    obtain ⟨e, he, rfl⟩ := List.mem_map.mp ha
    exact (hitems _).mp (hentries e he).2
  · intro ha
    have hkey := hreach a ((hitems a).mpr ha)
    rw [hvalues, List.mem_map] at hkey
    obtain ⟨b, hb, hid⟩ := hkey
    obtain ⟨e, he, rfl⟩ := List.mem_map.mp hb
    have hkept := (hitems _).mp (hentries e he).2
    rw [← List.inj_on_of_nodup_map hids hkept ha hid]
    exact hb

end Merge

end Drac.Playback
