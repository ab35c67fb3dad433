import Mathlib.Data.Rat.Defs
import Drac.Access.AccessControl
import Drac.Lib.Descending
import Drac.Lib.Grouping

/-
  The feed of events to review.

  Correspondence (`review.service.ts` ↔ Lean):
    feed               ↔ the same name, its where-clause `where_`
    findRecording      ↔ the same name, over `recordingsByCamera`
    streamThumbnail    ↔ its query `thumbnailRecording`

  A query reads rows of one table; rows of one time stay in the order of the table. Of the
  metadata of an event only the values at its keys are read, and none where it is no object.
  What the client of the database does not take (a date that is invalid, a page that is no
  number) is `none`.

  `onlyConfirmed` and `label` both set the key `metadata` of the clause, and the second one
  stays. `feed_exact_iff` says when that changes nothing.
-/

namespace Drac.Review

open Access Descending

/-! ## Rows -/

/-- What is at a key of a JSON object; what has an inside is its text. -/
inductive MetaValue where
  | bool (b : Bool)
  | num (q : ℚ)
  | str (s : String)
  | nested (json : String)
  deriving DecidableEq

structure CameraEvent where
  id : String
  cameraId : Id
  type : String
  severity : String
  metadata : String → Option MetaValue
  occurredAt : ℤ

structure Recording where
  id : String
  cameraId : Id
  startedAt : ℤ
  endedAt : Option ℤ
  deriving DecidableEq

structure UserEventReview where
  userId : Id
  eventId : String
  deriving DecidableEq

structure ReviewDatabase where
  access : Database
  cameraName : Id → Option String
  events : List CameraEvent
  recordings : List Recording
  reviews : List UserEventReview

/-! ## The query of the feed -/

def REVIEWABLE_TYPES : List String :=
  ["MOTION_DETECTED", "OBJECT_DETECTED", "FACE_DETECTED", "FACE_RECOGNIZED", "FACE_UNKNOWN"]

def RECORDING_MATCH_WINDOW_MS : ℤ := 24 * 60 * 60 * 1000

/-- An empty text is no filter; of a page, `some none` is no number. -/
structure ReviewFilters where
  cameraId : Option Id := none
  label : Option String := none
  onlyConfirmed : Bool := false
  unseenOnly : Bool := false
  from_ : Option String := none
  to_ : Option String := none
  limit : Option (Option ℤ) := none
  offset : Option (Option ℤ) := none

/-- A text that is there and not empty. -/
def given (text : Option String) : Option String := text.filter (· ≠ "")

/-- The clause of a feed. -/
structure EventWhere where
  cameraIdIn : List Id
  typeIn : List String
  noReviewOf : Option Id := none
  gte : Option ℤ := none
  lte : Option ℤ := none
  /-- `{ path: [key], equals: value }`. -/
  metadata : Option (String × MetaValue) := none

def EventWhere.accepts (w : EventWhere) (db : ReviewDatabase) (event : CameraEvent) : Bool :=
  event.cameraId ∈ w.cameraIdIn && event.type ∈ w.typeIn &&
    w.noReviewOf.all (fun user => ⟨user, event.id⟩ ∉ db.reviews) &&
    w.gte.all (· ≤ event.occurredAt) && w.lte.all (event.occurredAt ≤ ·) &&
    w.metadata.all (fun m => event.metadata m.1 = some m.2)

def where_ (user : AuthUser) (filters : ReviewFilters) (cameraIds : List Id)
    (from_ to_ : Option ℤ) : EventWhere :=
  let w : EventWhere :=
    { cameraIdIn := cameraIds
      typeIn := REVIEWABLE_TYPES
      noReviewOf := if filters.unseenOnly then some user.id else none
      gte := from_
      lte := to_ }
  -- two spreads of one key: the later one stays
  let w := if filters.onlyConfirmed then
    { w with metadata := some ("semanticConfirmed", .bool true) } else w
  match given filters.label with
  | some label => { w with metadata := some ("semanticLabel", .str label) }
  | none => w

/-! ## Recordings of a page -/

/-- An interval of times for which recordings are fetched at once. -/
structure Window where
  min : ℤ
  max : ℤ
  deriving DecidableEq

/-- The windows of times in ascending order, after the one that is open. -/
def windowsFrom (current : Window) : List ℤ → List Window
  | [] => [current]
  | t :: times =>
    if t - current.min ≤ RECORDING_MATCH_WINDOW_MS then windowsFrom { current with max := t } times
    else current :: windowsFrom ⟨t, t⟩ times

def windows : List ℤ → List Window
  | [] => []
  | t :: times => windowsFrom ⟨t, t⟩ times

/-- `startedAt <= max` and `endedAt` is null or `>= min`. -/
def Recording.meets (r : Recording) (w : Window) : Bool :=
  r.startedAt ≤ w.max && r.endedAt.all (w.min ≤ ·)

def candidates (db : ReviewDatabase) (rows : List CameraEvent) : List Recording :=
  let times := (rows.map (·.occurredAt)).insertionSort (· ≤ ·)
  sortDesc (·.startedAt) (db.recordings.filter fun r =>
    r.cameraId ∈ rows.map (·.cameraId) && (windows times).any r.meets)

def recordingsByCamera (db : ReviewDatabase) (rows : List CameraEvent) :
    List (Id × List Recording) :=
  if rows = [] then []
  else (candidates db rows).foldl (fun m r => Grouping.push m r.cameraId r) []

def findRecording (byCamera : List (Id × List Recording)) (cameraId : Id) (occurredAt : ℤ) :
    Option Recording :=
  (JsMap.get? byCamera cameraId).bind fun list =>
    list.find? fun r => r.startedAt ≤ occurredAt && r.endedAt.all (occurredAt ≤ ·)

/-! ## The feed -/

structure FeedItem where
  id : String
  cameraId : Id
  cameraName : Option String
  type : String
  severity : String
  label : Option MetaValue
  confirmed : Bool
  confidence : Option ℚ
  source : Option MetaValue
  occurredAt : ℤ
  reviewed : Bool
  recordingId : Option String
  offsetSeconds : Option ℤ
  deriving DecidableEq

/-- `Math.max(0, Math.floor((occurredAt - startedAt) / 1000))`. -/
def offsetIn (recording : Recording) (occurredAt : ℤ) : ℤ :=
  max 0 ((occurredAt - recording.startedAt) / 1000)

def numberOf : MetaValue → Option ℚ
  | .num q => some q
  | _ => none

def feedItem (db : ReviewDatabase) (user : AuthUser) (event : CameraEvent)
    (recording : Option Recording) : FeedItem where
  id := event.id
  cameraId := event.cameraId
  cameraName := db.cameraName event.cameraId
  type := event.type
  severity := event.severity
  label := event.metadata "semanticLabel"
  confirmed := event.metadata "semanticConfirmed" = some (.bool true)
  confidence := (event.metadata "semanticConfidence").bind numberOf
  source := event.metadata "source"
  occurredAt := event.occurredAt
  reviewed := ⟨user.id, event.id⟩ ∈ db.reviews
  recordingId := recording.map (·.id)
  offsetSeconds := recording.map fun r => offsetIn r event.occurredAt

structure FeedPage where
  items : List FeedItem
  total : ℕ
  limit : ℤ
  offset : ℤ
  deriving DecidableEq

/-- A date as the client takes it: `none` where it is invalid. -/
def readDate (date : String → Option ℤ) (text : Option String) : Option (Option ℤ) :=
  match given text with
  | none => some none
  | some text => (date text).map some

def requestedIds (accessible : List Id) (cameraId : Option Id) : List Id :=
  match cameraId with
  | some id => if id ∈ accessible then [id] else []
  | none => accessible

/-- `date` gives the milliseconds of `new Date(text)`. -/
def feed (date : String → Option ℤ) (db : ReviewDatabase) (user : AuthUser)
    (filters : ReviewFilters) : Option FeedPage :=
  let accessible := getAccessibleCameraIds db.access user
  if accessible = [] then some ⟨[], 0, 0, 0⟩
  else
    let cameraIds := requestedIds accessible filters.cameraId
    if cameraIds = [] then some ⟨[], 0, 0, 0⟩
    else do
      let limit := max 1 (min 100 (← filters.limit.getD (some 40)))
      let offset := max 0 (← filters.offset.getD (some 0))
      let w := where_ user filters cameraIds (← readDate date filters.from_) (← readDate date filters.to_)
      let rows := ((sortDesc (·.occurredAt) (db.events.filter (w.accepts db))).drop
        offset.toNat).take limit.toNat
      let byCamera := recordingsByCamera db rows
      return {
        items := rows.map fun event =>
          feedItem db user event (findRecording byCamera event.cameraId event.occurredAt)
        total := db.events.countP (w.accepts db)
        limit := limit
        offset := offset }

/-- `recording.findFirst`, the latest one that covers the event. -/
def thumbnailRecording (db : ReviewDatabase) (event : CameraEvent) : Option Recording :=
  (sortDesc (·.startedAt) (db.recordings.filter fun r =>
    r.cameraId = event.cameraId && r.startedAt ≤ event.occurredAt &&
      r.endedAt.all (event.occurredAt ≤ ·))).head?

/-! ## The recording of an event -/

theorem mem_windowsFrom {current : Window} {times : List ℤ} (hopen : current.min ≤ current.max)
    (hsorted : times.Pairwise (· ≤ ·)) (hafter : ∀ t ∈ times, current.max ≤ t) {x : ℤ}
    (hx : (current.min ≤ x ∧ x ≤ current.max) ∨ x ∈ times) :
    ∃ w ∈ windowsFrom current times, w.min ≤ x ∧ x ≤ w.max := by
  induction times generalizing current with
  | nil => exact ⟨current, List.mem_singleton_self _, hx.resolve_right List.not_mem_nil⟩
  | cons t times ih =>
    obtain ⟨ht, hsorted⟩ := List.pairwise_cons.mp hsorted
    have hlast : current.max ≤ t := hafter t List.mem_cons_self
    rw [windowsFrom]
    split
    · apply @ih { current with max := t } (hopen.trans hlast) hsorted ht
      obtain ⟨hmin, hmax⟩ | hmem := hx
      · exact .inl ⟨hmin, hmax.trans hlast⟩
      · obtain rfl | hmem := List.mem_cons.mp hmem
        · exact .inl ⟨hopen.trans hlast, le_refl x⟩
        · exact .inr hmem
    · by_cases hin : current.min ≤ x ∧ x ≤ current.max
      · exact ⟨current, List.mem_cons_self, hin⟩
      · have hrest : (t ≤ x ∧ x ≤ t) ∨ x ∈ times := by
          obtain rfl | hmem := List.mem_cons.mp (hx.resolve_left hin)
          · exact .inl ⟨le_refl x, le_refl x⟩
          · exact .inr hmem
        obtain ⟨w, hw, hin⟩ := @ih ⟨t, t⟩ (le_refl t) hsorted ht hrest
        exact ⟨w, List.mem_cons_of_mem _ hw, hin⟩

theorem mem_windows {times : List ℤ} (hsorted : times.Pairwise (· ≤ ·)) {x : ℤ} (hx : x ∈ times) :
    ∃ w ∈ windows times, w.min ≤ x ∧ x ≤ w.max := by
  cases times with
  | nil => cases hx
  | cons t times =>
    obtain ⟨ht, hsorted⟩ := List.pairwise_cons.mp hsorted
    apply @mem_windowsFrom ⟨t, t⟩ times (le_refl t) hsorted ht
    obtain rfl | hmem := List.mem_cons.mp hx
    · exact .inl ⟨le_refl x, le_refl x⟩
    · exact .inr hmem

variable {db : ReviewDatabase} {user : AuthUser} {rows : List CameraEvent} {event : CameraEvent}

theorem meets_of_covers (hevent : event ∈ rows) {r : Recording}
    (hstart : r.startedAt ≤ event.occurredAt) (hend : r.endedAt.all (event.occurredAt ≤ ·) = true) :
    (windows ((rows.map (·.occurredAt)).insertionSort (· ≤ ·))).any r.meets = true := by
  have htime : event.occurredAt ∈ (rows.map (·.occurredAt)).insertionSort (· ≤ ·) :=
    (List.mem_insertionSort _).mpr (List.mem_map.mpr ⟨event, hevent, rfl⟩)
  obtain ⟨w, hw, hmin, hmax⟩ := mem_windows (List.pairwise_insertionSort _ _) htime
  refine List.any_eq_true.mpr ⟨w, hw, ?_⟩
  rw [Recording.meets, Bool.and_eq_true, decide_eq_true_eq]
  refine ⟨hstart.trans hmax, ?_⟩
  cases hended : r.endedAt with
  | none => rfl
  | some ended =>
    rw [hended, Option.all_some, decide_eq_true_eq] at hend
    rw [Option.all_some, decide_eq_true_eq]
    exact hmin.trans hend

theorem findRecording_eq (hevent : event ∈ rows) :
    findRecording (recordingsByCamera db rows) event.cameraId event.occurredAt =
      thumbnailRecording db event := by
  have hgroup := (Grouping.grouped_nil (α := Recording) (·.cameraId)).foldl_push (candidates db rows)
  rw [List.nil_append] at hgroup
  have hlist := hgroup.get? event.cameraId
  rw [findRecording, recordingsByCamera, if_neg (List.ne_nil_of_mem hevent)]
  generalize JsMap.get? _ event.cameraId = found at hlist ⊢
  have hbind : (found.bind fun list => list.find? fun r =>
      r.startedAt ≤ event.occurredAt && r.endedAt.all (event.occurredAt ≤ ·)) =
      (found.getD []).find? fun r =>
        r.startedAt ≤ event.occurredAt && r.endedAt.all (event.occurredAt ≤ ·) := by
    cases found <;> rfl
  rw [hbind, hlist, List.find?_filter, candidates]
  have hfirst := @find?_sortDesc _ _ _ Recording.startedAt
    (fun r => r.cameraId = event.cameraId && r.startedAt ≤ event.occurredAt &&
      r.endedAt.all (event.occurredAt ≤ ·))
    (fun r => r.cameraId ∈ rows.map (·.cameraId) &&
      (windows ((rows.map (·.occurredAt)).insertionSort (· ≤ ·))).any r.meets) db.recordings (by
      intro r _ hr
      simp only [Bool.and_eq_true, decide_eq_true_eq] at hr
      obtain ⟨⟨hcamera, hstart⟩, hend⟩ := hr
      rw [Bool.and_eq_true, decide_eq_true_eq, hcamera]
      exact ⟨List.mem_map.mpr ⟨event, hevent, rfl⟩, meets_of_covers hevent hstart hend⟩)
  rw [thumbnailRecording, ← hfirst]
  congr 1
  funext r
  simp [Bool.and_assoc]

/-! ## What the filters ask for -/

/-- The event is to review, of an accessible camera, and meets all filters at once. -/
def satisfies (db : ReviewDatabase) (user : AuthUser) (filters : ReviewFilters)
    (from_ to_ : Option ℤ) (event : CameraEvent) : Bool :=
  event.cameraId ∈ getAccessibleCameraIds db.access user && event.type ∈ REVIEWABLE_TYPES &&
    filters.cameraId.all (event.cameraId = ·) &&
    (!filters.unseenOnly || ⟨user.id, event.id⟩ ∉ db.reviews) &&
    from_.all (· ≤ event.occurredAt) && to_.all (event.occurredAt ≤ ·) &&
    (given filters.label).all (fun label =>
      event.metadata "semanticLabel" = some (MetaValue.str label)) &&
    (!filters.onlyConfirmed || event.metadata "semanticConfirmed" = some (MetaValue.bool true))

/-- The filters that the clause has. -/
def effective (filters : ReviewFilters) : ReviewFilters :=
  if (given filters.label).isSome then { filters with onlyConfirmed := false } else filters

variable {filters : ReviewFilters} {from_ to_ : Option ℤ}

theorem mem_requestedIds {accessible : List Id} {requested : Option Id} {id : Id} :
    id ∈ requestedIds accessible requested ↔ id ∈ accessible ∧ requested.all (id = ·) = true := by
  cases requested with
  | none => simp [requestedIds]
  | some other =>
    rw [Option.all_some, decide_eq_true_eq]
    by_cases hmem : other ∈ accessible
    · rw [requestedIds, if_pos hmem, List.mem_singleton]
      exact ⟨fun h => ⟨h ▸ hmem, h⟩, And.right⟩
    · rw [requestedIds, if_neg hmem]
      constructor
      · intro h
        cases h
      · rintro ⟨hid, rfl⟩
        exact absurd hid hmem

theorem accepts_where : (where_ user filters
      (requestedIds (getAccessibleCameraIds db.access user) filters.cameraId) from_ to_).accepts db
      event = satisfies db user (effective filters) from_ to_ event := by
  have hids := @mem_requestedIds (getAccessibleCameraIds db.access user) filters.cameraId
    event.cameraId
  obtain ⟨cameraId, label, onlyConfirmed, unseenOnly, _, _, _, _⟩ := filters
  rw [Bool.eq_iff_iff]
  dsimp only at hids
  unfold where_ EventWhere.accepts satisfies effective
  cases hlabel : given label <;> cases onlyConfirmed <;> cases unseenOnly <;>
    simp [hids, hlabel] <;> tauto

theorem satisfies_eq : satisfies db user filters from_ to_ event =
    (satisfies db user { filters with onlyConfirmed := false } from_ to_ event &&
      (!filters.onlyConfirmed || event.metadata "semanticConfirmed" = some (MetaValue.bool true))) := by
  simp [satisfies]

/-- Where a label is asked for too, the events it leaves are all confirmed. -/
def LabelledConfirmed (db : ReviewDatabase) (user : AuthUser) (filters : ReviewFilters)
    (from_ to_ : Option ℤ) : Prop :=
  filters.onlyConfirmed = true → (given filters.label).isSome = true → ∀ event ∈ db.events,
    satisfies db user { filters with onlyConfirmed := false } from_ to_ event = true →
      event.metadata "semanticConfirmed" = some (MetaValue.bool true)

@[simp] theorem effective_cameraId : (effective filters).cameraId = filters.cameraId := by
  unfold effective
  split <;> rfl

theorem mem_requestedIds_of_satisfies (h : satisfies db user filters from_ to_ event = true) :
    event.cameraId ∈ requestedIds (getAccessibleCameraIds db.access user) filters.cameraId := by
  unfold satisfies at h
  simp only [Bool.and_eq_true, decide_eq_true_eq] at h
  exact mem_requestedIds.mpr ⟨h.1.1.1.1.1.1.1, h.1.1.1.1.1.2⟩

theorem satisfies_effective (h : satisfies db user filters from_ to_ event = true) :
    satisfies db user (effective filters) from_ to_ event = true := by
  unfold effective
  split
  · rw [satisfies_eq, Bool.and_eq_true] at h
    exact h.1
  · exact h

/-- The clause lets through no event beyond the filters just where those with the label are
confirmed. -/
theorem labelledConfirmed_iff : LabelledConfirmed db user filters from_ to_ ↔
    ∀ event ∈ db.events, satisfies db user (effective filters) from_ to_ event = true →
      satisfies db user filters from_ to_ event = true := by
  unfold LabelledConfirmed effective
  by_cases hlabel : (given filters.label).isSome = true
  · simp only [hlabel, if_true, true_implies]
    constructor
    · intro h event hevent hsat
      rw [satisfies_eq, hsat, Bool.true_and, Bool.or_eq_true, Bool.not_eq_true', decide_eq_true_eq]
      by_cases hconfirmed : filters.onlyConfirmed = true
      · exact .inr (h hconfirmed event hevent hsat)
      · exact .inl (Bool.eq_false_iff.mpr hconfirmed)
    · intro h hconfirmed event hevent hsat
      have hall := h event hevent hsat
      rw [satisfies_eq, hsat, Bool.true_and, hconfirmed, Bool.not_true, Bool.false_or,
        decide_eq_true_eq] at hall
      exact hall
  · rw [if_neg hlabel]
    exact ⟨fun _ _ _ hsat => hsat, fun _ _ habs => absurd habs hlabel⟩

/-! ## The feed is exact -/

/-- The page is of the events that meet all filters, the newest first, and each event has the
recording that its own query finds. -/
structure Exact (db : ReviewDatabase) (user : AuthUser) (filters : ReviewFilters)
    (from_ to_ : Option ℤ) (limit offset : ℤ) (page : FeedPage) : Prop where
  total : page.total = db.events.countP (satisfies db user filters from_ to_)
  items : ∃ rows : List CameraEvent, rows.Perm (db.events.filter (satisfies db user filters from_ to_)) ∧
    rows.Pairwise (fun a b => b.occurredAt ≤ a.occurredAt) ∧
    page.items = ((rows.drop (max 0 offset).toNat).take (max 1 (min 100 limit)).toNat).map
      fun event => feedItem db user event (thumbnailRecording db event)

theorem feed_eq (date : String → Option ℤ) {limit offset : ℤ}
    (hlimit : filters.limit.getD (some 40) = some limit)
    (hoffset : filters.offset.getD (some 0) = some offset)
    (hfrom : readDate date filters.from_ = some from_) (hto : readDate date filters.to_ = some to_) :
    ∃ page, feed date db user filters = some page ∧
      page.total = db.events.countP (satisfies db user (effective filters) from_ to_) ∧
      page.items = (((sortDesc (·.occurredAt)
        (db.events.filter (satisfies db user (effective filters) from_ to_))).drop
          (max 0 offset).toNat).take (max 1 (min 100 limit)).toNat).map
            fun event => feedItem db user event (thumbnailRecording db event) := by
  have hwhere : (where_ user filters
      (requestedIds (getAccessibleCameraIds db.access user) filters.cameraId) from_ to_).accepts db =
      satisfies db user (effective filters) from_ to_ := funext fun event => accepts_where
  -- without a camera nothing meets the filters
  have hnone : requestedIds (getAccessibleCameraIds db.access user) filters.cameraId = [] →
      db.events.filter (satisfies db user (effective filters) from_ to_) = [] := by
    intro hids
    rw [List.filter_eq_nil_iff]
    intro event _ hsat
    have hmem := mem_requestedIds_of_satisfies hsat
    rw [effective_cameraId, hids] at hmem
    cases hmem
  have hempty : ∀ n m : ℕ, requestedIds (getAccessibleCameraIds db.access user) filters.cameraId = [] →
      (0 = db.events.countP (satisfies db user (effective filters) from_ to_)) ∧
      [] = (((sortDesc (·.occurredAt)
        (db.events.filter (satisfies db user (effective filters) from_ to_))).drop n).take m).map
          fun event => feedItem db user event (thumbnailRecording db event) := by
    intro n m hids
    rw [List.countP_eq_length_filter, hnone hids]
    simp [sortDesc]
  unfold feed
  dsimp only
  by_cases haccessible : getAccessibleCameraIds db.access user = []
  · rw [if_pos haccessible]
    have hids : requestedIds (getAccessibleCameraIds db.access user) filters.cameraId = [] := by
      rw [haccessible]
      unfold requestedIds
      split <;> simp
    exact ⟨_, rfl, hempty _ _ hids⟩
  · rw [if_neg haccessible]
    by_cases hids : requestedIds (getAccessibleCameraIds db.access user) filters.cameraId = []
    · rw [if_pos hids]
      exact ⟨_, rfl, hempty _ _ hids⟩
    · rw [if_neg hids, hlimit, hoffset, hfrom, hto, ← hwhere]
      refine ⟨_, rfl, rfl, ?_⟩
      apply List.map_congr_left
      intro event hevent
      rw [findRecording_eq hevent]

/-- **The feed is exact** just where no event with the label is unconfirmed, if both are asked for:
of the two filters with one key in the clause only the label is there. -/
theorem feed_exact_iff (date : String → Option ℤ) (db : ReviewDatabase) (user : AuthUser)
    (filters : ReviewFilters) {from_ to_ : Option ℤ} {limit offset : ℤ}
    (hlimit : filters.limit.getD (some 40) = some limit)
    (hoffset : filters.offset.getD (some 0) = some offset)
    (hfrom : readDate date filters.from_ = some from_) (hto : readDate date filters.to_ = some to_) :
    ∃ page, feed date db user filters = some page ∧
      (Exact db user filters from_ to_ limit offset page ↔
        LabelledConfirmed db user filters from_ to_) := by
  obtain ⟨page, hpage, htotal, hitems⟩ := @feed_eq db user _ _ _ date _ _ hlimit hoffset hfrom hto
  have hsub : (db.events.filter (satisfies db user filters from_ to_)).Sublist
      (db.events.filter (satisfies db user (effective filters) from_ to_)) :=
    List.monotone_filter_right _ fun event => satisfies_effective
  refine ⟨page, hpage, ?_⟩
  rw [labelledConfirmed_iff]
  constructor
  · intro hexact event hevent hsat
    have hlength : (db.events.filter (satisfies db user filters from_ to_)).length =
        (db.events.filter (satisfies db user (effective filters) from_ to_)).length := by
      rw [← List.countP_eq_length_filter, ← List.countP_eq_length_filter, ← htotal, hexact.total]
    have hmem : event ∈ db.events.filter (satisfies db user (effective filters) from_ to_) :=
      List.mem_filter.mpr ⟨hevent, hsat⟩
    rw [← hsub.eq_of_length hlength] at hmem
    exact (List.mem_filter.mp hmem).2
  · intro h
    have hsame : db.events.filter (satisfies db user (effective filters) from_ to_) =
        db.events.filter (satisfies db user filters from_ to_) := by
      apply List.filter_congr
      intro event hevent
      exact Bool.eq_iff_iff.mpr ⟨h event hevent, satisfies_effective⟩
    refine ⟨?_, _, ?_, sortDesc_pairwise _ _, hitems⟩
    · rw [htotal, List.countP_eq_length_filter, hsame, List.countP_eq_length_filter]
    · rw [hsame]
      exact sortDesc_perm _ _

/-! ## A gate with two cars -/

def gate : Id := ⟨"gate", by decide⟩

def guardOnDuty : AuthUser := ⟨⟨"guard", by decide⟩, .admin⟩

def twoCars : ReviewDatabase where
  access :=
    { cameras := [⟨gate, none, false, none⟩]
      groups := []
      permissions := []
      camera_ids := by decide
      group_ids := by decide }
  cameraName := fun _ => some "Gate"
  events :=
    [⟨"seen", gate, "OBJECT_DETECTED", "INFO",
        fun key => if key = "semanticLabel" then some (.str "carro")
          else if key = "semanticConfirmed" then some (.bool true) else none, 2000⟩,
      ⟨"guessed", gate, "MOTION_DETECTED", "INFO",
        fun key => if key = "semanticLabel" then some (.str "carro") else none, 5000⟩]
  recordings := [⟨"morning", gate, 1000, none⟩]
  reviews := []

/-- Both cars are in the feed of confirmed cars. -/
theorem guessed_car_listed : ∃ page,
    feed (fun _ => none) twoCars guardOnDuty { label := some "carro", onlyConfirmed := true } =
      some page ∧
    ¬ Exact twoCars guardOnDuty { label := some "carro", onlyConfirmed := true } none none 40 0 page := by
  refine ⟨_, rfl, ?_⟩
  intro h
  exact absurd h.total (by decide)

/-- The feed of all cars is exact, and so is that of all that is confirmed. -/
theorem feed_exact_iff_cars :
    (∃ page, feed (fun _ => none) twoCars guardOnDuty { label := some "carro" } = some page ∧
      Exact twoCars guardOnDuty { label := some "carro" } none none 40 0 page) ∧
    ∃ page, feed (fun _ => none) twoCars guardOnDuty { onlyConfirmed := true } = some page ∧
      Exact twoCars guardOnDuty { onlyConfirmed := true } none none 40 0 page := by
  constructor
  · obtain ⟨page, hpage, hiff⟩ := feed_exact_iff (fun _ => none) twoCars guardOnDuty
      { label := some "carro" } rfl rfl rfl rfl
    exact ⟨page, hpage, hiff.mpr (fun hconfirmed => nomatch hconfirmed)⟩
  · obtain ⟨page, hpage, hiff⟩ := feed_exact_iff (fun _ => none) twoCars guardOnDuty
      { onlyConfirmed := true } rfl rfl rfl rfl
    exact ⟨page, hpage, hiff.mpr (fun _ hlabel => nomatch hlabel)⟩

end Drac.Review
