import Drac.Playback.TimelineWindow

/-
  Does the timeline read every recording of its window?

  A range is read by a cursor on `startedAt`, which does not tell recordings apart
  (`CursorPaging`). Descending reads are ascending ones on the negated instant, so both are
  one argument: `planOf` is the plan of a cursor, and `fetchRange_eq_collect` says that
  `fetchRange` reads what `collect` reads.
-/

namespace Drac.Playback

open CursorPaging Recordings

/-- What a read in this direction advances by. -/
def Direction.key (d : Direction) (r : Recording) : ℤ :=
  match d with
  | .asc => r.startedAt
  | .desc => -r.startedAt

theorem Direction.le_iff (d : Direction) (a b : Recording) : d.le a b ↔ d.key a ≤ d.key b := by
  cases d with
  | asc => exact Iff.rfl
  | desc =>
    simp only [Direction.le, Direction.key]
    omega

/-- The bound of the window that the read moves. -/
def startCursor (window : PagePlan) (d : Direction) : Cursor ℤ :=
  match d with
  | .asc => { bound := window.fromAt, offset := window.offset }
  | .desc => { bound := window.toAt.map (- ·), offset := window.offset }

/-- The plan of a cursor: the other bound stays that of the window. -/
def planOf (window : PagePlan) (d : Direction) (c : Cursor ℤ) : PagePlan :=
  match d with
  | .asc => { fromAt := c.bound, toAt := window.toAt, offset := c.offset }
  | .desc => { fromAt := window.fromAt, toAt := c.bound.map (- ·), offset := c.offset }

theorem planOf_startCursor (window : PagePlan) (d : Direction) :
    planOf window d (startCursor window d) = window := by
  cases d with
  | asc => rfl
  | desc =>
    obtain ⟨fromAt, toAt, offset⟩ := window
    cases toAt <;> simp [planOf, startCursor]

@[simp] theorem planOf_offset (window : PagePlan) (d : Direction) (c : Cursor ℤ) :
    (planOf window d c).offset = c.offset := by
  cases d <;> rfl

theorem boundary_planOf (window : PagePlan) (d : Direction) (c : Cursor ℤ) (r : Recording) :
    (planOf window d c).boundary d = some r.startedAt ↔ c.bound = some (d.key r) := by
  cases d with
  | asc => exact Iff.rfl
  | desc =>
    simp only [planOf, PagePlan.boundary, Direction.key]
    cases c.bound with
    | none => simp
    | some b =>
      simp only [Option.map_some, Option.some.injEq]
      omega

theorem startingAt_planOf (window : PagePlan) (d : Direction) (c : Cursor ℤ) (r : Recording) :
    (planOf window d c).startingAt r.startedAt d =
      planOf window d { bound := some (d.key r), offset := 0 } := by
  cases d with
  | asc => rfl
  | desc => simp [planOf, PagePlan.startingAt, Direction.key]

theorem planOf_skip (window : PagePlan) (d : Direction) (c : Cursor ℤ) (offset : ℕ) :
    { planOf window d c with offset := offset } = planOf window d { c with offset := offset } := by
  cases d <;> rfl

section Range

variable {db : Database} {accessible : Option (List String)} (answers : Answers db accessible)
  (range : RangeQuery) (window : PagePlan)

/-- The recordings the moving bound does not decide about. -/
def scope (db : Database) (accessible : Option (List String)) (range : RangeQuery)
    (window : PagePlan) : List Recording :=
  db.recordings.filter fun r =>
    cameraFilter range.cameraId accessible r &&
      match range.direction with
      | .asc => decide (∀ b ∈ window.toAt, r.startedAt ≤ b)
      | .desc => decide (∀ b ∈ window.fromAt, b ≤ r.startedAt)

theorem matching_eq (c : Cursor ℤ) :
    db.recordings.filter (matching accessible (range.at (planOf window range.direction c))) =
      (scope db accessible range window).filter fun r => c.admits (range.direction.key r) := by
  rw [scope, List.filter_filter]
  apply List.filter_congr
  intro r _
  rw [Bool.eq_iff_iff]
  simp only [matching, Bool.and_eq_true, decide_eq_true_eq]
  cases hd : range.direction with
  | asc =>
    simp only [RangeQuery.at, planOf, Direction.key, Cursor.admits, decide_eq_true_eq]
    tauto
  | desc =>
    have hbound : (∀ b ∈ c.bound.map (- ·), r.startedAt ≤ b) ↔ ∀ b ∈ c.bound, b ≤ -r.startedAt := by
      cases c.bound with
      | none => simp
      | some b =>
        simp only [Option.map_some, Option.mem_def, Option.some.injEq, forall_eq']
        omega
    simp only [RangeQuery.at, planOf, Direction.key, Cursor.admits, decide_eq_true_eq, hbound]
    tauto

/-- The database answering the queries of the range. -/
def listing : Listing range.direction.key (scope db accessible range window) where
  order n c := answers.order n (range.at (planOf window range.direction c))
  perm n c := by
    rw [← matching_eq]
    exact answers.perm n _
  sorted n c := by
    refine (answers.sorted n _).imp ?_
    intro a b hab
    have horder : (range.at (planOf window range.direction c)).order = range.direction := by
      cases hd : range.direction <;> simp [ListRecordingsQuery.order, RangeQuery.at, hd]
    rw [horder, Direction.le_iff] at hab
    exact hab

theorem planNextPage_planOf (c : Cursor ℤ) (items : List Recording) :
    planNextPage (planOf window range.direction c) items.length range.pageSize
        (items.getLast?.map Recording.startedAt) range.direction =
      (next range.direction.key range.pageSize c items).map (planOf window range.direction) := by
  simp only [planNextPage, next]
  by_cases hshort : items.length < range.pageSize
  · rw [if_pos (.inr hshort), if_pos hshort]
    rfl
  · rw [if_neg hshort]
    cases hlast : items.getLast? with
    | none =>
      rw [List.getLast?_eq_none_iff] at hlast
      simp [hlast]
    | some last =>
      have hpos : 0 < items.length := List.length_pos_of_mem (List.mem_of_getLast? hlast)
      rw [if_neg (by omega)]
      simp only [Option.map_some]
      by_cases hbound : c.bound = some (range.direction.key last)
      · rw [if_pos ((boundary_planOf window range.direction c last).mpr hbound), if_pos hbound,
          planOf_skip, planOf_offset]
        rfl
      · rw [if_neg (fun h => hbound ((boundary_planOf window range.direction c last).mp h)),
          if_neg hbound, startingAt_planOf]
        rfl

theorem fetchRange_eq_collect (fuel n : ℕ) (c : Cursor ℤ) :
    fetchRange answers range fuel n (planOf window range.direction c) =
      collect (listing answers range window) range.pageSize fuel n c := by
  induction fuel generalizing n c with
  | zero => rfl
  | succ fuel ih =>
    have hitems : (list answers n (range.at (planOf window range.direction c))).items =
        page (listing answers range window) range.pageSize n c := by
      simp only [list, page, listing, RangeQuery.at, Option.getD_some, planOf_offset]
    simp only [fetchRange, collect, hitems, planNextPage_planOf]
    cases next range.direction.key range.pageSize c
        (page (listing answers range window) range.pageSize n c) with
    | none => rfl
    | some c' => simp only [Option.map_some, ih]

/-! ## The window -/

def windowRecordings (db : Database) (accessible : Option (List String)) (range : RangeQuery)
    (window : PagePlan) : List Recording :=
  db.recordings.filter (matching accessible (range.at window))

theorem windowRecordings_eq : windowRecordings db accessible range window =
    (scope db accessible range window).filter fun r =>
      (startCursor window range.direction).admits (range.direction.key r) := by
  rw [windowRecordings, ← matching_eq, planOf_startCursor]

theorem windowRecordings_ids : ((windowRecordings db accessible range window).map (·.id)).Nodup :=
  db.recording_ids.sublist (List.filter_sublist.map _)

theorem scope_nodup : (scope db accessible range window).Nodup :=
  List.Nodup.filter _ db.recording_ids.of_map

/-- The instant of a key. -/
def Direction.instant (d : Direction) (t : ℤ) : ℤ :=
  match d with
  | .asc => t
  | .desc => -t

theorem Direction.key_eq_iff (d : Direction) (r : Recording) (t : ℤ) :
    d.key r = t ↔ r.startedAt = d.instant t := by
  cases d with
  | asc => exact Iff.rfl
  | desc =>
    simp only [Direction.key, Direction.instant]
    omega

theorem group_eq {t : ℤ} (ht : (startCursor window range.direction).admits t) :
    group range.direction.key (scope db accessible range window) t =
      (windowRecordings db accessible range window).filter fun r =>
        r.startedAt = range.direction.instant t := by
  rw [windowRecordings_eq, List.filter_filter, group]
  apply List.filter_congr
  intro r _
  rw [Bool.eq_iff_iff]
  simp only [Bool.and_eq_true, decide_eq_true_eq, range.direction.key_eq_iff]
  constructor
  · intro h
    refine ⟨h, ?_⟩
    rw [(range.direction.key_eq_iff r t).mpr h]
    exact ht
  · exact fun h => h.1

/-- Whatever the answers, the pages end, and merged they are the recordings of the window,
each once and in start order. -/
def PagesComplete (db : Database) (accessible : Option (List String)) (range : RangeQuery)
    (window : PagePlan) : Prop :=
  ∀ answers : Answers db accessible, ∃ fuel collected,
    fetchRange answers range fuel 0 window = some collected ∧
      (mergeByIdSorted [] collected Recording.id Recording.startedAt).Perm
        (windowRecordings db accessible range window) ∧
      (mergeByIdSorted [] collected Recording.id Recording.startedAt).Pairwise fun a b =>
        a.startedAt ≤ b.startedAt

theorem pages_complete (hsize : 0 < range.pageSize) (hoffset : window.offset = 0)
    (hsmall : ∀ instant : ℤ, ((windowRecordings db accessible range window).filter fun r =>
      r.startedAt = instant).length ≤ range.pageSize) :
    PagesComplete db accessible range window := by
  intro answers
  let start := startCursor window range.direction
  let rows := scope db accessible range window
  have hstart : start.offset = 0 := by
    cases hd : range.direction <;> simp [start, startCursor, hd, hoffset]
  have hgroups : ∀ t, start.admits t →
      (group range.direction.key rows t).length ≤ range.pageSize := by
    intro t ht
    rw [group_eq range window ht]
    exact hsmall _
  obtain ⟨collected, hcollect⟩ := collect_returns (listing answers range window) hsize
    (work range.direction.key rows start + 1) 0 start (Nat.lt_succ_self _)
  have hfetch := fetchRange_eq_collect answers range window
    (work range.direction.key rows start + 1) 0 start
  rw [planOf_startCursor, hcollect] at hfetch
  have hmem : ∀ r, r ∈ collected ↔ r ∈ windowRecordings db accessible range window := by
    intro r
    rw [windowRecordings_eq, List.mem_filter, decide_eq_true_eq]
    constructor
    · exact collect_sound (listing answers range window) _ 0 start hcollect r
    · intro hr
      exact collect_complete (listing answers range window) hsize (scope_nodup range window)
        _ 0 hstart hgroups hcollect r hr.1 hr.2
  exact ⟨_, collected, hfetch,
    mergeByIdSorted_perm Recording.id Recording.startedAt (windowRecordings_ids range window) hmem,
    mergeByIdSorted_sorted _ _ _ _⟩

/-! ## Answers that hide a recording -/

def cursorOf (d : Direction) (query : ListRecordingsQuery) : Cursor ℤ :=
  match d with
  | .asc => { bound := query.fromAt, offset := query.offset.getD 0 }
  | .desc => { bound := query.toAt.map (- ·), offset := query.offset.getD 0 }

theorem cursorOf_at (c : Cursor ℤ) :
    cursorOf range.direction (range.at (planOf window range.direction c)) = c := by
  obtain ⟨bound, offset⟩ := c
  cases hd : range.direction with
  | asc => simp [cursorOf, RangeQuery.at, planOf]
  | desc => cases bound <;> simp [cursorOf, RangeQuery.at, planOf]

/-- The queries of the range are answered as the listing does, the others by some order. -/
def answersOf (L : Listing range.direction.key (scope db accessible range window)) :
    Answers db accessible where
  order n query :=
    if query = range.at (planOf window range.direction (cursorOf range.direction query)) then
      L.order n (cursorOf range.direction query)
    else byTime query.order.key (db.recordings.filter (matching accessible query))
  perm n query := by
    split
    · next hquery =>
      have hperm := L.perm n (cursorOf range.direction query)
      rw [← matching_eq, ← hquery] at hperm
      exact hperm
    · exact byTime_perm _ _
  sorted n query := by
    split
    · next hquery =>
      have horder : query.order = range.direction := by
        rw [hquery]
        cases hd : range.direction <;> simp [ListRecordingsQuery.order, RangeQuery.at, hd]
      rw [horder]
      exact (L.sorted n _).imp fun h => (Direction.le_iff _ _ _).mpr h
    · exact (byTime_sorted query.order.key _).imp fun h => (Direction.le_iff _ _ _).mpr h

theorem listing_answersOf (L : Listing range.direction.key (scope db accessible range window)) :
    listing (answersOf range window L) range window = L := by
  apply Listing.ext
  funext n c
  simp only [listing, answersOf, cursorOf_at, if_true]

theorem not_pages_complete (hoffset : window.offset = 0) (instant : ℤ)
    (hmany : range.pageSize < ((windowRecordings db accessible range window).filter fun r =>
      r.startedAt = instant).length) : ¬ PagesComplete db accessible range window := by
  intro hcomplete
  obtain ⟨hidden, hhidden⟩ := List.exists_mem_of_length_pos (Nat.zero_lt_of_lt hmany)
  rw [List.mem_filter, decide_eq_true_eq] at hhidden
  have hwindow := hhidden.1
  rw [windowRecordings_eq, List.mem_filter, decide_eq_true_eq] at hwindow
  have hgroup : range.pageSize < (group range.direction.key
      (scope db accessible range window) (range.direction.key hidden)).length := by
    rw [group_eq range window hwindow.2, ← (range.direction.key_eq_iff hidden _).mp rfl, hhidden.2]
    exact hmany
  have hstart : (startCursor window range.direction).offset = 0 := by
    cases hd : range.direction <;> simp [startCursor, hoffset]
  obtain ⟨fuel, collected, hfetch, hperm, -⟩ := hcomplete
    (answersOf range window (Listing.evasive range.direction.key _ hwindow.1))
  have hcollect := fetchRange_eq_collect
    (answersOf range window (Listing.evasive range.direction.key _ hwindow.1)) range window fuel 0
    (startCursor window range.direction)
  rw [planOf_startCursor, hfetch, listing_answersOf] at hcollect
  have hmissed := collect_misses (scope_nodup range window) hwindow.1 hgroup fuel 0 (.inl hstart)
    hcollect.symm
  exact hmissed (mem_of_mem_mergeByIdSorted (hperm.mem_iff.mpr hhidden.1))

/-- The pages hold every recording of the window once and in order, whatever order the
answers give to the recordings of one instant, exactly where no instant of the window has
more recordings than a page. -/
theorem pages_complete_iff (hsize : 0 < range.pageSize) (hoffset : window.offset = 0) :
    PagesComplete db accessible range window ↔
      ∀ instant : ℤ, ((windowRecordings db accessible range window).filter fun r =>
        r.startedAt = instant).length ≤ range.pageSize := by
  constructor
  · intro hcomplete instant
    by_contra hmany
    exact not_pages_complete range window hoffset instant (not_le.mp hmany) hcomplete
  · exact pages_complete range window hsize hoffset

end Range

def twin (id : String) : Recording where
  id := id
  cameraId := "yard"
  filePath := id
  startedAt := 1785146400000
  sizeBytes := none
  motionScore := -1

def twins : Database where
  cameras := []
  recordings := [twin "a", twin "b"]
  clips := []
  camera_ids := by decide
  recording_ids := by decide

/-- Read two at a time they are both read. -/
theorem pages_complete_iff_twins :
    PagesComplete twins none ⟨some "yard", .asc, 2⟩ ⟨none, none, 0⟩ :=
  (pages_complete_iff ⟨some "yard", .asc, 2⟩ ⟨none, none, 0⟩ (by decide) rfl).mpr fun _ =>
    (List.length_filter_le _ _).trans (by decide)

/-- Read one at a time, one of them can stay unread. -/
theorem pages_not_complete :
    ¬ PagesComplete twins none ⟨some "yard", .asc, 1⟩ ⟨none, none, 0⟩ :=
  not_pages_complete ⟨some "yard", .asc, 1⟩ ⟨none, none, 0⟩ rfl 1785146400000
    (by decide)

end Drac.Playback
