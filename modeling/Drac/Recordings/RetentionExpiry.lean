import Mathlib.Data.List.Induction
import Drac.Lib.JsText
import Drac.Recordings.Retention

/-
  What a pass of expiry by age deletes.

  `accepts_eq`: the database's query is the rule. `expirySource_lawful`: the loop of
  one group is a sweep of a shrinking listing, so it visits each of the group's
  expired rows once, oldest first, whatever is deleted, protected or fails on the
  way. `expireGroups_recordings` adds the groups up, which share no row
  (`loadRetentionGroups_disjoint`), and `expireRecordings_exact` says what is left.
-/

namespace Drac.Recordings

open Paging

/-! ## The query is the rule -/

theorem dateOf_eq {ms d : Int} (h : dateOf ms = some d) : d = ms := by
  unfold dateOf at h
  split at h
  · exact (Option.some.inj h).symm
  · cases h

theorem resolveRetentionWindow_le (baseDays : Int) (policy : TwoTierPolicy) :
    (resolveRetentionWindow baseDays policy).allDays ≤
      (resolveRetentionWindow baseDays policy).motionDays := by
  unfold resolveRetentionWindow
  split
  · exact Int.le_refl _
  · exact Int.le_max_left _ _

theorem isExpiredByAge_iff (startedAt motionScore now : Int) (window : RetentionWindow) :
    isExpiredByAge startedAt motionScore now window = true ↔
      startedAt < now - window.motionDays * dayMs ∨
        (startedAt < now - window.allDays * dayMs ∧ motionScore = 0) := by
  simp only [isExpiredByAge]
  generalize window.motionDays * dayMs = motion
  generalize window.allDays * dayMs = all
  split
  · simp only [true_iff]
    omega
  · split
    · simp only [Bool.false_eq_true, false_iff]
      omega
    · rw [decide_eq_true_eq]
      omega

theorem readMotionScore_eq_zero (hasMotionScoreColumn : Bool) (r : Recording) :
    readMotionScore hasMotionScoreColumn r = 0 ↔
      hasMotionScoreColumn = true ∧ r.motionScore = 0 := by
  unfold readMotionScore motionScoreUnknown
  cases hasMotionScoreColumn
  · simp
  · simp only [true_and]
    split <;> omega

/-- **The query is the rule**: it accepts the group's rows that the rule expires,
with the motion column or without it. -/
theorem accepts_eq {hasMotionScoreColumn : Bool} {group : RetentionGroup}
    {window : RetentionWindow} {now : Int} {w : ExpiryWhere}
    (hwindow : window.allDays ≤ window.motionDays)
    (h : buildExpiryWhere hasMotionScoreColumn group window now = some w) (r : Recording) :
    w.accepts r = (group.filter.accepts r.cameraId &&
      isExpiredByAge r.startedAt (readMotionScore hasMotionScoreColumn r) now window) := by
  have hcuts : window.allDays * dayMs ≤ window.motionDays * dayMs :=
    Int.mul_le_mul_of_nonneg_right hwindow (by decide)
  rw [Bool.eq_iff_iff, Bool.and_eq_true, isExpiredByAge_iff, readMotionScore_eq_zero]
  unfold buildExpiryWhere at h
  split at h
  · next hle =>
    -- one cut: between the two there is nothing
    have heq : window.motionDays = window.allDays := Int.le_antisymm hle hwindow
    rw [Option.map_eq_some_iff] at h
    obtain ⟨d, hd, rfl⟩ := h
    obtain rfl := dateOf_eq hd
    simp only [ExpiryWhere.accepts, heq, Bool.and_true, Bool.and_eq_true, decide_eq_true_eq]
    tauto
  · split at h
    · next hcol =>
      -- without the column the score is unknown, which only the long cut expires
      rw [Option.map_eq_some_iff] at h
      obtain ⟨d, hd, rfl⟩ := h
      obtain rfl := dateOf_eq hd
      simp only [ExpiryWhere.accepts, Bool.and_true, Bool.and_eq_true, decide_eq_true_eq]
      tauto
    · next hcol =>
      rw [Option.bind_eq_some_iff] at h
      obtain ⟨d, hd, h⟩ := h
      rw [Option.map_eq_some_iff] at h
      obtain ⟨m, hm, rfl⟩ := h
      obtain rfl := dateOf_eq hd
      obtain rfl := dateOf_eq hm
      simp only [ExpiryWhere.accepts, Bool.and_eq_true, Bool.or_eq_true, decide_eq_true_eq]
      constructor
      · rintro ⟨⟨hcam, hall⟩, hmotion | hzero⟩
        · exact ⟨hcam, .inl hmotion⟩
        · exact ⟨hcam, .inr ⟨hall, not_not.mp hcol, hzero⟩⟩
      · rintro ⟨hcam, hmotion | ⟨hall, -, hzero⟩⟩
        · exact ⟨⟨hcam, by omega⟩, .inl hmotion⟩
        · exact ⟨⟨hcam, hall⟩, .inr hzero⟩

/-! ## One recording -/

/-- A database some of whose recordings were deleted, with their clips. -/
structure Shrunk (db₀ db : Database) : Prop where
  recordings : ∀ r ∈ db.recordings, r ∈ db₀.recordings
  clips : ∀ r ∈ db.recordings, db.clipsOf r.id = db₀.clipsOf r.id

theorem Shrunk.refl (db : Database) : Shrunk db db := ⟨fun _ h => h, fun _ _ => rfl⟩

theorem Shrunk.trans {a b c : Database} (h : Shrunk a b) (k : Shrunk b c) : Shrunk a c :=
  ⟨fun r hr => h.recordings r (k.recordings r hr),
    fun r hr => (k.clips r hr).trans (h.clips r (k.recordings r hr))⟩

theorem Shrunk.deleteRecordingRow (db : Database) (id : String) :
    Shrunk db (db.deleteRecordingRow id) where
  recordings r hr := List.mem_of_mem_filter hr
  clips r hr := by
    have hne : r.id ≠ id := by simpa using (List.mem_filter.mp hr).2
    simp only [Database.clipsOf, Database.deleteRecordingRow, List.filter_filter]
    apply List.filter_congr
    intro c _
    by_cases hc : c.sourceRecordingId = r.id
    · simp [hc, hne]
    · simp [hc]

variable {r : Recording}

theorem Shrunk.deletable_eq {db₀ db : Database} (h : Shrunk db₀ db)
    (hr : r ∈ db.recordings) (protection : ProtectionSets) (fails : String → Bool) :
    deletable protection fails db r = deletable protection fails db₀ r := by
  unfold deletable
  rw [h.clips r hr]

/-- What becomes of an expired recording. -/
def outcomeOf (pass : ExpiryPass) (db : Database) (r : Recording) : Visit :=
  if pass.policy.enabled && pass.policy.dryRun then
    if r.id ∈ pass.protection.recordingIds then .kept else .charged
  else if deletable pass.protection pass.fails db r then .removed
  else .kept

def dbAfter (v : Visit) (db : Database) (id : String) : Database :=
  match v with
  | .removed => db.deleteRecordingRow id
  | .charged | .kept => db

theorem expireOne_eq {pass : ExpiryPass} {window : RetentionWindow} {st : ExpiryState}
    (hexp : isExpiredByAge r.startedAt
      (readMotionScore pass.hasMotionScoreColumn r) pass.now window = true) :
    ∃ result, expireOne pass window st r =
      (⟨dbAfter (outcomeOf pass st.db r) st.db r.id, result⟩, outcomeOf pass st.db r) := by
  unfold expireOne outcomeOf
  simp only [hexp, not_true, if_false]
  split
  · split
    · exact ⟨_, rfl⟩
    · exact ⟨_, rfl⟩
  · rcases deleteRecording_eq pass.protection pass.fails r st.db with
      ⟨hdel, heq⟩ | ⟨hdel, heq | heq⟩
    · simp only [hdel, heq, if_true]
      exact ⟨_, rfl⟩
    · simp only [hdel, heq]
      exact ⟨_, rfl⟩
    · simp only [hdel, heq]
      exact ⟨_, rfl⟩

/-! ## One group -/

/-- The rows of a group that the rule expires under the group's window. -/
def expiredIn (pass : ExpiryPass) (group : RetentionGroup) (r : Recording) : Bool :=
  group.filter.accepts r.cameraId &&
    isExpiredByAge r.startedAt (readMotionScore pass.hasMotionScoreColumn r) pass.now
      (resolveRetentionWindow group.days pass.policy)

section Group

variable {pass : ExpiryPass} {group : RetentionGroup} {w : ExpiryWhere}
  (hw : buildExpiryWhere pass.hasMotionScoreColumn group
    (resolveRetentionWindow group.days pass.policy) pass.now = some w)
include hw

theorem listing_accepts (db : Database) :
    listing pass.collation w.accepts db = listing pass.collation (expiredIn pass group) db := by
  have hsame : w.accepts = expiredIn pass group := by
    funext r
    exact accepts_eq (resolveRetentionWindow_le _ _) hw r
  rw [hsame]

/-- **The loop of a group is a sweep of a shrinking listing**: what becomes of a row
does not depend on what became of others, and only its own deletion takes it out. -/
theorem expirySource_lawful (db₀ : Database) :
    (expirySource pass (resolveRetentionWindow group.days pass.policy) w).Lawful
      (fun st => Shrunk db₀ st.db) (outcomeOf pass db₀) := by
  have hvisit : ∀ (st : ExpiryState) (before : List Recording) (a : Recording)
      (rest : List Recording), Shrunk db₀ st.db →
      listing pass.collation w.accepts st.db = before ++ a :: rest →
      a ∈ st.db.recordings ∧ ∃ result,
        expireOne pass (resolveRetentionWindow group.days pass.policy) st a =
          (⟨dbAfter (outcomeOf pass db₀ a) st.db a.id, result⟩, outcomeOf pass db₀ a) := by
    intro st before a rest hsh hrows
    have hmem : a ∈ listing pass.collation w.accepts st.db := by simp [hrows]
    rw [listing_accepts hw, mem_listing, expiredIn, Bool.and_eq_true] at hmem
    refine ⟨hmem.1, ?_⟩
    have hout : outcomeOf pass st.db a = outcomeOf pass db₀ a := by
      unfold outcomeOf
      rw [hsh.deletable_eq hmem.1]
    rw [← hout]
    exact expireOne_eq hmem.2.2
  refine ⟨?_, ?_, ?_⟩
  · intro st before a rest hsh hrows
    obtain ⟨-, result, hone⟩ := hvisit st before a rest hsh hrows
    show Shrunk db₀ (expireOne pass _ st a).1.db
    rw [hone]
    cases outcomeOf pass db₀ a with
    | removed => exact hsh.trans (Shrunk.deleteRecordingRow st.db a.id)
    | charged => exact hsh
    | kept => exact hsh
  · intro st before a rest hsh hrows
    obtain ⟨-, result, hone⟩ := hvisit st before a rest hsh hrows
    show (expireOne pass _ st a).2 = _
    rw [hone]
  · intro st before a rest hsh hrows
    obtain ⟨-, result, hone⟩ := hvisit st before a rest hsh hrows
    show listing pass.collation w.accepts (expireOne pass _ st a).1.db = _
    have hrows' : listing pass.collation w.accepts st.db = before ++ a :: rest := hrows
    rw [hone]
    cases outcomeOf pass db₀ a with
    | charged => simpa [dbAfter, Visit.stays] using hrows'
    | kept => simpa [dbAfter, Visit.stays] using hrows'
    | removed =>
      simpa [dbAfter, Visit.stays] using listing_delete_middle hrows'

/-- After the visits of a stretch of the listing the rows removed on the way are
gone, and no others. -/
theorem after_recordings (db₀ : Database) (visited : List Recording) :
    ∀ (before left : List Recording) (st : ExpiryState), Shrunk db₀ st.db →
    listing pass.collation w.accepts st.db = before ++ visited ++ left →
    ((expirySource pass (resolveRetentionWindow group.days pass.policy) w).after st
        visited).db.recordings =
      st.db.recordings.filter (fun r =>
        r.id ∉ (visited.filter (fun v => outcomeOf pass db₀ v = .removed)).map (·.id)) := by
  have hlaw := expirySource_lawful hw db₀
  induction visited with
  | nil => intro before left st _ _; simp [Source.after]
  | cons a visited ih =>
    intro before left st hsh hrows
    have hat : (expirySource pass (resolveRetentionWindow group.days pass.policy) w).rows st =
        before ++ a :: (visited ++ left) := by
      show listing pass.collation w.accepts st.db = _
      rw [hrows, List.append_assoc, List.cons_append]
    have hnext := hlaw.rows_eq st before a (visited ++ left) hsh hat
    have hsh' := hlaw.inv st before a (visited ++ left) hsh hat
    rw [← List.append_assoc] at hnext
    have hrest := ih _ left _ hsh' hnext
    have hone : ((expirySource pass (resolveRetentionWindow group.days pass.policy) w).visit st
        a).1.db = dbAfter (outcomeOf pass db₀ a) st.db a.id := by
      have hmem : a ∈ listing pass.collation w.accepts st.db := by simp [hrows]
      rw [listing_accepts hw, mem_listing, expiredIn, Bool.and_eq_true] at hmem
      have hout : outcomeOf pass st.db a = outcomeOf pass db₀ a := by
        unfold outcomeOf
        rw [hsh.deletable_eq hmem.1]
      obtain ⟨result, heq⟩ := expireOne_eq hmem.2.2
      show (expireOne pass _ st a).1.db = _
      rw [heq, hout]
    show ((expirySource pass _ w).after _ visited).db.recordings = _
    rw [hrest, hone, List.filter_cons]
    cases hout : outcomeOf pass db₀ a with
    | charged => simp [dbAfter]
    | kept => simp [dbAfter]
    | removed =>
      simp only [dbAfter, Database.deleteRecordingRow, List.filter_filter, decide_true, if_true,
        List.map_cons, List.mem_cons, not_or, ne_eq, Bool.decide_and, Bool.and_comm]

end Group

/-- A pass that only counts. -/
def ExpiryPass.dry (pass : ExpiryPass) : Bool := pass.policy.enabled && pass.policy.dryRun

theorem outcomeOf_dry {pass : ExpiryPass} (h : pass.dry = true) (db : Database) (r : Recording) :
    outcomeOf pass db r ≠ .removed := by
  have hdry : (pass.policy.enabled && pass.policy.dryRun) = true := h
  simp only [outcomeOf, hdry, if_true]
  split <;> decide

theorem outcomeOf_live {pass : ExpiryPass} (h : pass.dry = false) (db : Database)
    (r : Recording) : outcomeOf pass db r =
      if deletable pass.protection pass.fails db r then .removed else .kept := by
  have hdry : (pass.policy.enabled && pass.policy.dryRun) = false := h
  simp only [outcomeOf, hdry, Bool.false_eq_true, if_false]

/-- Both cuts of a group are dates. -/
def DatesInRange (pass : ExpiryPass) (group : RetentionGroup) : Prop :=
  let window := resolveRetentionWindow group.days pass.policy
  (dateOf (pass.now - window.allDays * dayMs)).isSome = true ∧
    (dateOf (pass.now - window.motionDays * dayMs)).isSome = true

instance decidableDatesInRange (pass : ExpiryPass) (group : RetentionGroup) :
    Decidable (DatesInRange pass group) :=
  inferInstanceAs (Decidable (_ ∧ _))

/-- What a pass may delete of a group, oldest first. -/
def deletableOf (pass : ExpiryPass) (db : Database) (group : RetentionGroup) : List Recording :=
  (listing pass.collation (expiredIn pass group) db).filter
    (deletable pass.protection pass.fails db)

theorem buildExpiryWhere_some {pass : ExpiryPass} {group : RetentionGroup}
    (h : DatesInRange pass group) :
    ∃ w, buildExpiryWhere pass.hasMotionScoreColumn group
      (resolveRetentionWindow group.days pass.policy) pass.now = some w := by
  obtain ⟨hall, hmotion⟩ := h
  obtain ⟨d, hd⟩ := Option.isSome_iff_exists.mp hall
  obtain ⟨m, hm⟩ := Option.isSome_iff_exists.mp hmotion
  unfold buildExpiryWhere
  split
  · exact ⟨_, by rw [hd]; rfl⟩
  · split
    · exact ⟨_, by rw [hm]; rfl⟩
    · exact ⟨_, by rw [hd, hm]; rfl⟩

theorem countRetained_ok {pass : ExpiryPass} {group : RetentionGroup}
    (h : DatesInRange pass group) (st : ExpiryState) :
    ∃ result, countRetained pass group (resolveRetentionWindow group.days pass.policy) st =
      .ok ⟨st.db, result⟩ := by
  obtain ⟨hall, hmotion⟩ := h
  obtain ⟨d, hd⟩ := Option.isSome_iff_exists.mp hall
  obtain ⟨m, hm⟩ := Option.isSome_iff_exists.mp hmotion
  unfold countRetained
  split
  · exact ⟨st.result, rfl⟩
  · simp only [motionRetained, hd, hm, Option.bind_some, Option.map_some]
    exact ⟨_, rfl⟩

/-- **What one group's loop does.** With fuel for every row it returns, and has
deleted the oldest of what it may delete, as many as the budget pays for; in a dry
run nothing. -/
theorem expireGroup_spec {fuel : Nat} {pass : ExpiryPass} {group : RetentionGroup}
    (hbatch : 0 < pass.limits.batchSize) (hdates : DatesInRange pass group) (st : ExpiryState)
    (hfuel : st.db.recordings.length < fuel) (budget : Nat) :
    ∃ st' budget', expireGroup fuel pass group st budget = .ok (st', budget') ∧
      Shrunk st.db st'.db ∧
      (pass.dry = true → st'.db.recordings = st.db.recordings) ∧
      (pass.dry = false →
        budget' = budget - (deletableOf pass st.db group).length ∧
        st'.db.recordings = st.db.recordings.filter (fun r =>
          r.id ∉ ((deletableOf pass st.db group).take budget).map (·.id))) := by
  obtain ⟨w, hw⟩ := buildExpiryWhere_some hdates
  obtain ⟨result, hcount⟩ := countRetained_ok hdates st
  set rows := listing pass.collation (expiredIn pass group) st.db with hrows
  have hlisting : listing pass.collation w.accepts st.db = rows := listing_accepts hw st.db
  have hlen : rows.length < fuel := by
    have hle : rows.length ≤ st.db.recordings.length := by
      rw [hrows, listing, List.length_insertionSort]
      exact List.length_filter_le _ _
    omega
  obtain ⟨visited, left, c, hsweep, hvis, hstate, hsh, hbud, hle, hend⟩ :=
    sweep_visits (expirySource_lawful hw st.db) hbatch fuel [] rows ⟨st.db, result⟩ budget
      (Shrunk.refl st.db) hlisting hlen
  have hafter := after_recordings hw st.db visited [] left ⟨st.db, result⟩ (Shrunk.refl st.db)
    (by rw [hlisting, hvis, List.nil_append])
  rw [← hstate] at hafter
  have hpaid := charged_take (outcomeOf pass st.db) hle hend
  rw [← hvis] at hpaid
  refine ⟨c.state, c.budget, ?_, hsh, ?_, ?_⟩
  · simp only [expireGroup, hcount, bind, Except.bind, hw]
    rw [show (⟨⟨st.db, result⟩, 0, budget⟩ : Cursor ExpiryState) =
      ⟨⟨st.db, result⟩, ([] : List Recording).length, budget⟩ from rfl, hsweep]
    rfl
  · intro hdry
    rw [hafter]
    have hnone : visited.filter (fun v => outcomeOf pass st.db v = .removed) = [] := by
      rw [List.filter_eq_nil_iff]
      intro v _
      simpa using outcomeOf_dry hdry st.db v
    rw [hnone]
    simp
  · intro hdry
    -- outside a dry run what is paid for is what is deleted
    have hpays : ∀ r, (outcomeOf pass st.db r).charges =
        deletable pass.protection pass.fails st.db r := by
      intro r
      rw [outcomeOf_live hdry]
      cases deletable pass.protection pass.fails st.db r <;> rfl
    have hremoved : ∀ r, decide (outcomeOf pass st.db r = .removed) =
        deletable pass.protection pass.fails st.db r := by
      intro r
      rw [outcomeOf_live hdry]
      cases deletable pass.protection pass.fails st.db r <;> rfl
    simp only [hpays] at hpaid
    simp only [hremoved, hpaid] at hafter
    refine ⟨?_, hafter⟩
    have hcharge : charge (outcomeOf pass st.db) visited =
        ((deletableOf pass st.db group).take budget).length := by
      unfold charge
      simp only [hpays]
      rw [List.countP_eq_length_filter, hpaid]
      rfl
    rw [hbud, hcharge, List.length_take]
    omega

/-! ## The groups -/

/-- The days a recording of a camera is kept: the camera's own, else the global
ones, which also hold for a camera no longer there. -/
def ownDays (cameras : List Camera) (globalDays : Int) (cameraId : String) : Int :=
  match cameras.find? (fun c => c.id = cameraId) with
  | some c => c.retentionDays.getD globalDays
  | none => globalDays

theorem addCamera_buckets (globalDays : Int) (cameras : List Camera) :
    (JsMap.keys (cameras.foldl (addCamera globalDays) [])).Nodup ∧
      ∀ days id, (∃ ids, JsMap.get? (cameras.foldl (addCamera globalDays) []) days = some ids ∧
          id ∈ ids) ↔
        ∃ c ∈ cameras, c.id = id ∧ c.retentionDays.getD globalDays = days := by
  induction cameras using List.reverseRecOn with
  | nil => simp [JsMap.keys, JsMap.get?]
  | append_singleton cameras c ih =>
    obtain ⟨hnd, hget⟩ := ih
    rw [List.foldl_append, List.foldl_cons, List.foldl_nil]
    set byDays := cameras.foldl (addCamera globalDays) [] with hby
    refine ⟨JsMap.keys_nodup_set hnd _ _, ?_⟩
    intro days id
    simp only [addCamera, JsMap.get?_set]
    constructor
    · rintro ⟨ids, hids, hmem⟩
      split at hids
      · next hdays =>
        cases hids
        rcases List.mem_append.mp hmem with hold | hnew
        · cases hb : JsMap.get? byDays (c.retentionDays.getD globalDays) with
          | none => simp [hb] at hold
          | some ids =>
            rw [hb, Option.getD_some] at hold
            obtain ⟨d, hd, hid, hdd⟩ := (hget days id).mp ⟨ids, by rw [← hdays, hb], hold⟩
            exact ⟨d, List.mem_append_left _ hd, hid, hdd⟩
        · exact ⟨c, by simp, (List.mem_singleton.mp hnew).symm, hdays⟩
      · obtain ⟨d, hd, hid, hdd⟩ := (hget days id).mp ⟨ids, hids, hmem⟩
        exact ⟨d, List.mem_append_left _ hd, hid, hdd⟩
    · rintro ⟨d, hd, rfl, rfl⟩
      rcases List.mem_append.mp hd with hd | hd
      · obtain ⟨ids, hids, hmem⟩ := (hget _ d.id).mpr ⟨d, hd, rfl, rfl⟩
        split
        · next hdays =>
          refine ⟨_, rfl, List.mem_append_left _ ?_⟩
          rw [hdays, hids]
          exact hmem
        · exact ⟨ids, hids, hmem⟩
      · obtain rfl := List.mem_singleton.mp hd
        rw [if_pos rfl]
        exact ⟨_, rfl, by simp⟩

variable {cameras : List Camera} {g : RetentionGroup}

theorem mem_loadRetentionGroups {globalDays : Int}
    (h : g ∈ loadRetentionGroups cameras globalDays) :
    (∃ ids, g = ⟨g.days, .oneOf ids⟩ ∧
      (∀ id, id ∈ ids ↔ ∃ c ∈ cameras, c.id = id ∧ c.retentionDays.getD globalDays = g.days)) ∨
    (g.days = globalDays ∧ ∀ id, g.filter.accepts id = true ↔ ∀ c ∈ cameras, c.id ≠ id) := by
  obtain ⟨hnd, hget⟩ := addCamera_buckets globalDays cameras
  rcases List.mem_append.mp h with h | h
  · obtain ⟨⟨days, ids⟩, hmem, rfl⟩ := List.mem_map.mp h
    have hids := JsMap.mem_get? hnd hmem
    refine .inl ⟨ids, rfl, ?_⟩
    intro id
    rw [← hget days id]
    constructor
    · exact fun hid => ⟨ids, hids, hid⟩
    · rintro ⟨ids', hids', hid⟩
      rw [hids] at hids'
      exact Option.some.inj hids' ▸ hid
  · obtain rfl := List.mem_singleton.mp h
    refine .inr ⟨rfl, ?_⟩
    intro id
    cases cameras with
    | nil => simp [CameraFilter.accepts]
    | cons c rest =>
      simp only [List.isEmpty_cons, Bool.false_eq_true, if_false, CameraFilter.accepts,
        decide_eq_true_eq, List.mem_map, not_exists, not_and, ne_eq]

theorem find?_camera (hids : (cameras.map (·.id)).Nodup) {c : Camera}
    (h : c ∈ cameras) : cameras.find? (fun d => d.id = c.id) = some c := by
  cases hf : cameras.find? (fun d => d.id = c.id) with
  | none => simpa using List.find?_eq_none.mp hf c h
  | some d =>
    have hd := List.find?_some hf
    simp only [decide_eq_true_eq] at hd
    rw [List.inj_on_of_nodup_map hids (List.mem_of_find?_eq_some hf) h hd]

theorem ownDays_of_accepts (hids : (cameras.map (·.id)).Nodup)
    {globalDays : Int} (hg : g ∈ loadRetentionGroups cameras globalDays)
    {cameraId : String} (h : g.filter.accepts cameraId = true) :
    g.days = ownDays cameras globalDays cameraId := by
  rcases mem_loadRetentionGroups hg with ⟨ids, hgeq, hmem⟩ | ⟨hdays, hmem⟩
  · rw [hgeq] at h
    simp only [CameraFilter.accepts, decide_eq_true_eq] at h
    obtain ⟨c, hc, rfl, hcdays⟩ := (hmem _).mp h
    simp only [ownDays, find?_camera hids hc]
    exact hcdays.symm
  · have hnone : cameras.find? (fun c => c.id = cameraId) = none := by
      rw [List.find?_eq_none]
      intro c hc
      simpa using (hmem cameraId).mp h c hc
    rw [ownDays, hnone]
    exact hdays

theorem exists_group (cameras : List Camera) (globalDays : Int) (cameraId : String) :
    ∃ g ∈ loadRetentionGroups cameras globalDays, g.filter.accepts cameraId = true := by
  obtain ⟨-, hget⟩ := addCamera_buckets globalDays cameras
  by_cases hcam : ∃ c ∈ cameras, c.id = cameraId
  · obtain ⟨c, hc, rfl⟩ := hcam
    obtain ⟨ids, hids, hmem⟩ := (hget _ c.id).mpr ⟨c, hc, rfl, rfl⟩
    refine ⟨⟨c.retentionDays.getD globalDays, .oneOf ids⟩, ?_, by simpa [CameraFilter.accepts] using hmem⟩
    exact List.mem_append_left _ (List.mem_map.mpr ⟨_, JsMap.get?_mem hids, rfl⟩)
  · push Not at hcam
    refine ⟨_, List.mem_append_right _ (List.mem_singleton.mpr rfl), ?_⟩
    cases cameras with
    | nil => rfl
    | cons c rest =>
      simp only [List.isEmpty_cons, Bool.false_eq_true, if_false, CameraFilter.accepts,
        decide_eq_true_eq, List.mem_map, not_exists, not_and]
      exact hcam

theorem loadRetentionGroups_disjoint
    (hids : (cameras.map (·.id)).Nodup) (globalDays : Int) :
    (loadRetentionGroups cameras globalDays).Pairwise (fun g g' =>
      ∀ cameraId, g.filter.accepts cameraId = true → g'.filter.accepts cameraId = false) := by
  obtain ⟨hnd, hget⟩ := addCamera_buckets globalDays cameras
  have hbucket : ∀ {days ids}, (days, ids) ∈ cameras.foldl (addCamera globalDays) [] →
      ∀ id ∈ ids, ∃ c ∈ cameras, c.id = id ∧ c.retentionDays.getD globalDays = days :=
    fun hmem id hid => (hget _ id).mp ⟨_, JsMap.mem_get? hnd hmem, hid⟩
  unfold loadRetentionGroups
  rw [List.pairwise_append]
  refine ⟨?_, List.pairwise_singleton _ _, ?_⟩
  · rw [List.pairwise_map]
    have hne := List.pairwise_map.mp hnd
    refine hne.imp_of_mem ?_
    rintro ⟨days, ids⟩ ⟨days', ids'⟩ hmem hmem' hdays cameraId hacc
    simp only [CameraFilter.accepts, decide_eq_true_eq] at hacc
    simp only [CameraFilter.accepts, decide_eq_false_iff_not]
    intro hacc'
    obtain ⟨c, hc, hid, hcd⟩ := hbucket hmem _ hacc
    obtain ⟨c', hc', hid', hcd'⟩ := hbucket hmem' _ hacc'
    obtain rfl := List.inj_on_of_nodup_map hids hc hc' (hid.trans hid'.symm)
    exact hdays (hcd.symm.trans hcd')
  · intro g hg g' hg' cameraId hacc
    obtain ⟨⟨days, ids⟩, hmem, rfl⟩ := List.mem_map.mp hg
    obtain rfl := List.mem_singleton.mp hg'
    simp only [CameraFilter.accepts, decide_eq_true_eq] at hacc
    obtain ⟨c, hc, hid, -⟩ := hbucket hmem _ hacc
    have hsome : cameras.isEmpty = false := by
      cases cameras with
      | nil => cases hc
      | cons => rfl
    simp only [hsome, Bool.false_eq_true, if_false, CameraFilter.accepts,
      decide_eq_false_iff_not, not_not, List.mem_map]
    exact ⟨c, hc, hid⟩

/-! ## The pass -/

variable {n : Nat}

/-- Deletions in one group leave what may be deleted of a group that shares no
camera with it. -/
theorem deletableOf_disjoint {pass : ExpiryPass} {db db' : Database} {g g' : RetentionGroup}
    (hdisj : ∀ cameraId, g.filter.accepts cameraId = true → g'.filter.accepts cameraId = false)
    (hsh : Shrunk db db')
    (hrec : db'.recordings = db.recordings.filter (fun r =>
      r.id ∉ ((deletableOf pass db g).take n).map (·.id))) :
    deletableOf pass db' g' = deletableOf pass db g' := by
  have hrows : db'.recordings.filter (expiredIn pass g') =
      db.recordings.filter (expiredIn pass g') := by
    rw [hrec, List.filter_filter]
    apply List.filter_congr
    intro r hr
    by_cases hexp : expiredIn pass g' r = true
    · -- a row of this group is none of those deleted
      have hnot : r.id ∉ ((deletableOf pass db g).take n).map (·.id) := by
        intro hmem
        obtain ⟨r', hr', hid⟩ := List.mem_map.mp hmem
        have hlisted := List.mem_of_mem_filter (List.mem_of_mem_take hr')
        rw [mem_listing, expiredIn, Bool.and_eq_true] at hlisted
        obtain rfl := db.eq_of_id hlisted.1 hr hid
        have hfalse := hdisj _ hlisted.2.1
        rw [expiredIn, hfalse, Bool.false_and] at hexp
        cases hexp
      simp only [hexp, hnot, not_false_eq_true, decide_true, Bool.and_self]
    · simp [hexp]
  have hlisting : listing pass.collation (expiredIn pass g') db' =
      listing pass.collation (expiredIn pass g') db := by
    rw [listing, hrows, listing]
  unfold deletableOf
  rw [← hlisting]
  apply List.filter_congr
  intro r hr
  exact hsh.deletable_eq (mem_listing.mp hr).1 _ _

/-- **What a pass leaves**: it returns, and of the rows that may be deleted, group
after group and oldest first, as many as the budget pays for are gone. -/
theorem expireGroups_recordings (fuel : Nat) (pass : ExpiryPass)
    (hbatch : 0 < pass.limits.batchSize) (groups : List RetentionGroup) :
    ∀ (st : ExpiryState) (budget : Nat), (∀ g ∈ groups, DatesInRange pass g) →
    groups.Pairwise (fun g g' => ∀ cameraId, g.filter.accepts cameraId = true →
      g'.filter.accepts cameraId = false) →
    st.db.recordings.length < fuel →
    ∃ st', expireGroups fuel pass groups st budget = .ok st' ∧
      (pass.dry = true → st'.db.recordings = st.db.recordings) ∧
      (pass.dry = false → st'.db.recordings = st.db.recordings.filter (fun r =>
        r.id ∉ ((groups.flatMap (deletableOf pass st.db)).take budget).map (·.id))) := by
  induction groups with
  | nil =>
    intro st budget _ _ _
    exact ⟨st, rfl, fun _ => rfl, fun _ => by simp⟩
  | cons g rest ih =>
    intro st budget hdates hdisj hfuel
    unfold expireGroups
    split
    · next hzero => exact ⟨st, rfl, fun _ => rfl, fun _ => by simp [hzero]⟩
    · obtain ⟨st₁, budget₁, hgroup, hsh, hdry₁, hlive₁⟩ :=
        expireGroup_spec hbatch (hdates g List.mem_cons_self) st hfuel budget
      rw [List.pairwise_cons] at hdisj
      have hfuel₁ : st₁.db.recordings.length < fuel := by
        cases hd : pass.dry with
        | true => rw [hdry₁ hd]; exact hfuel
        | false =>
          rw [(hlive₁ hd).2]
          exact Nat.lt_of_le_of_lt (List.length_filter_le _ _) hfuel
      obtain ⟨st', hrun, hdry, hlive⟩ := ih st₁ budget₁
        (fun g' hg' => hdates g' (List.mem_cons_of_mem _ hg')) hdisj.2 hfuel₁
      refine ⟨st', by rw [hgroup]; exact hrun, ?_, ?_⟩
      · intro hd
        rw [hdry hd, hdry₁ hd]
      · intro hd
        obtain ⟨hbudget, hrec₁⟩ := hlive₁ hd
        have hlater : rest.flatMap (deletableOf pass st₁.db) =
            rest.flatMap (deletableOf pass st.db) := by
          apply List.flatMap_congr
          intro g' hg'
          exact deletableOf_disjoint (hdisj.1 g' hg') hsh hrec₁
        rw [hlive hd, hrec₁, hlater, hbudget, List.flatMap_cons, List.take_append,
          List.filter_filter]
        apply List.filter_congr
        intro r _
        simp only [List.map_append, List.mem_append, not_or, Bool.decide_and, Bool.and_comm]

/-! ## What is deleted -/

/-- Expired under the window of the recording's own camera. -/
def expired (pass : ExpiryPass) (cameras : List Camera) (globalDays : Int) (r : Recording) : Bool :=
  isExpiredByAge r.startedAt (readMotionScore pass.hasMotionScoreColumn r) pass.now
    (resolveRetentionWindow (ownDays cameras globalDays r.cameraId) pass.policy)

/-- The expired rows of a database that are neither protected nor failing. -/
def expiredDeletable (pass : ExpiryPass) (globalDays : Int) (db : Database) : List Recording :=
  db.recordings.filter (fun r =>
    expired pass db.cameras globalDays r && deletable pass.protection pass.fails db r)

/-- A pass from `db` to `out` removed what is expired, and that alone. -/
structure ExpiredExactly (pass : ExpiryPass) (globalDays : Int) (db out : Database) : Prop where
  /-- Nothing is added. -/
  kept : ∀ r ∈ out.recordings, r ∈ db.recordings
  /-- No unexpired, protected or failing row is removed. -/
  only : ∀ r ∈ db.recordings, r ∉ out.recordings → r ∈ expiredDeletable pass globalDays db
  /-- Where the budget pays for them all, every other one is. -/
  all : (expiredDeletable pass globalDays db).length ≤ pass.limits.maxPerCycle →
    ∀ r ∈ expiredDeletable pass globalDays db, r ∉ out.recordings
  /-- And otherwise the oldest of a group. -/
  oldest_first : ∀ g ∈ loadRetentionGroups db.cameras globalDays,
    ∀ r ∈ db.recordings, ∀ r' ∈ expiredDeletable pass globalDays db,
    g.filter.accepts r.cameraId = true → g.filter.accepts r'.cameraId = true →
    r ∉ out.recordings → pass.collation.precedes r' r → r' ∉ out.recordings

section Exact

variable {pass : ExpiryPass} {globalDays : Int} {db : Database}

theorem mem_deletableOf (hg : g ∈ loadRetentionGroups db.cameras globalDays)
    : r ∈ deletableOf pass db g ↔
      r ∈ expiredDeletable pass globalDays db ∧ g.filter.accepts r.cameraId = true := by
  have hexp : expiredIn pass g r = true ↔
      g.filter.accepts r.cameraId = true ∧ expired pass db.cameras globalDays r = true := by
    unfold expiredIn expired
    rw [Bool.and_eq_true]
    constructor
    · rintro ⟨hacc, he⟩
      rw [ownDays_of_accepts db.camera_ids hg hacc] at he
      exact ⟨hacc, he⟩
    · rintro ⟨hacc, he⟩
      rw [← ownDays_of_accepts db.camera_ids hg hacc] at he
      exact ⟨hacc, he⟩
  simp only [deletableOf, expiredDeletable, List.mem_filter, mem_listing, Bool.and_eq_true, hexp]
  tauto

/-- Group after group, every expired row that may be deleted is listed once. -/
theorem deletable_perm (pass : ExpiryPass) (globalDays : Int) (db : Database) :
    ((loadRetentionGroups db.cameras globalDays).flatMap (deletableOf pass db)).Perm
      (expiredDeletable pass globalDays db) := by
  have hnd : (expiredDeletable pass globalDays db).Nodup :=
    (List.Nodup.of_map _ db.recording_ids).sublist List.filter_sublist
  refine (List.perm_ext_iff_of_nodup ?_ hnd).mpr ?_
  · rw [List.nodup_flatMap]
    constructor
    · intro g _
      exact (List.Nodup.of_map _ listing_ids).sublist List.filter_sublist
    · refine (loadRetentionGroups_disjoint db.camera_ids globalDays).imp_of_mem ?_
      intro g g' hg hg' hdisj r hr hr'
      have hacc := ((mem_deletableOf hg).mp hr).2
      have hacc' := ((mem_deletableOf hg').mp hr').2
      rw [hdisj _ hacc] at hacc'
      cases hacc'
  · intro r
    rw [List.mem_flatMap]
    constructor
    · rintro ⟨g, hg, hr⟩
      exact ((mem_deletableOf hg).mp hr).1
    · intro hr
      obtain ⟨g, hg, hacc⟩ := exists_group db.cameras globalDays r.cameraId
      exact ⟨g, hg, (mem_deletableOf hg).mpr ⟨hr, hacc⟩⟩

theorem mem_take_of_before {α : Type} {l u v : List α} {a b : α} (hl : l = u ++ a :: v)
    (hnd : l.Nodup) (hb : b ∈ v) (h : b ∈ l.take n) : a ∈ l.take n := by
  subst hl
  rcases Nat.lt_or_ge u.length n with hlt | hge
  · rw [List.take_append, List.take_of_length_le (Nat.le_of_lt hlt)]
    obtain ⟨m, hm⟩ : ∃ m, n - u.length = m + 1 := ⟨n - u.length - 1, by omega⟩
    rw [hm, List.take_succ_cons]
    exact List.mem_append_right _ List.mem_cons_self
  · rw [List.take_append_of_le_length hge] at h
    have hdisj := (List.nodup_append.mp hnd).2.2
    exact absurd rfl (hdisj b (List.mem_of_mem_take h) b (List.mem_cons_of_mem _ hb))

/-- Of a group's rows, a row that comes before a deleted one is deleted too. -/
theorem mem_take_of_precedes
    (hg : g ∈ loadRetentionGroups db.cameras globalDays) {r r' : Recording}
    (hr : r ∈ deletableOf pass db g) (hr' : r' ∈ deletableOf pass db g)
    (hprec : pass.collation.precedes r' r)
    (h : r ∈ ((loadRetentionGroups db.cameras globalDays).flatMap (deletableOf pass db)).take n) :
    r' ∈ ((loadRetentionGroups db.cameras globalDays).flatMap (deletableOf pass db)).take n := by
  by_cases hsame : r = r'
  · exact hsame ▸ h
  have hnd := (deletable_perm pass globalDays db).nodup_iff.mpr
    ((List.Nodup.of_map _ db.recording_ids).sublist List.filter_sublist)
  obtain ⟨gs, gs', hsplit⟩ := List.append_of_mem hg
  obtain ⟨u, v, huv⟩ := List.append_of_mem hr'
  have hv : r ∈ v := by
    rw [huv] at hr
    rcases List.mem_append.mp hr with hu | hv
    · -- the group's rows are sorted, so `r` would precede `r'` as well
      have hsorted : (deletableOf pass db g).Pairwise pass.collation.precedes :=
        listing_sorted.sublist List.filter_sublist
      rw [huv, List.pairwise_append] at hsorted
      have hback := hsorted.2.2 r hu r' List.mem_cons_self
      have hid := pass.collation.precedes_antisymm hback hprec
      have hrec := List.mem_filter.mp ((mem_deletableOf hg).mp (huv ▸ hr)).1
      have hrec' := List.mem_filter.mp ((mem_deletableOf hg).mp hr').1
      exact absurd (db.eq_of_id hrec.1 hrec'.1 hid) hsame
    · exact (List.mem_cons.mp hv).resolve_left hsame
  refine mem_take_of_before (u := gs.flatMap (deletableOf pass db) ++ u)
    (v := v ++ gs'.flatMap (deletableOf pass db)) ?_ hnd (List.mem_append_left _ hv) h
  rw [hsplit, List.flatMap_append, List.flatMap_cons, huv]
  simp only [List.append_assoc, List.cons_append]

/-- Where the rows left are all but the first `maxPerCycle` of those that may be
deleted, the pass removed exactly what is expired. -/
theorem expiredExactly_of_recordings {out : Database}
    (hout : out.recordings = db.recordings.filter (fun r =>
      r.id ∉ (((loadRetentionGroups db.cameras globalDays).flatMap (deletableOf pass db)).take
        pass.limits.maxPerCycle).map (·.id))) :
    ExpiredExactly pass globalDays db out := by
  set removed := ((loadRetentionGroups db.cameras globalDays).flatMap
    (deletableOf pass db)).take pass.limits.maxPerCycle with hremoved
  have hperm := deletable_perm pass globalDays db
  have hsub : ∀ r ∈ removed, r ∈ expiredDeletable pass globalDays db :=
    fun r hr => hperm.mem_iff.mp (List.mem_of_mem_take hr)
  -- a row of the database is gone exactly if it is one of the removed ones
  have hgone : ∀ r ∈ db.recordings, (r ∉ out.recordings ↔ r ∈ removed) := by
    intro r hr
    rw [hout]
    simp only [List.mem_filter, hr, true_and, decide_eq_true_eq, not_not]
    constructor
    · intro hmem
      obtain ⟨r', hr', hid⟩ := List.mem_map.mp hmem
      have hrec' := (List.mem_filter.mp (hsub r' hr')).1
      exact db.eq_of_id hrec' hr hid ▸ hr'
    · exact fun hmem => List.mem_map_of_mem hmem
  refine ⟨?_, ?_, ?_, ?_⟩
  · intro r hr
    rw [hout] at hr
    exact List.mem_of_mem_filter hr
  · intro r hr hnot
    exact hsub r ((hgone r hr).mp hnot)
  · intro hbudget r hr
    have hrec := (List.mem_filter.mp hr).1
    rw [hgone r hrec, hremoved, List.take_of_length_le (by rw [hperm.length_eq]; exact hbudget)]
    exact hperm.mem_iff.mpr hr
  · intro g hg r hr r' hr' hacc hacc' hnot hprec
    have hrec' := (List.mem_filter.mp hr').1
    have hmem := (hgone r hr).mp hnot
    rw [hgone r' hrec']
    exact mem_take_of_precedes hg ((mem_deletableOf hg).mpr ⟨hsub r hmem, hacc⟩)
      ((mem_deletableOf hg).mpr ⟨hr', hacc'⟩) hprec hmem

end Exact

/-- **Batch expiry deletes exactly what is expired.** With dates for its cuts a pass
over all groups returns; a dry run removes no recording, and any other pass removes
the expired ones that are neither protected nor failing, or where its budget runs
out the oldest of each group. -/
theorem expireRecordings_exact {pass : ExpiryPass} (hbatch : 0 < pass.limits.batchSize)
    (globalDays : Int) (db : Database) (result : CleanupResult)
    (hdates : ∀ g ∈ loadRetentionGroups db.cameras globalDays, DatesInRange pass g) :
    ∃ n, ∀ fuel, n ≤ fuel → ∃ st, expireRecordingsInBatches fuel pass
        (loadRetentionGroups db.cameras globalDays) ⟨db, result⟩ = .ok st ∧
      (pass.dry = true → st.db.recordings = db.recordings) ∧
      (pass.dry = false → ExpiredExactly pass globalDays db st.db) := by
  refine ⟨db.recordings.length + 1, ?_⟩
  intro fuel hfuel
  obtain ⟨st, hrun, hdry, hlive⟩ := expireGroups_recordings fuel pass hbatch
    (loadRetentionGroups db.cameras globalDays) ⟨db, result⟩ pass.limits.maxPerCycle hdates
    (loadRetentionGroups_disjoint db.camera_ids globalDays) hfuel
  exact ⟨st, hrun, hdry, fun hd => expiredExactly_of_recordings (hlive hd)⟩

/-! A camera that keeps one day, and a recording ten days old. -/

def codePoints : Collation where
  le a b := decide (a ≤ b)
  total := JsText.codePoint_total
  trans := JsText.codePoint_trans
  antisymm := JsText.codePoint_antisymm

def oldRecording : Recording :=
  { id := "old", cameraId := "cam", filePath := "cam/old.mp4", startedAt := 0, sizeBytes := some 1,
    motionScore := 0 }

def oneDayDatabase : Database where
  cameras := [⟨"cam", some 1⟩]
  recordings := [oldRecording]
  clips := []
  camera_ids := by decide
  recording_ids := by decide

def tenthDayPass (policy : TwoTierPolicy) : ExpiryPass where
  now := 10 * dayMs
  protection := ⟨[], [], []⟩
  policy := policy
  limits := ⟨500, 20000⟩
  hasMotionScoreColumn := true
  collation := codePoints
  fails _ := false

def mixedDatabase : Database where
  cameras := [⟨"cam", some 1⟩]
  recordings := [oldRecording, { oldRecording with id := "held", startedAt := 1000 },
    { oldRecording with id := "stuck", startedAt := 2000 },
    { oldRecording with id := "fresh", startedAt := 10 * dayMs - 1000 }]
  clips := []
  camera_ids := by decide
  recording_ids := by decide

def mixedPass : ExpiryPass :=
  { tenthDayPass ⟨false, true, 0, 0⟩ with
    protection := ⟨["held"], [], []⟩
    limits := ⟨2, 20000⟩
    fails := fun id => id = "stuck" }

/-- Pages of two: of one recording that goes, one that is held, one that cannot be deleted and
one that is not expired only the first is removed. -/
theorem expireRecordings_exact_oneDay :
    ∃ n, ∀ fuel, n ≤ fuel → ∃ st,
      expireRecordingsInBatches fuel mixedPass (loadRetentionGroups mixedDatabase.cameras 7)
        ⟨mixedDatabase, {}⟩ = .ok st ∧
      ∀ r ∈ mixedDatabase.recordings, r ∈ st.db.recordings ↔ r ≠ oldRecording := by
  obtain ⟨n, hn⟩ :=
    @expireRecordings_exact mixedPass (by decide) 7 mixedDatabase {} (by decide)
  refine ⟨n, ?_⟩
  intro fuel hfuel
  obtain ⟨st, hrun, -, hexact⟩ := hn fuel hfuel
  have hexpired := hexact rfl
  have hdeletable : expiredDeletable mixedPass 7 mixedDatabase = [oldRecording] := by rfl
  refine ⟨st, hrun, ?_⟩
  intro r hr
  constructor
  · rintro hmem rfl
    exact hexpired.all (by decide) oldRecording (by simp [hdeletable]) hmem
  · intro hne
    by_contra hgone
    have hin := hexpired.only r hr hgone
    rw [hdeletable, List.mem_singleton] at hin
    exact hne hin

def ageLongDatabase : Database where
  cameras := [⟨"cam", some 200000000⟩]
  recordings := [oldRecording]
  clips := []
  camera_ids := by decide
  recording_ids := by decide

/-- In a dry run the expired recording stays; and where a cut is no date, the pass
ends with the refused query. -/
theorem expireRecordings_dryRun_keeps :
    (¬ ∀ (pass : ExpiryPass) (globalDays : Int) (db : Database) (result : CleanupResult),
      0 < pass.limits.batchSize →
      ∃ n, ∀ fuel, n ≤ fuel → ∃ st, expireRecordingsInBatches fuel pass
          (loadRetentionGroups db.cameras globalDays) ⟨db, result⟩ = .ok st ∧
        ExpiredExactly pass globalDays db st.db) ∧
    ∀ fuel, (expireRecordingsInBatches fuel (tenthDayPass ⟨false, true, 0, 0⟩)
      (loadRetentionGroups ageLongDatabase.cameras 7) ⟨ageLongDatabase, {}⟩).toOption.isNone =
        true := by
  constructor
  · intro hclaim
    obtain ⟨n, hn⟩ := hclaim (tenthDayPass ⟨true, true, 0, 0⟩) 7 oneDayDatabase {} (by decide)
    obtain ⟨st, hrun, hexact⟩ := hn (max n 2) (Nat.le_max_left _ _)
    obtain ⟨st', hrun', hdry, -⟩ := expireGroups_recordings (max n 2)
      (tenthDayPass ⟨true, true, 0, 0⟩) (by decide) (loadRetentionGroups oneDayDatabase.cameras 7)
      ⟨oneDayDatabase, {}⟩ 20000 (by decide)
      (loadRetentionGroups_disjoint oneDayDatabase.camera_ids 7)
      (Nat.lt_of_lt_of_le (by decide) (Nat.le_max_right n 2))
    obtain rfl : st = st' := Except.ok.inj (hrun.symm.trans hrun')
    have hgone := hexact.all (by decide) oldRecording (by decide)
    rw [hdry (by decide)] at hgone
    exact hgone (by decide)
  · intro fuel
    rfl

end Drac.Recordings
