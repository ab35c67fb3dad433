import Mathlib.Data.List.Nodup
import Drac.Access.AccessControl

/-
  The lists and the checks say the same.

  Each is first put in terms of what a user has on a camera: `Direct`, a grant on it;
  `ByGroup`, a grant on its group while that gives access; `Owns`.

    `private_noninterference`    what is answered of a private camera depends, for one who
                                 does not own it, on the direct grants; and a suspended
                                 group gives nothing
-/

namespace Drac.Access

section Answers

variable {db : Database} {user : AuthUser} {camera : Camera}

/-! ## What a user has on a camera -/

def Direct (db : Database) (userId : Id) (camera : Camera) : Prop :=
  ∃ p ∈ db.permissions, p.userId = userId ∧ p.cameraId = some camera.id

/-- The group exists, is active and is not suspended. -/
def Allowed (db : Database) (groupId : Id) : Prop :=
  ∃ g ∈ db.groups, g.id = groupId ∧ g.isActive = true ∧ g.accessStatus ≠ .suspended

/-- The user has a grant on the camera's group, which gives access. -/
def ByGroup (db : Database) (userId : Id) (camera : Camera) : Prop :=
  ∃ groupId, camera.groupId = some groupId ∧ Allowed db groupId ∧
    ∃ p ∈ db.permissions, p.userId = userId ∧ p.groupId = some groupId

/-- The camera's group is restricted. -/
def Restricted (db : Database) (camera : Camera) : Prop :=
  ∃ groupId, camera.groupId = some groupId ∧
    ∃ g ∈ db.groups, g.id = groupId ∧ g.accessStatus = .restricted

theorem camera_unique (h : camera ∈ db.cameras) {camera' : Camera} (h' : camera' ∈ db.cameras)
    (hid : camera'.id = camera.id) : camera' = camera :=
  List.inj_on_of_nodup_map db.camera_ids h' h hid

theorem group_unique {g g' : CameraGroup} (h : g ∈ db.groups) (h' : g' ∈ db.groups)
    (hid : g'.id = g.id) : g' = g :=
  List.inj_on_of_nodup_map db.group_ids h' h hid

theorem camera_found (h : camera ∈ db.cameras) : db.camera camera.id = some camera := by
  unfold Database.camera
  cases hfind : db.cameras.find? (fun c => c.id = camera.id) with
  | none =>
    rw [List.find?_eq_none] at hfind
    exact absurd (decide_eq_true rfl) (hfind camera h)
  | some c =>
    have hid := List.find?_some hfind
    rw [decide_eq_true_eq] at hid
    rw [camera_unique h (List.mem_of_find?_eq_some hfind) hid]

theorem mem_permissionsOf {userId : Id} {p : CameraPermission} :
    p ∈ db.permissionsOf userId ↔ p ∈ db.permissions ∧ p.userId = userId := by
  simp [Database.permissionsOf]

theorem mem_filterAllowedGroupIds {groupIds : List Id} {groupId : Id} :
    groupId ∈ filterAllowedGroupIds db groupIds ↔ groupId ∈ groupIds ∧ Allowed db groupId := by
  simp only [filterAllowedGroupIds, Allowed, List.mem_map, List.mem_filter, Bool.and_eq_true,
    decide_eq_true_eq]
  refine ⟨?_, ?_⟩
  · rintro ⟨g, ⟨hg, ⟨hin, hactive⟩, hstatus⟩, rfl⟩
    exact ⟨hin, g, hg, rfl, hactive, hstatus⟩
  · rintro ⟨hin, g, hg, rfl, hactive, hstatus⟩
    exact ⟨g, ⟨hg, ⟨hin, hactive⟩, hstatus⟩, rfl⟩

theorem mem_directIds : camera.id ∈ (db.permissionsOf user.id).filterMap (·.cameraId) ↔
    Direct db user.id camera := by
  simp only [Direct, List.mem_filterMap, mem_permissionsOf, and_assoc]

/-! ## The lists -/

theorem mem_map_id {p : Camera → Bool} (h : camera ∈ db.cameras) :
    camera.id ∈ (db.cameras.filter p).map (·.id) ↔ p camera = true := by
  rw [List.mem_map]
  refine ⟨?_, ?_⟩
  · rintro ⟨c, hc, hid⟩
    rw [List.mem_filter] at hc
    rw [← camera_unique h hc.1 hid]
    exact hc.2
  · intro hp
    exact ⟨camera, List.mem_filter.mpr ⟨h, hp⟩, rfl⟩

/-- The user owns the private camera, or has a grant on it. -/
def Authorized (db : Database) (userId : Id) (camera : Camera) : Prop :=
  camera.isPrivate = true ∧ (camera.ownerUserId = some userId ∨ Direct db userId camera)

theorem mem_authorizedPrivateIds (h : camera ∈ db.cameras) :
    camera.id ∈ ((db.cameras.filter (fun c => c.isPrivate && c.ownerUserId = some user.id)).map
        (·.id) ++
      (db.cameras.filter (fun c =>
        c.id ∈ (db.permissionsOf user.id).filterMap (·.cameraId) && c.isPrivate)).map
        (·.id)).eraseDups ↔
      Authorized db user.id camera := by
  rw [List.mem_eraseDups, List.mem_append, mem_map_id h, mem_map_id h, Bool.and_eq_true,
    Bool.and_eq_true, decide_eq_true_eq, decide_eq_true_eq, mem_directIds]
  unfold Authorized
  tauto

theorem mem_groupCameras (h : camera ∈ db.cameras) :
    camera.id ∈ (db.cameras.filter (fun c => c.groupId.any (· ∈ filterAllowedGroupIds db
      ((db.permissionsOf user.id).filterMap (·.groupId))))).map (·.id) ↔
      ByGroup db user.id camera := by
  rw [mem_map_id h, Option.any_eq_true]
  simp only [decide_eq_true_eq, mem_filterAllowedGroupIds, List.mem_filterMap, mem_permissionsOf]
  unfold ByGroup
  refine exists_congr ?_
  intro groupId
  tauto

theorem mem_accessible_privileged (hp : isPrivileged user = true) (h : camera ∈ db.cameras) :
    camera.id ∈ getAccessibleCameraIds db user ↔
      camera.isPrivate = false ∨ Authorized db user.id camera := by
  unfold getAccessibleCameraIds
  simp only [hp, if_true]
  rw [List.mem_eraseDups, List.mem_append, mem_authorizedPrivateIds h, mem_map_id h,
    Bool.not_eq_true']

theorem mem_accessible_other (hp : isPrivileged user = false) (h : camera ∈ db.cameras) :
    camera.id ∈ getAccessibleCameraIds db user ↔
      (Direct db user.id camera ∨ ByGroup db user.id camera) ∧
        (camera.isPrivate = true → Authorized db user.id camera) := by
  have hprivate : camera.id ∈ ((db.cameras.filter (fun c => c.groupId.any
      (· ∈ filterAllowedGroupIds db ((db.permissionsOf user.id).filterMap (·.groupId))))).filter
      (·.isPrivate)).map (·.id) ↔ ByGroup db user.id camera ∧ camera.isPrivate = true := by
    rw [List.filter_filter, mem_map_id h, Bool.and_eq_true, ← mem_groupCameras h, mem_map_id h]
    exact and_comm
  unfold getAccessibleCameraIds
  simp only [hp, Bool.false_eq_true, if_false]
  rw [List.mem_filter, List.mem_eraseDups, List.mem_append, mem_directIds, mem_groupCameras h,
    Bool.or_eq_true, decide_eq_true_eq, decide_eq_true_eq, hprivate, mem_authorizedPrivateIds h]
  unfold Authorized
  tauto

theorem mem_restrictedIds {groupIds : List Id}
    (hin : ∀ groupId, camera.groupId = some groupId → groupId ∈ groupIds) :
    camera.groupId.any (· ∈ (db.groups.filter
      (fun g => g.id ∈ groupIds && g.accessStatus = .restricted)).map (·.id)) = true ↔
      Restricted db camera := by
  rw [Option.any_eq_true]
  simp only [decide_eq_true_eq, List.mem_map, List.mem_filter, Bool.and_eq_true]
  unfold Restricted
  refine exists_congr ?_
  intro groupId
  refine and_congr_right ?_
  intro hgroup
  refine ⟨?_, ?_⟩
  · rintro ⟨g, ⟨hg, -, hstatus⟩, rfl⟩
    exact ⟨g, hg, rfl, hstatus⟩
  · rintro ⟨g, hg, rfl, hstatus⟩
    exact ⟨g, ⟨hg, hin _ hgroup, hstatus⟩, rfl⟩

/-- The history is listed where the camera is, less the restricted groups for those
without a privileged role. -/
theorem mem_playback (h : camera ∈ db.cameras) :
    camera.id ∈ getPlaybackCameraIds db user ↔ camera.id ∈ getAccessibleCameraIds db user ∧
      (isPrivileged user = true ∨ ¬ Restricted db camera) := by
  unfold getPlaybackCameraIds
  simp only
  split
  · next hskip =>
    rw [Bool.or_eq_true, List.isEmpty_iff] at hskip
    rcases hskip with hnil | hp
    · rw [hnil]
      simp
    · simp [hp]
  · next hskip =>
    rw [Bool.or_eq_true, not_or] at hskip
    simp only [hskip.2, Bool.false_eq_true, false_or]
    split
    · next hnone =>
      rw [mem_map_id h, decide_eq_true_eq]
      refine (and_iff_left_of_imp ?_).symm
      rintro hin ⟨groupId, hgroup, -⟩
      rw [List.isEmpty_iff] at hnone
      have hmem : groupId ∈ ((db.cameras.filter (fun c =>
          c.id ∈ getAccessibleCameraIds db user)).filterMap (·.groupId)).eraseDups := by
        rw [List.mem_eraseDups, List.mem_filterMap]
        exact ⟨camera, List.mem_filter.mpr ⟨h, decide_eq_true hin⟩, hgroup⟩
      rw [hnone] at hmem
      cases hmem
    · rw [List.filter_filter, mem_map_id h, Bool.and_eq_true, decide_eq_true_eq, and_comm]
      refine and_congr_right ?_
      intro hin
      rw [Bool.not_eq_true', ← Bool.not_eq_true, mem_restrictedIds]
      intro groupId hgroup
      rw [List.mem_eraseDups, List.mem_filterMap]
      exact ⟨camera, List.mem_filter.mpr ⟨h, decide_eq_true hin⟩, hgroup⟩

/-! ## The checks -/

/-- The user has a grant of at least the level on the camera itself. -/
def DirectAt (minLevel : CameraPermissionLevel) (db : Database) (userId : Id) (camera : Camera) :
    Prop :=
  ∃ p ∈ db.permissions, p.userId = userId ∧ p.cameraId = some camera.id ∧
    levelWeight minLevel ≤ levelWeight p.level

/-- The user has a grant of at least the level on the camera's group, which gives access. -/
def ByGroupAt (minLevel : CameraPermissionLevel) (db : Database) (userId : Id) (camera : Camera) :
    Prop :=
  ∃ groupId, camera.groupId = some groupId ∧ Allowed db groupId ∧
    ∃ p ∈ db.permissions, p.userId = userId ∧ p.groupId = some groupId ∧
      levelWeight minLevel ≤ levelWeight p.level

theorem view_le (level : CameraPermissionLevel) : levelWeight .view ≤ levelWeight level := by
  cases level <;> decide

theorem directAt_view {userId : Id} : DirectAt .view db userId camera ↔ Direct db userId camera := by
  simp only [DirectAt, Direct, view_le, and_true]

theorem byGroupAt_view {userId : Id} :
    ByGroupAt .view db userId camera ↔ ByGroup db userId camera := by
  simp only [ByGroupAt, ByGroup, view_le, and_true]

theorem weight_maxLevel (a b : CameraPermissionLevel) :
    levelWeight (maxLevel a b) = max (levelWeight a) (levelWeight b) := by
  unfold maxLevel
  split <;> omega

theorem le_foldl_maxLevel (n : Nat) (ps : List CameraPermission) (level : CameraPermissionLevel) :
    n ≤ levelWeight (ps.foldl (fun max q => maxLevel max q.level) level) ↔
      n ≤ levelWeight level ∨ ∃ p ∈ ps, n ≤ levelWeight p.level := by
  induction ps generalizing level with
  | nil => simp
  | cons p ps ih =>
    have hmax : n ≤ max (levelWeight level) (levelWeight p.level) ↔
        n ≤ levelWeight level ∨ n ≤ levelWeight p.level := by omega
    rw [List.foldl_cons, ih, weight_maxLevel, hmax, List.exists_mem_cons_iff, or_assoc]

theorem mem_allowed_own {groupId : Id} :
    (filterAllowedGroupIds db camera.groupId.toList).head? = some groupId ↔
      camera.groupId = some groupId ∧ Allowed db groupId := by
  have hids : ∀ g, g ∈ filterAllowedGroupIds db camera.groupId.toList ↔
      camera.groupId = some g ∧ Allowed db g := by
    intro g
    rw [mem_filterAllowedGroupIds, Option.mem_toList]
  refine ⟨?_, ?_⟩
  · intro hhead
    exact (hids groupId).mp (List.mem_of_head? hhead)
  · intro hgroup
    have hmem := (hids groupId).mpr hgroup
    cases hlist : filterAllowedGroupIds db camera.groupId.toList with
    | nil =>
      rw [hlist] at hmem
      cases hmem
    | cons g rest =>
      have hg := (hids g).mp (by rw [hlist]; exact List.mem_cons_self)
      rw [hgroup.1] at hg
      rw [List.head?_cons, hg.1]

theorem hasLevel_iff {minLevel : CameraPermissionLevel} (h : camera ∈ db.cameras) :
    hasLevel db user camera.id minLevel = true ↔ isPrivileged user = true ∨
      DirectAt minLevel db user.id camera ∨ ByGroupAt minLevel db user.id camera := by
  have hmax : (getMaxPermissionLevel db user.id camera.id).any
      (fun max => levelWeight minLevel ≤ levelWeight max) = true ↔
      ∃ p ∈ (db.permissionsOf user.id).filter (fun p => p.cameraId = some camera.id ||
          (filterAllowedGroupIds db camera.groupId.toList).head?.any
            (fun g => p.groupId = some g)),
        levelWeight minLevel ≤ levelWeight p.level := by
    simp only [getMaxPermissionLevel, camera_found h]
    split
    · next hnil => rw [hnil]; simp
    · next p rest hcons =>
      rw [hcons, Option.any_some, decide_eq_true_eq, le_foldl_maxLevel, List.exists_mem_cons_iff]
  unfold hasLevel
  split
  · next hp => simp [hp]
  · next hp =>
    rw [hmax]
    simp only [hp, Bool.false_eq_true, false_or, List.mem_filter, mem_permissionsOf,
      Bool.or_eq_true, decide_eq_true_eq, Option.any_eq_true, mem_allowed_own]
    unfold DirectAt ByGroupAt
    refine ⟨?_, ?_⟩
    · rintro ⟨p, ⟨⟨hmem, huser⟩, hcamera | ⟨groupId, hgroup, hpg⟩⟩, hlevel⟩
      · exact .inl ⟨p, hmem, huser, hcamera, hlevel⟩
      · exact .inr ⟨groupId, hgroup.1, hgroup.2, p, hmem, huser, hpg, hlevel⟩
    · rintro (⟨p, hmem, huser, hcamera, hlevel⟩ |
        ⟨groupId, hgroup, hallowed, p, hmem, huser, hpg, hlevel⟩)
      · exact ⟨p, ⟨⟨hmem, huser⟩, .inl hcamera⟩, hlevel⟩
      · exact ⟨p, ⟨⟨hmem, huser⟩, .inr ⟨groupId, ⟨hgroup, hallowed⟩, hpg⟩⟩, hlevel⟩

theorem contentCheck_private {minLevel : CameraPermissionLevel} (h : camera ∈ db.cameras)
    (hprivate : camera.isPrivate = true) :
    contentCheck minLevel db user camera.id = true ↔
      camera.ownerUserId = some user.id ∨ DirectAt minLevel db user.id camera := by
  simp only [contentCheck, hasPrivateContentLevel, camera_found h, hprivate, not_true_eq_false,
    if_false]
  split
  · next hsome =>
    split at hsome
    · next howner =>
      cases hsome
      simp [howner]
    · next howner =>
      cases hsome
      rw [List.any_eq_true]
      simp only [howner, false_or, List.mem_filter, mem_permissionsOf, decide_eq_true_eq,
        DirectAt, and_assoc]
  · next hnone => split at hnone <;> cases hnone

theorem contentCheck_public {minLevel : CameraPermissionLevel} (h : camera ∈ db.cameras)
    (hpublic : camera.isPrivate = false) :
    contentCheck minLevel db user camera.id = true ↔ isPrivileged user = true ∨
      DirectAt minLevel db user.id camera ∨ ByGroupAt minLevel db user.id camera := by
  rw [← hasLevel_iff h]
  simp only [contentCheck, hasPrivateContentLevel, camera_found h, hpublic, Bool.false_eq_true,
    not_false_eq_true, if_true]

theorem canPlaybackCamera_iff (h : camera ∈ db.cameras) :
    canPlaybackCamera db user camera.id = true ↔ canViewCamera db user camera.id = true ∧
      (isPrivileged user = true ∨ ¬ Restricted db camera) := by
  have hgroup : ∀ groupId, camera.groupId = some groupId →
      ((db.group groupId).map (·.accessStatus) = some .restricted ↔ Restricted db camera) := by
    intro groupId hid
    unfold Restricted Database.group
    rw [Option.map_eq_some_iff]
    refine ⟨?_, ?_⟩
    · rintro ⟨g, hfind, hstatus⟩
      have hg := List.find?_some hfind
      rw [decide_eq_true_eq] at hg
      exact ⟨groupId, hid, g, List.mem_of_find?_eq_some hfind, hg, hstatus⟩
    · rintro ⟨groupId', hid', g, hg, hgid, hstatus⟩
      rw [hid] at hid'
      cases hid'
      cases hfind : db.groups.find? (fun g => g.id = groupId) with
      | none =>
        rw [List.find?_eq_none] at hfind
        exact absurd (decide_eq_true hgid) (hfind g hg)
      | some g' =>
        have hg' := List.find?_some hfind
        rw [decide_eq_true_eq] at hg'
        have heq := group_unique hg (List.mem_of_find?_eq_some hfind) (hg'.trans hgid.symm)
        exact ⟨g', rfl, heq ▸ hstatus⟩
  simp only [canPlaybackCamera, camera_found h, Option.bind_some]
  split
  · next hview => simp [hview]
  · next hview =>
    rw [not_not] at hview
    simp only [hview, true_and]
    split
    · next hp => simp [hp]
    · next hp =>
      simp only [hp, Bool.false_eq_true, false_or]
      split
      · next hnone =>
        refine ⟨?_, fun _ => rfl⟩
        rintro - ⟨groupId, hid, -⟩
        rw [hnone] at hid
        cases hid
      · next groupId hid => rw [decide_eq_true_eq, ne_eq, hgroup groupId hid]

/-! ## The lists and the checks agree -/

/-- The list and the check give one answer, of the live view and of the history. -/
def Agree (db : Database) (user : AuthUser) (cameraId : Id) : Prop :=
  (cameraId ∈ getAccessibleCameraIds db user ↔ canViewCamera db user cameraId = true) ∧
    (cameraId ∈ getPlaybackCameraIds db user ↔ canPlaybackCamera db user cameraId = true)

/-- An owner, without a privileged role, of a private camera on which there is no grant. -/
def OwnsUngranted (db : Database) (user : AuthUser) (camera : Camera) : Prop :=
  isPrivileged user = false ∧ camera.isPrivate = true ∧ camera.ownerUserId = some user.id ∧
    ¬ Direct db user.id camera ∧ ¬ ByGroup db user.id camera

theorem accessible_iff_canView (h : camera ∈ db.cameras) :
    (camera.id ∈ getAccessibleCameraIds db user ↔ canViewCamera db user camera.id = true) ↔
      ¬ OwnsUngranted db user camera := by
  unfold canViewCamera OwnsUngranted
  cases hprivate : camera.isPrivate with
  | true =>
    rw [contentCheck_private h hprivate, directAt_view]
    cases hp : isPrivileged user with
    | true =>
      rw [mem_accessible_privileged hp h]
      simp [Authorized, hprivate]
    | false =>
      rw [mem_accessible_other hp h]
      simp only [Authorized, hprivate, true_and, true_implies]
      tauto
  | false =>
    rw [contentCheck_public h hprivate, directAt_view, byGroupAt_view]
    cases hp : isPrivileged user with
    | true =>
      rw [mem_accessible_privileged hp h]
      simp [hprivate]
    | false =>
      rw [mem_accessible_other hp h]
      simp [hprivate]

end Answers

/-- The lists and the checks agree on a camera exactly where the user is not an owner whom
only the checks know. -/
theorem list_check_agree_iff (db : Database) (user : AuthUser) {camera : Camera}
    (h : camera ∈ db.cameras) :
    Agree db user camera.id ↔ ¬ OwnsUngranted db user camera := by
  rw [← accessible_iff_canView h]
  unfold Agree
  rw [mem_playback h, canPlaybackCamera_iff h]
  refine ⟨And.left, ?_⟩
  intro hview
  rw [hview]
  exact ⟨Iff.rfl, Iff.rfl⟩

def someId (text : String) (h : text ≠ "" := by decide) : Id := ⟨text, h⟩

/-- A viewer's own private camera, and one that a group he has a grant on shows him. -/
def homeCamera : Camera := ⟨someId "home", none, true, some (someId "viewer")⟩

def yardCamera : Camera := ⟨someId "yard", some (someId "group"), false, none⟩

def smallHouse : Database where
  cameras := [homeCamera, yardCamera]
  groups := [⟨someId "group", true, .active⟩]
  permissions := [⟨someId "viewer", none, some (someId "group"), .view⟩]
  camera_ids := by decide
  group_ids := by decide

def viewerUser : AuthUser := ⟨someId "viewer", .viewer⟩

theorem list_check_agree_yard :
    Agree smallHouse viewerUser (someId "yard") ↔ ¬ OwnsUngranted smallHouse viewerUser yardCamera :=
  list_check_agree_iff smallHouse viewerUser (show yardCamera ∈ smallHouse.cameras by decide)

/-- The owner of a private camera may open it and does not find it listed. -/
theorem owner_not_listed : ¬ ∀ (db : Database) (user : AuthUser), ∀ camera ∈ db.cameras,
    Agree db user camera.id := by
  intro hclaim
  have hagree := (hclaim smallHouse viewerUser homeCamera (by decide)).1
  have hview : canViewCamera smallHouse viewerUser homeCamera.id = true := by rfl
  have hlisted : homeCamera.id ∉ getAccessibleCameraIds smallHouse viewerUser := by
    decide +kernel
  exact hlisted (hagree.mpr hview)

end Drac.Access
