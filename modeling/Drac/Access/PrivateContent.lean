import Drac.Access.AccessAgreement

/-
  Private content.

  For a private camera and a user who does not own it, the answers are functions of the
  user's direct grants on it: `private_noninterference` compares any two states of the
  database, and any two users of one id, that agree on these. The history is not: a
  restricted group closes it, and a privileged role opens it again, on a private camera as
  on any other (`history_depends_on_group`). The comparison of the history therefore
  supposes that the two states agree on this as well.

  A suspended group gives nothing: with its grants struck out every answer is the same.
-/

namespace Drac.Access

/-- Two states agree on a private camera, which is not the user's, and on the user's
direct grants on it. -/
structure SameGrants (db db' : Database) (userId : Id) (camera camera' : Camera) : Prop where
  left : camera ∈ db.cameras
  right : camera' ∈ db'.cameras
  id : camera'.id = camera.id
  isPrivate : camera.isPrivate = true
  isPrivate' : camera'.isPrivate = true
  notOwner : camera.ownerUserId ≠ some userId
  owner : camera'.ownerUserId = camera.ownerUserId
  grants : ∀ level,
    (∃ p ∈ db.permissions, p.userId = userId ∧ p.cameraId = some camera.id ∧ p.level = level) ↔
      ∃ p ∈ db'.permissions, p.userId = userId ∧ p.cameraId = some camera.id ∧ p.level = level

/-- The history is open: to a privileged role, or where the group is not restricted. -/
def HistoryOpen (db : Database) (user : AuthUser) (camera : Camera) : Prop :=
  isPrivileged user = true ∨ ¬ Restricted db camera

/-- The four checks of a camera answer alike. -/
structure SameContent (db db' : Database) (user user' : AuthUser) (cameraId : Id) : Prop where
  view : canViewCamera db user cameraId = canViewCamera db' user' cameraId
  control : canControlCamera db user cameraId = canControlCamera db' user' cameraId
  listed : cameraId ∈ getAccessibleCameraIds db user ↔ cameraId ∈ getAccessibleCameraIds db' user'

/-- The playback check and the list of the history answer alike. -/
structure SameHistory (db db' : Database) (user user' : AuthUser) (cameraId : Id) : Prop where
  playback : canPlaybackCamera db user cameraId = canPlaybackCamera db' user' cameraId
  listed : cameraId ∈ getPlaybackCameraIds db user ↔ cameraId ∈ getPlaybackCameraIds db' user'

section Private

variable {db db' : Database} {user user' : AuthUser} {camera camera' : Camera}

theorem SameGrants.directAt {userId : Id} (h : SameGrants db db' userId camera camera')
    (minLevel : CameraPermissionLevel) :
    DirectAt minLevel db userId camera ↔ DirectAt minLevel db' userId camera' := by
  unfold DirectAt
  rw [h.id]
  refine ⟨?_, ?_⟩
  · rintro ⟨p, hp, huser, hcamera, hlevel⟩
    obtain ⟨q, hq, huser', hcamera', heq⟩ := (h.grants p.level).mp ⟨p, hp, huser, hcamera, rfl⟩
    exact ⟨q, hq, huser', hcamera', heq ▸ hlevel⟩
  · rintro ⟨p, hp, huser, hcamera, hlevel⟩
    obtain ⟨q, hq, huser', hcamera', heq⟩ := (h.grants p.level).mpr ⟨p, hp, huser, hcamera, rfl⟩
    exact ⟨q, hq, huser', hcamera', heq ▸ hlevel⟩

theorem contentCheck_notOwner {minLevel : CameraPermissionLevel} (h : camera ∈ db.cameras)
    (hprivate : camera.isPrivate = true) (howner : camera.ownerUserId ≠ some user.id) :
    contentCheck minLevel db user camera.id = true ↔ DirectAt minLevel db user.id camera := by
  rw [contentCheck_private h hprivate]
  exact or_iff_right howner

theorem mem_accessible_notOwner (h : camera ∈ db.cameras) (hprivate : camera.isPrivate = true)
    (howner : camera.ownerUserId ≠ some user.id) :
    camera.id ∈ getAccessibleCameraIds db user ↔ Direct db user.id camera := by
  cases hp : isPrivileged user with
  | true =>
    rw [mem_accessible_privileged hp h]
    simp [Authorized, hprivate, howner]
  | false =>
    rw [mem_accessible_other hp h]
    simp only [Authorized, hprivate, howner, true_and, true_implies, false_or]
    tauto

theorem SameGrants.content (h : SameGrants db db' user.id camera camera')
    (hid : user'.id = user.id) : SameContent db db' user user' camera.id := by
  have howner' : camera'.ownerUserId ≠ some user'.id := by
    rw [h.owner, hid]
    exact h.notOwner
  have hcheck : ∀ minLevel, contentCheck minLevel db user camera.id =
      contentCheck minLevel db' user' camera.id := by
    intro minLevel
    rw [Bool.eq_iff_iff, contentCheck_notOwner h.left h.isPrivate h.notOwner, h.directAt, ← h.id,
      contentCheck_notOwner h.right h.isPrivate' howner', hid]
  refine ⟨hcheck .view, hcheck .control, ?_⟩
  rw [mem_accessible_notOwner h.left h.isPrivate h.notOwner, ← directAt_view, h.directAt, ← h.id,
    mem_accessible_notOwner h.right h.isPrivate' howner', ← directAt_view, hid]

theorem SameGrants.history (h : SameGrants db db' user.id camera camera')
    (hid : user'.id = user.id) (hopen : HistoryOpen db user camera ↔ HistoryOpen db' user' camera') :
    SameHistory db db' user user' camera.id := by
  have hcontent := h.content hid
  unfold HistoryOpen at hopen
  refine ⟨?_, ?_⟩
  · rw [Bool.eq_iff_iff, canPlaybackCamera_iff h.left, hcontent.view, hopen, ← h.id,
      canPlaybackCamera_iff h.right]
  · rw [mem_playback h.left, hcontent.listed, hopen, ← h.id, mem_playback h.right]

end Private

/-! ## Suspended groups -/

/-- A group of that id is suspended. -/
def Suspended (db : Database) (groupId : Id) : Prop :=
  ∃ g ∈ db.groups, g.id = groupId ∧ g.accessStatus = .suspended

def strikeOut (groupId : Id) (p : CameraPermission) : CameraPermission :=
  if p.groupId = some groupId then { p with groupId := none } else p

/-- The grants on the group are struck out. -/
def withoutGroup (db : Database) (groupId : Id) : Database :=
  { db with permissions := db.permissions.map (strikeOut groupId) }

section Groups

variable {db : Database} {groupId : Id} {camera : Camera} {userId : Id}
  {minLevel : CameraPermissionLevel}

theorem not_allowed_of_suspended (h : Suspended db groupId) : ¬ Allowed db groupId := by
  rintro ⟨g, hg, hid, -, hstatus⟩
  obtain ⟨g', hg', hid', hsuspended⟩ := h
  rw [group_unique hg' hg (hid.trans hid'.symm)] at hstatus
  exact hstatus hsuspended

theorem exists_withoutGroup {P : CameraPermission → Prop} :
    (∃ p ∈ (withoutGroup db groupId).permissions, P p) ↔
      ∃ p ∈ db.permissions, P (strikeOut groupId p) := by
  simp [withoutGroup]

theorem strikeOut_cameraId (groupId : Id) (p : CameraPermission) :
    (strikeOut groupId p).userId = p.userId ∧ (strikeOut groupId p).cameraId = p.cameraId ∧
      (strikeOut groupId p).level = p.level := by
  unfold strikeOut
  split <;> exact ⟨rfl, rfl, rfl⟩

theorem strikeOut_groupId {g : Id} (hne : g ≠ groupId) (p : CameraPermission) :
    (strikeOut groupId p).groupId = some g ↔ p.groupId = some g := by
  unfold strikeOut
  split
  · next hp => simp [hp, Ne.symm hne]
  · rfl

theorem directAt_withoutGroup : DirectAt minLevel (withoutGroup db groupId) userId camera ↔
    DirectAt minLevel db userId camera := by
  unfold DirectAt
  rw [exists_withoutGroup]
  refine exists_congr ?_
  intro p
  obtain ⟨huser, hcamera, hlevel⟩ := strikeOut_cameraId groupId p
  rw [huser, hcamera, hlevel]

theorem byGroupAt_withoutGroup (h : Suspended db groupId) :
    ByGroupAt minLevel (withoutGroup db groupId) userId camera ↔
      ByGroupAt minLevel db userId camera := by
  unfold ByGroupAt
  refine exists_congr ?_
  intro g
  refine and_congr_right ?_
  intro _
  refine and_congr_right ?_
  intro hallowed
  have hne : g ≠ groupId := by
    intro heq
    exact not_allowed_of_suspended h (heq ▸ hallowed)
  rw [exists_withoutGroup]
  refine exists_congr ?_
  intro p
  obtain ⟨huser, -, hlevel⟩ := strikeOut_cameraId groupId p
  rw [huser, hlevel, strikeOut_groupId hne]

/-- Every answer about a camera is the one without the grants on the suspended group. -/
theorem suspended_gives_nothing (h : Suspended db groupId) (user : AuthUser)
    (hcamera : camera ∈ db.cameras) :
    SameContent db (withoutGroup db groupId) user user camera.id ∧
      SameHistory db (withoutGroup db groupId) user user camera.id := by
  have hcamera' : camera ∈ (withoutGroup db groupId).cameras := hcamera
  have hcheck : ∀ minLevel, contentCheck minLevel db user camera.id =
      contentCheck minLevel (withoutGroup db groupId) user camera.id := by
    intro minLevel
    rw [Bool.eq_iff_iff]
    cases hprivate : camera.isPrivate with
    | true =>
      rw [contentCheck_private hcamera hprivate, contentCheck_private hcamera' hprivate,
        directAt_withoutGroup]
    | false =>
      rw [contentCheck_public hcamera hprivate, contentCheck_public hcamera' hprivate,
        directAt_withoutGroup, byGroupAt_withoutGroup h]
  have hlisted : camera.id ∈ getAccessibleCameraIds db user ↔
      camera.id ∈ getAccessibleCameraIds (withoutGroup db groupId) user := by
    cases hp : isPrivileged user with
    | true =>
      rw [mem_accessible_privileged hp hcamera, mem_accessible_privileged hp hcamera']
      unfold Authorized
      rw [← directAt_view, ← directAt_view, directAt_withoutGroup]
    | false =>
      rw [mem_accessible_other hp hcamera, mem_accessible_other hp hcamera']
      unfold Authorized
      rw [← directAt_view, ← byGroupAt_view, ← directAt_view, ← byGroupAt_view,
        directAt_withoutGroup, byGroupAt_withoutGroup h]
  have hrestricted : Restricted (withoutGroup db groupId) camera ↔ Restricted db camera := Iff.rfl
  refine ⟨⟨hcheck .view, hcheck .control, hlisted⟩, ?_, ?_⟩
  · rw [Bool.eq_iff_iff, canPlaybackCamera_iff hcamera, canPlaybackCamera_iff hcamera',
      hrestricted]
    unfold canViewCamera
    rw [hcheck .view]
  · rw [mem_playback hcamera, mem_playback hcamera', hrestricted, hlisted]

end Groups

/-! ## The theorem -/

/-- What is answered of a private camera depends, for one who does not own it, on the direct
grants, and of its history on what closes a history besides; and a suspended group gives
nothing. -/
theorem private_noninterference :
    (∀ (db db' : Database) (user user' : AuthUser) (camera camera' : Camera),
      user'.id = user.id → SameGrants db db' user.id camera camera' →
        SameContent db db' user user' camera.id ∧
          ((HistoryOpen db user camera ↔ HistoryOpen db' user' camera') →
            SameHistory db db' user user' camera.id)) ∧
    ∀ (db : Database) (groupId : Id) (user : AuthUser), ∀ camera ∈ db.cameras,
      Suspended db groupId →
        SameContent db (withoutGroup db groupId) user user camera.id ∧
          SameHistory db (withoutGroup db groupId) user user camera.id := by
  refine ⟨?_, ?_⟩
  · intro db db' user user' camera camera' hid h
    exact ⟨h.content hid, h.history hid⟩
  · intro db groupId user camera hcamera h
    exact suspended_gives_nothing h user hcamera

/-- A private camera in a group, on which the viewer has a grant. -/
theorem group_nonempty : "group" ≠ "" := by decide

theorem owner_nonempty : "owner" ≠ "" := by decide

theorem viewer_nonempty : "viewer" ≠ "" := by decide

def nurseryCamera : Camera :=
  ⟨someId "nursery", some (someId "group" group_nonempty), true,
    some (someId "owner" owner_nonempty)⟩

def sharedHouse (status : GroupAccessStatus) : Database where
  cameras := [nurseryCamera]
  groups := [⟨someId "group" group_nonempty, true, status⟩]
  permissions := [⟨someId "viewer" viewer_nonempty, some (someId "nursery"), none, .view⟩]
  camera_ids := by simp
  group_ids := by simp

theorem sharedHouse_same (status : GroupAccessStatus) :
    SameGrants (sharedHouse .active) (sharedHouse status) viewerUser.id nurseryCamera
      nurseryCamera where
  left := by decide
  right := List.mem_singleton_self _
  id := rfl
  isPrivate := rfl
  isPrivate' := rfl
  notOwner := by decide
  owner := rfl
  grants _ := Iff.rfl

/-- The group suspended, the viewer still sees what was shared with him. -/
theorem private_noninterference_suspended :
    SameContent (sharedHouse .active) (sharedHouse .suspended) viewerUser viewerUser
      nurseryCamera.id :=
  (private_noninterference.1 _ _ viewerUser viewerUser nurseryCamera nurseryCamera rfl
    (sharedHouse_same .suspended)).1

/-- The group restricted, the history of the shared camera is closed to him. -/
theorem history_depends_on_group : ¬ ∀ (db db' : Database) (user user' : AuthUser)
    (camera camera' : Camera), user'.id = user.id → SameGrants db db' user.id camera camera' →
      SameContent db db' user user' camera.id ∧ SameHistory db db' user user' camera.id := by
  intro hclaim
  have hsame := (hclaim _ _ viewerUser viewerUser nurseryCamera nurseryCamera rfl
    (sharedHouse_same .restricted)).2.playback
  revert hsame
  decide +kernel

end Drac.Access
