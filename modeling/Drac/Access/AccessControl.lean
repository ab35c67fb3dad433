import Mathlib.Tactic.Common

/-
  Who may see which camera.

  Correspondence (`access-control.service.ts` ↔ Lean, under the same names):
    getAccessibleCameraIds, getPlaybackCameraIds   the lists
    canViewCamera, canControlCamera, canRecordCamera, canPlaybackCamera   the checks;
      the first three are `contentCheck` at their level
    filterAllowedGroupIds, getMaxPermissionLevel, hasLevel, hasPrivateContentLevel

  A query is a selection of the rows of its table. Ids are generated (`uuid()`) and so not
  the empty text, which the source's `Boolean(id)` would drop.
-/

namespace Drac.Access

inductive UserRole where
  | superAdmin
  | admin
  | operator
  | viewer
  deriving DecidableEq, Repr

inductive CameraPermissionLevel where
  | view
  | control
  | record
  | admin
  deriving DecidableEq, Repr

def levelWeight : CameraPermissionLevel → Nat
  | .view => 1
  | .control => 2
  | .record => 3
  | .admin => 4

inductive GroupAccessStatus where
  | active
  | restricted
  | suspended
  deriving DecidableEq, Repr

/-- An identifier; the source tests `if (id)`, so one is never empty. -/
structure Id where
  text : String
  nonempty : text ≠ ""
  deriving DecidableEq

/-- The caller, as the token names it. -/
structure AuthUser where
  id : Id
  role : UserRole
  deriving DecidableEq

structure Camera where
  id : Id
  groupId : Option Id
  isPrivate : Bool
  ownerUserId : Option Id
  deriving DecidableEq

structure CameraGroup where
  id : Id
  isActive : Bool
  accessStatus : GroupAccessStatus
  deriving DecidableEq

/-- A grant to a user, on a camera or on a group. -/
structure CameraPermission where
  userId : Id
  cameraId : Option Id
  groupId : Option Id
  level : CameraPermissionLevel
  deriving DecidableEq

/-- The rows that decide about access. -/
structure Database where
  cameras : List Camera
  groups : List CameraGroup
  permissions : List CameraPermission
  camera_ids : (cameras.map (·.id)).Nodup
  group_ids : (groups.map (·.id)).Nodup

namespace Database

/-- `camera.findUnique`. -/
def camera (db : Database) (id : Id) : Option Camera := db.cameras.find? (fun c => c.id = id)

def group (db : Database) (id : Id) : Option CameraGroup := db.groups.find? (fun g => g.id = id)

def permissionsOf (db : Database) (userId : Id) : List CameraPermission :=
  db.permissions.filter (fun p => p.userId = userId)

end Database

def isPrivileged (user : AuthUser) : Bool := user.role = .superAdmin || user.role = .admin

/-! ## The lists -/

/-- Of the groups asked for, those that still give access: active and not suspended. -/
def filterAllowedGroupIds (db : Database) (groupIds : List Id) : List Id :=
  (db.groups.filter (fun g => g.id ∈ groupIds && g.isActive && g.accessStatus ≠ .suspended)).map
    (·.id)

def getAccessibleCameraIds (db : Database) (user : AuthUser) : List Id :=
  let ownedPrivate := db.cameras.filter (fun c => c.isPrivate && c.ownerUserId = some user.id)
  let directIds := (db.permissionsOf user.id).filterMap (·.cameraId)
  let directPrivate := db.cameras.filter (fun c => c.id ∈ directIds && c.isPrivate)
  let authorizedPrivateIds := (ownedPrivate.map (·.id) ++ directPrivate.map (·.id)).eraseDups
  if isPrivileged user then
    let nonPrivate := db.cameras.filter (fun c => !c.isPrivate)
    (nonPrivate.map (·.id) ++ authorizedPrivateIds).eraseDups
  else
    let groupIds := (db.permissionsOf user.id).filterMap (·.groupId)
    let allowedGroupIds := filterAllowedGroupIds db groupIds
    let groupCameras := db.cameras.filter (fun c => c.groupId.any (· ∈ allowedGroupIds))
    let candidate := (directIds ++ groupCameras.map (·.id)).eraseDups
    let privateSet := (groupCameras.filter (·.isPrivate)).map (·.id)
    candidate.filter (fun id => id ∉ privateSet || id ∈ authorizedPrivateIds)

/-- The cameras whose recordings may be shown: a restricted group keeps the live view
and loses the history. -/
def getPlaybackCameraIds (db : Database) (user : AuthUser) : List Id :=
  let accessibleIds := getAccessibleCameraIds db user
  if accessibleIds.isEmpty || isPrivileged user then accessibleIds
  else
    let cameras := db.cameras.filter (fun c => c.id ∈ accessibleIds)
    let groupIds := (cameras.filterMap (·.groupId)).eraseDups
    if groupIds.isEmpty then cameras.map (·.id)
    else
      let restrictedIds := (db.groups.filter
        (fun g => g.id ∈ groupIds && g.accessStatus = .restricted)).map (·.id)
      (cameras.filter (fun c => !c.groupId.any (· ∈ restrictedIds))).map (·.id)

/-! ## The checks -/

/-- The greater of two levels, the first where they weigh the same. -/
def maxLevel (max level : CameraPermissionLevel) : CameraPermissionLevel :=
  if levelWeight max < levelWeight level then level else max

def getMaxPermissionLevel (db : Database) (userId cameraId : Id) : Option CameraPermissionLevel :=
  match db.camera cameraId with
  | none => none
  | some camera =>
    let allowedGroupIds := filterAllowedGroupIds db camera.groupId.toList
    let perms := (db.permissionsOf userId).filter (fun p =>
      p.cameraId = some cameraId || allowedGroupIds.head?.any (fun g => p.groupId = some g))
    match perms with
    | [] => none
    | p :: rest => some (rest.foldl (fun max q => maxLevel max q.level) p.level)

def hasLevel (db : Database) (user : AuthUser) (cameraId : Id) (minLevel : CameraPermissionLevel) :
    Bool :=
  if isPrivileged user then true
  else (getMaxPermissionLevel db user.id cameraId).any
    (fun max => levelWeight minLevel ≤ levelWeight max)

/-- The answer for a private camera, `none` for any other. -/
def hasPrivateContentLevel (db : Database) (user : AuthUser) (cameraId : Id)
    (minLevel : CameraPermissionLevel) : Option Bool :=
  match db.camera cameraId with
  | none => none
  | some camera =>
    if ¬ camera.isPrivate then none
    else if camera.ownerUserId = some user.id then some true
    else
      some (((db.permissionsOf user.id).filter (fun p => p.cameraId = some cameraId)).any
        (fun p => levelWeight minLevel ≤ levelWeight p.level))

/-- Privacy first, then the role and the grants. -/
def contentCheck (minLevel : CameraPermissionLevel) (db : Database) (user : AuthUser)
    (cameraId : Id) : Bool :=
  match hasPrivateContentLevel db user cameraId minLevel with
  | some privateAccess => privateAccess
  | none => hasLevel db user cameraId minLevel

def canViewCamera (db : Database) (user : AuthUser) (cameraId : Id) : Bool :=
  contentCheck .view db user cameraId

def canControlCamera (db : Database) (user : AuthUser) (cameraId : Id) : Bool :=
  contentCheck .control db user cameraId

def canRecordCamera (db : Database) (user : AuthUser) (cameraId : Id) : Bool :=
  contentCheck .record db user cameraId

def canPlaybackCamera (db : Database) (user : AuthUser) (cameraId : Id) : Bool :=
  if ¬ canViewCamera db user cameraId then false
  else if isPrivileged user then true
  else
    match (db.camera cameraId).bind (·.groupId) with
    | none => true
    | some groupId => (db.group groupId).map (·.accessStatus) ≠ some .restricted

end Drac.Access
