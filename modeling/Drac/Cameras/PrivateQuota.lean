import Drac.Access.AccessControl
import Drac.Lib.Runs

/-
  How many private cameras a client may own.

  Correspondence (`cameras.service.ts` ↔ Lean):
    createPrivateForOwner         ↔ `Request.create`, from `findingGroup` to `granting`
    getPrivateCameraQuota         ↔ the same name; its awaits are `findingQuotaGroup`, `counting`
    validateReferences            ↔ `validating`
    transferPrivateCameraOwner    ↔ `Request.transfer`, from `readingCamera` to `transferring`

  The calls go from await to await; the transaction of a transfer is one step. The cameras are
  named by their place in the table. Permissions stand in the order of their creation, and are on
  a camera or on a group, never both. An await that throws ends its call (`Label.giveUp`).
-/

namespace Drac.Cameras.PrivateQuota

open Access (Id CameraPermissionLevel)
open Runs

structure Camera where
  groupId : Option Id
  isPrivate : Bool
  ownerUserId : Option Id
  deriving DecidableEq

inductive Target where
  | camera (id : Nat)
  | group (id : Id)
  deriving DecidableEq

structure CameraPermission where
  userId : Id
  target : Target
  level : CameraPermissionLevel
  deriving DecidableEq

structure CameraGroup where
  id : Id
  maxPrivateCameras : Int

structure User where
  id : Id
  isActive : Bool

/-- The calls that give somebody a private camera. -/
inductive Request where
  | create (owner : Id) (groupId : Option Id)
  | transfer (id : Nat) (ownerUserId : Id)

/-- Where a call is between two queries. -/
inductive Phase where
  | findingGroup
  | findingQuotaGroup
  | counting (groupId quotaGroupId : Option Id)
  | validating (groupId : Option Id)
  | creating (groupId : Option Id)
  | granting (camera : Nat)
  | readingCamera
  | findingOwner (camera : Camera)
  | transferring (camera : Camera)
  | done
  | refused (message : String)
  | failed

structure Call where
  request : Request
  phase : Phase

structure System where
  cameras : List Camera
  permissions : List CameraPermission
  groups : List CameraGroup
  users : List User
  calls : List Call := []

def System.goTo (s : System) (i : Nat) (c : Call) (phase : Phase) : System :=
  { s with calls := s.calls.set i { c with phase := phase } }

/-! ## The quota -/

/-- The group a permission makes its user the administrator of. -/
def adminOf (userId : Id) (p : CameraPermission) : Option Id :=
  match p.target with
  | .group groupId => if p.userId = userId ∧ p.level = .admin then some groupId else none
  | .camera _ => none

/-- The first group of which the user is an administrator. -/
def ownerGroup (s : System) (userId : Id) : Option Id := s.permissions.findSome? (adminOf userId)

def owns (userId : Id) (camera : Camera) : Bool :=
  camera.isPrivate && camera.ownerUserId = some userId

def usedBy (s : System) (userId : Id) : Nat := s.cameras.countP (owns userId)

/-- `Math.max(0, group?.maxPrivateCameras ?? 0)`. -/
def limitOf (s : System) (groupId : Option Id) : Int :=
  let group := groupId.bind (fun id => s.groups.find? (fun group => group.id = id))
  max 0 ((group.map CameraGroup.maxPrivateCameras).getD 0)

/-- How many private cameras a user has, and how many may be. -/
structure Quota where
  used : Nat
  limit : Int

def getPrivateCameraQuota (s : System) (owner : Id) (groupIdHint : Option Id) : Quota where
  used := usedBy s owner
  limit := limitOf s (groupIdHint.or (ownerGroup s owner))

/-! ## Steps -/

def quotaMessage (quota : Quota) : String :=
  if quota.limit = 0 then
    "Seu plano não inclui câmeras privadas. Fale com o provedor para liberar."
  else
    "Limite de câmeras privadas atingido (" ++ toString quota.used ++ "/" ++ toString quota.limit ++
      "). Fale com o provedor para ampliar."

/-- The transaction of a transfer: the direct access of the old owner goes, the new owner gets
it, and the camera changes hands. -/
def transfer (s : System) (id : Nat) (camera : Camera) (nextOwner : Id) : System :=
  let kept := s.permissions.filter (fun p =>
    !(camera.ownerUserId = some p.userId && p.target = .camera id))
  let isGrant := fun p : CameraPermission => p.userId = nextOwner && p.target = .camera id
  let granted :=
    -- there is one such row at most
    if kept.any isGrant then
      kept.map (fun p => if isGrant p then { p with level := .admin } else p)
    else kept ++ [{ userId := nextOwner, target := .camera id, level := .admin }]
  { s with
    permissions := granted
    cameras := s.cameras.modify id (fun row => { row with ownerUserId := some nextOwner }) }

def advanceCreate (s : System) (i : Nat) (c : Call) (owner : Id) (dtoGroupId : Option Id) :
    Option System :=
  match c.phase with
  | .findingGroup =>
    let groupId := (ownerGroup s owner).or dtoGroupId
    some (s.goTo i c (if groupId.isSome then .counting groupId groupId else .findingQuotaGroup))
  | .findingQuotaGroup => some (s.goTo i c (.counting none (ownerGroup s owner)))
  | .counting groupId quotaGroupId =>
    let quota : Quota := ⟨usedBy s owner, limitOf s quotaGroupId⟩
    some (s.goTo i c (if quota.limit ≤ quota.used then .refused (quotaMessage quota)
      else .validating groupId))
  | .validating groupId =>
    let found := groupId.all (fun id => s.groups.any (fun group => group.id = id))
    some (s.goTo i c (if found then .creating groupId else .refused "Grupo informado não existe."))
  | .creating groupId =>
    let camera : Camera := { groupId := groupId, isPrivate := true, ownerUserId := some owner }
    some ({ s with cameras := s.cameras ++ [camera] }.goTo i c (.granting s.cameras.length))
  | .granting camera =>
    let grant : CameraPermission := { userId := owner, target := .camera camera, level := .admin }
    some ({ s with permissions := s.permissions ++ [grant] }.goTo i c .done)
  | _ => none

def advanceTransfer (s : System) (i : Nat) (c : Call) (id : Nat) (ownerUserId : Id) : Option System :=
  match c.phase with
  | .readingCamera =>
    match s.cameras[id]? with
    | none => some (s.goTo i c (.refused ("Camera " ++ toString id ++ " não encontrada.")))
    | some camera =>
      some (s.goTo i c (if camera.isPrivate then .findingOwner camera
        else .refused "Somente câmera privada possui proprietário transferível."))
  | .findingOwner camera =>
    if (s.users.find? (fun user => user.id = ownerUserId)).any User.isActive then
      some (s.goTo i c (if camera.ownerUserId = some ownerUserId then .done
        else .transferring camera))
    else some (s.goTo i c (.refused "O novo proprietário deve ser um usuário ativo."))
  | .transferring camera => some ((transfer s id camera ownerUserId).goTo i c .done)
  | _ => none

def advance (s : System) (i : Nat) (c : Call) : Option System :=
  match c.request with
  | .create owner groupId => advanceCreate s i c owner groupId
  | .transfer id ownerUserId => advanceTransfer s i c id ownerUserId

inductive Label where
  | create (owner : Id) (groupId : Option Id)
  | transfer (id : Nat) (ownerUserId : Id)
  | advance (i : Nat)
  | giveUp (i : Nat)

def step (s : System) : Label → Option System
  | .create owner groupId =>
    some { s with calls := s.calls ++ [⟨.create owner groupId, .findingGroup⟩] }
  | .transfer id ownerUserId =>
    some { s with calls := s.calls ++ [⟨.transfer id ownerUserId, .readingCamera⟩] }
  | .advance i => (s.calls[i]?).bind (advance s i)
  | .giveUp i => (s.calls[i]?).map (fun c => s.goTo i c .failed)

end Drac.Cameras.PrivateQuota
