import Drac.Access.AccessControl
import Drac.Lib.Checks
import Drac.Lib.JsText
import Drac.Lib.Runs
import Mathlib.Data.List.Nodup

/-
  Who may write which user.

  Correspondence (`users.service.ts`, `auth.service.ts`, `access-control.service.ts` ↔ Lean, under
  the same names): assertPasswordStrength, assertCanManageUser, resolveManagedGroupIds, create,
  update, softDelete, hardDelete, canAssignRole, getAdminGroupIds.

  Each call is atomic: it gives the database it leaves, or the exception it throws, and then
  nothing is written. An actor is what the token says of them. Permissions, groups and cameras are
  also written by the other services (`Label.elsewhere`).
-/

namespace Drac.Access.UserManagement

open Checks Runs

/-! ## Rows -/

structure User where
  id : Id
  name : String
  email : String
  passwordHash : String
  role : UserRole
  isActive : Bool := true
  authVersion : Nat := 0
  deriving DecidableEq

/-- The `data` of an update; what is absent stays. -/
structure UserPatch where
  name : Option String := none
  email : Option String := none
  role : Option UserRole := none
  isActive : Option Bool := none
  passwordHash : Option String := none
  authVersionIncrement : Nat := 0

def UserPatch.apply (patch : UserPatch) (user : User) : User :=
  { user with
    name := patch.name.getD user.name
    email := patch.email.getD user.email
    role := patch.role.getD user.role
    isActive := patch.isActive.getD user.isActive
    passwordHash := patch.passwordHash.getD user.passwordHash
    authVersion := user.authVersion + patch.authVersionIncrement }

structure UserTable where
  rows : List User
  ids : (rows.map User.id).Nodup
  emails : (rows.map User.email).Nodup

namespace UserTable

def find (table : UserTable) (id : Id) : Option User := table.rows.find? (fun user => user.id = id)

/-- A new row, `none` where its key or its e-mail is taken. -/
def insert (table : UserTable) (user : User) : Option UserTable :=
  if h : user.id ∉ table.rows.map User.id ∧ user.email ∉ table.rows.map User.email then
    some {
      rows := table.rows ++ [user]
      ids := by
        rw [List.map_append, List.map_singleton, ← List.concat_eq_append]
        exact List.Nodup.concat h.1 table.ids
      emails := by
        rw [List.map_append, List.map_singleton, ← List.concat_eq_append]
        exact List.Nodup.concat h.2 table.emails }
  else none

def patched (table : UserTable) (id : Id) (patch : UserPatch) : List User :=
  table.rows.map (fun user => if user.id = id then patch.apply user else user)

theorem patched_ids (table : UserTable) (id : Id) (patch : UserPatch) :
    (table.patched id patch).map User.id = table.rows.map User.id := by
  unfold patched
  rw [List.map_map]
  apply List.map_congr_left
  intro user _
  rw [Function.comp_apply]
  split <;> rfl

/-- `none` where the new e-mail is taken. -/
def update (table : UserTable) (id : Id) (patch : UserPatch) : Option UserTable :=
  if h : ((table.patched id patch).map User.email).Nodup then
    some {
      rows := table.patched id patch
      ids := by rw [patched_ids]; exact table.ids
      emails := h }
  else none

def delete (table : UserTable) (id : Id) : UserTable where
  rows := table.rows.filter (fun user => user.id ≠ id)
  ids := table.ids.sublist (List.filter_sublist.map User.id)
  emails := table.emails.sublist (List.filter_sublist.map User.email)

end UserTable

/-- The tables the service reads and writes, and its setting. -/
structure State where
  users : UserTable
  permissions : List CameraPermission
  groups : List Id
  cameras : List Camera
  requireStrongPassword : Bool

/-! ## Checks -/

/-- How a call is refused. -/
inductive Failure where
  | forbidden (message : String)
  | notFound (message : String)
  | badRequest (message : String)
  | database
  deriving DecidableEq

def ofDatabase {α : Type} (answer : Option α) : Except Failure α :=
  match answer with
  | some a => .ok a
  | none => .error .database

def isGroupAssignableRole (role : UserRole) : Bool := role = .viewer || role = .operator

def canAssignRole (actorRole targetRole : UserRole) : Bool :=
  match actorRole with
  | .superAdmin => true
  | .admin => targetRole ≠ .superAdmin
  | _ => false

def strong (password : String) : Bool :=
  12 ≤ JsText.length password.toList && password.toList.any (fun c => 'a' ≤ c && c ≤ 'z') &&
    password.toList.any (fun c => 'A' ≤ c && c ≤ 'Z') &&
    password.toList.any (fun c => '0' ≤ c && c ≤ '9')

def assertPasswordStrength (s : State) (password : String) : Except Failure Unit :=
  throwIf (s.requireStrongPassword && !strong password)
    (.badRequest "Senha fraca: exige no mínimo 12 caracteres, com maiúscula, minúscula e número.")

def getAdminGroupIds (s : State) (user : AuthUser) : List Id :=
  if isPrivileged user then s.groups
  else
    (s.permissions.filter (fun p => p.userId = user.id && p.groupId.isSome && p.level = .admin)).filterMap
      (·.groupId)

def assertCanManageUser (s : State) (actor : AuthUser) (targetUserId : Id) : Except Failure Unit := do
  let groupIds := getAdminGroupIds s actor
  throwIf groupIds.isEmpty (.forbidden "Sem grupo administrável para gerenciar usuários.")
  let targetPermission := s.permissions.find? (fun p =>
    p.userId = targetUserId && p.groupId.any (· ∈ groupIds))
  throwIf targetPermission.isNone (.forbidden "Usuário fora dos grupos administráveis.")

def Id.ofText (text : String) : Option Id := if h : text ≠ "" then some ⟨text, h⟩ else none

def resolveManagedGroupIds (s : State) (actor : AuthUser) (requestedGroupIds : Option (List String)) :
    Except Failure (List Id) := do
  let groupIds := ((requestedGroupIds.getD []).filterMap (fun id => Id.ofText (JsText.trim id))).eraseDups
  if isPrivileged actor then .ok groupIds
  else
    let adminGroupIds := getAdminGroupIds s actor
    throwIf adminGroupIds.isEmpty (.forbidden "Sem grupo administrável para criar usuários.")
    let selected := if groupIds.isEmpty then adminGroupIds else groupIds
    throwIf (selected.any (· ∉ adminGroupIds))
      (.forbidden "Não é permitido vincular usuário fora dos seus grupos.")
    .ok selected

/-! ## Calls -/

structure CreateUserDto where
  name : String
  email : String
  password : String
  role : UserRole
  groupIds : Option (List String) := none
  permissionLevel : Option CameraPermissionLevel := none

structure UpdateUserDto where
  name : Option String := none
  email : Option String := none
  password : Option String := none
  role : Option UserRole := none
  isActive : Option Bool := none

/-- `toLowerCase` and `bcrypt.hash`. -/
structure Env where
  toLowerCase : String → String
  hash : String → String

/-- `create`, with the key the database generates. -/
def create (env : Env) (s : State) (actor : AuthUser) (dto : CreateUserDto) (id : Id) :
    Except Failure State := do
  throwIf (!isPrivileged actor && !isGroupAssignableRole dto.role)
    (.forbidden "Administrador de grupo só pode criar VIEWER ou OPERATOR.")
  throwIf (isPrivileged actor && !canAssignRole actor.role dto.role)
    (.forbidden "Sem permissão para criar usuário com esse perfil.")
  let groupIds ← resolveManagedGroupIds s actor dto.groupIds
  assertPasswordStrength s dto.password
  -- a group that is not there has no key to refer to
  throwIf (groupIds.any (· ∉ s.groups)) .database
  let users ← ofDatabase (s.users.insert {
    id := id, name := dto.name, email := env.toLowerCase (JsText.trim dto.email)
    passwordHash := env.hash dto.password, role := dto.role })
  .ok { s with
    users := users
    permissions := s.permissions ++ groupIds.map (fun groupId => {
      userId := id, cameraId := none, groupId := some groupId
      level := dto.permissionLevel.getD .view }) }

def findExisting (s : State) (id : Id) : Except Failure User :=
  match s.users.find id with
  | some existing => .ok existing
  | none => .error (.notFound "Usuário não encontrado.")

def isAdministrator (role : UserRole) : Bool := role = .admin || role = .superAdmin

def updatePatch (env : Env) (dto : UpdateUserDto) : UserPatch :=
  let password := dto.password.filter (· ≠ "")
  { name := dto.name
    email := dto.email.map (fun email => env.toLowerCase (JsText.trim email))
    role := dto.role
    isActive := dto.isActive
    passwordHash := password.map env.hash
    authVersionIncrement := if password.isSome then 1 else 0 }

def update (env : Env) (s : State) (actor : AuthUser) (id : Id) (dto : UpdateUserDto) :
    Except Failure State := do
  let existing ← findExisting s id
  unlessTrue (isPrivileged actor) do
    assertCanManageUser s actor id
    throwIf (isAdministrator existing.role)
      (.forbidden "Administrador de grupo não pode alterar administradores globais.")
    throwIf (dto.role.any (fun role => !isGroupAssignableRole role))
      (.forbidden "Administrador de grupo só pode atribuir VIEWER ou OPERATOR.")
    throwIf (dto.role.any (fun role => role ≠ existing.role) && id = actor.id)
      (.forbidden "Não é permitido alterar o próprio perfil.")
  let nextRole := dto.role.getD existing.role
  throwIf (isPrivileged actor && !canAssignRole actor.role nextRole)
    (.forbidden "Sem permissão para atribuir esse perfil.")
  throwIf (existing.role = .superAdmin && actor.role ≠ .superAdmin)
    (.forbidden "Apenas SUPER_ADMIN pode alterar SUPER_ADMIN.")
  ((dto.password.filter (· ≠ "")).map (assertPasswordStrength s)).getD (.ok ())
  let users ← ofDatabase (s.users.update id (updatePatch env dto))
  .ok { s with users := users }

def softDelete (s : State) (actor : AuthUser) (id : Id) : Except Failure State := do
  let existing ← findExisting s id
  unlessTrue (isPrivileged actor) do
    assertCanManageUser s actor id
    throwIf (isAdministrator existing.role)
      (.forbidden "Administrador de grupo não pode desativar administradores globais.")
  throwIf (isPrivileged actor && !canAssignRole actor.role existing.role)
    (.forbidden "Sem permissão para desativar este usuário.")
  let users ← ofDatabase (s.users.update id { isActive := some false, authVersionIncrement := 1 })
  .ok { s with users := users }

def transfiraAPropriedade (count : Nat) : String :=
  "Transfira a propriedade das " ++ toString count ++
    " câmera(s) privada(s) antes de excluir este usuário."

/-- The permissions of a deleted user go with the row. -/
def hardDelete (s : State) (actor : AuthUser) (id : Id) : Except Failure State := do
  let existing ← findExisting s id
  throwIf (existing.id = actor.id) (.forbidden "Você não pode excluir a própria conta.")
  unlessTrue (isPrivileged actor) do
    assertCanManageUser s actor id
    throwIf (isAdministrator existing.role)
      (.forbidden "Administrador de grupo não pode excluir administradores globais.")
  throwIf (isPrivileged actor && !canAssignRole actor.role existing.role)
    (.forbidden "Sem permissão para excluir este usuário.")
  let ownedPrivateCameras := s.cameras.countP (fun c => c.isPrivate && c.ownerUserId = some id)
  throwIf (0 < ownedPrivateCameras) (.badRequest (transfiraAPropriedade ownedPrivateCameras))
  .ok { s with
    users := s.users.delete id
    permissions := s.permissions.filter (fun p => p.userId ≠ id) }

/-! ## Histories -/

/-- A call of an actor, or a change from elsewhere that writes no user. -/
inductive Label where
  | create (actor : AuthUser) (dto : CreateUserDto) (id : Id)
  | update (actor : AuthUser) (id : Id) (dto : UpdateUserDto)
  | softDelete (actor : AuthUser) (id : Id)
  | hardDelete (actor : AuthUser) (id : Id)
  /-- The other services write what is theirs. -/
  | elsewhere (permissions : List CameraPermission) (groups : List Id) (cameras : List Camera)
      (requireStrongPassword : Bool)

def call (env : Env) (s : State) : Label → Except Failure State
  | .create actor dto id => create env s actor dto id
  | .update actor id dto => update env s actor id dto
  | .softDelete actor id => softDelete s actor id
  | .hardDelete actor id => hardDelete s actor id
  | .elsewhere permissions groups cameras requireStrongPassword =>
    .ok { s with
      permissions := permissions, groups := groups, cameras := cameras
      requireStrongPassword := requireStrongPassword }

/-- A call that is refused changes nothing. -/
def usersMachine (env : Env) : Machine State Label where
  init _ := True
  step s a :=
    match call env s a with
    | .ok t => some t
    | .error _ => some s

end Drac.Access.UserManagement
