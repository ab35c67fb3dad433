import Mathlib.Data.List.Nodup
import Drac.Lib.Runs

/-
  Logins, refresh tokens and what revokes them.

  Correspondence (`auth.service.ts`, `users.service.ts` ↔ Lean):
    login, refreshSession, logout, forgotPassword, resetPassword,
    changeOwnPassword, update, softDelete   ↔ `Request`, and `arrive` for the first read
    createRefreshSession, the rotation      ↔ `createRefreshSession`, `rotate`
    validateAccessPayload                   ↔ the same name
    the `data` of a `user.update`           ↔ `UserPatch`
    the sweep login leaves behind           ↔ `Label.cleanup`

  A call goes from await to await; anything it awaits may fail it or be its last
  (`giveUp`), which stands for the lockout, the password rules, the permission checks
  and a process that dies. Tokens are drawn at random and named by the call that draws
  them; digests are terms, so no two secrets share one. E-mails come trimmed and in
  lower case.
-/

namespace Drac.Access.AuthSessions

open Runs

/-! ## Rows -/

abbrev UserId := Nat

/-- A secret of `randomBytes`, named by the call that drew it. -/
structure Token where
  maker : Nat
  deriving DecidableEq

inductive TokenHash where
  | sha256 (token : Token)
  deriving DecidableEq

inductive PasswordHash where
  | bcrypt (password : String)
  deriving DecidableEq

structure User where
  id : UserId
  email : String
  passwordHash : PasswordHash
  isActive : Bool
  authVersion : Nat
  resetTokenHash : Option TokenHash
  resetTokenExpiresAt : Option Nat
  deriving DecidableEq

structure AuthSession where
  id : Nat
  userId : UserId
  tokenHash : TokenHash
  authVersion : Nat
  expiresAt : Nat
  revokedAt : Option Nat
  deriving DecidableEq

/-- What a token may be used for. -/
inductive TokenType where
  | access
  | stream
  | play
  | downloadZip
  deriving DecidableEq

/-- What a signed token says; nobody else can sign. -/
structure JwtAuthPayload where
  sub : UserId
  ver : Nat
  type : TokenType
  deriving DecidableEq

def RESET_TOKEN_TTL_MS : Nat := 30 * 60 * 1000

def refreshTokenHash (token : Token) : TokenHash := .sha256 token

def comparePassword (password : String) (hash : PasswordHash) : Bool :=
  hash = .bcrypt password

/-- The `data` of an update of a user row; what is absent stays. -/
structure UserPatch where
  email : Option String := none
  passwordHash : Option PasswordHash := none
  isActive : Option Bool := none
  resetTokenHash : Option (Option TokenHash) := none
  resetTokenExpiresAt : Option (Option Nat) := none
  authVersionIncrement : Nat := 0

def UserPatch.apply (patch : UserPatch) (user : User) : User :=
  { user with
    email := patch.email.getD user.email
    passwordHash := patch.passwordHash.getD user.passwordHash
    isActive := patch.isActive.getD user.isActive
    resetTokenHash := patch.resetTokenHash.getD user.resetTokenHash
    resetTokenExpiresAt := patch.resetTokenExpiresAt.getD user.resetTokenExpiresAt
    authVersion := user.authVersion + patch.authVersionIncrement }

/-- The users, by their key. -/
structure UserTable where
  rows : List User
  ids : (rows.map User.id).Nodup
  deriving DecidableEq

namespace UserTable

def find (table : UserTable) (id : UserId) : Option User :=
  table.rows.find? (fun user => user.id = id)

def update (table : UserTable) (id : UserId) (patch : UserPatch) : UserTable where
  rows := table.rows.map (fun user => if user.id = id then patch.apply user else user)
  ids := by
    have hids : (User.id ∘ fun user => if user.id = id then patch.apply user else user) =
        User.id := by
      funext user
      simp only [Function.comp]
      split <;> rfl
    rw [List.map_map, hids]
    exact table.ids

theorem find_id {table : UserTable} {id : UserId} {user : User}
    (h : table.find id = some user) : user.id = id := by
  simpa using List.find?_some h

theorem find_of_mem {table : UserTable} {user : User} (hmem : user ∈ table.rows) :
    table.find user.id = some user := by
  unfold find
  cases hfind : table.rows.find? (fun row => row.id = user.id) with
  | none =>
    have hnone := List.find?_eq_none.mp hfind user hmem
    simp at hnone
  | some row =>
    have hid : row.id = user.id := by simpa using List.find?_some hfind
    rw [List.inj_on_of_nodup_map table.ids (List.mem_of_find?_eq_some hfind) hmem hid]

theorem find_update (table : UserTable) (id : UserId) (patch : UserPatch) (id' : UserId) :
    (table.update id patch).find id' =
      (table.find id').map (fun user => if user.id = id then patch.apply user else user) := by
  unfold update find
  rw [List.find?_map]
  congr 2
  funext user
  simp only [Function.comp]
  split <;> rfl

end UserTable

/-! ## Calls -/

/-- The calls of the service that touch sessions. -/
inductive Request where
  | login (email password : String)
  | refreshSession (token : Token)
  | logout (userId : UserId)
  | forgotPassword (email : String)
  | resetPassword (token : Token) (newPassword : String)
  | changeOwnPassword (actor : UserId) (currentPassword newPassword : String)
  | update (id : UserId) (email : Option String) (isActive : Option Bool) (password : Option String)
  | softDelete (id : UserId)
  deriving DecidableEq

def Request.patch (i now : Nat) : Request → UserPatch
  | .login _ _ | .refreshSession _ => {}
  | .logout _ => { authVersionIncrement := 1 }
  | .forgotPassword _ =>
    { resetTokenHash := some (some (.sha256 ⟨i⟩))
      resetTokenExpiresAt := some (some (now + RESET_TOKEN_TTL_MS)) }
  | .resetPassword _ newPassword =>
    { passwordHash := some (.bcrypt newPassword)
      resetTokenHash := some none
      resetTokenExpiresAt := some none
      authVersionIncrement := 1 }
  | .changeOwnPassword _ _ newPassword =>
    { passwordHash := some (.bcrypt newPassword), authVersionIncrement := 1 }
  | .update _ email isActive password =>
    { email := email
      isActive := isActive
      passwordHash := password.map .bcrypt
      authVersionIncrement := if password.isSome then 1 else 0 }
  | .softDelete _ => { isActive := some false, authVersionIncrement := 1 }

inductive Phase where
  | arrived
  /-- `bcrypt.compare` of a login. -/
  | comparing (password : String) (user : User)
  | signing (user : User)
  | storing (user : User)
  | answered (user : User)
  | rotating (token : Token) (session : AuthSession) (user : User) (now : Nat)
  | rotated (user : User)
  | unanswered (user : User)
  | revoking (userId : UserId) (now : Nat)
  /-- `bcrypt.compare` of a change of password. -/
  | comparingCurrent (password : String) (user : User)
  | writing (userId : UserId) (now : Nat)
  | done
  | refused (message : String)
  | lost
  deriving DecidableEq

/-- A request and how far it has come. -/
structure Call where
  request : Request
  phase : Phase := .arrived
  deriving DecidableEq

structure System where
  users : UserTable
  sessions : List AuthSession := []
  calls : List Call := []
  /-- The sweeps under way: whose sessions, and the date before which they are expired. -/
  cleanups : List (UserId × Nat) := []
  clock : Nat := 0
  deriving DecidableEq

def System.updateUser (s : System) (id : UserId) (patch : UserPatch) : System :=
  { s with users := s.users.update id patch }

def System.goTo (s : System) (i : Nat) (c : Call) (phase : Phase) : System :=
  { s with calls := s.calls.set i { c with phase := phase } }

/-! ## Steps of a call -/

def credenciaisInvalidas : Phase := .refused "Credenciais inválidas."

def arrive (s : System) (i : Nat) (c : Call) : System :=
  match c.request with
  | .login email password =>
    match s.users.rows.find? (fun user => user.email = email) with
    | some user =>
      if user.isActive then s.goTo i c (.comparing password user)
      else s.goTo i c credenciaisInvalidas
    | none => s.goTo i c credenciaisInvalidas
  | .refreshSession token =>
    match s.sessions.find? (fun session => session.tokenHash = refreshTokenHash token) with
    | none => s.goTo i c (.refused "Sessão expirada. Entre novamente.")
    | some session =>
      match s.users.find session.userId with
      | none => s.goTo i c (.refused "Sessão expirada. Entre novamente.")
      | some user =>
        if session.revokedAt.isSome || session.expiresAt ≤ s.clock || !user.isActive ||
            session.authVersion ≠ user.authVersion then
          s.goTo i c (.refused "Sessão expirada. Entre novamente.")
        else s.goTo i c (.rotating token session user s.clock)
  | .logout userId =>
    match s.users.find userId with
    | some _ =>
      (s.updateUser userId (c.request.patch i s.clock)).goTo i c (.revoking userId s.clock)
    | none => s.goTo i c .lost
  | .forgotPassword email =>
    match s.users.rows.find? (fun user => user.email = email) with
    | some user =>
      if user.isActive then s.goTo i c (.writing user.id s.clock) else s.goTo i c .done
    | none => s.goTo i c .done
  | .resetPassword token _ =>
    match s.users.rows.find? (fun user => user.resetTokenHash = some (refreshTokenHash token)) with
    | some user =>
      match user.resetTokenExpiresAt with
      | some expiresAt =>
        if expiresAt < s.clock then
          s.goTo i c (.refused "Token de redefinição inválido ou expirado.")
        else s.goTo i c (.writing user.id s.clock)
      | none => s.goTo i c (.refused "Token de redefinição inválido ou expirado.")
    | none => s.goTo i c (.refused "Token de redefinição inválido ou expirado.")
  | .changeOwnPassword actor currentPassword _ =>
    match s.users.find actor with
    | some user => s.goTo i c (.comparingCurrent currentPassword user)
    | none => s.goTo i c (.refused "Usuário não encontrado.")
  | .update id _ _ _ | .softDelete id =>
    match s.users.find id with
    | some _ => s.goTo i c (.writing id s.clock)
    | none => s.goTo i c (.refused "Usuário não encontrado.")

def rotatable (token : Token) (session : AuthSession) (user : User) (now : Nat)
    (row : AuthSession) : Bool :=
  row.id = session.id && row.tokenHash = refreshTokenHash token && row.revokedAt.isNone &&
    now < row.expiresAt && row.authVersion = user.authVersion

def rotatedCount (s : System) (token : Token) (session : AuthSession) (user : User)
    (now : Nat) : Nat :=
  (s.sessions.filter (rotatable token session user now)).length

def rotate (inactivityMs : Nat) (s : System) (i : Nat) (c : Call) (token : Token)
    (session : AuthSession) (user : User) (now : Nat) : System :=
  let t := { s with
    sessions := s.sessions.map (fun row =>
      if rotatable token session user now row then
        { row with tokenHash := refreshTokenHash ⟨i⟩, expiresAt := now + inactivityMs }
      else row) }
  if rotatedCount s token session user now = 1 then t.goTo i c (.rotated user)
  else t.goTo i c (.refused "Sessão já renovada ou expirada.")

def createRefreshSession (inactivityMs : Nat) (s : System) (i : Nat) (user : User) : System :=
  { s with
    sessions := s.sessions ++ [{
      id := i, userId := user.id, tokenHash := refreshTokenHash ⟨i⟩
      authVersion := user.authVersion, expiresAt := s.clock + inactivityMs, revokedAt := none }] }

def revokeSessions (s : System) (userId : UserId) (now : Nat) : System :=
  { s with
    sessions := s.sessions.map (fun row =>
      if row.userId = userId ∧ row.revokedAt = none then { row with revokedAt := some now }
      else row) }

def advance (inactivityMs : Nat) (s : System) (i : Nat) (c : Call) : Option System :=
  match c.phase with
  | .arrived => some (arrive s i c)
  | .comparing password user =>
    some (s.goTo i c (if comparePassword password user.passwordHash then .signing user
      else credenciaisInvalidas))
  | .signing user => some (s.goTo i c (.storing user))
  | .storing user =>
    let t := createRefreshSession inactivityMs s i user
    some ({ t with cleanups := t.cleanups ++ [(user.id, s.clock)] }.goTo i c (.answered user))
  | .rotating token session user now =>
    some (rotate inactivityMs s i c token session user now)
  | .rotated user => some (s.goTo i c (.answered user))
  | .revoking userId now => some ((revokeSessions s userId now).goTo i c .done)
  | .comparingCurrent password user =>
    some (s.goTo i c (if comparePassword password user.passwordHash then .writing user.id s.clock
      else .refused "Senha atual incorreta."))
  | .writing userId now =>
    match s.users.find userId with
    | some _ => some ((s.updateUser userId (c.request.patch i now)).goTo i c .done)
    | none => some (s.goTo i c .lost)
  | .answered _ | .unanswered _ | .done | .refused _ | .lost => none

def Phase.giveUp : Phase → Option Phase
  | .arrived | .comparing _ _ | .signing _ | .storing _ | .rotating _ _ _ _ | .revoking _ _
  | .comparingCurrent _ _ | .writing _ _ => some .lost
  | .rotated user => some (.unanswered user)
  | .answered _ | .unanswered _ | .done | .refused _ | .lost => none

/-- One step of the service: a request, an await of a call, a failure, the sweep or the clock. -/
inductive Label where
  | request (r : Request)
  | advance (i : Nat)
  | giveUp (i : Nat)
  | cleanup (k : Nat)
  | setClock (clock : Nat)
  deriving DecidableEq

/-- What a label does, where it can happen. -/
def step (inactivityMs : Nat) (s : System) : Label → Option System
  | .request r => some { s with calls := s.calls ++ [{ request := r }] }
  | .advance i => (s.calls[i]?).bind (advance inactivityMs s i)
  | .giveUp i => (s.calls[i]?).bind (fun c => c.phase.giveUp.map (s.goTo i c))
  | .cleanup k =>
    (s.cleanups[k]?).map (fun sweep => { s with
      cleanups := s.cleanups.eraseIdx k
      sessions := s.sessions.filter (fun row =>
        !(row.userId = sweep.1 && (row.expiresAt < sweep.2 || row.revokedAt.isSome))) })
  | .setClock clock => some { s with clock := clock }

def authMachine (inactivityMs : Nat) : Machine System Label where
  init s := ∃ users, s = { users := users }
  step := step inactivityMs

/-! ## Access tokens -/

structure AuthUser where
  id : UserId
  email : String
  deriving DecidableEq

def sanitizeUser (user : User) : AuthUser := ⟨user.id, user.email⟩

def signAccessToken (user : User) : JwtAuthPayload := ⟨user.id, user.authVersion, .access⟩

def validateAccessPayload (s : System) (payload : JwtAuthPayload) : Except String AuthUser :=
  if payload.type ≠ .access then .error "Token inválido."
  else
    match s.users.find payload.sub with
    | none => .error "Usuário inativo ou inexistente."
    | some user =>
      if !user.isActive || payload.ver ≠ user.authVersion then
        .error "Usuário inativo ou inexistente."
      else .ok (sanitizeUser user)

end Drac.Access.AuthSessions
