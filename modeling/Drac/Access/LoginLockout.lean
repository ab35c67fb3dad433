import Drac.Access.AuthSessions
import Drac.Lib.JsMap
import Drac.Lib.JsText

/-
  The lockout of logins.

  Correspondence (`auth.service.ts` ↔ Lean):
    loginAttempts            ↔ `System.loginAttempts`
    registerFailedAttempt    ↔ the same name
    login                    ↔ `startLogin` up to its first await, then `advance`

  A login goes from await to await: it reads the settings, then the user, and then has the
  password compared. The lock is read before the first of them, the counter is written after
  the last. `System.compared` keeps for whom `bcrypt.compare` was called; nothing reads it.
  Anybody may write the users meanwhile, and time goes on.
-/

namespace Drac.Access.LoginLockout

open AuthSessions (User UserTable PasswordHash)
open Runs

/-- The entry of an e-mail in `loginAttempts`; `lockedUntil` is 0 while it is not locked. -/
structure LoginAttempt where
  count : Nat
  lockedUntil : Nat
  deriving DecidableEq

def LOCKOUT_MS : Nat := 15 * 60 * 1000

/-- Where a login waits. -/
inductive Phase where
  | readingSettings
  | findingUser (maxAttempts : Nat)
  | comparing (maxAttempts : Nat) (user : User)
  | accepted (user : User)
  | refused (message : String)
  | failed
  deriving DecidableEq

structure Call where
  normalizedEmail : String
  password : String
  phase : Phase
  deriving DecidableEq

structure System where
  users : UserTable
  loginAttempts : List (String × LoginAttempt) := []
  calls : List Call := []
  compared : List String := []
  clock : Nat := 0

/-- `toLowerCase`, `bcrypt.compare`, and the stored `maxLoginAttempts` (`none` where it
cannot be read). -/
structure Env where
  toLowerCase : String → String
  compare : String → PasswordHash → Bool
  maxLoginAttempts : Option Nat

def Env.maxAttempts (env : Env) : Nat := env.maxLoginAttempts.getD 5

def registerFailedAttempt (s : System) (email : String) (maxAttempts : Nat) : System :=
  let current := (JsMap.get? s.loginAttempts email).getD ⟨0, 0⟩
  let count := current.count + 1
  let current :=
    if count ≥ maxAttempts then ⟨0, s.clock + LOCKOUT_MS⟩ else ⟨count, current.lockedUntil⟩
  { s with loginAttempts := JsMap.set s.loginAttempts email current }

/-- The lock that is in force, if any. -/
def lockOf (s : System) (email : String) : Option LoginAttempt :=
  (JsMap.get? s.loginAttempts email).filter (fun lock => s.clock < lock.lockedUntil)

def contaBloqueada (remainingMs : Nat) : String :=
  "Conta temporariamente bloqueada por excesso de tentativas. Tente novamente em " ++
    toString ((remainingMs + 59999) / 60000) ++ " min."

/-- `login` up to its first await. -/
def startLogin (env : Env) (s : System) (email password : String) : System :=
  let normalizedEmail := env.toLowerCase (JsText.trim email)
  let phase :=
    match lockOf s normalizedEmail with
    | some lock => .refused (contaBloqueada (lock.lockedUntil - s.clock))
    | none => .readingSettings
  { s with calls := s.calls ++ [⟨normalizedEmail, password, phase⟩] }

def System.goTo (s : System) (i : Nat) (c : Call) (phase : Phase) : System :=
  { s with calls := s.calls.set i { c with phase := phase } }

def credenciaisInvalidas : Phase := .refused "Credenciais inválidas."

def refuse (s : System) (i : Nat) (c : Call) (maxAttempts : Nat) : System :=
  (registerFailedAttempt s c.normalizedEmail maxAttempts).goTo i c credenciaisInvalidas

def activeUser (s : System) (email : String) : Option User :=
  (s.users.rows.find? (fun user => user.email = email)).filter User.isActive

def advance (env : Env) (s : System) (i : Nat) (c : Call) : Option System :=
  match c.phase with
  | .readingSettings => some (s.goTo i c (.findingUser env.maxAttempts))
  | .findingUser maxAttempts =>
    match activeUser s c.normalizedEmail with
    | none => some (refuse s i c maxAttempts)
    | some user =>
      some ({ s with compared := s.compared ++ [c.normalizedEmail] }.goTo i c
        (.comparing maxAttempts user))
  | .comparing maxAttempts user =>
    if env.compare c.password user.passwordHash then
      some ({ s with loginAttempts := JsMap.erase s.loginAttempts c.normalizedEmail }.goTo i c
        (.accepted user))
    else some (refuse s i c maxAttempts)
  | .accepted _ | .refused _ | .failed => none

/-- One step: a login, an await of one, its failure, or a change of the tables or the clock. -/
inductive Label where
  | login (email password : String)
  | advance (i : Nat)
  | fail (i : Nat)
  | setUsers (users : UserTable)
  | tick (ms : Nat)

def step (env : Env) (s : System) : Label → Option System
  | .login email password => some (startLogin env s email password)
  | .advance i => (s.calls[i]?).bind (advance env s i)
  | .fail i =>
    (s.calls[i]?).bind (fun c =>
      match c.phase with
      | .findingUser _ => some (s.goTo i c .failed)
      | _ => none)
  | .setUsers users => some { s with users := users }
  | .tick ms => some { s with clock := s.clock + ms }

/-- The service with no attempts and no calls, over any users. -/
def loginMachine (env : Env) : Machine System Label where
  init s := ∃ users clock, s = { users := users, clock := clock }
  step := step env

end Drac.Access.LoginLockout
