import Drac.Lib.JsMap
import Drac.Lib.Runs
import Drac.Lib.Sha256

/-
  Sessions of the Central: `authenticate`, `getAuthenticatedUser` and the handlers of `server.js`
  that open and close sessions, under the source's names.

  A request loads the whole document, works on what it loaded and saves that. Most wait for one
  another (`runSerialized`), but some are saved over each other, so any number are in flight
  here, each with its document. A request that is refused saves nothing. Whether the limiter
  stops a login is left open. `opened` records the sessions opened, with the password each met.
-/

namespace Drac.Central.Sessions

open JsMap (get?)
open Runs

inductive AccountKind where
  | builtin
  | user
  deriving DecidableEq

/-- What a session is bound to: the digest of the built-in account, or a user's count. -/
inductive AuthVersion where
  | digest (hash : String)
  | count (n : Nat)
  deriving DecidableEq

structure User where
  name : String
  passwordHash : String
  createdAt : Nat
  createdBy : String
  authVersion : Option Nat

def User.version (u : User) : Nat := u.authVersion.getD 1

structure Session where
  email : String
  accountKind : AccountKind
  authVersion : AuthVersion
  createdAt : Nat
  lastSeenAt : Nat
  expiresAt : Nat

/-- A session opened, with the hash its password was compared to. -/
structure Opened where
  key : String
  email : String
  accountKind : AccountKind
  passwordHash : Option String
  openedAt : Nat

/-- What a request loads and saves. -/
structure Document where
  users : List (String × User) := []
  sessions : List (String × Session) := []

/-- What a request shows of who makes it. -/
structure Caller where
  authorization : String
  /-- The cookie `drac_central_session`, empty where there is none. -/
  cookie : String

/-- A request; `blocked` is the answer of the limiter, `hash` what `hashPassword` makes. -/
inductive Request where
  | login (email password token : String) (blocked : Bool)
  | logout (caller : Caller)
  | visit (caller : Caller)
  | upsertUser (caller : Caller) (email name password hash : String)
  | deleteUser (caller : Caller) (email : String)

/-- The process: the document it has stored, and those its requests have loaded. -/
structure System where
  adminPasswordHash : String
  stored : Document := {}
  loaded : List (Request × Document) := []
  clock : Nat := 0
  opened : List Opened := []

/-- The values the process starts with and the functions it calls. -/
structure Env where
  adminToken : String
  adminEmail : String
  sessionTtlMs : Nat
  trim : String → String
  toLowerCase : String → String
  sha256 : String → String
  verifyPassword : String → String → Bool
  validEmail : String → Bool
  isStrongPassword : String → Bool

/-- One step: a request loads, one saves, time passes, or the server restarts. -/
inductive Label where
  | load (request : Request)
  | save (i : Nat)
  | wait (ms : Nat)
  | restart (adminPasswordHash : String)

variable (env : Env)

/-- `a || b`. -/
def orText (a b : String) : String := if a = "" then b else a

def normalize (email : String) : String := env.toLowerCase (env.trim email)

/-! ## The document -/

def cleanExpiredSessions (s : System) (db : Document) : Document :=
  { db with sessions := db.sessions.filter (fun e => s.clock < e.2.expiresAt) }

def revokeUserSessions (db : Document) (email : String) : Document :=
  { db with sessions := db.sessions.filter (fun e => e.2.email ≠ email) }

/-- What `authenticate` answers of an account. -/
structure Account where
  email : String
  accountKind : AccountKind
  authVersion : AuthVersion

def authenticate (s : System) (db : Document) (email password : String) : Option Account :=
  if s.adminPasswordHash ≠ "" ∧ email = env.adminEmail ∧
      env.verifyPassword password s.adminPasswordHash then
    some ⟨env.adminEmail, .builtin, .digest (env.sha256 s.adminPasswordHash)⟩
  else (get? db.users email).bind fun u =>
    if env.verifyPassword password u.passwordHash then some ⟨email, .user, .count u.version⟩
    else none

/-- Of the account's present password. -/
def passwordHashOf (s : System) (db : Document) (kind : AccountKind) (email : String) :
    Option String :=
  if kind = .builtin then some s.adminPasswordHash
  else (get? db.users email).map (·.passwordHash)

/-- The session is of the account's present version. -/
def isCurrent (s : System) (db : Document) (session : Session) : Bool :=
  if session.accountKind = .builtin then
    session.email = env.adminEmail && s.adminPasswordHash ≠ "" &&
      session.authVersion = .digest (env.sha256 s.adminPasswordHash)
  else (get? db.users session.email).any (fun u => session.authVersion = .count u.version)

def isBearer (caller : Caller) : Bool :=
  env.adminToken ≠ "" && caller.authorization = "Bearer " ++ env.adminToken

/-- Who calls, and the document after the look. -/
def getAuthenticatedUser (s : System) (db : Document) (caller : Caller) :
    Option String × Document :=
  if isBearer env caller then (some "api-token", db)
  else
    let db := cleanExpiredSessions s db
    if caller.cookie = "" then (none, db)
    else
      let key := env.sha256 caller.cookie
      match get? db.sessions key with
      | none => (none, db)
      | some session =>
        if s.clock < session.expiresAt ∧ isCurrent env s db session then
          (some session.email, { db with
            sessions := JsMap.set db.sessions key { session with lastSeenAt := s.clock } })
        else (none, { db with sessions := JsMap.erase db.sessions key })

/-! ## The handlers -/

def openSession (s : System) (db : Document) (account : Account) (token : String) : System :=
  { s with
    stored := { db with
      sessions := JsMap.set db.sessions (env.sha256 token)
        { email := account.email
          accountKind := account.accountKind
          authVersion := account.authVersion
          createdAt := s.clock
          lastSeenAt := s.clock
          expiresAt := s.clock + env.sessionTtlMs } }
    opened := ⟨env.sha256 token, account.email, account.accountKind,
      passwordHashOf s db account.accountKind account.email, s.clock⟩ :: s.opened }

def handleLogin (s : System) (db : Document) (email password token : String) (blocked : Bool) :
    System :=
  let db := cleanExpiredSessions s db
  if blocked then { s with stored := db }
  else
    match authenticate env s db (normalize env email) password with
    | none => { s with stored := db }
    | some account => openSession env s db account token

def handleLogout (s : System) (db : Document) (caller : Caller) : Document :=
  let db := (getAuthenticatedUser env s db caller).2
  if caller.cookie = "" then db
  else { db with sessions := JsMap.erase db.sessions (env.sha256 caller.cookie) }

/-- `none` where the request is refused. -/
def handleUpsertUser (s : System) (db : Document) (actor email name password hash : String) :
    Option Document :=
  let email := normalize env email
  let name := env.trim name
  let existing := get? db.users email
  if !(env.validEmail email) || email = env.adminEmail ||
      (password ≠ "" && !(env.isStrongPassword password)) ||
      (existing.isNone && password = "") then none
  else
    let user : User :=
      { name := orText name (orText (existing.elim "" (·.name)) email)
        passwordHash := if password ≠ "" then hash else existing.elim "" (·.passwordHash)
        createdAt := existing.elim s.clock (·.createdAt)
        createdBy := orText (existing.elim "" (·.createdBy)) actor
        authVersion := some
          (existing.elim 1 (fun u => if password ≠ "" then u.version + 1 else u.version)) }
    let db := { db with users := JsMap.set db.users email user }
    some (if password ≠ "" then revokeUserSessions db email else db)

def handleDeleteUser (db : Document) (actor emailRaw : String) : Option Document :=
  let email := env.toLowerCase emailRaw
  if email = env.adminEmail ∨ email = actor ∨ (get? db.users email).isNone then none
  else some (revokeUserSessions { db with users := JsMap.erase db.users email } email)

/-- A route behind the check of its caller: a refusal leaves the stored document alone. -/
def admin (s : System) (db : Document) (caller : Caller)
    (handler : Document → String → Option Document) : System :=
  let looked := getAuthenticatedUser env s db caller
  { s with stored := looked.1.elim looked.2 (fun actor => (handler looked.2 actor).getD s.stored) }

/-- A request on the document it has loaded, up to its saving. -/
def carryOut (s : System) (db : Document) : Request → System
  | .login email password token blocked => handleLogin env s db email password token blocked
  | .logout caller => { s with stored := handleLogout env s db caller }
  | .visit caller => { s with stored := (getAuthenticatedUser env s db caller).2 }
  | .upsertUser caller email name password hash => admin env s db caller
      (fun db actor => handleUpsertUser env s db actor email name password hash)
  | .deleteUser caller email => admin env s db caller
      (fun db actor => handleDeleteUser env db actor email)

def step (s : System) : Label → Option System
  | .load request => some { s with loaded := s.loaded ++ [(request, s.stored)] }
  | .save i => (s.loaded[i]?).map fun e =>
      carryOut env { s with loaded := s.loaded.eraseIdx i } e.2 e.1
  | .wait ms => some { s with clock := s.clock + ms }
  | .restart adminPasswordHash => some { s with adminPasswordHash := adminPasswordHash, loaded := [] }

/-- The server with no sessions, over any accounts. -/
def central : Machine System Label where
  init s := s.stored.sessions = [] ∧ s.loaded = []
  step := step env

/-! ## Sessions -/

variable {env} {s t : System} {db db' : Document} {a : Label}

/-- Sessions that were there before, some of them seen since. -/
def Kept (new old : List (String × Session)) : Prop :=
  ∀ e ∈ new, ∃ e' ∈ old, ∃ seen, e = (e'.1, { e'.2 with lastSeenAt := seen })

theorem Kept.of_subset {new old : List (String × Session)} (h : new ⊆ old) : Kept new old :=
  fun e he => ⟨e, h he, e.2.lastSeenAt, rfl⟩

theorem Kept.refl (l : List (String × Session)) : Kept l l := .of_subset (List.Subset.refl l)

theorem Kept.trans {l₁ l₂ l₃ : List (String × Session)} (h : Kept l₁ l₂) (k : Kept l₂ l₃) :
    Kept l₁ l₃ := by
  intro e he
  obtain ⟨e', he', seen, rfl⟩ := h e he
  obtain ⟨e'', he'', seen', rfl⟩ := k e' he'
  exact ⟨e'', he'', seen, rfl⟩

theorem Kept.filter (p : String × Session → Bool) (l : List (String × Session)) :
    Kept (l.filter p) l := .of_subset List.filter_sublist.subset

theorem clean_kept (s : System) (db : Document) :
    Kept (cleanExpiredSessions s db).sessions db.sessions := .filter _ _

theorem getAuthenticatedUser_eq (env : Env) (s : System) (db : Document) (caller : Caller) :
    ∃ sessions, (getAuthenticatedUser env s db caller).2 = { db with sessions := sessions } ∧
      Kept sessions db.sessions := by
  unfold getAuthenticatedUser
  dsimp only
  split
  · exact ⟨db.sessions, rfl, .refl _⟩
  split
  · exact ⟨_, rfl, clean_kept s db⟩
  split
  · exact ⟨_, rfl, clean_kept s db⟩
  next session hget =>
  split
  · refine ⟨_, rfl, Kept.trans (fun e he => ?_) (clean_kept s db)⟩
    rcases JsMap.mem_set he with rfl | hold
    · exact ⟨_, JsMap.get?_mem hget, s.clock, rfl⟩
    · exact ⟨e, hold, e.2.lastSeenAt, rfl⟩
  · exact ⟨_, rfl, (Kept.filter _ _).trans (clean_kept s db)⟩

theorem getAuthenticatedUser_some {caller : Caller} {email : String}
    (hbearer : isBearer env caller = false)
    (h : (getAuthenticatedUser env s db caller).1 = some email) :
    ∃ session, (env.sha256 caller.cookie, session) ∈ db.sessions ∧ session.email = email ∧
      s.clock < session.expiresAt ∧ isCurrent env s db session = true := by
  rw [getAuthenticatedUser, if_neg (by simp [hbearer])] at h
  dsimp only at h
  split at h
  · cases h
  split at h
  · cases h
  next session hget =>
  split at h
  · next hok =>
    exact ⟨session, (List.mem_filter.mp (JsMap.get?_mem hget)).1, Option.some.inj h, hok⟩
  · cases h

/-- What a session of a document says of the run so far. -/
structure Backed (env : Env) (s : System) (db : Document) (e : String × Session) (o : Opened) :
    Prop where
  opened : o ∈ s.opened
  key : o.key = e.1
  email : o.email = e.2.email
  kind : o.accountKind = e.2.accountKind
  since : o.openedAt ≤ s.clock
  until_ : e.2.expiresAt = o.openedAt + env.sessionTtlMs
  builtin : o.accountKind = .builtin → ∃ hash, o.passwordHash = some hash ∧
    e.2.authVersion = .digest (env.sha256 hash)
  user : o.accountKind = .user → ∃ u, get? db.users o.email = some u ∧
    o.passwordHash = some u.passwordHash ∧ e.2.authVersion = .count u.version

/-- Every session of the document has an origin that backs it. -/
def Sound (env : Env) (s : System) (db : Document) : Prop :=
  ∀ e ∈ db.sessions, ∃ o, Backed env s db e o

theorem Sound.keep (h : Sound env s db) (hkept : Kept db'.sessions db.sessions)
    (hopened : s.opened ⊆ t.opened) (hclock : s.clock ≤ t.clock)
    (husers : ∀ e ∈ db'.sessions, ∀ u, get? db.users e.2.email = some u → ∃ v,
      get? db'.users e.2.email = some v ∧ v.passwordHash = u.passwordHash ∧
        v.version = u.version) : Sound env t db' := by
  intro e he
  obtain ⟨e', he', seen, rfl⟩ := hkept e he
  obtain ⟨o, ho⟩ := h e' he'
  refine ⟨o, hopened ho.opened, ho.key, ho.email, ho.kind, Nat.le_trans ho.since hclock, ho.until_,
    ho.builtin, fun hkind => ?_⟩
  obtain ⟨u, hu, hhash, hversion⟩ := ho.user hkind
  obtain ⟨v, hv, hsame, hcount⟩ := husers _ he u (ho.email ▸ hu)
  exact ⟨v, ho.email ▸ hv, hsame ▸ hhash, hcount ▸ hversion⟩

theorem Sound.later (h : Sound env s db) (hopened : s.opened ⊆ t.opened)
    (hclock : s.clock ≤ t.clock) : Sound env t db :=
  h.keep (.refl _) hopened hclock (fun _ _ u hu => ⟨u, hu, rfl, rfl⟩)

theorem Sound.fewer (h : Sound env s db) {sessions : List (String × Session)}
    (hkept : Kept sessions db.sessions) : Sound env s { db with sessions := sessions } :=
  h.keep hkept (List.Subset.refl _) (Nat.le_refl _) (fun _ _ u hu => ⟨u, hu, rfl, rfl⟩)

theorem Sound.look (h : Sound env s db) (caller : Caller) :
    Sound env s (getAuthenticatedUser env s db caller).2 := by
  obtain ⟨sessions, heq, hkept⟩ := getAuthenticatedUser_eq env s db caller
  rw [heq]
  exact h.fewer hkept

theorem Sound.upsert (hs : Sound env s db) {actor email name password hash : String}
    (h : handleUpsertUser env s db actor email name password hash = some db') :
    Sound env s db' := by
  unfold handleUpsertUser at h
  dsimp only at h
  split at h
  · cases h
  by_cases hpassword : password = ""
  · simp only [hpassword, ne_eq, not_true_eq_false, if_false, Option.some.injEq] at h
    subst h
    refine hs.keep (.refl _) (List.Subset.refl _) (Nat.le_refl _) ?_
    intro e _ u hu
    rw [JsMap.get?_set]
    split
    · next heq => exact ⟨_, rfl, by simp [heq, hu], by simp [heq, hu, User.version]⟩
    · exact ⟨u, hu, rfl, rfl⟩
  · simp only [hpassword, ne_eq, not_false_eq_true, if_true, Option.some.injEq] at h
    subst h
    refine hs.keep (.filter _ _) (List.Subset.refl _) (Nat.le_refl _) ?_
    intro e he u hu
    have hother : e.2.email ≠ normalize env email := by simpa using (List.mem_filter.mp he).2
    exact ⟨u, by rw [← hu]; exact (JsMap.get?_set _ _ _ _).trans (if_neg hother.symm), rfl, rfl⟩

theorem Sound.delete (hs : Sound env s db) {actor emailRaw : String}
    (h : handleDeleteUser env db actor emailRaw = some db') : Sound env s db' := by
  unfold handleDeleteUser at h
  dsimp only at h
  split at h
  · cases h
  cases h
  refine hs.keep (.filter _ _) (List.Subset.refl _) (Nat.le_refl _) ?_
  intro e he u hu
  have hother : e.2.email ≠ env.toLowerCase emailRaw := by simpa using (List.mem_filter.mp he).2
  exact ⟨u, by rw [← hu]; exact (JsMap.get?_erase _ _ _).trans (if_neg hother.symm), rfl, rfl⟩

theorem authenticate_some {email password : String} {account : Account}
    (h : authenticate env s db email password = some account) :
    (account.accountKind = .builtin ∧
        account.authVersion = .digest (env.sha256 s.adminPasswordHash)) ∨
      (account.accountKind = .user ∧ ∃ u, get? db.users account.email = some u ∧
        account.authVersion = .count u.version) := by
  unfold authenticate at h
  split at h
  · cases h
    exact .inl ⟨rfl, rfl⟩
  · obtain ⟨u, hu, h⟩ := Option.bind_eq_some_iff.mp h
    split at h
    · cases h
      exact .inr ⟨rfl, u, hu, rfl⟩
    · cases h

theorem Sound.openSession (h : Sound env s db) {email password : String} {account : Account}
    (hauth : authenticate env s db email password = some account) (token : String) :
    Sound env (openSession env s db account token) (openSession env s db account token).stored := by
  intro e he
  rcases JsMap.mem_set he with rfl | hold
  · refine ⟨_, List.mem_cons_self, rfl, rfl, rfl, Nat.le_refl _, rfl, ?_, ?_⟩
    · intro hkind
      rcases authenticate_some hauth with ⟨-, hversion⟩ | ⟨huser, -⟩
      · exact ⟨s.adminPasswordHash, if_pos hkind, hversion⟩
      · rw [huser] at hkind
        cases hkind
    · intro hkind
      rcases authenticate_some hauth with ⟨hbuiltin, -⟩ | ⟨-, u, hu, hversion⟩
      · rw [hbuiltin] at hkind
        cases hkind
      · refine ⟨u, hu, ?_, hversion⟩
        dsimp only at hkind
        simp [passwordHashOf, hkind, hu]
  · obtain ⟨o, ho⟩ := h e hold
    exact ⟨o, { ho with opened := List.mem_cons_of_mem _ ho.opened }⟩

/-- Every document of the process is sound: the one stored, and those loaded. -/
def AllSound (env : Env) (s : System) : Prop :=
  Sound env s s.stored ∧ ∀ e ∈ s.loaded, Sound env s e.2

theorem AllSound.later (h : AllSound env s) (hopened : s.opened ⊆ t.opened)
    (hclock : s.clock ≤ t.clock) (hstored : t.stored = s.stored)
    (hloaded : ∀ e ∈ t.loaded, e ∈ s.loaded ∨ e.2 = s.stored) : AllSound env t := by
  refine ⟨hstored ▸ h.1.later hopened hclock, ?_⟩
  intro e he
  obtain hold | hnew := hloaded e he
  · exact (h.2 e hold).later hopened hclock
  · rw [hnew]
    exact h.1.later hopened hclock

theorem AllSound.store (h : AllSound env s) (hdb : Sound env s db) :
    AllSound env { s with stored := db } :=
  ⟨hdb.later (List.Subset.refl _) (Nat.le_refl _),
    fun e he => (h.2 e he).later (List.Subset.refl _) (Nat.le_refl _)⟩

theorem AllSound.admin (h : AllSound env s) (hdb : Sound env s db) {caller : Caller}
    {handler : Document → String → Option Document}
    (hhandler : ∀ actor db', handler (getAuthenticatedUser env s db caller).2 actor = some db' →
      Sound env s db') : AllSound env (admin env s db caller handler) := by
  refine h.store ?_
  cases (getAuthenticatedUser env s db caller).1 with
  | none => exact hdb.look caller
  | some actor =>
    rw [Option.elim_some]
    cases hh : handler (getAuthenticatedUser env s db caller).2 actor with
    | none => exact h.1
    | some db' => exact hhandler actor db' hh

theorem AllSound.carryOut (h : AllSound env s) (hdb : Sound env s db) (request : Request) :
    AllSound env (carryOut env s db request) := by
  cases request with
  | login email password token blocked =>
    have hclean : Sound env s (cleanExpiredSessions s db) := hdb.fewer (clean_kept s db)
    unfold Sessions.carryOut handleLogin
    dsimp only
    split
    · exact h.store hclean
    · split
      · exact h.store hclean
      · next account hauth =>
        exact ⟨hclean.openSession hauth token, fun e he =>
          (h.2 e he).later (List.subset_cons_self _ _) (Nat.le_refl _)⟩
  | logout caller =>
    refine h.store ?_
    unfold handleLogout
    dsimp only
    split
    · exact hdb.look caller
    · exact (hdb.look caller).fewer (.filter _ _)
  | visit caller => exact h.store (hdb.look caller)
  | upsertUser caller email name password hash =>
    exact h.admin hdb fun _ _ hh => (hdb.look caller).upsert hh
  | deleteUser caller email => exact h.admin hdb fun _ _ hh => (hdb.look caller).delete hh

theorem allSound_step (h : AllSound env s) (hstep : step env s a = some t) : AllSound env t := by
  cases a with
  | load request =>
    cases hstep
    refine h.later (List.Subset.refl _) (Nat.le_refl _) rfl ?_
    intro e he
    exact (List.mem_append.mp he).imp id fun hnew => congrArg Prod.snd (List.mem_singleton.mp hnew)
  | save i =>
    obtain ⟨e, he, rfl⟩ := Option.map_eq_some_iff.mp hstep
    have hrest : AllSound env { s with loaded := s.loaded.eraseIdx i } :=
      h.later (List.Subset.refl _) (Nat.le_refl _) rfl fun _ he => .inl (List.mem_of_mem_eraseIdx he)
    have hdb := h.2 e (List.mem_of_getElem? he)
    exact hrest.carryOut (hdb.later (List.Subset.refl _) (Nat.le_refl _)) e.1
  | wait ms =>
    cases hstep
    exact h.later (List.Subset.refl _) (Nat.le_add_right _ _) rfl fun _ he => .inl he
  | restart hash =>
    cases hstep
    exact h.later (List.Subset.refl _) (Nat.le_refl _) rfl (by simp)

/-- **Whoever is known by a session has logged in** no longer ago than a session lasts, with the
password that their account has now: by the document a request has loaded, or the one stored. No
password hash of the run shares its digest with the administrator's. -/
theorem accepted_current (h : Reach (central env) Always s)
    (hsha : ∀ o ∈ s.opened, ∀ hash, o.passwordHash = some hash →
      env.sha256 hash = env.sha256 s.adminPasswordHash → hash = s.adminPasswordHash)
    (hdb : db = s.stored ∨ ∃ e ∈ s.loaded, db = e.2) {caller : Caller}
    (hbearer : isBearer env caller = false) {email : String}
    (hknown : (getAuthenticatedUser env s db caller).1 = some email) :
    ∃ o ∈ s.opened, o.key = env.sha256 caller.cookie ∧ o.email = email ∧ o.openedAt ≤ s.clock ∧
      s.clock < o.openedAt + env.sessionTtlMs ∧
      o.passwordHash = passwordHashOf s db o.accountKind email := by
  have hall : AllSound env s := by
    refine h.invariant (I := AllSound env) ?_ (fun _ _ _ hs _ hstep => allSound_step hs hstep)
    rintro r ⟨hsessions, hloaded⟩
    exact ⟨by simp [Sound, hsessions], by simp [hloaded]⟩
  have hsound : Sound env s db := by
    obtain rfl | ⟨e, he, rfl⟩ := hdb
    · exact hall.1
    · exact hall.2 e he
  obtain ⟨session, hmem, rfl, hlasts, hcurrent⟩ := getAuthenticatedUser_some hbearer hknown
  obtain ⟨o, ho⟩ := hsound _ hmem
  refine ⟨o, ho.opened, ho.key, ho.email, ho.since, ho.until_ ▸ hlasts, ?_⟩
  have hkind : o.accountKind = session.accountKind := ho.kind
  unfold isCurrent at hcurrent
  unfold passwordHashOf
  rw [← hkind] at hcurrent
  cases hk : o.accountKind with
  | builtin =>
    obtain ⟨hash, hhash, hversion⟩ := ho.builtin hk
    simp only [hk, if_true, Bool.and_eq_true, decide_eq_true_eq] at hcurrent
    rw [hversion, AuthVersion.digest.injEq] at hcurrent
    rw [if_pos rfl, hhash, hsha o ho.opened hash hhash hcurrent.2]
  | user =>
    obtain ⟨u, hu, hhash, -⟩ := ho.user hk
    rw [if_neg (by simp), hhash, ← ho.email, hu, Option.map_some]

def sha256Text (text : String) : String :=
  String.ofList (Sha256.hexDigest (Sha256.utf8 text.toList))

def oneAdmin : Env where
  adminToken := ""
  adminEmail := "ana@drac"
  sessionTtlMs := 1000
  trim := id
  toLowerCase := id
  sha256 := sha256Text
  verifyPassword := fun password hash => password = hash
  validEmail := fun _ => true
  isStrongPassword := fun _ => true

theorem accepted_current_admin : ∃ s, (central oneAdmin).run anyStep
    { adminPasswordHash := "segredo" }
    [.load (.login "ana@drac" "segredo" "t1" false), .save 0, .wait 5] = some s ∧
      ∃ o ∈ s.opened, o.key = sha256Text "t1" ∧ s.clock < o.openedAt + 1000 := by
  have hrun : ((central oneAdmin).run anyStep { adminPasswordHash := "segredo" }
      [.load (.login "ana@drac" "segredo" "t1" false), .save 0, .wait 5]).map
        (fun s => ((getAuthenticatedUser oneAdmin s s.stored ⟨"", "t1"⟩).1, s.adminPasswordHash,
          s.opened.map (·.passwordHash))) =
      some (some "ana@drac", "segredo", [some "segredo"]) := by
    decide +kernel
  obtain ⟨s, hs, hstate⟩ := Option.map_eq_some_iff.mp hrun
  simp only [Prod.mk.injEq] at hstate
  obtain ⟨hknown, hadmin, hopened⟩ := hstate
  have hreach : Reach (central oneAdmin) Always s :=
    ⟨_, ⟨rfl, rfl⟩, path_of_run (fun _ _ _ => trivial) _ hs⟩
  have hsha : ∀ o ∈ s.opened, ∀ hash, o.passwordHash = some hash →
      oneAdmin.sha256 hash = oneAdmin.sha256 s.adminPasswordHash → hash = s.adminPasswordHash := by
    intro o ho hash hhash _
    have hmem := List.mem_map_of_mem (f := Opened.passwordHash) ho
    rw [hopened, hhash, List.mem_singleton, Option.some.injEq] at hmem
    rw [hmem, hadmin]
  obtain ⟨o, ho, hkey, -, -, hlasts, -⟩ :=
    accepted_current hreach hsha (.inl rfl) rfl hknown
  exact ⟨s, hs, o, ho, hkey, hlasts⟩

end Drac.Central.Sessions
