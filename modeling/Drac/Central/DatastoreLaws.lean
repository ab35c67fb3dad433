import Drac.Central.Datastore

/-
  What is read after a write.

  After `save` a `load` returns, under each key, what was saved, as the mode keeps it: the
  file without installer tokens, the tables with the key as `id`. In dual mode the legacy
  file still fills the keys that what was saved has not; so there, and only there, what a
  save removed comes back, when the file has it (`load_after_save`, `Returns.removed_gone`).

  A user key is trimmed and in lower case; `writeAll` writes it so, and removes the
  rows under any other key.
-/

namespace Drac.Central.Datastore

open JsObject JsonValue

variable {V : Type} [JsonValue V] {locale : Locale}

/-! ## The law -/

def asStored (mode : Mode) (id : String) (item : Record V) : Record V :=
  if mode = .json then dropToken item else installationToRow id item

/-- What the legacy file adds. -/
def fallback {α : Type} (mode : Mode) (legacy : Option α) : Option α :=
  if mode = .dual then legacy else none

/-- The document read is the one saved, key by key. -/
structure Returns (mode : Mode) (legacy saved loaded : Db V) : Prop where
  installations : ∀ k, loaded.installations.get? k =
    ((saved.installations.get? k).map (asStored mode k)).or
      (fallback mode ((legacy.installations.get? k).map dropToken))
  users : ∀ k, loaded.users.get? k =
    (saved.users.get? k).or (fallback mode (legacy.users.get? k))
  sessions : ∀ k, loaded.sessions.get? k =
    (saved.sessions.get? k).or (fallback mode (legacy.sessions.get? k))
  auditEvents : ∀ k, (byId loaded.auditEvents).get? k =
    ((byId saved.auditEvents).get? k).or (fallback mode ((byId legacy.auditEvents).get? k))

/-! ## The file -/

omit [JsonValue V] in
theorem dropToken_dropToken (item : Record V) : dropToken (dropToken item) = dropToken item := by
  unfold dropToken JsMap.erase
  rw [List.filter_filter]
  simp only [Bool.and_self]

omit [JsonValue V] in
theorem get?_copyEntries (f : String → Record V → Record V) (m : Collection V) (k : String) :
    (copyEntries f m).get? k = (m.get? k).map (f k) :=
  Obj.get?_copy f m k

omit [JsonValue V] in
theorem get?_normalizeDb (db : Db V) (k : String) :
    (normalizeDb db).installations.get? k = (db.installations.get? k).map dropToken :=
  get?_copyEntries _ _ k

/-! ## The tables -/

omit [JsonValue V] in
theorem get?_writeCollection (rowKey : String → String)
    (toRow : String → Record V → Record V) (source table : Collection V)
    (hkeys : ∀ k ∈ source.keys, rowKey k = k) (k : String) :
    (writeCollection rowKey toRow source table).get? k = (source.get? k).map (toRow k) := by
  have hcopy : (Obj.putAll (fun e : String × Record V => some (rowKey e.1))
      (fun e => toRow e.1 e.2) source.entries Obj.empty).get? k =
      (source.get? k).map (toRow k) := by
    rw [Obj.putAll_congr (fun e => some e.1) (fun e => toRow e.1 e.2)]
    · exact Obj.get?_copy toRow source k
    · intro e he
      exact ⟨congrArg some (hkeys e.1 (List.mem_map_of_mem he)), rfl⟩
  unfold writeCollection
  rw [Obj.get?_retain, Obj.get?_putAll, hcopy]
  by_cases hk : k ∈ source.keys
  · obtain ⟨item, hitem⟩ := Option.isSome_iff_exists.mp (Obj.mem_keys.mp hk)
    rw [if_pos (decide_eq_true hk), hitem]
    rfl
  · have hnone : source.get? k = none := by
      rw [← Option.not_isSome_iff_eq_none]
      exact fun hsome => hk (Obj.mem_keys.mpr hsome)
    rw [if_neg (by simpa using hk), hnone]
    rfl

theorem get?_writeAuditEvents (events : List (Record V)) (table : Collection V) (k : String) :
    (writeAuditEvents events table).get? k = (byId events).get? k := by
  unfold writeAuditEvents byId
  rw [Obj.get?_retain, Obj.get?_putAll]
  by_cases hk : k ∈ events.filterMap eventKey
  · rw [if_pos (decide_eq_true hk)]
    cases hget : (Obj.putAll eventKey id events Obj.empty).get? k with
    | some v => rfl
    | none =>
      obtain ⟨ev, hev, hkey⟩ := List.mem_filterMap.mp hk
      exact absurd hkey (Obj.putAll_eq_none.mp hget ev hev)
  · rw [if_neg (by simpa using hk)]
    symm
    apply Obj.putAll_eq_none.mpr
    intro ev hev hkey
    exact hk (List.mem_filterMap.mpr ⟨ev, hev, hkey⟩)

theorem eventKey_of_byId {events : List (Record V)} {k : String} {ev : Record V}
    (h : (byId events).get? k = some ev) : eventKey ev = some k := by
  obtain ⟨ev', -, hkey, rfl⟩ := Obj.putAll_some h
  exact hkey

theorem field?_installationToRow (id : String) (item : Record V) :
    field? (installationToRow id item) "id" = some (text id) := by
  unfold field? installationToRow
  rw [JsMap.get?_set, if_pos rfl, Option.bind_some, text_present, if_neg Bool.false_ne_true]

theorem rowToInstallation_installationToRow (id : String) (item : Record V) :
    rowToInstallation (installationToRow id item) = (id, installationToRow id item) := by
  unfold rowToInstallation
  rw [field?_installationToRow]
  simp only [toText_text]

theorem readAll_writeAll (db : Db V) (pg : Postgres V)
    (husers : ∀ email ∈ db.users.keys, userKey locale email = email) :
    (∀ k, (readAll (writeAll locale db pg)).installations.get? k =
      (db.installations.get? k).map (installationToRow k)) ∧
    (∀ k, (readAll (writeAll locale db pg)).users.get? k = db.users.get? k) ∧
    (∀ k, (readAll (writeAll locale db pg)).sessions.get? k = db.sessions.get? k) ∧
    (∀ k, (byId (readAll (writeAll locale db pg)).auditEvents).get? k =
      (byId db.auditEvents).get? k) := by
  refine ⟨?_, ?_, ?_, ?_⟩
  · intro k
    have htable := get?_writeCollection id installationToRow db.installations pg.installations
      (fun _ _ => rfl)
    rw [← htable k]
    unfold readAll writeAll
    rw [Obj.putAll_congr (fun e => some e.1) (fun e => e.2)]
    · rw [Obj.get?_copy (fun _ v => v), Option.map_id']
    · intro e he
      have hget := Obj.get?_eq_some.mpr he
      rw [htable] at hget
      obtain ⟨item, -, heq⟩ := Option.map_eq_some_iff.mp hget
      rw [← heq, rowToInstallation_installationToRow]
      exact ⟨rfl, rfl⟩
  · intro k
    show (copyEntries (fun _ => id) (writeCollection _ _ _ _)).get? k = _
    rw [get?_copyEntries, get?_writeCollection (userKey locale) _ _ _ husers]
    simp
  · intro k
    show (copyEntries (fun _ => id) (writeCollection _ _ _ _)).get? k = _
    rw [get?_copyEntries, get?_writeCollection id _ _ _ (fun _ _ => rfl)]
    simp
  · intro k
    rw [← get?_writeAuditEvents db.auditEvents pg.auditEvents]
    refine Obj.get?_rebuild (List.Perm.refl _) ?_ k
    intro e he
    have hget := Obj.get?_eq_some.mpr he
    rw [show (writeAll locale db pg).auditEvents =
      writeAuditEvents db.auditEvents pg.auditEvents from rfl, get?_writeAuditEvents] at hget
    exact eventKey_of_byId hget

/-! ## Reading both -/

omit [JsonValue V] in
theorem get?_mergeMap (pgMap legacyMap : Collection V) (k : String) :
    (mergeMap pgMap legacyMap).get? k = (pgMap.get? k).or (legacyMap.get? k) := by
  unfold mergeMap
  rw [Obj.get?_putAll, get?_copyEntries, Obj.get?_copy (fun _ v => v), Option.map_id',
    Option.map_id, id_eq]

theorem byId_mergeAuditEvents (pgEvents legacyEvents : List (Record V)) (k : String) :
    (byId (mergeAuditEvents locale pgEvents legacyEvents)).get? k =
      ((byId pgEvents).get? k).or ((byId legacyEvents).get? k) := by
  have hmerged : ∀ k, (Obj.putAll eventKey id pgEvents (byId legacyEvents)).get? k =
      ((byId pgEvents).get? k).or ((byId legacyEvents).get? k) :=
    Obj.get?_putAll eventKey id pgEvents (byId legacyEvents)
  rw [← hmerged k]
  refine Obj.get?_rebuild (List.mergeSort_perm _ _) ?_ k
  intro e he
  have hget := Obj.get?_eq_some.mpr he
  rw [hmerged] at hget
  cases hpg : (byId pgEvents).get? e.1 with
  | some ev =>
    rw [hpg, Option.some_or, Option.some.injEq] at hget
    exact eventKey_of_byId (hget ▸ hpg)
  | none =>
    rw [hpg, Option.none_or] at hget
    exact eventKey_of_byId hget

/-! ## Chains of calls -/

/-- Reading sets nothing up any more. -/
def Ready (mode : Mode) (s : Store V) : Prop := mode = .json ∨ s.initialized = true

theorem ensureInit_ready (mode : Mode) (s : Store V) : Ready mode (ensureInit locale mode s) := by
  unfold ensureInit
  split
  · next h => exact h
  · exact .inr rfl

theorem ensureInit_file (mode : Mode) (s : Store V) :
    (ensureInit locale mode s).file = s.file := by
  unfold ensureInit doInit
  split
  · rfl
  · split <;> rfl

theorem load_store {mode : Mode} {s : Store V} (h : Ready mode s) :
    (load locale mode s).2 = s := by
  have hinit : ensureInit locale mode s = s := if_pos h
  unfold load
  cases mode <;> exact hinit

theorem save_ready (mode : Mode) (db : Db V) (s : Store V) :
    Ready mode (save locale mode db s) := by
  cases mode with
  | json => exact .inl rfl
  | dual => exact ensureInit_ready .dual s
  | pg => exact ensureInit_ready .pg s

theorem call_file {mode : Mode} (hmode : mode ≠ .json) (s : Store V) (c : Call V) :
    (call locale mode s c).file = s.file := by
  cases c with
  | load =>
    unfold call load
    cases mode <;> exact ensureInit_file _ s
  | save db =>
    cases mode with
    | json => exact absurd rfl hmode
    | dual | pg => exact ensureInit_file _ s

theorem calls_file {mode : Mode} (hmode : mode ≠ .json) (chain : List (Call V)) (s : Store V) :
    (calls locale mode s chain).file = s.file := by
  induction chain generalizing s with
  | nil => rfl
  | cons c rest ih => exact (ih (call locale mode s c)).trans (call_file hmode s c)

theorem calls_loads {mode : Mode} {s : Store V} (h : Ready mode s) (reads : Nat) :
    calls locale mode s (List.replicate reads .load) = s := by
  induction reads with
  | zero => rfl
  | succ n ih =>
    rw [List.replicate_succ]
    show calls locale mode (load locale mode s).2 (List.replicate n .load) = s
    rw [load_store h]
    exact ih

theorem ensureInit_save (mode : Mode) (s : Store V) (db : Db V) :
    ensureInit locale mode (save locale mode db s) = save locale mode db s :=
  if_pos (save_ready mode db s)

theorem load_save_json (s : Store V) (db : Db V) :
    Returns .json s.file db (load locale .json (save locale .json db s)).1 := by
  -- the token is dropped when the file is written and again when it is read
  have hload : (load locale .json (save locale .json db s)).1 = normalizeDb (normalizeDb db) := by
    unfold load
    rw [ensureInit_save]
    rfl
  rw [hload]
  refine ⟨?_, ?_, ?_, ?_⟩
  · intro k
    rw [get?_normalizeDb, get?_normalizeDb, Option.map_map]
    cases db.installations.get? k with
    | none => rfl
    | some item => exact congrArg some (dropToken_dropToken item)
  all_goals
    intro k
    exact (Option.or_none).symm

theorem load_save_pg (s : Store V) (db : Db V)
    (husers : ∀ email ∈ db.users.keys, userKey locale email = email) :
    Returns .pg s.file db (load locale .pg (save locale .pg db s)).1 := by
  have hload : (load locale .pg (save locale .pg db s)).1 =
      readAll (writeAll locale db (ensureInit locale .pg s).pg) := by
    unfold load
    rw [ensureInit_save]
    rfl
  obtain ⟨hinst, hus, hsess, haudit⟩ :=
    readAll_writeAll db (ensureInit locale .pg s).pg husers
  rw [hload]
  refine ⟨?_, ?_, ?_, ?_⟩
  · exact fun k => (hinst k).trans (Option.or_none).symm
  · exact fun k => (hus k).trans (Option.or_none).symm
  · exact fun k => (hsess k).trans (Option.or_none).symm
  · exact fun k => (haudit k).trans (Option.or_none).symm

theorem load_save_dual (s : Store V) (db : Db V)
    (husers : ∀ email ∈ db.users.keys, userKey locale email = email) :
    Returns .dual s.file db (load locale .dual (save locale .dual db s)).1 := by
  -- the tables are written and the file is not, so each collection is a merge of both
  have hfile : (save locale .dual db s).file = s.file := ensureInit_file .dual s
  have hpg : (save locale .dual db s).pg =
      writeAll locale db (ensureInit locale .dual s).pg := rfl
  have hload : (load locale .dual (save locale .dual db s)).1 = mergeDb locale
      (readAll (writeAll locale db (ensureInit locale .dual s).pg)) (normalizeDb s.file) := by
    unfold load legacyLoadDb
    rw [ensureInit_save]
    show mergeDb locale (readAll (save locale .dual db s).pg)
      (normalizeDb (save locale .dual db s).file) = _
    rw [hpg, hfile]
  obtain ⟨hinst, hus, hsess, haudit⟩ :=
    readAll_writeAll db (ensureInit locale .dual s).pg husers
  rw [hload]
  refine ⟨?_, ?_, ?_, ?_⟩
  · intro k
    show (mergeMap _ _).get? k = _
    rw [get?_mergeMap, hinst, get?_normalizeDb]
    rfl
  · intro k
    show (mergeMap _ _).get? k = _
    rw [get?_mergeMap, hus]
    rfl
  · intro k
    show (mergeMap _ _).get? k = _
    rw [get?_mergeMap, hsess]
    rfl
  · intro k
    show (byId (mergeAuditEvents _ _ _)).get? k = _
    rw [byId_mergeAuditEvents, haudit]
    rfl

theorem load_save (mode : Mode) (s : Store V) (db : Db V)
    (husers : mode ≠ .json → ∀ email ∈ db.users.keys, userKey locale email = email) :
    Returns mode s.file db (load locale mode (save locale mode db s)).1 := by
  cases mode with
  | json => exact load_save_json s db
  | pg => exact load_save_pg s db (husers nofun)
  | dual => exact load_save_dual s db (husers nofun)

/-! ## The theorem -/

/-- After any chain of calls, what is saved is what every later read returns, until the next
save: as the mode keeps it and, in dual mode, with what only the legacy file has. -/
theorem load_after_save (locale : Locale) (mode : Mode) (s : Store V) (chain : List (Call V))
    (db : Db V) (reads : Nat)
    (husers : mode ≠ .json → ∀ email ∈ db.users.keys, userKey locale email = email) :
    let s' := calls locale mode s (chain ++ .save db :: List.replicate reads .load)
    Returns mode s.file db (load locale mode s').1 := by
  have hcalls : calls locale mode s (chain ++ .save db :: List.replicate reads .load) =
      save locale mode db (calls locale mode s chain) := by
    unfold calls
    rw [List.foldl_append, List.foldl_cons]
    exact calls_loads (save_ready mode db _) reads
  show Returns mode s.file db (load locale mode (calls locale mode s _)).1
  rw [hcalls]
  have hreturns := load_save mode (calls locale mode s chain) db husers
  by_cases hmode : mode = .json
  · subst hmode
    exact ⟨hreturns.installations, hreturns.users, hreturns.sessions, hreturns.auditEvents⟩
  · rw [calls_file hmode] at hreturns
    exact hreturns

theorem Returns.removed_gone {mode : Mode} {legacy saved loaded : Db V}
    (h : Returns mode legacy saved loaded) (hmode : mode ≠ .dual) (k : String) :
    (saved.installations.get? k = none → loaded.installations.get? k = none) ∧
    (saved.users.get? k = none → loaded.users.get? k = none) ∧
    (saved.sessions.get? k = none → loaded.sessions.get? k = none) ∧
    ((byId saved.auditEvents).get? k = none → (byId loaded.auditEvents).get? k = none) := by
  have hfallback : ∀ {α : Type} (legacy : Option α), fallback mode legacy = none :=
    fun _ => if_neg hmode
  refine ⟨?_, ?_, ?_, ?_⟩
  · intro hnone
    rw [h.installations, hnone, hfallback]
    rfl
  · intro hnone
    rw [h.users, hnone, hfallback]
    rfl
  · intro hnone
    rw [h.sessions, hnone, hfallback]
    rfl
  · intro hnone
    rw [h.auditEvents, hnone, hfallback]
    rfl

/-! ## Calls on a small store -/

inductive Value where
  | null
  | str (s : String)
  deriving DecidableEq

instance jsonValue : JsonValue Value where
  text := .str
  isNullish v := v = .null
  toText v :=
    match v with
    | .null => "null"
    | .str s => s
  toMillis _ := 0
  toText_text _ := rfl
  text_present _ := rfl

def ascii : Locale := ⟨String.toLower, fun a b => a ≤ b⟩

def only (k : String) (record : Record Value) : Collection Value :=
  ⟨[(k, record)], List.nodup_singleton k⟩

def signedIn : Db Value :=
  { emptyDb with
    users := only "ana" [("name", .str "Ana")]
    sessions := only "s1" [("email", .str "ana")] }

def signedOut : Db Value := { signedIn with sessions := Obj.empty }

def migrating : Store Value where
  file := signedIn
  pg := ⟨Obj.empty, Obj.empty, Obj.empty, Obj.empty, false⟩
  initialized := false

theorem load_after_save_signedOut :
    Returns .pg signedIn signedOut (load ascii .pg
      (calls ascii .pg migrating ([.load] ++ .save signedOut :: List.replicate 1 .load))).1 ∧
    (load ascii .pg (calls ascii .pg migrating
      ([.load] ++ .save signedOut :: List.replicate 1 .load))).1.sessions.get? "s1" = none := by
  have husers : ∀ email ∈ signedOut.users.keys, userKey ascii email = email := by
    decide +kernel
  have hreturns := load_after_save ascii .pg migrating [.load] signedOut 1 (fun _ => husers)
  exact ⟨hreturns, (hreturns.removed_gone nofun "s1").2.2.1 rfl⟩

def installed : Db Value :=
  { emptyDb with installations := only "i1" [("installerToken", .str "t")] }

/-- The file is read without the token of what was saved, the tables give it an id, and with both
the session that was removed is back. -/
theorem load_after_save_differs :
    (load ascii .json (save ascii .json installed migrating)).1.installations.get? "i1" = some [] ∧
    (load ascii .pg (save ascii .pg installed migrating)).1.installations.get? "i1" =
      some [("installerToken", .str "t"), ("id", .str "i1")] ∧
    signedOut.sessions.get? "s1" = none ∧
    (load ascii .dual (save ascii .dual signedOut migrating)).1.sessions.get? "s1" =
      some [("email", .str "ana")] := by
  decide +kernel

end Drac.Central.Datastore
