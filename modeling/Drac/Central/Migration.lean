import Drac.Central.DatastoreLaws
import Drac.Lib.AsciiCase

/-
  The migration from the legacy file only fills in.

  What PostgreSQL lacks is decided on the keys of the legacy document, and a user is written
  under `userKey`, trimmed and in lower case. So a user whose legacy key is written otherwise is
  always missing, and the upsert puts the old record over the one that is there
  (`migration_overwrites`). The other collections are written under the key they are looked up by.

  The three promises, that no record changes, that none is left out, and that a second
  migration finds nothing to do (`OnlyInserts`), hold exactly if every user key of the legacy
  document is in the form it is written in, or is there already as it is (`migration_only_inserts`).
-/

namespace Drac.Central.Datastore

open JsObject JsonValue

variable {V : Type} [JsonValue V] {locale : Locale}

/-- `reconcileCount(reconcile(legacyDb, keys))`, which the migration returns as `inserted`. -/
def inserted (legacy : Db V) (pg : Postgres V) : Nat :=
  (missingFromMap legacy.installations pg.installations.keys).length +
  (missingFromMap legacy.users pg.users.keys).length +
  (missingFromMap legacy.sessions pg.sessions.keys).length +
  (missingAudit legacy.auditEvents pg.auditEvents.keys).length

/-! ## The promises -/

/-- What was there is there, as it was. -/
def Unchanged (before after : Collection V) : Prop :=
  ∀ k record, before.get? k = some record → after.get? k = some record

/-- What `migrateFromLegacy` promises, where `after` is what it leaves. -/
structure OnlyInserts (locale : Locale) (legacy : Db V) (pg after : Postgres V) : Prop where
  installations : Unchanged pg.installations after.installations
  users : Unchanged pg.users after.users
  sessions : Unchanged pg.sessions after.sessions
  auditEvents : Unchanged pg.auditEvents after.auditEvents
  installation_there : ∀ k ∈ legacy.installations.keys, k ∈ after.installations.keys
  /-- A user is compared by the key the store uses. -/
  user_there : ∀ k ∈ legacy.users.keys, userKey locale k ∈ after.users.keys
  session_there : ∀ k ∈ legacy.sessions.keys, k ∈ after.sessions.keys
  event_there : ∀ ev ∈ legacy.auditEvents, ∀ k, eventKey ev = some k → k ∈ after.auditEvents.keys
  /-- A second migration inserts nothing, and changes nothing. -/
  nothing_left : inserted legacy after = 0
  settled : migrateFromLegacy locale legacy after = after

/-- A legacy user key is written as the store writes it; or it is there as it is, and the user of
the key the store uses is in one of the two. -/
def KeysNormalized (locale : Locale) (legacy : Db V) (pg : Postgres V) : Prop :=
  ∀ k ∈ legacy.users.keys, userKey locale k = k ∨
    k ∈ pg.users.keys ∧
      (userKey locale k ∈ pg.users.keys ∨ userKey locale k ∈ legacy.users.keys)

/-! ## What is missing -/

omit [JsonValue V] in
theorem mem_missingFromMap {map : Collection V} {existing : List String}
    {e : String × Record V} :
    e ∈ missingFromMap map existing ↔ e ∈ map.entries ∧ e.1 ∉ existing := by
  rw [missingFromMap, List.mem_filter, decide_eq_true_eq]

variable {events : List (Record V)}

theorem mem_missingAudit {existing : List String} {ev : Record V} :
    ev ∈ missingAudit events existing ↔
      ev ∈ events ∧ ∃ k, eventKey ev = some k ∧ k ∉ existing := by
  rw [missingAudit, List.mem_filter]
  refine and_congr_right fun _ => ?_
  cases eventKey ev with
  | none => simp
  | some k => simp

omit [JsonValue V] in
theorem missingFromMap_eq_nil {map : Collection V} {existing : List String} :
    missingFromMap map existing = [] ↔ ∀ k ∈ map.keys, k ∈ existing := by
  rw [missingFromMap, List.filter_eq_nil_iff]
  constructor
  · intro h k hk
    obtain ⟨e, he, rfl⟩ := List.mem_map.mp hk
    by_contra hout
    exact h e he (decide_eq_true hout)
  · intro h e he hout
    exact of_decide_eq_true hout (h e.1 (List.mem_map_of_mem he))

theorem missingAudit_eq_nil {existing : List String} :
    missingAudit events existing = [] ↔
      ∀ ev ∈ events, ∀ k, eventKey ev = some k → k ∈ existing := by
  rw [List.eq_nil_iff_forall_not_mem]
  constructor
  · intro h ev hev k hkey
    by_contra hout
    exact h ev (mem_missingAudit.mpr ⟨hev, k, hkey, hout⟩)
  · intro h ev hev
    obtain ⟨hmem, k, hkey, hout⟩ := mem_missingAudit.mp hev
    exact hout (h ev hmem k hkey)

omit [JsonValue V] in
theorem mem_keys_iff {map : Collection V} {k : String} :
    k ∈ map.keys ↔ ∃ record, (k, record) ∈ map.entries := by
  refine List.mem_map.trans ⟨?_, fun ⟨record, h⟩ => ⟨(k, record), h, rfl⟩⟩
  rintro ⟨e, he, rfl⟩
  exact ⟨e.2, he⟩

/-! ## A collection that is looked up by the key it is written under -/

section Collections

variable {toRow : String × Record V → Record V} {source table : Collection V}

omit [JsonValue V] in
theorem unchanged_of_missing :
    Unchanged table (Obj.putAll (fun e : String × Record V => some e.1) toRow
      (missingFromMap source table.keys) table) := by
  intro k record hget
  have hin : k ∈ table.keys := Obj.mem_keys.mpr (by rw [hget]; rfl)
  rw [Obj.get?_putAll_of_not, hget]
  intro e he heq
  exact (mem_missingFromMap.mp he).2 (Option.some.inj heq ▸ hin)

omit [JsonValue V] in
theorem there_of_missing {k : String} (hk : k ∈ source.keys) :
    k ∈ (Obj.putAll (fun e : String × Record V => some e.1) toRow
      (missingFromMap source table.keys) table).keys := by
  rw [Obj.mem_keys_putAll]
  by_cases hin : k ∈ table.keys
  · exact .inl hin
  · obtain ⟨record, hentry⟩ := mem_keys_iff.mp hk
    exact .inr ⟨(k, record), mem_missingFromMap.mpr ⟨hentry, hin⟩, rfl⟩

end Collections

theorem unchanged_of_missingAudit {table : Collection V} :
    Unchanged table (Obj.putAll eventKey id (missingAudit events table.keys) table) := by
  intro k record hget
  have hin : k ∈ table.keys := Obj.mem_keys.mpr (by rw [hget]; rfl)
  rw [Obj.get?_putAll_of_not, hget]
  intro ev hev heq
  obtain ⟨-, k', hkey, hout⟩ := mem_missingAudit.mp hev
  rw [heq, Option.some.injEq] at hkey
  exact hout (hkey ▸ hin)

theorem there_of_missingAudit {table : Collection V} {ev : Record V}
    {k : String} (hev : ev ∈ events) (hkey : eventKey ev = some k) :
    k ∈ (Obj.putAll eventKey id (missingAudit events table.keys) table).keys := by
  rw [Obj.mem_keys_putAll]
  by_cases hin : k ∈ table.keys
  · exact .inl hin
  · exact .inr ⟨ev, mem_missingAudit.mpr ⟨hev, k, hkey, hin⟩, hkey⟩

/-! ## The users -/

section Users

variable {legacy : Db V} {pg : Postgres V}

omit [JsonValue V] in
/-- A user key after the migration: one of before, or the written form of a missing one. -/
theorem mem_users_keys [JsonValue V] {k : String} :
    k ∈ (migrateFromLegacy locale legacy pg).users.keys ↔
      k ∈ pg.users.keys ∨ ∃ k' ∈ legacy.users.keys, k' ∉ pg.users.keys ∧ userKey locale k' = k := by
  refine Obj.mem_keys_putAll.trans (or_congr_right ?_)
  constructor
  · rintro ⟨e, he, heq⟩
    obtain ⟨hentry, hout⟩ := mem_missingFromMap.mp he
    exact ⟨e.1, List.mem_map_of_mem hentry, hout, Option.some.inj heq⟩
  · rintro ⟨k', hk', hout, rfl⟩
    obtain ⟨record, hentry⟩ := mem_keys_iff.mp hk'
    exact ⟨(k', record), mem_missingFromMap.mpr ⟨hentry, hout⟩, rfl⟩

theorem users_unchanged (h : KeysNormalized locale legacy pg) :
    Unchanged pg.users (migrateFromLegacy locale legacy pg).users := by
  intro k record hget
  have hin : k ∈ pg.users.keys := Obj.mem_keys.mpr (by rw [hget]; rfl)
  refine (Obj.get?_putAll_of_not ?_).trans hget
  intro e he heq
  obtain ⟨hentry, hout⟩ := mem_missingFromMap.mp he
  have hsame := (h e.1 (List.mem_map_of_mem hentry)).resolve_right (fun h' => hout h'.1)
  rw [hsame, Option.some.injEq] at heq
  exact hout (heq ▸ hin)

theorem users_there (hlower : ∀ email, userKey locale (userKey locale email) = userKey locale email)
    (h : KeysNormalized locale legacy pg) {k : String}
    (hk : k ∈ legacy.users.keys) :
    k ∈ (migrateFromLegacy locale legacy pg).users.keys ∧
      userKey locale k ∈ (migrateFromLegacy locale legacy pg).users.keys := by
  have hform : ∀ k' ∈ legacy.users.keys, userKey locale k' = k' →
      k' ∈ (migrateFromLegacy locale legacy pg).users.keys := by
    intro k' hk' hsame
    rw [mem_users_keys]
    by_cases hin : k' ∈ pg.users.keys
    · exact .inl hin
    · exact .inr ⟨k', hk', hin, hsame⟩
  rcases h k hk with hsame | ⟨hin, hother⟩
  · rw [hsame]
    exact ⟨hform k hk hsame, hform k hk hsame⟩
  · refine ⟨mem_users_keys.mpr (.inl hin), ?_⟩
    rcases hother with hother | hother
    · exact mem_users_keys.mpr (.inl hother)
    · exact hform _ hother (hlower k)

theorem keysNormalized_of (hlower : ∀ email, userKey locale (userKey locale email) =
      userKey locale email)
    (hthere : ∀ k ∈ legacy.users.keys,
      userKey locale k ∈ (migrateFromLegacy locale legacy pg).users.keys)
    (hsettled : ∀ k ∈ legacy.users.keys, k ∈ (migrateFromLegacy locale legacy pg).users.keys) :
    KeysNormalized locale legacy pg := by
  intro k hk
  rcases mem_users_keys.mp (hsettled k hk) with hin | ⟨k', -, -, rfl⟩
  · right
    refine ⟨hin, ?_⟩
    rcases mem_users_keys.mp (hthere k hk) with hkey | ⟨k', hk', hout, hsame⟩
    · exact .inl hkey
    · -- the missing key is a written form too, and so the one it is written under
      rcases mem_users_keys.mp (hsettled k' hk') with hin' | ⟨k₀, -, -, hk₀⟩
      · exact absurd hin' hout
      · rw [← hsame, ← hk₀, hlower, hk₀]
        exact .inr hk'
  · exact .inl (hlower k')

end Users

theorem inserted_eq_zero {legacy : Db V} {pg : Postgres V} :
    inserted legacy pg = 0 ↔
      missingFromMap legacy.installations pg.installations.keys = [] ∧
      missingFromMap legacy.users pg.users.keys = [] ∧
      missingFromMap legacy.sessions pg.sessions.keys = [] ∧
      missingAudit legacy.auditEvents pg.auditEvents.keys = [] := by
  rw [inserted, Nat.add_eq_zero_iff, Nat.add_eq_zero_iff, Nat.add_eq_zero_iff,
    List.length_eq_zero_iff, List.length_eq_zero_iff, List.length_eq_zero_iff,
    List.length_eq_zero_iff, and_assoc, and_assoc]

theorem migrateFromLegacy_of_inserted {legacy : Db V} {pg : Postgres V}
    (h : inserted legacy pg = 0) : migrateFromLegacy locale legacy pg = pg := by
  obtain ⟨hinstallations, husers, hsessions, hevents⟩ := inserted_eq_zero.mp h
  rw [migrateFromLegacy, hinstallations, husers, hsessions, hevents]
  rfl

/-- **When the migration only inserts**: exactly where the user keys of the legacy document are
in the form they are written in. -/
theorem migration_only_inserts
    (hlower : ∀ email, userKey locale (userKey locale email) = userKey locale email)
    (legacy : Db V) (pg : Postgres V) :
    OnlyInserts locale legacy pg (migrateFromLegacy locale legacy pg) ↔
      KeysNormalized locale legacy pg := by
  constructor
  · intro h
    obtain ⟨-, husers, -, -⟩ := inserted_eq_zero.mp h.nothing_left
    exact keysNormalized_of hlower h.user_there (missingFromMap_eq_nil.mp husers)
  · intro h
    have hnothing : inserted legacy (migrateFromLegacy locale legacy pg) = 0 := by
      refine inserted_eq_zero.mpr ⟨?_, ?_, ?_, ?_⟩
      · exact missingFromMap_eq_nil.mpr (fun k hk => there_of_missing hk)
      · exact missingFromMap_eq_nil.mpr (fun k hk => (users_there hlower h hk).1)
      · exact missingFromMap_eq_nil.mpr (fun k hk => there_of_missing hk)
      · exact missingAudit_eq_nil.mpr (fun ev hev k hkey => there_of_missingAudit hev hkey)
    exact {
      installations := unchanged_of_missing
      users := users_unchanged h
      sessions := unchanged_of_missing
      auditEvents := unchanged_of_missingAudit
      installation_there := fun k hk => there_of_missing hk
      user_there := fun k hk => (users_there hlower h hk).2
      session_there := fun k hk => there_of_missing hk
      event_there := fun ev hev k hkey => there_of_missingAudit hev hkey
      nothing_left := hnothing
      settled := migrateFromLegacy_of_inserted hnothing }

/-! ## Examples -/

theorem userKey_ascii (email : String) :
    userKey ascii (userKey ascii email) = userKey ascii email := by
  have htrim : JsText.Trimmed (userKey ascii email) :=
    AsciiCase.trimmed_map AsciiCase.isSpace_toLower (JsText.trim_trimmed email)
  have hlower : Char.toLower ∘ Char.toLower = Char.toLower := funext AsciiCase.toLower_toLower
  rw [userKey, htrim]
  show String.map Char.toLower (String.map Char.toLower (JsText.trim email)) = _
  rw [String.map_map, hlower]
  rfl

def changed : Postgres Value :=
  ⟨Obj.empty, only "ana@loja.com" [("passwordHash", .str "nova")], Obj.empty, Obj.empty, false⟩

/-- The legacy document, with the user under some spelling of the key. -/
def legacyUser (email : String) : Db Value :=
  { emptyDb with users := only email [("passwordHash", .str "antiga")] }

theorem migration_only_inserts_ana : OnlyInserts ascii (legacyUser "ana@loja.com") changed
    (migrateFromLegacy ascii (legacyUser "ana@loja.com") changed) :=
  (migration_only_inserts userKey_ascii _ _).mpr (by
    intro k hk
    rw [List.mem_singleton.mp hk]
    exact .inl (by decide +kernel))

/-- The same user in the legacy document with a capital: the old password is back, and every
migration finds a user to insert. -/
theorem migration_overwrites :
    changed.users.get? "ana@loja.com" = some [("passwordHash", .str "nova")] ∧
    (migrateFromLegacy ascii (legacyUser "Ana@loja.com") changed).users.get? "ana@loja.com" =
      some [("passwordHash", .str "antiga")] ∧
    inserted (legacyUser "Ana@loja.com")
      (migrateFromLegacy ascii (legacyUser "Ana@loja.com") changed) = 1 ∧
    ¬ OnlyInserts ascii (legacyUser "Ana@loja.com") changed
      (migrateFromLegacy ascii (legacyUser "Ana@loja.com") changed) := by
  have hcount : inserted (legacyUser "Ana@loja.com")
      (migrateFromLegacy ascii (legacyUser "Ana@loja.com") changed) = 1 := by decide +kernel
  refine ⟨rfl, by decide +kernel, hcount, fun h => ?_⟩
  have hnothing := h.nothing_left
  rw [hcount] at hnothing
  cases hnothing

end Drac.Central.Datastore
