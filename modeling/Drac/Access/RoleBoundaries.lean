import Drac.Access.UserManagement

/-
  Role boundaries over any history.

  A call creates a row, or rewrites one, or deletes one, and each of the four asks for the same in
  its own words: `call_effect` says what, with `MayWrite` for the roles.
-/

namespace Drac.Access.UserManagement

open Checks Runs

variable {env : Env} {s t : State}

/-! ## What is promised -/

def superAdmins (s : State) : List User := s.users.rows.filter (fun user => user.role = .superAdmin)

/-- Everybody above OPERATOR. -/
def administrators (s : State) : List User :=
  s.users.rows.filter (fun user => isAdministrator user.role)

/-- The actor has the level ADMIN on the group. -/
def Administers (s : State) (actor : AuthUser) (groupId : Id) : Prop :=
  ∃ p ∈ s.permissions, p.userId = actor.id ∧ p.groupId = some groupId ∧ p.level = .admin

/-- The user has some permission on the group. -/
def BelongsTo (s : State) (userId groupId : Id) : Prop :=
  ∃ p ∈ s.permissions, p.userId = userId ∧ p.groupId = some groupId

/-- What a call of an actor below ADMIN may do. -/
structure Confined (s : State) (actor : AuthUser) (t : State) : Prop where
  ownRole : ∀ row ∈ s.users.rows, row.id = actor.id →
    ∀ row' ∈ t.users.rows, row'.id = actor.id → row'.role = row.role
  written : ∀ row ∈ t.users.rows, row ∉ s.users.rows →
    ∃ groupId, Administers s actor groupId ∧ BelongsTo t row.id groupId
  rewritten : ∀ row ∈ s.users.rows, row ∉ t.users.rows →
    ∃ groupId, Administers s actor groupId ∧ BelongsTo s row.id groupId

def Label.actor : Label → Option AuthUser
  | .create actor _ _ => some actor
  | .update actor _ _ => some actor
  | .softDelete actor _ => some actor
  | .hardDelete actor _ => some actor
  | .elsewhere _ _ _ _ => none

/-- No super administrator acts. -/
def BelowSuperAdmin (_ : State) (a : Label) : Prop :=
  ∀ actor, a.actor = some actor → actor.role ≠ .superAdmin

/-- Only callers below ADMIN act. -/
def BelowAdmin (_ : State) (a : Label) : Prop :=
  ∀ actor, a.actor = some actor → isAdministrator actor.role = false

/-! ## What a call does -/

variable {actor : AuthUser}

/-- The roles an actor may write, and give. -/
structure MayWrite (actor : AuthUser) (role : UserRole) : Prop where
  below : isPrivileged actor = false → isAdministrator role = false
  notSuper : actor.role ≠ .superAdmin → role ≠ .superAdmin

/-- What a call of an actor may have done. -/
inductive Effect (s : State) (actor : AuthUser) (t : State) : Prop where
  | created (user : User) (groupIds : List Id)
    (hrole : MayWrite actor user.role)
    (hfresh : user.id ∉ s.users.rows.map User.id)
    (hrows : t.users.rows = s.users.rows ++ [user])
    (hgroups : isPrivileged actor = false →
      ∃ groupId ∈ groupIds, groupId ∈ getAdminGroupIds s actor)
    (hpermissions : ∀ groupId ∈ groupIds, BelongsTo t user.id groupId)
  | patched (existing : User) (patch : UserPatch)
    (hexisting : s.users.find existing.id = some existing)
    (hmanaged : isPrivileged actor = false → assertCanManageUser s actor existing.id = .ok ())
    (hrole : MayWrite actor existing.role)
    (hnext : MayWrite actor (patch.role.getD existing.role))
    (hown : isPrivileged actor = false → existing.id = actor.id →
      patch.role.getD existing.role = existing.role)
    (hrows : t.users.rows = s.users.patched existing.id patch)
    (hpermissions : t.permissions = s.permissions)
  | deleted (existing : User)
    (hexisting : s.users.find existing.id = some existing)
    (hmanaged : isPrivileged actor = false → assertCanManageUser s actor existing.id = .ok ())
    (hrole : MayWrite actor existing.role)
    (hrows : t.users.rows = s.users.rows.filter (fun user => user.id ≠ existing.id))

theorem mayWrite_of_checks {role : UserRole}
    (hbelow : isPrivileged actor = false → isAdministrator role = false)
    (hassign : (isPrivileged actor && !canAssignRole actor.role role) = false) :
    MayWrite actor role := by
  refine ⟨hbelow, ?_⟩
  intro hactor hrole
  subst hrole
  cases hprivileged : isPrivileged actor with
  | false => exact absurd (hbelow hprivileged) (by decide)
  | true =>
    rw [hprivileged, Bool.true_and, Bool.not_eq_false'] at hassign
    obtain ⟨id, role⟩ := actor
    cases role with
    | superAdmin => exact hactor rfl
    | admin | operator | viewer => cases hassign

theorem isAdministrator_of_assignable {role : UserRole} (h : isGroupAssignableRole role = true) :
    isAdministrator role = false := by
  cases role with
  | superAdmin | admin => cases h
  | operator | viewer => rfl

theorem UserTable.find_id {table : UserTable} {id : Id} {user : User}
    (h : table.find id = some user) : user.id = id := by
  unfold UserTable.find at h
  simpa using List.find?_some h

theorem UserTable.find_mem {table : UserTable} {id : Id} {user : User}
    (h : table.find id = some user) : user ∈ table.rows := List.mem_of_find?_eq_some h

theorem UserTable.eq_of_id {table : UserTable} {user user' : User} (h : user ∈ table.rows)
    (h' : user' ∈ table.rows) (hid : user.id = user'.id) : user = user' :=
  List.inj_on_of_nodup_map table.ids h h' hid

theorem findExisting_ok {id : Id} {existing : User} (h : findExisting s id = .ok existing) :
    existing.id = id ∧ s.users.find existing.id = some existing := by
  unfold findExisting at h
  cases hfind : s.users.find id with
  | none =>
    rw [hfind] at h
    cases h
  | some user =>
    rw [hfind] at h
    obtain rfl := Except.ok.inj h
    have hid : user.id = id := UserTable.find_id hfind
    exact ⟨hid, hid ▸ hfind⟩

theorem ofDatabase_ok {α : Type} {answer : Option α} {a : α} (h : ofDatabase answer = .ok a) :
    answer = some a := by
  cases answer with
  | none => cases h
  | some b => cases h; rfl

theorem insert_some {table table' : UserTable} {user : User} (h : table.insert user = some table') :
    user.id ∉ table.rows.map User.id ∧ table'.rows = table.rows ++ [user] := by
  unfold UserTable.insert at h
  split at h
  · next hfresh =>
    cases h
    exact ⟨hfresh.1, rfl⟩
  · cases h

theorem update_some {table table' : UserTable} {id : Id} {patch : UserPatch}
    (h : table.update id patch = some table') : table'.rows = table.patched id patch := by
  unfold UserTable.update at h
  split at h
  · cases h
    rfl
  · cases h

theorem resolveManagedGroupIds_ok {requested : Option (List String)} {groupIds : List Id}
    (h : resolveManagedGroupIds s actor requested = .ok groupIds)
    (hprivileged : isPrivileged actor = false) :
    ∃ groupId ∈ groupIds, groupId ∈ getAdminGroupIds s actor := by
  unfold resolveManagedGroupIds at h
  simp only [hprivileged, Bool.false_eq_true, if_false] at h
  obtain ⟨hsome, h⟩ := bind_throwIf_ok h
  obtain ⟨hallowed, h⟩ := bind_throwIf_ok h
  cases h
  generalize hselected : (if (((requested.getD []).filterMap
    (fun id => Id.ofText (JsText.trim id))).eraseDups).isEmpty = true then getAdminGroupIds s actor
    else ((requested.getD []).filterMap (fun id => Id.ofText (JsText.trim id))).eraseDups) =
      selected at hallowed ⊢
  have hne : selected ≠ [] := by
    rw [← hselected]
    split
    · exact fun h => by rw [h] at hsome; cases hsome
    · next hgroups => exact fun h => hgroups (by rw [h]; rfl)
  obtain ⟨groupId, rest, rfl⟩ := List.exists_cons_of_ne_nil hne
  refine ⟨groupId, List.mem_cons_self, ?_⟩
  by_contra hnot
  simp [hnot] at hallowed

theorem create_effect {dto : CreateUserDto} {id : Id} (h : create env s actor dto id = .ok t) :
    Effect s actor t := by
  unfold create at h
  obtain ⟨hassignable, h⟩ := bind_throwIf_ok h
  obtain ⟨hassign, h⟩ := bind_throwIf_ok h
  obtain ⟨groupIds, hgroups, h⟩ := bind_ok h
  obtain ⟨-, -, h⟩ := bind_ok h
  obtain ⟨-, h⟩ := bind_throwIf_ok h
  obtain ⟨users, hinsert, h⟩ := bind_ok h
  obtain ⟨hfresh, hrows⟩ := insert_some (ofDatabase_ok hinsert)
  cases h
  refine .created _ groupIds ?_ hfresh hrows (resolveManagedGroupIds_ok hgroups) ?_
  · refine mayWrite_of_checks ?_ hassign
    intro hprivileged
    rw [hprivileged, Bool.not_false, Bool.true_and, Bool.not_eq_false'] at hassignable
    exact isAdministrator_of_assignable hassignable
  · intro groupId hgroup
    exact ⟨_, List.mem_append_right _ (List.mem_map_of_mem hgroup), rfl, rfl⟩

theorem update_effect {dto : UpdateUserDto} {id : Id} (h : update env s actor id dto = .ok t) :
    Effect s actor t := by
  unfold update at h
  obtain ⟨existing, hfind, h⟩ := bind_ok h
  obtain ⟨rfl, hexisting⟩ := findExisting_ok hfind
  obtain ⟨_, hgroupAdmin, h⟩ := bind_ok h
  obtain ⟨hassign, h⟩ := bind_throwIf_ok h
  obtain ⟨hsuper, h⟩ := bind_throwIf_ok h
  obtain ⟨-, -, h⟩ := bind_ok h
  obtain ⟨users, hupdate, h⟩ := bind_ok h
  have hrows := update_some (ofDatabase_ok hupdate)
  cases h
  have hchecks : isPrivileged actor = false →
      assertCanManageUser s actor existing.id = .ok () ∧ isAdministrator existing.role = false ∧
      dto.role.any (fun role => !isGroupAssignableRole role) = false ∧
      (dto.role.any (fun role => role ≠ existing.role) && existing.id = actor.id) = false := by
    intro hprivileged
    have hall := unlessTrue_ok hgroupAdmin hprivileged
    obtain ⟨_, hmanaged, hall⟩ := bind_ok hall
    obtain ⟨hbelow, hall⟩ := bind_throwIf_ok hall
    obtain ⟨hassignable, hall⟩ := bind_throwIf_ok hall
    exact ⟨hmanaged, hbelow, hassignable, throwIf_ok hall⟩
  refine .patched existing (updatePatch env dto) hexisting (fun h => (hchecks h).1) ?_ ?_ ?_ hrows rfl
  · refine ⟨fun h => (hchecks h).2.1, ?_⟩
    intro hactor hrole
    simp [hactor, hrole] at hsuper
  · refine mayWrite_of_checks ?_ hassign
    intro hprivileged
    obtain ⟨-, hbelow, hassignable, -⟩ := hchecks hprivileged
    show isAdministrator (dto.role.getD existing.role) = false
    cases hrole : dto.role with
    | none => exact hbelow
    | some role =>
      rw [hrole, Option.any_some, Bool.not_eq_false'] at hassignable
      exact isAdministrator_of_assignable hassignable
  · intro hprivileged hself
    obtain ⟨-, -, -, hown⟩ := hchecks hprivileged
    show dto.role.getD existing.role = existing.role
    cases hrole : dto.role with
    | none => rfl
    | some role =>
      rw [hrole, decide_eq_true hself, Bool.and_true, Option.any_some, decide_eq_false_iff_not,
        not_ne_iff] at hown
      exact hown

theorem softDelete_effect {id : Id} (h : softDelete s actor id = .ok t) : Effect s actor t := by
  unfold softDelete at h
  obtain ⟨existing, hfind, h⟩ := bind_ok h
  obtain ⟨rfl, hexisting⟩ := findExisting_ok hfind
  obtain ⟨_, hgroupAdmin, h⟩ := bind_ok h
  obtain ⟨hassign, h⟩ := bind_throwIf_ok h
  obtain ⟨users, hupdate, h⟩ := bind_ok h
  have hrows := update_some (ofDatabase_ok hupdate)
  cases h
  have hchecks : isPrivileged actor = false →
      assertCanManageUser s actor existing.id = .ok () ∧ isAdministrator existing.role = false := by
    intro hprivileged
    obtain ⟨_, hmanaged, hall⟩ := bind_ok (unlessTrue_ok hgroupAdmin hprivileged)
    exact ⟨hmanaged, throwIf_ok hall⟩
  have hrole := mayWrite_of_checks (fun h => (hchecks h).2) hassign
  exact .patched existing { isActive := some false, authVersionIncrement := 1 } hexisting
    (fun h => (hchecks h).1) hrole hrole (fun _ _ => rfl) hrows rfl

theorem hardDelete_effect {id : Id} (h : hardDelete s actor id = .ok t) : Effect s actor t := by
  unfold hardDelete at h
  obtain ⟨existing, hfind, h⟩ := bind_ok h
  obtain ⟨rfl, hexisting⟩ := findExisting_ok hfind
  obtain ⟨-, h⟩ := bind_throwIf_ok h
  obtain ⟨_, hgroupAdmin, h⟩ := bind_ok h
  obtain ⟨hassign, h⟩ := bind_throwIf_ok h
  obtain ⟨-, h⟩ := bind_throwIf_ok h
  cases h
  have hchecks : isPrivileged actor = false →
      assertCanManageUser s actor existing.id = .ok () ∧ isAdministrator existing.role = false := by
    intro hprivileged
    obtain ⟨_, hmanaged, hall⟩ := bind_ok (unlessTrue_ok hgroupAdmin hprivileged)
    exact ⟨hmanaged, throwIf_ok hall⟩
  exact .deleted existing hexisting (fun h => (hchecks h).1)
    (mayWrite_of_checks (fun h => (hchecks h).2) hassign) rfl

/-- **What a call of an actor does**, whichever of the four it is. -/
theorem call_effect {a : Label} (h : call env s a = .ok t) (hactor : a.actor = some actor) :
    Effect s actor t := by
  cases a with
  | create actor' dto id =>
    cases hactor
    exact create_effect h
  | update actor' id dto =>
    cases hactor
    exact update_effect h
  | softDelete actor' id =>
    cases hactor
    exact softDelete_effect h
  | hardDelete actor' id =>
    cases hactor
    exact hardDelete_effect h
  | elsewhere => cases hactor

/-! ## What it leaves -/

theorem filter_map_of_same {α : Type} {l : List α} {f : α → α} {p : α → Bool}
    (h : ∀ x ∈ l, p (f x) = p x ∧ (p x = true → f x = x)) : (l.map f).filter p = l.filter p := by
  induction l with
  | nil => rfl
  | cons x l ih =>
    obtain ⟨hp, hx⟩ := h x List.mem_cons_self
    have hrest := ih (fun y hy => h y (List.mem_cons_of_mem _ hy))
    rw [List.map_cons, List.filter_cons, List.filter_cons, hp, hrest]
    split
    · next hkept => rw [hx hkept]
    · rfl

theorem effect_spares {p : UserRole → Bool} (h : Effect s actor t)
    (hp : ∀ role, MayWrite actor role → p role = false) :
    t.users.rows.filter (fun user => p user.role) = s.users.rows.filter (fun user => p user.role) := by
  cases h with
  | created user groupIds hrole hfresh hrows =>
    rw [hrows, List.filter_append, List.filter_singleton, hp _ hrole]
    exact List.append_nil _
  | patched existing patch hexisting hmanaged hrole hnext hown hrows =>
    rw [hrows]
    apply filter_map_of_same
    intro user huser
    by_cases hid : user.id = existing.id
    · have hsame := UserTable.eq_of_id huser (UserTable.find_mem hexisting) hid
      subst hsame
      have hbefore := hp _ hrole
      rw [if_pos rfl]
      refine ⟨(hp _ hnext).trans hbefore.symm, fun h => ?_⟩
      rw [hbefore] at h
      cases h
    · rw [if_neg hid]
      exact ⟨rfl, fun _ => rfl⟩
  | deleted existing hexisting hmanaged hrole hrows =>
    rw [hrows, List.filter_filter]
    apply List.filter_congr
    intro user huser
    by_cases hid : user.id = existing.id
    · have hsame := UserTable.eq_of_id huser (UserTable.find_mem hexisting) hid
      subst hsame
      rw [hp _ hrole, Bool.false_and]
    · simp [hid]

theorem mem_getAdminGroupIds {groupId : Id} (hprivileged : isPrivileged actor = false) :
    groupId ∈ getAdminGroupIds s actor ↔ Administers s actor groupId := by
  unfold getAdminGroupIds Administers
  rw [hprivileged, if_neg Bool.false_ne_true]
  simp only [List.mem_filterMap, List.mem_filter, Bool.and_eq_true, decide_eq_true_eq]
  constructor
  · rintro ⟨p, ⟨hp, ⟨huser, -⟩, hlevel⟩, hgroup⟩
    exact ⟨p, hp, huser, hgroup, hlevel⟩
  · rintro ⟨p, hp, huser, hgroup, hlevel⟩
    exact ⟨p, ⟨hp, ⟨huser, by rw [hgroup]; rfl⟩, hlevel⟩, hgroup⟩

theorem belongs_of_managed {userId : Id} (hprivileged : isPrivileged actor = false)
    (h : assertCanManageUser s actor userId = .ok ()) :
    ∃ groupId, Administers s actor groupId ∧ BelongsTo s userId groupId := by
  unfold assertCanManageUser at h
  obtain ⟨-, h⟩ := bind_throwIf_ok h
  have hnone := throwIf_ok h
  cases hfind : s.permissions.find? (fun p =>
      p.userId = userId && p.groupId.any (· ∈ getAdminGroupIds s actor)) with
  | none =>
    rw [hfind] at hnone
    cases hnone
  | some p =>
    have hp := List.find?_some hfind
    simp only [Bool.and_eq_true, decide_eq_true_eq, Option.any_eq_true] at hp
    obtain ⟨huser, groupId, hgroup, hadmin⟩ := hp
    exact ⟨groupId, (mem_getAdminGroupIds hprivileged).mp hadmin, p,
      List.mem_of_find?_eq_some hfind, huser, hgroup⟩

theorem UserPatch.apply_role (patch : UserPatch) (user : User) :
    (patch.apply user).role = patch.role.getD user.role := rfl

theorem effect_confined (h : Effect s actor t) (hprivileged : isPrivileged actor = false) :
    Confined s actor t := by
  cases h with
  | created user groupIds hrole hfresh hrows hgroups hpermissions =>
    refine ⟨?_, ?_, ?_⟩
    · intro row hrow hid row' hrow' hid'
      rw [hrows] at hrow'
      rcases List.mem_append.mp hrow' with hrow' | hrow'
      · rw [UserTable.eq_of_id hrow' hrow (hid'.trans hid.symm)]
      · -- the key of the new row is nobody's
        rw [List.mem_singleton.mp hrow'] at hid'
        exact absurd (List.mem_map_of_mem hrow) (hid'.trans hid.symm ▸ hfresh)
    · intro row hrow hnew
      rw [hrows] at hrow
      rcases List.mem_append.mp hrow with hrow | hrow
      · exact absurd hrow hnew
      · rw [List.mem_singleton.mp hrow]
        obtain ⟨groupId, hgroup, hadmin⟩ := hgroups hprivileged
        exact ⟨groupId, (mem_getAdminGroupIds hprivileged).mp hadmin, hpermissions groupId hgroup⟩
    · intro row hrow hgone
      exact absurd (hrows ▸ List.mem_append_left _ hrow) hgone
  | patched existing patch hexisting hmanaged hrole hnext hown hrows hpermissions =>
    have hbelongs := belongs_of_managed hprivileged (hmanaged hprivileged)
    have hmem := UserTable.find_mem hexisting
    refine ⟨?_, ?_, ?_⟩
    · intro row hrow hid row' hrow' hid'
      rw [hrows] at hrow'
      obtain ⟨user, huser, rfl⟩ := List.mem_map.mp hrow'
      by_cases hmine : user.id = existing.id
      · rw [if_pos hmine] at hid' ⊢
        obtain rfl := UserTable.eq_of_id huser hmem hmine
        obtain rfl := UserTable.eq_of_id huser hrow (Eq.trans hid' hid.symm)
        rw [UserPatch.apply_role]
        exact hown hprivileged hid
      · rw [if_neg hmine] at hid' ⊢
        rw [UserTable.eq_of_id huser hrow (hid'.trans hid.symm)]
    · intro row hrow hnew
      rw [hrows] at hrow
      obtain ⟨user, huser, rfl⟩ := List.mem_map.mp hrow
      by_cases hmine : user.id = existing.id
      · rw [if_pos hmine]
        obtain ⟨groupId, hadmin, p, hp, hbelong⟩ := hbelongs
        exact ⟨groupId, hadmin, p, hpermissions ▸ hp, hbelong.1.trans hmine.symm, hbelong.2⟩
      · rw [if_neg hmine] at hnew
        exact absurd huser hnew
    · intro row hrow hgone
      by_cases hmine : row.id = existing.id
      · rw [hmine]
        exact hbelongs
      · have hkept : row ∈ s.users.patched existing.id patch :=
          List.mem_map.mpr ⟨row, hrow, if_neg hmine⟩
        exact absurd (hrows ▸ hkept) hgone
  | deleted existing hexisting hmanaged hrole hrows =>
    have hbelongs := belongs_of_managed hprivileged (hmanaged hprivileged)
    refine ⟨?_, ?_, ?_⟩
    · intro row hrow hid row' hrow' hid'
      rw [hrows] at hrow'
      rw [UserTable.eq_of_id (List.mem_filter.mp hrow').1 hrow (hid'.trans hid.symm)]
    · intro row hrow hnew
      rw [hrows] at hrow
      exact absurd (List.mem_filter.mp hrow).1 hnew
    · intro row hrow hgone
      by_cases hmine : row.id = existing.id
      · rw [hmine]
        exact hbelongs
      · rw [hrows] at hgone
        exact absurd (List.mem_filter.mpr ⟨hrow, by simpa using hmine⟩) hgone

/-! ## Histories -/

/-- A step is a call that is answered, or writes no user. -/
theorem step_cases {a : Label} (h : (usersMachine env).step s a = some t) :
    (∃ actor, a.actor = some actor ∧ Effect s actor t) ∨ t = s ∨
      (a.actor = none ∧ t.users = s.users) := by
  have hcall : call env s a = .ok t ∨ t = s := by
    unfold usersMachine at h
    cases hcall : call env s a with
    | error e =>
      simp only [hcall, Option.some.injEq] at h
      exact .inr h.symm
    | ok u =>
      simp only [hcall, Option.some.injEq] at h
      exact .inl (h ▸ rfl)
  obtain hcall | rfl := hcall
  · cases hactor : a.actor with
    | some actor => exact .inl ⟨actor, rfl, call_effect hcall hactor⟩
    | none =>
      cases a with
      | elsewhere =>
        cases hcall
        exact .inr (.inr ⟨rfl, rfl⟩)
      | create | update | softDelete | hardDelete => cases hactor
  · exact .inr (.inl rfl)

/-- Along a history whose actors may not write some roles, the rows of these stay as they are. -/
theorem history_spares {G : State → Label → Prop} {p : UserRole → Bool}
    (hp : ∀ s a actor, G s a → a.actor = some actor → ∀ role, MayWrite actor role → p role = false)
    (h : Path (usersMachine env) G s t) :
    t.users.rows.filter (fun user => p user.role) = s.users.rows.filter (fun user => p user.role) := by
  refine h.invariant (I := fun t => t.users.rows.filter (fun user => p user.role) =
    s.users.rows.filter (fun user => p user.role)) ?_ rfl
  intro t a u ht hguard hstep
  obtain ⟨actor, hactor, heffect⟩ | rfl | ⟨-, husers⟩ := step_cases hstep
  · rw [effect_spares heffect (hp t a actor hguard hactor), ht]
  · exact ht
  · rw [husers, ht]

theorem isPrivileged_eq (actor : AuthUser) : isPrivileged actor = isAdministrator actor.role := by
  obtain ⟨id, role⟩ := actor
  cases role <;> rfl

/-- **Role boundaries.** In a history of actors below SUPER_ADMIN the rows of the super
administrators are what they were. In one of actors below ADMIN so are all rows above OPERATOR, and
each call in it leaves its actor's role and writes only rows of the groups the actor
administers. -/
theorem role_boundaries (env : Env) (s t : State) :
    (Path (usersMachine env) BelowSuperAdmin s t → superAdmins t = superAdmins s) ∧
    (Path (usersMachine env) BelowAdmin s t → administrators t = administrators s ∧
      ∀ a actor u, BelowAdmin t a → a.actor = some actor →
        (usersMachine env).step t a = some u → Confined t actor u) := by
  constructor
  · intro h
    apply history_spares (p := fun role => role = .superAdmin) ?_ h
    intro s a actor hguard hactor role hrole
    exact decide_eq_false (hrole.notSuper (hguard actor hactor))
  · intro h
    constructor
    · apply history_spares (p := isAdministrator) ?_ h
      intro s a actor hguard hactor role hrole
      exact hrole.below ((isPrivileged_eq actor).trans (hguard actor hactor))
    · intro a actor u hguard hactor hstep
      have hprivileged := (isPrivileged_eq actor).trans (hguard actor hactor)
      obtain ⟨actor', hactor', heffect⟩ | rfl | ⟨hnone, -⟩ := step_cases hstep
      · obtain rfl := Option.some.inj (hactor.symm.trans hactor')
        exact effect_confined heffect hprivileged
      · refine ⟨?_, fun row hrow hnew => absurd hrow hnew, fun row hrow hgone => absurd hrow hgone⟩
        intro row hrow hid row' hrow' hid'
        rw [UserTable.eq_of_id hrow' hrow (hid'.trans hid.symm)]
      · rw [hactor] at hnone
        cases hnone

def belowAdmin (_ : State) (a : Label) : Bool := a.actor.all (fun actor => !isAdministrator actor.role)

def root : Id := ⟨"root", by decide⟩

def rui : Id := ⟨"rui", by decide⟩

def eva : Id := ⟨"eva", by decide⟩

def yard : Id := ⟨"back yard", by decide⟩

/-- A super administrator, and an operator who administers the group of the yard. -/
def yardStaff : State where
  users := {
    rows := [
      { id := root, name := "Root", email := "root@d", passwordHash := "", role := .superAdmin },
      { id := rui, name := "Rui", email := "rui@d", passwordHash := "", role := .operator }]
    ids := by decide
    emails := by decide }
  permissions := [{ userId := rui, cameraId := none, groupId := some yard, level := .admin }]
  groups := [yard]
  cameras := []
  requireStrongPassword := false

/-- Rui takes Eva on, makes her an operator, and tries for the super administrator. -/
theorem role_boundaries_yard : ∃ t, Path (usersMachine ⟨id, id⟩) BelowAdmin yardStaff t ∧
    t.users.rows.length = 3 ∧ administrators t = administrators yardStaff := by
  have hrun : ((usersMachine ⟨id, id⟩).run belowAdmin yardStaff [
      .create ⟨rui, .operator⟩ { name := "Eva", email := "eva@d", password := "abcd", role := .viewer } eva,
      .update ⟨rui, .operator⟩ eva { role := some .operator },
      .softDelete ⟨rui, .operator⟩ root]).map (fun t => t.users.rows.length) = some 3 := by
    decide +kernel
  obtain ⟨t, ht, hlength⟩ := Option.map_eq_some_iff.mp hrun
  have hpath : Path (usersMachine ⟨id, id⟩) BelowAdmin yardStaff t := by
    refine path_of_run (fun s a h => ?_) _ ht
    intro actor hactor
    unfold belowAdmin at h
    rwa [hactor, Option.all_some, Bool.not_eq_true'] at h
  exact ⟨t, hpath, hlength, ((role_boundaries ⟨id, id⟩ yardStaff t).2 hpath).1⟩

end Drac.Access.UserManagement
