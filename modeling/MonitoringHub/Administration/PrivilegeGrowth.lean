import Mathlib.Logic.Relation
import MonitoringHub.Administration.Directory
import MonitoringHub.Lib.RowTable
import MonitoringHub.Lib.StepRun

/-! What delegated administration can add to anyone's access. Users without the admin role make
roles, set their permissions, bind them and put users into groups; each of these has a guard of
its own, and none but the editing of a role asks for the permissions themselves. -/

namespace MonitoringHub.Administration
open Lib Lib.KeyedStore Access

inductive RoleOp
  | createRole (name key : String) (codes : List String)
  | cloneRole (source name key : String)
  | setPermissions (role : String) (codes : List String)
  | bind (row : BindingRow)
  | addMembers (group : ℕ) (userIds : List ℕ)

/-- `_BUILTIN_KEYS` -/
def builtinKeys : List String := ["admin", "editor", "viewer"]

def roleKeyInitial (c : Char) : Bool := c.isLower

def roleKeyChar (c : Char) : Bool := c.isLower || c.isDigit || c = '_'

/-- `^[a-z][a-z0-9_]{1,39}$` -/
def roleKeyValid (key : String) : Bool :=
  match key.toList with
  | [] => false
  | c :: cs => roleKeyInitial c && 1 ≤ cs.length && cs.length ≤ 39 && cs.all roleKeyChar

/-- `INSERT INTO roles`; the key is unique. -/
def insertRole (roles : Roles) (role : Role) : Roles :=
  if h : role.key ∈ roles.rows.map Role.key then roles
  else ⟨roles.rows ++ [role], by
    rw [List.map_append, List.nodup_append]
    refine ⟨roles.distinct, List.nodup_singleton _, fun key hkey other hother => ?_⟩
    rw [List.mem_singleton.mp hother]
    rintro rfl
    exact h hkey⟩

def withPermissions (key : String) (codes : List String) (role : Role) : Role :=
  if role.key = key then { role with permissions := codes } else role

/-- `DELETE` and `INSERT` of the role's rows in `role_permissions_v2`. -/
def replacePermissions (roles : Roles) (key : String) (codes : List String) : Roles where
  rows := roles.rows.map (withPermissions key codes)
  distinct := by
    have hkeys : (roles.rows.map (withPermissions key codes)).map Role.key =
        roles.rows.map Role.key := by
      rw [List.map_map]
      refine List.map_congr_left fun role _ => ?_
      rw [Function.comp_apply, withPermissions]
      split <;> rfl
    rw [hkeys]
    exact roles.distinct

theorem find_insertRole {roles : Roles} {role : Role} (hnew : roles.find role.key = none)
    (key : String) :
    (insertRole roles role).find key = if key = role.key then some role else roles.find key := by
  have hmem : role.key ∉ roles.rows.map Role.key := by
    intro h
    obtain ⟨old, hold, hkey⟩ := List.mem_map.mp h
    have hno := List.find?_eq_none.mp hnew old hold
    simp [hkey] at hno
  rw [insertRole, dif_neg hmem]
  unfold Roles.find at hnew ⊢
  rw [List.find?_append]
  by_cases hkey : key = role.key
  · subst hkey
    rw [hnew, if_pos rfl]
    simp
  · have hne : ¬ role.key = key := fun heq => hkey heq.symm
    rw [if_neg hkey, List.find?_singleton]
    simp [hne]

theorem find_replacePermissions (roles : Roles) (key : String) (codes : List String) (k : String) :
    (replacePermissions roles key codes).find k =
      (roles.find k).map (withPermissions key codes) := by
  unfold Roles.find replacePermissions
  rw [List.find?_map]
  have hsame : (fun role : Role => decide (role.key = k)) ∘ withPermissions key codes =
      fun role : Role => decide (role.key = k) := by
    funext role
    rw [Function.comp_apply, withPermissions]
    split <;> rfl
  rw [hsame]

namespace Directory

/-- `create_role` past its permission; the codes are those that are known. -/
def createRole (s : Directory) (name key : String) (codes : List String) : Option Directory :=
  if h : (s.roles.find key).isNone = true then
    if name ≠ "" ∧ name.length ≤ 100 ∧ roleKeyValid key = true ∧ key ∉ builtinKeys ∧
        ∀ code ∈ codes, code ∈ s.codes then
      some { s with
        roles := insertRole s.roles ⟨key, 0, s.codes.filter codes.contains⟩
        bound := by
          intro entry hentry b hb
          rw [find_insertRole (Option.isNone_iff_eq_none.mp h)]
          split
          · rfl
          · exact s.bound entry hentry b hb }
    else none
  else none

/-- `set_role_permissions` past its permission; the first version's table mirrors the base
roles. -/
def setPermissions (s : Directory) (actorRole : String) (access : ActorAccess) (key : String)
    (codes : List String) : Option Directory :=
  if (s.roles.find key).isSome = true ∧ key ≠ "admin" ∧
      (∀ code ∈ codes, s.hasPermission actorRole access code = true) ∧
      ∀ code ∈ codes, code ∈ s.codes then
    let codes := s.codes.filter codes.contains
    some { s with
      roles := replacePermissions s.roles key codes
      rolePermissions :=
        if key ∈ builtinKeys then write key codes s.rolePermissions else s.rolePermissions
      bound := by
        intro entry hentry b hb
        rw [find_replacePermissions, Option.isSome_map]
        exact s.bound entry hentry b hb }
  else none

/-- `INSERT INTO user_group_memberships`, where a row that is there already is kept. -/
def addMember (group : ℕ) (members : List (ℕ × ℕ)) (user : ℕ) : List (ℕ × ℕ) :=
  RowTable.insertNew (user, group) members

/-- `add_group_members` past its permission. -/
def addMembers (s : Directory) (group : ℕ) (userIds : List ℕ) : Option Directory :=
  if userIds ≠ [] ∧ s.principalExists (.group group) = true ∧
      ∀ id ∈ userIds, s.principalExists (.user id) = true then
    some { s with members := userIds.foldl (addMember group) s.members }
  else none

/-- The codes of a clone: those of the source that the actor has too. -/
def clonedCodes (s : Directory) (actorRole : String) (access : ActorAccess) (source : Role) :
    List String := source.permissions.filter fun code => s.hasPermission actorRole access code

/-- An operation by a user who is no admin. -/
def step (s : Directory) (act : ℕ × RoleOp) : Option Directory :=
  match find act.1 s.users with
  | none => none
  | some role =>
    let access := s.load act.1 role
    let permitted := fun code => role ≠ "admin" && s.hasPermission role access code
    match act.2 with
    | .createRole name key codes =>
      if permitted "roles.create" then s.createRole name key codes else none
    | .cloneRole source name key =>
      match s.roles.find source with
      | some source =>
        if permitted "roles.create" then
          s.createRole name key (s.clonedCodes role access source)
        else none
      | none => none
    | .setPermissions key codes =>
      if permitted "permissions.manage" then s.setPermissions role access key codes else none
    | .bind row => if permitted bindingManage then s.createBinding role access row else none
    | .addMembers group userIds =>
      if permitted "groups.update" then s.addMembers group userIds else none

/-- The role whose permissions an operation sets, and the codes that it gets. -/
def newCodes (s : Directory) (actor : ℕ) : RoleOp → Option (String × List String)
  | .createRole _ key codes => some (key, codes)
  | .cloneRole source _ key =>
    match find actor s.users, s.roles.find source with
    | some role, some source => some (key, s.clonedCodes role (s.load actor role) source)
    | _, _ => none
  | .setPermissions key codes => some (key, codes)
  | _ => none

/-- The groups that an operation puts the user in or beneath. -/
def newGroups (s : Directory) (user : ℕ) : RoleOp → List ℕ
  | .addMembers group userIds => if user ∈ userIds then s.lineageOf group else []
  | _ => []

/-- The bindings that an operation puts in force for the user. -/
def NewRow (s : Directory) (user : ℕ) : RoleOp → BindingRow → Prop
  | .bind row, b => b = row ∧ s.reaches user row.principal = true
  | op, b => some b ∈ s.bindings ∧ s.unexpired b.expiresAt = true ∧
      ∃ group ∈ s.newGroups user op, b.principal = .group group

/-- Where the user has what the role of this key gives. -/
def RoleScope (s : Directory) (user : ℕ) (role key : String) (scope : Scope) : Prop :=
  (∃ b ∈ s.rowsOf user, b.role = key ∧ s.scopes[b.scopeId]? = some scope) ∨
    role = key ∧ s.ownBindings user = [] ∧ scope ∈ s.legacyScopes user

/-- An operation gives the user the permission on the scope: through a role that it edits,
through a binding, or through the policies of a group where no binding counts. -/
inductive Gains (s : Directory) (actor : ℕ) (op : RoleOp) (user : ℕ) (role permission : String)
    (scope : Scope) : Prop
  | edited (key : String) (codes : List String) (hop : s.newCodes actor op = some (key, codes))
      (hcode : permission ∈ codes) (hscope : s.RoleScope user role key scope)
  | bound (b : BindingRow) (hrow : s.NewRow user op b)
      (hcode : permission ∈ s.roles.permissionsOf b.role)
      (hscope : s.scopes[b.scopeId]? = some scope)
  | inherited (hown : s.ownBindings user = [])
      (hnone : ∀ b, s.NewRow user op b → s.scopes[b.scopeId]? = none) (group : ℕ)
      (hgroup : group ∈ s.newGroups user op) (hpolicy : (group, scope) ∈ s.groupPolicies)
      (hcode : permission ∈ s.roles.permissionsOf role)

/-- A denial of the user, or of a group that the operation puts the user in or beneath. -/
def DeniesAfter (s : Directory) (user : ℕ) (op : RoleOp) (permission : String) (target : Target) :
    Prop :=
  s.Denies user permission target ∨
    ∃ o ∈ s.overrides, s.unexpired o.expiresAt = true ∧
      (∃ group ∈ s.newGroups user op, o.principal = .group group) ∧
      (⟨o.permissionCode, o.scopeId.bind fun id => s.scopes[id]?⟩ : Denial).applies permission target =
        true

/-- What an operation gives anyone, the actor has there, unless the other has it already or is
denied it. -/
def Within (s : Directory) (act : ℕ × RoleOp) : Prop :=
  ∀ user role, find user s.users = some role → ∀ permission scope,
    s.Gains act.1 act.2 user role permission scope → ∀ target, scope.covers target = true →
      s.allows act.1 permission target = true ∨ s.allows user permission target = true ∨
        s.DeniesAfter user act.2 permission target

end Directory

section Steps
variable {s t : Directory} {actor user : ℕ} {op : RoleOp} {role permission key : String}
  {codes : List String} {scope : Scope} {b row : BindingRow}

/-- Only the permissions of one role have changed. -/
structure Edited (s t : Directory) (key : String) (codes : List String) : Prop where
  rest : ∃ roles rolePermissions bound,
    t = { s with roles := roles, rolePermissions := rolePermissions, bound := bound }
  own : ∀ permission, permission ∈ t.roles.permissionsOf key ↔ permission ∈ codes
  others : ∀ k, k ≠ key → t.roles.permissionsOf k = s.roles.permissionsOf k
  notAdmin : key ≠ "admin"

theorem Edited.grants (h : Edited s t key codes)
    (hgrants : t.Grants user role permission scope) :
    s.Grants user role permission scope ∨ permission ∈ codes ∧ s.RoleScope user role key scope := by
  have hown := h.own
  have hothers := h.others
  obtain ⟨roles, rolePermissions, bound, rfl⟩ := h.rest
  rw [grants_iff] at hgrants ⊢
  rcases hgrants with ⟨b, hb, hcode, hscope⟩ | ⟨hnone, hlegacy⟩
  · by_cases hkey : b.role = key
    · exact .inr ⟨(hown permission).mp (hkey ▸ hcode), .inl ⟨b, hb, hkey, hscope⟩⟩
    · exact .inl (.inl ⟨b, hb, hothers b.role hkey ▸ hcode, hscope⟩)
  · have hrows := ownBindings_nil.mp hnone
    have hnone : s.ownBindings user = [] := ownBindings_nil.mpr hrows
    rcases hlegacy with ⟨hscope, hcode⟩ | ⟨hempty, rfl, rfl, hcode⟩
    · by_cases hkey : role = key
      · exact .inr ⟨(hown permission).mp (hkey ▸ hcode), .inr ⟨hkey, hnone, hscope⟩⟩
      · exact .inl (.inr ⟨hnone, .inl ⟨hscope, hothers role hkey ▸ hcode⟩⟩)
    · rw [hothers _ h.notAdmin.symm] at hcode
      exact .inl (.inr ⟨hnone, .inr ⟨hempty, rfl, rfl, hcode⟩⟩)

theorem Edited.grants_of_roleScope (h : Edited s t key codes) (hcode : permission ∈ codes)
    (hscope : s.RoleScope user role key scope) : t.Grants user role permission scope := by
  have hown := h.own
  obtain ⟨roles, rolePermissions, bound, rfl⟩ := h.rest
  rw [grants_iff]
  rcases hscope with ⟨b, hb, rfl, hscope⟩ | ⟨rfl, hnone, hscope⟩
  · exact .inl ⟨b, hb, (hown permission).mpr hcode, hscope⟩
  · have hrows := ownBindings_nil.mp hnone
    exact .inr ⟨ownBindings_nil.mpr hrows, .inl ⟨hscope, (hown permission).mpr hcode⟩⟩

/-- The roles are what they were; new bindings are in force, and policies of new groups count. -/
structure Widened (s t : Directory) (user : ℕ) (op : RoleOp) : Prop where
  roles : t.roles = s.roles
  scopes : t.scopes = s.scopes
  codes : t.codes = s.codes
  rows : ∀ b, b ∈ t.rowsOf user ↔ b ∈ s.rowsOf user ∨ s.NewRow user op b
  policies : ∀ scope, scope ∈ t.legacyScopes user ↔ scope ∈ s.legacyScopes user ∨
    ∃ group ∈ s.newGroups user op, (group, scope) ∈ s.groupPolicies

theorem Widened.ownBindings_nil (h : Widened s t user op) : t.ownBindings user = [] ↔
    s.ownBindings user = [] ∧ ∀ b, s.NewRow user op b → s.scopes[b.scopeId]? = none := by
  rw [Administration.ownBindings_nil, Administration.ownBindings_nil, h.scopes]
  simp only [h.rows, or_imp, forall_and]

theorem Widened.grants (h : Widened s t user op) (hgrants : t.Grants user role permission scope) :
    s.Grants user role permission scope ∨ s.Gains actor op user role permission scope := by
  rw [grants_iff] at hgrants ⊢
  rw [h.scopes, h.roles, h.ownBindings_nil] at hgrants
  rcases hgrants with ⟨b, hb, hcode, hscope⟩ | ⟨⟨hnone, hnew⟩, hlegacy⟩
  · rcases (h.rows b).mp hb with hold | hrow
    · exact .inl (.inl ⟨b, hold, hcode, hscope⟩)
    · exact .inr (.bound b hrow hcode hscope)
  · unfold Directory.LegacyGrants at hlegacy
    rw [h.roles, h.codes] at hlegacy
    rcases hlegacy with ⟨hscope, hcode⟩ | ⟨hempty, rfl, rfl, hcode⟩
    · rcases (h.policies scope).mp hscope with hold | ⟨group, hgroup, hpolicy⟩
      · exact .inl (.inr ⟨hnone, .inl ⟨hold, hcode⟩⟩)
      · exact .inr (.inherited hnone hnew group hgroup hpolicy hcode)
    · have hold : s.legacyScopes user = [] := by
        refine List.eq_nil_iff_forall_not_mem.mpr fun scope hscope => ?_
        have hmem := (h.policies scope).mpr (.inl hscope)
        rw [hempty] at hmem
        cases hmem
      exact .inl (.inr ⟨hnone, .inr ⟨hold, rfl, rfl, hcode⟩⟩)

theorem Widened.grants_of_gains (h : Widened s t user op) (hcodes : s.newCodes actor op = none)
    (hgains : s.Gains actor op user role permission scope) :
    t.Grants user role permission scope := by
  rw [grants_iff, h.scopes, h.roles, h.ownBindings_nil]
  cases hgains with
  | edited key codes hop => cases hcodes.symm.trans hop
  | bound b hrow hcode hscope => exact .inl ⟨b, (h.rows b).mpr (.inr hrow), hcode, hscope⟩
  | inherited hown hnone group hgroup hpolicy hcode =>
    refine .inr ⟨⟨hown, hnone⟩, .inl ⟨(h.policies scope).mpr (.inr ⟨group, hgroup, hpolicy⟩), ?_⟩⟩
    rw [h.roles]
    exact hcode

theorem permissionsOf_insertRole {roles : Roles} {role : Role} (hnew : roles.find role.key = none)
    (k : String) : (insertRole roles role).permissionsOf k =
      if k = role.key then role.permissions else roles.permissionsOf k := by
  unfold Roles.permissionsOf
  rw [find_insertRole hnew]
  split <;> rfl

theorem permissionsOf_replacePermissions {roles : Roles} (hrole : (roles.find key).isSome = true)
    (k : String) : (replacePermissions roles key codes).permissionsOf k =
      if k = key then codes else roles.permissionsOf k := by
  unfold Roles.permissionsOf
  rw [find_replacePermissions]
  by_cases hk : k = key
  · subst hk
    obtain ⟨role, hrole⟩ := Option.isSome_iff_exists.mp hrole
    have hkey : role.key = k := by simpa using List.find?_some hrole
    rw [if_pos rfl, hrole, Option.map_some, Option.map_some, Option.getD_some, withPermissions,
      if_pos hkey]
  · rw [if_neg hk, Option.map_map]
    congr 1
    cases hfind : roles.find k with
    | none => rfl
    | some role =>
      have hkey : role.key = k := by simpa using List.find?_some hfind
      rw [Option.map_some, Option.map_some, Function.comp_apply, withPermissions,
        if_neg (hkey ▸ hk)]

theorem mem_knownCodes (hknown : ∀ code ∈ codes, code ∈ s.codes) :
    permission ∈ s.codes.filter codes.contains ↔ permission ∈ codes := by
  rw [List.mem_filter, List.contains_iff_mem]
  exact ⟨fun h => h.2, fun h => ⟨hknown _ h, h⟩⟩

theorem edited_createRole {name : String} (h : s.createRole name key codes = some t) :
    Edited s t key codes := by
  unfold Directory.createRole at h
  split at h
  · rename_i hnew
    obtain ⟨⟨-, -, -, hbuiltin, hknown⟩, h⟩ := Option.ite_none_right_eq_some.mp h
    obtain rfl := Option.some.inj h
    have hnew : s.roles.find key = none := Option.isNone_iff_eq_none.mp hnew
    refine ⟨⟨_, _, _, rfl⟩, fun permission => ?_, fun k hk => ?_, fun hadmin => hbuiltin ?_⟩
    · dsimp only
      rw [permissionsOf_insertRole hnew, if_pos rfl]
      exact mem_knownCodes hknown
    · dsimp only
      rw [permissionsOf_insertRole hnew, if_neg hk]
    · rw [hadmin]
      exact List.mem_cons_self
  · cases h

theorem edited_setPermissions {actorRole : String} {access : ActorAccess}
    (h : s.setPermissions actorRole access key codes = some t) : Edited s t key codes := by
  unfold Directory.setPermissions at h
  obtain ⟨⟨hrole, hadmin, -, hknown⟩, h⟩ := Option.ite_none_right_eq_some.mp h
  obtain rfl := Option.some.inj h
  refine ⟨⟨_, _, _, rfl⟩, fun permission => ?_, fun k hk => ?_, hadmin⟩
  · dsimp only
    rw [permissionsOf_replacePermissions hrole, if_pos rfl]
    exact mem_knownCodes hknown
  · dsimp only
    rw [permissionsOf_replacePermissions hrole, if_neg hk]

theorem widened_createBinding {actorRole : String} {access : ActorAccess}
    (h : s.createBinding actorRole access row = some t) (user : ℕ) :
    Widened s t user (.bind row) := by
  unfold Directory.createBinding at h
  split at h
  · obtain ⟨hchecks, h⟩ := Option.ite_none_right_eq_some.mp h
    simp only [Bool.and_eq_true] at hchecks
    obtain ⟨⟨-, hunexpired⟩, -⟩ := hchecks
    obtain rfl := Option.some.inj h
    refine ⟨rfl, rfl, rfl, fun b => ?_, fun scope => ?_⟩
    · rw [mem_rowsOf, mem_rowsOf]
      dsimp only
      rw [List.mem_append, List.mem_singleton, Option.some.injEq, or_and_right]
      refine or_congr Iff.rfl ⟨?_, ?_⟩
      · rintro ⟨rfl, hreaches, -⟩
        exact ⟨rfl, hreaches⟩
      · rintro ⟨rfl, hreaches⟩
        exact ⟨rfl, hreaches, hunexpired⟩
    · refine ⟨.inl, fun hscope => hscope.resolve_right ?_⟩
      rintro ⟨group, hgroup, -⟩
      cases hgroup
  · cases h

theorem mem_foldl_addMember {group : ℕ} {userIds : List ℕ} {members : List (ℕ × ℕ)} {m : ℕ × ℕ} :
    m ∈ userIds.foldl (Directory.addMember group) members ↔
      m ∈ members ∨ m.1 ∈ userIds ∧ m.2 = group := by
  induction userIds generalizing members with
  | nil => simp
  | cons id userIds ih =>
    rw [List.foldl_cons, ih, Directory.addMember, RowTable.mem_insertNew, List.mem_cons, or_assoc,
      or_and_right, Prod.ext_iff]

theorem mem_groupIds {group : ℕ} :
    group ∈ s.groupIds user ↔ ∃ m, (user, m) ∈ s.members ∧ group ∈ s.lineageOf m := by
  rw [Directory.groupIds, List.mem_flatMap]
  constructor
  · rintro ⟨⟨u, m⟩, hm, hgroup⟩
    obtain ⟨hmem, hu⟩ := List.mem_filter.mp hm
    obtain rfl : u = user := of_decide_eq_true hu
    exact ⟨m, hmem, hgroup⟩
  · rintro ⟨m, hmem, hgroup⟩
    exact ⟨(user, m), List.mem_filter.mpr ⟨hmem, decide_eq_true rfl⟩, hgroup⟩

section Members
variable {group : ℕ} {userIds : List ℕ}

theorem mem_newGroups {g : ℕ} : g ∈ s.newGroups user (.addMembers group userIds) ↔
    user ∈ userIds ∧ g ∈ s.lineageOf group := by
  change g ∈ (if user ∈ userIds then s.lineageOf group else []) ↔ _
  split
  · rename_i huser
    exact ⟨fun hg => ⟨huser, hg⟩, fun h => h.2⟩
  · rename_i huser
    exact ⟨fun hg => (List.not_mem_nil hg).elim, fun h => absurd h.1 huser⟩

theorem groupIds_addMembers (h : s.addMembers group userIds = some t) {g : ℕ} :
    g ∈ t.groupIds user ↔
      g ∈ s.groupIds user ∨ g ∈ s.newGroups user (.addMembers group userIds) := by
  obtain ⟨-, h⟩ := Option.ite_none_right_eq_some.mp h
  obtain rfl := Option.some.inj h
  rw [mem_groupIds, mem_groupIds, mem_newGroups]
  simp only [mem_foldl_addMember, or_and_right, exists_or]
  refine or_congr Iff.rfl ⟨?_, ?_⟩
  · rintro ⟨m, ⟨huser, rfl⟩, hg⟩
    exact ⟨huser, hg⟩
  · rintro ⟨huser, hg⟩
    exact ⟨group, ⟨huser, rfl⟩, hg⟩

theorem reaches_addMembers (h : s.addMembers group userIds = some t) (user : ℕ)
    (principal : Principal) :
    t.reaches user principal = true ↔ s.reaches user principal = true ∨
      ∃ g ∈ s.newGroups user (.addMembers group userIds), principal = .group g := by
  cases principal with
  | user id =>
    refine ⟨.inl, fun hreaches => hreaches.resolve_right ?_⟩
    rintro ⟨g, -, heq⟩
    cases heq
  | group id =>
    simp only [Directory.reaches, List.contains_iff_mem, groupIds_addMembers h,
      Principal.group.injEq]
    exact or_congr_right ⟨fun hg => ⟨id, hg, rfl⟩, fun ⟨g, hg, heq⟩ => heq ▸ hg⟩

theorem widened_addMembers (h : s.addMembers group userIds = some t) (user : ℕ) :
    Widened s t user (.addMembers group userIds) := by
  have hreaches := reaches_addMembers h user
  have hgroups : ∀ g, g ∈ t.groupIds user ↔ g ∈ s.groupIds user ∨
      g ∈ s.newGroups user (.addMembers group userIds) := fun g => groupIds_addMembers h
  obtain ⟨-, h⟩ := Option.ite_none_right_eq_some.mp h
  obtain rfl := Option.some.inj h
  refine ⟨rfl, rfl, rfl, fun b => ?_, fun scope => ?_⟩
  · rw [mem_rowsOf, mem_rowsOf, hreaches]
    change some b ∈ s.bindings ∧ _ ∧ s.unexpired b.expiresAt = true ↔ _ ∨
      some b ∈ s.bindings ∧ s.unexpired b.expiresAt = true ∧ _
    tauto
  · simp only [Directory.legacyScopes, List.mem_append, List.mem_map, List.mem_filter,
      List.contains_iff_mem, hgroups, and_or_left, or_and_right, exists_or]
    rw [or_assoc]
    refine or_congr_right (or_congr_right ⟨?_, ?_⟩)
    · rintro ⟨⟨g, scope'⟩, ⟨hpolicy, hg⟩, rfl⟩
      exact ⟨g, hg, hpolicy⟩
    · rintro ⟨g, hg, hpolicy⟩
      exact ⟨(g, scope), ⟨hpolicy, hg⟩, rfl⟩

end Members

/-- What every operation leaves, and whom it lets a row reach. -/
structure Frame (s t : Directory) (op : RoleOp) : Prop where
  users : t.users = s.users
  overrides : t.overrides = s.overrides
  scopes : t.scopes = s.scopes
  now : t.now = s.now
  reaches : ∀ user principal, t.reaches user principal = true ↔ s.reaches user principal = true ∨
    ∃ g ∈ s.newGroups user op, principal = .group g

theorem Edited.frame (h : Edited s t key codes) (hgroups : ∀ user, s.newGroups user op = []) :
    Frame s t op := by
  obtain ⟨_, _, _, rfl⟩ := h.rest
  refine ⟨rfl, rfl, rfl, rfl, fun user principal => ⟨.inl, fun hreaches => ?_⟩⟩
  refine hreaches.resolve_right ?_
  rintro ⟨g, hg, -⟩
  rw [hgroups user] at hg
  cases hg

/-- What an operation is: it edits one role, or it widens everyone's bindings and policies. -/
theorem step_cases (h : s.step (actor, op) = some t) : Frame s t op ∧
    ((∃ key codes, s.newCodes actor op = some (key, codes) ∧ Edited s t key codes ∧
        ∀ user b, ¬ s.NewRow user op b) ∨
      s.newCodes actor op = none ∧ ∀ user, Widened s t user op) := by
  unfold Directory.step at h
  split at h
  · cases h
  · rename_i actorRole hactor
    dsimp only at h hactor
    cases op with
    | createRole name key codes =>
      obtain ⟨-, h⟩ := Option.ite_none_right_eq_some.mp h
      have hedited := edited_createRole h
      refine ⟨hedited.frame fun _ => rfl, .inl ⟨key, codes, rfl, hedited, ?_⟩⟩
      rintro user b ⟨-, -, g, hg, -⟩
      cases hg
    | cloneRole source name key =>
      dsimp only at h
      split at h
      · rename_i role hrole
        obtain ⟨-, h⟩ := Option.ite_none_right_eq_some.mp h
        have hedited := edited_createRole h
        refine ⟨hedited.frame fun _ => rfl, .inl ⟨key, _, ?_, hedited, ?_⟩⟩
        · simp only [Directory.newCodes, hactor, hrole]
        · rintro user b ⟨-, -, g, hg, -⟩
          cases hg
      · cases h
    | setPermissions key codes =>
      obtain ⟨-, h⟩ := Option.ite_none_right_eq_some.mp h
      have hedited := edited_setPermissions h
      refine ⟨hedited.frame fun _ => rfl, .inl ⟨key, codes, rfl, hedited, ?_⟩⟩
      rintro user b ⟨-, -, g, hg, -⟩
      cases hg
    | bind row =>
      obtain ⟨-, h⟩ := Option.ite_none_right_eq_some.mp h
      refine ⟨?_, .inr ⟨rfl, widened_createBinding h⟩⟩
      unfold Directory.createBinding at h
      split at h
      · obtain ⟨-, h⟩ := Option.ite_none_right_eq_some.mp h
        obtain rfl := Option.some.inj h
        refine ⟨rfl, rfl, rfl, rfl, fun user principal => ⟨.inl, fun hreaches => ?_⟩⟩
        refine hreaches.resolve_right ?_
        rintro ⟨g, hg, -⟩
        cases hg
      · cases h
    | addMembers group userIds =>
      obtain ⟨-, h⟩ := Option.ite_none_right_eq_some.mp h
      refine ⟨?_, .inr ⟨rfl, widened_addMembers h⟩⟩
      have hreaches := reaches_addMembers h
      obtain ⟨-, h⟩ := Option.ite_none_right_eq_some.mp h
      obtain rfl := Option.some.inj h
      exact ⟨rfl, rfl, rfl, rfl, hreaches⟩

/-- An operation adds what `Gains` says, and nothing else. -/
theorem grants_step (h : s.step (actor, op) = some t) :
    (t.Grants user role permission scope →
      s.Grants user role permission scope ∨ s.Gains actor op user role permission scope) ∧
    (s.Gains actor op user role permission scope → t.Grants user role permission scope) := by
  obtain ⟨-, ⟨key, codes, hcodes, hedited, hnorow⟩ | ⟨hcodes, hwidened⟩⟩ := step_cases h
  · refine ⟨fun hgrants => ?_, fun hgains => ?_⟩
    · exact (hedited.grants hgrants).imp_right fun hnew => .edited key codes hcodes hnew.1 hnew.2
    · cases hgains with
      | edited key' codes' hop hcode hscope =>
        obtain ⟨rfl, rfl⟩ := Prod.mk.inj (Option.some.inj (hcodes.symm.trans hop))
        exact hedited.grants_of_roleScope hcode hscope
      | bound b hrow => exact absurd hrow (hnorow user b)
      | inherited hown hnone group hgroup =>
        cases op with
        | createRole | cloneRole | setPermissions => exact (List.not_mem_nil hgroup).elim
        | bind | addMembers => cases hcodes
  · exact ⟨(hwidened user).grants, (hwidened user).grants_of_gains hcodes⟩

/-- No operation takes a denial away. -/
theorem denies_step (h : s.step (actor, op) = some t) {target : Target} :
    t.Denies user permission target ↔ s.DeniesAfter user op permission target := by
  obtain ⟨hframe, -⟩ := step_cases h
  have hdenies (d : Directory) : d.Denies user permission target ↔
      ∃ o ∈ d.overrides, d.unexpired o.expiresAt = true ∧ d.reaches user o.principal = true ∧
        (⟨o.permissionCode, o.scopeId.bind fun id => d.scopes[id]?⟩ : Denial).applies permission
          target = true := by
    simp only [Directory.Denies, Directory.denials, List.mem_map, List.mem_filter, Bool.and_eq_true]
    constructor
    · rintro ⟨_, ⟨o, ⟨ho, hreaches, hunexpired⟩, rfl⟩, happlies⟩
      exact ⟨o, ho, hunexpired, hreaches, happlies⟩
    · rintro ⟨o, ho, hunexpired, hreaches, happlies⟩
      exact ⟨_, ⟨o, ⟨ho, hreaches, hunexpired⟩, rfl⟩, happlies⟩
  unfold Directory.DeniesAfter
  rw [hdenies t, hdenies s]
  simp only [hframe.overrides, hframe.scopes, hframe.reaches, Directory.unexpired, hframe.now,
    or_and_right, and_or_left, exists_or]

/-- The guard asks for what is missing, and for no more. -/
theorem within_iff (h : s.step (actor, op) = some t) : s.Within (actor, op) ↔
    ∀ user permission target, t.allows user permission target = true →
      s.allows user permission target = true ∨ s.allows actor permission target = true := by
  obtain ⟨hframe, -⟩ := step_cases h
  constructor
  · intro hwithin user permission target hallows
    obtain ⟨role, hrole⟩ := exists_of_allows hallows
    obtain ⟨hclear, scope, hgrants, hcovers⟩ := (allows_iff hrole).mp hallows
    rw [hframe.users] at hrole
    rw [denies_step h] at hclear
    rcases (grants_step h).1 hgrants with hold | hgains
    · have hbefore : ¬ s.Denies user permission target := fun hdenies => hclear (.inl hdenies)
      exact .inl ((allows_iff hrole).mpr ⟨hbefore, scope, hold, hcovers⟩)
    · rcases hwithin user role hrole permission scope hgains target hcovers with
        hactor | huser | hdenied
      · exact .inr hactor
      · exact .inl huser
      · exact absurd hdenied hclear
  · intro hgrowth user role hrole permission scope hgains target hcovers
    by_cases hdenied : s.DeniesAfter user op permission target
    · exact .inr (.inr hdenied)
    · rw [← denies_step h] at hdenied
      have hallows : t.allows user permission target = true :=
        (allows_iff (hframe.users ▸ hrole)).mpr ⟨hdenied, scope, (grants_step h).2 hgains, hcovers⟩
      exact (hgrowth user permission target hallows).elim (fun hu => .inr (.inl hu)) .inl

end Steps

section Runs
variable {s t start : Directory} {permission : String} {target : Target}
  {tr : List (ℕ × RoleOp)}

/-- An operation of the run by `giver`, who was allowed the permission there, made it possible
for `user`. -/
def Gives (start : Directory) (tr : List (ℕ × RoleOp)) (permission : String) (target : Target)
    (giver user : ℕ) : Prop :=
  ∃ later op earlier s t, tr = later ++ (giver, op) :: earlier ∧
    Steps (Takes Directory.step) start earlier s ∧ s.step (giver, op) = some t ∧
    s.allows giver permission target = true ∧ s.allows user permission target = false ∧
    t.allows user permission target = true

theorem Gives.longer {giver user : ℕ} (h : Gives start tr permission target giver user)
    (act : ℕ × RoleOp) : Gives start (act :: tr) permission target giver user := by
  obtain ⟨later, op, earlier, s, t, rfl, h⟩ := h
  exact ⟨act :: later, op, earlier, s, t, rfl, h⟩

/-- Of what anyone is allowed, the first in the chain of givers was allowed it at the start. -/
def Traced (start : Directory) (tr : List (ℕ × RoleOp)) (t : Directory) : Prop :=
  ∀ user permission target, t.allows user permission target = true →
    ∃ first, start.allows first permission target = true ∧
      Relation.ReflTransGen (Gives start tr permission target) first user

theorem traced_step {act : ℕ × RoleOp} (run : Steps (Takes Directory.step) start tr s)
    (htraced : Traced start tr s) (hwithin : s.Within act) (h : s.step act = some t) :
    Traced start (act :: tr) t := by
  intro user permission target hallows
  have hlonger (user : ℕ) (hold : s.allows user permission target = true) :
      ∃ first, start.allows first permission target = true ∧
        Relation.ReflTransGen (Gives start (act :: tr) permission target) first user := by
    obtain ⟨first, hfirst, hchain⟩ := htraced user permission target hold
    exact ⟨first, hfirst, Relation.ReflTransGen.mono (fun _ _ h => Gives.longer h act) _ _ hchain⟩
  by_cases hold : s.allows user permission target = true
  · exact hlonger user hold
  · have hactor := ((within_iff h).mp hwithin user permission target hallows).resolve_left hold
    obtain ⟨first, hfirst, hchain⟩ := hlonger act.1 hactor
    exact ⟨first, hfirst, hchain.tail
      ⟨[], act.2, tr, s, t, rfl, run, h, hactor, eq_false_of_ne_true hold, hallows⟩⟩

/-- An actor who holds the permissions all over what an operation gives stays within. -/
theorem within_of_holdsOn {actor : ℕ} {op : RoleOp} {actorRole : String}
    (hactor : find actor s.users = some actorRole)
    (h : ∀ user role permission scope, find user s.users = some role →
      s.Gains actor op user role permission scope →
        (s.load actor actorRole).HoldsOn permission scope) : s.Within (actor, op) := by
  intro user role hrole permission scope hgains target hcovers
  have hcan := holdsOn_iff.mp (h user role permission scope hrole hgains) target hcovers
  refine .inl ?_
  unfold Directory.allows
  rw [hactor]
  exact hcan

theorem allows_false (h : (s.users.all fun user => !s.allows user.1 permission target) = true)
    (user : ℕ) : s.allows user permission target = false := by
  rw [Bool.eq_false_iff]
  intro hallows
  obtain ⟨role, hrole⟩ := exists_of_allows hallows
  have hnot := List.all_eq_true.mp h (user, role) (mem_of_find hrole)
  rw [hallows] at hnot
  cases hnot

end Runs

section Traces

/-- An editor who may make roles, bind them and fill groups, a newcomer, and a group of those on
call. -/
def delegatedTo (codes : List String) : Directory where
  now := 0
  users := [(7, "editor"), (9, "viewer")]
  parents := [(5, none)]
  members := []
  roles := ⟨[⟨"editor", 20, bindingManage :: codes⟩, ⟨"oncall", 0, ["operations.execute"]⟩],
    show ["editor", "oncall"].Nodup by decide⟩
  rolePermissions := [("editor", ["roles.create", bindingManage, "groups.update"])]
  codes := ["roles.create", bindingManage, "groups.update", "operations.execute"]
  scopes := [.everywhere]
  bindings := [some ⟨.user 7, "editor", 0, none, none⟩, some ⟨.group 5, "oncall", 0, none, none⟩]
  accessScopes := []
  groupPolicies := []
  overrides := []
  bound := by
    intro entry hentry b hb
    have hkey : b.role = "editor" ∨ b.role = "oncall" := by
      simp only [List.mem_cons, List.not_mem_nil, or_false] at hentry
      rcases hentry with rfl | rfl <;> obtain rfl := Option.some.inj hb <;> simp
    rcases hkey with hkey | hkey <;> rw [hkey] <;> rfl

def oncallFor (user : ℕ) : BindingRow := ⟨.user user, "oncall", 0, none, none⟩

theorem delegated_within : (delegatedTo ["operations.execute"]).Within (7, .bind (oncallFor 9)) := by
  intro user role hrole permission scope hgains target hcovers
  have hactor : find 7 (delegatedTo ["operations.execute"]).users = some "editor" := rfl
  refine .inl ((allows_iff hactor).mpr ⟨?_, .everywhere, ?_, Scope.everywhere_covers⟩)
  · rintro ⟨d, hd, -⟩
    cases hd
  · cases hgains with
    | edited key codes hop => cases hop
    | inherited _ _ group hgroup => cases hgroup
    | bound b hrow hcode =>
      obtain ⟨rfl, -⟩ := hrow
      obtain rfl : permission = "operations.execute" := List.mem_singleton.mp hcode
      exact ⟨⟨⟨[bindingManage, "operations.execute"], .everywhere⟩, 20⟩, List.mem_cons_self,
        by decide, rfl⟩

end Traces

end MonitoringHub.Administration
