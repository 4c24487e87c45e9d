import Mathlib.Data.List.ReduceOption
import MonitoringHub.Access.Delegation
import MonitoringHub.Lib.KeyedStore

/-! The tables behind an access decision: users with their base role, groups and their members,
roles, scopes and bindings, and the rows of the first version that count where a user has no
binding. -/

namespace MonitoringHub.Administration
open Lib Lib.KeyedStore Access

inductive Principal
  | user (id : ℕ)
  | group (id : ℕ)
  deriving DecidableEq

/-- A row of `role_bindings`; the role is named by its key. -/
structure BindingRow where
  principal : Principal
  role : String
  scopeId : ℕ
  reason : Option String
  expiresAt : Option ℕ
  deriving DecidableEq

/-- A row of `permission_overrides` with the effect `deny`. -/
structure OverrideRow where
  principal : Principal
  permissionCode : String
  scopeId : Option ℕ
  expiresAt : Option ℕ

/-- A binding's id is its place, which a deleted one leaves empty. -/
structure Directory where
  now : ℕ
  users : List (ℕ × String)
  parents : List (ℕ × Option ℕ)
  members : List (ℕ × ℕ)
  roles : Roles
  rolePermissions : List (String × List String)
  codes : List String
  scopes : List Scope
  bindings : List (Option BindingRow)
  accessScopes : List (ℕ × Scope)
  groupPolicies : List (ℕ × Scope)
  overrides : List OverrideRow
  bound : ∀ entry ∈ bindings, ∀ b ∈ entry, (roles.find b.role).isSome = true

/-- The walk from a group to its ancestors. A group that was met has left the table, so that
the walk ends there. -/
def lineage : ℕ → List (ℕ × Option ℕ) → ℕ → List ℕ
  | 0, _, current => [current]
  | n + 1, parents, current =>
    match find current parents with
    | some (some parent) => current :: lineage n (dropWhere (fun g => g = current) parents) parent
    | _ => [current]

/-- The ranks of the base roles. -/
def legacyRank (role : String) : ℤ :=
  if role = "viewer" then 10 else if role = "editor" then 20 else if role = "admin" then 30 else 0

namespace Directory

def lineageOf (s : Directory) (group : ℕ) : List ℕ := lineage s.parents.length s.parents group

/-- `_principal_group_ids` -/
def groupIds (s : Directory) (user : ℕ) : List ℕ :=
  (s.members.filter fun m => m.1 = user).flatMap fun m => s.lineageOf m.2

/-- The row's principal is the user, or a group that the user is in or beneath. -/
def reaches (s : Directory) (user : ℕ) : Principal → Bool
  | .user id => id = user
  | .group id => (s.groupIds user).contains id

/-- `expires_at IS NULL OR expires_at > NOW()` -/
def unexpired (s : Directory) (expiresAt : Option ℕ) : Bool := expiresAt.all fun t => s.now < t

/-- The role and the scope of a binding, joined. -/
def joined (s : Directory) (b : BindingRow) : Option RankedBinding :=
  match s.roles.find b.role, s.scopes[b.scopeId]? with
  | some role, some scope => some ⟨⟨role.permissions, scope⟩, role.rank⟩
  | _, _ => none

/-- The rows of `role_bindings` that are in force for the user. -/
def rowsOf (s : Directory) (user : ℕ) : List BindingRow :=
  s.bindings.reduceOption.filter fun b => s.reaches user b.principal && s.unexpired b.expiresAt

def ownBindings (s : Directory) (user : ℕ) : List RankedBinding := (s.rowsOf user).filterMap s.joined

/-- The scopes of the rows of the first version. -/
def legacyScopes (s : Directory) (user : ℕ) : List Scope :=
  (s.accessScopes.filter fun row => row.1 = user).map Prod.snd ++
    (s.groupPolicies.filter fun row => (s.groupIds user).contains row.1).map Prod.snd

/-- `_legacy_grants` -/
def legacyGrants (s : Directory) (user : ℕ) (role : String) : List RankedBinding :=
  let permissions := s.roles.permissionsOf role
  match s.legacyScopes user with
  | [] =>
    if role = "admin" then
      [⟨⟨if permissions = [] then s.codes else permissions, .everywhere⟩, 30⟩]
    else []
  | scopes => scopes.map fun scope => ⟨⟨permissions, scope⟩, legacyRank role⟩

def denials (s : Directory) (user : ℕ) : List Denial :=
  (s.overrides.filter fun o => s.reaches user o.principal && s.unexpired o.expiresAt).map fun o =>
    ⟨o.permissionCode, o.scopeId.bind fun id => s.scopes[id]?⟩

/-- `_load` -/
def load (s : Directory) (user : ℕ) (role : String) : ActorAccess where
  bindings := if s.ownBindings user = [] then s.legacyGrants user role else s.ownBindings user
  denials := s.denials user

/-- `can`, for a user of the table. -/
def allows (s : Directory) (user : ℕ) (permission : String) (target : Target) : Bool :=
  match find user s.users with
  | some role => can (s.load user role).resolved permission target
  | none => false

/-- `has_permission`, which goes by the base role. -/
def hasPermission (s : Directory) (role : String) (access : ActorAccess) (code : String) : Bool :=
  role = "admin" ||
    ((find role s.rolePermissions).getD []).contains code &&
      !access.denials.any fun d => d.permissionCode = code && d.scope.isNone

def principalExists (s : Directory) : Principal → Bool
  | .user id => (find id s.users).isSome
  | .group id => (find id s.parents).isSome

/-- The gate of `create_binding`, and `_assert_may_touch_binding`. -/
def mayTouch (s : Directory) (role : String) (access : ActorAccess) (roleKey : String)
    (scopeId : ℕ) : Bool :=
  role = "admin" || match s.scopes[scopeId]? with
    | some scope => canGrant s.roles access roleKey scope
    | none => false

/-- `create_binding`; `none` where it is refused. -/
def createBinding (s : Directory) (role : String) (access : ActorAccess) (row : BindingRow) :
    Option Directory :=
  if h : (s.roles.find row.role).isSome = true then
    if s.principalExists row.principal && s.scopes[row.scopeId]?.isSome &&
        s.mayTouch role access row.role row.scopeId &&
        (row.reason.isSome || s.roles.rank row.role < 30) && s.unexpired row.expiresAt &&
        !s.bindings.reduceOption.any fun b =>
          b.principal = row.principal && b.role = row.role && b.scopeId = row.scopeId then
      some { s with
        bindings := s.bindings ++ [some row]
        bound := by
          intro entry hentry b hb
          rcases List.mem_append.mp hentry with hold | hnew
          · exact s.bound entry hold b hb
          · rw [List.mem_singleton.mp hnew] at hb
            exact Option.some.inj hb ▸ h }
    else none
  else none

end Directory

section Resolution
variable {s : Directory} {user : ℕ} {role permission : String} {target : Target}

/-- The permission comes to the user with this scope. -/
def Directory.Grants (s : Directory) (user : ℕ) (role permission : String) (scope : Scope) : Prop :=
  ∃ b ∈ (s.load user role).bindings, permission ∈ b.permissions ∧ b.scope = scope

def Directory.Denies (s : Directory) (user : ℕ) (permission : String) (target : Target) : Prop :=
  ∃ d ∈ s.denials user, d.applies permission target = true

theorem allows_iff (huser : find user s.users = some role) :
    s.allows user permission target = true ↔ ¬ s.Denies user permission target ∧
      ∃ scope, s.Grants user role permission scope ∧ scope.covers target = true := by
  have hdenied : (∀ d ∈ (s.load user role).denials, d.permissionCode = permission →
      d.boundary.covers target = false) ↔ ¬ s.Denies user permission target := by
    simp only [Directory.Denies, not_exists, not_and, Denial.applies_iff, Bool.not_eq_true]
    rfl
  rw [Directory.allows, huser]
  dsimp only
  rw [can_iff, hdenied]
  refine and_congr_right fun _ => ⟨?_, ?_⟩
  · rintro ⟨b, hb, hpermission, hcovers⟩
    exact ⟨b.scope, ⟨b, hb, hpermission, rfl⟩, hcovers⟩
  · rintro ⟨scope, ⟨b, hb, hpermission, rfl⟩, hcovers⟩
    exact ⟨b, hb, hpermission, hcovers⟩

theorem exists_of_allows (h : s.allows user permission target = true) :
    ∃ role, find user s.users = some role := by
  unfold Directory.allows at h
  split at h
  · rename_i role hrole
    exact ⟨role, hrole⟩
  · cases h

end Resolution

section Grants
variable {s : Directory} {user : ℕ} {role permission : String} {scope : Scope} {b : BindingRow}

theorem mem_rowsOf : b ∈ s.rowsOf user ↔
    some b ∈ s.bindings ∧ s.reaches user b.principal = true ∧ s.unexpired b.expiresAt = true := by
  rw [Directory.rowsOf, List.mem_filter, List.reduceOption_mem_iff, Bool.and_eq_true]

theorem mem_permissionsOf {roles : Roles} {key : String} :
    permission ∈ roles.permissionsOf key ↔
      ∃ role, roles.find key = some role ∧ permission ∈ role.permissions := by
  unfold Roles.permissionsOf
  cases roles.find key <;> simp

/-- A binding in force joins its role, and its scope if that is there. -/
theorem joined_iff (hb : some b ∈ s.bindings) {ranked : RankedBinding} :
    s.joined b = some ranked ↔ ∃ scope role, s.scopes[b.scopeId]? = some scope ∧
      s.roles.find b.role = some role ∧ ranked = ⟨⟨role.permissions, scope⟩, role.rank⟩ := by
  obtain ⟨role, hrole⟩ := Option.isSome_iff_exists.mp (s.bound _ hb b rfl)
  unfold Directory.joined
  rw [hrole]
  cases s.scopes[b.scopeId]? with
  | none => simp
  | some scope => simp [eq_comm (a := ranked)]

theorem ownBindings_nil : s.ownBindings user = [] ↔
    ∀ b ∈ s.rowsOf user, s.scopes[b.scopeId]? = none := by
  rw [Directory.ownBindings, List.filterMap_eq_nil_iff]
  refine forall₂_congr fun b hb => ?_
  obtain ⟨role, hrole⟩ := Option.isSome_iff_exists.mp (s.bound _ (mem_rowsOf.mp hb).1 b rfl)
  unfold Directory.joined
  rw [hrole]
  cases s.scopes[b.scopeId]? <;> simp

/-- What the first version grants. -/
def Directory.LegacyGrants (s : Directory) (user : ℕ) (role permission : String) (scope : Scope) :
    Prop :=
  scope ∈ s.legacyScopes user ∧ permission ∈ s.roles.permissionsOf role ∨
    s.legacyScopes user = [] ∧ role = "admin" ∧ scope = .everywhere ∧
      permission ∈ if s.roles.permissionsOf role = [] then s.codes else s.roles.permissionsOf role

theorem legacyGrants_iff : (∃ b ∈ s.legacyGrants user role, permission ∈ b.permissions ∧
    b.scope = scope) ↔ s.LegacyGrants user role permission scope := by
  unfold Directory.legacyGrants Directory.LegacyGrants
  cases s.legacyScopes user with
  | nil =>
    by_cases hrole : role = "admin"
    · subst hrole
      simp only [if_true, List.mem_singleton, exists_eq_left, List.not_mem_nil, false_and, true_and,
        false_or]
      exact ⟨fun h => ⟨h.2.symm, h.1⟩, fun h => ⟨h.2, h.1.symm⟩⟩
    · simp [hrole]
  | cons first rest =>
    simp only [List.mem_map, exists_exists_and_eq_and, reduceCtorEq, false_and, or_false]
    exact ⟨fun ⟨s', hs', hcode, heq⟩ => ⟨heq ▸ hs', hcode⟩, fun h => ⟨scope, h.1, h.2, rfl⟩⟩

theorem mem_ownBindings_grants : (∃ b ∈ s.ownBindings user, permission ∈ b.permissions ∧
    b.scope = scope) ↔ ∃ b ∈ s.rowsOf user, permission ∈ s.roles.permissionsOf b.role ∧
      s.scopes[b.scopeId]? = some scope := by
  constructor
  · rintro ⟨ranked, hranked, hcode, rfl⟩
    obtain ⟨b, hb, hjoined⟩ := List.mem_filterMap.mp hranked
    obtain ⟨scope, role, hscope, hrole, rfl⟩ := (joined_iff (mem_rowsOf.mp hb).1).mp hjoined
    exact ⟨b, hb, mem_permissionsOf.mpr ⟨role, hrole, hcode⟩, hscope⟩
  · rintro ⟨b, hb, hcode, hscope⟩
    obtain ⟨role, hrole, hcode⟩ := mem_permissionsOf.mp hcode
    refine ⟨⟨⟨role.permissions, scope⟩, role.rank⟩, List.mem_filterMap.mpr ⟨b, hb, ?_⟩, hcode, rfl⟩
    exact (joined_iff (mem_rowsOf.mp hb).1).mpr ⟨scope, role, hscope, hrole, rfl⟩

/-- The bindings in force decide; where there is none, the rows of the first version. -/
theorem grants_iff : s.Grants user role permission scope ↔
    (∃ b ∈ s.rowsOf user, permission ∈ s.roles.permissionsOf b.role ∧
      s.scopes[b.scopeId]? = some scope) ∨
      s.ownBindings user = [] ∧ s.LegacyGrants user role permission scope := by
  unfold Directory.Grants Directory.load
  dsimp only
  by_cases hown : s.ownBindings user = []
  · have hnone : ¬ ∃ b ∈ s.rowsOf user, permission ∈ s.roles.permissionsOf b.role ∧
        s.scopes[b.scopeId]? = some scope := by
      rintro ⟨b, hb, -, hscope⟩
      rw [ownBindings_nil.mp hown b hb] at hscope
      cases hscope
    rw [if_pos hown, legacyGrants_iff]
    simp only [hnone, hown, true_and, false_or]
  · rw [if_neg hown, mem_ownBindings_grants]
    simp only [hown, false_and, or_false]

end Grants

end MonitoringHub.Administration
