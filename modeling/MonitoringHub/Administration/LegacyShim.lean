import MonitoringHub.Access.RegionGrants
import MonitoringHub.Administration.Directory

/-! The rows of the first version under both engines. The first one shows an account that some
row reaches and a region that some row opens; the second one asks one row for both, and for all
else that the row restricts. -/

namespace MonitoringHub.Administration
open Lib Lib.KeyedStore Access

/-- The row as `_legacy_grants` maps it; the resource types are the services. -/
def rowScope (row : AccessRow) : Scope where
  cloud := some row.cloud
  accountRefId := row.accountRefId
  regions := row.regions
  services := row.resourceTypes
  resourceGroups := row.resourceGroups
  resourceIds := row.resourceIds
  tagSelector := none

/-- `get_group_chain`: only groups that are in the table. -/
def groupChain : ℕ → List (ℕ × Option ℕ) → ℕ → List ℕ
  | 0, _, _ => []
  | n + 1, parents, current =>
    match find current parents with
    | none => []
    | some none => [current]
    | some (some parent) =>
      current :: groupChain n (dropWhere (fun g => g = current) parents) parent

/-- The directory with its rows of `access_scopes` and `group_policies`, and the accounts. -/
structure LegacyDirectory extends Directory where
  accounts : Accounts
  ownRows : List (ℕ × AccessRow)
  policyRows : List (ℕ × AccessRow)
  ownScopes : accessScopes = ownRows.map fun row => (row.1, rowScope row.2)
  policyScopes : groupPolicies = policyRows.map fun row => (row.1, rowScope row.2)
  policyGroup : ∀ row ∈ policyRows, (find row.1 parents).isSome = true

namespace LegacyDirectory

def inheritedGroups (s : LegacyDirectory) (user : ℕ) : List ℕ :=
  (s.members.filter fun m => m.1 = user).flatMap fun m =>
    groupChain s.parents.length s.parents m.2

/-- The user's own rows and those of the groups. -/
def accessRows (s : LegacyDirectory) (user : ℕ) : List AccessRow :=
  (s.ownRows.filter fun row => row.1 = user).map Prod.snd ++
    (s.policyRows.filter fun row => (s.inheritedGroups user).contains row.1).map Prod.snd

def accountCloud (s : LegacyDirectory) (id : AccountId) : Cloud :=
  ((s.accounts.rows.find? fun a => a.id = id).map Account.provider).getD .aws

def allClouds (s : LegacyDirectory) : List Cloud :=
  match (s.accounts.rows.map Account.provider).dedup with
  | [] => [.aws]
  | clouds => clouds

def scopeClouds (s : LegacyDirectory) (scope : Scope) : List Cloud :=
  match scope.accountRefId, scope.cloud with
  | some id, cloud => [cloud.getD (s.accountCloud id)]
  | none, some cloud => [cloud]
  | none, none => s.allClouds

/-- `_binding_scope_grants` -/
def bindingScopeGrants (s : LegacyDirectory) (user : ℕ) : List AccessRow :=
  (s.bindings.reduceOption.filter fun b =>
      (b.principal = .user user ||
        (s.inheritedGroups user).any fun group => b.principal = .group group) &&
      s.unexpired b.expiresAt).flatMap fun b =>
    match s.scopes[b.scopeId]? with
    | none => []
    | some scope =>
      if restricts scope.services || restricts scope.resourceGroups ||
          restricts scope.resourceIds || restricts scope.tagSelector then []
      else (s.scopeClouds scope).map fun cloud =>
        ⟨cloud, scope.accountRefId, scope.regions, none, none, none⟩

/-- `get_effective_scope` -/
def effectiveScope (s : LegacyDirectory) (user : ℕ) (role : String) : EffectiveScope :=
  if role = "admin" then .fullAccess
  else .grants ((s.accessRows user ++ s.bindingScopeGrants user).map AccessRow.grant)

end LegacyDirectory

/-- A target of which the account and the region are known. -/
def regionTarget (a : Account) (region : String) : Target :=
  ⟨some a.provider, some a.id, some region, none, none, none, none⟩

/-- One row that reaches the account in its own cloud, opens the region and restricts no
resources. -/
def CoversRegion (row : AccessRow) (a : Account) (region : String) : Prop :=
  row.cloud = a.provider ∧ row.unpinned a.id = true ∧ row.opensRegion region = true ∧
    restricts row.resourceGroups = false ∧ restricts row.resourceIds = false

namespace LegacyDirectory

/-- The permission is the role's, no denial meets the target, and one row covers it. -/
def Preserved (s : LegacyDirectory) (user : ℕ) (role permission : String) (a : Account)
    (region : String) : Prop :=
  ¬ s.Denies user permission (regionTarget a region) ∧
    permission ∈ s.roles.permissionsOf role ∧ ∃ row ∈ s.accessRows user, CoversRegion row a region

/-- An administrator without rows keeps everything that the role has, or all there is. -/
def AdminPreserved (s : LegacyDirectory) (user : ℕ) (permission : String) (a : Account)
    (region : String) : Prop :=
  s.accessRows user = [] ∧ ¬ s.Denies user permission (regionTarget a region) ∧
    permission ∈ if s.roles.permissionsOf "admin" = [] then s.codes
      else s.roles.permissionsOf "admin"

/-- Where both engines answer alike. For an administrator: without rows, or where a row covers
the target. For others: where no row reaches the account, no row opens the region, or one row
does both. -/
def Agrees (s : LegacyDirectory) (user : ℕ) (role permission : String) (a : Account)
    (region : String) : Prop :=
  (role = "admin" → s.AdminPreserved user permission a region ∨
    s.Preserved user role permission a region) ∧
  (role ≠ "admin" → (∃ row ∈ s.accessRows user, row.coversAccount a = true) →
    (∃ row ∈ s.accessRows user, row.unpinned a.id = true ∧ row.opensRegion region = true) →
      s.Preserved user role permission a region)

end LegacyDirectory

section Rows
variable {rows : List AccessRow} {row : AccessRow} {a : Account} {region : String}
  {accounts : Accounts}

theorem dimCovers_absent {dim : Option (List String)} :
    dimCovers dim none = true ↔ restricts dim = false := by
  rw [restricts_false]
  unfold dimCovers
  split
  · rename_i hnone
    exact iff_of_true rfl hnone
  · rename_i hsome
    simp [hsome]

theorem dimCovers_region : dimCovers row.regions (some region) = true ↔
    row.opensRegion region = true := by
  unfold dimCovers AccessRow.opensRegion AccessRow.anyRegion AccessRow.regionList restricts
  cases restriction row.regions <;> simp

/-- The target says nothing of resources, so that a row that restricts them does not cover. -/
theorem rowScope_covers (htypes : restricts row.resourceTypes = false) :
    (rowScope row).covers (regionTarget a region) = true ↔ CoversRegion row a region := by
  have haccount : (∀ id, row.accountRefId = some id → some a.id = some id) ↔
      row.unpinned a.id = true := by
    simp only [AccessRow.unpinned, Option.all_eq_true, decide_eq_true_eq, Option.some.injEq,
      eq_comm (a := a.id)]
  rw [Scope.covers_iff, CoversRegion, ← haccount, ← dimCovers_region, ← dimCovers_absent,
    ← dimCovers_absent]
  constructor
  · rintro ⟨hcloud, hid, hregion, -, hgroup, hresource, -⟩
    exact ⟨(Option.some.inj (hcloud _ rfl)).symm, hid, hregion, hgroup, hresource⟩
  · rintro ⟨hcloud, hid, hregion, hgroup, hresource⟩
    refine ⟨fun cloud hsome => ?_, hid, hregion, dimCovers_absent.mpr htypes, hgroup, hresource, rfl⟩
    obtain rfl := Option.some.inj hsome
    exact congrArg some hcloud.symm

theorem mem_accessibleAccountIds (ha : a ∈ accounts.rows) :
    ((accessibleAccountIds accounts (.grants (rows.map AccessRow.grant))).all
        fun ids => ids.contains a.id) = true ↔
      ∃ row ∈ rows, row.coversAccount a = true := by
  rw [mem_accessible_iff]
  have hcovers (row : AccessRow) : row.coversAccount a = true ↔
      row.grant.accountRefId = some a.id ∨
        row.grant.accountRefId = none ∧ row.grant.cloud = a.provider := by
    rw [AccessRow.coversAccount, Bool.or_eq_true, Bool.and_eq_true, decide_eq_true_eq,
      decide_eq_true_eq, decide_eq_true_eq]
    rfl
  constructor
  · rintro ⟨a', ha', hid, grant, hgrant, hreaches⟩
    obtain rfl := List.inj_on_of_nodup_map accounts.distinct ha' ha hid
    obtain ⟨row, hrow, rfl⟩ := List.mem_map.mp hgrant
    exact ⟨row, hrow, (hcovers row).mpr hreaches⟩
  · rintro ⟨row, hrow, hreaches⟩
    exact ⟨a, ha, rfl, row.grant, List.mem_map_of_mem hrow, (hcovers row).mp hreaches⟩

/-- What the first version shows: two rows may share the work. -/
theorem shows_rows (ha : a ∈ accounts.rows) :
    (EffectiveScope.grants (rows.map AccessRow.grant)).Shows accounts a.id region ↔
      (∃ row ∈ rows, row.coversAccount a = true) ∧
        ∃ row ∈ rows, row.unpinned a.id = true ∧ row.opensRegion region = true := by
  rw [EffectiveScope.Shows, mem_accessibleAccountIds ha]
  refine and_congr_right fun _ => ?_
  simp only [EffectiveScope.regions, accessibleRegions_rows, List.nil_append, Option.map_id_fun',
    id, Option.some.injEq, exists_eq_left']
  have hopens (row : AccessRow) : row.opensRegion region = true ↔
      row.anyRegion = true ∨ region ∈ row.regionList := by
    rw [AccessRow.opensRegion, Bool.or_eq_true, List.contains_iff_mem]
  cases hunion : regionUnion (rows.filter (AccessRow.unpinned a.id)) with
  | none =>
    obtain ⟨row, hrow, hany⟩ := regionUnion_none.mp hunion
    obtain ⟨hrow, hunpinned⟩ := List.mem_filter.mp hrow
    exact iff_of_true rfl ⟨row, hrow, hunpinned, (hopens row).mpr (.inl hany)⟩
  | some regions =>
    rw [Option.all_some, List.contains_iff_mem, mem_regionUnion hunion]
    constructor
    · rintro ⟨row, hrow, hregion⟩
      obtain ⟨hrow, hunpinned⟩ := List.mem_filter.mp hrow
      exact ⟨row, hrow, hunpinned, (hopens row).mpr (.inr hregion)⟩
    · rintro ⟨row, hrow, hunpinned, hopen⟩
      have hmem := List.mem_filter.mpr ⟨hrow, hunpinned⟩
      rcases (hopens row).mp hopen with hany | hregion
      · cases hunion.symm.trans (regionUnion_none.mpr ⟨row, hmem, hany⟩)
      · exact ⟨row, hmem, hregion⟩

end Rows

section Groups
variable {s : LegacyDirectory} {user : ℕ} {n g current : ℕ} {parents : List (ℕ × Option ℕ)}

/-- The two walks meet the same groups of the table. -/
theorem mem_groupChain (hn : parents.length ≤ n) (hg : (find g parents).isSome = true) :
    g ∈ groupChain n parents current ↔ g ∈ lineage n parents current := by
  induction n generalizing parents current with
  | zero =>
    obtain rfl := List.length_eq_zero_iff.mp (Nat.le_zero.mp hn)
    cases hg
  | succ n ih =>
    rw [groupChain, lineage]
    cases hfind : find current parents with
    | none =>
      have hne : g ≠ current := by
        rintro rfl
        rw [hfind] at hg
        cases hg
      simpa using hne
    | some parent =>
      cases parent with
      | none => rfl
      | some parent =>
        dsimp only
        rw [List.mem_cons, List.mem_cons]
        by_cases hsame : g = current
        · exact iff_of_true (.inl hsame) (.inl hsame)
        · refine or_congr Iff.rfl (ih ?_ ?_)
          · have hfewer := length_dropWhere_lt (p := fun g => g = current) (mem_of_find hfind)
              (decide_eq_true rfl)
            omega
          · rw [find_dropWhere, if_neg (by simpa using hsame)]
            exact hg

theorem mem_groupIds_iff (hg : (find g s.parents).isSome = true) :
    (s.inheritedGroups user).contains g = (s.groupIds user).contains g := by
  rw [Bool.eq_iff_iff, List.contains_iff_mem, List.contains_iff_mem,
    LegacyDirectory.inheritedGroups, Directory.groupIds, List.mem_flatMap, List.mem_flatMap]
  exact exists_congr fun m => and_congr_right fun _ => mem_groupChain le_rfl hg

/-- Both engines read the same rows. -/
theorem legacyScopes_rows : s.legacyScopes user = (s.accessRows user).map rowScope := by
  rw [Directory.legacyScopes, LegacyDirectory.accessRows, s.ownScopes, s.policyScopes,
    List.map_append, List.filter_map, List.filter_map]
  have hpolicies : s.policyRows.filter (fun row => (s.groupIds user).contains row.1) =
      s.policyRows.filter fun row => (s.inheritedGroups user).contains row.1 :=
    List.filter_congr fun row hrow => (mem_groupIds_iff (s.policyGroup row hrow)).symm
  simp only [List.map_map, Function.comp_def, hpolicies]

theorem find_of_groupChain (h : g ∈ groupChain n parents current) :
    (find g parents).isSome = true := by
  induction n generalizing parents current with
  | zero => cases h
  | succ n ih =>
    rw [groupChain] at h
    split at h
    · cases h
    · rename_i hfind
      rw [List.mem_singleton.mp h, hfind]
      rfl
    · rename_i parent hfind
      rcases List.mem_cons.mp h with rfl | hlater
      · rw [hfind]
        rfl
      · obtain ⟨v, hv⟩ := Option.isSome_iff_exists.mp (ih hlater)
        rw [(find_dropWhere_some hv).2]
        rfl

variable {role permission region : String} {a : Account}

/-- A user without a binding has none in the data layer either. -/
theorem bindingScopeGrants_nil
    (hnone : ∀ b, some b ∈ s.bindings → s.reaches user b.principal = false) :
    s.bindingScopeGrants user = [] := by
  rw [LegacyDirectory.bindingScopeGrants, List.flatMap_eq_nil_iff]
  intro b hb
  obtain ⟨hmem, hin⟩ := List.mem_filter.mp hb
  have hreaches : ¬ s.reaches user b.principal = true := by
    rw [hnone b (List.reduceOption_mem_iff.mp hmem)]
    exact Bool.false_ne_true
  obtain ⟨hprincipal, -⟩ := (Bool.and_eq_true _ _).mp hin
  refine absurd ?_ hreaches
  rcases (Bool.or_eq_true _ _).mp hprincipal with huser | hgroup
  · rw [of_decide_eq_true huser]
    exact decide_eq_true rfl
  · obtain ⟨group, hin, hsame⟩ := List.any_eq_true.mp hgroup
    obtain ⟨m, -, hchain⟩ := List.mem_flatMap.mp hin
    rw [of_decide_eq_true hsame, Directory.reaches, ← mem_groupIds_iff (find_of_groupChain hchain)]
    exact List.contains_iff_mem.mpr hin

theorem grants_legacy (hnone : ∀ b, some b ∈ s.bindings → s.reaches user b.principal = false)
    {scope : Scope} :
    s.Grants user role permission scope ↔ s.LegacyGrants user role permission scope := by
  have hrows : s.rowsOf user = [] := by
    refine List.eq_nil_iff_forall_not_mem.mpr fun b hb => ?_
    obtain ⟨hmem, hreaches, -⟩ := mem_rowsOf.mp hb
    rw [hnone b hmem] at hreaches
    cases hreaches
  have hown : s.ownBindings user = [] := by rw [Directory.ownBindings, hrows, List.filterMap_nil]
  rw [grants_iff]
  simp only [hrows, hown, List.not_mem_nil, false_and, exists_false, false_or, true_and]

/-- What the second version allows by the rows. -/
theorem allows_legacy (hrole : find user s.users = some role)
    (hnone : ∀ b, some b ∈ s.bindings → s.reaches user b.principal = false)
    (htypes : ∀ row ∈ s.accessRows user, restricts row.resourceTypes = false) :
    s.allows user permission (regionTarget a region) = true ↔
      role = "admin" ∧ s.AdminPreserved user permission a region ∨
        s.Preserved user role permission a region := by
  rw [allows_iff hrole]
  simp only [grants_legacy hnone, Directory.LegacyGrants, legacyScopes_rows]
  constructor
  · rintro ⟨hclear, scope, ⟨hscope, hcode⟩ | ⟨hempty, rfl, rfl, hcode⟩, hcovers⟩
    · obtain ⟨row, hrow, rfl⟩ := List.mem_map.mp hscope
      exact .inr ⟨hclear, hcode, row, hrow, (rowScope_covers (htypes row hrow)).mp hcovers⟩
    · exact .inl ⟨rfl, List.map_eq_nil_iff.mp hempty, hclear, hcode⟩
  · rintro (⟨rfl, hempty, hclear, hcode⟩ | ⟨hclear, hcode, row, hrow, hcovers⟩)
    · exact ⟨hclear, .everywhere, .inr ⟨List.map_eq_nil_iff.mpr hempty, rfl, rfl, hcode⟩, rfl⟩
    · exact ⟨hclear, rowScope row, .inl ⟨List.mem_map_of_mem hrow, hcode⟩,
        (rowScope_covers (htypes row hrow)).mpr hcovers⟩

/-- What one row covers the first version shows. -/
theorem CoversRegion.shows {row : AccessRow} (h : CoversRegion row a region) :
    row.coversAccount a = true := by
  obtain ⟨hcloud, hunpinned, -⟩ := h
  exact (unpinned_iff.mp hunpinned).resolve_right fun hwild => hwild.2 hcloud

/-- For a user without a binding both engines answer alike, on an account and a region, exactly
where the rows agree. -/
theorem legacy_shim (hrole : find user s.users = some role)
    (hnone : ∀ b, some b ∈ s.bindings → s.reaches user b.principal = false)
    (htypes : ∀ row ∈ s.accessRows user, restricts row.resourceTypes = false)
    (ha : a ∈ s.accounts.rows) (permission region : String) :
    (s.allows user permission (regionTarget a region) = true ↔
        (s.effectiveScope user role).Shows s.accounts a.id region) ↔
      s.Agrees user role permission a region := by
  rw [allows_legacy hrole hnone htypes, LegacyDirectory.Agrees]
  by_cases hadmin : role = "admin"
  · subst hadmin
    have hshows : (s.effectiveScope user "admin").Shows s.accounts a.id region :=
      ⟨rfl, none, rfl, rfl⟩
    simp only [hshows, iff_true, true_and, true_implies, ne_eq, not_true_eq_false, false_implies,
      and_true]
  · have hshows : (s.effectiveScope user role).Shows s.accounts a.id region ↔
        (∃ row ∈ s.accessRows user, row.coversAccount a = true) ∧
          ∃ row ∈ s.accessRows user, row.unpinned a.id = true ∧ row.opensRegion region = true := by
      rw [LegacyDirectory.effectiveScope, if_neg hadmin, bindingScopeGrants_nil hnone,
        List.append_nil, shows_rows ha]
    have hkept : s.Preserved user role permission a region →
        (s.effectiveScope user role).Shows s.accounts a.id region := by
      rintro ⟨-, -, row, hrow, hcovers⟩
      exact hshows.mpr ⟨⟨row, hrow, hcovers.shows⟩, row, hrow, hcovers.2.1, hcovers.2.2.1⟩
    simp only [hadmin, false_and, false_or, false_implies, true_and, ne_eq, not_false_eq_true,
      true_implies]
    rw [← and_imp, ← hshows]
    exact ⟨fun hsame => hsame.mpr, fun hreach => ⟨hkept, hreach⟩⟩

end Groups

section Traces

/-- One user with one row, and one account. -/
def withRow (a : Account) (role : String) (row : AccessRow) : LegacyDirectory where
  now := 0
  users := [(7, role)]
  parents := []
  members := []
  roles := ⟨[⟨role, 10, ["resources.view"]⟩], List.nodup_singleton _⟩
  rolePermissions := []
  codes := ["resources.view"]
  scopes := []
  bindings := []
  accessScopes := [(7, rowScope row)]
  groupPolicies := []
  overrides := []
  bound := by simp
  accounts := ⟨[a], List.nodup_singleton _⟩
  ownRows := [(7, row)]
  policyRows := []
  ownScopes := rfl
  policyScopes := rfl
  policyGroup := by simp

/-- A viewer of one region keeps it. -/
theorem legacy_shim_region :
    let s := withRow ⟨1, .aws⟩ "viewer" ⟨.aws, some 1, some ["eu-west-1"], none, none, none⟩
    s.allows 7 "resources.view" (regionTarget ⟨1, .aws⟩ "eu-west-1") = true ↔
      (s.effectiveScope 7 "viewer").Shows s.accounts 1 "eu-west-1" := by
  intro s
  have hsome : ∀ b, some b ∈ s.bindings → s.reaches 7 b.principal = false :=
    fun b hb => (List.not_mem_nil hb).elim
  refine (legacy_shim (s := s) (a := ⟨1, .aws⟩) rfl hsome (by decide +kernel) (by decide)
    "resources.view" "eu-west-1").mpr ⟨fun hadmin => absurd hadmin (by decide), fun _ _ _ => ?_⟩
  refine ⟨?_, by decide +kernel, _, List.mem_cons_self, rfl, by decide +kernel, by decide +kernel,
    rfl, rfl⟩
  rintro ⟨d, hd, -⟩
  cases hd

/-- A viewer whose row names a resource group loses the account, and an administrator with a row
loses every other cloud. -/
theorem shim_loses_access :
    let viewer := withRow ⟨1, .aws⟩ "viewer"
      ⟨.aws, some 1, some ["eu-west-1"], some ["prod"], none, none⟩
    let admin := withRow ⟨1, .aws⟩ "admin" ⟨.gcp, none, none, none, none, none⟩
    EffectiveScope.Shows viewer.accounts (viewer.effectiveScope 7 "viewer") 1 "eu-west-1" ∧
      viewer.allows 7 "resources.view" (regionTarget ⟨1, .aws⟩ "eu-west-1") = false ∧
      EffectiveScope.Shows admin.accounts (admin.effectiveScope 7 "admin") 1 "eu-west-1" ∧
      admin.allows 7 "resources.view" (regionTarget ⟨1, .aws⟩ "eu-west-1") = false := by
  exact ⟨⟨by decide +kernel, some ["eu-west-1"], by decide +kernel, by decide +kernel⟩,
    by decide +kernel, ⟨rfl, none, rfl, rfl⟩, by decide +kernel⟩

end Traces

end MonitoringHub.Administration
