import MonitoringHub.Access.ScopeCells

/-! Handing out a role on a scope. The gate asks for a binding of equal or higher rank
with the right to manage bindings whose scope contains the proposed one. What it does
not ask: that the binding holds the permissions of the role, that no denial takes them
away, and that the tag selectors contain each other. -/

namespace MonitoringHub.Access

/-- A row of `roles` with the permissions of the role. -/
structure Role where
  key : String
  rank : ℤ
  permissions : List String

/-- The table `roles`; keys are unique. -/
structure Roles where
  rows : List Role
  distinct : (rows.map Role.key).Nodup

def Roles.find (roles : Roles) (key : String) : Option Role :=
  roles.rows.find? fun role => role.key = key

def Roles.permissionsOf (roles : Roles) (key : String) : List String :=
  ((roles.find key).map Role.permissions).getD []

/-- `_role_rank` -/
def Roles.rank (roles : Roles) (key : String) : ℤ := ((roles.find key).map Role.rank).getD 0

/-- A binding with the rank of the role it binds. -/
structure RankedBinding extends Binding where
  roleRank : ℤ

structure ActorAccess where
  bindings : List RankedBinding
  denials : List Denial

def ActorAccess.resolved (actor : ActorAccess) : ResolvedAccess :=
  ⟨actor.bindings.map RankedBinding.toBinding, actor.denials⟩

/-- An open list on the inner side is contained in an open list only. -/
def listContains (outer inner : Option (List String)) : Bool :=
  match restriction outer with
  | none => true
  | some listed =>
    match restriction inner with
    | none => false
    | some requested => requested.all listed.contains

def scopeContains (outer inner : Scope) : Bool :=
  outer.isGlobal ||
    (outer.cloud.all fun cloud => inner.cloud = some cloud) &&
    (outer.accountRefId.all fun id => inner.accountRefId = some id) &&
    listContains outer.regions inner.regions &&
    listContains outer.services inner.services &&
    listContains outer.resourceGroups inner.resourceGroups &&
    listContains outer.resourceIds inner.resourceIds

def bindingManage : String := "rbac.binding.manage"

def canGrant (roles : Roles) (actor : ActorAccess) (roleKey : String) (scope : Scope) : Bool :=
  actor.bindings.any fun b =>
    decide (roles.rank roleKey ≤ b.roleRank) && b.permissions.contains bindingManage &&
      scopeContains b.scope scope

section Containment
variable {outer inner : Scope} {target : Target}

theorem listContains_covers {outer inner : Option (List String)} (h : listContains outer inner = true)
    {value : Option String} (hvalue : dimCovers inner value = true) : dimCovers outer value = true := by
  unfold listContains at h
  split at h
  · rename_i hopen
    rw [dimCovers, hopen]
  · rename_i listed hlisted
    split at h
    · cases h
    · rename_i requested hrequested
      obtain ⟨v, hv, rfl⟩ := (dimCovers_some hrequested).mp hvalue
      have hin := List.all_eq_true.mp h v hv
      exact (dimCovers_some hlisted).mpr ⟨v, List.contains_iff_mem.mp hin, rfl⟩

theorem scopeContains_iff : scopeContains outer inner = true ↔ outer.isGlobal = true ∨
    (∀ cloud, outer.cloud = some cloud → inner.cloud = some cloud) ∧
    (∀ id, outer.accountRefId = some id → inner.accountRefId = some id) ∧
    listContains outer.regions inner.regions = true ∧
    listContains outer.services inner.services = true ∧
    listContains outer.resourceGroups inner.resourceGroups = true ∧
    listContains outer.resourceIds inner.resourceIds = true := by
  simp only [scopeContains, Bool.or_eq_true, Bool.and_eq_true, Option.all_eq_true,
    decide_eq_true_eq, and_assoc]

/-- Containment in the checked dimensions and in the tags is containment of targets. -/
theorem covers_of_contains (h : scopeContains outer inner = true) (htags : outer.TagsContain inner)
    (hcovers : inner.covers target = true) : outer.covers target = true := by
  obtain ⟨hcloud, haccount, hregion, hservice, hgroup, hid, htag⟩ := Scope.covers_iff.mp hcovers
  have htag' : tagsCover outer.tagSelector target = true :=
    Scope.tagsCover_iff.mpr fun key => htags key _ (Scope.tagsCover_iff.mp htag key)
  rcases scopeContains_iff.mp h with hglobal | ⟨hclouds, haccounts, hregions, hservices, hgroups, hids⟩
  · obtain ⟨hc, ha, hr, hs, hg, hi, -⟩ := Scope.isGlobal_iff.mp hglobal
    exact Scope.covers_iff.mpr ⟨by simp [hc], by simp [ha], dimCovers_none hr _, dimCovers_none hs _,
      dimCovers_none hg _, dimCovers_none hi _, htag'⟩
  · exact Scope.covers_iff.mpr ⟨fun cloud hc => hcloud cloud (hclouds cloud hc),
      fun id ha => haccount id (haccounts id ha), listContains_covers hregions hregion,
      listContains_covers hservices hservice, listContains_covers hgroups hgroup,
      listContains_covers hids hid, htag'⟩

/-- Of a scope that is contained in the checked dimensions, every target is covered
exactly if its tags are contained too, or it has no targets. -/
theorem contains_sound_iff (h : scopeContains outer inner = true) :
    (∀ target, inner.covers target = true → outer.covers target = true) ↔
      inner.Vacant ∨ outer.TagsContain inner := by
  constructor
  · intro hsound
    by_cases hvacant : inner.Vacant
    · exact .inl hvacant
    · right
      intro key value hvalue
      obtain ⟨f, hf⟩ := Scope.not_vacant_iff.mp hvacant
      let g : String → Option String := Function.update f key value
      have hg : ∀ k, inner.permitsTag k (g k) := by
        intro k
        by_cases hk : k = key
        · subst hk
          rwa [show g k = value from Function.update_self ..]
        · rw [show g k = f k from Function.update_of_ne hk ..]
          exact hf k
      obtain ⟨region, hregion⟩ := exists_dimCovers inner.regions
      obtain ⟨service, hservice⟩ := exists_dimCovers inner.services
      obtain ⟨group, hgroup⟩ := exists_dimCovers inner.resourceGroups
      obtain ⟨id, hid⟩ := exists_dimCovers inner.resourceIds
      let keys := key :: inner.tagKeys
      let target : Target := ⟨inner.cloud, inner.accountRefId, region, service, id, group,
        some (keys.map fun k => (k, g k))⟩
      have hinner : inner.covers target = true := by
        refine Scope.covers_iff.mpr ⟨fun _ hc => hc, fun _ ha => ha, hregion, hservice, hgroup, hid,
          Scope.tagsCover_iff.mpr ?_⟩
        exact Scope.permitsTag_of_keys rfl (fun _ => List.mem_cons_of_mem _) hg
      obtain ⟨-, -, -, -, -, -, htag⟩ := Scope.covers_iff.mp (hsound target hinner)
      have hkey := Scope.tagsCover_iff.mp htag key
      have htarget : target.tag key = g key := by
        rw [Target.tag_of_keys (f := g) rfl, if_pos List.mem_cons_self]
      rwa [htarget, show g key = value from Function.update_self ..] at hkey
  · rintro (⟨key, hkey⟩ | htags) target hcovers
    · obtain ⟨-, -, -, -, -, -, htag⟩ := Scope.covers_iff.mp hcovers
      exact absurd (Scope.tagsCover_iff.mp htag key) (hkey _)
    · exact covers_of_contains h htags hcovers

end Containment

section Corners
variable {s c g : Scope} {pick : String → Option String} {text : String} {keys : List String}

/-- The target of a cell that is hardest to cover: it leaves open what the cell leaves
open, and has a text of its own for the tags the cell does not name. -/
def corner (c : Scope) (pick : String → Option String) (text : String) (keys : List String) :
    Target where
  cloud := c.cloud
  accountId := c.accountRefId
  region := cellValue c.regions
  service := cellValue c.services
  resourceId := cellValue c.resourceIds
  resourceGroup := cellValue c.resourceGroups
  tags := some (keys.map fun key => (key, if key ∈ c.tagKeys then pick key else some text))

theorem corner_tag {key : String} (hkey : key ∈ keys) :
    (corner c pick text keys).tag key = if key ∈ c.tagKeys then pick key else some text := by
  rw [Target.tag_of_keys (f := fun key => if key ∈ c.tagKeys then pick key else some text) rfl,
    if_pos hkey]

theorem Scope.CellOf.tagKeys_eq (h : c.CellOf s pick) : c.tagKeys = s.tagKeys := by
  rw [tagKeys, tagKeys, h.tags]
  cases s.tagSelector <;> simp [Function.comp_def]

theorem Scope.CellOf.permitsTag (h : c.CellOf s pick) {key : String} {value : Option String}
    (hkey : key ∈ c.tagKeys) (hvalue : c.permitsTag key value) : value = pick key := by
  obtain ⟨entry, hentry, rfl⟩ := List.mem_map.mp hkey
  have hallowed := hvalue entry hentry rfl
  rw [h.tags] at hentry
  simpa [only_of_mem hentry, TagAllowed.list] using hallowed

theorem Scope.CellOf.covers_corner (h : c.CellOf s pick) (hkeys : ∀ key ∈ s.tagKeys, key ∈ keys) :
    s.covers (corner c pick text keys) = true := by
  refine covers_iff.mpr ⟨fun _ hc => h.cloud.trans hc, fun _ ha => h.account.trans ha,
    h.regions.covers h.regions.covers_cellValue, h.services.covers h.services.covers_cellValue,
    h.resourceGroups.covers h.resourceGroups.covers_cellValue,
    h.resourceIds.covers h.resourceIds.covers_cellValue, tagsCover_iff.mpr fun key => ?_⟩
  by_cases hkey : key ∈ s.tagKeys
  · rw [corner_tag (hkeys key hkey), if_pos (h.tagKeys_eq ▸ hkey)]
    exact h.permitted key
  · exact permitsTag_of_notMem hkey _

theorem DimCell.listContains {dim cell outer : Option (List String)} (h : DimCell dim cell)
    (hcovers : dimCovers outer (cellValue cell) = true) : listContains outer cell = true := by
  unfold Access.listContains
  cases houter : restriction outer with
  | none => rfl
  | some listed =>
    obtain ⟨v, hv, hvalue⟩ := (dimCovers_some houter).mp hcovers
    unfold DimCell at h
    split at h
    · simp [h, cellValue] at hvalue
    · obtain ⟨w, -, rfl⟩ := h
      obtain rfl : w = v := by simpa [cellValue] using hvalue
      have hcell : restriction (some [w]) = some [w] := rfl
      simpa [hcell] using hv

/-- What covers the corner of a cell contains the cell. -/
theorem Scope.CellOf.contains_of_corner (h : c.CellOf s pick) (hnew : text ∉ g.named)
    (hkeys : ∀ key ∈ g.tagKeys, key ∈ keys) (hcovers : g.covers (corner c pick text keys) = true) :
    scopeContains g c = true ∧ g.TagsContain c := by
  obtain ⟨hcloud, haccount, hregion, hservice, hgroup, hid, htag⟩ := covers_iff.mp hcovers
  refine ⟨scopeContains_iff.mpr (.inr ⟨hcloud, haccount, h.regions.listContains hregion,
    h.services.listContains hservice, h.resourceGroups.listContains hgroup,
    h.resourceIds.listContains hid⟩), fun key value hvalue => ?_⟩
  by_cases hkey : key ∈ g.tagKeys
  · have hcorner := tagsCover_iff.mp htag key
    rw [corner_tag (hkeys key hkey)] at hcorner
    by_cases hcell : key ∈ c.tagKeys
    · rw [if_pos hcell] at hcorner
      rwa [h.permitsTag hcell hvalue]
    · -- the selector of `g` would have to allow a text it does not name
      rw [if_neg hcell] at hcorner
      obtain ⟨entry, hentry, hkey'⟩ := List.mem_map.mp hkey
      refine absurd (List.mem_append_right _ (List.mem_flatMap.mpr ⟨entry, hentry, ?_⟩)) hnew
      exact List.mem_filterMap.mpr ⟨some text, hcorner entry hentry hkey', rfl⟩
  · exact permitsTag_of_notMem hkey _

/-- A list of scopes covers a scope exactly if each of its cells is contained in one. -/
theorem covered_iff_cells (grants : List Scope) (s : Scope) :
    (∀ target, s.covers target = true → ∃ g ∈ grants, g.covers target = true) ↔
      ∀ c pick, Scope.CellOf c s pick →
        ∃ g ∈ grants, scopeContains g c = true ∧ g.TagsContain c := by
  constructor
  · intro hcovered c pick hcell
    obtain ⟨text, hnew⟩ := Infinite.exists_notMem_finset (grants.flatMap Scope.named).toFinset
    rw [List.mem_toFinset] at hnew
    let keys := s.tagKeys ++ grants.flatMap Scope.tagKeys
    obtain ⟨g, hg, hcovers⟩ := hcovered (corner c pick text keys)
      (hcell.covers_corner fun _ => List.mem_append_left _)
    refine ⟨g, hg, hcell.contains_of_corner (fun hmem => hnew ?_) (fun key hkey => ?_) hcovers⟩
    · exact List.mem_flatMap.mpr ⟨g, hg, hmem⟩
    · exact List.mem_append_right _ (List.mem_flatMap.mpr ⟨g, hg, hkey⟩)
  · intro hcells target hcovers
    obtain ⟨c, hcell, hc⟩ := Scope.exists_cell hcovers
    obtain ⟨g, hg, hcontains, htags⟩ := hcells c target.tag hcell
    exact ⟨g, hg, covers_of_contains hcontains htags hc⟩

end Corners

section Decisions
variable {actor : ActorAccess} {permission : String} {target : Target} {s : Scope}

/-- Where a denial holds; without a scope, everywhere. -/
def Denial.boundary (d : Denial) : Scope := d.scope.getD .everywhere

theorem Denial.applies_iff {d : Denial} : d.applies permission target = true ↔
    d.permissionCode = permission ∧ d.boundary.covers target = true := by
  cases hscope : d.scope <;> simp [applies, boundary, hscope]

theorem can_iff : can actor.resolved permission target = true ↔
    (∀ d ∈ actor.denials, d.permissionCode = permission → d.boundary.covers target = false) ∧
      ∃ b ∈ actor.bindings, permission ∈ b.permissions ∧ b.scope.covers target = true := by
  have hdenied : actor.resolved.denials.any (fun d => d.applies permission target) = false ↔
      ∀ d ∈ actor.denials, d.permissionCode = permission → d.boundary.covers target = false := by
    simp only [ActorAccess.resolved, List.any_eq_false, Denial.applies_iff, not_and,
      Bool.not_eq_true]
  unfold can
  split
  · rename_i hsome
    refine iff_of_false (by simp) fun h => ?_
    rw [hdenied.mpr h.1] at hsome
    cases hsome
  · rename_i hnone
    rw [Bool.not_eq_true] at hnone
    rw [and_iff_right (hdenied.mp hnone)]
    simp [ActorAccess.resolved]

/-- The scopes on which the actor holds a permission. -/
def ActorAccess.scopesOf (actor : ActorAccess) (permission : String) : List Scope :=
  (actor.bindings.filter fun b => b.permissions.contains permission).map fun b => b.scope

theorem can_iff_scopes : can actor.resolved permission target = true ↔
    (∀ d ∈ actor.denials, d.permissionCode = permission → d.boundary.covers target = false) ∧
      ∃ g ∈ actor.scopesOf permission, g.covers target = true := by
  rw [can_iff]
  simp [ActorAccess.scopesOf, and_assoc]

/-- The permission is held all over a scope: no denial of it meets the scope, and each
cell of the scope lies in one grant of it, tags included. -/
def ActorAccess.HoldsOn (actor : ActorAccess) (permission : String) (s : Scope) : Prop :=
  (∀ d ∈ actor.denials, d.permissionCode = permission → ¬ d.boundary.Meets s) ∧
    ∀ c pick, Scope.CellOf c s pick →
      ∃ g ∈ actor.scopesOf permission, scopeContains g c = true ∧ g.TagsContain c

theorem holdsOn_iff : actor.HoldsOn permission s ↔
    ∀ target, s.covers target = true → can actor.resolved permission target = true := by
  rw [ActorAccess.HoldsOn, ← covered_iff_cells]
  constructor
  · rintro ⟨hclear, hcovered⟩ target hcovers
    refine can_iff_scopes.mpr ⟨fun d hd hcode => ?_, hcovered target hcovers⟩
    rw [Bool.eq_false_iff]
    exact fun hdenied => hclear d hd hcode (Scope.meets_iff.mp ⟨target, hdenied, hcovers⟩)
  · intro hcan
    refine ⟨fun d hd hcode hmeets => ?_, fun target hcovers => ?_⟩
    · obtain ⟨target, hdenied, hcovers⟩ := Scope.meets_iff.mpr hmeets
      have hnot := (can_iff_scopes.mp (hcan target hcovers)).1 d hd hcode
      rw [hdenied] at hnot
      cases hnot
    · exact (can_iff_scopes.mp (hcan target hcovers)).2

/-- A binding of the actor that the gate lets grant the role on the scope. -/
def ActorAccess.Delegates (actor : ActorAccess) (roles : Roles) (roleKey : String) (s : Scope) :
    Prop :=
  ∃ b ∈ actor.bindings, roles.rank roleKey ≤ b.roleRank ∧ bindingManage ∈ b.permissions ∧
    scopeContains b.scope s = true

theorem canGrant_iff {roles : Roles} {roleKey : String} :
    canGrant roles actor roleKey s = true ↔ actor.Delegates roles roleKey s := by
  simp only [canGrant, List.any_eq_true, Bool.and_eq_true, decide_eq_true_eq, List.contains_iff_mem,
    and_assoc, ActorAccess.Delegates]

/-- What the gate accepts stays within the actor's own access exactly if the actor holds
every permission of the role on the scope; and what one scope contains by the code's
test it covers exactly if the tags are contained too. -/
theorem delegation_within_iff (roles : Roles) (actor : ActorAccess) (roleKey : String)
    (proposed outer inner : Scope) :
    ((canGrant roles actor roleKey proposed = true → ∀ permission ∈ roles.permissionsOf roleKey,
        ∀ target, proposed.covers target = true → can actor.resolved permission target = true) ↔
      (actor.Delegates roles roleKey proposed →
        ∀ permission ∈ roles.permissionsOf roleKey, actor.HoldsOn permission proposed)) ∧
    ((scopeContains outer inner = true →
        ∀ target, inner.covers target = true → outer.covers target = true) ↔
      (scopeContains outer inner = true → inner.Vacant ∨ outer.TagsContain inner)) := by
  refine ⟨?_, forall_congr' contains_sound_iff⟩
  rw [canGrant_iff]
  refine forall_congr' fun _ => forall_congr' fun permission => forall_congr' fun _ => ?_
  exact holdsOn_iff.symm

/-- Whoever manages bindings on tagged hosts hands out a role on the whole cloud, with a
permission that the own binding lacks. -/
theorem delegation_exceeds :
    let roles : Roles := ⟨[⟨"dba", 0, ["rds.restart"]⟩], by decide⟩
    let tagged : Scope := ⟨none, none, none, none, none, none, some [("env", .only (some "dev"))]⟩
    let actor : ActorAccess := ⟨[⟨⟨[bindingManage], tagged⟩, 10⟩], []⟩
    let proposed : Scope := ⟨some .aws, none, none, none, none, none, none⟩
    let target : Target := ⟨some .aws, none, none, none, none, none, none⟩
    canGrant roles actor "dba" proposed = true ∧ "rds.restart" ∈ roles.permissionsOf "dba" ∧
      proposed.covers target = true ∧ can actor.resolved "rds.restart" target = false ∧
      scopeContains tagged proposed = true ∧ tagged.covers target = false := by
  decide +kernel

end Decisions

end MonitoringHub.Access
