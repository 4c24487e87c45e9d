import Mathlib.Data.Finset.Dedup
import MonitoringHub.Access.Handout

/-! Which regions of an account the grants open, when each restriction is a list of texts. A
grant for one account is passed over for the others; a grant for a whole cloud is not, whatever
cloud it is for. -/

namespace MonitoringHub.Access

/-- A row of `access_scopes` or `group_policies`. -/
structure AccessRow where
  cloud : Cloud
  accountRefId : Option AccountId
  regions : Option (List String)
  resourceGroups : Option (List String)
  resourceTypes : Option (List String)
  resourceIds : Option (List String)

def textColumn (column : Option (List String)) : Option Json :=
  column.map fun texts => .arr (texts.map .str)

/-- The row as `get_effective_scope` loads it. -/
def AccessRow.grant (row : AccessRow) : ScopeGrant where
  cloud := row.cloud
  accountRefId := row.accountRefId
  regions := textColumn row.regions
  resourceGroups := textColumn row.resourceGroups
  resourceTypes := textColumn row.resourceTypes
  resourceIds := textColumn row.resourceIds

/-- The grant is for this account, or for its whole cloud. -/
def AccessRow.coversAccount (a : Account) (row : AccessRow) : Bool :=
  row.accountRefId = some a.id || (row.accountRefId = none && row.cloud = a.provider)

/-- The grant is not for another account. -/
def AccessRow.unpinned (accountId : AccountId) (row : AccessRow) : Bool :=
  row.accountRefId.all fun id => id = accountId

def AccessRow.anyRegion (row : AccessRow) : Bool := !restricts row.regions

def AccessRow.regionList (row : AccessRow) : List String := (restriction row.regions).getD []

def AccessRow.opensRegion (region : String) (row : AccessRow) : Bool :=
  row.anyRegion || row.regionList.contains region

/-- The union of the regions, or `none` when one of the rows restricts none. -/
def regionUnion (rows : List AccessRow) : Option (List String) :=
  if rows.any AccessRow.anyRegion then none else some (rows.flatMap AccessRow.regionList)

/-- A grant for the whole of another cloud adds no region that the account's own grants lack. -/
def PerAccount (rows : List AccessRow) (a : Account) : Prop :=
  (∃ row ∈ rows, row.coversAccount a = true ∧ row.anyRegion = true) ∨
    ∀ row ∈ rows, row.accountRefId = none → row.cloud ≠ a.provider →
      row.anyRegion = false ∧ ∀ region ∈ row.regionList,
        ∃ own ∈ rows, own.coversAccount a = true ∧ region ∈ own.regionList

section Union
variable {rows : List AccessRow} {a : Account} {row : AccessRow} {region : String}

theorem textColumn_truthy (column : Option (List String)) :
    (textColumn column).filter Json.truthy = textColumn (restriction column) := by
  cases column with
  | none => rfl
  | some texts => cases texts <;> rfl

theorem members_texts (texts : List String) :
    (Json.arr (texts.map .str)).members = some texts := by
  simp [Json.members, Json.elems, Json.elem, Elem.asText, List.filterMap_map, Function.comp_def]

theorem grant_regions :
    row.grant.region.regions.filter Json.truthy = textColumn (restriction row.regions) :=
  textColumn_truthy row.regions

theorem pinned_elsewhere (row : AccessRow) (accountId : AccountId) :
    row.grant.region.accountRefId.any (· ≠ accountId) = !row.unpinned accountId := by
  change row.accountRefId.any (· ≠ accountId) = _
  unfold AccessRow.unpinned
  cases row.accountRefId <;> simp

/-- The loop gathers the regions of all grants that are not for another account. -/
theorem accessibleRegions_rows (accountId : AccountId) (rows : List AccessRow)
    (gathered : List String) :
    accessibleRegions accountId ((rows.map AccessRow.grant).map ScopeGrant.region) gathered =
      some ((regionUnion (rows.filter (AccessRow.unpinned accountId))).map (gathered ++ ·)) := by
  induction rows generalizing gathered with
  | nil => simp [accessibleRegions, regionUnion]
  | cons row rows ih =>
    rw [List.map_cons, List.map_cons, accessibleRegions]
    rw [pinned_elsewhere]
    by_cases hpinned : row.unpinned accountId = true
    · rw [hpinned, if_neg (by simp), grant_regions, List.filter_cons_of_pos hpinned]
      cases hregions : restriction row.regions with
      | none =>
        have hopen : row.anyRegion = true := by
          simp [AccessRow.anyRegion, restricts, hregions]
        simp [textColumn, regionUnion, hopen]
      | some texts =>
        have hshut : row.anyRegion = false := by
          simp [AccessRow.anyRegion, restricts, hregions]
        have hlist : row.regionList = texts := by simp [AccessRow.regionList, hregions]
        simp only [textColumn, Option.map_some, members_texts, ih, regionUnion, List.any_cons,
          hshut, Bool.false_or, List.flatMap_cons, hlist]
        split <;> simp
    · rw [if_pos (by simpa using hpinned), List.filter_cons_of_neg hpinned, ih]

/-- What the loop does not pass over: the grants of the account, and those of other clouds. -/
theorem unpinned_iff : row.unpinned a.id = true ↔
    row.coversAccount a = true ∨ row.accountRefId = none ∧ row.cloud ≠ a.provider := by
  unfold AccessRow.unpinned AccessRow.coversAccount
  cases row.accountRefId with
  | none => simp [Decidable.em]
  | some id => simp

theorem regionUnion_none : regionUnion rows = none ↔ ∃ row ∈ rows, row.anyRegion = true := by
  rw [regionUnion]
  split
  · rename_i hopen
    exact iff_of_true rfl (List.any_eq_true.mp hopen)
  · rename_i hshut
    exact iff_of_false (by simp) fun hopen => hshut (List.any_eq_true.mpr hopen)

theorem mem_regionUnion {regions : List String} (h : regionUnion rows = some regions) :
    region ∈ regions ↔ ∃ row ∈ rows, region ∈ row.regionList := by
  obtain ⟨-, h⟩ := Option.ite_none_left_eq_some.mp h
  obtain rfl := Option.some.inj h
  exact List.mem_flatMap

/-- Without an open grant of the account, the two unions are of the same regions exactly if no
grant of another cloud adds one. -/
theorem sameUnion_iff
    (hshut : ¬ ∃ row ∈ rows, row.coversAccount a = true ∧ row.anyRegion = true) :
    (regionUnion (rows.filter (AccessRow.unpinned a.id))).map List.toFinset =
        (regionUnion (rows.filter (AccessRow.coversAccount a))).map List.toFinset ↔
      ∀ row ∈ rows, row.accountRefId = none → row.cloud ≠ a.provider →
        row.anyRegion = false ∧ ∀ region ∈ row.regionList,
          ∃ own ∈ rows, own.coversAccount a = true ∧ region ∈ own.regionList := by
  have hown : regionUnion (rows.filter (AccessRow.coversAccount a)) ≠ none := by
    intro hnone
    obtain ⟨row, hrow, hopen⟩ := regionUnion_none.mp hnone
    exact hshut ⟨row, (List.mem_filter.mp hrow).1, (List.mem_filter.mp hrow).2, hopen⟩
  obtain ⟨own, hown⟩ := Option.ne_none_iff_exists'.mp hown
  rw [hown, Option.map_some]
  constructor
  · intro hsame row hrow hwild hcloud
    have hunpinned := List.mem_filter.mpr ⟨hrow, unpinned_iff.mpr (.inr ⟨hwild, hcloud⟩)⟩
    obtain ⟨all, hall, hset⟩ := Option.map_eq_some_iff.mp hsame
    constructor
    · rw [Bool.eq_false_iff]
      intro hopen
      rw [regionUnion_none.mpr ⟨row, hunpinned, hopen⟩] at hall
      cases hall
    · intro region hregion
      have hmem : region ∈ all.toFinset :=
        List.mem_toFinset.mpr ((mem_regionUnion hall).mpr ⟨row, hunpinned, hregion⟩)
      rw [hset, List.mem_toFinset, mem_regionUnion hown] at hmem
      obtain ⟨grant, hgrant, hlisted⟩ := hmem
      exact ⟨grant, (List.mem_filter.mp hgrant).1, (List.mem_filter.mp hgrant).2, hlisted⟩
  · intro hother
    have hall : regionUnion (rows.filter (AccessRow.unpinned a.id)) ≠ none := by
      intro hnone
      obtain ⟨row, hrow, hopen⟩ := regionUnion_none.mp hnone
      obtain ⟨hrow, hunpinned⟩ := List.mem_filter.mp hrow
      rcases unpinned_iff.mp hunpinned with hcovers | ⟨hwild, hcloud⟩
      · exact hshut ⟨row, hrow, hcovers, hopen⟩
      · rw [(hother row hrow hwild hcloud).1] at hopen
        cases hopen
    obtain ⟨all, hall⟩ := Option.ne_none_iff_exists'.mp hall
    rw [hall, Option.map_some]
    refine congrArg some (Finset.ext fun region => ?_)
    rw [List.mem_toFinset, List.mem_toFinset, mem_regionUnion hall, mem_regionUnion hown]
    constructor
    · rintro ⟨row, hrow, hregion⟩
      obtain ⟨hrow, hunpinned⟩ := List.mem_filter.mp hrow
      rcases unpinned_iff.mp hunpinned with hcovers | ⟨hwild, hcloud⟩
      · exact ⟨row, List.mem_filter.mpr ⟨hrow, hcovers⟩, hregion⟩
      · obtain ⟨grant, hgrant, hcovers, hlisted⟩ := (hother row hrow hwild hcloud).2 region hregion
        exact ⟨grant, List.mem_filter.mpr ⟨hgrant, hcovers⟩, hlisted⟩
    · rintro ⟨row, hrow, hregion⟩
      obtain ⟨hrow, hcovers⟩ := List.mem_filter.mp hrow
      exact ⟨row, List.mem_filter.mpr ⟨hrow, unpinned_iff.mpr (.inl hcovers)⟩, hregion⟩

/-- The regions of an account are those of the grants that cover it, exactly if a grant for the
whole of another cloud adds none. -/
theorem region_access_per_account (rows : List AccessRow) (a : Account) :
    ∃ answer, EffectiveScope.regions a.id (.grants (rows.map AccessRow.grant)) = some answer ∧
      (answer.map List.toFinset =
          (regionUnion (rows.filter (AccessRow.coversAccount a))).map List.toFinset ↔
        PerAccount rows a) := by
  refine ⟨_, accessibleRegions_rows a.id rows [], ?_⟩
  simp only [List.nil_append, Option.map_id_fun', id]
  by_cases hopen : ∃ row ∈ rows, row.coversAccount a = true ∧ row.anyRegion = true
  · refine iff_of_true ?_ (.inl hopen)
    obtain ⟨row, hrow, hcovers, hany⟩ := hopen
    have hunpinned := unpinned_iff.mpr (.inl hcovers)
    rw [regionUnion_none.mpr ⟨row, List.mem_filter.mpr ⟨hrow, hunpinned⟩, hany⟩,
      regionUnion_none.mpr ⟨row, List.mem_filter.mpr ⟨hrow, hcovers⟩, hany⟩]
  · rw [sameUnion_iff hopen, PerAccount, or_iff_right hopen]

/-- One region of an account of one cloud, and the whole of another cloud: every region of the
account is shown. -/
theorem other_cloud_opens_regions :
    let rows : List AccessRow := [⟨.aws, some 1, some ["eu-west-1"], none, none, none⟩,
      ⟨.azure, none, none, none, none, none⟩]
    EffectiveScope.regions 1 (.grants (rows.map AccessRow.grant)) = some none ∧
      regionUnion (rows.filter (AccessRow.coversAccount ⟨1, .aws⟩)) = some ["eu-west-1"] := by
  decide +kernel

end Union

end MonitoringHub.Access
