import MonitoringHub.Access.StoredScope

/-! The data layer's reading of the same columns: which regions of an account a grant
shows. Of a role binding only the regions restrict; one that restricts anything else is
skipped. -/

namespace MonitoringHub.Access

/-- What a set of JSON values holds, up to Python's equality: `True` is 1. -/
inductive Elem
  | null
  | num (q : ℚ)
  | text (s : String)
  deriving DecidableEq

/-- The value as an element; lists and objects are not hashable. -/
def Json.elem : Json → Option Elem
  | null => some .null
  | bool b => some (.num (if b then 1 else 0))
  | num q => some (.num q)
  | str s => some (.text s)
  | arr _ | obj _ => none

/-- `set(j)`; `none` is a TypeError. -/
def Json.elems : Json → Option (List Elem)
  | arr elems => if elems.all fun j => j.elem.isSome then some (elems.filterMap elem) else none
  | str s => some (s.toList.map fun c => .text (String.singleton c))
  | obj fields => some (fields.map fun field => .text field.1)
  | _ => none

def Elem.asText : Elem → Option String
  | text s => some s
  | _ => none

/-- The texts `set().update(j)` adds. -/
def Json.members (j : Json) : Option (List String) :=
  j.elems.map fun elems => elems.filterMap Elem.asText

/-- `authorization._parse_json_list` -/
def parseJsonList : Stored → Option Json
  | .null => none
  | .list elems => some (.arr elems)
  | .dict _ => none
  | .text loads => loads.filter Json.truthy

/-- The part of a `ScopeGrant` that decides which regions of an account are shown. -/
structure RegionGrant where
  accountRefId : Option AccountId
  regions : Option Json

def regionGrant (row : ScopeRow) : RegionGrant :=
  ⟨row.accountRefId, parseJsonList (row.stored .regions)⟩

def unenforcedScopeColumns : List Column := [.services, .resourceGroups, .resourceIds, .tagSelector]

/-- A binding is skipped when its scope restricts what the data layer cannot enforce. -/
def ScopeRow.skipped (row : ScopeRow) : Bool :=
  unenforcedScopeColumns.any fun c => (parseJsonList (row.stored c)).any Json.truthy

def bindingScopeGrant (row : ScopeRow) : Option RegionGrant :=
  if row.skipped then none else some (regionGrant row)

/-- `get_accessible_regions_for_account` from the grants in order: an exception, every
region, or the regions gathered. -/
def accessibleRegions (accountId : AccountId) :
    List RegionGrant → List String → Option (Option (List String))
  | [], regions => some (some regions)
  | grant :: grants, regions =>
    if grant.accountRefId.any (· ≠ accountId) then accessibleRegions accountId grants regions
    else match grant.regions.filter Json.truthy with
      | none => some none
      | some j => match j.members with
        | none => none
        | some more => accessibleRegions accountId grants (regions ++ more)

/-- The region is shown by the grants, read after these regions were gathered. -/
def showsFrom (gathered : List String) (grants : List RegionGrant) (accountId : AccountId)
    (region : String) : Prop :=
  ∃ regions, accessibleRegions accountId grants gathered = some regions ∧
    regions.all (·.contains region) = true

/-- The row with no other restriction than the column's. -/
def ScopeRow.only (row : ScopeRow) (c : Column) : ScopeRow :=
  { row with stored := Function.update (fun _ => .null) c (row.stored c) }

/-- The same of what a row shows, for the columns that are read. A dimension that is shut
adds nothing to what any other grants show. -/
structure ScopeRow.ShownFailsClosed (row : ScopeRow) (grant : ScopeRow → Option RegionGrant)
    (columns : List Column) : Prop where
  narrows : ∀ c ∈ columns, ∀ accountId region,
    showsFrom [] (grant row).toList accountId region →
      showsFrom [] (grant (row.opened c)).toList accountId region
  shuts : ∀ c ∈ columns, row.stored c ≠ .null → (row.stored c).shaped c = false →
    ∀ before after accountId region,
      showsFrom [] (before ++ (grant (row.only c)).toList ++ after) accountId region →
        showsFrom [] (before ++ after) accountId region

/-- A column that only decides whether the binding is skipped needs to be truthy. -/
def Stored.shutsShown (c : Column) : Stored → Bool
  | .null => true
  | .text none => false
  | .text (some j) =>
    c.shaped j || j.truthy && (decide (c ≠ .regions) || Stored.shuts.trips c j)
  | .list elems => c.shaped (.arr elems) || !elems.isEmpty
  | .dict fields => c.shaped (.obj fields)

section Shown
variable {grant : RegionGrant} {grants grants' before after : List RegionGrant}
  {accountId : AccountId} {region : String} {gathered : List String} {row : ScopeRow} {c : Column}

/-- What one grant does to the answer. -/
theorem showsFrom_cons : showsFrom gathered (grant :: grants) accountId region ↔
    if grant.accountRefId.any (· ≠ accountId) then showsFrom gathered grants accountId region
    else match grant.regions.filter Json.truthy with
      | none => True
      | some j => ∃ more, j.members = some more ∧
          showsFrom (gathered ++ more) grants accountId region := by
  unfold showsFrom
  rw [accessibleRegions]
  split
  · rfl
  · split
    · simp
    · split
      · rename_i hmembers
        simp [hmembers]
      · rename_i hmembers
        simp [hmembers]

/-- What the last grants show more, they show after any others. -/
theorem showsFrom_append
    (h : ∀ gathered, showsFrom gathered grants accountId region →
      showsFrom gathered grants' accountId region)
    (hshown : showsFrom gathered (before ++ grants) accountId region) :
    showsFrom gathered (before ++ grants') accountId region := by
  induction before generalizing gathered with
  | nil => exact h gathered hshown
  | cons first before ih =>
    rw [List.cons_append, showsFrom_cons] at hshown ⊢
    split
    · rename_i helsewhere
      rw [if_pos helsewhere] at hshown
      exact ih hshown
    · rename_i helsewhere
      rw [if_neg helsewhere] at hshown
      split at hshown
      · trivial
      · obtain ⟨more, hmembers, hrest⟩ := hshown
        exact ⟨more, hmembers, ih hrest⟩

/-- A grant whose regions cannot be read adds nothing. -/
theorem showsFrom_drop {j : Json} (hreads : grant.regions.filter Json.truthy = some j)
    (hmembers : j.members = none)
    (h : showsFrom gathered (grant :: grants) accountId region) :
    showsFrom gathered grants accountId region := by
  rw [showsFrom_cons, hreads] at h
  split at h
  · exact h
  · obtain ⟨more, hmore, -⟩ := h
    rw [hmembers] at hmore
    cases hmore

/-- A grant without region restriction shows all that one with a restriction does. -/
theorem showsFrom_widen
    (h : showsFrom gathered (grant :: grants) accountId region) :
    showsFrom gathered (⟨grant.accountRefId, none⟩ :: grants) accountId region := by
  rw [showsFrom_cons] at h ⊢
  split
  · rename_i helsewhere
    rwa [if_pos helsewhere] at h
  · trivial

theorem not_showsFrom_nil : ¬ showsFrom [] [] accountId region := by
  rintro ⟨regions, hregions, hmem⟩
  cases hregions
  cases hmem

/-- An account that a grant is not pinned away from. -/
theorem exists_account (accountRefId : Option AccountId) :
    ∃ accountId, accountRefId.any (· ≠ accountId) = false := by
  cases accountRefId with
  | none => exact ⟨1, rfl⟩
  | some id => exact ⟨id, by simp⟩

theorem showsFrom_open (h : grant.accountRefId.any (· ≠ accountId) = false)
    (hopen : grant.regions.filter Json.truthy = none) :
    showsFrom [] [grant] accountId region := by
  rw [showsFrom_cons, h, hopen]
  trivial

theorem showsFrom_members {j : Json} {more : List String}
    (h : grant.accountRefId.any (· ≠ accountId) = false)
    (hreads : grant.regions.filter Json.truthy = some j) (hmembers : j.members = some more)
    (hregion : region ∈ more) : showsFrom [] [grant] accountId region := by
  rw [showsFrom_cons, h, hreads]
  refine ⟨more, hmembers, some more, rfl, ?_⟩
  simpa using hregion

theorem filter_parseJsonList (j : Json) :
    (parseJsonList (.text (some j))).filter Json.truthy =
      if j.truthy = true then some j else none := by
  rw [parseJsonList, Json.filter_truthy]
  split
  · rename_i htruthy
    rw [Json.filter_truthy, if_pos htruthy]
  · rfl

/-- Truthy content that is neither a list nor raises shows some region. -/
theorem exists_members {j : Json} (hshape : Column.shaped .regions j = false)
    (htruthy : j.truthy = true) (htrips : Stored.shuts.trips .regions j = false) :
    ∃ region more, j.members = some more ∧ region ∈ more := by
  cases j with
  | null => cases htruthy
  | bool b => cases htrips
  | num q => cases htrips
  | arr elems => cases hshape
  | str s =>
    have hne : s ≠ "" := of_decide_eq_true htruthy
    have hchars : s.toList ≠ [] := by simpa using hne
    obtain ⟨c, rest, hs⟩ := List.exists_cons_of_ne_nil hchars
    exact ⟨String.singleton c, _, rfl, by simp [hs, Elem.asText]⟩
  | obj fields =>
    cases fields with
    | nil => cases htruthy
    | cons field rest => exact ⟨field.1, _, rfl, List.mem_cons_self⟩

theorem members_trips {j : Json} (hshape : Column.shaped .regions j = false)
    (htruthy : j.truthy = true) (htrips : Stored.shuts.trips .regions j = true) :
    j.members = none := by
  cases j with
  | null => cases htruthy
  | bool b => rfl
  | num q => rfl
  | arr elems => cases hshape
  | str s => cases htrips
  | obj fields => cases htrips

/-- The region column of one row, next to any other grants. -/
theorem Stored.shutsShown_regions_iff {stored : Stored} (accountRefId : Option AccountId) :
    (stored ≠ .null → stored.shaped .regions = false → ∀ before after accountId region,
      showsFrom [] (before ++ [⟨accountRefId, parseJsonList stored⟩] ++ after) accountId region →
        showsFrom [] (before ++ after) accountId region) ↔
      stored.shutsShown .regions = true := by
  obtain ⟨accountId, haccount⟩ := exists_account accountRefId
  constructor
  · intro h
    by_contra hopen
    have hshape : stored ≠ .null ∧ stored.shaped .regions = false := by
      cases stored with
      | null => exact absurd rfl hopen
      | text loads =>
        cases loads with
        | none => exact ⟨by simp, rfl⟩
        | some j => exact ⟨by simp, by simp_all [shutsShown, shaped]⟩
      | list elems => exact absurd rfl hopen
      | dict fields => exact ⟨by simp, rfl⟩
    have hshown (region : String) : ¬ showsFrom [] [⟨accountRefId, parseJsonList stored⟩]
        accountId region := fun hregion =>
      not_showsFrom_nil (h hshape.1 hshape.2 [] [] accountId region hregion)
    cases stored with
    | null => exact hopen rfl
    | list elems => exact hopen rfl
    | dict fields => exact hshown "" (showsFrom_open haccount rfl)
    | text loads =>
      cases loads with
      | none => exact hshown "" (showsFrom_open haccount rfl)
      | some j =>
        have hreads := filter_parseJsonList j
        cases htruthy : j.truthy with
        | false =>
          have hunread : ¬ j.truthy = true := by simp [htruthy]
          rw [if_neg hunread] at hreads
          exact hshown "" (showsFrom_open haccount hreads)
        | true =>
          rw [if_pos htruthy] at hreads
          have htrips : shuts.trips .regions j = false := by
            simp_all [shutsShown, shaped]
          obtain ⟨region, more, hmembers, hregion⟩ := exists_members hshape.2 htruthy htrips
          exact hshown region (showsFrom_members haccount hreads hmembers hregion)
  · intro h hnull hshape before after accountId region hshown
    cases stored with
    | null => exact absurd rfl hnull
    | list elems => cases hshape
    | dict fields => cases h
    | text loads =>
      cases loads with
      | none => cases h
      | some j =>
        have hboth : j.truthy = true ∧ shuts.trips .regions j = true := by
          have hj : Column.shaped .regions j = false := hshape
          simpa [shutsShown, hj] using h
        have hreads := filter_parseJsonList j
        rw [if_pos hboth.1] at hreads
        rw [List.append_assoc] at hshown
        refine showsFrom_append (fun gathered hrest => ?_) hshown
        exact showsFrom_drop hreads (members_trips hshape hboth.1 hboth.2) hrest

theorem ScopeRow.skipped_only (hc : c ≠ .regions) :
    (row.only c).skipped = (parseJsonList (row.stored c)).any Json.truthy := by
  cases c <;> first
    | exact absurd rfl hc
    | simp [skipped, unenforcedScopeColumns, only, Function.update, parseJsonList]

theorem ScopeRow.skipped_only_regions : (row.only .regions).skipped = false := by
  simp [skipped, unenforcedScopeColumns, only, Function.update, parseJsonList]

/-- A column that is not enforced has to skip the binding. -/
theorem Stored.shutsShown_iff {stored : Stored} (hc : c ≠ .regions) :
    (stored ≠ .null → stored.shaped c = false →
      (parseJsonList stored).any Json.truthy = true) ↔ stored.shutsShown c = true := by
  cases stored with
  | null => simp [shutsShown]
  | text loads =>
    cases loads with
    | none => simp [shutsShown, shaped, parseJsonList]
    | some j =>
      cases hj : j.truthy with
      | true => simp [shutsShown, shaped, parseJsonList, Json.filter_truthy, hj, hc]
      | false => simp [shutsShown, shaped, parseJsonList, Json.filter_truthy, hj]
  | list elems =>
    simp only [shutsShown, shaped, parseJsonList, Option.any_some, Json.truthy]
    cases c.shaped (.arr elems) <;> simp
  | dict fields =>
    simp only [shutsShown, shaped, parseJsonList]
    cases c.shaped (.obj fields) <;> simp

/-- The row of a user's or a group's own scope. -/
theorem ScopeRow.regionGrant_failsClosed_iff :
    row.ShownFailsClosed (fun row => some (regionGrant row)) [.regions] ↔
      (row.stored .regions).shutsShown .regions = true := by
  rw [← Stored.shutsShown_regions_iff row.accountRefId]
  constructor
  · intro h hnull hshape
    exact h.shuts .regions List.mem_cons_self hnull hshape
  · intro h
    refine ⟨fun c hc accountId region hshown => ?_, fun c hc => ?_⟩
    · rw [List.mem_singleton] at hc
      subst hc
      exact showsFrom_widen hshown
    · rw [List.mem_singleton] at hc
      subst hc
      exact h

/-- Opening a column skips no more bindings. -/
theorem ScopeRow.skipped_opened (h : row.skipped = false) : (row.opened c).skipped = false := by
  simp only [skipped, List.any_eq_false] at h ⊢
  intro c' hc'
  rw [opened_stored]
  split
  · simp [parseJsonList]
  · exact h c' hc'

theorem regionGrant_opened (row : ScopeRow) (c : Column) :
    regionGrant (row.opened c) = regionGrant row ∨
    regionGrant (row.opened c) = ⟨row.accountRefId, none⟩ := by
  simp only [regionGrant, ScopeRow.opened_stored]
  split
  · exact .inr rfl
  · exact .inl rfl

/-- The row of a role binding's scope. -/
theorem ScopeRow.bindingScopeGrant_failsClosed_iff :
    row.ShownFailsClosed bindingScopeGrant (.regions :: unenforcedScopeColumns) ↔
      ∀ c, (row.stored c).shutsShown c = true := by
  have hregions : bindingScopeGrant (row.only .regions) =
      some ⟨row.accountRefId, parseJsonList (row.stored .regions)⟩ := by
    rw [bindingScopeGrant, skipped_only_regions]
    rfl
  have hother {c : Column} (hc : c ≠ .regions) : bindingScopeGrant (row.only c) =
      if (parseJsonList (row.stored c)).any Json.truthy then none
      else some ⟨row.accountRefId, none⟩ := by
    rw [bindingScopeGrant, skipped_only hc]
    cases c <;> first | exact absurd rfl hc | rfl
  constructor
  · intro h c
    by_cases hc : c = .regions
    · subst hc
      refine (Stored.shutsShown_regions_iff row.accountRefId).mp fun hnull hshape before after => ?_
      have hshut := h.shuts .regions List.mem_cons_self hnull hshape before after
      rwa [hregions] at hshut
    · refine (Stored.shutsShown_iff hc).mp fun hnull hshape => ?_
      by_contra hkept
      obtain ⟨accountId, haccount⟩ := exists_account row.accountRefId
      have hmem : c ∈ Column.regions :: unenforcedScopeColumns := by
        cases c <;> simp [unenforcedScopeColumns]
      have hshut := h.shuts c hmem hnull hshape [] [] accountId ""
      rw [hother hc, if_neg hkept] at hshut
      exact not_showsFrom_nil (hshut (showsFrom_open haccount rfl))
  · intro h
    refine ⟨fun c _ accountId region hshown => ?_, fun c _ hnull hshape before after => ?_⟩
    · cases hskip : row.skipped with
      | true =>
        rw [bindingScopeGrant, hskip] at hshown
        exact absurd hshown not_showsFrom_nil
      | false =>
        rw [bindingScopeGrant, hskip] at hshown
        rw [bindingScopeGrant, skipped_opened hskip]
        obtain hsame | hopen := regionGrant_opened row c
        · simpa [hsame] using hshown
        · simp only [hopen]
          exact showsFrom_widen hshown
    · by_cases hc : c = .regions
      · subst hc
        rw [hregions]
        exact (Stored.shutsShown_regions_iff row.accountRefId).mpr (h .regions) hnull hshape
          before after
      · rw [hother hc, if_pos ((Stored.shutsShown_iff hc).mpr (h c) hnull hshape)]
        intro accountId region hshown
        simpa using hshown

end Shown

/-- A scope row fails closed on every path that reads it exactly if each column is NULL,
has its right type, or trips the reader: a permission check over the whole scope, the
regions of a grant of a user or group, the regions of a role binding. -/
theorem stored_restriction_failsClosed_iff (row : ScopeRow) :
    (row.FailsClosed ↔ ∀ c, (row.stored c).shuts c = true) ∧
    (row.ShownFailsClosed (fun row => some (regionGrant row)) [.regions] ↔
      (row.stored .regions).shutsShown .regions = true) ∧
    (row.ShownFailsClosed bindingScopeGrant (.regions :: unenforcedScopeColumns) ↔
      ∀ c, (row.stored c).shutsShown c = true) :=
  ⟨row.failsClosed_iff, row.regionGrant_failsClosed_iff, row.bindingScopeGrant_failsClosed_iff⟩

/-- The scope of account 1 with `{}` stored as its regions. -/
def emptyObjectRow : ScopeRow where
  cloud := none
  accountRefId := some 1
  stored := Function.update (fun _ => .null) .regions (.text (some (.obj [])))

theorem unreadable_regions_open : ¬ emptyObjectRow.FailsClosed ∧
    (scopeFromRow emptyObjectRow).covers
      ⟨some .aws, some 1, some "eu-west-1", none, none, none, none⟩ = some true ∧
    accessibleRegions 1 [regionGrant emptyObjectRow] [] = some none := by
  refine ⟨fun h => ?_, by decide +kernel, by decide +kernel⟩
  have hnull : emptyObjectRow.stored .regions ≠ .null := nofun
  exact h.shuts .regions hnull rfl ⟨none, none, none, none, none, none, none⟩ rfl

end MonitoringHub.Access
