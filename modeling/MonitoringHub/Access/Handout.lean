import Mathlib.Logic.Relation
import MonitoringHub.Access.AccessFilter
import MonitoringHub.Access.StoredRegions

/-! Scopes handed out. What an administrator may grant is checked grant by grant: each
requested scope must lie within one grant of the giver's effective scope, and is then
stored as a grant of the receiver. -/

namespace MonitoringHub.Access
open Lib

/-- A grant as loaded; a dimension that is NULL or falsy restricts nothing. -/
structure ScopeGrant where
  cloud : Cloud
  accountRefId : Option AccountId
  regions : Option Json
  resourceGroups : Option Json
  resourceTypes : Option Json
  resourceIds : Option Json

inductive EffectiveScope
  | fullAccess
  | grants (list : List ScopeGrant)

/-- A requested scope as the payload has it. -/
structure ScopeRequest where
  cloud : Option String
  accountRefId : Option AccountId
  regions : Option Json
  resourceGroups : Option Json
  resourceTypes : Option Json
  resourceIds : Option Json

def Cloud.name : Cloud → String
  | aws => "aws"
  | azure => "azure"
  | gcp => "gcp"

def Cloud.ofName (name : String) : Option Cloud :=
  [aws, azure, gcp].find? fun cloud => cloud.name = name

def Json.isList : Json → Bool
  | arr _ => true
  | _ => false

/-- `valid_account_ids_by_cloud.get(cloud)` -/
def Accounts.ofCloud (accounts : Accounts) (cloud : Cloud) : List AccountId :=
  (accounts.rows.filter fun a => a.provider = cloud).map Account.id

def ScopeRequest.fields (request : ScopeRequest) : List (String × Option Json) :=
  [("regions", request.regions), ("resource_groups", request.resourceGroups),
    ("resource_types", request.resourceTypes), ("resource_ids", request.resourceIds)]

/-- The error, or `none` for a well-formed request. -/
def validateScopeShape (accounts : Accounts) (request : ScopeRequest) : Option String :=
  match request.cloud.bind Cloud.ofName with
  | none => some ("Invalid cloud '" ++ request.cloud.getD "None" ++ "' — must be aws, azure, or gcp")
  | some cloud =>
    match request.accountRefId.filter fun id => !(accounts.ofCloud cloud).contains id with
    | some id => some ("account_ref_id " ++ toString (id : ℕ) ++ " does not exist under cloud '" ++
        cloud.name ++ "'")
    | none => (request.fields.find? fun field => field.2.any fun j => !j.isList).map fun field =>
        field.1 ++ " must be a list or null"

/-- `_covers`; `none` is a TypeError. -/
def coversList (actor requested : Option Json) : Option Bool :=
  match actor.filter Json.truthy with
  | none => some true
  | some held =>
    match requested.filter Json.truthy with
    | none => some false
    | some wanted => wanted.elems.bind fun more => held.elems.map fun elems => more.all elems.contains

def singleScopeWithin (request : ScopeRequest) : List ScopeGrant → Option Bool
  | [] => some false
  | grant :: grants =>
    if request.cloud ≠ some grant.cloud.name then singleScopeWithin request grants
    else if grant.accountRefId.any fun id => request.accountRefId ≠ some id then
      singleScopeWithin request grants
    else match inOrder [coversList grant.regions request.regions,
        coversList grant.resourceGroups request.resourceGroups,
        coversList grant.resourceTypes request.resourceTypes,
        coversList grant.resourceIds request.resourceIds] with
      | some false => singleScopeWithin request grants
      | answer => answer

def scopeWithin (requested : List ScopeRequest) : EffectiveScope → Option Bool
  | .fullAccess => some true
  | .grants list =>
    if requested.isEmpty then some false
    else inOrder (requested.map fun request => singleScopeWithin request list)

/-- The grant that is stored for a request and loaded again. -/
def ScopeRequest.stored (request : ScopeRequest) : Option ScopeGrant :=
  (request.cloud.bind Cloud.ofName).map fun cloud =>
    { cloud, accountRefId := request.accountRefId
      regions := request.regions.filter Json.truthy
      resourceGroups := request.resourceGroups.filter Json.truthy
      resourceTypes := request.resourceTypes.filter Json.truthy
      resourceIds := request.resourceIds.filter Json.truthy }

/-- What a giver with this effective scope may grant. -/
structure Accepts (accounts : Accounts) (giver : EffectiveScope) (requested : List ScopeRequest) :
    Prop where
  shape : ∀ request ∈ requested, validateScopeShape accounts request = none
  within : scopeWithin requested giver = some true

/-- All that the receiver holds was granted by the giver, in any number of requests. -/
def HandsOut (accounts : Accounts) (giver receiver : EffectiveScope) : Prop :=
  ∃ batches : List (List ScopeRequest), (∀ batch ∈ batches, Accepts accounts giver batch) ∧
    receiver = .grants (batches.flatten.filterMap ScopeRequest.stored)

/-- The grant's dimensions as a permission check reads them. -/
def ScopeGrant.scope (grant : ScopeGrant) : LoadedScope where
  cloud := some grant.cloud
  accountRefId := grant.accountRefId
  dim
    | .regions => grant.regions
    | .services => grant.resourceTypes
    | .resourceGroups => grant.resourceGroups
    | .resourceIds => grant.resourceIds
    | .tagSelector => none

def ScopeGrant.region (grant : ScopeGrant) : RegionGrant := ⟨grant.accountRefId, grant.regions⟩

/-- Some grant covers the target. -/
def EffectiveScope.Covers : EffectiveScope → Target → Prop
  | .fullAccess, _ => True
  | .grants list, target => ∃ grant ∈ list, grant.scope.covers target = some true

/-- `get_accessible_account_ids`; `none` for no filter. -/
def accessibleAccountIds (accounts : Accounts) : EffectiveScope → Option (List AccountId)
  | .fullAccess => none
  | .grants list => some ((accounts.rows.filter fun a =>
      list.any fun grant => grant.accountRefId = some a.id ||
        (grant.accountRefId = none && grant.cloud = a.provider)).map Account.id)

/-- The regions of an account that are shown, as `accessibleRegions` answers. -/
def EffectiveScope.regions (accountId : AccountId) : EffectiveScope → Option (Option (List String))
  | .fullAccess => some none
  | .grants list => accessibleRegions accountId (list.map ScopeGrant.region) []

/-- The data layer shows the region of the account. -/
def EffectiveScope.Shows (accounts : Accounts) (scope : EffectiveScope) (accountId : AccountId)
    (region : String) : Prop :=
  ((accessibleAccountIds accounts scope).all fun ids => ids.contains accountId) = true ∧
    ∃ regions, scope.regions accountId = some regions ∧ regions.all (·.contains region) = true

section Dimensions
variable {held wanted : Json} {more elems : List Elem} {value : Option String}

/-- The value as an element of a set. -/
def valueElem : Option String → Elem
  | none => .null
  | some v => .text v

theorem elem_of_isValue {j : Json} (h : j.isValue value = true) : j.elem = some (valueElem value) := by
  cases j with
  | null =>
    obtain rfl := Option.isNone_iff_eq_none.mp h
    rfl
  | str s =>
    obtain rfl := of_decide_eq_true h
    rfl
  | bool b => cases h
  | num q => cases h
  | arr elems => cases h
  | obj fields => cases h

theorem isValue_of_elem {j : Json} (h : j.elem = some (valueElem value)) : j.isValue value = true := by
  cases value <;> cases j <;> simp_all [Json.elem, valueElem, Json.isValue]

/-- What a list holds is an element of it. -/
theorem elems_of_holds (hlist : wanted.isList = true) (helems : wanted.elems = some more)
    (h : wanted.holds value = some true) : valueElem value ∈ more := by
  cases wanted with
  | arr js =>
    rw [Json.elems] at helems
    split at helems
    · cases helems
      obtain ⟨j, hj, hvalue⟩ := List.any_eq_true.mp (Option.some.inj h)
      exact List.mem_filterMap.mpr ⟨j, hj, elem_of_isValue hvalue⟩
    · cases helems
  | null => cases hlist
  | bool b => cases hlist
  | num q => cases hlist
  | str s => cases hlist
  | obj fields => cases hlist

/-- The other way round for whatever can be read as a set: a character is a part of the text. -/
theorem holds_of_elems (helems : held.elems = some elems) (h : valueElem value ∈ elems) :
    held.holds value = some true := by
  cases held with
  | arr js =>
    rw [Json.elems] at helems
    split at helems
    · cases helems
      obtain ⟨j, hj, helem⟩ := List.mem_filterMap.mp h
      exact congrArg some (List.any_eq_true.mpr ⟨j, hj, isValue_of_elem helem⟩)
    · cases helems
  | str s =>
    cases helems
    obtain ⟨c, hc, helem⟩ := List.mem_map.mp h
    cases value with
    | none => cases helem
    | some v =>
      obtain rfl : String.singleton c = v := by simpa [valueElem] using helem
      have hinfix : [c] <:+: s.toList := (List.singleton_infix_iff c s.toList).mpr hc
      simpa [Json.holds, Text.contains] using hinfix
  | obj fields =>
    cases helems
    obtain ⟨field, hfield, helem⟩ := List.mem_map.mp h
    cases value with
    | none => cases helem
    | some v =>
      obtain rfl : field.1 = v := by simpa [valueElem] using helem
      exact congrArg some (List.any_eq_true.mpr ⟨field, hfield, by simp⟩)
  | null => cases helems
  | bool b => cases helems
  | num q => cases helems

/-- A dimension of the request lies within the giver's. -/
structure Narrower (actor requested : Option Json) : Prop where
  within : ∀ held, actor.filter Json.truthy = some held → ∃ wanted more elems,
    requested.filter Json.truthy = some wanted ∧ wanted.elems = some more ∧
      held.elems = some elems ∧ ∀ elem ∈ more, elem ∈ elems

theorem narrower_of_coversList {actor requested : Option Json}
    (h : coversList actor requested = some true) : Narrower actor requested := by
  refine ⟨fun held hheld => ?_⟩
  simp only [coversList, hheld] at h
  cases hwanted : requested.filter Json.truthy with
  | none =>
    rw [hwanted] at h
    cases h
  | some wanted =>
    simp only [hwanted] at h
    obtain ⟨more, hmore, h⟩ := Option.bind_eq_some_iff.mp h
    obtain ⟨elems, helems, h⟩ := Option.map_eq_some_iff.mp h
    refine ⟨wanted, more, elems, rfl, hmore, helems, fun elem helem => ?_⟩
    exact List.contains_iff_mem.mp (List.all_eq_true.mp h elem helem)

variable {actor requested : Option Json}

/-- What passes the narrower list passes the wider one. -/
theorem Narrower.check (h : Narrower actor requested) (hlist : requested.all Json.isList = true)
    {c : Column} (hc : c ≠ .tagSelector) {target : Target}
    (hpass : c.check requested target = some true) : c.check actor target = some true := by
  cases hheld : actor.filter Json.truthy with
  | none => simp only [Column.check, hheld]
  | some held =>
    obtain ⟨wanted, more, elems, hwanted, hmore, helems, hsub⟩ := h.within held hheld
    have hwantedList : wanted.isList = true :=
      (Option.all_eq_true _ _).mp hlist wanted (Option.eq_some_of_filter_eq_some hwanted)
    simp only [Column.check, hwanted, if_neg hc] at hpass
    simp only [Column.check, hheld, if_neg hc]
    exact holds_of_elems helems (hsub _ (elems_of_holds hwantedList hmore hpass))

theorem Narrower.stored (h : Narrower actor requested) :
    Narrower actor (requested.filter Json.truthy) := by
  refine ⟨fun held hheld => ?_⟩
  obtain ⟨wanted, more, elems, hwanted, hrest⟩ := h.within held hheld
  refine ⟨wanted, more, elems, ?_, hrest⟩
  rw [hwanted]
  exact Option.filter_some_pos (Option.mem_filter_iff.mp hwanted).2

end Dimensions

section Requests
variable {accounts : Accounts} {request : ScopeRequest} {giver received : ScopeGrant}
  {list : List ScopeGrant} {requested : List ScopeRequest}

@[simp] theorem Cloud.ofName_name (cloud : Cloud) : Cloud.ofName cloud.name = some cloud := by
  cases cloud <;> decide +kernel

/-- What the shape check leaves of a request: an account is of the cloud. -/
structure WellShaped (accounts : Accounts) (request : ScopeRequest) (cloud : Cloud) : Prop where
  named : request.cloud.bind Cloud.ofName = some cloud
  account : ∀ id, request.accountRefId = some id → id ∈ accounts.ofCloud cloud
  lists : ∀ field ∈ request.fields, field.2.all Json.isList = true

theorem wellShaped_of_validate (h : validateScopeShape accounts request = none) :
    ∃ cloud, WellShaped accounts request cloud := by
  unfold validateScopeShape at h
  split at h
  · cases h
  · rename_i cloud hcloud
    split at h
    · cases h
    · rename_i haccount
      refine ⟨cloud, hcloud, fun id hid => ?_, fun field hfield => ?_⟩
      · have hlisted := (Option.filter_eq_none_iff.mp haccount) id hid
        simpa using hlisted
      · rw [Option.map_eq_none_iff, List.find?_eq_none] at h
        have hlist := h field hfield
        cases hdim : field.2 with
        | none => rfl
        | some j => simpa [hdim] using hlist

/-- The grant of the giver that a request was found to lie within. -/
theorem exists_grant_within (h : singleScopeWithin request list = some true) :
    ∃ grant ∈ list, request.cloud = some grant.cloud.name ∧
      (∀ id, grant.accountRefId = some id → request.accountRefId = some id) ∧
      coversList grant.regions request.regions = some true ∧
      coversList grant.resourceGroups request.resourceGroups = some true ∧
      coversList grant.resourceTypes request.resourceTypes = some true ∧
      coversList grant.resourceIds request.resourceIds = some true := by
  induction list with
  | nil => cases h
  | cons grant grants ih =>
    rw [singleScopeWithin] at h
    split at h
    · obtain ⟨found, hfound, hrest⟩ := ih h
      exact ⟨found, List.mem_cons_of_mem _ hfound, hrest⟩
    · rename_i hcloud
      split at h
      · obtain ⟨found, hfound, hrest⟩ := ih h
        exact ⟨found, List.mem_cons_of_mem _ hfound, hrest⟩
      · rename_i haccount
        split at h
        · obtain ⟨found, hfound, hrest⟩ := ih h
          exact ⟨found, List.mem_cons_of_mem _ hfound, hrest⟩
        · have htests := inOrder_iff.mp h
          refine ⟨grant, List.mem_cons_self, not_not.mp hcloud, fun id hid => ?_,
            htests _ (by simp), htests _ (by simp), htests _ (by simp), htests _ (by simp)⟩
          simpa [hid] using haccount

/-- A grant handed out, beside the giver's grant that it was found to lie within. -/
structure GrantWithin (accounts : Accounts) (giver received : ScopeGrant) : Prop where
  cloud : received.cloud = giver.cloud
  account : ∀ id, giver.accountRefId = some id → received.accountRefId = some id
  exists_account : ∀ id, received.accountRefId = some id → id ∈ accounts.ofCloud received.cloud
  dim : ∀ c, Narrower (giver.scope.dim c) (received.scope.dim c)
  list : ∀ c, (received.scope.dim c).all Json.isList = true

theorem exists_giver (h : Accepts accounts (.grants list) requested)
    (hreceived : received ∈ requested.filterMap ScopeRequest.stored) :
    ∃ giver ∈ list, GrantWithin accounts giver received := by
  obtain ⟨request, hrequest, hstored⟩ := List.mem_filterMap.mp hreceived
  obtain ⟨cloud, hshape⟩ := wellShaped_of_validate (h.shape request hrequest)
  have hwithin := h.within
  rw [scopeWithin] at hwithin
  split at hwithin
  · cases hwithin
  · have hsingle : singleScopeWithin request list = some true :=
      inOrder_iff.mp hwithin _ (List.mem_map_of_mem hrequest)
    obtain ⟨giver, hgiver, hcloud, haccount, hregions, hgroups, htypes, hids⟩ :=
      exists_grant_within hsingle
    have hsame : cloud = giver.cloud := by
      have hname := hshape.named
      rw [hcloud, Option.bind_some, Cloud.ofName_name] at hname
      exact (Option.some.inj hname).symm
    rw [ScopeRequest.stored, hshape.named, Option.map_some] at hstored
    cases hstored
    have hlists : ∀ field ∈ request.fields, (field.2.filter Json.truthy).all Json.isList = true := by
      intro field hfield
      rw [Option.all_filter]
      have hlist := hshape.lists field hfield
      cases hdim : field.2 with
      | none => rfl
      | some j =>
        rw [hdim] at hlist
        simp_all
    refine ⟨giver, hgiver, hsame, haccount, hshape.account, fun c => ?_, fun c => ?_⟩
    · cases c with
      | regions => exact (narrower_of_coversList hregions).stored
      | services => exact (narrower_of_coversList htypes).stored
      | resourceGroups => exact (narrower_of_coversList hgroups).stored
      | resourceIds => exact (narrower_of_coversList hids).stored
      | tagSelector => exact ⟨fun held hheld => by cases hheld⟩
    · cases c with
      | regions => exact hlists ("regions", _) (by simp [ScopeRequest.fields])
      | services => exact hlists ("resource_types", _) (by simp [ScopeRequest.fields])
      | resourceGroups => exact hlists ("resource_groups", _) (by simp [ScopeRequest.fields])
      | resourceIds => exact hlists ("resource_ids", _) (by simp [ScopeRequest.fields])
      | tagSelector => rfl

/-- Whatever the received grant covers, the giver's covers. -/
theorem GrantWithin.covers (h : GrantWithin accounts giver received) {target : Target}
    (hcovers : received.scope.covers target = some true) :
    giver.scope.covers target = some true := by
  obtain ⟨hcloud, haccount, hchecks⟩ := LoadedScope.covers_iff.mp hcovers
  refine LoadedScope.covers_iff.mpr ⟨fun cloud hgiver => ?_, fun id hid => ?_, fun c => ?_⟩
  · cases hgiver
    exact hcloud _ (congrArg some h.cloud)
  · exact haccount id (h.account id hid)
  · by_cases hc : c = .tagSelector
    · subst hc
      rfl
    · exact (h.dim c).check (h.list c) hc (hchecks c)

/-- Some grant that is not pinned to another account has the region among its own, or
restricts none. -/
def Opens (list : List ScopeGrant) (accountId : AccountId) (region : String) : Prop :=
  ∃ grant ∈ list, (∀ id, grant.accountRefId = some id → id = accountId) ∧
    ∀ j, grant.regions.filter Json.truthy = some j → ∃ more, j.members = some more ∧ region ∈ more

theorem GrantWithin.opens (h : GrantWithin accounts giver received) {accountId : AccountId}
    {region : String} (hopens : Opens [received] accountId region) :
    Opens [giver] accountId region := by
  obtain ⟨_, hmem, haccount, hregions⟩ := hopens
  obtain rfl := List.mem_singleton.mp hmem
  refine ⟨giver, List.mem_cons_self, fun id hid => haccount id (h.account id hid),
    fun held hheld => ?_⟩
  obtain ⟨wanted, more, elems, hwanted, hmore, helems, hsub⟩ := (h.dim .regions).within held hheld
  obtain ⟨texts, htexts, hregion⟩ := hregions wanted hwanted
  rw [Json.members, hmore] at htexts
  cases htexts
  obtain ⟨elem, helem, htext⟩ := List.mem_filterMap.mp hregion
  refine ⟨elems.filterMap Elem.asText, by rw [Json.members, helems]; rfl, ?_⟩
  exact List.mem_filterMap.mpr ⟨elem, hsub elem helem, htext⟩

/-- An answer of the data layer holds the regions that some grant opens. -/
theorem accessibleRegions_iff {accountId : AccountId} {region : String} {gathered : List String}
    {regions : Option (List String)}
    (h : accessibleRegions accountId (list.map ScopeGrant.region) gathered = some regions) :
    regions.all (·.contains region) = true ↔ region ∈ gathered ∨ Opens list accountId region := by
  induction list generalizing gathered with
  | nil =>
    cases h
    simp [Opens]
  | cons grant grants ih =>
    have hsplit : Opens (grant :: grants) accountId region ↔
        Opens [grant] accountId region ∨ Opens grants accountId region := by
      simp [Opens, or_and_right, exists_or]
    rw [hsplit]
    rw [List.map_cons, accessibleRegions] at h
    split at h
    · rename_i helsewhere
      have hpinned : ¬ Opens [grant] accountId region := by
        rintro ⟨_, hmem, haccount, -⟩
        obtain rfl := List.mem_singleton.mp hmem
        obtain ⟨id, hid, hne⟩ := Option.any_eq_true _ _ |>.mp helsewhere
        exact of_decide_eq_true hne (haccount id hid)
      rw [ih h, or_iff_right hpinned]
    · rename_i hhere
      have haccount : ∀ id, grant.accountRefId = some id → id = accountId := by
        intro id hid
        simpa [ScopeGrant.region, hid] using hhere
      split at h
      · rename_i hopen
        cases h
        refine iff_of_true rfl (.inr (.inl ⟨grant, List.mem_cons_self, haccount, fun j hj => ?_⟩))
        simp only [ScopeGrant.region] at hopen
        rw [hopen] at hj
        cases hj
      · rename_i j hj
        split at h
        · cases h
        · rename_i more hmembers
          have hgrant : Opens [grant] accountId region ↔ region ∈ more := by
            constructor
            · rintro ⟨_, hmem, -, hregions⟩
              obtain rfl := List.mem_singleton.mp hmem
              obtain ⟨texts, htexts, hregion⟩ := hregions j hj
              rw [hmembers] at htexts
              cases htexts
              exact hregion
            · intro hregion
              refine ⟨grant, List.mem_cons_self, haccount, fun j' hj' => ?_⟩
              obtain rfl : j = j' := Option.some.inj (hj.symm.trans hj')
              exact ⟨more, hmembers, hregion⟩
          rw [ih h, hgrant, List.mem_append, or_assoc]

/-- The account is accessible and some grant opens the region of it. -/
def EffectiveScope.Reaches (accounts : Accounts) :
    EffectiveScope → AccountId → String → Prop
  | .fullAccess, _, _ => True
  | .grants list, accountId, region =>
    ((accessibleAccountIds accounts (.grants list)).all fun ids => ids.contains accountId) = true ∧
      Opens list accountId region

theorem mem_accessible_iff {accountId : AccountId} :
    ((accessibleAccountIds accounts (.grants list)).all fun ids => ids.contains accountId) = true ↔
      ∃ a ∈ accounts.rows, a.id = accountId ∧ ∃ grant ∈ list,
        grant.accountRefId = some a.id ∨ grant.accountRefId = none ∧ grant.cloud = a.provider := by
  simp only [accessibleAccountIds, Option.all_some, List.contains_iff_mem, List.mem_map,
    List.mem_filter, List.any_eq_true, Bool.or_eq_true, Bool.and_eq_true, decide_eq_true_eq]
  constructor
  · rintro ⟨a, ⟨ha, hgrant⟩, hid⟩
    exact ⟨a, ha, hid, hgrant⟩
  · rintro ⟨a, ha, hid, hgrant⟩
    exact ⟨a, ⟨ha, hgrant⟩, hid⟩

/-- An account reached through a received grant is reached through the giver's. -/
theorem GrantWithin.accessible (h : GrantWithin accounts giver received) {a : Account}
    (ha : a ∈ accounts.rows)
    (hreceived : received.accountRefId = some a.id ∨
      received.accountRefId = none ∧ received.cloud = a.provider) :
    ∃ a' ∈ accounts.rows, a'.id = a.id ∧
      (giver.accountRefId = some a'.id ∨ giver.accountRefId = none ∧ giver.cloud = a'.provider) := by
  cases hgiver : giver.accountRefId with
  | some id =>
    have hsame := h.account id hgiver
    refine ⟨a, ha, rfl, .inl ?_⟩
    rcases hreceived with hpinned | ⟨hopen, -⟩
    · rw [← hsame, hpinned]
    · rw [hopen] at hsame
      cases hsame
  | none =>
    rcases hreceived with hpinned | ⟨-, hprovider⟩
    · obtain ⟨a', ha', hid⟩ := List.mem_map.mp (h.exists_account a.id hpinned)
      obtain ⟨hrow, hcloud⟩ := List.mem_filter.mp ha'
      refine ⟨a', hrow, hid, .inr ⟨rfl, ?_⟩⟩
      rw [← h.cloud]
      exact (of_decide_eq_true hcloud).symm
    · exact ⟨a, ha, rfl, .inr ⟨rfl, h.cloud ▸ hprovider⟩⟩

theorem EffectiveScope.reaches_of_shows {scope : EffectiveScope} {accountId : AccountId}
    {region : String} (h : scope.Shows accounts accountId region) :
    scope.Reaches accounts accountId region := by
  obtain ⟨haccount, regions, hregions, hmem⟩ := h
  cases scope with
  | fullAccess => trivial
  | grants list =>
    refine ⟨haccount, ((accessibleRegions_iff hregions).mp hmem).resolve_left ?_⟩
    exact List.not_mem_nil

theorem EffectiveScope.shows_or_raises {scope : EffectiveScope} {accountId : AccountId}
    {region : String} (h : scope.Reaches accounts accountId region) :
    scope.Shows accounts accountId region ∨ scope.regions accountId = none := by
  cases scope with
  | fullAccess => exact .inl ⟨rfl, none, rfl, rfl⟩
  | grants list =>
    cases hregions : EffectiveScope.regions accountId (.grants list) with
    | none => exact .inr rfl
    | some regions =>
      exact .inl ⟨h.1, regions, hregions, (accessibleRegions_iff hregions).mpr (.inr h.2)⟩

end Requests

section HandOut
variable {accounts : Accounts} {giver receiver : EffectiveScope}

/-- What the receiver holds lies grant by grant within what the giver holds. -/
theorem HandsOut.exists_giver {list : List ScopeGrant}
    (h : HandsOut accounts (.grants list) receiver) : ∃ receivedList, receiver = .grants receivedList ∧
      ∀ received ∈ receivedList, ∃ giver ∈ list, GrantWithin accounts giver received := by
  obtain ⟨batches, haccepts, rfl⟩ := h
  refine ⟨_, rfl, fun received hreceived => ?_⟩
  obtain ⟨request, hrequest, hstored⟩ := List.mem_filterMap.mp hreceived
  obtain ⟨batch, hbatch, hmem⟩ := List.mem_flatten.mp hrequest
  exact Access.exists_giver (haccepts batch hbatch) (List.mem_filterMap.mpr ⟨request, hmem, hstored⟩)

theorem HandsOut.covers (h : HandsOut accounts giver receiver) {target : Target}
    (hcovers : receiver.Covers target) : giver.Covers target := by
  cases giver with
  | fullAccess => trivial
  | grants list =>
    obtain ⟨receivedList, rfl, hwithin⟩ := h.exists_giver
    obtain ⟨received, hreceived, hcovered⟩ := hcovers
    obtain ⟨grant, hgrant, hin⟩ := hwithin received hreceived
    exact ⟨grant, hgrant, hin.covers hcovered⟩

theorem HandsOut.reaches (h : HandsOut accounts giver receiver) {accountId : AccountId}
    {region : String} (hreaches : receiver.Reaches accounts accountId region) :
    giver.Reaches accounts accountId region := by
  cases giver with
  | fullAccess => trivial
  | grants list =>
    obtain ⟨receivedList, rfl, hwithin⟩ := h.exists_giver
    obtain ⟨haccount, received, hreceived, hopens⟩ := hreaches
    constructor
    · obtain ⟨a, ha, rfl, held, hheld, hvisible⟩ := mem_accessible_iff.mp haccount
      obtain ⟨grant, hgrant, hin⟩ := hwithin held hheld
      obtain ⟨a', ha', hid, hgiven⟩ := hin.accessible ha hvisible
      exact mem_accessible_iff.mpr ⟨a', ha', hid, grant, hgrant, hgiven⟩
    · obtain ⟨grant, hgrant, hin⟩ := hwithin received hreceived
      obtain ⟨_, hmem, hopen⟩ := hin.opens ⟨received, List.mem_cons_self, hopens⟩
      obtain rfl := List.mem_singleton.mp hmem
      exact ⟨_, hgrant, hopen⟩

theorem Accepts.handsOut {requested : List ScopeRequest} (h : Accepts accounts giver requested) :
    HandsOut accounts giver (.grants (requested.filterMap ScopeRequest.stored)) := by
  refine ⟨[requested], fun batch hbatch => ?_, by simp⟩
  obtain rfl := List.mem_singleton.mp hbatch
  exact h

/-- Down any chain of administrators the targets only get fewer, in the permission checks
and in the data layer; there the first one's view of an account can fail instead, on
content of the region column that no set can be made of. -/
theorem handed_out_within (accounts : Accounts) :
    (∀ giver requested, Accepts accounts giver requested → ∀ target,
      (EffectiveScope.grants (requested.filterMap ScopeRequest.stored)).Covers target →
        giver.Covers target) ∧
    ∀ first last, Relation.ReflTransGen (HandsOut accounts) first last →
      (∀ target, last.Covers target → first.Covers target) ∧
      ∀ accountId region, last.Shows accounts accountId region →
        first.Shows accounts accountId region ∨ first.regions accountId = none := by
  refine ⟨fun giver requested h target hcovers => h.handsOut.covers hcovers, ?_⟩
  intro first last h
  have hboth : (∀ target, last.Covers target → first.Covers target) ∧
      ∀ accountId region, last.Reaches accounts accountId region →
        first.Reaches accounts accountId region := by
    induction h with
    | refl => exact ⟨fun _ => id, fun _ _ => id⟩
    | tail _ hstep ih =>
      exact ⟨fun target hcovers => ih.1 target (hstep.covers hcovers),
        fun accountId region hreaches => ih.2 accountId region (hstep.reaches hreaches)⟩
  refine ⟨hboth.1, fun accountId region hshows => ?_⟩
  exact EffectiveScope.shows_or_raises
    (hboth.2 accountId region (EffectiveScope.reaches_of_shows hshows))

/-- One region of one account, out of two regions of the cloud. -/
theorem handed_out_within_region :
    let accounts : Accounts := ⟨[⟨1, .aws⟩], by decide⟩
    let held : Json := .arr [.str "eu-west-1", .str "us-east-1"]
    let giver : EffectiveScope := .grants [⟨.aws, none, some held, none, none, none⟩]
    let target : Target := ⟨some .aws, some 1, some "eu-west-1", none, none, none, none⟩
    giver.Covers target ∧
      (giver.Shows accounts 1 "eu-west-1" ∨ giver.regions 1 = none) := by
  intro accounts held giver target
  let request : ScopeRequest :=
    ⟨some "aws", some 1, some (.arr [.str "eu-west-1"]), none, none, none⟩
  have haccepts : Accepts accounts giver [request] :=
    ⟨fun r hr => by
      obtain rfl := List.mem_singleton.mp hr
      decide +kernel, by decide +kernel⟩
  constructor
  · refine (handed_out_within accounts).1 giver [request] haccepts target ?_
    exact ⟨_, List.mem_singleton_self _, by decide +kernel⟩
  · have hchain := Relation.ReflTransGen.single haccepts.handsOut
    refine ((handed_out_within accounts).2 giver _ hchain).2 1 "eu-west-1" ?_
    exact ⟨by decide +kernel, some ["eu-west-1"], by decide +kernel, by decide +kernel⟩

end HandOut

end MonitoringHub.Access
