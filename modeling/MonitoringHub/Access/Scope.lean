import Mathlib.Data.List.Basic
import Mathlib.Data.PNat.Basic

/-! Who may do what on which target. A scope restricts some of seven dimensions; a
dimension that is NULL or empty restricts nothing, and a restricted one does not cover
a target that leaves it open. A denial that covers the target wins over every grant. -/

namespace MonitoringHub.Access

inductive Cloud
  | aws | azure | gcp
  deriving DecidableEq, Repr

/-- Database ids count from one. -/
abbrev AccountId := ℕ+

structure Target where
  cloud : Option Cloud
  accountId : Option AccountId
  region : Option String
  service : Option String
  resourceId : Option String
  resourceGroup : Option String
  tags : Option (List (String × Option String))

/-- What a tag selector allows for one key: a list of values, or one value. -/
inductive TagAllowed
  | anyOf (values : List (Option String))
  | only (value : Option String)
  deriving DecidableEq, Repr

def TagAllowed.list : TagAllowed → List (Option String)
  | .anyOf values => values
  | .only value => [value]

structure Scope where
  cloud : Option Cloud
  accountRefId : Option AccountId
  regions : Option (List String)
  services : Option (List String)
  resourceGroups : Option (List String)
  resourceIds : Option (List String)
  tagSelector : Option (List (String × TagAllowed))
  deriving DecidableEq, Repr

/-- The dimension as the code tests it: NULL and the empty list are no restriction. -/
def restriction {α : Type*} (dim : Option (List α)) : Option (List α) :=
  dim.filter fun allowed => !allowed.isEmpty

def restricts {α : Type*} (dim : Option (List α)) : Bool := (restriction dim).isSome

/-- One list dimension: a restricted one needs a value, and a listed one. -/
def dimCovers (dim : Option (List String)) (value : Option String) : Bool :=
  match restriction dim with
  | none => true
  | some allowed => value.any allowed.contains

def Target.tag (target : Target) (key : String) : Option String :=
  ((target.tags.getD []).lookup key).join

/-- Every key of the selector must hold, by any of its values. -/
def tagsCover (selector : Option (List (String × TagAllowed))) (target : Target) : Bool :=
  match restriction selector with
  | none => true
  | some keys => keys.all fun entry => entry.2.list.contains (target.tag entry.1)

namespace Scope

def isGlobal (s : Scope) : Bool :=
  !(s.cloud.isSome || s.accountRefId.isSome || restricts s.regions || restricts s.services ||
    restricts s.resourceGroups || restricts s.resourceIds || restricts s.tagSelector)

def tagKeys (s : Scope) : List String := (s.tagSelector.getD []).map Prod.fst

/-- The texts a scope lists for one resource, and for the value of one tag. -/
def named (s : Scope) : List String :=
  s.resourceIds.getD [] ++
    (s.tagSelector.getD []).flatMap fun entry => entry.2.list.filterMap fun value => value

def covers (s : Scope) (target : Target) : Bool :=
  (s.cloud.all fun cloud => target.cloud = some cloud) &&
  (s.accountRefId.all fun id => target.accountId = some id) &&
  dimCovers s.regions target.region &&
  dimCovers s.services target.service &&
  dimCovers s.resourceGroups target.resourceGroup &&
  dimCovers s.resourceIds target.resourceId &&
  tagsCover s.tagSelector target

end Scope

structure Binding where
  permissions : List String
  scope : Scope
  deriving DecidableEq, Repr

/-- No scope means everywhere. -/
structure Denial where
  permissionCode : String
  scope : Option Scope
  deriving DecidableEq, Repr

structure ResolvedAccess where
  bindings : List Binding
  denials : List Denial

def Denial.applies (d : Denial) (permission : String) (target : Target) : Bool :=
  d.permissionCode = permission && d.scope.all fun s => s.covers target

/-- Denials first, then any covering grant, else no. -/
def can (access : ResolvedAccess) (permission : String) (target : Target) : Bool :=
  if access.denials.any fun d => d.applies permission target then false
  else access.bindings.any fun b => b.permissions.contains permission && b.scope.covers target

section Dimensions
variable {α : Type*} {dim : Option (List α)} {allowed : List α}

theorem restriction_some : restriction dim = some allowed ↔ dim = some allowed ∧ allowed ≠ [] := by
  rw [restriction, Option.filter_eq_some_iff]
  simp

theorem restricts_false : restricts dim = false ↔ restriction dim = none := by
  rw [restricts, Option.isSome_eq_false_iff, Option.isNone_iff_eq_none]

theorem dimCovers_none {dim : Option (List String)} (h : restricts dim = false)
    (value : Option String) : dimCovers dim value = true := by
  rw [dimCovers, restricts_false.mp h]

theorem dimCovers_some {dim : Option (List String)} {allowed : List String}
    (h : restriction dim = some allowed) {value : Option String} :
    dimCovers dim value = true ↔ ∃ v ∈ allowed, value = some v := by
  simp only [dimCovers, h, Option.any_eq_true, List.contains_iff_mem]
  exact ⟨fun ⟨v, hv, hmem⟩ => ⟨v, hmem, hv⟩, fun ⟨v, hmem, hv⟩ => ⟨v, hv, hmem⟩⟩

end Dimensions

theorem tagsCover_none {selector : Option (List (String × TagAllowed))}
    (h : restricts selector = false) (target : Target) : tagsCover selector target = true := by
  rw [tagsCover, restricts_false.mp h]

theorem tagsCover_some {selector : Option (List (String × TagAllowed))}
    {keys : List (String × TagAllowed)} (h : restriction selector = some keys) {target : Target} :
    tagsCover selector target = true ↔ ∀ entry ∈ keys, target.tag entry.1 ∈ entry.2.list := by
  simp only [tagsCover, h, List.all_eq_true, List.contains_iff_mem]

theorem Scope.isGlobal_iff {s : Scope} : s.isGlobal = true ↔ s.cloud = none ∧
    s.accountRefId = none ∧ restricts s.regions = false ∧ restricts s.services = false ∧
    restricts s.resourceGroups = false ∧ restricts s.resourceIds = false ∧
    restricts s.tagSelector = false := by
  simp [isGlobal, and_assoc]

theorem Scope.covers_iff {s : Scope} {target : Target} : s.covers target = true ↔
    (∀ cloud, s.cloud = some cloud → target.cloud = some cloud) ∧
    (∀ id, s.accountRefId = some id → target.accountId = some id) ∧
    dimCovers s.regions target.region = true ∧ dimCovers s.services target.service = true ∧
    dimCovers s.resourceGroups target.resourceGroup = true ∧
    dimCovers s.resourceIds target.resourceId = true ∧ tagsCover s.tagSelector target = true := by
  simp only [covers, Bool.and_eq_true, Option.all_eq_true, decide_eq_true_eq, and_assoc]

/-- A target whose tags are written out key by key. -/
theorem Target.tag_of_keys {target : Target} {f : String → Option String} {keys : List String}
    (htags : target.tags = some (keys.map fun key => (key, f key))) (key : String) :
    target.tag key = if key ∈ keys then f key else none := by
  have hlookup : ∀ ks : List String, (ks.map fun k => (k, f k)).lookup key =
      if key ∈ ks then some (f key) else none := by
    intro ks
    induction ks with
    | nil => rfl
    | cons k ks ih =>
      rw [List.map_cons, List.lookup_cons, ih]
      by_cases hk : key = k
      · simp [hk]
      · have hne : (key == k) = false := by simp [hk]
        simp [hne, hk]
  rw [tag, htags, Option.getD_some, hlookup]
  split <;> rfl

/-- Where no denial is recorded, a grant that covers the target decides. -/
theorem can_of_no_denials {bindings : List Binding} {permission : String} {target : Target} :
    can ⟨bindings, []⟩ permission target = true ↔
      ∃ b ∈ bindings, permission ∈ b.permissions ∧ b.scope.covers target = true := by
  simp only [can, List.any_nil, Bool.false_eq_true, if_false, List.any_eq_true, Bool.and_eq_true,
    List.contains_iff_mem]

end MonitoringHub.Access
