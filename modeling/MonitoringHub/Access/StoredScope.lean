import Mathlib.Data.Rat.Defs
import Mathlib.Logic.Function.Basic
import MonitoringHub.Lib.Text
import MonitoringHub.Access.Scope

/-! Restriction columns as stored. A column holds NULL or JSON text, which may be of any
type or not be JSON at all; the loaders turn what they cannot use into `None`, the value
of a column without restriction. Reading a value of the wrong type raises, or takes a
text or an object for the list of its parts. -/

namespace MonitoringHub.Access
open Lib

inductive Json
  | null
  | bool (b : Bool)
  | num (q : ℚ)
  | str (s : String)
  | arr (elems : List Json)
  | obj (fields : List (String × Json))

namespace Json

/-- Python's truth value. -/
def truthy : Json → Bool
  | null => false
  | bool b => b
  | num q => decide (q ≠ 0)
  | str s => decide (s ≠ "")
  | arr elems => !elems.isEmpty
  | obj fields => !fields.isEmpty

/-- `j == value`, the value being a text or `None`. -/
def isValue (value : Option String) : Json → Bool
  | str s => decide (value = some s)
  | null => value.isNone
  | _ => false

/-- `value in j`; `none` is a TypeError. -/
def holds (value : Option String) : Json → Option Bool
  | arr elems => some (elems.any (isValue value))
  | str s => value.map fun v => Text.contains s v
  | obj fields => some (fields.any fun field => value = some field.1)
  | _ => none

def allowedList : Json → List Json
  | arr elems => elems
  | j => [j]

/-- `for key, allowed in j.items()`; `none` is an AttributeError. -/
def selects (target : Target) : Json → Option Bool
  | obj fields => some (fields.all fun field =>
      (allowedList field.2).any (isValue (target.tag field.1)))
  | _ => none

end Json

/-- What the driver hands over for a JSON column: text that `json.loads` reads or does
not, or a value already decoded. -/
inductive Stored
  | null
  | text (loads : Option Json)
  | list (elems : List Json)
  | dict (fields : List (String × Json))

/-- `rbac._json_list` -/
def jsonList : Stored → Option Json
  | .null => none
  | .list elems => some (.arr elems) |>.filter Json.truthy
  | .dict fields => some (.obj fields) |>.filter Json.truthy
  | .text loads => loads.filter Json.truthy

inductive Column
  | regions | services | resourceGroups | resourceIds | tagSelector
  deriving DecidableEq

/-- The column holds a list, the selector an object. -/
def Column.shaped : Column → Json → Bool
  | .tagSelector, .obj _ => true
  | .tagSelector, _ => false
  | _, .arr _ => true
  | _, _ => false

def Stored.shaped (c : Column) : Stored → Bool
  | .null | .text none => false
  | .text (some j) => c.shaped j
  | .list elems => c.shaped (.arr elems)
  | .dict fields => c.shaped (.obj fields)

structure ScopeRow where
  cloud : Option Cloud
  accountRefId : Option AccountId
  stored : Column → Stored

/-- The row with one restriction taken off. -/
def ScopeRow.opened (row : ScopeRow) (c : Column) : ScopeRow :=
  { row with stored := Function.update row.stored c .null }

structure LoadedScope where
  cloud : Option Cloud
  accountRefId : Option AccountId
  dim : Column → Option Json

/-- `_scope_from_row`; `_legacy_grants` reads `resource_types` as the services and has
no selector. -/
def scopeFromRow (row : ScopeRow) : LoadedScope :=
  ⟨row.cloud, row.accountRefId, fun c => jsonList (row.stored c)⟩

/-- What the target has in a list dimension. -/
def Column.value (target : Target) : Column → Option String
  | regions => target.region
  | services => target.service
  | resourceGroups => target.resourceGroup
  | resourceIds => target.resourceId
  | tagSelector => none

/-- The test of one dimension, if it restricts at all. -/
def Column.check (c : Column) (dim : Option Json) (target : Target) : Option Bool :=
  match dim.filter Json.truthy with
  | none => some true
  | some j => if c = tagSelector then j.selects target else j.holds (c.value target)

/-- The tests in order, up to the first that fails or raises. -/
def inOrder : List (Option Bool) → Option Bool
  | [] => some true
  | some true :: rest => inOrder rest
  | other :: _ => other

def LoadedScope.covers (s : LoadedScope) (target : Target) : Option Bool :=
  inOrder ([some (s.cloud.all fun cloud => target.cloud = some cloud),
      some (s.accountRefId.all fun id => target.accountId = some id)] ++
    [Column.regions, .services, .resourceGroups, .resourceIds, .tagSelector].map fun c =>
      c.check (s.dim c) target)

/-- No content widens what the row covers, and a dimension that cannot be read as what it
should be covers nothing. -/
structure ScopeRow.FailsClosed (row : ScopeRow) : Prop where
  narrows : ∀ c target, (scopeFromRow row).covers target = some true →
    (scopeFromRow (row.opened c)).covers target = some true
  shuts : ∀ c, row.stored c ≠ .null → (row.stored c).shaped c = false →
    ∀ target, c.check (jsonList (row.stored c)) target ≠ some true

/-- Content that has the right type, or that every read of it trips over. -/
def Stored.shuts (c : Column) : Stored → Bool
  | .null => true
  | .text none => false
  | .text (some j) => c.shaped j || j.truthy && trips c j
  | .list elems => c.shaped (.arr elems) || !elems.isEmpty
  | .dict fields => c.shaped (.obj fields)
where
  trips : Column → Json → Bool
    | .tagSelector, _ => true
    | _, .bool _ | _, .num _ => true
    | _, _ => false

section Columns
variable {c : Column} {j : Json} {stored : Stored}

theorem inOrder_iff {tests : List (Option Bool)} :
    inOrder tests = some true ↔ ∀ test ∈ tests, test = some true := by
  induction tests with
  | nil => simp [inOrder]
  | cons test tests ih =>
    unfold inOrder
    split
    · rename_i heq
      cases heq
    · rename_i heq
      obtain ⟨rfl, rfl⟩ := List.cons.inj heq
      simp [ih]
    · rename_i hne heq
      obtain ⟨rfl, rfl⟩ := List.cons.inj heq
      refine iff_of_false (fun h => ?_) (fun h => ?_)
      · exact hne (by rw [h])
      · exact hne (by rw [h test List.mem_cons_self])

theorem LoadedScope.covers_iff {s : LoadedScope} {target : Target} : s.covers target = some true ↔
    (∀ cloud, s.cloud = some cloud → target.cloud = some cloud) ∧
    (∀ id, s.accountRefId = some id → target.accountId = some id) ∧
    ∀ c : Column, c.check (s.dim c) target = some true := by
  have hcolumns : (∀ c ∈ [Column.regions, .services, .resourceGroups, .resourceIds, .tagSelector],
      c.check (s.dim c) target = some true) ↔ ∀ c : Column, c.check (s.dim c) target = some true :=
    ⟨fun h c => h c (by cases c <;> simp), fun h c _ => h c⟩
  rw [covers, inOrder_iff, List.forall_mem_append, List.forall_mem_map, hcolumns]
  simp [Option.all_eq_true, and_assoc]

theorem ScopeRow.opened_stored {row : ScopeRow} (c' : Column) :
    (row.opened c).stored c' = if c' = c then .null else row.stored c' := by
  rw [opened]
  exact Function.update_apply ..

/-- A restriction taken off never takes a target away. -/
theorem ScopeRow.narrows (row : ScopeRow) (c : Column) {target : Target}
    (h : (scopeFromRow row).covers target = some true) :
    (scopeFromRow (row.opened c)).covers target = some true := by
  obtain ⟨hcloud, haccount, hchecks⟩ := LoadedScope.covers_iff.mp h
  refine LoadedScope.covers_iff.mpr ⟨hcloud, haccount, fun c' => ?_⟩
  have hdim : (scopeFromRow (row.opened c)).dim c' =
      if c' = c then none else (scopeFromRow row).dim c' := by
    simp only [scopeFromRow, opened_stored]
    split <;> rfl
  rw [hdim]
  split
  · rfl
  · exact hchecks c'

theorem Json.filter_truthy (j : Json) :
    (some j).filter truthy = if j.truthy = true then some j else none := rfl

theorem Column.check_falsy (h : j.truthy = false) (target : Target) :
    c.check ((some j).filter Json.truthy) target = some true := by
  rw [Json.filter_truthy, h]
  rfl

theorem Column.check_truthy (h : j.truthy = true) (target : Target) :
    c.check ((some j).filter Json.truthy) target =
      if c = tagSelector then j.selects target else j.holds (c.value target) := by
  have hread : (some j).filter Json.truthy = some j := by rw [Json.filter_truthy, if_pos h]
  rw [hread, check, hread]

/-- A target with one text in every list dimension. -/
def Target.ofText (v : String) : Target := ⟨none, none, some v, some v, some v, some v, none⟩

theorem Column.value_ofText (hc : c ≠ tagSelector) (v : String) :
    c.value (.ofText v) = some v := by
  cases c <;> first | rfl | exact absurd rfl hc

/-- Falsy content restricts nothing; a text is taken for its parts, an object for its keys. -/
theorem Column.exists_check (hshape : c.shaped j = false)
    (hreads : (j.truthy && Stored.shuts.trips c j) = false) :
    ∃ target, c.check ((some j).filter Json.truthy) target = some true := by
  cases htruthy : j.truthy with
  | false => exact ⟨.ofText "", check_falsy htruthy _⟩
  | true =>
    have htrips : Stored.shuts.trips c j = false := by simpa [htruthy] using hreads
    have hc : c ≠ tagSelector := by
      rintro rfl
      cases htrips
    have hread (v : String) : c.check ((some j).filter Json.truthy) (.ofText v) = j.holds (some v) := by
      rw [check_truthy htruthy, if_neg hc, value_ofText hc]
    cases j with
    | null => cases htruthy
    | bool b => cases c <;> first | exact absurd rfl hc | cases htrips
    | num q => cases c <;> first | exact absurd rfl hc | cases htrips
    | arr elems => cases c <;> first | exact absurd rfl hc | cases hshape
    | str s =>
      have hself : Text.contains s s = true := decide_eq_true (List.infix_refl _)
      exact ⟨.ofText s, by rw [hread, Json.holds, Option.map_some, hself]⟩
    | obj fields =>
      cases fields with
      | nil => cases htruthy
      | cons field rest => exact ⟨.ofText field.1, by rw [hread]; simp [Json.holds]⟩

theorem Column.check_trips (hshape : c.shaped j = false) (htruthy : j.truthy = true)
    (htrips : Stored.shuts.trips c j = true) (target : Target) :
    c.check ((some j).filter Json.truthy) target ≠ some true := by
  rw [check_truthy htruthy]
  by_cases hc : c = tagSelector
  · subst hc
    rw [if_pos rfl]
    cases j <;> first | (simp [Json.selects]; done) | cases hshape
  · rw [if_neg hc]
    cases j with
    | bool b => simp [Json.holds]
    | num q => simp [Json.holds]
    | null => cases htruthy
    | str s => cases c <;> first | exact absurd rfl hc | cases htrips
    | arr elems => cases c <;> first | exact absurd rfl hc | cases hshape
    | obj fields => cases c <;> first | exact absurd rfl hc | cases htrips

/-- Content of the right type is a restriction; other content shuts the dimension when
it is truthy and every read of it raises. -/
theorem Stored.shuts_iff : (stored ≠ .null → stored.shaped c = false →
    ∀ target, c.check (jsonList stored) target ≠ some true) ↔ stored.shuts c = true := by
  have hread : ∀ j : Json, (c.shaped j = false →
      ∀ target, c.check ((some j).filter Json.truthy) target ≠ some true) ↔
        (c.shaped j || j.truthy && shuts.trips c j) = true := by
    intro j
    cases hshape : c.shaped j with
    | true => simp
    | false =>
      cases hreads : j.truthy && shuts.trips c j with
      | true =>
        rw [Bool.and_eq_true] at hreads
        simpa using Column.check_trips hshape hreads.1 hreads.2
      | false =>
        obtain ⟨target, htarget⟩ := Column.exists_check hshape hreads
        simpa using ⟨target, htarget⟩
  cases stored with
  | null => simp [shuts]
  | text loads =>
    cases loads with
    | none => simpa [shuts, shaped, jsonList] using ⟨⟨none, none, none, none, none, none, none⟩, rfl⟩
    | some j => simpa [shuts, shaped, jsonList] using hread j
  | list elems =>
    have hcolumn := hread (.arr elems)
    have htrips : (c.shaped (.arr elems) || (Json.arr elems).truthy && shuts.trips c (.arr elems)) =
        (c.shaped (.arr elems) || !elems.isEmpty) := by
      cases c <;> simp [Column.shaped, shuts.trips, Json.truthy]
    rw [htrips] at hcolumn
    simpa [shuts, shaped, jsonList] using hcolumn
  | dict fields =>
    have hcolumn := hread (.obj fields)
    have htrips : (c.shaped (.obj fields) || (Json.obj fields).truthy && shuts.trips c (.obj fields)) =
        c.shaped (.obj fields) := by
      cases c <;> simp [Column.shaped, shuts.trips]
    rw [htrips] at hcolumn
    simpa [shuts, shaped, jsonList] using hcolumn

theorem ScopeRow.failsClosed_iff {row : ScopeRow} :
    row.FailsClosed ↔ ∀ c, (row.stored c).shuts c = true := by
  constructor
  · intro h c
    exact Stored.shuts_iff.mp (h.shuts c)
  · intro h
    exact ⟨fun c _ => row.narrows c, fun c => Stored.shuts_iff.mpr (h c)⟩

end Columns

end MonitoringHub.Access
