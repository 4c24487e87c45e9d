import MonitoringHub.Lib.KeyedStore
import MonitoringHub.Access.Scope

/-! The list filter: the scopes of a principal collapsed into one SQL predicate over the
rows of `resources`. What the loops over bindings and denials leave for one account is
read off as a value, the view of the account; the predicate admits a row exactly when
that view admits its region and the merged services admit its type. -/

namespace MonitoringHub.Access
open Lib.KeyedStore

structure Account where
  id : AccountId
  provider : Cloud
  deriving DecidableEq, Repr

/-- The table `aws_accounts`, by primary key. -/
structure Accounts where
  rows : List Account
  distinct : (rows.map Account.id).Nodup

/-- A row of `resources`; its Azure resource group is what else is known of it. -/
structure Row where
  accountId : AccountId
  region : Option String
  resourceType : String
  resourceId : String
  resourceGroup : Option String
  tags : Option (List (String × Option String))

def Row.target (row : Row) (provider : Cloud) : Target where
  cloud := some provider
  accountId := some row.accountId
  region := row.region
  service := some row.resourceType
  resourceId := some row.resourceId
  resourceGroup := row.resourceGroup
  tags := row.tags

/-- The fragments `sql` puts together. -/
inductive Sql
  | const (b : Bool)
  | accountIn (ids : List AccountId)
  | accountIs (id : AccountId)
  | typeIn (names : List String)
  | regionIn (names : List String)
  | and (p q : Sql)
  | or (p q : Sql)

/-- Equality in the column's collation: two texts are equal if their sort keys are. -/
def listedIn (collate : String → String) (names : List String) (value : String) : Bool :=
  names.any fun name => collate name = collate value

/-- Three-valued evaluation; `none` is NULL. -/
def Sql.eval (collate : String → String) (row : Row) : Sql → Option Bool
  | .const b => some b
  | .accountIn ids => some (ids.contains row.accountId)
  | .accountIs id => some (row.accountId = id)
  | .typeIn names => some (listedIn collate names row.resourceType)
  | .regionIn names => row.region.map (listedIn collate names)
  | .and p q =>
    match p.eval collate row, q.eval collate row with
    | some true, b => b
    | some false, _ => some false
    | none, some false => some false
    | none, _ => none
  | .or p q =>
    match p.eval collate row, q.eval collate row with
    | some false, b => b
    | some true, _ => some true
    | none, some true => some true
    | none, _ => none

def Sql.conj : List Sql → Sql
  | [] => .const true
  | [p] => p
  | p :: ps => .and p (conj ps)

def Sql.disj : List Sql → Sql
  | [] => .const false
  | [p] => p
  | p :: ps => .or p (disj ps)

/-- `None` for an account is every region. -/
abbrev RegionMap := List (AccountId × Option (List String))

structure AccessFilter where
  unrestricted : Bool
  accountIds : Option (List AccountId)
  regionsByAccount : Option RegionMap
  services : Option (List String)
  resourceIds : Option (List String)

namespace AccessFilter

def nothing : AccessFilter := ⟨false, some [], none, none, none⟩
def everything : AccessFilter := ⟨true, none, none, none, none⟩

def isEmpty (f : AccessFilter) : Bool :=
  !f.unrestricted && f.accountIds.any List.isEmpty

def accountClause : AccountId × Option (List String) → Option Sql
  | (id, none) => some (.accountIs id)
  | (_, some []) => none
  | (id, some regions) => some (.and (.accountIs id) (.regionIn regions))

def accountClauses (f : AccessFilter) : List Sql :=
  match f.accountIds with
  | none => []
  | some ids => [.accountIn ids]

def serviceClauses (f : AccessFilter) : List Sql :=
  match f.services with
  | none => []
  | some names => [.typeIn names]

def regionClauses (f : AccessFilter) : List Sql :=
  match (f.regionsByAccount.getD []).filterMap accountClause with
  | [] => []
  | clauses => [.disj clauses]

/-- The resource ids are carried along and not looked at. -/
def sql (f : AccessFilter) : Sql :=
  if f.unrestricted then .const true
  else if f.isEmpty || f.services.any List.isEmpty then .const false
  else .conj (f.accountClauses ++ f.serviceClauses ++ f.regionClauses)

def admits (f : AccessFilter) (collate : String → String) (row : Row) : Prop :=
  f.sql.eval collate row = some true

instance (f : AccessFilter) (collate : String → String) (row : Row) :
    Decidable (f.admits collate row) := inferInstanceAs (Decidable (_ = _))

end AccessFilter

/-- The accounts a grant expands to. A pinned account is taken as it is. -/
def Accounts.matched (accounts : Accounts) (s : Scope) : List AccountId :=
  match s.accountRefId with
  | some id => [id]
  | none => (accounts.rows.filter fun a => s.cloud.all fun c => a.provider = c).map Account.id

/-- The accounts a denial is about. -/
def Accounts.denied (accounts : Accounts) (s : Scope) : List AccountId :=
  (accounts.rows.filter fun a =>
    (s.accountRefId.all fun id => a.id = id) && s.cloud.all fun c => a.provider = c).map Account.id

/-- One grant's regions for one account: any unrestricted grant wins. -/
def addRegions (regions : Option (List String)) (map : RegionMap) (id : AccountId) : RegionMap :=
  match restriction regions with
  | none => write id none map
  | some listed =>
    match find id map with
    | some none => map
    | some (some existing) => write id (some (existing ++ listed)) map
    | none => write id (some listed) map

/-- Services and resource ids: one list over all accounts, until a grant has none. -/
def addNames (names : Option (List String)) (dim : Option (List String)) : Option (List String) :=
  names.bind fun existing => (restriction dim).map fun listed => existing ++ listed

structure Merged where
  accountIds : List AccountId
  regions : RegionMap
  services : Option (List String)
  resourceIds : Option (List String)

def Merged.empty : Merged := ⟨[], [], some [], some []⟩

def Accounts.all (accounts : Accounts) : Merged where
  accountIds := accounts.rows.map Account.id
  regions := accounts.rows.map fun a => (a.id, none)
  services := none
  resourceIds := none

def mergeScope (accounts : Accounts) (m : Merged) (s : Scope) : Merged where
  accountIds := (accounts.matched s).foldl (fun ids id => ids.insert id) m.accountIds
  regions := (accounts.matched s).foldl (addRegions s.regions) m.regions
  services := addNames m.services s.services
  resourceIds := addNames m.resourceIds s.resourceIds

/-- The denial narrows by cloud, account and region only. -/
def Scope.precise (s : Scope) : Bool :=
  !(restricts s.services || restricts s.resourceGroups || restricts s.resourceIds ||
    restricts s.tagSelector)

def Scope.regionOnly (s : Scope) : Bool := s.precise && restricts s.regions

def Merged.dropAccount (m : Merged) (id : AccountId) : Merged :=
  { m with
    accountIds := m.accountIds.filter fun id' => id' ≠ id
    regions := dropWhere (· = id) m.regions }

def remainingRegions (s : Scope) (current : List String) : List String :=
  current.filter fun region => !(s.regions.getD []).contains region

/-- One denial on one account: its regions are taken out where that can be said, else
the account goes. -/
def subtract (s : Scope) (m : Merged) (id : AccountId) : Merged :=
  if m.accountIds.contains id then
    if s.regionOnly then
      match (find id m.regions).join with
      | none => m.dropAccount id
      | some current =>
        match remainingRegions s current with
        | [] => m.dropAccount id
        | remaining => { m with regions := write id (some remaining) m.regions }
    else m.dropAccount id
  else m

def subtractDenial (accounts : Accounts) (m : Merged) (s : Scope) : Merged :=
  (accounts.denied s).foldl (subtract s) m

def Merged.filter (m : Merged) : AccessFilter where
  unrestricted := false
  accountIds := some m.accountIds
  regionsByAccount := some m.regions
  services := m.services
  resourceIds := m.resourceIds

def relevantScopes (access : ResolvedAccess) (permission : Option String) : List Scope :=
  (access.bindings.filter fun b => permission.all b.permissions.contains).map Binding.scope

def applicableDenials (access : ResolvedAccess) (permission : Option String) : List Denial :=
  access.denials.filter fun d => permission.all fun p => d.permissionCode = p

def mergedAccess (accounts : Accounts) (scopes denied : List Scope) : Merged :=
  denied.foldl (subtractDenial accounts)
    (if scopes.any Scope.isGlobal then accounts.all
      else scopes.foldl (mergeScope accounts) .empty)

def accessibleFilter (accounts : Accounts) (access : ResolvedAccess) (permission : Option String) :
    AccessFilter :=
  let scopes := relevantScopes access permission
  let denials := applicableDenials access permission
  if scopes.isEmpty then .nothing
  else if denials.any fun d => d.scope.isNone then .nothing
  else if scopes.any Scope.isGlobal && denials.isEmpty then .everything
  else (mergedAccess accounts scopes (denials.filterMap Denial.scope)).filter

end MonitoringHub.Access
