import MonitoringHub.Access.Handout
import MonitoringHub.Environments.EnvTiers

/-! Creating a user. The user's row is committed first, the scopes are checked and inserted in a
second transaction, and the row is deleted again where the check refuses them; a failure of any
other kind ends the request as it is. Every statement may fail. -/

namespace MonitoringHub.UserCreation
open Lib Access Environments

abbrev Text := List Char

/-- The statements of a request. -/
inductive Statement
  | hashPassword
  | connect
  | insertUser
  | commitUser
  | rollback
  | readAccounts
  | insertScope (n : ℕ)
  | commitScopes
  | deleteUser
  | commitDelete
  | connectMail
  | insertToken
  | commitToken
  deriving DecidableEq

/-- Why a requested scope is refused. -/
inductive ScopeError
  | invalidCloud (cloud : Option Json)
  | noSuchAccount (accountRefId : Json) (cloud : Cloud)
  | notAList (field : String)

/-- `HTTPException` by its message. -/
inductive Refusal
  | usernameRequired
  | usernameCharacters
  | passwordTooShort
  | unknownRole
  | invalidEmail
  | roleNotManageable
  | scopeRequired
  | alreadyExists (username : Text)
  | notInserted (error : String)
  | invalidScope (error : ScopeError)
  | outsideOwnScope

def Refusal.statusCode : Refusal → ℕ
  | .usernameRequired | .usernameCharacters | .passwordTooShort | .unknownRole | .invalidEmail |
    .scopeRequired | .invalidScope _ => 400
  | .roleNotManageable | .outsideOwnScope => 403
  | .alreadyExists _ => 409
  | .notInserted _ => 500

/-- An exception: an `HTTPException`, or any other. -/
inductive Failure
  | refused (r : Refusal)
  | raised

structure UserRow where
  id : ℕ
  username : Text
  role : Text
  email : Text

/-- A row of `access_scopes`. -/
structure GrantRow where
  userId : ℕ
  grant : ScopeRequest
  grantedBy : ℕ

/-- The tables; ids are given in order and none is given twice. -/
structure UserTables where
  users : List UserRow
  scopes : List GrantRow
  nextId : ℕ
  users_lt : ∀ u ∈ users, u.id < nextId
  scopes_lt : ∀ g ∈ scopes, g.userId < nextId

namespace UserTables

/-- `INSERT INTO users` -/
def insertUser (t : UserTables) (username role email : Text) : UserTables where
  users := t.users ++ [⟨t.nextId, username, role, email⟩]
  scopes := t.scopes
  nextId := t.nextId + 1
  users_lt u hu := by
    rcases List.mem_append.mp hu with hu | hu
    · exact Nat.lt_succ_of_lt (t.users_lt u hu)
    · rw [List.mem_singleton.mp hu]
      exact Nat.lt_succ_self _
  scopes_lt g hg := Nat.lt_succ_of_lt (t.scopes_lt g hg)

/-- `INSERT INTO access_scopes`, of a user there is. -/
def insertScope (t : UserTables) (userId : ℕ) (grant : ScopeRequest) (grantedBy : ℕ) : UserTables :=
  if h : userId < t.nextId then
    { t with
      scopes := t.scopes ++ [⟨userId, grant, grantedBy⟩]
      scopes_lt := fun g hg => by
        rcases List.mem_append.mp hg with hg | hg
        · exact t.scopes_lt g hg
        · rw [List.mem_singleton.mp hg]
          exact h }
  else t

/-- `DELETE FROM users`; the scopes of the user go with it. -/
def deleteUser (t : UserTables) (id : ℕ) : UserTables where
  users := t.users.filter fun u => u.id ≠ id
  scopes := t.scopes.filter fun g => g.userId ≠ id
  nextId := t.nextId
  users_lt u hu := t.users_lt u (List.mem_filter.mp hu).1
  scopes_lt g hg := t.scopes_lt g (List.mem_filter.mp hg).1

/-- A row of the user is there. -/
def Has (t : UserTables) (id : ℕ) : Prop :=
  (∃ u ∈ t.users, u.id = id) ∨ ∃ g ∈ t.scopes, g.userId = id

end UserTables

/-- A connection: what is committed, and what it sees of its own. -/
structure Conn where
  committed : UserTables
  working : UserTables

def Conn.start (t : UserTables) : Conn := ⟨t, t⟩
def Conn.execute (c : Conn) (f : UserTables → UserTables) : Conn := ⟨c.committed, f c.working⟩
def Conn.commit (c : Conn) : Conn := ⟨c.working, c.working⟩

structure Actor where
  id : ℕ
  role : String

/-- What the request meets: `fails` gives the error of a statement, `actorScope` what is read of the
actor's grants, `none` where that raises. -/
structure Surroundings where
  fails : Statement → Option String
  accounts : Accounts
  actorScope : Option EffectiveScope
  mailConfigured : Bool

def Surroundings.broken (e : Surroundings) (s : Statement) : Bool := (e.fails s).isSome

/-! The payload. -/

abbrev Payload := List (String × Json)

/-- `(payload.get(key) or default).strip()`; `none` is an AttributeError. -/
def strippedField (p : Payload) (key : String) (default : Text) : Option Text :=
  match (KeyedStore.find key p).filter Json.truthy with
  | none => some default
  | some (.str s) => some (strip s.toList)
  | some _ => none

/-- `^[A-Za-z0-9][A-Za-z0-9._@+\-]*$` of a stripped text. -/
def usernameRe : Text → Bool
  | [] => false
  | c :: rest => c.isAlphanum && rest.all fun c => c.isAlphanum || "._@+-".toList.contains c

/-- `^[^\s@]+@[^\s@]+\.[^\s@]+$` of a stripped text. -/
def emailRe (s : Text) : Bool :=
  match s.splitOn '@' with
  | [name, domain] =>
    name ≠ [] && (name ++ domain).all (fun c => !isSpace c) &&
      (domain.drop 1).dropLast.contains '.'
  | _ => false

/-- `can_manage_role` -/
def canManageRole (actor : Actor) (role : Text) : Bool :=
  actor.role = "admin" || (actor.role = "editor" && role = "viewer".toList)

structure NewUser where
  username : Text
  role : Text
  email : Text
  scopes : Json

/-- The checks before anything is written. -/
def checkPayload (actor : Actor) (p : Payload) : Except Failure NewUser := do
  let some username := strippedField p "username" [] | throw .raised
  let some password := strippedField p "password" [] | throw .raised
  let some role := strippedField p "role" "viewer".toList | throw .raised
  let role := role.flatMap lowerChar
  let scopes := ((KeyedStore.find "scopes" p).filter Json.truthy).getD (.arr [])
  let some email := strippedField p "email" [] | throw .raised
  if username = [] then throw (.refused .usernameRequired)
  if 100 < username.length ∨ ¬ usernameRe username then throw (.refused .usernameCharacters)
  if password.length < 8 then throw (.refused .passwordTooShort)
  if role ∉ ["admin", "editor", "viewer"].map String.toList then throw (.refused .unknownRole)
  if email ≠ [] ∧ ¬ emailRe email then throw (.refused .invalidEmail)
  if ¬ canManageRole actor role then throw (.refused .roleNotManageable)
  if actor.role = "editor" ∧ ¬ scopes.truthy then throw (.refused .scopeRequired)
  return { username, role, email, scopes }

/-! The scopes. -/

/-- What `for s in scopes` gives; `none` is a TypeError. -/
def iterated : Json → Option (List Json)
  | .arr elems => some elems
  | .str s => some (s.toList.map fun c => .str c.toString)
  | .obj fields => some (fields.map fun field => .str field.1)
  | .null | .bool _ | .num _ => none

/-- `scope.get(key)`, where JSON's null is `None`. -/
def field (fields : Payload) (key : String) : Option Json :=
  match KeyedStore.find key fields with
  | some .null => none
  | j => j

def cloudOf : Option Json → Option Cloud
  | some (.str name) => Cloud.ofName name
  | _ => none

/-- The account that the value is equal to; `none` is a TypeError. -/
def accountOf (ids : List AccountId) (j : Json) : Option (Option AccountId) :=
  j.elem.map fun e => ids.find? fun id => e = .num (id : ℕ)

def requestOf (fields : Payload) (cloud : Cloud) (account : Option AccountId) : ScopeRequest where
  cloud := some cloud.name
  accountRefId := account
  regions := field fields "regions"
  resourceGroups := field fields "resource_groups"
  resourceTypes := field fields "resource_types"
  resourceIds := field fields "resource_ids"

/-- The four lists of a scope, checked. -/
def checkLists (r : ScopeRequest) : Except Failure ScopeRequest :=
  match r.fields.find? fun f => f.2.any fun j => !j.isList with
  | some f => .error (.refused (.invalidScope (.notAList f.1)))
  | none => .ok r

/-- `validate_scope_shape` of any value. -/
def checkScope (accounts : Accounts) : Json → Except Failure ScopeRequest
  | .obj fields =>
    match cloudOf (field fields "cloud") with
    | none => .error (.refused (.invalidScope (.invalidCloud (field fields "cloud"))))
    | some cloud =>
      match field fields "account_ref_id" with
      | none => checkLists (requestOf fields cloud none)
      | some j =>
        match accountOf (accounts.ofCloud cloud) j with
        | none => .error .raised
        | some none => .error (.refused (.invalidScope (.noSuchAccount j cloud)))
        | some (some id) => checkLists (requestOf fields cloud (some id))
  | _ => .error .raised

/-- The scopes one after the other, up to the first that is refused or raises. -/
def checkScopes (accounts : Accounts) : List Json → Except Failure (List ScopeRequest)
  | [] => .ok []
  | s :: rest => do
    let r ← checkScope accounts s
    let rs ← checkScopes accounts rest
    return r :: rs

/-- The checks of `_validate_and_insert_scopes`. -/
def validateScopes (e : Surroundings) (actor : Actor) (actorScope : EffectiveScope)
    (scopes : Json) : Except Failure (List ScopeRequest) :=
  if e.broken .readAccounts then .error .raised
  else
    match iterated scopes with
    | none => .error .raised
    | some items => do
      let requests ← checkScopes e.accounts items
      if actor.role = "admin" then return requests
      match scopeWithin requests actorScope with
      | none => throw .raised
      | some false => throw (.refused .outsideOwnScope)
      | some true => return requests

/-- The inserts of the scopes from number `n` on, and their commit. -/
def insertScopes (e : Surroundings) (userId : ℕ) (actor : Actor) :
    List ScopeRequest → ℕ → Conn → Except Failure Unit × Conn
  | [], _, c => if e.broken .commitScopes then (.error .raised, c) else (.ok (), c.commit)
  | r :: rest, n, c =>
    if e.broken (.insertScope n) then (.error .raised, c)
    else insertScopes e userId actor rest (n + 1)
      (c.execute fun t => t.insertScope userId r actor.id)

/-- `_validate_and_insert_scopes` -/
def validateAndInsertScopes (e : Surroundings) (userId : ℕ) (actor : Actor)
    (actorScope : EffectiveScope) (scopes : Json) (c : Conn) : Except Failure Unit × Conn :=
  if scopes.truthy then
    match validateScopes e actor actorScope scopes with
    | .error f => (.error f, c)
    | .ok requests => insertScopes e userId actor requests 0 c
  else (.ok (), c)

/-! The request. -/

/-- `get_effective_scope` of the actor. -/
def Surroundings.effectiveScope (e : Surroundings) (actor : Actor) : Option EffectiveScope :=
  if actor.role = "admin" then some .fullAccess else e.actorScope

/-- The token of the welcome mail; the tables of users and scopes are not touched. -/
def welcome (e : Surroundings) (u : NewUser) : Except Failure Unit :=
  if u.email ≠ [] ∧ e.mailConfigured ∧
      (e.broken .connectMail ∨ e.broken .insertToken ∨ e.broken .commitToken) then .error .raised
  else .ok ()

/-- The error of an insert that was refused. -/
def insertError (e : Surroundings) (u : NewUser) (error : String) : Failure :=
  if e.broken .rollback then .raised
  else if Lib.Text.contains error "Duplicate" ∨ Lib.Text.contains error "1062" then
    .refused (.alreadyExists u.username)
  else .refused (.notInserted error)

/-- From the committed row of the user on. -/
def grantScopes (e : Surroundings) (actor : Actor) (u : NewUser) (userId : ℕ) (c : Conn) :
    Except Failure Unit × Conn :=
  match e.effectiveScope actor with
  | none => (.error .raised, c)
  | some actorScope =>
    match validateAndInsertScopes e userId actor actorScope u.scopes c with
    | (.ok (), c) => (welcome e u, c)
    | (.error .raised, c) => (.error .raised, c)
    | (.error (.refused r), c) =>
      if e.broken .deleteUser ∨ e.broken .commitDelete then (.error .raised, c)
      else (.error (.refused r), (c.execute fun t => t.deleteUser userId).commit)

/-- `create_user`: how it ends, and what is committed then. A connection that is left drops what it
has not committed. -/
def createUser (e : Surroundings) (actor : Actor) (p : Payload) (t : UserTables) :
    Except Failure Unit × UserTables :=
  match checkPayload actor p with
  | .error f => (.error f, t)
  | .ok u =>
    if e.broken .hashPassword ∨ e.broken .connect then (.error .raised, t)
    else
      match (e.fails .insertUser).or (e.fails .commitUser) with
      | some error => (.error (insertError e u error), t)
      | none =>
        let c := ((Conn.start t).execute fun t => t.insertUser u.username u.role u.email).commit
        let r := grantScopes e actor u t.nextId c
        (r.1, r.2.committed)

end MonitoringHub.UserCreation
