import MonitoringHub.Lib.KeyedStore
import MonitoringHub.Lib.RowTable
import MonitoringHub.Lib.StepRun

/-! Session checks. A token that decodes is checked again against the user's row and the
table of revoked sessions, through a cache of each worker. Requests of all workers move
one access at a time, between logouts, changes of users and the passing of time. What was
revoked when is kept beside the state; nothing in the code reads it. -/

namespace MonitoringHub.Sessions
open Lib Lib.KeyedStore Lib.RowTable

/-- The claims of a token; old tokens have no `jti`. -/
structure Claims where
  id : ℕ
  role : String
  jti : Option String
  tv : ℕ
  exp : ℕ
  deriving DecidableEq, Repr

/-- A row of `users`; `active` may be NULL. -/
structure UserRow where
  role : String
  active : Option Bool
  tokenVersion : ℕ
  deriving DecidableEq, Repr

structure SessionState extends UserRow where
  revoked : Bool
  deriving DecidableEq, Repr

/-- Where the check of a request stands; `now` is the clock read at its start. -/
inductive Stage
  | decoded
  | checking (now : ℕ)
  | missed (now : ℕ)
  | fetched (now : ℕ) (state : Option SessionState)
  | judged (now : ℕ) (state : Option SessionState)
  | accepted (now : ℕ) (role : String)
  | refused (status : ℕ)
  deriving DecidableEq, Repr

structure Request where
  worker : ℕ
  claims : Claims
  stage : Stage
  deriving DecidableEq, Repr

inductive Cause
  | logout
  | version
  deriving DecidableEq, Repr

structure Revocation where
  cause : Cause
  claims : Claims
  committed : ℕ
  deriving DecidableEq, Repr

/-- A cache key is `(user_id, jti)`, in one worker. -/
abbrev CacheKey := ℕ × ℕ × Option String

structure Service where
  now : ℕ
  migrated : Bool
  users : List (ℕ × UserRow)
  revoked : List (String × ℕ)
  cache : List (CacheKey × ℕ × Option SessionState)
  requests : List Request
  issued : List Claims
  revocations : List Revocation

def stateCacheMax : ℕ := 2000

def Claims.key (c : Claims) (worker : ℕ) : CacheKey := (worker, c.id, c.jti)

/-- `_fetch_state`: one statement, so one moment of the database. -/
def Service.fetchState (s : Service) (c : Claims) : Option SessionState :=
  (find c.id s.users).map fun row => ⟨row, (find (c.jti.getD "") s.revoked).isSome⟩

/-- The test after the state is known. -/
def Claims.passes (c : Claims) : Option SessionState → Bool
  | none => false
  | some state => state.active = some true && !state.revoked && decide (state.tokenVersion = c.tv)

/-- Entries are dropped only when the worker's cache is full. -/
def fillCache (ttl : ℕ) (cache : List (CacheKey × ℕ × Option SessionState)) (key : CacheKey)
    (now : ℕ) (state : Option SessionState) : List (CacheKey × ℕ × Option SessionState) :=
  let size (entries : List (CacheKey × ℕ × Option SessionState)) :=
    (entries.filter fun e => e.1.1 = key.1).length
  let kept :=
    if stateCacheMax ≤ size cache then
      let fresh := cache.filter fun e => !(decide (e.1.1 = key.1) && decide (e.2.1 + ttl < now))
      if stateCacheMax ≤ size fresh then dropWhere (fun k => k.1 = key.1) fresh else fresh
    else cache
  write key (now, state) kept

inductive Move
  | start
  | lookup
  | fetch
  | fetchFails
  | store
  | decide
  deriving DecidableEq, Repr

inductive Event
  | tick (d : ℕ)
  | migrate
  | issue (claims : Claims)
  | arrive (worker : ℕ) (claims : Claims)
  | move (i : ℕ) (m : Move)
  | logout (claims : Claims) (cutoff : ℕ)
  | forget (worker : ℕ) (id : ℕ)
  | bump (id : ℕ)
  | deactivate (id : ℕ)
  | activate (id : ℕ)
  | setRole (id : ℕ) (role : String)
  | deleteUser (id : ℕ)
  deriving DecidableEq, Repr

def Service.setStage (s : Service) (i : ℕ) (stage : Stage) : Service :=
  { s with requests := modifyAt i (fun r => { r with stage := stage }) s.requests }

/-- One access of the request `i` in `validate_session_claims`. -/
def Service.advance (ttl : ℕ) (s : Service) (i : ℕ) (r : Request) : Move → Option Service
  | .start =>
    match r.stage with
    | .decoded => some (s.setStage i (.checking s.now))
    | _ => none
  | .lookup =>
    match r.stage with
    | .checking now =>
      match (find (r.claims.key r.worker) s.cache).filter fun hit => now < hit.1 + ttl with
      | some hit => some (s.setStage i (.judged now hit.2))
      | none => some (s.setStage i (.missed now))
    | _ => none
  | .fetch =>
    match r.stage with
    | .missed now =>
      if s.migrated then some (s.setStage i (.fetched now (s.fetchState r.claims)))
      else some (s.setStage i (.accepted now r.claims.role))
    | _ => none
  | .fetchFails =>
    match r.stage with
    | .missed _ => some (s.setStage i (.refused 503))
    | _ => none
  | .store =>
    match r.stage with
    | .fetched now state => some { s.setStage i (.judged now state) with
        cache := fillCache ttl s.cache (r.claims.key r.worker) now state }
    | _ => none
  | .decide =>
    match r.stage with
    | .judged now state =>
      match state.filter fun known => r.claims.passes (some known) with
      | some known => some (s.setStage i (.accepted now known.role))
      | none => some (s.setStage i (.refused 401))
    | _ => none

/-- The rows after `revoke_session`: `INSERT IGNORE`, then those past the cutoff deleted. -/
def inserted (revoked : List (String × ℕ)) (jti : String) (exp : ℕ) : List (String × ℕ) :=
  if (find jti revoked).isSome then revoked else write jti exp revoked

def purged (revoked : List (String × ℕ)) (cutoff : ℕ) : List (String × ℕ) :=
  revoked.filter fun row => !decide (row.2 < cutoff)

/-- A change of the user's row that takes every token issued so far with it. -/
def Service.outdate (s : Service) (id : ℕ) (row : UserRow) : Service :=
  { s with
    users := write id { row with tokenVersion := row.tokenVersion + 1 } s.users
    revocations :=
      ((s.issued.filter fun c => c.id = id).map fun c => ⟨.version, c, s.now⟩) ++ s.revocations }

/-- `none` where the event cannot happen or raises. -/
def Service.step (ttl : ℕ) (s : Service) : Event → Option Service
  | .tick d => some { s with now := s.now + d }
  | .migrate => some { s with migrated := true }
  | .issue c =>
    -- the version in the token was read before, the user may have changed since
    if s.migrated ∧ c.jti.isSome ∧ c.jti ≠ some "" ∧ (∀ c' ∈ s.issued, c'.jti ≠ c.jti) ∧
        ∀ row ∈ find c.id s.users, c.tv ≤ row.tokenVersion then
      some { s with issued := c :: s.issued }
    else none
  | .arrive worker c =>
    if c ∈ s.issued ∧ s.now < c.exp then
      some { s with requests := s.requests ++ [⟨worker, c, .decoded⟩] }
    else none
  | .move i m => s.requests[i]?.bind fun r => s.advance ttl i r m
  | .logout c cutoff =>
    -- the token was decoded and the clock read before the transaction
    if c ∈ s.issued ∧ s.migrated ∧ cutoff ≤ s.now then
      (c.jti.filter fun jti => jti ≠ "").map fun jti =>
        { s with
          revoked := purged (inserted s.revoked jti c.exp) cutoff
          revocations := ⟨.logout, c, s.now⟩ :: s.revocations }
    else none
  | .forget worker id =>
    some { s with cache := dropWhere (fun key => key.1 = worker ∧ key.2.1 = id) s.cache }
  | .bump id => if s.migrated then (find id s.users).map (s.outdate id) else none
  | .deactivate id =>
    if s.migrated then
      ((find id s.users).filter fun row => row.active ≠ some false).map fun row =>
        s.outdate id { row with active := some false }
    else none
  | .activate id =>
    ((find id s.users).filter fun row => row.active = some false).map fun row =>
      { s with users := write id { row with active := some true } s.users }
  | .setRole id role =>
    (find id s.users).map fun row => { s with users := write id { row with role := role } s.users }
  | .deleteUser id => some { s with users := dropWhere (fun key => key = id) s.users }

/-- The state the service starts from: users, tokens issued earlier, and nothing revoked
or cached. -/
structure Deployment where
  migrated : Bool
  users : List (ℕ × UserRow)
  issued : List Claims
  distinct : ∀ c ∈ issued, ∀ c' ∈ issued, c.jti.isSome → c.jti = c'.jti → c = c'
  versions : ∀ c ∈ issued, ∀ row ∈ find c.id users, c.tv ≤ row.tokenVersion

def Deployment.start (d : Deployment) : Service :=
  ⟨0, d.migrated, d.users, [], [], [], d.issued, []⟩

end MonitoringHub.Sessions
