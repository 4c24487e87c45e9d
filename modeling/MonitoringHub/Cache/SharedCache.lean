import Mathlib.Data.List.Basic
import MonitoringHub.Lib.KeyedStore
import MonitoringHub.Lib.RowTable
import MonitoringHub.Lib.StepRun
import MonitoringHub.Lib.Text

/-! The shared cache as a system of parties. Every call of `get_or_load_ex` (or `put`)
and every invalidation is a party with a program counter; a step moves one party past
one access of the shared state: the in-process copy, the Redis entries and locks, the
table of flights. Entries and locks may expire between any two steps. A value carries
the moment its loader began, which nothing in the code reads. -/

namespace MonitoringHub.Cache
open Lib Lib.KeyedStore Lib.RowTable

/-- What the module takes from its Redis server and from `hashlib`. -/
structure RedisServer where
  sha1 : String → String
  globMatch : String → String → Bool

inductive Backend
  | memory
  | redis (R : RedisServer)

def keyHead : String := "mh:sc:v1:"
def lockHead : String := "mh:sc:lock:v1:"
def maxKeyLen : ℕ := 180

def takeChars (n : ℕ) (text : String) : String := String.ofList (text.toList.take n)

/-- `_rk`: the Redis key of an entry; long keys are cut and hashed. -/
def RedisServer.rk (R : RedisServer) (key : String) : String :=
  keyHead ++
    if key.length > maxKeyLen then takeChars (maxKeyLen - 41) key ++ ":" ++ R.sha1 key else key

def lockName (key : String) : String := lockHead ++ takeChars maxKeyLen key

structure Stored (V : Type) where
  value : V
  loaderBegan : Option ℕ
  deriving DecidableEq

inductive Result (V : Type)
  | value (x : Stored V)
  | raised
  deriving DecidableEq

def Result.loaderBegan {V : Type} : Result V → Option ℕ
  | .value x => x.loaderBegan
  | .raised => none

/-- Where a call of `get_or_load_ex` stands. A flight is named by the call that leads it. -/
inductive Pc (V : Type)
  | read
  | enter
  | wait (leader : ℕ)
  | lock
  | poll
  | recheck
  | load (token : Bool)
  | loading (token : Bool) (began : ℕ)
  | writeL1 (token : Bool) (x : Stored V)
  | writeRedis (token : Bool) (x : Stored V)
  | release (res : Result V)
  | publish (res : Result V)
  | unregister (res : Result V)
  | returned (res : Result V)
  deriving DecidableEq

structure Call (V : Type) where
  process : ℕ
  key : String
  bypass : Bool
  began : ℕ
  pc : Pc V
  leads : Bool
  published : Option (Result V)
  deriving DecidableEq

/-- What `invalidate` and `invalidate_prefix` are called with. -/
inductive Target
  | entry (key : String)
  | keysFrom (start : String)
  deriving DecidableEq

def Target.matches : Target → String → Bool
  | .entry k, key => key = k
  | .keysFrom start, key => Text.startsWith key start

inductive Stage
  | begun
  | popped
  | sweeping (left : List String)
  | returned (when : ℕ)
  deriving DecidableEq

structure Invalidation where
  process : ℕ
  target : Target
  began : ℕ
  stage : Stage
  deriving DecidableEq

structure SharedCache (V : Type) where
  now : ℕ
  l1 : List ((ℕ × String) × Stored V)
  redis : List (String × Stored V)
  locks : List (String × ℕ)
  flights : List ((ℕ × String) × ℕ)
  calls : List (Call V)
  invalidations : List Invalidation

/-- The processes starting over what an earlier run left in Redis. -/
def SharedCache.start {V : Type} (redis : List (String × Stored V)) : SharedCache V :=
  ⟨0, [], redis, [], [], [], []⟩

/-- One step of a call: what it is handed by the loader, by its own predicates
(`valid`, `storable`) or by its timers. -/
inductive Move (V : Type)
  | read (valid : Bool)
  | enter
  | joined
  | gaveUp
  | lock
  | poll (valid : Bool)
  | stopPolling
  | recheck (valid : Bool)
  | begin
  | loaded (value : V) (storable : Bool)
  | raised
  | writeL1
  | writeRedis
  | release
  | publish
  | unregister
  deriving DecidableEq

inductive Sweep
  | pop
  | delete
  | scan
  | deleteScanned (slot : String)
  | finish
  deriving DecidableEq

inductive Act (V : Type)
  | call (process : ℕ) (key : String) (bypass : Bool)
  | put (process : ℕ) (key : String) (value : V)
  | move (i : ℕ) (m : Move V)
  | invalidate (process : ℕ) (target : Target)
  | sweep (j : ℕ) (w : Sweep)
  | expireL1 (process : ℕ) (key : String)
  | expireRedis (slot : String)
  | expireLock (name : String)
  deriving DecidableEq

namespace SharedCache
variable {V : Type}

def setPc (s : SharedCache V) (i : ℕ) (pc : Pc V) : SharedCache V :=
  { s with calls := modifyAt i (fun c => { c with pc := pc }) s.calls }

def setStage (s : SharedCache V) (j : ℕ) (stage : Stage) : SharedCache V :=
  { s with invalidations := modifyAt j (fun v => { v with stage := stage }) s.invalidations }

/-- `_read`: while Redis answers, the in-process copy is not looked at. -/
def read (B : Backend) (s : SharedCache V) (process : ℕ) (key : String) : Option (Stored V) :=
  match B with
  | .memory => find (process, key) s.l1
  | .redis R => find (R.rk key) s.redis

end SharedCache

/-- `_usable` -/
def usable {V : Type} (got : Option (Stored V)) (valid : Bool) : Option (Stored V) :=
  got.filter fun _ => valid

/-- What is left of the call once `_lead` or `_load` has its result. -/
def Call.settle {V : Type} (c : Call V) (token : Bool) (res : Result V) : Pc V :=
  if token then .release res else if c.leads then .publish res else .returned res

/-- One step of the call `i`, which is `c`. -/
def SharedCache.advance {V : Type} (B : Backend) (s : SharedCache V) (i : ℕ) (c : Call V) :
    Move V → Option (SharedCache V)
  | .read valid =>
    match c.pc with
    | .read =>
      match usable (s.read B c.process c.key) valid with
      | some x => some (s.setPc i (.returned (.value x)))
      | none => some (s.setPc i .enter)
    | _ => none
  | .enter =>
    match c.pc with
    | .enter =>
      match find (c.process, c.key) s.flights with
      | some leader => some (s.setPc i (.wait leader))
      | none =>
        let pc : Pc V := match B with
          | .memory => .load false
          | .redis _ => .lock
        some { s with
          flights := write (c.process, c.key) i s.flights
          calls := modifyAt i (fun c => { c with pc := pc, leads := true }) s.calls }
    | _ => none
  | .joined =>
    match c.pc with
    | .wait leader =>
      match s.calls[leader]?.bind Call.published with
      | some res => some (s.setPc i (.returned res))
      | none => none
    | _ => none
  | .gaveUp =>
    match c.pc with
    | .wait _ => some (s.setPc i (.load false))
    | _ => none
  | .lock =>
    match c.pc with
    | .lock =>
      match find (lockName c.key) s.locks with
      | some _ => some (s.setPc i .poll)
      | none => some { s.setPc i .recheck with locks := write (lockName c.key) i s.locks }
    | _ => none
  | .poll valid =>
    match c.pc with
    | .poll =>
      match usable (s.read B c.process c.key) (valid && !c.bypass) with
      | some x => some (s.setPc i (c.settle false (.value x)))
      | none => some s
    | _ => none
  | .stopPolling =>
    match c.pc with
    | .poll => some (s.setPc i (.load false))
    | _ => none
  | .recheck valid =>
    match c.pc with
    | .recheck =>
      match usable (s.read B c.process c.key) (valid && !c.bypass) with
      | some x => some (s.setPc i (.release (.value x)))
      | none => some (s.setPc i (.load true))
    | _ => none
  | .begin =>
    match c.pc with
    | .load token => some (s.setPc i (.loading token s.now))
    | _ => none
  | .loaded value storable =>
    match c.pc with
    | .loading token began =>
      let x : Stored V := ⟨value, some began⟩
      some (s.setPc i (if storable then .writeL1 token x else c.settle token (.value x)))
    | _ => none
  | .raised =>
    match c.pc with
    | .loading token _ => some (s.setPc i (c.settle token .raised))
    | _ => none
  | .writeL1 =>
    match c.pc with
    | .writeL1 token x =>
      let pc := match B with
        | .memory => c.settle token (.value x)
        | .redis _ => .writeRedis token x
      some { s.setPc i pc with l1 := write (c.process, c.key) x s.l1 }
    | _ => none
  | .writeRedis =>
    match c.pc, B with
    | .writeRedis token x, .redis R =>
      some { s.setPc i (c.settle token (.value x)) with redis := write (R.rk c.key) x s.redis }
    | _, _ => none
  | .release =>
    match c.pc with
    | .release res =>
      some { s.setPc i (c.settle false res) with
        locks := if find (lockName c.key) s.locks = some i then
          dropWhere (· = lockName c.key) s.locks else s.locks }
    | _ => none
  | .publish =>
    match c.pc with
    | .publish res =>
      some { s with
        calls := modifyAt i (fun c => { c with pc := .unregister res, published := some res })
          s.calls }
    | _ => none
  | .unregister =>
    match c.pc with
    | .unregister res =>
      some { s.setPc i (.returned res) with
        flights := dropWhere (· = (c.process, c.key)) s.flights }
    | _ => none

/-- One step of the invalidation `j`, which is `v`. -/
def SharedCache.clear {V : Type} (B : Backend) (s : SharedCache V) (j : ℕ) (v : Invalidation) :
    Sweep → Option (SharedCache V)
  | .pop =>
    match v.stage with
    | .begun =>
      let stage : Stage := match B with
        | .memory => .sweeping []
        | .redis _ => .popped
      some { s.setStage j stage with
        l1 := dropWhere (fun slot => slot.1 = v.process && v.target.matches slot.2) s.l1 }
    | _ => none
  | .delete =>
    match v.stage, v.target, B with
    | .popped, .entry key, .redis R =>
      some { s.setStage j (.sweeping []) with redis := dropWhere (· = R.rk key) s.redis }
    | _, _, _ => none
  | .scan =>
    match v.stage, v.target, B with
    | .popped, .keysFrom start, .redis R =>
      some (s.setStage j
        (.sweeping ((keys s.redis).filter fun slot => R.globMatch (R.rk start ++ "*") slot)))
    | _, _, _ => none
  | .deleteScanned slot =>
    match v.stage, v.target, B with
    | .sweeping left, .keysFrom start, .redis R =>
      if R.globMatch (R.rk start ++ "*") slot then
        some { s.setStage j (.sweeping (left.filter (· ≠ slot))) with
          redis := dropWhere (· = slot) s.redis }
      else none
    | _, _, _ => none
  | .finish =>
    match v.stage with
    | .sweeping [] => some (s.setStage j (.returned s.now))
    | _ => none

/-- One access of the shared state; every step takes a moment. -/
def SharedCache.step {V : Type} (B : Backend) (s : SharedCache V) (a : Act V) :
    Option (SharedCache V) :=
  let next : Option (SharedCache V) :=
    match a with
    | .call process key bypass =>
      some { s with
        calls := s.calls ++
          [⟨process, key, bypass, s.now, if bypass then .enter else .read, false, none⟩] }
    | .put process key value =>
      some { s with
        calls := s.calls ++
          [⟨process, key, false, s.now, .writeL1 false ⟨value, none⟩, false, none⟩] }
    | .move i m => s.calls[i]?.bind fun c => s.advance B i c m
    | .invalidate process target =>
      some { s with
        invalidations := s.invalidations ++ [⟨process, target, s.now, .begun⟩] }
    | .sweep j w => s.invalidations[j]?.bind fun v => s.clear B j v w
    | .expireL1 process key => some { s with l1 := dropWhere (· = (process, key)) s.l1 }
    | .expireRedis slot => some { s with redis := dropWhere (· = slot) s.redis }
    | .expireLock name => some { s with locks := dropWhere (· = name) s.locks }
  next.map fun t => { t with now := s.now + 1 }

end MonitoringHub.Cache
