import MonitoringHub.Cache.SharedCache

/-! What each step of the cache found and left, one constructor a branch. Every
invariant of the cache is a case split on these. -/

namespace MonitoringHub.Cache
open Lib Lib.KeyedStore Lib.RowTable

section Effects
variable {V : Type} {B : Backend} {s t : SharedCache V} {i j : ℕ}

/-- What a step of the call `i` did, by what it found. -/
inductive MoveEffect (B : Backend) (s : SharedCache V) (i : ℕ) (c : Call V) :
    Move V → SharedCache V → Prop
  | hit {valid : Bool} {x : Stored V} (hpc : c.pc = .read)
      (hread : s.read B c.process c.key = some x) :
      MoveEffect B s i c (.read valid) (s.setPc i (.returned (.value x)))
  | missed {valid : Bool} (hpc : c.pc = .read) : MoveEffect B s i c (.read valid) (s.setPc i .enter)
  | follows {leader : ℕ} (hpc : c.pc = .enter)
      (hflight : find (c.process, c.key) s.flights = some leader) :
      MoveEffect B s i c .enter (s.setPc i (.wait leader))
  | leads {pc : Pc V} (hpc : c.pc = .enter) (hflight : find (c.process, c.key) s.flights = none)
      (hnew : pc = .load false ∨ pc = .lock) :
      MoveEffect B s i c .enter { s with
        flights := write (c.process, c.key) i s.flights
        calls := modifyAt i (fun c => { c with pc := pc, leads := true }) s.calls }
  | joined {leader : ℕ} {l : Call V} {res : Result V} (hpc : c.pc = .wait leader)
      (hleader : s.calls[leader]? = some l) (hres : l.published = some res) :
      MoveEffect B s i c .joined (s.setPc i (.returned res))
  | gaveUp {leader : ℕ} (hpc : c.pc = .wait leader) :
      MoveEffect B s i c .gaveUp (s.setPc i (.load false))
  | lockHeld (hpc : c.pc = .lock) : MoveEffect B s i c .lock (s.setPc i .poll)
  | locked (hpc : c.pc = .lock) :
      MoveEffect B s i c .lock { s.setPc i .recheck with locks := write (lockName c.key) i s.locks }
  | pollHit {valid : Bool} {x : Stored V} (hpc : c.pc = .poll)
      (hread : s.read B c.process c.key = some x) :
      MoveEffect B s i c (.poll valid) (s.setPc i (c.settle false (.value x)))
  | pollMissed {valid : Bool} (hpc : c.pc = .poll) : MoveEffect B s i c (.poll valid) s
  | stopPolling (hpc : c.pc = .poll) : MoveEffect B s i c .stopPolling (s.setPc i (.load false))
  | recheckHit {valid : Bool} {x : Stored V} (hpc : c.pc = .recheck)
      (hread : s.read B c.process c.key = some x) :
      MoveEffect B s i c (.recheck valid) (s.setPc i (.release (.value x)))
  | recheckMissed {valid : Bool} (hpc : c.pc = .recheck) :
      MoveEffect B s i c (.recheck valid) (s.setPc i (.load true))
  | begin {token : Bool} (hpc : c.pc = .load token) :
      MoveEffect B s i c .begin (s.setPc i (.loading token s.now))
  | stores {token : Bool} {began : ℕ} {value : V} (hpc : c.pc = .loading token began) :
      MoveEffect B s i c (.loaded value true) (s.setPc i (.writeL1 token ⟨value, some began⟩))
  | uncached {token : Bool} {began : ℕ} {value : V} (hpc : c.pc = .loading token began) :
      MoveEffect B s i c (.loaded value false)
        (s.setPc i (c.settle token (.value ⟨value, some began⟩)))
  | raised {token : Bool} {began : ℕ} (hpc : c.pc = .loading token began) :
      MoveEffect B s i c .raised (s.setPc i (c.settle token .raised))
  | wroteL1 {token : Bool} {x : Stored V} (hpc : c.pc = .writeL1 token x) (hB : B = .memory) :
      MoveEffect B s i c .writeL1
        { s.setPc i (c.settle token (.value x)) with l1 := write (c.process, c.key) x s.l1 }
  | wroteCopy {token : Bool} {x : Stored V} {R : RedisServer} (hpc : c.pc = .writeL1 token x)
      (hB : B = .redis R) :
      MoveEffect B s i c .writeL1
        { s.setPc i (.writeRedis token x) with l1 := write (c.process, c.key) x s.l1 }
  | wroteRedis {token : Bool} {x : Stored V} {R : RedisServer} (hpc : c.pc = .writeRedis token x)
      (hB : B = .redis R) :
      MoveEffect B s i c .writeRedis
        { s.setPc i (c.settle token (.value x)) with redis := write (R.rk c.key) x s.redis }
  | released {res : Result V} (hpc : c.pc = .release res) (locks : List (String × ℕ)) :
      MoveEffect B s i c .release { s.setPc i (c.settle false res) with locks := locks }
  | published {res : Result V} (hpc : c.pc = .publish res) :
      MoveEffect B s i c .publish { s with
        calls := modifyAt i (fun c => { c with pc := .unregister res, published := some res })
          s.calls }
  | unregistered {res : Result V} (hpc : c.pc = .unregister res) :
      MoveEffect B s i c .unregister { s.setPc i (.returned res) with
        flights := dropWhere (· = (c.process, c.key)) s.flights }

theorem usable_some {got : Option (Stored V)} {valid : Bool} {x : Stored V}
    (h : usable got valid = some x) : got = some x :=
  (Option.filter_eq_some_iff.mp h).1

theorem advance_effect {c : Call V} {m : Move V} (h : s.advance B i c m = some t) :
    MoveEffect B s i c m t := by
  cases m <;> simp only [SharedCache.advance] at h
  case read =>
    split at h
    · rename_i hpc
      split at h <;> obtain rfl := Option.some.inj h
      · rename_i x hx
        exact .hit hpc (usable_some hx)
      · exact .missed hpc
    · cases h
  case enter =>
    split at h
    · rename_i hpc
      split at h <;> obtain rfl := Option.some.inj h
      · rename_i hflight
        exact .follows hpc hflight
      · rename_i hflight
        refine .leads hpc hflight ?_
        cases B
        · exact .inl rfl
        · exact .inr rfl
    · cases h
  case joined =>
    split at h
    · rename_i leader hpc
      split at h
      · rename_i res hres
        obtain ⟨l, hl, hpub⟩ := Option.bind_eq_some_iff.mp hres
        obtain rfl := Option.some.inj h
        exact .joined hpc hl hpub
      · cases h
    · cases h
  case gaveUp =>
    split at h
    · rename_i hpc
      obtain rfl := Option.some.inj h
      exact .gaveUp hpc
    · cases h
  case lock =>
    split at h
    · rename_i hpc
      split at h <;> obtain rfl := Option.some.inj h
      · exact .lockHeld hpc
      · exact .locked hpc
    · cases h
  case poll =>
    split at h
    · rename_i hpc
      split at h <;> obtain rfl := Option.some.inj h
      · rename_i x hx
        exact .pollHit hpc (usable_some hx)
      · exact .pollMissed hpc
    · cases h
  case stopPolling =>
    split at h
    · rename_i hpc
      obtain rfl := Option.some.inj h
      exact .stopPolling hpc
    · cases h
  case recheck =>
    split at h
    · rename_i hpc
      split at h <;> obtain rfl := Option.some.inj h
      · rename_i x hx
        exact .recheckHit hpc (usable_some hx)
      · exact .recheckMissed hpc
    · cases h
  case begin =>
    split at h
    · rename_i hpc
      obtain rfl := Option.some.inj h
      exact .begin hpc
    · cases h
  case loaded value storable =>
    split at h
    · rename_i hpc
      obtain rfl := Option.some.inj h
      cases storable
      · exact .uncached hpc
      · exact .stores hpc
    · cases h
  case raised =>
    split at h
    · rename_i hpc
      obtain rfl := Option.some.inj h
      exact .raised hpc
    · cases h
  case writeL1 =>
    split at h
    · rename_i hpc
      obtain rfl := Option.some.inj h
      cases B
      · exact .wroteL1 hpc rfl
      · exact .wroteCopy hpc rfl
    · cases h
  case writeRedis =>
    split at h
    · rename_i hpc
      obtain rfl := Option.some.inj h
      exact .wroteRedis hpc rfl
    · cases h
  case release =>
    split at h
    · rename_i hpc
      obtain rfl := Option.some.inj h
      exact .released hpc _
    · cases h
  case publish =>
    split at h
    · rename_i hpc
      obtain rfl := Option.some.inj h
      exact .published hpc
    · cases h
  case unregister =>
    split at h
    · rename_i hpc
      obtain rfl := Option.some.inj h
      exact .unregistered hpc
    · cases h

/-- What a step of the invalidation `j` did. -/
inductive SweepEffect (B : Backend) (s : SharedCache V) (j : ℕ) (v : Invalidation) :
    Sweep → SharedCache V → Prop
  | popped (hstage : v.stage = .begun) (hB : B = .memory) :
      SweepEffect B s j v .pop { s.setStage j (.sweeping []) with
        l1 := dropWhere (fun slot => slot.1 = v.process && v.target.matches slot.2) s.l1 }
  | poppedCopy {R : RedisServer} (hstage : v.stage = .begun) (hB : B = .redis R) :
      SweepEffect B s j v .pop { s.setStage j .popped with
        l1 := dropWhere (fun slot => slot.1 = v.process && v.target.matches slot.2) s.l1 }
  | deleted {R : RedisServer} {key : String} (hstage : v.stage = .popped)
      (htarget : v.target = .entry key) (hB : B = .redis R) :
      SweepEffect B s j v .delete { s.setStage j (.sweeping []) with
        redis := dropWhere (· = R.rk key) s.redis }
  | scanned {R : RedisServer} {start : String} (hstage : v.stage = .popped)
      (htarget : v.target = .keysFrom start) (hB : B = .redis R) :
      SweepEffect B s j v .scan (s.setStage j
        (.sweeping ((keys s.redis).filter fun slot => R.globMatch (R.rk start ++ "*") slot)))
  | deletedScanned {R : RedisServer} {left : List String} {slot : String}
      (hstage : v.stage = .sweeping left) (hB : B = .redis R) :
      SweepEffect B s j v (.deleteScanned slot)
        { s.setStage j (.sweeping (left.filter (· ≠ slot))) with
          redis := dropWhere (· = slot) s.redis }
  | finished (hstage : v.stage = .sweeping []) :
      SweepEffect B s j v .finish (s.setStage j (.returned s.now))

theorem clear_effect {v : Invalidation} {w : Sweep} (h : s.clear B j v w = some t) :
    SweepEffect B s j v w t := by
  cases w <;> simp only [SharedCache.clear] at h
  case pop =>
    split at h
    · rename_i hstage
      obtain rfl := Option.some.inj h
      cases B
      · exact .popped hstage rfl
      · exact .poppedCopy hstage rfl
    · cases h
  case delete =>
    split at h
    · rename_i hstage htarget
      obtain rfl := Option.some.inj h
      exact .deleted hstage htarget rfl
    · cases h
  case scan =>
    split at h
    · rename_i hstage htarget
      obtain rfl := Option.some.inj h
      exact .scanned hstage htarget rfl
    · cases h
  case deleteScanned =>
    split at h
    · rename_i hstage htarget
      split at h
      · obtain rfl := Option.some.inj h
        exact .deletedScanned hstage rfl
      · cases h
    · cases h
  case finish =>
    split at h
    · rename_i hstage
      obtain rfl := Option.some.inj h
      exact .finished hstage
    · cases h

/-- What a step did, the clock apart. -/
inductive StepEffect (B : Backend) (s : SharedCache V) : Act V → SharedCache V → Prop
  | called {process : ℕ} {key : String} {bypass : Bool} {pc : Pc V}
      (hpc : pc = .enter ∨ pc = .read) :
      StepEffect B s (.call process key bypass)
        { s with calls := s.calls ++ [⟨process, key, bypass, s.now, pc, false, none⟩] }
  | put {process : ℕ} {key : String} {value : V} :
      StepEffect B s (.put process key value) { s with
        calls := s.calls ++
          [⟨process, key, false, s.now, .writeL1 false ⟨value, none⟩, false, none⟩] }
  | moved {i : ℕ} {c : Call V} {m : Move V} {t : SharedCache V} (hc : s.calls[i]? = some c)
      (h : MoveEffect B s i c m t) : StepEffect B s (.move i m) t
  | invalidated {process : ℕ} {target : Target} :
      StepEffect B s (.invalidate process target)
        { s with invalidations := s.invalidations ++ [⟨process, target, s.now, .begun⟩] }
  | swept {j : ℕ} {v : Invalidation} {w : Sweep} {t : SharedCache V}
      (hv : s.invalidations[j]? = some v) (h : SweepEffect B s j v w t) : StepEffect B s (.sweep j w) t
  | l1Expired {process : ℕ} {key : String} :
      StepEffect B s (.expireL1 process key)
        { s with l1 := dropWhere (· = (process, key)) s.l1 }
  | redisExpired {slot : String} :
      StepEffect B s (.expireRedis slot) { s with redis := dropWhere (· = slot) s.redis }
  | lockExpired {name : String} :
      StepEffect B s (.expireLock name) { s with locks := dropWhere (· = name) s.locks }

theorem step_effect {a : Act V} (h : s.step B a = some t) :
    ∃ t₀, StepEffect B s a t₀ ∧ t = { t₀ with now := s.now + 1 } := by
  cases a <;> simp only [SharedCache.step, Option.map_some, Option.map_eq_some_iff] at h
  case call process key bypass =>
    obtain rfl := Option.some.inj h
    refine ⟨_, .called ?_, rfl⟩
    cases bypass
    · exact .inr rfl
    · exact .inl rfl
  case put =>
    obtain rfl := Option.some.inj h
    exact ⟨_, .put, rfl⟩
  case move =>
    obtain ⟨t₀, hmove, rfl⟩ := h
    obtain ⟨c, hc, hadvance⟩ := Option.bind_eq_some_iff.mp hmove
    exact ⟨t₀, .moved hc (advance_effect hadvance), rfl⟩
  case invalidate =>
    obtain rfl := Option.some.inj h
    exact ⟨_, .invalidated, rfl⟩
  case sweep =>
    obtain ⟨t₀, hsweep, rfl⟩ := h
    obtain ⟨v, hv, hclear⟩ := Option.bind_eq_some_iff.mp hsweep
    exact ⟨t₀, .swept hv (clear_effect hclear), rfl⟩
  case expireL1 =>
    obtain rfl := Option.some.inj h
    exact ⟨_, .l1Expired, rfl⟩
  case expireRedis =>
    obtain rfl := Option.some.inj h
    exact ⟨_, .redisExpired, rfl⟩
  case expireLock =>
    obtain rfl := Option.some.inj h
    exact ⟨_, .lockExpired, rfl⟩

end Effects

end MonitoringHub.Cache
