import MonitoringHub.Cache.CacheEffects
import MonitoringHub.Lib.RunTimes

/-! What a step leaves of the calls, of the table of flights and of the readers' store.
Invariants over the calls of a run are case splits on `Goes`: what a call's own move found
and made of it. Other parties' steps leave the call as it is. -/

namespace MonitoringHub.Cache
open Lib Lib.KeyedStore Lib.RowTable

section Steps
variable {V : Type} {B : Backend} {s t : SharedCache V} {i : ℕ} {c d : Call V} {m : Move V}

/-- What a move found and made of the call `c`. -/
inductive Goes (B : Backend) (s : SharedCache V) (c : Call V) : Move V → Call V → Prop
  | hit {valid : Bool} {x : Stored V} (hpc : c.pc = .read)
      (hread : s.read B c.process c.key = some x) :
      Goes B s c (.read valid) { c with pc := .returned (.value x) }
  | missed {valid : Bool} (hpc : c.pc = .read)
      (hmiss : valid = true → s.read B c.process c.key = none) :
      Goes B s c (.read valid) { c with pc := .enter }
  | follows {leader : ℕ} (hpc : c.pc = .enter)
      (hflight : find (c.process, c.key) s.flights = some leader) :
      Goes B s c .enter { c with pc := .wait leader }
  | leads {pc : Pc V} (hpc : c.pc = .enter) (hflight : find (c.process, c.key) s.flights = none)
      (hnew : pc = .load false ∧ B = .memory ∨ pc = .lock ∧ ∃ R, B = .redis R) :
      Goes B s c .enter { c with pc := pc, leads := true }
  | joined {leader : ℕ} {l : Call V} {res : Result V} (hpc : c.pc = .wait leader)
      (hleader : s.calls[leader]? = some l) (hres : l.published = some res) :
      Goes B s c .joined { c with pc := .returned res }
  | gaveUp {leader : ℕ} (hpc : c.pc = .wait leader) : Goes B s c .gaveUp { c with pc := .load false }
  | lockHeld (hpc : c.pc = .lock) : Goes B s c .lock { c with pc := .poll }
  | locked (hpc : c.pc = .lock) : Goes B s c .lock { c with pc := .recheck }
  | pollHit {valid : Bool} {x : Stored V} (hpc : c.pc = .poll) (hbypass : c.bypass = false)
      (hread : s.read B c.process c.key = some x) :
      Goes B s c (.poll valid) { c with pc := c.settle false (.value x) }
  | pollMissed {valid : Bool} (hpc : c.pc = .poll)
      (hmiss : valid = true → c.bypass = false → s.read B c.process c.key = none) :
      Goes B s c (.poll valid) c
  | stopPolling (hpc : c.pc = .poll) : Goes B s c .stopPolling { c with pc := .load false }
  | recheckHit {valid : Bool} {x : Stored V} (hpc : c.pc = .recheck) (hbypass : c.bypass = false)
      (hread : s.read B c.process c.key = some x) :
      Goes B s c (.recheck valid) { c with pc := .release (.value x) }
  | recheckMissed {valid : Bool} (hpc : c.pc = .recheck)
      (hmiss : valid = true → c.bypass = false → s.read B c.process c.key = none) :
      Goes B s c (.recheck valid) { c with pc := .load true }
  | begin {token : Bool} (hpc : c.pc = .load token) :
      Goes B s c .begin { c with pc := .loading token s.now }
  | stores {token : Bool} {began : ℕ} {value : V} (hpc : c.pc = .loading token began) :
      Goes B s c (.loaded value true) { c with pc := .writeL1 token ⟨value, some began⟩ }
  | uncached {token : Bool} {began : ℕ} {value : V} (hpc : c.pc = .loading token began) :
      Goes B s c (.loaded value false)
        { c with pc := c.settle token (.value ⟨value, some began⟩) }
  | raised {token : Bool} {began : ℕ} (hpc : c.pc = .loading token began) :
      Goes B s c .raised { c with pc := c.settle token .raised }
  | wroteL1 {token : Bool} {x : Stored V} (hpc : c.pc = .writeL1 token x) (hB : B = .memory) :
      Goes B s c .writeL1 { c with pc := c.settle token (.value x) }
  | wroteCopy {token : Bool} {x : Stored V} {R : RedisServer} (hpc : c.pc = .writeL1 token x)
      (hB : B = .redis R) : Goes B s c .writeL1 { c with pc := .writeRedis token x }
  | wroteRedis {token : Bool} {x : Stored V} {R : RedisServer} (hpc : c.pc = .writeRedis token x)
      (hB : B = .redis R) : Goes B s c .writeRedis { c with pc := c.settle token (.value x) }
  | released {res : Result V} (hpc : c.pc = .release res) :
      Goes B s c .release { c with pc := c.settle false res }
  | published {res : Result V} (hpc : c.pc = .publish res) :
      Goes B s c .publish { c with pc := .unregister res, published := some res }
  | unregistered {res : Result V} (hpc : c.pc = .unregister res) :
      Goes B s c .unregister { c with pc := .returned res }

/-- The slot of the table of flights. -/
def Call.slot (c : Call V) : ℕ × String := (c.process, c.key)

theorem Goes.slot (h : Goes B s c m d) : d.slot = c.slot := by cases h <;> rfl

theorem Goes.bypass (h : Goes B s c m d) : d.bypass = c.bypass := by cases h <;> rfl

theorem Goes.began (h : Goes B s c m d) : d.began = c.began := by cases h <;> rfl

theorem usable_none {got : Option (Stored V)} (h : usable got true = none) : got = none := by
  cases got with
  | none => rfl
  | some x => cases h

/-- A look that finds nothing it may use, of a call that may use what is stored. -/
theorem usable_missed {got : Option (Stored V)} {valid bypass : Bool}
    (h : usable got (valid && !bypass) = none) :
    valid = true → bypass = false → got = none := by
  rintro rfl rfl
  exact usable_none h

theorem usable_bypass {got : Option (Stored V)} {valid bypass : Bool} {x : Stored V}
    (h : usable got (valid && !bypass) = some x) : bypass = false := by
  have := (Option.filter_eq_some_iff.mp h).2
  cases bypass
  · rfl
  · rw [Bool.not_true, Bool.and_false] at this
    cases this

theorem calls_setPc (hc : s.calls[i]? = some c) (pc : Pc V) (n : ℕ) :
    (s.setPc i pc).calls[n]? = if n = i then some { c with pc := pc } else s.calls[n]? :=
  modifyAt_found hc _ n

theorem advance_goes (hc : s.calls[i]? = some c) (h : s.advance B i c m = some t) :
    ∃ d, Goes B s c m d ∧ ∀ n, t.calls[n]? = if n = i then some d else s.calls[n]? := by
  cases m <;> simp only [SharedCache.advance] at h
  case read =>
    split at h
    · rename_i hpc
      split at h <;> obtain rfl := Option.some.inj h
      · rename_i x hx
        exact ⟨_, .hit hpc (usable_some hx), calls_setPc hc _⟩
      · rename_i hx
        exact ⟨_, .missed hpc fun hvalid => usable_none (hvalid ▸ hx), calls_setPc hc _⟩
    · cases h
  case enter =>
    split at h
    · rename_i hpc
      split at h <;> obtain rfl := Option.some.inj h
      · rename_i hflight
        exact ⟨_, .follows hpc hflight, calls_setPc hc _⟩
      · rename_i hflight
        refine ⟨_, .leads hpc hflight ?_, modifyAt_found hc _⟩
        cases B with
        | memory => exact .inl ⟨rfl, rfl⟩
        | redis R => exact .inr ⟨rfl, R, rfl⟩
    · cases h
  case joined =>
    split at h
    · rename_i leader hpc
      split at h
      · rename_i res hres
        obtain ⟨l, hl, hpub⟩ := Option.bind_eq_some_iff.mp hres
        obtain rfl := Option.some.inj h
        exact ⟨_, .joined hpc hl hpub, calls_setPc hc _⟩
      · cases h
    · cases h
  case gaveUp =>
    split at h
    · rename_i hpc
      obtain rfl := Option.some.inj h
      exact ⟨_, .gaveUp hpc, calls_setPc hc _⟩
    · cases h
  case lock =>
    split at h
    · rename_i hpc
      split at h <;> obtain rfl := Option.some.inj h
      · exact ⟨_, .lockHeld hpc, calls_setPc hc _⟩
      · exact ⟨_, .locked hpc, calls_setPc hc _⟩
    · cases h
  case poll =>
    split at h
    · rename_i hpc
      split at h <;> obtain rfl := Option.some.inj h
      · rename_i x hx
        exact ⟨_, .pollHit hpc (usable_bypass hx) (usable_some hx), calls_setPc hc _⟩
      · rename_i hx
        refine ⟨c, .pollMissed hpc (usable_missed hx), fun n => ?_⟩
        split
        · rename_i hn
          rw [hn, hc]
        · rfl
    · cases h
  case stopPolling =>
    split at h
    · rename_i hpc
      obtain rfl := Option.some.inj h
      exact ⟨_, .stopPolling hpc, calls_setPc hc _⟩
    · cases h
  case recheck =>
    split at h
    · rename_i hpc
      split at h <;> obtain rfl := Option.some.inj h
      · rename_i x hx
        exact ⟨_, .recheckHit hpc (usable_bypass hx) (usable_some hx), calls_setPc hc _⟩
      · rename_i hx
        exact ⟨_, .recheckMissed hpc (usable_missed hx), calls_setPc hc _⟩
    · cases h
  case begin =>
    split at h
    · rename_i hpc
      obtain rfl := Option.some.inj h
      exact ⟨_, .begin hpc, calls_setPc hc _⟩
    · cases h
  case loaded value storable =>
    split at h
    · rename_i hpc
      obtain rfl := Option.some.inj h
      cases storable
      · exact ⟨_, .uncached hpc, calls_setPc hc _⟩
      · exact ⟨_, .stores hpc, calls_setPc hc _⟩
    · cases h
  case raised =>
    split at h
    · rename_i hpc
      obtain rfl := Option.some.inj h
      exact ⟨_, .raised hpc, calls_setPc hc _⟩
    · cases h
  case writeL1 =>
    split at h
    · rename_i hpc
      obtain rfl := Option.some.inj h
      cases B with
      | memory => exact ⟨_, .wroteL1 hpc rfl, calls_setPc hc _⟩
      | redis R => exact ⟨_, .wroteCopy hpc rfl, calls_setPc hc _⟩
    · cases h
  case writeRedis =>
    split at h
    · rename_i hpc
      obtain rfl := Option.some.inj h
      exact ⟨_, .wroteRedis hpc rfl, calls_setPc hc _⟩
    · cases h
  case release =>
    split at h
    · rename_i hpc
      obtain rfl := Option.some.inj h
      exact ⟨_, .released hpc, calls_setPc hc _⟩
    · cases h
  case publish =>
    split at h
    · rename_i hpc
      obtain rfl := Option.some.inj h
      exact ⟨_, .published hpc, modifyAt_found hc _⟩
    · cases h
  case unregister =>
    split at h
    · rename_i hpc
      obtain rfl := Option.some.inj h
      exact ⟨_, .unregistered hpc, calls_setPc hc _⟩
    · cases h

/-- The party a step adds. -/
inductive Begins (s : SharedCache V) : Act V → Call V → Prop
  | called {process : ℕ} {key : String} {bypass : Bool} {pc : Pc V}
      (hpc : pc = .enter ∧ bypass = true ∨ pc = .read ∧ bypass = false) :
      Begins s (.call process key bypass) ⟨process, key, bypass, s.now, pc, false, none⟩
  | put {process : ℕ} {key : String} {value : V} :
      Begins s (.put process key value)
        ⟨process, key, false, s.now, .writeL1 false ⟨value, none⟩, false, none⟩

/-- Where the call `d` of the state after the step comes from. -/
inductive Source (B : Backend) (s : SharedCache V) (a : Act V) (n : ℕ) (d : Call V) : Prop
  | kept (hd : s.calls[n]? = some d) (hother : ∀ m, a ≠ .move n m)
  | moved {c : Call V} {m : Move V} (ha : a = .move n m) (hc : s.calls[n]? = some c)
      (hgoes : Goes B s c m d)
  | added (hn : n = s.calls.length) (hbegins : Begins s a d)

variable {a : Act V} {n : ℕ}

theorem step_now (h : s.step B a = some t) : t.now = s.now + 1 := by
  obtain ⟨_, -, rfl⟩ := step_effect h
  rfl

theorem step_source (h : s.step B a = some t) {d : Call V} (hd : t.calls[n]? = some d) :
    Source B s a n d := by
  cases a with
  | call process key bypass =>
    obtain rfl := Option.some.inj h
    rcases found_append hd with hd | ⟨hn, rfl⟩
    · exact .kept hd fun m hm => by cases hm
    · refine .added hn (.called ?_)
      cases bypass
      · exact .inr ⟨rfl, rfl⟩
      · exact .inl ⟨rfl, rfl⟩
  | put process key value =>
    obtain rfl := Option.some.inj h
    rcases found_append hd with hd | ⟨hn, rfl⟩
    · exact .kept hd fun m hm => by cases hm
    · exact .added hn .put
  | move i m =>
    obtain ⟨t₀, hmove, rfl⟩ := Option.map_eq_some_iff.mp h
    obtain ⟨c, hc, hadvance⟩ := Option.bind_eq_some_iff.mp hmove
    obtain ⟨c', hgoes, hcalls⟩ := advance_goes hc hadvance
    have hd' : (if n = i then some c' else s.calls[n]?) = some d := (hcalls n).symm.trans hd
    split at hd'
    · rename_i hn
      obtain rfl := Option.some.inj hd'
      exact .moved (hn ▸ rfl) (hn ▸ hc) hgoes
    · rename_i hn
      exact .kept hd' fun m' hm' => hn (Act.move.inj hm').1.symm
  | invalidate process target =>
    obtain rfl := Option.some.inj h
    exact .kept hd fun m hm => by cases hm
  | sweep j w =>
    obtain ⟨t₀, heffect, rfl⟩ := step_effect h
    refine .kept ?_ fun m hm => by cases hm
    cases heffect with
    | swept hv hsweep => cases hsweep <;> exact hd
  | expireL1 process key =>
    obtain rfl := Option.some.inj h
    exact .kept hd fun m hm => by cases hm
  | expireRedis slot =>
    obtain rfl := Option.some.inj h
    exact .kept hd fun m hm => by cases hm
  | expireLock name =>
    obtain rfl := Option.some.inj h
    exact .kept hd fun m hm => by cases hm

/-- A call stays in the table, and only its own moves change it. -/
theorem step_target (h : s.step B a = some t) (hc : s.calls[n]? = some c) :
    ∃ d, t.calls[n]? = some d ∧
      (d = c ∧ (∀ m, a ≠ .move n m) ∨ ∃ m, a = .move n m ∧ Goes B s c m d) := by
  have hlen : s.calls.length ≤ t.calls.length := by
    obtain ⟨t₀, heffect, rfl⟩ := step_effect h
    cases heffect with
    | called => simp
    | put => simp
    | moved hc hmove => cases hmove <;> simp [SharedCache.setPc]
    | swept hv hsweep => cases hsweep <;> exact le_rfl
    | _ => exact le_rfl
  have hn : n < t.calls.length := (List.getElem?_eq_some_iff.mp hc).1.trans_le hlen
  obtain ⟨d, hd⟩ : ∃ d, t.calls[n]? = some d := ⟨_, List.getElem?_eq_getElem hn⟩
  refine ⟨d, hd, ?_⟩
  rcases step_source h hd with ⟨hd', hother⟩ | ⟨ha, hc', hgoes⟩ | ⟨hnew, -⟩
  · exact .inl ⟨Option.some.inj (hd'.symm.trans hc), hother⟩
  · obtain rfl := Option.some.inj (hc'.symm.trans hc)
    exact .inr ⟨_, ha, hgoes⟩
  · have := (List.getElem?_eq_some_iff.mp hc).1
    omega

/-- A flight of the table was there, or the step is its leader's entry. -/
theorem step_flight (h : s.step B a = some t) {slot : ℕ × String} {l : ℕ}
    (hfind : find slot t.flights = some l) : find slot s.flights = some l ∨
      ∃ c, s.calls[l]? = some c ∧ a = .move l .enter ∧ c.pc = .enter ∧
        (c.process, c.key) = slot ∧ find slot s.flights = none := by
  obtain ⟨t₀, heffect, rfl⟩ := step_effect h
  cases heffect with
  | @moved i c m t₀ hc hmove =>
    cases hmove with
    | leads hpc hflight hnew =>
      have hfind' : find slot (write (c.process, c.key) i s.flights) = some l := hfind
      rw [find_write] at hfind'
      split at hfind'
      · rename_i hslot
        obtain rfl := Option.some.inj hfind'
        exact .inr ⟨c, hc, rfl, hpc, hslot.symm, hslot ▸ hflight⟩
      · exact .inl hfind'
    | unregistered hpc =>
      have hfind' : find slot (dropWhere (· = (c.process, c.key)) s.flights) = some l := hfind
      exact .inl (find_dropWhere_some hfind').2
    | _ => exact .inl hfind
  | swept hv hsweep => cases hsweep <;> exact .inl hfind
  | _ => exact .inl hfind

/-- A flight stays in the table until a call of its slot unregisters. -/
theorem step_flight_stays (h : s.step B a = some t) {slot : ℕ × String} {l : ℕ}
    (hfind : find slot s.flights = some l) : find slot t.flights = some l ∨
      ∃ i c res, a = .move i .unregister ∧ s.calls[i]? = some c ∧ c.pc = .unregister res ∧
        (c.process, c.key) = slot := by
  obtain ⟨t₀, heffect, rfl⟩ := step_effect h
  cases heffect with
  | @moved i c m t₀ hc hmove =>
    cases hmove with
    | leads hpc hflight hnew =>
      left
      change find slot (write (c.process, c.key) i s.flights) = some l
      rw [find_write, if_neg]
      · exact hfind
      · rintro rfl
        cases hflight.symm.trans hfind
    | unregistered hpc =>
      by_cases hslot : (c.process, c.key) = slot
      · exact .inr ⟨i, c, _, rfl, hc, hpc, hslot⟩
      · left
        change find slot (dropWhere (· = (c.process, c.key)) s.flights) = some l
        rw [find_dropWhere, if_neg (by simpa using fun heq => hslot heq.symm)]
        exact hfind
    | _ => exact .inl hfind
  | swept hv hsweep => cases hsweep <;> exact .inl hfind
  | _ => exact .inl hfind

/-- The move that puts a value where readers find it. -/
def Backend.storing : Backend → Move V
  | .memory => .writeL1
  | .redis _ => .writeRedis

/-- The value that move is about to store. -/
def Backend.toStore : Backend → Pc V → Option (Stored V)
  | .memory, .writeL1 _ x => some x
  | .redis _, .writeRedis _ x => some x
  | _, _ => none

theorem read_of_dropped {process : ℕ} {key : String} {x : Stored V}
    (h : t.read B process key = some x) (hl1 : t.l1 = s.l1 ∨ ∃ p, t.l1 = dropWhere p s.l1)
    (hredis : t.redis = s.redis ∨ ∃ p, t.redis = dropWhere p s.redis) :
    s.read B process key = some x := by
  cases B with
  | memory =>
    have hfind : find (process, key) t.l1 = some x := h
    rcases hl1 with heq | ⟨p, heq⟩
    · rwa [heq] at hfind
    · rw [heq] at hfind
      exact (find_dropWhere_some hfind).2
  | redis R =>
    have hfind : find (R.rk key) t.redis = some x := h
    rcases hredis with heq | ⟨p, heq⟩
    · rwa [heq] at hfind
    · rw [heq] at hfind
      exact (find_dropWhere_some hfind).2

/-- What a reader finds was there, or has just been stored. -/
theorem step_read (h : s.step B a = some t) {process : ℕ} {key : String} {x : Stored V}
    (hread : t.read B process key = some x) : s.read B process key = some x ∨
      ∃ i c, a = .move i B.storing ∧ s.calls[i]? = some c ∧ B.toStore c.pc = some x := by
  obtain ⟨t₀, heffect, rfl⟩ := step_effect h
  cases heffect with
  | @moved i c m t₀ hc hmove =>
    cases hmove with
    | @wroteL1 token y hpc hB =>
      subst hB
      have hfind : find (process, key) (write (c.process, c.key) y s.l1) = some x := hread
      rw [find_write] at hfind
      split at hfind
      · obtain rfl := Option.some.inj hfind
        exact .inr ⟨i, c, rfl, hc, by rw [hpc]; rfl⟩
      · exact .inl hfind
    | wroteCopy hpc hB =>
      subst hB
      exact .inl hread
    | @wroteRedis token y R hpc hB =>
      subst hB
      have hfind : find (R.rk key) (write (R.rk c.key) y s.redis) = some x := hread
      rw [find_write] at hfind
      split at hfind
      · obtain rfl := Option.some.inj hfind
        exact .inr ⟨i, c, rfl, hc, by rw [hpc]; rfl⟩
      · exact .inl hfind
    | _ => exact .inl (read_of_dropped hread (.inl rfl) (.inl rfl))
  | @swept j v w t₀ hv hsweep =>
    left
    cases hsweep with
    | popped =>
      exact read_of_dropped hread
        (.inr ⟨fun slot => slot.1 = v.process && v.target.matches slot.2, rfl⟩) (.inl rfl)
    | poppedCopy =>
      exact read_of_dropped hread
        (.inr ⟨fun slot => slot.1 = v.process && v.target.matches slot.2, rfl⟩) (.inl rfl)
    | @deleted R key => exact read_of_dropped hread (.inl rfl) (.inr ⟨(· = R.rk key), rfl⟩)
    | @deletedScanned R left slot =>
      exact read_of_dropped hread (.inl rfl) (.inr ⟨(· = slot), rfl⟩)
    | _ => exact read_of_dropped hread (.inl rfl) (.inl rfl)
  | @l1Expired p k => exact .inl (read_of_dropped hread (.inr ⟨(· = (p, k)), rfl⟩) (.inl rfl))
  | @redisExpired slot => exact .inl (read_of_dropped hread (.inl rfl) (.inr ⟨(· = slot), rfl⟩))
  | _ => exact .inl (read_of_dropped hread (.inl rfl) (.inl rfl))

end Steps

end MonitoringHub.Cache
