import MonitoringHub.Cache.SingleFlight

/-! Error scopes. A thread of a process runs one call at a time; while the call's loader runs,
the thread may begin further calls inside it. Each load opens a scope on its thread's
stack, and an error noted in the thread is recorded in every scope then open. A load in
whose scope an error was recorded is returned and not stored. -/

namespace MonitoringHub.Cache
open Lib Lib.KeyedStore Lib.RowTable

/-- A thread of a process; `calls` are the calls it is in, the innermost first. -/
structure Thread where
  process : ℕ
  calls : List ℕ
  deriving DecidableEq

/-- `errors i` counts what is recorded in the scope of the load of call `i`. `steps` are the
steps of the cache so far and `failed` the moments at which the loads began that raised or had
an error noted in their thread while they ran; nothing in the code reads these two. -/
structure Scoped (V : Type) where
  cache : SharedCache V
  threads : List Thread
  errors : ℕ → ℕ
  steps : List (Act V)
  failed : List ℕ

/-- The threads of some processes, idle, over what an earlier run left in Redis. -/
def Scoped.start {V : Type} (redis : List (String × V)) (processes : List ℕ) : Scoped V where
  cache := .start (redis.map fun entry => (entry.1, ⟨entry.2, none⟩))
  threads := processes.map fun p => ⟨p, []⟩
  errors := fun _ => 0
  steps := []
  failed := []

inductive ScopedAct (V : Type)
  | call (thread : ℕ) (key : String) (bypass : Bool)
  | move (thread : ℕ) (m : Move V)
  | noteError (thread : ℕ)
  | leave (thread : ℕ)
  | other (a : Act V)
  deriving DecidableEq

def Pc.loadingSince {V : Type} : Pc V → Option ℕ
  | .loading _ began => some began
  | _ => none

namespace Scoped
variable {V : Type}

def loadingSince (s : Scoped V) (i : ℕ) : Option ℕ :=
  s.cache.calls[i]?.bind fun c => c.pc.loadingSince

/-- One step of the cache, remembered. -/
def run (B : Backend) (s : Scoped V) (a : Act V) : Option (Scoped V) :=
  (s.cache.step B a).map fun cache => { s with cache := cache, steps := a :: s.steps }

/-- A thread begins a call when it is idle or runs a loader. -/
def mayCall (s : Scoped V) (thread : Thread) : Bool :=
  match thread.calls with
  | [] => true
  | i :: _ => (s.loadingSince i).isSome

/-- `note_error`: recorded in every open scope of the thread. -/
def noteError (s : Scoped V) (thread : Thread) : Scoped V :=
  { s with
    errors := fun i =>
      if i ∈ thread.calls ∧ (s.loadingSince i).isSome then s.errors i + 1 else s.errors i
    failed := thread.calls.filterMap s.loadingSince ++ s.failed }

/-- A move of the call `i`: its load opens a scope, and decides by it whether the value may
be stored. -/
def moveCall (B : Backend) (s : Scoped V) (i : ℕ) : Move V → Option (Scoped V)
  | .begin => (s.run B (.move i .begin)).map fun t =>
      { t with errors := fun j => if j = i then 0 else s.errors j }
  | .loaded value storable => s.run B (.move i (.loaded value (storable && s.errors i == 0)))
  | .raised => (s.run B (.move i .raised)).map fun t =>
      { t with failed := (s.loadingSince i).toList ++ t.failed }
  | m => s.run B (.move i m)

def step (B : Backend) (s : Scoped V) : ScopedAct V → Option (Scoped V)
  | .call n key bypass =>
    match s.threads[n]? with
    | some thread =>
      if s.mayCall thread then
        (s.run B (.call thread.process key bypass)).map fun t =>
          { t with threads :=
              modifyAt n (fun th => { th with calls := s.cache.calls.length :: th.calls }) s.threads }
      else none
    | none => none
  | .move n m =>
    match s.threads[n]?.bind fun thread => thread.calls.head? with
    | some i => s.moveCall B i m
    | none => none
  | .noteError n => s.threads[n]?.map s.noteError
  | .leave n =>
    match s.threads[n]?.bind fun thread => thread.calls.head? with
    | some i =>
      if (s.cache.calls[i]?.any fun c => c.pc.done) then
        some { s with
          threads := modifyAt n (fun th => { th with calls := th.calls.tail }) s.threads }
      else none
    | none => none
  | .other a =>
    match a with
    | .call .. | .move .. => none
    | a => s.run B a

/-- The load that began at `b` is over. -/
def Over (s : Scoped V) (b : ℕ) : Prop :=
  ∃ i, At s.steps b (.move i .begin) ∧ s.loadingSince i ≠ some b

/-- A value that may be stored. -/
def Good (s : Scoped V) (x : Stored V) : Prop :=
  ∀ b, x.loaderBegan = some b → s.Over b ∧ b ∉ s.failed

/-- A result the call `i` may come to by itself: a failure in it is its own. -/
def Own (s : Scoped V) (i : ℕ) : Result V → Prop
  | .value x => ∀ b, x.loaderBegan = some b →
      s.Over b ∧ (b ∈ s.failed → At s.steps b (.move i .begin))
  | .raised => ∃ w, At s.steps w (.move i .raised)

/-- A result a call that began at `began` may return: its own, or one of a flight that stood
in the table when the call came. -/
def Handed (s : Scoped V) (i began : ℕ) (res : Result V) : Prop :=
  ∃ l, s.Own l res ∧ (l = i ∨ ∀ u, At s.steps u (.move l .unregister) → began ≤ u)

def Sound (s : Scoped V) (i began : ℕ) : Pc V → Prop
  | .writeL1 _ x | .writeRedis _ x => s.Good x
  | .release res | .publish res | .unregister res => s.Own i res
  | .returned res => s.Handed i began res
  | _ => True

end Scoped

/-- The value is somewhere in the cache. -/
def SharedCache.holds {V : Type} (s : SharedCache V) (x : Stored V) : Prop :=
  (∃ slot, find slot s.l1 = some x) ∨ ∃ slot, find slot s.redis = some x

section Scopes
variable {V : Type} {B : Backend} {s t : Scoped V} {i b : ℕ}

/-- What a step does to the scopes: a step of the cache, or an error noted (by nobody, when a
call is left). -/
inductive ScopedEffect (B : Backend) (s t : Scoped V) : Prop
  | ran {a : Act V} (hstep : s.cache.step B a = some t.cache) (hsteps : t.steps = a :: s.steps)
      (hreset : ∀ i, a = .move i .begin → t.errors i = 0)
      (hkept : ∀ i, a ≠ .move i .begin → t.errors i = s.errors i)
      (hfailed : ∀ b, b ∈ t.failed ↔
        b ∈ s.failed ∨ ∃ i, a = .move i .raised ∧ s.loadingSince i = some b)
      (hstores : ∀ i v, a = .move i (.loaded v true) → s.errors i = 0)
  | noted (calls : List ℕ) (hcache : t.cache = s.cache) (hsteps : t.steps = s.steps)
      (herrors : ∀ i b, s.loadingSince i = some b →
        t.errors i = if i ∈ calls then s.errors i + 1 else s.errors i)
      (hfailed : ∀ b, b ∈ t.failed ↔ b ∈ s.failed ∨ ∃ i ∈ calls, s.loadingSince i = some b)

theorem run_effect {a : Act V} (h : s.run B a = some t)
    (hbegin : ∀ i, a ≠ .move i .begin) (hraised : ∀ i, a ≠ .move i .raised)
    (hstores : ∀ i v, a = .move i (.loaded v true) → s.errors i = 0) : ScopedEffect B s t := by
  obtain ⟨cache, hcache, rfl⟩ := Option.map_eq_some_iff.mp h
  exact .ran hcache rfl (fun i hi => absurd hi (hbegin i)) (fun _ _ => rfl)
    (fun b => ⟨.inl, fun h => h.elim id fun ⟨i, hi, _⟩ => absurd hi (hraised i)⟩) hstores

theorem moveCall_effect {m : Move V} (h : s.moveCall B i m = some t) : ScopedEffect B s t := by
  cases m with
  | begin =>
    obtain ⟨t₀, hrun, rfl⟩ := Option.map_eq_some_iff.mp h
    obtain ⟨cache, hcache, rfl⟩ := Option.map_eq_some_iff.mp hrun
    refine .ran hcache rfl (fun j hj => ?_) (fun j hj => ?_)
      (fun b => ⟨.inl, fun h => h.elim id fun ⟨j, hj, _⟩ => by cases hj⟩) fun j v hj => by cases hj
    · obtain rfl := (Act.move.inj hj).1
      exact if_pos rfl
    · exact if_neg fun hji => hj (by rw [hji])
  | raised =>
    obtain ⟨t₀, hrun, rfl⟩ := Option.map_eq_some_iff.mp h
    obtain ⟨cache, hcache, rfl⟩ := Option.map_eq_some_iff.mp hrun
    refine .ran hcache rfl (fun j hj => by cases hj) (fun _ _ => rfl) (fun b => ?_)
      fun j v hj => by cases hj
    refine List.mem_append.trans (or_comm.trans (or_congr_right ?_))
    rw [Option.mem_toList]
    refine ⟨fun hb => ⟨i, rfl, hb⟩, fun hex => ?_⟩
    obtain ⟨j, hj, hb⟩ := hex
    obtain rfl := (Act.move.inj hj).1
    exact hb
  | loaded value storable =>
    refine run_effect h (fun j hj => by cases hj) (fun j hj => by cases hj) fun j v hj => ?_
    obtain ⟨rfl, hm⟩ := Act.move.inj hj
    exact beq_iff_eq.mp (Bool.and_eq_true _ _ |>.mp (Move.loaded.inj hm).2).2
  | _ =>
    exact run_effect h (fun j hj => by cases hj) (fun j hj => by cases hj) fun j v hj => by cases hj

theorem scoped_effect {a : ScopedAct V} (h : s.step B a = some t) : ScopedEffect B s t := by
  cases a <;> simp only [Scoped.step] at h
  case call n key bypass =>
    split at h
    · split at h
      · obtain ⟨t₀, hrun, rfl⟩ := Option.map_eq_some_iff.mp h
        have := run_effect hrun (fun j hj => by cases hj) (fun j hj => by cases hj)
          fun j v hj => by cases hj
        cases this with
        | ran hstep hsteps hreset hkept hfailed hstores =>
          exact .ran hstep hsteps hreset hkept hfailed hstores
        | noted calls hcache hsteps herrors hfailed => exact .noted calls hcache hsteps herrors hfailed
      · cases h
    · cases h
  case move n m =>
    split at h
    · exact moveCall_effect h
    · cases h
  case noteError n =>
    obtain ⟨thread, -, rfl⟩ := Option.map_eq_some_iff.mp h
    refine .noted thread.calls rfl rfl (fun i b hb => ?_) (fun b => ?_)
    · have hsome : (s.loadingSince i).isSome = true := by rw [hb]; rfl
      simp only [Scoped.noteError, hsome, and_true]
    · refine List.mem_append.trans (or_comm.trans (or_congr_right ?_))
      exact List.mem_filterMap
  case leave n =>
    split at h
    · split at h
      · obtain rfl := Option.some.inj h
        exact .noted [] rfl rfl (fun i b _ => rfl)
          fun b => ⟨.inl, fun h => h.elim id fun ⟨i, hi, _⟩ => by cases hi⟩
      · cases h
    · cases h
  case other a =>
    cases a with
    | call | move => cases h
    | _ =>
      exact run_effect h (fun j hj => by cases hj) (fun j hj => by cases hj)
        fun j v hj => by cases hj

theorem Pc.running_of_loading {pc : Pc V} (h : pc.loadingSince = some b) :
    pc.running = some b := by
  cases pc with
  | loading => exact h
  | _ => cases h

theorem Goes.loadingSince {s : SharedCache V} {c d : Call V} {m : Move V} (h : Goes B s c m d)
    (hd : d.pc.loadingSince = some b) : m = .begin ∧ b = s.now := by
  cases h with
  | begin => exact ⟨rfl, (Option.some.inj hd).symm⟩
  | leads _ _ hnew => rcases hnew with ⟨rfl, -⟩ | ⟨rfl, -⟩ <;> cases hd
  | pollMissed hpc =>
    rw [hpc] at hd
    cases hd
  | uncached | raised | wroteL1 | wroteRedis =>
    cases (c.settle_running _ _).symm.trans (Pc.running_of_loading hd)
  | pollHit | released =>
    cases (c.settle_running false _).symm.trans (Pc.running_of_loading hd)
  | _ => cases hd

theorem loadingSince_found (h : s.loadingSince i = some b) :
    ∃ c : Call V, s.cache.calls[i]? = some c ∧ c.pc.loadingSince = some b :=
  Option.bind_eq_some_iff.mp h

theorem loadingSince_of {c : Call V} (hc : s.cache.calls[i]? = some c) :
    s.loadingSince i = c.pc.loadingSince := by
  unfold Scoped.loadingSince
  rw [hc]
  rfl

/-- A load in progress was in progress, and its call did not move, or it has just begun. -/
theorem loadingSince_step {a : Act V} (hstep : s.cache.step B a = some t.cache)
    (h : t.loadingSince i = some b) :
    s.loadingSince i = some b ∧ (∀ m, a ≠ .move i m) ∨ a = .move i .begin ∧ b = s.cache.now := by
  obtain ⟨d, hd, hb⟩ := loadingSince_found h
  rcases step_source hstep hd with ⟨hd, hother⟩ | ⟨ha, hc, hgoes⟩ | ⟨-, hbegins⟩
  · exact .inl ⟨(loadingSince_of hd).trans hb, hother⟩
  · obtain ⟨rfl, hnow⟩ := hgoes.loadingSince hb
    exact .inr ⟨ha, hnow⟩
  · cases hbegins.running.symm.trans (Pc.running_of_loading hb)

theorem loading_began (h : Traced B s.steps s.cache) (hb : s.loadingSince i = some b) :
    At s.steps b (.move i .begin) := by
  obtain ⟨c, hc, hb⟩ := loadingSince_found hb
  exact h.began i c hc b (Pc.running_of_loading hb)

/-- A load that is over is not in progress under another name. -/
theorem Scoped.Over.not_loading (hover : s.Over b) (h : Traced B s.steps s.cache) (j : ℕ) :
    s.loadingSince j ≠ some b := by
  intro hb
  obtain ⟨i, hat, hnot⟩ := hover
  obtain ⟨rfl, -⟩ := Act.move.inj (hat.unique (loading_began h hb))
  exact hnot hb

/-- What a step leaves of the history. -/
structure Later (s t : Scoped V) : Prop where
  steps : ∀ r e, At s.steps r e → At t.steps r e
  latest : ∀ r e, At t.steps r e → At s.steps r e ∨ r = s.cache.now
  ended : ∀ b, s.Over b → t.Over b
  failed : ∀ b, s.Over b → b ∈ t.failed → b ∈ s.failed

theorem effect_later (heffect : ScopedEffect B s t) (h : Traced B s.steps s.cache) :
    Later s t := by
  cases heffect with
  | ran hstep hsteps hreset hkept hfailed hstores =>
    refine ⟨fun r e hat => hsteps ▸ hat.cons _, fun r e hat => ?_, fun b hover => ?_,
      fun b hover hb => ?_⟩
    · rw [hsteps] at hat
      exact (at_cons.mp hat).imp_right fun hlast => hlast.1.trans h.clock.symm
    · obtain ⟨i, hat, hnot⟩ := hover
      refine ⟨i, hsteps ▸ hat.cons _, fun hb => ?_⟩
      rcases loadingSince_step hstep hb with ⟨hb, -⟩ | ⟨-, hb⟩
      · exact hnot hb
      · have := hat.lt
        rw [hb, h.clock] at this
        exact this.false
    · rcases (hfailed b).mp hb with hb | ⟨i, -, hb⟩
      · exact hb
      · exact absurd hb (hover.not_loading h i)
  | noted calls hcache hsteps herrors hfailed =>
    refine ⟨fun r e hat => hsteps ▸ hat, fun r e hat => .inl (hsteps ▸ hat), fun b hover => ?_,
      fun b hover hb => ?_⟩
    · obtain ⟨i, hat, hnot⟩ := hover
      refine ⟨i, hsteps ▸ hat, ?_⟩
      unfold Scoped.loadingSince
      rw [hcache]
      exact hnot
    · rcases (hfailed b).mp hb with hb | ⟨i, -, hb⟩
      · exact hb
      · exact absurd hb (hover.not_loading h i)

theorem Scoped.Good.later {x : Stored V} (h : s.Good x) (hlater : Later s t) : t.Good x :=
  fun b hb => ⟨hlater.ended b (h b hb).1, fun hf => (h b hb).2 (hlater.failed b (h b hb).1 hf)⟩

theorem Scoped.Own.later {res : Result V} (h : s.Own i res) (hlater : Later s t) : t.Own i res := by
  cases res with
  | value x =>
    exact fun b hb => ⟨hlater.ended b (h b hb).1,
      fun hf => hlater.steps _ _ ((h b hb).2 (hlater.failed b (h b hb).1 hf))⟩
  | raised =>
    obtain ⟨w, hw⟩ := h
    exact ⟨w, hlater.steps _ _ hw⟩

theorem Scoped.Handed.later {began : ℕ} {res : Result V} (h : s.Handed i began res)
    (hlater : Later s t) (hbegan : began ≤ s.cache.now) : t.Handed i began res := by
  obtain ⟨l, hown, hl⟩ := h
  refine ⟨l, hown.later hlater, hl.imp_right fun hu u hat => ?_⟩
  rcases hlater.latest u _ hat with hat | rfl
  · exact hu u hat
  · exact hbegan

theorem Scoped.Sound.later {began : ℕ} {pc : Pc V} (h : s.Sound i began pc) (hlater : Later s t)
    (hbegan : began ≤ s.cache.now) : t.Sound i began pc := by
  cases pc with
  | writeL1 | writeRedis => exact Scoped.Good.later h hlater
  | release | publish | unregister => exact Scoped.Own.later h hlater
  | returned => exact Scoped.Handed.later h hlater hbegan
  | _ => trivial

theorem Scoped.Good.own {x : Stored V} (h : s.Good x) : s.Own i (.value x) :=
  fun b hb => ⟨(h b hb).1, fun hf => absurd hf (h b hb).2⟩

theorem Scoped.Own.settled {res : Result V} (h : s.Own i res) (c : Call V) (token : Bool)
    (began : ℕ) : s.Sound i began (c.settle token res) := by
  unfold Call.settle
  split
  · exact h
  · split
    · exact h
    · exact ⟨i, h, .inl rfl⟩

theorem found_of_dropped {κ ν : Type} [DecidableEq κ] {store store' : List (κ × ν)} {x : ν}
    (hstore : store' = store ∨ ∃ p, store' = dropWhere p store)
    (hx : ∃ k, find k store' = some x) : ∃ k, find k store = some x := by
  obtain ⟨k, hfind⟩ := hx
  rcases hstore with rfl | ⟨p, rfl⟩
  · exact ⟨k, hfind⟩
  · exact ⟨k, (find_dropWhere_some hfind).2⟩

theorem found_of_write {κ ν : Type} [DecidableEq κ] {store : List (κ × ν)} {k : κ} {x y : ν}
    (hx : ∃ k', find k' (write k y store) = some x) : (∃ k', find k' store = some x) ∨ x = y := by
  obtain ⟨k', hfind⟩ := hx
  rw [find_write] at hfind
  split at hfind
  · exact .inr (Option.some.inj hfind).symm
  · exact .inl ⟨k', hfind⟩

/-- What the cache holds after a step was there, or was being written. -/
theorem step_holds {s t : SharedCache V} {a : Act V} (h : s.step B a = some t) {x : Stored V}
    (hx : t.holds x) : s.holds x ∨ ∃ (i : ℕ) (c : Call V) (token : Bool), s.calls[i]? = some c ∧
      (c.pc = .writeL1 token x ∨ c.pc = .writeRedis token x) := by
  obtain ⟨t₀, heffect, rfl⟩ := step_effect h
  have hdropped (hl1 : t₀.l1 = s.l1 ∨ ∃ p, t₀.l1 = dropWhere p s.l1)
      (hredis : t₀.redis = s.redis ∨ ∃ p, t₀.redis = dropWhere p s.redis) : s.holds x :=
    hx.imp (found_of_dropped hl1) (found_of_dropped hredis)
  cases heffect with
  | @moved i c m t₀ hc hmove =>
    cases hmove with
    | wroteL1 hpc | wroteCopy hpc =>
      rcases hx with hx | hx
      · rcases found_of_write hx with hx | rfl
        · exact .inl (.inl hx)
        · exact .inr ⟨i, c, _, hc, .inl hpc⟩
      · exact .inl (.inr hx)
    | wroteRedis hpc =>
      rcases hx with hx | hx
      · exact .inl (.inl hx)
      · rcases found_of_write hx with hx | rfl
        · exact .inl (.inr hx)
        · exact .inr ⟨i, c, _, hc, .inr hpc⟩
    | _ => exact .inl (hdropped (.inl rfl) (.inl rfl))
  | @swept j v w t₀ hv hsweep =>
    left
    cases hsweep with
    | popped | poppedCopy =>
      exact hdropped (.inr ⟨fun slot => slot.1 = v.process && v.target.matches slot.2, rfl⟩)
        (.inl rfl)
    | @deleted R key => exact hdropped (.inl rfl) (.inr ⟨(· = R.rk key), rfl⟩)
    | @deletedScanned R left slot => exact hdropped (.inl rfl) (.inr ⟨(· = slot), rfl⟩)
    | _ => exact hdropped (.inl rfl) (.inl rfl)
  | @l1Expired p k => exact .inl (hdropped (.inr ⟨(· = (p, k)), rfl⟩) (.inl rfl))
  | @redisExpired slot => exact .inl (hdropped (.inl rfl) (.inr ⟨(· = slot), rfl⟩))
  | _ => exact .inl (hdropped (.inl rfl) (.inl rfl))

/-- What a run keeps: the moments at which loads failed are past, the scope of a load counts
nothing as long as the load has not failed, and every value and result the cache and its
calls carry is one they may. -/
structure Scopes (B : Backend) (s : Scoped V) : Prop where
  traced : Traced B s.steps s.cache
  registered : Registered s.steps s.cache
  past : ∀ b ∈ s.failed, b < s.cache.now
  counted : ∀ i b, s.loadingSince i = some b → (s.errors i = 0 ↔ b ∉ s.failed)
  held : ∀ x, s.cache.holds x → s.Good x
  sound : ∀ (i : ℕ) (c : Call V), s.cache.calls[i]? = some c → s.Sound i c.began c.pc
  published : ∀ (i : ℕ) (c : Call V), s.cache.calls[i]? = some c →
    ∀ res, c.published = some res → s.Own i res

theorem loading_past (h : Traced B s.steps s.cache) (hb : s.loadingSince i = some b) :
    b < s.cache.now := by
  have := (loading_began h hb).lt
  rwa [h.clock]

theorem Scopes.past_step (h : Scopes B s) (heffect : ScopedEffect B s t) :
    ∀ b ∈ t.failed, b < t.cache.now := by
  intro b hb
  cases heffect with
  | ran hstep _ _ _ hfailed =>
    rw [step_now hstep]
    rcases (hfailed b).mp hb with hb | ⟨i, -, hb⟩
    · exact (h.past b hb).trans (Nat.lt_succ_self _)
    · exact (loading_past h.traced hb).trans (Nat.lt_succ_self _)
  | noted calls hcache _ _ hfailed =>
    rw [hcache]
    rcases (hfailed b).mp hb with hb | ⟨i, -, hb⟩
    · exact h.past b hb
    · exact loading_past h.traced hb

theorem loading_unique (h : Traced B s.steps s.cache) {j : ℕ} (hi : s.loadingSince i = some b)
    (hj : s.loadingSince j = some b) : i = j :=
  (Act.move.inj ((loading_began h hi).unique (loading_began h hj))).1

theorem Scopes.counted_step (h : Scopes B s) (heffect : ScopedEffect B s t) :
    ∀ i b, t.loadingSince i = some b → (t.errors i = 0 ↔ b ∉ t.failed) := by
  intro i b hb
  cases heffect with
  | ran hstep _ hreset hkept hfailed =>
    rcases loadingSince_step hstep hb with ⟨hb, hother⟩ | ⟨rfl, rfl⟩
    · rw [hkept i (hother _), h.counted i b hb, hfailed b]
      refine not_congr ⟨.inl, fun hf => hf.elim id fun hr => ?_⟩
      obtain ⟨j, hj, hb'⟩ := hr
      exact absurd (loading_unique h.traced hb' hb ▸ hj) (hother _)
    · refine iff_of_true (hreset i rfl) fun hf => ?_
      rcases (hfailed _).mp hf with hf | ⟨j, hj, -⟩
      · exact (h.past _ hf).false
      · cases hj
  | noted calls hcache _ herrors hfailed =>
    have hb : s.loadingSince i = some b := by
      unfold Scoped.loadingSince at hb ⊢
      rwa [hcache] at hb
    rw [herrors i b hb, hfailed b]
    split
    · rename_i hi
      exact iff_of_false (Nat.succ_ne_zero _) fun hno => hno (.inr ⟨i, hi, hb⟩)
    · rename_i hi
      rw [h.counted i b hb]
      refine not_congr ⟨.inl, fun hf => hf.elim id fun hr => ?_⟩
      obtain ⟨j, hj, hb'⟩ := hr
      exact absurd (loading_unique h.traced hb' hb ▸ hj) hi

theorem read_holds {s : SharedCache V} {process : ℕ} {key : String} {x : Stored V}
    (h : s.read B process key = some x) : s.holds x := by
  cases B with
  | memory => exact .inl ⟨_, h⟩
  | redis R => exact .inr ⟨_, h⟩

/-- A load that ends is over, and failed if it had before or if it raised. -/
theorem Scopes.ended (h : Scopes B s) {a : Act V} {m : Move V}
    (hstep : s.cache.step B a = some t.cache) (hsteps : t.steps = a :: s.steps)
    (ha : a = .move i m) (hloading : s.loadingSince i = some b) (hm : m ≠ .begin) :
    t.Over b := by
  refine ⟨i, hsteps ▸ (loading_began h.traced hloading).cons a, fun hb' => ?_⟩
  rcases loadingSince_step hstep hb' with ⟨-, hother⟩ | ⟨hbegin, -⟩
  · exact hother m ha
  · exact hm (Act.move.inj (ha.symm.trans hbegin)).2

theorem Scopes.moved (h : Scopes B s) (heffect : ScopedEffect B s t) {a : Act V}
    (hstep : s.cache.step B a = some t.cache) (hsteps : t.steps = a :: s.steps)
    (hfailed : ∀ b, b ∈ t.failed ↔
      b ∈ s.failed ∨ ∃ i, a = .move i .raised ∧ s.loadingSince i = some b)
    (hstores : ∀ i v, a = .move i (.loaded v true) → s.errors i = 0) {c d : Call V} {m : Move V}
    (ha : a = .move i m) (hc : s.cache.calls[i]? = some c) (hgoes : Goes B s.cache c m d) :
    t.Sound i d.began d.pc := by
  have hlater := effect_later heffect h.traced
  have hsound := h.sound i c hc
  have hread {x : Stored V} (hx : s.cache.read B c.process c.key = some x) : t.Good x :=
    (h.held x (read_holds hx)).later hlater
  have hloading {b : ℕ} (hb : c.pc.loadingSince = some b) : s.loadingSince i = some b :=
    (loadingSince_of hc).trans hb
  cases hgoes with
  | hit _ hx => exact ⟨i, (hread hx).own, .inl rfl⟩
  | leads _ _ hnew => rcases hnew with ⟨rfl, -⟩ | ⟨rfl, -⟩ <;> trivial
  | joined hpc hl hres =>
    refine ⟨_, (h.published _ _ hl _ hres).later hlater, .inr fun u hat => ?_⟩
    rw [hsteps] at hat
    refine h.registered.waits i c hc _ hpc u (hat.of_cons fun heq => ?_)
    cases heq.trans ha
  | pollHit _ _ hx => exact (hread hx).own.settled c false _
  | recheckHit _ _ hx => exact (hread hx).own
  | @stores token began value hpc =>
    intro b hb
    obtain rfl := Option.some.inj hb
    have hbegan := hloading (b := began) (by rw [hpc]; rfl)
    refine ⟨h.ended hstep hsteps ha hbegan (fun hno => by cases hno), fun hf => ?_⟩
    rcases (hfailed began).mp hf with hf | ⟨j, hj, -⟩
    · exact (h.counted i began hbegan).mp (hstores i value ha) hf
    · cases hj.symm.trans ha
  | @uncached token began value hpc =>
    have hbegan := hloading (b := began) (by rw [hpc]; rfl)
    have hover := h.ended hstep hsteps ha hbegan (fun hno => by cases hno)
    have hown : t.Own i (.value ⟨value, some began⟩) := by
      intro b hb
      obtain rfl := Option.some.inj hb
      exact ⟨hover, fun _ => hlater.steps _ _ (loading_began h.traced hbegan)⟩
    exact hown.settled c _ _
  | raised =>
    have hown : t.Own i .raised := ⟨s.steps.length, hsteps ▸ ha ▸ at_last _ _⟩
    exact hown.settled c _ _
  | wroteL1 hpc | wroteRedis hpc =>
    rw [hpc] at hsound
    exact (Scoped.Good.later hsound hlater).own.settled c _ _
  | wroteCopy hpc =>
    rw [hpc] at hsound
    exact Scoped.Good.later hsound hlater
  | released hpc =>
    rw [hpc] at hsound
    exact (Scoped.Own.later hsound hlater).settled c false _
  | published hpc =>
    rw [hpc] at hsound
    exact Scoped.Own.later hsound hlater
  | unregistered hpc =>
    rw [hpc] at hsound
    exact ⟨i, Scoped.Own.later hsound hlater, .inl rfl⟩
  | pollMissed hpc =>
    rw [hpc]
    trivial
  | _ => trivial

theorem Goes.publishes {s : SharedCache V} {c d : Call V} {m : Move V} (h : Goes B s c m d)
    {res : Result V} (hd : d.published = some res) :
    c.published = some res ∨ c.pc = .publish res := by
  cases h with
  | published hpc => exact .inr (Option.some.inj hd ▸ hpc)
  | _ => exact .inl hd

theorem Scopes.step (h : Scopes B s) (heffect : ScopedEffect B s t) : Scopes B t := by
  have hlater := effect_later heffect h.traced
  have hpast := h.past_step heffect
  have hcounted := h.counted_step heffect
  cases heffect with
  | @ran a hstep hsteps hreset hkept hfailed hstores =>
    have heffect : ScopedEffect B s t := .ran hstep hsteps hreset hkept hfailed hstores
    refine ⟨hsteps ▸ h.traced.step hstep, hsteps ▸ h.registered.step h.traced hstep, hpast, hcounted,
      fun x hx => ?_, fun i d hd => ?_, fun i d hd res hres => ?_⟩
    · rcases step_holds hstep hx with hx | ⟨i, c, token, hc, hpc⟩
      · exact (h.held x hx).later hlater
      · have hsound := h.sound i c hc
        rcases hpc with hpc | hpc <;> rw [hpc] at hsound <;>
          exact Scoped.Good.later hsound hlater
    · rcases step_source hstep hd with ⟨hd, -⟩ | ⟨ha, hc, hgoes⟩ | ⟨-, hbegins⟩
      · exact (h.sound i d hd).later hlater (h.registered.begun i d hd)
      · exact h.moved heffect hstep hsteps hfailed hstores ha hc hgoes
      · cases hbegins with
        | called hpc => rcases hpc with ⟨rfl, -⟩ | ⟨rfl, -⟩ <;> trivial
        | put => exact fun b hb => by cases hb
    · rcases step_source hstep hd with ⟨hd, -⟩ | @⟨c, m, ha, hc, hgoes⟩ | ⟨-, hbegins⟩
      · exact (h.published i d hd res hres).later hlater
      · rcases hgoes.publishes hres with hres | hpc
        · exact (h.published i c hc res hres).later hlater
        · have hsound := h.sound i c hc
          rw [hpc] at hsound
          exact Scoped.Own.later hsound hlater
      · cases hbegins <;> cases hres
  | noted calls hcache hsteps herrors hfailed =>
    refine ⟨by rw [hsteps, hcache]; exact h.traced, by rw [hsteps, hcache]; exact h.registered,
      hpast, hcounted, fun x hx => ?_, fun i d hd => ?_, fun i d hd res hres => ?_⟩
    · rw [hcache] at hx
      exact (h.held x hx).later hlater
    · rw [hcache] at hd
      exact (h.sound i d hd).later hlater (h.registered.begun i d hd)
    · rw [hcache] at hd
      exact (h.published i d hd res hres).later hlater

theorem find_unstamped {redis : List (String × V)} {slot : String} {x : Stored V}
    (h : find slot (redis.map fun entry => (entry.1, (⟨entry.2, none⟩ : Stored V))) = some x) :
    x.loaderBegan = none := by
  obtain ⟨entry, -, heq⟩ := List.mem_map.mp (mem_of_find h)
  rw [← (Prod.mk.inj heq).2]

theorem run_scopes {redis : List (String × V)} {processes : List ℕ} {tr : List (ScopedAct V)}
    (run : Steps (Takes (Scoped.step B)) (.start redis processes) tr s) : Scopes B s := by
  refine run.invariant (I := fun _ s => Scopes B s) ?_ fun tr s a t h hstep =>
    h.step (scoped_effect hstep)
  refine ⟨(run_traced .refl).1, ⟨fun i c h => (Option.some_ne_none _ h.symm).elim,
      fun slot l h => (Option.some_ne_none _ h.symm).elim,
      fun i c h => (Option.some_ne_none _ h.symm).elim,
      fun i c h => (Option.some_ne_none _ h.symm).elim⟩,
    (fun b hb => by cases hb), fun i b h => (Option.some_ne_none _ h.symm).elim, fun x hx b hb => ?_,
    fun i c h => (Option.some_ne_none _ h.symm).elim,
    fun i c h => (Option.some_ne_none _ h.symm).elim⟩
  rcases hx with ⟨slot, hx⟩ | ⟨slot, hx⟩
  · cases hx
  · cases (find_unstamped hx).symm.trans hb

/-- Where a load raised, or an error was noted in its thread while it ran, its value is stored
nowhere, and only its own call returns the value or the exception, or a call that came
before its flight left the table. -/
theorem failure_not_cached (B : Backend) (redis : List (String × V)) (processes : List ℕ)
    (tr : List (ScopedAct V)) (s : Scoped V)
    (run : Steps (Takes (Scoped.step B)) (.start redis processes) tr s) :
    (∀ x, s.cache.holds x → ∀ b, x.loaderBegan = some b → b ∉ s.failed) ∧
    (∀ (i : ℕ) (c : Call V), s.cache.calls[i]? = some c → ∀ x b, c.pc = .returned (.value x) →
      x.loaderBegan = some b → b ∈ s.failed → ∃ l, At s.steps b (.move l .begin) ∧
        (l = i ∨ ∀ u, At s.steps u (.move l .unregister) → c.began ≤ u)) ∧
    ∀ (i : ℕ) (c : Call V), s.cache.calls[i]? = some c → c.pc = .returned .raised →
      ∃ l w, At s.steps w (.move l .raised) ∧
        (l = i ∨ ∀ u, At s.steps u (.move l .unregister) → c.began ≤ u) := by
  have h := run_scopes run
  refine ⟨fun x hx b hb => (h.held x hx b hb).2, fun i c hc x b hpc hb hfailed => ?_,
    fun i c hc hpc => ?_⟩
  · have hsound := h.sound i c hc
    rw [hpc] at hsound
    obtain ⟨l, hown, hl⟩ := hsound
    exact ⟨l, (hown b hb).2 hfailed, hl⟩
  · have hsound := h.sound i c hc
    rw [hpc] at hsound
    obtain ⟨l, ⟨w, hw⟩, hl⟩ := hsound
    exact ⟨l, w, hw, hl⟩

end Scopes

section Example

/-- The second caller comes when the load with the noted error is over, and its flight is not. -/
def lateFollower : List (ScopedAct ℕ) :=
  [.call 0 "inventory" false, .move 0 (.read true), .move 0 .enter, .move 0 .begin, .noteError 0,
    .move 0 (.loaded 7 true), .call 1 "inventory" false, .move 1 (.read true), .move 1 .enter,
    .move 0 .publish, .move 1 .joined]

theorem failure_not_cached_follower : ∃ s : Scoped ℕ, 3 ∈ s.failed ∧
    (∀ x, s.cache.holds x → x.loaderBegan ≠ some 3) ∧ ∃ l, At s.steps 3 (.move l .begin) ∧
      (l = 1 ∨ ∀ u, At s.steps u (.move l .unregister) → 5 ≤ u) := by
  obtain ⟨s, run, -, hp⟩ := exists_play (Scoped.step .memory) (.start [] [0, 0]) lateFollower
    (fun (s : Scoped ℕ) => s.failed = [3] && s.cache.calls[1]? =
      some ⟨0, "inventory", false, 5, .returned (.value ⟨7, some 3⟩), false, none⟩) (by decide +kernel)
  rw [Bool.and_eq_true, decide_eq_true_eq, decide_eq_true_eq] at hp
  have hfailed : 3 ∈ s.failed := hp.1 ▸ List.mem_singleton_self 3
  have hstays := failure_not_cached .memory [] [0, 0] _ s run
  exact ⟨s, hfailed, fun x hx hb => hstays.1 x hx 3 hb hfailed,
    hstays.2.1 1 _ hp.2 _ 3 rfl rfl hfailed⟩

/-- A caller who comes after a load that noted an error joins its flight; and a loader that
followed, within its own load, the flight of another thread does not hear of the error
noted there. -/
theorem failure_joined_late : (∃ (s : Scoped ℕ) (tr : List (ScopedAct ℕ)) (c : Call ℕ),
      Steps (Takes (Scoped.step .memory)) (.start [] [0, 0]) tr s ∧ 3 ∈ s.failed ∧
      At s.steps 4 (.move 0 (.loaded 7 false)) ∧ s.cache.calls[1]? = some c ∧ 4 < c.began ∧
      c.pc = .returned (.value ⟨7, some 3⟩)) ∧
    ∃ (s : Scoped ℕ) (tr : List (ScopedAct ℕ)) (c : Call ℕ),
      Steps (Takes (Scoped.step .memory)) (.start [] [0, 0]) tr s ∧ 3 ∈ s.failed ∧
      s.cache.calls[2]? = some c ∧ 7 < c.began ∧ c.pc = .returned (.value ⟨7, some 3⟩) ∧
      At s.steps 7 (.move 1 .begin) ∧ s.cache.read .memory 0 "details" = some ⟨8, some 7⟩ := by
  constructor
  · obtain ⟨s, run, -, hp⟩ := exists_play (Scoped.step .memory) (.start [] [0, 0]) lateFollower
      (fun (s : Scoped ℕ) => s.failed = [3] && s.steps.reverse[4]? = some (.move 0 (.loaded 7 false)) &&
        s.cache.calls[1]? =
          some ⟨0, "inventory", false, 5, .returned (.value ⟨7, some 3⟩), false, none⟩)
      (by decide +kernel)
    rw [Bool.and_eq_true, Bool.and_eq_true, decide_eq_true_eq, decide_eq_true_eq,
      decide_eq_true_eq] at hp
    exact ⟨s, _, _, run, hp.1.1 ▸ List.mem_singleton_self 3, hp.1.2, hp.2, by decide, rfl⟩
  · obtain ⟨s, run, -, hp⟩ := exists_play (Scoped.step .memory) (.start [] [0, 0])
      [.call 1 "inventory" false, .move 1 (.read true), .move 1 .enter, .move 1 .begin,
        .call 0 "details" false, .move 0 (.read true), .move 0 .enter, .move 0 .begin,
        .call 0 "inventory" false, .move 0 (.read true), .move 0 .enter, .noteError 1,
        .move 1 (.loaded 7 true), .move 1 .publish, .move 0 .joined, .leave 0,
        .move 0 (.loaded 8 true), .move 0 .writeL1]
      (fun (s : Scoped ℕ) => s.failed = [3] && s.steps.reverse[7]? = some (.move 1 .begin) &&
        s.cache.calls[2]? =
          some ⟨0, "inventory", false, 8, .returned (.value ⟨7, some 3⟩), false, none⟩ &&
        s.cache.read .memory 0 "details" = some ⟨8, some 7⟩) (by decide +kernel)
    rw [Bool.and_eq_true, Bool.and_eq_true, Bool.and_eq_true, decide_eq_true_eq, decide_eq_true_eq,
      decide_eq_true_eq, decide_eq_true_eq] at hp
    exact ⟨s, _, _, run, hp.1.1.1 ▸ List.mem_singleton_self 3, hp.1.2, by decide, rfl, hp.1.1.2,
      hp.2⟩

end Example

end MonitoringHub.Cache
