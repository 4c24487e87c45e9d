import MonitoringHub.Cache.CacheEffects

/-! Invalidation. An invalidation covers the keys it names and is past an entry once it
has taken it out of the store that readers see. A value is fresh for a call when its
loader began after every covering invalidation that had returned before the call began;
what a call returns is fresh as long as no step slips an older value behind an
invalidation. -/

namespace MonitoringHub.Cache
open Lib Lib.KeyedStore Lib.RowTable
variable {V : Type}

/-- Where an entry is stored: the readers' view of a key. -/
def Backend.slot (B : Backend) (process : ℕ) (key : String) : ℕ × String :=
  match B with
  | .memory => (process, key)
  | .redis R => (0, R.rk key)

/-- The in-process copy of another process is out of reach of the memory backend. -/
def Invalidation.covers (B : Backend) (v : Invalidation) (process : ℕ) (key : String) : Bool :=
  match B with
  | .memory => v.process = process && v.target.matches key
  | .redis _ => v.target.matches key

/-- The invalidation has nothing left to take out at this slot. -/
def Invalidation.past (v : Invalidation) (slot : String) : Bool :=
  match v.stage with
  | .begun | .popped => false
  | .sweeping left => slot ∉ left
  | .returned _ => true

/-- A loader that began then began after every covering invalidation already past the slot. -/
def Current (B : Backend) (s : SharedCache V) (process : ℕ) (key : String) (began : ℕ) : Prop :=
  ∀ v ∈ s.invalidations, v.covers B process key = true →
    v.past (B.slot process key).2 = true → v.began ≤ began

def Invalidation.returnedBefore (v : Invalidation) (moment : ℕ) : Bool :=
  match v.stage with
  | .returned r => r < moment
  | _ => false

/-- A loader that began then began after every covering invalidation that had returned
before the moment `before`. -/
def Fresh (B : Backend) (s : SharedCache V) (process : ℕ) (key : String) (before began : ℕ) :
    Prop :=
  ∀ v ∈ s.invalidations, v.covers B process key = true → v.returnedBefore before = true →
    v.began ≤ began

theorem Invalidation.returnedBefore_iff {v : Invalidation} {moment : ℕ} :
    v.returnedBefore moment = true ↔ ∃ r, v.stage = .returned r ∧ r < moment := by
  unfold Invalidation.returnedBefore
  split <;> simp_all

def Pc.loaderBegan : Pc V → Option ℕ
  | .loading _ began => some began
  | .writeL1 _ x | .writeRedis _ x => x.loaderBegan
  | .release res | .publish res | .unregister res | .returned res => res.loaderBegan
  | _ => none

/-- The call holds a value, or a running loader, that began then. -/
def Call.Holds (c : Call V) (began : ℕ) : Prop :=
  c.pc.loaderBegan = some began ∨ ∃ res, c.published = some res ∧ res.loaderBegan = some began

def Pc.follows : Pc V → Bool
  | .read | .enter | .wait _ => true
  | _ => false

@[simp] theorem Call.settle_loaderBegan (c : Call V) (token : Bool) (res : Result V) :
    (c.settle token res).loaderBegan = res.loaderBegan := by
  unfold Call.settle
  split
  · rfl
  · split <;> rfl

@[simp] theorem Call.settle_follows (c : Call V) (token : Bool) (res : Result V) :
    (c.settle token res).follows = false := by
  unfold Call.settle
  split
  · rfl
  · split <;> rfl

theorem Current.fresh {B : Backend} {s : SharedCache V} {process : ℕ} {key : String} {began : ℕ}
    (h : Current B s process key began) (before : ℕ) : Fresh B s process key before began := by
  intro v hv hcovers hreturned
  obtain ⟨r, hr, -⟩ := Invalidation.returnedBefore_iff.mp hreturned
  exact h v hv hcovers (by simp only [Invalidation.past, hr])

/-- What readers find is current. -/
def Entries (B : Backend) (s : SharedCache V) : Prop :=
  ∀ process key x began, s.read B process key = some x → x.loaderBegan = some began →
    Current B s process key began

/-- The call follows a flight: its leader leads the same key, and holds nothing stale. -/
def Follows (B : Backend) (s : SharedCache V) (c : Call V) (leader : ℕ) : Prop :=
  ∃ l : Call V, s.calls[leader]? = some l ∧ l.leads = true ∧ l.process = c.process ∧
    l.key = c.key ∧ ∀ began, l.Holds began → Fresh B s c.process c.key c.began began

structure Stands (B : Backend) (s : SharedCache V) : Prop where
  clock : ∀ v ∈ s.invalidations, v.began < s.now ∧ ∀ r, v.stage = .returned r → r < s.now
  entries : Entries B s
  begun : ∀ (i : ℕ) (c : Call V), s.calls[i]? = some c → c.began < s.now
  held : ∀ (i : ℕ) (c : Call V), s.calls[i]? = some c → ∀ began, c.Holds began →
    Fresh B s c.process c.key c.began began
  followers : ∀ (i : ℕ) (c : Call V), s.calls[i]? = some c → c.pc.follows = true →
    c.leads = false
  flights : ∀ process key leader, find (process, key) s.flights = some leader →
    ∃ l : Call V, s.calls[leader]? = some l ∧ l.leads = true ∧ l.process = process ∧ l.key = key
  waits : ∀ (i : ℕ) (c : Call V), s.calls[i]? = some c → ∀ leader, c.pc = .wait leader →
    Follows B s c leader

/-- The call `i`, which was `c`, is now `c'`, and no other party has moved. -/
structure Rewrites (s t : SharedCache V) (i : ℕ) (c c' : Call V) : Prop where
  found : s.calls[i]? = some c
  calls : ∀ n : ℕ, t.calls[n]? = if n = i then some c' else s.calls[n]?
  invalidations : t.invalidations = s.invalidations
  process : c'.process = c.process
  key : c'.key = c.key
  began : c'.began = c.began
  leads : c.leads = true → c'.leads = true
  followers : c'.pc.follows = true → c'.leads = false

/-- Storing the value puts nothing behind an invalidation of its slot. -/
def Storable (B : Backend) (s : SharedCache V) (c : Call V) (x : Stored V) : Prop :=
  ∀ began, x.loaderBegan = some began → ∀ process key,
    B.slot process key = B.slot c.process c.key → Current B s process key began

def Pc.writing : Pc V → Option (Stored V)
  | .writeL1 _ x | .writeRedis _ x => some x
  | _ => none

/-- What the call is about to store is not behind an invalidation. -/
def StoresCurrent (B : Backend) (s : SharedCache V) (i : ℕ) : Prop :=
  ∀ c ∈ s.calls[i]?, ∀ x ∈ c.pc.writing, Storable B s c x

/-- What the flight the call would join holds is fresh for the call. -/
def JoinsFresh (B : Backend) (s : SharedCache V) (i : ℕ) : Prop :=
  ∀ c ∈ s.calls[i]?, ∀ leader ∈ find (c.process, c.key) s.flights, ∀ l ∈ s.calls[leader]?,
    (∀ began ∈ l.pc.loaderBegan, Fresh B s c.process c.key c.began began) ∧
    ∀ res ∈ l.published, ∀ began ∈ res.loaderBegan, Fresh B s c.process c.key c.began began

/-- The step is in time: a loaded value reaches the readers' store only if no invalidation
begun since its loader began is past its slot; a call joins a flight only if what the
flight holds is fresh for it; a scan's pattern matches the entries its argument covers. -/
def InTime (B : Backend) (s : SharedCache V) : Act V → Prop
  | .move i .writeL1 => B = .memory → StoresCurrent B s i
  | .move i .writeRedis => StoresCurrent B s i
  | .move i .enter => JoinsFresh B s i
  | .sweep j .scan => ∀ R, B = .redis R → ∀ v ∈ s.invalidations[j]?, ∀ start,
      v.target = .keysFrom start → ∀ key, Text.startsWith key start = true →
      R.rk key ∈ keys s.redis → R.globMatch (R.rk start ++ "*") (R.rk key) = true
  | _ => True

section Moves
variable {B : Backend} {s t : SharedCache V} {i : ℕ} {c c' : Call V}

theorem Fresh.congr {process : ℕ} {key : String} {before began : ℕ}
    (hinv : t.invalidations = s.invalidations) (h : Fresh B s process key before began) :
    Fresh B t process key before began := by
  unfold Fresh at *
  rwa [hinv]

theorem Current.congr {process : ℕ} {key : String} {began : ℕ}
    (hinv : t.invalidations = s.invalidations) (h : Current B s process key began) :
    Current B t process key began := by
  unfold Current at *
  rwa [hinv]

/-- A store that lost entries, or kept them, is as current as before. -/
theorem Entries.of_read (h : Entries B s) (hinv : t.invalidations = s.invalidations)
    (hread : ∀ process key x, t.read B process key = some x → s.read B process key = some x) :
    Entries B t := fun process key x began hx hbegan =>
  (h process key x began (hread process key x hx) hbegan).congr hinv

theorem Rewrites.setPc {pc : Pc V} (hc : s.calls[i]? = some c)
    (hcalls : t.calls = (s.setPc i pc).calls) (hinv : t.invalidations = s.invalidations)
    (hfollowers : pc.follows = true → c.leads = false) :
    Rewrites s t i c { c with pc := pc } := by
  refine ⟨hc, fun n => ?_, hinv, rfl, rfl, rfl, id, hfollowers⟩
  rw [hcalls, SharedCache.setPc, modifyAt_found hc]

theorem Stands.clock_le (h : Stands B s) {u : Invalidation} (hu : u ∈ s.invalidations) :
    u.began ≤ s.now ∧ ∀ r, u.stage = .returned r → r ≤ s.now := by
  obtain ⟨hbegan, hreturned⟩ := h.clock u hu
  exact ⟨hbegan.le, fun r hr => (hreturned r hr).le⟩

theorem Stands.clock_succ (h : Stands B s) (hinv : t.invalidations = s.invalidations) :
    ∀ u ∈ t.invalidations, u.began < s.now + 1 ∧ ∀ r, u.stage = .returned r → r < s.now + 1 := by
  intro u hu
  obtain ⟨hbegan, hreturned⟩ := h.clock_le (hinv ▸ hu)
  exact ⟨Nat.lt_succ_of_le hbegan, fun r hr => Nat.lt_succ_of_le (hreturned r hr)⟩

/-- One rule for every move of a call: what it newly holds is fresh for whoever may
return it, and whom it newly follows holds nothing stale. -/
theorem Stands.rewrite (h : Stands B s) (hw : Rewrites s t i c c') (hentries : Entries B t)
    (hflights : ∀ process key leader, find (process, key) t.flights = some leader →
      find (process, key) s.flights = some leader ∨
        leader = i ∧ c'.leads = true ∧ c'.process = process ∧ c'.key = key)
    (hheld : ∀ began, c'.Holds began → c.Holds began ∨ Current B s c.process c.key began ∨
      c.leads = false ∧ Fresh B s c.process c.key c.began began)
    (hwait : ∀ leader, c'.pc = .wait leader → c.pc = .wait leader ∨ Follows B s c leader) :
    Stands B { t with now := s.now + 1 } := by
  have hat : ∀ (n : ℕ) (d : Call V), t.calls[n]? = some d →
      n = i ∧ d = c' ∨ n ≠ i ∧ s.calls[n]? = some d := by
    intro n d hd
    rw [hw.calls] at hd
    split at hd
    · exact .inl ⟨‹_›, (Option.some.inj hd).symm⟩
    · exact .inr ⟨‹_›, hd⟩
  -- a follower of any call still follows it, moved or not
  have hfollows : ∀ d leader, Follows B s d leader →
      Follows B { t with now := s.now + 1 } d leader := by
    rintro d leader ⟨l, hl, hleads, hprocess, hkey, hfresh⟩
    by_cases hleader : leader = i
    · subst hleader
      obtain rfl := Option.some.inj (hl.symm.trans hw.found)
      refine ⟨c', by rw [hw.calls, if_pos rfl], hw.leads hleads, hw.process.trans hprocess,
        hw.key.trans hkey, fun began hholds => ?_⟩
      rcases hheld began hholds with hold | hcurrent | ⟨hno, -⟩
      · exact (hfresh began hold).congr hw.invalidations
      · rw [hprocess, hkey] at hcurrent
        exact (hcurrent.fresh _).congr hw.invalidations
      · rw [hleads] at hno
        cases hno
    · refine ⟨l, by rw [hw.calls, if_neg hleader, hl], hleads, hprocess, hkey,
        fun began hholds => ?_⟩
      exact (hfresh began hholds).congr hw.invalidations
  refine ⟨h.clock_succ hw.invalidations, hentries, ?_, ?_, ?_, ?_, ?_⟩
  · intro n d hd
    rcases hat n d hd with ⟨-, rfl⟩ | ⟨-, hd⟩
    · exact hw.began ▸ (h.begun i c hw.found).trans (Nat.lt_succ_self _)
    · exact (h.begun n d hd).trans (Nat.lt_succ_self _)
  · intro n d hd began hholds
    rcases hat n d hd with ⟨-, rfl⟩ | ⟨-, hd⟩
    · rw [hw.process, hw.key, hw.began]
      rcases hheld began hholds with hold | hcurrent | ⟨-, hfresh⟩
      · exact (h.held i c hw.found began hold).congr hw.invalidations
      · exact (hcurrent.fresh _).congr hw.invalidations
      · exact hfresh.congr hw.invalidations
    · exact (h.held n d hd began hholds).congr hw.invalidations
  · intro n d hd hpc
    rcases hat n d hd with ⟨-, rfl⟩ | ⟨-, hd⟩
    · exact hw.followers hpc
    · exact h.followers n d hd hpc
  · intro process key leader hfind
    rcases hflights process key leader hfind with hold | ⟨rfl, hleads, hprocess, hkey⟩
    · obtain ⟨l, hl, hleads, hprocess, hkey⟩ := h.flights process key leader hold
      by_cases hleader : leader = i
      · subst hleader
        obtain rfl := Option.some.inj (hl.symm.trans hw.found)
        exact ⟨c', by rw [hw.calls, if_pos rfl], hw.leads hleads, hw.process.trans hprocess,
          hw.key.trans hkey⟩
      · exact ⟨l, by rw [hw.calls, if_neg hleader, hl], hleads, hprocess, hkey⟩
    · exact ⟨c', by rw [hw.calls, if_pos rfl], hleads, hprocess, hkey⟩
  · intro n d hd leader hpc
    rcases hat n d hd with ⟨-, rfl⟩ | ⟨-, hd⟩
    · have hmoved : Follows B s d leader := by
        rcases hwait leader hpc with hold | hnew
        · obtain ⟨l, hl⟩ := h.waits i c hw.found leader hold
          rw [← hw.process, ← hw.key, ← hw.began] at hl
          exact ⟨l, hl⟩
        · obtain ⟨l, hl⟩ := hnew
          rw [← hw.process, ← hw.key, ← hw.began] at hl
          exact ⟨l, hl⟩
      exact hfollows d leader hmoved
    · exact hfollows d leader (h.waits n d hd leader hpc)

/-- The same for a move that sets the program counter. -/
theorem Stands.setPc (h : Stands B s) (hc : s.calls[i]? = some c) {pc : Pc V}
    (hcalls : t.calls = (s.setPc i pc).calls) (hinv : t.invalidations = s.invalidations)
    (hflights : ∀ process key leader, find (process, key) t.flights = some leader →
      find (process, key) s.flights = some leader)
    (hentries : Entries B t) (hfollowers : pc.follows = true → c.leads = false)
    (hheld : ∀ began, pc.loaderBegan = some began → c.pc.loaderBegan = some began ∨
      Current B s c.process c.key began ∨
      c.leads = false ∧ Fresh B s c.process c.key c.began began)
    (hwait : ∀ leader, pc = .wait leader → Follows B s c leader) :
    Stands B { t with now := s.now + 1 } := by
  refine h.rewrite (.setPc hc hcalls hinv hfollowers) hentries
    (fun process key leader hfind => .inl (hflights process key leader hfind)) ?_
    (fun leader hpc => .inr (hwait leader hpc))
  rintro began (hpc | hpublished)
  · rcases hheld began hpc with hold | hnew
    · exact .inl (.inl hold)
    · exact .inr hnew
  · exact .inl (.inr hpublished)

/-- And for one that neither starts nor stops following. -/
theorem Stands.advance (h : Stands B s) (hc : s.calls[i]? = some c) {pc : Pc V}
    (hcalls : t.calls = (s.setPc i pc).calls) (hinv : t.invalidations = s.invalidations)
    (hflights : t.flights = s.flights) (hentries : Entries B t) (hpc : pc.follows = false)
    (hheld : ∀ began, pc.loaderBegan = some began → c.pc.loaderBegan = some began ∨
      Current B s c.process c.key began ∨
      c.leads = false ∧ Fresh B s c.process c.key c.began began) :
    Stands B { t with now := s.now + 1 } := by
  refine h.setPc hc hcalls hinv (fun _ _ _ hfind => hflights ▸ hfind) hentries (fun hf => ?_) hheld
    (fun leader hw => ?_)
  · rw [hpc] at hf
    cases hf
  · rw [hw] at hpc
    cases hpc

theorem Stands.settle (h : Stands B s) (hc : s.calls[i]? = some c) (token : Bool) (res : Result V)
    (hcalls : t.calls = (s.setPc i (c.settle token res)).calls)
    (hinv : t.invalidations = s.invalidations) (hflights : t.flights = s.flights)
    (hentries : Entries B t)
    (hheld : ∀ began, res.loaderBegan = some began → c.pc.loaderBegan = some began ∨
      Current B s c.process c.key began) :
    Stands B { t with now := s.now + 1 } := by
  refine h.advance hc hcalls hinv hflights hentries (c.settle_follows token res) fun began hb => ?_
  rw [c.settle_loaderBegan] at hb
  rcases hheld began hb with hold | hcurrent
  · exact .inl hold
  · exact .inr (.inl hcurrent)

/-- What a write leaves is current where the written value was. -/
theorem Entries.write {x : Stored V} (h : Entries B s) (hinv : t.invalidations = s.invalidations)
    (hread : ∀ process key y, t.read B process key = some y → s.read B process key = some y ∨
      y = x ∧ B.slot process key = B.slot c.process c.key)
    (hx : Storable B s c x) : Entries B t := by
  intro process key y began hy hbegan
  rcases hread process key y hy with hold | ⟨rfl, hslot⟩
  · exact (h process key y began hold hbegan).congr hinv
  · exact (hx began hbegan process key hslot).congr hinv

theorem SharedCache.read_writeL1 {x : Stored V} (hl1 : t.l1 = write (c.process, c.key) x s.l1)
    (process : ℕ) (key : String) (y : Stored V)
    (hy : t.read .memory process key = some y) : s.read .memory process key = some y ∨
      y = x ∧ Backend.memory.slot process key = Backend.memory.slot c.process c.key := by
  simp only [SharedCache.read, hl1, find_write] at hy
  split at hy
  · rename_i hslot
    exact .inr ⟨(Option.some.inj hy).symm, hslot⟩
  · exact .inl hy

theorem SharedCache.read_writeRedis {R : RedisServer} {x : Stored V}
    (hredis : t.redis = write (R.rk c.key) x s.redis) (process : ℕ) (key : String) (y : Stored V)
    (hy : t.read (.redis R) process key = some y) : s.read (.redis R) process key = some y ∨
      y = x ∧ (Backend.redis R).slot process key = (Backend.redis R).slot c.process c.key := by
  simp only [SharedCache.read, hredis, find_write] at hy
  split at hy
  · rename_i hslot
    exact .inr ⟨(Option.some.inj hy).symm, congrArg (Prod.mk 0) hslot⟩
  · exact .inl hy

/-- Every move of a call keeps the invariant, if it is in time. -/
theorem Stands.move {m : Move V} (h : Stands B s) (hc : s.calls[i]? = some c)
    (heff : MoveEffect B s i c m t) (hguard : InTime B s (.move i m)) :
    Stands B { t with now := s.now + 1 } := by
  have hkeep : ∀ {u : SharedCache V}, u.invalidations = s.invalidations → u.l1 = s.l1 →
      u.redis = s.redis → Entries B u := by
    intro u hinv hl1 hredis
    refine h.entries.of_read hinv fun process key x hx => ?_
    simpa only [SharedCache.read, hl1, hredis] using hx
  have hfollows : c.pc.follows = true → c.leads = false := h.followers i c hc
  have hfound : ∀ {x : Stored V} {began : ℕ}, s.read B c.process c.key = some x →
      x.loaderBegan = some began → Current B s c.process c.key began :=
    fun hread hbegan => h.entries _ _ _ _ hread hbegan
  have hnone : ∀ {pc : Pc V} (began : ℕ), pc.loaderBegan = none → pc.loaderBegan = some began →
      c.pc.loaderBegan = some began ∨ Current B s c.process c.key began ∨
        c.leads = false ∧ Fresh B s c.process c.key c.began began := by
    intro pc began hno hsome
    rw [hno] at hsome
    cases hsome
  cases heff with
  | hit hpc hread =>
    exact h.advance hc rfl rfl rfl (hkeep rfl rfl rfl) rfl
      fun began hb => .inr (.inl (hfound hread hb))
  | missed hpc =>
    exact h.setPc hc rfl rfl (fun _ _ _ => id) (hkeep rfl rfl rfl)
      (fun _ => hfollows (by rw [hpc]; rfl)) (fun began hb => hnone began rfl hb)
      (fun leader hw => by cases hw)
  | follows hpc hflight =>
    refine h.setPc hc rfl rfl (fun _ _ _ => id) (hkeep rfl rfl rfl)
      (fun _ => hfollows (by rw [hpc]; rfl)) (fun began hb => hnone began rfl hb) fun leader hw => ?_
    obtain rfl := Pc.wait.inj hw
    obtain ⟨l, hl, hleads, hprocess, hkey⟩ := h.flights _ _ _ hflight
    obtain ⟨hpcFresh, hpublished⟩ := hguard c hc _ hflight l hl
    refine ⟨l, hl, hleads, hprocess, hkey, ?_⟩
    rintro began (hb | ⟨res, hres, hb⟩)
    · exact hpcFresh began hb
    · exact hpublished res hres began hb
  | leads hpc hflight hnew =>
    rename_i pc
    have hfollows' : pc.follows = false := by rcases hnew with rfl | rfl <;> rfl
    have hholds : pc.loaderBegan = none := by rcases hnew with rfl | rfl <;> rfl
    have hleads : Rewrites s { s with
        flights := write (c.process, c.key) i s.flights
        calls := modifyAt i (fun c => { c with pc := pc, leads := true }) s.calls } i c
        { c with pc := pc, leads := true } := by
      refine ⟨hc, modifyAt_found hc _, rfl, rfl, rfl, rfl, fun _ => rfl, fun hf => ?_⟩
      rw [hfollows'] at hf
      cases hf
    refine h.rewrite hleads (hkeep rfl rfl rfl) (fun process key leader hfind => ?_)
      (fun began hb => ?_) (fun leader hw => ?_)
    · rw [find_write] at hfind
      split at hfind
      · rename_i hslot
        obtain ⟨rfl, rfl⟩ := Prod.mk.inj hslot
        exact .inr ⟨(Option.some.inj hfind).symm, rfl, rfl, rfl⟩
      · exact .inl hfind
    · rcases hb with hb | hb
      · rw [hholds] at hb
        cases hb
      · exact .inl (.inr hb)
    · rcases hnew with rfl | rfl <;> cases hw
  | joined hpc hleader hres =>
    refine h.advance hc rfl rfl rfl (hkeep rfl rfl rfl) rfl fun began hb =>
      .inr (.inr ⟨hfollows (by rw [hpc]; rfl), ?_⟩)
    obtain ⟨l, hl, -, -, -, hfresh⟩ := h.waits i c hc _ hpc
    obtain rfl := Option.some.inj (hl.symm.trans hleader)
    exact hfresh began (.inr ⟨_, hres, hb⟩)
  | gaveUp hpc =>
    exact h.advance hc rfl rfl rfl (hkeep rfl rfl rfl) rfl fun began hb => hnone began rfl hb
  | lockHeld hpc =>
    exact h.advance hc rfl rfl rfl (hkeep rfl rfl rfl) rfl fun began hb => hnone began rfl hb
  | locked hpc =>
    exact h.advance hc rfl rfl rfl (hkeep rfl rfl rfl) rfl fun began hb => hnone began rfl hb
  | pollHit hpc hread =>
    exact h.settle hc false _ rfl rfl rfl (hkeep rfl rfl rfl) fun began hb => .inr (hfound hread hb)
  | pollMissed hpc =>
    refine h.rewrite ⟨hc, fun n => ?_, rfl, rfl, rfl, rfl, id, hfollows⟩ h.entries
      (fun _ _ _ => .inl) (fun began => .inl) (fun leader => .inl)
    split
    · rename_i hn
      rw [hn, hc]
    · rfl
  | stopPolling hpc =>
    exact h.advance hc rfl rfl rfl (hkeep rfl rfl rfl) rfl fun began hb => hnone began rfl hb
  | recheckHit hpc hread =>
    exact h.advance hc rfl rfl rfl (hkeep rfl rfl rfl) rfl
      fun began hb => .inr (.inl (hfound hread hb))
  | recheckMissed hpc =>
    exact h.advance hc rfl rfl rfl (hkeep rfl rfl rfl) rfl fun began hb => hnone began rfl hb
  | begin hpc =>
    refine h.advance hc rfl rfl rfl (hkeep rfl rfl rfl) rfl fun began hb => .inr (.inl ?_)
    obtain rfl := Option.some.inj hb
    exact fun v hv _ _ => (h.clock_le hv).1
  | stores hpc =>
    exact h.advance hc rfl rfl rfl (hkeep rfl rfl rfl) rfl
      fun began hb => .inl (by rw [hpc]; exact hb)
  | uncached hpc =>
    exact h.settle hc _ _ rfl rfl rfl (hkeep rfl rfl rfl) fun began hb => .inl (hpc ▸ hb)
  | raised hpc =>
    exact h.settle hc _ _ rfl rfl rfl (hkeep rfl rfl rfl) fun began hb => by cases hb
  | wroteL1 hpc hB =>
    subst hB
    exact h.settle hc _ _ rfl rfl rfl
      (h.entries.write rfl (SharedCache.read_writeL1 rfl) (hguard rfl c hc _ (by rw [hpc]; rfl)))
      fun began hb => .inl (hpc ▸ hb)
  | wroteCopy hpc hB =>
    subst hB
    exact h.advance hc rfl rfl rfl (h.entries.of_read rfl fun _ _ _ hx => hx) rfl
      fun began hb => .inl (by rw [hpc]; exact hb)
  | wroteRedis hpc hB =>
    subst hB
    exact h.settle hc _ _ rfl rfl rfl
      (h.entries.write rfl (SharedCache.read_writeRedis rfl) (hguard c hc _ (by rw [hpc]; rfl)))
      fun began hb => .inl (hpc ▸ hb)
  | released hpc =>
    exact h.settle hc _ _ rfl rfl rfl (hkeep rfl rfl rfl) fun began hb => .inl (hpc ▸ hb)
  | published hpc =>
    rename_i res
    have hpublished : Rewrites s { s with
        calls := modifyAt i (fun c => { c with pc := .unregister res, published := some res })
          s.calls } i c { c with pc := .unregister res, published := some res } :=
      ⟨hc, modifyAt_found hc _, rfl, rfl, rfl, rfl, id, fun hf => by cases hf⟩
    refine h.rewrite hpublished (hkeep rfl rfl rfl) (fun _ _ _ => .inl)
      (fun began hb => .inl (.inl ?_)) (fun leader hw => by cases hw)
    rw [hpc]
    rcases hb with hb | ⟨res', hres, hb⟩
    · exact hb
    · obtain rfl := Option.some.inj hres
      exact hb
  | unregistered hpc =>
    exact h.setPc hc rfl rfl (fun process key leader hfind =>
      (find_dropWhere_some (p := (· = (c.process, c.key))) hfind).2) (hkeep rfl rfl rfl)
      (fun hf => by cases hf) (fun began hb => .inl (by rw [hpc]; exact hb))
      (fun leader hw => by cases hw)

end Moves

section Sweeps
variable {B : Backend} {s t : SharedCache V} {j : ℕ} {v : Invalidation}

/-- The rule for steps that move no call: what was fresh for a call stays so. -/
theorem Stands.frame (h : Stands B s) (hcalls : t.calls = s.calls)
    (hflights : t.flights = s.flights) (hentries : Entries B t)
    (hclock : ∀ u ∈ t.invalidations, u.began ≤ s.now ∧ ∀ r, u.stage = .returned r → r ≤ s.now)
    (hfresh : ∀ process key before began, before < s.now → Fresh B s process key before began →
      Fresh B t process key before began) : Stands B { t with now := s.now + 1 } := by
  refine ⟨?_, hentries, ?_, ?_, ?_, ?_, ?_⟩
  · intro u hu
    obtain ⟨hbegan, hreturned⟩ := hclock u hu
    exact ⟨Nat.lt_succ_of_le hbegan, fun r hr => Nat.lt_succ_of_le (hreturned r hr)⟩
  · intro i c hc
    exact (h.begun i c (hcalls ▸ hc)).trans (Nat.lt_succ_self _)
  · intro i c hc began hholds
    have hc : s.calls[i]? = some c := hcalls ▸ hc
    exact hfresh _ _ _ _ (h.begun i c hc) (h.held i c hc began hholds)
  · intro i c hc
    exact h.followers i c (hcalls ▸ hc)
  · intro process key leader hfind
    obtain ⟨l, hl⟩ := h.flights process key leader (hflights ▸ hfind)
    exact ⟨l, hcalls ▸ hl⟩
  · intro i c hc leader hpc
    have hc : s.calls[i]? = some c := hcalls ▸ hc
    obtain ⟨l, hl, hleads, hprocess, hkey, hheld⟩ := h.waits i c hc leader hpc
    exact ⟨l, hcalls ▸ hl, hleads, hprocess, hkey, fun began hholds =>
      hfresh _ _ _ _ (h.begun i c hc) (hheld began hholds)⟩

theorem setStage_mem (hv : s.invalidations[j]? = some v) {stage : Stage}
    (hinv : t.invalidations = (s.setStage j stage).invalidations) {u : Invalidation}
    (hu : u ∈ t.invalidations) : u ∈ s.invalidations ∨ u = { v with stage := stage } := by
  obtain ⟨n, hn⟩ := List.mem_iff_getElem?.mp hu
  rw [hinv, SharedCache.setStage, modifyAt_found hv] at hn
  split at hn
  · exact .inr (Option.some.inj hn).symm
  · exact .inl (List.mem_of_getElem? hn)

/-- The rule for the steps of an invalidation. -/
theorem Stands.stage (h : Stands B s) (hv : s.invalidations[j]? = some v) {stage : Stage}
    (hinv : t.invalidations = (s.setStage j stage).invalidations) (hcalls : t.calls = s.calls)
    (hflights : t.flights = s.flights)
    (hread : ∀ process key x, t.read B process key = some x → s.read B process key = some x)
    (hpast : ∀ process key x began, t.read B process key = some x → x.loaderBegan = some began →
      v.covers B process key = true →
      Invalidation.past { v with stage := stage } (B.slot process key).2 = true → v.began ≤ began)
    (hreturned : ∀ r, stage = .returned r → r = s.now) : Stands B { t with now := s.now + 1 } := by
  refine h.frame hcalls hflights ?_ ?_ ?_
  · intro process key x began hx hbegan u hu hcovers hu'
    rcases setStage_mem hv hinv hu with hold | rfl
    · exact h.entries process key x began (hread process key x hx) hbegan u hold hcovers hu'
    · exact hpast process key x began hx hbegan hcovers hu'
  · intro u hu
    rcases setStage_mem hv hinv hu with hold | rfl
    · exact h.clock_le hold
    · exact ⟨(h.clock_le (List.mem_of_getElem? hv)).1, fun r hr => (hreturned r hr).le⟩
  · intro process key before began hbefore hfresh u hu hcovers hdone
    rcases setStage_mem hv hinv hu with hold | rfl
    · exact hfresh u hold hcovers hdone
    · obtain ⟨r, hr, hlt⟩ := Invalidation.returnedBefore_iff.mp hdone
      rw [hreturned r hr] at hlt
      omega

/-- Every step of an invalidation keeps the invariant, if it is in time. -/
theorem Stands.sweep {w : Sweep} (h : Stands B s) (hv : s.invalidations[j]? = some v)
    (heff : SweepEffect B s j v w t) (hguard : InTime B s (.sweep j w)) :
    Stands B { t with now := s.now + 1 } := by
  have hentry : ∀ process key x began, s.read B process key = some x →
      x.loaderBegan = some began → v.covers B process key = true →
      v.past (B.slot process key).2 = true → v.began ≤ began :=
    fun _ _ _ _ hx hbegan hcovers hpast =>
      h.entries _ _ _ _ hx hbegan v (List.mem_of_getElem? hv) hcovers hpast
  cases heff with
  | popped hstage hB =>
    subst hB
    have hdropped : ∀ process key x, find (process, key) (dropWhere (fun slot =>
        slot.1 = v.process && v.target.matches slot.2) s.l1) = some x →
        (process = v.process && v.target.matches key) = false ∧
          find (process, key) s.l1 = some x := fun process key x hx => find_dropWhere_some hx
    refine h.stage hv rfl rfl rfl (fun process key x hx => (hdropped process key x hx).2)
      (fun process key x began hx _ hcovers _ => ?_) (fun r hr => by cases hr)
    have hmissed := (hdropped process key x hx).1
    rw [Invalidation.covers, Bool.and_eq_true, decide_eq_true_eq] at hcovers
    rw [hcovers.1, hcovers.2] at hmissed
    simp at hmissed
  | poppedCopy hstage hB =>
    subst hB
    exact h.stage hv rfl rfl rfl (fun _ _ _ hx => hx) (fun _ _ _ _ _ _ _ hpast => by cases hpast)
      (fun r hr => by cases hr)
  | deleted hstage htarget hB =>
    rename_i R name
    subst hB
    have hdropped : ∀ key x, find (R.rk key) (dropWhere (· = R.rk name) s.redis) = some x →
        decide (R.rk key = R.rk name) = false ∧ find (R.rk key) s.redis = some x :=
      fun key x hx => find_dropWhere_some hx
    refine h.stage hv rfl rfl rfl (fun process key x hx => (hdropped key x hx).2)
      (fun process key x began hx _ hcovers _ => ?_) (fun r hr => by cases hr)
    have hmissed := (hdropped key x hx).1
    rw [Invalidation.covers, htarget, Target.matches, decide_eq_true_eq] at hcovers
    rw [hcovers] at hmissed
    simp at hmissed
  | scanned hstage htarget hB =>
    rename_i R start
    subst hB
    refine h.stage hv rfl rfl rfl (fun _ _ _ hx => hx)
      (fun process key x began hx _ hcovers hpast => ?_) (fun r hr => by cases hr)
    rw [Invalidation.covers, htarget] at hcovers
    have hmem := mem_keys_of_find hx
    have hmatch := hguard R rfl v hv start htarget key hcovers hmem
    have hmissed : R.rk key ∉ (keys s.redis).filter fun slot =>
        R.globMatch (R.rk start ++ "*") slot := of_decide_eq_true hpast
    exact absurd (List.mem_filter.mpr ⟨hmem, hmatch⟩) hmissed
  | deletedScanned hstage hB =>
    rename_i R left slot
    subst hB
    have hdropped : ∀ key x, find (R.rk key) (dropWhere (· = slot) s.redis) = some x →
        decide (R.rk key = slot) = false ∧ find (R.rk key) s.redis = some x :=
      fun key x hx => find_dropWhere_some hx
    refine h.stage hv rfl rfl rfl (fun process key x hx => (hdropped key x hx).2)
      (fun process key x began hx hbegan hcovers hpast => ?_) (fun r hr => by cases hr)
    obtain ⟨hne, hread⟩ := hdropped key x hx
    refine hentry process _ _ _ hread hbegan hcovers ?_
    have hleft : R.rk key ∉ left.filter (· ≠ slot) := of_decide_eq_true hpast
    rw [Invalidation.past, hstage]
    refine decide_eq_true fun hmem => hleft (List.mem_filter.mpr ⟨hmem, ?_⟩)
    simpa using hne
  | finished hstage =>
    refine h.stage hv rfl rfl rfl (fun _ _ _ hx => hx)
      (fun process key x began hx hbegan hcovers _ => hentry _ _ _ _ hx hbegan hcovers ?_)
      (fun r hr => (Stage.returned.inj hr).symm)
    rw [Invalidation.past, hstage]
    rfl

end Sweeps

section Runs
variable {B : Backend} {s t : SharedCache V}

/-- A call that begins holds nothing and follows nobody. -/
theorem Stands.append (h : Stands B s) {c : Call V} (hbegan : c.began = s.now)
    (hleads : c.leads = false) (hholds : ∀ began, ¬ c.Holds began)
    (hwait : ∀ leader, c.pc ≠ .wait leader) (hcalls : t.calls = s.calls ++ [c])
    (hinv : t.invalidations = s.invalidations) (hflights : t.flights = s.flights)
    (hread : ∀ process key x, t.read B process key = some x → s.read B process key = some x) :
    Stands B { t with now := s.now + 1 } := by
  have hold : ∀ {n : ℕ} {d : Call V}, s.calls[n]? = some d → t.calls[n]? = some d := by
    intro n d hd
    rw [hcalls, List.getElem?_append_left (List.getElem?_eq_some_iff.mp hd).1, hd]
  have hat : ∀ (n : ℕ) (d : Call V), t.calls[n]? = some d → s.calls[n]? = some d ∨ d = c := by
    intro n d hd
    rw [hcalls, List.getElem?_append] at hd
    split at hd
    · exact .inl hd
    · exact .inr (List.mem_singleton.mp (List.mem_of_getElem? hd))
  refine ⟨h.clock_succ hinv, h.entries.of_read hinv hread, ?_, ?_, ?_, ?_, ?_⟩
  · intro n d hd
    rcases hat n d hd with hd | rfl
    · exact (h.begun n d hd).trans (Nat.lt_succ_self _)
    · exact hbegan ▸ Nat.lt_succ_self _
  · intro n d hd began hd'
    rcases hat n d hd with hd | rfl
    · exact (h.held n d hd began hd').congr hinv
    · exact (hholds began hd').elim
  · intro n d hd hpc
    rcases hat n d hd with hd | rfl
    · exact h.followers n d hd hpc
    · exact hleads
  · intro process key leader hfind
    obtain ⟨l, hl, hrest⟩ := h.flights process key leader (hflights ▸ hfind)
    exact ⟨l, hold hl, hrest⟩
  · intro n d hd leader hpc
    rcases hat n d hd with hd | rfl
    · obtain ⟨l, hl, hleads, hprocess, hkey, hfresh⟩ := h.waits n d hd leader hpc
      exact ⟨l, hold hl, hleads, hprocess, hkey, fun began hb => (hfresh began hb).congr hinv⟩
    · exact (hwait leader hpc).elim

theorem Stands.invalidate (h : Stands B s) (process : ℕ) (target : Target) :
    Stands B { s with
      invalidations := s.invalidations ++ [⟨process, target, s.now, .begun⟩]
      now := s.now + 1 } := by
  have hmem : ∀ u ∈ s.invalidations ++ [⟨process, target, s.now, .begun⟩],
      u ∈ s.invalidations ∨ u = ⟨process, target, s.now, .begun⟩ := by
    intro u hu
    rcases List.mem_append.mp hu with hold | hnew
    · exact .inl hold
    · exact .inr (List.mem_singleton.mp hnew)
  refine h.frame (t := { s with
    invalidations := s.invalidations ++ [⟨process, target, s.now, .begun⟩] }) rfl rfl ?_ ?_ ?_
  · intro process key x began hx hbegan u hu hcovers hpast
    rcases hmem u hu with hold | rfl
    · exact h.entries process key x began hx hbegan u hold hcovers hpast
    · cases hpast
  · intro u hu
    rcases hmem u hu with hold | rfl
    · exact h.clock_le hold
    · exact ⟨le_rfl, fun r hr => by cases hr⟩
  · intro process key before began _ hfresh u hu hcovers hdone
    rcases hmem u hu with hold | rfl
    · exact hfresh u hold hcovers hdone
    · cases hdone

/-- Entries and locks that expire take nothing fresh away. -/
theorem Stands.expire (h : Stands B s) (hcalls : t.calls = s.calls)
    (hflights : t.flights = s.flights) (hinv : t.invalidations = s.invalidations)
    (hread : ∀ process key x, t.read B process key = some x → s.read B process key = some x) :
    Stands B { t with now := s.now + 1 } := by
  exact h.frame hcalls hflights (h.entries.of_read hinv hread)
    (fun u hu => h.clock_le (hinv ▸ hu)) fun _ _ _ _ _ hfresh => hfresh.congr hinv

theorem Stands.step {a : Act V} (h : Stands B s) (hguard : InTime B s a)
    (hstep : s.step B a = some t) : Stands B t := by
  obtain ⟨t₀, heff, rfl⟩ := step_effect hstep
  cases heff with
  | called hpc =>
    refine h.append rfl rfl ?_ ?_ rfl rfl rfl fun _ _ _ hx => hx
    · rintro began (hb | ⟨res, hres, -⟩)
      · rcases hpc with rfl | rfl <;> cases hb
      · cases hres
    · rintro leader hw
      rcases hpc with rfl | rfl <;> cases hw
  | put =>
    refine h.append rfl rfl ?_ ?_ rfl rfl rfl fun _ _ _ hx => hx
    · rintro began (hb | ⟨res, hres, -⟩)
      · cases hb
      · cases hres
    · rintro leader hw
      cases hw
  | moved hc hmove => exact h.move hc hmove hguard
  | invalidated => exact h.invalidate _ _
  | swept hv hsweep => exact h.sweep hv hsweep hguard
  | l1Expired =>
    refine h.expire rfl rfl rfl fun process key x hx => ?_
    cases B with
    | memory =>
      simp only [SharedCache.read] at hx ⊢
      exact (find_dropWhere_some hx).2
    | redis R => exact hx
  | redisExpired =>
    refine h.expire rfl rfl rfl fun process key x hx => ?_
    cases B with
    | memory => exact hx
    | redis R =>
      simp only [SharedCache.read] at hx ⊢
      exact (find_dropWhere_some hx).2
  | lockExpired => exact h.expire rfl rfl rfl fun _ _ _ hx => hx

theorem run_stands {redis : List (String × Stored V)} {tr : List (Act V)}
    (run : Steps (Guarded (Takes (SharedCache.step B)) (InTime B)) (.start redis) tr s) :
    Stands B s := by
  refine run.stable ?_ fun s a t h hstep => h.step hstep.1 hstep.2
  have hnocall : ∀ (i : ℕ) (c : Call V), (SharedCache.start redis).calls[i]? ≠ some c := by
    intro i c hc
    simp [SharedCache.start] at hc
  refine ⟨fun v hv => ?_, fun _ _ _ _ _ _ v hv => ?_, fun i c hc => (hnocall i c hc).elim,
    fun i c hc => (hnocall i c hc).elim, fun i c hc => (hnocall i c hc).elim,
    fun _ _ _ hfind => ?_, fun i c hc => (hnocall i c hc).elim⟩
  · cases hv
  · cases hv
  · cases hfind

/-- An invalidated entry stays invalidated: in every run whose steps are in time, a call
that began after a covering invalidation had returned never returns a value whose loader
began before that invalidation. -/
theorem invalidated_stays_invalidated {redis : List (String × Stored V)} {tr : List (Act V)}
    (run : Steps (Guarded (Takes (SharedCache.step B)) (InTime B)) (.start redis) tr s)
    {i : ℕ} {c : Call V} (hc : s.calls[i]? = some c) {x : Stored V}
    (hreturned : c.pc = .returned (.value x)) {began : ℕ} (hloader : x.loaderBegan = some began)
    {v : Invalidation} (hv : v ∈ s.invalidations) (hcovers : v.covers B c.process c.key = true)
    {r : ℕ} (hdone : v.stage = .returned r) (hbefore : r < c.began) : v.began ≤ began := by
  refine (run_stands run).held i c hc began (.inl ?_) v hv hcovers
    (Invalidation.returnedBefore_iff.mpr ⟨r, hdone, hbefore⟩)
  rw [hreturned]
  exact hloader

end Runs

section Example

instance (B : Backend) (s : SharedCache V) (process : ℕ) (key : String) (began : ℕ) :
    Decidable (Current B s process key began) :=
  inferInstanceAs (Decidable (∀ v ∈ s.invalidations, _ → _ → _))

instance (B : Backend) (s : SharedCache V) (process : ℕ) (key : String) (before began : ℕ) :
    Decidable (Fresh B s process key before began) :=
  inferInstanceAs (Decidable (∀ v ∈ s.invalidations, _ → _ → _))

instance (s : SharedCache V) (c : Call V) (x : Stored V) : Decidable (Storable .memory s c x) :=
  decidable_of_iff (∀ began ∈ x.loaderBegan, Current .memory s c.process c.key began) (by
    refine ⟨fun h began hb process key hslot => ?_, fun h began hb => h began hb _ _ rfl⟩
    obtain ⟨rfl, rfl⟩ := Prod.mk.inj hslot
    exact h began hb)

instance (s : SharedCache V) (i : ℕ) : Decidable (StoresCurrent .memory s i) :=
  inferInstanceAs (Decidable (∀ c ∈ s.calls[i]?, ∀ x ∈ c.pc.writing, Storable .memory s c x))

instance (B : Backend) (s : SharedCache V) (i : ℕ) : Decidable (JoinsFresh B s i) :=
  inferInstanceAs (Decidable (∀ c ∈ s.calls[i]?, ∀ leader ∈ find (c.process, c.key) s.flights,
    ∀ l ∈ s.calls[leader]?, _ ∧ ∀ res ∈ l.published, _))

instance (s : SharedCache V) (a : Act V) : Decidable (InTime .memory s a) :=
  match a with
  | .move i .writeL1 => decidable_of_iff (StoresCurrent .memory s i) ⟨fun h _ => h, fun h => h rfl⟩
  | .move i .writeRedis => inferInstanceAs (Decidable (StoresCurrent .memory s i))
  | .move i .enter => inferInstanceAs (Decidable (JoinsFresh .memory s i))
  | .sweep _ .scan => .isTrue fun _ hB => (by cases hB)
  | .move _ (.read _) | .move _ .joined | .move _ .gaveUp | .move _ .lock | .move _ (.poll _)
  | .move _ .stopPolling | .move _ (.recheck _) | .move _ .begin | .move _ (.loaded _ _)
  | .move _ .raised | .move _ .release | .move _ .publish | .move _ .unregister
  | .sweep _ .pop | .sweep _ .delete | .sweep _ (.deleteScanned _) | .sweep _ .finish
  | .call .. | .put .. | .invalidate .. | .expireL1 .. | .expireRedis _ | .expireLock _ =>
    .isTrue trivial

/-- A call that loads: it misses, leads, loads, stores and publishes. -/
def loadingCall (i : ℕ) (value : ℕ) : List (Act ℕ) :=
  [.move i (.read true), .move i .enter, .move i .begin, .move i (.loaded value true),
    .move i .writeL1, .move i .publish, .move i .unregister]

/-- After an invalidation the next call loads again. -/
theorem invalidated_stays_invalidated_reload :
    ∃ (s : SharedCache ℕ) (c : Call ℕ) (x : Stored ℕ) (v : Invalidation), s.calls[1]? = some c ∧
      c.pc = .returned (.value x) ∧ v ∈ s.invalidations ∧ x.loaderBegan = some 14 ∧ v.began ≤ 14 := by
  obtain ⟨s, run, -, hp⟩ := exists_play (gated (SharedCache.step .memory) (InTime .memory))
    (.start []) ([.call 0 "inventory" false] ++ loadingCall 0 7 ++
      [.invalidate 0 (.entry "inventory"), .sweep 0 .pop, .sweep 0 .finish,
        .call 0 "inventory" false] ++ loadingCall 1 8)
    (fun s => s.calls[1]? = some ⟨0, "inventory", false, 11, .returned (.value ⟨8, some 14⟩), true,
        some (.value ⟨8, some 14⟩)⟩ &&
      s.invalidations = [⟨0, .entry "inventory", 8, .returned 10⟩]) (by decide +kernel)
  rw [Bool.and_eq_true, decide_eq_true_eq, decide_eq_true_eq] at hp
  obtain ⟨hc, hinv⟩ := hp
  have hv : ⟨0, .entry "inventory", 8, .returned 10⟩ ∈ s.invalidations := by
    rw [hinv]
    exact List.mem_singleton.mpr rfl
  exact ⟨s, _, _, _, hc, rfl, hv, rfl, invalidated_stays_invalidated
    (run.mono fun _ _ _ => gated_guarded) hc rfl rfl hv (by decide +kernel) rfl (by decide)⟩

/-- A load in flight when its entry is invalidated stores its value behind the
invalidation, and a call that begins afterwards is served it. -/
theorem stale_value_put_back :
    ∃ (s : SharedCache ℕ) (tr : List (Act ℕ)) (c : Call ℕ) (x : Stored ℕ) (v : Invalidation),
      Steps (Takes (SharedCache.step .memory)) (.start []) tr s ∧ s.calls[1]? = some c ∧
      c.pc = .returned (.value x) ∧ x.loaderBegan = some 3 ∧ v ∈ s.invalidations ∧
      v.covers .memory c.process c.key = true ∧ v.began = 4 ∧ v.stage = .returned 6 ∧
      c.began = 11 := by
  obtain ⟨s, run, -, hp⟩ := exists_play (SharedCache.step .memory) (.start [])
    [.call 0 "inventory" false, .move 0 (.read true), .move 0 .enter, .move 0 .begin,
      .invalidate 0 (.entry "inventory"), .sweep 0 .pop, .sweep 0 .finish,
      .move 0 (.loaded 7 true), .move 0 .writeL1, .move 0 .publish, .move 0 .unregister,
      .call 0 "inventory" false, .move 1 (.read true)]
    (fun s => s.calls[1]? = some ⟨0, "inventory", false, 11, .returned (.value ⟨7, some 3⟩), false,
        none⟩ && s.invalidations = [⟨0, .entry "inventory", 4, .returned 6⟩]) (by decide +kernel)
  rw [Bool.and_eq_true, decide_eq_true_eq, decide_eq_true_eq] at hp
  obtain ⟨hc, hinv⟩ := hp
  exact ⟨s, _, _, _, ⟨0, .entry "inventory", 4, .returned 6⟩, run, hc, rfl, rfl,
    hinv ▸ List.mem_singleton.mpr rfl, by decide +kernel, rfl, rfl, rfl⟩

end Example

end MonitoringHub.Cache
