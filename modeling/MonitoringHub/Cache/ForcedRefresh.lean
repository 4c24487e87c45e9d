import MonitoringHub.Cache.CallSteps

/-! A forced refresh. A call made with `bypass` skips every look at the cache of its own,
but it joins whatever flight is under way for its key. What it returns is as new as the
call as long as the flights it joins are. -/

namespace MonitoringHub.Cache
open Lib Lib.KeyedStore Lib.RowTable

section Refresh
variable {V : Type} {B : Backend} {s t : SharedCache V} {c d : Call V} {m : Move V}

/-- No loader of the result began before `moment`. -/
def Result.Since (moment : ℕ) (res : Result V) : Prop :=
  ∀ began, res.loaderBegan = some began → moment ≤ began

/-- Nothing older than `moment` can come of the call any more: it is past the cache or never
looks there, and its loader has not begun or began no earlier. -/
def Pc.Since (moment : ℕ) (bypass : Bool) : Pc V → Prop
  | .read | .enter | .wait _ => False
  | .lock | .poll | .recheck => bypass = true
  | .load _ => True
  | .loading _ began => moment ≤ began
  | .writeL1 _ x | .writeRedis _ x => Result.Since moment (.value x)
  | .release res | .publish res | .unregister res | .returned res => res.Since moment

structure Call.Since (moment : ℕ) (c : Call V) : Prop where
  pc : c.pc.Since moment c.bypass
  published : ∀ res, c.published = some res → res.Since moment

theorem Call.settle_since {moment : ℕ} {bypass : Bool} (c : Call V) (token : Bool)
    {res : Result V} (h : res.Since moment) : (c.settle token res).Since moment bypass := by
  unfold Call.settle
  split
  · exact h
  · split <;> exact h

/-- A call past the cache stays as new as it is. -/
theorem Goes.pc_since {moment : ℕ} (h : Goes B s c m d) (hnow : moment ≤ s.now)
    (hpc : c.pc.Since moment c.bypass) : d.pc.Since moment d.bypass := by
  cases h with
  | hit h' | missed h' | follows h' | leads h' | joined h' | gaveUp h' =>
    rw [h'] at hpc
    exact hpc.elim
  | lockHeld h' | locked h' | wroteCopy h' | published h' | unregistered h' =>
    rw [h'] at hpc
    exact hpc
  | pollHit h' hno | recheckHit h' hno =>
    rw [h', hno] at hpc
    cases hpc
  | pollMissed h' => exact hpc
  | stopPolling | recheckMissed => exact trivial
  | begin => exact hnow
  | stores h' =>
    rw [h'] at hpc
    exact fun began hb => Option.some.inj hb ▸ hpc
  | uncached h' =>
    rw [h'] at hpc
    exact c.settle_since _ fun began hb => Option.some.inj hb ▸ hpc
  | raised => exact c.settle_since _ fun began hb => by cases hb
  | wroteL1 h' | wroteRedis h' =>
    rw [h'] at hpc
    exact c.settle_since _ hpc
  | @released res h' =>
    rw [h'] at hpc
    exact c.settle_since false (show res.Since moment from hpc)

theorem Goes.since {moment : ℕ} (h : Goes B s c m d) (hnow : moment ≤ s.now)
    (hc : c.Since moment) : d.Since moment := by
  refine ⟨h.pc_since hnow hc.pc, ?_⟩
  cases h with
  | published h' =>
    have hpc := hc.pc
    rw [h'] at hpc
    exact fun res hres => Option.some.inj hres ▸ hpc
  | _ => exact hc.published

/-- The flight a forced refresh joins is past the cache, or led by another forced refresh,
and its loader has not begun before the refresh. -/
def JoinsInTime (s : SharedCache V) : Act V → Prop
  | .move i .enter => ∀ c, s.calls[i]? = some c → c.bypass = true →
      ∀ leader, find (c.process, c.key) s.flights = some leader →
      ∀ l, s.calls[leader]? = some l → l.Since c.began
  | _ => True

/-- Where a forced refresh stands: about to enter, waiting for a flight that is new enough,
or past the cache itself. -/
inductive Refreshing (s : SharedCache V) (c : Call V) : Prop
  | entering (hpc : c.pc = .enter)
  | waiting {leader : ℕ} {l : Call V} (hpc : c.pc = .wait leader)
      (hl : s.calls[leader]? = some l) (hsince : l.Since c.began)
  | loading (hsince : c.pc.Since c.began true)

structure Refreshed (s : SharedCache V) : Prop where
  begun : ∀ (i : ℕ) (c : Call V), s.calls[i]? = some c → c.began ≤ s.now
  flights : ∀ slot leader, find slot s.flights = some leader → ∃ l : Call V,
    s.calls[leader]? = some l
  bypass : ∀ (i : ℕ) (c : Call V), s.calls[i]? = some c → c.bypass = true → Refreshing s c

/-- One move of a forced refresh, seen from the state it is made in. -/
theorem Goes.refreshing {i : ℕ} (h : Goes B s c m d) (hs : Refreshed s)
    (hc : s.calls[i]? = some c) (hbypass : c.bypass = true) (hjoins : JoinsInTime s (.move i m)) :
    Refreshing s d := by
  cases hs.bypass i c hc hbypass with
  | entering hpc =>
    cases h with
    | @follows leader h' hflight =>
      obtain ⟨l, hl⟩ := hs.flights _ _ hflight
      exact .waiting rfl hl (hjoins c hc hbypass leader hflight l hl)
    | leads h' hflight hnew =>
      rcases hnew with ⟨rfl, -⟩ | ⟨rfl, -⟩
      · exact .loading trivial
      · exact .loading rfl
    | _ => simp_all
  | waiting hpc hl hsince =>
    cases h with
    | joined h' hleader hres =>
      obtain rfl := Pc.wait.inj (hpc.symm.trans h')
      obtain rfl := Option.some.inj (hl.symm.trans hleader)
      exact .loading (hsince.published _ hres)
    | gaveUp h' => exact .loading trivial
    | _ => simp_all
  | loading hsince =>
    refine .loading ?_
    rw [← hbypass] at hsince
    rw [h.began, ← hbypass, ← h.bypass]
    exact h.pc_since (hs.begun i c hc) hsince

/-- Every step keeps a refresh where it stands, whoever takes it. -/
theorem Refreshing.step {a : Act V} (h : s.step B a = some t)
    (hbegan : c.began ≤ s.now) (hc : Refreshing s c) : Refreshing t c := by
  cases hc with
  | entering hpc => exact .entering hpc
  | waiting hpc hl hsince =>
    obtain ⟨l', hl', ⟨rfl, -⟩ | ⟨m, -, hgoes⟩⟩ := step_target h hl
    · exact .waiting hpc hl' hsince
    · exact .waiting hpc hl' (hgoes.since hbegan hsince)
  | loading hsince => exact .loading hsince

theorem Begins.refreshing {a : Act V} (h : Begins s a c) (hbypass : c.bypass = true) :
    Refreshing t c := by
  cases h with
  | called hpc =>
    rcases hpc with ⟨rfl, -⟩ | ⟨-, hno⟩
    · exact .entering rfl
    · cases hno.symm.trans hbypass
  | put => cases hbypass

theorem Refreshed.step {a : Act V} (hs : Refreshed s)
    (hstep : Guarded (Takes (SharedCache.step B)) JoinsInTime s a t) : Refreshed t := by
  obtain ⟨hjoins, h⟩ := hstep
  have hnow := step_now h
  refine ⟨fun n d hd => ?_, fun slot leader hfind => ?_, fun n d hd hbypass => ?_⟩
  · rcases step_source h hd with ⟨hd, -⟩ | ⟨-, hc, hgoes⟩ | ⟨-, hbegins⟩
    · exact (hs.begun n d hd).trans (by omega)
    · rw [hgoes.began]
      exact (hs.begun n _ hc).trans (by omega)
    · cases hbegins <;> exact hnow ▸ Nat.le_succ _
  · have hfound : ∃ l : Call V, s.calls[leader]? = some l := by
      rcases step_flight h hfind with hold | ⟨l, hl, -⟩
      · exact hs.flights slot leader hold
      · exact ⟨l, hl⟩
    obtain ⟨l, hl⟩ := hfound
    obtain ⟨l', hl', -⟩ := step_target h hl
    exact ⟨l', hl'⟩
  · rcases step_source h hd with ⟨hd, -⟩ | ⟨ha, hc, hgoes⟩ | ⟨-, hbegins⟩
    · exact (hs.bypass n d hd hbypass).step h (hs.begun n d hd)
    · have hr := hgoes.refreshing hs hc (hgoes.bypass ▸ hbypass) (ha ▸ hjoins)
      exact hr.step h (hgoes.began ▸ hs.begun n _ hc)
    · exact hbegins.refreshing hbypass

/-- Where every flight a forced refresh joins is in time, a forced refresh returns nothing whose
loader began before the refresh did. -/
theorem forced_refresh_fresh (B : Backend) (redis : List (String × Stored V)) (tr : List (Act V))
    (s : SharedCache V)
    (run : Steps (Guarded (Takes (SharedCache.step B)) JoinsInTime) (.start redis) tr s) :
    ∀ (i : ℕ) (c : Call V) (x : Stored V) (began : ℕ), s.calls[i]? = some c → c.bypass = true →
      c.pc = .returned (.value x) → x.loaderBegan = some began → c.began ≤ began := by
  intro i c x began hc hbypass hpc hbegan
  have hs : Refreshed s := run.stable (P := Refreshed)
    ⟨fun _ _ h => (Option.some_ne_none _ h.symm).elim,
      fun _ _ h => (Option.some_ne_none _ h.symm).elim,
      fun _ _ h => (Option.some_ne_none _ h.symm).elim⟩ fun _ _ _ h hstep => h.step hstep
  cases hs.bypass i c hc hbypass with
  | entering h => cases hpc.symm.trans h
  | waiting h => cases hpc.symm.trans h
  | loading hsince =>
    rw [hpc] at hsince
    exact hsince began hbegan

end Refresh

section Example

def Call.alone (s : SharedCache ℕ) (c : Call ℕ) : Bool :=
  !c.bypass || (find (c.process, c.key) s.flights).isNone

/-- No flight is under way where a forced refresh enters. -/
def entersAlone (s : SharedCache ℕ) : Act ℕ → Bool
  | .move i .enter => s.calls[i]?.all (Call.alone s)
  | _ => true

abbrev EntersAlone (s : SharedCache ℕ) (a : Act ℕ) : Prop := entersAlone s a = true

theorem EntersAlone.joinsInTime {s : SharedCache ℕ} {a : Act ℕ} (h : EntersAlone s a) :
    JoinsInTime s a := by
  unfold JoinsInTime
  split
  · intro c hc hbypass leader hfind
    change s.calls[_]?.all (Call.alone s) = true at h
    rw [hc, Option.all_some, Call.alone, hbypass, hfind] at h
    cases h
  · trivial

/-- Leading, loading and storing, from a call that is about to enter. -/
def leadingMoves (i value : ℕ) : List (Act ℕ) :=
  [.move i .enter, .move i .begin, .move i (.loaded value true), .move i .writeL1,
    .move i .publish, .move i .unregister]

theorem forced_refresh_fresh_alone : ∃ (s : SharedCache ℕ) (c : Call ℕ) (x : Stored ℕ),
    s.calls[1]? = some c ∧ c.pc = .returned (.value x) ∧ x.loaderBegan = some 10 ∧
      c.began ≤ 10 := by
  obtain ⟨s, run, -, hp⟩ := exists_play (gated (SharedCache.step .memory) EntersAlone) (.start [])
    ([.call 0 "inventory" false, .move 0 (.read true)] ++ leadingMoves 0 7 ++
      [.call 0 "inventory" true] ++ leadingMoves 1 8)
    (fun s => s.calls[1]? = some ⟨0, "inventory", true, 8, .returned (.value ⟨8, some 10⟩), true,
        some (.value ⟨8, some 10⟩)⟩) (by decide +kernel)
  have hc := of_decide_eq_true hp
  have hrun := run.mono fun _ _ _ h => (gated_guarded h).imp EntersAlone.joinsInTime id
  exact ⟨s, _, _, hc, rfl, rfl, forced_refresh_fresh .memory [] _ s hrun 1 _ _ _ hc rfl rfl rfl⟩

/-- A forced refresh that joins a load already under way returns what that load returns. -/
theorem forced_refresh_joins_older : ∃ (s : SharedCache ℕ) (tr : List (Act ℕ)) (c : Call ℕ)
    (x : Stored ℕ) (began : ℕ), Steps (Takes (SharedCache.step .memory)) (.start []) tr s ∧
      s.calls[1]? = some c ∧ c.bypass = true ∧ c.pc = .returned (.value x) ∧
      x.loaderBegan = some began ∧ began < c.began := by
  obtain ⟨s, run, -, hp⟩ := exists_play (SharedCache.step .memory) (.start [])
    [.call 0 "inventory" false, .move 0 (.read true), .move 0 .enter, .move 0 .begin,
      .call 0 "inventory" true, .move 1 .enter, .move 0 (.loaded 7 true), .move 0 .writeL1,
      .move 0 .publish, .move 1 .joined]
    (fun s => s.calls[1]? = some ⟨0, "inventory", true, 4, .returned (.value ⟨7, some 3⟩), false,
        none⟩) (by decide +kernel)
  exact ⟨s, _, _, _, 3, run, of_decide_eq_true hp, rfl, rfl, rfl, by decide⟩

end Example

end MonitoringHub.Cache
