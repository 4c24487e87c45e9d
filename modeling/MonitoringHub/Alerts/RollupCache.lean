import MonitoringHub.Lib.StepRun
import MonitoringHub.Alerts.Rollup

/-! The rollup that every worker keeps, and the fingerprint of the open alerts by which it decides
whether to compute it again. A call reads the fingerprint, then the clock, then its worker's copy;
writes and the other calls go on between these. -/

namespace MonitoringHub.Alerts
open Lib Lib.Text

def timeBasedTtl : ℕ := 5

/-- An alert with the flag that only the fingerprint reads. -/
structure FlaggedAlert extends StoredAlert where
  markedFalsePositive : Bool
  deriving DecidableEq, Repr

structure AlertTables where
  activeAccounts : List ℕ
  resources : List ResourceRow
  alerts : List FlaggedAlert

def AlertTables.openAlerts (db : AlertTables) : OpenAlerts :=
  ⟨db.activeAccounts, db.resources, db.alerts.map FlaggedAlert.toStoredAlert⟩

structure Fingerprint where
  n : ℕ
  maxId : ℕ
  nActive : ℕ
  nAck : ℕ
  nCrit : ℕ
  nSilenced : ℕ
  nFp : ℕ
  nMuted : ℕ
  mutedSum : ℕ
  ackIds : ℕ
  acctMax : ℕ
  deriving DecidableEq, Repr

/-- `alerts_fingerprint`; a null severity counts for nothing. -/
def alertsFingerprint (db : AlertTables) : Fingerprint :=
  let rows := db.alerts.filter fun a => a.status == .active || a.status == .acknowledged
  { n := rows.length
    maxId := (rows.map fun a => a.id).foldl max 0
    nActive := rows.countP fun a => a.status == .active
    nAck := rows.countP fun a => a.status == .acknowledged
    nCrit := rows.countP fun a => a.severity.any fun sev => upper sev == "CRITICAL"
    nSilenced := rows.countP fun a => a.silenced
    nFp := rows.countP fun a => a.markedFalsePositive
    nMuted := rows.countP fun a => a.mutedUntil.isSome
    mutedSum := (rows.map fun a => a.mutedUntil.getD 0).sum
    ackIds := ((rows.filter fun a => a.status == .acknowledged).map fun a => a.id).sum
    acctMax := (rows.map fun a => a.accountId).foldl max 0 }

/-- The rollup of the tables at an instant, over all accounts. -/
def rollupAt (staleMinutes : ResourceRow → StoredAlert → ℕ) (time : ℕ) (db : AlertTables) :
    Rollup :=
  rollup (fetchOpenAlertRows time staleMinutes db.openAlerts none)

structure Moment where
  time : ℕ
  tables : AlertTables

/-- The source keeps the fingerprint and the rollup; the moment its rows were read is for the
statements. -/
structure Reading where
  fp : Fingerprint
  data : Rollup
  readFrom : Moment

structure CachedRollup where
  reading : Reading
  ts : ℕ

inductive Stage
  | entered
  | fingerprinted (fp : Fingerprint)
  | clocked (fp : Fingerprint) (time : ℕ)
  | missed (fp : Fingerprint)
  | computed (r : Reading)
  | returned (data : Rollup)

/-- A call with the moments that have been since it began. -/
structure CacheCall where
  worker : ℕ
  stage : Stage
  seen : List Moment

structure CacheRun where
  tables : AlertTables
  now : ℕ
  workers : List (Option CachedRollup)
  calls : List CacheCall

inductive CacheAct
  | write (db : AlertTables)
  | elapse (seconds : ℕ)
  | clear (w : ℕ)
  | call (w : ℕ)
  | proceed (i : ℕ)

def CacheCall.see (m : Moment) (k : CacheCall) : CacheCall :=
  match k.stage with
  | .returned _ => k
  | _ => { k with seen := m :: k.seen }

namespace CacheRun
variable (staleMinutes : ResourceRow → StoredAlert → ℕ)

def start (tables : AlertTables) (now workers : ℕ) : CacheRun :=
  ⟨tables, now, List.replicate workers none, []⟩

def moment (s : CacheRun) : Moment := ⟨s.now, s.tables⟩

def observe (s : CacheRun) : CacheRun := { s with calls := s.calls.map (CacheCall.see s.moment) }

def cached (s : CacheRun) (w : ℕ) : Option CachedRollup := (s.workers[w]?).join

/-- The worker's copy, if `get` may return it. -/
def servable (s : CacheRun) (w : ℕ) (fp : Fingerprint) (time : ℕ) : Option CachedRollup :=
  (s.cached w).bind fun c =>
    if time < c.ts + timeBasedTtl ∧ c.reading.fp = fp then some c else none

def setStage (s : CacheRun) (i : ℕ) (k : CacheCall) (stage : Stage) : CacheRun :=
  { s with calls := s.calls.set i { k with stage } }

/-- `FingerprintCache.get`, one stage of one call. -/
def proceed (s : CacheRun) (i : ℕ) (k : CacheCall) : Option CacheRun :=
  match k.stage with
  | .entered => some (s.setStage i k (.fingerprinted (alertsFingerprint s.tables)))
  | .fingerprinted fp => some (s.setStage i k (.clocked fp s.now))
  | .clocked fp time =>
    match s.servable k.worker fp time with
    | some c => some (s.setStage i k (.returned c.reading.data))
    | none => some (s.setStage i k (.missed fp))
  | .missed fp =>
    some (s.setStage i k (.computed ⟨fp, rollupAt staleMinutes s.now s.tables, s.moment⟩))
  | .computed r =>
    some { s.setStage i k (.returned r.data) with
      workers := s.workers.set k.worker (some ⟨r, s.now⟩) }
  | .returned _ => none

def step (s : CacheRun) : CacheAct → Option CacheRun
  | .write db => some { s with tables := db }.observe
  | .elapse seconds => some { s with now := s.now + seconds }.observe
  | .clear w => some { s with workers := s.workers.set w none }
  | .call w => some { s with calls := s.calls ++ [⟨w, .entered, [s.moment]⟩] }
  | .proceed i => s.calls[i]?.bind (s.proceed staleMinutes i)

/-! ### What is asked of an answer -/

/-- Some tables of the time of the call have this rollup, at an instant at most `timeBasedTtl`
seconds before they were seen. -/
def Current (k : CacheCall) (data : Rollup) : Prop :=
  ∃ m ∈ k.seen, ∃ time, time ≤ m.time ∧ m.time ≤ time + timeBasedTtl ∧
    data = rollupAt staleMinutes time m.tables

def AnswersCurrent (s : CacheRun) : Prop :=
  ∀ k ∈ s.calls, ∀ data, k.stage = .returned data → Current staleMinutes k data

/-- The tables count as those of the reading did, at the instant of the reading. -/
def CountsAs (r : Reading) (db : AlertTables) : Prop :=
  rollupAt staleMinutes r.readFrom.time db =
    rollupAt staleMinutes r.readFrom.time r.readFrom.tables

instance (k : CacheCall) (data : Rollup) : Decidable (Current staleMinutes k data) :=
  decidable_of_iff (∃ m ∈ k.seen, ∃ age < timeBasedTtl + 1, age ≤ m.time ∧
      data = rollupAt staleMinutes (m.time - age) m.tables) <| by
    refine exists_congr fun m => and_congr_right fun _ => ?_
    constructor
    · rintro ⟨age, hage, hle, hdata⟩
      exact ⟨m.time - age, by omega, by omega, hdata⟩
    · rintro ⟨time, hle, hage, hdata⟩
      exact ⟨m.time - time, by omega, by omega, by rwa [Nat.sub_sub_self hle]⟩

instance (r : Reading) (db : AlertTables) : Decidable (CountsAs staleMinutes r db) :=
  inferInstanceAs (Decidable (_ = _))

def young (time : ℕ) (c : CachedRollup) : Option Reading :=
  if time < c.ts + timeBasedTtl then some c.reading else none

def computing (k : CacheCall) : Option Reading :=
  match k.stage with
  | .computed r => some r
  | _ => none

/-- The readings that a call may still be handed: young copies, and those about to be stored. -/
def held (s : CacheRun) (time : ℕ) : List Reading :=
  s.workers.filterMap (fun slot => slot.bind (young time)) ++ s.calls.filterMap computing

/-- A reading that a call is about to be handed is young counted from when its rows were read. -/
def HandedYoung (s : CacheRun) (k : CacheCall) : Prop :=
  match k.stage with
  | .clocked fp time => ∀ c ∈ s.servable k.worker fp time,
    time < c.reading.readFrom.time + timeBasedTtl
  | _ => True

/-- A write gives the alerts no fingerprint of a held reading unless they count as they did in
it. -/
def Discerned (s : CacheRun) : CacheAct → Prop
  | .write db => ∀ r ∈ s.held s.now, alertsFingerprint db = r.fp → CountsAs staleMinutes r db
  | .proceed i => ∀ k ∈ s.calls[i]?, s.HandedYoung k
  | _ => True

instance (s : CacheRun) (k : CacheCall) : Decidable (s.HandedYoung k) :=
  match h : k.stage with
  | .clocked fp time => decidable_of_iff (∀ c ∈ s.servable k.worker fp time,
      time < c.reading.readFrom.time + timeBasedTtl) (by rw [HandedYoung, h])
  | .entered | .fingerprinted _ | .missed _ | .computed _ | .returned _ =>
    isTrue (by rw [HandedYoung, h]; trivial)

instance (s : CacheRun) (act : CacheAct) : Decidable (s.Discerned staleMinutes act) :=
  match act with
  | .write db => inferInstanceAs
    (Decidable (∀ r ∈ s.held s.now, alertsFingerprint db = r.fp → CountsAs staleMinutes r db))
  | .proceed i => inferInstanceAs (Decidable (∀ k ∈ s.calls[i]?, s.HandedYoung k))
  | .elapse _ | .clear _ | .call _ => isTrue trivial

variable {staleMinutes} {s s' : CacheRun} {act : CacheAct} {k : CacheCall} {r : Reading}
  {time : ℕ}

theorem computing_some : computing k = some r ↔ k.stage = .computed r := by
  unfold computing
  split
  · rename_i r' h
    rw [h]
    simp
  · rename_i h
    exact ⟨nofun, fun hr => absurd hr (h r)⟩

theorem mem_held : r ∈ s.held time ↔
    (∃ c, some c ∈ s.workers ∧ time < c.ts + timeBasedTtl ∧ c.reading = r) ∨
      ∃ k ∈ s.calls, k.stage = .computed r := by
  simp only [held, List.mem_append, List.mem_filterMap, Option.bind_eq_some_iff, young,
    computing_some, Option.ite_none_right_eq_some, Option.some.injEq]
  constructor
  · rintro (⟨_, hc, c, rfl, hyoung⟩ | hk)
    · exact .inl ⟨c, hc, hyoung⟩
    · exact .inr hk
  · rintro (⟨c, hc, hyoung⟩ | hk)
    · exact .inl ⟨_, hc, c, rfl, hyoung⟩
    · exact .inr hk

theorem held_mono {later : ℕ} (hle : time ≤ later) (h : r ∈ s.held later) : r ∈ s.held time := by
  rw [mem_held] at h ⊢
  obtain ⟨c, hc, hyoung, hr⟩ | hk := h
  · exact .inl ⟨c, hc, by omega, hr⟩
  · exact .inr hk

/-! ### The invariant -/

/-- Every held reading of this fingerprint counts as some tables that the call has seen, and these
are no later than `bound` or than the reading. -/
def Answerable (staleMinutes : ResourceRow → StoredAlert → ℕ) (s : CacheRun) (k : CacheCall)
    (fp : Fingerprint) (bound : ℕ) : Prop :=
  ∀ r ∈ s.held bound, r.fp = fp → ∃ m ∈ k.seen, r.readFrom.time ≤ m.time ∧
    (m.time ≤ bound ∨ m.time = r.readFrom.time) ∧ CountsAs staleMinutes r m.tables

def CallSound (staleMinutes : ResourceRow → StoredAlert → ℕ) (s : CacheRun) (k : CacheCall) :
    Prop :=
  match k.stage with
  | .entered => s.moment ∈ k.seen
  | .fingerprinted fp => s.moment ∈ k.seen ∧ Answerable staleMinutes s k fp s.now
  | .clocked fp time => s.moment ∈ k.seen ∧ Answerable staleMinutes s k fp time
  | .missed _ => s.moment ∈ k.seen
  | .computed r => r.readFrom ∈ k.seen
  | .returned data => Current staleMinutes k data

structure Sound (staleMinutes : ResourceRow → StoredAlert → ℕ) (s : CacheRun) : Prop where
  computed : ∀ r ∈ s.held 0,
    r.data = rollupAt staleMinutes r.readFrom.time r.readFrom.tables ∧ r.readFrom.time ≤ s.now
  fresh : ∀ r ∈ s.held s.now, alertsFingerprint s.tables = r.fp →
    CountsAs staleMinutes r s.tables
  calls : ∀ k ∈ s.calls, CallSound staleMinutes s k

/-- A reading made from the tables as they are. -/
def MadeNow (staleMinutes : ResourceRow → StoredAlert → ℕ) (s : CacheRun) (r : Reading) : Prop :=
  r.readFrom = s.moment ∧ r.data = rollupAt staleMinutes s.now s.tables

theorem MadeNow.countsAs (h : MadeNow staleMinutes s r) : CountsAs staleMinutes r s.tables := by
  rw [CountsAs, h.1]
  rfl

/-- While the tables and the time stand still, a reading made from them disturbs no call. -/
theorem CallSound.of_held (h : CallSound staleMinutes s k) (htables : s'.tables = s.tables)
    (hnow : s'.now = s.now)
    (hheld : ∀ bound, ∀ r ∈ s'.held bound, r ∈ s.held bound ∨ MadeNow staleMinutes s r) :
    CallSound staleMinutes s' k := by
  have hmoment : s'.moment = s.moment := by rw [moment, moment, htables, hnow]
  have hanswerable : ∀ fp bound, s.moment ∈ k.seen → Answerable staleMinutes s k fp bound →
      Answerable staleMinutes s' k fp bound := by
    intro fp bound hseen hans r hr hfp
    rcases hheld bound r hr with hold | hnew
    · exact hans r hold hfp
    · exact ⟨s.moment, hseen, by rw [hnew.1], by rw [hnew.1]; exact .inr rfl, hnew.countsAs⟩
  unfold CallSound at h ⊢
  rw [hmoment, hnow]
  split at h
  · exact h
  · exact ⟨h.1, hanswerable _ _ h.1 h.2⟩
  · exact ⟨h.1, hanswerable _ _ h.1 h.2⟩
  · exact h
  · exact h
  · exact h

theorem Sound.of_held (h : Sound staleMinutes s) (htables : s'.tables = s.tables)
    (hnow : s'.now = s.now)
    (hheld : ∀ bound, ∀ r ∈ s'.held bound, r ∈ s.held bound ∨ MadeNow staleMinutes s r)
    (hcalls : ∀ k ∈ s'.calls, CallSound staleMinutes s k) : Sound staleMinutes s' where
  computed r hr := by
    rw [hnow]
    rcases hheld 0 r hr with hold | hnew
    · exact h.computed r hold
    · rw [hnew.1]
      exact ⟨hnew.2, Nat.le_refl _⟩
  fresh r hr hfp := by
    rw [htables] at hfp ⊢
    rw [hnow] at hr
    rcases hheld s.now r hr with hold | hnew
    · exact h.fresh r hold hfp
    · exact hnew.countsAs
  calls k hk := (hcalls k hk).of_held htables hnow hheld

theorem computing_see (m : Moment) (k : CacheCall) : computing (k.see m) = computing k := by
  obtain ⟨w, stage, seen⟩ := k
  cases stage <;> rfl

theorem held_observe : s.observe.held time = s.held time := by
  simp only [held, observe, List.filterMap_map, Function.comp_def, computing_see]

theorem CallSound.see (h : CallSound staleMinutes s k) (hnow : s.now ≤ s'.now)
    (hheld : ∀ bound, ∀ r ∈ s'.held bound, r ∈ s.held bound) :
    CallSound staleMinutes s' (k.see s'.moment) := by
  have hanswerable : ∀ fp bound bound', bound ≤ bound' → Answerable staleMinutes s k fp bound →
      Answerable staleMinutes s' { k with seen := s'.moment :: k.seen } fp bound' := by
    intro fp bound bound' hle hans r hr hfp
    obtain ⟨m, hm, hpast, hbound, hcounts⟩ := hans r (held_mono hle (hheld _ r hr)) hfp
    exact ⟨m, List.mem_cons_of_mem _ hm, hpast, by omega, hcounts⟩
  obtain ⟨w, stage, seen⟩ := k
  cases stage with
  | entered => exact List.mem_cons_self
  | fingerprinted fp => exact ⟨List.mem_cons_self, hanswerable fp _ _ hnow h.2⟩
  | clocked fp time => exact ⟨List.mem_cons_self, hanswerable fp _ _ (Nat.le_refl _) h.2⟩
  | missed fp => exact List.mem_cons_self
  | computed r => exact List.mem_cons_of_mem _ h
  | returned data => exact h

/-- Writes and the passing of time. -/
theorem Sound.observe {tables : AlertTables} {now : ℕ} (h : Sound staleMinutes s)
    (hnow : s.now ≤ now)
    (hfresh : ∀ r ∈ s.held now, alertsFingerprint tables = r.fp → CountsAs staleMinutes r tables) :
    Sound staleMinutes (CacheRun.observe { s with tables := tables, now := now }) where
  computed r hr := by
    rw [held_observe] at hr
    obtain ⟨hdata, hpast⟩ := h.computed r hr
    exact ⟨hdata, Nat.le_trans hpast hnow⟩
  fresh r hr hfp := by
    rw [held_observe] at hr
    exact hfresh r hr hfp
  calls k hk := by
    obtain ⟨k', hk', rfl⟩ := List.mem_map.mp hk
    refine CallSound.see (h.calls k' hk') hnow fun bound r hr => ?_
    rwa [held_observe] at hr

theorem held_setStage {i : ℕ} {stage : Stage} {bound : ℕ}
    (hr : r ∈ (s.setStage i k stage).held bound) : r ∈ s.held bound ∨ stage = .computed r := by
  rw [mem_held] at hr
  obtain hc | ⟨k', hk', hstage⟩ := hr
  · exact .inl (mem_held.mpr (.inl hc))
  · rcases List.mem_or_eq_of_mem_set hk' with hold | rfl
    · exact .inl (mem_held.mpr (.inr ⟨k', hold, hstage⟩))
    · exact .inr hstage

/-- A call moves on to a stage at which it is sound. -/
theorem Sound.setStage {i : ℕ} {stage : Stage} (h : Sound staleMinutes s)
    (hheld : ∀ r, stage = .computed r → MadeNow staleMinutes s r)
    (hk : CallSound staleMinutes s { k with stage }) :
    Sound staleMinutes (s.setStage i k stage) := by
  refine h.of_held rfl rfl (fun bound r hr => ?_) fun k' hk' => ?_
  · exact (held_setStage hr).imp_right (hheld r)
  · rcases List.mem_or_eq_of_mem_set hk' with hold | rfl
    · exact h.calls k' hold
    · exact hk

theorem servable_held {w : ℕ} {fp : Fingerprint} {c : CachedRollup}
    (h : s.servable w fp time = some c) : c.reading ∈ s.held time ∧ c.reading.fp = fp := by
  obtain ⟨c', hc, hif⟩ := Option.bind_eq_some_iff.mp h
  obtain ⟨⟨hyoung, hfp⟩, heq⟩ := Option.ite_none_right_eq_some.mp hif
  obtain rfl := Option.some.inj heq
  have hslot := List.mem_of_getElem? (Option.join_eq_some_iff.mp hc)
  exact ⟨mem_held.mpr (.inl ⟨c', hslot, hyoung, rfl⟩), hfp⟩

/-- What a call is handed counts as tables that it saw. -/
theorem Answerable.current {fp : Fingerprint} {c : CachedRollup} (h : Sound staleMinutes s)
    (hans : Answerable staleMinutes s k fp time) (hc : s.servable k.worker fp time = some c)
    (hyoung : time < c.reading.readFrom.time + timeBasedTtl) :
    Current staleMinutes k c.reading.data := by
  obtain ⟨hheld, hfp⟩ := servable_held hc
  obtain ⟨m, hm, hpast, hbound, hcounts⟩ := hans _ hheld hfp
  obtain ⟨hdata, -⟩ := h.computed _ (held_mono (Nat.zero_le time) hheld)
  exact ⟨m, hm, _, hpast, by omega, hdata.trans hcounts.symm⟩

theorem Sound.proceed {i : ℕ} (h : Sound staleMinutes s) (hk : k ∈ s.calls)
    (hyoung : s.HandedYoung k) (hstep : s.proceed staleMinutes i k = some s') :
    Sound staleMinutes s' := by
  have hcall := h.calls k hk
  obtain ⟨w, stage, seen⟩ := k
  cases stage with
  | entered =>
    obtain rfl := Option.some.inj hstep
    refine h.setStage nofun ⟨hcall, fun r hr hfp => ?_⟩
    obtain ⟨-, hpast⟩ := h.computed r (held_mono (Nat.zero_le _) hr)
    exact ⟨s.moment, hcall, hpast, .inl (Nat.le_refl _), h.fresh r hr hfp.symm⟩
  | fingerprinted fp =>
    obtain rfl := Option.some.inj hstep
    exact h.setStage nofun hcall
  | clocked fp time =>
    simp only [CacheRun.proceed] at hstep
    split at hstep
    · rename_i c hc
      obtain rfl := Option.some.inj hstep
      exact h.setStage nofun (hcall.2.current h hc (hyoung c hc))
    · obtain rfl := Option.some.inj hstep
      exact h.setStage nofun hcall.1
  | missed fp =>
    obtain rfl := Option.some.inj hstep
    refine h.setStage (fun r hr => ?_) hcall
    obtain rfl := Stage.computed.inj hr
    exact ⟨rfl, rfl⟩
  | computed r =>
    obtain rfl := Option.some.inj hstep
    have hr : ∀ bound, r ∈ s.held bound := fun _ => mem_held.mpr (.inr ⟨_, hk, rfl⟩)
    refine h.of_held rfl rfl (fun bound r' hr' => .inl ?_) fun k' hk' => ?_
    · rw [mem_held] at hr'
      obtain ⟨c, hc, hyoung, rfl⟩ | ⟨k', hk', hstage⟩ := hr'
      · rcases List.mem_or_eq_of_mem_set hc with hold | heq
        · exact mem_held.mpr (.inl ⟨c, hold, hyoung, rfl⟩)
        · obtain rfl := Option.some.inj heq
          exact hr bound
      · rcases List.mem_or_eq_of_mem_set hk' with hold | rfl
        · exact mem_held.mpr (.inr ⟨k', hold, hstage⟩)
        · cases hstage
    · rcases List.mem_or_eq_of_mem_set hk' with hold | rfl
      · exact h.calls k' hold
      · exact ⟨r.readFrom, hcall, _, Nat.le_refl _, by omega, (h.computed r (hr 0)).1⟩
  | returned data => cases hstep

theorem Sound.step (h : Sound staleMinutes s) (hG : s.Discerned staleMinutes act)
    (hstep : s.step staleMinutes act = some s') : Sound staleMinutes s' := by
  cases act with
  | write db =>
    obtain rfl := Option.some.inj hstep
    exact h.observe (Nat.le_refl _) hG
  | elapse seconds =>
    obtain rfl := Option.some.inj hstep
    have hle : s.now ≤ s.now + seconds := by omega
    exact h.observe hle fun r hr hfp => h.fresh r (held_mono hle hr) hfp
  | clear w =>
    obtain rfl := Option.some.inj hstep
    refine h.of_held rfl rfl (fun bound r hr => .inl ?_) h.calls
    rw [mem_held] at hr ⊢
    refine hr.imp_left ?_
    rintro ⟨c, hc, hyoung⟩
    rcases List.mem_or_eq_of_mem_set hc with hold | hnone
    · exact ⟨c, hold, hyoung⟩
    · cases hnone
  | call w =>
    obtain rfl := Option.some.inj hstep
    refine h.of_held rfl rfl (fun bound r hr => .inl ?_) fun k hk => ?_
    · rw [mem_held] at hr ⊢
      refine hr.imp_right ?_
      rintro ⟨k, hk, hstage⟩
      rcases List.mem_append.mp hk with hold | hnew
      · exact ⟨k, hold, hstage⟩
      · obtain rfl := List.mem_singleton.mp hnew
        cases hstage
    · rcases List.mem_append.mp hk with hold | hnew
      · exact h.calls k hold
      · obtain rfl := List.mem_singleton.mp hnew
        exact List.mem_cons_self
  | proceed i =>
    obtain ⟨k, hk, hproceed⟩ := Option.bind_eq_some_iff.mp hstep
    exact h.proceed (List.mem_of_getElem? hk) (hG k hk) hproceed

theorem sound_start (tables : AlertTables) (now workers : ℕ) :
    Sound staleMinutes (start tables now workers) := by
  have hnone : ∀ bound, ∀ r ∈ (start tables now workers).held bound, False := by
    simp [held, start]
  exact ⟨fun r hr => (hnone _ r hr).elim, fun r hr _ => (hnone _ r hr).elim, nofun⟩

/-! ### Every answer -/

def exampleAlert (id : ℕ) (severity : String) : FlaggedAlert :=
  ⟨⟨id, 1, "i-" ++ toString id, "cpu_utilization", some severity, .active, false, none, some 0,
    0⟩, false⟩

def exampleTables (severities : List String) : AlertTables :=
  ⟨[1], [⟨1, "i-1", "ec2"⟩, ⟨1, "i-2", "ec2"⟩],
    severities.zipIdx.map fun (sev, i) => exampleAlert (i + 1) sev⟩

/-- One call, from its start to its answer if the worker has no copy. -/
def exampleMiss (w i : ℕ) : List CacheAct := .call w :: List.replicate 5 (.proceed i)

end CacheRun

end MonitoringHub.Alerts
