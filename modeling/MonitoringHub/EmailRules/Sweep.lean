import MonitoringHub.EmailRules.RuleDispatch
import MonitoringHub.Lib.OrderedQuery

/-! The sweep for resolved alerts and for incidents. Each sweep reads the window again, in
the order of the ids and up to a row limit; between two sweeps the database and the rules may
change in any way. What was handed to the dispatcher is kept beside the state. -/

namespace MonitoringHub.EmailRules
open Lib

/-- `SWEEP_LIMIT` -/
def sweepLimit : ℕ := 500

/-- The columns of `alerts` that the sweep reads. -/
structure AlertRow where
  id : ℕ
  accountId : Option ℕ
  resourceId : String
  severity : String
  status : String
  resolvedAt : Option ℤ
  silenced : Option Bool

/-- The columns of `incidents` that the sweep reads. -/
structure IncidentRow where
  id : ℕ
  accountId : Option ℕ
  severity : String
  status : String
  createdAt : ℤ
  resolvedAt : Option ℤ

/-- Both tables have a primary key. -/
structure Tables where
  alerts : List AlertRow
  incidents : List IncidentRow
  alertsKey : (alerts.map AlertRow.id).Nodup
  incidentsKey : (incidents.map IncidentRow.id).Nodup

/-- The clocks are `UTC_TIMESTAMP()` and `NOW()`; alerts are stamped with one, incidents with the
other. -/
structure SweepState where
  utcTimestamp : ℤ
  now : ℤ
  tables : Tables
  rules : List Rule
  offered : List (Event × Context)

namespace SweepState

def startsAt (clock : ℤ) (minutes : ℕ) : ℤ := clock - 60 * minutes

/-- The events some enabled rule asks for. -/
def wanted (s : SweepState) : List String := (s.rules.filter Rule.enabled).flatMap Rule.words

def resolvedAlert (s : SweepState) (minutes : ℕ) (a : AlertRow) : Bool :=
  decide (a.status = "resolved") &&
    a.resolvedAt.any (fun t => decide (startsAt s.utcTimestamp minutes ≤ t)) &&
    !a.silenced.getD false

def openedIncident (s : SweepState) (minutes : ℕ) (i : IncidentRow) : Bool :=
  decide (startsAt s.now minutes ≤ i.createdAt)

def resolvedIncident (s : SweepState) (minutes : ℕ) (i : IncidentRow) : Bool :=
  decide (i.status = "resolved") &&
    i.resolvedAt.any fun t => decide (startsAt s.now minutes ≤ t)

def alertContext (a : AlertRow) : Context :=
  ⟨.alert, a.id, a.accountId, some a.resourceId, some a.severity, false⟩

def incidentContext (i : IncidentRow) : Context :=
  ⟨.incident, i.id, i.accountId, none, some i.severity, false⟩

/-- What the query of an event matches, whatever its limit. -/
def found (s : SweepState) (minutes : ℕ) : Event → List Context
  | .alertResolved => (s.tables.alerts.filter (s.resolvedAlert minutes)).map alertContext
  | .incidentOpened => (s.tables.incidents.filter (s.openedIncident minutes)).map incidentContext
  | .incidentResolved => (s.tables.incidents.filter (s.resolvedIncident minutes)).map incidentContext
  | .alertOpened => []
  | .alertEscalated => []

/-- The query of an event, if a rule wants it. -/
def selected (s : SweepState) (minutes : ℕ) (event : Event) : List (Event × Context) :=
  if event.word ∈ s.wanted then
    (firstBy Context.objectId sweepLimit (s.found minutes event)).map fun ctx => (event, ctx)
  else []

/-- One sweep: three queries, and everything they return goes to the dispatcher. -/
def sweep (s : SweepState) (minutes : ℕ) : SweepState :=
  { s with
    offered := s.offered ++ (s.selected minutes .alertResolved ++
      s.selected minutes .incidentOpened ++ s.selected minutes .incidentResolved) }

end SweepState

inductive SweepAct
  | clock (utcTimestamp now : ℤ)
  | write (tables : Tables)
  | edit (rules : List Rule)
  | sweep (minutes : ℕ)

namespace SweepState

def step (s : SweepState) : SweepAct → Option SweepState
  | .clock utcTimestamp now => some { s with utcTimestamp := utcTimestamp, now := now }
  | .write tables => some { s with tables := tables }
  | .edit rules => some { s with rules := rules }
  | .sweep minutes => some (s.sweep minutes)

/-- The event of the object lies in the window of a sweep, and a rule wants it. -/
def InWindow (s : SweepState) (minutes : ℕ) (event : Event) (objectId : ℕ) : Prop :=
  event.word ∈ s.wanted ∧ ∃ ctx ∈ s.found minutes event, ctx.objectId = objectId

/-- Fewer events than a sweep takes come before it. -/
def WithinLimit (s : SweepState) (minutes : ℕ) (event : Event) (objectId : ℕ) : Prop :=
  ((s.found minutes event).filter fun ctx => ctx.objectId < objectId).length < sweepLimit

def Offered (s : SweepState) (event : Event) (objectId : ℕ) : Prop :=
  ∃ ctx, (event, ctx) ∈ s.offered ∧ ctx.objectId = objectId

theorem found_key (s : SweepState) (minutes : ℕ) (event : Event) :
    ((s.found minutes event).map Context.objectId).Nodup := by
  cases event with
  | alertOpened => exact List.nodup_nil
  | alertEscalated => exact List.nodup_nil
  | alertResolved =>
    rw [found, List.map_map]
    exact s.tables.alertsKey.sublist (List.filter_sublist.map _)
  | incidentOpened =>
    rw [found, List.map_map]
    exact s.tables.incidentsKey.sublist (List.filter_sublist.map _)
  | incidentResolved =>
    rw [found, List.map_map]
    exact s.tables.incidentsKey.sublist (List.filter_sublist.map _)

theorem mem_selected {s : SweepState} {minutes : ℕ} {event event' : Event} {ctx : Context} :
    (event', ctx) ∈ s.selected minutes event ↔ event' = event ∧ event.word ∈ s.wanted ∧
      ctx ∈ s.found minutes event ∧ s.WithinLimit minutes event ctx.objectId := by
  unfold selected
  split
  · rename_i hwanted
    simp only [List.mem_map, Prod.mk.injEq, mem_firstBy (s.found_key minutes event)]
    constructor
    · rintro ⟨ctx', ⟨hfound, hlimit⟩, rfl, rfl⟩
      exact ⟨rfl, hwanted, hfound, hlimit⟩
    · rintro ⟨rfl, -, hfound, hlimit⟩
      exact ⟨ctx, ⟨hfound, hlimit⟩, rfl, rfl⟩
  · rename_i hunwanted
    simp [hunwanted]

/-- Only three of the events are swept; the hooks queue the others. -/
theorem mem_sweep {s : SweepState} {minutes : ℕ} {event : Event} {ctx : Context} :
    (event, ctx) ∈ (s.sweep minutes).offered ↔
      (event, ctx) ∈ s.offered ∨ (event, ctx) ∈ s.selected minutes event := by
  simp only [sweep, List.mem_append, mem_selected]
  cases event <;> simp [found]

theorem offered_sweep {s : SweepState} {minutes : ℕ} {event : Event} {objectId : ℕ} :
    (s.sweep minutes).Offered event objectId ↔ s.Offered event objectId ∨
      s.InWindow minutes event objectId ∧ s.WithinLimit minutes event objectId := by
  simp only [Offered, mem_sweep, mem_selected, true_and]
  constructor
  · rintro ⟨ctx, hold | ⟨hwanted, hfound, hlimit⟩, rfl⟩
    · exact .inl ⟨ctx, hold, rfl⟩
    · exact .inr ⟨⟨hwanted, ctx, hfound, rfl⟩, hlimit⟩
  · rintro (⟨ctx, hold, rfl⟩ | ⟨⟨hwanted, ctx, hfound, rfl⟩, hlimit⟩)
    · exact ⟨ctx, .inl hold, rfl⟩
    · exact ⟨ctx, .inr ⟨hwanted, hfound, hlimit⟩, rfl⟩

end SweepState

section Runs
variable {s t : SweepState} {tr : List SweepAct}

/-- A run takes this sweep, in this state. -/
def SweptAt (s : SweepState) (tr : List SweepAct) (t : SweepState) (minutes : ℕ) : Prop :=
  ∃ before after, tr = after ++ .sweep minutes :: before ∧ Steps (Takes SweepState.step) s before t

theorem sweptAt_nil {minutes : ℕ} : ¬SweptAt s [] t minutes := by
  rintro ⟨before, after, h, -⟩
  simp at h

theorem sweptAt_cons {a : SweepAct} {u : SweepState} {minutes : ℕ}
    (run : Steps (Takes SweepState.step) s tr t) :
    SweptAt s (a :: tr) u minutes ↔ SweptAt s tr u minutes ∨ a = .sweep minutes ∧ u = t := by
  constructor
  · rintro ⟨before, after, h, hbefore⟩
    cases after with
    | nil =>
      obtain ⟨rfl, rfl⟩ := List.cons.inj h
      exact .inr ⟨rfl, hbefore.deterministic run⟩
    | cons b after =>
      obtain ⟨rfl, rfl⟩ := List.cons.inj h
      exact .inl ⟨before, after, rfl, hbefore⟩
  · rintro (⟨before, after, rfl, hbefore⟩ | ⟨rfl, rfl⟩)
    · exact ⟨before, a :: after, rfl, hbefore⟩
    · exact ⟨tr, [], rfl, run⟩

/-- An event is handed to the dispatcher by some sweep exactly if at some sweep it lies in the
window with fewer events than the limit before it. -/
theorem swept_iff (run : Steps (Takes SweepState.step) s tr t) (hnone : s.offered = [])
    (event : Event) (objectId : ℕ) :
    t.Offered event objectId ↔ ∃ u minutes, SweptAt s tr u minutes ∧
      u.InWindow minutes event objectId ∧ u.WithinLimit minutes event objectId := by
  induction run with
  | refl => simp [SweepState.Offered, hnone, sweptAt_nil]
  | @snoc tr t u a run hstep ih =>
    simp only [sweptAt_cons run]
    cases a with
    | sweep minutes =>
      obtain rfl := Option.some.inj hstep
      rw [SweepState.offered_sweep, ih]
      constructor
      · rintro (⟨v, m, hswept, h⟩ | h)
        · exact ⟨v, m, .inl hswept, h⟩
        · exact ⟨t, minutes, .inr ⟨rfl, rfl⟩, h⟩
      · rintro ⟨v, m, hswept | ⟨hsame, rfl⟩, h⟩
        · exact .inl ⟨v, m, hswept, h⟩
        · obtain rfl := SweepAct.sweep.inj hsame
          exact .inr h
    | clock utcTimestamp now =>
      obtain rfl := Option.some.inj hstep
      simp only [reduceCtorEq, false_and, or_false]
      exact ih
    | write tables =>
      obtain rfl := Option.some.inj hstep
      simp only [reduceCtorEq, false_and, or_false]
      exact ih
    | edit rules =>
      obtain rfl := Option.some.inj hstep
      simp only [reduceCtorEq, false_and, or_false]
      exact ih

end Runs

/-- A number of alerts, all resolved at once. -/
def burst (n : ℕ) : Tables where
  alerts := (List.range n).map fun i => ⟨i, some 7, "i-0abc", "CRITICAL", "resolved", some 0, none⟩
  incidents := []
  alertsKey := by
    rw [List.map_map]
    exact List.nodup_range.map fun _ _ h => h
  incidentsKey := List.nodup_nil

def resolvedRule : Rule := ⟨1, true, "alert_resolved", none, none⟩

def burstState : SweepState := ⟨0, 0, burst 501, [resolvedRule], []⟩

/-- A sweep every five minutes, for as long as the window of thirty minutes holds the burst. -/
def burstRun : List SweepAct :=
  (List.range 7).flatMap fun k : ℕ => [.clock (300 * k) (300 * k), .sweep 30]

theorem mem_burst {n : ℕ} {a : AlertRow} : a ∈ (burst n).alerts ↔
    ∃ i < n, a = ⟨i, some 7, "i-0abc", "CRITICAL", "resolved", some 0, none⟩ := by
  simp [burst, eq_comm]

theorem found_burst {s : SweepState} (htables : s.tables = burst 501)
    (hclock : s.utcTimestamp ≤ 1800) :
    s.found 30 .alertResolved = (burst 501).alerts.map SweepState.alertContext := by
  rw [SweepState.found, htables, List.filter_eq_self.mpr]
  intro a ha
  obtain ⟨i, -, rfl⟩ := mem_burst.mp ha
  have hwindow : SweepState.startsAt s.utcTimestamp 30 ≤ 0 := by
    rw [SweepState.startsAt]
    omega
  exact Bool.and_eq_true_iff.mpr ⟨Bool.and_eq_true_iff.mpr ⟨rfl, decide_eq_true hwindow⟩, rfl⟩

/-- The sweeps of the run are all taken over the burst and inside its window. -/
theorem burst_swept {u : SweepState} {minutes : ℕ}
    (h : SweptAt burstState burstRun.reverse u minutes) :
    minutes = 30 ∧ u.tables = burst 501 ∧ u.rules = [resolvedRule] ∧ u.utcTimestamp ≤ 1800 := by
  have hacts : ∀ a ∈ burstRun.reverse, a = .sweep 30 ∨ ∃ c ≤ 1800, a = .clock c c := by
    intro a ha
    simp only [burstRun, List.mem_reverse, List.mem_flatMap, List.mem_range, List.mem_cons,
      List.not_mem_nil, or_false] at ha
    obtain ⟨k, hk, rfl | rfl⟩ := ha
    · exact .inr ⟨300 * k, by omega, rfl⟩
    · exact .inl rfl
  obtain ⟨before, after, htr, run⟩ := h
  rw [htr] at hacts
  have hminutes : minutes = 30 := by
    rcases hacts _ (List.mem_append_right _ List.mem_cons_self) with hsame | ⟨c, -, hclock⟩
    · exact SweepAct.sweep.inj hsame
    · cases hclock
  have hbefore : ∀ a ∈ before, a = .sweep 30 ∨ ∃ c ≤ 1800, a = .clock c c :=
    fun a ha => hacts a (List.mem_append_right _ (List.mem_cons_of_mem _ ha))
  refine ⟨hminutes, ?_⟩
  revert hbefore
  refine run.invariant (I := fun before u =>
    (∀ a ∈ before, a = .sweep 30 ∨ ∃ c ≤ 1800, a = .clock c c) →
      u.tables = burst 501 ∧ u.rules = [resolvedRule] ∧ u.utcTimestamp ≤ 1800)
    (fun _ => ⟨rfl, rfl, by decide⟩) fun before t a u ih hstep hbefore => ?_
  obtain ⟨htables, hrules, hclock⟩ := ih fun b hb => hbefore b (List.mem_cons_of_mem _ hb)
  rcases hbefore a List.mem_cons_self with rfl | ⟨c, hc, rfl⟩
  · obtain rfl := Option.some.inj hstep
    exact ⟨htables, hrules, hclock⟩
  · obtain rfl := Option.some.inj hstep
    exact ⟨htables, hrules, hc⟩

/-- The last alert of the burst lies in the window of seven sweeps, and none reaches it. -/
theorem sweep_misses : ¬∀ (s t : SweepState) (tr : List SweepAct),
    Steps (Takes SweepState.step) s tr t → s.offered = [] →
    ∀ event objectId, 7 ≤ (tr.filter fun a => a matches .sweep _).length →
      (∀ u minutes, SweptAt s tr u minutes → u.InWindow minutes event objectId) →
      t.Offered event objectId := by
  intro h
  obtain ⟨t, run, -⟩ : ∃ t, Steps (Takes SweepState.step) burstState burstRun.reverse t ∧ True := by
    obtain ⟨t, run, -⟩ := exists_play SweepState.step burstState burstRun (fun _ => true) (by rfl)
    exact ⟨t, run, trivial⟩
  have hoffered := h burstState t burstRun.reverse run rfl .alertResolved 500 (by decide) ?_
  · obtain ⟨u, minutes, hswept, -, hlimit⟩ := (swept_iff run rfl _ _).mp hoffered
    obtain ⟨rfl, htables, -, hclock⟩ := burst_swept hswept
    rw [SweepState.WithinLimit, found_burst htables hclock] at hlimit
    exact absurd hlimit (by decide +kernel)
  · intro u minutes hswept
    obtain ⟨rfl, htables, hrules, hclock⟩ := burst_swept hswept
    refine ⟨?_, ?_⟩
    · rw [SweepState.wanted, hrules]
      decide +kernel
    · rw [found_burst htables hclock]
      exact ⟨_, List.mem_map_of_mem (mem_burst.mpr ⟨500, by decide, rfl⟩), rfl⟩

/-- A burst that fits into one sweep is handed on by it. -/
theorem swept_small : ∃ t, Steps (Takes SweepState.step)
    ⟨0, 0, burst 3, [resolvedRule], []⟩ [.sweep 30] t ∧ t.Offered .alertResolved 2 := by
  have run : Steps (Takes SweepState.step) ⟨0, 0, burst 3, [resolvedRule], []⟩ [.sweep 30]
      (SweepState.sweep ⟨0, 0, burst 3, [resolvedRule], []⟩ 30) := Steps.refl.snoc rfl
  refine ⟨_, run, (swept_iff run rfl _ _).mpr ⟨_, 30, ⟨[], [], rfl, .refl⟩, ⟨?_, ?_⟩, ?_⟩⟩
  · decide +kernel
  · exact ⟨_, List.mem_map_of_mem (List.mem_filter.mpr ⟨mem_burst.mpr ⟨2, by decide, rfl⟩, rfl⟩), rfl⟩
  · exact (by decide +kernel : 2 < 500)

end MonitoringHub.EmailRules
