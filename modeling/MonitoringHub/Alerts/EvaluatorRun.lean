import MonitoringHub.Alerts.OneAlert

/-! The evaluator pass by pass, each row evaluation in one step. A pass begins with
the rows it read; a full pass first sweeps and expires, a P1-only pass does not. A
run of passes is a run of the statements below it with nobody in between, so what
holds of every interleaving holds of every run of passes. -/

namespace MonitoringHub.Alerts
open Lib

inductive PassKind
  | full | p1Only
  deriving DecidableEq, Repr

/-- The rows a pass works through, from those its query returned. -/
def passRows (kind : PassKind) (M : PollingModel) (S : PollSettings) (fetched : List EvalRow) :
    List EvalRow :=
  ((selectThresholdRows fetched).filter fun row => (envPollRowInfo M S row).1).filter fun row =>
    match kind with
    | .full => true
    | .p1Only => M.isP1 row

structure Evaluator where
  db : Db
  clock : ℕ
  began : ℕ
  todo : List EvalRow

/-- The process starting up over the tables it finds. -/
def Evaluator.start (db : Db) : Evaluator := ⟨db, 0, 0, []⟩

inductive Event
  | beginPass (now : ℕ) (kind : PassKind) (model : PollingModel) (settings : PollSettings)
      (fetched : List EvalRow) (found : List (SweepReason × List ℕ))
  | evaluated (began now : ℕ) (r : RowInput) (o : Outcome)
  | rowFailed (now : ℕ)
  | human (now : ℕ) (act : HumanAction)

def sweepOf (kind : PassKind) (now : ℕ) (found : List (SweepReason × List ℕ)) (db : Db) : Db :=
  match kind with
  | .full => (db.resolveStale now found).expirePending now
  | .p1Only => db

/-- A pass may begin at any time: after downtime the rest of the last one is gone.
A row whose evaluation raises is rolled back and skipped. -/
def Evaluator.step (s : Evaluator) : Event → Option Evaluator
  | .beginPass now kind M S fetched found =>
    if s.clock ≤ now then some ⟨sweepOf kind now found s.db, now, now, passRows kind M S fetched⟩
    else none
  | .evaluated began now r o =>
    match s.todo with
    | [] => none
    | row :: rest =>
      if s.clock ≤ now ∧ s.began = began ∧ r.row = row then
        (evaluateRow now r s.db).bind fun done =>
          if done.1 = o then some ⟨done.2, now, s.began, rest⟩ else none
      else none
  | .rowFailed now => if s.clock ≤ now then some { s with clock := now, todo := s.todo.tail } else none
  | .human now act =>
    if s.clock ≤ now then some { s with db := s.db.act now act, clock := now } else none

inductive EvaluatorEffect (s : Evaluator) : Event → Evaluator → Prop
  | beginPass {now : ℕ} {kind : PassKind} {M : PollingModel} {S : PollSettings}
      {fetched : List EvalRow} {found : List (SweepReason × List ℕ)} (hnow : s.clock ≤ now) :
      EvaluatorEffect s (.beginPass now kind M S fetched found)
        ⟨sweepOf kind now found s.db, now, now, passRows kind M S fetched⟩
  | evaluated {now : ℕ} {r : RowInput} {o : Outcome} {rest : List EvalRow} {db : Db}
      (hnow : s.clock ≤ now) (htodo : s.todo = r.row :: rest) (heff : RowEffect now r s.db o db) :
      EvaluatorEffect s (.evaluated s.began now r o) ⟨db, now, s.began, rest⟩
  | rowFailed {now : ℕ} (hnow : s.clock ≤ now) :
      EvaluatorEffect s (.rowFailed now) { s with clock := now, todo := s.todo.tail }
  | human {now : ℕ} {act : HumanAction} (hnow : s.clock ≤ now) :
      EvaluatorEffect s (.human now act) { s with db := s.db.act now act, clock := now }

theorem Evaluator.step_effect {s s' : Evaluator} {e : Event} (h : s.step e = some s') :
    EvaluatorEffect s e s' := by
  cases e <;> simp only [Evaluator.step] at h
  case beginPass =>
    split at h
    · rename_i hnow
      obtain rfl := Option.some.inj h
      exact .beginPass hnow
    · cases h
  case evaluated began now r o =>
    split at h
    · cases h
    · rename_i row rest htodo
      split at h
      · rename_i hrow
        obtain ⟨⟨o', db⟩, hdone, hlast⟩ := Option.bind_eq_some_iff.mp h
        split at hlast
        · rename_i ho
          obtain rfl : o' = o := ho
          obtain rfl := Option.some.inj hlast
          obtain ⟨hnow, rfl, rfl⟩ := hrow
          exact .evaluated hnow htodo (evaluateRow_effect hdone)
        · cases hlast
      · cases h
  case rowFailed =>
    split at h
    · rename_i hnow
      obtain rfl := Option.some.inj h
      exact .rowFailed hnow
    · cases h
  case human =>
    split at h
    · rename_i hnow
      obtain rfl := Option.some.inj h
      exact .human hnow
    · cases h

theorem sweepOf_handled (kind : PassKind) (now : ℕ) (found : List (SweepReason × List ℕ)) (db : Db) :
    db.Handled (sweepOf kind now found db) ∧
      ∀ k p, (sweepOf kind now found db).pending k = some p → db.pending k = some p := by
  cases kind with
  | p1Only => exact ⟨.refl db, fun _ _ h => h⟩
  | full =>
    obtain ⟨hh, hpending⟩ := Db.resolveStale_handled now found db
    refine ⟨hh, fun k p hp => ?_⟩
    have := Db.expirePending_some _ k hp
    rwa [hpending] at this

section Statements
variable {now : ℕ} {r : RowInput} {db db' : Db}

/-- One row evaluation is its own statements with nobody in between. -/
theorem RowEffect.statements {o : Outcome} (h : RowEffect now r db o db') :
    ∃ tr, Steps (Takes Interleaved.step) ⟨db, none⟩ tr ⟨db', none⟩ := by
  have hselect : Steps (Takes Interleaved.step) ⟨db, none⟩ [.select r]
      ⟨db, some ⟨r, db.pending r.key, .looked (db.selectOpen r.key)⟩⟩ := Steps.refl.snoc rfl
  cases h with
  | cleared hnone hhealthy =>
    rw [hnone] at hselect
    exact ⟨_, Interleaved.run_statement now hselect (.settled rfl hhealthy)⟩
  | healthy hopen hvalue hhealthy hstreak =>
    rw [hopen] at hselect
    have ha := (Db.selectOpen_some hopen).1
    have hmarked := Interleaved.run_statement now (Interleaved.run_statement now hselect
      (.cleared rfl hhealthy)) (.marked rfl hvalue ha)
    refine ⟨_, Interleaved.run_statement now hmarked (.kept rfl ?_ hstreak)⟩
    rw [Db.modifyAlert_getElem?, if_pos rfl, Db.clearPending_alerts, ha]
    rfl
  | recovered hopen hvalue hhealthy hstreak =>
    rw [hopen] at hselect
    have ha := (Db.selectOpen_some hopen).1
    have hmarked := Interleaved.run_statement now (Interleaved.run_statement now hselect
      (.cleared rfl hhealthy)) (.marked rfl hvalue ha)
    refine ⟨_, Interleaved.run_statement now (Interleaved.run_statement now hmarked
      (.confirmed rfl ?_ hstreak)) (.resolved rfl)⟩
    rw [Db.modifyAlert_getElem?, if_pos rfl, Db.clearPending_alerts, ha]
    rfl
  | refreshed hopen hvalue hbreach =>
    rw [hopen] at hselect
    exact ⟨_, Interleaved.run_statement now hselect (.refreshed rfl hvalue hbreach)⟩
  | pended hnone hbreach hcycles =>
    rw [hnone] at hselect
    exact ⟨_, Interleaved.run_statement now hselect (.pended rfl hbreach hcycles)⟩
  | promoted hnone hvalue hbreach hcycles =>
    rw [hnone] at hselect
    have htouched := Interleaved.run_statement now hselect (.touched rfl hbreach hcycles)
    exact ⟨_, Interleaved.run_statement now (Interleaved.run_statement now htouched
      (.inserted rfl hvalue)) (.finished rfl)⟩

theorem sweepOf_statements (kind : PassKind) (found : List (SweepReason × List ℕ)) (db : Db) :
    ∃ tr, Steps (Takes Interleaved.step) ⟨db, none⟩ tr ⟨sweepOf kind now found db, none⟩ := by
  cases kind with
  | p1Only => exact ⟨[], .refl⟩
  | full =>
    have hstale : ∀ db : Db, ∃ tr, Steps (Takes Interleaved.step) ⟨db, none⟩ tr
        ⟨db.resolveStale now found, none⟩ := by
      induction found with
      | nil => exact fun _ => ⟨[], .refl⟩
      | cons swept found ih =>
        intro db
        obtain ⟨tr, hrest⟩ := ih (db.resolveIds now swept.1 swept.2)
        have hfirst : Steps (Takes Interleaved.step) ⟨db, none⟩ [.sweep now swept.1 swept.2]
            ⟨db.resolveIds now swept.1 swept.2, none⟩ := Steps.refl.snoc rfl
        exact ⟨_, hfirst.trans hrest⟩
    obtain ⟨tr, hrun⟩ := hstale db
    exact ⟨.expire now :: tr, hrun.snoc rfl⟩

end Statements

namespace Evaluator

/-- A run of passes is a run of statements over the same tables. -/
theorem run_statements {s t : Evaluator} {tr : List Event} (run : Steps (Takes step) s tr t) :
    ∃ tr', Steps (Takes Interleaved.step) ⟨s.db, none⟩ tr' ⟨t.db, none⟩ := by
  induction run with
  | refl => exact ⟨[], .refl⟩
  | snoc _ hstep ih =>
    obtain ⟨tr', hrun⟩ := ih
    cases step_effect hstep with
    | beginPass =>
      obtain ⟨tr₂, hsweep⟩ := sweepOf_statements _ _ _
      exact ⟨_, hrun.trans hsweep⟩
    | evaluated _ _ heff =>
      obtain ⟨tr₂, hrow⟩ := heff.statements
      exact ⟨_, hrun.trans hrow⟩
    | rowFailed => exact ⟨tr', hrun⟩
    | human =>
      rename_i now act _
      exact ⟨.human now act :: tr', hrun.snoc rfl⟩

theorem run_exclusive {s t : Evaluator} {tr : List Event} (run : Steps (Takes step) s tr t)
    (hempty : s.db.alerts = []) (k : AlertKey) : t.db.Exclusive k := by
  obtain ⟨tr', hrun⟩ := run_statements run
  have h := Interleaved.run_oneAlert hrun (Interleaved.oneAlert_of_empty hempty rfl)
  exact h.1 k fun f hf => by cases hf

/-- Only a promotion adds an alert, and it adds the promoted one. -/
theorem step_created {s t : Evaluator} {e : Event} {id : ℕ} {a : Alert} (h : s.step e = some t)
    (hnew : s.db.alerts.length ≤ id) (ha : t.db.alerts[id]? = some a) :
    ∃ now r value, e = .evaluated s.began now r (.promoted (r.touch now (s.db.pending r.key)).1) ∧
      s.clock ≤ now ∧ s.db.selectOpen r.key = none ∧ r.verdict.breaching = true ∧
      r.verdict.required ≤ (r.touch now (s.db.pending r.key)).2.breachCycles ∧
      a = promotedAlert now value r (r.touch now (s.db.pending r.key)).2 := by
  have hlong : id < t.db.alerts.length := (List.getElem?_eq_some_iff.mp ha).1
  have hshort : t.db.alerts.length ≤ s.db.alerts.length → False := fun hle => by omega
  cases step_effect h with
  | beginPass => exact (hshort (sweepOf_handled _ _ _ _).1.1.le).elim
  | rowFailed => exact (hshort le_rfl).elim
  | human => exact (hshort (Db.act_handled _ _ _).1.le).elim
  | evaluated hnow htodo heff =>
    cases heff with
    | cleared | pended => exact (hshort le_rfl).elim
    | healthy | recovered | refreshed =>
      exact (hshort (by simp [Db.modifyAlert, Db.clearPending])).elim
    | promoted hnone hvalue hbreach hcycles =>
      rename_i now r rest value
      refine ⟨now, r, value, rfl, hnow, hnone, hbreach, hcycles, ?_⟩
      simp only [Db.clearPending_alerts, Db.insertAlert, Db.setPending_alerts] at ha
      rw [List.getElem?_append_right hnew] at ha
      exact List.mem_singleton.mp (List.mem_of_getElem? ha)

/-- Only a healthy evaluation of its own key resolves an alert as recovered. -/
theorem step_recovered {s t : Evaluator} {e : Event} {id : ℕ} {a a' : Alert}
    (h : s.step e = some t) (ha : s.db.alerts[id]? = some a) (hopen : a.status.isOpen = true)
    (ha' : t.db.alerts[id]? = some a') (hres : a'.status = .resolved)
    (hreason : a'.resolutionReason = some .recovered) :
    ∃ now r value, e = .evaluated s.began now r (.healthy (cycleDue now a.cycleAt a.triggeredAt)
        (some .recovered)) ∧ s.clock ≤ now ∧ r.key = a.key ∧
      s.db.selectOpen r.key = some (id, a) ∧ r.verdict.breaching = false ∧
      r.verdict.required ≤
        (a.markHealthy now value (r.verdict.healthyThreshold a.severity)).healthyStreak := by
  have hstay : a'.status = a.status → False := fun hs => by
    rw [← hs, hres] at hopen
    cases hopen
  have hhandled : s.db.Handled t.db → False := fun hh => by
    obtain ⟨b, hb, hba⟩ := hh.2 id a' ha'
    obtain rfl := Option.some.inj (ha.symm.trans hb)
    rw [(hba.recovered_before ⟨hres, hreason⟩).1] at hopen
    cases hopen
  cases step_effect h with
  | beginPass => exact (hhandled (sweepOf_handled _ _ _ _).1).elim
  | rowFailed => exact (hhandled (.refl _)).elim
  | human => exact (hhandled (Db.act_handled _ _ _)).elim
  | evaluated hnow htodo heff =>
    cases heff with
    | cleared | pended => exact (hhandled (.refl _)).elim
    | healthy =>
      rw [Db.modifyAlert_getElem?, Db.clearPending_alerts, ha] at ha'
      split at ha' <;> obtain rfl := Option.some.inj ha' <;> exact (hstay rfl).elim
    | refreshed =>
      rw [Db.modifyAlert_getElem?, ha] at ha'
      split at ha' <;> obtain rfl := Option.some.inj ha'
      · rw [Alert.markBreach_status] at hres
        split at hres
        · cases hres
        · rw [hres] at hopen
          cases hopen
      · exact (hstay rfl).elim
    | promoted =>
      have hlt := (List.getElem?_eq_some_iff.mp ha).1
      simp only [Db.clearPending_alerts, Db.insertAlert, Db.setPending_alerts] at ha'
      rw [List.getElem?_append_left hlt, ha] at ha'
      obtain rfl := Option.some.inj ha'
      exact (hstay rfl).elim
    | recovered hsel hvalue hhealthy hstreak =>
      rename_i now r rest i existing value
      rw [Db.modifyAlert_getElem?, Db.modifyAlert_getElem?, Db.clearPending_alerts, ha] at ha'
      split at ha'
      · rename_i hi
        subst hi
        obtain ⟨hrow, hkey⟩ := Db.selectOpen_some hsel
        obtain rfl := Option.some.inj (ha.symm.trans hrow)
        obtain rfl := Option.some.inj ha'
        have hr : r.verdict.recoveryReason = .recovered := by
          have : (a.markHealthy now value (r.verdict.healthyThreshold a.severity)).status.isOpen =
            true := hopen
          simpa [Alert.resolveOpen, this] using hreason
        rw [hr]
        exact ⟨now, r, value, rfl, hnow, (openOn_iff.mp hkey).1.symm, hsel, hhealthy, hstreak⟩
      · obtain rfl := Option.some.inj ha'
        exact (hstay rfl).elim

end Evaluator

/-- One pass over one row, as far as its evaluation. -/
def Event.passOver (now : ℕ) (kind : PassKind) (r : RowInput) : Event :=
  .beginPass now kind r.model r.settings [r.row] []

end MonitoringHub.Alerts
