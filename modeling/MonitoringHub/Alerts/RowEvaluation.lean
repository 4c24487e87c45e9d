import MonitoringHub.Alerts.AlertStore

/-! One row evaluation, as a transaction of its own: what it reads, which of its
branches it takes and what it leaves in the two tables. `RowEffect` lists the
branches once; every invariant of the evaluator is a case split on it. -/

namespace MonitoringHub.Alerts
open Lib

/-- A row with everything its evaluation looks up besides the two tables. -/
structure RowInput where
  row : EvalRow
  model : PollingModel
  settings : PollSettings
  bucket : Option Bucket
  silenceReason : Option String

def RowInput.key (r : RowInput) : AlertKey := r.row.key

def RowInput.verdict (r : RowInput) : Verdict :=
  MonitoringHub.Alerts.verdict r.model r.settings r.row r.bucket

namespace Verdict

def breaching (v : Verdict) : Bool := v.isCritical || v.isWarning

def severity (v : Verdict) : Severity :=
  if v.isCritical then .critical else
    match v.environment with
    | .prod => .warning
    | .nonprod => .info

def thresholdValue (v : Verdict) : Option ℚ := if v.isCritical then v.critical else v.warning

/-- The limit shown on an open alert while it is healthy. -/
def healthyThreshold (v : Verdict) (severity : Severity) : Option ℚ :=
  if severity = .critical then v.critical else v.warning

def recoveryReason (v : Verdict) : ResolutionReason :=
  if v.capped && v.warning.isNone then .placeholderThreshold else .recovered

def promotedSeverity (v : Verdict) (pending : Severity) : Severity :=
  if v.capped && pending = .critical then .warning else pending

/-- The pending row can hold CRITICAL from an earlier cycle. -/
def promotedThreshold (v : Verdict) (promoted : Severity) : Option ℚ :=
  if promoted = .critical ∧ v.isCritical = false ∧ v.critical.isSome = true then v.critical
  else v.thresholdValue

theorem severity_critical_iff (v : Verdict) : v.severity = .critical ↔ v.isCritical = true := by
  unfold severity
  split
  · rename_i h
    simp [h]
  · rename_i h
    cases v.environment <;> simp [h]

/-- What a breaching verdict records was crossed by its own reading. -/
theorem thresholdValue_breached (v : Verdict) (h : v.breaching = true) :
    compare v.value v.thresholdValue v.comparison = true := by
  unfold thresholdValue
  split
  · rename_i hc
    exact v.critical_breaches hc
  · rename_i hc
    refine v.warning_breaches ?_
    simpa [breaching, hc] using h

theorem value_isSome (v : Verdict) (h : v.breaching = true) : v.value.isSome = true := by
  obtain ⟨x, _, hx, -, -⟩ := compare_some (v.thresholdValue_breached h)
  simp [hx]

end Verdict

def groupKeyOf (row : EvalRow) : String :=
  toString row.awsAccountId ++ ":" ++ row.resourceType ++ ":" ++ row.metricName

/-- The touch a breaching verdict makes on the pending row of its key. -/
def RowInput.touch (r : RowInput) (now : ℕ) (p : Option Pending) : Touch × Pending :=
  touchPending now r.verdict.severity r.verdict.environment r.verdict.value
    r.verdict.thresholdValue p

section Touch
variable (r : RowInput) {now : ℕ} {p : Pending}

theorem RowInput.touch_none (now : ℕ) :
    (r.touch now none).1 = .inserted ∧ (r.touch now none).2.breachCycles = 1 ∧
      (r.touch now none).2.clock = now := ⟨rfl, rfl, rfl⟩

theorem RowInput.touch_due (hdue : p.clock + minCycleSeconds ≤ now) :
    (r.touch now (some p)).1 = .counted ∧
      (r.touch now (some p)).2.breachCycles = p.breachCycles + 1 ∧
      (r.touch now (some p)).2.clock = now := by
  have hgate : cycleDue now p.cycleAt p.firstBreachAt = true := decide_eq_true hdue
  simp [RowInput.touch, touchPending, hgate, Pending.clock]

theorem RowInput.touch_waits (hdue : ¬ p.clock + minCycleSeconds ≤ now) :
    (r.touch now (some p)).1 = .waited ∧
      (r.touch now (some p)).2.breachCycles = p.breachCycles ∧
      (r.touch now (some p)).2.clock = p.clock := by
  have hgate : cycleDue now p.cycleAt p.firstBreachAt = false := decide_eq_false hdue
  simp [RowInput.touch, touchPending, hgate, Pending.clock]

end Touch

def promotedAlert (now : ℕ) (value : ℚ) (r : RowInput) (p : Pending) : Alert :=
  let severity := r.verdict.promotedSeverity p.severity
  { key := r.key
    severity := severity
    environment := r.verdict.environment
    groupKey := groupKeyOf r.row
    status := .active
    acked := false
    ackedBy := none
    ackedAt := none
    triggeredAt := p.firstBreachAt
    lastSeenAt := now
    cycleAt := some now
    healthyStreak := 0
    currentValue := value
    threshold := r.verdict.promotedThreshold severity
    breachValue := some value
    breachThreshold := r.verdict.promotedThreshold severity
    silencedReason := r.silenceReason
    resolvedAt := none
    resolutionReason := none
    resolvedBy := none }

inductive Outcome
  | cleared
  | healthy (counted : Bool) (resolved : Option ResolutionReason)
  | refreshed
  | pended (touch : Touch)
  | promoted (touch : Touch)
  deriving DecidableEq, Repr

/-- `_evaluate_row`; `none` is an exception, which the caller rolls back. The alert
columns for the reading are NOT NULL, so a missing reading raises where it is written. -/
def evaluateRow (now : ℕ) (r : RowInput) (db : Db) : Option (Outcome × Db) :=
  let v := r.verdict
  match db.selectOpen r.key with
  | some (id, existing) =>
    v.value.map fun value =>
      if v.breaching then
        (.refreshed,
          db.modifyAlert id (.markBreach now value v.thresholdValue v.severity existing))
      else
        let mark := Alert.markHealthy now value (v.healthyThreshold existing.severity)
        let counted := cycleDue now existing.cycleAt existing.triggeredAt
        let db := (db.clearPending r.key).modifyAlert id mark
        if (mark existing).healthyStreak ≥ v.required then
          (.healthy counted (some v.recoveryReason),
            db.modifyAlert id (.resolveOpen now v.recoveryReason))
        else (.healthy counted none, db)
  | none =>
    if v.breaching then
      let t := r.touch now (db.pending r.key)
      let db := db.setPending r.key (some t.2)
      if t.2.breachCycles < v.required then some (.pended t.1, db)
      else v.value.map fun value =>
        (.promoted t.1, (db.insertAlert (promotedAlert now value r t.2)).clearPending r.key)
    else some (.cleared, db.clearPending r.key)

inductive RowEffect (now : ℕ) (r : RowInput) (db : Db) : Outcome → Db → Prop
  | cleared (hnone : db.selectOpen r.key = none) (hhealthy : r.verdict.breaching = false) :
      RowEffect now r db .cleared (db.clearPending r.key)
  | healthy {id : ℕ} {existing : Alert} {value : ℚ}
      (hopen : db.selectOpen r.key = some (id, existing))
      (hvalue : r.verdict.value = some value) (hhealthy : r.verdict.breaching = false)
      (hstreak : (existing.markHealthy now value
        (r.verdict.healthyThreshold existing.severity)).healthyStreak < r.verdict.required) :
      RowEffect now r db (.healthy (cycleDue now existing.cycleAt existing.triggeredAt) none)
        ((db.clearPending r.key).modifyAlert id
          (.markHealthy now value (r.verdict.healthyThreshold existing.severity)))
  | recovered {id : ℕ} {existing : Alert} {value : ℚ}
      (hopen : db.selectOpen r.key = some (id, existing))
      (hvalue : r.verdict.value = some value) (hhealthy : r.verdict.breaching = false)
      (hstreak : r.verdict.required ≤ (existing.markHealthy now value
        (r.verdict.healthyThreshold existing.severity)).healthyStreak) :
      RowEffect now r db
        (.healthy (cycleDue now existing.cycleAt existing.triggeredAt)
          (some r.verdict.recoveryReason))
        (((db.clearPending r.key).modifyAlert id
          (.markHealthy now value (r.verdict.healthyThreshold existing.severity))).modifyAlert id
            (.resolveOpen now r.verdict.recoveryReason))
  | refreshed {id : ℕ} {existing : Alert} {value : ℚ}
      (hopen : db.selectOpen r.key = some (id, existing))
      (hvalue : r.verdict.value = some value) (hbreach : r.verdict.breaching = true) :
      RowEffect now r db .refreshed
        (db.modifyAlert id
          (.markBreach now value r.verdict.thresholdValue r.verdict.severity existing))
  | pended (hnone : db.selectOpen r.key = none) (hbreach : r.verdict.breaching = true)
      (hcycles : (r.touch now (db.pending r.key)).2.breachCycles < r.verdict.required) :
      RowEffect now r db (.pended (r.touch now (db.pending r.key)).1)
        (db.setPending r.key (some (r.touch now (db.pending r.key)).2))
  | promoted {value : ℚ} (hnone : db.selectOpen r.key = none)
      (hvalue : r.verdict.value = some value) (hbreach : r.verdict.breaching = true)
      (hcycles : r.verdict.required ≤ (r.touch now (db.pending r.key)).2.breachCycles) :
      RowEffect now r db (.promoted (r.touch now (db.pending r.key)).1)
        (((db.setPending r.key (some (r.touch now (db.pending r.key)).2)).insertAlert
          (promotedAlert now value r (r.touch now (db.pending r.key)).2)).clearPending r.key)

theorem evaluateRow_effect {now : ℕ} {r : RowInput} {db db' : Db} {o : Outcome}
    (h : evaluateRow now r db = some (o, db')) : RowEffect now r db o db' := by
  unfold evaluateRow at h
  cases hsel : db.selectOpen r.key with
  | some found =>
    obtain ⟨id, existing⟩ := found
    simp only [hsel, Option.map_eq_some_iff] at h
    obtain ⟨value, hvalue, h⟩ := h
    split at h
    · rename_i hbreach
      obtain ⟨rfl, rfl⟩ := Prod.mk.inj h
      exact .refreshed hsel hvalue hbreach
    · rename_i hbreach
      rw [Bool.not_eq_true] at hbreach
      split at h
      · rename_i hstreak
        obtain ⟨rfl, rfl⟩ := Prod.mk.inj h
        exact .recovered hsel hvalue hbreach hstreak
      · rename_i hstreak
        obtain ⟨rfl, rfl⟩ := Prod.mk.inj h
        exact .healthy hsel hvalue hbreach (by omega)
  | none =>
    simp only [hsel] at h
    split at h
    · rename_i hbreach
      split at h
      · rename_i hcycles
        obtain ⟨rfl, rfl⟩ := Prod.mk.inj (Option.some.inj h)
        exact .pended hsel hbreach hcycles
      · rename_i hcycles
        obtain ⟨value, hvalue, h⟩ := Option.map_eq_some_iff.mp h
        obtain ⟨rfl, rfl⟩ := Prod.mk.inj h
        exact .promoted hsel hvalue hbreach (by omega)
    · rename_i hbreach
      rw [Bool.not_eq_true] at hbreach
      obtain ⟨rfl, rfl⟩ := Prod.mk.inj (Option.some.inj h)
      exact .cleared hsel hbreach

/-- A CPU reading of one production host under a typed 70 / 90 rule. -/
def hostCpu (value : ℚ) (period : ℤ) : RowInput where
  row := {
    warningValue := 70
    criticalValue := 90
    comparison := .gt
    evaluationPeriod := period
    useDynamic := false
    dynamicK := 3
    unit := some "Percent"
    awsAccountId := 1
    awsResourceId := "i-0a"
    resourceType := "ec2"
    service := some "ec2"
    thresholdId := 1
    provider := .aws
    cadence := .core
    metricName := "cpuutilization"
    metricValue := some value
    metricTimestamp := 0
    envResolved := .prod
    environment := .prod }
  model := ⟨fun _ _ => some 120, [("ec2", "cpuutilization")]⟩
  settings := .read false false none none .slow true
  bucket := none
  silenceReason := none

end MonitoringHub.Alerts
