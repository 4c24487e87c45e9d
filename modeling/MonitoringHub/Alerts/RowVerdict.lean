import Mathlib.Data.List.Nodup
import MonitoringHub.Alerts.ThresholdBounds
import MonitoringHub.Alerts.EnvPolling

/-! One reading joined with its rule row, and the verdict the evaluator reaches on
it before it touches a table: the limits in force, whether each is crossed, and
how many cycles must confirm it. A verdict carries the proof that a reading
called critical or warning breaches the limit recorded with it. -/

namespace MonitoringHub.Alerts
open Lib.Text

inductive Provider
  | aws | azure | gcp
  deriving DecidableEq, Repr

inductive Cadence
  | core | extended | slow
  deriving DecidableEq, Repr

structure AlertKey where
  awsAccountId : ℕ
  resourceId : String
  metricName : String
  deriving DecidableEq, Repr

structure EvalRow extends ThresholdRow where
  awsAccountId : ℕ
  awsResourceId : String
  resourceType : String
  service : Option String
  thresholdId : ℕ
  provider : Provider
  cadence : Cadence
  metricName : String
  metricValue : Option ℚ
  metricTimestamp : ℕ
  envResolved : Tier
  environment : Tier
  deriving DecidableEq, Repr

def EvalRow.key (row : EvalRow) : AlertKey := ⟨row.awsAccountId, row.awsResourceId, row.metricName⟩

/-- The tables of `polling_model` the evaluator asks. -/
structure PollingModel where
  baseIntervalSeconds : String → String → Option ℕ
  p1MetricKeys : List (String × String)

def PollingModel.isP1 (M : PollingModel) (row : EvalRow) : Bool :=
  M.p1MetricKeys.contains (row.resourceType, lower row.metricName)

/-- Whether the row is evaluated at all, and the factor on its cycles. -/
def envPollRowInfo (M : PollingModel) (S : PollSettings) (row : EvalRow) : Bool × ℕ :=
  if !S.enabled || row.provider != .aws then (true, 1) else
    let critical := M.isP1 row
    let base := M.baseIntervalSeconds row.resourceType (lower row.metricName)
    let evaluate := evaluateForAlerts S row.envResolved critical row.resourceType base
    match base with
    | none => (evaluate, 1)
    | some b => (evaluate, alertForScale S row.envResolved b critical row.resourceType)

def normalizeServiceKey (resourceType resourceId : String) : String :=
  if resourceType == "elb" then
    if contains resourceId "loadbalancer/app/" then "alb"
    else if contains resourceId "loadbalancer/net/" then "nlb"
    else resourceType
  else if resourceType == "ecs" || resourceType == "ecs_service" then "ecs"
  else resourceType

/-- The rule of the other load-balancer family. -/
def wrongService (row : EvalRow) : Bool :=
  let service := lower (row.service.getD "")
  let keyService := normalizeServiceKey "elb" row.awsResourceId
  row.resourceType == "elb" && (service == "alb" || service == "nlb") &&
    (keyService == "alb" || keyService == "nlb") && keyService != service

def chosenKey (row : EvalRow) : ℕ × String × String :=
  (row.awsAccountId, row.awsResourceId, lower row.metricName)

def chooseRow (chosen : List EvalRow) (row : EvalRow) : List EvalRow :=
  if wrongService row then chosen else
    match chosen.find? fun prev => chosenKey prev = chosenKey row with
    | none => chosen ++ [row]
    | some prev =>
      if row.thresholdId < prev.thresholdId then
        chosen.map fun r => if chosenKey r = chosenKey row then row else r
      else chosen

def selectThresholdRows (rows : List EvalRow) : List EvalRow := rows.foldl chooseRow []

theorem chooseRow_nodup {chosen : List EvalRow} (row : EvalRow)
    (h : (chosen.map chosenKey).Nodup) : ((chooseRow chosen row).map chosenKey).Nodup := by
  unfold chooseRow
  split
  · exact h
  · split
    · rename_i hnone
      rw [List.map_append, List.nodup_append]
      refine ⟨h, List.nodup_singleton _, fun a ha b hb => ?_⟩
      obtain ⟨r, hr, rfl⟩ := List.mem_map.mp ha
      obtain rfl := List.mem_singleton.mp hb
      simpa using List.find?_eq_none.mp hnone r hr
    · split
      · have hkeys : (chosen.map fun r => if chosenKey r = chosenKey row then row else r).map
            chosenKey = chosen.map chosenKey := by
          rw [List.map_map]
          refine List.map_congr_left fun r _ => ?_
          by_cases hr : chosenKey r = chosenKey row <;> simp [hr]
        rwa [hkeys]
      · exact h

/-- One rule row per (account, resource, metric) and pass. -/
theorem selectThresholdRows_nodup (rows : List EvalRow) :
    ((selectThresholdRows rows).map chosenKey).Nodup :=
  List.foldlRecOn (motive := fun chosen => (chosen.map chosenKey).Nodup) rows chooseRow
    List.nodup_nil fun _ h row _ => chooseRow_nodup row h

def EvalRow.anomalyOnly (row : EvalRow) : Bool :=
  isPlaceholderThreshold row.warningValue row.criticalValue row.comparison

/-- The row takes a learned band: the flag is on and the metric may use one. -/
def EvalRow.dynamic (row : EvalRow) : Bool :=
  row.useDynamic && !isStaticOnlyMetric row.metricName

/-- Warning and critical limit before the size floor. -/
def ruleLimits (row : EvalRow) (bucket : Option Bucket) : Option ℚ × Option ℚ :=
  let limits : Option ℚ × Option ℚ :=
    if row.anomalyOnly then
      let line := anomalyOnlyBound row.metricName row.k bucket
      (line, line)
    else if row.dynamic then
      match dynamicBounds row.comparison row.k (some row.warningValue) (some row.criticalValue)
          bucket with
      | some dyn =>
        let wc := clampDynamicBounds dyn.1 dyn.2 row.warningValue row.criticalValue
          row.comparison row.unit
        (some wc.1, some wc.2)
      | none => (some row.warningValue, some row.criticalValue)
    else (some row.warningValue, some row.criticalValue)
  if (row.anomalyOnly || row.dynamic) && isIntegerMetric row.unit row.metricName then
    (integerizeLimit limits.1 row.comparison, integerizeLimit limits.2 row.comparison)
  else limits

/-- Cycles asked for before environment polling scales them. -/
def cyclesAsked (row : EvalRow) : ℕ :=
  match row.cadence with
  | .core =>
    if row.anomalyOnly then max (requiredCycles row.evaluationPeriod) anomalyMinCycles
    else requiredCycles row.evaluationPeriod
  | _ => 1

def cyclesRequired (M : PollingModel) (S : PollSettings) (row : EvalRow) : ℕ :=
  if row.cadence = .core ∧ S.enabled = true then
    let pollScale := (envPollRowInfo M S row).2
    if pollScale > 1 then cyclesAsked row * pollScale else cyclesAsked row
  else cyclesAsked row

/-- The size floor acts on this reading. -/
def floorApplies (row : EvalRow) : Bool :=
  alertFloor row.metricName != 0 && row.comparison.upward && row.metricValue.isSome

def liftToFloor (row : EvalRow) (limit : Option ℚ) : Option ℚ :=
  if floorApplies row then limit.map fun l => max l (alertFloor row.metricName) else limit

def belowFloor (row : EvalRow) : Bool :=
  floorApplies row && row.metricValue.any fun v => decide (v ≤ alertFloor row.metricName)

structure Verdict where
  value : Option ℚ
  comparison : Comparison
  warning : Option ℚ
  critical : Option ℚ
  isCritical : Bool
  isWarning : Bool
  capped : Bool
  required : ℕ
  environment : Tier
  critical_breaches : isCritical = true → compare value critical comparison = true
  warning_breaches : isWarning = true → compare value warning comparison = true
  capped_not_critical : capped = true → isCritical = false
  required_pos : 1 ≤ required
  deriving DecidableEq

/-- A reading above the floor that crosses a limit crosses the lifted limit too. -/
theorem compare_liftToFloor {row : EvalRow} {limit : Option ℚ} (habove : belowFloor row = false)
    (h : compare row.metricValue limit row.comparison = true) :
    compare row.metricValue (liftToFloor row limit) row.comparison = true := by
  obtain ⟨v, t, hv, rfl, hvt⟩ := compare_some h
  unfold liftToFloor
  split
  · rename_i hfloor
    have hlt : alertFloor row.metricName < v := by
      simpa [belowFloor, hfloor, hv] using habove
    have hup : row.comparison.upward = true := by
      simp only [floorApplies, Bool.and_eq_true] at hfloor
      exact hfloor.1.2
    rw [hv]
    cases hc : row.comparison with
    | gt =>
      rw [hc] at hvt
      simp_all [compare, Comparison.holds]
    | ge =>
      rw [hc] at hvt
      simp_all [compare, Comparison.holds, le_of_lt]
    | lt => simp [hc, Comparison.upward] at hup
    | le => simp [hc, Comparison.upward] at hup
  · exact h

theorem cyclesAsked_pos (row : EvalRow) : 1 ≤ cyclesAsked row := by
  have := requiredCycles_pos row.evaluationPeriod
  unfold cyclesAsked
  split
  · split
    · exact this.trans (le_max_left _ _)
    · exact this
  · exact le_rfl

theorem cyclesRequired_pos (M : PollingModel) (S : PollSettings) (row : EvalRow) :
    1 ≤ cyclesRequired M S row := by
  have hasked := cyclesAsked_pos row
  unfold cyclesRequired
  split
  · simp only
    split
    · exact Nat.mul_pos hasked (by omega)
    · exact hasked
  · exact hasked

def verdict (M : PollingModel) (S : PollSettings) (row : EvalRow) (bucket : Option Bucket) :
    Verdict where
  value := row.metricValue
  comparison := row.comparison
  warning := liftToFloor row (ruleLimits row bucket).1
  critical := liftToFloor row (ruleLimits row bucket).2
  isCritical := !belowFloor row &&
    (compare row.metricValue (ruleLimits row bucket).2 row.comparison && !row.anomalyOnly)
  isWarning := !belowFloor row && compare row.metricValue (ruleLimits row bucket).1 row.comparison
  capped := row.anomalyOnly
  required := cyclesRequired M S row
  environment := row.environment
  critical_breaches h := by
    simp only [Bool.and_eq_true, Bool.not_eq_true'] at h
    exact compare_liftToFloor h.1 h.2.1
  warning_breaches h := by
    simp only [Bool.and_eq_true, Bool.not_eq_true'] at h
    exact compare_liftToFloor h.1 h.2
  capped_not_critical h := by simp [h]
  required_pos := cyclesRequired_pos M S row

section Fields
variable (M : PollingModel) (S : PollSettings) (row : EvalRow) (bucket : Option Bucket)

theorem verdict_warning :
    (verdict M S row bucket).warning = liftToFloor row (ruleLimits row bucket).1 := by
  rw [verdict]

theorem verdict_critical :
    (verdict M S row bucket).critical = liftToFloor row (ruleLimits row bucket).2 := by
  rw [verdict]

theorem verdict_isWarning : (verdict M S row bucket).isWarning =
    (!belowFloor row && compare row.metricValue (ruleLimits row bucket).1 row.comparison) := by
  rw [verdict]

theorem verdict_isCritical : (verdict M S row bucket).isCritical =
    (!belowFloor row && (compare row.metricValue (ruleLimits row bucket).2 row.comparison &&
      !row.anomalyOnly)) := by
  rw [verdict]

end Fields

end MonitoringHub.Alerts
