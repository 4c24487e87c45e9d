import MonitoringHub.Alerts.RowVerdict

/-! The limits shown to people, and that they are the ones the evaluator enforces.
The display path takes its bucket from one batched query and has no cursor, so a
missing bucket in a learned mode is an error rather than a lookup. -/

namespace MonitoringHub.Alerts
open Lib.Text

inductive ThresholdMode
  | anomaly | dynamic | static
  deriving DecidableEq, Repr

/-- The baseline lookup was reached without a cursor. -/
inductive LimitsError
  | noCursor
  deriving DecidableEq, Repr

def thresholdMode (row : ThresholdRow) (dbMetricName : String) : ThresholdMode :=
  if isPlaceholderThreshold row.warningValue row.criticalValue row.comparison then .anomaly
  else if row.useDynamic && !isStaticOnlyMetric dbMetricName then .dynamic
  else .static

def applyFloor (warning critical : ℚ) (comparison : Comparison) (dbMetricName : String) : ℚ × ℚ :=
  let floor := alertFloor dbMetricName
  if floor != 0 && comparison.upward then (max warning floor, max critical floor)
  else (warning, critical)

def wholeLimit (row : ThresholdRow) (dbMetricName : String) (limit : ℚ) : ℚ :=
  if isIntegerMetric row.unit dbMetricName then
    (integerizeLimit (some limit) row.comparison).getD limit
  else limit

def limitsForResource (row : ThresholdRow) (dbMetricName : String) (bucket : Option Bucket) :
    Except LimitsError (Option (ℚ × ℚ)) :=
  match thresholdMode row dbMetricName, bucket with
  | .static, _ => .ok none
  | _, none => .error .noCursor
  | .anomaly, some b =>
    .ok ((anomalyOnlyBound dbMetricName row.k (some b)).map fun line =>
      applyFloor (wholeLimit row dbMetricName line) (wholeLimit row dbMetricName line)
        row.comparison dbMetricName)
  | .dynamic, some b =>
    .ok ((dynamicBounds row.comparison row.k (some row.warningValue) (some row.criticalValue)
        (some b)).map fun dyn =>
      let wc := clampDynamicBounds dyn.1 dyn.2 row.warningValue row.criticalValue
        row.comparison row.unit
      applyFloor (wholeLimit row dbMetricName wc.1) (wholeLimit row dbMetricName wc.2)
        row.comparison dbMetricName)

section SameName
variable {row : EvalRow} {dbMetricName : String}

theorem alertFloor_congr (hname : lower dbMetricName = lower row.metricName) :
    alertFloor dbMetricName = alertFloor row.metricName := by
  rw [alertFloor, alertFloor, hname]

theorem isStaticOnlyMetric_congr (hname : lower dbMetricName = lower row.metricName) :
    isStaticOnlyMetric dbMetricName = isStaticOnlyMetric row.metricName := by
  simp only [isStaticOnlyMetric, isCapacityPercentMetric, hname]

theorem isIntegerMetric_congr (hname : lower dbMetricName = lower row.metricName) :
    isIntegerMetric row.unit dbMetricName = isIntegerMetric row.unit row.metricName := by
  simp only [isIntegerMetric, hname]

theorem anomalyOnlyBound_congr (hname : lower dbMetricName = lower row.metricName)
    (k : ℚ) (bucket : Option Bucket) :
    anomalyOnlyBound dbMetricName k bucket = anomalyOnlyBound row.metricName k bucket := by
  simp only [anomalyOnlyBound, alertFloor_congr hname]

/-- The display's mode is the branch the evaluator takes. -/
theorem thresholdMode_eq (hname : lower dbMetricName = lower row.metricName) :
    thresholdMode row.toThresholdRow dbMetricName =
      if row.anomalyOnly then .anomaly else if row.dynamic then .dynamic else .static := by
  rw [thresholdMode, isStaticOnlyMetric_congr hname]
  rfl

/-- Rounding, then the floor, is what the evaluator does to one learned limit. -/
theorem applyFloor_enforced (hname : lower dbMetricName = lower row.metricName)
    (hreading : row.metricValue.isSome = true) (w c : ℚ) :
    let limits : Option ℚ × Option ℚ :=
      if isIntegerMetric row.unit row.metricName then
        (integerizeLimit (some w) row.comparison, integerizeLimit (some c) row.comparison)
      else (some w, some c)
    let shown := applyFloor (wholeLimit row.toThresholdRow dbMetricName w)
      (wholeLimit row.toThresholdRow dbMetricName c) row.comparison dbMetricName
    liftToFloor row limits.1 = some shown.1 ∧ liftToFloor row limits.2 = some shown.2 := by
  simp only [applyFloor, wholeLimit, liftToFloor, floorApplies, hreading, Bool.and_true,
    alertFloor_congr hname, isIntegerMetric_congr hname]
  split <;> split <;> simp [integerizeLimit]

end SameName

theorem ruleLimits_anomaly {row : EvalRow} (h : row.anomalyOnly = true) (bucket : Option Bucket) :
    ruleLimits row bucket =
      if isIntegerMetric row.unit row.metricName then
        (integerizeLimit (anomalyOnlyBound row.metricName row.k bucket) row.comparison,
          integerizeLimit (anomalyOnlyBound row.metricName row.k bucket) row.comparison)
      else (anomalyOnlyBound row.metricName row.k bucket,
        anomalyOnlyBound row.metricName row.k bucket) := by
  simp only [ruleLimits, h, if_true, Bool.true_or, Bool.true_and]

theorem ruleLimits_dynamic {row : EvalRow} {bucket : Option Bucket} {dyn : ℚ × ℚ}
    (ha : row.anomalyOnly = false) (hd : row.dynamic = true)
    (hdyn : dynamicBounds row.comparison row.k (some row.warningValue) (some row.criticalValue)
      bucket = some dyn) :
    let wc := clampDynamicBounds dyn.1 dyn.2 row.warningValue row.criticalValue
      row.comparison row.unit
    ruleLimits row bucket =
      if isIntegerMetric row.unit row.metricName then
        (integerizeLimit (some wc.1) row.comparison, integerizeLimit (some wc.2) row.comparison)
      else (some wc.1, some wc.2) := by
  simp only [ruleLimits, ha, hd, hdyn, if_true, Bool.false_or, Bool.true_and, Bool.false_eq_true,
    if_false]

/-- Lifting to the floor changes no comparison of a reading above the floor. -/
theorem compare_liftToFloor_eq {row : EvalRow} {limit : Option ℚ} (habove : belowFloor row = false) :
    compare row.metricValue (liftToFloor row limit) row.comparison =
      compare row.metricValue limit row.comparison := by
  cases hraw : compare row.metricValue limit row.comparison with
  | true => exact compare_liftToFloor habove hraw
  | false =>
    unfold liftToFloor
    split
    · rename_i hfloor
      have hup : row.comparison.upward = true := by
        simp only [floorApplies, Bool.and_eq_true] at hfloor
        exact hfloor.1.2
      cases hv : row.metricValue with
      | none => rfl
      | some v =>
        cases limit with
        | none => rfl
        | some l =>
          rw [hv] at hraw
          cases hc : row.comparison with
          | gt =>
            rw [hc] at hraw
            simp_all [compare, Comparison.holds]
          | ge =>
            rw [hc] at hraw
            simp_all [compare, Comparison.holds]
          | lt => simp [hc, Comparison.upward] at hup
          | le => simp [hc, Comparison.upward] at hup
    · exact hraw

/-- Whenever a pair is shown for a reading, the verdict on that reading holds the
same pair and classifies the reading by it. -/
theorem limitsForResource_enforced (M : PollingModel) (S : PollSettings) (row : EvalRow)
    (dbMetricName : String) (bucket : Option Bucket) (w c : ℚ)
    (hname : lower dbMetricName = lower row.metricName)
    (hreading : row.metricValue.isSome = true)
    (h : limitsForResource row.toThresholdRow dbMetricName bucket = .ok (some (w, c))) :
    (verdict M S row bucket).warning = some w ∧ (verdict M S row bucket).critical = some c ∧
      (verdict M S row bucket).isWarning =
        (!belowFloor row && compare row.metricValue (some w) row.comparison) ∧
      (verdict M S row bucket).isCritical =
        (!belowFloor row && (compare row.metricValue (some c) row.comparison &&
          !row.anomalyOnly)) := by
  have hpair : liftToFloor row (ruleLimits row bucket).1 = some w ∧
      liftToFloor row (ruleLimits row bucket).2 = some c := by
    unfold limitsForResource at h
    rw [thresholdMode_eq hname] at h
    by_cases ha : row.anomalyOnly = true
    · cases bucket with
      | none => simp [ha] at h
      | some b =>
        simp only [ha, if_true, Except.ok.injEq, Option.map_eq_some_iff] at h
        obtain ⟨line, hline, hshown⟩ := h
        rw [anomalyOnlyBound_congr hname] at hline
        have hline' : anomalyOnlyBound row.metricName row.k (some b) = some line := hline
        rw [ruleLimits_anomaly ha, hline']
        have := applyFloor_enforced hname hreading line line
        rwa [hshown] at this
    · rw [Bool.not_eq_true] at ha
      by_cases hd : row.dynamic = true
      · cases bucket with
        | none => simp [ha, hd] at h
        | some b =>
          simp only [ha, hd, if_true, Bool.false_eq_true, if_false, Except.ok.injEq,
            Option.map_eq_some_iff] at h
          obtain ⟨dyn, hdyn, hshown⟩ := h
          rw [ruleLimits_dynamic ha hd hdyn]
          have := applyFloor_enforced hname hreading
            (clampDynamicBounds dyn.1 dyn.2 row.warningValue row.criticalValue row.comparison
              row.unit).1
            (clampDynamicBounds dyn.1 dyn.2 row.warningValue row.criticalValue row.comparison
              row.unit).2
          rwa [hshown] at this
      · simp [ha, hd] at h
  refine ⟨(verdict_warning M S row bucket).trans hpair.1,
    (verdict_critical M S row bucket).trans hpair.2, ?_, ?_⟩
  · rw [verdict_isWarning]
    cases hbelow : belowFloor row with
    | true => simp
    | false => simp only [← hpair.1, compare_liftToFloor_eq hbelow]
  · rw [verdict_isCritical]
    cases hbelow : belowFloor row with
    | true => simp
    | false => simp only [← hpair.2, compare_liftToFloor_eq hbelow]

def busyHostRow : EvalRow where
  warningValue := 70
  criticalValue := 90
  comparison := .gt
  evaluationPeriod := 10
  useDynamic := true
  dynamicK := 3
  unit := some "Percent"
  awsAccountId := 1
  awsResourceId := "i-0a"
  resourceType := "ec2"
  service := some "ec2"
  thresholdId := 1
  provider := .aws
  cadence := .core
  metricName := "cpuutilization"
  metricValue := some 75
  metricTimestamp := 0
  envResolved := .prod
  environment := .prod

theorem limitsForResource_enforced_busyHost :
    let V := verdict ⟨fun _ _ => some 300, []⟩ (.read false false none none .slow true) busyHostRow
      (some ⟨50, 10, 30⟩)
    V.warning = some (349 / 5) ∧ V.critical = some 90 ∧ V.isWarning = true ∧
      V.isCritical = false := by
  have hshown : limitsForResource busyHostRow.toThresholdRow "CPUUtilization"
      (some ⟨50, 10, 30⟩) = .ok (some (349 / 5, 90)) := by decide +kernel
  have h := limitsForResource_enforced ⟨fun _ _ => some 300, []⟩
    (.read false false none none .slow true) busyHostRow "CPUUtilization" (some ⟨50, 10, 30⟩)
    (349 / 5) 90 (by decide +kernel) rfl hshown
  have hwarn : (!belowFloor busyHostRow && compare busyHostRow.metricValue (some (349 / 5))
      busyHostRow.comparison) = true := by decide +kernel
  have hcrit : (!belowFloor busyHostRow && (compare busyHostRow.metricValue (some 90)
      busyHostRow.comparison && !busyHostRow.anomalyOnly)) = false := by decide +kernel
  exact ⟨h.1, h.2.1, h.2.2.1.trans hwarn, h.2.2.2.trans hcrit⟩

end MonitoringHub.Alerts
