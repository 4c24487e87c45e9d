import MonitoringHub.Alerts.ThresholdDefaults

/-! The limit a reading is compared with: the dynamic band of the current
hour-of-week bucket with its guard rails, the anomaly line of a placeholder row,
and the number of cycles a rule asks for. -/

namespace MonitoringHub.Alerts
open Lib.Text

/-- SQL / Python `compare`: a missing value or limit never breaches. -/
def compare (value threshold : Option ℚ) (op : Comparison) : Bool :=
  match value, threshold with
  | some v, some t => op.holds v t
  | _, _ => false

def confidentSamples : ℤ := 20
def maxTightenFactor : ℚ := 1 / 2
def percentCap : ℚ := 999 / 10
def anomalyMinRatio : ℚ := 3 / 2
def anomalyMinCycles : ℕ := 3
def cycleMinutes : ℕ := 5

/-- A row of `metric_baseline` for the current hour of the day and day of the week. -/
structure Bucket where
  mean : ℚ
  stddev : ℚ
  samples : ℤ
  deriving DecidableEq, Repr

/-- The typed columns of a threshold row and the unit of its catalog metric. -/
structure ThresholdRow where
  warningValue : ℚ
  criticalValue : ℚ
  comparison : Comparison
  evaluationPeriod : ℤ
  useDynamic : Bool
  dynamicK : ℚ
  unit : Option String
  deriving DecidableEq, Repr

/-- `row["dynamic_k"] or 3.0` -/
def ThresholdRow.k (row : ThresholdRow) : ℚ := if row.dynamicK = 0 then 3 else row.dynamicK

def dynamicBounds (comparison : Comparison) (k : ℚ) (staticWarning staticCritical : Option ℚ)
    (bucket : Option Bucket) : Option (ℚ × ℚ) :=
  match bucket with
  | none => none
  | some b =>
    if b.stddev = 0 then none else
      let warnK := k * (33 / 50)
      let dyn :=
        if comparison.upward then (b.mean + warnK * b.stddev, b.mean + k * b.stddev)
        else (b.mean - warnK * b.stddev, b.mean - k * b.stddev)
      match staticWarning, staticCritical with
      | some sw, some sc =>
        if b.samples ≥ confidentSamples then some dyn else
          -- below the confident count the band is blended with the typed values
          let weight : ℚ := max 0 (min 1 ((b.samples : ℚ) / confidentSamples))
          some (weight * dyn.1 + (1 - weight) * sw, weight * dyn.2 + (1 - weight) * sc)
      | _, _ => some dyn

def clampDynamicBounds (dynWarning dynCritical sw sc : ℚ) (comparison : Comparison)
    (unit : Option String) : ℚ × ℚ :=
  if comparison.upward then
    let w := max dynWarning (sw * maxTightenFactor)
    let c := max dynCritical sc
    let wc :=
      if lower (unit.getD "") == "percent" && decide (sc ≤ 100) then
        let cap := if sc ≤ percentCap then percentCap else sc
        (min w cap, min c cap)
      else (w, c)
    if wc.1 > wc.2 then (wc.2, wc.2) else wc
  else
    let w := min dynWarning (if sw > 0 then sw / maxTightenFactor else sw)
    let c := min dynCritical sc
    if c > w then (w, w) else (w, c)

def anomalyOnlyBound (metricName : String) (k : ℚ) (bucket : Option Bucket) : Option ℚ :=
  match bucket with
  | none => none
  | some b =>
    if b.samples < confidentSamples ∨ b.stddev = 0 then none else
      let line := b.mean + max k 3 * b.stddev
      let line := if b.mean > 0 then max line (b.mean * anomalyMinRatio) else line
      some (max line (alertFloor metricName))

/-- Minutes to cycles, rounded up; a period of 0 is the default of one cycle. -/
def requiredCycles (evaluationPeriod : ℤ) : ℕ :=
  let period : ℤ := if evaluationPeriod = 0 then cycleMinutes else evaluationPeriod
  (max 1 ⌈(period : ℚ) / cycleMinutes⌉).toNat

theorem requiredCycles_pos (evaluationPeriod : ℤ) : 1 ≤ requiredCycles evaluationPeriod := by
  simp only [requiredCycles]
  omega

/-- A period of that many minutes asks for that many cycles. -/
theorem requiredCycles_minutes {cycles : ℕ} (h : 0 < cycles) :
    requiredCycles (cycleMinutes * cycles) = cycles := by
  have hperiod : ((cycleMinutes : ℤ) * cycles) ≠ 0 := by
    simp only [cycleMinutes]
    omega
  have hratio : (((cycleMinutes : ℤ) * cycles : ℤ) : ℚ) / cycleMinutes = ((cycles : ℤ) : ℚ) := by
    simp only [cycleMinutes]
    push_cast
    ring
  simp only [requiredCycles, if_neg hperiod, hratio, Int.ceil_intCast]
  omega

theorem compare_some {value threshold : Option ℚ} {op : Comparison}
    (h : compare value threshold op = true) :
    ∃ v t, value = some v ∧ threshold = some t ∧ op.holds v t = true := by
  cases value with
  | none => simp [compare] at h
  | some v =>
    cases threshold with
    | none => simp [compare] at h
    | some t => exact ⟨v, t, rfl, rfl, h⟩

theorem anomalyOnlyBound_ge_floor {metricName : String} {k : ℚ} {bucket : Option Bucket} {line : ℚ}
    (h : anomalyOnlyBound metricName k bucket = some line) : alertFloor metricName ≤ line := by
  cases bucket with
  | none => simp [anomalyOnlyBound] at h
  | some b =>
    simp only [anomalyOnlyBound] at h
    split at h
    · simp at h
    · rw [← Option.some.inj h]
      exact le_max_right _ _

end MonitoringHub.Alerts
