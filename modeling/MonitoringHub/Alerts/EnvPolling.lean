import Mathlib.Data.Rat.Floor
import Mathlib.Algebra.Order.Floor.Semiring

/-! Environment-based polling. A non-production metric may be collected less often
than its base interval; the evaluator then scales the number of cycles it asks
for. `PollSettings` carries the bounds the settings reader enforces. -/

namespace MonitoringHub.Alerts

inductive Tier
  | prod | nonprod
  deriving DecidableEq, Repr

inductive NoncriticalMode
  | slow | off
  deriving DecidableEq, Repr

def minIntervalSeconds : ℕ := 120
def maxIntervalSeconds : ℕ := 86400
def neverSlowAtOrAboveSeconds : ℕ := 86400
def cycleSeconds : ℕ := 300
def defaultNonprodIntervalSeconds : ℕ := 3600
def defaultNonprodCriticalIntervalSeconds : ℕ := 600
def exemptResourceTypes : List String := ["wafv2"]

/-- `_int_env`: the default when the setting does not parse, else clamped. -/
def intEnv (parsed : Option ℤ) (default : ℕ) : ℕ :=
  match parsed with
  | none => default
  | some v => (max (minIntervalSeconds : ℤ) (min maxIntervalSeconds v)).toNat

theorem intEnv_bounds (parsed : Option ℤ) {default : ℕ}
    (h : minIntervalSeconds ≤ default ∧ default ≤ maxIntervalSeconds) :
    minIntervalSeconds ≤ intEnv parsed default ∧ intEnv parsed default ≤ maxIntervalSeconds := by
  cases parsed with
  | none => exact h
  | some v =>
    simp only [intEnv, minIntervalSeconds, maxIntervalSeconds]
    omega

structure PollSettings where
  enabled : Bool
  nonprodInterval : ℕ
  nonprodCriticalInterval : ℕ
  noncriticalMode : NoncriticalMode
  evalCriticalOnly : Bool
  interval_bounds : minIntervalSeconds ≤ nonprodInterval ∧ nonprodInterval ≤ maxIntervalSeconds
  critical_bounds : minIntervalSeconds ≤ nonprodCriticalInterval ∧
    nonprodCriticalInterval ≤ maxIntervalSeconds

/-- The settings as read from the environment: both flags, the two parsed
intervals, the mode and the evaluation switch. -/
def PollSettings.read (requested classification : Bool) (interval criticalInterval : Option ℤ)
    (mode : NoncriticalMode) (evalCriticalOnly : Bool) : PollSettings where
  enabled := requested && classification
  nonprodInterval := intEnv interval defaultNonprodIntervalSeconds
  nonprodCriticalInterval := intEnv criticalInterval defaultNonprodCriticalIntervalSeconds
  noncriticalMode := mode
  evalCriticalOnly := evalCriticalOnly
  interval_bounds := intEnv_bounds _ (by decide)
  critical_bounds := intEnv_bounds _ (by decide)

/-- Seconds between collections, `none` when the metric is not collected. -/
def effectiveInterval (S : PollSettings) (env : Tier) (base : ℕ) (critical : Bool)
    (resourceType : String) : Option ℕ :=
  if !S.enabled || decide (base ≥ neverSlowAtOrAboveSeconds) ||
      exemptResourceTypes.contains resourceType then some base
  else match env with
  | .prod => some base
  | .nonprod =>
    if critical then some (max base S.nonprodCriticalInterval)
    else match S.noncriticalMode with
    | .off => none
    | .slow => some (max base S.nonprodInterval)

def alertForScale (S : PollSettings) (env : Tier) (base : ℕ) (critical : Bool)
    (resourceType : String) : ℕ :=
  match effectiveInterval S env base critical resourceType with
  | none => 1
  | some eff =>
    if eff ≤ base then 1 else max 1 ⌈(eff : ℚ) / (max base cycleSeconds : ℕ)⌉₊

def evaluateForAlerts (S : PollSettings) (env : Tier) (critical : Bool) (resourceType : String)
    (base : Option ℕ) : Bool :=
  if !S.enabled || exemptResourceTypes.contains resourceType then true
  else if base.any fun b => decide (b ≥ neverSlowAtOrAboveSeconds) then true
  else match env with
  | .prod => true
  | .nonprod => critical || !S.evalCriticalOnly

theorem effectiveInterval_ge_base {S : PollSettings} {env : Tier} {base eff : ℕ} {critical : Bool}
    {resourceType : String} (h : effectiveInterval S env base critical resourceType = some eff) :
    base ≤ eff := by
  unfold effectiveInterval at h
  split at h
  · exact (Option.some.inj h).le
  · cases env with
    | prod => exact (Option.some.inj h).le
    | nonprod =>
      simp only at h
      split at h
      · exact (le_max_left _ _).trans (Option.some.inj h).le
      · split at h
        · cases h
        · exact (le_max_left _ _).trans (Option.some.inj h).le

theorem effectiveInterval_slowed {S : PollSettings} {env : Tier} {base eff : ℕ} {critical : Bool}
    {resourceType : String} (h : effectiveInterval S env base critical resourceType = some eff)
    (hslow : base < eff) : minIntervalSeconds ≤ eff ∧ env = .nonprod ∧ S.enabled = true := by
  unfold effectiveInterval at h
  split at h
  · have := Option.some.inj h
    omega
  · rename_i hgo
    have hon : S.enabled = true := by
      simp only [Bool.or_eq_true, Bool.not_eq_true', not_or] at hgo
      simpa using hgo.1.1
    cases env with
    | prod =>
      have := Option.some.inj h
      omega
    | nonprod =>
      refine ⟨?_, rfl, hon⟩
      simp only at h
      split at h
      · exact S.critical_bounds.1.trans ((le_max_right _ _).trans (Option.some.inj h).le)
      · split at h
        · cases h
        · exact S.interval_bounds.1.trans ((le_max_right _ _).trans (Option.some.inj h).le)

theorem alertForScale_slowed {S : PollSettings} {env : Tier} {base eff : ℕ} {critical : Bool}
    {resourceType : String} (h : effectiveInterval S env base critical resourceType = some eff)
    (hslow : base < eff) : alertForScale S env base critical resourceType =
      max 1 ⌈(eff : ℚ) / (max base cycleSeconds : ℕ)⌉₊ := by
  rw [alertForScale, h]
  exact if_neg (by omega)

end MonitoringHub.Alerts
