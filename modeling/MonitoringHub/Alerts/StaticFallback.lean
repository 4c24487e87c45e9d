import MonitoringHub.Alerts.EffectiveLimits

/-! A dynamic row without a usable baseline bucket. The limits in force are the typed ones; they
are rounded all the same, since only the mode of the row and its unit ask for whole numbers. -/

namespace MonitoringHub.Alerts
open Lib.Text

/-- There is no bucket for the hour, or it is flat. -/
def Unusable (bucket : Option Bucket) : Prop := ∀ b ∈ bucket, b.stddev = 0

def EvalRow.withDynamic (row : EvalRow) (useDynamic : Bool) : EvalRow :=
  { row with useDynamic := useDynamic }

/-- Rounding cannot be seen in the limit: it is whole, or the size floor stands in for it. -/
def EvalRow.Settled (row : EvalRow) (limit : ℚ) : Prop :=
  limit = ⌊limit⌋ ∨ floorApplies row = true ∧ limit ≤ alertFloor row.metricName

/-- A metric that can take a learned line and counts things has settled limits. -/
def EvalRow.TypedLimitsSettled (row : EvalRow) : Prop :=
  isStaticOnlyMetric row.metricName = false → isIntegerMetric row.unit row.metricName = true →
    row.Settled row.warningValue ∧ row.Settled row.criticalValue

section Rounding
variable {op : Comparison} {limit whole : ℚ} {n : ℤ}

theorem integerizeLimit_whole (h : integerizeLimit (some limit) op = some whole) :
    whole = ⌊whole⌋ := by
  simp only [integerizeLimit, Option.map_some, Option.some.injEq] at h
  subst h
  cases op with
  | gt | ge | lt | le => rw [Int.floor_intCast]

theorem integerizeLimit_of_whole (h : limit = ⌊limit⌋) :
    integerizeLimit (some limit) op = some limit := by
  have hfloor : ⌊(⌊limit⌋ : ℚ) + 1 / 10 ^ 9⌋ = ⌊limit⌋ := by
    rw [Int.floor_eq_iff]
    constructor <;> linarith
  have hceil : ⌈(⌊limit⌋ : ℚ) - 1 / 10 ^ 9⌉ = ⌊limit⌋ := by
    rw [Int.ceil_eq_iff]
    constructor <;> linarith
  rw [integerizeLimit, Option.map_some, h]
  cases op with
  | gt | le => rw [hfloor]
  | ge | lt => rw [hceil]

/-- Rounding never passes a whole number. -/
theorem integerizeLimit_le (h : integerizeLimit (some limit) op = some whole) (hle : limit ≤ n) :
    whole ≤ n := by
  have hfloor : ⌊limit + 1 / 10 ^ 9⌋ ≤ n := by
    rw [Int.floor_le_iff]
    linarith
  have hceil : ⌈limit - 1 / 10 ^ 9⌉ ≤ n := by
    rw [Int.ceil_le]
    linarith
  simp only [integerizeLimit, Option.map_some, Option.some.injEq] at h
  subst h
  cases op with
  | gt | le => exact Int.cast_le.mpr hfloor
  | ge | lt => exact Int.cast_le.mpr hceil

end Rounding

theorem alertFloor_whole (metricName : String) : ∃ n : ℤ, alertFloor metricName = n := by
  have htable : ∀ entry ∈ alertMinAbsolute, entry.2 = ⌊entry.2⌋ := by decide +kernel
  cases hfound : alertMinAbsolute.lookup (lower metricName) with
  | none => exact ⟨0, by rw [alertFloor, hfound, Option.getD_none, Int.cast_zero]⟩
  | some size =>
    have hentry := List.lookup_eq_some_iff.mp hfound
    obtain ⟨before, after, hlist, -⟩ := hentry
    refine ⟨⌊size⌋, ?_⟩
    rw [alertFloor, hfound, Option.getD_some]
    exact htable (lower metricName, size) (hlist ▸ by simp)

section Row
variable {row : EvalRow} {bucket : Option Bucket} {limit : ℚ}

theorem liftToFloor_integerize : liftToFloor row (integerizeLimit (some limit) row.comparison) =
    liftToFloor row (some limit) ↔ row.Settled limit := by
  obtain ⟨whole, hwhole⟩ : ∃ whole, integerizeLimit (some limit) row.comparison = some whole :=
    ⟨_, rfl⟩
  have hself : whole = limit ↔ limit = ⌊limit⌋ := by
    constructor
    · rintro rfl
      exact integerizeLimit_whole hwhole
    · intro h
      rw [integerizeLimit_of_whole h] at hwhole
      exact (Option.some.inj hwhole).symm
  obtain ⟨n, hn⟩ := alertFloor_whole row.metricName
  rw [hwhole, EvalRow.Settled, ← hself]
  unfold liftToFloor
  split
  · rename_i happlies
    simp only [Option.map_some, Option.some.injEq, happlies, true_and, hn]
    constructor
    · intro h
      rcases le_or_gt limit n with hle | hgt
      · exact Or.inr hle
      · rw [max_eq_left hgt.le] at h
        rcases max_choice whole (n : ℚ) with hmax | hmax
        · exact Or.inl (hmax.symm.trans h)
        · exact absurd (hmax.symm.trans h) hgt.ne
    · rintro (rfl | hle)
      · rfl
      · rw [max_eq_right hle, max_eq_right (integerizeLimit_le hwhole hle)]
  · rename_i happlies
    simp [happlies]

theorem unusable_none : Unusable none := by
  intro b hb
  cases hb

theorem dynamicBounds_unusable (h : Unusable bucket) (op : Comparison) (k : ℚ)
    (sw sc : Option ℚ) : dynamicBounds op k sw sc bucket = none := by
  cases bucket with
  | none => rfl
  | some b => rw [dynamicBounds, if_pos (h b rfl)]

theorem ruleLimits_static (hplain : row.anomalyOnly = false) :
    ruleLimits (row.withDynamic false) bucket =
      (some row.warningValue, some row.criticalValue) := by
  have hoff : (row.withDynamic false).dynamic = false := Bool.false_and _
  have hplain' : (row.withDynamic false).anomalyOnly = false := hplain
  simp only [ruleLimits, hplain', hoff, Bool.or_self, Bool.false_and, Bool.false_eq_true, if_false]
  rfl

/-- What the mode does to the typed limits when there is nothing to learn from. -/
theorem ruleLimits_unlearned (hplain : row.anomalyOnly = false) (h : Unusable bucket) :
    ruleLimits (row.withDynamic true) bucket =
      if !isStaticOnlyMetric row.metricName && isIntegerMetric row.unit row.metricName then
        (integerizeLimit (some row.warningValue) row.comparison,
          integerizeLimit (some row.criticalValue) row.comparison)
      else (some row.warningValue, some row.criticalValue) := by
  have hplain' : (row.withDynamic true).anomalyOnly = false := hplain
  have hon : (row.withDynamic true).dynamic = !isStaticOnlyMetric row.metricName :=
    Bool.true_and _
  simp only [ruleLimits, hplain', hon, dynamicBounds_unusable h, ite_self, Bool.false_or,
    Bool.false_eq_true, if_false]
  rfl

@[simp] theorem liftToFloor_withDynamic (on : Bool) (limit : Option ℚ) :
    liftToFloor (row.withDynamic on) limit = liftToFloor row limit := rfl

@[simp] theorem belowFloor_withDynamic (on : Bool) :
    belowFloor (row.withDynamic on) = belowFloor row := rfl

theorem compare_congr {limit limit' : Option ℚ}
    (h : liftToFloor row limit = liftToFloor row limit') :
    (!belowFloor row && compare row.metricValue limit row.comparison) =
      (!belowFloor row && compare row.metricValue limit' row.comparison) := by
  cases hbelow : belowFloor row with
  | true => rfl
  | false => rw [← compare_liftToFloor_eq hbelow, h, compare_liftToFloor_eq hbelow]

/-- The limits of a verdict settle the rest of what the mode could change. -/
theorem verdict_eq_iff (M : PollingModel) (S : PollSettings) :
    verdict M S (row.withDynamic true) bucket = verdict M S (row.withDynamic false) bucket ↔
      liftToFloor row (ruleLimits (row.withDynamic true) bucket).1 =
          liftToFloor row (ruleLimits (row.withDynamic false) bucket).1 ∧
        liftToFloor row (ruleLimits (row.withDynamic true) bucket).2 =
          liftToFloor row (ruleLimits (row.withDynamic false) bucket).2 := by
  constructor
  · intro h
    have hw := congrArg Verdict.warning h
    have hc := congrArg Verdict.critical h
    rw [verdict_warning, verdict_warning, liftToFloor_withDynamic, liftToFloor_withDynamic] at hw
    rw [verdict_critical, verdict_critical, liftToFloor_withDynamic,
      liftToFloor_withDynamic] at hc
    exact ⟨hw, hc⟩
  · rintro ⟨hw, hc⟩
    have hwarning := compare_congr hw
    have hcritical := congrArg (· && !row.anomalyOnly) (compare_congr hc)
    simp only [Bool.and_assoc] at hcritical
    unfold verdict
    rw [Verdict.mk.injEq]
    simp only [liftToFloor_withDynamic, belowFloor_withDynamic]
    exact ⟨rfl, rfl, hw, hc, hcritical, hwarning, rfl, rfl, rfl⟩

end Row

/-- Without a usable bucket the mode changes nothing exactly when rounding the typed limits
changes nothing. -/
theorem verdict_unlearned_eq_static (M : PollingModel) (S : PollSettings) (row : EvalRow)
    (bucket : Option Bucket) (hplain : row.anomalyOnly = false) (hbucket : Unusable bucket) :
    verdict M S (row.withDynamic true) bucket = verdict M S (row.withDynamic false) bucket ↔
      row.TypedLimitsSettled := by
  rw [verdict_eq_iff, ruleLimits_static hplain, ruleLimits_unlearned hplain hbucket,
    EvalRow.TypedLimitsSettled]
  cases hstatic : isStaticOnlyMetric row.metricName with
  | true => simp
  | false =>
    cases hcount : isIntegerMetric row.unit row.metricName with
    | false => simp
    | true => simp [liftToFloor_integerize]

/-- A count metric with a typed warning of 10.5 requests. -/
def requestRow : EvalRow :=
  { busyHostRow with
    warningValue := 21 / 2
    criticalValue := 100
    unit := some "Count"
    metricName := "requestcount"
    metricValue := some (51 / 5) }

theorem verdict_unlearned_eq_static_wholeRequests :
    let row := { requestRow with warningValue := 10 }
    verdict ⟨fun _ _ => some 300, []⟩ (.read false false none none .slow true)
        (row.withDynamic true) none =
      verdict ⟨fun _ _ => some 300, []⟩ (.read false false none none .slow true)
        (row.withDynamic false) none := by
  refine (verdict_unlearned_eq_static _ _ { requestRow with warningValue := 10 } none
    (by decide +kernel) unusable_none).mpr fun _ _ => ⟨Or.inl ?_, Or.inl ?_⟩
  · decide +kernel
  · decide +kernel

/-- 10.2 requests are healthy by the typed limit and a warning by its rounding. -/
theorem requestRow_rounded :
    let V := verdict ⟨fun _ _ => some 300, []⟩ (.read false false none none .slow true)
    requestRow.anomalyOnly = false ∧ Unusable none ∧
      (V (requestRow.withDynamic false) none).warning = some (21 / 2) ∧
      (V (requestRow.withDynamic false) none).isWarning = false ∧
      (V (requestRow.withDynamic true) none).warning = some 10 ∧
      (V (requestRow.withDynamic true) none).isWarning = true := by
  refine ⟨by decide +kernel, unusable_none, ?_⟩
  decide +kernel

end MonitoringHub.Alerts
