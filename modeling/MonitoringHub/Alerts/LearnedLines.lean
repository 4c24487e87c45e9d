import Mathlib.Tactic.Linarith
import MonitoringHub.Alerts.EffectiveLimits

/-! What a learned line may do to the typed limits. The clamp lets CRITICAL only relax and
WARNING tighten by the factor; the rounding of count metrics comes after the clamp and
knows neither limit. -/

namespace MonitoringHub.Alerts
open Lib.Text

namespace Comparison
variable {op : Comparison} {a b line limit limit' : ℚ}

/-- A reading beyond the line is beyond the limit. -/
def NoTighter (op : Comparison) (line limit : ℚ) : Prop :=
  if op.upward then limit ≤ line else line ≤ limit

/-- The one of two lines that fewer readings cross. -/
def outer (op : Comparison) (a b : ℚ) : ℚ := if op.upward then max a b else min a b

/-- Made whole, the line is no tighter than the limit. -/
def WholeReaches : Comparison → ℚ → ℚ → Prop
  | .gt, line, limit => ⌈limit⌉ - 1 / 10 ^ 9 ≤ line
  | .ge, line, limit => ⌈limit⌉ - 1 + 1 / 10 ^ 9 < line
  | .lt, line, limit => line ≤ ⌊limit⌋ + 1 / 10 ^ 9
  | .le, line, limit => line < ⌊limit⌋ + 1 - 1 / 10 ^ 9

theorem noTighter_iff : op.NoTighter line limit ↔
    ∀ v, op.holds v line = true → op.holds v limit = true := by
  cases op with
  | gt =>
    simp only [NoTighter, holds, upward, if_true, decide_eq_true_eq]
    exact ⟨fun h v hv => h.trans_lt hv, fun h => le_of_forall_gt_imp_ge_of_dense fun v hv =>
      (h v hv).le⟩
  | ge =>
    simp only [NoTighter, holds, upward, if_true, decide_eq_true_eq]
    exact ⟨fun h v hv => h.trans hv, fun h => h line le_rfl⟩
  | lt =>
    simp only [NoTighter, holds, upward, Bool.false_eq_true, if_false, decide_eq_true_eq]
    exact ⟨fun h v hv => hv.trans_le h, fun h => le_of_forall_lt_imp_le_of_dense fun v hv =>
      (h v hv).le⟩
  | le =>
    simp only [NoTighter, holds, upward, Bool.false_eq_true, if_false, decide_eq_true_eq]
    exact ⟨fun h v hv => hv.trans h, fun h => h line le_rfl⟩

/-- Rounding goes to the next whole number or stays within its margin. -/
theorem noTighter_integerize : (∀ whole ∈ integerizeLimit (some line) op, op.NoTighter whole limit) ↔
    op.WholeReaches line limit := by
  cases op with
  | gt =>
    simp only [integerizeLimit, Option.map_some, Option.mem_def, Option.some.injEq, forall_eq',
      NoTighter, upward, if_true, WholeReaches]
    rw [← Int.ceil_le, Int.le_floor, sub_le_iff_le_add]
  | ge =>
    simp only [integerizeLimit, Option.map_some, Option.mem_def, Option.some.injEq, forall_eq',
      NoTighter, upward, if_true, WholeReaches]
    rw [← Int.ceil_le, ← Int.sub_one_lt_iff, Int.lt_ceil, lt_sub_iff_add_lt]
    push_cast
    rfl
  | lt =>
    simp only [integerizeLimit, Option.map_some, Option.mem_def, Option.some.injEq, forall_eq',
      NoTighter, upward, Bool.false_eq_true, if_false, WholeReaches]
    rw [← Int.le_floor, Int.ceil_le, sub_le_iff_le_add]
  | le =>
    simp only [integerizeLimit, Option.map_some, Option.mem_def, Option.some.injEq, forall_eq',
      NoTighter, upward, Bool.false_eq_true, if_false, WholeReaches]
    rw [← Int.le_floor, ← Int.lt_add_one_iff, Int.floor_lt, lt_sub_iff_add_lt]
    push_cast
    rfl

theorem wholeReaches_outer :
    op.WholeReaches (op.outer a b) limit ↔ op.WholeReaches a limit ∨ op.WholeReaches b limit := by
  cases op with
  | gt => simp only [WholeReaches, outer, upward, if_true, le_max_iff]
  | ge => simp only [WholeReaches, outer, upward, if_true, lt_max_iff]
  | lt => simp only [WholeReaches, outer, upward, Bool.false_eq_true, if_false, min_le_iff]
  | le => simp only [WholeReaches, outer, upward, Bool.false_eq_true, if_false, min_lt_iff]

theorem wholeReaches_min (hup : op.upward = true) :
    op.WholeReaches (min a b) limit ↔ op.WholeReaches a limit ∧ op.WholeReaches b limit := by
  cases op with
  | gt => simp only [WholeReaches, le_min_iff]
  | ge => simp only [WholeReaches, lt_min_iff]
  | lt | le => cases hup

/-- What reaches a limit reaches every one on the near side of it. -/
theorem WholeReaches.near (h : op.WholeReaches line limit) (hnear : op.NoTighter limit limit') :
    op.WholeReaches line limit' := by
  cases op with
  | gt | ge =>
    have hceil : (⌈limit'⌉ : ℚ) ≤ ⌈limit⌉ := Int.cast_le.mpr (Int.ceil_mono hnear)
    simp only [WholeReaches] at h ⊢
    linarith
  | lt | le =>
    have hfloor : (⌊limit⌋ : ℚ) ≤ ⌊limit'⌋ := Int.cast_le.mpr (Int.floor_mono hnear)
    simp only [WholeReaches] at h ⊢
    linarith

/-- A line further out reaches what a nearer one does. -/
theorem WholeReaches.further (h : op.WholeReaches a limit) (hfar : op.NoTighter b a) :
    op.WholeReaches b limit := by
  cases op with
  | gt | ge | lt | le =>
    simp only [NoTighter, upward, if_true, Bool.false_eq_true, if_false] at hfar
    simp only [WholeReaches] at h ⊢
    linarith

end Comparison

/-- A warning limit tightened by all that the factor allows. -/
def ThresholdRow.tightestWarning (row : ThresholdRow) : ℚ :=
  if row.comparison.upward then min row.warningValue (row.warningValue * maxTightenFactor)
  else max row.warningValue (row.warningValue / maxTightenFactor)

/-- The bound that the clamp sets to the warning line. -/
def ThresholdRow.warningGuard (row : ThresholdRow) : ℚ :=
  if row.comparison.upward then row.warningValue * maxTightenFactor
  else if row.warningValue > 0 then row.warningValue / maxTightenFactor else row.warningValue

/-- The warning limit is not beyond the critical one. -/
def ThresholdRow.Ordered (row : ThresholdRow) : Prop :=
  row.comparison.NoTighter row.criticalValue row.warningValue

def EvalRow.reading (row : EvalRow) (v : ℚ) : EvalRow := { row with metricValue := some v }

/-- Every reading called critical breaches the typed critical limit, and the warning line in
force is no tighter than the factor allows. -/
def LinesHold (M : PollingModel) (S : PollSettings) (row : EvalRow) (bucket : Option Bucket) :
    Prop :=
  ∀ v : ℚ, ((verdict M S (row.reading v) bucket).isCritical = true →
      row.comparison.holds v row.criticalValue = true) ∧
    ∀ line ∈ (verdict M S (row.reading v) bucket).warning,
      row.comparison.NoTighter line row.tightestWarning

/-- No reading that the size floor lets through is short of the limit. -/
def EvalRow.FloorReaches (row : EvalRow) (limit : ℚ) : Prop :=
  alertFloor row.metricName ≠ 0 ∧ row.comparison.upward = true ∧
    limit ≤ alertFloor row.metricName

/-- Rounded and lifted to the size floor, the line is no tighter than the limit. -/
def EvalRow.Keeps (row : EvalRow) (line limit : ℚ) : Prop :=
  row.FloorReaches limit ∨ row.comparison.WholeReaches line limit

/-- The rounding of a count metric keeps the limits, with the baseline's band or without. -/
def EvalRow.RoundingKeeps (row : EvalRow) : Option (ℚ × ℚ) → Prop
  | none => row.Keeps row.criticalValue row.criticalValue ∧
      row.Keeps row.warningValue row.tightestWarning
  | some (warning, critical) =>
    (row.Keeps critical row.criticalValue ∨ row.Keeps row.criticalValue row.criticalValue ∨
      row.comparison.upward = false ∧ row.Keeps warning row.criticalValue) ∧
    (row.Keeps warning row.tightestWarning ∨ row.Keeps row.warningGuard row.tightestWarning)

/-- A row without typed limits is never critical; its line may still come before the
placeholder's. -/
def EvalRow.AnomalyKeeps (row : EvalRow) (bucket : Option Bucket) : Prop :=
  ∀ line ∈ anomalyOnlyBound row.metricName row.k bucket, row.FloorReaches row.tightestWarning ∨
    if isIntegerMetric row.unit row.metricName then
      row.comparison.WholeReaches line row.tightestWarning
    else row.comparison.NoTighter line row.tightestWarning

def EvalRow.LinesKept (row : EvalRow) (bucket : Option Bucket) : Prop :=
  if row.anomalyOnly then row.AnomalyKeeps bucket
  else row.dynamic = true → isIntegerMetric row.unit row.metricName = true →
    row.RoundingKeeps (dynamicBounds row.comparison row.k (some row.warningValue)
      (some row.criticalValue) bucket)

section Clamp
variable {row : ThresholdRow} {metricName : String}

theorem isIntegerMetric_not_percent {unit : Option String}
    (h : isIntegerMetric unit metricName = true) : (lower (unit.getD "") == "percent") = false := by
  by_contra hpercent
  rw [Bool.not_eq_false, beq_iff_eq] at hpercent
  simp only [isIntegerMetric, Bool.and_eq_true, beq_iff_eq] at h
  have hcount := h.1
  have hletters : ("percent".toList.all fun c => !c.isWhitespace) = true := by decide
  have hblank : ∀ c ∈ (lower (unit.getD "")).toList, c.isWhitespace = false := by
    rw [hpercent]
    exact fun c hc => by simpa using List.all_eq_true.mp hletters c hc
  rw [strip_of_lower hblank, hpercent] at hcount
  exact absurd hcount (by decide)

theorem warningGuard_noTighter (hdown : row.comparison.upward = false) :
    row.warningGuard = row.tightestWarning ∧ row.warningValue ≤ row.tightestWarning := by
  simp only [ThresholdRow.warningGuard, ThresholdRow.tightestWarning, hdown, Bool.false_eq_true,
    if_false, maxTightenFactor]
  refine ⟨?_, le_max_left _ _⟩
  split
  · rw [max_eq_right (by linarith)]
  · rw [max_eq_left (by linarith)]

theorem tightestWarning_le (hup : row.comparison.upward = true) :
    row.tightestWarning ≤ row.warningGuard ∧ row.tightestWarning ≤ row.warningValue := by
  simp only [ThresholdRow.warningGuard, ThresholdRow.tightestWarning, hup, if_true]
  exact ⟨min_le_right _ _, min_le_left _ _⟩

/-- The clamp keeps both limits, whatever the band. -/
theorem clamp_noTighter (hord : row.Ordered) (w c : ℚ) :
    row.comparison.NoTighter (clampDynamicBounds w c row.warningValue row.criticalValue
      row.comparison row.unit).1 row.tightestWarning ∧
    row.comparison.NoTighter (clampDynamicBounds w c row.warningValue row.criticalValue
      row.comparison row.unit).2 row.criticalValue := by
  cases hup : row.comparison.upward with
  | true =>
    obtain ⟨hguard, hwarning⟩ := tightestWarning_le hup
    simp only [ThresholdRow.Ordered, Comparison.NoTighter, hup, if_true] at hord
    simp only [ThresholdRow.warningGuard, hup, if_true] at hguard
    simp only [Comparison.NoTighter, hup, if_true, clampDynamicBounds]
    have hw : row.tightestWarning ≤ max w (row.warningValue * maxTightenFactor) :=
      hguard.trans (le_max_right _ _)
    have hc : row.criticalValue ≤ max c row.criticalValue := le_max_right _ _
    have hbelow : row.tightestWarning ≤ row.criticalValue := hwarning.trans hord
    -- the cap of percentages is at or above the typed critical limit
    have hcap : row.criticalValue ≤
        if row.criticalValue ≤ percentCap then percentCap else row.criticalValue := by
      split
      · assumption
      · exact le_rfl
    generalize (if row.criticalValue ≤ percentCap then percentCap else row.criticalValue) = cap
      at hcap ⊢
    split
    · split
      · exact ⟨hbelow.trans (le_min hc hcap), le_min hc hcap⟩
      · exact ⟨le_min hw (hbelow.trans hcap), le_min hc hcap⟩
    · split
      · exact ⟨hbelow.trans hc, hc⟩
      · exact ⟨hw, hc⟩
  | false =>
    obtain ⟨hguard, -⟩ := warningGuard_noTighter hup
    simp only [ThresholdRow.warningGuard, hup, Bool.false_eq_true, if_false] at hguard
    simp only [Comparison.NoTighter, hup, Bool.false_eq_true, if_false, clampDynamicBounds, hguard]
    have hw : min w row.tightestWarning ≤ row.tightestWarning := min_le_right _ _
    have hc : min c row.criticalValue ≤ row.criticalValue := min_le_right _ _
    split
    · rename_i hgt
      exact ⟨hw, hgt.le.trans hc⟩
    · exact ⟨hw, hc⟩

/-- For a count the lines are the band's, bounded by the guard and the typed limit. -/
theorem clamp_count (hwhole : isIntegerMetric row.unit metricName = true) (w c : ℚ) :
    clampDynamicBounds w c row.warningValue row.criticalValue row.comparison row.unit =
      (if row.comparison.upward then
        min (row.comparison.outer w row.warningGuard) (row.comparison.outer c row.criticalValue)
        else row.comparison.outer w row.warningGuard,
      if row.comparison.upward then row.comparison.outer c row.criticalValue
        else row.comparison.outer (row.comparison.outer c row.criticalValue)
          (row.comparison.outer w row.warningGuard)) := by
  have hunit := isIntegerMetric_not_percent hwhole
  cases hup : row.comparison.upward with
  | true =>
    simp only [clampDynamicBounds, Comparison.outer, ThresholdRow.warningGuard, hup, if_true, hunit,
      Bool.false_and, Bool.false_eq_true, if_false]
    split
    · rename_i hgt
      rw [min_eq_right hgt.le]
    · rename_i hle
      rw [min_eq_left (not_lt.mp hle)]
  | false =>
    simp only [clampDynamicBounds, Comparison.outer, ThresholdRow.warningGuard, hup,
      Bool.false_eq_true, if_false]
    generalize (if row.warningValue > 0 then row.warningValue / maxTightenFactor
      else row.warningValue) = guard
    split
    · rename_i hgt
      rw [min_eq_right hgt.le]
    · rename_i hle
      rw [min_eq_left (not_lt.mp hle)]

end Clamp

section Lines
variable {M : PollingModel} {S : PollSettings} {row : EvalRow} {bucket : Option Bucket}
  {line limit : ℚ}

/-- A line lifted to the size floor. -/
theorem liftToFloor_noTighter (v : ℚ) : (∀ l ∈ liftToFloor (row.reading v) (some line),
    row.comparison.NoTighter l limit) ↔
      row.FloorReaches limit ∨ row.comparison.NoTighter line limit := by
  unfold liftToFloor
  split
  · rename_i hfloor
    simp only [floorApplies, EvalRow.reading, Option.isSome_some, Bool.and_true, Bool.and_eq_true,
      bne_iff_ne] at hfloor
    simp only [Option.map_some, Option.mem_def, Option.some.injEq, forall_eq',
      Comparison.NoTighter, EvalRow.FloorReaches, EvalRow.reading, hfloor.2, if_true, le_max_iff]
    exact ⟨fun h => h.symm.imp (fun h => ⟨hfloor.1, trivial, h⟩) id, fun h => h.symm.imp id
      fun h => h.2.2⟩
  · rename_i hfloor
    simp only [floorApplies, EvalRow.reading, Option.isSome_some, Bool.and_true, Bool.and_eq_true,
      bne_iff_ne] at hfloor
    simp only [Option.mem_def, Option.some.injEq, forall_eq', EvalRow.FloorReaches]
    exact ⟨.inr, fun h => h.elim (fun h => absurd ⟨h.1, h.2.1⟩ hfloor) id⟩

theorem belowFloor_reading (v : ℚ) : belowFloor (row.reading v) = true ↔
    alertFloor row.metricName ≠ 0 ∧ row.comparison.upward = true ∧
      v ≤ alertFloor row.metricName := by
  simp only [belowFloor, floorApplies, EvalRow.reading, Option.isSome_some, Bool.and_true,
    Option.any_some, Bool.and_eq_true, bne_iff_ne, and_assoc]
  exact and_congr_right fun _ => and_congr_right fun _ => decide_eq_true_iff

/-- Over all readings, CRITICAL keeps to the typed limit exactly if the lifted line does. -/
theorem critical_iff (hreal : row.anomalyOnly = false)
    (hline : (ruleLimits row bucket).2 = some line) :
    (∀ v, (verdict M S (row.reading v) bucket).isCritical = true →
      row.comparison.holds v row.criticalValue = true) ↔
    row.FloorReaches row.criticalValue ∨ row.comparison.NoTighter line row.criticalValue := by
  have hcritical : ∀ v, (verdict M S (row.reading v) bucket).isCritical = true ↔
      belowFloor (row.reading v) = false ∧ row.comparison.holds v line = true := by
    intro v
    have hreal' : (row.reading v).anomalyOnly = false := hreal
    have hline' : (ruleLimits (row.reading v) bucket).2 = some line := hline
    rw [verdict_isCritical, hline', hreal']
    simp [compare, EvalRow.reading]
  simp only [hcritical, and_imp]
  constructor
  · intro h
    by_contra hneither
    obtain ⟨hfloor, htighter⟩ := not_or.mp hneither
    refine htighter (Comparison.noTighter_iff.mpr fun v hv => ?_)
    cases hbelow : belowFloor (row.reading v) with
    | false => exact h v hbelow hv
    | true =>
      -- the floor is short of the typed limit: a reading between the two is critical
      obtain ⟨hzero, hup, -⟩ := (belowFloor_reading v).mp hbelow
      have hlt : max (alertFloor row.metricName) line < row.criticalValue := by
        refine max_lt (not_le.mp fun hle => hfloor ⟨hzero, hup, hle⟩) ?_
        simpa only [Comparison.NoTighter, hup, if_true, not_le] using htighter
      obtain ⟨u, hu, hshort⟩ := exists_between hlt
      obtain ⟨huf, hul⟩ := max_lt_iff.mp hu
      have habove : belowFloor (row.reading u) = false := by
        rw [Bool.eq_false_iff, Ne, belowFloor_reading]
        exact fun hle => absurd hle.2.2 (not_le.mpr huf)
      cases hc : row.comparison with
      | gt | ge =>
        rw [hc] at h
        have hcrossed := h u habove (by simp [Comparison.holds, hul, hul.le])
        simp only [Comparison.holds, decide_eq_true_eq] at hcrossed
        linarith
      | lt | le =>
        rw [hc] at hup
        cases hup
  · rintro (⟨hzero, hup, hle⟩ | hout) v hbelow hv
    · have hgt : alertFloor row.metricName < v := by
        rw [Bool.eq_false_iff, Ne, belowFloor_reading] at hbelow
        exact not_le.mp fun hv => hbelow ⟨hzero, hup, hv⟩
      cases hc : row.comparison with
      | gt => exact decide_eq_true (hle.trans_lt hgt)
      | ge => exact decide_eq_true (hle.trans_lt hgt).le
      | lt | le =>
        rw [hc] at hup
        cases hup
    · exact Comparison.noTighter_iff.mp hout v hv

/-- The warning line in force, for any reading. -/
theorem warning_iff : (∀ v, ∀ line ∈ (verdict M S (row.reading v) bucket).warning,
      row.comparison.NoTighter line row.tightestWarning) ↔
    ∀ line ∈ (ruleLimits row bucket).1, row.FloorReaches row.tightestWarning ∨
      row.comparison.NoTighter line row.tightestWarning := by
  have hlimits : ∀ v, ruleLimits (row.reading v) bucket = ruleLimits row bucket := fun _ => rfl
  simp only [verdict_warning, hlimits]
  cases (ruleLimits row bucket).1 with
  | none => simp [liftToFloor]
  | some line =>
    rw [forall_congr' fun v => liftToFloor_noTighter v]
    simp

theorem linesHold_iff : LinesHold M S row bucket ↔
    (∀ v, (verdict M S (row.reading v) bucket).isCritical = true →
      row.comparison.holds v row.criticalValue = true) ∧
    ∀ line ∈ (ruleLimits row bucket).1, row.FloorReaches row.tightestWarning ∨
      row.comparison.NoTighter line row.tightestWarning := by
  rw [← warning_iff (M := M) (S := S)]
  exact forall_and

/-- Limits that are not rounded. -/
theorem linesHold_of_exact (hreal : row.anomalyOnly = false) {w c : ℚ}
    (hlimits : ruleLimits row bucket = (some w, some c))
    (hw : row.comparison.NoTighter w row.tightestWarning)
    (hc : row.comparison.NoTighter c row.criticalValue) : LinesHold M S row bucket := by
  rw [linesHold_iff, critical_iff hreal (congrArg Prod.snd hlimits), hlimits]
  exact ⟨.inr hc, fun line hline => .inr (Option.some.inj hline ▸ hw)⟩

theorem keeps_iff {l : ℚ} : (∀ whole ∈ integerizeLimit (some l) row.comparison,
    row.FloorReaches limit ∨ row.comparison.NoTighter whole limit) ↔ row.Keeps l limit := by
  rw [EvalRow.Keeps, ← Comparison.noTighter_integerize]
  simp [integerizeLimit]

theorem linesHold_of_whole (hreal : row.anomalyOnly = false) {w c : ℚ}
    (hlimits : ruleLimits row bucket =
      (integerizeLimit (some w) row.comparison, integerizeLimit (some c) row.comparison)) :
    LinesHold M S row bucket ↔
      row.Keeps c row.criticalValue ∧ row.Keeps w row.tightestWarning := by
  obtain ⟨whole, hwhole⟩ : ∃ whole, integerizeLimit (some c) row.comparison = some whole :=
    ⟨_, rfl⟩
  rw [linesHold_iff, critical_iff hreal ((congrArg Prod.snd hlimits).trans hwhole), hlimits,
    keeps_iff, ← keeps_iff (l := c), hwhole]
  simp

theorem typed_noTighter (row : ThresholdRow) :
    row.comparison.NoTighter row.warningValue row.tightestWarning ∧
      row.comparison.NoTighter row.criticalValue row.criticalValue := by
  cases hup : row.comparison.upward with
  | true =>
    simp only [Comparison.NoTighter, hup, if_true, le_refl, and_true]
    exact (tightestWarning_le hup).2
  | false =>
    simp only [Comparison.NoTighter, hup, Bool.false_eq_true, if_false, le_refl, and_true]
    exact (warningGuard_noTighter hup).2

/-- The rounded lines of a clamped band. -/
theorem keeps_clamped (hord : row.Ordered) (hwhole : isIntegerMetric row.unit row.metricName = true)
    (w c : ℚ) :
    (row.Keeps (clampDynamicBounds w c row.warningValue row.criticalValue row.comparison row.unit).2
        row.criticalValue ∧
      row.Keeps (clampDynamicBounds w c row.warningValue row.criticalValue row.comparison row.unit).1
        row.tightestWarning) ↔ row.RoundingKeeps (some (w, c)) := by
  rw [clamp_count hwhole]
  cases hup : row.comparison.upward with
  | true =>
    have hnear : row.tightestWarning ≤ row.criticalValue := by
      simp only [ThresholdRow.Ordered, Comparison.NoTighter, hup, if_true] at hord
      exact (tightestWarning_le hup).2.trans hord
    have hline : ∀ {l}, row.comparison.WholeReaches l row.criticalValue →
        row.comparison.WholeReaches l row.tightestWarning := fun h =>
      h.near (by simpa only [Comparison.NoTighter, hup, if_true] using hnear)
    have hfloor : row.FloorReaches row.criticalValue → row.FloorReaches row.tightestWarning :=
      fun h => ⟨h.1, h.2.1, hnear.trans h.2.2⟩
    simp only [EvalRow.RoundingKeeps, EvalRow.Keeps, if_true, Comparison.wholeReaches_outer,
      Comparison.wholeReaches_min hup, hup, Bool.true_eq_false, false_and, or_false]
    constructor
    · rintro ⟨hc, hw⟩
      refine ⟨?_, ?_⟩
      · rcases hc with hc | hc | hc
        · exact .inl (.inl hc)
        · exact .inl (.inr hc)
        · exact .inr (.inr hc)
      · rcases hw with hw | ⟨hw | hw, -⟩
        · exact .inl (.inl hw)
        · exact .inl (.inr hw)
        · exact .inr (.inr hw)
    · rintro ⟨hc, hw⟩
      have hcritical : row.FloorReaches row.criticalValue ∨
          row.comparison.WholeReaches c row.criticalValue ∨
            row.comparison.WholeReaches row.criticalValue row.criticalValue := by
        rcases hc with (hc | hc) | (hc | hc)
        · exact .inl hc
        · exact .inr (.inl hc)
        · exact .inl hc
        · exact .inr (.inr hc)
      refine ⟨hcritical, ?_⟩
      rcases hcritical with hc | hc
      · exact .inl (hfloor hc)
      · rcases hw with (hw | hw) | (hw | hw)
        · exact .inl hw
        · exact .inr ⟨.inl hw, hc.imp hline hline⟩
        · exact .inl hw
        · exact .inr ⟨.inr hw, hc.imp hline hline⟩
  | false =>
    have hfloor : ∀ limit, ¬ row.FloorReaches limit := by
      intro limit h
      rw [h.2.1] at hup
      cases hup
    -- the guard is at least the typed limits, so it reaches the critical one only if that does
    have hguard : row.comparison.WholeReaches row.warningGuard row.criticalValue →
        row.comparison.WholeReaches row.criticalValue row.criticalValue := by
      intro h
      refine h.further ?_
      obtain ⟨hsame, hle⟩ := warningGuard_noTighter hup
      simp only [ThresholdRow.Ordered, Comparison.NoTighter, hup, Bool.false_eq_true,
        if_false] at hord ⊢
      exact hsame ▸ hord.trans hle
    simp only [EvalRow.RoundingKeeps, EvalRow.Keeps, Bool.false_eq_true, if_false,
      Comparison.wholeReaches_outer, hup, true_and, hfloor, false_or]
    refine and_congr_left fun _ => ⟨?_, ?_⟩
    · rintro ((hc | hc) | (hw | hg))
      · exact .inl hc
      · exact .inr (.inl hc)
      · exact .inr (.inr hw)
      · exact .inr (.inl (hguard hg))
    · rintro (hc | hc | hw)
      · exact .inl (.inl hc)
      · exact .inl (.inr hc)
      · exact .inr (.inl hw)

/-- A learned line never makes CRITICAL stricter than typed, nor WARNING by more than the
factor, exactly if the rounding keeps the limits (and a row without typed limits has a line
far enough out). -/
theorem learned_lines_hold_iff (M : PollingModel) (S : PollSettings) (row : EvalRow)
    (bucket : Option Bucket) (hord : row.Ordered) :
    LinesHold M S row bucket ↔ row.LinesKept bucket := by
  unfold EvalRow.LinesKept
  cases hreal : row.anomalyOnly with
  | true =>
    have hnever : ∀ v, (verdict M S (row.reading v) bucket).isCritical = false :=
      fun v => (verdict M S (row.reading v) bucket).capped_not_critical hreal
    rw [linesHold_iff, ruleLimits_anomaly hreal, if_pos rfl]
    simp only [hnever, Bool.false_eq_true, false_implies, implies_true, true_and,
      EvalRow.AnomalyKeeps]
    cases anomalyOnlyBound row.metricName row.k bucket with
    | none => simp [integerizeLimit]
    | some line =>
      cases hwhole : isIntegerMetric row.unit row.metricName with
      | true =>
        simp only [if_true, Option.mem_def, Option.some.injEq, forall_eq']
        exact keeps_iff
      | false => simp
  | false =>
    rw [if_neg Bool.false_ne_true]
    obtain ⟨hw, hc⟩ := typed_noTighter row.toThresholdRow
    cases hd : row.dynamic with
    | false =>
      have hlimits : ruleLimits row bucket = (some row.warningValue, some row.criticalValue) := by
        simp [ruleLimits, hreal, hd]
      simp [linesHold_of_exact hreal hlimits hw hc]
    | true =>
      cases hband : dynamicBounds row.comparison row.k (some row.warningValue)
          (some row.criticalValue) bucket with
      | none =>
        cases hwhole : isIntegerMetric row.unit row.metricName with
        | true =>
          have hlimits : ruleLimits row bucket =
              (integerizeLimit (some row.warningValue) row.comparison,
                integerizeLimit (some row.criticalValue) row.comparison) := by
            simp [ruleLimits, hreal, hd, hband, hwhole]
          simp [linesHold_of_whole hreal hlimits, EvalRow.RoundingKeeps]
        | false =>
          have hlimits : ruleLimits row bucket =
              (some row.warningValue, some row.criticalValue) := by
            simp [ruleLimits, hreal, hd, hband, hwhole]
          simp [linesHold_of_exact hreal hlimits hw hc]
      | some dyn =>
        have hlimits := ruleLimits_dynamic hreal hd hband
        cases hwhole : isIntegerMetric row.unit row.metricName with
        | true =>
          simp only [hwhole, if_true] at hlimits
          simp only [linesHold_of_whole hreal hlimits, keeps_clamped hord hwhole, forall_const]
        | false =>
          simp only [hwhole, Bool.false_eq_true, if_false] at hlimits
          obtain ⟨hw, hc⟩ := clamp_noTighter hord dyn.1 dyn.2
          simp [linesHold_of_exact hreal hlimits hw hc]

/-- A percentage is never rounded: the band of a busy host holds. -/
theorem learned_lines_hold_busyHost :
    LinesHold ⟨fun _ _ => some 300, []⟩ (.read false false none none .slow true) busyHostRow
      (some ⟨50, 10, 30⟩) := by
  refine (learned_lines_hold_iff _ _ busyHostRow _ ?_).mpr ?_
  · norm_num [ThresholdRow.Ordered, Comparison.NoTighter, Comparison.upward, busyHostRow]
  · have hreal : busyHostRow.anomalyOnly = false := by decide +kernel
    have hexact : isIntegerMetric busyHostRow.unit busyHostRow.metricName = false := by
      decide +kernel
    rw [EvalRow.LinesKept, hreal, if_neg Bool.false_ne_true, hexact]
    exact fun _ h => absurd h Bool.false_ne_true

end Lines

/-- A count with a typed critical limit of ten and a half. -/
def averagedCountRow : EvalRow :=
  { busyHostRow with
    warningValue := 8
    criticalValue := 21 / 2
    unit := some "Count"
    metricName := "requestcount" }

/-- The line in force is ten, and a reading of 10.2 is critical. -/
theorem rounded_line_stricter :
    averagedCountRow.useDynamic = true ∧ averagedCountRow.Ordered ∧
      (verdict ⟨fun _ _ => some 300, []⟩ (.read false false none none .slow true)
        (averagedCountRow.reading (51 / 5)) (some ⟨5, 1, 30⟩)).isCritical = true ∧
      averagedCountRow.comparison.holds (51 / 5) averagedCountRow.criticalValue = false := by
  refine ⟨rfl, ?_, by decide +kernel, by decide +kernel⟩
  norm_num [ThresholdRow.Ordered, Comparison.NoTighter, Comparison.upward, averagedCountRow,
    busyHostRow]

end MonitoringHub.Alerts
