import Mathlib.Data.List.Dedup
import MonitoringHub.Lib.QueryRows
import MonitoringHub.Alerts.PollingCatalogue
import MonitoringHub.Alerts.Rollup
import MonitoringHub.Alerts.ThresholdDefaults

/-! Flapping alerts, as the alert list, the threshold tuner and the root-cause analysis find them:
a resource whose mean is on the healthy side of a static line while its noise band reaches past it.
The three read the same tables, each in its own way. -/

namespace MonitoringHub.Alerts
open Lib Lib.Text

def minConfidentSamples : ℕ := 20
def noiseK : ℚ := 3

/-- Metric names compare without regard to case. -/
def sameName (a b : String) : Bool := lower a == lower b

structure BaselineRow where
  accountId : ℕ
  resourceId : String
  metricName : String
  meanValue : ℚ
  stddevValue : ℚ
  sampleCount : ℕ

/-- The aggregate of the baseline rows of one series. -/
structure Typical where
  value : ℚ
  stddev : ℚ
  samples : ℕ

def typicalOf : List BaselineRow → Option Typical
  | [] => none
  | rows@(_ :: _) => some {
      value := (rows.map BaselineRow.meanValue).sum / rows.length
      stddev := (rows.map BaselineRow.stddevValue).sum / rows.length
      samples := (rows.map BaselineRow.sampleCount).sum }

namespace Typical

def breaches (b : Typical) (comparison : Comparison) (line : ℚ) : Bool :=
  if comparison.upward then decide (b.value > line) else decide (b.value < line)

def crosses (b : Typical) (comparison : Comparison) (k line : ℚ) : Bool :=
  if comparison.upward then decide (b.value + k * b.stddev > line)
  else decide (b.value - k * b.stddev < line)

/-- The line lies in the noise band, past the mean. -/
def flaps (b : Typical) (comparison : Comparison) (k line : ℚ) : Bool :=
  !b.breaches comparison line && b.crosses comparison k line

end Typical

structure TypedThreshold where
  accountId : ℕ
  resourceType : String
  metricId : ℕ
  warningValue : ℚ
  criticalValue : ℚ
  comparison : Comparison
  dynamicK : ℚ
  useDynamic : Bool
  enabled : Bool

/-- `dynamic_k or NOISE_K` -/
def TypedThreshold.k (t : TypedThreshold) : ℚ := if t.dynamicK = 0 then noiseK else t.dynamicK

def TypedThreshold.placeholder (t : TypedThreshold) : Bool :=
  isPlaceholderThreshold t.warningValue t.criticalValue t.comparison

structure CatalogMetric where
  id : ℕ
  metricName : String
  service : Option String

/-- The name under which the collector stores the metric of a row. -/
def TypedThreshold.dbMetricName (t : TypedThreshold) (m : CatalogMetric) : String :=
  resolveDbMetricName t.resourceType m.metricName

/-- A rule of one load-balancer family takes no baseline of the other. -/
def TypedThreshold.rightFamily (t : TypedThreshold) (m : CatalogMetric) (resourceId : String) :
    Bool :=
  let service := lower (m.service.getD "")
  if t.resourceType == "elb" && (service == "alb" || service == "nlb") then
    contains resourceId (if service == "alb" then "loadbalancer/app/" else "loadbalancer/net/")
  else true

/-- A static threshold row joined with its catalogue metric and a resource of its type. -/
structure RuleRow where
  threshold : TypedThreshold
  metric : CatalogMetric
  resource : ResourceRow

structure FlappingTables where
  activeAccounts : List ℕ
  resources : List ResourceRow
  thresholds : List TypedThreshold
  catalog : List CatalogMetric
  baselines : List BaselineRow
  alerts : List StoredAlert
  alertIds_nodup : (alerts.map StoredAlert.id).Nodup

namespace FlappingTables

def typical (db : FlappingTables) (accountId : ℕ) (resourceId metricName : String) :
    Option Typical :=
  typicalOf <| db.baselines.filter fun b =>
    b.accountId = accountId && b.resourceId = resourceId && sameName b.metricName metricName

def ruleRows (db : FlappingTables) (accountId : ℕ) (resourceId : String) : List RuleRow :=
  (db.resources.filter fun r => r.accountId = accountId && r.resourceId = resourceId).flatMap
    fun r => (db.thresholds.filter fun t =>
        t.accountId = accountId && t.resourceType = r.resourceType && !t.useDynamic).flatMap
      fun t => (db.catalog.filter fun m => m.id = t.metricId).map fun m => ⟨t, m, r⟩

/-! ### The alert list -/

/-- `firing_where` -/
def isFiring (now : ℕ) (staleMinutes : ResourceRow → StoredAlert → ℕ) (r : ResourceRow)
    (a : StoredAlert) : Bool :=
  a.status == .active && !isSuppressed now a && !isStale now staleMinutes r a

/-- What the query asks of the rows joined with an alert. -/
def flappingRow (now : ℕ) (staleMinutes : ResourceRow → StoredAlert → ℕ) (a : StoredAlert)
    (b : Typical) (e : RuleRow) : Bool :=
  isFiring now staleMinutes e.resource a && !e.threshold.placeholder &&
    sameName e.metric.metricName a.metricName && decide (minConfidentSamples ≤ b.samples) &&
    b.flaps e.threshold.comparison e.threshold.dynamicK e.threshold.warningValue

def likelyFlappingAlertIds (db : FlappingTables) (now : ℕ)
    (staleMinutes : ResourceRow → StoredAlert → ℕ) (accountIds : Option (List ℕ)) : List ℕ :=
  ((db.alerts.filter fun a =>
      accountIds.all (·.contains a.accountId) && db.activeAccounts.contains a.accountId &&
        lower a.metricName != "mem_used_percent" &&
        !startsWith (lower a.metricName) "disk_used_percent" &&
        (db.typical a.accountId a.resourceId a.metricName).any (fun b =>
          (db.ruleRows a.accountId a.resourceId).any (flappingRow now staleMinutes a b)) &&
        !isStaticOnlyMetric a.metricName).map StoredAlert.id).dedup

/-! ### The tuner -/

/-- The rows that `auto_tune_static_thresholds` reads. -/
def staticThresholds (db : FlappingTables) : List (TypedThreshold × CatalogMetric) :=
  (db.thresholds.filter fun t => t.enabled && !t.useDynamic && !t.placeholder).flatMap fun t =>
    (db.catalog.filter fun m => m.id = t.metricId).map fun m => (t, m)

def tunerRows (db : FlappingTables) (t : TypedThreshold) (m : CatalogMetric) : List BaselineRow :=
  db.baselines.filter fun b =>
    b.accountId = t.accountId && sameName b.metricName (t.dbMetricName m) &&
      db.resources.any fun r =>
        r.accountId = b.accountId && r.resourceId = b.resourceId && r.resourceType = t.resourceType

def resourceBaselines (db : FlappingTables) (t : TypedThreshold) (m : CatalogMetric) :
    List (String × Typical) :=
  let rows := db.tunerRows t m
  ((rows.map BaselineRow.resourceId).dedup.filterMap fun resourceId =>
      ((typicalOf (rows.filter fun b => b.resourceId = resourceId)).filter fun b =>
        minConfidentSamples ≤ b.samples).map fun b => (resourceId, b)).filter fun e =>
    t.rightFamily m e.1

def noiseBandCrossesLine (b : Typical) (t : TypedThreshold) : Bool :=
  b.crosses t.comparison t.k t.warningValue

/-- The candidates of the chronic-noise path of `_tune_one`. -/
def noisyCandidates (db : FlappingTables) (t : TypedThreshold) (m : CatalogMetric) :
    List (String × Typical) :=
  (db.resourceBaselines t m).filter fun e =>
    !e.2.breaches t.comparison t.warningValue && noiseBandCrossesLine e.2 t

/-- The noise test accepts the resource of the alert, for a row of the alert's metric. -/
def tunerAccepts (db : FlappingTables) (a : StoredAlert) : Bool :=
  db.staticThresholds.any fun p =>
    !isStaticOnlyMetric p.2.metricName && p.1.accountId = a.accountId &&
      sameName a.metricName (p.1.dbMetricName p.2) &&
      (db.noisyCandidates p.1 p.2).any fun e => e.1 = a.resourceId

/-! ### The root-cause analysis -/

def capacityMetricNames : List String :=
  ["DiskSpaceUtilization", "disk_used_percent", "FreeStorageSpace", "EBSFreeSpacePercent"]

def isCapacityName (metricName : String) : Bool :=
  (capacityMetricNames.map lower).contains (lower metricName)

def rcaRows (db : FlappingTables) (accountId : ℕ) (resourceId metricName : String) :
    List RuleRow :=
  (db.alerts.filter fun a => a.accountId = accountId && a.resourceId = resourceId &&
      sameName a.metricName metricName).flatMap fun a =>
    (db.ruleRows a.accountId a.resourceId).filter fun e =>
      sameName e.metric.metricName a.metricName

/-- `_check_flapping`; the query asks for one row in no order. -/
def checkFlapping (db : FlappingTables) (choice accountId : ℕ) (resourceId metricName : String) :
    Bool :=
  if isCapacityName metricName then false
  else if isStaticOnlyMetric metricName then false
  else match limitOne (db.rcaRows accountId resourceId metricName) choice with
  | none => false
  | some e =>
    match db.typical accountId resourceId metricName with
    | none => false
    | some b =>
      if b.samples < 20 then false
      else b.crosses e.threshold.comparison e.threshold.k e.threshold.criticalValue &&
        !b.breaches e.threshold.comparison e.threshold.criticalValue

/-! ### What each of the three comes to -/

/-- The baseline of the alert's series, if it has samples enough. -/
def confident (db : FlappingTables) (a : StoredAlert) : Option Typical :=
  (db.typical a.accountId a.resourceId a.metricName).filter fun b => minConfidentSamples ≤ b.samples

def rulesOf (db : FlappingTables) (a : StoredAlert) : List RuleRow :=
  db.ruleRows a.accountId a.resourceId

/-- The static rows whose catalogue name is the name in the alert. -/
def namedRules (db : FlappingTables) (a : StoredAlert) : List RuleRow :=
  (db.rulesOf a).filter fun e => sameName e.metric.metricName a.metricName

/-- A row that the tuner takes for the alert's metric and resource. -/
def TunedFor (a : StoredAlert) (e : RuleRow) : Prop :=
  e.threshold.enabled = true ∧ e.threshold.placeholder = false ∧
    isStaticOnlyMetric e.metric.metricName = false ∧
    sameName a.metricName (e.threshold.dbMetricName e.metric) = true ∧
    e.threshold.rightFamily e.metric a.resourceId = true

/-- The warning line lies in the noise band, with the tuner's multiplier. -/
def NoisyWarning (b : Typical) (e : RuleRow) : Prop :=
  b.flaps e.threshold.comparison e.threshold.k e.threshold.warningValue = true

def NoisyCritical (b : Typical) (e : RuleRow) : Prop :=
  b.flaps e.threshold.comparison e.threshold.k e.threshold.criticalValue = true

instance (a : StoredAlert) (e : RuleRow) : Decidable (TunedFor a e) :=
  inferInstanceAs (Decidable (_ ∧ _ ∧ _ ∧ _ ∧ _))

instance (b : Typical) (e : RuleRow) : Decidable (NoisyWarning b e) :=
  inferInstanceAs (Decidable (_ = true))

instance (b : Typical) (e : RuleRow) : Decidable (NoisyCritical b e) :=
  inferInstanceAs (Decidable (_ = true))

/-- The row of the alert that the analysis is given. -/
def rcaRow (db : FlappingTables) (choice : ℕ) (a : StoredAlert) : Option RuleRow :=
  limitOne (db.rcaRows a.accountId a.resourceId a.metricName) choice

variable {db : FlappingTables} {now choice : ℕ} {staleMinutes : ResourceRow → StoredAlert → ℕ}
  {a : StoredAlert} {b : Typical} {e : RuleRow}

theorem mem_rulesOf : e ∈ db.rulesOf a ↔ e.resource ∈ db.resources ∧
    e.resource.accountId = a.accountId ∧ e.resource.resourceId = a.resourceId ∧
    e.threshold ∈ db.thresholds ∧ e.threshold.accountId = a.accountId ∧
    e.threshold.resourceType = e.resource.resourceType ∧ e.threshold.useDynamic = false ∧
    e.metric ∈ db.catalog ∧ e.metric.id = e.threshold.metricId := by
  obtain ⟨t, m, r⟩ := e
  simp only [rulesOf, ruleRows, List.mem_flatMap, List.mem_map, List.mem_filter,
    Bool.and_eq_true, decide_eq_true_eq, Bool.not_eq_true', RuleRow.mk.injEq]
  constructor
  · rintro ⟨r', ⟨hr, hra, hri⟩, t', ⟨ht, ⟨hta, htt⟩, hdyn⟩, m', ⟨hm, hid⟩, rfl, rfl, rfl⟩
    exact ⟨hr, hra, hri, ht, hta, htt, hdyn, hm, hid⟩
  · rintro ⟨hr, hra, hri, ht, hta, htt, hdyn, hm, hid⟩
    exact ⟨r, ⟨hr, hra, hri⟩, t, ⟨ht, ⟨hta, htt⟩, hdyn⟩, m, ⟨hm, hid⟩, rfl, rfl, rfl⟩

theorem confident_some : db.confident a = some b ↔
    db.typical a.accountId a.resourceId a.metricName = some b ∧
      minConfidentSamples ≤ b.samples := by
  simp [confident, Option.filter_eq_some_iff]

/-- No line lies in a band of no width. -/
theorem flaps_zero (b : Typical) (comparison : Comparison) (line : ℚ) :
    b.flaps comparison 0 line = false := by
  unfold Typical.flaps Typical.breaches Typical.crosses
  rw [zero_mul, add_zero, sub_zero]
  cases comparison.upward <;> simp

theorem flaps_dynamicK (b : Typical) (t : TypedThreshold) (line : ℚ) :
    b.flaps t.comparison t.dynamicK line = true ↔
      t.dynamicK ≠ 0 ∧ b.flaps t.comparison t.k line = true := by
  unfold TypedThreshold.k
  split
  · rename_i hzero
    rw [hzero, flaps_zero]
    simp
  · rename_i hne
    simp [hne]

/-- An alert that fires, whichever resource row it is joined with. -/
def FiringAlert (db : FlappingTables) (now : ℕ) (staleMinutes : ResourceRow → StoredAlert → ℕ)
    (a : StoredAlert) : Prop :=
  a ∈ db.alerts ∧ ∀ r ∈ db.resources, r.accountId = a.accountId → r.resourceId = a.resourceId →
    isFiring now staleMinutes r a = true

theorem mem_static {name : String} (h : lower name = "mem_used_percent") :
    isStaticOnlyMetric name = true := by
  simp [isStaticOnlyMetric, isCapacityPercentMetric, capacityPercentMetrics, h]

/-- The list returns an alert for a row with its own name, while the account is active. -/
theorem listed_iff (h : db.FiringAlert now staleMinutes a) :
    a.id ∈ db.likelyFlappingAlertIds now staleMinutes none ↔
      a.accountId ∈ db.activeAccounts ∧
        startsWith (lower a.metricName) "disk_used_percent" = false ∧
        isStaticOnlyMetric a.metricName = false ∧
        ∃ b, db.confident a = some b ∧ ∃ e ∈ db.namedRules a,
          e.threshold.placeholder = false ∧ e.threshold.dynamicK ≠ 0 ∧ NoisyWarning b e := by
  obtain ⟨ha, hfiring⟩ := h
  have hid : ∀ a' ∈ db.alerts, a'.id = a.id → a' = a := fun a' ha' heq =>
    List.inj_on_of_nodup_map db.alertIds_nodup ha' ha heq
  rw [likelyFlappingAlertIds, List.mem_dedup, List.mem_map]
  simp only [List.mem_filter, Option.all_none, Bool.true_and, Bool.and_eq_true,
    List.contains_iff_mem, bne_iff_ne, Bool.not_eq_true', Option.any_eq_true, List.any_eq_true]
  constructor
  · rintro ⟨a', ⟨ha', ⟨⟨⟨hacct, -⟩, hdisk⟩, b, hb, e, he, hrow⟩, hstatic⟩, heq⟩
    obtain rfl := hid a' ha' heq
    simp only [flappingRow, Bool.and_eq_true, Bool.not_eq_true', decide_eq_true_eq] at hrow
    obtain ⟨⟨⟨⟨-, hplace⟩, hname⟩, hsamples⟩, hflaps⟩ := hrow
    exact ⟨hacct, hdisk, hstatic, b, confident_some.mpr ⟨hb, hsamples⟩, e,
      List.mem_filter.mpr ⟨he, hname⟩, hplace, (flaps_dynamicK b _ _).mp hflaps⟩
  · rintro ⟨hacct, hdisk, hstatic, b, hb, e, he, hplace, hnoisy⟩
    obtain ⟨hb, hsamples⟩ := confident_some.mp hb
    obtain ⟨he, hname⟩ := List.mem_filter.mp he
    obtain ⟨hr, hra, hri, -⟩ := mem_rulesOf.mp he
    refine ⟨a, ⟨ha, ⟨⟨⟨hacct, ?_⟩, hdisk⟩, b, hb, e, he, ?_⟩, hstatic⟩, rfl⟩
    · intro hmem
      rw [mem_static hmem] at hstatic
      cases hstatic
    · simp only [flappingRow, Bool.and_eq_true, Bool.not_eq_true', decide_eq_true_eq]
      exact ⟨⟨⟨⟨hfiring _ hr hra hri, hplace⟩, hname⟩, hsamples⟩, (flaps_dynamicK b _ _).mpr hnoisy⟩

theorem typicalOf_mem {rows : List BaselineRow} (h : typicalOf rows = some b) :
    ∃ row, row ∈ rows := by
  cases rows with
  | nil => cases h
  | cons row rows => exact ⟨row, List.mem_cons_self⟩

theorem mem_resourceBaselines {t : TypedThreshold} {m : CatalogMetric} {resourceId : String} :
    (resourceId, b) ∈ db.resourceBaselines t m ↔
      typicalOf ((db.tunerRows t m).filter fun row => row.resourceId = resourceId) = some b ∧
        minConfidentSamples ≤ b.samples ∧ t.rightFamily m resourceId = true := by
  simp only [resourceBaselines, List.mem_filter, List.mem_filterMap, List.mem_dedup, List.mem_map,
    Option.map_eq_some_iff, Option.filter_eq_some_iff, decide_eq_true_eq]
  constructor
  · rintro ⟨⟨_, -, _, ⟨hb, hsamples⟩, heq⟩, hfamily⟩
    obtain ⟨rfl, rfl⟩ := Prod.mk.inj heq
    exact ⟨hb, hsamples, hfamily⟩
  · rintro ⟨hb, hsamples, hfamily⟩
    obtain ⟨row, hrow⟩ := typicalOf_mem hb
    obtain ⟨hrow, hid⟩ := List.mem_filter.mp hrow
    exact ⟨⟨resourceId, ⟨row, hrow, of_decide_eq_true hid⟩, b, ⟨hb, hsamples⟩, rfl⟩, hfamily⟩

/-- The tuner's group of the alert's resource is the series of the alert, if the resource has the
type of the row. -/
theorem tunerRows_typical {t : TypedThreshold} {m : CatalogMetric}
    (hacct : t.accountId = a.accountId)
    (hname : sameName a.metricName (t.dbMetricName m) = true) :
    typicalOf ((db.tunerRows t m).filter fun row => row.resourceId = a.resourceId) = some b ↔
      (∃ r ∈ db.resources, r.accountId = a.accountId ∧ r.resourceId = a.resourceId ∧
        r.resourceType = t.resourceType) ∧
      db.typical a.accountId a.resourceId a.metricName = some b := by
  have hlower : lower (t.dbMetricName m) = lower a.metricName := (beq_iff_eq.mp hname).symm
  by_cases hres : ∃ r ∈ db.resources, r.accountId = a.accountId ∧ r.resourceId = a.resourceId ∧
      r.resourceType = t.resourceType
  · have hrows : ((db.tunerRows t m).filter fun row => row.resourceId = a.resourceId) =
        db.baselines.filter fun row => row.accountId = a.accountId &&
          row.resourceId = a.resourceId && sameName row.metricName a.metricName := by
      rw [tunerRows, List.filter_filter]
      refine List.filter_congr fun row _ => ?_
      rw [Bool.eq_iff_iff]
      simp only [Bool.and_eq_true, decide_eq_true_eq, List.any_eq_true, sameName, hlower, hacct]
      constructor
      · rintro ⟨hid, ⟨hra, hrn⟩, -⟩
        exact ⟨⟨hra, hid⟩, hrn⟩
      · rintro ⟨⟨hra, hid⟩, hrn⟩
        obtain ⟨r, hr, hracct, hrid, htype⟩ := hres
        exact ⟨hid, ⟨hra, hrn⟩, r, hr, ⟨hracct.trans hra.symm, hrid.trans hid.symm⟩, htype⟩
    rw [hrows]
    exact (and_iff_right hres).symm
  · refine iff_of_false (fun hb => ?_) fun h => hres h.1
    obtain ⟨row, hrow⟩ := typicalOf_mem hb
    obtain ⟨hrow, hid⟩ := List.mem_filter.mp hrow
    obtain ⟨-, hrow⟩ := List.mem_filter.mp hrow
    simp only [Bool.and_eq_true, decide_eq_true_eq, List.any_eq_true] at hrow hid
    obtain ⟨⟨hra, -⟩, r, hr, ⟨hracct, hrid⟩, htype⟩ := hrow
    exact hres ⟨r, hr, hracct.trans (hra.trans hacct), hrid.trans hid, htype⟩

/-- The tuner accepts the resource for a row that it takes for the alert's metric. -/
theorem accepts_iff : db.tunerAccepts a = true ↔
    ∃ b, db.confident a = some b ∧ ∃ e ∈ db.rulesOf a, TunedFor a e ∧ NoisyWarning b e := by
  simp only [tunerAccepts, staticThresholds, List.any_eq_true, List.mem_flatMap, List.mem_map,
    List.mem_filter, Bool.and_eq_true, Bool.not_eq_true', decide_eq_true_eq, noisyCandidates]
  constructor
  · rintro ⟨_, ⟨t, ⟨ht, ⟨henabled, hdyn⟩, hplace⟩, m, ⟨hm, hid⟩, rfl⟩,
      ⟨⟨hstatic, hacct⟩, hname⟩, ⟨rid, b⟩, ⟨hb, hbreach, hcross⟩, hrid⟩
    dsimp only at hrid hbreach hcross hstatic hacct hname
    subst hrid
    obtain ⟨htyp, hsamples, hfamily⟩ := mem_resourceBaselines.mp hb
    obtain ⟨⟨r, hr, hra, hri, htype⟩, htyp⟩ := (tunerRows_typical hacct hname).mp htyp
    refine ⟨b, confident_some.mpr ⟨htyp, hsamples⟩, ⟨t, m, r⟩, mem_rulesOf.mpr
      ⟨hr, hra, hri, ht, hacct, htype.symm, hdyn, hm, hid⟩,
      ⟨henabled, hplace, hstatic, hname, hfamily⟩, ?_⟩
    rw [NoisyWarning, Typical.flaps, hbreach]
    exact hcross
  · rintro ⟨b, hb, e, he, ⟨henabled, hplace, hstatic, hname, hfamily⟩, hnoisy⟩
    obtain ⟨hr, hra, hri, ht, hacct, htype, hdyn, hm, hid⟩ := mem_rulesOf.mp he
    obtain ⟨htyp, hsamples⟩ := confident_some.mp hb
    rw [NoisyWarning, Typical.flaps, Bool.and_eq_true, Bool.not_eq_true'] at hnoisy
    refine ⟨(e.threshold, e.metric), ⟨e.threshold, ⟨ht, ⟨henabled, hdyn⟩, hplace⟩, e.metric,
      ⟨hm, hid⟩, rfl⟩, ⟨⟨hstatic, hacct⟩, hname⟩, (a.resourceId, b), ⟨?_, hnoisy⟩, rfl⟩
    exact mem_resourceBaselines.mpr ⟨(tunerRows_typical hacct hname).mpr
      ⟨⟨e.resource, hr, hra, hri, htype.symm⟩, htyp⟩, hsamples, hfamily⟩

/-- The root-cause analysis asks one row with the alert's own name for its critical line. -/
theorem checkFlapping_iff :
    db.checkFlapping choice a.accountId a.resourceId a.metricName = true ↔
      isCapacityName a.metricName = false ∧ isStaticOnlyMetric a.metricName = false ∧
        ∃ b, db.confident a = some b ∧ ∃ e ∈ db.rcaRow choice a, NoisyCritical b e := by
  rw [checkFlapping, rcaRow]
  cases isCapacityName a.metricName with
  | true => simp
  | false =>
    cases isStaticOnlyMetric a.metricName with
    | true => simp
    | false =>
      cases limitOne (db.rcaRows a.accountId a.resourceId a.metricName) choice with
      | none => simp
      | some e =>
        cases htyp : db.typical a.accountId a.resourceId a.metricName with
        | none => simp [confident, htyp]
        | some b =>
          simp only [Bool.false_eq_true, ↓reduceIte, true_and]
          constructor
          · intro h
            split at h
            · cases h
            · rename_i hsamples
              obtain ⟨hcross, hbreach⟩ := Bool.and_eq_true_iff.mp h
              refine ⟨b, confident_some.mpr ⟨htyp, Nat.le_of_not_lt hsamples⟩, e, rfl, ?_⟩
              rw [NoisyCritical, Typical.flaps, hbreach]
              exact hcross
          · rintro ⟨b', hb, e', he, hnoisy⟩
            obtain ⟨htyp', hsamples⟩ := confident_some.mp hb
            obtain rfl := Option.some.inj (htyp.symm.trans htyp')
            obtain rfl := Option.some.inj he
            rw [NoisyCritical, Typical.flaps, Bool.and_comm] at hnoisy
            rwa [if_neg (show ¬ b.samples < 20 from Nat.not_lt.mpr hsamples)]

/-! ### Where the three agree -/

/-- If a row that the tuner takes has its warning line in the noise band, then the list and the
analysis have a row for it as well; if none has, then no row that these look at has its line
there. -/
def RowsAgree (db : FlappingTables) (choice : ℕ) (a : StoredAlert) (b : Typical) : Prop :=
  if ∃ e ∈ db.rulesOf a, TunedFor a e ∧ NoisyWarning b e then
    isStaticOnlyMetric a.metricName = false ∧ isCapacityName a.metricName = false ∧
      startsWith (lower a.metricName) "disk_used_percent" = false ∧
      a.accountId ∈ db.activeAccounts ∧
      (∃ e ∈ db.namedRules a,
        e.threshold.placeholder = false ∧ e.threshold.dynamicK ≠ 0 ∧ NoisyWarning b e) ∧
      ∃ e ∈ db.rcaRow choice a, NoisyCritical b e
  else isStaticOnlyMetric a.metricName = false →
    (a.accountId ∈ db.activeAccounts →
        startsWith (lower a.metricName) "disk_used_percent" = false →
      ∀ e ∈ db.namedRules a, e.threshold.placeholder = false → e.threshold.dynamicK ≠ 0 →
        ¬ NoisyWarning b e) ∧
      (isCapacityName a.metricName = false → ∀ e ∈ db.rcaRow choice a, ¬ NoisyCritical b e)

theorem agree_iff {L T R : Prop} [Decidable T] :
    ((L ↔ T) ∧ (L ↔ R)) ↔ if T then L ∧ R else ¬ L ∧ ¬ R := by
  split <;> tauto

/-- The list, the tuner's noise test and the root-cause analysis agree on a firing alert exactly if
its rows do. -/
theorem flapping_agrees_iff (h : db.FiringAlert now staleMinutes a) :
    ((a.id ∈ db.likelyFlappingAlertIds now staleMinutes none ↔ db.tunerAccepts a = true) ∧
      (a.id ∈ db.likelyFlappingAlertIds now staleMinutes none ↔
        db.checkFlapping choice a.accountId a.resourceId a.metricName = true)) ↔
      ∀ b, db.confident a = some b → db.RowsAgree choice a b := by
  rw [listed_iff h, accepts_iff, checkFlapping_iff]
  cases db.confident a with
  | none => simp
  | some b =>
    have hone : ∀ P : Typical → Prop, (∃ b', some b = some b' ∧ P b') ↔ P b := by
      intro P
      constructor
      · rintro ⟨b', hb, hP⟩
        obtain rfl := Option.some.inj hb
        exact hP
      · exact fun hP => ⟨b, rfl, hP⟩
    have hall : (∀ b', some b = some b' → db.RowsAgree choice a b') ↔ db.RowsAgree choice a b := by
      simp
    rw [hone, hone, hone, hall, agree_iff, RowsAgree]
    by_cases htuned : ∃ e ∈ db.rulesOf a, TunedFor a e ∧ NoisyWarning b e
    · rw [if_pos htuned, if_pos htuned]
      constructor
      · rintro ⟨⟨hact, hdisk, hstatic, hlist⟩, hcap, -, hrca⟩
        exact ⟨hstatic, hcap, hdisk, hact, hlist, hrca⟩
      · rintro ⟨hstatic, hcap, hdisk, hact, hlist, hrca⟩
        exact ⟨⟨hact, hdisk, hstatic, hlist⟩, hcap, hstatic, hrca⟩
    · rw [if_neg htuned, if_neg htuned]
      constructor
      · rintro ⟨hlist, hrca⟩ hstatic
        refine ⟨fun hact hdisk e he hplace hk hnoisy => ?_, fun hcap e he hnoisy => ?_⟩
        · exact hlist ⟨hact, hdisk, hstatic, e, he, hplace, hk, hnoisy⟩
        · exact hrca ⟨hcap, hstatic, e, he, hnoisy⟩
      · intro hno
        constructor
        · rintro ⟨hact, hdisk, hstatic, e, he, hplace, hk, hnoisy⟩
          exact (hno hstatic).1 hact hdisk e he hplace hk hnoisy
        · rintro ⟨hcap, hstatic, e, he, hnoisy⟩
          exact (hno hstatic).2 hcap e he hnoisy

/-! ### One instance with a noisy CPU -/

def exampleAlert : StoredAlert :=
  ⟨1, 1, "i-1", "cpuutilization", some "WARNING", .active, false, none, some 0, 0⟩

def exampleRule (critical : ℚ) : RuleRow :=
  ⟨⟨1, "ec2", 1, 80, critical, .gt, 3, false, true⟩, ⟨1, "CPUUtilization", some "ec2"⟩,
    ⟨1, "i-1", "ec2"⟩⟩

def exampleTables (critical : ℚ) : FlappingTables where
  activeAccounts := [1]
  resources := [(exampleRule critical).resource]
  thresholds := [(exampleRule critical).threshold]
  catalog := [(exampleRule critical).metric]
  baselines := [⟨1, "i-1", "cpuutilization", 70, 5, 30⟩]
  alerts := [exampleAlert]
  alertIds_nodup := List.nodup_singleton 1

section ExampleTables
variable (critical : ℚ)

theorem example_firing :
    (exampleTables critical).FiringAlert 0 (fun _ _ => 15) exampleAlert := by
  refine ⟨List.mem_singleton_self _, fun r hr _ _ => ?_⟩
  obtain rfl := List.mem_singleton.mp hr
  rfl

theorem example_confident :
    (exampleTables critical).confident exampleAlert = some ⟨70, 5, 30⟩ := by
  simp [confident, typical, exampleTables, exampleAlert, sameName, typicalOf, minConfidentSamples]

theorem example_rules : (exampleTables critical).rulesOf exampleAlert = [exampleRule critical] := by
  simp [rulesOf, ruleRows, exampleTables, exampleAlert, exampleRule]

theorem example_named :
    (exampleTables critical).namedRules exampleAlert = [exampleRule critical] := by
  rw [namedRules, example_rules]
  simp [exampleRule, exampleAlert, sameName, lower]

theorem example_rcaRow :
    (exampleTables critical).rcaRow 0 exampleAlert = some (exampleRule critical) := by
  have hrows :
      (exampleTables critical).rcaRows 1 "i-1" "cpuutilization" = [exampleRule critical] := by
    have hnamed := example_named critical
    rw [namedRules, rulesOf] at hnamed
    simpa [rcaRows, exampleTables, sameName, exampleAlert] using hnamed
  rw [rcaRow, exampleAlert, hrows]
  rfl

theorem example_placeholder : (exampleRule critical).threshold.placeholder = false := by
  simp [exampleRule, TypedThreshold.placeholder, isPlaceholderThreshold, placeholderThreshold]

theorem example_static : isStaticOnlyMetric "cpuutilization" = false := by decide +kernel

theorem example_tuned : TunedFor exampleAlert (exampleRule critical) := by
  have hlower : lower "CPUUtilization" = lower "cpuutilization" := by simp [lower]
  refine ⟨rfl, example_placeholder critical, ?_, ?_, ?_⟩
  · simpa only [isStaticOnlyMetric, isCapacityPercentMetric, exampleRule, hlower] using
      example_static
  · simp [sameName, exampleAlert, exampleRule, TypedThreshold.dbMetricName, resolveDbMetricName,
      awsMetricNameToDbName, KeyedStore.find, lower]
  · simp [TypedThreshold.rightFamily, exampleRule]

theorem example_noisyWarning : NoisyWarning ⟨70, 5, 30⟩ (exampleRule critical) := by
  norm_num [NoisyWarning, Typical.flaps, Typical.breaches, Typical.crosses, exampleRule,
    TypedThreshold.k, Comparison.upward]

theorem example_listable : isCapacityName exampleAlert.metricName = false ∧
    startsWith (lower exampleAlert.metricName) "disk_used_percent" = false := by
  constructor
  · simp [isCapacityName, capacityMetricNames, exampleAlert, lower]
  · simp [exampleAlert, lower, startsWith]

theorem example_listed : ∃ e ∈ (exampleTables critical).namedRules exampleAlert,
    e.threshold.placeholder = false ∧ e.threshold.dynamicK ≠ 0 ∧ NoisyWarning ⟨70, 5, 30⟩ e := by
  rw [example_named]
  exact ⟨_, List.mem_singleton_self _, example_placeholder critical, by norm_num [exampleRule],
    example_noisyWarning critical⟩

theorem example_accepted : ∃ e ∈ (exampleTables critical).rulesOf exampleAlert,
    TunedFor exampleAlert e ∧ NoisyWarning ⟨70, 5, 30⟩ e := by
  rw [example_rules]
  exact ⟨_, List.mem_singleton_self _, example_tuned critical, example_noisyWarning critical⟩

end ExampleTables

/-- Warning line 80 and critical line 84 both lie in the band from 70 to 85. -/
theorem flapping_agrees_narrow :
    (exampleAlert.id ∈ (exampleTables 84).likelyFlappingAlertIds 0 (fun _ _ => 15) none ↔
        (exampleTables 84).tunerAccepts exampleAlert = true) ∧
      (exampleAlert.id ∈ (exampleTables 84).likelyFlappingAlertIds 0 (fun _ _ => 15) none ↔
        (exampleTables 84).checkFlapping 0 exampleAlert.accountId exampleAlert.resourceId
          exampleAlert.metricName = true) := by
  refine (flapping_agrees_iff (example_firing 84)).mpr fun b hb => ?_
  obtain rfl := Option.some.inj ((example_confident 84).symm.trans hb)
  rw [RowsAgree, if_pos (example_accepted 84)]
  refine ⟨example_static, example_listable.1, example_listable.2, List.mem_singleton_self _,
    example_listed 84, exampleRule 84, example_rcaRow 84, ?_⟩
  norm_num [NoisyCritical, Typical.flaps, Typical.breaches, Typical.crosses, exampleRule,
    TypedThreshold.k, Comparison.upward]

/-- Warning line 80 and critical line 95: the list and the tuner call the alert flapping, the
root-cause analysis does not. -/
theorem critical_line_disagrees :
    (exampleTables 95).FiringAlert 0 (fun _ _ => 15) exampleAlert ∧
      exampleAlert.id ∈ (exampleTables 95).likelyFlappingAlertIds 0 (fun _ _ => 15) none ∧
      (exampleTables 95).tunerAccepts exampleAlert = true ∧
      (exampleTables 95).checkFlapping 0 exampleAlert.accountId exampleAlert.resourceId
        exampleAlert.metricName = false := by
  have hconf := example_confident 95
  refine ⟨example_firing 95, (listed_iff (example_firing 95)).mpr ?_, accepts_iff.mpr ?_, ?_⟩
  · exact ⟨List.mem_singleton_self _, example_listable.2, example_static, _, hconf,
      example_listed 95⟩
  · exact ⟨_, hconf, example_accepted 95⟩
  · rw [Bool.eq_false_iff, Ne, checkFlapping_iff, example_rcaRow]
    rintro ⟨-, -, b, hb, e, he, hnoisy⟩
    obtain rfl := Option.some.inj (hconf.symm.trans hb)
    obtain rfl := Option.some.inj he
    norm_num [NoisyCritical, Typical.flaps, Typical.breaches, Typical.crosses, exampleRule,
      TypedThreshold.k, Comparison.upward] at hnoisy

end FlappingTables

end MonitoringHub.Alerts
