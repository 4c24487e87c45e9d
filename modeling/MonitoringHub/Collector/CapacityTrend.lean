import MonitoringHub.Baselines.RecomputeBaselines
import MonitoringHub.Lib.LineFit
import MonitoringHub.Lib.Median
import MonitoringHub.Slo.BudgetStatus

/-! The forecasts of capacity exhaustion. One query for each capacity metric brings the hourly means
of two weeks; a line is fitted to what follows the last abrupt move of a resource's series toward
exhaustion, and says when the ceiling is reached. Values are rationals, so every point is finite. -/

namespace MonitoringHub.Collector
open Lib Lib.KeyedStore Lib.LineFit Lib.Median Lib.SampleMoments

/-- The metrics with a ceiling, which a share used grows up to and free space shrinks down to. -/
def capacityMetrics : List (String × ℚ) :=
  [("DiskSpaceUtilization", 100), ("disk_used_percent", 100), ("FreeStorageSpace", 0),
    ("EBSFreeSpacePercent", 0)]

def trendLookbackDays : ℤ := 14
def minPointsForTrend : ℕ := 20
def maxReportableDays : ℚ := 365
def levelShiftFraction : ℚ := 1 / 4
def levelShiftNoiseMult : ℚ := 8
def levelShiftMinLevelFraction : ℚ := 1 / 20

/-- `1.4826 * median(|d - median(d)|)` -/
def noise (d : List ℚ) : ℚ := 14826 / 10000 * deviation d

/-- How far a move toward exhaustion goes that counts as a step. -/
def shiftThreshold (values : List ℚ) : ℚ :=
  max (max (levelShiftFraction * span values) (levelShiftNoiseMult * noise (diff values)))
    (levelShiftMinLevelFraction * mean (values.map abs))

/-- The moves from hour to hour, up for a share used and down for free space. -/
def toward (ceiling : ℚ) (values : List ℚ) : List ℚ :=
  (diff values).map fun d => if 0 < ceiling then d else -d

def levelShifts (ceiling : ℚ) (values : List ℚ) : List ℕ :=
  (List.range (values.length - 1)).filter fun i =>
    shiftThreshold values ≤ (toward ceiling values).getD i 0

/-- The points, pairs of a timestamp and a value, after the last abrupt step. -/
def afterLastLevelShift (ceiling : ℚ) (points : List (ℚ × ℚ)) : List (ℚ × ℚ) :=
  let values := points.map Prod.snd
  if values.length < 3 ∨ span values ≤ 0 then points
  else match (levelShifts ceiling values).getLast? with
    | none => points
    | some step => points.drop (step + 1)

/-- The timestamps in days since the first. -/
def inDays (points : List (ℚ × ℚ)) : List (ℚ × ℚ) :=
  points.map fun p => ((p.1 - (points.map Prod.fst).min?.getD 0) / 86400, p.2)

/-- The slope per day and the intercept. -/
def linearTrend (points : List (ℚ × ℚ)) : Option (ℚ × ℚ) :=
  if points.length < minPointsForTrend then none
  else if (points.map Prod.fst).dedup.length < 2 then none
  else some (slope (inDays points), intercept (inDays points))

/-- Nothing for a slope away from exhaustion, or none. -/
def daysToExhaustion (ceiling current slope : ℚ) : Option ℚ :=
  if 0 < ceiling then if slope ≤ 0 then none else some (max 0 ((ceiling - current) / slope))
  else if 0 ≤ slope then none else some (max 0 ((current - ceiling) / -slope))

/-! ### The query -/

/-- One call, with `NOW()` of its query, MySQL's `UNIX_TIMESTAMP` in the zone of its session, and
what the collation compares of a text. -/
structure Query where
  db : Baselines.Database
  now : ℤ
  unixTimestamp : ℤ → ℤ
  collate : String → String
  awsResourceId : Option String
  awsAccountIds : Option (List ℕ)

structure Sample where
  resource : Baselines.Resource
  ts : ℤ
  metricValue : ℚ

def Sample.hour (s : Sample) : ℤ := s.ts / 3600

structure HourRow where
  rid : ℕ
  awsResourceId : String
  awsAccountId : ℕ
  ts : ℤ
  metricValue : ℚ

def HourRow.point (row : HourRow) : ℚ × ℚ := (row.ts, row.metricValue)

/-- `ORDER BY r.id, ts` -/
def HourRow.Ordered (row row' : HourRow) : Prop :=
  row.rid < row'.rid ∨ row.rid = row'.rid ∧ row.ts ≤ row'.ts

instance : DecidableRel HourRow.Ordered := fun row row' =>
  inferInstanceAs (Decidable (row.rid < row'.rid ∨ row.rid = row'.rid ∧ row.ts ≤ row'.ts))

instance : Std.Total HourRow.Ordered where
  total row row' := by
    unfold HourRow.Ordered
    omega

instance : IsTrans HourRow HourRow.Ordered where
  trans row row' row'' h h' := by
    unfold HourRow.Ordered at *
    omega

structure Forecast where
  resourceId : String
  awsAccountId : ℕ
  metricName : String
  currentValue : ℚ
  slopePerDay : ℚ
  daysToExhaustion : ℚ
  deriving DecidableEq

/-- The forecast of one resource, from its points; without a trend toward the ceiling, or with more
than a year to go, there is none. -/
def forecast (metricName : String) (ceiling : ℚ) (points : List HourRow) : Option Forecast := do
  let fit ← linearTrend (afterLastLevelShift ceiling (points.map HourRow.point))
  let first ← points.head?
  let last ← points.getLast?
  let days ← daysToExhaustion ceiling last.metricValue fit.1
  guard (days ≤ maxReportableDays)
  return {
    resourceId := first.awsResourceId
    awsAccountId := first.awsAccountId
    metricName := metricName
    currentValue := last.metricValue
    slopePerDay := Slo.roundAt 10000 fit.1
    daysToExhaustion := Slo.roundAt 10 days }

namespace Query
variable (q : Query)

/-- The scope's conditions: an empty resource id sets none. -/
def covers (r : Baselines.Resource) : Bool :=
  (match q.awsResourceId with
    | none => true
    | some id => id = "" || q.collate r.resourceId = q.collate id) &&
  (match q.awsAccountIds with
    | none => true
    | some ids => r.awsAccountId ∈ ids)

/-- `metric_history` joined with `resources`. -/
def samples (metricName : String) : List Sample :=
  (q.db.recent q.now trendLookbackDays).flatMap fun h =>
    if q.collate h.metricName = q.collate metricName then
      h.metricValue.toList.flatMap fun v =>
        (q.db.resources.filter fun r => r.id = h.resourceId && q.covers r).map fun r =>
          { resource := r, ts := q.unixTimestamp h.metricTimestamp, metricValue := v }
    else []

/-- What the samples are grouped by: the columns of a resource and the hour. -/
def groups (metricName : String) : List (Baselines.Resource × ℤ) :=
  ((q.samples metricName).map fun s => (s.resource, s.hour)).dedup

def hourRow (metricName : String) (group : Baselines.Resource × ℤ) : HourRow :=
  let members := (q.samples metricName).filter fun s => (s.resource, s.hour) = group
  { rid := group.1.id
    awsResourceId := group.1.resourceId
    awsAccountId := group.1.awsAccountId
    ts := (members.map Sample.ts).min?.getD 0
    metricValue := mean (members.map Sample.metricValue) }

def rows (metricName : String) : List HourRow :=
  ((q.groups metricName).map (q.hourRow metricName)).insertionSort HourRow.Ordered

def byResource (metricName : String) : List (ℕ × List HourRow) :=
  (q.rows metricName).foldl (fun byResource row => appendAt row.rid row byResource) []

/-- The hourly points of one resource. -/
def series (metricName : String) (rid : ℕ) : List HourRow :=
  (q.rows metricName).filter fun row => row.rid = rid

/-- An empty list of accounts means none of them. -/
def computeCapacityForecasts : List Forecast :=
  if q.awsAccountIds = some [] then []
  else capacityMetrics.flatMap fun metric =>
    (q.byResource metric.1).filterMap fun entry => forecast metric.1 metric.2 entry.2

section Series
variable {q} {metricName : String} {r : Baselines.Resource} {rid : ℕ} {row : HourRow}
  {points : List HourRow} {group : Baselines.Resource × ℤ}

theorem of_mem_groups (h : group ∈ q.groups metricName) :
    group.1 ∈ q.db.resources ∧ q.covers group.1 = true := by
  obtain ⟨s, hs, rfl⟩ := List.mem_map.mp (List.mem_dedup.mp h)
  obtain ⟨reading, -, hs⟩ := List.mem_flatMap.mp hs
  split at hs
  · obtain ⟨v, -, hs⟩ := List.mem_flatMap.mp hs
    obtain ⟨r, hr, rfl⟩ := List.mem_map.mp hs
    obtain ⟨hmem, hkeeps⟩ := List.mem_filter.mp hr
    exact ⟨hmem, (Bool.and_eq_true_iff.mp hkeeps).2⟩
  · exact absurd hs List.not_mem_nil

theorem mem_rows : row ∈ q.rows metricName ↔
    ∃ group ∈ q.groups metricName, q.hourRow metricName group = row := by
  rw [rows, List.mem_insertionSort, List.mem_map]

/-- The id stands for the resource. -/
theorem of_mem_series (hr : r ∈ q.db.resources) (h : row ∈ q.series metricName r.id) :
    row.awsResourceId = r.resourceId ∧ row.awsAccountId = r.awsAccountId ∧ q.covers r = true := by
  obtain ⟨hrow, hrid⟩ := List.mem_filter.mp h
  obtain ⟨group, hgroup, rfl⟩ := mem_rows.mp hrow
  obtain ⟨hmem, hcovers⟩ := of_mem_groups hgroup
  have hsame : group.1 = r :=
    List.inj_on_of_nodup_map q.db.ids_nodup hmem hr (of_decide_eq_true hrid)
  exact ⟨congrArg Baselines.Resource.resourceId hsame,
    congrArg Baselines.Resource.awsAccountId hsame, hsame ▸ hcovers⟩

theorem hour_hourRow (h : group ∈ q.groups metricName) :
    (q.hourRow metricName group).ts / 3600 = group.2 := by
  obtain ⟨s, hs, heq⟩ := List.mem_map.mp (List.mem_dedup.mp h)
  have hmember : s.ts ∈ ((q.samples metricName).filter fun s =>
      (s.resource, s.hour) = group).map Sample.ts :=
    List.mem_map_of_mem (List.mem_filter.mpr ⟨hs, decide_eq_true heq⟩)
  obtain ⟨first, hfirst⟩ := Option.isSome_iff_exists.mp (List.isSome_min?_of_mem hmember)
  obtain ⟨s', hs', rfl⟩ := List.mem_map.mp (List.min?_eq_some_iff.mp hfirst).1
  simp only [hourRow, hfirst, Option.getD_some]
  exact congrArg Prod.snd (of_decide_eq_true (List.mem_filter.mp hs').2)

/-- The query itself puts a resource's points in strictly increasing order. -/
theorem series_increasing (q : Query) (metricName : String) (rid : ℕ) :
    (q.series metricName rid).Pairwise fun row row' => row.ts < row'.ts := by
  have hsorted : (q.rows metricName).Pairwise HourRow.Ordered :=
    List.pairwise_insertionSort HourRow.Ordered _
  have happart : (q.rows metricName).Pairwise fun row row' =>
      row.rid = row'.rid → row.ts ≠ row'.ts := by
    have hperm := List.perm_insertionSort HourRow.Ordered
      ((q.groups metricName).map (q.hourRow metricName))
    refine (hperm.pairwise_iff fun h hrid hts => h hrid.symm hts.symm).mpr ?_
    refine List.pairwise_map.mpr ((List.nodup_dedup _).imp_of_mem ?_)
    intro group group' hgroup hgroup' hne hrid hts
    have hresource : group.1 = group'.1 :=
      List.inj_on_of_nodup_map q.db.ids_nodup (of_mem_groups hgroup).1 (of_mem_groups hgroup').1 hrid
    have hhour : group.2 = group'.2 := by
      rw [← hour_hourRow hgroup, ← hour_hourRow hgroup', hts]
    exact hne (Prod.ext hresource hhour)
  refine ((hsorted.and happart).filter _).imp_of_mem ?_
  rintro row row' hrow hrow' ⟨hle, hne⟩
  have hrid : row.rid = row'.rid := by
    rw [of_decide_eq_true (List.mem_filter.mp hrow).2, of_decide_eq_true (List.mem_filter.mp hrow').2]
  rcases hle with hlt | ⟨-, hle⟩
  · exact absurd hrid hlt.ne
  · exact lt_of_le_of_ne hle (hne hrid)

theorem mem_byResource (hne : points ≠ []) :
    (rid, points) ∈ q.byResource metricName ↔ q.series metricName rid = points := by
  have hfind : (find rid (q.byResource metricName)).getD [] = q.series metricName rid := by
    refine (find_foldl_appendAt HourRow.rid (fun row => row) (q.rows metricName) [] rid).trans ?_
    rw [List.map_id', series]
    rfl
  have hempty : Distinct ([] : List (ℕ × List HourRow)) := List.nodup_nil
  have hdistinct : Distinct (q.byResource metricName) := hempty.foldl_appendAt
  rw [hdistinct.mem_iff, ← hfind]
  cases hcase : find rid (q.byResource metricName) with
  | none => simp [Ne.symm hne]
  | some found => simp

end Series

end Query

end MonitoringHub.Collector
