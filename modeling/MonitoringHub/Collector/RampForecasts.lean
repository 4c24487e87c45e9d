import MonitoringHub.Collector.CapacityTrend

/-! A series on a straight line toward exhaustion. The detector of abrupt moves looks at the points
one after another and not at the time between them, so a collection gap that is long against the
whole series passes for one. Without such a gap the forecast is that of the line. -/

namespace MonitoringHub.Collector
open Lib Lib.KeyedStore Lib.LineFit Lib.Median Lib.SampleMoments

/-- The days until the line reaches the ceiling. -/
def remainingDays (ceiling slope current : ℚ) : ℚ := max 0 ((ceiling - current) / slope)

def lastValue (points : List (ℚ × ℚ)) : ℚ := (points.map Prod.snd).getLastD 0

/-- Enough points on a line that moves toward exhaustion, with less than the reportable days to
go. -/
structure Ramp (ceiling start slope : ℚ) (points : List (ℚ × ℚ)) : Prop where
  enough : minPointsForTrend ≤ points.length
  increasing : (points.map Prod.fst).Pairwise (· < ·)
  line : ∀ p ∈ points, p.2 = start + slope * (p.1 / 86400)
  toward : if 0 < ceiling then 0 < slope else slope < 0
  near : remainingDays ceiling slope (lastValue points) < maxReportableDays

/-- The seconds from point to point. -/
def gaps (points : List (ℚ × ℚ)) : List ℚ := diff (points.map Prod.fst)

/-- A gap of a quarter of the whole time, far longer than the others, in which the line makes five
per cent of the mean level. -/
structure LongGap (slope : ℚ) (points : List (ℚ × ℚ)) (gap : ℚ) : Prop where
  share : levelShiftFraction * span (points.map Prod.fst) ≤ gap
  uneven : levelShiftNoiseMult * noise (gaps points) ≤ gap
  material : levelShiftMinLevelFraction * mean (points.map fun p => |p.2|) ≤
    |slope| * (gap / 86400)

section Line
variable {ceiling start slope gap : ℚ} {points : List (ℚ × ℚ)} {i : ℕ}

/-- Per second. -/
theorem values_line (hline : ∀ p ∈ points, p.2 = start + slope * (p.1 / 86400)) :
    points.map Prod.snd = (points.map Prod.fst).map fun x => start + slope / 86400 * x := by
  rw [List.map_map]
  refine List.map_congr_left fun p hp => ?_
  rw [hline p hp, Function.comp_apply]
  ring

theorem noise_map_mul (c : ℚ) (d : List ℚ) : noise (d.map (c * ·)) = |c| * noise d := by
  rw [noise, noise, deviation_map_mul]
  ring

theorem toward_line (hline : ∀ p ∈ points, p.2 = start + slope * (p.1 / 86400))
    (htoward : if 0 < ceiling then 0 < slope else slope < 0) :
    toward ceiling (points.map Prod.snd) = (gaps points).map (|slope| / 86400 * ·) := by
  rw [toward, values_line hline, diff_line, List.map_map, ← gaps]
  refine List.map_congr_left fun d _ => ?_
  simp only [Function.comp_apply]
  split at htoward
  · rw [if_pos ‹_›, abs_of_pos htoward]
  · rw [if_neg ‹_›, abs_of_neg htoward]
    ring

theorem shiftThreshold_le_iff (hline : ∀ p ∈ points, p.2 = start + slope * (p.1 / 86400))
    (hslope : slope ≠ 0) :
    shiftThreshold (points.map Prod.snd) ≤ |slope| / 86400 * gap ↔ LongGap slope points gap := by
  have hrate : |slope / 86400| = |slope| / 86400 := by rw [abs_div, abs_of_pos (by norm_num : (0 : ℚ) < 86400)]
  have hpos : 0 < |slope| / 86400 := div_pos (abs_pos.mpr hslope) (by norm_num)
  have hspan : span (points.map Prod.snd) = |slope| / 86400 * span (points.map Prod.fst) := by
    rw [values_line hline, span_line, hrate]
  have hnoise : noise (diff (points.map Prod.snd)) = |slope| / 86400 * noise (gaps points) := by
    rw [values_line hline, diff_line, noise_map_mul, hrate, ← gaps]
  have hlevel : (points.map Prod.snd).map abs = points.map fun p => |p.2| := List.map_map
  have hmoves : |slope| / 86400 * gap = |slope| * (gap / 86400) := by ring
  rw [shiftThreshold, max_le_iff, max_le_iff, hspan, hnoise, hlevel, mul_left_comm,
    mul_left_comm levelShiftNoiseMult, mul_le_mul_iff_right₀ hpos, mul_le_mul_iff_right₀ hpos, hmoves]
  exact ⟨fun h => ⟨h.1.1, h.1.2, h.2⟩, fun h => ⟨⟨h.share, h.uneven⟩, h.material⟩⟩

theorem exists_earlier (hlen : minPointsForTrend ≤ points.length)
    (hincreasing : (points.map Prod.fst).Pairwise (· < ·)) :
    ∃ x ∈ points.map Prod.fst, ∃ y ∈ points.map Prod.fst, x < y := by
  have htwo : 1 < (points.map Prod.fst).length := by
    rw [List.length_map]
    exact lt_of_lt_of_le (by decide) hlen
  exact ⟨_, List.getElem_mem _, _, List.getElem_mem htwo,
    List.pairwise_iff_getElem.mp hincreasing 0 1 (Nat.zero_lt_one.trans htwo) htwo Nat.zero_lt_one⟩

theorem span_values_pos (hlen : minPointsForTrend ≤ points.length)
    (hincreasing : (points.map Prod.fst).Pairwise (· < ·))
    (hline : ∀ p ∈ points, p.2 = start + slope * (p.1 / 86400)) (hslope : slope ≠ 0) :
    0 < span (points.map Prod.snd) := by
  obtain ⟨x, hx, y, hy, hlt⟩ := exists_earlier hlen hincreasing
  rw [values_line hline, span_line]
  exact mul_pos (abs_pos.mpr (div_ne_zero hslope (by norm_num))) (span_pos hx hy hlt)

theorem linearTrend_line (hlen : minPointsForTrend ≤ points.length)
    (hincreasing : (points.map Prod.fst).Pairwise (· < ·))
    (hline : ∀ p ∈ points, p.2 = start + slope * (p.1 / 86400)) :
    ∃ b, linearTrend points = some (slope, b) := by
  have hnodup : (points.map Prod.fst).Nodup := hincreasing.imp ne_of_lt
  have hdistinct : ¬(points.map Prod.fst).dedup.length < 2 := by
    rw [hnodup.dedup, List.length_map]
    exact fun hlt => absurd (hlen.trans_lt hlt) (by decide)
  set first := (points.map Prod.fst).min?.getD 0 with hfirst
  have hdays : ∀ p ∈ inDays points,
      p.2 = (start + slope * (first / 86400)) + slope * p.1 := by
    intro day hday
    obtain ⟨p, hp, rfl⟩ := List.mem_map.mp hday
    dsimp only
    rw [hline p hp]
    ring
  have hspread : squares ((inDays points).map Prod.fst) ≠ 0 := by
    have hfst : (inDays points).map Prod.fst =
        (points.map Prod.fst).map fun x => (x - first) / 86400 := by
      rw [inDays, List.map_map, List.map_map]
      rfl
    obtain ⟨x, hx, y, hy, hlt⟩ := exists_earlier hlen hincreasing
    rw [hfst]
    refine squares_ne_zero (List.mem_map_of_mem hx) (List.mem_map_of_mem hy) fun hsame => ?_
    linarith
  refine ⟨intercept (inDays points), ?_⟩
  rw [linearTrend, if_neg (not_lt.mpr hlen), if_neg hdistinct, slope_line hdays hspread]

end Line

section Ramp
variable {ceiling start slope gap : ℚ} {points : List (ℚ × ℚ)} {i : ℕ}

theorem Ramp.slope_ne_zero (h : Ramp ceiling start slope points) : slope ≠ 0 := by
  have htoward := h.toward
  split at htoward
  · exact htoward.ne'
  · exact htoward.ne

theorem Ramp.mem_levelShifts (h : Ramp ceiling start slope points) :
    i ∈ levelShifts ceiling (points.map Prod.snd) ↔
      ∃ gap, (gaps points)[i]? = some gap ∧ LongGap slope points gap := by
  have hlength : (gaps points).length = (points.map Prod.snd).length - 1 := by
    rw [gaps, length_diff, List.length_map, List.length_map]
  rw [levelShifts, List.mem_filter, List.mem_range, toward_line h.line h.toward, ← hlength,
    decide_eq_true_iff, List.getD_eq_getElem?_getD, List.getElem?_map]
  constructor
  · rintro ⟨hi, hstep⟩
    rw [List.getElem?_eq_getElem hi] at hstep ⊢
    exact ⟨_, rfl, (shiftThreshold_le_iff h.line h.slope_ne_zero).mp hstep⟩
  · rintro ⟨gap, hgap, hlong⟩
    refine ⟨(List.getElem?_eq_some_iff.mp hgap).1, ?_⟩
    rw [hgap]
    exact (shiftThreshold_le_iff h.line h.slope_ne_zero).mpr hlong

theorem Ramp.afterLastLevelShift_eq (h : Ramp ceiling start slope points) :
    afterLastLevelShift ceiling points =
      (levelShifts ceiling (points.map Prod.snd)).getLast?.elim points
        fun step => points.drop (step + 1) := by
  have hlong : ¬((points.map Prod.snd).length < 3 ∨ span (points.map Prod.snd) ≤ 0) := by
    rintro (hlt | hle)
    · rw [List.length_map] at hlt
      exact absurd (h.enough.trans_lt hlt) (by decide)
    · exact not_lt.mpr hle (span_values_pos h.enough h.increasing h.line h.slope_ne_zero)
  rw [afterLastLevelShift, if_neg hlong]
  cases (levelShifts ceiling (points.map Prod.snd)).getLast? <;> rfl

/-- Nothing is cut off but behind a long gap. -/
theorem Ramp.afterLastLevelShift_eq_self (h : Ramp ceiling start slope points) :
    afterLastLevelShift ceiling points = points ↔ ∀ gap ∈ gaps points, ¬LongGap slope points gap := by
  rw [h.afterLastLevelShift_eq]
  cases hlast : (levelShifts ceiling (points.map Prod.snd)).getLast? with
  | none =>
    refine iff_of_true rfl fun gap hgap hlong => ?_
    obtain ⟨i, hi⟩ := List.mem_iff_getElem?.mp hgap
    have hmem := h.mem_levelShifts.mpr ⟨gap, hi, hlong⟩
    rw [List.getLast?_eq_none_iff.mp hlast] at hmem
    exact absurd hmem List.not_mem_nil
  | some step =>
    obtain ⟨gap, hgap, hlong⟩ := h.mem_levelShifts.mp (List.mem_of_getLast? hlast)
    refine iff_of_false (fun hsame => ?_) fun hnone =>
      hnone gap (List.mem_of_getElem? hgap) hlong
    have hlen := congrArg List.length hsame
    have hpos : 0 < points.length := lt_of_lt_of_le (by decide) h.enough
    rw [Option.elim_some, List.length_drop] at hlen
    omega

theorem Ramp.enough_after_iff (h : Ramp ceiling start slope points) :
    minPointsForTrend ≤ (afterLastLevelShift ceiling points).length ↔
      ∀ i gap, (gaps points)[i]? = some gap → LongGap slope points gap →
        i + 1 + minPointsForTrend ≤ points.length := by
  have hsorted : (levelShifts ceiling (points.map Prod.snd)).Pairwise (· < ·) :=
    List.pairwise_lt_range.filter _
  rw [h.afterLastLevelShift_eq]
  cases hlast : (levelShifts ceiling (points.map Prod.snd)).getLast? with
  | none =>
    refine iff_of_true h.enough fun i gap hgap hlong => ?_
    have hmem := h.mem_levelShifts.mpr ⟨gap, hgap, hlong⟩
    rw [List.getLast?_eq_none_iff.mp hlast] at hmem
    exact absurd hmem List.not_mem_nil
  | some step =>
    obtain ⟨gap, hgap, hlong⟩ := h.mem_levelShifts.mp (List.mem_of_getLast? hlast)
    have hlatest : ∀ i ∈ levelShifts ceiling (points.map Prod.snd), i ≤ step := by
      obtain ⟨earlier, hearlier⟩ := List.getLast?_eq_some_iff.mp hlast
      rw [hearlier, List.pairwise_append] at hsorted
      rw [hearlier]
      intro i hi
      rcases List.mem_append.mp hi with hi | hi
      · exact (hsorted.2.2 i hi step List.mem_cons_self).le
      · exact (List.mem_singleton.mp hi).le
    have hstep : step < points.length := by
      have hlt := (List.getElem?_eq_some_iff.mp hgap).1
      rw [gaps, length_diff, List.length_map] at hlt
      omega
    rw [Option.elim_some, List.length_drop]
    constructor
    · intro hleft i gap hgap hlong
      have hle := hlatest i (h.mem_levelShifts.mpr ⟨gap, hgap, hlong⟩)
      omega
    · intro hall
      have hle := hall step gap hgap hlong
      omega

end Ramp

section Reported
variable {metricName : String} {ceiling start slope : ℚ} {r : Baselines.Resource}
  {rows : List HourRow}

/-- What the line itself forecasts. -/
def lineForecast (metricName : String) (ceiling slope : ℚ) (r : Baselines.Resource)
    (points : List (ℚ × ℚ)) : Forecast where
  resourceId := r.resourceId
  awsAccountId := r.awsAccountId
  metricName := metricName
  currentValue := lastValue points
  slopePerDay := Slo.roundAt 10000 slope
  daysToExhaustion := Slo.roundAt 10 (remainingDays ceiling slope (lastValue points))

theorem daysToExhaustion_toward (htoward : if 0 < ceiling then 0 < slope else slope < 0)
    (current : ℚ) :
    daysToExhaustion ceiling current slope = some (remainingDays ceiling slope current) := by
  rw [daysToExhaustion, remainingDays]
  split at htoward
  · rw [if_pos ‹_›, if_neg htoward.not_ge]
  · rw [if_neg ‹_›, if_neg htoward.not_ge, ← neg_sub ceiling current, neg_div_neg_eq]

theorem forecast_ramp (h : Ramp ceiling start slope (rows.map HourRow.point))
    (hrows : ∀ row ∈ rows, row.awsResourceId = r.resourceId ∧ row.awsAccountId = r.awsAccountId) :
    forecast metricName ceiling rows =
      if minPointsForTrend ≤ (afterLastLevelShift ceiling (rows.map HourRow.point)).length then
        some (lineForecast metricName ceiling slope r (rows.map HourRow.point))
      else none := by
  obtain ⟨n, hn⟩ : ∃ n, afterLastLevelShift ceiling (rows.map HourRow.point) =
      (rows.map HourRow.point).drop n := by
    rw [h.afterLastLevelShift_eq]
    cases (levelShifts ceiling ((rows.map HourRow.point).map Prod.snd)).getLast? with
    | none => exact ⟨0, rfl⟩
    | some step => exact ⟨step + 1, rfl⟩
  rw [forecast, hn]
  split
  · rename_i henough
    have hincreasing : (((rows.map HourRow.point).drop n).map Prod.fst).Pairwise (· < ·) :=
      h.increasing.sublist ((List.drop_sublist n _).map Prod.fst)
    obtain ⟨b, hfit⟩ := linearTrend_line henough hincreasing fun p hp =>
      h.line p (List.mem_of_mem_drop hp)
    have hne : rows ≠ [] := by
      rintro rfl
      exact absurd h.enough (by decide)
    have hfirst := List.head?_eq_some_head hne
    have hlast := List.getLast?_eq_some_getLast hne
    have hcurrent : (rows.getLast hne).metricValue = lastValue (rows.map HourRow.point) := by
      rw [lastValue, List.map_map, List.getLastD_eq_getLast?, List.getLast?_map, hlast]
      rfl
    obtain ⟨hresource, haccount⟩ := hrows _ (List.head_mem hne)
    have hnear := h.near.le
    rw [hfit, hfirst, hlast]
    simp only [Option.bind_eq_bind, Option.bind_some, hcurrent, daysToExhaustion_toward h.toward,
      hnear, guard_true, hresource, haccount]
    rfl
  · rename_i hshort
    rw [linearTrend, if_pos (not_le.mp hshort)]
    rfl

theorem forecast_ramp_iff (h : Ramp ceiling start slope (rows.map HourRow.point))
    (hrows : ∀ row ∈ rows, row.awsResourceId = r.resourceId ∧ row.awsAccountId = r.awsAccountId) :
    forecast metricName ceiling rows =
        some (lineForecast metricName ceiling slope r (rows.map HourRow.point)) ↔
      ∀ i gap, (gaps (rows.map HourRow.point))[i]? = some gap →
        LongGap slope (rows.map HourRow.point) gap → i + 1 + minPointsForTrend ≤ rows.length := by
  have hafter := h.enough_after_iff
  rw [List.length_map] at hafter
  rw [← hafter, forecast_ramp h hrows]
  split
  · exact iff_of_true rfl ‹_›
  · exact iff_of_false (Option.some_ne_none _).symm ‹_›

end Reported

section Forecasts
variable (q : Query) {metricName : String} {ceiling start slope : ℚ} {r : Baselines.Resource}

theorem mem_computeCapacityForecasts (hmetric : (metricName, ceiling) ∈ capacityMetrics)
    (hr : r ∈ q.db.resources) {f : Forecast} (hne : q.series metricName r.id ≠ [])
    (hf : forecast metricName ceiling (q.series metricName r.id) = some f) :
    f ∈ q.computeCapacityForecasts := by
  have hscope : q.awsAccountIds ≠ some [] := by
    intro hempty
    obtain ⟨row, hrow⟩ := List.exists_mem_of_ne_nil _ hne
    have hcovers := (Query.of_mem_series hr hrow).2.2
    simp [Query.covers, hempty] at hcovers
  rw [Query.computeCapacityForecasts, if_neg hscope]
  refine List.mem_flatMap.mpr ⟨_, hmetric, List.mem_filterMap.mpr ⟨(r.id, _), ?_, hf⟩⟩
  exact (Query.mem_byResource hne).mpr rfl

/-- A resource on a line is reported with what the line forecasts, from the whole of its series,
unless a collection gap in it is long. -/
theorem capacityForecasts_ramp (hmetric : (metricName, ceiling) ∈ capacityMetrics)
    (hr : r ∈ q.db.resources)
    (h : Ramp ceiling start slope ((q.series metricName r.id).map HourRow.point)) :
    (lineForecast metricName ceiling slope r ((q.series metricName r.id).map HourRow.point) ∈
        q.computeCapacityForecasts ∧
      afterLastLevelShift ceiling ((q.series metricName r.id).map HourRow.point) =
        (q.series metricName r.id).map HourRow.point) ↔
      ∀ gap ∈ gaps ((q.series metricName r.id).map HourRow.point),
        ¬LongGap slope ((q.series metricName r.id).map HourRow.point) gap := by
  rw [← h.afterLastLevelShift_eq_self]
  refine and_iff_right_of_imp fun hwhole => ?_
  have hne : q.series metricName r.id ≠ [] := by
    intro hnil
    have henough := h.enough
    rw [hnil] at henough
    exact absurd henough (by decide)
  refine mem_computeCapacityForecasts q hmetric hr hne ?_
  rw [forecast_ramp h fun row hrow =>
    ⟨(Query.of_mem_series hr hrow).1, (Query.of_mem_series hr hrow).2.1⟩, hwhole, if_pos h.enough]

end Forecasts

/-- A disk that fills by ten per cent a day, from ten, read in the given hours. -/
def fillingDisk (hours : List ℕ) (h : hours.Nodup) : Query where
  db :=
    { resources := [⟨1, 7, "ec2", "i-1"⟩]
      history := hours.map fun hour : ℕ =>
        { resourceId := 1
          metricName := "disk_used_percent"
          metricValue := some (10 + 10 * (hour : ℚ) / 24)
          metricTimestamp := 3600 * (hour : ℤ) }
      ids_nodup := List.nodup_singleton _
      identities_nodup := List.nodup_singleton _
      readings_nodup := by
        rw [List.map_map]
        refine h.map fun hour hour' heq => ?_
        simpa using heq }
  now := 14 * 86400
  unixTimestamp := id
  collate := id
  awsResourceId := none
  awsAccountIds := none

def twentyHours : Query := fillingDisk (List.range 20) List.nodup_range

def twentyHours.points : List (ℚ × ℚ) :=
  (twentyHours.series "disk_used_percent" 1).map HourRow.point

theorem twentyHours_ramp : Ramp 100 10 10 twentyHours.points where
  enough := by decide +kernel
  increasing := by decide +kernel
  line := by decide +kernel
  toward := by decide +kernel
  near := by decide +kernel

theorem twentyHours_short : ∀ gap ∈ gaps twentyHours.points,
    ¬levelShiftFraction * span (twentyHours.points.map Prod.fst) ≤ gap := by
  decide +kernel

/-- The whole series is fitted. -/
theorem twentyHours_reported :
    lineForecast "disk_used_percent" 100 10 ⟨1, 7, "ec2", "i-1"⟩ twentyHours.points ∈
        twentyHours.computeCapacityForecasts ∧
      afterLastLevelShift 100 twentyHours.points = twentyHours.points := by
  have hmetric : ("disk_used_percent", 100) ∈ capacityMetrics := by decide
  exact (capacityForecasts_ramp twentyHours hmetric List.mem_cons_self twentyHours_ramp).mpr
    fun gap hgap hlong => twentyHours_short gap hgap hlong.share

theorem gapped_nodup : (List.range 18 ++ [137, 138]).Nodup := by decide

/-- Eighteen hours, five days without a point, and two hours. -/
def afterFiveDays : Query := fillingDisk (List.range 18 ++ [137, 138]) gapped_nodup

theorem afterFiveDays_ramp : Ramp 100 10 10
    ((afterFiveDays.series "disk_used_percent" 1).map HourRow.point) where
  enough := by decide +kernel
  increasing := by decide +kernel
  line := by decide +kernel
  toward := by decide +kernel
  near := by decide +kernel

/-- The gap passes for a step, and two points are too few. -/
theorem afterFiveDays_unreported : ¬∀ (q : Query) (metricName : String) (ceiling start slope : ℚ)
    (r : Baselines.Resource), (metricName, ceiling) ∈ capacityMetrics → r ∈ q.db.resources →
    Ramp ceiling start slope ((q.series metricName r.id).map HourRow.point) →
    lineForecast metricName ceiling slope r ((q.series metricName r.id).map HourRow.point) ∈
        q.computeCapacityForecasts ∧
      afterLastLevelShift ceiling ((q.series metricName r.id).map HourRow.point) =
        (q.series metricName r.id).map HourRow.point := by
  intro h
  have hreported := (h afterFiveDays "disk_used_percent" 100 10 10 ⟨1, 7, "ec2", "i-1"⟩ (by decide)
    (by decide) afterFiveDays_ramp).1
  have hnone : afterFiveDays.computeCapacityForecasts = [] := by decide +kernel
  rw [hnone] at hreported
  exact absurd hreported List.not_mem_nil

end MonitoringHub.Collector
