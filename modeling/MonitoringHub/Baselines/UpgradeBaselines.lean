import MonitoringHub.Baselines.RecomputeBaselines
import MonitoringHub.Lib.QueryRows
import MonitoringHub.Lib.Upserts

/-! The seasonal pass behind the nightly recompute. For each series of the table it decomposes two
weeks of readings on a five minute grid and overwrites the buckets of the series, unless the
deviation it finds is implausibly small against the one that is stored. -/

namespace MonitoringHub.Baselines
open Lib Lib.KeyedStore Lib.SampleMoments

def minStlDays : ℤ := 14
def pointsPerDay : ℕ := 288
def minCoverageFraction : ℚ := 1 / 2
def minStddevRatio : ℚ := 1 / 4

structure Series where
  awsAccountId : ℕ
  resourceId : String
  metricName : String
  deriving DecidableEq

structure Component where
  trend : ℚ
  seasonal : ℚ
  resid : ℚ

/-- What pandas and statsmodels do: the gaps of a grid interpolated and filled at the edges, and
the decomposition with a daily period, `none` when it raises. -/
structure Packages where
  installed : Bool
  fillGaps : List (Option ℚ) → List (Option ℚ)
  decompose : List ℚ → Option (List Component)

/-- All that a nightly run reads besides `metric_baseline`. -/
structure Night where
  db : Database
  now : ℤ
  stlNow : ℤ
  packages : Packages
  /-- Which of the resource rows that share an id string `LIMIT 1` returns. -/
  choice : Series → ℕ

def BucketKey.series (k : BucketKey) : Series := ⟨k.awsAccountId, k.resourceId, k.metricName⟩

def Series.key (s : Series) (slot : ℤ × ℤ) : BucketKey :=
  ⟨s.awsAccountId, s.resourceId, s.metricName, slot.1, slot.2⟩

/-- `SELECT DISTINCT .. WHERE stddev_value > 0` -/
def candidates (table : Table) : List Series :=
  ((table.filter fun e => 0 < e.2.variance).map fun e => e.1.series).dedup

/-! ### One series -/

def Night.points (night : Night) (s : Series) : List (ℤ × ℚ) :=
  match limitOne (night.db.resources.filter fun r =>
      r.resourceId = s.resourceId && r.awsAccountId = s.awsAccountId) (night.choice s) with
  | none => []
  | some r =>
    (((night.db.recent night.stlNow minStlDays).filter fun h =>
      h.resourceId = r.id && h.metricName = s.metricName).mergeSort fun a b =>
        a.metricTimestamp ≤ b.metricTimestamp).filterMap fun h =>
      h.metricValue.map fun v => (h.metricTimestamp, v)

/-- The readings on a grid from the first to the last of them. The unique key of the history leaves
`drop_duplicates` nothing to drop. -/
def Night.loadSeries (night : Night) (s : Series) : Option (List (ℤ × ℚ)) :=
  let points := night.points s
  match points.head?, points.getLast? with
  | some first, some last =>
    let expectedPoints := (last.1 - first.1) / 300 + 1
    if (points.length : ℚ) / expectedPoints < minCoverageFraction then none
    else
      let index := (List.range expectedPoints.toNat).map fun i => first.1 + 300 * (i : ℤ)
      let series := night.packages.fillGaps (index.map fun t => points.lookup t)
      if series.any Option.isNone ||
          (series.length : ℚ) < minStlDays * pointsPerDay * minCoverageFraction then none
      else some (index.zip (series.filterMap id))
  | _, _ => none

def Night.fitStl (night : Night) (series : List (ℤ × ℚ)) : Option (List (ℤ × Component)) :=
  if series.length < pointsPerDay * 2 then none
  else (night.packages.decompose (series.map Prod.snd)).map (series.map Prod.fst).zip

structure Fit where
  meanValue : ℚ
  variance : ℚ
  deriving DecidableEq

/-- `setdefault((ts.hour, ts.weekday()), []).append(val)` -/
def byBucket (values : List (ℤ × ℚ)) : List ((ℤ × ℤ) × List ℚ) :=
  values.foldl (fun store e => appendAt (hourOfDay e.1, dayOfWeek e.1) e.2 store) []

def fitBuckets (components : List (ℤ × Component)) : List ((ℤ × ℤ) × Fit) :=
  let fittedByBucket := byBucket (components.map fun e => (e.1, e.2.trend + e.2.seasonal))
  let residByBucket := byBucket (components.map fun e => (e.1, e.2.resid))
  fittedByBucket.filterMap fun e =>
    let residVals := (find e.1 residByBucket).getD []
    if residVals.length < 3 then none
    else some (e.1, ⟨mean e.2, squares residVals / max 1 (residVals.length - 1)⟩)

/-- What the pass would write for the series, `none` where there is no fit. -/
def Night.fit (night : Night) (s : Series) : Option (List (BucketKey × Fit)) :=
  ((night.loadSeries s).bind night.fitStl).map fun components =>
    (fitBuckets components).map fun e => (s.key e.1, e.2)

/-! ### The table -/

/-- `existing > 0` and `stddev_value < existing * MIN_STDDEV_RATIO`, on squares. -/
def clamped (existing variance : ℚ) : Bool :=
  0 < existing && variance < existing * minStddevRatio ^ 2

def applyFit (table : Table) (e : BucketKey × Fit) : Table :=
  if (find e.1 table).any fun row => clamped row.variance e.2.variance then table
  else
    updateAt e.1 (fun row =>
      { row with meanValue := e.2.meanValue, variance := e.2.variance, computedBy := .stl }) table

def Night.upgradeSeries (night : Night) (table : Table) (s : Series) : Table :=
  match night.fit s with
  | none => table
  | some buckets => buckets.foldl applyFit table

/-- `processed` are the series that came up before the deadline. -/
def Night.upgradeBaselines (night : Night) (processed : List Series) (table : Table) : Table :=
  if night.packages.installed then processed.foldl night.upgradeSeries table else table

/-- The recompute and the pass behind it, on some earlier table. The groups and the shuffled
candidates come in any order. -/
structure NightlyRun (night : Night) where
  earlier : Table
  earlier_distinct : Distinct earlier
  fetched : List Bucket
  fetched_perm : fetched.Perm (night.db.buckets night.now)
  shuffled : List Series
  shuffled_perm : shuffled.Perm (candidates (recomputeBaselines fetched earlier).1)
  beforeDeadline : ℕ

namespace NightlyRun
variable {night : Night} (run : NightlyRun night)

def recomputed : Table := (recomputeBaselines run.fetched run.earlier).1

def final : Table := night.upgradeBaselines (run.shuffled.take run.beforeDeadline) run.recomputed

def fitted : List Series :=
  if night.packages.installed then
    (run.shuffled.take run.beforeDeadline).filter fun s => (night.fit s).isSome
  else []

end NightlyRun

/-! ### What the table holds after each of the two -/

section Recompute
variable {table : Table} {fetched : List Bucket} {k : BucketKey}

def marker (table : Table) (k : BucketKey) : Method :=
  (find k table).elim .sigmaClip BaselineRow.computedBy

def Bucket.row (b : Bucket) (computedBy : Method) : BaselineRow :=
  ⟨b.meanValue, b.variance, b.sampleCount, computedBy⟩

theorem marker_upsert (b : Bucket) : marker (upsert table b) k = marker table k := by
  unfold marker
  rw [find_upsert]
  split
  · rename_i hk
    rw [hk]
    rfl
  · rfl

/-- The last group of a key stays, under the marker that was there. -/
theorem find_recompute : find k (recomputeBaselines fetched table).1 =
    (((fetched.filter fun b => b.key = k).getLast?).map fun b => b.row (marker table k)).or
      (find k table) := by
  unfold recomputeBaselines
  induction fetched generalizing table with
  | nil => rfl
  | cons b fetched ih =>
    rw [List.foldl_cons, ih, marker_upsert, find_upsert, List.filter_cons]
    by_cases hk : b.key = k
    · subst hk
      simp only [decide_true, if_true, List.getLast?_cons]
      cases (fetched.filter fun b' => b'.key = b.key).getLast? <;> rfl
    · have hne : ¬ k = b.key := fun h => hk h.symm
      simp only [hk, hne, decide_false, Bool.false_eq_true, if_false]

theorem recompute_distinct (h : Distinct table) :
    Distinct (recomputeBaselines fetched table).1 :=
  List.foldlRecOn _ _ h fun _ h _ _ => h.write _ _

end Recompute

section Upgrade
variable {night : Night} {table : Table} {k : BucketKey}

def Fit.overwrite (f : Fit) (row : BaselineRow) : BaselineRow :=
  if clamped row.variance f.variance then row
  else { row with meanValue := f.meanValue, variance := f.variance, computedBy := .stl }

theorem find_applyFit (table : Table) (e : BucketKey × Fit) (k : BucketKey) :
    find k (applyFit table e) =
      if k = e.1 then (find k table).map e.2.overwrite else find k table := by
  unfold applyFit
  by_cases hk : k = e.1
  · subst hk
    cases hrow : find e.1 table with
    | none => simp [find_updateAt, hrow]
    | some row =>
      by_cases hclamp : clamped row.variance e.2.variance = true
      · simp [hrow, hclamp, Fit.overwrite]
      · simp [hrow, hclamp, Fit.overwrite, find_updateAt]
  · rw [if_neg hk]
    split
    · rfl
    · rw [find_updateAt, if_neg hk]

theorem applyFit_distinct (h : Distinct table) (e : BucketKey × Fit) :
    Distinct (applyFit table e) := by
  unfold applyFit
  split
  · exact h
  · exact h.updateAt _ _

theorem fitBuckets_distinct (components : List (ℤ × Component)) :
    Distinct (fitBuckets components) := by
  have hfitted : Distinct (byBucket (components.map fun e => (e.1, e.2.trend + e.2.seasonal))) :=
    Distinct.foldl_appendAt List.nodup_nil
  refine hfitted.filterMap fun entry entry' h => ?_
  dsimp only at h
  split at h
  · cases h
  · obtain rfl := Option.some.inj h
    rfl

theorem fit_distinct {s : Series} {buckets : List (BucketKey × Fit)}
    (h : night.fit s = some buckets) : Distinct buckets ∧ ∀ e ∈ buckets, e.1.series = s := by
  obtain ⟨components, -, rfl⟩ := Option.map_eq_some_iff.mp h
  constructor
  · rw [Distinct, keys, List.map_map]
    have hkeys : (fitBuckets components).map (Prod.fst ∘ fun e => (s.key e.1, e.2)) =
        (keys (fitBuckets components)).map s.key := by
      rw [keys, List.map_map]
      rfl
    rw [hkeys]
    refine (fitBuckets_distinct components).map fun slot slot' heq => ?_
    simp only [Series.key, BucketKey.mk.injEq, true_and] at heq
    exact Prod.ext heq.1 heq.2
  · intro e he
    obtain ⟨e', -, rfl⟩ := List.mem_map.mp he
    rfl

end Upgrade

end MonitoringHub.Baselines
