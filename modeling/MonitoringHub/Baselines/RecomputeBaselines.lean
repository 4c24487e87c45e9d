import Mathlib.Algebra.Order.Ring.Rat
import Mathlib.Data.List.Dedup
import MonitoringHub.Lib.Calendar
import MonitoringHub.Lib.KeyedStore
import MonitoringHub.Lib.SampleMoments

/-! The nightly recompute of the dynamic thresholds. One query groups a month of readings by
resource, metric, hour and weekday, drops from each group what lies far from its mean, and the
groups that keep enough readings are upserted into `metric_baseline`. Deviations are kept squared:
a stored `stddev_value` is the root of the `variance` here. -/

namespace MonitoringHub.Baselines
open Lib.Calendar Lib.KeyedStore Lib.SampleMoments

def lookbackDays : ℤ := 30
def minSamplesPerBucket : ℕ := 3
def clipSigma : ℚ := 3

structure Resource where
  id : ℕ
  awsAccountId : ℕ
  resourceType : String
  resourceId : String
  deriving DecidableEq

/-- A row of `metric_history`. Times are seconds of the server's clock from midnight of day 1. -/
structure HistoryRow where
  resourceId : ℕ
  metricName : String
  metricValue : Option ℚ
  metricTimestamp : ℤ
  deriving DecidableEq

/-- The two tables the query reads, with their unique keys. -/
structure Database where
  resources : List Resource
  history : List HistoryRow
  ids_nodup : (resources.map Resource.id).Nodup
  identities_nodup :
    (resources.map fun r => (r.awsAccountId, r.resourceType, r.resourceId)).Nodup
  readings_nodup :
    (history.map fun h => (h.resourceId, h.metricName, h.metricTimestamp)).Nodup

def hourOfDay (t : ℤ) : ℤ := t % 86400 / 3600

def dayOfWeek (t : ℤ) : ℤ := weekday (t / 86400 + 1)

/-- What the readings are grouped by. -/
structure Slot where
  id : ℕ
  metricName : String
  hourOfDay : ℤ
  dayOfWeek : ℤ
  deriving DecidableEq

def HistoryRow.slot (h : HistoryRow) : Slot :=
  ⟨h.resourceId, h.metricName, Baselines.hourOfDay h.metricTimestamp,
    Baselines.dayOfWeek h.metricTimestamp⟩

/-- `metric_timestamp >= DATE_SUB(NOW(), INTERVAL days DAY) AND metric_value IS NOT NULL` -/
def Database.recent (db : Database) (now days : ℤ) : List HistoryRow :=
  db.history.filter fun h => now - days * 86400 ≤ h.metricTimestamp && h.metricValue.isSome

def Database.readings (db : Database) (now : ℤ) (slot : Slot) : List ℚ :=
  ((db.recent now lookbackDays).filter fun h => h.slot = slot).filterMap HistoryRow.metricValue

/-! ### The two passes -/

/-- `stddev1 = 0 OR ABS(metric_value - mean1) <= CLIP_SIGMA * stddev1` -/
def keeps (readings : List ℚ) (v : ℚ) : Bool :=
  variance readings = 0 || (v - mean readings) ^ 2 ≤ clipSigma ^ 2 * variance readings

def kept (readings : List ℚ) : List ℚ := readings.filter (keeps readings)

/-- The unique key of `metric_baseline`. -/
structure BucketKey where
  awsAccountId : ℕ
  resourceId : String
  metricName : String
  hourOfDay : ℤ
  dayOfWeek : ℤ
  deriving DecidableEq

structure Bucket where
  key : BucketKey
  meanValue : ℚ
  variance : ℚ
  sampleCount : ℕ
  rawSampleCount : ℕ
  deriving DecidableEq

def bucketKey (r : Resource) (slot : Slot) : BucketKey :=
  ⟨r.awsAccountId, r.resourceId, slot.metricName, slot.hourOfDay, slot.dayOfWeek⟩

/-- The groups of the join with `resources`: a slot belongs to one resource row. -/
def Database.slots (db : Database) (now : ℤ) : List (Resource × Slot) :=
  ((db.recent now lookbackDays).flatMap fun h =>
    (db.resources.filter fun r => r.id = h.resourceId).map fun r => (r, h.slot)).dedup

def Database.bucket (db : Database) (now : ℤ) (group : Resource × Slot) : Bucket :=
  let readings := db.readings now group.2
  { key := bucketKey group.1 group.2
    meanValue := mean (kept readings)
    variance := Lib.SampleMoments.variance (kept readings)
    sampleCount := (kept readings).length
    rawSampleCount := readings.length }

/-- `HAVING sample_count >= MIN_SAMPLES_PER_BUCKET` -/
def Database.buckets (db : Database) (now : ℤ) : List Bucket :=
  ((db.slots now).map (db.bucket now)).filter fun b => minSamplesPerBucket ≤ b.sampleCount

/-! ### The upserts -/

inductive Method where
  | sigmaClip
  | stl
  deriving DecidableEq

structure BaselineRow where
  meanValue : ℚ
  variance : ℚ
  sampleCount : ℕ
  computedBy : Method
  deriving DecidableEq

/-- `metric_baseline` by its unique key. -/
abbrev Table := List (BucketKey × BaselineRow)

/-- `INSERT .. ON DUPLICATE KEY UPDATE`: a row that is there keeps its `computed_by`, a new one
takes the column's default. -/
def upsert (table : Table) (b : Bucket) : Table :=
  write b.key
    { meanValue := b.meanValue
      variance := b.variance
      sampleCount := b.sampleCount
      computedBy := (find b.key table).elim .sigmaClip BaselineRow.computedBy } table

/-- The groups arrive in an order that the query leaves open. -/
def recomputeBaselines (fetched : List Bucket) (table : Table) : Table × ℕ :=
  (fetched.foldl upsert table, fetched.length)

section Passes
variable {db : Database} {now : ℤ} {group : Resource × Slot} {readings : List ℚ} {v : ℚ}

theorem mem_kept : v ∈ kept readings ↔ v ∈ readings ∧
    (variance readings = 0 ∨ (v - mean readings) ^ 2 ≤ clipSigma ^ 2 * variance readings) := by
  simp [kept, keeps]

theorem mem_buckets {b : Bucket} : b ∈ db.buckets now ↔
    (∃ group ∈ db.slots now, db.bucket now group = b) ∧ minSamplesPerBucket ≤ b.sampleCount := by
  simp [Database.buckets]

theorem find_upsert (table : Table) (b : Bucket) (k : BucketKey) : find k (upsert table b) =
    if k = b.key then
      some ⟨b.meanValue, b.variance, b.sampleCount,
        (find b.key table).elim .sigmaClip BaselineRow.computedBy⟩
    else find k table := find_write _ _ _ _

end Passes

end MonitoringHub.Baselines
