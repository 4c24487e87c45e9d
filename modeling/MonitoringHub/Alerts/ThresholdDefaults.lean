import Mathlib.Data.Rat.Floor
import MonitoringHub.Lib.Text

/-! Alert defaults: the absolute size floor of a metric, the placeholder row that
stands for "no typed limit", the metrics that never take a learned limit, and the
rounding of learned limits of count metrics. Values are rationals. -/

namespace MonitoringHub.Alerts
open Lib.Text

inductive Comparison
  | gt | ge | lt | le
  deriving DecidableEq, Repr

namespace Comparison

/-- The comparisons the source groups as `in (">", ">=")`. -/
def upward : Comparison → Bool
  | gt | ge => true
  | lt | le => false

def holds : Comparison → ℚ → ℚ → Bool
  | gt, v, t => decide (v > t)
  | ge, v, t => decide (v ≥ t)
  | lt, v, t => decide (v < t)
  | le, v, t => decide (v ≤ t)

end Comparison

def alertMinAbsolute : List (String × ℚ) := [
  ("volumereadops", 1000), ("volumewriteops", 1000), ("volumereadbytes", 50000000),
  ("volumewritebytes", 50000000), ("networkin", 1000000), ("networkout", 1000000),
  ("blockedrequests", 10), ("allowedrequests", 100), ("countedrequests", 10),
  ("captcharequests", 10), ("challengerequests", 10), ("blockratio", 25),
  ("httpcode_target_4xx_count", 10)]

def alertFloor (metricName : String) : ℚ :=
  (alertMinAbsolute.lookup (lower metricName)).getD 0

def placeholderThreshold : ℚ × ℚ × Comparison := (1000000, 5000000, .gt)

def isPlaceholderThreshold (warning critical : ℚ) (comparison : Comparison) : Bool :=
  (warning, critical, comparison) == placeholderThreshold

def capacityPercentMetrics : List String := ["mem_used_percent", "disk_used_percent"]

def isCapacityPercentMetric (metricName : String) : Bool :=
  let name := lower metricName
  capacityPercentMetrics.any fun base => name == base || startsWith name (base ++ "__")

def staticOnlyMetricPrefixes : List String := [
  "healthyhost", "unhealthyhost", "healthcheckpercentagehealthy", "statuscheckfailed",
  "daystoexpiry", "numberofbackupjobsfailed", "numberofrestorejobsfailed",
  "numberofnotificationsfailed", "errorportallocation", "freestorage", "secondsuntil",
  "healthcheckstatus", "clusterstatus", "tunnelstate", "connectionstate",
  "groupinserviceinstances", "freeablememory", "burstbalance", "burstcreditbalance",
  "cpucreditbalance", "cpusurpluscreditbalance", "percentagediskspaceused",
  "kafkadatalogsdiskused", "databasememoryusagepercentage", "jvmmemorypressure",
  "memoryutilization", "percentiolimit", "volumethroughputpercentage", "executionsfailed",
  "executionstimedout", "failedinvocations", "offlinepartitionscount",
  "underreplicatedpartitions", "clusterindexwritesblocked", "cluster_failed_node_count",
  "deadlettererrors", "deliveryerrors", "deliverytos3.success", "pipelinefailedruns",
  "activityfailedruns"]

def staticOnlyMetricNames : List String := [
  "vm availability metric", "cpu credits remaining", "availability", "vipavailability",
  "dipavailability", "storage_percent", "dtu_consumption_percent", "normalizedruconsumption",
  "usedmemorypercentage", "node_disk_usage_percentage", "node_memory_working_set_percentage",
  "kube_pod_status_phase", "kube_node_status_condition", "saturationshoebox", "uptime", "up",
  "replication/role", "disk/utilization", "memory/utilization", "memory/utilizations",
  "memory/limit_utilization", "memory/allocatable_utilization", "stats/memory/usage_ratio",
  "nat_allocation_failed", "port_usage"]

def isStaticOnlyMetric (metricName : String) : Bool :=
  isCapacityPercentMetric metricName ||
    (let name := lower metricName
     staticOnlyMetricNames.contains name ||
       staticOnlyMetricPrefixes.any fun stem => startsWith name stem)

def fractionalCountMetrics : List String := [
  "cpucreditbalance", "cpusurpluscreditbalance", "volumequeuelength", "diskqueuedepth",
  "wlmqueuelength"]

def isIntegerMetric (unit : Option String) (metricName : String) : Bool :=
  lower (strip (unit.getD "")) == "count" &&
    !fractionalCountMetrics.contains (lower metricName)

/-- Whole-number form of a learned limit: the same whole readings lie beyond it. -/
def integerizeLimit (value : Option ℚ) (comparison : Comparison) : Option ℚ :=
  value.map fun (v : ℚ) =>
    match comparison with
    | .lt | .ge => (⌈v - 1 / 10 ^ 9⌉ : ℚ)
    | .gt | .le => (⌊v + 1 / 10 ^ 9⌋ : ℚ)

end MonitoringHub.Alerts
