import MonitoringHub.Lib.KeyedStore
import MonitoringHub.Lib.Text
import MonitoringHub.Environments.EnvTiers

/-! The polling model: for every metric collected on a schedule its tier, and for a core
metric how far back a poll looks. From it come the base interval of one metric and the
intervals that differ from what the class of the resource type would give. -/

namespace MonitoringHub.Alerts
open Lib Lib.Text

inductive PollTier
  | critical | standard | low | extended | slowExtended
  deriving DecidableEq, Repr

/-- `TIER_SECONDS` -/
def PollTier.seconds : PollTier → ℕ
  | .critical => 120
  | .standard => 300
  | .low => 900
  | .extended => 3600
  | .slowExtended => 86400

/-- A metric of the core collector; every poll looks back at least one interval. -/
structure CoreMetric where
  resourceType : String
  dbName : String
  tier : PollTier
  lookbackMin : ℕ
  covers : tier.seconds ≤ 60 * lookbackMin := by decide
  deriving DecidableEq

def awsCoreMetrics : List CoreMetric :=
  [⟨"ec2", "cpuutilization", .standard, 15, by decide⟩,
    ⟨"ec2", "networkin", .standard, 15, by decide⟩,
    ⟨"ec2", "networkout", .standard, 15, by decide⟩,
    ⟨"ec2", "cpucreditbalance", .low, 25, by decide⟩,
    ⟨"ebs", "volumequeuelength", .standard, 15, by decide⟩,
    ⟨"ebs", "volumereadops", .low, 25, by decide⟩, ⟨"ebs", "volumewriteops", .low, 25, by decide⟩,
    ⟨"ebs", "volumereadbytes", .low, 25, by decide⟩,
    ⟨"ebs", "volumewritebytes", .low, 25, by decide⟩,
    ⟨"rds", "cpuutilization", .critical, 6, by decide⟩,
    ⟨"rds", "dbconnections", .critical, 6, by decide⟩,
    ⟨"rds", "freeablememory", .critical, 6, by decide⟩,
    ⟨"rds", "readlatency", .standard, 8, by decide⟩,
    ⟨"rds", "writelatency", .standard, 8, by decide⟩,
    ⟨"rds", "diskqueuedepth", .standard, 8, by decide⟩,
    ⟨"rds", "replicalag", .standard, 8, by decide⟩, ⟨"rds", "readiops", .low, 18, by decide⟩,
    ⟨"rds", "writeiops", .low, 18, by decide⟩, ⟨"rds", "freestorage", .low, 18, by decide⟩,
    ⟨"rds", "swapusage", .low, 18, by decide⟩, ⟨"elb", "requestcount", .critical, 6, by decide⟩,
    ⟨"elb", "errors5xx", .critical, 6, by decide⟩,
    ⟨"elb", "httpcode_elb_5xx_count", .critical, 6, by decide⟩,
    ⟨"elb", "responselatency", .standard, 8, by decide⟩,
    ⟨"elb", "targetconnectionerrorcount", .standard, 8, by decide⟩,
    ⟨"elb", "rejectedconnectioncount", .standard, 8, by decide⟩,
    ⟨"elb", "httpcode_target_4xx_count", .standard, 8, by decide⟩,
    ⟨"elb", "activeconnectioncount", .standard, 8, by decide⟩,
    ⟨"elb", "newconnectioncount", .standard, 8, by decide⟩,
    ⟨"elb", "activeflowcount", .standard, 8, by decide⟩,
    ⟨"elb", "newflowcount", .standard, 8, by decide⟩,
    ⟨"elb", "processedbytes", .standard, 8, by decide⟩,
    ⟨"elb", "tcp_client_reset_count", .standard, 8, by decide⟩,
    ⟨"lambda", "errors", .standard, 8, by decide⟩,
    ⟨"lambda", "throttles", .standard, 8, by decide⟩,
    ⟨"lambda", "duration", .standard, 8, by decide⟩,
    ⟨"lambda", "concurrentexecutions", .standard, 8, by decide⟩,
    ⟨"lambda", "invocations", .low, 18, by decide⟩,
    ⟨"lambda", "iteratorage", .low, 18, by decide⟩]

def cwagentMemTier : PollTier := .standard
def cwagentDiskTier : PollTier := .low

def awsDescribeMetrics : List (String × String) :=
  [("ec2", "statuscheckfailed"), ("elb", "healthyhosts_describe"),
    ("elb", "unhealthyhosts_describe")]

def awsExtendedTierOverrides : List ((String × String) × PollTier) :=
  [(("sqs", "ApproximateAgeOfOldestMessage"), .standard),
    (("sqs", "ApproximateNumberOfMessagesVisible"), .standard),
    (("opensearch", "ClusterStatus.red"), .standard),
    (("opensearch", "ClusterStatus.yellow"), .standard),
    (("opensearch", "ClusterIndexWritesBlocked"), .standard),
    (("opensearch", "JVMMemoryPressure"), .standard),
    (("elasticache", "CPUUtilization"), .standard),
    (("elasticache", "DatabaseMemoryUsagePercentage"), .standard),
    (("elasticache", "Evictions"), .standard),
    (("memorydb", "DatabaseMemoryUsagePercentage"), .standard),
    (("memorydb", "Evictions"), .standard), (("route53", "HealthCheckStatus"), .standard),
    (("ecs", "CPUUtilization"), .standard), (("ecs", "MemoryUtilization"), .standard),
    (("ecs", "RunningTaskCount"), .standard), (("ecs", "PendingTaskCount"), .standard),
    (("eks", "cluster_failed_node_count"), .standard),
    (("dynamodb", "ThrottledRequests"), .standard),
    (("dynamodb", "ReadThrottleEvents"), .standard),
    (("dynamodb", "WriteThrottleEvents"), .standard), (("dynamodb", "SystemErrors"), .standard),
    (("msk", "OfflinePartitionsCount"), .standard),
    (("msk", "UnderReplicatedPartitions"), .standard), (("apigateway", "5XXError"), .standard),
    (("natgateway", "ErrorPortAllocation"), .low), (("natgateway", "PacketsDropCount"), .low),
    (("vpn", "TunnelState"), .low), (("directconnect", "ConnectionState"), .low),
    (("directconnect", "ConnectionErrorCount"), .low), (("states", "ExecutionsFailed"), .low),
    (("states", "ExecutionsTimedOut"), .low), (("events", "FailedInvocations"), .low),
    (("kinesis", "ReadProvisionedThroughputExceeded"), .low),
    (("kinesis", "WriteProvisionedThroughputExceeded"), .low),
    (("kinesis", "GetRecords.IteratorAgeMilliseconds"), .low),
    (("firehose", "DeliveryToS3.DataFreshness"), .low), (("efs", "PercentIOLimit"), .low),
    (("efs", "BurstCreditBalance"), .low), (("msk", "CpuUser"), .low),
    (("msk", "KafkaDataLogsDiskUsed"), .low), (("redshift", "PercentageDiskSpaceUsed"), .low),
    (("s3", "AllRequests"), .low), (("s3", "4xxErrors"), .low), (("s3", "5xxErrors"), .low),
    (("s3", "FirstByteLatency"), .low), (("s3", "TotalRequestLatency"), .low),
    (("certificatemanager", "DaysToExpiry"), .slowExtended),
    (("kms", "SecondsUntilKeyMaterialExpiration"), .slowExtended),
    (("apigateway", "Latency"), .low), (("apigateway", "IntegrationLatency"), .low),
    (("elasticache", "ReplicationLag"), .low),
    (("transitgateway", "PacketDropCountBlackhole"), .low),
    (("transitgateway", "PacketDropCountNoRoute"), .low),
    (("documentdb", "CPUUtilization"), .low), (("documentdb", "FreeableMemory"), .low),
    (("neptune", "CPUUtilization"), .low), (("redshift", "CPUUtilization"), .low),
    (("opensearch", "CPUUtilization"), .low), (("opensearch", "FreeStorageSpace"), .low),
    (("memorydb", "CPUUtilization"), .low), (("dms", "CDCLatencySource"), .low),
    (("dms", "CDCLatencyTarget"), .low), (("cloudfront", "5xxErrorRate"), .low),
    (("cloudfront", "TotalErrorRate"), .low)]

def awsSlowExtendedServices : List String := ["s3", "logs", "backup", "cloudfront", "wafv2"]

def wafStandardMetrics : List String :=
  ["AllowedRequests", "BlockedRequests", "CountedRequests", "PassedRequests", "CaptchaRequests",
    "ChallengeRequests", "BlockRatio"]

def wafLowMetrics : List String :=
  ["RequestsWithValidCaptchaToken", "RequestsWithValidChallengeToken"]

/-- The services of the catalogue in category "extended", without "nlb". -/
def awsExtendedCatalog : List (String × List String) :=
  [("s3", ["BucketSizeBytes", "NumberOfObjects", "AllRequests", "4xxErrors", "5xxErrors",
      "FirstByteLatency", "TotalRequestLatency"]),
    ("ecs", ["CPUUtilization", "MemoryUtilization", "RunningTaskCount", "PendingTaskCount"]),
    ("apigateway", ["Count", "4XXError", "5XXError", "Latency", "IntegrationLatency",
      "CacheHitCount", "CacheMissCount"]),
    ("dynamodb", ["ConsumedReadCapacityUnits", "ConsumedWriteCapacityUnits", "ThrottledRequests",
      "ReadThrottleEvents", "WriteThrottleEvents", "SuccessfulRequestLatency", "SystemErrors",
      "UserErrors", "ConditionalCheckFailedRequests"]),
    ("sqs", ["ApproximateNumberOfMessagesVisible", "ApproximateAgeOfOldestMessage",
      "NumberOfMessagesSent", "NumberOfMessagesReceived", "NumberOfMessagesDeleted",
      "NumberOfEmptyReceives", "ApproximateNumberOfMessagesNotVisible"]),
    ("sns", ["NumberOfMessagesPublished", "NumberOfNotificationsFailed",
      "NumberOfNotificationsDelivered", "PublishSize"]),
    ("cloudfront", ["Requests", "BytesDownloaded", "BytesUploaded", "4xxErrorRate",
      "5xxErrorRate", "TotalErrorRate", "OriginLatency", "CacheHitRate"]),
    ("elasticache", ["CPUUtilization", "DatabaseMemoryUsagePercentage", "CurrConnections",
      "Evictions", "CacheHits", "CacheMisses", "ReplicationLag", "SwapUsage", "NetworkBytesIn",
      "NetworkBytesOut"]),
    ("opensearch", ["ClusterStatus.green", "ClusterStatus.yellow", "ClusterStatus.red",
      "CPUUtilization", "JVMMemoryPressure", "FreeStorageSpace", "ClusterIndexWritesBlocked",
      "Nodes", "SearchLatency", "IndexingLatency"]),
    ("eks", ["cluster_failed_node_count", "cluster_node_count"]),
    ("efs", ["PercentIOLimit", "BurstCreditBalance", "ClientConnections", "StorageBytes",
      "DataReadIOBytes", "DataWriteIOBytes"]),
    ("documentdb", ["CPUUtilization", "DatabaseConnections", "FreeableMemory", "VolumeBytesUsed",
      "BufferCacheHitRatio"]),
    ("neptune", ["CPUUtilization", "GremlinRequestsPerSec", "SparqlRequestsPerSec",
      "VolumeBytesUsed"]),
    ("msk", ["CpuUser", "KafkaDataLogsDiskUsed", "UnderReplicatedPartitions",
      "OfflinePartitionsCount", "BytesInPerSec", "BytesOutPerSec"]),
    ("kinesis", ["IncomingBytes", "IncomingRecords", "ReadProvisionedThroughputExceeded",
      "WriteProvisionedThroughputExceeded", "GetRecords.IteratorAgeMilliseconds"]),
    ("firehose", ["DeliveryToS3.Success", "IncomingBytes", "IncomingRecords",
      "DeliveryToS3.DataFreshness"]),
    ("autoscaling", ["GroupInServiceInstances", "GroupDesiredCapacity", "GroupMinSize",
      "GroupMaxSize", "GroupPendingInstances", "GroupTerminatingInstances"]),
    ("natgateway", ["BytesOutToDestination", "BytesInFromSource", "ErrorPortAllocation",
      "ActiveConnectionCount", "PacketsDropCount"]),
    ("transitgateway", ["BytesIn", "BytesOut", "PacketDropCountBlackhole",
      "PacketDropCountNoRoute"]),
    ("route53", ["HealthCheckStatus", "HealthCheckPercentageHealthy", "ConnectionTime"]),
    ("wafv2", ["AllowedRequests", "BlockedRequests", "CountedRequests", "PassedRequests",
      "CaptchaRequests", "ChallengeRequests", "RequestsWithValidCaptchaToken",
      "RequestsWithValidChallengeToken", "BlockRatio"]),
    ("redshift", ["CPUUtilization", "PercentageDiskSpaceUsed", "DatabaseConnections",
      "QueryDuration", "ReadIOPS", "WriteIOPS", "WLMQueueLength"]),
    ("memorydb", ["CPUUtilization", "DatabaseMemoryUsagePercentage", "CurrConnections",
      "Evictions"]),
    ("dax", ["CPUUtilization", "FaultRequestCount", "ItemCacheHits", "ItemCacheMisses"]),
    ("states", ["ExecutionsFailed", "ExecutionsSucceeded", "ExecutionsTimedOut",
      "ExecutionThrottled", "ExecutionTime"]),
    ("events", ["Invocations", "FailedInvocations", "ThrottledRules", "MatchedEvents"]),
    ("kms", ["SecondsUntilKeyMaterialExpiration"]),
    ("certificatemanager", ["DaysToExpiry"]),
    ("backup", ["NumberOfBackupJobsFailed", "NumberOfBackupJobsCompleted",
      "NumberOfRestoreJobsFailed"]),
    ("cognito", ["SignInSuccesses", "SignUpSuccesses", "ThrottledEvents"]),
    ("logs", ["IncomingBytes", "IncomingLogEvents", "DeliveryErrors"]),
    ("vpn", ["TunnelState", "TunnelDataIn", "TunnelDataOut"]),
    ("globalaccelerator", ["NewFlowCount", "ProcessedBytesIn", "ProcessedBytesOut"]),
    ("dms", ["CDCLatencySource", "CDCLatencyTarget", "FreeableMemory", "CPUUtilization"]),
    ("directconnect", ["ConnectionState", "ConnectionBpsEgress", "ConnectionBpsIngress",
      "ConnectionErrorCount"])]

def azureCriticalMetrics : List (String × String) :=
  [("vm", "VM Availability Metric"), ("storage_account", "Availability"),
    ("sql_database", "connection_failed"), ("app_service", "Http5xx"),
    ("app_service", "HealthCheckStatus")]

def gcpCriticalMetrics : List (String × String) := [("cloudsql_instance", "up")]

def awsCoreTypes : List String := ["ec2", "ebs", "rds", "lambda", "elb", "ecs"]

/-- `_CLASS_DEFAULT_INTERVAL` of `_aws_class`. -/
def classDefaultInterval (resourceType : String) : ℕ :=
  if awsSlowExtendedServices.contains resourceType then 86400
  else if awsCoreTypes.contains resourceType then 300
  else 3600

/-- `waf_fast_enabled()` is read from the environment once per process. -/
def awsExtendedTier (wafFast : Bool) (service metric : String) : PollTier :=
  if service == "wafv2" && wafFast && wafStandardMetrics.contains metric then .standard
  else if service == "wafv2" && wafFast && wafLowMetrics.contains metric then .low
  else match KeyedStore.find (service, metric) awsExtendedTierOverrides with
  | some tier => tier
  | none => if awsSlowExtendedServices.contains service then .slowExtended else .extended

def awsMetricNameToDbName : List ((String × String) × String) :=
  [(("rds", "DatabaseConnections"), "dbconnections"), (("rds", "FreeStorageSpace"), "freestorage"),
    (("elb", "HTTPCode_Target_5XX_Count"), "errors5xx"),
    (("elb", "TargetResponseTime"), "responselatency"),
    (("elb", "HealthyHostCount"), "healthyhosts_describe"),
    (("elb", "UnHealthyHostCount"), "unhealthyhosts_describe")]

def resolveDbMetricName (resourceType metric : String) : String :=
  (KeyedStore.find (resourceType, metric) awsMetricNameToDbName).getD (lower metric)

/-- `put`: only an interval that differs from the default is kept. -/
def putInterval (resourceType name : String) (seconds default : ℕ) :
    Option ((String × String) × ℕ) :=
  if seconds = default then none else some ((resourceType, lower name), seconds)

def coreIntervals : List ((String × String) × ℕ) :=
  awsCoreMetrics.filterMap fun m => putInterval m.resourceType m.dbName m.tier.seconds 300

def cwagentIntervals : List ((String × String) × ℕ) :=
  [putInterval "ec2" "mem_used_percent" cwagentMemTier.seconds 300,
    putInterval "ec2" "disk_used_percent" cwagentDiskTier.seconds 300].filterMap id

def extendedIntervals (wafFast : Bool) : List ((String × String) × ℕ) :=
  awsExtendedCatalog.flatMap fun s => s.2.filterMap fun metric =>
    putInterval s.1 (resolveDbMetricName s.1 metric) (awsExtendedTier wafFast s.1 metric).seconds
      (classDefaultInterval s.1)

/-- The AWS part of `metric_interval_overrides`, newest put first, so that a lookup finds the
value that stays. -/
def metricIntervalOverrides (wafFast : Bool) : List ((String × String) × ℕ) :=
  (coreIntervals ++ cwagentIntervals ++ extendedIntervals wafFast).reverse

/-- `PREFIX_INTERVAL_OVERRIDES`: one rule, for the per-mount disk metrics of "ec2". -/
def diskPrefix : String := "disk_used_percent__"

def p1MetricKeys : List (String × String) :=
  ((awsCoreMetrics.filter fun m => m.tier = .critical).map fun m => (m.resourceType, m.dbName)) ++
    awsDescribeMetrics ++ (azureCriticalMetrics ++ gcpCriticalMetrics).map fun k => (k.1, lower k.2)

/-- `base_interval_seconds("aws", …)`: none for a metric that is never polled through
GetMetricData. -/
def baseIntervalSeconds (wafFast : Bool) (resourceType dbMetric : String) : Option ℕ :=
  let rtype := lower resourceType
  let db := lower dbMetric
  if awsDescribeMetrics.contains (rtype, db) then none
  else match awsCoreMetrics.find? fun m => m.resourceType = rtype && m.dbName = db with
  | some m => some m.tier.seconds
  | none =>
    if rtype == "ec2" && db == "mem_used_percent" then some cwagentMemTier.seconds
    else if rtype == "ec2" && (db == "disk_used_percent" || startsWith db diskPrefix) then
      some cwagentDiskTier.seconds
    else match KeyedStore.find (rtype, db) (metricIntervalOverrides wafFast) with
    | some seconds => some seconds
    | none => some (classDefaultInterval rtype)

end MonitoringHub.Alerts
