import Mathlib.Data.List.Sort
import Mathlib.Data.Rat.Defs
import Mathlib.Algebra.Order.Ring.Rat
import MonitoringHub.Incidents.Correlation
import MonitoringHub.Lib.KeyedStore
import MonitoringHub.Lib.RowTable
import MonitoringHub.Lib.Text

/-! The host agent watchdog. A pass groups the active hosts by the resource they resolve to;
in each group the freshest host stands for all of them. Its silence is one open heartbeat
alert on that resource. A pass that raises is rolled back, `none` here. Resource ids stand
for their collation classes, alert ids are row positions; no code reads `raisedFor`. -/

namespace MonitoringHub.HostAgent
open Lib Lib.KeyedStore
open Incidents (AlertStatus)

structure Host where
  id : ℕ
  account : ℕ
  hostname : String
  instanceId : Option String
  resourceId : Option String
  active : Bool
  lastSeenAt : Option ℕ
  enrolledAt : Option ℕ
  deriving DecidableEq, Repr

/-- A row of `resources`, with what `metrics` holds for its status checks. -/
structure Resource where
  account : ℕ
  resourceType : String
  resourceId : String
  name : String
  tags : List (String × Option String)
  envResolved : Option String
  instanceState : Option String
  statusCheckFailed : Option ℚ
  deriving DecidableEq

structure Alert where
  account : Option ℕ
  resourceId : String
  metricName : String
  severity : String
  environment : String
  groupKey : String
  status : AlertStatus
  currentValue : ℤ
  threshold : ℕ
  silenced : Bool
  silencedReason : Option String
  resolutionReason : Option String
  raisedFor : Option ℕ
  deriving DecidableEq, Repr

inductive HostState
  | online | stale | offline
  deriving DecidableEq, Repr

/-- A row of `host_agent_watchdog_state`, without its key, the host. -/
structure WatchdogRow where
  account : ℕ
  state : HostState
  offlineReason : Option String
  alertId : Option ℕ
  alertResourceId : Option String
  detail : Option String
  deriving DecidableEq, Repr

structure Database where
  activeAccounts : List ℕ
  hosts : List Host
  resources : List Resource
  alerts : List Alert
  states : List (ℕ × WatchdogRow)
  deriving DecidableEq

/-- A row of a pass's host query. -/
structure AgedHost where
  id : ℕ
  account : ℕ
  hostname : String
  instanceId : Option String
  resourceId : Option String
  age : ℤ
  deriving DecidableEq, Repr

/-- The clock, the limit and the maintenance windows as a pass reads them. -/
structure PassInput where
  now : ℕ
  stale : ℕ
  silencedMap : List ((ℕ × String) × String)
  deriving DecidableEq, Repr

def metric : String := "host_agent_heartbeat"
def offlineFactor : ℕ := 5
def stoppedStates : List String := ["stopped", "stopping", "terminated", "shutting-down"]
def environmentMaxLen : ℕ := 50
def detailMaxLen : ℕ := 500

def clip (n : ℕ) (s : String) : String := String.ofList (s.toList.take n)

def classify (age : ℤ) (stale : ℕ) : HostState :=
  if age ≤ stale then .online else if age ≤ stale * offlineFactor then .stale else .offline

def fmtAge (age : ℤ) : String :=
  let seconds := age.toNat
  let minutes := seconds / 60
  let hours := minutes / 60
  let twoDigits := fun n : ℕ => (if n < 10 then "0" else "") ++ toString n
  if seconds < 120 then toString seconds ++ "s"
  else if minutes < 120 then toString minutes ++ "m " ++ twoDigits (seconds % 60) ++ "s"
  else if hours < 48 then toString hours ++ "h " ++ twoDigits (minutes % 60) ++ "m"
  else toString (hours / 24) ++ "d " ++ toString (hours % 24) ++ "h"

structure InstanceInfo where
  state : String
  statusCheckFailed : Option Bool
  deriving DecidableEq, Repr

def buildDetail (hostname : String) (state : HostState) (age : ℤ) (stale : ℕ)
    (info : Option InstanceInfo) : String :=
  let level := if state = .offline then "offline" else "stale"
  let text := "Host agent on " ++ hostname ++ " is " ++ level ++ ": no heartbeat for " ++
    fmtAge age ++ " (stale after " ++ toString stale ++ "s)."
  clip detailMaxLen (text ++ match info with
    | none => " No EC2 state is known for this host, so an agent outage cannot be told apart " ++
        "from a host outage."
    | some info =>
      if info.state = "running" then
        " The EC2 instance is running, so the agent or its network path is down, not the " ++
          "instance." ++ if info.statusCheckFailed = some true then
            " EC2 status checks are failing too, so the host itself may be impaired." else ""
      else " The EC2 instance state is '" ++ info.state ++ "'.")

section Target
variable (resources : List Resource)

def ownResourceId (id : ℕ) : String := "host-agent-" ++ toString id

/-- The rows of one id, EC2 first. -/
def resourceNamed (account : ℕ) (rid : String) : Option Resource :=
  let rows := resources.filter fun r => r.account = account && r.resourceId = rid
  (rows.find? fun r => r.resourceType = "ec2").or rows.head?

def findTarget (host : AgedHost) : Option Resource :=
  ([host.resourceId, host.instanceId].findSome? fun rid =>
    (rid.filter fun rid : String => rid ≠ "").bind (resourceNamed resources host.account)).or
  (resources.find? fun r => r.account = host.account && r.resourceType = "host_agent" &&
    r.resourceId = ownResourceId host.id)

/-- `_ensure_target`: the target, and the resources with a row of the host's own if there was
none. -/
def ensureTarget (host : AgedHost) : Option Resource × List Resource :=
  match findTarget resources host with
  | some r => (some r, resources)
  | none =>
    let resources' := resources ++ [⟨host.account, "host_agent", ownResourceId host.id,
      host.hostname, [], none, none, none⟩]
    (findTarget resources' host, resources')

def instanceInfo (host : AgedHost) : Option InstanceInfo := do
  let iid ← host.instanceId.filter fun iid : String => iid ≠ ""
  let row ← resources.find? fun r => r.account = host.account && r.resourceType = "ec2" &&
    r.resourceId = iid
  let state ← row.instanceState.filter fun state : String => state ≠ ""
  let state := Text.lower state
  some ⟨state, if state = "running" then row.statusCheckFailed.map fun v => decide (1 ≤ v)
    else none⟩

end Target

/-- What `environment_classifier` defines or imports, the underscored names apart. -/
def environmentClassifierNames : List String :=
  ["json", "os", "re", "namedtuple", "PROD", "NONPROD", "TIERS", "PROD_WORDS", "NONPROD_WORDS",
    "recognized_tier", "to_tier", "is_nonprod", "MANUAL_CHOICES", "SOURCES",
    "RELATED_PARENT_SOURCES", "Resolution", "TAG_KEYS", "REASON_MAX", "flag_enabled",
    "is_prod_like", "normalize_tier", "resolve_environment", "severity_for", "MANDATORY_TAGS",
    "TAG_STATES", "NEEDS_TAGGING", "ESSENTIAL_TAGS", "TAGS_COLLECTED_TYPES", "TAG_SYNC_TYPES",
    "AZURE_TAGGED_TYPES", "GCP_LABELED_TYPES", "PROVIDER_TAG_TYPES", "tag_sync_enabled",
    "tag_sync_feeds_environment", "parse_synced", "effective_tags", "tags_known", "tag_state",
    "tag_environment", "missing_tags", "WARNING_KINDS", "name_environment", "detect_warning",
    "warning_kind", "SUGGESTION_SOURCES", "CONFIDENCE", "APPLICATION_TAG_KEYS",
    "STACK_TAG_KEYS", "MIN_PREFIX_CHARS", "Suggestion", "SuggestionIndex",
    "suggest_environment"]

/-- What the import of `_environment` binds. -/
structure Classifier where
  flagEnabled : Bool
  resolveEnvironment : List (String × Option String) → String → String
  ignore : String
  unknown : String

def environmentImports : List String :=
  ["flag_enabled", "resolve_environment", "IGNORE", "UNKNOWN"]

/-- The body of `_environment`, after its import. -/
def environmentBody (c : Classifier) (row : Resource) : String :=
  if c.flagEnabled then
    let env := (row.envResolved.filter fun env : String => env ≠ "").getD
      (c.resolveEnvironment row.tags row.resourceId)
    clip environmentMaxLen (if env = c.ignore then c.unknown else env)
  else
    let env := ((find "environment" row.tags).or (find "Environment" row.tags)).getD (some "prod")
    let env := (env.map fun env => Text.lower (Text.strip env)).getD "prod"
    clip environmentMaxLen (if env = "" then "prod" else env)

/-- `_environment` raises where the import finds a name missing. -/
def environment (c : Classifier) (row : Resource) : Option String :=
  if environmentImports.all environmentClassifierNames.contains then some (environmentBody c row)
  else none

def Alert.isOpen (a : Alert) : Bool := a.status = .active || a.status = .acknowledged

/-- An open heartbeat alert of the account on the resource. -/
def Alert.heartbeatOn (account : ℕ) (rid : String) (a : Alert) : Bool :=
  a.account = some account && a.resourceId = rid && a.metricName = metric && a.isOpen

def openAlert (alerts : List Alert) (account : ℕ) (rid : String) : Option (Alert × ℕ) :=
  alerts.zipIdx.find? fun (a, _) => a.heartbeatOn account rid

def resolve (reason : String) (id : ℕ) (alerts : List Alert) : List Alert :=
  RowTable.modifyAt id (fun a =>
    if a.isOpen then { a with status := .resolved, resolutionReason := some reason } else a) alerts

def saveState (db : Database) (host : AgedHost) (state : HostState) (offlineReason : Option String)
    (alertId : Option ℕ) (resourceId : Option String) (detail : Option String) : Database :=
  { db with
    states := write host.id ⟨host.account, state, offlineReason, alertId, resourceId, detail⟩
      db.states }

/-- The UPDATE of an open alert: an escalation takes back an acknowledgement. -/
def refresh (severity : String) (age : ℤ) (threshold : ℕ) (a : Alert) : Alert :=
  { a with
    currentValue := age
    threshold
    severity
    status := if a.severity ≠ severity ∧ severity = "CRITICAL" ∧ a.status = .acknowledged
      then .active else a.status }

/-- The INSERT of a new alert. -/
def newAlert (input : PassInput) (host : AgedHost) (target : Resource) (environment : String)
    (severity : String) (threshold : ℕ) : Alert :=
  let silenceReason := find (host.account, target.resourceId) input.silencedMap
  { account := some host.account
    resourceId := target.resourceId
    metricName := metric
    severity
    environment
    groupKey := toString host.account ++ ":" ++ target.resourceType ++ ":" ++ metric
    status := .active
    currentValue := host.age
    threshold
    silenced := silenceReason.any fun reason => reason ≠ ""
    silencedReason := silenceReason
    resolutionReason := none
    raisedFor := some host.id }

/-- Resolve what is open, if anything is. -/
def closeExisting (reason : String) (existing : Option (Alert × ℕ)) (db : Database) : Database :=
  match existing with
  | some (_, id) => { db with alerts := resolve reason id db.alerts }
  | none => db

section Evaluate
variable (environment : Resource → Option String) (input : PassInput)

/-- `_evaluate_host` past the online and the stopped: an alert to keep or to open. -/
def evaluateSilent (db : Database) (host : AgedHost) (state : HostState)
    (info : Option InstanceInfo) (target : Option Resource) (existing : Option (Alert × ℕ)) :
    Option Database :=
  let severity := if state = .offline then "CRITICAL" else "WARNING"
  let threshold := if state = .offline then input.stale * offlineFactor else input.stale
  let detail := buildDetail host.hostname state host.age input.stale info
  match target, existing with
  | some target, some (_, id) =>
    some (saveState
      { db with alerts := RowTable.modifyAt id (refresh severity host.age threshold) db.alerts }
      host state (some "agent_silent") (some id) (some target.resourceId) (some detail))
  | _, _ =>
    let (target, resources) := ensureTarget db.resources host
    target.bind fun target => (environment target).map fun environment =>
      saveState { db with
          resources
          alerts := db.alerts ++ [newAlert input host target environment severity threshold] }
        host state (some "agent_silent") (some db.alerts.length) (some target.resourceId)
        (some detail)

def evaluateHost (db : Database) (host : AgedHost) : Option Database :=
  let state := classify host.age input.stale
  let target := findTarget db.resources host
  let existing := target.bind fun target => openAlert db.alerts host.account target.resourceId
  if state = .online then
    some (saveState (closeExisting "recovered" existing db) host .online none none
      (target.map (·.resourceId)) none)
  else
    let info := instanceInfo db.resources host
    match info.filter fun info : InstanceInfo => info.state ∈ stoppedStates with
    | some info =>
      some (saveState (closeExisting "instance_stopped" existing db) host .offline
        (some "instance_stopped") none (target.map (·.resourceId))
        (some (clip detailMaxLen
          ("Instance is " ++ info.state ++ "; agent offline is expected."))))
    | none => evaluateSilent environment input db host state info target existing

/-- The order in a group: by age, then by id. -/
def Fresher (a b : AgedHost) : Prop := a.age < b.age ∨ (a.age = b.age ∧ a.id ≤ b.id)

instance : DecidableRel Fresher := fun a b =>
  inferInstanceAs (Decidable (a.age < b.age ∨ (a.age = b.age ∧ a.id ≤ b.id)))

def saveTwin (lead : AgedHost) (db : Database) (twin : AgedHost) : Database :=
  saveState db twin (classify twin.age input.stale) (some "superseded") none none
    (some ("Superseded by host agent id " ++ toString lead.id ++ " on the same resource."))

/-- One turn of the loop over the groups. -/
def evaluateGroup (db : Database) (members : List AgedHost) : Option Database :=
  match members.insertionSort Fresher with
  | [] => some db
  | lead :: twins =>
    (evaluateHost environment input db lead).map fun db => twins.foldl (saveTwin input lead) db

end Evaluate

/-- The state rows of hosts that are gone or no longer active. -/
def departedRows (db : Database) : List (ℕ × WatchdogRow) :=
  db.states.filter fun row => !db.hosts.any fun h => h.id = row.1 && h.active

def cleanRow (db : Database) (row : ℕ × WatchdogRow) : Database :=
  { db with
    alerts := match row.2.alertId with
      | some id => resolve "agent_revoked" id db.alerts
      | none => db.alerts
    states := dropWhere (fun host => host = row.1) db.states }

def cleanDeparted (db : Database) : Database := (departedRows db).foldl cleanRow db

/-- The active hosts of active accounts; one without any timestamp is left out. -/
def fetchHosts (db : Database) (now : ℕ) : List AgedHost :=
  (db.hosts.filter fun h => h.active && db.activeAccounts.contains h.account).filterMap fun h =>
    (h.lastSeenAt.or h.enrolledAt).map fun seen =>
      ⟨h.id, h.account, h.hostname, h.instanceId, h.resourceId, (now : ℤ) - seen⟩

def groupKey (resources : List Resource) (host : AgedHost) : ℕ × String :=
  (host.account, ((findTarget resources host).map (·.resourceId)).getD (ownResourceId host.id))

def groupHosts (resources : List Resource) (hosts : List AgedHost) :
    List ((ℕ × String) × List AgedHost) :=
  hosts.foldl (fun groups host => appendAt (groupKey resources host) host groups) []

/-- One watchdog pass. -/
def runWatchdog (environment : Resource → Option String) (input : PassInput) (db : Database) :
    Option Database :=
  let db := cleanDeparted db
  (groupHosts db.resources (fetchHosts db input.now)).foldlM
    (fun db group => evaluateGroup environment input db group.2) db

end MonitoringHub.HostAgent
