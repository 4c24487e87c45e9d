import Mathlib.Data.List.Basic
import MonitoringHub.Lib.QueryRows
import MonitoringHub.Lib.RowTable
import MonitoringHub.Lib.StepRun
import MonitoringHub.Lib.Text

/-! Correlation of alerts into incidents. A pass fetches the loose alerts once and walks
the list in whatever order it came: each alert joins an active incident next to it in the
topology, or seeds one with a loose neighbour, or stays alone. Alert and incident ids are
row positions; `collate` is the collation that compares names in the database. -/

namespace MonitoringHub.Incidents
open Lib

inductive AlertStatus
  | active | acknowledged | resolved
  deriving DecidableEq, Repr

structure Alert where
  account : Option ℕ
  resourceId : String
  metricName : String
  severity : String
  triggeredAt : ℕ
  status : AlertStatus
  deriving DecidableEq, Repr

structure Incident where
  account : ℕ
  title : String
  severity : String
  active : Bool
  startedAt : ℕ
  resolvedAt : Option ℕ
  lastSeenAt : ℕ
  deriving DecidableEq, Repr

structure Relationship where
  account : ℕ
  source : String
  target : String
  deriving DecidableEq, Repr

structure Tables where
  alerts : List Alert
  relationships : List Relationship
  incidents : List Incident
  incidentAlerts : List (ℕ × ℕ)
  deriving DecidableEq, Repr

def correlationWindowMinutes : ℕ := 30

def hiddenFromAlertsUiMetrics : List String := ["multivariate_anomaly"]

/-- `ABS(TIMESTAMPDIFF(MINUTE, t, t'))`, of times in seconds. -/
def minutesApart (t t' : ℕ) : ℕ := ((t - t') + (t' - t)) / 60

def Tables.activeIncident (s : Tables) (i : ℕ) : Bool := s.incidents[i]?.any Incident.active

/-- The active incidents an alert belongs to. -/
def Tables.activeOf (s : Tables) (id : ℕ) : List ℕ :=
  (s.incidentAlerts.filter fun row => row.2 = id && s.activeIncident row.1).map Prod.fst

section Queries
variable (collate : String → String)

/-- `alert_rules.base_where`. -/
def baseWhere (a : Alert) : Bool :=
  !hiddenFromAlertsUiMetrics.any fun metric => collate metric = collate a.metricName

/-- A relationship of the account between the two resources, in either direction. -/
def Tables.edge (s : Tables) (account : ℕ) (r r' : String) : Bool :=
  s.relationships.any fun rel => rel.account = account &&
    ((collate rel.source = collate r' && collate rel.target = collate r) ||
      (collate rel.target = collate r' && collate rel.source = collate r))

def Tables.looseAlerts (s : Tables) : List ℕ :=
  (s.alerts.zipIdx.filter fun (a, id) => a.status = .active && a.account.isSome &&
    baseWhere collate a && (s.activeOf id).isEmpty).map Prod.snd

/-- The open incidents `alert` can join: one has a member on a neighbouring resource. -/
def Tables.joinable (s : Tables) (alert : Alert) : List ℕ :=
  (s.incidents.zipIdx.filter fun (inc, i) => inc.active && alert.account = some inc.account &&
    decide (minutesApart inc.startedAt alert.triggeredAt ≤ correlationWindowMinutes) &&
    s.incidentAlerts.any fun row => row.1 = i && s.alerts[row.2]?.any fun a2 =>
      a2.account = some inc.account &&
        s.edge collate inc.account alert.resourceId a2.resourceId).map Prod.snd

/-- The other active alerts, members of no incident, that can seed one with `alert`. -/
def Tables.partners (s : Tables) (id : ℕ) (alert : Alert) : List (Alert × ℕ) :=
  s.alerts.zipIdx.filter fun (a2, id2) => a2.status = .active && baseWhere collate a2 &&
    id2 ≠ id && (s.incidentAlerts.all fun row => row.2 ≠ id2) &&
    decide (minutesApart a2.triggeredAt alert.triggeredAt ≤ correlationWindowMinutes) &&
    a2.account = alert.account && alert.account.any fun account =>
      s.edge collate account alert.resourceId a2.resourceId

end Queries

def severityRank (severity : String) : ℕ :=
  if Text.upper severity = "CRITICAL" then 0
  else if Text.upper severity = "WARNING" then 1 else 2

/-- The key of `pick_root` of the first alert is less than that of the second. -/
def breachedBefore (a b : Alert × ℕ) : Bool :=
  decide (a.1.triggeredAt < b.1.triggeredAt) ||
    (a.1.triggeredAt = b.1.triggeredAt &&
      (decide (severityRank a.1.severity < severityRank b.1.severity) ||
        (severityRank a.1.severity = severityRank b.1.severity && decide (a.2 < b.2))))

/-- Python's `min` of the two: the first unless the second is less. -/
def pickRoot (alert partner : Alert × ℕ) : Alert :=
  if breachedBefore partner alert then partner.1 else alert.1

def incidentTitle (root : Alert) : String :=
  let lead := if root.metricName = "" then "Correlated breach" else root.metricName ++ " breach"
  String.ofList ((lead ++ " on " ++ root.resourceId ++ " and related resource(s)").toList.take 255)

/-- `INSERT IGNORE INTO incident_alerts`. -/
def insertIgnore (row : ℕ × ℕ) (rows : List (ℕ × ℕ)) : List (ℕ × ℕ) :=
  if row ∈ rows then rows else rows ++ [row]

/-- Join an open incident. -/
def Tables.attach (collate : String → String) (s : Tables) (now : ℕ) (alert : Alert × ℕ)
    (i : ℕ) : Tables :=
  { s with
    incidentAlerts := insertIgnore (i, alert.2) s.incidentAlerts
    incidents := RowTable.modifyAt i (fun inc => { inc with
      lastSeenAt := now
      severity := if collate (Text.upper alert.1.severity) = collate "CRITICAL" then "CRITICAL"
        else inc.severity }) s.incidents }

/-- Seed an incident with a pair of loose alerts. -/
def Tables.seed (s : Tables) (now account : ℕ) (alert partner : Alert × ℕ) : Tables :=
  let root := pickRoot alert partner
  { s with
    incidents := s.incidents ++ [{
      account
      title := incidentTitle root
      severity :=
        if Text.upper alert.1.severity = "CRITICAL" ∨ Text.upper partner.1.severity = "CRITICAL"
        then "CRITICAL" else alert.1.severity
      active := true
      startedAt := root.triggeredAt
      resolvedAt := none
      lastSeenAt := now }]
    incidentAlerts := insertIgnore (s.incidents.length, partner.2)
      (insertIgnore (s.incidents.length, alert.2) s.incidentAlerts) }

/-- The pass's last statement: an active incident none of whose members is open. -/
def Tables.resolveIncidents (s : Tables) (now : ℕ) : Tables :=
  { s with
    incidents := s.incidents.mapIdx fun i inc =>
      if inc.active && s.incidentAlerts.all fun row => row.1 ≠ i ||
          !s.alerts[row.2]?.any fun a => a.status = .active || a.status = .acknowledged
      then { inc with active := false, resolvedAt := some now }
      else inc }

/-- The loop of a pass: the fetched alerts still to be visited, and the counts returned. -/
structure Loop where
  todo : List ℕ
  incidentsCreated : ℕ
  alertsAttached : ℕ
  deriving DecidableEq, Repr

structure State where
  tables : Tables
  loop : Option Loop
  deriving DecidableEq, Repr

/-- What happens to the tables. `fetch`, the visits and `finish` make up one pass. -/
inductive Event
  | arrive (alert : Alert)
  | setStatus (id : ℕ) (status : AlertStatus)
  | relate (relationships : List Relationship)
  | fetch (order : List ℕ)
  | visit (now join seed : ℕ)
  | finish (now : ℕ)
  deriving DecidableEq, Repr

section Pass
variable (collate : String → String)

/-- One turn of the loop over the loose alerts. -/
def correlateAlert (s : Tables) (loop : Loop) (now join seed : ℕ) (alert : Alert × ℕ) :
    Tables × Loop :=
  match limitOne (s.joinable collate alert.1) join with
  | some i => (s.attach collate now alert i,
      if (i, alert.2) ∈ s.incidentAlerts then loop
      else { loop with alertsAttached := loop.alertsAttached + 1 })
  | none =>
    match limitOne (s.partners collate alert.2 alert.1) seed, alert.1.account with
    | some partner, some account => (s.seed now account alert partner, { loop with
        incidentsCreated := loop.incidentsCreated + 1
        alertsAttached := loop.alertsAttached + 2 })
    | _, _ => (s, loop)

/-- Alerts and relationships change between passes only. -/
def State.step (s : State) : Event → Option State
  | .arrive alert =>
    if s.loop = none then some { s with tables.alerts := s.tables.alerts ++ [alert] } else none
  | .setStatus id status =>
    if s.loop = none then
      some { s with
        tables.alerts := RowTable.modifyAt id (fun a => { a with status }) s.tables.alerts }
    else none
  | .relate relationships =>
    if s.loop = none then some { s with tables.relationships := relationships } else none
  | .fetch order =>
    if s.loop = none ∧ order.Perm (s.tables.looseAlerts collate) then
      some { s with loop := some ⟨order, 0, 0⟩ }
    else none
  | .visit now join seed =>
    match s.loop with
    | some ⟨id :: todo, created, attached⟩ =>
      s.tables.alerts[id]?.map fun alert =>
        let (tables, loop) :=
          correlateAlert collate s.tables ⟨todo, created, attached⟩ now join seed (alert, id)
        ⟨tables, some loop⟩
    | _ => none
  | .finish now =>
    match s.loop with
    | some ⟨[], _, _⟩ => some ⟨s.tables.resolveIncidents now, none⟩
    | _ => none

end Pass

def State.start : State := ⟨⟨[], [], [], []⟩, none⟩

end MonitoringHub.Incidents
