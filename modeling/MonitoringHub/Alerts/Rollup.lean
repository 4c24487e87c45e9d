import Mathlib.Data.List.Dedup
import MonitoringHub.Lib.GroupTally
import MonitoringHub.Alerts.AlertStore

/-! The alert counts every screen reads. One pass over the open alert rows fills three
tables: the account, the account's service, the resource; a resource keeps the service of
the first of its rows. -/

namespace MonitoringHub.Alerts
open Lib Lib.Text Lib.KeyedStore Lib.GroupTally

inductive AlertState
  | resolved | acknowledged | suppressed | stale | firing
  deriving DecidableEq, Repr

/-- One open alert joined with one row of its resource. -/
structure AlertRow where
  id : ℕ
  accountId : ℕ
  resourceId : String
  metricName : String
  resourceType : String
  severity : Option String
  state : AlertState
  deriving DecidableEq, Repr

/-! ### The rows -/

structure StoredAlert where
  id : ℕ
  accountId : ℕ
  resourceId : String
  metricName : String
  severity : Option String
  status : Status
  silenced : Bool
  mutedUntil : Option ℕ
  lastSeenAt : Option ℕ
  triggeredAt : ℕ
  deriving DecidableEq, Repr

structure ResourceRow where
  accountId : ℕ
  resourceId : String
  resourceType : String
  deriving DecidableEq, Repr

def hiddenFromAlertsUiMetrics : List String := ["multivariate_anomaly"]

def isSuppressed (now : ℕ) (a : StoredAlert) : Bool :=
  a.silenced || a.mutedUntil.any fun until' => decide (now < until')

/-- `is_stale_sql`; the minutes without a reading are the freshness window of the row. -/
def isStale (now : ℕ) (staleMinutes : ResourceRow → StoredAlert → ℕ) (r : ResourceRow)
    (a : StoredAlert) : Bool :=
  a.status == .active && decide (a.lastSeenAt.getD a.triggeredAt + 60 * staleMinutes r a < now)

def stateOf (now : ℕ) (staleMinutes : ResourceRow → StoredAlert → ℕ) (r : ResourceRow)
    (a : StoredAlert) : AlertState :=
  match a.status with
  | .resolved => .resolved
  | .acknowledged => .acknowledged
  | .active =>
    if isSuppressed now a then .suppressed
    else if isStale now staleMinutes r a then .stale
    else .firing

structure OpenAlerts where
  activeAccounts : List ℕ
  resources : List ResourceRow
  alerts : List StoredAlert

/-- `fetch_open_alert_rows`: an alert makes one row with every resource row of its account
and id. -/
def fetchOpenAlertRows (now : ℕ) (staleMinutes : ResourceRow → StoredAlert → ℕ) (db : OpenAlerts)
    (accountIds : Option (List ℕ)) : List AlertRow :=
  db.alerts.flatMap fun a =>
    if (a.status == .active || a.status == .acknowledged) &&
        !hiddenFromAlertsUiMetrics.contains a.metricName &&
        accountIds.all (·.contains a.accountId) && db.activeAccounts.contains a.accountId then
      (db.resources.filter fun r => r.resourceId = a.resourceId && r.accountId = a.accountId).map
        fun r => ⟨a.id, a.accountId, a.resourceId, a.metricName, r.resourceType,
          a.severity.map upper, stateOf now staleMinutes r a⟩
    else []

/-! ### The roll-up -/

inductive CountKey
  | critical | warning | info | stale | acknowledged | suppressed
  deriving DecidableEq, Repr

structure Counts where
  critical : ℕ := 0
  warning : ℕ := 0
  info : ℕ := 0
  stale : ℕ := 0
  acknowledged : ℕ := 0
  suppressed : ℕ := 0
  deriving DecidableEq, Repr

def Counts.get (c : Counts) : CountKey → ℕ
  | .critical => c.critical
  | .warning => c.warning
  | .info => c.info
  | .stale => c.stale
  | .acknowledged => c.acknowledged
  | .suppressed => c.suppressed

def Counts.bump (c : Counts) : CountKey → Counts
  | .critical => { c with critical := c.critical + 1 }
  | .warning => { c with warning := c.warning + 1 }
  | .info => { c with info := c.info + 1 }
  | .stale => { c with stale := c.stale + 1 }
  | .acknowledged => { c with acknowledged := c.acknowledged + 1 }
  | .suppressed => { c with suppressed := c.suppressed + 1 }

/-- The count a row goes to, if any. -/
def countKey (row : AlertRow) : Option CountKey :=
  match row.state with
  | .firing =>
    let sev := upper (row.severity.getD "")
    if sev = "CRITICAL" then some .critical
    else if sev = "WARNING" then some .warning
    else some .info
  | .stale => some .stale
  | .acknowledged => some .acknowledged
  | .suppressed => some .suppressed
  | .resolved => none

/-- `_blank`: the counts and the sets of resources behind them. -/
structure Tallies where
  counts : Counts := {}
  resources : List String := []
  criticalResources : List String := []
  warningResources : List String := []
  deriving DecidableEq, Repr

/-- `_add` -/
def Tallies.add (t : Tallies) (row : AlertRow) : Tallies :=
  match countKey row with
  | none => t
  | some .critical => { t with
      counts := t.counts.bump .critical
      resources := t.resources.insert row.resourceId
      criticalResources := t.criticalResources.insert row.resourceId }
  | some .warning => { t with
      counts := t.counts.bump .warning
      resources := t.resources.insert row.resourceId
      warningResources := t.warningResources.insert row.resourceId }
  | some .info => { t with
      counts := t.counts.bump .info
      resources := t.resources.insert row.resourceId }
  | some b => { t with counts := t.counts.bump b }

structure Summary where
  counts : Counts
  resourcesAffected : ℕ
  criticalResources : ℕ
  warningResources : ℕ
  firing : ℕ
  deriving DecidableEq, Repr

/-- `_finish` -/
def Tallies.finish (t : Tallies) : Summary where
  counts := t.counts
  resourcesAffected := t.resources.length
  criticalResources := t.criticalResources.length
  warningResources := t.warningResources.length
  firing := t.counts.critical + t.counts.warning + t.counts.info

structure AccountSummary where
  summary : Summary
  services : List (String × Summary)
  deriving DecidableEq, Repr

structure ResourceCounts where
  service : String
  counts : Counts := {}
  deriving DecidableEq, Repr

def ResourceCounts.add (r : ResourceCounts) (row : AlertRow) : ResourceCounts :=
  match countKey row with
  | none => r
  | some b => { r with counts := r.counts.bump b }

structure ResourceSummary where
  service : String
  counts : Counts
  worst : Option Severity
  total : ℕ
  deriving DecidableEq, Repr

def ResourceCounts.finish (r : ResourceCounts) : ResourceSummary where
  service := r.service
  counts := r.counts
  worst :=
    if r.counts.critical ≠ 0 then some .critical
    else if r.counts.warning ≠ 0 then some .warning
    else if r.counts.info ≠ 0 then some .info
    else none
  total := r.counts.critical + r.counts.warning + r.counts.info

/-- `_svc_key` -/
def svcKey (row : AlertRow) : String := normalizeServiceKey row.resourceType row.resourceId

def AlertRow.resourceKey (row : AlertRow) : ℕ × String := (row.accountId, row.resourceId)

structure Rollup where
  accounts : List (ℕ × AccountSummary)
  resources : List ((ℕ × String) × ResourceSummary)
  deriving DecidableEq, Repr

def accountTally (rows : List AlertRow) : List (ℕ × Tallies) :=
  tally AlertRow.accountId (fun _ => {}) Tallies.add rows

def serviceTally (rows : List AlertRow) : List ((ℕ × String) × Tallies) :=
  tally (fun row => (row.accountId, svcKey row)) (fun _ => {}) Tallies.add rows

def resourceTally (rows : List AlertRow) : List ((ℕ × String) × ResourceCounts) :=
  tally AlertRow.resourceKey (fun row => { service := svcKey row }) ResourceCounts.add rows

def servicesOf (services : List ((ℕ × String) × Tallies)) (acct : ℕ) : List (String × Summary) :=
  (services.filter fun e => e.1.1 = acct).map fun e => (e.1.2, e.2.finish)

def rollup (rows : List AlertRow) : Rollup where
  accounts := (accountTally rows).map fun e =>
    (e.1, ⟨e.2.finish, servicesOf (serviceTally rows) e.1⟩)
  resources := (resourceTally rows).map fun e => (e.1, e.2.finish)

/-! ### The health ring of one account, in units of services -/

structure ServiceRing where
  total : ℕ
  critical : ℕ
  warning : ℕ
  healthy : ℕ
  criticalServices : List String
  warningServices : List String
  deriving DecidableEq, Repr

def criticalServices (services : List (String × Summary)) : List String :=
  (services.filter fun s => 0 < s.2.counts.critical).map Prod.fst

def warningServices (services : List (String × Summary)) : List String :=
  (services.filter fun s => s.2.counts.critical = 0 && 0 < s.2.counts.warning).map Prod.fst

def serviceRing (activeServices : List String) (services : List (String × Summary)) :
    ServiceRing :=
  let crit := criticalServices services
  let warn := warningServices services
  let total := (activeServices ++ crit ++ warn).dedup.length
  ⟨total, crit.length, warn.length, total - crit.length - warn.length, crit.mergeSort, warn.mergeSort⟩

end MonitoringHub.Alerts
