import MonitoringHub.Lib.KeyedStore
import MonitoringHub.Lib.StepRun
import MonitoringHub.Alerts.AlertStore

/-! Synthetic checks and their uptime alerts. One process probes: it reads the checks that
are due, probes each over the network, and commits what it saw if the check was not edited
meanwhile. Edits, deletions and what people do to alerts come between any two commits. -/

namespace MonitoringHub.Synthetic
open Lib Lib.KeyedStore Lib.RowTable
open Alerts (Status)

inductive CheckStatus
  | unknown | up | down
  deriving DecidableEq, Repr

/-- What decides how a check is probed. -/
structure ProbeSettings where
  target : String
  expectedStatusCode : Option ℕ
  expectedKeyword : Option String
  expectHttpsRedirect : Bool
  timeoutSeconds : ℕ
  deriving DecidableEq, Repr

/-- A row of `synthetic_checks`. -/
structure Check extends ProbeSettings where
  consecutiveFailureThreshold : ℕ
  enabled : Bool
  consecutiveFailures : ℕ
  currentStatus : CheckStatus
  deriving DecidableEq, Repr

/-- An alert of metric `synthetic_uptime` on the resource of a check. -/
structure UptimeAlert where
  checkId : ℕ
  status : Status
  currentValue : ℕ
  threshold : ℕ
  deriving DecidableEq, Repr

/-- A PATCH, after validation; a field that is not mentioned stays. -/
structure CheckPatch where
  target : Option String
  expectedStatusCode : Option (Option ℕ)
  expectedKeyword : Option (Option String)
  expectHttpsRedirect : Option Bool
  timeoutSeconds : Option ℕ
  consecutiveFailureThreshold : Option ℕ
  enabled : Option Bool
  deriving DecidableEq, Repr

/-- The tables, and the rest of the batch as it was read. -/
structure Monitor where
  checks : List (ℕ × Check)
  nextId : ℕ
  alerts : List UptimeAlert
  batch : List (ℕ × Check)
  deriving DecidableEq, Repr

inductive Event
  | create (settings : ProbeSettings) (threshold : ℕ) (enabled : Bool)
  | patch (id : ℕ) (p : CheckPatch)
  | delete (id : ℕ)
  | readDue (ids : List ℕ)
  | probe (success : Bool)
  | skip
  | abandon
  | acknowledge (alertId : ℕ)
  | resolve (alertId : ℕ)
  deriving DecidableEq, Repr

def openOn (id : ℕ) (a : UptimeAlert) : Bool := decide (a.checkId = id) && a.status.isOpen

/-- A field of `_PROBE_AFFECTING_FIELDS` is mentioned, with whatever value. -/
def CheckPatch.probeAffecting (p : CheckPatch) : Bool :=
  p.target.isSome || p.expectedStatusCode.isSome || p.expectedKeyword.isSome ||
    p.timeoutSeconds.isSome || p.expectHttpsRedirect.isSome

/-- `update_check`; the status and the alert are left alone. -/
def CheckPatch.apply (p : CheckPatch) (c : Check) : Check where
  target := p.target.getD c.target
  expectedStatusCode := p.expectedStatusCode.getD c.expectedStatusCode
  expectedKeyword := p.expectedKeyword.getD c.expectedKeyword
  expectHttpsRedirect := p.expectHttpsRedirect.getD c.expectHttpsRedirect
  timeoutSeconds := p.timeoutSeconds.getD c.timeoutSeconds
  consecutiveFailureThreshold := p.consecutiveFailureThreshold.getD c.consecutiveFailureThreshold
  enabled := p.enabled.getD c.enabled
  consecutiveFailures := if p.probeAffecting then 0 else c.consecutiveFailures
  currentStatus := c.currentStatus

/-- The WHERE clause of `_check_unchanged_since_read`; texts are compared by their keys in
the columns' collation. -/
def unchangedSinceRead (collate : String → String) (current read : Check) : Bool :=
  current.enabled && decide (collate current.target = collate read.target) &&
    decide (current.expectedStatusCode = read.expectedStatusCode) &&
    decide (current.expectedKeyword.map collate = read.expectedKeyword.map collate) &&
    decide (current.expectHttpsRedirect = read.expectHttpsRedirect) &&
    decide (current.timeoutSeconds = read.timeoutSeconds)

def newFailures (read : Check) (success : Bool) : ℕ :=
  if success then 0 else read.consecutiveFailures + 1

/-- Both streak and status go on from what the batch read. -/
def newStatus (read : Check) (success : Bool) : CheckStatus :=
  if success then .up
  else if read.consecutiveFailureThreshold ≤ newFailures read success then .down
  else read.currentStatus

def UptimeAlert.acknowledge (a : UptimeAlert) : UptimeAlert :=
  if a.status = .active then { a with status := .acknowledged } else a

def UptimeAlert.resolve (a : UptimeAlert) : UptimeAlert := { a with status := .resolved }

def writeOrUpdateAlert (id failures threshold : ℕ) (alerts : List UptimeAlert) :
    List UptimeAlert :=
  match lastMatch (openOn id) alerts with
  | some (i, _) => modifyAt i (fun a => { a with currentValue := failures }) alerts
  | none => alerts ++ [⟨id, .active, failures, threshold⟩]

/-- `_resolve_alert`, and the first statement of `delete_check`. -/
def resolveAlerts (id : ℕ) (alerts : List UptimeAlert) : List UptimeAlert :=
  alerts.map fun a => if openOn id a then a.resolve else a

/-- One transaction: the row of the check, then its alert. -/
def Monitor.commitProbe (m : Monitor) (id : ℕ) (current read : Check) (success : Bool) :
    Monitor :=
  let failures := newFailures read success
  let status := newStatus read success
  { m with
    checks := write id
      { current with consecutiveFailures := failures, currentStatus := status } m.checks
    alerts :=
      if status = .down then
        writeOrUpdateAlert id failures read.consecutiveFailureThreshold m.alerts
      else if status = .up ∧ read.currentStatus = .down then resolveAlerts id m.alerts
      else m.alerts }

/-- `none` where the event cannot happen. -/
def Monitor.step (collate : String → String) (m : Monitor) : Event → Option Monitor
  | .create settings threshold enabled => some { m with
      checks := write m.nextId ⟨settings, threshold, enabled, 0, .unknown⟩ m.checks
      nextId := m.nextId + 1 }
  | .patch id p =>
    (find id m.checks).map fun c => { m with checks := write id (p.apply c) m.checks }
  | .delete id =>
    (find id m.checks).map fun _ => { m with
      checks := dropWhere (fun key => key = id) m.checks
      alerts := resolveAlerts id m.alerts }
  | .readDue ids =>
    -- any enabled checks can be the ones that are due; a check is read once
    if m.batch = [] ∧ ids.Nodup then
      some { m with batch := ids.filterMap fun id =>
        ((find id m.checks).filter fun c => c.enabled).map fun c => (id, c) }
    else none
  | .probe success =>
    match m.batch with
    | [] => none
    | (id, read) :: rest =>
      match (find id m.checks).filter fun current => unchangedSinceRead collate current read with
      | some current => some ({ m with batch := rest }.commitProbe id current read success)
      | none => some { m with batch := rest }
  | .skip =>
    match m.batch with
    | [] => none
    | _ :: rest => some { m with batch := rest }
  | .abandon => some { m with batch := [] }
  | .acknowledge i =>
    m.alerts[i]?.map fun _ => { m with alerts := modifyAt i UptimeAlert.acknowledge m.alerts }
  | .resolve i =>
    m.alerts[i]?.map fun _ => { m with alerts := modifyAt i UptimeAlert.resolve m.alerts }

def Monitor.start : Monitor := ⟨[], 0, [], []⟩

end MonitoringHub.Synthetic
