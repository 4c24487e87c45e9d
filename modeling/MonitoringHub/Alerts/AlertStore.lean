import MonitoringHub.Lib.RowTable
import MonitoringHub.Alerts.RowVerdict

/-! The two tables the evaluator writes, `alerts` and `alert_pending`, and every
statement that reads or writes them: the evaluator's own, the stale sweep and the
actions people take on alerts. An alert's id is its position in the table. -/

namespace MonitoringHub.Alerts
open Lib

inductive Severity
  | info | warning | critical
  deriving DecidableEq, Repr

inductive Status
  | active | acknowledged | resolved
  deriving DecidableEq, Repr

/-- `OPEN_STATUSES` -/
def Status.isOpen : Status → Bool
  | active | acknowledged => true
  | resolved => false

@[simp] theorem Status.isOpen_iff {s : Status} : s.isOpen = true ↔ s ≠ .resolved := by
  cases s <;> simp [isOpen]

inductive SweepReason
  | accountInactive | resourceGone | instanceStopped | thresholdDisabled | noDataExpired | noTraffic
  deriving DecidableEq, Repr

inductive ResolutionReason
  | recovered | placeholderThreshold | manual | bulkClear
  | stale (reason : SweepReason)
  deriving DecidableEq, Repr

structure Alert where
  key : AlertKey
  severity : Severity
  environment : Tier
  groupKey : String
  status : Status
  acked : Bool
  ackedBy : Option String
  ackedAt : Option ℕ
  triggeredAt : ℕ
  lastSeenAt : ℕ
  cycleAt : Option ℕ
  healthyStreak : ℕ
  currentValue : ℚ
  threshold : Option ℚ
  breachValue : Option ℚ
  breachThreshold : Option ℚ
  silencedReason : Option String
  resolvedAt : Option ℕ
  resolutionReason : Option ResolutionReason
  resolvedBy : Option String
  deriving DecidableEq, Repr

structure Pending where
  severity : Severity
  environment : Tier
  firstBreachAt : ℕ
  lastSeenAt : ℕ
  breachCycles : ℕ
  cycleAt : Option ℕ
  currentValue : Option ℚ
  thresholdValue : Option ℚ
  deriving DecidableEq, Repr

structure Db where
  alerts : List Alert
  pending : AlertKey → Option Pending

def minCycleSeconds : ℕ := 240
def pendingExpirySeconds : ℕ := 30 * 60

/-- `_CYCLE_DUE_SQL`: the last counted cycle is at least one cycle old. -/
def cycleDue (now : ℕ) (cycleAt : Option ℕ) (since : ℕ) : Bool :=
  decide (cycleAt.getD since + minCycleSeconds ≤ now)

/-- The clock the gate of an alert reads, `COALESCE(cycle_at, triggered_at)`. -/
def Alert.clock (a : Alert) : ℕ := a.cycleAt.getD a.triggeredAt

/-- The clock the gate of a pending row reads, `COALESCE(cycle_at, first_breach_at)`. -/
def Pending.clock (p : Pending) : ℕ := p.cycleAt.getD p.firstBreachAt

def openOn (k : AlertKey) (a : Alert) : Bool := decide (a.key = k) && a.status.isOpen

/-- `status IN ('active','acknowledged') ORDER BY id DESC LIMIT 1` -/
def Db.selectOpen (db : Db) (k : AlertKey) : Option (ℕ × Alert) :=
  RowTable.lastMatch (openOn k) db.alerts

def Db.modifyAlert (db : Db) (id : ℕ) (f : Alert → Alert) : Db :=
  { db with alerts := RowTable.modifyAt id f db.alerts }

def Db.insertAlert (db : Db) (a : Alert) : Db := { db with alerts := db.alerts ++ [a] }

def Db.setPending (db : Db) (k : AlertKey) (p : Option Pending) : Db :=
  { db with pending := Function.update db.pending k p }

def Db.clearPending (db : Db) (k : AlertKey) : Db := db.setPending k none

/-- A healthy cycle on an open alert. Without a limit the shown one is kept. -/
def Alert.markHealthy (now : ℕ) (value : ℚ) (threshold : Option ℚ) (a : Alert) : Alert :=
  { a with
    currentValue := value
    threshold := threshold.orElse fun _ => a.threshold
    healthyStreak :=
      if cycleDue now a.cycleAt a.triggeredAt then a.healthyStreak + 1 else a.healthyStreak
    cycleAt := if cycleDue now a.cycleAt a.triggeredAt then some now else a.cycleAt
    lastSeenAt := now }

theorem Alert.markHealthy_key (now : ℕ) (value : ℚ) (threshold : Option ℚ) (a : Alert) :
    (a.markHealthy now value threshold).key = a.key := rfl

theorem Alert.markHealthy_due {now : ℕ} {a : Alert} (hdue : a.clock + minCycleSeconds ≤ now)
    (value : ℚ) (threshold : Option ℚ) :
    cycleDue now a.cycleAt a.triggeredAt = true ∧
      (a.markHealthy now value threshold).healthyStreak = a.healthyStreak + 1 ∧
      (a.markHealthy now value threshold).clock = now := by
  have hgate : cycleDue now a.cycleAt a.triggeredAt = true := decide_eq_true hdue
  simp [Alert.markHealthy, hgate, Alert.clock]

theorem Alert.markHealthy_waits {now : ℕ} {a : Alert} (hdue : ¬ a.clock + minCycleSeconds ≤ now)
    (value : ℚ) (threshold : Option ℚ) :
    cycleDue now a.cycleAt a.triggeredAt = false ∧
      (a.markHealthy now value threshold).healthyStreak = a.healthyStreak ∧
      (a.markHealthy now value threshold).clock = a.clock := by
  have hgate : cycleDue now a.cycleAt a.triggeredAt = false := decide_eq_false hdue
  simp [Alert.markHealthy, hgate, Alert.clock]

/-- A breaching cycle on the alert read as `existing`. The statement names the row
by id only: what it does to severity and status was decided from `existing`. -/
def Alert.markBreach (now : ℕ) (value : ℚ) (threshold : Option ℚ) (severity : Severity)
    (existing a : Alert) : Alert :=
  let a := { a with
    currentValue := value
    threshold := threshold
    breachValue := some value
    breachThreshold := threshold
    lastSeenAt := now
    healthyStreak := 0
    cycleAt := some now }
  if existing.severity = .critical ∧ severity ≠ .critical then { a with severity := severity }
  else if existing.severity ≠ severity ∧ severity = .critical then
    if existing.status = .acknowledged then
      { a with
        severity := severity
        status := .active
        acked := false
        ackedBy := none
        ackedAt := none }
    else { a with severity := severity }
  else a

theorem Alert.markBreach_status (now : ℕ) (value : ℚ) (threshold : Option ℚ) (severity : Severity)
    (existing a : Alert) :
    (Alert.markBreach now value threshold severity existing a).status =
      if existing.severity ≠ severity ∧ severity = .critical ∧ existing.status = .acknowledged
      then .active else a.status := by
  unfold Alert.markBreach
  by_cases hup : severity = .critical
  · by_cases hack : existing.status = .acknowledged <;> simp [hup, hack] <;> split <;> simp_all
  · simp [hup]
    split <;> rfl

/-- What every breaching cycle records on the alert, whatever its severity branch. -/
structure Alert.Breached (now : ℕ) (value : ℚ) (threshold : Option ℚ) (a a' : Alert) : Prop where
  key_eq : a'.key = a.key
  breachValue_eq : a'.breachValue = some value
  breachThreshold_eq : a'.breachThreshold = threshold
  clock_eq : a'.clock = now
  streak_eq : a'.healthyStreak = 0

theorem Alert.markBreach_breached (now : ℕ) (value : ℚ) (threshold : Option ℚ)
    (severity : Severity) (existing a : Alert) :
    a.Breached now value threshold (Alert.markBreach now value threshold severity existing a) := by
  unfold Alert.markBreach
  split
  · exact ⟨rfl, rfl, rfl, rfl, rfl⟩
  · split
    · split <;> exact ⟨rfl, rfl, rfl, rfl, rfl⟩
    · exact ⟨rfl, rfl, rfl, rfl, rfl⟩

/-- Read and written in one go, the alert is CRITICAL exactly when the reading is. -/
theorem Alert.markBreach_severity (now : ℕ) (value : ℚ) (threshold : Option ℚ)
    (severity : Severity) (a : Alert) :
    (Alert.markBreach now value threshold severity a a).severity = .critical ↔
      severity = .critical := by
  unfold Alert.markBreach
  by_cases hs : severity = .critical
  · subst hs
    by_cases ha : a.severity = .critical
    · simp [ha]
    · simp only [ha, false_and, if_false, ne_eq, not_false_eq_true, and_self, if_true, iff_true]
      split <;> rfl
  · by_cases ha : a.severity = .critical
    · simp [ha, hs]
    · simp [ha, hs]

/-- `UPDATE ... SET status = 'resolved' WHERE id AND status IN ('active','acknowledged')` -/
def Alert.resolveOpen (now : ℕ) (reason : ResolutionReason) (a : Alert) : Alert :=
  if a.status.isOpen then
    { a with
      status := .resolved
      resolvedAt := some now
      resolutionReason := some reason
      resolvedBy := some "system" }
  else a

theorem Alert.resolveOpen_key (now : ℕ) (reason : ResolutionReason) (a : Alert) :
    (a.resolveOpen now reason).key = a.key := by
  unfold Alert.resolveOpen
  split <;> rfl

theorem Alert.resolveOpen_status (now : ℕ) (reason : ResolutionReason) (a : Alert) :
    (a.resolveOpen now reason).status = .resolved := by
  unfold Alert.resolveOpen
  split
  · rfl
  · rename_i h
    simpa using h

/-- `_resolve_ids` -/
def Db.resolveIds (db : Db) (now : ℕ) (reason : SweepReason) (ids : List ℕ) : Db :=
  { db with
    alerts := db.alerts.mapIdx fun id a =>
      if ids.contains id && a.status.isOpen then
        { (a.resolveOpen now (.stale reason)) with lastSeenAt := now }
      else a }

/-- The sweep resolves by id whatever its selections found, one reason after another. -/
def Db.resolveStale (db : Db) (now : ℕ) : List (SweepReason × List ℕ) → Db
  | [] => db
  | (reason, ids) :: found => (db.resolveIds now reason ids).resolveStale now found

/-- `DELETE FROM alert_pending WHERE last_seen_at < now - 30 minutes` -/
def Db.expirePending (db : Db) (now : ℕ) : Db :=
  { db with
    pending := fun k =>
      (db.pending k).filter fun p => !decide (p.lastSeenAt + pendingExpirySeconds < now) }

/-- What a touch did to the pending row: made it, counted a cycle, or only saw it. -/
inductive Touch
  | inserted | counted | waited
  deriving DecidableEq, Repr

/-- `_touch_pending`: insert the candidate, or count and overwrite the one there. -/
def touchPending (now : ℕ) (severity : Severity) (environment : Tier)
    (value threshold : Option ℚ) : Option Pending → Touch × Pending
  | none =>
    (.inserted,
      { severity := severity
        environment := environment
        firstBreachAt := now
        lastSeenAt := now
        breachCycles := 1
        cycleAt := some now
        currentValue := value
        thresholdValue := threshold })
  | some p =>
    let due := cycleDue now p.cycleAt p.firstBreachAt
    (if due then .counted else .waited,
      { p with
        breachCycles := if due then p.breachCycles + 1 else p.breachCycles
        cycleAt := if due then some now else p.cycleAt
        lastSeenAt := now
        currentValue := value
        thresholdValue := threshold
        severity := if severity = .critical then .critical else p.severity })

inductive HumanAction
  | acknowledge (id : ℕ) (user : String)
  | ackGroup (groupKey : String) (inScope : AlertKey → Bool) (user : String)
  | resolve (id : ℕ) (user : String)
  | clear (inScope : AlertKey → Bool) (user : String)

def Alert.acknowledge (now : ℕ) (user : String) (a : Alert) : Alert :=
  { a with acked := true, status := .acknowledged, ackedBy := some user, ackedAt := some now }

def Alert.resolveBy (now : ℕ) (reason : ResolutionReason) (user : String) (a : Alert) : Alert :=
  { a with
    status := .resolved
    resolvedAt := some now
    lastSeenAt := now
    resolutionReason := some reason
    resolvedBy := some user }

/-- Each action with the guard of its own UPDATE. -/
def HumanAction.rewrite (now : ℕ) (act : HumanAction) (id : ℕ) (a : Alert) : Alert :=
  match act with
  | .acknowledge i user => if id = i ∧ a.status = .active then a.acknowledge now user else a
  | .ackGroup g inScope user =>
    if a.groupKey = g ∧ a.status = .active ∧ inScope a.key then a.acknowledge now user else a
  | .resolve i user =>
    if id = i ∧ a.status ≠ .resolved then a.resolveBy now .manual user else a
  | .clear inScope user =>
    if a.status = .active ∧ a.acked = false ∧ inScope a.key then
      a.resolveBy now .bulkClear user
    else a

def Db.act (db : Db) (now : ℕ) (act : HumanAction) : Db :=
  { db with alerts := db.alerts.mapIdx (act.rewrite now) }

section Frame
variable (db : Db) (k : AlertKey)

@[simp] theorem Db.setPending_alerts (p : Option Pending) : (db.setPending k p).alerts = db.alerts :=
  rfl

@[simp] theorem Db.setPending_self (p : Option Pending) : (db.setPending k p).pending k = p :=
  Function.update_self ..

theorem Db.setPending_ne {k' : AlertKey} (h : k' ≠ k) (p : Option Pending) :
    (db.setPending k p).pending k' = db.pending k' :=
  Function.update_of_ne h ..

@[simp] theorem Db.clearPending_alerts : (db.clearPending k).alerts = db.alerts := rfl

@[simp] theorem Db.clearPending_self : (db.clearPending k).pending k = none :=
  db.setPending_self k none

@[simp] theorem Db.modifyAlert_pending (id : ℕ) (f : Alert → Alert) :
    (db.modifyAlert id f).pending = db.pending := rfl

theorem Db.modifyAlert_getElem? (id i : ℕ) (f : Alert → Alert) :
    (db.modifyAlert id f).alerts[i]? =
      if id = i then db.alerts[i]?.map f else db.alerts[i]? :=
  RowTable.modifyAt_getElem? id i f db.alerts

theorem openOn_iff {k : AlertKey} {a : Alert} :
    openOn k a = true ↔ a.key = k ∧ a.status.isOpen = true := by
  simp [openOn]

theorem Db.expirePending_some {now : ℕ} {p : Pending}
    (h : (db.expirePending now).pending k = some p) : db.pending k = some p :=
  (Option.filter_eq_some_iff.mp h).1

end Frame

/-- What people and the stale sweep can do to one alert: close it or note an
acknowledgement, never open it, never touch what the evaluator recorded. -/
structure Alert.Handled (a a' : Alert) : Prop where
  key_eq : a'.key = a.key
  severity_eq : a'.severity = a.severity
  breachValue_eq : a'.breachValue = a.breachValue
  breachThreshold_eq : a'.breachThreshold = a.breachThreshold
  clock_eq : a'.clock = a.clock
  streak_eq : a'.healthyStreak = a.healthyStreak
  open_before : a'.status.isOpen = true → a.status.isOpen = true
  recovered_before : a'.status = .resolved ∧ a'.resolutionReason = some .recovered →
    a.status = .resolved ∧ a.resolutionReason = some .recovered

theorem Alert.Handled.refl (a : Alert) : a.Handled a :=
  ⟨rfl, rfl, rfl, rfl, rfl, rfl, id, id⟩

theorem Alert.Handled.trans {a b c : Alert} (hab : a.Handled b) (hbc : b.Handled c) :
    a.Handled c where
  key_eq := hbc.key_eq.trans hab.key_eq
  severity_eq := hbc.severity_eq.trans hab.severity_eq
  breachValue_eq := hbc.breachValue_eq.trans hab.breachValue_eq
  breachThreshold_eq := hbc.breachThreshold_eq.trans hab.breachThreshold_eq
  clock_eq := hbc.clock_eq.trans hab.clock_eq
  streak_eq := hbc.streak_eq.trans hab.streak_eq
  open_before h := hab.open_before (hbc.open_before h)
  recovered_before h := hab.recovered_before (hbc.recovered_before h)

theorem HumanAction.rewrite_handled (now : ℕ) (act : HumanAction) (id : ℕ) (a : Alert) :
    a.Handled (act.rewrite now id a) := by
  cases act <;> simp only [HumanAction.rewrite] <;> split
  · rename_i h
    exact ⟨rfl, rfl, rfl, rfl, rfl, rfl, fun _ => by simp [h.2], fun hr => (by cases hr.1)⟩
  · exact .refl a
  · rename_i h
    exact ⟨rfl, rfl, rfl, rfl, rfl, rfl, fun _ => by simp [h.2.1], fun hr => (by cases hr.1)⟩
  · exact .refl a
  · exact ⟨rfl, rfl, rfl, rfl, rfl, rfl, nofun, fun hr => (by cases hr.2)⟩
  · exact .refl a
  · exact ⟨rfl, rfl, rfl, rfl, rfl, rfl, nofun, fun hr => (by cases hr.2)⟩
  · exact .refl a

/-- Two alert tables, row by row. -/
def Db.Handled (db db' : Db) : Prop :=
  db'.alerts.length = db.alerts.length ∧
    ∀ (id : ℕ) (a' : Alert), db'.alerts[id]? = some a' →
      ∃ a, db.alerts[id]? = some a ∧ a.Handled a'

theorem Db.Handled.refl (db : Db) : db.Handled db :=
  ⟨rfl, fun _ a' h => ⟨a', h, .refl a'⟩⟩

theorem Db.Handled.trans {db₁ db₂ db₃ : Db} (h₁ : db₁.Handled db₂) (h₂ : db₂.Handled db₃) :
    db₁.Handled db₃ := by
  refine ⟨h₂.1.trans h₁.1, fun id c hc => ?_⟩
  obtain ⟨b, hb, hbc⟩ := h₂.2 id c hc
  obtain ⟨a, ha, hab⟩ := h₁.2 id b hb
  exact ⟨a, ha, hab.trans hbc⟩

/-- No alert is lost: a row that was there still is, as its owner's steps left it. -/
theorem Db.Handled.kept {db db' : Db} {id : ℕ} {a : Alert} (h : db.Handled db')
    (ha : db.alerts[id]? = some a) : ∃ a', db'.alerts[id]? = some a' ∧ a.Handled a' := by
  have hlt : id < db'.alerts.length := by
    rw [h.1]
    exact (List.getElem?_eq_some_iff.mp ha).1
  have ha' := List.getElem?_eq_getElem hlt
  obtain ⟨b, hb, hab⟩ := h.2 id _ ha'
  obtain rfl := Option.some.inj (ha.symm.trans hb)
  exact ⟨_, ha', hab⟩

theorem Db.act_handled (db : Db) (now : ℕ) (act : HumanAction) : db.Handled (db.act now act) := by
  refine ⟨by simp [Db.act], fun id a' h => ?_⟩
  simp only [Db.act, List.getElem?_mapIdx, Option.map_eq_some_iff] at h
  obtain ⟨a, ha, rfl⟩ := h
  exact ⟨a, ha, act.rewrite_handled now id a⟩

theorem Db.resolveIds_handled (db : Db) (now : ℕ) (reason : SweepReason) (ids : List ℕ) :
    db.Handled (db.resolveIds now reason ids) := by
  refine ⟨by simp [Db.resolveIds], fun id a' h => ?_⟩
  simp only [Db.resolveIds, List.getElem?_mapIdx, Option.map_eq_some_iff] at h
  obtain ⟨a, ha, rfl⟩ := h
  refine ⟨a, ha, ?_⟩
  split
  · rename_i hin
    simp only [Bool.and_eq_true] at hin
    simp only [Alert.resolveOpen, hin.2, if_true]
    exact ⟨rfl, rfl, rfl, rfl, rfl, rfl, nofun, fun hr => (by cases hr.2)⟩
  · exact .refl a

theorem Db.resolveStale_handled (now : ℕ) (found : List (SweepReason × List ℕ)) (db : Db) :
    db.Handled (db.resolveStale now found) ∧ (db.resolveStale now found).pending = db.pending := by
  induction found generalizing db with
  | nil => exact ⟨.refl db, rfl⟩
  | cons r found ih =>
    obtain ⟨hrest, hpending⟩ := ih (db.resolveIds now r.1 r.2)
    exact ⟨(db.resolveIds_handled now r.1 r.2).trans hrest, hpending⟩

end MonitoringHub.Alerts
