import Mathlib.Data.List.Sort
import MonitoringHub.Ingest.WatchedServices
import MonitoringHub.Lib.Pattern

/-! The service inventory of a host. A snapshot is merged row by row, where the newer scan wins,
and the rows of older scans than its own are deleted. Times are microseconds. -/

namespace MonitoringHub.Ingest
open Lib

/-- `MAX_INVENTORY` -/
def maxInventory : ℕ := 1000
/-- `MAX_INVENTORY_STARTUP_LEN` -/
def maxInventoryStartupLen : ℕ := 24
/-- `MAX_INVENTORY_DESC_LEN` -/
def maxInventoryDescLen : ℕ := 160

/-- An entry of `service_inventory`: its fields that are there and are strings. -/
structure RawItem where
  name : Option String
  state : Option String
  startup : Option String
  description : Option String

structure InventoryItem where
  name : String
  state : ServiceState
  startup : String
  description : String
  deriving DecidableEq

/-- Each name once. -/
abbrev Inventory := { items : List InventoryItem // (items.map InventoryItem.name).Nodup }

/-- `SERVICE_STATES` -/
def serviceState (state : String) : Option ServiceState :=
  if state = "running" then some .running
  else if state = "stopped" then some .stopped
  else if state = "failed" then some .failed
  else if state = "unknown" then some .unknown
  else none

/-- `MAX_SERVICE_NAME_LEN` and `INVENTORY_NAME_RE`, whose `$` is also before a last line feed. -/
def inventoryName (name : List Char) : Bool :=
  let line := if name.getLast? = some '\n' then name.dropLast else name
  name.length ≤ 100 && line.head?.any serviceInitial && line.all serviceChar

def RawItem.clean (raw : RawItem) : Option InventoryItem := do
  let name ← raw.name
  let state ← raw.state.bind serviceState
  guard (inventoryName name.toList)
  let startup := Environments.strip (raw.startup.getD "").toList
  let words := Pattern.pieces (fun c => !Environments.isSpace c) (raw.description.getD "").toList
  some {
    name := name
    state := state
    startup := String.ofList (startup.take maxInventoryStartupLen)
    description := String.ofList (([' '].intercalate words).take maxInventoryDescLen) }

/-- One round of the loop of `clean_inventory`. -/
def Inventory.add (out : Inventory) (raw : RawItem) : Inventory :=
  if out.1.length < maxInventory then
    match raw.clean with
    | some item =>
      if h : item.name ∈ out.1.map InventoryItem.name then out
      else ⟨out.1 ++ [item], by
        rw [List.map_append]
        exact out.2.append (List.nodup_singleton _) (by simpa using h)⟩
    | none => out
  else out

/-- `clean_inventory` -/
def cleanInventory (raw : List RawItem) : Inventory := raw.foldl Inventory.add ⟨[], List.nodup_nil⟩

example : (cleanInventory [⟨some "nginx", some "running", some "enabled", some "  web \n server  "⟩,
    ⟨some "nginx", some "stopped", none, none⟩, ⟨some "-rf", some "running", none, none⟩]).1 =
      [⟨"nginx", .running, "enabled", "web server"⟩] := by decide +kernel

/-- `_service_observed_at`, of a time of the agent in seconds. -/
def scanTime (sentAt now : ℤ) : ℤ :=
  let ts := sentAt * 1000000
  if ts < now - serviceClampPastSeconds * 1000000 ∨ now + serviceClampFutureSeconds * 1000000 < ts
  then now
  else ts

/-- What a DATETIME column makes of a time: whole seconds, less than one away. -/
structure DatetimeColumn where
  store : ℤ → ℤ
  whole (t : ℤ) : ∃ n, store t = n * 1000000
  near (t : ℤ) : store t < t + 1000000 ∧ t < store t + 1000000

/-- The nearest second, as MySQL has it. -/
def mysqlColumn : DatetimeColumn where
  store t := (t + 500000) / 1000000 * 1000000
  whole t := ⟨_, rfl⟩
  near t := by omega

/-- A row of `host_agent_service_inventory` of the host. -/
structure InventoryRow extends InventoryItem where
  scannedAt : ℤ
  deriving DecidableEq

/-- The rows under their keys, the names as the collation folds them. -/
abbrev InventoryTable := String → Option InventoryRow

/-- `ON DUPLICATE KEY UPDATE` of `SQL_UPSERT_INVENTORY`; `scanned_at` is assigned last. -/
def InventoryRow.observe (scanned : ℤ) (item : InventoryItem) (row : InventoryRow) :
    InventoryRow where
  name := row.name
  state := if row.scannedAt ≤ scanned then item.state else row.state
  startup := if row.scannedAt ≤ scanned then item.startup else row.startup
  description := if row.scannedAt ≤ scanned then item.description else row.description
  scannedAt := max row.scannedAt scanned

def InventoryItem.upserted (scanned : ℤ) (item : InventoryItem) :
    Option InventoryRow → InventoryRow
  | none => ⟨item, scanned⟩
  | some row => row.observe scanned item

section Collation
variable (fold : String → String)

/-- `SQL_UPSERT_INVENTORY` -/
def upsertInventory (scanned : ℤ) (table : InventoryTable) (item : InventoryItem) :
    InventoryTable := fun key =>
  if fold item.name = key then some (item.upserted scanned (table key)) else table key

/-- `DELETE .. WHERE scanned_at < %s` -/
def dropOlder (scanned : ℤ) (table : InventoryTable) : InventoryTable := fun key =>
  (table key).filter fun row => !decide (row.scannedAt < scanned)

/-- `_write_inventory`, of an inventory that is not empty; the DELETE has the time unrounded. -/
def writeInventory (column : DatetimeColumn) (scanned : ℤ) (inventory : Inventory)
    (table : InventoryTable) : InventoryTable :=
  let rows := inventory.1.insertionSort fun a b => a.name ≤ b.name
  dropOlder scanned (rows.foldl (upsertInventory fold (column.store scanned)) table)

end Collation

/-- A snapshot that was written, with the time that `_service_observed_at` gave it. -/
structure Snapshot where
  scanned : ℤ
  inventory : Inventory
  nonempty : inventory.1 ≠ []

def Snapshot.items (snapshot : Snapshot) : List InventoryItem := snapshot.inventory.1

/-- A payload that carries an inventory. -/
structure InventoryReport (S : Type) where
  clean : Clean S
  sentAt : ℤ
  raw : List RawItem

/-- The host's row and its inventory, with the snapshots that were written, newest first. -/
structure InventoryHost where
  agent : AgentRow
  table : InventoryTable
  written : List Snapshot

/-- `now` is the clock of the hub, `claimed` and `later` are seconds of the database's. -/
inductive InventoryAct (S : Type)
  | revoke
  | enroll
  | ingest (report : InventoryReport S) (now : ℤ) (claimed later : ℕ)

/-- The newest scan as the column has it, the last one written where several are. -/
def newestScan (column : DatetimeColumn) : List Snapshot → Option Snapshot
  | [] => none
  | last :: written =>
    match newestScan column written with
    | none => some last
    | some newest =>
      if column.store newest.scanned ≤ column.store last.scanned then some last else some newest

namespace InventoryReport
variable {S : Type}

/-- The snapshot of a report that comes to `_write_inventory` and is written there. -/
def snapshot (agent : AgentRow) (report : InventoryReport S) (now : ℤ) (claimed later : ℕ) :
    Option Snapshot :=
  let wrote := (transact claimed later report.clean agent).2
  if report.clean.samples.isEmpty || !wrote.isEmpty then
    if h : (cleanInventory report.raw).1 ≠ [] then
      some ⟨scanTime report.sentAt now, cleanInventory report.raw, h⟩
    else none
  else none

end InventoryReport

namespace InventoryHost
variable {S : Type} (fold : String → String) (column : DatetimeColumn)

/-- Before the first report. -/
def fresh (agent : AgentRow) : InventoryHost := ⟨agent, fun _ => none, []⟩

def write (s : InventoryHost) (new : Snapshot) : InventoryHost :=
  { s with
    table := writeInventory fold column new.scanned new.inventory s.table
    written := new :: s.written }

def step (s : InventoryHost) : InventoryAct S → Option InventoryHost
  | .revoke => some { s with agent := { s.agent with status := .revoked } }
  | .enroll => some { s with agent := { s.agent with status := .active, lastSeq := 0 } }
  | .ingest report now claimed later =>
    let agent := (transact claimed later report.clean s.agent).1
    match report.snapshot s.agent now claimed later with
    | some new => some { s.write fold column new with agent := agent }
    | none => some { s with agent := agent }

/-- The stored services are those of the newest scan, with its states. -/
def Current (s : InventoryHost) : Prop :=
  ∀ name state, (∃ key row, s.table key = some row ∧ row.name = name ∧ row.state = state) ↔
    ∃ newest ∈ newestScan column s.written, ∃ item ∈ newest.items,
      item.name = name ∧ item.state = state

end InventoryHost

/-- No two names that the collation takes for one. -/
def Snapshot.Distinct (fold : String → String) (snapshot : Snapshot) : Prop :=
  ∀ item ∈ snapshot.items, ∀ item' ∈ snapshot.items,
    fold item.name = fold item'.name → item.name = item'.name

/-- What a snapshot must be like to be written after the newest one so far. If it is older, it has
no other names, or the column puts it before the time that the DELETE compares with. Otherwise the
column does not, its names are distinct to the collation and spelled like those of the newest,
and if it is of the same second it has them all. -/
structure Snapshot.Fits (fold : String → String) (column : DatetimeColumn)
    (newest : Option Snapshot) (new : Snapshot) : Prop where
  older : ∀ old ∈ newest, column.store new.scanned < column.store old.scanned →
    column.store new.scanned < new.scanned ∨
      ∀ item ∈ new.items, ∃ item' ∈ old.items, fold item'.name = fold item.name
  kept : (∀ old ∈ newest, column.store old.scanned ≤ column.store new.scanned) →
    new.scanned ≤ column.store new.scanned
  distinct : (∀ old ∈ newest, column.store old.scanned ≤ column.store new.scanned) →
    new.Distinct fold
  spelled : ∀ old ∈ newest, column.store old.scanned ≤ column.store new.scanned →
    ∀ item' ∈ old.items, ∀ item ∈ new.items,
      fold item'.name = fold item.name → item'.name = item.name
  covers : ∀ old ∈ newest, column.store old.scanned = column.store new.scanned →
    ∀ item' ∈ old.items, ∃ item ∈ new.items, item.name = item'.name

/-- A snapshot that a report writes fits. -/
def InventoryHost.Fits {S : Type} (fold : String → String) (column : DatetimeColumn)
    (s : InventoryHost) : InventoryAct S → Prop
  | .ingest report now claimed later =>
    ∀ new ∈ report.snapshot s.agent now claimed later, new.Fits fold column
      (newestScan column s.written)
  | _ => True

section Rows
variable {fold : String → String} {scanned : ℤ} {table : InventoryTable}
  {items : List InventoryItem} {item : InventoryItem} {row : InventoryRow} {key : String}

theorem InventoryRow.observe_older (h : scanned < row.scannedAt) :
    row.observe scanned item = row := by
  have hno := not_le.mpr h
  simp only [InventoryRow.observe, hno, if_false, max_eq_left h.le]

theorem InventoryRow.observe_newer (h : row.scannedAt ≤ scanned) :
    row.observe scanned item = ⟨{ item with name := row.name }, scanned⟩ := by
  simp only [InventoryRow.observe, h, if_true, max_eq_right h]

/-- What every item under a key keeps holds of the row under it. -/
theorem upserts_keep {Q : Option InventoryRow → Prop} (h : Q (table key))
    (hkeep : ∀ item ∈ items, fold item.name = key → ∀ row, Q row →
      Q (some (item.upserted scanned row))) :
    Q (items.foldl (upsertInventory fold scanned) table key) := by
  refine List.foldlRecOn (motive := fun table : InventoryTable => Q (table key)) items _ h
    fun table h item hitem => ?_
  unfold upsertInventory
  split
  · rename_i hkey
    exact hkeep item hitem hkey _ h
  · exact h

/-- What one item under a key brings about, and the others keep, holds of the row under it. -/
theorem upserts_reach {Q R : Option InventoryRow → Prop} (h : Q (table key))
    (hkeep : ∀ item ∈ items, fold item.name = key → ∀ row, Q row →
      Q (some (item.upserted scanned row)))
    (hitem : item ∈ items) (hkey : fold item.name = key)
    (hreach : ∀ row, Q row → R (some (item.upserted scanned row)))
    (hkeep' : ∀ item ∈ items, fold item.name = key → ∀ row, R row →
      R (some (item.upserted scanned row))) :
    R (items.foldl (upsertInventory fold scanned) table key) := by
  obtain ⟨before, after, rfl⟩ := List.append_of_mem hitem
  rw [List.foldl_append, List.foldl_cons]
  refine upserts_keep ?_ fun item' hitem' => hkeep' item' (by simp [hitem'])
  rw [upsertInventory, if_pos hkey]
  exact hreach _ (upserts_keep h fun item' hitem' => hkeep item' (by simp [hitem']))

theorem upserts_other (hno : ∀ item ∈ items, fold item.name ≠ key) :
    items.foldl (upsertInventory fold scanned) table key = table key :=
  upserts_keep (Q := fun row => row = table key) rfl
    fun item hitem hkey => absurd hkey (hno item hitem)

/-- A row of a newer scan is left. -/
theorem upserts_older (hrow : table key = some row) (hnewer : scanned < row.scannedAt) :
    items.foldl (upsertInventory fold scanned) table key = some row := by
  refine upserts_keep (Q := fun found => found = some row) hrow ?_
  rintro item - - _ rfl
  rw [InventoryItem.upserted, InventoryRow.observe_older hnewer]

theorem upserted_scannedAt {found : Option InventoryRow}
    (h : ∀ row ∈ found, row.scannedAt ≤ scanned) :
    (item.upserted scanned found).scannedAt = scanned := by
  cases found with
  | none => rfl
  | some old => exact max_eq_right (h old rfl)

/-- Where no row is of a newer scan, none is afterwards. -/
theorem upserts_le (h : ∀ row ∈ table key, row.scannedAt ≤ scanned) :
    ∀ row ∈ items.foldl (upsertInventory fold scanned) table key, row.scannedAt ≤ scanned := by
  refine upserts_keep (Q := fun found => ∀ row ∈ found, row.scannedAt ≤ scanned) h ?_
  intro item _ _ found hfound row hrow
  obtain rfl := Option.some.inj hrow
  exact (upserted_scannedAt hfound).le

/-- An item leaves a row of its scan, if there is none of a newer one. -/
theorem upserts_scanned (h : ∀ row ∈ table key, row.scannedAt ≤ scanned) (hitem : item ∈ items)
    (hkey : fold item.name = key) :
    ∃ row, items.foldl (upsertInventory fold scanned) table key = some row ∧
      row.scannedAt = scanned := by
  refine upserts_reach (Q := fun found => ∀ row ∈ found, row.scannedAt ≤ scanned)
    (R := fun found => ∃ row, found = some row ∧ row.scannedAt = scanned) h ?_ hitem hkey ?_ ?_
  · intro item _ _ found hfound row hrow
    obtain rfl := Option.some.inj hrow
    exact (upserted_scannedAt hfound).le
  · exact fun found hfound => ⟨_, rfl, upserted_scannedAt hfound⟩
  · rintro item - - _ ⟨row, rfl, hrow⟩
    exact ⟨_, rfl, max_eq_right hrow.le⟩

/-- A row keeps its name. -/
theorem upserts_name (hrow : table key = some row) :
    ∃ row', items.foldl (upsertInventory fold scanned) table key = some row' ∧
      row'.name = row.name ∧ (row.scannedAt = scanned → row'.scannedAt = scanned) := by
  refine upserts_keep (Q := fun found => ∃ row', found = some row' ∧ row'.name = row.name ∧
    (row.scannedAt = scanned → row'.scannedAt = scanned)) ⟨row, hrow, rfl, id⟩ ?_
  rintro item - - _ ⟨row', rfl, hname, hscanned⟩
  exact ⟨_, rfl, hname, fun heq => max_eq_right (hscanned heq).le⟩

/-- The only item under a key is what the row becomes, if it is spelled like that. -/
theorem upserts_only (h : ∀ row ∈ table key, row.scannedAt ≤ scanned ∧ row.name = item.name)
    (hitem : item ∈ items) (hkey : fold item.name = key)
    (honly : ∀ item' ∈ items, fold item'.name = key → item' = item) :
    items.foldl (upsertInventory fold scanned) table key = some ⟨item, scanned⟩ := by
  have hmerged (found : Option InventoryRow)
      (hfound : ∀ row ∈ found, row.scannedAt ≤ scanned ∧ row.name = item.name) :
      some (item.upserted scanned found) = some (⟨item, scanned⟩ : InventoryRow) := by
    cases found with
    | none => rfl
    | some old =>
      obtain ⟨hle, hname⟩ := hfound old rfl
      rw [InventoryItem.upserted, InventoryRow.observe_newer hle, hname]
  have hafter : ∀ row ∈ some (⟨item, scanned⟩ : InventoryRow),
      row.scannedAt ≤ scanned ∧ row.name = item.name := by
    intro row hrow
    obtain rfl := Option.some.inj hrow
    exact ⟨le_rfl, rfl⟩
  refine upserts_reach (Q := fun found => ∀ row ∈ found, row.scannedAt ≤ scanned ∧
    row.name = item.name) (R := fun found => found = some ⟨item, scanned⟩)
    h ?_ hitem hkey hmerged ?_
  · intro item' hitem' hkey' found hfound
    obtain rfl := honly item' hitem' hkey'
    rw [hmerged found hfound]
    exact hafter
  · rintro item' hitem' hkey' _ rfl
    obtain rfl := honly item' hitem' hkey'
    exact hmerged _ hafter

theorem dropOlder_some : dropOlder scanned table key = some row ↔
    table key = some row ∧ scanned ≤ row.scannedAt := by
  rw [dropOlder, Option.filter_eq_some_iff]
  simp

end Rows

section Newest
variable {column : DatetimeColumn} {written : List Snapshot} {new old : Snapshot}

theorem newestScan_newer
    (h : ∀ old ∈ newestScan column written, column.store old.scanned ≤ column.store new.scanned) :
    newestScan column (new :: written) = some new := by
  rw [newestScan]
  cases hold : newestScan column written with
  | none => rfl
  | some old => exact if_pos (h old hold)

theorem newestScan_older (hold : newestScan column written = some old)
    (h : column.store new.scanned < column.store old.scanned) :
    newestScan column (new :: written) = some old := by
  rw [newestScan, hold]
  exact if_neg (not_le.mpr h)

theorem newestScan_none (h : newestScan column written = none) : written = [] := by
  cases written with
  | nil => rfl
  | cons last written =>
    rw [newestScan] at h
    split at h
    · cases h
    · split at h <;> cases h

/-- The newest scan is one that was written, and none is newer. -/
theorem newestScan_greatest (h : newestScan column written = some new) :
    new ∈ written ∧ ∀ old ∈ written, column.store old.scanned ≤ column.store new.scanned := by
  induction written generalizing new with
  | nil => cases h
  | cons last written ih =>
    rw [newestScan] at h
    split at h
    · rename_i hnone
      obtain rfl := Option.some.inj h
      refine ⟨List.mem_cons_self, fun old hmem => ?_⟩
      rw [newestScan_none hnone] at hmem
      rw [List.mem_singleton.mp hmem]
    · rename_i newest hnewest
      obtain ⟨hmem, hle⟩ := ih hnewest
      split at h
      · rename_i hlast
        obtain rfl := Option.some.inj h
        exact ⟨List.mem_cons_self, List.forall_mem_cons.mpr
          ⟨le_rfl, fun old hold => (hle old hold).trans hlast⟩⟩
      · rename_i hlast
        obtain rfl := Option.some.inj h
        exact ⟨List.mem_cons_of_mem _ hmem, List.forall_mem_cons.mpr ⟨(not_le.mp hlast).le, hle⟩⟩

/-- A time of a later second of the column is after the one that was stored. -/
theorem DatetimeColumn.lt_of_store_lt {t t' : ℤ} (h : column.store t < column.store t') :
    t < column.store t' := by
  obtain ⟨n, hn⟩ := column.whole t
  obtain ⟨n', hn'⟩ := column.whole t'
  have hnear := (column.near t).2
  omega

theorem DatetimeColumn.store_lt_of_lt {t t' : ℤ} (h : column.store t < column.store t') :
    column.store t < t' := by
  obtain ⟨n, hn⟩ := column.whole t
  obtain ⟨n', hn'⟩ := column.whole t'
  have hnear := (column.near t').1
  omega

end Newest

namespace InventoryHost
variable {S : Type} {fold : String → String} {column : DatetimeColumn} {s t : InventoryHost}
  {new old : Snapshot} {act : InventoryAct S} {key : String} {row : InventoryRow}

/-- Each row is under its name's key. -/
def Keyed (fold : String → String) (s : InventoryHost) : Prop :=
  ∀ key row, s.table key = some row → fold row.name = key

/-- The rows are those of the newest scan, with its time. -/
def Holds (fold : String → String) (column : DatetimeColumn) (s : InventoryHost) : Prop :=
  ∀ key row, s.table key = some row ↔ ∃ newest ∈ newestScan column s.written,
    ∃ item ∈ newest.items, fold item.name = key ∧ row = ⟨item, column.store newest.scanned⟩

/-- The rows as the upserts leave them. -/
def upserted (fold : String → String) (column : DatetimeColumn) (s : InventoryHost)
    (new : Snapshot) : InventoryTable :=
  (new.items.insertionSort fun a b => a.name ≤ b.name).foldl
    (upsertInventory fold (column.store new.scanned)) s.table

theorem mem_sorted {item : InventoryItem} :
    item ∈ new.items.insertionSort (fun a b => a.name ≤ b.name) ↔ item ∈ new.items :=
  List.mem_insertionSort _

theorem write_some : (s.write fold column new).table key = some row ↔
    s.upserted fold column new key = some row ∧ new.scanned ≤ row.scannedAt :=
  dropOlder_some

theorem upserted_name (column : DatetimeColumn) (new : Snapshot) (hrow : s.table key = some row) :
    ∃ row', s.upserted fold column new key = some row' ∧ row'.name = row.name ∧
      (row.scannedAt = column.store new.scanned → row'.scannedAt = column.store new.scanned) :=
  upserts_name hrow

theorem Keyed.write (h : s.Keyed fold) : (s.write fold column new).Keyed fold := by
  intro key row hrow
  have hkeyed : ∀ row ∈ s.upserted fold column new key, fold row.name = key := by
    refine upserts_keep (Q := fun found => ∀ row ∈ found, fold row.name = key)
      (fun row hrow => h key row hrow) ?_
    intro item _ hkey found hfound row hrow
    obtain rfl := Option.some.inj hrow
    cases found with
    | none => exact hkey
    | some old => exact hfound old rfl
  exact hkeyed row (write_some.mp hrow).1

theorem Holds.current (h : s.Holds fold column) : s.Current column := by
  intro name state
  constructor
  · rintro ⟨key, row, hrow, rfl, rfl⟩
    obtain ⟨newest, hnewest, item, hitem, -, rfl⟩ := (h key row).mp hrow
    exact ⟨newest, hnewest, item, hitem, rfl, rfl⟩
  · rintro ⟨newest, hnewest, item, hitem, rfl, rfl⟩
    exact ⟨_, _, (h _ _).mpr ⟨newest, hnewest, item, hitem, rfl, rfl⟩, rfl, rfl⟩

section Newer
variable (hnew : ∀ old ∈ newestScan column s.written,
  column.store old.scanned ≤ column.store new.scanned)
include hnew

theorem Holds.le (h : s.Holds fold column) :
    ∀ row ∈ s.table key, row.scannedAt ≤ column.store new.scanned := by
  intro row hrow
  obtain ⟨newest, hnewest, item, -, -, rfl⟩ := (h key row).mp hrow
  exact hnew newest hnewest

/-- A newer snapshot that fits replaces the rows. -/
theorem Holds.write_newer (h : s.Holds fold column)
    (hfits : new.Fits fold column (newestScan column s.written)) :
    (s.write fold column new).Holds fold column := by
  intro key row
  rw [write_some]
  have hwritten : newestScan column (s.write fold column new).written = some new :=
    newestScan_newer hnew
  rw [hwritten]
  by_cases hitem : ∃ item ∈ new.items, fold item.name = key
  · obtain ⟨item, hitem, hkey⟩ := hitem
    have honly : ∀ item' ∈ new.items, fold item'.name = key → item' = item := by
      intro item' hitem' hkey'
      exact List.inj_on_of_nodup_map new.inventory.2 hitem' hitem
        (hfits.distinct hnew item' hitem' item hitem (hkey'.trans hkey.symm))
    have hfound : s.upserted fold column new key = some ⟨item, column.store new.scanned⟩ := by
      refine upserts_only (fun row hrow => ⟨h.le hnew row hrow, ?_⟩) (mem_sorted.mpr hitem) hkey
        fun item' hitem' => honly item' (mem_sorted.mp hitem')
      obtain ⟨newest, hnewest, item', hitem', hkey', rfl⟩ := (h key row).mp hrow
      exact hfits.spelled newest hnewest (hnew newest hnewest) item' hitem' item hitem
        (hkey'.trans hkey.symm)
    rw [hfound]
    constructor
    · rintro ⟨hrow, -⟩
      exact ⟨new, rfl, item, hitem, hkey, (Option.some.inj hrow).symm⟩
    · rintro ⟨_, ⟨⟩, item', hitem', hkey', rfl⟩
      obtain rfl := honly item' hitem' hkey'
      exact ⟨rfl, hfits.kept hnew⟩
  · push Not at hitem
    constructor
    · rintro ⟨hrow, hkept⟩
      rw [upserted, upserts_other fun item hmem => hitem item (mem_sorted.mp hmem)] at hrow
      obtain ⟨newest, hnewest, item', hitem', hkey', rfl⟩ := (h key row).mp hrow
      rcases (hnew newest hnewest).eq_or_lt with heq | hlt
      · obtain ⟨item, hmem, hname⟩ := hfits.covers newest hnewest heq item' hitem'
        exact absurd (hname ▸ hkey') (hitem item hmem)
      · exact absurd hkept (not_le.mpr (column.store_lt_of_lt hlt))
    · rintro ⟨_, ⟨⟩, item, hmem, hkey, -⟩
      exact absurd hkey (hitem item hmem)

/-- A newer snapshot after which the services are its own ones fits. -/
theorem Holds.fits_newer (h : s.Holds fold column) (hkeyed : s.Keyed fold)
    (hcurrent : (s.write fold column new).Current column) :
    new.Fits fold column (newestScan column s.written) := by
  have hkeyed' : (s.write fold column new).Keyed fold := hkeyed.write
  have hwritten : newestScan column (s.write fold column new).written = some new :=
    newestScan_newer hnew
  have hshown : ∀ item ∈ new.items, ∃ row,
      (s.write fold column new).table (fold item.name) = some row ∧ row.name = item.name := by
    intro item hitem
    obtain ⟨key, row, hrow, hname, -⟩ :=
      (hcurrent item.name item.state).mpr ⟨new, hwritten, item, hitem, rfl, rfl⟩
    have hkey := hkeyed' key row hrow
    rw [hname] at hkey
    exact ⟨row, hkey ▸ hrow, hname⟩
  have hkept : new.scanned ≤ column.store new.scanned := by
    obtain ⟨item, hitem⟩ := List.exists_mem_of_ne_nil new.items new.nonempty
    obtain ⟨row, hrow, -⟩ := hshown item hitem
    obtain ⟨hrow, hle⟩ := write_some.mp hrow
    exact hle.trans (upserts_le (h.le hnew) row hrow)
  refine ⟨fun old hold hlt => absurd (hnew old hold) (not_le.mpr hlt), fun _ => hkept,
    fun _ item hitem item' hitem' hkey => ?_, fun old hold _ item' hitem' item hitem hkey => ?_,
    fun old hold heq item' hitem' => ?_⟩
  · obtain ⟨row, hrow, hname⟩ := hshown item hitem
    obtain ⟨row', hrow', hname'⟩ := hshown item' hitem'
    rw [hkey, hrow'] at hrow
    rw [← hname, ← hname', Option.some.inj hrow]
  · obtain ⟨row, hrow, hname⟩ := hshown item hitem
    have hstored := (h _ _).mpr ⟨old, hold, item', hitem', hkey, rfl⟩
    obtain ⟨row', hrow', hname', -⟩ := upserted_name column new hstored
    rw [(write_some.mp hrow).1] at hrow'
    obtain rfl := Option.some.inj hrow'
    exact hname'.symm.trans hname
  · have hstored := (h _ _).mpr ⟨old, hold, item', hitem', rfl, rfl⟩
    obtain ⟨row, hrow, hname, hscanned⟩ := upserted_name column new hstored
    have hleft := write_some.mpr ⟨hrow, hkept.trans (hscanned heq).ge⟩
    obtain ⟨newest, hnewest, item, hitem, hitemname, -⟩ :=
      (hcurrent row.name row.state).mp ⟨_, row, hleft, rfl, rfl⟩
    obtain rfl := Option.some.inj (hwritten.symm.trans hnewest)
    exact ⟨item, hitem, hitemname.trans hname⟩

end Newer

section Older
variable (hold : newestScan column s.written = some old)
  (holder : column.store new.scanned < column.store old.scanned)
include hold holder

/-- An older snapshot that fits leaves the rows as they are. -/
theorem Holds.write_older (h : s.Holds fold column)
    (hfits : new.Fits fold column (newestScan column s.written)) :
    (s.write fold column new).Holds fold column := by
  have htable : (s.write fold column new).table = s.table := by
    funext key
    refine Option.ext fun row => ?_
    rw [write_some]
    cases hfound : s.table key with
    | some stored =>
      obtain ⟨newest, hnewest, item, -, -, rfl⟩ := (h key stored).mp hfound
      obtain rfl := Option.some.inj (hold.symm.trans hnewest)
      rw [upserted, upserts_older hfound holder]
      refine ⟨And.left, fun hrow => ⟨hrow, ?_⟩⟩
      obtain rfl := Option.some.inj hrow
      exact (column.lt_of_store_lt holder).le
    | none =>
      have hno : ∀ item ∈ old.items, fold item.name ≠ key := by
        intro item hitem hkey
        have hstored := (h key _).mpr ⟨old, hold, item, hitem, hkey, rfl⟩
        rw [hfound] at hstored
        cases hstored
      refine ⟨?_, nofun⟩
      rintro ⟨hrow, hkept⟩
      rcases hfits.older old hold holder with hdropped | hnames
      · have hle : row.scannedAt ≤ column.store new.scanned :=
          upserts_le (by rw [hfound]; nofun) row hrow
        exact absurd (hkept.trans hle) (not_le.mpr hdropped)
      · rw [upserted, upserts_other, hfound] at hrow
        · exact hrow
        · intro item hitem hkey
          obtain ⟨item', hitem', hkey'⟩ := hnames item (mem_sorted.mp hitem)
          exact hno item' hitem' (hkey'.trans hkey)
  intro key row
  have hwritten : newestScan column (s.write fold column new).written = some old :=
    newestScan_older hold holder
  rw [htable, hwritten, ← hold]
  exact h key row

/-- An older snapshot after which the services are those of the newest fits. -/
theorem Holds.fits_older (h : s.Holds fold column) (hkeyed : s.Keyed fold)
    (hcurrent : (s.write fold column new).Current column) :
    new.Fits fold column (newestScan column s.written) := by
  have hnot {p : Prop} : (∀ old ∈ newestScan column s.written,
      column.store old.scanned ≤ column.store new.scanned) → p :=
    fun hnew => absurd (hnew old hold) (not_le.mpr holder)
  have hfirst : ∀ old' ∈ newestScan column s.written, old' = old := fun old' hold' =>
    Option.some.inj (hold'.symm.trans hold)
  refine ⟨fun old' hold' _ => ?_, hnot, hnot, fun old' hold' hle => ?_, fun old' hold' heq => ?_⟩
  · obtain rfl := hfirst old' hold'
    refine or_iff_not_imp_left.mpr fun hkept item hitem => ?_
    cases hfound : s.table (fold item.name) with
    | some stored =>
      obtain ⟨newest, hnewest, item', hitem', hkey, -⟩ := (h _ stored).mp hfound
      obtain rfl := hfirst newest hnewest
      exact ⟨item', hitem', hkey⟩
    | none =>
      obtain ⟨row, hrow, hscanned⟩ : ∃ row, s.upserted fold column new (fold item.name) = some row ∧
          row.scannedAt = column.store new.scanned :=
        upserts_scanned (by rw [hfound]; nofun) (mem_sorted.mpr hitem) rfl
      have hleft := write_some.mpr ⟨hrow, (not_lt.mp hkept).trans hscanned.ge⟩
      obtain ⟨newest, hnewest, item', hitem', hname, -⟩ :=
        (hcurrent row.name row.state).mp ⟨_, row, hleft, rfl, rfl⟩
      have hwritten : newestScan column (s.write fold column new).written = some old' :=
        newestScan_older hold holder
      obtain rfl := Option.some.inj (hwritten.symm.trans hnewest)
      refine ⟨item', hitem', ?_⟩
      rw [hname]
      exact hkeyed.write _ _ hleft
  · obtain rfl := hfirst old' hold'
    exact absurd hle (not_le.mpr holder)
  · obtain rfl := hfirst old' hold'
    exact absurd heq holder.ne'

end Older

theorem Keyed.step (h : s.Keyed fold) (hstep : s.step fold column act = some t) : t.Keyed fold := by
  cases act <;> simp only [InventoryHost.step] at hstep
  case ingest =>
    split at hstep
    · obtain rfl := Option.some.inj hstep
      exact h.write
    · obtain rfl := Option.some.inj hstep
      exact h
  all_goals
    obtain rfl := Option.some.inj hstep
    exact h

theorem Holds.step (h : s.Holds fold column) (hfits : s.Fits fold column act)
    (hstep : s.step fold column act = some t) : t.Holds fold column := by
  cases act <;> simp only [InventoryHost.step] at hstep
  case ingest report now claimed later =>
    split at hstep
    · rename_i new hnew
      obtain rfl := Option.some.inj hstep
      by_cases hnewer : ∀ old ∈ newestScan column s.written,
          column.store old.scanned ≤ column.store new.scanned
      · exact h.write_newer hnewer (hfits new hnew)
      · push Not at hnewer
        obtain ⟨old, hold, holder⟩ := hnewer
        exact h.write_older hold holder (hfits new hnew)
    · obtain rfl := Option.some.inj hstep
      exact h
  all_goals
    obtain rfl := Option.some.inj hstep
    exact h

theorem Holds.fits (h : s.Holds fold column) (hkeyed : s.Keyed fold)
    (hstep : s.step fold column act = some t) (hcurrent : t.Current column) :
    s.Fits fold column act := by
  cases act with
  | ingest report now claimed later =>
    intro new hnew
    rw [InventoryHost.step, Option.mem_def.mp hnew] at hstep
    obtain rfl := Option.some.inj hstep
    by_cases hnewer : ∀ old ∈ newestScan column s.written,
        column.store old.scanned ≤ column.store new.scanned
    · exact h.fits_newer hnewer hkeyed hcurrent
    · push Not at hnewer
      obtain ⟨old, hold, holder⟩ := hnewer
      exact h.fits_older hold holder hkeyed hcurrent
  | _ => trivial

/-- The inventory is that of the newest scan after every report, in just the runs in which every
snapshot that is written fits. -/
theorem inventory_newest_iff (fold : String → String) (column : DatetimeColumn) (agent : AgentRow)
    (tr : List (InventoryAct S)) (s : InventoryHost) :
    Steps (Keeping (Takes (step fold column)) (Current column)) (fresh agent) tr s ↔
      Steps (Guarded (Takes (step fold column)) (InventoryHost.Fits fold column))
        (fresh agent) tr s := by
  refine Steps.keeping_iff_of_stronger (I := Keyed fold) (P := Holds fold column) nofun ?_
    (fun _ h => h.current) (fun _ _ _ h hstep => h.step hstep)
    (fun _ _ _ _ h hfits hstep => h.step hfits hstep)
    fun _ _ _ hkeyed h hstep hcurrent => h.fits hkeyed hstep hcurrent
  refine fun key row => ⟨nofun, ?_⟩
  rintro ⟨_, ⟨⟩, -⟩

/-- The snapshot of an hour ago comes after the one of now: the service it alone has is stored. -/
theorem late_snapshot_adds_service :
    ∃ tr s, Steps (Takes (step (S := ℕ) Text.lower mysqlColumn)) (fresh freshAgent) tr s ∧
      ((newestScan mysqlColumn s.written).map fun newest => newest.items.map InventoryItem.name) =
        some ["nginx"] ∧
      (s.table "telnetd").map InventoryRow.scannedAt = some 1700000000000000 ∧
      ¬ s.Current mysqlColumn := by
  let item (name : String) : RawItem := ⟨some name, some "running", some "enabled", none⟩
  obtain ⟨s, run, -, hp⟩ := exists_play (step (S := ℕ) Text.lower mysqlColumn) (fresh freshAgent)
    [.ingest ⟨⟨2, "0.2.2", []⟩, 1700003600, [item "nginx"]⟩ 1700003601000000 1700003601 1700003601,
      .ingest ⟨⟨1, "0.2.2", []⟩, 1700000000, [item "nginx", item "telnetd"]⟩
        1700003602000000 1700003602 1700003602]
    (fun s => ((newestScan mysqlColumn s.written).map fun newest =>
        newest.items.map InventoryItem.name) = some ["nginx"] ∧
      (s.table "telnetd").map (fun row => (row.name, row.scannedAt)) =
        some ("telnetd", 1700000000000000)) (by decide +kernel)
  obtain ⟨hnames, htable⟩ := of_decide_eq_true hp
  obtain ⟨newest, hnewest, hitems⟩ := Option.map_eq_some_iff.mp hnames
  obtain ⟨row, hrow, hname⟩ := Option.map_eq_some_iff.mp htable
  refine ⟨_, s, run, hnames, ?_, fun hcurrent => ?_⟩
  · rw [hrow, Option.map_some, (Prod.mk.inj hname).2]
  · obtain ⟨newest', hnewest', item, hitem, heq, -⟩ :=
      (hcurrent row.name row.state).mp ⟨_, row, hrow, rfl, rfl⟩
    obtain rfl := Option.some.inj (hnewest.symm.trans hnewest')
    have hmem := List.mem_map_of_mem (f := InventoryItem.name) hitem
    rw [hitems, heq, (Prod.mk.inj hname).1] at hmem
    exact absurd hmem (by decide)

end InventoryHost

end MonitoringHub.Ingest
