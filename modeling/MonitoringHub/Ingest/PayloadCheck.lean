import Mathlib.Algebra.Order.Ring.Rat
import Mathlib.Data.List.Dedup
import Mathlib.Data.Option.Basic
import Mathlib.Tactic.Linarith
import MonitoringHub.Ingest.Inventory
import MonitoringHub.Ingest.LastValue
import MonitoringHub.Ingest.StoredNames

/-! The check of an ingest body. Whatever JSON it is given, it refuses the body as a whole or
sorts every metric and service into those it keeps and those it counts as rejected; what it keeps
fits the columns it is written to. -/

namespace MonitoringHub.Ingest.Wire

/-- A decoded body. A float is `none` where it is not finite; an object keeps its fields in the
order of the text. -/
inductive Body
  | null
  | bool (b : Bool)
  | int (n : ℤ)
  | float (q : Option ℚ)
  | str (s : String)
  | arr (elems : List Body)
  | obj (fields : List (String × Body))

namespace Body

/-- `.get`: the last of equal keys counts; what is not an object has no key. -/
def field (key : String) : Body → Body
  | obj fields => ((fields.reverse.find? fun f => f.1 = key).map Prod.snd).getD null
  | _ => null

def isObj : Body → Bool
  | obj _ => true
  | _ => false

def asStr : Body → Option String
  | str s => some s
  | _ => none

/-- `_is_int`: a `bool` is not one. -/
def asInt : Body → Option ℤ
  | int n => some n
  | _ => none

def asArr : Body → Option (List Body)
  | arr elems => some elems
  | _ => none

end Body

/-- `PayloadError`, with its status and message, and the `OverflowError` of an integer that no
float can hold. -/
inductive Refusal
  | payload (status : ℕ) (message : String)
  | overflow
  deriving DecidableEq

/-- `float(n)` rounds to infinity. -/
def tooLarge (n : ℤ) : Bool := (1 <<< 1024 - 1 <<< 970 : ℕ) ≤ n.natAbs

/-- `_is_number(v) and math.isfinite(v)`, with the number. -/
def finiteNumber : Body → Except Refusal (Option ℚ)
  | .int n => if tooLarge n then .error .overflow else .ok (some n)
  | .float q => .ok q
  | _ => .ok none

/-- The keys of `METRICS`. -/
def contractKey : Contract → String
  | .cpuPercent => "cpu_percent"
  | .load1 => "load1"
  | .load5 => "load5"
  | .load15 => "load15"
  | .memUsedPercent => "mem_used_percent"
  | .memAvailableBytes => "mem_available_bytes"
  | .swapUsedPercent => "swap_used_percent"
  | .diskUsedPercent => "disk_used_percent"
  | .diskInodesUsedPercent => "disk_inodes_used_percent"
  | .diskReadBytesPerS => "disk_read_bytes_per_s"
  | .diskWriteBytesPerS => "disk_write_bytes_per_s"
  | .netRxBytesPerS => "net_rx_bytes_per_s"
  | .netTxBytesPerS => "net_tx_bytes_per_s"
  | .procCount => "proc_count"
  | .uptimeSeconds => "uptime_seconds"

/-- `METRICS.get(name)` -/
def contractOf (name : String) : Option Contract := Contract.all.find? fun c => contractKey c = name

/-- The kind `percent`; every other metric is `nonneg`. -/
def isPercent : Contract → Bool
  | .cpuPercent | .memUsedPercent | .swapUsedPercent | .diskUsedPercent
  | .diskInodesUsedPercent => true
  | _ => false

def allows (c : Contract) (value : ℚ) : Bool :=
  decide (0 ≤ value) && (!isPercent c || decide (value ≤ 100))

def labelKey : LabelKey → String
  | .mount => "mount"
  | .iface => "iface"

/-- An entry of `samples`; its name is `storedName`. -/
structure Sample where
  contract : Contract
  label : Option String
  value : ℚ
  ts : ℤ
  labelled : acceptsLabel contract label = true
  inRange : allows contract value = true
  deriving DecidableEq

def Sample.storedName (r : Sample) : String := Ingest.storedName r.contract r.label

/-- `MAX_SERIES_PER_METRIC` -/
def maxSeriesPerMetric : ℕ := 32
/-- `MAX_SERVICES` -/
def maxServices : ℕ := 200
/-- `MAX_SERVICE_NAME_LEN` -/
def maxServiceNameLen : ℕ := 100

/-- The label value of a metric, where its contract has a label. -/
def labelOf (c : Contract) (m : Body) : Option String :=
  c.labelKey.bind fun key => ((m.field "labels").field (labelKey key)).asStr

/-- One metric up to the limit of series; `none` where it is rejected. -/
def readMetric (now : ℚ) (m : Body) : Except Refusal (Option Sample) :=
  match (m.field "name").asStr.bind contractOf with
  | none => .ok none
  | some c =>
    match finiteNumber (m.field "value") with
    | .error e => .error e
    | .ok none => .ok none
    | .ok (some value) =>
      if hrange : allows c value = true then
        match finiteNumber (m.field "ts") with
        | .error e => .error e
        | .ok none => .ok none
        | .ok (some ts) =>
          if now - maxAgeSeconds ≤ ts ∧ ts ≤ now + futureSkewSeconds then
            if hlabel : acceptsLabel c (labelOf c m) = true then
              .ok (some ⟨c, labelOf c m, value, ts.num.tdiv ts.den, hlabel, hrange⟩)
            else .ok none
          else .ok none
      else .ok none

/-- What the loop has kept: the samples, the count of rejected entries and `series_seen`. -/
structure Sorted where
  samples : List Sample
  rejected : ℕ
  seen : List (Contract × String)

namespace Sorted

def empty : Sorted := ⟨[], 0, []⟩

def reject (s : Sorted) : Sorted := { s with rejected := s.rejected + 1 }

def seenOf (s : Sorted) (c : Contract) : List (Contract × String) := s.seen.filter fun e => e.1 = c

/-- The end of a round: the limit of series. -/
def add (s : Sorted) (r : Sample) : Sorted :=
  match r.label with
  | none => { s with samples := s.samples ++ [r] }
  | some label =>
    if (r.contract, label) ∈ s.seen then { s with samples := s.samples ++ [r] }
    else if maxSeriesPerMetric ≤ (s.seenOf r.contract).length then s.reject
    else { s with samples := s.samples ++ [r], seen := (r.contract, label) :: s.seen }

def round (now : ℚ) (s : Sorted) (m : Body) : Except Refusal Sorted := do
  match ← readMetric now m with
  | none => return s.reject
  | some r => return s.add r

end Sorted

/-- The loop over `metrics`. -/
def sortMetrics (now : ℚ) : Sorted → List Body → Except Refusal Sorted
  | s, [] => .ok s
  | s, m :: rest => do
    let s ← s.round now m
    sortMetrics now s rest

/-- An entry of `services` that is kept. -/
def readService (entry : Body) : Option (String × ServiceState) := do
  let name ← (entry.field "name").asStr
  guard (name ≠ "" ∧ name.length ≤ maxServiceNameLen)
  let state ← (entry.field "state").asStr.bind serviceState
  some (name, state)

def rawItem (entry : Body) : RawItem :=
  ⟨(entry.field "name").asStr, (entry.field "state").asStr, (entry.field "startup").asStr,
    (entry.field "description").asStr⟩

structure CheckedPayload where
  agentVersion : String
  configVersion : ℤ
  seq : ℤ
  sentAt : ℤ
  hostname : String
  instanceId : Option String
  os : Option String
  arch : Option String
  samples : List Sample
  services : List (String × ServiceState)
  inventory : Inventory

/-- A value that may be null, and else is a string of these lengths. -/
def nullOrText (least most : ℕ) : Body → Bool
  | .null => true
  | .str s => least ≤ s.length && s.length ≤ most
  | _ => false

def someText (most : ℕ) (v : Body) : Bool := v.asStr.any fun s => s ≠ "" && s.length ≤ most

/-- The checks of the body as a whole, in the order of the source, with what a failed one says. -/
def checks (body : Body) (maxBatchMetrics : ℕ) : List (Bool × ℕ × String) :=
  let host := body.field "host"
  [(body.isObj, 400, "body must be a JSON object"),
    ((body.field "schema").asInt = some 1, 400, "unsupported schema (expected 1)"),
    ((body.field "seq").asInt.any (0 ≤ ·), 400, "seq must be a non-negative integer"),
    ((body.field "config_version").asInt.any (0 ≤ ·), 400,
      "config_version must be a non-negative integer"),
    ((body.field "sent_at").asInt.any (0 < ·), 400, "sent_at must be epoch seconds"),
    (someText 40 (body.field "agent_version"), 400,
      "agent_version must be a string of 1-40 characters"),
    (host.isObj, 400, "host must be an object"),
    (someText 255 (host.field "hostname"), 400,
      "host.hostname must be a string of 1-255 characters"),
    (nullOrText 1 64 (host.field "instance_id"), 400,
      "host.instance_id must be null or a string of 1-64 characters"),
    (nullOrText 0 40 (host.field "os"), 400, "host.os must be a string of at most 40 characters"),
    (nullOrText 0 40 (host.field "arch"), 400,
      "host.arch must be a string of at most 40 characters"),
    ((body.field "metrics").asArr.isSome && (body.field "services").asArr.isSome, 400,
      "metrics and services must be arrays"),
    ((body.field "metrics").asArr.any (·.length ≤ maxBatchMetrics), 413,
      "too many metrics (max " ++ toString maxBatchMetrics ++ ")"),
    ((body.field "services").asArr.any (·.length ≤ maxServices), 413,
      "too many services (max " ++ toString maxServices ++ ")")]

def metricsOf (body : Body) : List Body := (body.field "metrics").asArr.getD []

def servicesOf (body : Body) : List Body := (body.field "services").asArr.getD []

def inventoryOf (body : Body) : Inventory :=
  cleanInventory (((body.field "service_inventory").asArr.getD []).map rawItem)

/-- `validate_payload`: what is kept of a body, and the number of its rejected entries. -/
def validatePayload (body : Body) (maxBatchMetrics : ℕ) (now : ℚ) :
    Except Refusal (CheckedPayload × ℕ) :=
  match (checks body maxBatchMetrics).find? fun check => !check.1 with
  | some (_, status, message) => .error (.payload status message)
  | none => do
    let sorted ← sortMetrics now .empty (metricsOf body)
    let services := (servicesOf body).filterMap readService
    let host := body.field "host"
    return ({
      agentVersion := (body.field "agent_version").asStr.getD ""
      configVersion := (body.field "config_version").asInt.getD 0
      seq := (body.field "seq").asInt.getD 0
      sentAt := (body.field "sent_at").asInt.getD 0
      hostname := (host.field "hostname").asStr.getD ""
      instanceId := (host.field "instance_id").asStr
      os := (host.field "os").asStr
      arch := (host.field "arch").asStr
      samples := sorted.samples
      services := services
      inventory := inventoryOf body },
      sorted.rejected + ((servicesOf body).length - services.length))

/-- `int(q)` -/
theorem truncated_near (q : ℚ) :
    q - 1 < ((q.num.tdiv q.den : ℤ) : ℚ) ∧ ((q.num.tdiv q.den : ℤ) : ℚ) < q + 1 := by
  have hden : (0 : ℚ) < q.den := by exact_mod_cast q.den_pos
  have hdiv : (q.den : ℤ) * q.num.tdiv q.den + q.num.tmod q.den = q.num :=
    Int.mul_tdiv_add_tmod _ _
  have hmod : q.num.tmod q.den < q.den ∧ -(q.den : ℤ) < q.num.tmod q.den := by
    have hpos : (0 : ℤ) < q.den := by exact_mod_cast q.den_pos
    exact ⟨Int.tmod_lt_of_pos _ hpos, Int.lt_tmod_of_pos _ hpos⟩
  have hq : q * q.den = q.den * (q.num.tdiv q.den : ℤ) + (q.num.tmod q.den : ℤ) := by
    rw [Rat.mul_den_eq_num]
    exact_mod_cast hdiv.symm
  have hlow : -(q.den : ℚ) < (q.num.tmod q.den : ℤ) := by exact_mod_cast hmod.2
  have hhigh : ((q.num.tmod q.den : ℤ) : ℚ) < q.den := by exact_mod_cast hmod.1
  constructor
  · nlinarith
  · nlinarith

theorem slugify_length (value : String) : (slugify value).length ≤ maxSlugLen := by
  rw [slugify, String.length_ofList, List.length_take]
  exact min_le_left _ _

theorem base_length (c : Contract) : c.base.length ≤ 29 := by cases c <;> decide

/-- A stored name fits `metrics.metric_name`. -/
theorem storedName_length (c : Contract) (label : Option String) :
    (storedName c label).length ≤ 100 := by
  have hbase := base_length c
  have hslug := slugify_length (label.getD "")
  have hstem : (c.stem ++ slugify (label.getD "")).length ≤ 100 := by
    rw [String.length_append, Contract.stem, String.length_append]
    exact (Nat.add_le_add (Nat.add_le_add_right hbase _) hslug).trans (by decide)
  unfold storedName
  split
  · exact hbase.trans (by decide)
  · split
    · exact hbase.trans (by decide)
    · exact hstem
  · exact hstem

/-- The time of a sample, which has lost its fraction of a second. -/
def Sample.InWindow (now : ℚ) (r : Sample) : Prop :=
  now - maxAgeSeconds - 1 < r.ts ∧ (r.ts : ℚ) < now + futureSkewSeconds + 1

theorem readMetric_inWindow {now : ℚ} {m : Body} {r : Sample}
    (h : readMetric now m = .ok (some r)) : r.InWindow now := by
  unfold readMetric at h
  split at h
  · cases h
  · split at h
    · cases h
    · cases h
    · split at h
      · split at h
        · cases h
        · cases h
        · rename_i ts _
          split at h
          · rename_i hwindow
            split at h
            · obtain rfl := Option.some.inj (Except.ok.inj h)
              obtain ⟨hlow, hhigh⟩ := truncated_near ts
              exact ⟨by linarith [hwindow.1], by linarith [hwindow.2]⟩
            · cases h
          · cases h
      · cases h

/-- The loop's own bookkeeping: what `series_seen` holds, and how much. -/
structure Sorted.Ok (now : ℚ) (s : Sorted) : Prop where
  seen : ∀ r ∈ s.samples, ∀ label, r.label = some label → (r.contract, label) ∈ s.seen
  few : ∀ c, (s.seenOf c).length ≤ maxSeriesPerMetric
  inWindow : ∀ r ∈ s.samples, r.InWindow now

theorem Sorted.ok_empty (now : ℚ) : Sorted.empty.Ok now :=
  ⟨fun _ hr => (List.not_mem_nil hr).elim, fun _ => Nat.zero_le _,
    fun _ hr => (List.not_mem_nil hr).elim⟩

theorem Sorted.Ok.add {now : ℚ} {s : Sorted} (h : s.Ok now) {r : Sample} (hr : r.InWindow now) :
    (s.add r).Ok now := by
  have hwindow : ∀ r' ∈ s.samples ++ [r], r'.InWindow now := by
    intro r' hr'
    rcases List.mem_append.mp hr' with hr' | hr'
    · exact h.inWindow r' hr'
    · exact List.mem_singleton.mp hr' ▸ hr
  unfold Sorted.add
  split
  · rename_i hlabel
    refine ⟨fun r' hr' label hl => ?_, h.few, hwindow⟩
    rcases List.mem_append.mp hr' with hr' | hr'
    · exact h.seen r' hr' label hl
    · rw [List.mem_singleton.mp hr', hlabel] at hl
      cases hl
  · rename_i label hlabel
    have hsame : ∀ r' ∈ [r], ∀ l, r'.label = some l → (r'.contract, l) = (r.contract, label) := by
      intro r' hr' l hl
      rw [List.mem_singleton.mp hr', hlabel] at hl
      rw [List.mem_singleton.mp hr', Option.some.inj hl]
    split
    · rename_i hseen
      refine ⟨fun r' hr' l hl => ?_, h.few, hwindow⟩
      rcases List.mem_append.mp hr' with hr' | hr'
      · exact h.seen r' hr' l hl
      · exact hsame r' hr' l hl ▸ hseen
    · split
      · exact ⟨h.seen, h.few, h.inWindow⟩
      · rename_i hroom
        refine ⟨fun r' hr' l hl => ?_, fun c => ?_, hwindow⟩
        · rcases List.mem_append.mp hr' with hr' | hr'
          · exact List.mem_cons_of_mem _ (h.seen r' hr' l hl)
          · exact hsame r' hr' l hl ▸ List.mem_cons_self
        · by_cases hc : r.contract = c
          · subst hc
            simp only [seenOf, List.filter_cons, decide_true, if_true, List.length_cons]
            exact not_le.mp hroom
          · simp only [seenOf, List.filter_cons, decide_eq_true_eq, hc, if_false]
            exact h.few c

theorem Sorted.add_count (s : Sorted) (r : Sample) :
    (s.add r).samples.length + (s.add r).rejected = s.samples.length + s.rejected + 1 := by
  unfold Sorted.add
  split
  · simp only [List.length_append, List.length_singleton]
    omega
  · split
    · simp only [List.length_append, List.length_singleton]
      omega
    · split
      · rfl
      · simp only [List.length_append, List.length_singleton]
        omega

/-- A round keeps the metric or counts it. -/
theorem Sorted.round_spec {now : ℚ} {s t : Sorted} {m : Body} (h : s.Ok now)
    (hround : s.round now m = .ok t) :
    t.Ok now ∧ t.samples.length + t.rejected = s.samples.length + s.rejected + 1 := by
  unfold Sorted.round at hround
  cases hread : readMetric now m with
  | error e =>
    rw [hread] at hround
    cases hround
  | ok found =>
    rw [hread] at hround
    cases found with
    | none =>
      obtain rfl := Except.ok.inj hround
      exact ⟨⟨h.seen, h.few, h.inWindow⟩, rfl⟩
    | some r =>
      obtain rfl := Except.ok.inj hround
      exact ⟨h.add (readMetric_inWindow hread), s.add_count r⟩

theorem sortMetrics_spec {now : ℚ} {ms : List Body} {s t : Sorted} (h : s.Ok now)
    (hsort : sortMetrics now s ms = .ok t) :
    t.Ok now ∧ t.samples.length + t.rejected = s.samples.length + s.rejected + ms.length := by
  induction ms generalizing s with
  | nil =>
    obtain rfl := Except.ok.inj hsort
    exact ⟨h, rfl⟩
  | cons m ms ih =>
    cases hround : s.round now m with
    | error e =>
      rw [sortMetrics, hround] at hsort
      cases hsort
    | ok u =>
      rw [sortMetrics, hround] at hsort
      obtain ⟨hu, hcount⟩ := Sorted.round_spec h hround
      obtain ⟨ht, hrest⟩ := ih hu hsort
      refine ⟨ht, ?_⟩
      rw [hrest, hcount, List.length_cons]
      omega

/-- What is promised of a body that is taken. -/
structure CheckedPayload.Fits (maxBatchMetrics : ℕ) (now : ℚ) (p : CheckedPayload) : Prop where
  seq : 0 ≤ p.seq
  configVersion : 0 ≤ p.configVersion
  sentAt : 0 < p.sentAt
  agentVersion : p.agentVersion ≠ "" ∧ p.agentVersion.length ≤ 40
  hostname : p.hostname ≠ "" ∧ p.hostname.length ≤ 255
  instanceId : ∀ iid, p.instanceId = some iid → 1 ≤ iid.length ∧ iid.length ≤ 64
  batch : p.samples.length ≤ maxBatchMetrics
  names : ∀ r ∈ p.samples, r.storedName.length ≤ 100
  window : ∀ r ∈ p.samples, r.InWindow now
  series : ∀ c, ((p.samples.filter (·.contract = c)).filterMap Sample.label).dedup.length ≤
    maxSeriesPerMetric
  services : p.services.length ≤ maxServices
  serviceNames : ∀ entry ∈ p.services, entry.1 ≠ "" ∧ entry.1.length ≤ maxServiceNameLen

theorem Sorted.Ok.series {now : ℚ} {s : Sorted} (h : s.Ok now) (c : Contract) :
    ((s.samples.filter (·.contract = c)).filterMap Sample.label).dedup.length ≤
      maxSeriesPerMetric := by
  have hsub : ((s.samples.filter (·.contract = c)).filterMap Sample.label).dedup ⊆
      (s.seenOf c).map Prod.snd := by
    intro label hlabel
    obtain ⟨r, hr, hrl⟩ := List.mem_filterMap.mp (List.mem_dedup.mp hlabel)
    obtain ⟨hr, hc⟩ := List.mem_filter.mp hr
    refine List.mem_map.mpr ⟨(r.contract, label), List.mem_filter.mpr ⟨h.seen r hr label hrl, ?_⟩,
      rfl⟩
    exact hc
  refine ((List.subperm_of_subset (List.nodup_dedup _) hsub).length_le).trans ?_
  rw [List.length_map]
  exact h.few c

theorem readService_name {entry : Body} {found : String × ServiceState}
    (h : readService entry = some found) :
    found.1 ≠ "" ∧ found.1.length ≤ maxServiceNameLen := by
  obtain ⟨name, -, h⟩ := Option.bind_eq_some_iff.mp h
  obtain ⟨_, hname, h⟩ := Option.bind_eq_some_iff.mp h
  obtain ⟨state, -, h⟩ := Option.bind_eq_some_iff.mp h
  obtain rfl := Option.some.inj h
  simpa [Option.guard_eq_some'] using hname

theorem getD_of_any {α : Type} {p : α → Prop} [DecidablePred p] {o : Option α}
    (h : (o.any fun a => p a) = true) (d : α) : p (o.getD d) := by
  cases o with
  | none => cases h
  | some a => exact of_decide_eq_true h

theorem text_of_someText {v : Body} {most : ℕ} (h : someText most v = true) :
    v.asStr.getD "" ≠ "" ∧ (v.asStr.getD "").length ≤ most := by
  unfold someText at h
  cases hv : v.asStr with
  | none =>
    rw [hv] at h
    cases h
  | some s => simpa [hv] using h

theorem text_of_nullOrText {v : Body} {least most : ℕ} {s : String}
    (h : nullOrText least most v = true) (hs : v.asStr = some s) :
    least ≤ s.length ∧ s.length ≤ most := by
  cases v with
  | str t =>
    obtain rfl : t = s := Option.some.inj hs
    simpa [nullOrText] using h
  | null | bool | int | float | arr | obj => cases hs

theorem counted {kept services rejected metrics entries : ℕ} (hmetrics : kept + rejected = metrics)
    (hle : services ≤ entries) :
    kept + services + (rejected + (entries - services)) = metrics + entries := by
  omega

/-- Whatever JSON it is given: a body that is taken has its fields in their bounds, its samples fit
the columns they are written to and are no more than the limits, and each of its metrics and
services is kept or counted as rejected. -/
theorem validatePayload_fits {body : Body} {maxBatchMetrics : ℕ} {now : ℚ} {p : CheckedPayload}
    {rejected : ℕ} (h : validatePayload body maxBatchMetrics now = .ok (p, rejected)) :
    p.Fits maxBatchMetrics now ∧
      p.samples.length + p.services.length + rejected =
        (metricsOf body).length + (servicesOf body).length := by
  unfold validatePayload at h
  split at h
  · cases h
  · rename_i hchecks
    have hall : ∀ check ∈ checks body maxBatchMetrics, check.1 = true := by
      intro check hcheck
      simpa using List.find?_eq_none.mp hchecks check hcheck
    cases hsort : sortMetrics now .empty (metricsOf body) with
    | error e =>
      rw [hsort] at h
      cases h
    | ok sorted =>
      rw [hsort] at h
      obtain ⟨rfl, rfl⟩ := Prod.mk.inj (Except.ok.inj h)
      obtain ⟨hok, hcount⟩ := sortMetrics_spec (Sorted.ok_empty now) hsort
      simp only [checks, List.mem_cons, List.not_mem_nil, or_false, forall_eq_or_imp, forall_eq]
        at hall
      obtain ⟨-, -, hseq, hversion, hsent, hagent, -, hhost, hiid, -, -, -, hmetrics, hservices⟩ :=
        hall
      have hkept : ((servicesOf body).filterMap readService).length ≤ (servicesOf body).length :=
        List.length_filterMap_le _ _
      have hmost : (metricsOf body).length ≤ maxBatchMetrics := getD_of_any hmetrics []
      have hzero : sorted.samples.length + sorted.rejected = (metricsOf body).length :=
        hcount.trans (Nat.zero_add _)
      refine ⟨⟨getD_of_any hseq 0, getD_of_any hversion 0, getD_of_any hsent 0,
        text_of_someText hagent, text_of_someText hhost, fun iid => text_of_nullOrText hiid,
        (Nat.le_add_right _ _).trans (hzero.le.trans hmost), fun r _ => storedName_length _ _,
        hok.inWindow, hok.series, hkept.trans (getD_of_any hservices []), ?_⟩, ?_⟩
      · intro entry hentry
        obtain ⟨raw, -, hread⟩ := List.mem_filterMap.mp hentry
        exact readService_name hread
      · exact counted hzero hkept

/-- A body with a metric that is kept, one that is not, and a service. -/
def webBody : Body :=
  .obj [("schema", .int 1), ("agent_version", .str "1.2"), ("config_version", .int 1),
    ("seq", .int 7), ("sent_at", .int 1000000),
    ("host", .obj [("hostname", .str "web"), ("instance_id", .null)]),
    ("metrics", .arr [
      .obj [("name", .str "disk_used_percent"), ("value", .float (some (1 / 2))),
        ("ts", .int 1000000), ("labels", .obj [("mount", .str "/")])],
      .obj [("name", .str "load1"), ("value", .float none), ("ts", .int 1000000)]]),
    ("services", .arr [.obj [("name", .str "nginx"), ("state", .str "running")]])]

theorem validatePayload_fits_web : ∃ p rejected,
    validatePayload webBody 500 1000000 = .ok (p, rejected) ∧ p.Fits 500 1000000 ∧
      p.samples.length + p.services.length + rejected = 3 := by
  have hok : (validatePayload webBody 500 1000000).isOk = true := by decide +kernel
  cases h : validatePayload webBody 500 1000000 with
  | error e =>
    rw [h] at hok
    cases hok
  | ok out =>
    obtain ⟨hfits, hcount⟩ := validatePayload_fits h
    exact ⟨out.1, out.2, rfl, hfits, hcount⟩

end MonitoringHub.Ingest.Wire
