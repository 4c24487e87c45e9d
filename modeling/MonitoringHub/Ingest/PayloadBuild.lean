import MonitoringHub.Ingest.ConfigAgreement
import MonitoringHub.Ingest.PayloadCheck

/-! The reports that the agent builds, and the hub's check of them. A pass of the collectors is
cut into batches, the services ride on the first; with a configuration that the hub serves, each
report is taken as it is, and together they bring the pass. -/

namespace MonitoringHub.Ingest.Wire
open Lib

/-- `unicode.IsSpace` -/
def goSpaces : List Char :=
  ['\t', '\n', '\x0b', '\x0c', '\r', ' ', '\x85', '\xa0', '\u1680', '\u2000', '\u2001', '\u2002',
    '\u2003', '\u2004', '\u2005', '\u2006', '\u2007', '\u2008', '\u2009', '\u200a', '\u2028',
    '\u2029', '\u202f', '\u205f', '\u3000']

/-- `strings.TrimSpace` -/
def trimSpace (s : String) : String :=
  String.ofList ((s.toList.dropWhile goSpaces.contains).reverse.dropWhile goSpaces.contains).reverse

def unitChar (c : Char) : Bool := c.isAlphanum || [':', '_', '.', '@', '\\', '-'].contains c

/-- `validUnit` -/
def validUnit (name : String) : Bool :=
  decide (0 < name.length) && decide (name.length ≤ 256) && name.toList.head? != some '-' &&
    name.toList.all unitChar

/-- `mapState` -/
def mapState (word : String) : ServiceState :=
  if word = "active" then .running
  else if word = "inactive" then .stopped
  else if word = "failed" then .failed
  else .unknown

/-- `systemctlStates`, by the output of `systemctl is-active`; `none` where there is none. -/
def systemctlStates (out : Option String) (units : List String) (name : String) : ServiceState :=
  match out with
  | none => .unknown
  | some out =>
    let lines := Text.split '\n' (trimSpace out)
    if lines.length = units.length then
      (((units.zip lines).reverse.find? fun e => e.1 = name).map fun e =>
        mapState (trimSpace e.2)).getD .unknown
    else .unknown

structure Service where
  name : String
  state : ServiceState
  deriving DecidableEq

/-- The names once each, as `seen` lets them through. -/
def once : List String → List String → List String
  | _, [] => []
  | seen, n :: names => if n ∈ seen then once seen names else n :: once (n :: seen) names

/-- `Collector.services` -/
def reportServices (run : List String → Option String) (names : List String) : List Service :=
  let distinct := once [] (names.map trimSpace)
  let valid := distinct.filter validUnit
  valid.map (fun n => ⟨n, systemctlStates (run valid) valid n⟩) ++
    (distinct.filter fun n => !validUnit n).map fun n => ⟨n, .unknown⟩

/-- `payload.Metric` -/
structure Metric where
  name : String
  value : ℚ
  ts : ℤ
  labels : List (String × String)

/-- One collection pass, as far as `build` slices it. -/
structure Pass where
  metrics : List Metric
  services : List Service
  inventory : Option (List InventoryItem)

/-- `payload.Host` -/
structure HostBlock where
  hostname : String
  instanceId : Option String
  os : String
  arch : String
  bootTime : ℤ

/-- What every report of a pass has in common. -/
structure ReportBase where
  agentVersion : String
  configVersion : ℤ
  sentAt : ℤ
  host : HostBlock

structure Report extends ReportBase where
  seq : ℤ
  metrics : List Metric
  services : List Service
  inventory : Option (List InventoryItem)

def batchOf (maxBatchMetrics : ℤ) : ℕ := if maxBatchMetrics ≤ 0 then 500 else maxBatchMetrics.toNat

/-- Round `k` of the loop of `build`: the services and the inventory ride on the first. -/
def slice (base : ReportBase) (batch : ℕ) (pass : Pass) (k : ℕ) : Report :=
  ⟨base, 0, (pass.metrics.drop (k * batch)).take batch, if k = 0 then pass.services else [],
    if k = 0 then pass.inventory else none⟩

/-- `Runner.build`: a round for each multiple of the batch below the number of metrics, and one
where there are none. -/
def build (base : ReportBase) (maxBatchMetrics : ℤ) (pass : Pass) : List Report :=
  (List.range ((pass.metrics.length - 1) / batchOf maxBatchMetrics + 1)).map
    (slice base (batchOf maxBatchMetrics) pass)

/-- The reports of a tick: each takes the next number. -/
def numbered (first : ℤ) (reports : List Report) : List Report :=
  reports.zipIdx.map fun r => { r.1 with seq := first + r.2 }

/-- A number on the wire: Go writes an exponent from `1e21` on, and Python reads it as a float. -/
def encodeNumber (q : ℚ) : Body :=
  if q.den = 1 ∧ q.num.natAbs < 1000000000000000000000 then .int q.num else .float (some q)

def Metric.encode (m : Metric) : Body :=
  .obj ([("name", .str m.name), ("value", encodeNumber m.value), ("ts", .int m.ts)] ++
    if m.labels = [] then []
    else [("labels", .obj (m.labels.map fun l => (l.1, .str l.2)))])

def stateWord : ServiceState → String
  | .running => "running"
  | .stopped => "stopped"
  | .failed => "failed"
  | .unknown => "unknown"

def Service.encode (s : Service) : Body :=
  .obj [("name", .str s.name), ("state", .str (stateWord s.state))]

/-- `omitempty` on the optional fields. -/
def encodeItem (item : InventoryItem) : Body :=
  .obj ([("name", .str item.name), ("state", .str (stateWord item.state))] ++
    (if item.startup = "" then [] else [("startup", .str item.startup)]) ++
    if item.description = "" then [] else [("description", .str item.description)])

namespace Report
variable (r : Report)

def hostBody : Body :=
  .obj [("hostname", .str r.host.hostname),
    ("instance_id", (r.host.instanceId.map Body.str).getD .null), ("os", .str r.host.os),
    ("arch", .str r.host.arch), ("boot_time", .int r.host.bootTime)]

/-- The fields that every report has. -/
def fixedFields : List (String × Body) :=
  [("schema", .int 1), ("agent_version", .str r.agentVersion),
    ("config_version", .int r.configVersion), ("seq", .int r.seq), ("sent_at", .int r.sentAt),
    ("host", r.hostBody), ("metrics", .arr (r.metrics.map Metric.encode)),
    ("services", .arr (r.services.map Service.encode))]

def inventoryFields : List (String × Body) :=
  match r.inventory with
  | some (item :: items) => [("service_inventory", .arr ((item :: items).map encodeItem))]
  | _ => []

def encode : Body := .obj (r.fixedFields ++ r.inventoryFields)

end Report

/-- The metric that a collector emits for a sample. -/
def Metric.ofSample (r : Sample) : Metric :=
  ⟨contractKey r.contract, r.value, r.ts, match r.contract.labelKey with
    | none => []
    | some key => [(labelKey key, r.label.getD "")]⟩

theorem contractOf_key (c : Contract) : contractOf (contractKey c) = some c := by cases c <;> decide

theorem finiteNumber_encode (q : ℚ) : finiteNumber (encodeNumber q) = .ok (some q) := by
  unfold encodeNumber
  split
  · rename_i h
    have hsmall : tooLarge q.num = false := by
      have hbound : 1000000000000000000000 ≤ (1 <<< 1024 - 1 <<< 970 : ℕ) := by decide +kernel
      exact decide_eq_false (not_le.mpr (h.2.trans_le hbound))
    have hq : ((q.num : ℤ) : ℚ) = q := Rat.coe_int_num_of_den_eq_one h.1
    rw [finiteNumber, hsmall, hq]
    rfl
  · rfl

/-- Go's `int64`. -/
def IsInt64 (n : ℤ) : Prop := -9223372036854775808 ≤ n ∧ n < 9223372036854775808

theorem finiteNumber_int64 {n : ℤ} (h : IsInt64 n) : finiteNumber (.int n) = .ok (some n) := by
  have hsmall : tooLarge n = false := by
    have hbound : 9223372036854775808 < (1 <<< 1024 - 1 <<< 970 : ℕ) := by decide +kernel
    have hn : n.natAbs ≤ 9223372036854775808 := by
      obtain ⟨hlow, hhigh⟩ := h
      omega
    exact decide_eq_false (not_le.mpr (hn.trans_lt hbound))
  rw [finiteNumber, hsmall]
  rfl

/-- A sample that its hub still takes. -/
def Sample.InTime (now : ℚ) (r : Sample) : Prop :=
  IsInt64 r.ts ∧ now - maxAgeSeconds ≤ r.ts ∧ (r.ts : ℚ) ≤ now + futureSkewSeconds

theorem label_of_labelled (r : Sample) :
    r.label = r.contract.labelKey.map fun _ => r.label.getD "" := by
  have h := r.labelled
  unfold acceptsLabel at h
  cases hk : r.contract.labelKey <;> cases hl : r.label <;> simp_all

theorem labelOf_encode (r : Sample) : labelOf r.contract (Metric.ofSample r).encode = r.label := by
  rw [label_of_labelled r]
  unfold labelOf Metric.ofSample Metric.encode
  cases hk : r.contract.labelKey with
  | none => rfl
  | some key => simp [Body.field, Body.asStr]

theorem readMetric_encode {now : ℚ} {r : Sample} (h : r.InTime now) :
    readMetric now (Metric.ofSample r).encode = .ok (some r) := by
  have hname : ((Metric.ofSample r).encode.field "name").asStr.bind contractOf =
      some r.contract := by
    rw [← contractOf_key r.contract]
    unfold Metric.ofSample Metric.encode
    cases r.contract.labelKey <;> simp [Body.field, Body.asStr]
  have hvalue : (Metric.ofSample r).encode.field "value" = encodeNumber r.value := by
    unfold Metric.ofSample Metric.encode
    cases r.contract.labelKey <;> simp [Body.field]
  have hts : (Metric.ofSample r).encode.field "ts" = .int r.ts := by
    unfold Metric.ofSample Metric.encode
    cases r.contract.labelKey <;> simp [Body.field]
  unfold readMetric
  rw [hname]
  simp only [hvalue, finiteNumber_encode, hts, finiteNumber_int64 h.1, r.inRange, dif_pos,
    h.2.1, h.2.2, and_self, if_true, labelOf_encode, r.labelled, Rat.num_intCast,
    Rat.den_intCast, Nat.cast_one, Int.tdiv_one]

/-- The distinct label values of a metric. -/
def labelsOf (samples : List Sample) (c : Contract) : List String :=
  ((samples.filter (·.contract = c)).filterMap Sample.label).dedup

theorem mem_labelsOf {samples : List Sample} {r : Sample} (hr : r ∈ samples) {label : String}
    (hlabel : r.label = some label) : label ∈ labelsOf samples r.contract :=
  List.mem_dedup.mpr (List.mem_filterMap.mpr
    ⟨r, List.mem_filter.mpr ⟨hr, decide_eq_true rfl⟩, hlabel⟩)

/-- Where a pass has no more series than the limit, `series_seen` has room for each of them. -/
structure Sorted.Within (all : List Sample) (s : Sorted) : Prop where
  nodup : s.seen.Nodup
  sub : ∀ e ∈ s.seen, e.2 ∈ labelsOf all e.1

theorem Sorted.add_within {all : List Sample} {s : Sorted} (h : s.Within all)
    (hfew : ∀ c, (labelsOf all c).length ≤ maxSeriesPerMetric) {r : Sample} (hr : r ∈ all) :
    (s.add r).Within all ∧ (s.add r).samples = s.samples ++ [r] ∧
      (s.add r).rejected = s.rejected := by
  unfold Sorted.add
  split
  · exact ⟨⟨h.nodup, h.sub⟩, rfl, rfl⟩
  · rename_i label hlabel
    split
    · exact ⟨⟨h.nodup, h.sub⟩, rfl, rfl⟩
    · rename_i hnew
      have hnodup : (((r.contract, label) :: s.seen).filter
          fun e => e.1 = r.contract).Nodup := (List.nodup_cons.mpr ⟨hnew, h.nodup⟩).filter _
      have hsub : ((((r.contract, label) :: s.seen).filter fun e => e.1 = r.contract).map
          Prod.snd) ⊆ labelsOf all r.contract := by
        intro l hl
        obtain ⟨e, he, rfl⟩ := List.mem_map.mp hl
        obtain ⟨he, hc⟩ := List.mem_filter.mp he
        rcases List.mem_cons.mp he with rfl | he
        · exact mem_labelsOf hr hlabel
        · exact of_decide_eq_true hc ▸ h.sub e he
      have hinj : ((((r.contract, label) :: s.seen).filter fun e => e.1 = r.contract).map
          Prod.snd).Nodup := by
        refine hnodup.map_on fun e he e' he' heq => ?_
        exact Prod.ext ((of_decide_eq_true (List.mem_filter.mp he).2).trans
          (of_decide_eq_true (List.mem_filter.mp he').2).symm) heq
      have hroom := (List.subperm_of_subset hinj hsub).length_le.trans (hfew r.contract)
      rw [List.length_map, List.filter_cons, if_pos (decide_eq_true rfl), List.length_cons] at hroom
      rw [if_neg (not_le.mpr hroom)]
      refine ⟨⟨List.nodup_cons.mpr ⟨hnew, h.nodup⟩, fun e he => ?_⟩, rfl, rfl⟩
      rcases List.mem_cons.mp he with rfl | he
      · exact mem_labelsOf hr hlabel
      · exact h.sub e he

/-- A batch of good samples comes through as it is. -/
theorem sortMetrics_encode {now : ℚ} {all samples : List Sample} {s : Sorted}
    (h : s.Within all) (hfew : ∀ c, (labelsOf all c).length ≤ maxSeriesPerMetric)
    (hmem : ∀ r ∈ samples, r ∈ all ∧ r.InTime now) :
    ∃ t, sortMetrics now s (samples.map fun r => (Metric.ofSample r).encode) = .ok t ∧
      t.samples = s.samples ++ samples ∧ t.rejected = s.rejected := by
  induction samples generalizing s with
  | nil => exact ⟨s, rfl, (List.append_nil _).symm, rfl⟩
  | cons r samples ih =>
    obtain ⟨hr, htime⟩ := hmem r List.mem_cons_self
    obtain ⟨hwithin, hsamples, hrejected⟩ := Sorted.add_within h hfew hr
    obtain ⟨t, ht, hkept, hcount⟩ := ih hwithin fun r' hr' => hmem r' (List.mem_cons_of_mem _ hr')
    refine ⟨t, ?_, ?_, hcount.trans hrejected⟩
    · rw [List.map_cons, sortMetrics, Sorted.round, readMetric_encode htime]
      exact ht
    · rw [hkept, hsamples, List.append_assoc, List.singleton_append]

theorem serviceState_word (state : ServiceState) : serviceState (stateWord state) = some state := by
  cases state <;> decide

theorem readService_encode {entry : Service}
    (hname : entry.name ≠ "" ∧ entry.name.length ≤ maxServiceNameLen) :
    readService entry.encode = some (entry.name, entry.state) := by
  have hfield : (entry.encode.field "name").asStr = some entry.name := by
    simp [Service.encode, Body.field, Body.asStr]
  have hstate : (entry.encode.field "state").asStr = some (stateWord entry.state) := by
    simp [Service.encode, Body.field, Body.asStr]
  unfold readService
  rw [hfield, hstate]
  simp [hname, serviceState_word, guard]

/-- What a report says of its agent is in the hub's bounds. -/
structure ReportBase.Bounded (b : ReportBase) : Prop where
  agentVersion : b.agentVersion ≠ "" ∧ b.agentVersion.length ≤ 40
  configVersion : 0 ≤ b.configVersion
  sentAt : 0 < b.sentAt
  hostname : b.host.hostname ≠ "" ∧ b.host.hostname.length ≤ 255
  instanceId : ∀ iid, b.host.instanceId = some iid → iid ≠ "" ∧ iid.length ≤ 64
  os : b.host.os.length ≤ 40
  arch : b.host.arch.length ≤ 40

structure Report.Bounded (r : Report) : Prop extends r.toReportBase.Bounded where
  seq : 0 ≤ r.seq
  services : r.services.length ≤ maxServices
  serviceNames : ∀ entry ∈ r.services, entry.name ≠ "" ∧ entry.name.length ≤ maxServiceNameLen

theorem Body.field_append {key : String} {fields others : List (String × Body)}
    (h : ∀ f ∈ others, f.1 ≠ key) :
    (Body.obj (fields ++ others)).field key = (Body.obj fields).field key := by
  have hnone : (others.reverse.find? fun f => f.1 = key) = none := by
    rw [List.find?_eq_none]
    intro f hf
    simpa using h f (List.mem_reverse.mp hf)
  simp only [Body.field, List.reverse_append, List.find?_append, hnone, Option.none_or]

theorem Report.field_encode (r : Report) {key : String} (h : key ≠ "service_inventory") :
    r.encode.field key = (Body.obj r.fixedFields).field key := by
  refine Body.field_append fun f hf => ?_
  unfold inventoryFields at hf
  split at hf
  · rw [List.mem_singleton.mp hf]
    exact h.symm
  · exact absurd hf List.not_mem_nil

section Fields
variable (r : Report)

theorem Report.field_schema : r.encode.field "schema" = .int 1 := r.field_encode (by decide)

theorem Report.field_agentVersion : r.encode.field "agent_version" = .str r.agentVersion :=
  r.field_encode (by decide)

theorem Report.field_configVersion : r.encode.field "config_version" = .int r.configVersion :=
  r.field_encode (by decide)

theorem Report.field_seq : r.encode.field "seq" = .int r.seq := r.field_encode (by decide)

theorem Report.field_sentAt : r.encode.field "sent_at" = .int r.sentAt := r.field_encode (by decide)

theorem Report.field_host : r.encode.field "host" = r.hostBody := r.field_encode (by decide)

theorem Report.field_metrics : r.encode.field "metrics" = .arr (r.metrics.map Metric.encode) :=
  r.field_encode (by decide)

theorem Report.field_services : r.encode.field "services" = .arr (r.services.map Service.encode) :=
  r.field_encode (by decide)

end Fields

theorem someText_str {s : String} {most : ℕ} (h : s ≠ "" ∧ s.length ≤ most) :
    someText most (.str s) = true := by
  simpa [someText, Body.asStr] using h

/-- Every check of a bounded report passes. -/
theorem Report.checks_encode {r : Report} (h : r.Bounded) {maxBatchMetrics : ℕ}
    (hbatch : r.metrics.length ≤ maxBatchMetrics) :
    (checks r.encode maxBatchMetrics).find? (fun check => !check.1) = none := by
  have hhost : someText 255 (r.hostBody.field "hostname") = true := someText_str h.hostname
  have hiid : nullOrText 1 64 (r.hostBody.field "instance_id") = true := by
    change nullOrText 1 64 ((r.host.instanceId.map Body.str).getD .null) = true
    cases hiid : r.host.instanceId with
    | none => rfl
    | some iid =>
      obtain ⟨hne, hle⟩ := h.instanceId iid hiid
      have hpos : 1 ≤ iid.length := Nat.one_le_iff_ne_zero.mpr fun hzero =>
        hne (String.length_eq_zero_iff.mp hzero)
      simp [nullOrText, hpos, hle]
  have hos : nullOrText 0 40 (r.hostBody.field "os") = true := by
    change nullOrText 0 40 (.str r.host.os) = true
    simp [nullOrText, h.os]
  have harch : nullOrText 0 40 (r.hostBody.field "arch") = true := by
    change nullOrText 0 40 (.str r.host.arch) = true
    simp [nullOrText, h.arch]
  rw [List.find?_eq_none]
  intro check hcheck
  simp only [checks, r.field_schema, r.field_agentVersion, r.field_configVersion, r.field_seq,
    r.field_sentAt, r.field_host, r.field_metrics, r.field_services, List.mem_cons,
    List.not_mem_nil, or_false] at hcheck
  rcases hcheck with rfl | rfl | rfl | rfl | rfl | rfl | rfl | rfl | rfl | rfl | rfl | rfl |
    rfl | rfl
  · simp [encode, Body.isObj]
  · simp [Body.asInt]
  · simp [Body.asInt, h.seq]
  · simp [Body.asInt, h.configVersion]
  · simp [Body.asInt, h.sentAt]
  · simp [someText_str h.agentVersion]
  · simp [hostBody, Body.isObj]
  · simp [hhost]
  · simp [hiid]
  · simp [hos]
  · simp [harch]
  · simp [Body.asArr]
  · simp [Body.asArr, hbatch]
  · simp [Body.asArr, h.services]

/-- A bounded report of good samples is taken with all it brings. -/
theorem validatePayload_encode {r : Report} (h : r.Bounded) {maxBatchMetrics : ℕ} {now : ℚ}
    {all samples : List Sample} (hmetrics : r.metrics = samples.map Metric.ofSample)
    (hbatch : r.metrics.length ≤ maxBatchMetrics)
    (hfew : ∀ c, (labelsOf all c).length ≤ maxSeriesPerMetric)
    (hmem : ∀ r ∈ samples, r ∈ all ∧ r.InTime now) :
    ∃ p, validatePayload r.encode maxBatchMetrics now = .ok (p, 0) ∧ p.samples = samples ∧
      p.services = r.services.map (fun entry => (entry.name, entry.state)) ∧ p.seq = r.seq := by
  obtain ⟨t, ht, hkept, hrejected⟩ := sortMetrics_encode (s := .empty)
    ⟨List.nodup_nil, fun e he => absurd he List.not_mem_nil⟩ hfew hmem
  have hmetricsOf : metricsOf r.encode = samples.map fun r => (Metric.ofSample r).encode := by
    rw [metricsOf, r.field_metrics, hmetrics]
    simp [Body.asArr]
  have hservicesOf : servicesOf r.encode = r.services.map Service.encode := by
    rw [servicesOf, r.field_services]
    rfl
  have hread : (r.services.map Service.encode).filterMap readService =
      r.services.map fun entry => (entry.name, entry.state) := by
    rw [List.filterMap_map, ← List.filterMap_eq_map]
    exact List.filterMap_congr fun entry hentry => readService_encode (h.serviceNames entry hentry)
  unfold validatePayload
  rw [Report.checks_encode h hbatch, hmetricsOf, hservicesOf, hread, ht]
  have hnone : t.rejected + ((r.services.map Service.encode).length -
      (r.services.map fun entry => (entry.name, entry.state)).length) = 0 := by
    rw [hrejected, List.length_map, List.length_map, Nat.sub_self]
    rfl
  have hseq : (r.encode.field "seq").asInt.getD 0 = r.seq := by
    rw [r.field_seq]
    rfl
  exact ⟨_, congrArg (fun n => (Except.ok (_, n) : Except Refusal (CheckedPayload × ℕ))) hnone,
    hkept.trans (List.nil_append _), rfl, hseq⟩

/-! The configuration that a row serves after any requests to change it. -/

/-- `patch_host_agent_config`, as far as the stored configuration goes. -/
def patched (stored : StoredConfig) (body : ConfigPatch) : StoredConfig :=
  match body.changes with
  | .ok changes => stored.update changes
  | .error _ => stored

/-- A watch list that a PATCH lets through. -/
def Watchable (names : List String) : Prop :=
  names.length ≤ maxWatchServices ∧ ∀ n ∈ names, serviceName n.toList = true

theorem keptServices_watchable {services names out : List String}
    (h : ConfigPatch.keptServices services names = .ok out)
    (hservices : ∀ n ∈ services, serviceName n.toList = true) :
    out.length ≤ services.length + names.length ∧ ∀ n ∈ out, serviceName n.toList = true := by
  induction names generalizing services with
  | nil =>
    obtain rfl := Except.ok.inj h
    exact ⟨Nat.le_refl _, hservices⟩
  | cons name names ih =>
    simp only [ConfigPatch.keptServices] at h
    split at h
    · rename_i hname
      obtain ⟨hlen, hall⟩ := ih h fun n hn => by
        split at hn
        · exact hservices n hn
        · rcases List.mem_append.mp hn with hn | hn
          · exact hservices n hn
          · rw [List.mem_singleton.mp hn, String.toList_ofList]
            exact hname
      refine ⟨hlen.trans ?_, hall⟩
      rw [List.length_cons]
      split
      · omega
      · rw [List.length_append, List.length_singleton]
        omega
    · cases h

/-- The watch list of an accepted change, where it brings one. -/
theorem changes_spec {body : ConfigPatch} {changes : StoredConfig}
    (h : body.changes = .ok changes) :
    changes.watchServices = none ∨ ∃ names out, names.length ≤ maxWatchServices ∧
      ConfigPatch.keptServices [] names = .ok out ∧ changes.watchServices = some out := by
  unfold ConfigPatch.changes at h
  simp only [bind, Except.bind, pure, Except.pure, throw, throwThe, MonadExceptOf.throw] at h
  by_cases hmany : (body.watchServices.any fun names => maxWatchServices < names.length) = true
  · rw [if_pos hmany] at h
    cases h
  · rw [if_neg hmany] at h
    by_cases hinterval : (body.intervalSeconds.any fun n =>
        n < intervalMinSeconds || intervalMaxSeconds < n) = true
    · rw [if_pos hinterval] at h
      cases h
    · rw [if_neg hinterval] at h
      cases hw : body.watchServices with
      | none =>
        left
        rw [hw] at h
        simp only [Option.mapM_none, pure, Except.pure] at h
        split at h
        · cases h
        · rw [← Except.ok.inj h]
      | some names =>
        right
        rw [hw] at h hmany
        cases hkept : ConfigPatch.keptServices [] names with
        | error e =>
          simp [Option.mapM_some, hkept, Functor.map, Except.map] at h
        | ok out =>
          have hchanges : StoredConfig.mk (some out) body.intervalSeconds = changes := by
            simpa [Option.mapM_some, hkept, Functor.map, Except.map] using h
          exact ⟨names, out, by simpa using hmany, hkept, by rw [← hchanges]⟩

theorem patched_watchable {stored : StoredConfig} (h : Watchable stored.watched)
    (body : ConfigPatch) : Watchable (patched stored body).watched := by
  unfold patched
  split
  · rename_i changes hchanges
    rw [StoredConfig.watched_update]
    rcases changes_spec hchanges with hnone | ⟨names, out, hlen, hkept, hsome⟩
    · rw [hnone]
      exact h
    · rw [hsome]
      obtain ⟨hout, hall⟩ := keptServices_watchable hkept fun n hn => absurd hn List.not_mem_nil
      exact ⟨hout.trans ((Nat.zero_add _).le.trans hlen), hall⟩
  · exact h

theorem patches_watchable (patches : List ConfigPatch) :
    Watchable (patches.foldl patched .unset).watched := by
  have hstep : ∀ stored : StoredConfig, Watchable stored.watched →
      Watchable (patches.foldl patched stored).watched := by
    induction patches with
    | nil => exact fun _ h => h
    | cons body patches ih => exact fun stored h => ih _ (patched_watchable h body)
  exact hstep .unset ⟨Nat.zero_le _, fun n hn => absurd hn List.not_mem_nil⟩

section Services
variable {run : List String → Option String} {names : List String}

theorem serviceChar_not_space {c : Char} (h : serviceChar c = true) :
    goSpaces.contains c = false := by
  have hall : (goSpaces.all fun c => !serviceChar c) = true := by decide +kernel
  rw [Bool.eq_false_iff]
  intro hc
  have hbad := List.all_eq_true.mp hall c (List.contains_iff_mem.mp hc)
  rw [h] at hbad
  cases hbad

theorem dropWhile_serviceChar {cs : List Char} (h : cs.all serviceChar = true) :
    cs.dropWhile goSpaces.contains = cs := by
  cases cs with
  | nil => rfl
  | cons c cs =>
    have hc := serviceChar_not_space (List.all_eq_true.mp h c List.mem_cons_self)
    rw [List.dropWhile_cons, hc]
    rfl

theorem trimSpace_serviceName {name : String} (h : serviceName name.toList = true) :
    trimSpace name = name := by
  have hall : name.toList.all serviceChar = true := by
    simp only [serviceName, Bool.and_eq_true] at h
    exact h.2
  have hrev : name.toList.reverse.all serviceChar = true := by rw [List.all_reverse, hall]
  rw [trimSpace, dropWhile_serviceChar hall, dropWhile_serviceChar hrev, List.reverse_reverse,
    String.ofList_toList]

theorem mem_once {seen names : List String} {n : String} (h : n ∈ once seen names) : n ∈ names := by
  induction names generalizing seen with
  | nil => exact h
  | cons m names ih =>
    rw [once] at h
    split at h
    · exact List.mem_cons_of_mem _ (ih h)
    · rcases List.mem_cons.mp h with rfl | h
      · exact List.mem_cons_self
      · exact List.mem_cons_of_mem _ (ih h)

theorem once_length (seen names : List String) : (once seen names).length ≤ names.length := by
  induction names generalizing seen with
  | nil => exact Nat.le_refl _
  | cons m names ih =>
    rw [once]
    split
    · exact (ih seen).trans (Nat.le_succ _)
    · exact Nat.succ_le_succ (ih _)

theorem reportServices_length : (reportServices run names).length ≤ names.length := by
  have hsplit : (reportServices run names).length = (once [] (names.map trimSpace)).length := by
    simp only [reportServices, List.length_append, List.length_map]
    exact (List.length_eq_length_filter_add _).symm
  rw [hsplit]
  exact (once_length _ _).trans (by rw [List.length_map])

theorem reportServices_name {entry : Service} (h : entry ∈ reportServices run names) :
    entry.name ∈ names.map trimSpace := by
  rcases List.mem_append.mp h with h | h
  all_goals
    obtain ⟨n, hn, rfl⟩ := List.mem_map.mp h
    exact mem_once (List.mem_of_mem_filter hn)

theorem reportServices_bounded (h : Watchable names) {entry : Service}
    (hentry : entry ∈ reportServices run names) :
    entry.name ≠ "" ∧ entry.name.length ≤ maxServiceNameLen := by
  obtain ⟨n, hn, hname⟩ := List.mem_map.mp (reportServices_name hentry)
  have hservice := h.2 n hn
  rw [← hname, trimSpace_serviceName hservice]
  simp only [serviceName, Bool.and_eq_true, decide_eq_true_eq] at hservice
  refine ⟨?_, hservice.1.1⟩
  rintro rfl
  simp at hservice

end Services

/-- The slices between the multiples of `n`. -/
theorem slices_take {α : Type} (l : List α) (n k : ℕ) :
    ((List.range k).flatMap fun i => (l.drop (i * n)).take n) = l.take (k * n) := by
  induction k with
  | zero => simp
  | succ k ih =>
    rw [List.range_succ, List.flatMap_append, ih, List.flatMap_singleton, Nat.succ_mul,
      List.take_add]

theorem slices_all {α : Type} (l : List α) {n : ℕ} (hn : 0 < n) :
    ((List.range ((l.length - 1) / n + 1)).flatMap fun i => (l.drop (i * n)).take n) = l := by
  rw [slices_take]
  refine List.take_of_length_le ?_
  have h := Nat.lt_div_mul_add hn (a := l.length - 1)
  rw [Nat.add_mul, Nat.one_mul]
  omega

/-- The configuration that an agent runs after these requests to change it. -/
def servedConfig (patches : List ConfigPatch) : ServerConfig :=
  sanitize (patches.foldl patched .unset).effective

theorem servedConfig_batch (patches : List ConfigPatch) :
    (servedConfig patches).maxBatchMetrics = 500 := rfl

theorem servedConfig_watchable (patches : List ConfigPatch) :
    Watchable ((servedConfig patches).watchServices.getD []) := by
  have h := patches_watchable patches
  unfold servedConfig sanitize
  rw [StoredConfig.effective_watched]
  exact h

theorem numbered_range (first : ℤ) (f : ℕ → Report) (n : ℕ) :
    numbered first ((List.range n).map f) =
      (List.range n).map fun k => { f k with seq := first + k } :=
  List.ext_getElem (by simp [numbered]) fun k hk hk' => by simp [numbered]

/-- One report of a pass. -/
theorem slice_taken {base : ReportBase} (hbase : base.Bounded) {first : ℤ} (hfirst : 0 ≤ first)
    {now : ℚ} {samples : List Sample} {pass : Pass} {names : List String}
    {run : List String → Option String} (hnames : Watchable names)
    (hmetrics : pass.metrics = samples.map Metric.ofSample)
    (hservices : pass.services = reportServices run names)
    (hfew : ∀ c, (labelsOf samples c).length ≤ maxSeriesPerMetric)
    (htime : ∀ r ∈ samples, r.InTime now) (k : ℕ) :
    ∃ p, validatePayload (Report.encode { slice base 500 pass k with seq := first + k }) 500 now =
        .ok (p, 0) ∧ p.samples = (samples.drop (k * 500)).take 500 ∧
      p.services = (slice base 500 pass k).services.map fun s => (s.name, s.state) := by
  have hlen : pass.services.length ≤ maxServices := by
    rw [hservices]
    exact reportServices_length.trans (hnames.1.trans (by decide))
  have hname : ∀ entry ∈ pass.services,
      entry.name ≠ "" ∧ entry.name.length ≤ maxServiceNameLen := fun entry hentry =>
    reportServices_bounded hnames (hservices ▸ hentry)
  have hbounded : Report.Bounded { slice base 500 pass k with seq := first + k } := by
    refine ⟨hbase, Int.add_nonneg hfirst (Int.natCast_nonneg k), ?_, fun entry hentry => ?_⟩
    · change (if k = 0 then pass.services else []).length ≤ maxServices
      split
      · exact hlen
      · exact Nat.zero_le _
    · change entry ∈ (if k = 0 then pass.services else []) at hentry
      split at hentry
      · exact hname entry hentry
      · exact absurd hentry List.not_mem_nil
  have hslice : (slice base 500 pass k).metrics =
      ((samples.drop (k * 500)).take 500).map Metric.ofSample := by
    rw [slice, hmetrics, List.map_take, List.map_drop]
  have hmem : ∀ r ∈ (samples.drop (k * 500)).take 500, r ∈ samples ∧ r.InTime now := fun r hr =>
    ⟨List.mem_of_mem_drop (List.mem_of_mem_take hr),
      htime r (List.mem_of_mem_drop (List.mem_of_mem_take hr))⟩
  obtain ⟨p, hp, hkept, hserv, -⟩ :=
    validatePayload_encode hbounded hslice (List.length_take_le _ _) hfew hmem
  exact ⟨p, hp, hkept, hserv⟩

/-- With a configuration that the hub serves after whatever requests to change it, every report of
a pass is taken, nothing in it is rejected, and the reports bring the pass: its samples in their
order, and its services once. -/
theorem pass_taken (patches : List ConfigPatch) {base : ReportBase} (hbase : base.Bounded)
    {first : ℤ} (hfirst : 0 ≤ first) {now : ℚ} {samples : List Sample} {pass : Pass}
    {run : List String → Option String} (hmetrics : pass.metrics = samples.map Metric.ofSample)
    (hservices : pass.services =
      reportServices run ((servedConfig patches).watchServices.getD []))
    (hfew : ∀ c, (labelsOf samples c).length ≤ maxSeriesPerMetric)
    (htime : ∀ r ∈ samples, r.InTime now) :
    ∃ taken : List CheckedPayload,
      (numbered first (build base (servedConfig patches).maxBatchMetrics pass)).map
        (fun r => validatePayload r.encode 500 now) = taken.map (fun p => .ok (p, 0)) ∧
      taken.flatMap CheckedPayload.samples = samples ∧
      taken.flatMap CheckedPayload.services = pass.services.map (fun s => (s.name, s.state)) := by
  have hround := slice_taken hbase hfirst (servedConfig_watchable patches) hmetrics hservices hfew
    htime
  choose taken htaken hsamples hserv using hround
  have hlen : pass.metrics.length = samples.length := by rw [hmetrics, List.length_map]
  rw [servedConfig_batch, build, numbered_range]
  refine ⟨(List.range ((pass.metrics.length - 1) / 500 + 1)).map taken, ?_, ?_, ?_⟩
  · rw [List.map_map, List.map_map]
    exact List.map_congr_left fun k _ => htaken k
  · rw [List.flatMap_map, hlen]
    simp only [hsamples]
    exact slices_all samples (by decide)
  · rw [List.flatMap_map, List.range_succ_eq_map, List.flatMap_cons, List.flatMap_map, hserv]
    have hrest : ((List.range ((pass.metrics.length - 1) / 500)).flatMap fun k =>
        (taken (k + 1)).services) = [] := by
      rw [List.flatMap_eq_nil_iff]
      intro k _
      rw [hserv]
      rfl
    rw [hrest, List.append_nil]
    rfl

theorem halfUsed_labelled : acceptsLabel .diskUsedPercent (some "/") = true := by decide +kernel

theorem halfUsed_inRange : allows .diskUsedPercent 50 = true := by decide +kernel

def halfUsed : Sample :=
  ⟨.diskUsedPercent, some "/", 50, 1000000, halfUsed_labelled, halfUsed_inRange⟩

def webBase : ReportBase := ⟨"1.2", 1, 1000000, ⟨"web", none, "linux", "amd64", 0⟩⟩

def watchNginx : List ConfigPatch := [⟨some [" nginx "], none⟩]

/-- A host that watches one service reports it and a disk. -/
def webPass : Pass :=
  ⟨[Metric.ofSample halfUsed],
    reportServices (fun _ => some "active\n") ((servedConfig watchNginx).watchServices.getD []),
    none⟩

theorem pass_taken_web : ∃ taken : List CheckedPayload,
    (numbered 7 (build webBase (servedConfig watchNginx).maxBatchMetrics webPass)).map
      (fun r => validatePayload r.encode 500 1000000) = taken.map (fun p => .ok (p, 0)) ∧
    taken.flatMap CheckedPayload.samples = [halfUsed] ∧
    taken.flatMap CheckedPayload.services = [("nginx", .running)] := by
  have hbase : webBase.Bounded :=
    ⟨by decide, by decide, by decide, by decide, fun _ h => (Option.some_ne_none _ h.symm).elim,
      by decide, by decide⟩
  have hfew : ∀ c, (labelsOf [halfUsed] c).length ≤ maxSeriesPerMetric := fun c =>
    (List.dedup_sublist _).length_le.trans ((List.length_filterMap_le _ _).trans
      ((List.length_filter_le _ _).trans (by decide)))
  have htime : ∀ r ∈ [halfUsed], r.InTime 1000000 := by
    intro r hr
    rw [List.mem_singleton.mp hr]
    refine ⟨⟨by decide, by decide⟩, ?_, ?_⟩
    all_goals norm_num [halfUsed, maxAgeSeconds, futureSkewSeconds]
  obtain ⟨taken, htaken, hsamples, hservices⟩ :=
    @pass_taken watchNginx webBase hbase 7 (by decide) 1000000 [halfUsed] webPass
      (fun _ => some "active\n") rfl rfl hfew htime
  exact ⟨taken, htaken, hsamples, hservices.trans (by decide +kernel)⟩

end MonitoringHub.Ingest.Wire
