import MonitoringHub.Ingest.AgentRow
import MonitoringHub.Ingest.HostConfig
import MonitoringHub.Lib.RowTable
import MonitoringHub.Lib.StepRun

/-! The configuration that an agent runs, and the row it reports to. The agent takes it from
agent.json, from what the hub pushed and state.json kept, and from the answers to its reports;
the hub pushes it where the version of a report is not the one of the row. -/

namespace MonitoringHub.Ingest
open Lib Lib.RowTable

/-- `config.Sanitize` -/
def sanitize (c : ServerConfig) : ServerConfig :=
  let interval := if c.intervalSeconds = 0 then defaultConfig.intervalSeconds else c.intervalSeconds
  let interval := if interval < 15 then 15 else interval
  let batch := if c.maxBatchMetrics ≤ 0 then defaultConfig.maxBatchMetrics else c.maxBatchMetrics
  { intervalSeconds := if 300 < interval then 300 else interval
    maxBatchMetrics := if 5000 < batch then 5000 else batch
    diskExcludeFstypes := c.diskExcludeFstypes.or defaultConfig.diskExcludeFstypes
    watchServices := c.watchServices.or (some []) }

/-- A row of `host_agents`, with the number of the token that is valid for it. -/
structure ConfigRow where
  account : ℕ
  hostname : String
  status : AgentStatus
  token : ℕ
  configVersion : ℕ
  stored : StoredConfig

/-- agent.json -/
structure Identity where
  row : ℕ
  token : ℕ
  configVersion : ℕ
  config : ServerConfig

/-- A configuration under its version, and the row that it was read from. -/
structure Pushed where
  source : ℕ
  version : ℕ
  config : ServerConfig

/-- The running agent: `cfg` and `cfgVersion`, with where they come from, and what its `Store`
will write. -/
structure Runner where
  row : ℕ
  token : ℕ
  cfg : Pushed
  store : Option Pushed

/-- A report on its way: the version that it carries, the one its authentication read, and once
the transaction has run the `config_version` and `config` of its answer. -/
structure Exchange where
  row : ℕ
  queued : Bool
  version : ℕ
  read : ℕ
  answer : Option (Option (ℕ × ServerConfig))

/-- The hub's rows, and the files, the process and the request of one host. -/
structure ConfigSystem where
  rows : List ConfigRow
  agentFile : Option Identity
  stateFile : Option Pushed
  queue : List ℕ
  runner : Option Runner
  exchange : Option Exchange

inductive ConfigAct
  | patch (row : ℕ) (body : ConfigPatch)
  | revoke (row : ℕ)
  | enroll (account : ℕ) (hostname : String) (force saved : Bool)
  | start
  | stop
  | persist
  | buffer
  | send (queued : Bool)
  | transact
  | receive (saved : Bool)
  | lose

namespace ConfigRow

/-- `patch_host_agent_config` -/
def patched (changes : StoredConfig) (row : ConfigRow) : ConfigRow :=
  { row with configVersion := row.configVersion + 1, stored := row.stored.update changes }

def reEnrolled (row : ConfigRow) : ConfigRow :=
  { row with status := .active, token := row.token + 1 }

/-- `revoke_host_agent` takes the tokens with it. -/
def revoked (row : ConfigRow) : ConfigRow :=
  { row with status := .revoked, token := row.token + 1 }

/-- The row of a first enrolment. -/
def fresh (account : ℕ) (hostname : String) : ConfigRow :=
  ⟨account, hostname, .active, 0, 1, .unset⟩

/-- The configuration that the row is meant to give. -/
def config (row : ConfigRow) : ServerConfig := sanitize row.stored.effective

end ConfigRow

/-- `config.Load` -/
def Identity.load (f : Identity) : Identity :=
  { f with
    configVersion := if f.configVersion = 0 then 1 else f.configVersion
    config := sanitize f.config }

/-- `New`: what state.json has of a pushed configuration wins. -/
def Identity.runner (f : Identity) (stateFile : Option Pushed) : Runner :=
  let chosen := stateFile.getD ⟨f.row, f.configVersion, f.config⟩
  { row := f.row
    token := f.token
    cfg := { chosen with
      version := if chosen.version ≤ 0 then 1 else chosen.version
      config := sanitize chosen.config }
    store := stateFile }

/-- `applyConfig` -/
def Runner.applyConfig (version : ℕ) (c : ServerConfig) (r : Runner) : Runner :=
  { r with
    cfg := ⟨r.row, if 0 < version then version else r.cfg.version, sanitize c⟩
    store := some ⟨r.row, max version 1, sanitize c⟩ }

namespace ConfigSystem

/-- No row, no enrolment. -/
def empty : ConfigSystem := ⟨[], none, none, [], none, none⟩

/-- `enroll` of the hub: the rows after it, and what it answers. -/
def enrolled (rows : List ConfigRow) (account : ℕ) (hostname : String) :
    List ConfigRow × Identity :=
  match lastMatch (fun row => row.account = account && row.hostname = hostname) rows with
  | some (i, row) => (modifyAt i .reEnrolled rows,
      ⟨i, row.token + 1, 1, sanitize row.stored.effective⟩)
  | none => (rows ++ [.fresh account hostname],
      ⟨rows.length, 0, 1, sanitize StoredConfig.unset.effective⟩)

/-- The `config` part of an ingest answer. -/
def answered (row : ConfigRow) (version read : ℕ) : Option (ℕ × ServerConfig) :=
  if version ≠ read ∧ version ≠ row.configVersion then
    some (row.configVersion, row.stored.effective)
  else none

def step (s : ConfigSystem) : ConfigAct → Option ConfigSystem
  | .patch i body =>
    match s.rows[i]?, body.changes with
    | some row, .ok changes =>
      if row.status = .revoked then none
      else some { s with rows := modifyAt i (.patched changes) s.rows }
    | _, _ => none
  | .revoke i =>
    some { s with rows := modifyAt i .revoked s.rows }
  | .enroll account hostname force saved =>
    if s.agentFile.isSome && !force then none
    else
      let (rows, file) := enrolled s.rows account hostname
      some { s with rows := rows, agentFile := if saved then some file else s.agentFile }
  | .start =>
    match s.agentFile, s.runner with
    | some f, none => some { s with runner := some (f.load.runner s.stateFile) }
    | _, _ => none
  | .stop => s.runner.map fun _ => { s with runner := none, exchange := none }
  | .persist => s.runner.map fun r => { s with stateFile := r.store }
  | .buffer => s.runner.map fun r => { s with queue := s.queue ++ [r.cfg.version] }
  | .send queued =>
    match s.runner, s.exchange with
    | some r, none =>
      -- a report goes out directly only when nothing is queued before it
      match s.rows[r.row]?, if queued then s.queue.head?
        else if s.queue.isEmpty then some r.cfg.version else none with
      | some row, some version =>
        if row.status = .active ∧ row.token = r.token then
          some { s with exchange := some ⟨r.row, queued, version, row.configVersion, none⟩ }
        else none
      | _, _ => none
    | _, _ => none
  | .transact =>
    match s.exchange with
    | some e =>
      match e.answer, s.rows[e.row]? with
      | none, some row => some { s with
          exchange := some { e with answer := some (answered row e.version e.read) } }
      | _, _ => none
    | none => none
  | .receive saved =>
    match s.runner, s.exchange with
    | some r, some e =>
      match e.answer with
      | some (some (version, c)) =>
        let r := r.applyConfig version c
        some { s with
          runner := some r
          stateFile := if saved then r.store else s.stateFile
          queue := if e.queued then s.queue.tail else s.queue
          exchange := none }
      | some none => some { s with
          queue := if e.queued then s.queue.tail else s.queue
          exchange := none }
      | none => none
    | _, _ => none
  | .lose => s.exchange.map fun _ => { s with exchange := none }

/-- Where the agent runs the version of the row that it reports to, it runs that row's
configuration. -/
def Synced (s : ConfigSystem) : Prop :=
  ∀ r ∈ s.runner, ∀ row ∈ s.rows[r.row]?, r.cfg.version = row.configVersion →
    r.cfg.config = row.config

/-- What state.json has of another row does not meet the row of agent.json under its number,
and no PATCH brings a row to the number of what an agent runs of another row, unless it is the
configuration of the row all the same. -/
def Unmixed (s : ConfigSystem) : ConfigAct → Prop
  | .start => ∀ f ∈ s.agentFile, ∀ p ∈ s.stateFile, p.source ≠ f.row →
      ∀ row ∈ s.rows[f.row]?, p.version = row.configVersion → p.config = row.config
  | .patch i body => ∀ r ∈ s.runner, r.row = i → r.cfg.source ≠ i →
      ∀ row ∈ s.rows[i]?, ∀ changes ∈ body.changes.toOption,
        r.cfg.version = row.configVersion + 1 → r.cfg.config = (row.patched changes).config
  | _ => True

instance (s : ConfigSystem) : Decidable s.Synced :=
  inferInstanceAs (Decidable (∀ r ∈ s.runner, _))

instance (s : ConfigSystem) : ∀ act, Decidable (s.Unmixed act)
  | .start => inferInstanceAs (Decidable (∀ f ∈ s.agentFile, _))
  | .patch _ _ => inferInstanceAs (Decidable (∀ r ∈ s.runner, _))
  | .revoke _ | .enroll _ _ _ _ | .stop | .persist | .buffer | .send _ | .transact | .receive _
  | .lose => inferInstanceAs (Decidable True)

end ConfigSystem

/-- What each step needs and makes. -/
inductive ConfigStep (s : ConfigSystem) : ConfigAct → ConfigSystem → Prop
  | patch {i : ℕ} {body : ConfigPatch} {row : ConfigRow} {changes : StoredConfig}
    (hrow : s.rows[i]? = some row) (hchanges : body.changes = .ok changes) :
    ConfigStep s (.patch i body) { s with rows := modifyAt i (.patched changes) s.rows }
  | revoke (i : ℕ) : ConfigStep s (.revoke i) { s with rows := modifyAt i .revoked s.rows }
  | enroll (account : ℕ) (hostname : String) (force saved : Bool) :
    ConfigStep s (.enroll account hostname force saved) { s with
      rows := (ConfigSystem.enrolled s.rows account hostname).1
      agentFile := if saved then some (ConfigSystem.enrolled s.rows account hostname).2
        else s.agentFile }
  | start {f : Identity} (hf : s.agentFile = some f) (hrunner : s.runner = none) :
    ConfigStep s .start { s with runner := some (f.load.runner s.stateFile) }
  | stop : ConfigStep s .stop { s with runner := none, exchange := none }
  | persist {r : Runner} (hr : s.runner = some r) :
    ConfigStep s .persist { s with stateFile := r.store }
  | buffer {r : Runner} (hr : s.runner = some r) :
    ConfigStep s .buffer { s with queue := s.queue ++ [r.cfg.version] }
  | send {r : Runner} (queued : Bool) (version read : ℕ) (hr : s.runner = some r) :
    ConfigStep s (.send queued) { s with exchange := some ⟨r.row, queued, version, read, none⟩ }
  | transact {e : Exchange} {row : ConfigRow} (he : s.exchange = some e)
    (hrow : s.rows[e.row]? = some row) : ConfigStep s .transact { s with
      exchange := some { e with
        answer := some (ConfigSystem.answered row e.version e.read) } }
  | receive {r : Runner} {e : Exchange} {version : ℕ} {c : ServerConfig} (saved : Bool)
    (hr : s.runner = some r) (he : s.exchange = some e)
    (hanswer : e.answer = some (some (version, c))) : ConfigStep s (.receive saved) { s with
      runner := some (r.applyConfig version c)
      stateFile := if saved then (r.applyConfig version c).store else s.stateFile
      queue := if e.queued then s.queue.tail else s.queue
      exchange := none }
  | unchanged (e : Exchange) (saved : Bool) : ConfigStep s (.receive saved) { s with
      queue := if e.queued then s.queue.tail else s.queue
      exchange := none }
  | lose : ConfigStep s .lose { s with exchange := none }

section Sanitize

theorem sanitize_bounds (c : ServerConfig) : 15 ≤ (sanitize c).intervalSeconds ∧
    (sanitize c).intervalSeconds ≤ 300 ∧ 0 < (sanitize c).maxBatchMetrics ∧
    (sanitize c).maxBatchMetrics ≤ 5000 := by
  have hbatch : (defaultConfig.maxBatchMetrics : ℤ) = 500 := rfl
  simp only [sanitize, hbatch]
  refine ⟨?_, ?_, ?_, ?_⟩ <;> omega

theorem sanitize_within {c : ServerConfig} (hlow : 15 ≤ c.intervalSeconds)
    (hhigh : c.intervalSeconds ≤ 300) (hpos : 0 < c.maxBatchMetrics)
    (hbatch : c.maxBatchMetrics ≤ 5000) : sanitize c =
      { c with
        diskExcludeFstypes := c.diskExcludeFstypes.or defaultConfig.diskExcludeFstypes
        watchServices := c.watchServices.or (some []) } := by
  have hzero : c.intervalSeconds ≠ 0 := by omega
  simp only [sanitize, if_neg hzero, if_neg hlow.not_gt, if_neg hhigh.not_gt, if_neg hpos.not_ge,
    if_neg hbatch.not_gt]

theorem sanitize_sanitize (c : ServerConfig) : sanitize (sanitize c) = sanitize c := by
  obtain ⟨hlow, hhigh, hpos, hbatch⟩ := sanitize_bounds c
  rw [sanitize_within hlow hhigh hpos hbatch]
  have hdisk : (sanitize c).diskExcludeFstypes.or defaultConfig.diskExcludeFstypes =
      (sanitize c).diskExcludeFstypes := by
    rw [sanitize, Option.or_assoc, Option.or_self]
  have hwatch : (sanitize c).watchServices.or (some []) = (sanitize c).watchServices := by
    rw [sanitize, Option.or_assoc, Option.or_self]
  rw [hdisk, hwatch]

end Sanitize

section Rows
variable {rows rows' : List ConfigRow} {p : Pushed} {i : ℕ} {row : ConfigRow}

/-- The configuration is the one that the row it was read from had under that version. -/
structure Agrees (rows : List ConfigRow) (p : Pushed) : Prop where
  sane : sanitize p.config = p.config
  positive : 1 ≤ p.version
  known : ∃ row, rows[p.source]? = some row ∧ p.version ≤ row.configVersion ∧
    (p.version = row.configVersion → p.config = row.config)

/-- No row goes, and a changed configuration has a higher version. -/
def Forward (rows rows' : List ConfigRow) : Prop :=
  ∀ (i : ℕ) (row : ConfigRow), rows[i]? = some row → ∃ row', rows'[i]? = some row' ∧
    (row'.configVersion = row.configVersion ∧ row'.stored = row.stored ∨
      row.configVersion < row'.configVersion)

/-- No row goes, and no configuration changes. -/
def Kept (rows rows' : List ConfigRow) : Prop :=
  ∀ (i : ℕ) (row : ConfigRow), rows[i]? = some row → ∃ row', rows'[i]? = some row' ∧
    row'.configVersion = row.configVersion ∧ row'.stored = row.stored

theorem Kept.forward (h : Kept rows rows') : Forward rows rows' := by
  intro i row hrow
  obtain ⟨row', hrow', hsame⟩ := h i row hrow
  exact ⟨row', hrow', .inl hsame⟩

theorem Agrees.forward (h : Agrees rows p) (hrows : Forward rows rows') : Agrees rows' p := by
  obtain ⟨row, hrow, hle, hconfig⟩ := h.known
  obtain ⟨row', hrow', ⟨hversion, hstored⟩ | hlt⟩ := hrows _ row hrow
  · refine ⟨h.sane, h.positive, row', hrow', hversion ▸ hle, fun heq => ?_⟩
    rw [hconfig (heq.trans hversion), ConfigRow.config, ConfigRow.config, hstored]
  · exact ⟨h.sane, h.positive, row', hrow', by omega, fun heq => by omega⟩

theorem kept_modifyAt {f : ConfigRow → ConfigRow}
    (hf : ∀ row, (f row).configVersion = row.configVersion ∧ (f row).stored = row.stored) (i : ℕ) :
    Kept rows (modifyAt i f rows) := by
  intro n row hrow
  rw [modifyAt_getElem?, hrow]
  split
  · exact ⟨f row, rfl, hf row⟩
  · exact ⟨row, rfl, rfl, rfl⟩

theorem forward_patched (changes : StoredConfig) (i : ℕ) :
    Forward rows (modifyAt i (.patched changes) rows) := by
  intro n row hrow
  rw [modifyAt_getElem?, hrow]
  split
  · exact ⟨row.patched changes, rfl, .inr (Nat.lt_succ_self _)⟩
  · exact ⟨row, rfl, .inl ⟨rfl, rfl⟩⟩

theorem Agrees.config_eq (h : Agrees rows p) (hrow : rows[p.source]? = some row)
    (hversion : p.version = row.configVersion) : p.config = row.config := by
  obtain ⟨row', hrow', -, hconfig⟩ := h.known
  obtain rfl := Option.some.inj (hrow.symm.trans hrow')
  exact hconfig hversion

/-- What an enrolment answers agrees with its row, as version 1 is the unpatched one. -/
theorem enrolled_agrees (hrows : ∀ row ∈ rows, 1 ≤ row.configVersion) (account : ℕ)
    (hostname : String) :
    Kept rows (ConfigSystem.enrolled rows account hostname).1 ∧
      (∀ row ∈ (ConfigSystem.enrolled rows account hostname).1, 1 ≤ row.configVersion) ∧
      Agrees (ConfigSystem.enrolled rows account hostname).1
        ⟨(ConfigSystem.enrolled rows account hostname).2.row,
          (ConfigSystem.enrolled rows account hostname).2.configVersion,
          (ConfigSystem.enrolled rows account hostname).2.config⟩ := by
  unfold ConfigSystem.enrolled
  split
  · rename_i i row hfound
    obtain ⟨hrow, -⟩ := lastMatch_some hfound
    have hkept : Kept rows (modifyAt i .reEnrolled rows) :=
      kept_modifyAt (f := .reEnrolled) (fun _ => ⟨rfl, rfl⟩) i
    refine ⟨hkept, fun row' hrow' => ?_, sanitize_sanitize _, le_rfl, row.reEnrolled, ?_, ?_, ?_⟩
    · obtain ⟨n, hn⟩ := List.mem_iff_getElem?.mp hrow'
      rw [modifyAt_getElem?] at hn
      split at hn
      · obtain ⟨old, hold, rfl⟩ := Option.map_eq_some_iff.mp hn
        exact hrows old (List.mem_of_getElem? hold)
      · exact hrows row' (List.mem_of_getElem? hn)
    · rw [modifyAt_found hrow, if_pos rfl]
    · exact hrows row (List.mem_of_getElem? hrow)
    · exact fun _ => rfl
  · refine ⟨fun n row hrow => ⟨row, ?_, rfl, rfl⟩, fun row hrow => ?_, sanitize_sanitize _,
      le_rfl, .fresh account hostname, ?_, le_rfl, fun _ => rfl⟩
    · rw [List.getElem?_append_left (List.getElem?_eq_some_iff.mp hrow).1]
      exact hrow
    · rcases List.mem_append.mp hrow with hold | hnew
      · exact hrows row hold
      · rw [List.mem_singleton.mp hnew]
        exact le_rfl
    · exact List.getElem?_concat_length

theorem positive_modifyAt (h : ∀ row ∈ rows, 1 ≤ row.configVersion) {f : ConfigRow → ConfigRow}
    (hf : ∀ row, row.configVersion ≤ (f row).configVersion) (i : ℕ) :
    ∀ row ∈ modifyAt i f rows, 1 ≤ row.configVersion := by
  intro row hrow
  obtain ⟨n, hn⟩ := List.mem_iff_getElem?.mp hrow
  rw [modifyAt_getElem?] at hn
  split at hn
  · obtain ⟨old, hold, rfl⟩ := Option.map_eq_some_iff.mp hn
    exact (h old (List.mem_of_getElem? hold)).trans (hf old)
  · exact h row (List.mem_of_getElem? hn)

/-- What `New` runs is what the file it took it from has. -/
theorem runner_cfg {f : Identity} {stateFile : Option Pushed}
    (hfile : Agrees rows ⟨f.row, f.configVersion, f.config⟩)
    (hstate : ∀ p ∈ stateFile, Agrees rows p) :
    (f.load.runner stateFile).cfg = stateFile.getD ⟨f.row, f.configVersion, f.config⟩ := by
  have hkept (p : Pushed) (h : Agrees rows p) :
      ({ p with
        version := if p.version ≤ 0 then 1 else p.version
        config := sanitize p.config } : Pushed) = p := by
    have hpositive := h.positive
    rw [h.sane, if_neg (by omega)]
  cases stateFile with
  | some p => exact hkept p (hstate p rfl)
  | none =>
    have hpositive : 1 ≤ f.configVersion := hfile.positive
    have hload : f.load = f := by
      rw [Identity.load, if_neg (by omega), show sanitize f.config = f.config from hfile.sane]
    rw [hload]
    exact hkept _ hfile

end Rows

namespace ConfigSystem
variable {s t : ConfigSystem} {act : ConfigAct}

/-- Everything that the host holds of a configuration agrees with the row it was read from. -/
structure Coherent (s : ConfigSystem) : Prop where
  rows : ∀ row ∈ s.rows, 1 ≤ row.configVersion
  file : ∀ f ∈ s.agentFile, Agrees s.rows ⟨f.row, f.configVersion, f.config⟩
  state : ∀ p ∈ s.stateFile, Agrees s.rows p
  known : ∀ r ∈ s.runner, ∃ row, s.rows[r.row]? = some row
  runner : ∀ r ∈ s.runner, Agrees s.rows r.cfg
  store : ∀ r ∈ s.runner, ∀ p ∈ r.store, Agrees s.rows p
  exchange : ∀ e ∈ s.exchange, ∃ r ∈ s.runner, r.row = e.row
  answer : ∀ e ∈ s.exchange, ∀ version c, e.answer = some (some (version, c)) →
    Agrees s.rows ⟨e.row, version, sanitize c⟩

theorem Coherent.forward (h : s.Coherent) {rows : List ConfigRow} (hforward : Forward s.rows rows)
    (hrows : ∀ row ∈ rows, 1 ≤ row.configVersion) :
    ({ s with rows := rows } : ConfigSystem).Coherent where
  rows := hrows
  file f hf := (h.file f hf).forward hforward
  state p hp := (h.state p hp).forward hforward
  known r hr := by
    obtain ⟨row, hrow⟩ := h.known r hr
    obtain ⟨row', hrow', -⟩ := hforward r.row row hrow
    exact ⟨row', hrow'⟩
  runner r hr := (h.runner r hr).forward hforward
  store r hr p hp := (h.store r hr p hp).forward hforward
  exchange := h.exchange
  answer e he version c ha := (h.answer e he version c ha).forward hforward

/-- What an answer brings is for the row of the agent that receives it. -/
theorem Coherent.received (h : s.Coherent) {r : Runner} {e : Exchange} {version : ℕ}
    {c : ServerConfig} (hr : s.runner = some r) (he : s.exchange = some e)
    (hanswer : e.answer = some (some (version, c))) :
    r.row = e.row ∧ Agrees s.rows ⟨e.row, version, sanitize c⟩ ∧ 1 ≤ version := by
  have hagrees := h.answer e he version c hanswer
  obtain ⟨r', hr', hrow⟩ := h.exchange e he
  obtain rfl := Option.some.inj (hr.symm.trans hr')
  exact ⟨hrow, hagrees, hagrees.positive⟩

theorem configStep_of_step (hstep : s.step act = some t) : ConfigStep s act t := by
  cases act <;> simp only [ConfigSystem.step] at hstep
  case patch i body =>
    split at hstep
    · rename_i row changes hrow hchanges
      obtain ⟨-, hstep⟩ := Option.ite_none_left_eq_some.mp hstep
      obtain rfl := Option.some.inj hstep
      exact .patch hrow hchanges
    · cases hstep
  case revoke i =>
    obtain rfl := Option.some.inj hstep
    exact .revoke i
  case enroll account hostname force saved =>
    obtain ⟨-, hstep⟩ := Option.ite_none_left_eq_some.mp hstep
    obtain rfl := Option.some.inj hstep
    exact .enroll account hostname force saved
  case start =>
    split at hstep
    · rename_i f hf hrunner
      obtain rfl := Option.some.inj hstep
      exact .start hf hrunner
    · cases hstep
  case stop =>
    obtain ⟨r, -, rfl⟩ := Option.map_eq_some_iff.mp hstep
    exact .stop
  case persist =>
    obtain ⟨r, hr, rfl⟩ := Option.map_eq_some_iff.mp hstep
    exact .persist hr
  case buffer =>
    obtain ⟨r, hr, rfl⟩ := Option.map_eq_some_iff.mp hstep
    exact .buffer hr
  case send queued =>
    split at hstep
    · rename_i r hr hnone
      split at hstep
      · rename_i row version _ _
        obtain ⟨-, hstep⟩ := Option.ite_none_right_eq_some.mp hstep
        obtain rfl := Option.some.inj hstep
        exact .send queued version row.configVersion hr
      · cases hstep
    · cases hstep
  case transact =>
    split at hstep
    · rename_i e he
      split at hstep
      · rename_i row hanswer hrow
        obtain rfl := Option.some.inj hstep
        exact .transact he hrow
      · cases hstep
    · cases hstep
  case receive saved =>
    split at hstep
    · rename_i r e hr he
      split at hstep
      · rename_i version c hanswer
        obtain rfl := Option.some.inj hstep
        exact .receive saved hr he hanswer
      · obtain rfl := Option.some.inj hstep
        exact .unchanged e saved
      · cases hstep
    · cases hstep
  case lose =>
    obtain ⟨e, -, rfl⟩ := Option.map_eq_some_iff.mp hstep
    exact .lose

theorem Coherent.step (h : s.Coherent) (hstep : s.step act = some t) : t.Coherent := by
  cases configStep_of_step hstep with
  | @patch i body row changes hrow hchanges =>
    exact h.forward (forward_patched changes i)
      (positive_modifyAt h.rows (f := .patched changes) (fun _ => Nat.le_succ _) i)
  | revoke i =>
    exact h.forward (kept_modifyAt (f := .revoked) (fun _ => ⟨rfl, rfl⟩) i).forward
      (positive_modifyAt h.rows (f := .revoked) (fun _ => le_rfl) i)
  | enroll account hostname force saved =>
    obtain ⟨hkept, hrows, hagrees⟩ := enrolled_agrees h.rows account hostname
    refine { h.forward hkept.forward hrows with file := fun f hf => ?_ }
    cases saved with
    | false => exact (h.file f hf).forward hkept.forward
    | true =>
      obtain rfl := Option.some.inj hf
      exact hagrees
  | @start f hf hrunner =>
    have hcfg := runner_cfg (h.file f hf) h.state
    refine { h with
      known := fun r hr => ?_
      runner := fun r hr => ?_
      store := fun r hr => ?_
      exchange := fun e he => ?_ }
    · obtain rfl := Option.some.inj hr
      obtain ⟨row, hrow, -⟩ := (h.file f hf).known
      exact ⟨row, hrow⟩
    · obtain rfl := Option.some.inj hr
      dsimp only
      rw [hcfg]
      cases hstate : s.stateFile with
      | some p => exact h.state p hstate
      | none => exact h.file f hf
    · obtain rfl := Option.some.inj hr
      exact h.state
    · obtain ⟨r, hr, -⟩ := h.exchange e he
      cases hrunner.symm.trans hr
  | stop =>
    exact { h with
      known := fun r hr => (Option.not_mem_none r hr).elim
      runner := fun r hr => (Option.not_mem_none r hr).elim
      store := fun r hr => (Option.not_mem_none r hr).elim
      exchange := fun e he => (Option.not_mem_none e he).elim
      answer := fun e he => (Option.not_mem_none e he).elim }
  | @persist r hr => exact { h with state := h.store r hr }
  | buffer => exact { h with }
  | @send r queued version read hr =>
    refine { h with exchange := fun e he => ?_, answer := fun e he version c ha => ?_ }
    · obtain rfl := Option.some.inj he
      exact ⟨r, hr, rfl⟩
    · obtain rfl := Option.some.inj he
      cases ha
  | @transact e row he hrow =>
    refine { h with exchange := fun e' he' => ?_, answer := fun e' he' version c ha => ?_ }
    · obtain rfl := Option.some.inj he'
      exact h.exchange e he
    · obtain rfl := Option.some.inj he'
      have ha : answered row e.version e.read = some (version, c) := Option.some.inj ha
      obtain ⟨-, ha⟩ := Option.ite_none_right_eq_some.mp ha
      obtain ⟨rfl, rfl⟩ := Prod.mk.inj (Option.some.inj ha)
      exact ⟨sanitize_sanitize _, h.rows row (List.mem_of_getElem? hrow), row, hrow, le_rfl,
        fun _ => rfl⟩
  | @receive r e version c saved hr he hanswer =>
    obtain ⟨hrow, hagrees, hpositive⟩ := h.received hr he hanswer
    have hcfg : (r.applyConfig version c).cfg = ⟨e.row, version, sanitize c⟩ := by
      rw [Runner.applyConfig, if_pos (by omega), hrow]
    have hstore : (r.applyConfig version c).store = some ⟨e.row, version, sanitize c⟩ := by
      rw [Runner.applyConfig, max_eq_left hpositive, hrow]
    refine { h with
      state := fun p hp => ?_
      known := fun r' hr' => ?_
      runner := fun r' hr' => ?_
      store := fun r' hr' p hp => ?_
      exchange := fun e he => (Option.not_mem_none e he).elim
      answer := fun e he => (Option.not_mem_none e he).elim }
    · cases saved with
      | false => exact h.state p hp
      | true =>
        obtain rfl := Option.some.inj (hstore.symm.trans hp)
        exact hagrees
    · obtain rfl := Option.some.inj hr'
      exact h.known r hr
    · obtain rfl := Option.some.inj hr'
      exact hcfg ▸ hagrees
    · obtain rfl := Option.some.inj hr'
      obtain rfl := Option.some.inj (hstore.symm.trans hp)
      exact hagrees
  | unchanged | lose =>
    exact { h with
      exchange := fun e he => (Option.not_mem_none e he).elim
      answer := fun e he => (Option.not_mem_none e he).elim }

theorem Coherent.of_run {tr : List ConfigAct} (run : Steps (Takes ConfigSystem.step) .empty tr s) :
    s.Coherent := by
  refine run.stable ⟨?_, ?_, ?_, ?_, ?_, ?_, ?_, ?_⟩ fun s act t h hstep => h.step hstep
  · exact fun _ h => nomatch h
  all_goals exact fun _ h => nomatch h

/-- Where no configuration changes, the agent's row is as it was. -/
theorem Synced.kept (h : s.Synced) (hs : s.Coherent) {rows : List ConfigRow}
    (hrows : Kept s.rows rows) {agentFile : Option Identity} :
    ({ s with rows := rows, agentFile := agentFile } : ConfigSystem).Synced := by
  intro r hr row hrow hversion
  obtain ⟨old, hold⟩ := hs.known r hr
  obtain ⟨row', hrow', hsame, hstored⟩ := hrows r.row old hold
  obtain rfl := Option.some.inj (hrow.symm.trans hrow')
  rw [h r hr old hold (hversion.trans hsame), ConfigRow.config, ConfigRow.config, hstored]

theorem Synced.step (h : s.Synced) (hs : s.Coherent) (hunmixed : s.Unmixed act)
    (hstep : s.step act = some t) : t.Synced := by
  cases configStep_of_step hstep with
  | @patch i body row changes hrow hchanges =>
    intro r hr row' hrow' hversion
    by_cases hi : r.row = i
    · subst hi
      rw [modifyAt_found hrow, if_pos rfl] at hrow'
      obtain rfl := Option.some.inj hrow'
      by_cases hsource : r.cfg.source = r.row
      · obtain ⟨old, hold, hle, -⟩ := (hs.runner r hr).known
        obtain rfl := Option.some.inj (hrow.symm.trans (hsource ▸ hold))
        have hnew : (row.patched changes).configVersion = row.configVersion + 1 := rfl
        omega
      · refine hunmixed r hr rfl hsource row hrow changes ?_ hversion
        rw [hchanges]
        rfl
    · rw [modifyAt_found hrow, if_neg hi] at hrow'
      exact h r hr row' hrow' hversion
  | revoke i => exact h.kept hs (kept_modifyAt (f := .revoked) (fun _ => ⟨rfl, rfl⟩) i)
  | enroll account hostname => exact h.kept hs (enrolled_agrees hs.rows account hostname).1
  | @start f hf hrunner =>
    intro r hr row hrow hversion
    obtain rfl := Option.some.inj hr
    rw [runner_cfg (hs.file f hf) hs.state] at hversion ⊢
    have hrow : s.rows[f.row]? = some row := hrow
    cases hstate : s.stateFile with
    | none =>
      rw [hstate] at hversion
      exact (hs.file f hf).config_eq hrow hversion
    | some p =>
      rw [hstate] at hversion
      by_cases hsource : p.source = f.row
      · exact (hs.state p hstate).config_eq (hsource ▸ hrow) hversion
      · exact hunmixed f hf p hstate hsource row hrow hversion
  | stop => exact fun r hr => (Option.not_mem_none r hr).elim
  | @receive r e version c saved hr he hanswer =>
    obtain ⟨hsame, hagrees, hpositive⟩ := hs.received hr he hanswer
    intro r' hr' row hrow hversion
    obtain rfl := Option.some.inj hr'
    have hrow : s.rows[e.row]? = some row := hsame ▸ hrow
    have hversion : version = row.configVersion := by
      rwa [Runner.applyConfig, if_pos (by omega)] at hversion
    exact hagrees.config_eq hrow hversion
  | persist | buffer | send | transact | unchanged | lose => exact h

/-- The condition is the weakest one: a step after which the agent agrees with its row meets
it. -/
theorem unmixed_of_synced (hs : s.Coherent) (hstep : s.step act = some t) (h : t.Synced) :
    s.Unmixed act := by
  cases configStep_of_step hstep with
  | @patch i body row changes hrow hchanges =>
    intro r hr hi hsource row' hrow' changes' hchanges' hversion
    obtain rfl := Option.some.inj (hrow.symm.trans hrow')
    rw [hchanges] at hchanges'
    obtain rfl : changes = changes' := Option.some.inj hchanges'
    refine h r hr (row.patched changes) ?_ hversion
    change (modifyAt i (.patched changes) s.rows)[r.row]? = _
    rw [hi, modifyAt_found hrow, if_pos rfl]
  | @start f hf hrunner =>
    intro f' hf' p hp hsource row hrow hversion
    obtain rfl := Option.some.inj (hf.symm.trans hf')
    have hcfg := runner_cfg (hs.file f hf) hs.state
    rw [Option.mem_def.mp hp, Option.getD_some] at hcfg
    have hsynced := h _ rfl row hrow
    rw [Option.mem_def.mp hp, hcfg] at hsynced
    exact hsynced hversion
  | revoke | enroll | stop | persist | buffer | send | transact | receive | unchanged | lose =>
    trivial

/-- In every run of such steps an agent under the version of its row runs its configuration. -/
theorem config_agreement (tr : List ConfigAct) (s : ConfigSystem)
    (run : Steps (Guarded (Takes ConfigSystem.step) ConfigSystem.Unmixed) .empty tr s) :
    s.Synced := by
  have hboth : s.Coherent ∧ s.Synced := by
    refine run.stable (P := fun s => s.Coherent ∧ s.Synced) ⟨.of_run .refl, ?_⟩ ?_
    · exact fun r hr => (Option.not_mem_none r hr).elim
    · exact fun s act t h hstep => ⟨h.1.step hstep.2, h.2.step h.1 hstep.1 hstep.2⟩
  exact hboth.2

/-- An enrolled agent gets a pushed list, and keeps it over a restart. -/
theorem config_agreement_pushed : ∃ s : ConfigSystem, s.Synced ∧
    ∃ r ∈ s.runner, r.cfg.version = 2 ∧ r.cfg.config.watchServices = some ["nginx"] := by
  obtain ⟨s, run, -, hp⟩ := exists_play (gated ConfigSystem.step ConfigSystem.Unmixed) .empty
    [.enroll 1 "web" false true, .start, .patch 0 ⟨some ["nginx"], none⟩, .send false, .transact,
      .receive true, .stop, .start]
    (fun s => ∃ r ∈ s.runner, r.cfg.version = 2 ∧ r.cfg.config.watchServices = some ["nginx"])
    (by decide +kernel)
  exact ⟨s, config_agreement _ s (run.mono fun _ _ _ => gated_guarded), of_decide_eq_true hp⟩

/-- A host that is enrolled again elsewhere brings along the list of its former row. Its new row
comes to the same number, and the hub takes the agent to be up to date. -/
theorem config_of_former_row : ∃ (s : ConfigSystem) (r : Runner) (row : ConfigRow),
    Steps (Takes ConfigSystem.step) .empty
      [.patch 1 ⟨some ["sshd"], none⟩, .start, .enroll 2 "web" true true, .stop, .receive true,
        .transact, .send false, .patch 0 ⟨some ["nginx"], none⟩, .start,
        .enroll 1 "web" false true] s ∧
      s.runner = some r ∧ s.rows[r.row]? = some row ∧ r.cfg.version = row.configVersion ∧
      r.cfg.config.watchServices = some ["nginx"] ∧ row.config.watchServices = some ["sshd"] ∧
      ConfigSystem.answered row r.cfg.version row.configVersion = none ∧ ¬ s.Synced := by
  obtain ⟨s, run, -, hp⟩ := exists_play ConfigSystem.step .empty
    [.enroll 1 "web" false true, .start, .patch 0 ⟨some ["nginx"], none⟩, .send false, .transact,
      .receive true, .stop, .enroll 2 "web" true true, .start, .patch 1 ⟨some ["sshd"], none⟩]
    (fun s => ∃ r ∈ s.runner, ∃ row ∈ s.rows[r.row]?, r.cfg.version = row.configVersion ∧
      r.cfg.config.watchServices = some ["nginx"] ∧ row.config.watchServices = some ["sshd"] ∧
      ConfigSystem.answered row r.cfg.version row.configVersion = none ∧ ¬ s.Synced)
    (by decide +kernel)
  obtain ⟨r, hr, row, hrow, hrest⟩ := of_decide_eq_true hp
  exact ⟨s, r, row, run, hr, hrow, hrest⟩

end ConfigSystem

end MonitoringHub.Ingest
