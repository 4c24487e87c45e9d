import MonitoringHub.Environments.EnvTiers

/-! The configuration that the hub keeps for a host: the keys that PATCH was given, and the
defaults behind them. -/

namespace MonitoringHub.Ingest

/-- `config_json`; a key that was never set is absent. -/
structure StoredConfig where
  watchServices : Option (List String)
  intervalSeconds : Option ℤ
  deriving DecidableEq

/-- `payload.ServerConfig`; `none` is Go's nil slice. -/
structure ServerConfig where
  intervalSeconds : ℤ
  watchServices : Option (List String)
  diskExcludeFstypes : Option (List String)
  maxBatchMetrics : ℤ
  deriving DecidableEq

/-- `DEFAULT_CONFIG` -/
def defaultConfig : ServerConfig where
  intervalSeconds := 60
  watchServices := some []
  diskExcludeFstypes := some ["tmpfs", "devtmpfs", "overlay", "squashfs", "proc", "sysfs"]
  maxBatchMetrics := 500

namespace StoredConfig

/-- A fresh row has no `config_json`. -/
def unset : StoredConfig := ⟨none, none⟩

/-- `stored.update(changes)` -/
def update (stored changes : StoredConfig) : StoredConfig where
  watchServices := changes.watchServices.or stored.watchServices
  intervalSeconds := changes.intervalSeconds.or stored.intervalSeconds

/-- `_effective_config`, and `_merged_config` of the ingest path. -/
def effective (stored : StoredConfig) : ServerConfig :=
  { defaultConfig with
    intervalSeconds := stored.intervalSeconds.getD defaultConfig.intervalSeconds
    watchServices := stored.watchServices.or defaultConfig.watchServices }

/-- The watch list in force. -/
def watched (stored : StoredConfig) : List String := stored.watchServices.getD []

theorem watched_update (stored changes : StoredConfig) :
    (stored.update changes).watched = (changes.watchServices.getD stored.watched) := by
  unfold watched update
  cases changes.watchServices <;> rfl

theorem effective_watched (stored : StoredConfig) :
    stored.effective.watchServices = some stored.watched := by
  unfold effective watched
  cases stored.watchServices <;> rfl

end StoredConfig

/-- `HostConfigPatch`, as the request brings it. -/
structure ConfigPatch where
  watchServices : Option (List String)
  intervalSeconds : Option ℤ

/-- Why a PATCH is refused: 422, 422, 422, 400. -/
inductive PatchRefusal
  | tooManyServices
  | intervalOutOfRange
  | invalidService (name : String)
  | nothingToChange
  deriving DecidableEq

/-- `MAX_WATCH_SERVICES` -/
def maxWatchServices : ℕ := 100
/-- `INTERVAL_MIN_SECONDS` -/
def intervalMinSeconds : ℤ := 15
/-- `INTERVAL_MAX_SECONDS` -/
def intervalMaxSeconds : ℤ := 300

def serviceInitial (c : Char) : Bool := c.isAlphanum

def serviceChar (c : Char) : Bool := c.isAlphanum || ['_', '.', '@', ':', '-'].contains c

/-- `_SERVICE_RE` of a stripped name, and its length. -/
def serviceName (name : List Char) : Bool :=
  name.length ≤ 100 && name.head?.any serviceInitial && name.all serviceChar

namespace ConfigPatch

/-- The names as they are kept: stripped, and once each. -/
def keptServices : List String → List String → Except PatchRefusal (List String)
  | services, [] => .ok services
  | services, name :: names =>
    let stripped := Environments.strip name.toList
    if serviceName stripped then
      let name := String.ofList stripped
      keptServices (if name ∈ services then services else services ++ [name]) names
    else .error (.invalidService (String.ofList (stripped.take 40)))

/-- The body's limits, then what it changes. -/
def changes (body : ConfigPatch) : Except PatchRefusal StoredConfig := do
  if body.watchServices.any fun names => maxWatchServices < names.length then
    throw .tooManyServices
  if body.intervalSeconds.any fun n => n < intervalMinSeconds || intervalMaxSeconds < n then
    throw .intervalOutOfRange
  let services ← body.watchServices.mapM (keptServices [])
  if services = none ∧ body.intervalSeconds = none then throw .nothingToChange
  pure ⟨services, body.intervalSeconds⟩

/-- The watch list that the body sets, if it is accepted and sets one. -/
def kept (body : ConfigPatch) : Option (List String) :=
  body.changes.toOption.bind StoredConfig.watchServices

end ConfigPatch

end MonitoringHub.Ingest
