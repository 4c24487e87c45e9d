import Mathlib.Data.List.Dedup
import Mathlib.Tactic.IntervalCases
import MonitoringHub.Alerts.PollingCatalogue
import MonitoringHub.Alerts.RowVerdict

/-! The extra minutes a slowed metric may be old. Python computes them from the effective
interval; the statements that evaluate and age alerts carry a CASE expression generated from
the same tables. -/

namespace MonitoringHub.Alerts
open Lib Lib.Text Environments

/-- `math.ceil(seconds / 60)` -/
def ceilMinutes (seconds : ℕ) : ℕ := (seconds + 59) / 60

theorem ceilMinutes_eq_zero {seconds : ℕ} : ceilMinutes seconds = 0 ↔ seconds = 0 := by
  unfold ceilMinutes
  omega

def extraWindowMinutes (S : PollSettings) (env : Tier) (base : ℕ) (critical : Bool)
    (resourceType : String) : ℕ :=
  match effectiveInterval S env base critical resourceType with
  | none => 0
  | some eff => ceilMinutes (eff - base)

/-- What `resources.env_resolved` holds: the two tiers, and the values stored before there
were two. -/
inductive StoredEnv
  | prod | nonprod | uat | dev | unknown | ignore
  deriving DecidableEq, Repr

def StoredEnv.text : StoredEnv → String
  | .prod => "prod"
  | .nonprod => "nonprod"
  | .uat => "uat"
  | .dev => "dev"
  | .unknown => "unknown"
  | .ignore => "ignore"

def foreignServices : List String := (azureCriticalMetrics ++ gcpCriticalMetrics).map Prod.fst

/-- A stored reading with its resource and account. Resource types are stored in lower case,
and no AWS resource has the type of another provider's service. -/
structure MetricRow where
  provider : Provider
  resourceType : String
  metricName : String
  env : Option StoredEnv
  lowerType : lower resourceType = resourceType
  ownType : provider = .aws → foreignServices.contains resourceType = false

def MetricRow.key (row : MetricRow) : String × String := (row.resourceType, lower row.metricName)

def MetricRow.tier (row : MetricRow) : Tier := toTier (row.env.map StoredEnv.text)

def MetricRow.critical (row : MetricRow) : Bool := p1MetricKeys.contains row.key

/-- The extra minutes the poller's own reader adds: only AWS metrics are slowed, and a
Describe metric never is. -/
def envPollExtra (S : PollSettings) (wafFast : Bool) (row : MetricRow) : ℕ :=
  if row.provider ≠ .aws then 0
  else match baseIntervalSeconds wafFast row.resourceType row.metricName with
  | none => 0
  | some base => extraWindowMinutes S row.tier base row.critical row.resourceType

/-! ### The generated CASE expression -/

/-- `CASE WHEN c₁ THEN v₁ … ELSE v END` -/
def caseWhen (branches : List (Bool × ℕ)) (otherwise : ℕ) : ℕ :=
  ((branches.find? fun b => b.1).map Prod.snd).getD otherwise

def envExpr (S : PollSettings) (env : Option StoredEnv) (seconds : ℕ) (crit : Bool) : ℕ :=
  if seconds ≥ neverSlowAtOrAboveSeconds then 0
  else
    let extra :=
      ceilMinutes ((if crit then S.nonprodCriticalInterval else S.nonprodInterval) - seconds)
    if env.any fun e => ["nonprod", "uat", "dev"].contains e.text then extra else 0

/-- The overridden keys are grouped by interval and criticality, in that order. -/
def overrideGroups (wafFast : Bool) : List (ℕ × Bool) :=
  ((metricIntervalOverrides wafFast).map fun o => (o.2, p1MetricKeys.contains o.1)).dedup.mergeSort
    fun g g' => g.1 < g'.1 || (g.1 == g'.1 && (!g.2 || g'.2))

def inGroup (wafFast : Bool) (key : String × String) (group : ℕ × Bool) : Bool :=
  (KeyedStore.find key (metricIntervalOverrides wafFast)).any fun seconds =>
    (seconds, p1MetricKeys.contains key) = group

def fallbackExpr (S : PollSettings) (row : MetricRow) : ℕ :=
  if awsSlowExtendedServices.contains row.resourceType then 0
  else if !awsCoreTypes.contains row.resourceType then envExpr S row.env 3600 false
  else envExpr S row.env 300 false

/-- `_env_poll_extra_sql`, evaluated on a row; without the flags no minutes are added. -/
def envPollExtraSql (S : PollSettings) (wafFast : Bool) (row : MetricRow) : ℕ :=
  if !S.enabled then 0
  else caseWhen
    ([(decide (row.provider ≠ .aws), 0),
      (exemptResourceTypes.contains row.resourceType, 0),
      (awsDescribeMetrics.contains row.key, 0)] ++
      (overrideGroups wafFast).map (fun g => (inGroup wafFast row.key g, envExpr S row.env g.1 g.2)) ++
      [(row.resourceType == "ec2" && startsWith (lower row.metricName) diskPrefix,
        envExpr S row.env cwagentDiskTier.seconds false)])
    (fallbackExpr S row)

/-! ### The tables -/

def baseIntervals : List ((String × String) × ℕ) := (coreIntervals ++ cwagentIntervals).reverse

theorem find_overrides (wafFast : Bool) (key : String × String) :
    KeyedStore.find key (metricIntervalOverrides wafFast) =
      (KeyedStore.find key (extendedIntervals wafFast).reverse).or
        (KeyedStore.find key baseIntervals) := by
  rw [metricIntervalOverrides, List.reverse_append, KeyedStore.find_append, baseIntervals]

theorem mem_extendedIntervals {wafFast : Bool} {o : (String × String) × ℕ}
    (h : o ∈ extendedIntervals wafFast) : ∃ s ∈ awsExtendedCatalog, o.1.1 = s.1 := by
  obtain ⟨s, hs, h⟩ := List.mem_flatMap.mp h
  obtain ⟨metric, -, hput⟩ := List.mem_filterMap.mp h
  unfold putInterval at hput
  split at hput
  · cases hput
  · obtain rfl := Option.some.inj hput
    exact ⟨s, hs, rfl⟩

/-- What the catalogues say of the types of the core collector; none is an extended service. -/
theorem core_checks :
    (∀ rtype ∈ ["ec2", "ebs", "rds", "elb", "lambda"], ∀ s ∈ awsExtendedCatalog, rtype ≠ s.1) ∧
    (∀ m ∈ awsCoreMetrics, m.resourceType ∈ ["ec2", "ebs", "rds", "elb", "lambda"] ∧
      (KeyedStore.find (m.resourceType, m.dbName) baseIntervals).getD 300 = m.tier.seconds ∧
      (m.resourceType = "ec2" → startsWith m.dbName diskPrefix = false)) ∧
    (∀ rtype ∈ ["ec2", "ebs", "rds", "elb", "lambda"], classDefaultInterval rtype = 300) ∧
    (KeyedStore.find ("ec2", "mem_used_percent") baseIntervals = none ∧
      startsWith "mem_used_percent" diskPrefix = false) ∧
    KeyedStore.find ("ec2", "disk_used_percent") baseIntervals = some 900 ∧
    ∀ o ∈ baseIntervals, o.1.1 = "ec2" → startsWith o.1.2 diskPrefix = false := by
  decide +kernel

theorem core_not_extended : ∀ rtype ∈ ["ec2", "ebs", "rds", "elb", "lambda"],
    ∀ s ∈ awsExtendedCatalog, rtype ≠ s.1 := core_checks.1

theorem find_core_override (wafFast : Bool) {rtype : String} (db : String)
    (h : rtype ∈ ["ec2", "ebs", "rds", "elb", "lambda"]) :
    KeyedStore.find (rtype, db) (metricIntervalOverrides wafFast) =
      KeyedStore.find (rtype, db) baseIntervals := by
  rw [find_overrides]
  cases hfind : KeyedStore.find (rtype, db) (extendedIntervals wafFast).reverse with
  | none => rfl
  | some seconds =>
    obtain ⟨s, hs, heq⟩ := mem_extendedIntervals (List.mem_reverse.mp (KeyedStore.mem_of_find hfind))
    exact absurd heq (core_not_extended rtype h s hs)

theorem core_types : ∀ m ∈ awsCoreMetrics,
    m.resourceType ∈ ["ec2", "ebs", "rds", "elb", "lambda"] := fun m hm => (core_checks.2.1 m hm).1

theorem core_types_default : ∀ rtype ∈ ["ec2", "ebs", "rds", "elb", "lambda"],
    classDefaultInterval rtype = 300 := core_checks.2.2.1

theorem core_intervals : ∀ m ∈ awsCoreMetrics,
    (KeyedStore.find (m.resourceType, m.dbName) baseIntervals).getD 300 = m.tier.seconds ∧
      (m.resourceType = "ec2" → startsWith m.dbName diskPrefix = false) :=
  fun m hm => (core_checks.2.1 m hm).2

theorem mem_interval : KeyedStore.find ("ec2", "mem_used_percent") baseIntervals = none ∧
    startsWith "mem_used_percent" diskPrefix = false := core_checks.2.2.2.1

theorem disk_interval : KeyedStore.find ("ec2", "disk_used_percent") baseIntervals = some 900 :=
  core_checks.2.2.2.2.1

theorem disk_prefix_interval : ∀ o ∈ baseIntervals, o.1.1 = "ec2" →
    startsWith o.1.2 diskPrefix = false := core_checks.2.2.2.2.2

theorem find_diskOverride (wafFast : Bool) {db : String} (h : startsWith db diskPrefix = true) :
    KeyedStore.find ("ec2", db) (metricIntervalOverrides wafFast) = none := by
  rw [find_core_override wafFast db (by decide)]
  refine Option.eq_none_iff_forall_ne_some.mpr fun seconds hfind => ?_
  have hno := disk_prefix_interval _ (KeyedStore.mem_of_find hfind) rfl
  rw [h] at hno
  cases hno

/-- The base interval in the order in which the CASE expression looks for it. -/
theorem baseInterval_eq {wafFast : Bool} {rtype metric : String} (hrtype : lower rtype = rtype)
    (hdesc : awsDescribeMetrics.contains (rtype, lower metric) = false) :
    baseIntervalSeconds wafFast rtype metric = some
      ((KeyedStore.find (rtype, lower metric) (metricIntervalOverrides wafFast)).getD
        (if rtype == "ec2" && startsWith (lower metric) diskPrefix then 900
          else classDefaultInterval rtype)) := by
  unfold baseIntervalSeconds
  simp only [hrtype, hdesc, Bool.false_eq_true, ↓reduceIte]
  generalize lower metric = db at hdesc ⊢
  split
  · rename_i m hm
    obtain ⟨rfl, rfl⟩ : m.resourceType = rtype ∧ m.dbName = db := by
      simpa using List.find?_some hm
    have hmem := List.mem_of_find?_eq_some hm
    obtain ⟨hseconds, hstart⟩ := core_intervals m hmem
    rw [find_core_override wafFast _ (core_types m hmem), ← hseconds]
    refine congrArg some ?_
    cases hfind : KeyedStore.find (m.resourceType, m.dbName) baseIntervals with
    | some seconds => rfl
    | none =>
      have hno : ¬ (m.resourceType == "ec2" && startsWith m.dbName diskPrefix) = true := by
        intro h
        obtain ⟨hec2, hdisk⟩ := Bool.and_eq_true _ _ |>.mp h
        rw [hstart (by simpa using hec2)] at hdisk
        cases hdisk
      rw [Option.getD_none, Option.getD_none, if_neg hno, core_types_default _ (core_types m hmem)]
  · split
    · rename_i hmem
      obtain ⟨rfl, rfl⟩ : rtype = "ec2" ∧ db = "mem_used_percent" := by simpa using hmem
      rw [find_core_override wafFast _ (by decide), mem_interval.1, mem_interval.2]
      rfl
    · split
      · rename_i hdisk
        obtain ⟨rfl, hdb⟩ : rtype = "ec2" ∧ (db = "disk_used_percent" ∨
            startsWith db diskPrefix = true) := by simpa using hdisk
        rcases hdb with rfl | hstart
        · rw [find_core_override wafFast _ (by decide), disk_interval]
          rfl
        · rw [find_diskOverride wafFast hstart, hstart]
          rfl
      · rename_i hdisk
        have hno : ¬ (rtype == "ec2" && startsWith db diskPrefix) = true := by
          intro h
          obtain ⟨hec2, hstart⟩ := Bool.and_eq_true _ _ |>.mp h
          exact hdisk (by rw [hec2, hstart, Bool.or_true]; rfl)
        rw [if_neg hno]
        split
        · rename_i hfind
          rw [hfind]
          rfl
        · rename_i hfind
          rw [hfind]
          rfl

/-- A critical metric that is polled through GetMetricData has an interval of its own. -/
theorem critical_overridden {wafFast : Bool} {row : MetricRow} (haws : row.provider = .aws)
    (hdesc : awsDescribeMetrics.contains row.key = false) (hcrit : row.critical = true) :
    KeyedStore.find row.key (metricIntervalOverrides wafFast) ≠ none := by
  intro hnone
  have hmem := List.contains_iff_mem.mp hcrit
  simp only [p1MetricKeys, List.mem_append, List.mem_map] at hmem
  rcases hmem with (⟨m, hm, hkey⟩ | hmem) | ⟨k, hk, hkey⟩
  · obtain ⟨hm, htier⟩ := List.mem_filter.mp hm
    have htier' : m.tier = .critical := by simpa using htier
    rw [← hkey, find_core_override wafFast _ (core_types m hm)] at hnone
    have hseconds := (core_intervals m hm).1
    rw [hnone, htier'] at hseconds
    cases hseconds
  · rw [List.contains_iff_mem.mpr hmem] at hdesc
    cases hdesc
  · have hforeign : foreignServices.contains row.resourceType = true := by
      rw [List.contains_iff_mem, foreignServices, List.map_append, ← List.map_append]
      exact List.mem_map.mpr ⟨k, List.mem_append.mpr hk, (Prod.mk.inj hkey).1⟩
    rw [row.ownType haws] at hforeign
    cases hforeign

/-! ### Evaluating the CASE expression -/

@[simp] theorem caseWhen_cons (c : Bool) (v : ℕ) (branches : List (Bool × ℕ)) (otherwise : ℕ) :
    caseWhen ((c, v) :: branches) otherwise = if c then v else caseWhen branches otherwise := by
  cases c <;> rfl

@[simp] theorem caseWhen_nil (otherwise : ℕ) : caseWhen [] otherwise = otherwise := rfl

theorem caseWhen_append (c : Bool) (v : ℕ) (branches rest last : List (Bool × ℕ))
    (otherwise : ℕ) : caseWhen ((c, v) :: branches ++ rest ++ last) otherwise =
      if c then v else caseWhen (branches ++ rest ++ last) otherwise := by
  rw [List.cons_append, List.cons_append, caseWhen_cons]

theorem caseWhen_skip {branches rest : List (Bool × ℕ)} {otherwise : ℕ}
    (h : ∀ b ∈ branches, b.1 = false) :
    caseWhen (branches ++ rest) otherwise = caseWhen rest otherwise := by
  induction branches with
  | nil => rfl
  | cons b branches ih =>
    obtain ⟨hb, hrest⟩ := List.forall_mem_cons.mp h
    obtain ⟨c, v⟩ := b
    obtain rfl : c = false := hb
    rw [List.cons_append, caseWhen_cons, if_neg (by simp), ih hrest]

theorem caseWhen_group {γ : Type*} [DecidableEq γ] {groups : List γ} {g : γ} (hg : g ∈ groups)
    (v : γ → ℕ) (rest : List (Bool × ℕ)) (otherwise : ℕ) :
    caseWhen (groups.map (fun g' => (decide (g = g'), v g')) ++ rest) otherwise = v g := by
  induction groups with
  | nil => cases hg
  | cons g' groups ih =>
    rw [List.map_cons, List.cons_append, caseWhen_cons]
    by_cases heq : g = g'
    · subst heq
      simp
    · rw [decide_eq_false heq, if_neg (by simp)]
      exact ih ((List.mem_cons.mp hg).resolve_left heq)

theorem mem_overrideGroups {wafFast : Bool} {key : String × String} {seconds : ℕ}
    (h : KeyedStore.find key (metricIntervalOverrides wafFast) = some seconds) :
    (seconds, p1MetricKeys.contains key) ∈ overrideGroups wafFast := by
  rw [overrideGroups, List.mem_mergeSort, List.mem_dedup]
  exact List.mem_map.mpr ⟨_, KeyedStore.mem_of_find h, rfl⟩

/-- On a row that can be slowed the CASE expression is the expression of its base interval. -/
theorem envPollExtraSql_eq {S : PollSettings} {wafFast : Bool} {row : MetricRow} {base : ℕ}
    (hon : S.enabled = true) (haws : row.provider = .aws)
    (hexempt : exemptResourceTypes.contains row.resourceType = false)
    (hbase : baseIntervalSeconds wafFast row.resourceType row.metricName = some base) :
    envPollExtraSql S wafFast row = envExpr S row.env base row.critical := by
  have hdesc : awsDescribeMetrics.contains row.key = false := by
    by_contra h
    rw [baseIntervalSeconds, row.lowerType, MetricRow.key] at *
    simp_all
  rw [baseInterval_eq row.lowerType hdesc, Option.some.injEq] at hbase
  rw [envPollExtraSql, if_neg (by simp [hon])]
  rw [caseWhen_append, if_neg (by simp [haws]), caseWhen_append, hexempt,
    if_neg Bool.false_ne_true, caseWhen_append, hdesc, if_neg Bool.false_ne_true, List.nil_append]
  have hkey : row.key = (row.resourceType, lower row.metricName) := rfl
  rw [← hkey] at hbase
  cases hfind : KeyedStore.find row.key (metricIntervalOverrides wafFast) with
  | some seconds =>
    have hgroups : (fun g => (inGroup wafFast row.key g, envExpr S row.env g.1 g.2)) =
        fun g => (decide ((seconds, p1MetricKeys.contains row.key) = g),
          envExpr S row.env g.1 g.2) := by
      funext g
      rw [inGroup, hfind, Option.any_some]
    rw [hgroups, caseWhen_group (mem_overrideGroups hfind) (fun g => envExpr S row.env g.1 g.2)]
    rw [hfind, Option.getD_some] at hbase
    rw [hbase, MetricRow.critical]
  | none =>
    have hcrit : row.critical = false := by
      by_contra h
      exact critical_overridden haws hdesc (by simpa using h) hfind
    rw [caseWhen_skip, caseWhen_cons, caseWhen_nil, hcrit]
    · rw [hfind, Option.getD_none] at hbase
      rw [← hbase, fallbackExpr]
      split
      · rfl
      · unfold classDefaultInterval
        split
        · rw [envExpr, if_pos (by decide)]
        · split
          · rename_i hcore
            rw [if_neg (by simpa using hcore)]
          · rename_i hcore
            rw [if_pos (by simpa using hcore)]
    · intro b hb
      obtain ⟨g, -, rfl⟩ := List.mem_map.mp hb
      simp [inGroup, hfind]

theorem env_nonprod : ∀ env : Option StoredEnv,
    (env.any fun e => ["nonprod", "uat", "dev"].contains e.text) =
      decide (toTier (env.map StoredEnv.text) = .nonprod) := by
  have hstored : ∀ e : StoredEnv, ["nonprod", "uat", "dev"].contains e.text =
      decide (toTier (some e.text) = .nonprod) := by
    intro e
    cases e <;> decide +kernel
  rintro (_ | e)
  · rfl
  · exact hstored e

/-- A metric that the settings switch off, though slowing it would widen its window. -/
def SwitchedOff (S : PollSettings) (wafFast : Bool) (row : MetricRow) : Prop :=
  S.enabled = true ∧ S.noncriticalMode = .off ∧ row.provider = .aws ∧ row.tier = .nonprod ∧
    row.critical = false ∧ exemptResourceTypes.contains row.resourceType = false ∧
    ∃ base, baseIntervalSeconds wafFast row.resourceType row.metricName = some base ∧
      base < neverSlowAtOrAboveSeconds ∧ base < S.nonprodInterval

theorem extraWindowMinutes_unslowed {S : PollSettings} {env : Tier} {base : ℕ} {critical : Bool}
    {resourceType : String} (h : effectiveInterval S env base critical resourceType = some base) :
    extraWindowMinutes S env base critical resourceType = 0 := by
  rw [extraWindowMinutes, h]
  simp [ceilMinutes]

/-- Where the two computations meet: a metric that can be slowed. -/
theorem envExpr_eq_iff {S : PollSettings} {row : MetricRow} {base : ℕ} (hon : S.enabled = true)
    (hexempt : exemptResourceTypes.contains row.resourceType = false) :
    envExpr S row.env base row.critical =
        extraWindowMinutes S row.tier base row.critical row.resourceType ↔
      ¬ (S.noncriticalMode = .off ∧ row.tier = .nonprod ∧ row.critical = false ∧
        base < neverSlowAtOrAboveSeconds ∧ base < S.nonprodInterval) := by
  rw [envExpr, env_nonprod, ← MetricRow.tier, extraWindowMinutes]
  unfold effectiveInterval
  rw [hon, hexempt]
  by_cases hday : base ≥ neverSlowAtOrAboveSeconds
  · have hlt : ¬ base < neverSlowAtOrAboveSeconds := by omega
    simp [hday, hlt, ceilMinutes]
  · have hlt : base < neverSlowAtOrAboveSeconds := by omega
    cases htier : row.tier with
    | prod => simp [hday, ceilMinutes]
    | nonprod =>
      cases hcrit : row.critical with
      | true =>
        have hmax : max base S.nonprodCriticalInterval - base = S.nonprodCriticalInterval - base := by
          omega
        simp [hday, hmax]
      | false =>
        cases hmode : S.noncriticalMode with
        | slow =>
          have hmax : max base S.nonprodInterval - base = S.nonprodInterval - base := by omega
          simp [hday, hmax]
        | off => simp [hday, hlt, ceilMinutes_eq_zero, Nat.sub_eq_zero_iff_le]

theorem envPollExtraSql_disabled {S : PollSettings} {wafFast : Bool} {row : MetricRow}
    (h : S.enabled = false) : envPollExtraSql S wafFast row = 0 := by
  rw [envPollExtraSql, h]
  rfl

/-- The first three branches. -/
theorem envPollExtraSql_zero {S : PollSettings} {wafFast : Bool} {row : MetricRow}
    (h : row.provider ≠ .aws ∨ exemptResourceTypes.contains row.resourceType = true ∨
      awsDescribeMetrics.contains row.key = true) : envPollExtraSql S wafFast row = 0 := by
  rw [envPollExtraSql]
  split
  · rfl
  · rw [caseWhen_append, caseWhen_append, caseWhen_append]
    rcases h with h | h | h
    · rw [if_pos (decide_eq_true h)]
    · rw [h, if_pos rfl, ite_self]
    · rw [h, if_pos rfl, ite_self, ite_self]

/-- The generated SQL adds the minutes of `extra_window_minutes`, except for a metric that is
switched off: to its window it still adds the minutes of the slowed interval. -/
theorem envPollExtraSql_iff (S : PollSettings) (wafFast : Bool) (row : MetricRow) :
    envPollExtraSql S wafFast row = envPollExtra S wafFast row ↔ ¬ SwitchedOff S wafFast row := by
  by_cases haws : row.provider = .aws
  · cases hbase : baseIntervalSeconds wafFast row.resourceType row.metricName with
    | none =>
      have hdesc : awsDescribeMetrics.contains row.key = true := by
        by_contra h
        have hnot : awsDescribeMetrics.contains (row.resourceType, lower row.metricName) = false :=
          Bool.not_eq_true _ ▸ h
        rw [baseInterval_eq row.lowerType hnot] at hbase
        cases hbase
      refine iff_of_true ?_ (fun h => ?_)
      · rw [envPollExtra, if_neg (by simpa using haws), hbase, envPollExtraSql_zero (.inr (.inr hdesc))]
      · obtain ⟨-, -, -, -, -, -, base, hsome, -⟩ := h
        rw [hbase] at hsome
        cases hsome
    | some base =>
      have hpy : envPollExtra S wafFast row =
          extraWindowMinutes S row.tier base row.critical row.resourceType := by
        rw [envPollExtra, if_neg (by simpa using haws), hbase]
      rw [hpy]
      cases hon : S.enabled with
      | false =>
        refine iff_of_true ?_ (fun h => by simp [SwitchedOff, hon] at h)
        have hsame : effectiveInterval S row.tier base row.critical row.resourceType = some base := by
          simp [effectiveInterval, hon]
        rw [envPollExtraSql_disabled hon, extraWindowMinutes_unslowed hsame]
      | true =>
        cases hexempt : exemptResourceTypes.contains row.resourceType with
        | true =>
          refine iff_of_true ?_ (fun h => by
            rw [SwitchedOff, hexempt] at h
            simp at h)
          have hsame : effectiveInterval S row.tier base row.critical row.resourceType =
              some base := by
            rw [effectiveInterval.eq_def, hexempt, Bool.or_true, if_pos rfl]
          rw [envPollExtraSql_zero (.inr (.inl hexempt)), extraWindowMinutes_unslowed hsame]
        | false =>
          rw [envPollExtraSql_eq hon haws hexempt hbase, envExpr_eq_iff hon hexempt]
          refine not_congr ⟨fun h => ?_, fun h => ?_⟩
          · exact ⟨hon, h.1, haws, h.2.1, h.2.2.1, hexempt, base, hbase, h.2.2.2⟩
          · obtain ⟨-, hmode, -, htier, hcrit, -, base', hbase', hlt⟩ := h
            obtain rfl := Option.some.inj (hbase.symm.trans hbase')
            exact ⟨hmode, htier, hcrit, hlt⟩
  · refine iff_of_true ?_ (fun h => haws h.2.2.1)
    rw [envPollExtra, if_pos haws, envPollExtraSql_zero (.inl haws)]

/-- A NON-PROD instance's CPU reading with the non-critical metrics switched off. -/
def switchedOffRow : MetricRow where
  provider := .aws
  resourceType := "ec2"
  metricName := "cpuutilization"
  env := some .nonprod
  lowerType := by decide +kernel
  ownType := fun _ => by decide +kernel

theorem switchedOff_differs :
    envPollExtraSql (.read true true none none .off true) false switchedOffRow = 55 ∧
    envPollExtra (.read true true none none .off true) false switchedOffRow = 0 ∧
    ¬ ∀ S wafFast row, envPollExtraSql S wafFast row = envPollExtra S wafFast row := by
  have hbase : baseIntervalSeconds false switchedOffRow.resourceType switchedOffRow.metricName =
      some 300 := by decide +kernel
  have htier : switchedOffRow.tier = .nonprod := by decide +kernel
  have hcrit : switchedOffRow.critical = false := by decide +kernel
  have hsql : envPollExtraSql (.read true true none none .off true) false switchedOffRow = 55 := by
    rw [envPollExtraSql_eq rfl rfl (by decide) hbase, hcrit]
    rfl
  have hpy : envPollExtra (.read true true none none .off true) false switchedOffRow = 0 := by
    rw [envPollExtra, if_neg (by decide), hbase, htier, hcrit]
    rfl
  refine ⟨hsql, hpy, fun h => ?_⟩
  have := h (.read true true none none .off true) false switchedOffRow
  rw [hsql, hpy] at this
  cases this

end MonitoringHub.Alerts
