import MonitoringHub.Alerts.Pacing

/-! Slowed metrics. A non-production metric collected every `eff` seconds is still
evaluated every pass, so one data point is met many times; the evaluator multiplies the
cycles it asks for by `alertForScale`. How many data points that leaves is decided here:
one of them can be counted `countsPerSample minCycleSeconds eff` times. -/

namespace MonitoringHub.Alerts
open Lib Lib.Text

/-- The evaluations counted for the candidate of the key. -/
def countedRun : List Evaluation → List Evaluation
  | [] => []
  | e :: tr =>
    match e.outcome with
    | .pended .inserted | .promoted .inserted => [e]
    | .pended .counted | .promoted .counted => e :: countedRun tr
    | .pended .waited | .promoted .waited => countedRun tr
    | _ => []

/-- Every evaluation that met the candidate of the key, counted or not. -/
def candidateRun : List Evaluation → List Evaluation
  | [] => []
  | e :: tr =>
    match e.outcome with
    | .pended .inserted | .promoted .inserted => [e]
    | .pended .counted | .promoted .counted => e :: candidateRun tr
    | .pended .waited | .promoted .waited => e :: candidateRun tr
    | _ => []

/-- The data points behind the candidate. -/
def dataPoints (tr : List Evaluation) : Finset ℕ :=
  ((candidateRun tr).map fun e => e.r.row.metricTimestamp).toFinset

theorem countedRun_now (tr : List Evaluation) : (countedRun tr).map Evaluation.now = countRun tr := by
  induction tr with
  | nil => rfl
  | cons e tr ih =>
    unfold countedRun countRun
    split <;> simp_all

theorem countedRun_sublist (tr : List Evaluation) : (countedRun tr).Sublist (candidateRun tr) := by
  induction tr with
  | nil => exact List.Sublist.refl _
  | cons e tr ih =>
    unfold countedRun candidateRun
    split
    · exact List.Sublist.refl _
    · exact List.Sublist.refl _
    · exact ih.cons_cons e
    · exact ih.cons_cons e
    · exact ih.cons e
    · exact ih.cons e
    · exact List.Sublist.refl _

theorem candidateRun_sublist (tr : List Evaluation) : (candidateRun tr).Sublist tr := by
  induction tr with
  | nil => exact List.Sublist.refl _
  | cons e tr ih =>
    unfold candidateRun
    split
    · exact (List.nil_sublist tr).cons_cons e
    · exact (List.nil_sublist tr).cons_cons e
    · exact ih.cons_cons e
    · exact ih.cons_cons e
    · exact ih.cons_cons e
    · exact ih.cons_cons e
    · exact List.nil_sublist _

/-- Only breaching readings meet a candidate. -/
def MeetsBreaching (tr : List Evaluation) : Prop :=
  ∀ e ∈ tr, ∀ t, e.outcome = .pended t ∨ e.outcome = .promoted t → e.r.verdict.breaching = true

theorem candidateRun_outcome {tr : List Evaluation} :
    ∀ e ∈ candidateRun tr, ∃ t, e.outcome = .pended t ∨ e.outcome = .promoted t := by
  induction tr with
  | nil => simp [candidateRun]
  | cons e tr ih =>
    unfold candidateRun
    intro e' he'
    split at he' <;> rename_i ho
    · exact ⟨_, .inl (List.mem_singleton.mp he' ▸ ho)⟩
    · exact ⟨_, .inr (List.mem_singleton.mp he' ▸ ho)⟩
    · rcases List.mem_cons.mp he' with rfl | he'
      · exact ⟨_, .inl ho⟩
      · exact ih e' he'
    · rcases List.mem_cons.mp he' with rfl | he'
      · exact ⟨_, .inr ho⟩
      · exact ih e' he'
    · rcases List.mem_cons.mp he' with rfl | he'
      · exact ⟨_, .inl ho⟩
      · exact ih e' he'
    · rcases List.mem_cons.mp he' with rfl | he'
      · exact ⟨_, .inr ho⟩
      · exact ih e' he'
    · cases he'

theorem Evaluator.run_meetsBreaching {s t : Evaluator} {tr : List Event}
    (run : Steps (Takes step) s tr t) (k : AlertKey) : MeetsBreaching (keyTrace k tr) := by
  induction run with
  | refl =>
    intro e he
    cases he
  | snoc run hstep ih =>
    cases step_effect hstep with
    | beginPass | rowFailed | human => exact ih
    | evaluated hnow htodo heff =>
      rename_i now r o rest db
      intro e he t ho
      rw [keyTrace_evaluated] at he
      split at he
      · rcases List.mem_cons.mp he with rfl | he
        · cases heff with
          | pended _ hbreach => exact hbreach
          | promoted _ _ hbreach => exact hbreach
          | cleared | healthy | recovered | refreshed => rcases ho with ho | ho <;> cases ho
        · exact ih e he t ho
      · exact ih e he t ho

/-- When a metric is collected: at the latest every `eff` seconds, each collection
bringing a data point of its own. -/
structure Collections (eff : ℕ) where
  collected : ℕ → Prop
  stamp : ℕ → ℕ
  every : ∀ c, collected c → ∃ c', collected c' ∧ c < c' ∧ c' ≤ c + eff
  stamp_injective : stamp.Injective

/-- The evaluation reads the data point that was newest when its pass began. -/
def Collections.Reads {eff : ℕ} (C : Collections eff) (e : Evaluation) : Prop :=
  ∃ c, C.collected c ∧ c ≤ e.began ∧ (∀ c', C.collected c' → c' ≤ e.began → c' ≤ c) ∧
    e.r.row.metricTimestamp = C.stamp c

theorem Collections.Reads.current {eff : ℕ} {C : Collections eff} {e : Evaluation} {c : ℕ}
    (h : C.Reads e) (hc : e.r.row.metricTimestamp = C.stamp c) :
    c ≤ e.began ∧ e.began < c + eff := by
  obtain ⟨c', hcollected, hle, hnewest, hstamp⟩ := h
  obtain rfl := C.stamp_injective (hc.symm.trans hstamp)
  refine ⟨hle, ?_⟩
  obtain ⟨next, hnext, hlt, hwithin⟩ := C.every c hcollected
  by_contra hlate
  have := hnewest next hnext (by omega)
  omega

/-- A metric the environment polling has slowed down. -/
structure SlowMetric where
  settings : PollSettings
  resourceType : String
  base : ℕ
  eff : ℕ
  critical : Bool
  slowed : effectiveInterval settings .nonprod base critical resourceType = some eff
  slower : base < eff

namespace SlowMetric

def scale (m : SlowMetric) : ℕ :=
  alertForScale m.settings .nonprod m.base m.critical m.resourceType

def evaluated (m : SlowMetric) : Bool :=
  evaluateForAlerts m.settings .nonprod m.critical m.resourceType (some m.base)

/-- `r` is a reading of the metric, evaluated under its settings. -/
structure Reading (m : SlowMetric) (r : RowInput) : Prop where
  settings : r.settings = m.settings
  provider : r.row.provider = .aws
  environment : r.row.envResolved = .nonprod
  resourceType : r.row.resourceType = m.resourceType
  base : r.model.baseIntervalSeconds r.row.resourceType (lower r.row.metricName) = some m.base
  critical : r.model.isP1 r.row = m.critical

variable (m : SlowMetric)

theorem enabled : m.settings.enabled = true := (effectiveInterval_slowed m.slowed m.slower).2.2

theorem scale_pos : 1 ≤ m.scale := by
  rw [scale, alertForScale_slowed m.slowed m.slower]
  exact le_max_left _ _

theorem scale_eq : m.scale = ⌈(m.eff : ℚ) / (max m.base cycleSeconds : ℕ)⌉₊ := by
  have heff : (0 : ℚ) < m.eff := Nat.cast_pos.mpr ((Nat.zero_le _).trans_lt m.slower)
  have hbase : (0 : ℚ) < (max m.base cycleSeconds : ℕ) :=
    Nat.cast_pos.mpr (lt_max_of_lt_right (by decide))
  rw [scale, alertForScale_slowed m.slowed m.slower]
  exact max_eq_right (Nat.one_le_ceil_iff.mpr (div_pos heff hbase))

variable {m}

theorem Reading.pollInfo {r : RowInput} (h : m.Reading r) :
    envPollRowInfo r.model r.settings r.row = (m.evaluated, m.scale) := by
  have hon : (!r.settings.enabled || r.row.provider != .aws) = false := by
    rw [h.settings, m.enabled, h.provider]
    rfl
  simp only [envPollRowInfo, hon, Bool.false_eq_true, if_false, h.base]
  rw [h.critical, h.settings, h.environment, h.resourceType]
  rfl

/-- One cycle where the cadence is not the core one, else the scaled number. -/
theorem Reading.required {r : RowInput} (h : m.Reading r) : r.verdict.required =
    if r.row.cadence = .core then cyclesAsked r.row * m.scale else cyclesAsked r.row := by
  have hpos := m.scale_pos
  have hrequired : r.verdict.required = cyclesRequired r.model r.settings r.row := rfl
  rw [hrequired, cyclesRequired, h.pollInfo, h.settings, m.enabled]
  by_cases hcore : r.row.cadence = .core
  · simp only [hcore, and_self, if_true]
    split
    · rfl
    · rw [show m.scale = 1 by omega, Nat.mul_one]
  · simp only [hcore, false_and, if_false]

/-- An alert on the metric under a rule asking for `cycles` rests on that many distinct
data points, all of them breaching, whatever the timing of passes and collections. -/
def NeedsReadings (m : SlowMetric) (cycles : ℕ) : Prop :=
  ∀ (C : Collections m.eff) (s t : Evaluator) (tr : List Event) (began now : ℕ) (r : RowInput)
    (o : Outcome) (id : ℕ) (a : Alert),
    Steps (Takes Evaluator.step) (.start emptyDb) tr s →
    s.step (.evaluated began now r o) = some t →
    s.db.alerts.length ≤ id → t.db.alerts[id]? = some a →
    m.Reading r → cyclesAsked r.row = cycles →
    (∀ e ∈ keyTrace r.key (.evaluated began now r o :: tr), C.Reads e) →
    (∀ e ∈ candidateRun (keyTrace r.key (.evaluated began now r o :: tr)),
      e.r.verdict.breaching = true) ∧
    cycles ≤ (dataPoints (keyTrace r.key (.evaluated began now r o :: tr))).card

/-- The scaled cycles are more than `cycles - 1` data points can be counted. -/
def ScaleSuffices (m : SlowMetric) (cycles : ℕ) : Prop :=
  (cycles - 1) * countsPerSample minCycleSeconds m.eff <
    cycles * ⌈(m.eff : ℚ) / (max m.base cycleSeconds : ℕ)⌉₊

instance (cycles : ℕ) : Decidable (m.ScaleSuffices cycles) := inferInstanceAs (Decidable (_ < _))

/-- Evaluations that read a schedule cannot count one data point more often than it allows. -/
theorem countedRun_length_le (C : Collections m.eff) {tr : List Evaluation}
    (hturns : InTurn Evaluation.began Evaluation.now tr)
    (hspaced : Spaced minCycleSeconds (countRun tr)) (hreads : ∀ e ∈ tr, C.Reads e) :
    (countedRun tr).length ≤ countsPerSample minCycleSeconds m.eff * (dataPoints tr).card := by
  have hsub := (countedRun_sublist tr).trans (candidateRun_sublist tr)
  have hwidth : 0 < m.eff := (Nat.zero_le _).trans_lt m.slower
  have hlength := (hturns.sublist hsub).length_le_samples (countedRun_now tr ▸ hspaced)
    (by decide) hwidth (fun e => e.r.row.metricTimestamp) (fun d => by
      by_cases hd : ∃ c, C.stamp c = d
      · obtain ⟨c, rfl⟩ := hd
        exact ⟨c, fun e he hstamp => (hreads e (hsub.subset he)).current hstamp⟩
      · refine ⟨0, fun e he hstamp => (hd ?_).elim⟩
        obtain ⟨c, -, -, -, hc⟩ := hreads e (hsub.subset he)
        exact ⟨c, hc ▸ hstamp⟩)
  refine hlength.trans (Nat.mul_le_mul_left _ (Finset.card_le_card ?_))
  intro d hd
  obtain ⟨e, he, rfl⟩ := List.mem_map.mp (List.mem_toFinset.mp hd)
  exact List.mem_toFinset.mpr (List.mem_map.mpr ⟨e, (countedRun_sublist tr).subset he, rfl⟩)

theorem needsReadings_of_scale {cycles : ℕ} (hscale : m.ScaleSuffices cycles) :
    m.NeedsReadings cycles := by
  intro C s t tr began now r o id a run hstep hnew ha hreading hasked hreads
  have hbreaching := Evaluator.run_meetsBreaching (run.snoc hstep) r.key
  refine ⟨fun e he => ?_, ?_⟩
  · obtain ⟨touch, ho⟩ := candidateRun_outcome e he
    exact hbreaching e ((candidateRun_sublist _).subset he) touch ho
  · obtain ⟨now', r', o', he, hkey, hcount, hspaced, -⟩ :=
      Evaluator.created_counted run hstep hnew ha
    injection he with hbegan hnow hr ho
    subst hnow hr ho
    rw [← hkey, ← countedRun_now, List.length_map] at hcount
    rw [← hkey] at hspaced
    have hmost := countedRun_length_le C ((Evaluator.run_paced (run.snoc hstep)).turns r.key)
      hspaced hreads
    set points := (dataPoints (keyTrace r.key (.evaluated began now r o :: tr))).card
    have hpoints := hcount.trans hmost
    by_contra hfew
    have hlimit := Nat.mul_le_mul_right (countsPerSample minCycleSeconds m.eff)
      (show points ≤ cycles - 1 by omega)
    rw [Nat.mul_comm points] at hlimit
    rw [hreading.required, hasked] at hpoints
    split at hpoints
    · rw [m.scale_eq] at hpoints
      exact absurd hscale (Nat.not_lt.mpr (hpoints.trans hlimit))
    · rename_i hcadence
      -- one cycle is asked for, and no data point at all would have to make it
      have hone : cycles = 1 := by
        rw [← hasked, cyclesAsked]
        split
        · rename_i hcore
          exact absurd hcore hcadence
        · rfl
      have hzero : points = 0 := by omega
      rw [hone, hzero] at hpoints
      omega

section Crowded
variable (m : SlowMetric)

/-- The time it takes to count one data point as often as possible. -/
def window : ℕ := minCycleSeconds * countsPerSample minCycleSeconds m.eff

theorem window_bounds : m.eff + minCycleSeconds ≤ m.window ∧
    m.window < m.eff + 2 * minCycleSeconds := by
  simp only [window, countsPerSample, minCycleSeconds]
  omega

/-- One collection at the start of each window, none for `eff` seconds, then one every
second until the next. -/
def crowdedCollections : Collections m.eff where
  collected c := c % m.window = 0 ∨ m.eff ≤ c % m.window
  stamp := id
  every c hc := by
    have hwindow := m.window_bounds.1
    have heff : 0 < m.eff := (Nat.zero_le _).trans_lt m.slower
    have hpos : 0 < minCycleSeconds := by decide
    rcases hc with hc | hc
    · refine ⟨c + m.eff, .inr ?_, by omega, le_rfl⟩
      rw [Nat.add_mod, hc, Nat.zero_add, Nat.mod_mod, Nat.mod_eq_of_lt (by omega)]
    · refine ⟨c + 1, ?_, by omega, by omega⟩
      have hlt := Nat.mod_lt c (show 0 < m.window by omega)
      by_cases hlast : c % m.window + 1 = m.window
      · exact .inl (by rw [Nat.add_mod, Nat.mod_eq_of_lt (show 1 < m.window by omega), hlast,
          Nat.mod_self])
      · refine .inr ?_
        rw [Nat.add_mod, Nat.mod_eq_of_lt (show 1 < m.window by omega),
          Nat.mod_eq_of_lt (by omega)]
        omega
  stamp_injective := Function.injective_id

/-- The data point the evaluation number `i` reads. -/
def crowdedStamp (i : ℕ) : ℕ := m.window * (i / countsPerSample minCycleSeconds m.eff)

/-- A pass that counts for the last time on a data point has begun while it was current. -/
def crowdedBegan (i : ℕ) : ℕ := min (minCycleSeconds * i) (m.crowdedStamp i + m.eff - 1)

theorem crowdedBegan_bounds (i : ℕ) : m.crowdedStamp i ≤ m.crowdedBegan i ∧
    m.crowdedBegan i < m.crowdedStamp i + m.eff ∧ m.crowdedBegan i ≤ minCycleSeconds * i ∧
    minCycleSeconds * i ≤ m.crowdedBegan i + minCycleSeconds := by
  have heff : 0 < m.eff := (Nat.zero_le _).trans_lt m.slower
  have hwindow := m.window_bounds
  set c := countsPerSample minCycleSeconds m.eff with hc
  have hcpos : 0 < c := countsPerSample_pos _ _
  have hstamp : m.crowdedStamp i = minCycleSeconds * (c * (i / c)) := by
    rw [crowdedStamp, window, Nat.mul_assoc]
  have hdiv := Nat.div_add_mod i c
  have hmod := Nat.mod_lt i hcpos
  have hsplit : minCycleSeconds * i = m.crowdedStamp i + minCycleSeconds * (i % c) := by
    rw [hstamp, ← Nat.mul_add, hdiv]
  have hmax : minCycleSeconds * (i % c) + minCycleSeconds ≤ m.window := by
    rw [← Nat.mul_add_one, window]
    exact Nat.mul_le_mul_left _ hmod
  have hcycle : minCycleSeconds = 240 := rfl
  unfold crowdedBegan
  omega

/-- A critical reading of the metric under a rule asking for `cycles`. -/
def crowdedReading (cycles i : ℕ) : RowInput where
  row := {
    warningValue := 70
    criticalValue := 90
    comparison := .gt
    evaluationPeriod := cycleMinutes * cycles
    useDynamic := false
    dynamicK := 3
    unit := some "Percent"
    awsAccountId := 1
    awsResourceId := "i-0a"
    resourceType := m.resourceType
    service := none
    thresholdId := 1
    provider := .aws
    cadence := .core
    metricName := "cpuutilization"
    metricValue := some 95
    metricTimestamp := m.crowdedStamp i
    envResolved := .nonprod
    environment := .nonprod }
  model := ⟨fun _ _ => some m.base,
    if m.critical then [(m.resourceType, "cpuutilization")] else []⟩
  settings := m.settings
  bucket := none
  silenceReason := none

def crowdedKey : AlertKey := ⟨1, "i-0a", "cpuutilization"⟩

variable (cycles i : ℕ)

theorem crowdedReading_key : (m.crowdedReading cycles i).key = crowdedKey := rfl

theorem crowdedReading_reading : m.Reading (m.crowdedReading cycles i) := by
  refine ⟨rfl, rfl, rfl, rfl, rfl, ?_⟩
  have hlower : lower "cpuutilization" = "cpuutilization" := by decide +kernel
  simp only [PollingModel.isP1, crowdedReading, hlower]
  cases m.critical <;> simp

theorem crowdedReading_limits : (m.crowdedReading cycles i).row.anomalyOnly = false ∧
    ruleLimits (m.crowdedReading cycles i).row none = (some 70, some 90) := by
  have hanomaly : (m.crowdedReading cycles i).row.anomalyOnly = false := by
    simp only [EvalRow.anomalyOnly, crowdedReading]
    decide +kernel
  have hdynamic : (m.crowdedReading cycles i).row.dynamic = false := rfl
  refine ⟨hanomaly, ?_⟩
  simp only [ruleLimits, hanomaly, hdynamic, Bool.false_eq_true, if_false, Bool.or_self,
    Bool.false_and]
  rfl

theorem crowdedReading_asked (hcycles : 0 < cycles) :
    cyclesAsked (m.crowdedReading cycles i).row = cycles := by
  have hasked : cyclesAsked (m.crowdedReading cycles i).row =
      if (m.crowdedReading cycles i).row.anomalyOnly then
        max (requiredCycles (cycleMinutes * cycles)) anomalyMinCycles
      else requiredCycles (cycleMinutes * cycles) := rfl
  rw [hasked, (m.crowdedReading_limits cycles i).1, if_neg Bool.false_ne_true,
    requiredCycles_minutes hcycles]

theorem crowdedReading_required (hcycles : 0 < cycles) :
    (m.crowdedReading cycles i).verdict.required = cycles * m.scale := by
  have hcore : (m.crowdedReading cycles i).row.cadence = .core := rfl
  rw [(m.crowdedReading_reading cycles i).required, if_pos hcore,
    m.crowdedReading_asked cycles i hcycles]

theorem crowdedReading_breaching : (m.crowdedReading cycles i).verdict.breaching = true := by
  obtain ⟨hanomaly, hlimits⟩ := m.crowdedReading_limits cycles i
  have hfloor : alertFloor "cpuutilization" = 0 := by decide +kernel
  have hbelow : belowFloor (m.crowdedReading cycles i).row = false := by
    simp [belowFloor, floorApplies, crowdedReading, hfloor]
  have hcompare : compare (some 95) (some 90) .gt = true := by decide +kernel
  have hcritical : (m.crowdedReading cycles i).verdict.isCritical = true := by
    have hvalue : (m.crowdedReading cycles i).row.metricValue = some 95 := rfl
    have hcomparison : (m.crowdedReading cycles i).row.comparison = .gt := rfl
    have hbucket : (m.crowdedReading cycles i).bucket = none := rfl
    rw [RowInput.verdict, verdict_isCritical, hbelow, hvalue, hcomparison, hbucket, hlimits,
      hanomaly, hcompare]
    rfl
  rw [Verdict.breaching, hcritical, Bool.true_or]

theorem crowdedReading_pass (heval : m.evaluated = true) :
    passRows .full (m.crowdedReading cycles i).model (m.crowdedReading cycles i).settings
      [(m.crowdedReading cycles i).row] = [(m.crowdedReading cycles i).row] := by
  have hservice : wrongService (m.crowdedReading cycles i).row = false := by
    have hempty : lower "" = "" := by decide +kernel
    simp [wrongService, crowdedReading, hempty]
  have hinfo := (m.crowdedReading_reading cycles i).pollInfo
  simp [passRows, selectThresholdRows, chooseRow, hservice, hinfo, heval]

def crowdedTouch (i : ℕ) : Touch := if i = 0 then .inserted else .counted

/-- What the evaluations leave: a candidate that has counted each of them. -/
def crowdedHistory : ℕ → List Evaluation
  | 0 => []
  | i + 1 => ⟨m.crowdedBegan i, minCycleSeconds * i, m.crowdedReading cycles i,
      .pended (crowdedTouch i)⟩ :: crowdedHistory i

/-- The state before the evaluation number `i`. -/
structure CrowdedState (i : ℕ) (s : Evaluator) : Prop where
  alerts : s.db.alerts = []
  clock : s.clock ≤ m.crowdedBegan i
  fresh : i = 0 → s.db.pending crowdedKey = none
  counted : ∀ j, i = j + 1 → ∃ p, s.db.pending crowdedKey = some p ∧ p.breachCycles = i ∧
    p.clock = minCycleSeconds * j ∧ p.lastSeenAt = minCycleSeconds * j

def crowdedPass : Event :=
  .passOver (m.crowdedBegan i) .full (m.crowdedReading cycles i)

def crowdedEvent (o : Outcome) : Event :=
  .evaluated (m.crowdedBegan i) (minCycleSeconds * i) (m.crowdedReading cycles i) o

variable {m cycles i} {s : Evaluator}

/-- The pass expires nothing and finds the one row. -/
theorem CrowdedState.pass (cycles : ℕ) (h : m.CrowdedState i s) (heval : m.evaluated = true) :
    ∃ db, s.step (m.crowdedPass cycles i) =
        some ⟨db, m.crowdedBegan i, m.crowdedBegan i, [(m.crowdedReading cycles i).row]⟩ ∧
      db.alerts = [] ∧ db.pending crowdedKey = s.db.pending crowdedKey := by
  refine ⟨s.db.expirePending (m.crowdedBegan i), ?_, h.alerts, ?_⟩
  · have hpass := m.crowdedReading_pass cycles i heval
    simp only [crowdedPass, Event.passOver, Evaluator.step, if_pos h.clock, hpass]
    rfl
  · simp only [Db.expirePending]
    cases i with
    | zero => rw [h.fresh rfl, Option.filter_none]
    | succ j =>
      obtain ⟨p, hp, -, -, hseen⟩ := h.counted j rfl
      have hbounds := (m.crowdedBegan_bounds (j + 1)).2.2.1
      have hkeep : ¬ p.lastSeenAt + pendingExpirySeconds < m.crowdedBegan (j + 1) := by
        simp only [minCycleSeconds, pendingExpirySeconds] at *
        omega
      rw [hp, Option.filter_some, decide_eq_false hkeep]
      rfl

theorem CrowdedState.touch (h : m.CrowdedState i s) (r : RowInput) :
    let t := r.touch (minCycleSeconds * i) (s.db.pending crowdedKey)
    t.1 = crowdedTouch i ∧ t.2.breachCycles = i + 1 ∧ t.2.clock = minCycleSeconds * i ∧
      t.2.lastSeenAt = minCycleSeconds * i := by
  cases i with
  | zero =>
    rw [h.fresh rfl]
    exact ⟨rfl, rfl, rfl, rfl⟩
  | succ j =>
    obtain ⟨p, hp, hcount, hclock, -⟩ := h.counted j rfl
    have hdue : p.clock + minCycleSeconds ≤ minCycleSeconds * (j + 1) := by
      rw [hclock, Nat.mul_add_one]
    obtain ⟨htouch, hcycles, hnew⟩ := r.touch_due hdue
    rw [hp]
    exact ⟨htouch, hcycles.trans (by rw [hcount]), hnew, rfl⟩

/-- One more evaluation of the run: it counts, or it is the one that promotes. -/
theorem CrowdedState.evaluate (cycles : ℕ) (h : m.CrowdedState i s)
    (heval : m.evaluated = true) :
    ∃ s₁, s.step (m.crowdedPass cycles i) = some s₁ ∧ s₁.db.alerts = [] ∧
      (i + 1 < (m.crowdedReading cycles i).verdict.required →
        ∃ t, s₁.step (m.crowdedEvent cycles i (.pended (crowdedTouch i))) = some t ∧
          m.CrowdedState (i + 1) t) ∧
      ((m.crowdedReading cycles i).verdict.required ≤ i + 1 →
        ∃ t a, s₁.step (m.crowdedEvent cycles i (.promoted (crowdedTouch i))) = some t ∧
          t.db.alerts[0]? = some a) := by
  obtain ⟨db, hpass, halerts, hpending⟩ := h.pass cycles heval
  have hbounds := m.crowdedBegan_bounds i
  have hnext := m.crowdedBegan_bounds (i + 1)
  set r := m.crowdedReading cycles i
  obtain ⟨htouch, hcount, hclock, hseen⟩ := h.touch r
  rw [← hpending] at htouch hcount hclock hseen
  have hsel : db.selectOpen r.key = none := by
    rw [Db.selectOpen, halerts]
    rfl
  have hbreach : r.verdict.breaching = true := m.crowdedReading_breaching cycles i
  have hkey : r.key = crowdedKey := rfl
  have hrow : ∀ o db', evaluateRow (minCycleSeconds * i) r db = some (o, db') →
      Evaluator.step ⟨db, m.crowdedBegan i, m.crowdedBegan i, [r.row]⟩
        (m.crowdedEvent cycles i o) =
        some ⟨db', minCycleSeconds * i, m.crowdedBegan i, []⟩ := by
    intro o db' hdone
    have hevent : m.crowdedEvent cycles i o =
        .evaluated (m.crowdedBegan i) (minCycleSeconds * i) r o := rfl
    simp only [hevent, Evaluator.step, hbounds.2.2.1, and_self, if_true, hdone, Option.bind_some]
  set p := (r.touch (minCycleSeconds * i) (db.pending crowdedKey)).2
  refine ⟨_, hpass, halerts, fun hmore => ?_, fun hlast => ?_⟩
  · refine ⟨_, hrow _ (db.setPending r.key (some p)) ?_, ?_⟩
    · simp only [evaluateRow, hsel, hbreach, if_true]
      rw [hkey, if_pos (hcount ▸ hmore), htouch]
    · refine ⟨halerts, ?_, fun hi => (by cases hi), fun j hj => ?_⟩
      · rw [Nat.mul_add_one] at hnext
        exact Nat.le_of_add_le_add_right hnext.2.2.2
      · obtain rfl := Nat.succ.inj hj
        exact ⟨p, Db.setPending_self .., hcount, hclock, hseen⟩
  · refine ⟨_, promotedAlert (minCycleSeconds * i) 95 r p,
      hrow _ (((db.setPending r.key (some p)).insertAlert
        (promotedAlert (minCycleSeconds * i) 95 r p)).clearPending r.key) ?_, ?_⟩
    · simp only [evaluateRow, hsel, hbreach, if_true]
      rw [hkey, if_neg (by rw [hcount]; exact Nat.not_lt.mpr hlast), htouch]
      rfl
    · simp [Db.insertAlert, halerts]

theorem crowdedHistory_mem {n : ℕ} {e : Evaluation} (he : e ∈ m.crowdedHistory cycles n) :
    ∃ i < n, e.began = m.crowdedBegan i ∧ e.r = m.crowdedReading cycles i := by
  induction n with
  | zero => cases he
  | succ n ih =>
    rcases List.mem_cons.mp he with rfl | he
    · exact ⟨n, Nat.lt_succ_self n, rfl, rfl⟩
    · obtain ⟨i, hi, hbegan, hr⟩ := ih he
      exact ⟨i, hi.trans (Nat.lt_succ_self n), hbegan, hr⟩

theorem crowded_reads {e : Evaluation} (hbegan : e.began = m.crowdedBegan i)
    (hr : e.r = m.crowdedReading cycles i) : m.crowdedCollections.Reads e := by
  have hbounds := m.crowdedBegan_bounds i
  refine ⟨m.crowdedStamp i, .inl ?_, hbegan ▸ hbounds.1, fun c hc hle => ?_, by rw [hr]; rfl⟩
  · rw [crowdedStamp, Nat.mul_mod_right]
  · rw [hbegan] at hle
    by_contra hlater
    obtain ⟨d, rfl⟩ := Nat.exists_eq_add_of_lt (Nat.lt_of_not_le hlater)
    have hwindow := m.window_bounds.1
    have hmod : (m.crowdedStamp i + d + 1) % m.window = d + 1 := by
      rw [crowdedStamp, Nat.add_assoc, Nat.mul_add_mod, Nat.mod_eq_of_lt (by omega)]
    rcases hc with hc | hc <;> rw [hmod] at hc <;> omega

theorem crowded_run (heval : m.evaluated = true) (hcycles : 0 < cycles) {n : ℕ}
    (hn : n < cycles * m.scale) :
    ∃ s tr, Steps (Takes Evaluator.step) (.start emptyDb) tr s ∧ m.CrowdedState n s ∧
      keyTrace crowdedKey tr = m.crowdedHistory cycles n := by
  induction n with
  | zero =>
    exact ⟨_, [], .refl, ⟨rfl, Nat.zero_le _, fun _ => rfl, fun j hj => (by cases hj)⟩, rfl⟩
  | succ n ih =>
    obtain ⟨s, tr, run, hstate, htrace⟩ := ih (by omega)
    obtain ⟨s₁, hpass, -, hmore, -⟩ := hstate.evaluate cycles heval
    obtain ⟨t, hstep, ht⟩ := hmore (m.crowdedReading_required cycles n hcycles ▸ hn)
    refine ⟨t, _, (run.snoc hpass).snoc hstep, ht, ?_⟩
    rw [crowdedEvent, keyTrace_evaluated, if_pos (m.crowdedReading_key cycles n), crowdedHistory,
      ← htrace]
    rfl

/-- Where the scaled cycles are not enough, a run counts the same data points too often. -/
theorem scale_of_needsReadings (hcycles : 0 < cycles) (heval : m.evaluated = true)
    (h : m.NeedsReadings cycles) : m.ScaleSuffices cycles := by
  by_contra hscale
  have hpos : 0 < cycles * m.scale := Nat.mul_pos hcycles m.scale_pos
  obtain ⟨n, hn⟩ := Nat.exists_eq_add_of_lt hpos
  rw [Nat.zero_add] at hn
  obtain ⟨s, tr, run, hstate, htrace⟩ := crowded_run heval hcycles
    (show n < cycles * m.scale by omega)
  obtain ⟨s₁, hpass, halerts, -, hlast⟩ := hstate.evaluate cycles heval
  obtain ⟨t, a, hstep, ha⟩ := hlast (m.crowdedReading_required cycles n hcycles ▸ hn.le)
  have hnew : keyTrace crowdedKey (m.crowdedEvent cycles n (.promoted (crowdedTouch n)) ::
      m.crowdedPass cycles n :: tr) = ⟨m.crowdedBegan n, minCycleSeconds * n,
        m.crowdedReading cycles n, .promoted (crowdedTouch n)⟩ :: m.crowdedHistory cycles n := by
    rw [crowdedEvent, keyTrace_evaluated, if_pos (m.crowdedReading_key cycles n), ← htrace]
    rfl
  have hmem : ∀ e ∈ keyTrace crowdedKey (m.crowdedEvent cycles n (.promoted (crowdedTouch n)) ::
      m.crowdedPass cycles n :: tr),
      ∃ i ≤ n, e.began = m.crowdedBegan i ∧ e.r = m.crowdedReading cycles i := by
    intro e he
    rw [hnew] at he
    rcases List.mem_cons.mp he with rfl | he
    · exact ⟨n, le_rfl, rfl, rfl⟩
    · obtain ⟨i, hi, hread⟩ := crowdedHistory_mem he
      exact ⟨i, hi.le, hread⟩
  obtain ⟨-, hpoints⟩ := h m.crowdedCollections s₁ t _ _ _ _ _ 0 a (run.snoc hpass) hstep
    (by rw [halerts]; exact le_rfl) ha (m.crowdedReading_reading cycles n)
    (m.crowdedReading_asked cycles n hcycles) fun e he => by
      obtain ⟨i, -, hbegan, hr⟩ := hmem e he
      exact crowded_reads hbegan hr
  -- all the evaluations read the data points of the first `cycles - 1` windows
  have hsub : dataPoints (keyTrace crowdedKey (m.crowdedEvent cycles n
      (.promoted (crowdedTouch n)) :: m.crowdedPass cycles n :: tr)) ⊆
      (Finset.range (cycles - 1)).image fun w => m.window * w := by
    intro d hd
    obtain ⟨e, he, rfl⟩ := List.mem_map.mp (List.mem_toFinset.mp hd)
    obtain ⟨i, hi, -, hr⟩ := hmem e ((candidateRun_sublist _).subset he)
    refine Finset.mem_image.mpr ⟨i / countsPerSample minCycleSeconds m.eff, ?_, by rw [hr]; rfl⟩
    rw [Finset.mem_range, Nat.div_lt_iff_lt_mul (countsPerSample_pos _ _)]
    have := Nat.not_lt.mp hscale
    rw [← m.scale_eq] at this
    omega
  have hcard := hpoints.trans ((Finset.card_le_card hsub).trans Finset.card_image_le)
  rw [Finset.card_range] at hcard
  omega

end Crowded

/-- A slowed metric gets its independent readings exactly where the scaled cycles are more
than one data point less can be counted. -/
theorem needsReadings_iff (m : SlowMetric) {cycles : ℕ} (hcycles : 0 < cycles)
    (heval : m.evaluated = true) : m.NeedsReadings cycles ↔ m.ScaleSuffices cycles :=
  ⟨scale_of_needsReadings hcycles heval, needsReadings_of_scale⟩

theorem effectiveInterval_slow {interval : ℕ} (hslow : 120 < interval)
    (hmax : interval ≤ maxIntervalSeconds) :
    effectiveInterval (.read true true none (some interval) .slow true) .nonprod 120 true "ec2" =
      some interval := by
  have hinterval : intEnv (some interval) defaultNonprodCriticalIntervalSeconds = interval := by
    simp only [intEnv, minIntervalSeconds, maxIntervalSeconds] at hmax ⊢
    omega
  have hcollected : effectiveInterval (.read true true none (some interval) .slow true) .nonprod
      120 true "ec2" =
      some (max 120 (intEnv (some interval) defaultNonprodCriticalIntervalSeconds)) := rfl
  rw [hcollected, hinterval, max_eq_right hslow.le]

/-- CPU of a non-production host, every `interval` seconds instead of every two minutes. -/
def slowCpu (interval : ℕ) (hslow : 120 < interval) (hmax : interval ≤ maxIntervalSeconds) :
    SlowMetric where
  settings := .read true true none (some interval) .slow true
  resourceType := "ec2"
  base := 120
  eff := interval
  critical := true
  slowed := effectiveInterval_slow hslow hmax
  slower := hslow

/-- Hourly collection leaves a rule of two cycles its two readings. -/
theorem needsReadings_iff_hourly :
    (slowCpu 3600 (by decide) (by decide)).NeedsReadings 2 :=
  (needsReadings_iff _ (by decide) (by decide +kernel)).mpr (by decide +kernel)

end SlowMetric

/-- One collection every `eff` seconds. -/
def Collections.regular (eff : ℕ) (hpos : 0 < eff) : Collections eff where
  collected c := c % eff = 0
  stamp := id
  every c hc := ⟨c + eff, by rw [Nat.add_mod_right, hc], by omega, le_rfl⟩
  stamp_injective := Function.injective_id

theorem Collections.regular_reads {eff : ℕ} {hpos : 0 < eff} {e : Evaluation}
    (h : e.r.row.metricTimestamp = e.began / eff * eff) : (Collections.regular eff hpos).Reads e := by
  refine ⟨e.began / eff * eff, Nat.mul_mod_left _ _, Nat.div_mul_le_self _ _, fun c hc hle => ?_, h⟩
  obtain ⟨w, rfl⟩ := Nat.dvd_of_mod_eq_zero hc
  rw [Nat.mul_comm eff w] at hle ⊢
  exact Nat.mul_le_mul_right eff ((Nat.le_div_iff_mul_le hpos).mpr hle)

/-- The reading of a critical CPU collected every ten minutes, as a pass at `now` finds it. -/
def tenMinuteCpu (now : ℕ) : RowInput where
  row := { (hostCpu 95 20).row with
    metricTimestamp := now / 600 * 600
    envResolved := .nonprod
    environment := .nonprod }
  model := (hostCpu 95 20).model
  settings := .read true true none (some 600) .slow true
  bucket := none
  silenceReason := none

def tenMinutePass (now : ℕ) (o : Outcome) : List Event :=
  [.passOver now .p1Only (tenMinuteCpu now), .evaluated now now (tenMinuteCpu now) o]

/-- A rule of four cycles, an eight-cycle requirement after scaling, and eight passes four
minutes apart: the alert rests on three data points. -/
theorem promotion_on_three_readings :
    ∃ (s t : Evaluator) (tr : List Event) (a : Alert),
      Steps (Takes Evaluator.step) (.start emptyDb) tr s ∧
      s.step (.evaluated 1680 1680 (tenMinuteCpu 1680) (.promoted .counted)) = some t ∧
      s.db.alerts = [] ∧ t.db.alerts[0]? = some a ∧
      (SlowMetric.slowCpu 600 (by decide) (by decide)).Reading (tenMinuteCpu 1680) ∧
      cyclesAsked (tenMinuteCpu 1680).row = 4 ∧
      (∀ e ∈ keyTrace (tenMinuteCpu 1680).key
        (.evaluated 1680 1680 (tenMinuteCpu 1680) (.promoted .counted) :: tr),
        (Collections.regular 600 (by decide)).Reads e) ∧
      (dataPoints (keyTrace (tenMinuteCpu 1680).key
        (.evaluated 1680 1680 (tenMinuteCpu 1680) (.promoted .counted) :: tr))).card = 3 := by
  obtain ⟨s, t, run, hstep, hp⟩ := exists_play_last Evaluator.step (.start emptyDb)
    (tenMinutePass 0 (.pended .inserted) ++
      [240, 480, 720, 960, 1200, 1440].flatMap (tenMinutePass · (.pended .counted)) ++
      [.passOver 1680 .p1Only (tenMinuteCpu 1680)])
    (.evaluated 1680 1680 (tenMinuteCpu 1680) (.promoted .counted))
    (fun s t => s.db.alerts.isEmpty && t.db.alerts[0]?.isSome) (by decide +kernel)
  rw [Bool.and_eq_true, List.isEmpty_iff, Option.isSome_iff_exists] at hp
  obtain ⟨hempty, a, ha⟩ := hp
  refine ⟨s, t, _, a, run, hstep, hempty, ha, ?_, by decide +kernel, fun e he => ?_,
    by decide +kernel⟩
  · exact ⟨rfl, rfl, rfl, rfl, rfl, by decide +kernel⟩
  · refine Collections.regular_reads ?_
    revert e
    decide +kernel

end MonitoringHub.Alerts
