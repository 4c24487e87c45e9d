import Mathlib.Data.Finset.Image
import Mathlib.Data.Rat.Floor
import Mathlib.Tactic.Linarith
import Mathlib.Tactic.Positivity
import MonitoringHub.Lib.Multiplicity
import MonitoringHub.Lib.Text

/-! The status of a service-level objective. Its bad time is the failed probes of a synthetic check,
bounded by the window, or the time that the critical alerts of a resource were open in the window,
added up alert by alert. Times are microseconds. -/

namespace MonitoringHub.Slo
open Lib Lib.Text Lib.Multiplicity

def second : ℤ := 1000000

structure SloDefinition where
  windowDays : ℕ
  targetPct : ℚ
  syntheticCheckId : Option ℕ
  accountId : ℕ
  resourceId : Option String
  metricName : Option String

/-- An alert; it is not resolved before it is triggered. -/
structure SloAlert where
  accountId : ℕ
  resourceId : String
  metricName : String
  severity : Option String
  silenced : Bool
  resolutionReason : Option String
  triggeredAt : ℤ
  resolvedAt : Option ℤ
  ordered : ∀ t, resolvedAt = some t → triggeredAt ≤ t

/-- A result of a synthetic check, with the row of its check. -/
structure ProbeResult where
  checkId : ℕ
  accountId : ℕ
  success : Bool
  checkedAt : ℤ
  intervalSeconds : ℕ
  targetChangedAt : Option ℤ

inductive BudgetStatus
  | noData | ok | warning | breached
  deriving DecidableEq

structure SloStatus where
  status : BudgetStatus
  uptimePct : Option ℚ
  budgetConsumedPct : Option ℚ
  budgetRemainingPct : Option ℚ
  windowStart : ℤ

/-- One call: `utcnow()` when it starts and `NOW()` of its query, after the window's start. -/
structure Reading where
  slo : SloDefinition
  utcnow : ℤ
  dbNow : ℤ
  started : utcnow - slo.windowDays * 86400 * second ≤ dbNow

/-- Python's `round(x, d)` for `scale = 10 ^ d`; a tie goes to the even neighbour. -/
def roundAt (scale : ℕ) (x : ℚ) : ℚ :=
  let scaled := x * scale
  let below := scaled.floor
  let up := 1 / 2 < scaled - below ∨ scaled - below = 1 / 2 ∧ below % 2 = 1
  (if up then below + 1 else below) / scale

/-- The microseconds from one time up to another. -/
def instants (first last : ℤ) : Finset ℤ :=
  (Finset.range (last - first).toNat).image fun i : ℕ => first + i

theorem mem_instants {first last t : ℤ} : t ∈ instants first last ↔ first ≤ t ∧ t < last := by
  rw [instants, Finset.mem_image]
  constructor
  · rintro ⟨i, hi, rfl⟩
    have hlt := Finset.mem_range.mp hi
    omega
  · rintro ⟨hfirst, hlast⟩
    exact ⟨(t - first).toNat, Finset.mem_range.mpr (by omega), by omega⟩

@[simp] theorem card_instants (first last : ℤ) :
    (instants first last).card = (last - first).toNat := by
  rw [instants, Finset.card_image_of_injective, Finset.card_range]
  intro i j hij
  have hij : first + (i : ℤ) = first + (j : ℤ) := hij
  omega

namespace Reading
variable (q : Reading)

def windowMinutes : ℕ := q.slo.windowDays * 24 * 60

def windowStart : ℤ := q.utcnow - q.slo.windowDays * 86400 * second

def allowedBadMinutes : ℚ := q.windowMinutes * (1 - q.slo.targetPct / 100)

/-- The reasons of alerts that were never genuine. -/
def uncountedReasons : List String :=
  ["duplicate", "placeholder_threshold", "threshold_disabled", "bulk_clear"]

/-- `COALESCE(a.resolved_at, NOW())` -/
def resolvedOr (a : SloAlert) : ℤ := a.resolvedAt.getD q.dbNow

def counts (a : SloAlert) : Bool :=
  q.slo.resourceId = some a.resourceId && a.accountId = q.slo.accountId &&
    a.severity.map upper = some "CRITICAL" && !a.silenced &&
    !uncountedReasons.contains (a.resolutionReason.getD "") &&
    q.slo.metricName.all (fun name => name = "" || a.metricName = name) &&
    decide (q.windowStart ≤ q.resolvedOr a) && decide (a.triggeredAt ≤ q.dbNow)

def opens (a : SloAlert) : ℤ := max a.triggeredAt q.windowStart
def closes (a : SloAlert) : ℤ := min (q.resolvedOr a) q.dbNow

/-- `TIMESTAMPDIFF(SECOND, ..)` drops the fraction. -/
def alertSeconds (a : SloAlert) : ℤ := (q.closes a - q.opens a).tdiv second

def badSeconds (alerts : List SloAlert) : ℤ := ((alerts.filter q.counts).map q.alertSeconds).sum

/-- The results the synthetic query aggregates. -/
def probes (results : List ProbeResult) : List ProbeResult :=
  results.filter fun r => q.slo.syntheticCheckId = some r.checkId &&
    r.accountId = q.slo.accountId && decide (q.windowStart ≤ r.checkedAt) &&
    r.targetChangedAt.all fun t => decide (t ≤ r.checkedAt)

/-- `MAX(c.interval_seconds) or 300` -/
def intervalSeconds (probes : List ProbeResult) : ℕ :=
  let longest := (probes.map ProbeResult.intervalSeconds).foldr max 0
  if longest = 0 then 300 else longest

def verdict (badMinutes : ℚ) (uptimePct : Option ℚ) : SloStatus :=
  let consumed : ℚ :=
    if 0 < q.allowedBadMinutes then roundAt 10 (100 * badMinutes / q.allowedBadMinutes)
    else if badMinutes ≤ 0 then 0 else 100
  { status := if 100 ≤ consumed then .breached else if 75 ≤ consumed then .warning else .ok
    uptimePct := uptimePct
    budgetConsumedPct := some consumed
    budgetRemainingPct := some (roundAt 10 (100 - consumed))
    windowStart := q.windowStart }

/-- The uptime of the branch on alerts -/
def alertUptimePct (alerts : List SloAlert) : ℚ :=
  roundAt 1000 (100 * (1 - (q.badSeconds alerts : ℚ) / 60 / q.windowMinutes))

/-- `_compute_status` -/
def computeStatus (alerts : List SloAlert) (results : List ProbeResult) : SloStatus :=
  match q.slo.syntheticCheckId with
  | some _ =>
    let probes := q.probes results
    let successful := probes.countP ProbeResult.success
    if probes.length = 0 then ⟨.noData, none, none, none, q.windowStart⟩
    else q.verdict
      (min (q.windowMinutes : ℚ)
        ((probes.length - successful : ℕ) * ((intervalSeconds probes : ℚ) / 60)))
      (some (roundAt 1000 (100 * successful / probes.length)))
  | none =>
    q.verdict ((q.badSeconds alerts : ℚ) / 60)
      (if q.windowMinutes = 0 then none else some (q.alertUptimePct alerts))

/-- The instants of the window at which an alert is open. -/
def openTime (a : SloAlert) : Finset ℤ := instants (q.opens a) (q.closes a)

def openTimes (alerts : List SloAlert) : List (Finset ℤ) :=
  (alerts.filter q.counts).map q.openTime

/-- The time that was bad: when some counted alert was open. -/
def badTime (alerts : List SloAlert) : Finset ℤ := union (q.openTimes alerts)

end Reading

section Round
variable {scale : ℕ} {x : ℚ} {n : ℤ}

theorem roundAt_le (hscale : 0 < scale) (h : x ≤ n) : roundAt scale x ≤ n := by
  have hpos : (0 : ℚ) < scale := by exact_mod_cast hscale
  have hle : x * scale ≤ ((n * scale : ℤ) : ℚ) := by
    push_cast
    exact mul_le_mul_of_nonneg_right h hpos.le
  have hbelow : (x * scale).floor ≤ n * scale := by
    exact_mod_cast (Int.floor_le (x * scale)).trans hle
  have hup : (1 / 2 < x * scale - (x * scale).floor ∨
      x * scale - (x * scale).floor = 1 / 2 ∧ (x * scale).floor % 2 = 1) →
      (x * scale).floor + 1 ≤ n * scale := by
    intro hup
    have hfraction : (0 : ℚ) < x * scale - (x * scale).floor := by
      rcases hup with hmore | ⟨hhalf, -⟩
      · exact (by norm_num : (0 : ℚ) < 1 / 2).trans hmore
      · rw [hhalf]
        norm_num
    have hlt : ((x * scale).floor : ℚ) < ((n * scale : ℤ) : ℚ) :=
      (sub_pos.mp hfraction).trans_le hle
    exact_mod_cast hlt
  rw [roundAt, div_le_iff₀ hpos]
  split
  · rename_i h'
    exact_mod_cast hup h'
  · exact_mod_cast hbelow

theorem le_roundAt (hscale : 0 < scale) (h : n ≤ x) : n ≤ roundAt scale x := by
  have hpos : (0 : ℚ) < scale := by exact_mod_cast hscale
  have hle : ((n * scale : ℤ) : ℚ) ≤ x * scale := by
    push_cast
    exact mul_le_mul_of_nonneg_right h hpos.le
  have hbelow : n * scale ≤ (x * scale).floor := Int.le_floor.mpr hle
  rw [roundAt, le_div_iff₀ hpos]
  split
  · have hnext : n * scale ≤ (x * scale).floor + 1 := hbelow.trans (Int.lt_succ _).le
    exact_mod_cast hnext
  · exact_mod_cast hbelow

end Round

namespace Reading
variable {q : Reading} {alerts : List SloAlert} {a : SloAlert}

theorem opens_le_closes (h : q.counts a = true) : q.opens a ≤ q.closes a := by
  simp only [counts, Bool.and_eq_true, decide_eq_true_eq] at h
  have hordered : a.triggeredAt ≤ q.resolvedOr a := by
    rw [resolvedOr]
    cases hresolved : a.resolvedAt with
    | none => exact h.2
    | some t => exact a.ordered t hresolved
  exact max_le (le_min hordered h.2) (le_min h.1.2 q.started)

/-- An alert counts the whole seconds that it was open in the window. -/
theorem alertSeconds_eq (h : q.counts a = true) :
    q.alertSeconds a = ((q.openTime a).card / 1000000 : ℕ) := by
  have hnonneg : 0 ≤ q.closes a - q.opens a := sub_nonneg.mpr (opens_le_closes h)
  rw [alertSeconds, openTime, card_instants, Int.tdiv_eq_ediv_of_nonneg hnonneg, Int.natCast_ediv,
    Int.toNat_of_nonneg hnonneg]
  rfl

theorem badSeconds_eq (q : Reading) (alerts : List SloAlert) : q.badSeconds alerts =
    (((q.openTimes alerts).map fun s => s.card / 1000000).sum : ℕ) := by
  have hcounted : ∀ a ∈ alerts.filter q.counts, q.counts a = true := fun a ha =>
    (List.mem_filter.mp ha).2
  rw [badSeconds, openTimes]
  generalize alerts.filter q.counts = counted at hcounted
  induction counted with
  | nil => rfl
  | cons a counted ih =>
    obtain ⟨ha, hrest⟩ := List.forall_mem_cons.mp hcounted
    rw [List.map_cons, List.sum_cons, ih hrest, alertSeconds_eq ha]
    simp only [List.map_cons, List.sum_cons]
    push_cast
    rfl

theorem openTimes_subset (q : Reading) (alerts : List SloAlert) :
    ∀ s ∈ q.openTimes alerts, s ⊆ instants q.windowStart q.dbNow := by
  intro s hs
  obtain ⟨a, -, rfl⟩ := List.mem_map.mp hs
  intro t ht
  obtain ⟨hopens, hcloses⟩ := mem_instants.mp ht
  exact mem_instants.mpr
    ⟨(le_max_right _ _).trans hopens, hcloses.trans_le (min_le_right _ _)⟩

theorem card_badTime_le (q : Reading) (alerts : List SloAlert) :
    ((q.badTime alerts).card : ℤ) ≤ q.dbNow - q.windowStart := by
  have hcard := Finset.card_le_card (union_subset (q.openTimes_subset alerts))
  rw [card_instants] at hcard
  have hnonneg : 0 ≤ q.dbNow - q.windowStart := sub_nonneg.mpr q.started
  rw [badTime]
  omega

/-- Each set loses less than a second. -/
theorem seconds_of_cards (sets : List (Finset ℤ)) :
    (sets.map fun s => s.card / 1000000).sum * 1000000 ≤ (sets.map Finset.card).sum ∧
      (sets.map Finset.card).sum ≤
        (sets.map fun s => s.card / 1000000).sum * 1000000 + sets.length * 1000000 := by
  induction sets with
  | nil => simp
  | cons s sets ih =>
    have hdiv := Nat.div_add_mod s.card 1000000
    have hmod : s.card % 1000000 < 1000000 := Nat.mod_lt _ (Nat.succ_pos _)
    rw [List.map_cons, List.sum_cons, List.map_cons, List.sum_cons, List.length_cons, Nat.add_mul,
      Nat.add_mul, Nat.one_mul]
    constructor <;> omega

theorem badSeconds_nonneg (q : Reading) (alerts : List SloAlert) : 0 ≤ q.badSeconds alerts := by
  rw [badSeconds_eq]
  exact Int.natCast_nonneg _

theorem alertUptimePct_le (q : Reading) (alerts : List SloAlert) :
    q.alertUptimePct alerts ≤ 100 := by
  have hbad : (0 : ℚ) ≤ q.badSeconds alerts := by exact_mod_cast q.badSeconds_nonneg alerts
  have hshare : 0 ≤ (q.badSeconds alerts : ℚ) / 60 / q.windowMinutes := by positivity
  refine roundAt_le (n := 100) (by norm_num) ?_
  push_cast
  linarith

/-- The uptime is not negative as long as the bad time does not exceed the window. -/
theorem alertUptimePct_nonneg (h : q.badSeconds alerts ≤ q.slo.windowDays * 86400) :
    0 ≤ q.alertUptimePct alerts := by
  have hbad : (q.badSeconds alerts : ℚ) ≤ q.windowMinutes * 60 := by
    have hseconds : (q.badSeconds alerts : ℚ) ≤ (q.slo.windowDays * 86400 : ℤ) := by
      exact_mod_cast h
    rw [windowMinutes]
    push_cast at hseconds ⊢
    linarith
  have hshare : (q.badSeconds alerts : ℚ) / 60 / q.windowMinutes ≤ 1 := by
    rw [div_div]
    refine div_le_one_of_le₀ ?_ (by positivity)
    linarith
  have hround : ((0 : ℤ) : ℚ) ≤
      roundAt 1000 (100 * (1 - (q.badSeconds alerts : ℚ) / 60 / q.windowMinutes)) := by
    refine le_roundAt (by norm_num) ?_
    push_cast
    linarith
  rw [alertUptimePct]
  simpa only [Int.cast_zero] using hround

/-- The uptime of a synthetic check is a percentage. -/
theorem probeUptime_bounds (results : List ProbeResult) {u : ℚ}
    (hcheck : q.slo.syntheticCheckId ≠ none)
    (h : (q.computeStatus alerts results).uptimePct = some u) : 0 ≤ u ∧ u ≤ 100 := by
  obtain ⟨check, hcheck⟩ := Option.ne_none_iff_exists'.mp hcheck
  simp only [computeStatus, hcheck] at h
  split at h
  · cases h
  · rename_i hsome
    have hu := Option.some.inj h
    have hpos : (0 : ℚ) < (q.probes results).length := by
      exact_mod_cast Nat.pos_of_ne_zero hsome
    have hle : ((q.probes results).countP ProbeResult.success : ℚ) ≤ (q.probes results).length := by
      exact_mod_cast List.countP_le_length
    rw [← hu]
    constructor
    · have hround : ((0 : ℤ) : ℚ) ≤ roundAt 1000
          (100 * ((q.probes results).countP ProbeResult.success : ℚ) /
            (q.probes results).length) := by
        refine le_roundAt (by norm_num) ?_
        push_cast
        positivity
      exact_mod_cast hround
    · have hround : roundAt 1000
          (100 * ((q.probes results).countP ProbeResult.success : ℚ) /
            (q.probes results).length) ≤ ((100 : ℤ) : ℚ) := by
        refine roundAt_le (by norm_num) ?_
        push_cast
        rw [div_le_iff₀ hpos]
        linarith
      exact_mod_cast hround

/-- 99.9 % of the last day for one instance, two days after the epoch, asked `late` afterwards. -/
def lastDay (late : ℕ) : Reading where
  slo := ⟨1, 999 / 10, none, 1, some "i-1", none⟩
  utcnow := 172800 * second
  dbNow := (172800 + late) * second
  started := by
    simp only [second]
    omega

/-- A critical alert of the instance since the epoch. -/
def openAlert (metricName : String) : SloAlert :=
  ⟨1, "i-1", metricName, some "CRITICAL", false, none, 0, none, by simp⟩

theorem openAlert_apart (late : ℕ) (metricName : String) :
    ∀ t, multiplicity ((lastDay late).openTimes [openAlert metricName]) t ≤ 1 := by
  intro t
  refine List.countP_le_length.trans ?_
  rw [openTimes, List.length_map]
  exact List.length_filter_le _ _

end Reading

end MonitoringHub.Slo
