import Mathlib.Data.Prod.Lex
import Mathlib.Data.String.Basic
import MonitoringHub.Alerts.Flapping
import MonitoringHub.Lib.Upserts

/-! Health scores. The alerts are joined with the rows of their resource and counted by account and
resource id; the scores are upserted, and the rows of all other keys are deleted. The database
compares resource ids by its collation, which folds case and accents; the set of keys that tells
the other rows compares them exactly. -/

namespace MonitoringHub.Alerts
open Lib Lib.Text Lib.KeyedStore Lib.GroupTally FlappingTables

def criticalPenalty : ℕ := 40
def warningPenalty : ℕ := 15
def maxAlertPenalty : ℕ := 80
def blastRadiusPenaltyPerDependent : ℕ := 1
def maxBlastRadiusPenalty : ℕ := 20

/-- An edge of `resource_relationships`. -/
structure Dependency where
  accountId : ℕ
  sourceResourceId : String
  targetResourceId : String
  deriving DecidableEq

/-- A row of `resource_health` with the parts of its reason. -/
structure HealthRow where
  accountId : ℕ
  resourceId : String
  criticalAlerts : ℕ
  warningAlerts : ℕ
  alertPenalty : ℕ
  blastRadiusFanOut : ℕ
  blastPenalty : ℕ
  healthScore : ℤ
  deriving DecidableEq

/-- An account and a resource id as the collation folds it. -/
abbrev HealthKey := ℕ × String

/-- The tables, with the primary key of `resource_health`. -/
structure HealthTables (fold : String → String) where
  activeAccounts : List ℕ
  resources : List ResourceRow
  alerts : List StoredAlert
  relationships : List Dependency
  health : List (HealthKey × HealthRow)
  keyed : ∀ e ∈ health, e.1 = (e.2.accountId, fold e.2.resourceId)
  distinct : Distinct health

/-- `UPPER(a.severity) = ..` -/
def ofSeverity (severity : String) (a : StoredAlert) : Bool := a.severity.map upper = some severity

/-- An alert with a row of its resource. -/
abbrev JoinedAlert := ResourceRow × StoredAlert

/-- What the query returns for one group. -/
structure BreachRow where
  accountId : ℕ
  resourceId : String
  criticalCount : ℕ
  warningCount : ℕ
  deriving DecidableEq

namespace HealthTables
variable {fold : String → String} (db : HealthTables fold) (now : ℕ)
  (staleMinutes : ResourceRow → StoredAlert → ℕ)

/-- The alert belongs to the row and fires for it. -/
def fires (r : ResourceRow) (a : StoredAlert) : Bool :=
  db.activeAccounts.contains r.accountId && (a.accountId = r.accountId &&
    fold a.resourceId = fold r.resourceId) && isFiring now staleMinutes r a &&
      !hiddenFromAlertsUiMetrics.contains a.metricName

/-- The rows of the join. -/
def joined : List JoinedAlert :=
  db.resources.flatMap fun r => (db.alerts.filter (db.fires now staleMinutes r)).map fun a => (r, a)

def joinKey (fold : String → String) (row : JoinedAlert) : HealthKey :=
  (row.1.accountId, fold row.1.resourceId)

def groups : List (HealthKey × List JoinedAlert) :=
  tally (joinKey fold) (fun _ => []) (fun rows row => rows ++ [row]) (db.joined now staleMinutes)

/-- The row of a group, which shows the resource id of any of its rows. -/
def breachRow (pick : HealthKey → ℕ) (group : HealthKey × List JoinedAlert) :
    Option (HealthKey × BreachRow) :=
  let critical := group.2.countP fun row => ofSeverity "CRITICAL" row.2
  let warning := group.2.countP fun row => ofSeverity "WARNING" row.2
  if 0 < critical + warning then
    (limitOne group.2 (pick group.1)).map fun row =>
      (group.1, ⟨group.1.1, row.1.resourceId, critical, warning⟩)
  else none

/-- `breaching`, under the keys of its rows -/
def breaching (pick : HealthKey → ℕ) : List (HealthKey × BreachRow) :=
  ((db.groups now staleMinutes).filterMap (breachRow pick)).mergeSort fun a b =>
    decide (toLex (a.2.accountId, a.2.resourceId) ≤ toLex (b.2.accountId, b.2.resourceId))

/-- `COUNT(DISTINCT target_resource_id)` -/
def fanOut (account : ℕ) (resourceId : String) : ℕ :=
  ((db.relationships.filter fun d => d.accountId = account &&
    fold d.sourceResourceId = fold resourceId).map fun d => fold d.targetResourceId).dedup.length

def alertPenalty (critical warning : ℕ) : ℕ :=
  min maxAlertPenalty (critical * criticalPenalty + warning * warningPenalty)

def blastPenalty (fanOut : ℕ) : ℕ :=
  min maxBlastRadiusPenalty (fanOut * blastRadiusPenaltyPerDependent)

def healthScore (critical warning fanOut : ℕ) : ℤ :=
  max 0 (100 - (alertPenalty critical warning : ℤ) - blastPenalty fanOut)

/-- The row upserted for a breaching resource; one that is there keeps the spelling of its id. -/
def scored (b : BreachRow) (earlier : Option HealthRow) : HealthRow :=
  let out := db.fanOut b.accountId b.resourceId
  ⟨b.accountId, earlier.elim b.resourceId HealthRow.resourceId, b.criticalCount, b.warningCount,
    alertPenalty b.criticalCount b.warningCount, out, blastPenalty out,
    healthScore b.criticalCount b.warningCount out⟩

def upsertScore (health : List (HealthKey × HealthRow)) (e : HealthKey × BreachRow) :
    List (HealthKey × HealthRow) :=
  write e.1 (db.scored e.2 (find e.1 health)) health

/-- `firing_keys` -/
def firingKeys (pick : HealthKey → ℕ) : List (ℕ × String) :=
  (db.breaching now staleMinutes pick).map fun e => (e.2.accountId, e.2.resourceId)

/-- `stale`, in the order of its keys -/
def staleKeys (firing : List (ℕ × String)) (health : List (HealthKey × HealthRow)) :
    List (ℕ × String) :=
  ((health.map fun e => (e.2.accountId, e.2.resourceId)).filter fun key =>
    !firing.contains key).mergeSort fun a b => decide (toLex a ≤ toLex b)

/-- `_recompute_health_scores_once`: the number of resources scored, and `resource_health`. -/
def recomputeHealthScores (pick : HealthKey → ℕ) : ℕ × List (HealthKey × HealthRow) :=
  let breaching := db.breaching now staleMinutes pick
  let upserted := breaching.foldl db.upsertScore db.health
  (breaching.length, (staleKeys (db.firingKeys now staleMinutes pick) upserted).foldl
    (fun health key => dropWhere (fun k => k = (key.1, fold key.2)) health) upserted)

/-! ### What the scores should be -/

/-- The resource rows for which an alert fires. -/
def firingRows (a : StoredAlert) : List ResourceRow :=
  db.resources.filter fun r => db.fires now staleMinutes r a

/-- The alerts of one severity that fire for a resource. -/
def firingAlerts (severity : String) (k : HealthKey) : List StoredAlert :=
  db.alerts.filter fun a => a.accountId = k.1 && fold a.resourceId = k.2 &&
    ofSeverity severity a && decide (db.firingRows now staleMinutes a ≠ [])

/-- A resource has a row exactly if a critical or warning alert of it fires; the row counts every
such alert once, and its score is what these counts make of it. -/
def Current (health : List (HealthKey × HealthRow)) : Prop :=
  ∀ k : HealthKey,
    let critical := db.firingAlerts now staleMinutes "CRITICAL" k
    let warning := db.firingAlerts now staleMinutes "WARNING" k
    ((∃ row, find k health = some row) ↔ critical ≠ [] ∨ warning ≠ []) ∧
    ∀ row, find k health = some row →
      row.criticalAlerts = critical.length ∧ row.warningAlerts = warning.length ∧
        row.healthScore = healthScore critical.length warning.length
          (db.fanOut row.accountId row.resourceId) ∧ 0 ≤ row.healthScore

/-- Each critical or warning alert fires for one row at most, and the earlier health rows of the
resources with such alerts have their ids in the spelling of these rows. -/
structure Plain : Prop where
  single : ∀ a ∈ db.alerts, ofSeverity "CRITICAL" a = true ∨ ofSeverity "WARNING" a = true →
    (db.firingRows now staleMinutes a).length ≤ 1
  spelled : ∀ k row, find k db.health = some row →
    db.firingAlerts now staleMinutes "CRITICAL" k ≠ [] ∨
      db.firingAlerts now staleMinutes "WARNING" k ≠ [] →
    ∀ j ∈ db.joined now staleMinutes, joinKey fold j = k → j.1.resourceId = row.resourceId

/-! ### The groups of the join -/

section Join
variable {ι β : Type*}

/-- Counting the rows of a join, by the other side. -/
theorem countP_join (rows : List ι) (others : List β) (p : ι → β → Bool) (q : ι × β → Bool) :
    (rows.flatMap fun r => (others.filter (p r)).map fun b => (r, b)).countP q =
      (others.map fun b => rows.countP fun r => p r b && q (r, b)).sum := by
  induction rows with
  | nil => simp
  | cons r rows ih =>
    have hone : ((others.filter (p r)).map fun b => (r, b)).countP q =
        (others.map fun b => if (p r b && q (r, b)) = true then 1 else 0).sum := by
      rw [sum_indicator, List.countP_map, List.countP_filter]
      refine List.countP_congr fun b _ => ?_
      simp [and_comm]
    rw [List.flatMap_cons, List.countP_append, ih, hone, ← List.sum_map_add]
    congr 1
    refine List.map_congr_left fun b _ => ?_
    rw [List.countP_cons, Nat.add_comm]

/-- Numbers of at least one add up to their number exactly if each is one. -/
theorem sum_eq_length_iff {f : β → ℕ} {others : List β} (h : ∀ b ∈ others, 0 < f b) :
    (others.map f).sum = others.length ↔ ∀ b ∈ others, f b ≤ 1 := by
  have hle : ∀ bs : List β, (∀ b ∈ bs, 0 < f b) → bs.length ≤ (bs.map f).sum := by
    intro bs
    induction bs with
    | nil => simp
    | cons b bs ih =>
      intro hbs
      have hb := hbs b List.mem_cons_self
      have hrest := ih fun b' hb' => hbs b' (List.mem_cons_of_mem _ hb')
      simp only [List.length_cons, List.map_cons, List.sum_cons]
      omega
  induction others with
  | nil => simp
  | cons b others ih =>
    have hb := h b List.mem_cons_self
    have hothers := fun b' hb' => h b' (List.mem_cons_of_mem _ hb')
    have hrest := hle others hothers
    have hiff : (others.map f).sum = others.length ↔ ∀ b ∈ others, f b ≤ 1 := ih hothers
    rw [List.forall_mem_cons, ← hiff]
    simp only [List.length_cons, List.map_cons, List.sum_cons]
    omega

end Join

section Groups
variable {db} {now} {staleMinutes} {pick : HealthKey → ℕ} {k : HealthKey} {severity : String}

/-- The rows of the join under one key. -/
def joinedAt (db : HealthTables fold) (now : ℕ) (staleMinutes : ResourceRow → StoredAlert → ℕ)
    (k : HealthKey) : List JoinedAlert :=
  (db.joined now staleMinutes).filter fun row => joinKey fold row = k

theorem fires_key {r : ResourceRow} {a : StoredAlert} (h : db.fires now staleMinutes r a = true) :
    joinKey fold (r, a) = (a.accountId, fold a.resourceId) := by
  simp only [fires, Bool.and_eq_true, decide_eq_true_eq] at h
  rw [joinKey, h.1.1.2.1, h.1.1.2.2]

/-- An alert counts as often as it fires. -/
theorem countP_joinedAt (severity : String) (k : HealthKey) :
    ((db.joinedAt now staleMinutes k).countP fun row => ofSeverity severity row.2) =
      ((db.firingAlerts now staleMinutes severity k).map fun a =>
        (db.firingRows now staleMinutes a).length).sum := by
  have heach : ∀ a : StoredAlert, (db.resources.countP fun r => db.fires now staleMinutes r a &&
      (ofSeverity severity a && decide (joinKey fold (r, a) = k))) =
      if a.accountId = k.1 && fold a.resourceId = k.2 && ofSeverity severity a then
        (db.firingRows now staleMinutes a).length else 0 := by
    intro a
    rw [firingRows, ← List.countP_eq_length_filter]
    split
    · rename_i ha
      simp only [Bool.and_eq_true, decide_eq_true_eq] at ha
      refine List.countP_congr fun r _ => ?_
      constructor
      · intro h
        exact (Bool.and_eq_true_iff.mp h).1
      · intro h
        rw [h, fires_key h, ha.2, ha.1.1, ha.1.2]
        simp
    · rename_i ha
      refine List.countP_eq_zero.mpr fun r _ h => ha ?_
      simp only [Bool.and_eq_true, decide_eq_true_eq] at h ⊢
      obtain ⟨hfires, hseverity, hkey⟩ := h
      rw [fires_key hfires] at hkey
      exact ⟨⟨congrArg Prod.fst hkey, congrArg Prod.snd hkey⟩, hseverity⟩
  rw [joinedAt, List.countP_filter, joined, countP_join]
  simp only [heach, firingAlerts]
  induction db.alerts with
  | nil => rfl
  | cons a alerts ih =>
    rw [List.map_cons, List.sum_cons, ih, List.filter_cons]
    by_cases ha : (a.accountId = k.1 && fold a.resourceId = k.2 && ofSeverity severity a) = true
    · by_cases hrows : db.firingRows now staleMinutes a = []
      · simp [ha, hrows]
      · simp [ha, hrows]
    · simp [ha]

theorem firingRows_pos {a : StoredAlert} (h : a ∈ db.firingAlerts now staleMinutes severity k) :
    0 < (db.firingRows now staleMinutes a).length := by
  have hrows := (List.mem_filter.mp h).2
  simp only [Bool.and_eq_true, decide_eq_true_eq] at hrows
  exact List.length_pos_iff.mpr hrows.2

theorem countP_pos_iff : 0 < (db.joinedAt now staleMinutes k).countP
    (fun row => ofSeverity severity row.2) ↔ db.firingAlerts now staleMinutes severity k ≠ [] := by
  rw [countP_joinedAt]
  cases halerts : db.firingAlerts now staleMinutes severity k with
  | nil => simp
  | cons a alerts =>
    have ha := firingRows_pos (halerts ▸ List.mem_cons_self :
      a ∈ db.firingAlerts now staleMinutes severity k)
    simp only [List.map_cons, List.sum_cons, ne_eq, List.cons_ne_nil, not_false_eq_true, iff_true]
    omega

theorem countP_eq_iff : (db.joinedAt now staleMinutes k).countP
    (fun row => ofSeverity severity row.2) = (db.firingAlerts now staleMinutes severity k).length ↔
      ∀ a ∈ db.firingAlerts now staleMinutes severity k,
        (db.firingRows now staleMinutes a).length ≤ 1 := by
  rw [countP_joinedAt]
  exact sum_eq_length_iff fun a ha => firingRows_pos ha

theorem breachRow_key (group : HealthKey × List JoinedAlert) (entry : HealthKey × BreachRow)
    (h : breachRow pick group = some entry) : entry.1 = group.1 := by
  dsimp only [breachRow] at h
  split at h
  · obtain ⟨row, -, rfl⟩ := Option.map_eq_some_iff.mp h
    rfl
  · cases h

theorem distinct_groups : Distinct (db.groups now staleMinutes) := distinct_tally _ _ _ _

theorem distinct_breachRows : Distinct ((db.groups now staleMinutes).filterMap (breachRow pick)) :=
  Distinct.filterMap distinct_groups breachRow_key

theorem distinct_breaching : Distinct (db.breaching now staleMinutes pick) :=
  ((List.mergeSort_perm _ _).map Prod.fst).nodup_iff.mpr distinct_breachRows

theorem find_breaching : find k (db.breaching now staleMinutes pick) =
    (breachRow pick (k, db.joinedAt now staleMinutes k)).map Prod.snd := by
  have hcollect := find_collect (joinKey fold) (fun row => row) (db.joined now staleMinutes) k
  rw [List.map_id'] at hcollect
  rw [breaching, find_perm distinct_breachRows (List.mergeSort_perm _ _),
    find_filterMap distinct_groups breachRow_key]
  cases hgroup : find k (db.groups now staleMinutes) with
  | none =>
    have hnil : db.joinedAt now staleMinutes k = [] := by
      rw [joinedAt, ← hcollect]
      exact congrArg (Option.getD · []) hgroup
    rw [hnil]
    rfl
  | some rows =>
    have hrows : db.joinedAt now staleMinutes k = rows := by
      rw [joinedAt, ← hcollect]
      exact congrArg (Option.getD · []) hgroup
    rw [hrows]
    rfl

end Groups

/-! ### The table after a run -/

section Recomputed
variable {db} {now} {staleMinutes} {pick : HealthKey → ℕ} {k : HealthKey} {b : BreachRow}
  {row : HealthRow}

/-- The counts of a resource are not both zero. -/
def Breaching (db : HealthTables fold) (now : ℕ) (staleMinutes : ResourceRow → StoredAlert → ℕ)
    (k : HealthKey) : Prop :=
  db.firingAlerts now staleMinutes "CRITICAL" k ≠ [] ∨
    db.firingAlerts now staleMinutes "WARNING" k ≠ []

theorem find_breaching_iff : find k (db.breaching now staleMinutes pick) = some b ↔
    db.Breaching now staleMinutes k ∧ ∃ j, limitOne (db.joinedAt now staleMinutes k) (pick k) =
      some j ∧ b = ⟨k.1, j.1.resourceId,
        (db.joinedAt now staleMinutes k).countP fun row => ofSeverity "CRITICAL" row.2,
        (db.joinedAt now staleMinutes k).countP fun row => ofSeverity "WARNING" row.2⟩ := by
  rw [find_breaching, Breaching, ← countP_pos_iff, ← countP_pos_iff, ← Nat.add_pos_iff_pos_or_pos,
    breachRow]
  split
  · rename_i hpos
    simp only [hpos, true_and, Option.map_map, Option.map_eq_some_iff, Function.comp_apply,
      eq_comm (b := b)]
  · rename_i hzero
    exact iff_of_false (Option.some_ne_none b).symm fun h => hzero h.1

theorem mem_joinedAt {j : JoinedAlert} : j ∈ db.joinedAt now staleMinutes k ↔
    j ∈ db.joined now staleMinutes ∧ joinKey fold j = k := by
  rw [joinedAt, List.mem_filter, decide_eq_true_eq]

theorem breach_key (h : find k (db.breaching now staleMinutes pick) = some b) :
    k = (b.accountId, fold b.resourceId) := by
  obtain ⟨-, j, hj, rfl⟩ := find_breaching_iff.mp h
  obtain ⟨-, hkey⟩ := mem_joinedAt.mp (limitOne_mem hj)
  rw [← hkey]
  rfl

/-- Whichever row is shown, a breaching resource has one. -/
theorem exists_breach (h : db.Breaching now staleMinutes k) :
    ∃ b, find k (db.breaching now staleMinutes pick) = some b := by
  cases hj : limitOne (db.joinedAt now staleMinutes k) (pick k) with
  | none =>
    have hnil := limitOne_none hj
    have hpos := h
    rw [Breaching, ← countP_pos_iff, ← countP_pos_iff, hnil] at hpos
    simp at hpos
  | some j => exact ⟨_, find_breaching_iff.mpr ⟨h, j, hj, rfl⟩⟩

theorem find_upserted (pick : HealthKey → ℕ) (k : HealthKey) :
    find k ((db.breaching now staleMinutes pick).foldl db.upsertScore db.health) =
      (find k (db.breaching now staleMinutes pick)).elim (find k db.health)
        fun b => some (db.scored b (find k db.health)) := by
  refine find_foldl_steps (fun b earlier => some (db.scored b earlier)) (fun health e k => ?_)
    distinct_breaching db.health k
  rw [upsertScore, find_write]
  split
  · rename_i hk
    rw [hk]
  · rfl

theorem distinct_upserted (pick : HealthKey → ℕ) :
    Distinct ((db.breaching now staleMinutes pick).foldl db.upsertScore db.health) :=
  List.foldlRecOn _ _ db.distinct fun _ h _ _ => h.write _ _

/-- A row stands under the key of its account and its id. -/
theorem upserted_key (h : find k ((db.breaching now staleMinutes pick).foldl db.upsertScore
    db.health) = some row) : k = (row.accountId, fold row.resourceId) := by
  rw [find_upserted] at h
  cases hbreach : find k (db.breaching now staleMinutes pick) with
  | none =>
    rw [hbreach] at h
    exact db.keyed _ (mem_of_find h)
  | some b =>
    rw [hbreach, Option.elim_some, Option.some.injEq] at h
    subst h
    have hkey := breach_key hbreach
    cases hearlier : find k db.health with
    | none => exact hkey
    | some earlier =>
      have hkey' : k = (earlier.accountId, fold earlier.resourceId) :=
        db.keyed _ (mem_of_find hearlier)
      have haccount : k.1 = b.accountId := congrArg Prod.fst hkey
      have hid : k.2 = fold earlier.resourceId := congrArg Prod.snd hkey'
      exact Prod.ext haccount hid

theorem mem_firingKeys (hkey : k = (row.accountId, fold row.resourceId)) :
    (row.accountId, row.resourceId) ∈ db.firingKeys now staleMinutes pick ↔
      ∃ b, find k (db.breaching now staleMinutes pick) = some b ∧
        b.resourceId = row.resourceId := by
  constructor
  · intro hmem
    obtain ⟨e, he, heq⟩ := List.mem_map.mp hmem
    obtain ⟨haccount, hid⟩ := Prod.mk.inj heq
    have hfind := distinct_breaching.mem_iff.mp he
    have hk : e.1 = k := by rw [breach_key hfind, hkey, haccount, hid]
    exact ⟨e.2, hk ▸ hfind, hid⟩
  · rintro ⟨b, hfind, hid⟩
    have haccount : b.accountId = row.accountId :=
      congrArg Prod.fst ((breach_key hfind).symm.trans hkey)
    exact List.mem_map.mpr ⟨(k, b), mem_of_find hfind, Prod.ext haccount hid⟩

theorem mem_staleKeys {firing : List (ℕ × String)} {health : List (HealthKey × HealthRow)}
    {key : ℕ × String} : key ∈ staleKeys firing health ↔
      (∃ e ∈ health, (e.2.accountId, e.2.resourceId) = key) ∧ key ∉ firing := by
  rw [staleKeys, (List.mergeSort_perm _ _).mem_iff, List.mem_filter, List.mem_map]
  simp

/-- The row of a resource after a run: there is one if it is breaching, and if its earlier row has
its id in the spelling that the query shows. -/
theorem find_recomputed (pick : HealthKey → ℕ) (k : HealthKey) :
    find k (db.recomputeHealthScores now staleMinutes pick).2 = some row ↔
      ∃ b, find k (db.breaching now staleMinutes pick) = some b ∧
        row = db.scored b (find k db.health) ∧ b.resourceId = row.resourceId := by
  rw [recomputeHealthScores, find_foldl_dropWhere]
  have hstale : (∃ key ∈ staleKeys (db.firingKeys now staleMinutes pick)
      ((db.breaching now staleMinutes pick).foldl db.upsertScore db.health),
      (key.1, fold key.2) = k) ↔ ∃ row, find k ((db.breaching now staleMinutes pick).foldl
        db.upsertScore db.health) = some row ∧
          (row.accountId, row.resourceId) ∉ db.firingKeys now staleMinutes pick := by
    constructor
    · rintro ⟨key, hmem, rfl⟩
      obtain ⟨⟨e, he, rfl⟩, hnot⟩ := mem_staleKeys.mp hmem
      have hfind := (distinct_upserted pick).mem_iff.mp he
      exact ⟨e.2, upserted_key hfind ▸ hfind, hnot⟩
    · rintro ⟨row, hfind, hnot⟩
      exact ⟨_, mem_staleKeys.mpr ⟨⟨_, mem_of_find hfind, rfl⟩, hnot⟩, (upserted_key hfind).symm⟩
  constructor
  · intro h
    split at h
    · cases h
    · rename_i hkept
      have hfiring : (row.accountId, row.resourceId) ∈ db.firingKeys now staleMinutes pick := by
        by_contra hnot
        exact hkept (hstale.mpr ⟨row, h, hnot⟩)
      obtain ⟨b, hb, hid⟩ := (mem_firingKeys (upserted_key h)).mp hfiring
      rw [find_upserted, hb, Option.elim_some, Option.some.injEq] at h
      exact ⟨b, hb, h.symm, hid⟩
  · rintro ⟨b, hb, rfl, hid⟩
    have hfind : find k ((db.breaching now staleMinutes pick).foldl db.upsertScore db.health) =
        some (db.scored b (find k db.health)) := by
      rw [find_upserted, hb, Option.elim_some]
    rw [if_neg, hfind]
    rintro hdeleted
    obtain ⟨row', hrow', hnot⟩ := hstale.mp hdeleted
    obtain rfl := Option.some.inj (hfind.symm.trans hrow')
    exact hnot ((mem_firingKeys (upserted_key hfind)).mpr ⟨b, hb, hid⟩)

theorem mem_firingAlerts {severity : String} {a : StoredAlert} :
    a ∈ db.firingAlerts now staleMinutes severity k ↔ a ∈ db.alerts ∧ a.accountId = k.1 ∧
      fold a.resourceId = k.2 ∧ ofSeverity severity a = true ∧
        db.firingRows now staleMinutes a ≠ [] := by
  simp [firingAlerts, and_assoc]

/-- The counts of a breaching resource are those of its alerts, if none fires twice. -/
theorem counts_of_single (hsingle : ∀ a ∈ db.alerts, ofSeverity "CRITICAL" a = true ∨
      ofSeverity "WARNING" a = true → (db.firingRows now staleMinutes a).length ≤ 1)
    (h : find k (db.breaching now staleMinutes pick) = some b) :
    b.criticalCount = (db.firingAlerts now staleMinutes "CRITICAL" k).length ∧
      b.warningCount = (db.firingAlerts now staleMinutes "WARNING" k).length := by
  obtain ⟨-, j, -, rfl⟩ := find_breaching_iff.mp h
  constructor
  · refine countP_eq_iff.mpr fun a ha => ?_
    obtain ⟨hmem, -, -, hseverity, -⟩ := mem_firingAlerts.mp ha
    exact hsingle a hmem (.inl hseverity)
  · refine countP_eq_iff.mpr fun a ha => ?_
    obtain ⟨hmem, -, -, hseverity, -⟩ := mem_firingAlerts.mp ha
    exact hsingle a hmem (.inr hseverity)

theorem current_of_plain (hplain : db.Plain now staleMinutes) (pick : HealthKey → ℕ) :
    db.Current now staleMinutes (db.recomputeHealthScores now staleMinutes pick).2 := by
  intro k
  dsimp only
  constructor
  · constructor
    · rintro ⟨row, hrow⟩
      obtain ⟨b, hb, -⟩ := (find_recomputed pick k).mp hrow
      exact (find_breaching_iff.mp hb).1
    · intro hbreaching
      obtain ⟨b, hb⟩ : ∃ b, find k (db.breaching now staleMinutes pick) = some b :=
        exists_breach hbreaching
      refine ⟨_, (find_recomputed pick k).mpr ⟨b, hb, rfl, ?_⟩⟩
      cases hearlier : find k db.health with
      | none => rfl
      | some earlier =>
        obtain ⟨-, j, hj, rfl⟩ := find_breaching_iff.mp hb
        obtain ⟨hjoined, hkey⟩ := mem_joinedAt.mp (limitOne_mem hj)
        exact hplain.spelled k earlier hearlier hbreaching j hjoined hkey
  · intro row hrow
    obtain ⟨b, hb, rfl, hid⟩ := (find_recomputed pick k).mp hrow
    obtain ⟨hcritical, hwarning⟩ := counts_of_single hplain.single hb
    refine ⟨hcritical, hwarning, ?_, le_max_left _ _⟩
    rw [← hid, ← hcritical, ← hwarning]
    rfl

theorem plain_of_current (h : ∀ pick : HealthKey → ℕ,
      db.Current now staleMinutes (db.recomputeHealthScores now staleMinutes pick).2) :
    db.Plain now staleMinutes := by
  have hbreach : ∀ (pick : HealthKey → ℕ) (k : HealthKey), db.Breaching now staleMinutes k →
      ∃ b, find k (db.breaching now staleMinutes pick) = some b ∧
        b.resourceId = (db.scored b (find k db.health)).resourceId ∧
        b.criticalCount = (db.firingAlerts now staleMinutes "CRITICAL" k).length ∧
        b.warningCount = (db.firingAlerts now staleMinutes "WARNING" k).length := by
    intro pick k hbreaching
    obtain ⟨row, hrow⟩ := (h pick k).1.mpr hbreaching
    obtain ⟨hcritical, hwarning, -⟩ := (h pick k).2 row hrow
    obtain ⟨b, hb, rfl, hid⟩ := (find_recomputed pick k).mp hrow
    exact ⟨b, hb, hid, hcritical, hwarning⟩
  refine ⟨fun a ha hseverity => ?_, fun k row hrow hbreaching j hj hkey => ?_⟩
  · by_cases hrows : db.firingRows now staleMinutes a = []
    · simp [hrows]
    · have hmem : ∀ severity, ofSeverity severity a = true →
          a ∈ db.firingAlerts now staleMinutes severity (a.accountId, fold a.resourceId) :=
        fun severity hsev => mem_firingAlerts.mpr ⟨ha, rfl, rfl, hsev, hrows⟩
      have hbreaching : db.Breaching now staleMinutes (a.accountId, fold a.resourceId) :=
        hseverity.imp (fun hsev => List.ne_nil_of_mem (hmem _ hsev))
          fun hsev => List.ne_nil_of_mem (hmem _ hsev)
      obtain ⟨b, hb, -, hcritical, hwarning⟩ := hbreach (fun _ => 0) _ hbreaching
      obtain ⟨-, j, -, rfl⟩ := find_breaching_iff.mp hb
      rcases hseverity with hsev | hsev
      · exact countP_eq_iff.mp hcritical a (hmem _ hsev)
      · exact countP_eq_iff.mp hwarning a (hmem _ hsev)
  · -- the query may show the id of any row of the group
    obtain ⟨i, hi, hat⟩ := List.mem_iff_getElem.mp (mem_joinedAt.mpr ⟨hj, hkey⟩)
    have hshown : limitOne (db.joinedAt now staleMinutes k) i = some j := by
      rw [limitOne, Nat.mod_eq_of_lt hi, List.getElem?_eq_getElem hi, hat]
    obtain ⟨b, hb, hid, -⟩ := hbreach (fun _ => i) k hbreaching
    obtain ⟨-, j', hj', rfl⟩ := find_breaching_iff.mp hb
    obtain rfl := Option.some.inj (hshown.symm.trans hj')
    rw [hrow] at hid
    exact hid

end Recomputed

/-- A run leaves the scores as they should be, whichever row of a group the query shows, exactly if
no alert fires for two rows and the earlier rows of breaching resources are spelled alike. -/
theorem current_iff (db : HealthTables fold) (now : ℕ)
    (staleMinutes : ResourceRow → StoredAlert → ℕ) :
    (∀ pick : HealthKey → ℕ,
      db.Current now staleMinutes (db.recomputeHealthScores now staleMinutes pick).2) ↔
      db.Plain now staleMinutes :=
  ⟨plain_of_current, current_of_plain⟩

/-- One critical alert of an id that an instance and a volume share. -/
def twoTypes : HealthTables id where
  activeAccounts := [1]
  resources := [⟨1, "shared", "ec2"⟩, ⟨1, "shared", "ebs"⟩]
  alerts :=
    [⟨1, 1, "shared", "cpuutilization", some "CRITICAL", .active, false, none, some 5000, 0⟩]
  relationships := []
  health := []
  keyed := by simp
  distinct := List.nodup_nil

/-- The alert is counted twice, and the score is 20 where it should be 60. -/
theorem twoTypes_counted :
    (∃ row, find (1, "shared")
        (twoTypes.recomputeHealthScores 6000 (fun _ _ => 20) fun _ => 0).2 = some row ∧
      row.criticalAlerts = 2 ∧ row.healthScore = 20) ∧
    ¬ twoTypes.Current 6000 (fun _ _ => 20)
      (twoTypes.recomputeHealthScores 6000 (fun _ _ => 20) fun _ => 0).2 := by
  have hbreach : find (1, "shared") (twoTypes.breaching 6000 (fun _ _ => 20) fun _ => 0) =
      some ⟨1, "shared", 2, 0⟩ := by
    rw [find_breaching]
    decide
  have hrow := (find_recomputed (fun _ => 0) (1, "shared")).mpr ⟨_, hbreach, rfl, rfl⟩
  refine ⟨⟨_, hrow, rfl, by decide⟩, fun hcurrent => ?_⟩
  have hcount := ((hcurrent (1, "shared")).2 _ hrow).1
  have hone : (twoTypes.firingAlerts 6000 (fun _ _ => 20) "CRITICAL" (1, "shared")).length = 1 := by
    decide
  rw [hone] at hcount
  cases hcount

end HealthTables

end MonitoringHub.Alerts
