import MonitoringHub.Lib.StepRun
import MonitoringHub.Alerts.AlertStore
import Mathlib.Data.List.Pairwise

/-! Which policy an alert is escalated by. A run reads the rows of the join once and then claims
them one by one; alerts are acknowledged, and other runs go on, at any moment between. -/

namespace MonitoringHub.Alerts
open Lib

structure EscalationPolicy where
  account : Option ℕ
  severity : Severity
  ackSlaMinutes : ℕ
  group : ℕ
  enabled : Bool
  deriving DecidableEq

/-- `account_scope_key` and the severity are a unique key. -/
structure PolicyTable where
  rows : List EscalationPolicy
  unique : rows.Pairwise fun p q => ¬ (p.account = q.account ∧ p.severity = q.severity)

structure OpenAlert where
  account : ℕ
  severity : Severity
  triggeredAt : ℕ

/-- An update that found the alert not escalated; whether it was acknowledged by then is for the
statements. -/
structure EscalatedEvent where
  alert : ℕ
  group : ℕ
  time : ℕ
  acked : Bool
  deriving DecidableEq

/-- Of the alerts, what changes. A run holds the rows it has still to claim. -/
structure EscalationState where
  now : ℕ
  acked : ℕ → Bool
  escalated : ℕ → Option ℕ
  runs : ℕ → List (ℕ × EscalationPolicy)
  events : List EscalatedEvent

/-- Which alerts are live as a run reads, is the read's. -/
inductive EscalationAct
  | elapse (d : ℕ)
  | acknowledge (i : ℕ)
  | readRows (k : ℕ) (live : ℕ → Bool)
  | claim (k : ℕ)
  | stop (k : ℕ)

namespace PolicyTable

/-- A row of the join: enabled, of the severity, and of this scope. -/
def Fits (a : OpenAlert) (scope : Option ℕ) (p : EscalationPolicy) : Bool :=
  p.enabled && decide (p.severity = a.severity) && decide (p.account = scope)

/-- The rows of the join, the account's own before the global one. -/
def policyRows (t : PolicyTable) (a : OpenAlert) : List EscalationPolicy :=
  t.rows.filter (Fits a (some a.account)) ++ t.rows.filter (Fits a none)

def ownPolicy (t : PolicyTable) (a : OpenAlert) : Option EscalationPolicy :=
  t.rows.find? (Fits a (some a.account))

/-- The account's own policy of the severity if there is one, else the global one. -/
def governing (t : PolicyTable) (a : OpenAlert) : Option EscalationPolicy :=
  (t.ownPolicy a).or (t.rows.find? (Fits a none))

end PolicyTable

/-- The SLA has passed. -/
def SlaPassed (now : ℕ) (a : OpenAlert) (p : EscalationPolicy) : Prop :=
  a.triggeredAt + p.ackSlaMinutes * 60 ≤ now

instance (now : ℕ) (a : OpenAlert) (p : EscalationPolicy) : Decidable (SlaPassed now a p) :=
  inferInstanceAs (Decidable (_ ≤ _))

/-- The rows of one alert after the first are skipped. -/
def keepFirst (seen : List ℕ) : List (ℕ × EscalationPolicy) → List (ℕ × EscalationPolicy)
  | [] => []
  | row :: rows =>
    if row.1 ∈ seen then keepFirst seen rows else row :: keepFirst (row.1 :: seen) rows

namespace EscalationState

def start (acked : ℕ → Bool) (escalated : ℕ → Option ℕ) (now : ℕ) : EscalationState :=
  ⟨now, acked, escalated, fun _ => [], []⟩

def rowsOf (s : EscalationState) (t : PolicyTable) (live : ℕ → Bool) (a : OpenAlert) (i : ℕ) :
    List (ℕ × EscalationPolicy) :=
  if live i = true ∧ s.acked i = false ∧ s.escalated i = none then
    ((t.policyRows a).filter fun p => SlaPassed s.now a p).map fun p => (i, p)
  else []

def readRows (s : EscalationState) (t : PolicyTable) (alerts : List OpenAlert) (live : ℕ → Bool) :
    List (ℕ × EscalationPolicy) :=
  keepFirst [] (alerts.zipIdx.flatMap fun ai => s.rowsOf t live ai.1 ai.2)

/-- `UPDATE alerts ... WHERE id = %s AND escalated_at IS NULL` -/
def claim (s : EscalationState) (i : ℕ) (p : EscalationPolicy) : EscalationState :=
  if s.escalated i = none then
    { s with
      escalated := Function.update s.escalated i (some p.group),
      events := ⟨i, p.group, s.now, s.acked i⟩ :: s.events }
  else s

def setRun (s : EscalationState) (k : ℕ) (rows : List (ℕ × EscalationPolicy)) : EscalationState :=
  { s with runs := Function.update s.runs k rows }

def step (t : PolicyTable) (alerts : List OpenAlert) (s : EscalationState) :
    EscalationAct → Option EscalationState
  | .elapse d => some { s with now := s.now + d }
  | .acknowledge i => some { s with acked := Function.update s.acked i true }
  | .readRows k live => some (s.setRun k (s.readRows t alerts live))
  | .claim k =>
    match s.runs k with
    | [] => none
    | (i, p) :: rows => some ((s.claim i p).setRun k rows)
  | .stop k => some (s.setRun k [])

/-- No alert is escalated twice, none after it was acknowledged, and each by the policy that
governs it, after that policy's SLA. -/
def GovernedEvents (t : PolicyTable) (alerts : List OpenAlert) (s : EscalationState) : Prop :=
  s.events.Pairwise (fun e f => e.alert ≠ f.alert) ∧
  ∀ e ∈ s.events, e.acked = false ∧ ∃ a g, alerts[e.alert]? = some a ∧ t.governing a = some g ∧
    SlaPassed e.time a g ∧ e.group = g.group

/-- A claim that finds its alert not escalated finds it not acknowledged; and the row it claims by
is the account's own, unless there is none, or it names the same group and has passed its SLA. -/
def ClaimsInOrder (t : PolicyTable) (alerts : List OpenAlert) (s : EscalationState) :
    EscalationAct → Prop
  | .claim k => ∀ i p rows, s.runs k = (i, p) :: rows → s.escalated i = none →
    s.acked i = false ∧ ∀ a own, alerts[i]? = some a → t.ownPolicy a = some own →
      own = p ∨ p.group = own.group ∧ SlaPassed s.now a own
  | _ => True

/-- The rows to claim are rows of the join whose SLA has passed, and an escalated alert stays
so. -/
structure Sound (t : PolicyTable) (alerts : List OpenAlert) (s : EscalationState) : Prop where
  rows : ∀ k, ∀ row ∈ s.runs k, ∃ a, alerts[row.1]? = some a ∧ row.2 ∈ t.policyRows a ∧
    SlaPassed s.now a row.2
  done : ∀ e ∈ s.events, (s.escalated e.alert).isSome = true
  once : s.events.Pairwise fun e f => e.alert ≠ f.alert

variable {t : PolicyTable} {alerts : List OpenAlert} {s s' : EscalationState} {act : EscalationAct}
  {a : OpenAlert} {p : EscalationPolicy} {i : ℕ}

theorem mem_keepFirst {seen : List ℕ} {rows : List (ℕ × EscalationPolicy)}
    {row : ℕ × EscalationPolicy} (h : row ∈ keepFirst seen rows) : row ∈ rows := by
  induction rows generalizing seen with
  | nil => exact h
  | cons first rows ih =>
    unfold keepFirst at h
    split at h
    · exact List.mem_cons_of_mem _ (ih h)
    · cases h with
      | head => exact List.mem_cons_self
      | tail _ hmem => exact List.mem_cons_of_mem _ (ih hmem)

theorem mem_readRows {live : ℕ → Bool} {row : ℕ × EscalationPolicy}
    (h : row ∈ s.readRows t alerts live) : ∃ a, alerts[row.1]? = some a ∧
      row.2 ∈ t.policyRows a ∧ SlaPassed s.now a row.2 := by
  obtain ⟨⟨a, i⟩, hai, hrow⟩ := List.mem_flatMap.mp (mem_keepFirst h)
  unfold rowsOf at hrow
  split at hrow
  · obtain ⟨p, hp, rfl⟩ := List.mem_map.mp hrow
    obtain ⟨hmem, hpassed⟩ := List.mem_filter.mp hp
    exact ⟨a, List.mem_zipIdx_iff_getElem?.mp hai, hmem, of_decide_eq_true hpassed⟩
  · cases hrow

theorem fits_scope {scope : Option ℕ} (h : PolicyTable.Fits a scope p = true) :
    p.account = scope ∧ p.severity = a.severity := by
  unfold PolicyTable.Fits at h
  simp only [Bool.and_eq_true, decide_eq_true_eq] at h
  exact ⟨h.2, h.1.2⟩

/-- Two rows of one scope and severity are one. -/
theorem unique_fit {q : EscalationPolicy} {scope : Option ℕ} (hp : p ∈ t.rows) (hq : q ∈ t.rows)
    (hpf : PolicyTable.Fits a scope p = true) (hqf : PolicyTable.Fits a scope q = true) :
    p = q := by
  by_contra hne
  obtain ⟨hpa, hps⟩ := fits_scope hpf
  obtain ⟨hqa, hqs⟩ := fits_scope hqf
  have hsymm : Std.Symm fun p q : EscalationPolicy =>
      ¬ (p.account = q.account ∧ p.severity = q.severity) :=
    ⟨fun p q h hqp => h ⟨hqp.1.symm, hqp.2.symm⟩⟩
  exact t.unique.forall hp hq hne ⟨hpa.trans hqa.symm, hps.trans hqs.symm⟩

/-- A row of the join is the account's own policy, or the global one of an account without. -/
theorem governing_of_row (h : p ∈ t.policyRows a) :
    t.ownPolicy a = some p ∨ (∃ own, t.ownPolicy a = some own ∧ own ≠ p) ∨
      t.ownPolicy a = none ∧ t.governing a = some p := by
  rcases List.mem_append.mp h with hown | hglobal
  · obtain ⟨hmem, hfits⟩ := List.mem_filter.mp hown
    obtain ⟨own, hsome⟩ := Option.isSome_iff_exists.mp
      (List.find?_isSome.mpr ⟨p, hmem, hfits⟩ : (t.ownPolicy a).isSome = true)
    rw [unique_fit hmem (List.mem_of_find?_eq_some hsome) hfits (List.find?_some hsome)]
    exact .inl hsome
  · obtain ⟨hmem, hfits⟩ := List.mem_filter.mp hglobal
    cases hown : t.ownPolicy a with
    | some own =>
      by_cases heq : own = p
      · exact .inl (congrArg some heq)
      · exact .inr (.inl ⟨own, rfl, heq⟩)
    | none =>
      refine .inr (.inr ⟨rfl, ?_⟩)
      obtain ⟨q, hsome⟩ := Option.isSome_iff_exists.mp
        (List.find?_isSome.mpr ⟨p, hmem, hfits⟩)
      rw [unique_fit hmem (List.mem_of_find?_eq_some hsome) hfits (List.find?_some hsome)]
      unfold PolicyTable.governing
      rw [hown, Option.none_or, hsome]

theorem governing_of_own {own : EscalationPolicy} (h : t.ownPolicy a = some own) :
    t.governing a = some own := by
  unfold PolicyTable.governing
  rw [h, Option.some_or]

/-- What the claimed row has to be for the event to be the governing policy's. -/
theorem governed_iff {now : ℕ} (ha : alerts[i]? = some a) (hrow : p ∈ t.policyRows a)
    (hpassed : SlaPassed now a p) :
    (∃ a g, alerts[i]? = some a ∧ t.governing a = some g ∧ SlaPassed now a g ∧
      p.group = g.group) ↔
    ∀ a own, alerts[i]? = some a → t.ownPolicy a = some own →
      own = p ∨ p.group = own.group ∧ SlaPassed now a own := by
  constructor
  · rintro ⟨a', g, ha', hg, hsla, hgroup⟩ b own hb hown
    obtain rfl := Option.some.inj (ha'.symm.trans hb)
    obtain rfl := Option.some.inj ((governing_of_own hown).symm.trans hg)
    exact .inr ⟨hgroup, hsla⟩
  · intro hall
    rcases governing_of_row hrow with hself | ⟨own, hown, hne⟩ | ⟨-, hglobal⟩
    · exact ⟨a, p, ha, governing_of_own hself, hpassed, rfl⟩
    · obtain ⟨hgroup, hsla⟩ := (hall a own ha hown).resolve_left hne
      exact ⟨a, own, ha, governing_of_own hown, hsla, hgroup⟩
    · exact ⟨a, p, ha, hglobal, hpassed, rfl⟩

theorem Sound.setRun (h : s.Sound t alerts) {k : ℕ} {rows : List (ℕ × EscalationPolicy)}
    (hrows : ∀ row ∈ rows, ∃ a, alerts[row.1]? = some a ∧ row.2 ∈ t.policyRows a ∧
      SlaPassed s.now a row.2) : (s.setRun k rows).Sound t alerts := by
  refine ⟨fun j row hrow => ?_, h.done, h.once⟩
  unfold EscalationState.setRun at hrow
  by_cases hj : j = k
  · subst hj
    simp only [Function.update_self] at hrow
    exact hrows row hrow
  · simp only [Function.update_of_ne hj] at hrow
    exact h.rows j row hrow

theorem claim_now (s : EscalationState) (i : ℕ) (p : EscalationPolicy) :
    (s.claim i p).now = s.now ∧ (s.claim i p).runs = s.runs := by
  unfold claim
  split <;> exact ⟨rfl, rfl⟩

theorem Sound.claim (h : s.Sound t alerts) (i : ℕ) (p : EscalationPolicy) :
    (s.claim i p).Sound t alerts := by
  unfold EscalationState.claim
  split
  · rename_i hnone
    have hnew : ∀ e ∈ s.events, i ≠ e.alert := by
      rintro e he rfl
      have := h.done e he
      rw [hnone] at this
      cases this
    refine ⟨h.rows, fun e he => ?_, List.pairwise_cons.mpr ⟨hnew, h.once⟩⟩
    cases he with
    | head => simp
    | tail _ hmem =>
      simp only [Function.update_of_ne (hnew e hmem).symm]
      exact h.done e hmem
  · exact h

theorem Sound.step (h : s.Sound t alerts) (hstep : s.step t alerts act = some s') :
    s'.Sound t alerts := by
  cases act with
  | elapse d =>
    obtain rfl := Option.some.inj hstep
    refine ⟨fun k row hrow => ?_, h.done, h.once⟩
    obtain ⟨a, ha, hmem, hpassed⟩ := h.rows k row hrow
    exact ⟨a, ha, hmem, Nat.le_add_right_of_le hpassed⟩
  | acknowledge i =>
    obtain rfl := Option.some.inj hstep
    exact ⟨h.rows, h.done, h.once⟩
  | readRows k live =>
    obtain rfl := Option.some.inj hstep
    exact h.setRun fun row hrow => mem_readRows hrow
  | claim k =>
    simp only [EscalationState.step] at hstep
    split at hstep
    · cases hstep
    · rename_i i p rows hrun
      obtain rfl := Option.some.inj hstep
      refine (h.claim i p).setRun fun row hrow => ?_
      rw [(claim_now s i p).1]
      exact h.rows k row (hrun ▸ List.mem_cons_of_mem _ hrow)
  | stop k =>
    obtain rfl := Option.some.inj hstep
    exact h.setRun nofun

theorem governed_claim (h : s.Sound t alerts) (hgov : s.GovernedEvents t alerts)
    (ha : alerts[i]? = some a) (hrow : p ∈ t.policyRows a) (hpassed : SlaPassed s.now a p) :
    (s.claim i p).GovernedEvents t alerts ↔ (s.escalated i = none → s.acked i = false ∧
      ∀ a own, alerts[i]? = some a → t.ownPolicy a = some own →
        own = p ∨ p.group = own.group ∧ SlaPassed s.now a own) := by
  rw [← governed_iff ha hrow hpassed]
  have honce := (h.claim i p).once
  unfold claim at honce ⊢
  by_cases hnone : s.escalated i = none
  · rw [if_pos hnone] at honce ⊢
    constructor
    · intro hall _
      exact hall.2 _ List.mem_cons_self
    · intro hgood
      refine ⟨honce, fun e he => ?_⟩
      cases he with
      | head => exact hgood hnone
      | tail _ hmem => exact hgov.2 e hmem
  · rw [if_neg hnone]
    exact iff_of_true hgov fun hyes => absurd hyes hnone

theorem governed_step (h : s.Sound t alerts) (hgov : s.GovernedEvents t alerts)
    (hstep : s.step t alerts act = some s') :
    s'.GovernedEvents t alerts ↔ s.ClaimsInOrder t alerts act := by
  cases act with
  | claim k =>
    simp only [EscalationState.step] at hstep
    split at hstep
    · cases hstep
    · rename_i i p rows hrun
      obtain rfl := Option.some.inj hstep
      obtain ⟨a, ha, hrow, hpassed⟩ := h.rows k (i, p) (hrun ▸ List.mem_cons_self)
      refine (governed_claim h hgov ha hrow hpassed).trans
        ⟨fun hin j q rest hq => ?_, fun hall => ?_⟩
      · obtain ⟨hrow, -⟩ := List.cons.inj (hrun.symm.trans hq)
        obtain ⟨rfl, rfl⟩ := Prod.mk.inj hrow
        exact hin
      · exact hall i p rows hrun
  | elapse d =>
    obtain rfl := Option.some.inj hstep
    exact iff_of_true hgov trivial
  | acknowledge i =>
    obtain rfl := Option.some.inj hstep
    exact iff_of_true hgov trivial
  | readRows k live =>
    obtain rfl := Option.some.inj hstep
    exact iff_of_true hgov trivial
  | stop k =>
    obtain rfl := Option.some.inj hstep
    exact iff_of_true hgov trivial

/-- Account 7 gives its people an hour, everyone else a quarter. -/
def twoSlas : PolicyTable where
  rows := [⟨some 7, .critical, 60, 2, true⟩, ⟨none, .critical, 15, 1, true⟩]
  unique := by decide

end EscalationState

end MonitoringHub.Alerts
