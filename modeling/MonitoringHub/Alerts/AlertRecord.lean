import MonitoringHub.Alerts.KeyState

/-! What an open alert says about the breach behind it: a value, the limit it crossed
and a severity. They come from one reading as long as no candidate is promoted at a
severity its last reading does not have. -/

namespace MonitoringHub.Alerts
open Lib

/-- The verdict on the newest breaching reading of a key. -/
def lastBreach : List Evaluation → Option Verdict
  | [] => none
  | e :: tr => if e.r.verdict.breaching then some e.r.verdict else lastBreach tr

/-- The recorded breach is this reading's own: value, crossed limit and severity.
WARNING and INFO are the two names of the severity of the warning limit. -/
structure Alert.Supported (v : Verdict) (a : Alert) : Prop where
  value_eq : a.breachValue = v.value
  breached : compare a.breachValue a.breachThreshold v.comparison = true
  limit_eq : a.breachThreshold = if a.severity = .critical then v.critical else v.warning
  critical_iff : a.severity = .critical ↔ v.isCritical = true

theorem Alert.Supported.of_thresholdValue {v : Verdict} {a : Alert} (hbreach : v.breaching = true)
    (hvalue : a.breachValue = v.value) (hlimit : a.breachThreshold = v.thresholdValue)
    (hcritical : a.severity = .critical ↔ v.isCritical = true) : a.Supported v where
  value_eq := hvalue
  breached := by
    rw [hvalue, hlimit]
    exact v.thresholdValue_breached hbreach
  limit_eq := by
    rw [hlimit, Verdict.thresholdValue]
    simp only [hcritical]
  critical_iff := hcritical

/-- A candidate that holds CRITICAL from an earlier cycle is not confirmed by a reading
of an uncapped rule that only crosses the warning limit. -/
def ConfirmsOwnSeverity (st : KeyState) (now : ℕ) (r : RowInput) : Prop :=
  ∀ p, st = .suspected p → p.severity = .critical → r.verdict.breaching = true →
    r.verdict.isCritical = false → r.verdict.capped = false →
    p.breachCycles + (if p.clock + minCycleSeconds ≤ now then 1 else 0) < r.verdict.required

instance (st : KeyState) (now : ℕ) (r : RowInput) : Decidable (ConfirmsOwnSeverity st now r) :=
  match st with
  | .suspected p =>
    decidable_of_iff (p.severity = .critical → r.verdict.breaching = true →
      r.verdict.isCritical = false → r.verdict.capped = false →
      p.breachCycles + (if p.clock + minCycleSeconds ≤ now then 1 else 0) < r.verdict.required)
      ⟨fun h q hq => KeyState.suspected.inj hq ▸ h, fun h => h p rfl⟩
  | .quiet => .isTrue fun _ hp => (by cases hp)
  | .raised _ => .isTrue fun _ hp => (by cases hp)

theorem RowInput.touch_breachCycles (r : RowInput) (now : ℕ) (p : Pending) :
    (r.touch now (some p)).2.breachCycles =
      p.breachCycles + if p.clock + minCycleSeconds ≤ now then 1 else 0 := by
  by_cases hdue : p.clock + minCycleSeconds ≤ now
  · rw [if_pos hdue, (r.touch_due hdue).2.1]
  · rw [if_neg hdue, (r.touch_waits hdue).2.1, Nat.add_zero]

/-- The severity of a touched candidate, when the reading itself is not critical. -/
theorem RowInput.touch_severity {r : RowInput} (now : ℕ) (p : Option Pending)
    (hmild : r.verdict.isCritical = false) (h : (r.touch now p).2.severity = .critical) :
    ∃ q, p = some q ∧ q.severity = .critical := by
  have hsev : r.verdict.severity ≠ .critical := fun hs => by
    rw [r.verdict.severity_critical_iff.mp hs] at hmild
    cases hmild
  cases p with
  | none => exact absurd h hsev
  | some q =>
    refine ⟨q, rfl, ?_⟩
    simpa [RowInput.touch, touchPending, hsev] using h

theorem RowInput.touch_severity_critical {r : RowInput} (now : ℕ) (p : Option Pending)
    (hcrit : r.verdict.isCritical = true) : (r.touch now p).2.severity = .critical := by
  have hsev := r.verdict.severity_critical_iff.mpr hcrit
  cases p with
  | none => exact hsev
  | some q => simp [RowInput.touch, touchPending, hsev]

theorem promotedAlert_supported {st : KeyState} {now : ℕ} {r : RowInput} {value : ℚ}
    (hguard : ConfirmsOwnSeverity st now r) (hvalue : r.verdict.value = some value)
    (hbreach : r.verdict.breaching = true)
    (hcycles : r.verdict.required ≤ (r.touch now st.candidate).2.breachCycles) :
    (promotedAlert now value r (r.touch now st.candidate).2).Supported r.verdict := by
  have hlevel : r.verdict.promotedSeverity (r.touch now st.candidate).2.severity = .critical ↔
      r.verdict.isCritical = true := by
    cases hcrit : r.verdict.isCritical with
    | true =>
      have huncapped : r.verdict.capped = false := by
        by_contra hcap
        rw [Bool.not_eq_false] at hcap
        rw [r.verdict.capped_not_critical hcap] at hcrit
        cases hcrit
      simp [Verdict.promotedSeverity, huncapped, r.touch_severity_critical now _ hcrit]
    | false =>
      refine iff_of_false (fun hpromoted => ?_) (by simp)
      -- a promotion at CRITICAL takes the candidate's severity, which the reading lacks
      unfold Verdict.promotedSeverity at hpromoted
      split at hpromoted
      · cases hpromoted
      · rename_i hcap
        obtain ⟨p, hp, hsev⟩ := r.touch_severity now _ hcrit hpromoted
        obtain rfl := KeyState.candidate_some hp
        have huncapped : r.verdict.capped = false := by
          simpa [hpromoted] using hcap
        have hwait := hguard p rfl hsev hbreach hcrit huncapped
        simp only [KeyState.candidate, r.touch_breachCycles] at hcycles
        omega
  refine .of_thresholdValue hbreach hvalue.symm ?_ hlevel
  change r.verdict.promotedThreshold _ = _
  unfold Verdict.promotedThreshold
  split
  · rename_i hstale
    rw [hlevel.mp hstale.1] at hstale
    cases hstale.2.1
  · rfl

theorem KeyRun.supported {tr : List Evaluation} {st : KeyState}
    (run : KeyRun ConfirmsOwnSeverity tr st) :
    ∀ a, st = .raised a → ∃ v, lastBreach tr = some v ∧ a.Supported v := by
  have hnew : ∀ {tr : List Evaluation} {began now : ℕ} {r : RowInput} {o : Outcome} {a b : Alert},
      r.verdict.breaching = true → a.Supported r.verdict → KeyState.raised a = .raised b →
        ∃ v, lastBreach (⟨began, now, r, o⟩ :: tr) = some v ∧ b.Supported v := by
    intro tr began now r o a b hbreach ha hab
    obtain rfl := KeyState.raised.inj hab
    exact ⟨r.verdict, by simp only [lastBreach, hbreach, if_true], ha⟩
  have hconfirm : ∀ {tr : List Evaluation} {st : KeyState} {began now : ℕ} {r : RowInput}
      {value : ℚ} {o : Outcome} {b : Alert}, ConfirmsOwnSeverity st now r →
      r.verdict.value = some value → r.verdict.breaching = true →
      (KeyState.confirm now value r st.candidate).2 = .raised b →
        ∃ v, lastBreach (⟨began, now, r, o⟩ :: tr) = some v ∧ b.Supported v := by
    intro tr st began now r value o b hguard hvalue hbreach hraised
    unfold KeyState.confirm at hraised
    simp only at hraised
    split at hraised
    · cases hraised
    · rename_i hcycles
      exact hnew hbreach (promotedAlert_supported hguard hvalue hbreach (by omega)) hraised
  refine run.invariant (I := fun tr st => ∀ a, st = .raised a →
    ∃ v, lastBreach tr = some v ∧ a.Supported v) (fun a h => by cases h) ?_ ?_
  · intro tr st st' hst hy b hb
    cases hy with
    | same => exact hst b hb
    | expired | closed => cases hb
    | handled hh =>
      obtain rfl := KeyState.raised.inj hb
      obtain ⟨v, hv, hsup⟩ := hst _ rfl
      refine ⟨v, hv, ?_, ?_, ?_, ?_⟩
      · rw [hh.breachValue_eq, hsup.value_eq]
      · rw [hh.breachValue_eq, hh.breachThreshold_eq]
        exact hsup.breached
      · rw [hh.breachThreshold_eq, hh.severity_eq, hsup.limit_eq]
      · rw [hh.severity_eq, hsup.critical_iff]
  · intro tr st st' began now r o hst hguard he b hb
    cases he with
    | quietHealthy | suspectedHealthy => cases hb
    | quietBreach hvalue hbreach => exact hconfirm hguard hvalue hbreach hb
    | suspectedBreach hvalue hbreach => exact hconfirm hguard hvalue hbreach hb
    | raisedBreach hvalue hbreach =>
      rename_i a value
      have hmark := Alert.markBreach_breached now value r.verdict.thresholdValue
        r.verdict.severity a a
      refine hnew hbreach (.of_thresholdValue hbreach ?_ hmark.breachThreshold_eq ?_) hb
      · rw [hmark.breachValue_eq, hvalue]
      · rw [Alert.markBreach_severity, r.verdict.severity_critical_iff]
    | raisedHealthy hvalue hhealthy =>
      unfold KeyState.recover at hb
      simp only at hb
      split at hb
      · obtain rfl := KeyState.raised.inj hb
        obtain ⟨v, hv, hsup⟩ := hst _ rfl
        refine ⟨v, ?_, hsup.value_eq, hsup.breached, hsup.limit_eq, hsup.critical_iff⟩
        simpa only [lastBreach, hhealthy, Bool.false_eq_true, if_false] using hv
      · cases hb

namespace Evaluator

/-- In every run of passes whose promotions are confirmed at their own severity, an
open alert records the newest breaching reading of its key: that value, the limit of
the recorded severity, crossed by the value, and CRITICAL exactly when it is. -/
theorem open_alert_supported {t : Evaluator} {tr : List Event}
    (run : Steps (Guarded (Takes step) (OnKeys ConfirmsOwnSeverity)) (.start emptyDb) tr t)
    {id : ℕ} {a : Alert} (ha : t.db.alerts[id]? = some a) (hopen : a.status.isOpen = true) :
    ∃ v, lastBreach (keyTrace a.key tr) = some v ∧ a.Supported v := by
  have hex := run_exclusive (Guarded.run run) rfl a.key
  have hraised := hex.keyState_of_open ha (openOn_iff.mpr ⟨rfl, hopen⟩)
  exact (run_keyRun run a.key).supported a hraised

/-- A critical reading confirmed by a critical one. -/
theorem open_alert_supported_critical :
    ∃ (t : Evaluator) (a : Alert), t.db.alerts[0]? = some a ∧ a.severity = .critical ∧
      ∃ v, lastBreach (keyTrace a.key [.evaluated 300 300 (hostCpu 96 10) (.promoted .counted),
        .passOver 300 .full (hostCpu 96 10), .evaluated 0 0 (hostCpu 95 10) (.pended .inserted),
        .passOver 0 .full (hostCpu 95 10)]) = some v ∧ a.Supported v := by
  obtain ⟨t, run, -, ht⟩ := exists_play (gated step (OnKeys ConfirmsOwnSeverity)) (.start emptyDb)
    [.passOver 0 .full (hostCpu 95 10), .evaluated 0 0 (hostCpu 95 10) (.pended .inserted),
      .passOver 300 .full (hostCpu 96 10),
      .evaluated 300 300 (hostCpu 96 10) (.promoted .counted)]
    (fun t => t.db.alerts[0]?.any fun a => a.status.isOpen && a.severity == .critical)
    (by decide +kernel)
  rw [Option.any_eq_true] at ht
  obtain ⟨a, ha, hp⟩ := ht
  rw [Bool.and_eq_true, beq_iff_eq] at hp
  exact ⟨t, a, ha, hp.2, open_alert_supported (run.mono fun _ _ _ => gated_guarded) ha hp.1⟩

/-- A critical reading, then a warning one that confirms the candidate: the alert says
CRITICAL, 75 against a limit of 90. -/
theorem open_alert_unsupported :
    ∃ (t : Evaluator) (tr : List Event) (a : Alert), Steps (Takes step) (.start emptyDb) tr t ∧
      t.db.alerts[0]? = some a ∧ a.status = .active ∧ a.severity = .critical ∧
      a.breachValue = some 75 ∧ a.breachThreshold = some 90 ∧
      compare a.breachValue a.breachThreshold .gt = false := by
  obtain ⟨t, run, -, ht⟩ := exists_play step (.start emptyDb)
    [.passOver 0 .full (hostCpu 95 10), .evaluated 0 0 (hostCpu 95 10) (.pended .inserted),
      .passOver 300 .full (hostCpu 75 10),
      .evaluated 300 300 (hostCpu 75 10) (.promoted .counted)]
    (fun t => t.db.alerts[0]?.any fun a => a.status == .active && a.severity == .critical &&
      a.breachValue == some 75 && a.breachThreshold == some 90) (by decide +kernel)
  obtain ⟨a, ha, hp⟩ := Option.any_eq_true _ _ |>.mp ht
  simp only [Bool.and_eq_true, beq_iff_eq] at hp
  obtain ⟨⟨⟨hactive, hsev⟩, hvalue⟩, hlimit⟩ := hp
  refine ⟨t, _, a, run, ha, hactive, hsev, hvalue, hlimit, ?_⟩
  rw [hvalue, hlimit]
  decide +kernel

end Evaluator

end MonitoringHub.Alerts
