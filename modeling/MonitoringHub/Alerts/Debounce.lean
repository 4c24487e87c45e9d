import MonitoringHub.Lib.GatedCounter
import MonitoringHub.Alerts.KeyState

/-! Debounce. The two counters, breach cycles of a candidate and the healthy streak of
an alert, are read back from the history of their key: the times each has counted are
one cycle apart, belong to the current breaching (healthy) stretch, and are as many as
the counter says. -/

namespace MonitoringHub.Alerts
open Lib

/-- Times of the breaching evaluations since the last healthy one, newest first. -/
def breachesSinceHealthy : List Evaluation → List ℕ
  | [] => []
  | e :: tr => if e.r.verdict.breaching then e.now :: breachesSinceHealthy tr else []

/-- Times of the healthy evaluations since the last breaching one, newest first. -/
def healthySinceBreach : List Evaluation → List ℕ
  | [] => []
  | e :: tr => if e.r.verdict.breaching then [] else e.now :: healthySinceBreach tr

def lastBreachAt : List Evaluation → Option ℕ
  | [] => none
  | e :: tr => if e.r.verdict.breaching then some e.now else lastBreachAt tr

/-- The breaches counted for the candidate of the key, back to the one that made it. -/
def countRun : List Evaluation → List ℕ
  | [] => []
  | e :: tr =>
    match e.outcome with
    | .pended .inserted | .promoted .inserted => [e.now]
    | .pended .counted | .promoted .counted => e.now :: countRun tr
    | .pended .waited | .promoted .waited => countRun tr
    | _ => []

/-- The healthy cycles counted since the last breaching evaluation. -/
def countedHealthy : List Evaluation → List ℕ
  | [] => []
  | e :: tr =>
    if e.r.verdict.breaching then [] else
      match e.outcome with
      | .healthy true _ => e.now :: countedHealthy tr
      | _ => countedHealthy tr

structure Debounced (tr : List Evaluation) (st : KeyState) : Prop where
  breaches : (countRun tr).Sublist (breachesSinceHealthy tr)
  healthy : (countedHealthy tr).Sublist (healthySinceBreach tr)
  pending : ∀ p, st = .suspected p →
    Recorded minCycleSeconds (countRun tr) p.breachCycles p.clock
  streak : ∀ a, st = .raised a → ∃ breachAt, lastBreachAt tr = some breachAt ∧
    Recorded minCycleSeconds (countedHealthy tr ++ [breachAt]) (a.healthyStreak + 1) a.clock

section States
variable {tr : List Evaluation} (hbreaches : (countRun tr).Sublist (breachesSinceHealthy tr))
  (hhealthy : (countedHealthy tr).Sublist (healthySinceBreach tr))
include hbreaches hhealthy

theorem Debounced.of_quiet : Debounced tr .quiet :=
  ⟨hbreaches, hhealthy, fun _ h => (by cases h), fun _ h => (by cases h)⟩

theorem Debounced.of_suspected {p : Pending}
    (hp : Recorded minCycleSeconds (countRun tr) p.breachCycles p.clock) :
    Debounced tr (.suspected p) := by
  refine ⟨hbreaches, hhealthy, fun q hq => ?_, fun _ h => (by cases h)⟩
  obtain rfl := KeyState.suspected.inj hq
  exact hp

theorem Debounced.of_raised {a : Alert} {breachAt : ℕ} (hlast : lastBreachAt tr = some breachAt)
    (ha : Recorded minCycleSeconds (countedHealthy tr ++ [breachAt]) (a.healthyStreak + 1) a.clock) :
    Debounced tr (.raised a) := by
  refine ⟨hbreaches, hhealthy, fun _ h => (by cases h), fun b hb => ?_⟩
  obtain rfl := KeyState.raised.inj hb
  exact ⟨breachAt, hlast, ha⟩

end States

section Touch
variable {tr : List Evaluation} {st : KeyState} {began now : ℕ} {r : RowInput}

/-- One touch: what the candidate counts is one more time, or the same ones. -/
theorem Debounced.touch (h : Debounced tr st) {o : Outcome}
    (ho : o = .pended (r.touch now st.candidate).1 ∨ o = .promoted (r.touch now st.candidate).1) :
    Recorded minCycleSeconds (countRun (⟨began, now, r, o⟩ :: tr))
      (r.touch now st.candidate).2.breachCycles (r.touch now st.candidate).2.clock := by
  cases hst : st.candidate with
  | none =>
    obtain ⟨htouch, hcycles, hclock⟩ := r.touch_none now
    rw [hst, htouch] at ho
    have hrun : countRun (⟨began, now, r, o⟩ :: tr) = [now] := by
      rcases ho with rfl | rfl <;> rfl
    rw [hrun, hcycles, hclock]
    exact .start _ _
  | some p =>
    obtain rfl := KeyState.candidate_some hst
    have hp := h.pending p rfl
    by_cases hdue : p.clock + minCycleSeconds ≤ now
    · obtain ⟨htouch, hcycles, hclock⟩ := r.touch_due hdue
      rw [hst, htouch] at ho
      have hrun : countRun (⟨began, now, r, o⟩ :: tr) = now :: countRun tr := by
        rcases ho with rfl | rfl <;> rfl
      rw [hrun, hcycles, hclock]
      exact hp.counted hdue
    · obtain ⟨htouch, hcycles, hclock⟩ := r.touch_waits hdue
      rw [hst, htouch] at ho
      have hrun : countRun (⟨began, now, r, o⟩ :: tr) = countRun tr := by
        rcases ho with rfl | rfl <;> rfl
      rw [hrun, hcycles, hclock]
      exact hp

/-- One healthy cycle on an open alert: one more counted time, or the same ones. -/
theorem Debounced.recover {a : Alert} (h : Debounced tr (.raised a))
    (hhealthy : r.verdict.breaching = false) (value : ℚ) (threshold : Option ℚ)
    (resolved : Option ResolutionReason) {breachAt : ℕ} (hbreach : lastBreachAt tr = some breachAt) :
    Recorded minCycleSeconds
      (countedHealthy (⟨began, now, r, .healthy (cycleDue now a.cycleAt a.triggeredAt) resolved⟩ ::
        tr) ++ [breachAt])
      ((a.markHealthy now value threshold).healthyStreak + 1)
      (a.markHealthy now value threshold).clock := by
  obtain ⟨breachAt', hb', ha⟩ := h.streak a rfl
  obtain rfl := Option.some.inj (hbreach.symm.trans hb')
  by_cases hdue : a.clock + minCycleSeconds ≤ now
  · obtain ⟨hgate, hstreak, hclock⟩ := Alert.markHealthy_due hdue value threshold
    rw [hstreak, hclock, hgate]
    simp only [countedHealthy, hhealthy, Bool.false_eq_true, if_false, List.cons_append]
    exact ha.counted hdue
  · obtain ⟨hgate, hstreak, hclock⟩ := Alert.markHealthy_waits hdue value threshold
    rw [hstreak, hclock, hgate]
    simpa only [countedHealthy, hhealthy, Bool.false_eq_true, if_false] using ha

theorem Debounced.countRun_sublist (h : Debounced tr st) {o : Outcome} {t : Touch}
    (hbreach : r.verdict.breaching = true) (ho : o = .pended t ∨ o = .promoted t) :
    (countRun (⟨began, now, r, o⟩ :: tr)).Sublist
      (breachesSinceHealthy (⟨began, now, r, o⟩ :: tr)) := by
  simp only [breachesSinceHealthy, hbreach, if_true]
  rcases ho with rfl | rfl <;> cases t
  · exact List.singleton_sublist.mpr List.mem_cons_self
  · exact h.breaches.cons_cons now
  · exact h.breaches.cons now
  · exact List.singleton_sublist.mpr List.mem_cons_self
  · exact h.breaches.cons_cons now
  · exact h.breaches.cons now

theorem Debounced.countedHealthy_sublist (h : Debounced tr st) (o : Outcome) :
    (countedHealthy (⟨began, now, r, o⟩ :: tr)).Sublist
      (healthySinceBreach (⟨began, now, r, o⟩ :: tr)) := by
  simp only [countedHealthy, healthySinceBreach]
  split
  · exact List.nil_sublist _
  · split
    · exact h.healthy.cons_cons now
    · exact h.healthy.cons now

/-- A breaching reading starts the healthy stretch afresh. -/
theorem Debounced.raised_breach (h : Debounced tr st) {o : Outcome} {a : Alert}
    (hbreach : r.verdict.breaching = true)
    (hcount : (countRun (⟨began, now, r, o⟩ :: tr)).Sublist
      (breachesSinceHealthy (⟨began, now, r, o⟩ :: tr)))
    (hclock : a.clock = now) (hstreak : a.healthyStreak = 0) :
    Debounced (⟨began, now, r, o⟩ :: tr) (.raised a) := by
  have hlast : lastBreachAt (⟨began, now, r, o⟩ :: tr) = some now := by
    simp only [lastBreachAt, hbreach, if_true]
  refine .of_raised hcount (h.countedHealthy_sublist o) hlast ?_
  simp only [countedHealthy, hbreach, if_true, List.nil_append, hclock, hstreak]
  exact .start _ _

theorem Debounced.confirm (h : Debounced tr st) (hbreach : r.verdict.breaching = true)
    (value : ℚ) :
    Debounced (⟨began, now, r, (KeyState.confirm now value r st.candidate).1⟩ :: tr)
      (KeyState.confirm now value r st.candidate).2 := by
  unfold KeyState.confirm
  simp only
  split
  · exact .of_suspected (h.countRun_sublist hbreach (.inl rfl)) (h.countedHealthy_sublist _)
      (h.touch (.inl rfl))
  · exact h.raised_breach hbreach (h.countRun_sublist hbreach (.inr rfl)) rfl rfl

theorem Debounced.evaluate {st' : KeyState} {o : Outcome} (h : Debounced tr st)
    (he : KeyState.Evaluates now r st o st') : Debounced (⟨began, now, r, o⟩ :: tr) st' := by
  cases he with
  | quietHealthy | suspectedHealthy =>
    exact .of_quiet (List.nil_sublist _) (h.countedHealthy_sublist _)
  | quietBreach hvalue hbreach | suspectedBreach hvalue hbreach => exact h.confirm hbreach _
  | raisedBreach hvalue hbreach =>
    have hmark := Alert.markBreach_breached now
    exact h.raised_breach hbreach (List.nil_sublist _) (hmark _ _ _ _ _).clock_eq
      (hmark _ _ _ _ _).streak_eq
  | raisedHealthy hvalue hhealthy =>
    have hcount : ∀ c resolved, (countRun (⟨began, now, r, .healthy c resolved⟩ :: tr)).Sublist
        (breachesSinceHealthy (⟨began, now, r, .healthy c resolved⟩ :: tr)) :=
      fun _ _ => List.nil_sublist _
    unfold KeyState.recover
    simp only
    split
    · obtain ⟨breachAt, hlast, -⟩ := h.streak _ rfl
      refine .of_raised (hcount _ _) (h.countedHealthy_sublist _) ?_
        (h.recover hhealthy _ _ none hlast)
      simpa only [lastBreachAt, hhealthy, Bool.false_eq_true, if_false] using hlast
    · exact .of_quiet (hcount _ _) (h.countedHealthy_sublist _)

theorem Debounced.yield {st' : KeyState} (h : Debounced tr st) (hy : st.Yields st') :
    Debounced tr st' := by
  cases hy with
  | same => exact h
  | expired | closed => exact .of_quiet h.breaches h.healthy
  | handled hh =>
    obtain ⟨breachAt, hlast, hrec⟩ := h.streak _ rfl
    refine .of_raised h.breaches h.healthy hlast ?_
    rwa [hh.streak_eq, hh.clock_eq]

end Touch

theorem KeyRun.debounced {G : KeyState → ℕ → RowInput → Prop} {tr : List Evaluation} {st : KeyState}
    (run : KeyRun G tr st) : Debounced tr st :=
  run.invariant (.of_quiet (List.Sublist.refl _) (List.Sublist.refl _))
    (fun h hy => h.yield hy) fun h _ he => h.evaluate he

namespace Evaluator

/-- No evaluation in the history of a key is later than the clock. -/
theorem keyTrace_le_clock {s t : Evaluator} {tr : List Event} (run : Steps (Takes step) s tr t)
    (k : AlertKey) : ∀ e ∈ keyTrace k tr, e.now ≤ t.clock := by
  induction run with
  | refl => simp [keyTrace]
  | snoc _ hstep ih =>
    cases step_effect hstep with
    | beginPass hnow | rowFailed hnow | human hnow => exact fun e he => (ih e he).trans hnow
    | evaluated hnow =>
      rename_i now r o rest db htodo heff
      intro e he
      simp only [keyTrace, List.filterMap_cons] at he
      split at he
      · exact (ih e he).trans hnow
      · rename_i e' he'
        rcases List.mem_cons.mp he with rfl | he
        · split at he'
          · obtain rfl := Option.some.inj he'
            exact le_rfl
          · cases he'
        · exact (ih e he).trans hnow

theorem countedHealthy_le {bound : ℕ} {tr : List Evaluation} (h : ∀ e ∈ tr, e.now ≤ bound) :
    ∀ t ∈ countedHealthy tr, t ≤ bound := by
  induction tr with
  | nil => simp [countedHealthy]
  | cons e tr ih =>
    have hrest := ih fun e' he' => h e' (List.mem_cons_of_mem e he')
    intro t ht
    simp only [countedHealthy] at ht
    split at ht
    · simp at ht
    · split at ht
      · rcases List.mem_cons.mp ht with rfl | ht
        · exact h e List.mem_cons_self
        · exact hrest t ht
      · exact hrest t ht

/-- A new alert rests on counted breaches of its key, one cycle apart, as many as its
rule requires. -/
theorem created_counted {s t : Evaluator} {tr : List Event} {e : Event}
    (run : Steps (Takes step) (.start emptyDb) tr s) (h : s.step e = some t) {id : ℕ} {a : Alert}
    (hnew : s.db.alerts.length ≤ id) (ha : t.db.alerts[id]? = some a) :
    ∃ now r o, e = .evaluated s.began now r o ∧ r.key = a.key ∧
      r.verdict.required ≤ (countRun (keyTrace a.key (e :: tr))).length ∧
      Spaced minCycleSeconds (countRun (keyTrace a.key (e :: tr))) ∧
      (countRun (keyTrace a.key (e :: tr))).Sublist
        (breachesSinceHealthy (keyTrace a.key (e :: tr))) := by
  obtain ⟨now, r, value, rfl, hnow, hsel, hbreach, hcycles, rfl⟩ := step_created h hnew ha
  refine ⟨now, r, _, rfl, rfl, ?_⟩
  have hkey := (run_keyRun_all run r.key).debounced
  have hcandidate : (s.db.keyState r.key).candidate = s.db.pending r.key := by
    rw [(Db.selectOpen_none hsel).keyState]
    cases s.db.pending r.key <;> rfl
  rw [← hcandidate] at hcycles ⊢
  have hrec : Recorded minCycleSeconds (countRun (⟨s.began, now, r, _⟩ :: keyTrace r.key tr))
      _ _ := hkey.touch (.inr rfl)
  simp only [promotedAlert, keyTrace_evaluated, if_true]
  exact ⟨hrec.length_eq ▸ hcycles, hrec.spaced, hkey.countRun_sublist hbreach (.inr rfl)⟩

/-- Debounce of a run of passes from empty tables. An alert is created only by an
evaluation that makes `required` counted breaches of its key since the key was last
healthy; an open alert is resolved as recovered only by one that makes `required`
counted healthy cycles since its last breach. Counted times are one cycle apart. -/
theorem debounce {s t : Evaluator} {tr : List Event} {e : Event}
    (run : Steps (Takes step) (.start emptyDb) tr s) (h : s.step e = some t) :
    (∀ (id : ℕ) (a : Alert), s.db.alerts.length ≤ id → t.db.alerts[id]? = some a →
      ∃ now r o, e = .evaluated s.began now r o ∧ r.key = a.key ∧
        r.verdict.required ≤ (countRun (keyTrace a.key (e :: tr))).length ∧
        Spaced minCycleSeconds (countRun (keyTrace a.key (e :: tr))) ∧
        (countRun (keyTrace a.key (e :: tr))).Sublist
          (breachesSinceHealthy (keyTrace a.key (e :: tr)))) ∧
    (∀ (id : ℕ) (a a' : Alert), s.db.alerts[id]? = some a → a.status.isOpen = true →
      t.db.alerts[id]? = some a' → a'.status = .resolved →
      a'.resolutionReason = some .recovered →
      ∃ now r o breachAt, e = .evaluated s.began now r o ∧ r.key = a.key ∧
        lastBreachAt (keyTrace a.key (e :: tr)) = some breachAt ∧
        r.verdict.required ≤ (countedHealthy (keyTrace a.key (e :: tr))).length ∧
        Spaced minCycleSeconds (countedHealthy (keyTrace a.key (e :: tr)) ++ [breachAt]) ∧
        (countedHealthy (keyTrace a.key (e :: tr))).Sublist
          (healthySinceBreach (keyTrace a.key (e :: tr))) ∧
        breachAt + r.verdict.required * minCycleSeconds ≤ now) := by
  refine ⟨fun id a hnew ha => created_counted run h hnew ha, ?_⟩
  intro id a a' ha hopen ha' hres hreason
  obtain ⟨now, r, value, rfl, hnow, hrkey, hsel, hhealthy, hstreak⟩ :=
    step_recovered h ha hopen ha' hres hreason
  have hkey := (run_keyRun_all run r.key).debounced
  rw [Db.keyState_raised hsel] at hkey
  obtain ⟨breachAt, hlast, -⟩ := hkey.streak a rfl
  have hrec : Recorded minCycleSeconds
      (countedHealthy (⟨s.began, now, r, _⟩ :: keyTrace r.key tr) ++ [breachAt]) _ _ :=
    hkey.recover hhealthy value (r.verdict.healthyThreshold a.severity) (some .recovered) hlast
  refine ⟨now, r, _, breachAt, rfl, hrkey, ?_⟩
  rw [← hrkey, keyTrace_evaluated, if_pos rfl]
  have hlen := hrec.length_eq
  rw [List.length_append, List.length_singleton, Nat.add_right_cancel_iff] at hlen
  have hbound : ∀ u ∈ countedHealthy (⟨s.began, now, r, .healthy
      (cycleDue now a.cycleAt a.triggeredAt) (some .recovered)⟩ :: keyTrace r.key tr), u ≤ now := by
    refine countedHealthy_le fun e he => ?_
    rcases List.mem_cons.mp he with rfl | he
    · exact le_rfl
    · exact (keyTrace_le_clock run r.key e he).trans hnow
  refine ⟨by simpa only [lastBreachAt, hhealthy, Bool.false_eq_true, if_false] using hlast,
    hlen ▸ hstreak, hrec.spaced, hkey.countedHealthy_sublist _, ?_⟩
  exact hrec.spaced.reached (hlen ▸ hstreak) r.verdict.required_pos hbound

/-- Two breaches five minutes apart under a rule of two cycles. -/
theorem debounce_twoCycles :
    ∃ s t : Evaluator, s.step (.evaluated 300 300 (hostCpu 75 10) (.promoted .counted)) = some t ∧
      ∃ a, t.db.alerts[0]? = some a ∧ 2 ≤ (countRun (keyTrace a.key
        [.evaluated 300 300 (hostCpu 75 10) (.promoted .counted),
          .passOver 300 .full (hostCpu 75 10),
          .evaluated 0 0 (hostCpu 75 10) (.pended .inserted),
          .passOver 0 .full (hostCpu 75 10)])).length := by
  obtain ⟨s, t, run, hstep, hp⟩ := exists_play_last step (.start emptyDb)
    [.passOver 0 .full (hostCpu 75 10), .evaluated 0 0 (hostCpu 75 10) (.pended .inserted),
      .passOver 300 .full (hostCpu 75 10)]
    (.evaluated 300 300 (hostCpu 75 10) (.promoted .counted))
    (fun s t => s.db.alerts.isEmpty && t.db.alerts[0]?.isSome) (by decide +kernel)
  simp only [Bool.and_eq_true, List.isEmpty_iff, Option.isSome_iff_exists] at hp
  obtain ⟨hempty, a, ha⟩ := hp
  obtain ⟨now, r, o, he, -, hcount, -⟩ := (debounce run hstep).1 0 a (by simp [hempty]) ha
  injection he with _ _ hr _
  have htwo : (hostCpu 75 10).verdict.required = 2 := by decide +kernel
  rw [← hr, htwo] at hcount
  exact ⟨s, t, hstep, a, ha, hcount⟩

end Evaluator

end MonitoringHub.Alerts
