import MonitoringHub.Alerts.EvaluatorRun

/-! What the evaluator is for one key: a quiet key, a suspected breach with its
candidate, or a raised alert. A key with both a candidate and an open alert cannot be
written down here; that the tables never hold one is what makes every run of passes a
run of this machine on each key, with the sweep and people in between. -/

namespace MonitoringHub.Alerts
open Lib

inductive KeyState
  | quiet
  | suspected (p : Pending)
  | raised (a : Alert)

def KeyState.candidate : KeyState → Option Pending
  | .suspected p => some p
  | _ => none

theorem KeyState.candidate_some {st : KeyState} {p : Pending} (h : st.candidate = some p) :
    st = .suspected p := by
  cases st <;> simp_all [KeyState.candidate]

structure Evaluation where
  began : ℕ
  now : ℕ
  r : RowInput
  outcome : Outcome

/-- A breaching reading while no alert is open. -/
def KeyState.confirm (now : ℕ) (value : ℚ) (r : RowInput) (p : Option Pending) :
    Outcome × KeyState :=
  let t := r.touch now p
  if t.2.breachCycles < r.verdict.required then (.pended t.1, .suspected t.2)
  else (.promoted t.1, .raised (promotedAlert now value r t.2))

/-- A healthy reading while the alert is open. -/
def KeyState.recover (now : ℕ) (value : ℚ) (r : RowInput) (a : Alert) : Outcome × KeyState :=
  let counted := cycleDue now a.cycleAt a.triggeredAt
  let marked := a.markHealthy now value (r.verdict.healthyThreshold a.severity)
  if marked.healthyStreak < r.verdict.required then (.healthy counted none, .raised marked)
  else (.healthy counted (some r.verdict.recoveryReason), .quiet)

inductive KeyState.Evaluates (now : ℕ) (r : RowInput) : KeyState → Outcome → KeyState → Prop
  | quietHealthy (hhealthy : r.verdict.breaching = false) : Evaluates now r .quiet .cleared .quiet
  | suspectedHealthy {p : Pending} (hhealthy : r.verdict.breaching = false) :
      Evaluates now r (.suspected p) .cleared .quiet
  | quietBreach {value : ℚ} (hvalue : r.verdict.value = some value)
      (hbreach : r.verdict.breaching = true) :
      Evaluates now r .quiet (KeyState.confirm now value r none).1
        (KeyState.confirm now value r none).2
  | suspectedBreach {p : Pending} {value : ℚ} (hvalue : r.verdict.value = some value)
      (hbreach : r.verdict.breaching = true) :
      Evaluates now r (.suspected p) (KeyState.confirm now value r (some p)).1
        (KeyState.confirm now value r (some p)).2
  | raisedHealthy {a : Alert} {value : ℚ} (hvalue : r.verdict.value = some value)
      (hhealthy : r.verdict.breaching = false) :
      Evaluates now r (.raised a) (KeyState.recover now value r a).1
        (KeyState.recover now value r a).2
  | raisedBreach {a : Alert} {value : ℚ} (hvalue : r.verdict.value = some value)
      (hbreach : r.verdict.breaching = true) :
      Evaluates now r (.raised a) .refreshed
        (.raised (Alert.markBreach now value r.verdict.thresholdValue r.verdict.severity a a))

/-- What the sweep, the expiry and people can do to a key. -/
inductive KeyState.Yields : KeyState → KeyState → Prop
  | same (st : KeyState) : Yields st st
  | expired (p : Pending) : Yields (.suspected p) .quiet
  | closed (a : Alert) : Yields (.raised a) .quiet
  | handled {a a' : Alert} (h : a.Handled a') : Yields (.raised a) (.raised a')

/-- The runs of one key from quiet, each evaluation meeting `G`, newest first. -/
inductive KeyRun (G : KeyState → ℕ → RowInput → Prop) : List Evaluation → KeyState → Prop
  | start : KeyRun G [] .quiet
  | yield {tr : List Evaluation} {st st' : KeyState} (run : KeyRun G tr st)
      (h : st.Yields st') : KeyRun G tr st'
  | evaluate {tr : List Evaluation} {st st' : KeyState} {began now : ℕ} {r : RowInput}
      {o : Outcome} (run : KeyRun G tr st) (hguard : G st now r)
      (h : KeyState.Evaluates now r st o st') : KeyRun G (⟨began, now, r, o⟩ :: tr) st'

/-- The invariant rule of a key: nothing done in between may break it. -/
theorem KeyRun.invariant {G : KeyState → ℕ → RowInput → Prop} {I : List Evaluation → KeyState → Prop}
    {tr : List Evaluation} {st : KeyState} (run : KeyRun G tr st) (hstart : I [] .quiet)
    (hyield : ∀ {tr st st'}, I tr st → st.Yields st' → I tr st')
    (hstep : ∀ {tr st st' began now r o}, I tr st → G st now r →
      KeyState.Evaluates now r st o st' → I (⟨began, now, r, o⟩ :: tr) st') : I tr st := by
  induction run with
  | start => exact hstart
  | yield _ h ih => exact hyield ih h
  | evaluate _ hguard h ih => exact hstep ih hguard h

def Db.keyState (db : Db) (k : AlertKey) : KeyState :=
  match db.selectOpen k with
  | some (_, a) => .raised a
  | none =>
    match db.pending k with
    | some p => .suspected p
    | none => .quiet

def keyTrace (k : AlertKey) (tr : List Event) : List Evaluation :=
  tr.filterMap fun
    | .evaluated began now r o => if r.key = k then some ⟨began, now, r, o⟩ else none
    | _ => none

theorem keyTrace_evaluated (began now : ℕ) (r : RowInput) (o : Outcome) (k : AlertKey)
    (tr : List Event) : keyTrace k (.evaluated began now r o :: tr) =
      if r.key = k then ⟨began, now, r, o⟩ :: keyTrace k tr else keyTrace k tr := by
  by_cases hk : r.key = k <;> simp [keyTrace, hk]

section View
variable {k : AlertKey} {db db' : Db}

theorem Db.NoOpen.selectOpen (h : db.NoOpen k) : db.selectOpen k = none := by
  cases hsel : db.selectOpen k with
  | none => rfl
  | some found =>
    obtain ⟨ha, hopen⟩ := Db.selectOpen_some hsel
    exact absurd ⟨found.2, ha, hopen⟩ (h found.1)

theorem Db.OnlyOpen.selectOpen {id : ℕ} {a : Alert} (h : db.OnlyOpen k id)
    (ha : db.alerts[id]? = some a) (hopen : openOn k a = true) :
    db.selectOpen k = some (id, a) := by
  cases hsel : db.selectOpen k with
  | none => exact absurd ⟨a, ha, hopen⟩ (Db.selectOpen_none hsel id)
  | some found =>
    obtain ⟨i, b⟩ := found
    obtain ⟨hb, hbopen⟩ := Db.selectOpen_some hsel
    obtain rfl := h.2 i ⟨b, hb, hbopen⟩
    rw [Option.some.inj (hb.symm.trans ha)]

theorem Db.keyState_raised {id : ℕ} {a : Alert} (h : db.selectOpen k = some (id, a)) :
    db.keyState k = .raised a := by
  simp only [Db.keyState, h]

theorem Db.NoOpen.keyState (h : db.NoOpen k) :
    db.keyState k = match db.pending k with
      | some p => .suspected p
      | none => .quiet := by
  simp only [Db.keyState, h.selectOpen]

theorem Db.Exclusive.keyState_of_open {id : ℕ} {a : Alert} (h : db.Exclusive k)
    (ha : db.alerts[id]? = some a) (hopen : openOn k a = true) : db.keyState k = .raised a := by
  have honly : db.OnlyOpen k id := ⟨⟨a, ha, (openOn_iff.mp hopen).1⟩,
    fun i ⟨b, hb, hb'⟩ => h.1 i id b a hb ha hb' hopen⟩
  exact Db.keyState_raised (honly.selectOpen ha hopen)

theorem Db.Exclusive.keyState_of_pending {p : Pending} (h : db.Exclusive k)
    (hp : db.pending k = some p) : db.keyState k = .suspected p := by
  rw [(h.2 (by simp [hp])).keyState, hp]

/-- A key none of whose open rows changed, with the same candidate, looks the same. -/
theorem Db.Exclusive.keyState_congr (h : db.Exclusive k) (hpending : db'.pending k = db.pending k)
    (hrows : ∀ (i : ℕ) (a : Alert), openOn k a = true →
      (db'.alerts[i]? = some a ↔ db.alerts[i]? = some a)) :
    db'.keyState k = db.keyState k := by
  cases hsel : db.selectOpen k with
  | none =>
    have hno := Db.selectOpen_none hsel
    have hno' : db'.NoOpen k := fun i ⟨a, ha, hopen⟩ =>
      hno i ⟨a, (hrows i a hopen).mp ha, hopen⟩
    rw [hno.keyState, hno'.keyState, hpending]
  | some found =>
    obtain ⟨id, a⟩ := found
    obtain ⟨ha, hopen⟩ := Db.selectOpen_some hsel
    have honly' : db'.OnlyOpen k id := by
      refine ⟨⟨a, (hrows id a hopen).mpr ha, (openOn_iff.mp hopen).1⟩, ?_⟩
      rintro i ⟨b, hb, hbopen⟩
      exact h.1 i id b a ((hrows i b hbopen).mp hb) ha hbopen hopen
    rw [Db.keyState_raised hsel,
      Db.keyState_raised (honly'.selectOpen ((hrows id a hopen).mpr ha) hopen)]

/-- What only closes alerts and drops candidates is a yield of every key. -/
theorem Db.Handled.yields (hh : db.Handled db') (h : db.Exclusive k)
    (hpending : ∀ p, db'.pending k = some p → db.pending k = some p) :
    (db.keyState k).Yields (db'.keyState k) := by
  cases hsel : db'.selectOpen k with
  | some found =>
    obtain ⟨id, a'⟩ := found
    obtain ⟨ha', hopen'⟩ := Db.selectOpen_some hsel
    obtain ⟨a, ha, hab⟩ := hh.2 id a' ha'
    obtain ⟨hkey, hstatus⟩ := openOn_iff.mp hopen'
    have hopen := openOn_iff.mpr ⟨hab.key_eq.symm.trans hkey, hab.open_before hstatus⟩
    rw [Db.keyState_raised hsel, h.keyState_of_open ha hopen]
    exact .handled hab
  | none =>
    rw [(Db.selectOpen_none hsel).keyState]
    cases hp : db'.pending k with
    | some p =>
      rw [h.keyState_of_pending (hpending p hp)]
      exact .same _
    | none =>
      cases db.keyState k with
      | quiet => exact .same _
      | suspected p => exact .expired p
      | raised a => exact .closed a

end View

section Project
variable {now : ℕ} {r : RowInput} {db db' : Db} {o : Outcome}

/-- Rewriting an alert of another key changes no open row of `k`. -/
theorem Db.modifyAlert_rows {k : AlertKey} {id : ℕ} {f : Alert → Alert} {a : Alert}
    (ha : db.alerts[id]? = some a) (hkey : a.key ≠ k) (hf : (f a).key = a.key) (i : ℕ) (b : Alert)
    (hb : openOn k b = true) :
    (db.modifyAlert id f).alerts[i]? = some b ↔ db.alerts[i]? = some b := by
  rw [db.modifyAlert_getElem?]
  split
  · rename_i hid
    subst hid
    have hbk := (openOn_iff.mp hb).1
    constructor
    · intro h
      rw [ha] at h
      obtain rfl := Option.some.inj h
      exact absurd (hf.symm.trans hbk) hkey
    · intro h
      obtain rfl := Option.some.inj (ha.symm.trans h)
      exact absurd hbk hkey
  · rfl

theorem Db.insertAlert_rows {k : AlertKey} {a : Alert} (hkey : a.key ≠ k) (i : ℕ) (b : Alert)
    (hb : openOn k b = true) :
    (db.insertAlert a).alerts[i]? = some b ↔ db.alerts[i]? = some b := by
  by_cases hi : i < db.alerts.length
  · rw [Db.insertAlert, List.getElem?_append_left hi]
  · have hnone : db.alerts[i]? = none := List.getElem?_eq_none (by omega)
    rw [Db.insertAlert, List.getElem?_append_right (by omega), hnone]
    refine ⟨fun h => ?_, fun h => by cases h⟩
    obtain rfl := List.mem_singleton.mp (List.mem_of_getElem? h)
    exact absurd (openOn_iff.mp hb).1 hkey

/-- A row evaluation does nothing to any other key. -/
theorem RowEffect.keyState_ne {k : AlertKey} (h : RowEffect now r db o db') (hk : r.key ≠ k)
    (hex : db.Exclusive k) : db'.keyState k = db.keyState k := by
  have hset : ∀ (d : Db) (p : Option Pending), (d.setPending r.key p).pending k = d.pending k :=
    fun d p => d.setPending_ne r.key hk.symm p
  have hrow : ∀ {id : ℕ} {a : Alert}, db.selectOpen r.key = some (id, a) →
      db.alerts[id]? = some a ∧ a.key ≠ k := fun hopen =>
    ⟨(Db.selectOpen_some hopen).1, (openOn_iff.mp (Db.selectOpen_some hopen).2).1 ▸ hk⟩
  cases h with
  | cleared | pended => exact hex.keyState_congr (hset db _) fun _ _ _ => Iff.rfl
  | healthy hopen =>
    obtain ⟨ha, hkey⟩ := hrow hopen
    exact hex.keyState_congr (hset db none)
      (Db.modifyAlert_rows ha hkey (Alert.markHealthy_key now _ _ _))
  | recovered hopen =>
    obtain ⟨ha, hkey⟩ := hrow hopen
    rename_i id existing value _ _ _
    have hmarked : ((db.clearPending r.key).modifyAlert id (.markHealthy now value
        (r.verdict.healthyThreshold existing.severity))).alerts[id]? =
        some (existing.markHealthy now value (r.verdict.healthyThreshold existing.severity)) := by
      rw [Db.modifyAlert_getElem?, if_pos rfl, Db.clearPending_alerts, ha]
      rfl
    refine hex.keyState_congr (hset db none) fun i b hb => ?_
    exact (Db.modifyAlert_rows hmarked hkey (Alert.resolveOpen_key now _ _) i b hb).trans
      (Db.modifyAlert_rows ha hkey (Alert.markHealthy_key now _ _ _) i b hb)
  | refreshed hopen =>
    obtain ⟨ha, hkey⟩ := hrow hopen
    exact hex.keyState_congr rfl
      (Db.modifyAlert_rows ha hkey (Alert.markBreach_breached now _ _ _ _ _).key_eq)
  | promoted =>
    refine hex.keyState_congr ((hset _ none).trans (hset db _)) fun i b hb => ?_
    exact Db.insertAlert_rows hk i b hb

theorem Db.NoOpen.confirm_evaluates {value : ℚ} (h : db.NoOpen r.key)
    (hvalue : r.verdict.value = some value) (hbreach : r.verdict.breaching = true) :
    KeyState.Evaluates now r (db.keyState r.key)
      (KeyState.confirm now value r (db.pending r.key)).1
      (KeyState.confirm now value r (db.pending r.key)).2 := by
  rw [h.keyState]
  cases db.pending r.key with
  | none => exact .quietBreach hvalue hbreach
  | some p => exact .suspectedBreach hvalue hbreach

/-- A row evaluation is an evaluation of its own key. -/
theorem RowEffect.evaluates (h : RowEffect now r db o db') (hex : db.Exclusive r.key) :
    KeyState.Evaluates now r (db.keyState r.key) o (db'.keyState r.key) := by
  have hmodified : ∀ {id : ℕ} {a : Alert} (d : Db) (f : Alert → Alert),
      d.alerts = db.alerts → db.selectOpen r.key = some (id, a) → (∀ b, (f b).key = b.key) →
        (d.modifyAlert id f).OnlyOpen r.key id ∧ (d.modifyAlert id f).alerts[id]? = some (f a) := by
    intro id a d f hd hopen hf
    obtain ⟨ha, hkey⟩ := Db.selectOpen_some hopen
    have honly := (hex.onlyOpen hopen).1
    refine ⟨Db.OnlyOpen.modifyAlert ?_ fun b hb => ?_, ?_⟩
    · simpa only [Db.OnlyOpen, Db.OpenAt, hd] using honly
    · rw [hd] at hb
      obtain rfl := Option.some.inj (ha.symm.trans hb)
      rw [hf]
      exact (openOn_iff.mp hkey).1
    · rw [Db.modifyAlert_getElem?, if_pos rfl, hd, ha]
      rfl
  cases h with
  | cleared hnone hhealthy =>
    have hno := Db.selectOpen_none hnone
    have hno' : (db.clearPending r.key).NoOpen r.key := hno
    rw [hno.keyState, hno'.keyState, db.clearPending_self]
    cases db.pending r.key with
    | none => exact .quietHealthy hhealthy
    | some p => exact .suspectedHealthy hhealthy
  | healthy hopen hvalue hhealthy hstreak =>
    rename_i id existing value
    obtain ⟨honly, ha⟩ := hmodified (db.clearPending r.key) (.markHealthy now value
      (r.verdict.healthyThreshold existing.severity)) rfl hopen (Alert.markHealthy_key now _ _)
    rw [Db.keyState_raised hopen,
      Db.keyState_raised (honly.selectOpen ha (Db.selectOpen_some hopen).2)]
    have heval : KeyState.Evaluates now r (.raised existing) _ _ := .raisedHealthy hvalue hhealthy
    simpa only [KeyState.recover, if_pos hstreak] using heval
  | recovered hopen hvalue hhealthy hstreak =>
    rename_i id existing value
    obtain ⟨honly, ha⟩ := hmodified (db.clearPending r.key) (.markHealthy now value
      (r.verdict.healthyThreshold existing.severity)) rfl hopen (Alert.markHealthy_key now _ _)
    have hclosed := honly.modifyAlert (f := .resolveOpen now r.verdict.recoveryReason)
      fun b hb => (Alert.resolveOpen_key now _ b).trans (by
        obtain rfl := Option.some.inj (ha.symm.trans hb)
        exact (openOn_iff.mp (Db.selectOpen_some hopen).2).1)
    have hno : (((db.clearPending r.key).modifyAlert id (.markHealthy now value
        (r.verdict.healthyThreshold existing.severity))).modifyAlert id
          (.resolveOpen now r.verdict.recoveryReason)).NoOpen r.key := by
      intro i hi
      obtain rfl := hclosed.2 i hi
      obtain ⟨b, hb, hbopen⟩ := hi
      rw [Db.modifyAlert_getElem?, if_pos rfl, ha] at hb
      obtain rfl := Option.some.inj hb
      exact Status.isOpen_iff.mp (openOn_iff.mp hbopen).2 (Alert.resolveOpen_status now _ _)
    rw [Db.keyState_raised hopen, hno.keyState]
    have hpending : (((db.clearPending r.key).modifyAlert id (.markHealthy now value
        (r.verdict.healthyThreshold existing.severity))).modifyAlert id
          (.resolveOpen now r.verdict.recoveryReason)).pending r.key = none :=
      db.clearPending_self r.key
    rw [hpending]
    have heval : KeyState.Evaluates now r (.raised existing) _ _ := .raisedHealthy hvalue hhealthy
    simpa only [KeyState.recover, if_neg (Nat.not_lt.mpr hstreak)] using heval
  | refreshed hopen hvalue hbreach =>
    rename_i id existing value
    obtain ⟨honly, ha⟩ := hmodified db (.markBreach now value r.verdict.thresholdValue
      r.verdict.severity existing) rfl hopen
      fun b => (Alert.markBreach_breached now _ _ _ _ b).key_eq
    have hopen' := (openOn_iff.mp (Db.selectOpen_some hopen).2)
    have hstill : openOn r.key (Alert.markBreach now value r.verdict.thresholdValue
        r.verdict.severity existing existing) = true := by
      refine openOn_iff.mpr
        ⟨(Alert.markBreach_breached now _ _ _ _ existing).key_eq.trans hopen'.1, ?_⟩
      rw [Alert.markBreach_status]
      split
      · rfl
      · exact hopen'.2
    rw [Db.keyState_raised hopen, Db.keyState_raised (honly.selectOpen ha hstill)]
    exact .raisedBreach hvalue hbreach
  | pended hnone hbreach hcycles =>
    have hno := Db.selectOpen_none hnone
    obtain ⟨value, hvalue⟩ := Option.isSome_iff_exists.mp (r.verdict.value_isSome hbreach)
    have hno' : (db.setPending r.key (some (r.touch now (db.pending r.key)).2)).NoOpen r.key := hno
    rw [hno'.keyState, db.setPending_self]
    have heval : KeyState.Evaluates now r _ _ _ := hno.confirm_evaluates hvalue hbreach
    simpa only [KeyState.confirm, if_pos hcycles] using heval
  | promoted hnone hvalue hbreach hcycles =>
    have hno := Db.selectOpen_none hnone
    rename_i value
    have honly : (((db.setPending r.key (some (r.touch now (db.pending r.key)).2)).insertAlert
        (promotedAlert now value r (r.touch now (db.pending r.key)).2)).clearPending
          r.key).OnlyOpen r.key db.alerts.length := hno.insertAlert rfl
    have ha : (((db.setPending r.key (some (r.touch now (db.pending r.key)).2)).insertAlert
        (promotedAlert now value r (r.touch now (db.pending r.key)).2)).clearPending
          r.key).alerts[db.alerts.length]? =
        some (promotedAlert now value r (r.touch now (db.pending r.key)).2) := by
      simp [Db.insertAlert]
    rw [Db.keyState_raised (honly.selectOpen ha (openOn_iff.mpr ⟨rfl, rfl⟩))]
    have heval : KeyState.Evaluates now r _ _ _ := hno.confirm_evaluates hvalue hbreach
    simpa only [KeyState.confirm, if_neg (Nat.not_lt.mpr hcycles)] using heval

end Project

def emptyDb : Db := ⟨[], fun _ => none⟩

/-- A condition on a key and the reading it meets, as a condition on evaluator steps. -/
def OnKeys (G : KeyState → ℕ → RowInput → Prop) (s : Evaluator) (e : Event) : Prop :=
  ∀ began now r o, e = .evaluated began now r o → G (s.db.keyState r.key) now r

instance (G : KeyState → ℕ → RowInput → Prop) [∀ st now r, Decidable (G st now r)] (s : Evaluator)
    (e : Event) : Decidable (OnKeys G s e) :=
  match e with
  | .evaluated _ now r _ =>
    decidable_of_iff (G (s.db.keyState r.key) now r) (by
      refine ⟨fun h _ _ _ _ he => ?_, fun h => h _ _ _ _ rfl⟩
      injection he with _ hnow hr _
      rwa [← hnow, ← hr])
  | .beginPass .. => .isTrue fun _ _ _ _ he => (by cases he)
  | .rowFailed _ => .isTrue fun _ _ _ _ he => (by cases he)
  | .human .. => .isTrue fun _ _ _ _ he => (by cases he)

/-- Every run of passes from empty tables is, on each key, a run of the key. -/
theorem Evaluator.run_keyRun {G : KeyState → ℕ → RowInput → Prop} {t : Evaluator}
    {tr : List Event}
    (run : Steps (Guarded (Takes Evaluator.step) (OnKeys G)) (.start emptyDb) tr t)
    (k : AlertKey) : KeyRun G (keyTrace k tr) (t.db.keyState k) := by
  induction run with
  | refl => exact .start
  | snoc run hstep ih =>
    obtain ⟨hguard, hstep⟩ := hstep
    have hex := Evaluator.run_exclusive (Guarded.run run) rfl
    cases Evaluator.step_effect hstep with
    | beginPass =>
      obtain ⟨hh, hpending⟩ := sweepOf_handled _ _ _ _
      exact ih.yield (hh.yields (hex k) (hpending k))
    | evaluated hnow htodo heff =>
      rename_i now r o rest db
      by_cases hk : r.key = k
      · subst hk
        simp only [keyTrace, List.filterMap_cons, if_true]
        exact ih.evaluate (hguard _ _ _ _ rfl) (heff.evaluates (hex r.key))
      · simp only [keyTrace, List.filterMap_cons, if_neg hk]
        rw [heff.keyState_ne hk (hex k)]
        exact ih
    | rowFailed => exact ih
    | human => exact ih.yield ((Db.act_handled _ _ _).yields (hex k) fun _ hp => hp)

/-- The same for a run without conditions. -/
theorem Evaluator.run_keyRun_all {t : Evaluator} {tr : List Event}
    (run : Steps (Takes Evaluator.step) (.start emptyDb) tr t) (k : AlertKey) :
    KeyRun (fun _ _ _ => True) (keyTrace k tr) (t.db.keyState k) :=
  Evaluator.run_keyRun (run.mono fun _ _ _ h => ⟨fun _ _ _ _ _ => trivial, h⟩) k

end MonitoringHub.Alerts
