import MonitoringHub.Lib.StepRun
import MonitoringHub.Alerts.RowEvaluation

/-! Row evaluations statement by statement. Between any two statements of a row
people may act on alerts, and an exception may roll the row back. There is one
evaluator, so at most one row is in flight; the stale sweep runs between rows. -/

namespace MonitoringHub.Alerts
open Lib

/-- Where a row stands: the statement it has just executed, with what it read and,
for a row of `alerts` it has written, the images before and after. -/
inductive Phase
  | looked (existing : Option (ℕ × Alert))
  | cleared (id : ℕ) (existing : Alert)
  | marked (id : ℕ) (before after : Alert)
  | confirmed (id : ℕ) (before after : Alert)
  | touched (p : Pending)
  | inserted (a : Alert)

structure Flight where
  r : RowInput
  saved : Option Pending
  phase : Phase

structure Interleaved where
  db : Db
  flight : Option Flight

/-- The next statement of the row; no flight is left when it was the last one. -/
def Flight.statement (f : Flight) (now : ℕ) (db : Db) : Option Interleaved :=
  let v := f.r.verdict
  let go (phase : Phase) (db : Db) : Interleaved := ⟨db, some { f with phase := phase }⟩
  match f.phase with
  | .looked (some (id, existing)) =>
    if v.breaching then
      v.value.map fun value =>
        ⟨db.modifyAlert id (.markBreach now value v.thresholdValue v.severity existing), none⟩
    else some (go (.cleared id existing) (db.clearPending f.r.key))
  | .looked none =>
    if v.breaching then
      let p := (f.r.touch now (db.pending f.r.key)).2
      if p.breachCycles < v.required then some ⟨db.setPending f.r.key (some p), none⟩
      else some (go (.touched p) (db.setPending f.r.key (some p)))
    else some ⟨db.clearPending f.r.key, none⟩
  | .cleared id existing =>
    v.value.bind fun value => db.alerts[id]?.map fun before =>
      let mark := Alert.markHealthy now value (v.healthyThreshold existing.severity)
      go (.marked id before (mark before)) (db.modifyAlert id mark)
  | .marked id before after =>
    db.alerts[id]?.map fun a =>
      if a.healthyStreak ≥ v.required then go (.confirmed id before after) db else ⟨db, none⟩
  | .confirmed id _ _ => some ⟨db.modifyAlert id (.resolveOpen now v.recoveryReason), none⟩
  | .touched p =>
    v.value.map fun value =>
      let a := promotedAlert now value f.r p
      go (.inserted a) (db.insertAlert a)
  | .inserted _ => some ⟨db.clearPending f.r.key, none⟩

/-- What one statement can do, by the phase it finds the row in. -/
inductive StatementEffect (f : Flight) (now : ℕ) (db : Db) : Interleaved → Prop
  | refreshed {id : ℕ} {existing : Alert} {value : ℚ}
      (hphase : f.phase = .looked (some (id, existing)))
      (hvalue : f.r.verdict.value = some value) (hbreach : f.r.verdict.breaching = true) :
      StatementEffect f now db ⟨db.modifyAlert id (.markBreach now value
        f.r.verdict.thresholdValue f.r.verdict.severity existing), none⟩
  | cleared {id : ℕ} {existing : Alert} (hphase : f.phase = .looked (some (id, existing)))
      (hhealthy : f.r.verdict.breaching = false) :
      StatementEffect f now db
        ⟨db.clearPending f.r.key, some { f with phase := .cleared id existing }⟩
  | pended (hphase : f.phase = .looked none) (hbreach : f.r.verdict.breaching = true)
      (hcycles : (f.r.touch now (db.pending f.r.key)).2.breachCycles < f.r.verdict.required) :
      StatementEffect f now db
        ⟨db.setPending f.r.key (some (f.r.touch now (db.pending f.r.key)).2), none⟩
  | touched (hphase : f.phase = .looked none) (hbreach : f.r.verdict.breaching = true)
      (hcycles : f.r.verdict.required ≤ (f.r.touch now (db.pending f.r.key)).2.breachCycles) :
      StatementEffect f now db
        ⟨db.setPending f.r.key (some (f.r.touch now (db.pending f.r.key)).2),
          some { f with phase := .touched (f.r.touch now (db.pending f.r.key)).2 }⟩
  | settled (hphase : f.phase = .looked none) (hhealthy : f.r.verdict.breaching = false) :
      StatementEffect f now db ⟨db.clearPending f.r.key, none⟩
  | marked {id : ℕ} {existing before : Alert} {value : ℚ} (hphase : f.phase = .cleared id existing)
      (hvalue : f.r.verdict.value = some value) (hbefore : db.alerts[id]? = some before) :
      StatementEffect f now db
        ⟨db.modifyAlert id
            (.markHealthy now value (f.r.verdict.healthyThreshold existing.severity)),
          some { f with
            phase := .marked id before
              (before.markHealthy now value (f.r.verdict.healthyThreshold existing.severity)) }⟩
  | confirmed {id : ℕ} {before after a : Alert} (hphase : f.phase = .marked id before after)
      (ha : db.alerts[id]? = some a) (hstreak : f.r.verdict.required ≤ a.healthyStreak) :
      StatementEffect f now db ⟨db, some { f with phase := .confirmed id before after }⟩
  | kept {id : ℕ} {before after a : Alert} (hphase : f.phase = .marked id before after)
      (ha : db.alerts[id]? = some a) (hstreak : a.healthyStreak < f.r.verdict.required) :
      StatementEffect f now db ⟨db, none⟩
  | resolved {id : ℕ} {before after : Alert} (hphase : f.phase = .confirmed id before after) :
      StatementEffect f now db
        ⟨db.modifyAlert id (.resolveOpen now f.r.verdict.recoveryReason), none⟩
  | inserted {p : Pending} {value : ℚ} (hphase : f.phase = .touched p)
      (hvalue : f.r.verdict.value = some value) :
      StatementEffect f now db
        ⟨db.insertAlert (promotedAlert now value f.r p),
          some { f with phase := .inserted (promotedAlert now value f.r p) }⟩
  | finished {a : Alert} (hphase : f.phase = .inserted a) :
      StatementEffect f now db ⟨db.clearPending f.r.key, none⟩

theorem Flight.statement_effect {f : Flight} {now : ℕ} {db : Db} {s : Interleaved}
    (h : f.statement now db = some s) : StatementEffect f now db s := by
  unfold Flight.statement at h
  cases hp : f.phase with
  | looked found =>
    cases found with
    | some found =>
      simp only [hp] at h
      split at h
      · rename_i hbreach
        obtain ⟨value, hvalue, rfl⟩ := Option.map_eq_some_iff.mp h
        exact .refreshed hp hvalue hbreach
      · rename_i hbreach
        obtain rfl := Option.some.inj h
        exact .cleared hp (by simpa using hbreach)
    | none =>
      simp only [hp] at h
      split at h
      · rename_i hbreach
        split at h
        · rename_i hcycles
          obtain rfl := Option.some.inj h
          exact .pended hp hbreach hcycles
        · rename_i hcycles
          obtain rfl := Option.some.inj h
          exact .touched hp hbreach (by omega)
      · rename_i hbreach
        obtain rfl := Option.some.inj h
        exact .settled hp (by simpa using hbreach)
  | cleared id existing =>
    simp only [hp, Option.bind_eq_some_iff, Option.map_eq_some_iff] at h
    obtain ⟨value, hvalue, before, hbefore, rfl⟩ := h
    exact .marked hp hvalue hbefore
  | marked id before after =>
    simp only [hp, Option.map_eq_some_iff] at h
    obtain ⟨a, ha, h⟩ := h
    split at h
    · rename_i hstreak
      subst h
      exact .confirmed hp ha hstreak
    · rename_i hstreak
      subst h
      exact .kept hp ha (by omega)
  | confirmed id before after =>
    simp only [hp, Option.some.injEq] at h
    subst h
    exact .resolved hp
  | touched p =>
    simp only [hp, Option.map_eq_some_iff] at h
    obtain ⟨value, hvalue, rfl⟩ := h
    exact .inserted hp hvalue
  | inserted a =>
    simp only [hp, Option.some.injEq] at h
    subst h
    exact .finished hp

theorem StatementEffect.statement {f : Flight} {now : ℕ} {db : Db} {s : Interleaved}
    (h : StatementEffect f now db s) : f.statement now db = some s := by
  cases h with
  | refreshed hphase hvalue hbreach => simp [Flight.statement, hphase, hvalue, hbreach]
  | cleared hphase hhealthy | settled hphase hhealthy => simp [Flight.statement, hphase, hhealthy]
  | pended hphase hbreach hcycles => simp [Flight.statement, hphase, hbreach, hcycles]
  | touched hphase hbreach hcycles =>
    simp [Flight.statement, hphase, hbreach, Nat.not_lt.mpr hcycles]
  | marked hphase hvalue hbefore => simp [Flight.statement, hphase, hvalue, hbefore]
  | confirmed hphase ha hstreak => simp [Flight.statement, hphase, ha, hstreak]
  | kept hphase ha hstreak => simp [Flight.statement, hphase, ha, Nat.not_le.mpr hstreak]
  | resolved hphase | finished hphase => simp [Flight.statement, hphase]
  | inserted hphase hvalue => simp [Flight.statement, hphase, hvalue]

/-- Undo the row. A written alert can be put back only while it is as this row left
it, which the row lock of the open transaction guarantees. -/
def Flight.rollback (f : Flight) (db : Db) : Option Db :=
  match f.phase with
  | .looked _ | .cleared .. | .touched _ => some (db.setPending f.r.key f.saved)
  | .marked id before after | .confirmed id before after =>
    if db.alerts[id]? = some after then
      some ((db.modifyAlert id fun _ => before).setPending f.r.key f.saved)
    else none
  | .inserted a =>
    if db.alerts.getLast? = some a then
      some ({ db with alerts := db.alerts.dropLast }.setPending f.r.key f.saved)
    else none

inductive Move
  | select (r : RowInput)
  | statement (now : ℕ)
  | rollback
  | sweep (now : ℕ) (reason : SweepReason) (ids : List ℕ)
  | expire (now : ℕ)
  | human (now : ℕ) (act : HumanAction)

def Interleaved.step (s : Interleaved) : Move → Option Interleaved
  | .select r =>
    match s.flight with
    | none => some ⟨s.db, some ⟨r, s.db.pending r.key, .looked (s.db.selectOpen r.key)⟩⟩
    | some _ => none
  | .statement now => s.flight.bind fun f => f.statement now s.db
  | .rollback => s.flight.bind fun f => (f.rollback s.db).map fun db => ⟨db, none⟩
  | .sweep now reason ids =>
    if s.flight.isNone then some { s with db := s.db.resolveIds now reason ids } else none
  | .expire now => if s.flight.isNone then some { s with db := s.db.expirePending now } else none
  | .human now act => some { s with db := s.db.act now act }

inductive RollbackEffect (f : Flight) (db : Db) : Db → Prop
  | unwritten (hphase : ∀ id before after, f.phase ≠ .marked id before after ∧
      f.phase ≠ .confirmed id before after) (hinserted : ∀ a, f.phase ≠ .inserted a) :
      RollbackEffect f db (db.setPending f.r.key f.saved)
  | unmarked {id : ℕ} {before after : Alert}
      (hphase : f.phase = .marked id before after ∨ f.phase = .confirmed id before after)
      (hafter : db.alerts[id]? = some after) :
      RollbackEffect f db ((db.modifyAlert id fun _ => before).setPending f.r.key f.saved)
  | uninserted {a : Alert} {front : List Alert} (hphase : f.phase = .inserted a)
      (hlast : db.alerts = front ++ [a]) :
      RollbackEffect f db ({ db with alerts := front }.setPending f.r.key f.saved)

theorem Flight.rollback_effect {f : Flight} {db db' : Db} (h : f.rollback db = some db') :
    RollbackEffect f db db' := by
  unfold Flight.rollback at h
  cases hp : f.phase <;> simp only [hp] at h
  case looked | cleared | touched =>
    obtain rfl := Option.some.inj h
    exact .unwritten (by simp [hp]) (by simp [hp])
  case marked id before after =>
    split at h
    · rename_i hafter
      obtain rfl := Option.some.inj h
      exact .unmarked (.inl hp) hafter
    · cases h
  case confirmed id before after =>
    split at h
    · rename_i hafter
      obtain rfl := Option.some.inj h
      exact .unmarked (.inr hp) hafter
    · cases h
  case inserted a =>
    split at h
    · rename_i hlast
      obtain rfl := Option.some.inj h
      have hsplit := List.dropLast_append_getLast? a hlast
      exact .uninserted hp hsplit.symm
    · cases h

inductive StepEffect (s : Interleaved) : Move → Interleaved → Prop
  | select {r : RowInput} (hnone : s.flight = none) :
      StepEffect s (.select r)
        ⟨s.db, some ⟨r, s.db.pending r.key, .looked (s.db.selectOpen r.key)⟩⟩
  | statement {now : ℕ} {f : Flight} {s' : Interleaved} (hf : s.flight = some f)
      (heff : StatementEffect f now s.db s') : StepEffect s (.statement now) s'
  | rollback {f : Flight} {db : Db} (hf : s.flight = some f) (heff : RollbackEffect f s.db db) :
      StepEffect s .rollback ⟨db, none⟩
  | sweep {now : ℕ} {reason : SweepReason} {ids : List ℕ} (hnone : s.flight = none) :
      StepEffect s (.sweep now reason ids) ⟨s.db.resolveIds now reason ids, none⟩
  | expire {now : ℕ} (hnone : s.flight = none) :
      StepEffect s (.expire now) ⟨s.db.expirePending now, none⟩
  | human {now : ℕ} {act : HumanAction} : StepEffect s (.human now act) ⟨s.db.act now act, s.flight⟩

theorem Interleaved.step_effect {s s' : Interleaved} {m : Move} (h : s.step m = some s') :
    StepEffect s m s' := by
  cases m <;> simp only [Interleaved.step] at h
  case select r =>
    split at h
    · rename_i hnone
      obtain rfl := Option.some.inj h
      exact .select hnone
    · cases h
  case statement now =>
    obtain ⟨f, hf, h⟩ := Option.bind_eq_some_iff.mp h
    exact .statement hf (Flight.statement_effect h)
  case rollback =>
    obtain ⟨f, hf, h⟩ := Option.bind_eq_some_iff.mp h
    obtain ⟨db, hdb, rfl⟩ := Option.map_eq_some_iff.mp h
    exact .rollback hf (Flight.rollback_effect hdb)
  case sweep now reason ids =>
    split at h
    · rename_i hnone
      rw [Option.isNone_iff_eq_none] at hnone
      obtain rfl := Option.some.inj h
      rw [hnone]
      exact .sweep hnone
    · cases h
  case expire now =>
    split at h
    · rename_i hnone
      rw [Option.isNone_iff_eq_none] at hnone
      obtain rfl := Option.some.inj h
      rw [hnone]
      exact .expire hnone
    · cases h
  case human now act =>
    obtain rfl := Option.some.inj h
    exact .human

theorem Interleaved.run_statement {s t : Interleaved} {tr : List Move} {f : Flight} {db : Db}
    (now : ℕ) (run : Steps (Takes Interleaved.step) s tr ⟨db, some f⟩)
    (h : StatementEffect f now db t) :
    Steps (Takes Interleaved.step) s (.statement now :: tr) t :=
  run.snoc h.statement

end MonitoringHub.Alerts
