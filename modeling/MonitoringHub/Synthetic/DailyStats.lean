import Mathlib.Algebra.GroupWithZero.Nat
import Mathlib.Data.List.Dedup
import Mathlib.Data.List.Sort
import MonitoringHub.Lib.KeyedStore
import MonitoringHub.Lib.StepRun

/-! Daily statistics of probe results. A roll-up recomputes the rows of the last complete
days from the raw results, a prune deletes raw results by their age. The window of the one
counts calendar days, the cutoff of the other seconds. Beside the tables stand all results
ever recorded and the latest cutoff; nothing in the code reads them. -/

namespace MonitoringHub.Synthetic
open Lib Lib.KeyedStore

structure ProbeResult where
  checkId : ℕ
  checkedAt : ℕ
  success : Bool
  responseTimeMs : Option ℕ
  certDaysLeft : Option ℤ
  deriving DecidableEq, Repr

/-- A row of `synthetic_daily_stats` without its key, the check and the day. -/
structure DayStats where
  probes : ℕ
  ok : ℕ
  avgMs : Option ℕ
  p95Ms : Option ℕ
  maxMs : Option ℕ
  minCertDays : Option ℤ
  deriving DecidableEq, Repr

abbrev DayKey := ℕ × ℕ

def daySeconds : ℕ := 24 * 60 * 60
def resultRetentionDays : ℕ := 30
def rollupRetentionDays : ℕ := 400

def dayOf (time : ℕ) : ℕ := time / daySeconds

def ProbeResult.key (r : ProbeResult) : DayKey := (r.checkId, dayOf r.checkedAt)

/-- Python's `round` of a quotient: a half goes to the even neighbour. -/
def roundedMean (sum n : ℕ) : ℕ :=
  if 2 * (sum % n) < n then sum / n
  else if n < 2 * (sum % n) then sum / n + 1
  else if sum / n % 2 = 0 then sum / n else sum / n + 1

/-- The bucket of one check and day. -/
def dayStats (results : List ProbeResult) : DayStats :=
  let ms := ((results.filter ProbeResult.success).filterMap ProbeResult.responseTimeMs).insertionSort
    (· ≤ ·)
  { probes := results.length
    ok := (results.filter ProbeResult.success).length
    avgMs := if ms.isEmpty then none else some (roundedMean ms.sum ms.length)
    p95Ms := ms[min (ms.length - 1) (95 * ms.length / 100)]?
    maxMs := ms.getLast?
    minCertDays := (results.filterMap ProbeResult.certDaysLeft).min? }

structure ResultTables where
  now : ℕ
  results : List ProbeResult
  stats : List (DayKey × DayStats)
  history : List ProbeResult
  cutoff : ℕ

inductive RetentionEvent
  | tick (d : ℕ)
  | record (checkId : ℕ) (success : Bool) (responseTimeMs : Option ℕ) (certDaysLeft : Option ℤ)
  | rollup (daysBack : ℕ) (checkIds : List ℕ)
  | deleteOld (retainDays : ℕ)
  deriving DecidableEq, Repr

/-- The WHERE clause of a roll-up; no ids mean all checks. -/
def inWindow (now daysBack : ℕ) (checkIds : List ℕ) (r : ProbeResult) : Bool :=
  decide ((dayOf now - daysBack) * daySeconds ≤ r.checkedAt) &&
    decide (r.checkedAt < dayOf now * daySeconds) &&
    (checkIds.isEmpty || checkIds.contains r.checkId)

def rollupDailyStats (rows : List ProbeResult) (stats : List (DayKey × DayStats)) :
    List (DayKey × DayStats) :=
  (rows.map ProbeResult.key).dedup.foldl
    (fun stats key => write key (dayStats (rows.filter fun r => r.key = key)) stats) stats

def ResultTables.after (s : ResultTables) : RetentionEvent → ResultTables
  | .tick d => { s with now := s.now + d }
  | .record checkId success responseTimeMs certDaysLeft =>
    let r : ProbeResult := ⟨checkId, s.now, success, responseTimeMs, certDaysLeft⟩
    { s with results := s.results ++ [r], history := s.history ++ [r] }
  | .rollup daysBack checkIds =>
    { s with stats := rollupDailyStats (s.results.filter (inWindow s.now daysBack checkIds)) s.stats }
  | .deleteOld retainDays =>
    let cutoff := s.now - retainDays * daySeconds
    { s with
      results := s.results.filter fun r => !decide (r.checkedAt < cutoff)
      stats := s.stats.filter fun row => !decide (row.1.2 < dayOf s.now - rollupRetentionDays)
      cutoff := if s.cutoff < cutoff then cutoff else s.cutoff }

def ResultTables.step (s : ResultTables) (e : RetentionEvent) : Option ResultTables :=
  some (s.after e)

/-- The roll-up runs first. -/
def pruneSyntheticResults (retainDays : ℕ) : List RetentionEvent :=
  [.rollup (retainDays + 1) [], .deleteOld retainDays]

def ResultTables.start (now : ℕ) : ResultTables := ⟨now, [], [], [], 0⟩

/-- The cutoff of no earlier prune lies between two results of one check on one day of the
window. -/
def CutsNoDay (s : ResultTables) : RetentionEvent → Prop
  | .rollup daysBack checkIds => ∀ r ∈ s.history, inWindow s.now daysBack checkIds r = true →
      r.checkedAt < s.cutoff → ∀ r' ∈ s.history, r'.key = r.key → r'.checkedAt < s.cutoff
  | _ => True

/-- Every result ever recorded of one check on one day. -/
def ResultTables.ofDay (s : ResultTables) (key : DayKey) : List ProbeResult :=
  s.history.filter fun r => r.key = key

/-- The invariant: what was pruned is what lies before the cutoff, and every row is
computed from all results of its day, which is over. -/
structure ResultTables.Inv (s : ResultTables) : Prop where
  kept : s.results = s.history.filter fun r => s.cutoff ≤ r.checkedAt
  cutoff : s.cutoff ≤ s.now
  rows : ∀ key row, find key s.stats = some row → row = dayStats (s.ofDay key) ∧ key.2 < dayOf s.now

section Retention
variable {s t : ResultTables} {r : ProbeResult} {key : DayKey} {row : DayStats}

theorem dayOf_mono {a b : ℕ} (h : a ≤ b) : dayOf a ≤ dayOf b := Nat.div_le_div_right h

/-- A window holds whole days. -/
theorem inWindow_iff {now daysBack : ℕ} {checkIds : List ℕ} :
    inWindow now daysBack checkIds r = true ↔
      dayOf now - daysBack ≤ r.key.2 ∧ r.key.2 < dayOf now ∧
        (checkIds = [] ∨ r.key.1 ∈ checkIds) := by
  have hpos : 0 < daySeconds := by decide
  have hlow : (dayOf now - daysBack) * daySeconds ≤ r.checkedAt ↔ dayOf now - daysBack ≤ r.key.2 :=
    (Nat.le_div_iff_mul_le hpos).symm
  have hhigh : r.checkedAt < dayOf now * daySeconds ↔ r.key.2 < dayOf now :=
    (Nat.div_lt_iff_lt_mul hpos).symm
  simp only [inWindow, Bool.and_eq_true, Bool.or_eq_true, decide_eq_true_eq, List.isEmpty_iff,
    List.contains_iff_mem, hlow, hhigh, and_assoc, ProbeResult.key]

theorem find_foldl_write {val : DayKey → DayStats} {keys : List DayKey}
    {stats : List (DayKey × DayStats)} :
    find key (keys.foldl (fun stats key => write key (val key) stats) stats) =
      if key ∈ keys then some (val key) else find key stats := by
  induction keys generalizing stats with
  | nil => simp
  | cons first keys ih =>
    rw [List.foldl_cons, ih, find_write]
    by_cases hfirst : key = first
    · subst hfirst
      simp
    · simp [hfirst]

/-- A row after a roll-up: recomputed from the results of its day in the window, if there
are any, or left as it was. -/
theorem find_rollup {rows : List ProbeResult} {stats : List (DayKey × DayStats)} :
    find key (rollupDailyStats rows stats) =
      if ∃ r ∈ rows, r.key = key then some (dayStats (rows.filter fun r => r.key = key))
      else find key stats := by
  rw [rollupDailyStats, find_foldl_write]
  simp only [List.mem_dedup, List.mem_map]

theorem ResultTables.Inv.rollup (h : s.Inv) {daysBack : ℕ} {checkIds : List ℕ}
    (hcuts : CutsNoDay s (.rollup daysBack checkIds)) : (s.after (.rollup daysBack checkIds)).Inv where
  kept := h.kept
  cutoff := h.cutoff
  rows key row hrow := by
    simp only [ResultTables.after, find_rollup] at hrow
    split at hrow
    · rename_i hfound
      obtain ⟨r, hr, rfl⟩ := hfound
      obtain ⟨hkept, hwindow⟩ := List.mem_filter.mp hr
      rw [h.kept] at hkept
      obtain ⟨hhistory, hyoung⟩ := List.mem_filter.mp hkept
      have hyoung := of_decide_eq_true hyoung
      -- no result of the day is pruned, or the cutoff would lie between it and `r`
      have hwhole : ∀ r' ∈ s.history, r'.key = r.key → s.cutoff ≤ r'.checkedAt := by
        intro r' hr' hkey
        by_contra hold
        have hwindow' : inWindow s.now daysBack checkIds r' = true := by
          rw [inWindow_iff] at hwindow ⊢
          rwa [hkey]
        have hcut := hcuts r' hr' hwindow' (Nat.lt_of_not_le hold) r hhistory hkey.symm
        omega
      cases hrow
      refine ⟨congrArg dayStats ?_, (inWindow_iff.mp hwindow).2.1⟩
      rw [ResultTables.ofDay, h.kept, List.filter_filter, List.filter_filter]
      refine List.filter_congr fun r' hr' => ?_
      by_cases hkey : r'.key = r.key
      · have hin : inWindow s.now daysBack checkIds r' = true := by
          rw [inWindow_iff] at hwindow ⊢
          rwa [hkey]
        simp [hkey, hin, hwhole r' hr' hkey]
      · simp [hkey]
    · exact h.rows key row hrow

theorem ResultTables.Inv.record (h : s.Inv) (checkId : ℕ) (success : Bool) (ms : Option ℕ)
    (cert : Option ℤ) : (s.after (.record checkId success ms cert)).Inv where
  kept := by
    change s.results ++ [_] = (s.history ++ [_]).filter fun r => s.cutoff ≤ r.checkedAt
    rw [List.filter_append, ← h.kept]
    simp [h.cutoff]
  cutoff := h.cutoff
  rows key row hrow := by
    obtain ⟨heq, hpast⟩ := h.rows key row hrow
    refine ⟨heq.trans (congrArg dayStats ?_), hpast⟩
    have hother : ¬ (checkId, dayOf s.now) = key := by
      rintro rfl
      exact Nat.lt_irrefl _ hpast
    simp [ResultTables.ofDay, ResultTables.after, List.filter_append, ProbeResult.key, hother]

theorem ResultTables.Inv.deleteOld (h : s.Inv) (retainDays : ℕ) :
    (s.after (.deleteOld retainDays)).Inv where
  kept := by
    simp only [ResultTables.after, h.kept, List.filter_filter]
    refine List.filter_congr fun r _ => ?_
    rw [← decide_not, ← Bool.decide_and, decide_eq_decide]
    split <;> omega
  cutoff := by
    have hcutoff := h.cutoff
    simp only [ResultTables.after]
    split <;> omega
  rows key row hrow := by
    have hkept : find key (dropWhere (fun key => decide (key.2 < dayOf s.now - rollupRetentionDays))
        s.stats) = some row := hrow
    exact h.rows key row (find_dropWhere_some hkept).2

theorem ResultTables.Inv.after (h : s.Inv) {e : RetentionEvent} (hcuts : CutsNoDay s e) :
    (s.after e).Inv := by
  cases e with
  | tick d =>
    refine ⟨h.kept, Nat.le_add_right_of_le h.cutoff, fun key row hrow => ?_⟩
    obtain ⟨heq, hpast⟩ := h.rows key row hrow
    exact ⟨heq, hpast.trans_le (dayOf_mono (Nat.le_add_right _ _))⟩
  | record checkId success ms cert => exact h.record checkId success ms cert
  | rollup daysBack checkIds => exact h.rollup hcuts
  | deleteOld retainDays => exact h.deleteOld retainDays

theorem ResultTables.inv_start (now : ℕ) : (start now).Inv :=
  ⟨rfl, Nat.zero_le _, fun key row hrow => by cases hrow⟩

/-- The results of a day that is over stay the same. -/
theorem ofDay_later {tr : List RetentionEvent} (run : Steps (Takes ResultTables.step) s tr t)
    (hpast : key.2 < dayOf s.now) : t.ofDay key = s.ofDay key ∧ s.now ≤ t.now := by
  refine run.stable (P := fun t => t.ofDay key = s.ofDay key ∧ s.now ≤ t.now) ⟨rfl, le_rfl⟩
    fun t e u ⟨hsame, hlater⟩ hstep => ?_
  obtain rfl := Option.some.inj hstep
  cases e with
  | tick d => exact ⟨hsame, Nat.le_add_right_of_le hlater⟩
  | record checkId success ms cert =>
    refine ⟨?_, hlater⟩
    have hother : ¬ (checkId, dayOf t.now) = key := by
      rintro rfl
      exact absurd (dayOf_mono hlater) (Nat.not_le_of_lt hpast)
    rw [← hsame]
    simp [ResultTables.ofDay, ResultTables.after, List.filter_append, ProbeResult.key, hother]
  | rollup daysBack checkIds => exact ⟨hsame, hlater⟩
  | deleteOld retainDays => exact ⟨hsame, hlater⟩

/-- While no cutoff lies between two results of one check on one day of a roll-up's window,
every row is computed from all results of its day, and no later roll-up changes it. -/
theorem daily_stats_kept {now : ℕ} {tr tr' : List RetentionEvent}
    (run : Steps (Guarded (Takes ResultTables.step) CutsNoDay) (.start now) tr s)
    (later : Steps (Guarded (Takes ResultTables.step) CutsNoDay) s tr' t) (key : DayKey) (row : DayStats)
    (hrow : find key s.stats = some row) :
    row = dayStats (s.ofDay key) ∧ t.ofDay key = s.ofDay key ∧
      ∀ row', find key t.stats = some row' → row' = row := by
  have hinv : ∀ {s t : ResultTables} {tr : List RetentionEvent}, s.Inv →
      Steps (Guarded (Takes ResultTables.step) CutsNoDay) s tr t → t.Inv := fun h run =>
    run.stable h fun _ _ _ h hstep => Option.some.inj hstep.2 ▸ h.after hstep.1
  have hs := hinv (ResultTables.inv_start now) run
  obtain ⟨heq, hpast⟩ := hs.rows key row hrow
  obtain ⟨hsame, -⟩ := ofDay_later (Guarded.run later) hpast
  refine ⟨heq, hsame, fun row' hrow' => ?_⟩
  rw [((hinv hs later).rows key row' hrow').1, heq, hsame]

end Retention

section Example

/-- A failure in the first hour and a success in the last of day 0, both rolled up the day
after; then the first of the retention jobs of day 30, at noon. -/
def noonOfDayThirty : List RetentionEvent :=
  [.record 1 false none none, .tick (23 * 3600), .record 1 true (some 80) none,
    .tick (2 * 3600), .rollup 31 [], .tick (29 * daySeconds + 11 * 3600)] ++
    pruneSyntheticResults resultRetentionDays

/-- The second retention job of the day recomputes day 0 from what the first one left: two
probes, one of them good, become one good probe. -/
theorem pruned_day_rolled_up : ∃ (s t : ResultTables) (tr tr' : List RetentionEvent),
    Steps (Takes ResultTables.step) (.start 0) tr s ∧
    Steps (Takes ResultTables.step) s tr' t ∧
    find (1, 0) s.stats = some (dayStats (s.ofDay (1, 0))) ∧
    t.ofDay (1, 0) = s.ofDay (1, 0) ∧
    (find (1, 0) s.stats).map (fun row => (row.probes, row.ok)) = some (2, 1) ∧
    (find (1, 0) t.stats).map (fun row => (row.probes, row.ok)) = some (1, 1) := by
  obtain ⟨s, run, hplay, hp⟩ := exists_play ResultTables.step (.start 0) noonOfDayThirty
    (fun s => find (1, 0) s.stats = some (dayStats (s.ofDay (1, 0))) &&
      (find (1, 0) s.stats).map (fun row => (row.probes, row.ok)) = some (2, 1) &&
      (play ResultTables.step s [.tick 3600, .rollup 31 []]).any fun t =>
        t.ofDay (1, 0) = s.ofDay (1, 0) &&
          (find (1, 0) t.stats).map (fun row => (row.probes, row.ok)) = some (1, 1))
    (by decide +kernel)
  simp only [Bool.and_eq_true, decide_eq_true_eq] at hp
  obtain ⟨⟨hrow, hbefore⟩, hnext⟩ := hp
  obtain ⟨t, later, -, ht⟩ := exists_play ResultTables.step s _ _ hnext
  simp only [Bool.and_eq_true, decide_eq_true_eq] at ht
  exact ⟨s, t, _, _, run, later, hrow, ht.1, hbefore, ht.2⟩

instance (s : ResultTables) (e : RetentionEvent) : Decidable (CutsNoDay s e) :=
  match e with
  | .rollup daysBack checkIds => inferInstanceAs (Decidable (∀ r ∈ s.history,
      inWindow s.now daysBack checkIds r = true → r.checkedAt < s.cutoff →
        ∀ r' ∈ s.history, r'.key = r.key → r'.checkedAt < s.cutoff))
  | .tick _ | .record .. | .deleteOld _ => .isTrue trivial

/-- With one probe a day the whole day is pruned or none of it. -/
theorem daily_stats_kept_oneProbe : ∃ (s t : ResultTables) (row : DayStats),
    find (1, 0) s.stats = some row ∧ row = dayStats (s.ofDay (1, 0)) ∧
    find (1, 0) t.stats = some row := by
  obtain ⟨s, run, -, hp⟩ := exists_play (gated ResultTables.step CutsNoDay) (.start 0)
    [.record 1 true (some 80) none, .tick (2 * daySeconds), .rollup 31 []]
    (fun s => (find (1, 0) s.stats).isSome &&
      (play (gated ResultTables.step CutsNoDay) s ([.tick (28 * daySeconds + 12 * 3600)] ++
        pruneSyntheticResults resultRetentionDays ++ [.rollup 31 []])).any
        fun t => (find (1, 0) t.stats).isSome) (by decide +kernel)
  rw [Bool.and_eq_true] at hp
  obtain ⟨row, hrow⟩ := Option.isSome_iff_exists.mp hp.1
  obtain ⟨t, later, -, ht⟩ := exists_play (gated ResultTables.step CutsNoDay) s _ _ hp.2
  obtain ⟨row', hrow'⟩ := Option.isSome_iff_exists.mp ht
  obtain ⟨heq, -, hkept⟩ := daily_stats_kept (run.mono fun _ _ _ => gated_guarded)
    (later.mono fun _ _ _ => gated_guarded) (1, 0) row hrow
  exact ⟨s, t, row, hrow, heq, hkept row' hrow' ▸ hrow'⟩

end Example

end MonitoringHub.Synthetic
