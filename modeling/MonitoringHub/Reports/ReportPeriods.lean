import Mathlib.Tactic.Ring
import MonitoringHub.Lib.Windows
import MonitoringHub.Reports.ClockChanges

/-! The periods that the runs of a schedule report on. The dates of two consecutive runs put the
end of one period and the start of the next on the same day; a period ends at a midnight of the
wall clock, which a clock change may put after the run. -/

namespace MonitoringHub.Reports
open Lib Calendar

namespace Schedule
variable (s : Schedule) (z : Zone)

/-- The run `k` runs after the one at `o`. -/
def runAfter (o : ℤ) : ℕ → ℤ
  | 0 => o
  | k + 1 => s.following (runAfter o k)

/-- What the wall clock shows between the end of the period and the run. -/
def sincePeriod : ℤ := s.frequency.lead * day + (s.runHour * 60 + s.runMinute) * 60 * second

/-- From the midnight that ends its period to the run at `w` the clock is put forward by no more
than it shows in between. -/
def MidnightPasses (w : ℤ) : Prop :=
  (z.wallOffset w - z.wallOffset (w - s.sincePeriod)) * second ≤ s.sincePeriod

/-- The run at `o` and the `n` after it report periods that are over and follow one another. -/
structure PeriodsTile (o : ℤ) (n : ℕ) : Prop where
  nonempty : ∀ k ≤ n, (s.periodFor z (s.runAfter o k)).1 < (s.periodFor z (s.runAfter o k)).2
  ended : ∀ k ≤ n, (s.periodFor z (s.runAfter o k)).2 ≤ z.toUtc (s.runAfter o k)
  adjacent : ∀ k < n,
    (s.periodFor z (s.runAfter o (k + 1))).1 = (s.periodFor z (s.runAfter o k)).2
  once : ∀ x, (s.periodFor z o).1 ≤ x → x < (s.periodFor z (s.runAfter o n)).2 →
    ∃! k, k ≤ n ∧ (s.periodFor z (s.runAfter o k)).1 ≤ x ∧
      x < (s.periodFor z (s.runAfter o k)).2

/-- So do the runs from the latest one at an instant. -/
def ReportsTile (t : ℤ) (n : ℕ) : Prop :=
  ∃ o, s.latestOccurrence z t = .ok o ∧ s.nextOccurrence z t = .ok (s.runAfter o 1) ∧
    s.PeriodsTile z o n

end Schedule

section RunPeriods
variable {s : Schedule} {z : Zone} {d o t : ℤ} {k n : ℕ}

theorem following_runs (h : s.Runs o) : s.Runs (s.following o) := (following_isLeast h).1.1

theorem runAfter_runs (h : s.Runs o) : s.Runs (s.runAfter o k) := by
  induction k with
  | zero => exact h
  | succ k ih => exact following_runs ih

/-- A period is at least a week of days. -/
theorem periodDates_week (s : Schedule) (d : ℤ) :
    (s.periodDates d).1 + 7 ≤ (s.periodDates d).2 := by
  have hmonths : ∀ i j, i < j → monthStart i + 7 ≤ monthStart j := by
    intro i j hlt
    have := monthStart_apart hlt
    omega
  unfold Schedule.periodDates
  dsimp only
  split
  · omega
  · exact hmonths _ _ (by omega)
  · exact hmonths _ _ (by omega)
  · exact hmonths _ _ (by omega)

theorem periodFor_nonempty (s : Schedule) (z : Zone) (o : ℤ) :
    (s.periodFor z o).1 < (s.periodFor z o).2 := by
  have hweek := periodDates_week s (o / day)
  have hstart := (toUtc_bounds z ((s.periodDates (o / day)).1 * day)).2
  have hend := (toUtc_bounds z ((s.periodDates (o / day)).2 * day)).1
  unfold Schedule.periodFor
  dsimp only
  unfold day second at *
  omega

/-- The next run's period starts the same number of days before this run as this one's ends. -/
theorem following_start (h : s.frequency.RunsOn d) :
    (s.periodDates (s.following (s.atDate d) / day)).1 = d - s.frequency.lead := by
  unfold Schedule.following Schedule.periodDates
  rw [atDate_div]
  cases hf : s.frequency with
  | weekly w =>
    rw [hf, Frequency.RunsOn, weekday] at h
    simp only [Frequency.lead, weekday, atDate_div]
    omega
  | monthly k =>
    rw [hf, Frequency.RunsOn] at h
    obtain ⟨m, rfl⟩ := h
    simp only [monthOf_dateIn k.2.1 k.2.2, dayOfMonth_dateIn, atDate_div, Frequency.lead,
      add_sub_cancel_right]
    unfold dateIn
    omega
  | quarterly k =>
    rw [hf, Frequency.RunsOn] at h
    obtain ⟨m, hm, rfl⟩ := h
    have hquarter : 12 * ((m + 3) / 12) + 3 * ((m + 3) % 12 / 3) - 3 = m := by omega
    simp only [monthOf_dateIn k.2.1 k.2.2, dayOfMonth_dateIn, atDate_div, Frequency.lead,
      hquarter]
    unfold dateIn
    omega
  | yearly r k =>
    rw [hf, Frequency.RunsOn] at h
    obtain ⟨m, -, rfl⟩ := h
    simp only [monthOf_dateIn k.2.1 k.2.2, dayOfMonth_dateIn, atDate_div, Frequency.lead,
      add_sub_cancel_right]
    unfold dateIn
    omega

theorem period_adjacent (h : s.Runs o) :
    (s.periodFor z (s.following o)).1 = (s.periodFor z o).2 := by
  obtain ⟨d, hd, rfl⟩ := h
  rw [periodEnd_eq hd, ← following_start hd]
  rfl

/-- The period is over at its run when the midnight between them passes in time. -/
theorem period_over_iff (h : s.Runs o) :
    (s.periodFor z o).2 ≤ z.toUtc o ↔ s.MidnightPasses z o := by
  obtain ⟨d, hd, rfl⟩ := h
  have hmidnight : s.atDate d - s.sincePeriod = (d - s.frequency.lead) * day := by
    unfold Schedule.atDate Schedule.sincePeriod day
    ring
  rw [periodEnd_eq hd, Schedule.MidnightPasses, hmidnight]
  unfold Zone.toUtc
  rw [sub_mul (z.wallOffset _)]
  omega

/-- The bounds of the periods: where the first starts, and where each one ends. -/
def periodBound (s : Schedule) (z : Zone) (o : ℤ) : ℕ → ℤ
  | 0 => (s.periodFor z o).1
  | k + 1 => (s.periodFor z (s.runAfter o k)).2

theorem periodBound_end (s : Schedule) (z : Zone) (o : ℤ) (k : ℕ) :
    periodBound s z o (k + 1) = (s.periodFor z (s.runAfter o k)).2 := by
  rw [periodBound]

theorem periodBound_start (h : s.Runs o) (k : ℕ) :
    periodBound s z o k = (s.periodFor z (s.runAfter o k)).1 := by
  cases k with
  | zero => rw [periodBound, Schedule.runAfter]
  | succ k => rw [periodBound_end, Schedule.runAfter, period_adjacent (runAfter_runs h)]

theorem periodBound_le (h : s.Runs o) (k : ℕ) :
    periodBound s z o k ≤ periodBound s z o (k + 1) := by
  rw [periodBound_start h, periodBound_end]
  exact (periodFor_nonempty s z _).le

/-- Periods are never empty, follow one another and hold each instant once; only a midnight that
does not pass in time leaves a period unfinished at its run. -/
theorem periodsTile_iff (h : s.Runs o) :
    s.PeriodsTile z o n ↔ ∀ k ≤ n, s.MidnightPasses z (s.runAfter o k) := by
  constructor
  · intro htile k hk
    exact (period_over_iff (runAfter_runs h)).mp (htile.ended k hk)
  · intro hpasses
    refine ⟨fun k _ => periodFor_nonempty s z _, ?_, ?_, ?_⟩
    · intro k hk
      exact (period_over_iff (runAfter_runs h)).mpr (hpasses k hk)
    · intro k _
      rw [Schedule.runAfter, period_adjacent (runAfter_runs h)]
    · intro x hfirst hlast
      rw [← periodBound_end] at hlast
      have hmono := monotone_nat_of_le_succ (periodBound_le (z := z) h)
      have hunique := existsUnique_between hmono hfirst hlast
      simpa only [Nat.lt_succ_iff, periodBound_end, periodBound_start h] using hunique

end RunPeriods

theorem reportsTile_iff (s : Schedule) (z : Zone) (t : ℤ) (n : ℕ) :
    s.ReportsTile z t n ↔ ∀ o, s.latestOccurrence z t = .ok o →
      ∀ k ≤ n, s.MidnightPasses z (s.runAfter o k) := by
  obtain ⟨o, hok, hgreatest⟩ := latestOccurrence_ok s z t
  have hnext : s.nextOccurrence z t = .ok (s.runAfter o 1) := by
    simp only [Schedule.nextOccurrence, hok, Except.map, Schedule.runAfter]
  constructor
  · rintro ⟨o', hok', -, htile⟩ o'' hok''
    obtain rfl := Except.ok.inj (hok'.symm.trans hok'')
    obtain rfl := Except.ok.inj (hok.symm.trans hok')
    exact (periodsTile_iff hgreatest.1.1).mp htile
  · intro hpasses
    exact ⟨o, hok, hnext, (periodsTile_iff hgreatest.1.1).mpr (hpasses o hok)⟩

theorem eastern_within : -86399 ≤ (-18000 : ℤ) ∧ (-18000 : ℤ) ≤ 86399 := by decide

theorem easternSummer_within : -86399 ≤ (-14400 : ℤ) ∧ (-14400 : ℤ) ≤ 86399 := by decide

/-- The clock put forward from 23:30 on 30 March 1919, a Sunday, to 0:30. -/
def toronto : Zone := Zone.ofChanges ⟨-18000, eastern_within⟩ [
  ⟨700624 * day + (4 * 3600 + 1800) * second, ⟨-14400, easternSummer_within⟩⟩]

/-- The run of Monday at 0:30 comes half an hour before the skipped midnight that ends its
period. -/
theorem toronto_not_tiled :
    let mondays : Schedule :=
      ⟨true, .weekly ⟨0, by decide⟩, ⟨0, by decide⟩, ⟨30, by decide⟩, none⟩
    let run := 700624 * day + 1800 * second
    mondays.latestOccurrence toronto (700624 * day + 12 * 3600 * second) = .ok run ∧
      (mondays.periodFor toronto run).2 = toronto.toUtc run + 1800 * second ∧
      ∀ n, ¬ mondays.ReportsTile toronto (700624 * day + 12 * 3600 * second) n := by
  refine ⟨by decide +kernel, by decide +kernel, ?_⟩
  rintro n ⟨o, hok, -, htile⟩
  have hrun : o = 700624 * day + 1800 * second :=
    Except.ok.inj (hok.symm.trans (by decide +kernel))
  subst hrun
  exact absurd (htile.ended 0 (Nat.zero_le n)) (by decide +kernel)

end MonitoringHub.Reports
