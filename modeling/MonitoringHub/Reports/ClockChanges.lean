import MonitoringHub.Reports.Schedules

/-! The next run of a schedule, and what clock changes do to it. A run time is read on the wall
clock with fold 0 and compared on the wall clock, where a time that was skipped counts as passed
and the second pass of a repeated time as still to come. -/

namespace MonitoringHub.Reports
open Lib Calendar

namespace Schedule
variable (s : Schedule) (z : Zone)

/-- The run after the one at `last`, as `next_occurrence` counts it. -/
def following (last : ℤ) : ℤ :=
  let d := last / day
  let month := monthOf d
  let dayOfMonth := d - monthStart month + 1
  match s.frequency with
  | .weekly _ => s.atDate (d + 7)
  | .monthly _ => s.atDate (dateIn (month + 1) dayOfMonth)
  | .quarterly _ => s.atDate (dateIn (month + 3) dayOfMonth)
  | .yearly _ _ => s.atDate (dateIn (month + 12) dayOfMonth)

/-- `next_occurrence` -/
def nextOccurrence (nowUtc : ℤ) : Except String ℤ := (s.latestOccurrence z nowUtc).map s.following

/-- At the instant `t` the wall clock has reached the run times whose instants have come. -/
def ClockInStep (t : ℤ) : Prop := ∀ w, s.Runs w → (w ≤ z.toWall t ↔ z.toUtc w ≤ t)

/-- The last run and the next one are on their sides of `t`, with no run between them. -/
def Bracketed (t : ℤ) : Prop :=
  ∃ last next, s.latestOccurrence z t = .ok last ∧ s.nextOccurrence z t = .ok next ∧
    z.toUtc last ≤ t ∧ t < z.toUtc next ∧
      ∀ w, s.Runs w → z.toUtc last ≤ z.toUtc w → z.toUtc w ≤ z.toUtc next → w = last ∨ w = next

end Schedule

section Following
variable {s : Schedule} {z : Zone} {m d k o o' t : ℤ}

theorem dayOfMonth_dateIn : dateIn m k - monthStart m + 1 = k := by
  unfold dateIn
  omega

/-- A run day by months is followed by the one `step` months later. -/
theorem following_months {P : ℤ → Prop} {k : Within 1 28} {step : ℤ}
    (hP : ∀ x, s.frequency.RunsOn x ↔ ∃ i, P i ∧ x = dateIn i k) (hnext : P (m + step))
    (hpos : 0 < step) (hgap : ∀ i, P i → m < i → m + step ≤ i) :
    IsLeast { w | s.Runs w ∧ s.atDate (dateIn m k) < w } (s.atDate (dateIn (m + step) k)) := by
  refine ⟨⟨⟨_, (hP _).mpr ⟨_, hnext, rfl⟩, rfl⟩, ?_⟩, ?_⟩
  · rw [← not_le, atDate_le_iff, not_le, dateIn_lt_iff]
    omega
  · rintro w ⟨⟨x, hx, rfl⟩, hlt⟩
    obtain ⟨i, hi, rfl⟩ := (hP x).mp hx
    rw [← not_le, atDate_le_iff, not_le, dateIn_lt_iff] at hlt
    rw [atDate_le_iff, ← not_lt, dateIn_lt_iff, not_lt]
    exact hgap i hi hlt

theorem following_isLeast (h : s.Runs o) :
    IsLeast { w | s.Runs w ∧ o < w } (s.following o) := by
  obtain ⟨d, hd, rfl⟩ := h
  unfold Schedule.following
  rw [atDate_div]
  dsimp only
  split
  · rename_i w hf
    rw [hf, Frequency.RunsOn, weekday] at hd
    refine ⟨⟨⟨d + 7, ?_, rfl⟩, ?_⟩, ?_⟩
    · rw [hf, Frequency.RunsOn, weekday]
      omega
    · rw [← not_le, atDate_le_iff]
      omega
    · rintro v ⟨⟨x, hx, rfl⟩, hlt⟩
      rw [← not_le, atDate_le_iff, not_le] at hlt
      rw [hf, Frequency.RunsOn, weekday] at hx
      rw [atDate_le_iff]
      omega
  · rename_i k hf
    rw [hf, Frequency.RunsOn] at hd
    obtain ⟨m, rfl⟩ := hd
    rw [monthOf_dateIn k.2.1 k.2.2, dayOfMonth_dateIn]
    refine following_months (P := fun _ => True) ?_ trivial (by omega) ?_
    · simp [hf, Frequency.RunsOn]
    · intro i _ hlt
      omega
  · rename_i k hf
    rw [hf, Frequency.RunsOn] at hd
    obtain ⟨m, hm, rfl⟩ := hd
    rw [monthOf_dateIn k.2.1 k.2.2, dayOfMonth_dateIn]
    refine following_months (P := fun i => i % 3 = 0) ?_ (by omega) (by omega) ?_
    · simp [hf, Frequency.RunsOn]
    · intro i hi hlt
      omega
  · rename_i r k hf
    rw [hf, Frequency.RunsOn] at hd
    obtain ⟨m, hm, rfl⟩ := hd
    rw [monthOf_dateIn k.2.1 k.2.2, dayOfMonth_dateIn]
    refine following_months (P := fun i => i % 12 = r.val - 1) ?_ (by omega) (by omega) ?_
    · simp [hf, Frequency.RunsOn]
    · intro i hi hlt
      omega

/-- Runs are too far apart for a clock change to swap them. -/
theorem toUtc_lt (h : s.Runs o) (h' : s.Runs o') (hlt : o < o') : z.toUtc o < z.toUtc o' := by
  have hweek := runs_apart h h' hlt
  have hbefore := (toUtc_bounds z o).2
  have hafter := (toUtc_bounds z o').1
  unfold day second at *
  omega

theorem toUtc_le (h : s.Runs o) (h' : s.Runs o') (hle : o ≤ o') : z.toUtc o ≤ z.toUtc o' := by
  rcases hle.eq_or_lt with rfl | hlt
  · exact le_rfl
  · exact (toUtc_lt h h' hlt).le

/-- The last run and the next one bracket an instant exactly when the wall clock is in step with
the run times there. -/
theorem bracketed_iff_clockInStep (s : Schedule) (z : Zone) (t : ℤ) :
    s.Bracketed z t ↔ s.ClockInStep z t := by
  obtain ⟨last, hok, hgreatest⟩ := latestOccurrence_ok s z t
  obtain ⟨⟨hruns, hreached⟩, hlast⟩ := hgreatest
  obtain ⟨⟨hruns', hafter⟩, hnext⟩ := following_isLeast hruns
  have hok' : s.nextOccurrence z t = .ok (s.following last) := by
    rw [Schedule.nextOccurrence, hok]
    rfl
  constructor
  · rintro ⟨o, o', ho, ho', hpast, hfuture, -⟩
    obtain rfl := Except.ok.inj (hok.symm.trans ho)
    obtain rfl := Except.ok.inj (hok'.symm.trans ho')
    intro w hw
    constructor
    · intro hle
      exact (toUtc_le hw hruns (hlast ⟨hw, hle⟩)).trans hpast
    · intro hcome
      by_contra hahead
      have hlt : last < w := hreached.trans_lt (not_le.mp hahead)
      have := toUtc_le (z := z) hruns' hw (hnext ⟨hw, hlt⟩)
      omega
  · intro hstep
    refine ⟨last, _, hok, hok', (hstep last hruns).mp hreached, ?_, ?_⟩
    · rw [← not_le, ← hstep _ hruns']
      intro hle
      exact absurd (hlast ⟨hruns', hle⟩) hafter.not_ge
    · intro w hw hlow hhigh
      rcases lt_trichotomy w last with hlt | rfl | hgt
      · exact absurd (toUtc_lt hw hruns hlt) hlow.not_gt
      · exact Or.inl rfl
      · refine Or.inr ((hnext ⟨hw, hgt⟩).eq_of_not_lt' fun hlt => ?_)
        exact absurd (toUtc_lt hruns' hw hlt) hhigh.not_gt

end Following

/-- The offset of a zone, in seconds. -/
abbrev Offset := Within (-86399) 86399

/-- From the instant on, the zone has the offset. -/
structure ClockChange where
  instant : ℤ
  offset : Offset

/-- `fromutc`: the offset of the last change that has happened. -/
def offsetAt (t : ℤ) : Offset → List ClockChange → Offset
  | a, [] => a
  | a, c :: rest => if c.instant ≤ t then offsetAt t c.offset rest else a

/-- `utcoffset` with fold 0: a wall clock that is put forward has the new offset from the first
time it does not skip, one that is put back from the first time it does not repeat. -/
def offsetOnWall (w : ℤ) : Offset → List ClockChange → Offset
  | a, [] => a
  | a, c :: rest =>
    if c.instant + max a.val c.offset.val * second ≤ w then offsetOnWall w c.offset rest else a

def Zone.ofChanges (first : Offset) (changes : List ClockChange) : Zone where
  offset t := (offsetAt t first changes).val
  wallOffset w := (offsetOnWall w first changes).val
  offset_bound t := by
    have := (offsetAt t first changes).2
    omega
  wallOffset_bound w := by
    have := (offsetOnWall w first changes).2
    omega

/-- The wall-clock times that a change skips or repeats come after `low` and before those of the
next change. -/
def Spaced : ℤ → Offset → List ClockChange → Prop
  | _, _, [] => True
  | low, a, c :: rest =>
    low ≤ c.instant + min a.val c.offset.val * second ∧
      Spaced (c.instant + max a.val c.offset.val * second) c.offset rest

/-- A change has happened by the instant `t` that skipped the wall-clock time `w`, whose instant
is still to come, or that repeats `w`, and the clock has not reached it again. -/
def Disturbs (w t : ℤ) : Offset → List ClockChange → Prop
  | _, [] => False
  | a, c :: rest =>
    (c.instant ≤ t ∧
      ((c.instant + a * second ≤ w ∧ w < c.instant + c.offset * second ∧ t < w - a * second) ∨
        (c.instant + c.offset * second ≤ w ∧ w < c.instant + a * second ∧
          t + c.offset * second < w))) ∨
      Disturbs w t c.offset rest

section Changes
variable {low w t : ℤ} {a : Offset} {changes : List ClockChange}

/-- Either no change has happened, or the wall clock has passed the lower bound. -/
theorem offsetAt_spaced (h : Spaced low a changes) : offsetAt t a changes = a ∨
    low ≤ t + (offsetAt t a changes).val * second ∧ low ≤ t + a.val * second := by
  induction changes generalizing low a with
  | nil => exact Or.inl rfl
  | cons c rest ih =>
    obtain ⟨hlow, hrest⟩ := h
    rw [offsetAt]
    split
    · rename_i hpast
      refine Or.inr ?_
      rcases ih hrest with hsame | ⟨hwall, -⟩
      · rw [hsame]
        unfold second at *
        omega
      · unfold second at *
        omega
    · exact Or.inl rfl

theorem offsetOnWall_spaced (h : Spaced low a changes) (hw : low ≤ w) :
    low - a.val * second ≤ w - (offsetOnWall w a changes).val * second := by
  induction changes generalizing low a with
  | nil =>
    rw [offsetOnWall]
    omega
  | cons c rest ih =>
    obtain ⟨hlow, hrest⟩ := h
    rw [offsetOnWall]
    split
    · rename_i hpast
      have := ih hrest hpast
      unfold second at *
      omega
    · omega

/-- Nothing disturbs a time before the changes. -/
theorem not_disturbs_early (h : Spaced low a changes) (hw : w < low) :
    ¬ Disturbs w t a changes := by
  induction changes generalizing low a with
  | nil => exact id
  | cons c rest ih =>
    obtain ⟨hlow, hrest⟩ := h
    have hlater := ih hrest (by
      unfold second at *
      omega)
    rintro (⟨-, ⟨hskip, -⟩ | ⟨hrepeat, -⟩⟩ | hd)
    · unfold second at *
      omega
    · unfold second at *
      omega
    · exact hlater hd

/-- Nor does one that is still to come. -/
theorem not_disturbs_late (h : Spaced low a changes) (ht : t + a.val * second < low) :
    ¬ Disturbs w t a changes := by
  induction changes generalizing low a with
  | nil => exact id
  | cons c rest ih =>
    obtain ⟨hlow, hrest⟩ := h
    have hlater := ih hrest (by
      unfold second at *
      omega)
    rintro (⟨hpast, -⟩ | hd)
    · unfold second at *
      omega
    · exact hlater hd

/-- Clock and instants disagree about a time exactly when a change disturbs it. -/
theorem inStep_iff_not_disturbs (h : Spaced low a changes) :
    (w ≤ t + (offsetAt t a changes).val * second ↔
      w - (offsetOnWall w a changes).val * second ≤ t) ↔ ¬ Disturbs w t a changes := by
  induction changes generalizing low a with
  | nil =>
    have : w ≤ t + a.val * second ↔ w - a.val * second ≤ t := by omega
    simpa [offsetAt, offsetOnWall, Disturbs] using this
  | cons c rest ih =>
    obtain ⟨hlow, hrest⟩ := h
    have hlaterAt := offsetAt_spaced (t := t) hrest
    have hlaterWall := offsetOnWall_spaced (w := w) hrest
    rw [offsetAt, offsetOnWall, Disturbs, not_or]
    by_cases ht : c.instant ≤ t <;>
      by_cases hw : c.instant + max a.val c.offset.val * second ≤ w
    · rw [if_pos ht, if_pos hw, ih hrest]
      refine (and_iff_right ?_).symm
      unfold second at *
      omega
    · rw [if_pos ht, if_neg hw]
      have hearly := not_disturbs_early (t := t) hrest (not_le.mp hw)
      simp only [hearly, not_false_eq_true, and_true]
      rcases hlaterAt with hsame | ⟨hwall, hnow⟩
      · rw [hsame]
        unfold second at *
        omega
      · unfold second at *
        omega
    · rw [if_neg ht, if_pos hw]
      have hlate := not_disturbs_late (w := w) hrest (t := t) (by
        unfold second at *
        omega)
      have hcome := hlaterWall hw
      refine iff_of_true ?_ ⟨fun h => ht h.1, hlate⟩
      unfold second at *
      omega
    · rw [if_neg ht, if_neg hw]
      have hlate := not_disturbs_late (w := w) hrest (t := t) (by
        unfold second at *
        omega)
      refine iff_of_true ?_ ⟨fun h => ht h.1, hlate⟩
      omega

end Changes

/-- For changes that are spaced out, the clock is in step unless a change skips or repeats a
run time. -/
theorem clockInStep_ofChanges {s : Schedule} {low t : ℤ} {first : Offset}
    {changes : List ClockChange} (h : Spaced low first changes) :
    s.ClockInStep (Zone.ofChanges first changes) t ↔
      ∀ w, s.Runs w → ¬ Disturbs w t first changes :=
  forall₂_congr fun _ _ => inStep_iff_not_disturbs h

/-- The clock put forward on 8 March 2026 at 7:00 UTC, and back on 1 November at 6:00. -/
def newYork : Zone := Zone.ofChanges ⟨-18000, by decide⟩ [
  ⟨739683 * day + 7 * 3600 * second, ⟨-14400, by decide⟩⟩,
  ⟨739921 * day + 6 * 3600 * second, ⟨-18000, by decide⟩⟩]

/-- Sundays at half past the hour. -/
def sundays (runHour : Within 0 23) : Schedule :=
  ⟨true, .weekly ⟨6, by decide⟩, runHour, ⟨30, by decide⟩, none⟩

theorem not_bracketed_of_next {s : Schedule} {z : Zone} {t o : ℤ}
    (h : s.nextOccurrence z t = .ok o) (hpast : z.toUtc o ≤ t) : ¬ s.Bracketed z t := by
  rintro ⟨-, next, -, hnext, -, hfuture, -⟩
  obtain rfl := Except.ok.inj (h.symm.trans hnext)
  omega

theorem not_bracketed_of_latest {s : Schedule} {z : Zone} {t o : ℤ}
    (h : s.latestOccurrence z t = .ok o) (hahead : t < z.toUtc o) : ¬ s.Bracketed z t := by
  rintro ⟨last, -, hlast, -, hpast, -⟩
  obtain rfl := Except.ok.inj (h.symm.trans hlast)
  omega

/-- In the repeated hour the next run is one that has been; after the skipped hour the last run
is one whose instant is to come. -/
theorem newYork_not_bracketed :
    ¬ (sundays ⟨1, by decide⟩).Bracketed newYork (739921 * day + (6 * 3600 + 600) * second) ∧
      ¬ (sundays ⟨2, by decide⟩).Bracketed newYork
        (739683 * day + (7 * 3600 + 600) * second) := by
  constructor
  · exact not_bracketed_of_next (o := 739921 * day + (3600 + 1800) * second)
      (by decide +kernel) (by decide +kernel)
  · exact not_bracketed_of_latest (o := 739683 * day + (2 * 3600 + 1800) * second)
      (by decide +kernel) (by decide +kernel)

end MonitoringHub.Reports
