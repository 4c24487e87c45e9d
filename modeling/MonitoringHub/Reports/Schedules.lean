import MonitoringHub.Lib.Calendar
import Mathlib.Order.Bounds.Basic

/-! When a report schedule runs and what a run reports. Times are microseconds since the start
of day 0; a time of a zone's wall clock is the time its clock shows, as `datetime` compares and
orders the times of one zone. -/

namespace MonitoringHub.Reports
open Lib Calendar

def second : ℤ := 1000000
def day : ℤ := 86400 * second

/-- A time zone: its UTC offset in seconds at an instant, and at a time of its wall clock, read
with fold 0. -/
structure Zone where
  offset : ℤ → ℤ
  wallOffset : ℤ → ℤ
  offset_bound : ∀ t, -86400 < offset t ∧ offset t < 86400
  wallOffset_bound : ∀ w, -86400 < wallOffset w ∧ wallOffset w < 86400

namespace Zone
variable (z : Zone)

def toWall (t : ℤ) : ℤ := t + z.offset t * second
def toUtc (w : ℤ) : ℤ := w - z.wallOffset w * second

end Zone

/-- What `_int` lets through. -/
abbrev Within (lo hi : ℤ) := { n : ℤ // lo ≤ n ∧ n ≤ hi }

/-- `report_type`, with the run day it needs; weekday 0 is a Monday. -/
inductive Frequency
  | weekly (runWeekday : Within 0 6)
  | monthly (runDay : Within 1 28)
  | quarterly (runDay : Within 1 28)
  | yearly (runMonth : Within 1 12) (runDay : Within 1 28)

/-- A row of `report_schedules`, without what a tick writes to it. -/
structure Schedule where
  enabled : Bool
  frequency : Frequency
  runHour : Within 0 23
  runMinute : Within 0 59
  createdAt : Option ℤ

/-- What `due` answers; the period is in UTC. -/
structure Due where
  occurrence : ℤ
  periodStart : ℤ
  periodEnd : ℤ
  deriving DecidableEq

def catchup : ℤ := 36 * 3600 * second

def quarterMonths : List ℤ := [1, 4, 7, 10]

namespace Schedule
variable (s : Schedule) (z : Zone)

/-- `_at`: the run time of day `d`. -/
def atDate (d : ℤ) : ℤ := d * day + (s.runHour * 60 + s.runMinute) * 60 * second

/-- Of two run days the later, if its run time has come. -/
def latestOf (now d earlier : ℤ) : ℤ :=
  if s.atDate d ≤ now then s.atDate d else s.atDate earlier

/-- `latest_occurrence`; months are counted as `_add_months` counts them. -/
def latestOccurrence (nowUtc : ℤ) : Except String ℤ :=
  let now := z.toWall nowUtc
  let today := now / day
  let month := monthOf today
  match s.frequency with
  | .weekly runWeekday =>
    let d := today - weekday today + runWeekday
    .ok (s.latestOf now d (d - 7))
  | .monthly runDay => .ok (s.latestOf now (dateIn month runDay) (dateIn (month - 1) runDay))
  | .quarterly runDay =>
    let runs := (List.range 13).findSome? fun (k : ℕ) =>
      let m := month - k
      let occ := s.atDate (dateIn m runDay)
      if m % 12 + 1 ∈ quarterMonths ∧ occ ≤ now then some occ else none
    runs.elim (.error "no quarterly occurrence found") .ok
  | .yearly runMonth runDay =>
    let m := 12 * (month / 12) + (runMonth - 1)
    .ok (s.latestOf now (dateIn m runDay) (dateIn (m - 12) runDay))

/-- The first days of the period and of what follows it, for a run on day `o`. -/
def periodDates (o : ℤ) : ℤ × ℤ :=
  let month := monthOf o
  match s.frequency with
  | .weekly _ =>
    let endD := o - weekday o
    (endD - 7, endD)
  | .monthly _ => (monthStart (month - 1), monthStart month)
  | .quarterly _ =>
    let endM := 12 * (month / 12) + 3 * (month % 12 / 3)
    (monthStart (endM - 3), monthStart endM)
  | .yearly _ _ => (monthStart (month - 12), monthStart month)

/-- `period_for` -/
def periodFor (occurrence : ℤ) : ℤ × ℤ :=
  let dates := s.periodDates (occurrence / day)
  (z.toUtc (dates.1 * day), z.toUtc (dates.2 * day))

def due (nowUtc : ℤ) (createdAt lastPeriodEnd : Option ℤ) : Except String (Option Due) :=
  if s.enabled then
    (s.latestOccurrence z nowUtc).map fun occ =>
      let occUtc := z.toUtc occ
      let period := s.periodFor z occ
      if nowUtc - occUtc > catchup then none
      else if createdAt.any (occUtc < ·) then none
      else if lastPeriodEnd.any (period.2 ≤ ·) then none
      else some ⟨occ, period.1, period.2⟩
  else .ok none

end Schedule

/-- The days a schedule runs on. -/
def Frequency.RunsOn : Frequency → ℤ → Prop
  | weekly runWeekday, d => weekday d = runWeekday
  | monthly runDay, d => ∃ m, d = dateIn m runDay
  | quarterly runDay, d => ∃ m, m % 3 = 0 ∧ d = dateIn m runDay
  | yearly runMonth runDay, d => ∃ m, m % 12 = runMonth.val - 1 ∧ d = dateIn m runDay

/-- The days from the end of the period to the run. -/
def Frequency.lead : Frequency → ℤ
  | weekly runWeekday => runWeekday
  | monthly runDay => runDay.val - 1
  | quarterly runDay => runDay.val - 1
  | yearly _ runDay => runDay.val - 1

/-- The scheduled run times. -/
def Schedule.Runs (s : Schedule) (w : ℤ) : Prop := ∃ d, s.frequency.RunsOn d ∧ w = s.atDate d

section RunDays
variable {m m' d d' k : ℤ} {f : Frequency}

theorem dateIn_lt_iff : dateIn m k < dateIn m' k ↔ m < m' := by
  have := monthStart_lt_iff (i := m) (j := m')
  unfold dateIn
  omega

theorem dateIn_apart (h : dateIn m k < dateIn m' k) : dateIn m k + 7 ≤ dateIn m' k := by
  have := monthStart_apart (dateIn_lt_iff.mp h)
  unfold dateIn
  omega

/-- Two different run days are at least a week apart. -/
theorem Frequency.RunsOn.apart (h : f.RunsOn d) (h' : f.RunsOn d') (hlt : d < d') :
    d + 7 ≤ d' := by
  cases f with
  | weekly runWeekday =>
    unfold RunsOn weekday at h h'
    omega
  | monthly runDay =>
    obtain ⟨m, rfl⟩ := h
    obtain ⟨m', rfl⟩ := h'
    exact dateIn_apart hlt
  | quarterly runDay =>
    obtain ⟨m, -, rfl⟩ := h
    obtain ⟨m', -, rfl⟩ := h'
    exact dateIn_apart hlt
  | yearly runMonth runDay =>
    obtain ⟨m, -, rfl⟩ := h
    obtain ⟨m', -, rfl⟩ := h'
    exact dateIn_apart hlt

end RunDays

section RunTimes
variable {s : Schedule} {f : Frequency} {d e now o : ℤ}

/-- A run time is on its day. -/
theorem atDate_bounds : d * day ≤ s.atDate d ∧ s.atDate d < (d + 1) * day := by
  have hhour := s.runHour.2
  have hminute := s.runMinute.2
  unfold Schedule.atDate day second
  omega

theorem atDate_div : s.atDate d / day = d := by
  have := atDate_bounds (s := s) (d := d)
  unfold day second at *
  omega

theorem atDate_le_iff : s.atDate d ≤ s.atDate e ↔ d ≤ e := by
  unfold Schedule.atDate day second
  omega

/-- A run time that has come is of today or before. -/
theorem le_today (h : s.atDate d ≤ now) : d ≤ now / day := by
  have := atDate_bounds (s := s) (d := d)
  unfold day second at *
  omega

theorem atDate_le (h : d < now / day) : s.atDate d ≤ now := by
  have := atDate_bounds (s := s) (d := d)
  unfold day second at *
  omega

/-- Of the run days around today, with none between them: the later once its time has come, the
earlier until then. -/
theorem latestOf_isGreatest (hd : s.frequency.RunsOn d) (he : s.frequency.RunsOn e)
    (hpast : e < now / day) (hafter : ∀ x, s.frequency.RunsOn x → d < x → now / day < x)
    (hbefore : ∀ x, s.frequency.RunsOn x → x < d → x ≤ e) :
    IsGreatest { w | s.Runs w ∧ w ≤ now } (s.latestOf now d e) := by
  unfold Schedule.latestOf
  split
  · rename_i hcome
    refine ⟨⟨⟨d, hd, rfl⟩, hcome⟩, ?_⟩
    rintro w ⟨⟨x, hx, rfl⟩, hw⟩
    rw [atDate_le_iff]
    by_contra hlt
    have := hafter x hx (by omega)
    have := le_today hw
    omega
  · rename_i hcome
    refine ⟨⟨⟨e, he, rfl⟩, atDate_le hpast⟩, ?_⟩
    rintro w ⟨⟨x, hx, rfl⟩, hw⟩
    rw [atDate_le_iff]
    have hxd : x ≠ d := by
      rintro rfl
      exact hcome hw
    have := hafter x hx
    have := le_today hw
    exact hbefore x hx (by omega)

/-- The same by months, for run days that fall on one day of the months of `P`. -/
theorem latestOf_months {P : ℤ → Prop} {m m' : ℤ} {k : Within 1 28}
    (hP : ∀ x, s.frequency.RunsOn x ↔ ∃ i, P i ∧ x = dateIn i k) (hm : P m) (hm' : P m')
    (hpast : m' < monthOf (now / day)) (hafter : ∀ i, P i → m < i → monthOf (now / day) < i)
    (hbefore : ∀ i, P i → i < m → i ≤ m') :
    IsGreatest { w | s.Runs w ∧ w ≤ now } (s.latestOf now (dateIn m k) (dateIn m' k)) := by
  obtain ⟨hfirst, hnext⟩ := monthOf_spec (n := now / day)
  have hk := k.2
  refine latestOf_isGreatest ((hP _).mpr ⟨m, hm, rfl⟩) ((hP _).mpr ⟨m', hm', rfl⟩) ?_ ?_ ?_
  · have := monthStart_apart hpast
    unfold dateIn
    omega
  · intro x hx hlt
    obtain ⟨i, hi, rfl⟩ := (hP x).mp hx
    have := monthStart_le
      (Int.add_one_le_of_lt (hafter i hi (dateIn_lt_iff.mp hlt)))
    unfold dateIn
    omega
  · intro x hx hlt
    obtain ⟨i, hi, rfl⟩ := (hP x).mp hx
    rw [← not_lt, dateIn_lt_iff, not_lt]
    exact hbefore i hi (dateIn_lt_iff.mp hlt)

theorem mem_quarterMonths (m : ℤ) : m % 12 + 1 ∈ quarterMonths ↔ m % 3 = 0 := by
  simp only [quarterMonths, List.mem_cons, List.not_mem_nil, or_false]
  omega

theorem findSome_range {α : Type*} {g : ℕ → Option α} {a : α} {n j : ℕ} (hj : j < n)
    (hfound : g j = some a) (hnone : ∀ i < j, g i = none) :
    (List.range n).findSome? g = some a := by
  induction n with
  | zero => omega
  | succ n ih =>
    rw [List.range_succ, List.findSome?_append]
    by_cases hlt : j < n
    · rw [ih hlt, Option.some_or]
    · obtain rfl : j = n := by omega
      have hrange : (List.range j).findSome? g = none :=
        List.findSome?_eq_none_iff.mpr fun i hi => hnone i (List.mem_range.mp hi)
      rw [hrange, Option.none_or, List.findSome?_singleton, hfound]

/-- The search ends at the first month of the quarter, or of the one before it. -/
theorem quarterRun_eq {month : ℤ} {k : Within 1 28} (hmonth : month = monthOf (now / day)) :
    (List.range 13).findSome? (fun (i : ℕ) =>
      let m := month - i
      let occ := s.atDate (dateIn m k)
      if m % 12 + 1 ∈ quarterMonths ∧ occ ≤ now then some occ else none) =
    some (s.latestOf now (dateIn (month - month % 3) k) (dateIn (month - month % 3 - 3) k)) := by
  obtain ⟨r, hr⟩ : ∃ r : ℕ, month % 3 = r := ⟨_, (Int.toNat_of_nonneg (by omega)).symm⟩
  simp only [mem_quarterMonths, Schedule.latestOf, hr]
  split
  · rename_i hcome
    refine findSome_range (j := r) (by omega) (if_pos ⟨by omega, hcome⟩) fun i hi => ?_
    exact if_neg fun h => by omega
  · rename_i hcome
    have hq : month - r - 3 = month - ((r + 3 : ℕ) : ℤ) := by omega
    have hpast : s.atDate (dateIn (month - r - 3) k) ≤ now := by
      refine atDate_le ?_
      have hfirst := (monthOf_spec (n := now / day)).1
      have := monthStart_apart (i := month - r - 3) (j := month) (by omega)
      have hk := k.2
      rw [← hmonth] at hfirst
      unfold dateIn
      omega
    rw [hq] at hpast ⊢
    refine findSome_range (j := r + 3) (by omega) (if_pos ⟨by omega, hpast⟩) fun i hi => ?_
    refine if_neg fun h => ?_
    by_cases hir : i = r
    · subst hir
      exact hcome h.2
    · omega

/-- The latest occurrence is always found, and is the last run time the wall clock has passed. -/
theorem latestOccurrence_ok (s : Schedule) (z : Zone) (t : ℤ) :
    ∃ occ, s.latestOccurrence z t = .ok occ ∧
      IsGreatest { w | s.Runs w ∧ w ≤ z.toWall t } occ := by
  unfold Schedule.latestOccurrence
  dsimp only
  split
  · rename_i w hf
    refine ⟨_, rfl, latestOf_isGreatest ?_ ?_ ?_ ?_ ?_⟩
    all_goals
      have hw := w.2
      simp only [hf, Frequency.RunsOn, weekday]
      omega
  · rename_i k hf
    refine ⟨_, rfl, latestOf_months (P := fun _ => True) ?_ trivial trivial ?_ ?_ ?_⟩
    · simp [hf, Frequency.RunsOn]
    · omega
    · omega
    · omega
  · rename_i k hf
    rw [quarterRun_eq rfl]
    refine ⟨_, rfl, latestOf_months (P := fun i => i % 3 = 0) ?_ ?_ ?_ ?_ ?_ ?_⟩
    · simp [hf, Frequency.RunsOn]
    all_goals omega
  · rename_i r k hf
    have hr := r.2
    refine ⟨_, rfl, latestOf_months (P := fun i => i % 12 = r.val - 1) ?_ ?_ ?_ ?_ ?_ ?_⟩
    · simp [hf, Frequency.RunsOn]
    all_goals omega

end RunTimes

section Periods
variable {s : Schedule} {z : Zone} {d o o' t : ℤ}

/-- What follows the period starts a fixed number of days before the run. -/
theorem periodDates_end (h : s.frequency.RunsOn d) :
    (s.periodDates d).2 = d - s.frequency.lead := by
  unfold Schedule.periodDates
  dsimp only
  split
  · rename_i w hf
    rw [hf] at h ⊢
    exact congrArg (d - ·) h
  · rename_i k hf
    rw [hf] at h ⊢
    obtain ⟨m, rfl⟩ := h
    rw [monthOf_dateIn k.2.1 k.2.2, Frequency.lead, dateIn]
    omega
  · rename_i k hf
    rw [hf] at h ⊢
    obtain ⟨m, hm, rfl⟩ := h
    have hquarter : 12 * (m / 12) + 3 * (m % 12 / 3) = m := by omega
    rw [monthOf_dateIn k.2.1 k.2.2, hquarter, Frequency.lead, dateIn]
    omega
  · rename_i r k hf
    rw [hf] at h ⊢
    obtain ⟨m, -, rfl⟩ := h
    rw [monthOf_dateIn k.2.1 k.2.2, Frequency.lead, dateIn]
    omega

theorem periodEnd_eq (h : s.frequency.RunsOn d) :
    (s.periodFor z (s.atDate d)).2 = z.toUtc ((d - s.frequency.lead) * day) := by
  rw [Schedule.periodFor, atDate_div, periodDates_end h]

/-- The two ends of a zone's clock are less than two days apart. -/
theorem toWall_lt (z : Zone) (t : ℤ) : z.toWall t < t + day := by
  have := z.offset_bound t
  unfold Zone.toWall day second
  omega

theorem toUtc_bounds (z : Zone) (w : ℤ) : w - day < z.toUtc w ∧ z.toUtc w < w + day := by
  have := z.wallOffset_bound w
  unfold Zone.toUtc day second
  omega

/-- A later run ends its period later. -/
theorem periodEnd_lt (h : s.Runs o) (h' : s.Runs o') (hlt : o < o') :
    (s.periodFor z o).2 < (s.periodFor z o').2 := by
  obtain ⟨d, hd, rfl⟩ := h
  obtain ⟨d', hd', rfl⟩ := h'
  have hdays := hd.apart hd' (by rwa [← not_le, atDate_le_iff, not_le] at hlt)
  rw [periodEnd_eq hd, periodEnd_eq hd']
  have hbefore := toUtc_bounds z ((d - s.frequency.lead) * day)
  have hafter := toUtc_bounds z ((d' - s.frequency.lead) * day)
  unfold day second at *
  omega

theorem runs_apart (h : s.Runs o) (h' : s.Runs o') (hlt : o < o') : o + 7 * day ≤ o' := by
  obtain ⟨d, hd, rfl⟩ := h
  obtain ⟨d', hd', rfl⟩ := h'
  have hdays := hd.apart hd' (by rwa [← not_le, atDate_le_iff, not_le] at hlt)
  unfold Schedule.atDate day second
  omega

end Periods

/-- `occ` is the last run time the wall clock has passed at `t`, and the schedule owes a run
for it: it is not too late, and not before the schedule was created. -/
structure Owed (s : Schedule) (z : Zone) (t occ : ℤ) : Prop where
  latest : IsGreatest { w | s.Runs w ∧ w ≤ z.toWall t } occ
  inTime : t - z.toUtc occ ≤ catchup
  created : ∀ c ∈ s.createdAt, c ≤ z.toUtc occ

section DueRuns
variable {s : Schedule} {z : Zone} {t t' occ occ' : ℤ} {last : Option ℤ} {p : Due}

theorem latestOccurrence_eq :
    s.latestOccurrence z t = .ok occ ↔ IsGreatest { w | s.Runs w ∧ w ≤ z.toWall t } occ := by
  obtain ⟨o, hok, hgreatest⟩ := latestOccurrence_ok s z t
  rw [hok]
  constructor
  · intro h
    obtain rfl := Except.ok.inj h
    exact hgreatest
  · intro h
    exact congrArg _ (hgreatest.unique h)

/-- A run owed is due unless its period is already taken. -/
theorem due_of_owed (henabled : s.enabled = true) (h : Owed s z t occ) :
    s.due z t s.createdAt last =
      .ok (if last.any ((s.periodFor z occ).2 ≤ ·) then none
        else some ⟨occ, (s.periodFor z occ).1, (s.periodFor z occ).2⟩) := by
  have hcreated : ¬ s.createdAt.any (z.toUtc occ < ·) = true := by
    simpa [Option.any_eq_true] using h.created
  rw [Schedule.due, if_pos henabled, latestOccurrence_eq.mpr h.latest, Except.map]
  dsimp only
  rw [if_neg (not_lt.mpr h.inTime), if_neg hcreated]

theorem owed_of_due (h : s.due z t s.createdAt last = .ok (some p)) :
    Owed s z t p.occurrence ∧ p.periodEnd = (s.periodFor z p.occurrence).2 ∧
      ∀ e ∈ last, e < p.periodEnd := by
  unfold Schedule.due at h
  split at h
  · obtain ⟨occ, hok, hgreatest⟩ := latestOccurrence_ok s z t
    rw [hok] at h
    have hdue := Except.ok.inj h
    dsimp only at hdue
    rw [Option.ite_none_left_eq_some, Option.ite_none_left_eq_some,
      Option.ite_none_left_eq_some] at hdue
    obtain ⟨hlate, hcreated, htaken, hp⟩ := hdue
    obtain rfl := Option.some.inj hp
    refine ⟨⟨hgreatest, not_lt.mp hlate, ?_⟩, rfl, ?_⟩
    · simpa [Option.any_eq_true] using hcreated
    · simpa [Option.any_eq_true] using htaken
  · cases h

/-- Only the run that is owed now has taken its period up to now. -/
theorem Owed.same (h : Owed s z t occ) (h' : Owed s z t' occ') (ht : t' ≤ t)
    (hend : (s.periodFor z occ).2 ≤ (s.periodFor z occ').2) : occ' = occ := by
  obtain ⟨⟨hruns, -⟩, -⟩ := h.latest
  obtain ⟨⟨hruns', hcome'⟩, -⟩ := h'.latest
  by_contra hne
  cases lt_or_gt_of_ne hne with
  | inl hlt =>
    have := periodEnd_lt (z := z) hruns' hruns hlt
    omega
  | inr hlt =>
    have hweek := runs_apart hruns hruns' hlt
    have hclock := toWall_lt z t'
    have hutc := (toUtc_bounds z occ).2
    have hlate := h.inTime
    unfold catchup at hlate
    unfold day at *
    unfold second at *
    omega

end DueRuns

end MonitoringHub.Reports
