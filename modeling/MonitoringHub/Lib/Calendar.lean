import Mathlib.Order.Monotone.Basic
import Mathlib.Data.Int.Init
import Mathlib.Tactic.Common

/-! The Gregorian calendar on day ordinals, extended to every year. Day 1 is the first of
January of year 1, a Monday. Months are counted through the years: month `i` is month
`i % 12 + 1` of year `i / 12`. -/

namespace MonitoringHub.Lib.Calendar

def IsLeap (y : ℤ) : Prop := y % 4 = 0 ∧ (y % 100 ≠ 0 ∨ y % 400 = 0)

instance : DecidablePred IsLeap := fun y =>
  inferInstanceAs (Decidable (y % 4 = 0 ∧ (y % 100 ≠ 0 ∨ y % 400 = 0)))

def daysBeforeYear (y : ℤ) : ℤ := (y - 1) * 365 + (y - 1) / 4 - (y - 1) / 100 + (y - 1) / 400

/-- What February lacks of thirty days. -/
def shortfall (y : ℤ) : ℤ := if IsLeap y then 1 else 2

/-- The days of year `y` before the month after `k` others. -/
def daysBeforeMonth (y k : ℤ) : ℤ := (367 * k + 5) / 12 - if k ≤ 1 then 0 else shortfall y

/-- The first day of month `i`. -/
def monthStart (i : ℤ) : ℤ := daysBeforeYear (i / 12) + daysBeforeMonth (i / 12) (i % 12) + 1

/-- Four hundred years are 146097 days: the quotient is the year or the one before it. -/
def yearOf (n : ℤ) : ℤ :=
  let e := 400 * (n - 1) / 146097 + 1
  if daysBeforeYear (e + 1) < n then e + 1 else e

/-- The months of year `y` before the one that holds its day `r`, counted from 0. -/
def monthsBefore (y r : ℤ) : ℤ :=
  (12 * (r + if r < daysBeforeMonth y 2 then 0 else shortfall y) + 6) / 367

/-- The month of day `n`. -/
def monthOf (n : ℤ) : ℤ :=
  12 * yearOf n + monthsBefore (yearOf n) (n - daysBeforeYear (yearOf n) - 1)

/-- Monday is 0. -/
def weekday (n : ℤ) : ℤ := (n + 6) % 7

/-- Day `day` of month `i`. -/
def dateIn (i day : ℤ) : ℤ := monthStart i + (day - 1)

section Years
variable (y n : ℤ)

theorem shortfall_bounds : 1 ≤ shortfall y ∧ shortfall y ≤ 2 := by
  unfold shortfall
  split <;> omega

theorem daysBeforeYear_succ : daysBeforeYear (y + 1) = daysBeforeYear y + 367 - shortfall y := by
  by_cases hleap : IsLeap y
  · rw [shortfall, if_pos hleap]
    unfold IsLeap at hleap
    unfold daysBeforeYear
    omega
  · rw [shortfall, if_neg hleap]
    unfold IsLeap at hleap
    unfold daysBeforeYear
    omega

theorem yearOf_spec : daysBeforeYear (yearOf n) < n ∧ n ≤ daysBeforeYear (yearOf n + 1) := by
  have below : daysBeforeYear (400 * (n - 1) / 146097 + 1) < n := by
    unfold daysBeforeYear
    omega
  have above : n ≤ daysBeforeYear (400 * (n - 1) / 146097 + 1 + 1 + 1) := by
    unfold daysBeforeYear
    omega
  unfold yearOf
  dsimp only
  split <;> omega

end Years

section Months
variable {y k r i j n day : ℤ}

theorem daysBeforeMonth_zero : daysBeforeMonth y 0 = 0 := by
  simp [daysBeforeMonth]

theorem daysBeforeMonth_twelve :
    daysBeforeYear y + daysBeforeMonth y 12 = daysBeforeYear (y + 1) := by
  rw [daysBeforeYear_succ, daysBeforeMonth, if_neg (by decide)]
  omega

/-- A month is between 28 and 31 days long. -/
theorem daysBeforeMonth_succ (h0 : 0 ≤ k) (h12 : k < 12) :
    daysBeforeMonth y k + 28 ≤ daysBeforeMonth y (k + 1) ∧
      daysBeforeMonth y (k + 1) ≤ daysBeforeMonth y k + 31 := by
  have := shortfall_bounds y
  unfold daysBeforeMonth
  split <;> split <;> omega

theorem monthsBefore_spec (h0 : 0 ≤ r) (hr : r < daysBeforeMonth y 12) :
    (0 ≤ monthsBefore y r ∧ monthsBefore y r < 12) ∧
      daysBeforeMonth y (monthsBefore y r) ≤ r ∧ r < daysBeforeMonth y (monthsBefore y r + 1) := by
  have := shortfall_bounds y
  have h2 : daysBeforeMonth y 2 = 61 - shortfall y := rfl
  have h12 : daysBeforeMonth y 12 = 367 - shortfall y := rfl
  unfold monthsBefore
  split
  all_goals
    refine ⟨by omega, ?_⟩
    unfold daysBeforeMonth
    split <;> split <;> omega

/-- The month after `k` others of year `y`; after twelve it is the next year's first. -/
theorem monthStart_year (h0 : 0 ≤ k) (h12 : k ≤ 12) :
    monthStart (12 * y + k) = daysBeforeYear y + daysBeforeMonth y k + 1 := by
  by_cases hk : k = 12
  · subst hk
    have hdiv : (12 * y + 12) / 12 = y + 1 := by omega
    have hmod : (12 * y + 12) % 12 = 0 := by omega
    rw [monthStart, hdiv, hmod, daysBeforeMonth_zero, daysBeforeMonth_twelve, Int.add_zero]
  · have hdiv : (12 * y + k) / 12 = y := by omega
    have hmod : (12 * y + k) % 12 = k := by omega
    rw [monthStart, hdiv, hmod]

theorem monthStart_succ :
    monthStart i + 28 ≤ monthStart (i + 1) ∧ monthStart (i + 1) ≤ monthStart i + 31 := by
  have hnext : i + 1 = 12 * (i / 12) + (i % 12 + 1) := by omega
  rw [hnext, monthStart_year (by omega) (by omega), monthStart]
  have := daysBeforeMonth_succ (y := i / 12) (k := i % 12) (by omega) (by omega)
  omega

theorem monthStart_lt_iff : monthStart i < monthStart j ↔ i < j := by
  have hmono : StrictMono monthStart := strictMono_int_of_lt_succ fun i => by
    have := (monthStart_succ (i := i)).1
    omega
  exact hmono.lt_iff_lt

theorem monthStart_le (h : i ≤ j) : monthStart i ≤ monthStart j := by
  rw [← not_lt, monthStart_lt_iff, not_lt]
  exact h

/-- Different months start at least 28 days apart. -/
theorem monthStart_apart (h : i < j) : monthStart i + 28 ≤ monthStart j :=
  monthStart_succ.1.trans (monthStart_le (Int.add_one_le_of_lt h))

theorem monthOf_spec : monthStart (monthOf n) ≤ n ∧ n < monthStart (monthOf n + 1) := by
  obtain ⟨hlow, hhigh⟩ := yearOf_spec n
  rw [← daysBeforeMonth_twelve] at hhigh
  unfold monthOf
  generalize yearOf n = y at hlow hhigh ⊢
  obtain ⟨⟨h0, h12⟩, hfirst, hnext⟩ :=
    monthsBefore_spec (y := y) (r := n - daysBeforeYear y - 1) (by omega) (by omega)
  rw [Int.add_assoc, monthStart_year h0 h12.le, monthStart_year (by omega) (by omega)]
  omega

theorem monthOf_eq (hlow : monthStart i ≤ n) (hhigh : n < monthStart (i + 1)) :
    monthOf n = i := by
  obtain ⟨hle, hlt⟩ := monthOf_spec (n := n)
  have h1 := monthStart_lt_iff.mp (hle.trans_lt hhigh)
  have h2 := monthStart_lt_iff.mp (hlow.trans_lt hlt)
  omega

theorem monthOf_dateIn (h1 : 1 ≤ day) (h28 : day ≤ 28) : monthOf (dateIn i day) = i := by
  have := (monthStart_succ (i := i)).1
  unfold dateIn
  exact monthOf_eq (by omega) (by omega)

end Months

end MonitoringHub.Lib.Calendar
