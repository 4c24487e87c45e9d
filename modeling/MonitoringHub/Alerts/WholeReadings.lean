import Mathlib.Tactic.Linarith
import MonitoringHub.Alerts.ThresholdBounds

/-! What rounding a learned limit does to the decision about a whole-number reading. The rounding
reaches a little past the limit, so that a limit just off a whole number becomes that number; the
reading that lies there is the only one decided differently. -/

namespace MonitoringHub.Alerts

namespace Comparison
variable {op : Comparison} {limit : ℚ} {n : ℤ}

/-- The limit, moved by as much as the rounding reaches past it. -/
def moved : Comparison → ℚ → ℚ
  | .lt, limit | .ge, limit => limit - 1 / 10 ^ 9
  | .gt, limit | .le, limit => limit + 1 / 10 ^ 9

/-- The whole number lies past the limit, and no farther than the rounding reaches. -/
def InMargin : Comparison → ℚ → ℤ → Prop
  | .lt, limit, n | .ge, limit, n => limit - 1 / 10 ^ 9 ≤ n ∧ n < limit
  | .gt, limit, n | .le, limit, n => limit < n ∧ n ≤ limit + 1 / 10 ^ 9

instance (op : Comparison) (limit : ℚ) (n : ℤ) : Decidable (op.InMargin limit n) := by
  cases op <;> exact inferInstanceAs (Decidable (_ ∧ _))

/-- A whole number lies beyond a rounded limit exactly if it lies beyond the moved one. -/
theorem compare_integerizeLimit :
    compare (some n) (integerizeLimit (some limit) op) op = op.holds n (op.moved limit) := by
  cases op with
  | gt =>
    have hfloor : ((⌊limit + 1 / 10 ^ 9⌋ : ℤ) : ℚ) < n ↔ limit + 1 / 10 ^ 9 < n := by
      rw [Int.cast_lt, Int.floor_lt]
    exact decide_eq_decide.mpr hfloor
  | ge =>
    have hceil : ((⌈limit - 1 / 10 ^ 9⌉ : ℤ) : ℚ) ≤ n ↔ limit - 1 / 10 ^ 9 ≤ n := by
      rw [Int.cast_le, Int.ceil_le]
    exact decide_eq_decide.mpr hceil
  | lt =>
    have hceil : (n : ℚ) < (⌈limit - 1 / 10 ^ 9⌉ : ℤ) ↔ n < limit - 1 / 10 ^ 9 := by
      rw [Int.cast_lt, Int.lt_ceil]
    exact decide_eq_decide.mpr hceil
  | le =>
    have hfloor : (n : ℚ) ≤ (⌊limit + 1 / 10 ^ 9⌋ : ℤ) ↔ n ≤ limit + 1 / 10 ^ 9 := by
      rw [Int.cast_le, Int.le_floor]
    exact decide_eq_decide.mpr hfloor

/-- In the margin the moved limit decides as if the reading were the limit. -/
theorem holds_moved_of_inMargin (h : op.InMargin limit n) :
    op.holds n (op.moved limit) = op.holds n n := by
  cases op with
  | gt => exact decide_eq_decide.mpr (iff_of_false h.2.not_gt (lt_irrefl _))
  | ge => exact decide_eq_decide.mpr (iff_of_true h.1 le_rfl)
  | lt => exact decide_eq_decide.mpr (iff_of_false h.1.not_gt (lt_irrefl _))
  | le => exact decide_eq_decide.mpr (iff_of_true h.2 le_rfl)

/-- Outside it, as the limit itself does. -/
theorem holds_moved_of_not_inMargin (h : ¬ op.InMargin limit n) :
    op.holds n (op.moved limit) = op.holds n limit := by
  cases op with
  | gt =>
    refine decide_eq_decide.mpr ⟨fun hn => ?_, fun hn => not_le.mp fun hreach => h ⟨hn, hreach⟩⟩
    have hmoved : limit + 1 / 10 ^ 9 < (n : ℚ) := hn
    linarith
  | ge =>
    refine decide_eq_decide.mpr ⟨fun hn => not_lt.mp fun hpast => h ⟨hn, hpast⟩, fun hn => ?_⟩
    have hreached : limit ≤ (n : ℚ) := hn
    change limit - 1 / 10 ^ 9 ≤ (n : ℚ)
    linarith
  | lt =>
    refine decide_eq_decide.mpr ⟨fun hn => ?_, fun hn => not_le.mp fun hreach => h ⟨hreach, hn⟩⟩
    have hmoved : (n : ℚ) < limit - 1 / 10 ^ 9 := hn
    linarith
  | le =>
    refine decide_eq_decide.mpr ⟨fun hn => not_lt.mp fun hpast => h ⟨hpast, hn⟩, fun hn => ?_⟩
    have hreached : (n : ℚ) ≤ limit := hn
    change (n : ℚ) ≤ limit + 1 / 10 ^ 9
    linarith

/-- The reading as its own limit is decided the other way than past the limit. -/
theorem holds_self_ne (h : op.InMargin limit n) : op.holds n n ≠ op.holds n limit := by
  cases op with
  | gt => simp [holds, h.1]
  | ge => simp [holds, h.2.not_ge]
  | lt => simp [holds, h.2]
  | le => simp [holds, h.1.not_ge]

end Comparison

section Reading
open Comparison
variable (limit : ℚ) (op : Comparison) (n : ℤ)

/-- Rounding the limit changes no decision about a whole-number reading, but that a reading past
the limit by no more than the margin is taken to be the limit. -/
theorem compare_rounded :
    compare (some n) (integerizeLimit (some limit) op) op =
      compare (some n) (some (if op.InMargin limit n then n else limit)) op ∧
    (compare (some n) (integerizeLimit (some limit) op) op = compare (some n) (some limit) op ↔
      ¬ op.InMargin limit n) := by
  rw [compare_integerizeLimit]
  by_cases h : op.InMargin limit n
  · rw [if_pos h, holds_moved_of_inMargin h]
    exact ⟨rfl, iff_of_false (holds_self_ne h) (not_not_intro h)⟩
  · rw [if_neg h, holds_moved_of_not_inMargin h]
    exact ⟨rfl, iff_of_true rfl h⟩

/-- A limit of 10.9999999999 is rounded to 11, and eleven requests no longer exceed it. -/
theorem elevenRequests_unseen : ¬ ∀ (limit : ℚ) (op : Comparison) (n : ℤ),
    compare (some n) (integerizeLimit (some limit) op) op = compare (some n) (some limit) op := by
  intro h
  have heleven := h (11 - 1 / 10 ^ 10) .gt 11
  rw [compare_integerizeLimit] at heleven
  norm_num [holds, moved, compare] at heleven

end Reading

end MonitoringHub.Alerts
