import Mathlib.Algebra.BigOperators.Group.List.Lemmas
import Mathlib.Algebra.BigOperators.Ring.List
import Mathlib.Algebra.Order.BigOperators.Group.List
import Mathlib.Algebra.Order.Field.Basic
import Mathlib.Data.List.Perm.Basic
import Mathlib.Tactic.FieldSimp
import Mathlib.Tactic.Linarith
import Mathlib.Tactic.Positivity
import Mathlib.Tactic.Ring

/-! The mean and the sample variance of a list, over any ordered field. One value more raises the
sum of squares by a share of its distance from the mean of the others; how far a value can lie
from the mean, against the variance it raises itself, is a matter of their number. -/

namespace MonitoringHub.Lib.SampleMoments
variable {K : Type*} [Field K] [LinearOrder K] [IsStrictOrderedRing K]

def mean (xs : List K) : K := xs.sum / xs.length

/-- The squared deviations from the mean, summed. -/
def squares (xs : List K) : K := (xs.map fun v => (v - mean xs) ^ 2).sum

/-- Over one less than the count; fewer than two values have none. -/
def variance (xs : List K) : K := squares xs / (xs.length - 1)

section Identities
variable {x : K} {xs ys rest : List K}

omit [LinearOrder K] [IsStrictOrderedRing K] in
theorem mean_perm (h : xs.Perm ys) : mean xs = mean ys := by
  rw [mean, mean, h.sum_eq, h.length_eq]

omit [LinearOrder K] [IsStrictOrderedRing K] in
theorem squares_perm (h : xs.Perm ys) : squares xs = squares ys := by
  rw [squares, squares, mean_perm h]
  exact (h.map _).sum_eq

omit [LinearOrder K] [IsStrictOrderedRing K] in
theorem variance_perm (h : xs.Perm ys) : variance xs = variance ys := by
  rw [variance, variance, squares_perm h, h.length_eq]

omit [LinearOrder K] [IsStrictOrderedRing K] in
theorem sum_sub_sq (c : K) (xs : List K) : (xs.map fun v => (v - c) ^ 2).sum =
    (xs.map (· ^ 2)).sum - 2 * c * xs.sum + xs.length * c ^ 2 := by
  induction xs with
  | nil => simp
  | cons v xs ih =>
    simp only [List.map_cons, List.sum_cons, List.length_cons, Nat.cast_add, Nat.cast_one, ih]
    ring

theorem squares_eq (xs : List K) :
    squares xs = (xs.map (· ^ 2)).sum - xs.sum ^ 2 / xs.length := by
  rw [squares, sum_sub_sq, mean]
  by_cases hne : xs = []
  · subst hne
    simp
  · have hlen : (xs.length : K) ≠ 0 := by simpa using hne
    field_simp
    ring

theorem sub_mean_cons (x : K) (rest : List K) :
    x - mean (x :: rest) = rest.length / (rest.length + 1) * (x - mean rest) := by
  have hsucc : (rest.length : K) + 1 ≠ 0 := by positivity
  rw [mean, mean, List.sum_cons, List.length_cons, Nat.cast_add, Nat.cast_one]
  by_cases hne : rest = []
  · subst hne
    simp
  · have hlen : (rest.length : K) ≠ 0 := by simpa using hne
    field_simp
    ring

theorem squares_cons (x : K) (rest : List K) : squares (x :: rest) =
    squares rest + rest.length / (rest.length + 1) * (x - mean rest) ^ 2 := by
  have hsucc : (rest.length : K) + 1 ≠ 0 := by positivity
  rw [squares_eq, squares_eq, mean, List.map_cons, List.sum_cons, List.sum_cons, List.length_cons,
    Nat.cast_add, Nat.cast_one]
  by_cases hne : rest = []
  · subst hne
    simp
  · have hlen : (rest.length : K) ≠ 0 := by simpa using hne
    field_simp
    ring

end Identities

section Bounds
variable {c v x bound : K} {xs rest : List K}

theorem squares_nonneg (xs : List K) : 0 ≤ squares xs := by
  refine List.sum_nonneg fun s hs => ?_
  obtain ⟨v, -, rfl⟩ := List.mem_map.mp hs
  exact sq_nonneg _

theorem variance_nonneg (xs : List K) : 0 ≤ variance xs := by
  by_cases hne : xs = []
  · subst hne
    simp [variance, squares]
  · have hlen : (1 : K) ≤ xs.length := by
      exact_mod_cast List.length_pos_iff.mpr hne
    exact div_nonneg (squares_nonneg xs) (by linarith)

theorem sum_sq_le (h : ∀ v ∈ xs, |v| ≤ bound) :
    (xs.map (· ^ 2)).sum ≤ xs.length * bound ^ 2 := by
  have hle : ∀ s ∈ xs.map (· ^ 2), s ≤ bound ^ 2 := by
    intro s hs
    obtain ⟨v, hv, rfl⟩ := List.mem_map.mp hs
    exact sq_le_sq' (abs_le.mp (h v hv)).1 (abs_le.mp (h v hv)).2
  have hsum := List.sum_le_card_nsmul _ _ hle
  rwa [List.length_map, nsmul_eq_mul] at hsum

theorem squares_le (h : ∀ v ∈ xs, |v| ≤ bound) : squares xs ≤ xs.length * bound ^ 2 := by
  rw [squares_eq]
  have hmean : 0 ≤ xs.sum ^ 2 / xs.length := by positivity
  linarith [sum_sq_le h]

theorem abs_sum_le (h : ∀ v ∈ xs, |v| ≤ bound) : |xs.sum| ≤ xs.length * bound := by
  induction xs with
  | nil => simp
  | cons v xs ih =>
    obtain ⟨hv, hrest⟩ := List.forall_mem_cons.mp h
    rw [List.sum_cons, List.length_cons, Nat.cast_add, Nat.cast_one]
    calc |v + xs.sum| ≤ |v| + |xs.sum| := abs_add_le v xs.sum
      _ ≤ bound + xs.length * bound := add_le_add hv (ih hrest)
      _ = (xs.length + 1) * bound := by ring

theorem abs_mean_le (hne : xs ≠ []) (h : ∀ v ∈ xs, |v| ≤ bound) : |mean xs| ≤ bound := by
  have hlen : (0 : K) < xs.length := by
    exact_mod_cast List.length_pos_iff.mpr hne
  rw [mean, abs_div, abs_of_pos hlen, div_le_iff₀ hlen, mul_comm]
  exact abs_sum_le h

theorem variance_le (hlen : 2 ≤ xs.length) (h : ∀ v ∈ xs, |v| ≤ bound) :
    variance xs ≤ 2 * bound ^ 2 := by
  have hcast : (2 : K) ≤ xs.length := by
    exact_mod_cast hlen
  have hpos : (0 : K) < xs.length - 1 := by linarith
  rw [variance, div_le_iff₀ hpos]
  nlinarith [squares_le h, sq_nonneg bound]

/-- No value lies further from the mean than the others' number lets it. -/
theorem length_mul_sq_sub_mean_le (h : v ∈ xs) :
    xs.length * (v - mean xs) ^ 2 ≤ (xs.length - 1) * squares xs := by
  obtain ⟨before, after, rfl⟩ := List.append_of_mem h
  have hperm : (before ++ v :: after).Perm (v :: (before ++ after)) := List.perm_middle
  rw [mean_perm hperm, squares_perm hperm, hperm.length_eq, sub_mean_cons, squares_cons]
  set rest := before ++ after
  have hnonneg : (0 : K) ≤ rest.length := Nat.cast_nonneg _
  have hsucc : (rest.length : K) + 1 ≠ 0 := by positivity
  have hshare : ((v :: rest).length : K) *
      (rest.length / (rest.length + 1) * (v - mean rest)) ^ 2 =
        ((v :: rest).length - 1) * (rest.length / (rest.length + 1) * (v - mean rest) ^ 2) := by
    rw [List.length_cons, Nat.cast_add, Nat.cast_one]
    field_simp
    ring
  have hothers : 0 ≤ ((v :: rest).length - 1 : K) * squares rest := by
    rw [List.length_cons, Nat.cast_add, Nat.cast_one, add_sub_cancel_right]
    exact mul_nonneg hnonneg (squares_nonneg rest)
  rw [hshare, mul_add]
  linarith

theorem eq_mean_of_variance_eq_zero (h : v ∈ xs) (hzero : variance xs = 0) : v = mean xs := by
  have hlen : (0 : K) < xs.length := by
    exact_mod_cast List.length_pos_of_mem h
  have hsquares : (xs.length - 1 : K) * squares xs = 0 := by
    rcases div_eq_zero_iff.mp hzero with hsq | hone
    · rw [hsq, mul_zero]
    · rw [hone, zero_mul]
  have hle := length_mul_sq_sub_mean_le h
  rw [hsquares] at hle
  have hsq : (v - mean xs) ^ 2 = 0 :=
    le_antisymm (nonpos_of_mul_nonpos_right hle hlen) (sq_nonneg _)
  exact sub_eq_zero.mp (pow_eq_zero_iff two_ne_zero |>.mp hsq)

theorem squares_ne_zero {y : K} (hx : x ∈ xs) (hy : y ∈ xs) (hne : x ≠ y) : squares xs ≠ 0 := by
  intro hzero
  have hvariance : variance xs = 0 := by rw [variance, hzero, zero_div]
  exact hne ((eq_mean_of_variance_eq_zero hx hvariance).trans
    (eq_mean_of_variance_eq_zero hy hvariance).symm)

/-- The limit that a value and its companions set, told by the companions alone. -/
theorem sq_sub_mean_le_iff (hne : rest ≠ []) :
    (x - mean (x :: rest)) ^ 2 ≤ c * variance (x :: rest) ↔
      rest.length * (x - mean rest) ^ 2 * (rest.length ^ 2 - c * (rest.length + 1)) ≤
        c * (rest.length + 1) ^ 2 * squares rest := by
  have hlen : (0 : K) < rest.length := by
    exact_mod_cast List.length_pos_iff.mpr hne
  have hsucc : (0 : K) < rest.length + 1 := by linarith
  rw [variance, squares_cons, sub_mean_cons, List.length_cons, Nat.cast_add, Nat.cast_one,
    add_sub_cancel_right]
  set m : K := (rest.length : K)
  have hscale : 0 < m * (m + 1) ^ 2 := by positivity
  have hleft : m * (m + 1) ^ 2 * (m / (m + 1) * (x - mean rest)) ^ 2 =
      m * (x - mean rest) ^ 2 * m ^ 2 := by
    field_simp
  have hright : m * (m + 1) ^ 2 * (c * ((squares rest + m / (m + 1) * (x - mean rest) ^ 2) / m)) =
      c * (m + 1) ^ 2 * squares rest + m * (x - mean rest) ^ 2 * (c * (m + 1)) := by
    field_simp
  rw [← mul_le_mul_iff_right₀ hscale, hleft, hright, mul_sub]
  exact sub_le_iff_le_add.symm

end Bounds

end MonitoringHub.Lib.SampleMoments
