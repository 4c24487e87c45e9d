import Mathlib.Algebra.Order.Group.Abs
import MonitoringHub.Lib.SampleMoments

/-! The straight line with the least squares through points over an ordered field. Points that lie
on a line give back its slope, whatever the distances between them; the steps between their values
are the distances, scaled. -/

namespace MonitoringHub.Lib.LineFit
open SampleMoments
variable {K : Type*} [Field K] [LinearOrder K] [IsStrictOrderedRing K]

/-- The products of the deviations from the two means, summed. -/
def products (ps : List (K × K)) : K :=
  (ps.map fun p => (p.1 - mean (ps.map Prod.fst)) * (p.2 - mean (ps.map Prod.snd))).sum

def slope (ps : List (K × K)) : K := products ps / squares (ps.map Prod.fst)

def intercept (ps : List (K × K)) : K :=
  mean (ps.map Prod.snd) - slope ps * mean (ps.map Prod.fst)

/-- The squared distances of the points from the line `a + b * x`, summed. -/
def residuals (a b : K) (ps : List (K × K)) : K := (ps.map fun p => (p.2 - (a + b * p.1)) ^ 2).sum

section Line
variable {ps : List (K × K)} {a b : K}

omit [LinearOrder K] [IsStrictOrderedRing K] in
theorem sum_line (h : ∀ p ∈ ps, p.2 = a + b * p.1) :
    (ps.map Prod.snd).sum = ps.length * a + b * (ps.map Prod.fst).sum := by
  induction ps with
  | nil => simp
  | cons p ps ih =>
    obtain ⟨hp, hps⟩ := List.forall_mem_cons.mp h
    simp only [List.map_cons, List.sum_cons, List.length_cons, Nat.cast_add, Nat.cast_one, hp,
      ih hps]
    ring

theorem mean_line (hne : ps ≠ []) (h : ∀ p ∈ ps, p.2 = a + b * p.1) :
    mean (ps.map Prod.snd) = a + b * mean (ps.map Prod.fst) := by
  have hlen : (ps.length : K) ≠ 0 := by simpa using hne
  rw [mean, mean, sum_line h, List.length_map, List.length_map]
  field_simp

theorem products_line (hne : ps ≠ []) (h : ∀ p ∈ ps, p.2 = a + b * p.1) :
    products ps = b * squares (ps.map Prod.fst) := by
  rw [products, squares, List.map_map, ← List.sum_map_mul_left]
  refine congrArg List.sum (List.map_congr_left fun p hp => ?_)
  rw [mean_line hne h, h p hp]
  simp only [Function.comp_apply]
  ring

theorem slope_line (h : ∀ p ∈ ps, p.2 = a + b * p.1) (hspread : squares (ps.map Prod.fst) ≠ 0) :
    slope ps = b := by
  have hne : ps ≠ [] := by
    rintro rfl
    exact hspread (by simp [squares])
  rw [slope, products_line hne h, mul_div_cancel_right₀ _ hspread]

end Line

section Steps
variable {a b : K} {xs : List K}

/-- The differences of neighbours. -/
def diff (xs : List K) : List K := List.zipWith (· - ·) xs.tail xs

/-- The distance of the largest value from the smallest. -/
def span (xs : List K) : K := xs.max?.getD 0 - xs.min?.getD 0

omit [LinearOrder K] [IsStrictOrderedRing K] in
@[simp] theorem length_diff (xs : List K) : (diff xs).length = xs.length - 1 := by
  rw [diff, List.length_zipWith, List.length_tail]
  omega

omit [LinearOrder K] [IsStrictOrderedRing K] in
theorem diff_line (a b : K) (xs : List K) :
    diff (xs.map fun x => a + b * x) = (diff xs).map (b * ·) := by
  rw [diff, diff, ← List.map_tail, List.zipWith_map, List.map_zipWith]
  refine congrArg (fun f => List.zipWith f xs.tail xs) ?_
  funext x y
  ring

theorem diff_pos (h : xs.Pairwise (· < ·)) {d : K} (hd : d ∈ diff xs) : 0 < d := by
  induction xs with
  | nil => simp [diff] at hd
  | cons x xs ih =>
    cases xs with
    | nil => simp [diff] at hd
    | cons y xs =>
      obtain ⟨hx, hxs⟩ := List.pairwise_cons.mp h
      rcases List.mem_cons.mp hd with rfl | hd
      · exact sub_pos.mpr (hx y List.mem_cons_self)
      · exact ih hxs hd

theorem span_line (a b : K) (xs : List K) : span (xs.map fun x => a + b * x) = |b| * span xs := by
  cases hmax : xs.max? with
  | none => simp [span, List.max?_eq_none_iff.mp hmax]
  | some top =>
    obtain ⟨bottom, hmin⟩ : ∃ bottom, xs.min? = some bottom :=
      Option.isSome_iff_exists.mp (List.isSome_min?_of_mem (List.max?_eq_some_iff.mp hmax).1)
    obtain ⟨htop, hbelow⟩ := List.max?_eq_some_iff.mp hmax
    obtain ⟨hbottom, habove⟩ := List.min?_eq_some_iff.mp hmin
    rcases le_total 0 b with hb | hb
    · have hmax' : (xs.map fun x => a + b * x).max? = some (a + b * top) :=
        List.max?_eq_some_iff.mpr ⟨List.mem_map_of_mem htop, List.forall_mem_map.mpr fun x hx =>
          add_le_add_right (mul_le_mul_of_nonneg_left (hbelow x hx) hb) a⟩
      have hmin' : (xs.map fun x => a + b * x).min? = some (a + b * bottom) :=
        List.min?_eq_some_iff.mpr ⟨List.mem_map_of_mem hbottom, List.forall_mem_map.mpr fun x hx =>
          add_le_add_right (mul_le_mul_of_nonneg_left (habove x hx) hb) a⟩
      simp only [span, hmax, hmin, hmax', hmin', Option.getD_some, abs_of_nonneg hb]
      ring
    · have hmax' : (xs.map fun x => a + b * x).max? = some (a + b * bottom) :=
        List.max?_eq_some_iff.mpr ⟨List.mem_map_of_mem hbottom, List.forall_mem_map.mpr fun x hx =>
          add_le_add_right (mul_le_mul_of_nonpos_left (habove x hx) hb) a⟩
      have hmin' : (xs.map fun x => a + b * x).min? = some (a + b * top) :=
        List.min?_eq_some_iff.mpr ⟨List.mem_map_of_mem htop, List.forall_mem_map.mpr fun x hx =>
          add_le_add_right (mul_le_mul_of_nonpos_left (hbelow x hx) hb) a⟩
      simp only [span, hmax, hmin, hmax', hmin', Option.getD_some, abs_of_nonpos hb]
      ring

theorem span_nonneg (xs : List K) : 0 ≤ span xs := by
  cases hmax : xs.max? with
  | none => simp [span, List.max?_eq_none_iff.mp hmax]
  | some top =>
    have htop := (List.max?_eq_some_iff.mp hmax).1
    obtain ⟨bottom, hmin⟩ := Option.isSome_iff_exists.mp (List.isSome_min?_of_mem htop)
    simpa [span, hmax, hmin] using (List.min?_eq_some_iff.mp hmin).2 top htop

theorem span_pos {x y : K} (hx : x ∈ xs) (hy : y ∈ xs) (h : x < y) : 0 < span xs := by
  obtain ⟨top, hmax⟩ := Option.isSome_iff_exists.mp (List.isSome_max?_of_mem hx)
  obtain ⟨bottom, hmin⟩ := Option.isSome_iff_exists.mp (List.isSome_min?_of_mem hx)
  have hlow := (List.min?_eq_some_iff.mp hmin).2 x hx
  have hhigh := (List.max?_eq_some_iff.mp hmax).2 y hy
  simpa [span, hmax, hmin] using hlow.trans_lt (h.trans_le hhigh)

end Steps

section Least
variable (ps : List (K × K)) (a b : K)

omit [LinearOrder K] [IsStrictOrderedRing K] in
theorem residuals_eq : residuals a b ps =
    (ps.map fun p => p.2 ^ 2).sum - 2 * a * (ps.map Prod.snd).sum -
      2 * b * (ps.map fun p => p.1 * p.2).sum + ps.length * a ^ 2 +
      2 * a * b * (ps.map Prod.fst).sum + b ^ 2 * (ps.map fun p => p.1 ^ 2).sum := by
  induction ps with
  | nil => simp [residuals]
  | cons p ps ih =>
    rw [residuals] at ih
    simp only [residuals, List.map_cons, List.sum_cons, List.length_cons, Nat.cast_add,
      Nat.cast_one, ih]
    ring

omit [LinearOrder K] [IsStrictOrderedRing K] in
theorem sum_products (c d : K) : (ps.map fun p => (p.1 - c) * (p.2 - d)).sum =
    (ps.map fun p => p.1 * p.2).sum - d * (ps.map Prod.fst).sum - c * (ps.map Prod.snd).sum +
      ps.length * (c * d) := by
  induction ps with
  | nil => simp
  | cons p ps ih =>
    simp only [List.map_cons, List.sum_cons, List.length_cons, Nat.cast_add, Nat.cast_one, ih]
    ring

theorem products_eq : products ps = (ps.map fun p => p.1 * p.2).sum -
    (ps.map Prod.fst).sum * (ps.map Prod.snd).sum / ps.length := by
  rw [products, sum_products, mean, mean, List.length_map, List.length_map]
  by_cases hne : ps = []
  · simp [hne]
  · have hlen : (ps.length : K) ≠ 0 := by simpa using hne
    field_simp
    ring

/-- Where the points do not spread, neither do the products. -/
theorem squares_mul_slope : squares (ps.map Prod.fst) * slope ps = products ps := by
  by_cases hspread : squares (ps.map Prod.fst) = 0
  · have hterms : ∀ p ∈ ps, p.1 = mean (ps.map Prod.fst) := fun p hp =>
      eq_mean_of_variance_eq_zero (List.mem_map_of_mem hp) (by rw [variance, hspread, zero_div])
    rw [hspread, zero_mul, products]
    refine (List.sum_eq_zero fun t ht => ?_).symm
    obtain ⟨p, hp, rfl⟩ := List.mem_map.mp ht
    rw [hterms p hp, sub_self, zero_mul]
  · rw [slope, mul_div_cancel₀ _ hspread]

theorem residuals_split (hne : ps ≠ []) : residuals a b ps =
    squares (ps.map Prod.snd) - 2 * b * products ps + b ^ 2 * squares (ps.map Prod.fst) +
      ps.length * (a + b * mean (ps.map Prod.fst) - mean (ps.map Prod.snd)) ^ 2 := by
  have hlen : (ps.length : K) ≠ 0 := by simpa using hne
  rw [residuals_eq, squares_eq, squares_eq, products_eq, mean, mean, List.map_map, List.map_map,
    List.length_map, List.length_map]
  simp only [Function.comp_def]
  field_simp
  ring

/-- No line has less. -/
theorem residuals_le : residuals (intercept ps) (slope ps) ps ≤ residuals a b ps := by
  by_cases hne : ps = []
  · simp [hne, residuals]
  have hpart : residuals a b ps - residuals (intercept ps) (slope ps) ps =
      squares (ps.map Prod.fst) * (b - slope ps) ^ 2 +
        ps.length * (a + b * mean (ps.map Prod.fst) - mean (ps.map Prod.snd)) ^ 2 := by
    rw [residuals_split ps a b hne, residuals_split ps _ _ hne, intercept, ← squares_mul_slope ps]
    ring
  have hsquares : 0 ≤ squares (ps.map Prod.fst) := squares_nonneg _
  refine sub_nonneg.mp (hpart ▸ ?_)
  positivity

end Least

end MonitoringHub.Lib.LineFit
