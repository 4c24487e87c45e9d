import Mathlib.Algebra.Order.Field.Basic
import Mathlib.Algebra.Order.Group.Abs
import Mathlib.Data.List.Sort
import Mathlib.Tactic.Ring

/-! The median of a list over an ordered field, and the median distance from it. Scaling the list
scales both; a negative factor turns the order round and leaves the middle where it is. -/

namespace MonitoringHub.Lib.Median
variable {K : Type*} [Field K] [LinearOrder K] [IsStrictOrderedRing K]

/-- The middle value, or the mean of the two middle ones. -/
def median (xs : List K) : K :=
  let sorted := xs.insertionSort (· ≤ ·)
  (sorted.getD ((xs.length - 1) / 2) 0 + sorted.getD (xs.length / 2) 0) / 2

/-- The median absolute deviation. -/
def deviation (xs : List K) : K := median (xs.map fun v => |v - median xs|)

section Scaling
variable {c : K} {xs : List K}

theorem sorted_map_of_nonneg (hc : 0 ≤ c) :
    (xs.map (c * ·)).insertionSort (· ≤ ·) = (xs.insertionSort (· ≤ ·)).map (c * ·) := by
  have hsorted : ((xs.insertionSort (· ≤ ·)).map (c * ·)).Pairwise (· ≤ ·) :=
    (List.pairwise_insertionSort (· ≤ ·) xs).map _ fun _ _ h => mul_le_mul_of_nonneg_left h hc
  refine List.Perm.eq_of_pairwise' (List.pairwise_insertionSort (· ≤ ·) _) hsorted ?_
  exact (List.perm_insertionSort _ _).trans ((List.perm_insertionSort _ xs).map _).symm

theorem sorted_map_of_nonpos (hc : c ≤ 0) :
    (xs.map (c * ·)).insertionSort (· ≤ ·) = ((xs.insertionSort (· ≤ ·)).map (c * ·)).reverse := by
  have hsorted : ((xs.insertionSort (· ≤ ·)).map (c * ·)).reverse.Pairwise (· ≤ ·) := by
    rw [List.pairwise_reverse]
    exact (List.pairwise_insertionSort (· ≤ ·) xs).map _ fun _ _ h =>
      mul_le_mul_of_nonpos_left h hc
  refine List.Perm.eq_of_pairwise' (List.pairwise_insertionSort (· ≤ ·) _) hsorted ?_
  exact (List.perm_insertionSort _ _).trans
    (((List.perm_insertionSort _ xs).map _).symm.trans (List.reverse_perm _).symm)

omit [LinearOrder K] [IsStrictOrderedRing K] in
theorem getD_map_mul (i : ℕ) : (xs.map (c * ·)).getD i 0 = c * xs.getD i 0 := by
  rw [List.getD_eq_getElem?_getD, List.getD_eq_getElem?_getD, List.getElem?_map]
  cases xs[i]? <;> simp

theorem median_map_mul (c : K) (xs : List K) : median (xs.map (c * ·)) = c * median xs := by
  rcases le_total 0 c with hc | hc
  · simp only [median, sorted_map_of_nonneg hc, getD_map_mul, List.length_map]
    ring
  · by_cases hxs : xs = []
    · simp [hxs, median]
    have hpos := List.length_pos_iff.mpr hxs
    have hlen : ((xs.insertionSort (· ≤ ·)).map (c * ·)).length = xs.length := by
      rw [List.length_map, List.length_insertionSort]
    have hback : ∀ i < xs.length, (((xs.insertionSort (· ≤ ·)).map (c * ·)).reverse).getD i 0 =
        c * (xs.insertionSort (· ≤ ·)).getD (xs.length - 1 - i) 0 := by
      intro i hi
      rw [← getD_map_mul, List.getD_eq_getElem?_getD, List.getD_eq_getElem?_getD,
        List.getElem?_reverse (hlen.symm ▸ hi), hlen]
    have hlow : xs.length - 1 - (xs.length - 1) / 2 = xs.length / 2 := by omega
    have hhigh : xs.length - 1 - xs.length / 2 = (xs.length - 1) / 2 := by omega
    simp only [median, sorted_map_of_nonpos hc, List.length_map]
    rw [hback _ (by omega), hback _ (by omega), hlow, hhigh]
    ring

theorem deviation_map_mul (c : K) (xs : List K) :
    deviation (xs.map (c * ·)) = |c| * deviation xs := by
  have hmap : (xs.map (c * ·)).map (fun v => |v - median (xs.map (c * ·))|) =
      (xs.map fun v => |v - median xs|).map (|c| * ·) := by
    rw [List.map_map, List.map_map, median_map_mul]
    refine List.map_congr_left fun v _ => ?_
    simp only [Function.comp_apply]
    rw [← mul_sub, abs_mul]
  rw [deviation, hmap, median_map_mul]
  rfl

end Scaling

end MonitoringHub.Lib.Median
