import Mathlib.Algebra.BigOperators.Ring.Finset
import Mathlib.Algebra.Order.BigOperators.Group.Finset
import Mathlib.Data.Finset.Card

/-! How often a point is covered by a list of finite sets. The sizes of the sets add up to the
covering numbers of all points, so they add up to the size of the union exactly where no point is
covered twice. -/

namespace MonitoringHub.Lib.Multiplicity
variable {α : Type*} [DecidableEq α]

def multiplicity (sets : List (Finset α)) (x : α) : ℕ := sets.countP fun s => x ∈ s

def union (sets : List (Finset α)) : Finset α := sets.foldr (· ∪ ·) ∅

theorem mem_union {sets : List (Finset α)} {x : α} : x ∈ union sets ↔ ∃ s ∈ sets, x ∈ s := by
  induction sets with
  | nil => simp [union]
  | cons s sets ih =>
    rw [union] at ih ⊢
    rw [List.foldr_cons, Finset.mem_union, ih, List.exists_mem_cons_iff]

theorem union_subset {sets : List (Finset α)} {whole : Finset α} (h : ∀ s ∈ sets, s ⊆ whole) :
    union sets ⊆ whole := by
  intro x hx
  obtain ⟨s, hs, hxs⟩ := mem_union.mp hx
  exact h s hs hxs

/-- A point is covered at least once exactly if it is in the union. -/
theorem multiplicity_pos {sets : List (Finset α)} {x : α} :
    0 < multiplicity sets x ↔ x ∈ union sets := by
  rw [multiplicity, List.countP_pos_iff, mem_union]
  simp only [decide_eq_true_eq]

/-- The sizes count every point as often as it is covered. -/
theorem sum_card {sets : List (Finset α)} {whole : Finset α} (h : ∀ s ∈ sets, s ⊆ whole) :
    (sets.map Finset.card).sum = ∑ x ∈ whole, multiplicity sets x := by
  induction sets with
  | nil => simp [multiplicity]
  | cons s sets ih =>
    obtain ⟨hs, hsets⟩ := List.forall_mem_cons.mp h
    have hcard : s.card = ∑ x ∈ whole, if x ∈ s then 1 else 0 := by
      rw [Finset.sum_boole, Finset.filter_mem_eq_inter, Finset.inter_eq_right.mpr hs]
      rfl
    rw [List.map_cons, List.sum_cons, ih hsets, hcard, ← Finset.sum_add_distrib]
    refine Finset.sum_congr rfl fun x _ => ?_
    rw [multiplicity, multiplicity, List.countP_cons, Nat.add_comm]
    simp only [decide_eq_true_eq]

theorem subset_union {sets : List (Finset α)} : ∀ s ∈ sets, s ⊆ union sets :=
  fun s hs _ hx => mem_union.mpr ⟨s, hs, hx⟩

theorem card_union_le (sets : List (Finset α)) :
    (union sets).card ≤ (sets.map Finset.card).sum := by
  rw [sum_card subset_union, Finset.card_eq_sum_ones]
  exact Finset.sum_le_sum fun x hx => multiplicity_pos.mpr hx

/-- The sizes add up to the size of the union exactly if no point is covered twice. -/
theorem card_union_eq_iff {sets : List (Finset α)} :
    (union sets).card = (sets.map Finset.card).sum ↔ ∀ x, multiplicity sets x ≤ 1 := by
  have hpos : ∀ x ∈ union sets, 1 ≤ multiplicity sets x := fun x hx => multiplicity_pos.mpr hx
  rw [sum_card subset_union, Finset.card_eq_sum_ones, Finset.sum_eq_sum_iff_of_le hpos]
  constructor
  · intro h x
    by_cases hx : x ∈ union sets
    · exact (h x hx).ge
    · exact (Nat.eq_zero_of_not_pos fun hx' => hx (multiplicity_pos.mp hx')).le.trans zero_le_one
  · exact fun h x hx => le_antisymm (hpos x hx) (h x)

end MonitoringHub.Lib.Multiplicity
