import Mathlib.Data.List.Chain
import Mathlib.Data.Finset.Card
import Mathlib.Algebra.Order.BigOperators.Group.Finset

/-! Counters gated by a clock: a count advances only when at least `gap` has
passed since the last one counted. The counted times, newest first, are then
`gap` apart; how long a count took and how many counts fit into a window follow
from that alone. -/

namespace MonitoringHub.Lib

def Spaced (gap : ℕ) (times : List ℕ) : Prop :=
  times.IsChain fun later earlier => earlier + gap ≤ later

def Within (limit : ℕ) (times : List ℕ) : Prop :=
  times.IsChain fun later earlier => later ≤ earlier + limit

instance (gap : ℕ) (times : List ℕ) : Decidable (Spaced gap times) :=
  inferInstanceAs (Decidable (times.IsChain _))

instance (limit : ℕ) (times : List ℕ) : Decidable (Within limit times) :=
  inferInstanceAs (Decidable (times.IsChain _))

theorem Spaced.duration {gap t last : ℕ} {times : List ℕ}
    (h : Spaced gap (t :: (times ++ [last]))) : last + gap * (times.length + 1) ≤ t := by
  induction times generalizing t with
  | nil =>
    have := (List.isChain_cons_cons.mp h).1
    simpa using this
  | cons s times ih =>
    obtain ⟨hst, hrest⟩ := List.isChain_cons_cons.mp h
    have := ih hrest
    rw [List.length_cons, Nat.mul_add_one]
    omega

/-- `count` spaced times after `last` take `count` gaps. -/
theorem Spaced.reached {gap count now last : ℕ} {times : List ℕ} (h : Spaced gap (times ++ [last]))
    (hcount : count ≤ times.length) (hpos : 0 < count) (hnow : ∀ t ∈ times, t ≤ now) :
    last + count * gap ≤ now := by
  cases times with
  | nil =>
    rw [List.length_nil] at hcount
    omega
  | cons t times =>
    have hdur := h.duration
    have ht := hnow t List.mem_cons_self
    have hmul : count * gap ≤ gap * (times.length + 1) := by
      rw [Nat.mul_comm]
      exact Nat.mul_le_mul_left gap hcount
    omega

/-- The count of a gated counter, its clock and the times it stands for. -/
structure Recorded (gap : ℕ) (times : List ℕ) (count clock : ℕ) : Prop where
  length_eq : times.length = count
  head_eq : times.head? = some clock
  spaced : Spaced gap times

namespace Recorded
variable {gap count clock now : ℕ} {times : List ℕ}

theorem start (gap t : ℕ) : Recorded gap [t] 1 t :=
  ⟨rfl, rfl, List.isChain_singleton t⟩

theorem counted (h : Recorded gap times count clock) (hdue : clock + gap ≤ now) :
    Recorded gap (now :: times) (count + 1) now := by
  refine ⟨by rw [List.length_cons, h.length_eq], rfl, ?_⟩
  cases times with
  | nil => exact List.isChain_singleton now
  | cons t times =>
    obtain rfl : t = clock := by simpa using h.head_eq
    exact List.isChain_cons_cons.mpr ⟨hdue, h.spaced⟩

end Recorded

theorem Within.cons {limit t clock : ℕ} {times : List ℕ} (h : Within limit times)
    (hhead : times.head? = some clock) (ht : t ≤ clock + limit) : Within limit (t :: times) := by
  cases times with
  | nil => exact List.isChain_singleton t
  | cons u times =>
    obtain rfl : u = clock := by simpa using hhead
    exact List.isChain_cons_cons.mpr ⟨ht, h⟩

theorem Spaced.cons {gap t : ℕ} {times : List ℕ} (h : Spaced gap times)
    (ht : ∀ u ∈ times, u + gap ≤ t) : Spaced gap (t :: times) := by
  cases times with
  | nil => exact List.isChain_singleton t
  | cons u times => exact List.isChain_cons_cons.mpr ⟨ht u List.mem_cons_self, h⟩

theorem Spaced.sublist {gap : ℕ} {xs ys : List ℕ} (h : Spaced gap ys) (hs : xs.Sublist ys) :
    Spaced gap xs := by
  have htrans : IsTrans ℕ fun later earlier => earlier + gap ≤ later :=
    ⟨fun _ _ _ hab hbc => by omega⟩
  exact (List.isChain_iff_pairwise.mpr ((List.isChain_iff_pairwise.mp h).sublist hs))

/-- Spaced times inside a window: at most one for every `gap` begun in it. -/
theorem Spaced.length_le_of_window {gap lo width : ℕ} {times : List ℕ} (h : Spaced gap times)
    (hwidth : 0 < width) (hin : ∀ t ∈ times, lo ≤ t ∧ t < lo + width) :
    gap * (times.length - 1) < width := by
  cases times with
  | nil => simpa using hwidth
  | cons t times =>
    rcases List.eq_nil_or_concat times with rfl | ⟨front, last, rfl⟩
    · simpa using hwidth
    · have hdur := Spaced.duration (by simpa using h : Spaced gap (t :: (front ++ [last])))
      have hlast := (hin last (by simp)).1
      have ht := (hin t (by simp)).2
      simp only [List.length_cons, List.concat_eq_append, List.length_append,
        List.length_nil, Nat.zero_add, Nat.add_sub_cancel]
      omega

end MonitoringHub.Lib
