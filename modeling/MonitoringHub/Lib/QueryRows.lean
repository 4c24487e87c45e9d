import Mathlib.Data.List.Basic
import Mathlib.Data.List.Pairwise
import Mathlib.Data.List.Range
import MonitoringHub.Lib.StepRun

/-! Rows of a database query where the order is the server's: one of several rows, distinct
rows under a collation, a recursive query of bounded depth, and the slices a long list of
ids is sent in. -/

namespace MonitoringHub.Lib
variable {α β : Type*}

/-- `LIMIT 1` without an order: any row, `choice` says which. -/
def limitOne (rows : List α) (choice : ℕ) : Option α := rows[choice % rows.length]?

theorem limitOne_mem {rows : List α} {choice : ℕ} {a : α} (h : limitOne rows choice = some a) :
    a ∈ rows :=
  List.mem_of_getElem? h

theorem limitOne_none {rows : List α} {choice : ℕ} (h : limitOne rows choice = none) :
    rows = [] := by
  by_contra hne
  have hlen := List.getElem?_eq_none_iff.mp h
  exact absurd (Nat.mod_lt choice (List.length_pos_of_ne_nil hne)) (Nat.not_lt_of_le hlen)

section Distinct
variable [DecidableEq β] (f : α → β)

/-- `SELECT DISTINCT` where rows compare by `f`: one row of each class. -/
def distinctOn (rows : List α) : List α := rows.pwFilter fun a b => f a ≠ f b

theorem mem_of_distinctOn {rows : List α} {a : α} (h : a ∈ distinctOn f rows) : a ∈ rows :=
  (List.pwFilter_sublist rows).subset h

theorem exists_distinctOn {rows : List α} {a : α} (h : a ∈ rows) :
    ∃ b ∈ distinctOn f rows, f a = f b := by
  by_contra hnone
  simp only [not_exists, not_and] at hnone
  have hall := (List.forall_mem_pwFilter (R := fun a b => f a ≠ f b)
    (fun {x y z} hxz => Decidable.not_and_iff_or_not.mp fun ⟨hxy, hyz⟩ => hxz (hxy.trans hyz))
    a rows).mp hnone
  exact hall a h rfl

end Distinct

section Recursive
variable {ε : Type*} {next : α → List α} {start : List α} {R : StepRel α ε} {a : α} {n : ℕ}

def level (next : α → List α) (start : List α) : ℕ → List α
  | 0 => start
  | n + 1 => (level next start n).flatMap next

/-- The rows of a recursive query with `UNION ALL`, down to a depth. -/
def recursiveRows (next : α → List α) (start : List α) (depth : ℕ) : List α :=
  (List.range (depth + 1)).flatMap (level next start)

theorem mem_level (hR : ∀ a b, b ∈ next a ↔ ∃ e, R a e b) :
    a ∈ level next start n ↔ ∃ s ∈ start, ∃ path, Steps R s path a ∧ path.length = n := by
  induction n generalizing a with
  | zero =>
    constructor
    · exact fun h => ⟨a, h, [], .refl, rfl⟩
    · rintro ⟨s, hs, path, run, hlen⟩
      obtain rfl := List.length_eq_zero_iff.mp hlen
      cases run
      exact hs
  | succ n ih =>
    simp only [level, List.mem_flatMap, ih, hR]
    constructor
    · rintro ⟨b, ⟨s, hs, path, run, rfl⟩, e, he⟩
      exact ⟨s, hs, e :: path, run.snoc he, rfl⟩
    · rintro ⟨s, hs, path, run, hlen⟩
      cases run with
      | refl => cases hlen
      | snoc run he => exact ⟨_, ⟨s, hs, _, run, Nat.succ.inj hlen⟩, _, he⟩

/-- A recursive query finds what a walk of bounded length reaches. -/
theorem mem_recursiveRows (hR : ∀ a b, b ∈ next a ↔ ∃ e, R a e b) :
    a ∈ recursiveRows next start n ↔
      ∃ s ∈ start, ∃ path, Steps R s path a ∧ path.length ≤ n := by
  simp only [recursiveRows, List.mem_flatMap, List.mem_range, mem_level hR]
  constructor
  · rintro ⟨k, hk, s, hs, path, run, rfl⟩
    exact ⟨s, hs, path, run, Nat.le_of_lt_succ hk⟩
  · rintro ⟨s, hs, path, run, hlen⟩
    exact ⟨path.length, Nat.lt_succ_of_le hlen, s, hs, path, run, rfl⟩

end Recursive

/-- The slices of `range(0, len, size)`. -/
def slices (size : ℕ) (rows : List α) : List (List α) :=
  (List.range' 0 ((rows.length + (size - 1)) / size) size).map fun i => (rows.drop i).take size

theorem flatten_slices {size : ℕ} (hsize : 0 < size) (rows : List α) :
    (slices size rows).flatten = rows := by
  have hcut : ∀ k, ((List.range' 0 k size).map fun i => (rows.drop i).take size).flatten =
      rows.take (size * k) := by
    intro k
    induction k with
    | zero => simp
    | succ k ih =>
      rw [List.range'_concat, List.map_append, List.flatten_append, ih, Nat.mul_succ, List.take_add]
      simp
  rw [slices, hcut]
  refine List.take_of_length_le ?_
  have hdiv := Nat.div_add_mod (rows.length + (size - 1)) size
  have hmod := Nat.mod_lt (rows.length + (size - 1)) hsize
  omega

theorem length_slice {size : ℕ} {rows slice : List α} (h : slice ∈ slices size rows) :
    0 < slice.length ∧ slice.length ≤ size := by
  obtain ⟨i, hi, rfl⟩ := List.mem_map.mp h
  obtain ⟨k, hk, rfl⟩ := List.mem_range'.mp hi
  have hlt : size * (k + 1) ≤ rows.length + (size - 1) :=
    (Nat.mul_le_mul_left size hk).trans (Nat.mul_div_le _ _)
  rw [List.length_take, List.length_drop]
  rw [Nat.mul_succ] at hlt
  have hsize : 0 < size := Nat.pos_of_ne_zero fun h0 => by simp [h0] at hk
  omega

theorem mem_slices {size : ℕ} (hsize : 0 < size) {rows : List α} {a : α} :
    (∃ slice ∈ slices size rows, a ∈ slice) ↔ a ∈ rows := by
  constructor
  · rintro ⟨slice, hslice, ha⟩
    obtain ⟨i, -, rfl⟩ := List.mem_map.mp hslice
    exact List.mem_of_mem_drop (List.mem_of_mem_take ha)
  · intro ha
    obtain ⟨k, hk, rfl⟩ := List.mem_iff_getElem.mp ha
    refine ⟨_, List.mem_map.mpr ⟨size * (k / size), ?_, rfl⟩, ?_⟩
    · have hcount : k / size + 1 ≤ (rows.length + (size - 1)) / size := by
        rw [← Nat.add_div_right k hsize]
        exact Nat.div_le_div_right (by omega)
      exact List.mem_range'.mpr ⟨k / size, hcount, by omega⟩
    · have hsplit : size * (k / size) + k % size = k := Nat.div_add_mod k size
      have hat : ((rows.drop (size * (k / size))).take size)[k % size]? = some rows[k] := by
        rw [List.getElem?_take_of_lt (Nat.mod_lt k hsize), List.getElem?_drop, hsplit,
          List.getElem?_eq_getElem hk]
      exact List.mem_of_getElem? hat

end MonitoringHub.Lib
