import Mathlib.Algebra.BigOperators.Group.List.Basic
import MonitoringHub.Lib.GroupTally

/-! Ledgers: lists of amounts booked under keys. What is booked under a key is the sum of its
entries, whatever their order, and adding to the entry of a key is booking once more. -/

namespace MonitoringHub.Lib.Ledger
open GroupTally

variable {κ M : Type*} [DecidableEq κ] [AddCommMonoid M]

def amount (k : κ) (entries : List (κ × M)) : M :=
  ((entries.filter fun e => e.1 = k).map Prod.snd).sum

@[simp] theorem amount_nil (k : κ) : amount k ([] : List (κ × M)) = 0 := rfl

theorem amount_cons (k : κ) (e : κ × M) (entries : List (κ × M)) :
    amount k (e :: entries) = (if e.1 = k then e.2 else 0) + amount k entries := by
  rw [amount, List.filter_cons]
  by_cases hk : e.1 = k
  · simp [amount, hk]
  · simp [amount, hk]

@[simp] theorem amount_append (k : κ) (entries entries' : List (κ × M)) :
    amount k (entries ++ entries') = amount k entries + amount k entries' := by
  simp [amount, List.filter_append]

theorem amount_perm {entries entries' : List (κ × M)} (h : entries.Perm entries') (k : κ) :
    amount k entries = amount k entries' :=
  ((h.filter _).map Prod.snd).sum_eq

/-- Adding to the entry of a key books the amount once. -/
theorem amount_upsert (k k' : κ) (w : M) (entries : List (κ × M)) :
    amount k (upsert k' 0 (· + w) entries) = amount k entries + if k' = k then w else 0 := by
  induction entries with
  | nil => simp [upsert, amount_cons]
  | cons e entries ih =>
    obtain ⟨k₀, m⟩ := e
    rw [upsert]
    by_cases h₀ : k₀ = k'
    · subst h₀
      rw [if_pos rfl, amount_cons, amount_cons]
      split
      · rw [add_right_comm]
      · rw [add_zero]
    · rw [if_neg h₀, amount_cons, ih, amount_cons, add_assoc]

/-- What is booked anywhere is booked somewhere. -/
theorem exists_amount_ne_zero {e : κ × M} {entries : List (κ × M)} (h : e ∈ entries)
    (hpos : ∀ a b : M, a + b = 0 → a = 0) (he : e.2 ≠ 0) : amount e.1 entries ≠ 0 := by
  obtain ⟨front, rest, rfl⟩ := List.append_of_mem h
  rw [amount_append, amount_cons, if_pos rfl, add_left_comm]
  exact fun hzero => he (hpos _ _ hzero)

/-- A sum over a store, with the entry of one key set apart. -/
theorem sum_find_dropWhere {ν : Type*} {store : List (κ × ν)} (h : KeyedStore.Distinct store)
    {k : κ} {v : ν} (hfind : KeyedStore.find k store = some v) (g : ν → M) :
    (store.map fun e => g e.2).sum =
      g v + ((KeyedStore.dropWhere (fun k' => k' = k) store).map fun e => g e.2).sum := by
  induction store with
  | nil => cases hfind
  | cons e store ih =>
    obtain ⟨hnew, hrest⟩ := List.nodup_cons.mp h
    rw [KeyedStore.dropWhere, List.filter_cons, List.map_cons, List.sum_cons]
    rw [KeyedStore.find] at hfind
    by_cases hk : e.1 = k
    · rw [if_pos hk] at hfind
      have hall : store.filter (fun e' => !decide (e'.1 = k)) = store := by
        refine List.filter_eq_self.mpr fun e' he' => ?_
        have hne : e'.1 ≠ k := fun heq => hnew (List.mem_map.mpr ⟨e', he', heq.trans hk.symm⟩)
        simpa using hne
      rw [Option.some.inj hfind]
      simp [hk, hall]
    · rw [if_neg hk] at hfind
      have hcons := ih hrest hfind
      rw [KeyedStore.dropWhere] at hcons
      simp only [hk, decide_false, Bool.not_false, if_true, List.map_cons, List.sum_cons, hcons]
      rw [add_left_comm]

end MonitoringHub.Lib.Ledger
