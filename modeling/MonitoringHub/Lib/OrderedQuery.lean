import Mathlib.Data.List.Sort

/-! A query with an order by a unique key and a row limit. Which rows come back is
a matter of how many matching rows have a smaller key, so a query that is repeated
over the same rows returns the same ones. -/

namespace MonitoringHub.Lib
variable {α : Type*} {key : α → ℕ}

/-- `ORDER BY key LIMIT limit` -/
def firstBy (key : α → ℕ) (limit : ℕ) (rows : List α) : List α :=
  (rows.insertionSort fun a b => key a ≤ key b).take limit

theorem mem_take_ordered {rows : List α} {a : α} {limit : ℕ}
    (hordered : rows.Pairwise fun a b => key a < key b) :
    a ∈ rows.take limit ↔ a ∈ rows ∧ (rows.filter fun b => key b < key a).length < limit := by
  induction rows generalizing limit with
  | nil => simp
  | cons b rows ih =>
    obtain ⟨hfirst, hrest⟩ := List.pairwise_cons.mp hordered
    cases limit with
    | zero => simp
    | succ limit =>
      rw [List.take_succ_cons, List.mem_cons, List.mem_cons, ih hrest]
      constructor
      · rintro (rfl | ⟨ha, hcount⟩)
        · have hnone : (a :: rows).filter (fun b => key b < key a) = [] := by
            rw [List.filter_eq_nil_iff]
            rintro c (_ | ⟨_, hc⟩)
            · simp
            · simpa using (hfirst c hc).le
          exact ⟨.inl rfl, by rw [hnone]; exact Nat.succ_pos _⟩
        · rw [List.filter_cons_of_pos (by simpa using hfirst a ha)]
          exact ⟨.inr ha, Nat.succ_lt_succ hcount⟩
      · rintro ⟨rfl | ha, hcount⟩
        · exact .inl rfl
        · rw [List.filter_cons_of_pos (by simpa using hfirst a ha)] at hcount
          exact .inr ⟨ha, Nat.lt_of_succ_lt_succ hcount⟩

/-- A row comes back if it matches and fewer than `limit` matching rows are before it. -/
theorem mem_firstBy {rows : List α} {a : α} {limit : ℕ} (hkey : (rows.map key).Nodup) :
    a ∈ firstBy key limit rows ↔ a ∈ rows ∧ (rows.filter fun b => key b < key a).length < limit := by
  have : Std.Total fun a b : α => key a ≤ key b := ⟨fun a b => Nat.le_total _ _⟩
  have : IsTrans α fun a b => key a ≤ key b := ⟨fun a b c => Nat.le_trans⟩
  have hperm := List.perm_insertionSort (fun a b : α => key a ≤ key b) rows
  have hordered : (rows.insertionSort fun a b => key a ≤ key b).Pairwise
      fun a b => key a < key b := by
    have hle := List.pairwise_insertionSort (fun a b : α => key a ≤ key b) rows
    have hne : (rows.insertionSort fun a b => key a ≤ key b).Pairwise fun a b => key a ≠ key b :=
      List.pairwise_map.mp ((hperm.map key).nodup_iff.mpr hkey)
    exact (hle.and hne).imp fun h => Nat.lt_of_le_of_ne h.1 h.2
  rw [firstBy, mem_take_ordered hordered, hperm.mem_iff, (hperm.filter _).length_eq]

end MonitoringHub.Lib
