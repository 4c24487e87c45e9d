import Mathlib.Data.List.MinMax
import Mathlib.Data.List.Nodup

/-! One row for each key of a list, chosen while it is scanned: the row with the least rank among
those that are eligible. -/

namespace MonitoringHub.Lib.LeastByKey
variable {α κ ρ : Type*} [DecidableEq κ] [LinearOrder ρ]

section Scan
variable (eligible : α → Bool) (key : α → κ) (rank : α → ρ)

def choose (chosen : List α) (row : α) : List α :=
  if eligible row then
    match chosen.find? fun prev => key prev = key row with
    | none => chosen ++ [row]
    | some prev =>
      if rank row < rank prev then chosen.map fun r => if key r = key row then row else r
      else chosen
  else chosen

def select (rows : List α) : List α := rows.foldl (choose eligible key rank) []

/-- The rows that compete for a key. -/
def candidates (rows : List α) (k : κ) : List α :=
  rows.filter fun r => eligible r && decide (key r = k)

end Scan

variable {eligible : α → Bool} {key : α → κ} {rank : α → ρ} {rows rows' chosen : List α} {row : α}
  {k : κ}

theorem mem_candidates :
    row ∈ candidates eligible key rows k ↔ row ∈ rows ∧ eligible row = true ∧ key row = k := by
  rw [candidates, List.mem_filter, Bool.and_eq_true, decide_eq_true_eq]

theorem find_replace (k' : κ) (hkey : key row = k') : (chosen.map fun r =>
    if key r = k' then row else r).find? (fun r => key r = k) =
      if k = k' then (chosen.find? fun r => key r = k).map fun _ => row
      else chosen.find? fun r => key r = k := by
  subst hkey
  induction chosen with
  | nil => simp
  | cons r chosen ih =>
    rw [List.map_cons, List.find?_cons, List.find?_cons, ih]
    by_cases hk : k = key row
    · subst hk
      by_cases hr : key r = key row <;> simp [hr]
    · by_cases hr : key r = key row
      · have hne : ¬ key row = k := fun heq => hk heq.symm
        simp [hr, hk, hne]
      · simp [hr, hk]

/-- A row competes with what its key has, and leaves the other keys alone. -/
theorem find_choose : (choose eligible key rank chosen row).find? (fun r => key r = k) =
    if eligible row = true ∧ key row = k then
      List.argAux (fun b c => rank b < rank c) (chosen.find? fun r => key r = k) row
    else chosen.find? fun r => key r = k := by
  unfold choose
  split
  · rename_i heligible
    simp only [heligible, true_and]
    split
    · rename_i hnone
      rw [List.find?_append]
      split
      · rename_i hk
        rw [← hk, hnone]
        simp [List.argAux]
      · rename_i hk
        simp [hk]
    · rename_i prev hprev
      split
      · rename_i hlt
        rw [find_replace (key row) rfl]
        by_cases hk : key row = k
        · subst hk
          simp [hprev, List.argAux, hlt]
        · rw [if_neg hk, if_neg fun heq => hk heq.symm]
      · rename_i hle
        split
        · rename_i hk
          subst hk
          simp [hprev, List.argAux, hle]
        · rfl
  · rename_i hnot
    rw [if_neg fun h => hnot h.1]

theorem find_foldl_choose : (rows.foldl (choose eligible key rank) chosen).find?
    (fun r => key r = k) = (candidates eligible key rows k).foldl
      (List.argAux fun b c => rank b < rank c) (chosen.find? fun r => key r = k) := by
  induction rows generalizing chosen with
  | nil => rfl
  | cons row rows ih =>
    rw [List.foldl_cons, ih, find_choose]
    by_cases h : eligible row = true ∧ key row = k
    · have hcons : candidates eligible key (row :: rows) k =
          row :: candidates eligible key rows k := List.filter_cons_of_pos (by simpa using h)
      rw [if_pos h, hcons, List.foldl_cons]
    · have hcons : candidates eligible key (row :: rows) k = candidates eligible key rows k :=
        List.filter_cons_of_neg (by simpa using h)
      rw [if_neg h, hcons]

/-- What is chosen for a key: the first candidate of the least rank. -/
theorem find_select : (select eligible key rank rows).find? (fun r => key r = k) =
    (candidates eligible key rows k).argmin rank :=
  find_foldl_choose

theorem choose_keys (eligible : α → Bool) (key : α → κ) (rank : α → ρ) (chosen : List α)
    (row : α) : (choose eligible key rank chosen row).map key = chosen.map key ∨
    (chosen.find? fun prev => key prev = key row) = none ∧
      (choose eligible key rank chosen row).map key = chosen.map key ++ [key row] := by
  unfold choose
  split
  · split
    · rename_i hnone
      exact .inr ⟨hnone, List.map_append⟩
    · split
      · refine .inl ?_
        rw [List.map_map]
        refine List.map_congr_left fun r _ => ?_
        by_cases hr : key r = key row <;> simp [hr]
      · exact .inl rfl
  · exact .inl rfl

theorem select_nodup : ((select eligible key rank rows).map key).Nodup := by
  have hnil : (([] : List α).map key).Nodup := List.nodup_nil
  refine List.foldlRecOn (motive := fun chosen => (chosen.map key).Nodup) rows
    (choose eligible key rank) hnil fun chosen h row _ => ?_
  rcases choose_keys eligible key rank chosen row with hkeys | ⟨hnone, hkeys⟩
  · rwa [hkeys]
  · rw [hkeys, List.nodup_append]
    refine ⟨h, List.nodup_singleton _, fun a ha b hb => ?_⟩
    obtain ⟨r, hr, rfl⟩ := List.mem_map.mp ha
    obtain rfl := List.mem_singleton.mp hb
    simpa using List.find?_eq_none.mp hnone r hr

theorem find_eq_of_mem (h : (chosen.map key).Nodup) (hrow : row ∈ chosen) :
    (chosen.find? fun r => key r = key row) = some row := by
  induction chosen with
  | nil => cases hrow
  | cons r chosen ih =>
    obtain ⟨hnew, hrest⟩ := List.nodup_cons.mp h
    rw [List.find?_cons]
    rcases List.mem_cons.mp hrow with rfl | hrow
    · simp
    · have hne : ¬ key r = key row := fun heq => hnew (heq ▸ List.mem_map_of_mem hrow)
      rw [decide_eq_false hne]
      exact ih hrest hrow

/-- A row is in the choice exactly if it is what its key chooses. -/
theorem mem_select : row ∈ select eligible key rank rows ↔
    (candidates eligible key rows (key row)).argmin rank = some row := by
  rw [← find_select]
  exact ⟨find_eq_of_mem select_nodup, List.mem_of_find?_eq_some⟩

/-- The rank that is chosen does not depend on the order of the rows. -/
theorem rank_argmin_perm (h : rows'.Perm rows) :
    (rows'.argmin rank).map rank = (rows.argmin rank).map rank := by
  cases hrow : rows.argmin rank with
  | none =>
    rw [List.argmin_eq_none] at hrow
    subst hrow
    rw [h.eq_nil]
    rfl
  | some row =>
    cases hrow' : rows'.argmin rank with
    | none =>
      rw [List.argmin_eq_none] at hrow'
      subst hrow'
      rw [h.symm.eq_nil] at hrow
      cases hrow
    | some row' =>
      have hmem := h.symm.subset (List.argmin_mem hrow)
      have hmem' := h.subset (List.argmin_mem hrow')
      exact congrArg some (le_antisymm (List.le_of_mem_argmin hmem hrow')
        (List.le_of_mem_argmin hmem' hrow))

theorem rank_select_perm (h : rows'.Perm rows) :
    ((select eligible key rank rows').find? fun r => key r = k).map rank =
      ((select eligible key rank rows).find? fun r => key r = k).map rank := by
  rw [find_select, find_select]
  exact rank_argmin_perm (h.filter _)

end MonitoringHub.Lib.LeastByKey
