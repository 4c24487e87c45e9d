import Mathlib.Data.List.Basic
import Mathlib.Data.List.Nodup
import Mathlib.Order.Lattice
import MonitoringHub.Lib.KeyedStore

/-! Rows upserted one after the other. The last row of a key decides what is stored under it,
and a stable sort leaves the rows of a key in their order. Updates of distinct keys may come in
any order. -/

namespace MonitoringHub.Lib.KeyedStore
variable {ι κ ν : Type*}

section Upsert
variable [DecidableEq κ] (key : ι → κ) (value : ι → ν)

/-- `INSERT .. ON DUPLICATE KEY UPDATE` of every row. -/
def upserts (rows : List ι) (store : List (κ × ν)) : List (κ × ν) :=
  rows.foldl (fun store row => write (key row) (value row) store) store

variable {key value} {rows : List ι} {store : List (κ × ν)} {k : κ}

theorem find_upserts : find k (upserts key value rows store) =
    (((rows.filter fun row => key row = k).getLast?).map value).or (find k store) := by
  induction rows generalizing store with
  | nil => rfl
  | cons row rows ih =>
    have hstep : upserts key value (row :: rows) store =
        upserts key value rows (write (key row) (value row) store) := rfl
    rw [hstep, ih, find_write, List.filter_cons]
    by_cases hk : key row = k
    · subst hk
      simp only [decide_true, if_true, List.getLast?_cons]
      cases (rows.filter fun row' => key row' = key row).getLast? <;> rfl
    · have hne : ¬ k = key row := fun h => hk h.symm
      simp only [hk, hne, decide_false, Bool.false_eq_true, if_false]

omit ι in
/-- The only entry of a key is the last one. -/
theorem getLast?_filter_key (h : Distinct store) (k : κ) :
    ((store.filter fun entry => entry.1 = k).getLast?).map Prod.snd = find k store := by
  induction store with
  | nil => rfl
  | cons entry store ih =>
    obtain ⟨hnew, hrest⟩ := List.nodup_cons.mp h
    rw [List.filter_cons, find]
    by_cases hk : entry.1 = k
    · have hnone : store.filter (fun entry => entry.1 = k) = [] := by
        refine List.filter_eq_nil_iff.mpr fun entry' hentry' heq => hnew ?_
        exact List.mem_map.mpr ⟨entry', hentry', (of_decide_eq_true heq).trans hk.symm⟩
      simp only [hk, decide_true, if_true, hnone, List.getLast?_singleton, Option.map_some]
    · simp only [hk, decide_false, Bool.false_eq_true, if_false]
      exact ih hrest

/-- Assignments to a dictionary find what the upserts of a table find. -/
theorem find_foldl_assign : find k (rows.foldl (fun d row => assign (key row) (value row) d) store) =
    find k (upserts key value rows store) := by
  have hstep : ∀ d : List (κ × ν), (∀ k, find k d = find k store) →
      find k (rows.foldl (fun d row => assign (key row) (value row) d) d) =
        find k (upserts key value rows store) := by
    induction rows generalizing store with
    | nil => exact fun d hd => hd k
    | cons row rows ih =>
      intro d hd
      refine ih (assign (key row) (value row) d) fun k => ?_
      rw [find_assign, find_write, hd]
  exact hstep store fun _ => rfl

omit ι in
/-- What the entry of one key brings. -/
theorem flatMap_key {γ : Type*} (h : Distinct store) (k : κ) (g : ν → List γ) :
    (store.flatMap fun e => if e.1 = k then g e.2 else []) = (find k store).elim [] g := by
  induction store with
  | nil => rfl
  | cons entry store ih =>
    obtain ⟨hnew, hrest⟩ := List.nodup_cons.mp h
    rw [List.flatMap_cons, ih hrest, find]
    split
    · rename_i hk
      have hnone : find k store = none := by
        rw [← Option.not_isSome_iff_eq_none, find_isSome_iff, ← hk]
        exact hnew
      rw [hnone]
      exact List.append_nil _
    · rfl

end Upsert

section Update
variable {ε : Type*} [DecidableEq κ] {store store' : List (κ × ν)} {k k' : κ}

/-- Two stores hold the same rows if every key finds the same. -/
theorem perm_iff_find (h : Distinct store) (h' : Distinct store') :
    store.Perm store' ↔ ∀ k, find k store = find k store' := by
  have hnodup : ∀ {s : List (κ × ν)}, Distinct s → s.Nodup := fun hs => List.Nodup.of_map _ hs
  rw [List.perm_ext_iff_of_nodup (hnodup h) (hnodup h')]
  constructor
  · intro hmem k
    ext v
    rw [← h.mem_iff, ← h'.mem_iff]
    exact hmem (k, v)
  · rintro hfind ⟨k, v⟩
    rw [h.mem_iff, h'.mem_iff, hfind k]

/-- `UPDATE .. WHERE` the key is `k`. -/
def updateAt (k : κ) (f : ν → ν) (store : List (κ × ν)) : List (κ × ν) :=
  store.map fun entry => (entry.1, if entry.1 = k then f entry.2 else entry.2)

theorem find_updateAt (f : ν → ν) : find k' (updateAt k f store) =
    if k' = k then (find k' store).map f else find k' store := by
  rw [updateAt, find_map_keyed (fun k₀ v => if k₀ = k then f v else v)]
  split
  · rfl
  · exact Option.map_id'

theorem Distinct.updateAt (h : Distinct store) (k : κ) (f : ν → ν) :
    Distinct (updateAt k f store) := by
  have hkeys : keys (KeyedStore.updateAt k f store) = keys store := by
    rw [keys, KeyedStore.updateAt, List.map_map]
    rfl
  rwa [Distinct, hkeys]

/-- Steps that change what is found at one key each, and no key twice. -/
theorem find_foldl_steps {step : List (κ × ν) → κ × ε → List (κ × ν)}
    (g : ε → Option ν → Option ν) (hstep : ∀ store e k, find k (step store e) =
      if k = e.1 then g e.2 (find k store) else find k store)
    {steps : List (κ × ε)} (hsteps : Distinct steps) (store : List (κ × ν)) (k : κ) :
    find k (steps.foldl step store) =
      (find k steps).elim (find k store) fun e => g e (find k store) := by
  induction steps generalizing store with
  | nil => rfl
  | cons e steps ih =>
    obtain ⟨hnew, hrest⟩ := List.nodup_cons.mp hsteps
    rw [List.foldl_cons, ih hrest, hstep, find]
    by_cases hk : k = e.1
    · have hnone : find k steps = none := by
        rw [← Option.not_isSome_iff_eq_none, find_isSome_iff, hk]
        exact hnew
      rw [hnone, if_pos hk, if_pos hk.symm]
      rfl
    · rw [if_neg hk, if_neg fun h => hk h.symm]

omit [DecidableEq κ] in
theorem Distinct.filterMap (h : Distinct store) {g : κ × ν → Option (κ × ε)}
    (hg : ∀ entry entry', g entry = some entry' → entry'.1 = entry.1) :
    Distinct (store.filterMap g) := by
  rw [Distinct, keys, List.Nodup, List.pairwise_map] at h ⊢
  refine List.Pairwise.filterMap g (fun a a' hne b hb b' hb' heq => hne ?_) h
  rw [← hg a b hb, ← hg a' b' hb', heq]

/-- What a filter of the entries finds. -/
theorem find_filterMap (h : Distinct store) {g : κ × ν → Option (κ × ε)}
    (hg : ∀ entry entry', g entry = some entry' → entry'.1 = entry.1) (k : κ) :
    find k (store.filterMap g) = (find k store).bind fun v => (g (k, v)).map Prod.snd := by
  induction store with
  | nil => rfl
  | cons entry store ih =>
    obtain ⟨k₀, v⟩ := entry
    obtain ⟨hnew, hrest⟩ := List.nodup_cons.mp h
    have hnone : k₀ = k → find k store = none := by
      rintro rfl
      rw [← Option.not_isSome_iff_eq_none, find_isSome_iff]
      exact hnew
    rw [List.filterMap_cons, find]
    cases hentry : g (k₀, v) with
    | none =>
      dsimp only
      rw [ih hrest]
      split
      · rename_i hk
        rw [hnone hk, Option.bind_none, Option.bind_some, ← hk, hentry]
        rfl
      · rfl
    | some entry' =>
      have hkey : entry'.1 = k₀ := hg _ _ hentry
      dsimp only
      rw [find, hkey, ih hrest]
      split
      · rename_i hk
        rw [Option.bind_some, ← hk, hentry]
        rfl
      · rfl

/-- A table in another order finds the same. -/
theorem find_perm (h : Distinct store) (hperm : store'.Perm store) (k : κ) :
    find k store' = find k store :=
  have h' : Distinct store' := (hperm.map Prod.fst).nodup_iff.mpr h
  (perm_iff_find h' h).mp hperm k

/-- What is left after the rows of some keys are deleted. -/
theorem find_foldl_dropWhere {ι : Type*} (key : ι → κ) (rows : List ι) (store : List (κ × ν))
    (k : κ) : find k (rows.foldl (fun store row => dropWhere (fun k' => k' = key row) store) store) =
      if ∃ row ∈ rows, key row = k then none else find k store := by
  induction rows generalizing store with
  | nil => simp
  | cons row rows ih =>
    rw [List.foldl_cons, ih, find_dropWhere]
    by_cases hrow : key row = k
    · simp [hrow]
    · have hrow' : ¬ k = key row := fun heq => hrow heq.symm
      simp [hrow, hrow']

end Update

/-- Rows that a stable sort may not exchange keep their order. -/
theorem filter_mergeSort {le : ι → ι → Bool} (htrans : ∀ a b c, le a b → le b c → le a c)
    (htotal : ∀ a b, le a b || le b a) {p : ι → Bool} (hp : ∀ a b, p a → p b → le a b)
    (rows : List ι) : (rows.mergeSort le).filter p = rows.filter p := by
  have hsub : (rows.filter p).Sublist ((rows.mergeSort le).filter p) := by
    have hpairs : (rows.filter p).Pairwise fun a b => le a b := by
      refine List.Pairwise.imp_of_mem (R := fun _ _ => True) (fun ha hb _ => ?_) ?_
      · exact hp _ _ (List.mem_filter.mp ha).2 (List.mem_filter.mp hb).2
      · exact List.pairwise_of_forall fun _ _ => trivial
    have hsorted := List.sublist_mergeSort htrans htotal hpairs List.filter_sublist
    simpa using hsorted.filter p
  have hlen : (rows.filter p).length = ((rows.mergeSort le).filter p).length :=
    ((List.mergeSort_perm rows le).filter p).length_eq.symm
  exact (hsub.eq_of_length hlen).symm

end MonitoringHub.Lib.KeyedStore
