import MonitoringHub.Lib.GroupTally
import MonitoringHub.Lib.Upserts

/-! What upserts of rows with repeated keys lose. Only the last row of a key is left in the table;
the rows before it are overwritten, and the sums over the table miss exactly what they carried. -/

namespace MonitoringHub.Lib.Overwrites
open KeyedStore

variable {ι κ ν : Type*} [DecidableEq κ]

/-- The rows that a later row of their key overwrites. -/
def overwritten (key : ι → κ) : List ι → List ι
  | [] => []
  | row :: rows =>
    if key row ∈ rows.map key then row :: overwritten key rows else overwritten key rows

theorem overwritten_map {γ : Type*} (key : ι → κ) (f : γ → ι) (rows : List γ) :
    overwritten key (rows.map f) = (overwritten (fun r => key (f r)) rows).map f := by
  induction rows with
  | nil => rfl
  | cons row rows ih =>
    have hkeys : (rows.map f).map key = rows.map fun r => key (f r) := List.map_map
    rw [List.map_cons, overwritten, overwritten, ih, hkeys]
    split
    · rw [List.map_cons]
    · rfl

def kept (key : ι → κ) : List ι → List ι
  | [] => []
  | row :: rows => if key row ∈ rows.map key then kept key rows else row :: kept key rows

section Kept
variable (key : ι → κ) (value : ι → ν) {rows : List ι} {k : κ}

theorem kept_sublist (rows : List ι) : (kept key rows).Sublist rows := by
  induction rows with
  | nil => exact .slnil
  | cons row rows ih =>
    rw [kept]
    split
    · exact ih.cons row
    · exact ih.cons_cons row

theorem distinct_kept (rows : List ι) :
    Distinct ((kept key rows).map fun r => (key r, value r)) := by
  induction rows with
  | nil => exact List.nodup_nil
  | cons row rows ih =>
    rw [kept]
    split
    · exact ih
    · rename_i hlast
      refine List.nodup_cons.mpr ⟨fun hmem => hlast ?_, ih⟩
      obtain ⟨e, he, hkey⟩ := List.mem_map.mp hmem
      obtain ⟨r, hr, rfl⟩ := List.mem_map.mp he
      exact List.mem_map.mpr ⟨r, (kept_sublist key rows).subset hr, hkey⟩

theorem find_kept (rows : List ι) : find k ((kept key rows).map fun r => (key r, value r)) =
    ((rows.filter fun r => key r = k).getLast?).map value := by
  induction rows with
  | nil => rfl
  | cons row rows ih =>
    rw [kept, List.filter_cons]
    split
    · rename_i hmore
      rw [ih]
      by_cases hk : key row = k
      · obtain ⟨r, hr, hkey⟩ := List.mem_map.mp hmore
        have hrow : r ∈ rows.filter fun r => key r = k :=
          List.mem_filter.mpr ⟨hr, decide_eq_true (hkey.trans hk)⟩
        obtain ⟨last, hlast⟩ := Option.isSome_iff_exists.mp
          (List.getLast?_isSome.mpr (List.ne_nil_of_mem hrow))
        simp only [hk, decide_true, if_true, List.getLast?_cons, hlast, Option.getD_some]
      · simp only [hk, decide_false, Bool.false_eq_true, if_false]
    · rename_i hlast
      rw [List.map_cons, find]
      by_cases hk : key row = k
      · have hnil : (rows.filter fun r => key r = k) = [] := by
          refine List.filter_eq_nil_iff.mpr fun r hr hkey => hlast ?_
          exact List.mem_map.mpr ⟨r, hr, (of_decide_eq_true hkey).trans hk.symm⟩
        simp [hk, hnil]
      · simp only [hk, decide_false, Bool.false_eq_true, if_false]
        exact ih

theorem distinct_upserts (rows : List ι) {store : List (κ × ν)} (h : Distinct store) :
    Distinct (upserts key value rows store) :=
  List.foldlRecOn _ _ h fun _ h _ _ => h.write _ _

/-- The table holds the rows kept. -/
theorem upserts_perm_kept (rows : List ι) :
    (upserts key value rows []).Perm ((kept key rows).map fun r => (key r, value r)) := by
  have hnil : Distinct ([] : List (κ × ν)) := List.nodup_nil
  refine (perm_iff_find (distinct_upserts key value rows hnil)
    (distinct_kept key value rows)).mpr fun k => ?_
  rw [find_upserts, find_kept]
  exact Option.or_none

end Kept

section Sum
variable {M : Type*} [AddCommMonoid M] (key : ι → κ) (value : ι → ν)

theorem sum_kept (g : ι → M) (rows : List ι) :
    ((kept key rows).map g).sum + ((overwritten key rows).map g).sum = (rows.map g).sum := by
  induction rows with
  | nil => simp [kept, overwritten]
  | cons row rows ih =>
    rw [kept, overwritten, List.map_cons, List.sum_cons, ← ih]
    split
    · rw [List.map_cons, List.sum_cons, add_left_comm]
    · rw [List.map_cons, List.sum_cons, add_assoc]

/-- What the table holds and what was overwritten make up what was written. -/
theorem sum_upserts (g : κ × ν → M) (rows : List ι) :
    ((upserts key value rows []).map g).sum +
        ((overwritten key rows).map fun r => g (key r, value r)).sum =
      (rows.map fun r => g (key r, value r)).sum := by
  rw [((upserts_perm_kept key value rows).map g).sum_eq, List.map_map]
  exact sum_kept key (fun r => g (key r, value r)) rows

end Sum

/-! Rows that were grouped first, one list after the other. -/

section Groups
variable {σ : Type*} [DecidableEq σ]

/-- The keys behind the first place of `k`. -/
def after (k : κ) (ks : List κ) : List κ := (ks.dropWhile fun k' => k' ≠ k).tail

/-- The keys in the order in which they are first met. -/
def firstSeen (ks : List κ) : List κ :=
  ks.foldl (fun seen k => if k ∈ seen then seen else seen ++ [k]) []

theorem keys_tally {β : Type*} (key : ι → κ) (start : ι → β) (add : β → ι → β) (rows : List ι) :
    keys (GroupTally.tally key start add rows) = firstSeen (rows.map key) := by
  induction rows using List.reverseRecOn with
  | nil => rfl
  | append_singleton rows row ih =>
    rw [GroupTally.tally_concat, GroupTally.addRow, GroupTally.keys_upsert, ih, List.map_append,
      List.map_singleton, firstSeen, firstSeen, List.foldl_append]
    rfl

/-- The entries whose stored key is written again behind them. -/
theorem overwritten_append {store : κ → σ} {entries : List (κ × ν)} (h : Distinct entries)
    (more : List (κ × ν)) :
    overwritten (fun e => store e.1) (entries ++ more) =
      (entries.filter fun e =>
        store e.1 ∈ (after e.1 (keys entries) ++ keys more).map store) ++
      overwritten (fun e => store e.1) more := by
  induction entries with
  | nil => rfl
  | cons e entries ih =>
    obtain ⟨hnew, hrest⟩ := List.nodup_cons.mp h
    have hhead : after e.1 (keys (e :: entries)) = keys entries := by
      simp [after, keys]
    have htail : ∀ e' ∈ entries, after e'.1 (keys (e :: entries)) = after e'.1 (keys entries) := by
      intro e' he'
      have hne : e.1 ≠ e'.1 := fun heq => hnew (List.mem_map.mpr ⟨e', he', heq.symm⟩)
      simp [after, keys, hne]
    have hfilter : (entries.filter fun e' =>
          store e'.1 ∈ (after e'.1 (keys (e :: entries)) ++ keys more).map store) =
        entries.filter fun e' =>
          store e'.1 ∈ (after e'.1 (keys entries) ++ keys more).map store :=
      List.filter_congr fun e' he' => by rw [htail e' he']
    have hkeys : (entries ++ more).map (fun e => store e.1) =
        (keys entries ++ keys more).map store := by
      simp only [keys, List.map_append, List.map_map]
      rfl
    rw [List.cons_append, overwritten, List.filter_cons, hhead, hfilter, ih hrest, hkeys]
    by_cases hmore : store e.1 ∈ (keys entries ++ keys more).map store
    · rw [if_pos hmore, if_pos (decide_eq_true hmore), List.cons_append]
    · rw [if_neg hmore, if_neg (by simpa using hmore)]

/-- The rows of batches that are grouped one by one, where the key of their group is written again
behind it, later in the batch or with a later one. -/
def lost (key : ι → κ) (store : κ → σ) : List (List ι) → List ι
  | [] => []
  | rows :: later =>
    (rows.filter fun r => store (key r) ∈
      (after (key r) (firstSeen (rows.map key)) ++
        later.flatMap fun rows => firstSeen (rows.map key)).map store) ++ lost key store later

section Batches
variable {M β : Type*} [AddCommMonoid M] (key : ι → κ) (start : ι → β) (add : β → ι → β)
  (store : κ → σ) {m : κ × β → M} {w : ι → M}

theorem sum_filter {l : List ι} (p : ι → Bool) (g : ι → M) :
    ((l.filter p).map g).sum = (l.map fun a => if p a then g a else 0).sum := by
  induction l with
  | nil => rfl
  | cons a l ih =>
    rw [List.filter_cons, List.map_cons, List.sum_cons, ← ih]
    by_cases ha : p a = true
    · simp [ha]
    · simp [ha]

theorem keys_flatMap_tally (batches : List (List ι)) :
    keys (batches.flatMap (GroupTally.tally key start add)) =
      batches.flatMap fun rows => firstSeen (rows.map key) := by
  rw [keys, List.map_flatMap]
  exact List.flatMap_congr fun rows _ => keys_tally key start add rows

/-- What is overwritten of the groups is what the rows lost carried. -/
theorem sum_overwritten_tally (hstart : ∀ row, m (key row, start row) = 0)
    (hadd : ∀ b row, m (key row, add b row) = m (key row, b) + w row) (batches : List (List ι)) :
    ((overwritten (fun e => store e.1)
        (batches.flatMap (GroupTally.tally key start add))).map m).sum =
      ((lost key store batches).map w).sum := by
  induction batches with
  | nil => rfl
  | cons rows later ih =>
    rw [List.flatMap_cons, overwritten_append (GroupTally.distinct_tally key start add rows),
      List.map_append, List.sum_append, ih, lost, List.map_append, List.sum_append, keys_tally,
      keys_flatMap_tally, sum_filter, sum_filter]
    congr 1
    refine GroupTally.sum_tally key start add _ _ (fun row => ?_) (fun b row => ?_) rows
    · dsimp only
      rw [hstart, ite_self]
    · dsimp only
      rw [hadd]
      split
      · rfl
      · rw [add_zero]

theorem sum_flatMap_tally (hstart : ∀ row, m (key row, start row) = 0)
    (hadd : ∀ b row, m (key row, add b row) = m (key row, b) + w row) (batches : List (List ι)) :
    ((batches.flatMap (GroupTally.tally key start add)).map m).sum =
      (batches.flatten.map w).sum := by
  induction batches with
  | nil => rfl
  | cons rows later ih =>
    rw [List.flatMap_cons, List.map_append, List.sum_append, ih,
      GroupTally.sum_tally key start add m w hstart hadd, List.flatten_cons, List.map_append,
      List.sum_append]

end Batches
end Groups

end MonitoringHub.Lib.Overwrites
