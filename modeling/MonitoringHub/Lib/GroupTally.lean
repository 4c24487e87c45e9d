import Mathlib.Algebra.BigOperators.Group.List.Basic
import Mathlib.Algebra.GroupWithZero.Nat
import Mathlib.Data.List.Induction
import Mathlib.Data.List.Nodup
import MonitoringHub.Lib.KeyedStore

/-! Grouping a list in one pass: the first row of a key opens its group, every row of the key
is added to it. What a group holds is a fold over its own rows, and a quantity that grows by
a fixed amount a row adds up over the groups to its sum over the rows. -/

namespace MonitoringHub.Lib.GroupTally
open KeyedStore

variable {ι κ β : Type*} [DecidableEq κ]

/-- `setdefault(k, start)`, then a change in place. -/
def upsert (k : κ) (start : β) (change : β → β) : List (κ × β) → List (κ × β)
  | [] => [(k, change start)]
  | (k', b) :: groups =>
    if k' = k then (k', change b) :: groups else (k', b) :: upsert k start change groups

def addRow (key : ι → κ) (start : ι → β) (add : β → ι → β) (groups : List (κ × β)) (row : ι) :
    List (κ × β) := upsert (key row) (start row) (fun b => add b row) groups

def tally (key : ι → κ) (start : ι → β) (add : β → ι → β) (rows : List ι) : List (κ × β) :=
  rows.foldl (addRow key start add) []

/-- What the rows of one key make. -/
def groupOf (start : ι → β) (add : β → ι → β) : List ι → Option β
  | [] => none
  | row :: rows => some ((row :: rows).foldl add (start row))

theorem groupOf_concat (start : ι → β) (add : β → ι → β) (rows : List ι) (row : ι) :
    groupOf start add (rows ++ [row]) =
      some (add ((groupOf start add rows).getD (start row)) row) := by
  cases rows with
  | nil => rfl
  | cons first rows => simp [groupOf, List.foldl_append]

theorem find_upsert (k k' : κ) (start : β) (change : β → β) (groups : List (κ × β)) :
    find k' (upsert k start change groups) =
      if k = k' then some (change ((find k groups).getD start)) else find k' groups := by
  induction groups with
  | nil => simp [upsert, find]
  | cons entry groups ih =>
    obtain ⟨k₀, b⟩ := entry
    rw [upsert]
    by_cases h₀ : k₀ = k
    · subst h₀
      by_cases hk : k₀ = k' <;> simp [find, hk]
    · by_cases hk : k = k'
      · subst hk
        simp [find, h₀, ih]
      · simp only [if_neg h₀, find, ih, if_neg hk]

theorem keys_upsert (k : κ) (start : β) (change : β → β) (groups : List (κ × β)) :
    keys (upsert k start change groups) =
      if k ∈ keys groups then keys groups else keys groups ++ [k] := by
  induction groups with
  | nil => simp [upsert, keys]
  | cons entry groups ih =>
    obtain ⟨k₀, b⟩ := entry
    unfold keys at ih ⊢
    rw [upsert]
    by_cases h₀ : k₀ = k
    · simp [h₀]
    · have h₀' : ¬ k = k₀ := fun h => h₀ h.symm
      simp only [if_neg h₀, List.map_cons, ih, List.mem_cons, h₀', false_or]
      split <;> simp

theorem Distinct.upsert {groups : List (κ × β)} (h : Distinct groups) (k : κ) (start : β)
    (change : β → β) : Distinct (GroupTally.upsert k start change groups) := by
  unfold Distinct
  rw [keys_upsert]
  split
  · exact h
  · rename_i hk
    refine List.nodup_append.mpr ⟨h, List.nodup_singleton k, fun a ha b hb => ?_⟩
    rw [List.mem_singleton.mp hb]
    rintro rfl
    exact hk ha

theorem tally_concat (key : ι → κ) (start : ι → β) (add : β → ι → β) (rows : List ι) (row : ι) :
    tally key start add (rows ++ [row]) = addRow key start add (tally key start add rows) row := by
  rw [tally, List.foldl_append]
  rfl

theorem distinct_tally (key : ι → κ) (start : ι → β) (add : β → ι → β) (rows : List ι) :
    Distinct (tally key start add rows) := by
  induction rows using List.reverseRecOn with
  | nil => exact List.nodup_nil
  | append_singleton rows row ih =>
    rw [tally_concat]
    exact Distinct.upsert ih _ _ _

/-- A group is the fold over the rows of its key. -/
theorem find_tally (key : ι → κ) (start : ι → β) (add : β → ι → β) (rows : List ι) (k : κ) :
    find k (tally key start add rows) = groupOf start add (rows.filter fun row => key row = k) := by
  induction rows using List.reverseRecOn with
  | nil => rfl
  | append_singleton rows row ih =>
    rw [tally_concat, addRow, find_upsert, List.filter_append]
    by_cases hk : key row = k
    · subst hk
      rw [if_pos rfl, List.filter_singleton, decide_eq_true rfl, cond_true, groupOf_concat, ih]
    · rw [if_neg hk, List.filter_singleton, decide_eq_false hk, cond_false, List.append_nil, ih]

/-- Groups that are lists hold the rows of their key, in order. -/
theorem find_collect {γ : Type*} (key : ι → κ) (g : ι → γ) (rows : List ι) (k : κ) :
    (find k (tally key (fun _ => []) (fun gs row => gs ++ [g row]) rows)).getD [] =
      (rows.filter fun row => key row = k).map g := by
  rw [find_tally]
  generalize rows.filter (fun row => key row = k) = group
  induction group using List.reverseRecOn with
  | nil => rfl
  | append_singleton group row ih =>
    rw [groupOf_concat, Option.getD_some, List.map_append, ih]
    rfl

/-- Groups that collect what each row brings. -/
theorem mem_groups {γ : Type*} {key : ι → κ} {add : List γ → ι → List γ} {g : ι → List γ}
    (hadd : ∀ b row x, x ∈ add b row ↔ x ∈ b ∨ x ∈ g row) {rows : List ι} {k : κ} {x : γ} :
    (∃ b, (k, b) ∈ tally key (fun _ => []) add rows ∧ x ∈ b) ↔
      ∃ row ∈ rows, key row = k ∧ x ∈ g row := by
  have hfold : ∀ (group : List ι) (b : List γ),
      x ∈ group.foldl add b ↔ x ∈ b ∨ ∃ row ∈ group, x ∈ g row := by
    intro group
    induction group with
    | nil => simp
    | cons row group ih => simp [ih, hadd, or_assoc]
  have hgroup : (∃ b, (k, b) ∈ tally key (fun _ => []) add rows ∧ x ∈ b) ↔
      ∃ row ∈ rows.filter fun row => key row = k, x ∈ g row := by
    simp only [(distinct_tally key (fun _ => []) add rows).mem_iff, find_tally]
    cases rows.filter fun row => key row = k with
    | nil => simp [groupOf]
    | cons row group =>
      simp only [groupOf, Option.some.injEq, exists_eq_left']
      rw [hfold]
      simp
  simp only [hgroup, List.mem_filter, decide_eq_true_eq, and_assoc]

/-- Groups that count. -/
theorem find_count (key : ι → κ) (rows : List ι) (k : κ) :
    (find k (tally key (fun _ => 0) (fun n _ => n + 1) rows)).getD 0 =
      (rows.filter fun row => key row = k).length := by
  rw [find_tally]
  generalize rows.filter (fun row => key row = k) = group
  induction group using List.reverseRecOn with
  | nil => rfl
  | append_singleton group row ih =>
    rw [groupOf_concat, Option.getD_some, List.length_append, ih]
    rfl

theorem mem_tally {key : ι → κ} {start : ι → β} {add : β → ι → β} {rows : List ι} {k : κ} {b : β} :
    (k, b) ∈ tally key start add rows ↔
      groupOf start add (rows.filter fun row => key row = k) = some b := by
  rw [(distinct_tally key start add rows).mem_iff, find_tally]

theorem exists_mem_tally (key : ι → κ) (start : ι → β) (add : β → ι → β) {rows : List ι} {row : ι}
    (h : row ∈ rows) : ∃ b, (key row, b) ∈ tally key start add rows := by
  have hrow : row ∈ rows.filter fun r => key r = key row := List.mem_filter.mpr ⟨h, by simp⟩
  cases hgroup : rows.filter fun r => key r = key row with
  | nil =>
    rw [hgroup] at hrow
    cases hrow
  | cons first rest => exact ⟨_, mem_tally.mpr (by rw [hgroup]; rfl)⟩

theorem key_of_mem_tally {key : ι → κ} {start : ι → β} {add : β → ι → β} {rows : List ι} {k : κ}
    {b : β} (h : (k, b) ∈ tally key start add rows) : ∃ row ∈ rows, key row = k := by
  rw [mem_tally] at h
  cases hgroup : rows.filter fun row => key row = k with
  | nil =>
    rw [hgroup] at h
    cases h
  | cons first rest =>
    have hfirst : first ∈ rows.filter fun row => key row = k := hgroup ▸ List.mem_cons_self
    obtain ⟨hmem, hkey⟩ := List.mem_filter.mp hfirst
    exact ⟨first, hmem, of_decide_eq_true hkey⟩

section Sum
variable {M : Type*} [AddCommMonoid M]

theorem sum_upsert {m : κ × β → M} {k : κ} {start : β} {change : β → β} {w : M}
    (hstart : m (k, start) = 0) (hchange : ∀ b, m (k, change b) = m (k, b) + w)
    (groups : List (κ × β)) :
    ((upsert k start change groups).map m).sum = (groups.map m).sum + w := by
  induction groups with
  | nil => simp [upsert, hchange, hstart]
  | cons entry groups ih =>
    obtain ⟨k₀, b⟩ := entry
    rw [upsert]
    by_cases h₀ : k₀ = k
    · subst h₀
      simp only [↓reduceIte, List.map_cons, List.sum_cons, hchange, add_right_comm]
    · simp only [if_neg h₀, List.map_cons, List.sum_cons, ih, add_assoc]

/-- What a row adds to its group adds up. -/
theorem sum_tally (key : ι → κ) (start : ι → β) (add : β → ι → β) (m : κ × β → M) (w : ι → M)
    (hstart : ∀ row, m (key row, start row) = 0)
    (hadd : ∀ b row, m (key row, add b row) = m (key row, b) + w row) (rows : List ι) :
    ((tally key start add rows).map m).sum = (rows.map w).sum := by
  induction rows using List.reverseRecOn with
  | nil => rfl
  | append_singleton rows row ih =>
    rw [tally_concat, addRow, sum_upsert (hstart row) (fun b => hadd b row), ih]
    simp

end Sum

def total (m : κ → β → ℕ) (groups : List (κ × β)) : ℕ := (groups.map fun e => m e.1 e.2).sum

theorem total_tally (key : ι → κ) (start : ι → β) (add : β → ι → β) (m : κ → β → ℕ) (w : ι → ℕ)
    (hstart : ∀ row, m (key row) (start row) = 0)
    (hadd : ∀ b row, m (key row) (add b row) = m (key row) b + w row) (rows : List ι) :
    total m (tally key start add rows) = (rows.map w).sum :=
  sum_tally key start add (fun e => m e.1 e.2) w hstart hadd rows

omit [DecidableEq κ] in
theorem total_filter (p : κ → β → Bool) (m : κ → β → ℕ) (groups : List (κ × β)) :
    total m (groups.filter fun e => p e.1 e.2) =
      total (fun k b => if p k b then m k b else 0) groups := by
  induction groups with
  | nil => rfl
  | cons entry groups ih =>
    unfold total at ih ⊢
    by_cases hp : p entry.1 entry.2 = true
    · simp [List.filter_cons_of_pos, hp, ih]
    · simp [List.filter_cons_of_neg, hp, ih]

theorem sum_indicator (p : ι → Bool) (rows : List ι) :
    (rows.map fun row => if p row then 1 else 0).sum = rows.countP p := by
  induction rows with
  | nil => rfl
  | cons row rows ih =>
    rw [List.map_cons, List.sum_cons, ih, List.countP_cons, Nat.add_comm]

end MonitoringHub.Lib.GroupTally
