import Mathlib.Data.List.Basic

/-! Append-only tables. A row's id is its position, so a lookup that orders by
id descending and keeps one row is the last match. `AtMostOne` says that no two
ids hold a row with the property; it is what a unique key would enforce and what
a lookup-before-insert has to maintain by hand. -/

namespace MonitoringHub.Lib.RowTable
variable {α : Type*}

/-- The match with the greatest id. -/
def lastMatch (p : α → Bool) : List α → Option (ℕ × α)
  | [] => none
  | a :: rows =>
    match lastMatch p rows with
    | some (i, b) => some (i + 1, b)
    | none => if p a then some (0, a) else none

theorem lastMatch_some {p : α → Bool} {rows : List α} {i : ℕ} {a : α}
    (h : lastMatch p rows = some (i, a)) : rows[i]? = some a ∧ p a = true := by
  induction rows generalizing i with
  | nil => simp [lastMatch] at h
  | cons b rows ih =>
    simp only [lastMatch] at h
    split at h
    · rename_i j c hrest
      obtain ⟨rfl, rfl⟩ : j + 1 = i ∧ c = a := by simpa using h
      simpa using ih hrest
    · split at h
      · rename_i hb
        obtain ⟨rfl, rfl⟩ : 0 = i ∧ b = a := by simpa using h
        exact ⟨rfl, hb⟩
      · simp at h

theorem lastMatch_none {p : α → Bool} {rows : List α} (h : lastMatch p rows = none) :
    ∀ (i : ℕ) (a : α), rows[i]? = some a → p a = false := by
  induction rows with
  | nil => simp
  | cons b rows ih =>
    intro i a ha
    simp only [lastMatch] at h
    split at h
    · simp at h
    · rename_i hrest
      split at h
      · simp at h
      · rename_i hb
        cases i with
        | zero =>
          obtain rfl : b = a := by simpa using ha
          simpa using hb
        | succ i => exact ih hrest i a (by simpa using ha)

/-- Rewrite the row with this id, if there is one. -/
def modifyAt (i : ℕ) (f : α → α) (rows : List α) : List α := rows.modify i f

@[simp] theorem modifyAt_length (i : ℕ) (f : α → α) (rows : List α) :
    (modifyAt i f rows).length = rows.length := by
  simp [modifyAt]

theorem modifyAt_getElem? (i j : ℕ) (f : α → α) (rows : List α) :
    (modifyAt i f rows)[j]? = if i = j then rows[j]?.map f else rows[j]? := by
  rw [modifyAt, List.getElem?_modify]
  split <;> simp

/-- Rewriting a row that is there. -/
theorem modifyAt_found {i : ℕ} {a : α} {rows : List α} (h : rows[i]? = some a) (f : α → α)
    (n : ℕ) : (modifyAt i f rows)[n]? = if n = i then some (f a) else rows[n]? := by
  rw [modifyAt_getElem?]
  by_cases hn : n = i
  · subst hn
    rw [if_pos rfl, if_pos rfl, h]
    rfl
  · rw [if_neg hn, if_neg (fun heq => hn heq.symm)]

theorem mem_modifyAt {i : ℕ} {f : α → α} {rows : List α} {b : α} (h : b ∈ modifyAt i f rows) :
    b ∈ rows ∨ ∃ a, rows[i]? = some a ∧ b = f a := by
  obtain ⟨j, hj⟩ := List.mem_iff_getElem?.mp h
  rw [modifyAt_getElem?] at hj
  split at hj
  · rename_i hij
    obtain ⟨a, ha, hb⟩ := Option.map_eq_some_iff.mp hj
    exact .inr ⟨a, hij ▸ ha, hb.symm⟩
  · exact .inl (List.mem_of_getElem? hj)

/-- Write a row unless it is there. -/
def insertNew [DecidableEq α] (row : α) (rows : List α) : List α :=
  if row ∈ rows then rows else rows ++ [row]

theorem mem_insertNew [DecidableEq α] {row a : α} {rows : List α} :
    a ∈ insertNew row rows ↔ a ∈ rows ∨ a = row := by
  unfold insertNew
  split
  · rename_i hmem
    exact ⟨.inl, fun h => h.elim id fun heq => heq ▸ hmem⟩
  · rw [List.mem_append, List.mem_singleton]

/-- A row of an extended table was there, or is the new one. -/
theorem found_append {x y : α} {rows : List α} {n : ℕ} (h : (rows ++ [x])[n]? = some y) :
    rows[n]? = some y ∨ n = rows.length ∧ y = x := by
  by_cases hn : n < rows.length
  · rw [List.getElem?_append_left hn] at h
    exact .inl h
  · have hlen := (List.getElem?_eq_some_iff.mp h).1
    rw [List.length_append, List.length_singleton] at hlen
    obtain rfl : n = rows.length := by omega
    rw [List.getElem?_append_right (Nat.le_refl _), Nat.sub_self] at h
    exact .inr ⟨rfl, (Option.some.inj h).symm⟩

def AtMostOne (p : α → Bool) (rows : List α) : Prop :=
  ∀ (i j : ℕ) (a b : α), rows[i]? = some a → rows[j]? = some b → p a = true → p b = true → i = j

theorem atMostOne_nil (p : α → Bool) : AtMostOne p [] := by
  intro i j a b ha
  simp at ha

/-- A rewrite that turns no row into a match keeps uniqueness. -/
theorem AtMostOne.of_pointwise {p : α → Bool} {rows rows' : List α} (h : AtMostOne p rows)
    (hback : ∀ (i : ℕ) (b : α), rows'[i]? = some b → p b = true →
      ∃ a, rows[i]? = some a ∧ p a = true) : AtMostOne p rows' := by
  intro i j a b ha hb hpa hpb
  obtain ⟨a', ha', hpa'⟩ := hback i a ha hpa
  obtain ⟨b', hb', hpb'⟩ := hback j b hb hpb
  exact h i j a' b' ha' hb' hpa' hpb'

/-- A new row is safe to add where the lookup found none. -/
theorem AtMostOne.append {p : α → Bool} {rows : List α} {a : α}
    (hnone : ∀ (i : ℕ) (b : α), rows[i]? = some b → p b = false) :
    AtMostOne p (rows ++ [a]) := by
  have hlast : ∀ (i : ℕ) (b : α), (rows ++ [a])[i]? = some b → p b = true → i = rows.length := by
    intro i b hb hp
    rcases found_append hb with hold | ⟨hi, -⟩
    · rw [hnone i b hold] at hp
      cases hp
    · exact hi
  intro i j b c hb hc hpb hpc
  rw [hlast i b hb hpb, hlast j c hc hpc]

end MonitoringHub.Lib.RowTable
