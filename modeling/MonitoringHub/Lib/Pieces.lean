import Mathlib.Data.List.Basic

/-! The pieces of a list between the places of a separator: what they are for joined lists, and
how the pieces of two lists meet when one is put behind the other. -/

namespace MonitoringHub.Lib
open List
variable {α : Type*} [BEq α] [LawfulBEq α] {c : α}

/-- A list without the separator only lengthens the first piece of what follows. -/
theorem splitOn_append_of_not_mem {pre : List α} (h : c ∉ pre) (l : List α) :
    (pre ++ l).splitOn c = (l.splitOn c).modifyHead (pre ++ ·) := by
  induction pre with
  | nil => cases hl : l.splitOn c <;> simp [hl]
  | cons a pre ih =>
    have ha : (a == c) = false := beq_eq_false_iff_ne.mpr fun heq => h (heq ▸ mem_cons_self)
    rw [cons_append, splitOn_cons_eq_if_modifyHead, ha, ih fun hc => h (mem_cons_of_mem _ hc)]
    cases l.splitOn c <;> simp

theorem not_mem_of_mem_splitOn {l piece : List α} (h : piece ∈ l.splitOn c) :
    c ∉ piece := by
  induction l generalizing piece with
  | nil =>
    rw [splitOn_nil, mem_singleton] at h
    exact h ▸ not_mem_nil
  | cons a l ih =>
    rw [splitOn_cons_eq_if_modifyHead] at h
    obtain ⟨p, ps, hl⟩ := exists_cons_of_ne_nil (splitOn_ne_nil c l)
    have hmem : ∀ q ∈ p :: ps, c ∉ q := fun q hq => ih (hl ▸ hq)
    rw [hl] at h
    by_cases ha : a == c
    · rw [if_pos ha] at h
      exact (mem_cons.mp h).elim (fun heq => heq ▸ not_mem_nil) (hmem piece)
    · rw [if_neg ha, modifyHead_cons] at h
      rcases mem_cons.mp h with rfl | h
      · exact fun hc => (mem_cons.mp hc).elim (fun heq => ha (beq_iff_eq.mpr heq.symm))
          (hmem p mem_cons_self)
      · exact hmem piece (mem_cons_of_mem _ h)

omit [BEq α] [LawfulBEq α] in
theorem of_mem_intercalate {sep : List α} {ls : List (List α)} {a : α}
    (h : a ∈ intercalate sep ls) : a ∈ sep ∨ ∃ l ∈ ls, a ∈ l := by
  induction ls with
  | nil => simp at h
  | cons l ls ih =>
    by_cases hls : ls = []
    · subst hls
      exact .inr ⟨l, mem_cons_self, by simpa using h⟩
    · rw [intercalate_cons_of_ne_nil hls, mem_append, mem_append] at h
      obtain (ha | ha) | ha := h
      · exact .inr ⟨l, mem_cons_self, ha⟩
      · exact .inl ha
      · exact (ih ha).imp_right fun ⟨l', hl', ha'⟩ => ⟨l', mem_cons_of_mem _ hl', ha'⟩

/-- An element is the separator, or it is of the first piece, of one between or of the last. -/
theorem of_mem_splitOn {l head : List α} {parts : List (List α)} (hl : l.splitOn c = head :: parts)
    {a : α} (ha : a ∈ l) : a = c ∨ a ∈ head ∨ (∃ piece ∈ parts.dropLast, a ∈ piece) ∨
      ∃ piece, parts.getLast? = some piece ∧ a ∈ piece := by
  have hjoined : l = intercalate [c] (head :: parts) := by
    rw [← hl, intercalate_splitOn]
  rw [hjoined] at ha
  rcases of_mem_intercalate ha with hsep | ⟨piece, hpiece, hin⟩
  · exact .inl (mem_singleton.mp hsep)
  rcases mem_cons.mp hpiece with rfl | hpiece
  · exact .inr (.inl hin)
  obtain ⟨front, last, rfl⟩ := (eq_nil_or_concat' parts).resolve_left (ne_nil_of_mem hpiece)
  rcases mem_append.mp hpiece with hfront | hlast
  · exact .inr (.inr (.inl ⟨piece, by rwa [dropLast_concat], hin⟩))
  · exact .inr (.inr (.inr ⟨last, getLast?_concat, mem_singleton.mp hlast ▸ hin⟩))

omit [BEq α] [LawfulBEq α] in
theorem intercalate_append_of_ne (sep : List α) {ls ls' : List (List α)} (h : ls ≠ [])
    (h' : ls' ≠ []) :
    intercalate sep (ls ++ ls') = intercalate sep ls ++ sep ++ intercalate sep ls' := by
  induction ls with
  | nil => exact absurd rfl h
  | cons l ls ih =>
    by_cases hls : ls = []
    · subst hls
      rw [singleton_append, intercalate_cons_of_ne_nil h', intercalate_singleton]
    · rw [cons_append, intercalate_cons_of_ne_nil (by simp [hls]), intercalate_cons_of_ne_nil hls,
        ih hls]
      simp only [append_assoc]

omit [BEq α] [LawfulBEq α] in
/-- Behind an element of joined lists comes the end, or the separator and another element. -/
theorem exists_intercalate_split (sep : List α) {ls : List (List α)} {l : List α} (h : l ∈ ls) :
    ∃ pre post, intercalate sep ls = pre ++ (l ++ post) ∧
      (post = [] ∨ ∃ l' ∈ ls, ∃ rest, post = sep ++ (l' ++ rest)) := by
  induction ls with
  | nil => cases h
  | cons l₀ ls ih =>
    by_cases hls : ls = []
    · subst hls
      obtain rfl := mem_singleton.mp h
      exact ⟨[], [], by simp, .inl rfl⟩
    rw [intercalate_cons_of_ne_nil hls]
    rcases mem_cons.mp h with rfl | h
    · obtain ⟨l', ls', rfl⟩ := exists_cons_of_ne_nil hls
      obtain ⟨rest, hrest⟩ : ∃ rest, intercalate sep (l' :: ls') = l' ++ rest := by
        by_cases hls' : ls' = []
        · exact ⟨[], by simp [hls']⟩
        · exact ⟨_, by rw [intercalate_cons_of_ne_nil hls', append_assoc]⟩
      refine ⟨[], sep ++ (l' ++ rest), by simp [hrest], .inr ⟨l', ?_, rest, rfl⟩⟩
      exact mem_cons_of_mem _ mem_cons_self
    · obtain ⟨pre, post, heq, hpost⟩ := ih h
      refine ⟨l₀ ++ sep ++ pre, post, by simp only [heq, append_assoc], hpost.imp_right ?_⟩
      exact fun ⟨l', hl', hrest⟩ => ⟨l', mem_cons_of_mem _ hl', hrest⟩

omit [BEq α] [LawfulBEq α] in
theorem intercalate_append (last next : List α) (front rest : List (List α)) :
    intercalate [c] (front ++ [last]) ++ intercalate [c] (next :: rest) =
      intercalate [c] (front ++ (last ++ next) :: rest) := by
  induction front with
  | nil => cases rest <;> simp [intercalate_cons_cons]
  | cons p front ih =>
    have hne : ∀ (q : List α) (qs : List (List α)), front ++ q :: qs ≠ [] := by simp
    rw [cons_append, cons_append, intercalate_cons_of_ne_nil (hne _ _),
      intercalate_cons_of_ne_nil (hne _ _), append_assoc, ih]

/-- The last piece of the front and the first piece behind it become one. -/
theorem splitOn_append {l l' last next : List α} {front rest : List (List α)}
    (h : l.splitOn c = front ++ [last]) (h' : l'.splitOn c = next :: rest) :
    (l ++ l').splitOn c = front ++ (last ++ next) :: rest := by
  have hfree : ∀ p ∈ front ++ (last ++ next) :: rest, c ∉ p := by
    intro p hp
    have hl : ∀ q ∈ front ++ [last], c ∉ q := fun q hq => not_mem_of_mem_splitOn (h ▸ hq)
    have hl' : ∀ q ∈ next :: rest, c ∉ q := fun q hq => not_mem_of_mem_splitOn (h' ▸ hq)
    simp only [mem_append, mem_cons, not_mem_nil, or_false] at hp hl hl'
    rcases hp with hp | rfl | hp
    · exact hl p (.inl hp)
    · exact fun hc => (mem_append.mp hc).elim (hl last (.inr rfl)) (hl' next (.inl rfl))
    · exact hl' p (.inr hp)
  rw [← splitOn_intercalate c hfree (by simp), ← intercalate_append, ← h, ← h',
    intercalate_splitOn, intercalate_splitOn]

/-- The pieces of joined lists are the pieces of each. -/
theorem splitOn_intercalate_flatMap {ls : List (List α)} (h : ls ≠ []) :
    (intercalate [c] ls).splitOn c = ls.flatMap fun l => l.splitOn c := by
  induction ls with
  | nil => exact absurd rfl h
  | cons l ls ih =>
    cases ls with
    | nil => simp
    | cons l' ls =>
      rw [intercalate_cons_cons, append_assoc, singleton_append, splitOn_append_cons_self,
        ih (cons_ne_nil _ _)]
      rfl

/-- A list without the separator stands at the start of one of the pieces. -/
theorem exists_piece_append {pre : List α} (h : c ∉ pre) (l : List α) :
    ∃ rest, pre ++ rest ∈ (pre ++ l).splitOn c := by
  obtain ⟨p, ps, hl⟩ := exists_cons_of_ne_nil (splitOn_ne_nil c l)
  exact ⟨p, by rw [splitOn_append_of_not_mem h, hl, modifyHead_cons]; exact mem_cons_self⟩

end MonitoringHub.Lib
