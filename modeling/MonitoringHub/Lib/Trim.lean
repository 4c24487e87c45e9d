import Mathlib.Data.List.TakeWhile

/-! Trimming a list at both ends. -/

namespace MonitoringHub.Lib
variable {α β : Type*} {p : α → Bool} {l pre post : List α}

def trim (p : α → Bool) (l : List α) : List α := ((l.dropWhile p).reverse.dropWhile p).reverse

/-- What a list is before trimming. -/
theorem trim_parts (p : α → Bool) (l : List α) : ∃ pre post, l = pre ++ trim p l ++ post ∧
    (∀ a ∈ pre, p a = true) ∧ ∀ a ∈ post, p a = true := by
  refine ⟨l.takeWhile p, ((l.dropWhile p).reverse.takeWhile p).reverse, ?_,
    fun a ha => List.mem_takeWhile_imp ha,
    fun a ha => List.mem_takeWhile_imp (List.mem_reverse.mp ha)⟩
  rw [trim, List.append_assoc, ← List.reverse_append, List.takeWhile_append_dropWhile,
    List.reverse_reverse, List.takeWhile_append_dropWhile]

theorem dropWhile_of_head (h : ∀ a ∈ l.head?, p a = false) : l.dropWhile p = l := by
  cases l with
  | nil => rfl
  | cons a l => exact List.dropWhile_cons_of_neg (by simp [h a rfl])

theorem trim_of_ends (hhead : ∀ a ∈ l.head?, p a = false)
    (hlast : ∀ a ∈ l.getLast?, p a = false) : trim p l = l := by
  rw [trim, dropWhile_of_head hhead, dropWhile_of_head, List.reverse_reverse]
  rwa [List.head?_reverse]

/-- Padding is trimmed away. -/
theorem trim_padded (hpre : ∀ a ∈ pre, p a = true) (hpost : ∀ a ∈ post, p a = true) :
    trim p (pre ++ l ++ post) = trim p l := by
  have hback : ∀ a ∈ post.reverse, p a = true := fun a ha => hpost a (List.mem_reverse.mp ha)
  rw [trim, List.append_assoc, List.dropWhile_append_of_pos hpre, List.dropWhile_append]
  split
  · rename_i hnil
    have hgone : post.dropWhile p = [] := List.dropWhile_eq_nil_iff.mpr hpost
    rw [hgone, trim, List.isEmpty_iff.mp hnil]
  · rw [List.reverse_append, List.dropWhile_append_of_pos hback]
    rfl

/-- Trimming first what ends up as padding changes nothing. -/
theorem trim_filterMap {q : β → Bool} (f : α → Option β)
    (h : ∀ a, p a = true → ∀ b ∈ f a, q b = true) (l : List α) :
    trim q ((trim p l).filterMap f) = trim q (l.filterMap f) := by
  obtain ⟨pre, post, hl, hpre, hpost⟩ := trim_parts p l
  have hparts : l.filterMap f = pre.filterMap f ++ (trim p l).filterMap f ++ post.filterMap f := by
    rw [← List.filterMap_append, ← List.filterMap_append, ← hl]
  have hpadding : ∀ pad : List α, (∀ a ∈ pad, p a = true) → ∀ b ∈ pad.filterMap f, q b = true := by
    intro pad hpad b hb
    obtain ⟨a, ha, hab⟩ := List.mem_filterMap.mp hb
    exact h a (hpad a ha) b hab
  rw [hparts, trim_padded (hpadding pre hpre) (hpadding post hpost)]

theorem trim_map (f : β → α) (l : List β) : trim p (l.map f) = (trim (p ∘ f) l).map f := by
  rw [trim, List.dropWhile_map, ← List.map_reverse, List.dropWhile_map, ← List.map_reverse]
  rfl

theorem filterMap_trim (f : β → Option α) (l : List β) :
    (trim (fun b => (f b).all p) l).filterMap f = trim p (l.filterMap f) := by
  rw [trim, trim, List.dropWhile_filterMap, ← List.filterMap_reverse, List.dropWhile_filterMap,
    ← List.filterMap_reverse]

theorem trim_sublist (p : α → Bool) (l : List α) : (trim p l).Sublist l := by
  rw [trim, ← List.reverse_sublist, List.reverse_reverse]
  exact (List.dropWhile_sublist p).trans
    (List.reverse_sublist.mpr (List.dropWhile_sublist p))

theorem trim_last (p : α → Bool) (l : List α) : ∀ a ∈ (trim p l).getLast?, p a = false := by
  intro a ha
  rw [trim, List.getLast?_reverse] at ha
  have hnot := List.head?_dropWhile_not p (l.dropWhile p).reverse
  rw [ha] at hnot
  exact hnot

theorem trim_head (p : α → Bool) (l : List α) : ∀ a ∈ (trim p l).head?, p a = false := by
  intro a ha
  have hpre : trim p l <+: l.dropWhile p := by
    rw [trim, ← List.reverse_suffix, List.reverse_reverse]
    exact List.dropWhile_suffix p
  have hnot := List.head?_dropWhile_not p l
  obtain ⟨rest, hrest⟩ := hpre
  rw [← hrest, List.head?_append, ha] at hnot
  exact hnot

end MonitoringHub.Lib
