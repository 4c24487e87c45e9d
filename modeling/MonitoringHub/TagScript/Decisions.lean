import MonitoringHub.TagScript.PlainLines

/-! Which environment an exported resource gets. An instance and a loose volume get their own
decision, an attached volume that of the row it is attached to; and what is decided so is
exported when the filters keep it and the patterns accept it. -/

namespace MonitoringHub.TagScript
open Lib KeyedStore Alerts Environments
variable {sources : List Source} {rows : List TagRow}

/-- Where the environment of a chosen row comes from. -/
inductive Decided (sources : List Source) (rows : List TagRow) : TagRow → Tier → Prop
  | own {r : TagRow} {t : Tier} (hr : r ∈ rows) (htype : r.resourceType = lit "ec2")
      (h : eligible sources r = some t) : Decided sources rows r t
  | loose {r : TagRow} {t : Tier} (hr : r ∈ rows) (htype : r.resourceType = lit "ebs")
      (hparent : tagsParent r = none) (h : eligible sources r = some t) : Decided sources rows r t
  | attached {r parent : TagRow} {p : Text} {t : Tier} (hr : r ∈ rows)
      (htype : r.resourceType = lit "ebs") (hparent : tagsParent r = some p)
      (hkey : parent.key = (r.awsAccountId, p)) (h : Decided sources rows parent t) :
      Decided sources rows r t

theorem Decided.mem {r : TagRow} {t : Tier} (h : Decided sources rows r t) : r ∈ rows := by
  cases h <;> assumption

/-- Every choice is the decision of a row of its key. -/
def Justified (sources : List Source) (rows : List TagRow) (store : List (RowKey × Tier)) : Prop :=
  ∀ c ∈ store, ∃ r, r.key = c.1 ∧ Decided sources rows r c.2

theorem Justified.assignSome {store : List (RowKey × Tier)} (h : Justified sources rows store)
    {r : TagRow} {tier : Option Tier} (hr : ∀ t, tier = some t → Decided sources rows r t) :
    Justified sources rows (assignSome r.key tier store) := by
  cases tier with
  | none => exact h
  | some t =>
    intro c hc
    rcases mem_assign hc with rfl | hc
    · exact ⟨r, rfl, hr t rfl⟩
    · exact h c hc

theorem Justified.chooseInstance {store : List (RowKey × Tier)} (h : Justified sources rows store)
    {r : TagRow} (hr : r ∈ rows) : Justified sources rows (chooseInstance sources store r) := by
  rw [TagScript.chooseInstance]
  split
  · rename_i htype
    exact h.assignSome fun t ht => .own hr htype ht
  · exact h

theorem Justified.chooseVolume {store : List (RowKey × Tier)} (h : Justified sources rows store)
    {r : TagRow} (hr : r ∈ rows) : Justified sources rows (chooseVolume sources store r) := by
  rw [TagScript.chooseVolume]
  split
  · rename_i htype
    split
    · rename_i p hparent
      refine h.assignSome fun t ht => ?_
      obtain ⟨parent, hkey, hdecided⟩ := h _ (mem_of_find ht)
      exact .attached hr htype hparent hkey hdecided
    · rename_i hparent
      exact h.assignSome fun t ht => .loose hr htype hparent ht
  · exact h

theorem justified_choose (sources : List Source) (rows : List TagRow) :
    Justified sources rows (choose sources rows) := by
  have hinstances : Justified sources rows (rows.foldl (chooseInstance sources) []) :=
    List.foldlRecOn _ _ nofun fun _ h _ hr => h.chooseInstance hr
  exact List.foldlRecOn _ _ hinstances fun _ h _ hr => h.chooseVolume hr

/-! No key is chosen twice. -/

theorem distinct_assignSome {store : List (RowKey × Tier)} (h : Distinct store) (key : RowKey)
    (tier : Option Tier) : Distinct (assignSome key tier store) := by
  cases tier with
  | none => exact h
  | some t => exact h.assign key t

theorem distinct_choose (sources : List Source) (rows : List TagRow) :
    Distinct (choose sources rows) := by
  have hinstances : Distinct (rows.foldl (chooseInstance sources) []) := by
    refine List.foldlRecOn _ _ List.nodup_nil fun store h r _ => ?_
    rw [chooseInstance]
    split
    · exact distinct_assignSome h _ _
    · exact h
  refine List.foldlRecOn _ _ hinstances fun store h r _ => ?_
  rw [chooseVolume]
  split
  · split <;> exact distinct_assignSome h _ _
  · exact h

/-- The keys of what is exported are among those chosen, in their order. -/
theorem exported_keys_sublist (f : Filters) (rows : List TagRow) :
    ((exported f rows).map fun e => e.row.key).Sublist (keys (choose f.sources rows)) := by
  have hfound : ∀ store : List (RowKey × Tier), ((store.filterMap fun c =>
      (find c.1 (byKey rows)).map fun r => (⟨r, c.2⟩ : Export)).map fun e => e.row.key).Sublist
        (keys store) := by
    intro store
    induction store with
    | nil => exact .slnil
    | cons c store ih =>
      rw [List.filterMap_cons]
      cases hc : find c.1 (byKey rows) with
      | none => exact ih.cons _
      | some r =>
        have hkey : r.key = c.1 := (mem_of_find_byKey hc).2
        rw [Option.map_some]
        show (r.key :: _).Sublist (c.1 :: keys store)
        rw [hkey]
        exact ih.cons_cons _
  exact ((List.filter_sublist.trans List.filter_sublist).map _).trans (hfound _)

theorem exported_keys_nodup (f : Filters) (rows : List TagRow) :
    ((exported f rows).map fun e => e.row.key).Nodup :=
  (distinct_choose f.sources rows).sublist (exported_keys_sublist f rows)

/-! With unique keys. -/

theorem eq_of_key (hkeys : (rows.map TagRow.key).Nodup) {r s : TagRow} (hr : r ∈ rows)
    (hs : s ∈ rows) (h : r.key = s.key) : r = s :=
  List.inj_on_of_nodup_map hkeys hr hs h

theorem decided_of_exported {f : Filters} (hkeys : (rows.map TagRow.key).Nodup) {e : Export}
    (h : e ∈ exported f rows) : Decided f.sources rows e.row e.tier := by
  obtain ⟨c, hc, hfound⟩ :=
    List.mem_filterMap.mp (List.mem_filter.mp (List.mem_filter.mp h).1).1
  obtain ⟨r, hr, rfl⟩ := Option.map_eq_some_iff.mp hfound
  obtain ⟨hmem, hkey⟩ := mem_of_find_byKey hr
  obtain ⟨s, hs, hdecided⟩ := justified_choose f.sources rows c hc
  exact eq_of_key hkeys hmem hdecided.mem (hkey.trans hs.symm) ▸ hdecided

theorem find_chooseInstances {k : RowKey} {rs : List TagRow}
    (h : ∀ r ∈ rs, r.key = k → r.resourceType ≠ lit "ec2") (store : List (RowKey × Tier)) :
    find k (rs.foldl (chooseInstance sources) store) = find k store := by
  induction rs generalizing store with
  | nil => rfl
  | cons r rs ih =>
    rw [List.foldl_cons, ih fun r' hr' => h r' (List.mem_cons_of_mem _ hr'), chooseInstance]
    split
    · rename_i htype
      have hne : k ≠ r.key := fun heq => h r List.mem_cons_self heq.symm htype
      cases htier : eligible sources r with
      | none => rfl
      | some t => rw [assignSome, find_assign, if_neg hne]
    · rfl

theorem find_chooseVolumes {k : RowKey} {rs : List TagRow}
    (h : ∀ r ∈ rs, r.key = k → r.resourceType ≠ lit "ebs") (store : List (RowKey × Tier)) :
    find k (rs.foldl (chooseVolume sources) store) = find k store := by
  induction rs generalizing store with
  | nil => rfl
  | cons r rs ih =>
    have hkeep : ∀ tier, r.resourceType = lit "ebs" →
        find k (assignSome r.key tier store) = find k store := by
      intro tier htype
      have hne : k ≠ r.key := fun heq => h r List.mem_cons_self heq.symm htype
      cases tier with
      | none => rfl
      | some t => rw [assignSome, find_assign, if_neg hne]
    rw [List.foldl_cons, ih fun r' hr' => h r' (List.mem_cons_of_mem _ hr'), chooseVolume]
    split
    · rename_i htype
      split <;> exact hkeep _ htype
    · rfl

theorem ec2_ne_ebs : lit "ec2" ≠ lit "ebs" := by decide

/-- A row met once: nothing before or after it has its key. -/
theorem split_at_row (hkeys : (rows.map TagRow.key).Nodup) {r : TagRow} (hr : r ∈ rows) :
    ∃ front back, rows = front ++ r :: back ∧ (∀ s ∈ front, s.key ≠ r.key) ∧
      ∀ s ∈ back, s.key ≠ r.key := by
  obtain ⟨front, back, rfl⟩ := List.append_of_mem hr
  rw [List.map_append, List.map_cons, List.nodup_append] at hkeys
  obtain ⟨-, hback, hdisjoint⟩ := hkeys
  refine ⟨front, back, rfl, fun s hs => ?_, fun s hs heq => ?_⟩
  · exact hdisjoint _ (List.mem_map_of_mem hs) _ List.mem_cons_self
  · exact (List.nodup_cons.mp hback).1 (heq ▸ List.mem_map_of_mem hs)

theorem find_choose_instance (hkeys : (rows.map TagRow.key).Nodup) {r : TagRow} {t : Tier}
    (hr : r ∈ rows) (htype : r.resourceType = lit "ec2") (h : eligible sources r = some t) :
    find r.key (rows.foldl (chooseInstance sources) []) = some t := by
  obtain ⟨front, back, hrows, -, hback⟩ := split_at_row hkeys hr
  rw [hrows, List.foldl_append, List.foldl_cons,
    find_chooseInstances fun s hs heq => absurd heq (hback s hs), chooseInstance, if_pos htype, h,
    assignSome, find_assign, if_pos rfl]

/-- The rows whose environment is decided without another volume. -/
def Settled (sources : List Source) (rows : List TagRow) (r : TagRow) (t : Tier) : Prop :=
  (r.resourceType = lit "ec2" ∧ eligible sources r = some t) ∨
    (r.resourceType = lit "ebs" ∧ tagsParent r = none ∧ eligible sources r = some t) ∨
    (r.resourceType = lit "ebs" ∧ ∃ parent ∈ rows, tagsParent r = some parent.resourceId ∧
      parent.awsAccountId = r.awsAccountId ∧ parent.resourceType = lit "ec2" ∧
      eligible sources parent = some t)

theorem find_choose_settled (hkeys : (rows.map TagRow.key).Nodup) {r : TagRow} {t : Tier}
    (hr : r ∈ rows) (h : Settled sources rows r t) :
    find r.key (choose sources rows) = some t := by
  have hinstance : ∀ s ∈ rows, s.resourceType = lit "ec2" → ∀ rs, rs ⊆ rows → ∀ store,
      find s.key (rs.foldl (chooseVolume sources) store) = find s.key store := by
    intro s hs htype rs hsub store
    refine find_chooseVolumes (fun s' hs' heq => ?_) store
    rw [eq_of_key hkeys (hsub hs') hs heq, htype]
    exact ec2_ne_ebs
  rcases h with ⟨htype, h⟩ | ⟨htype, hparent, h⟩ | ⟨htype, parent, hp, hparent, hacct, hec2, h⟩
  · rw [choose, hinstance r hr htype rows fun _ h => h]
    exact find_choose_instance hkeys hr htype h
  · obtain ⟨front, back, hrows, -, hback⟩ := split_at_row hkeys hr
    have hstep : ∀ store, find r.key (chooseVolume sources store r) = some t := by
      intro store
      rw [chooseVolume, if_pos htype, hparent, h]
      exact (find_assign _ _ _ _).trans (if_pos rfl)
    rw [choose]
    generalize rows.foldl (chooseInstance sources) [] = store
    rw [hrows, List.foldl_append, List.foldl_cons,
      find_chooseVolumes fun s hs heq => absurd heq (hback s hs), hstep]
  · obtain ⟨front, back, hrows, -, hback⟩ := split_at_row hkeys hr
    have hstored := find_choose_instance hkeys hp hec2 h
    have hfront : front ⊆ rows := fun s hs => hrows ▸ List.mem_append_left _ hs
    have hkept := (hinstance parent hp hec2 front hfront
      (rows.foldl (chooseInstance sources) [])).trans hstored
    have hkey : parent.key = (r.awsAccountId, parent.resourceId) := Prod.ext hacct rfl
    rw [hkey] at hkept
    rw [choose]
    generalize rows.foldl (chooseInstance sources) [] = store at hkept ⊢
    rw [hrows, List.foldl_append, List.foldl_cons,
      find_chooseVolumes fun s hs heq => absurd heq (hback s hs), chooseVolume, if_pos htype,
      hparent]
    simp only [hkept, assignSome, find_assign, if_pos]

theorem find_byKey (hkeys : (rows.map TagRow.key).Nodup) {r : TagRow} (hr : r ∈ rows) :
    find r.key (byKey rows) = some r := by
  obtain ⟨front, back, hrows, -, hback⟩ := split_at_row hkeys hr
  have hkeep : ∀ (rs : List TagRow) (store : List (RowKey × TagRow)),
      (∀ s ∈ rs, s.key ≠ r.key) →
      find r.key (rs.foldl (fun d s => assign s.key s d) store) = find r.key store := by
    intro rs
    induction rs with
    | nil => exact fun _ _ => rfl
    | cons s rs ih =>
      intro store h
      rw [List.foldl_cons, ih _ fun s' hs' => h s' (List.mem_cons_of_mem _ hs'), find_assign,
        if_neg (Ne.symm (h s List.mem_cons_self))]
  rw [byKey, hrows, List.foldl_append, List.foldl_cons, hkeep back _ hback, find_assign, if_pos rfl]

/-- What is decided, kept by the filters and accepted by the patterns is exported. -/
theorem exported_of_settled {f : Filters} (hkeys : (rows.map TagRow.key).Nodup) {r : TagRow}
    {t : Tier} (hr : r ∈ rows) (h : Settled f.sources rows r t)
    (hkeeps : f.keeps ⟨r, t⟩ = true) (hvalid : (⟨r, t⟩ : Export).valid = true) :
    ⟨r, t⟩ ∈ exported f rows := by
  have hchosen : (r.key, t) ∈ choose f.sources rows :=
    mem_of_find (find_choose_settled hkeys hr h)
  refine List.mem_filter.mpr ⟨List.mem_filter.mpr ⟨?_, hkeeps⟩, hvalid⟩
  exact List.mem_filterMap.mpr ⟨_, hchosen, by rw [find_byKey hkeys hr]; rfl⟩

end MonitoringHub.TagScript
