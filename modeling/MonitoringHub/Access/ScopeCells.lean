import Mathlib.Data.Fintype.EquivFin
import MonitoringHub.Access.Scope

/-! Scopes as sets of targets. A scope is a product: each dimension restricts its own
column and each key of the selector its own tag. Two scopes meet if they do in every
dimension; a scope is the union of its cells, in which every listed dimension is cut
down to one value; and a union of scopes holds a cell only if one of them does. -/

namespace MonitoringHub.Access

namespace Scope

/-- What the selector says of one key: a value each of its entries allows. -/
def permitsTag (s : Scope) (key : String) (value : Option String) : Prop :=
  ∀ entry ∈ s.tagSelector.getD [], entry.1 = key → value ∈ entry.2.list

/-- Every tag value the inner scope allows, the outer one allows. -/
def TagsContain (outer inner : Scope) : Prop :=
  ∀ key value, inner.permitsTag key value → outer.permitsTag key value

/-- The selector allows no value for some key, so the scope covers nothing. -/
def Vacant (s : Scope) : Prop := ∃ key, ∀ value, ¬ s.permitsTag key value

def everywhere : Scope := ⟨none, none, none, none, none, none, none⟩

variable {s u : Scope} {target : Target}

theorem tagsCover_iff :
    tagsCover s.tagSelector target = true ↔ ∀ key, s.permitsTag key (target.tag key) := by
  cases hdim : restriction s.tagSelector with
  | none =>
    have hempty : s.tagSelector.getD [] = [] := by
      unfold restriction at hdim
      cases hselector : s.tagSelector with
      | none => rfl
      | some entries => simpa [hselector] using hdim
    simp [tagsCover, hdim, permitsTag, hempty]
  | some entries =>
    rw [tagsCover_some hdim]
    simp only [permitsTag, (restriction_some.mp hdim).1, Option.getD_some]
    exact ⟨fun h key entry hentry hkey => hkey ▸ h entry hentry,
      fun h entry hentry => h entry.1 entry hentry rfl⟩

theorem permitsTag_of_notMem {key : String} (h : key ∉ s.tagKeys) (value : Option String) :
    s.permitsTag key value := by
  intro entry hentry hkey
  exact absurd (hkey ▸ List.mem_map_of_mem hentry) h

@[simp] theorem everywhere_covers : everywhere.covers target = true := rfl

theorem not_vacant_iff :
    ¬ s.Vacant ↔ ∃ f : String → Option String, ∀ key, s.permitsTag key (f key) := by
  simp only [Vacant, not_exists, not_forall, not_not]
  exact ⟨fun h => ⟨fun key => (h key).choose, fun key => (h key).choose_spec⟩,
    fun ⟨f, hf⟩ key => ⟨f key, hf key⟩⟩

end Scope

/-- One value a list dimension covers. -/
theorem exists_dimCovers (dim : Option (List String)) : ∃ value, dimCovers dim value = true := by
  cases hdim : restriction dim with
  | none => exact ⟨none, by rw [dimCovers, hdim]⟩
  | some listed =>
    obtain ⟨v, rest, rfl⟩ := List.exists_cons_of_ne_nil (restriction_some.mp hdim).2
    exact ⟨some v, (dimCovers_some hdim).mpr ⟨v, List.mem_cons_self, rfl⟩⟩

section Meeting

/-- Two scopes meet dimension by dimension. -/
structure Scope.Meets (u s : Scope) : Prop where
  cloud : ∀ c c', u.cloud = some c → s.cloud = some c' → c = c'
  account : ∀ id id', u.accountRefId = some id → s.accountRefId = some id' → id = id'
  regions : ∃ v, dimCovers u.regions v = true ∧ dimCovers s.regions v = true
  services : ∃ v, dimCovers u.services v = true ∧ dimCovers s.services v = true
  resourceGroups : ∃ v, dimCovers u.resourceGroups v = true ∧ dimCovers s.resourceGroups v = true
  resourceIds : ∃ v, dimCovers u.resourceIds v = true ∧ dimCovers s.resourceIds v = true
  tags : ∀ key, ∃ value, u.permitsTag key value ∧ s.permitsTag key value

/-- The keys two scopes read, with a value for each that both allow. -/
theorem Scope.permitsTag_of_keys {s : Scope} {target : Target} {f : String → Option String}
    {keys : List String} (htags : target.tags = some (keys.map fun key => (key, f key)))
    (hkeys : ∀ key ∈ s.tagKeys, key ∈ keys) (hf : ∀ key, s.permitsTag key (f key)) (key : String) :
    s.permitsTag key (target.tag key) := by
  by_cases hkey : key ∈ s.tagKeys
  · rw [Target.tag_of_keys htags, if_pos (hkeys key hkey)]
    exact hf key
  · exact permitsTag_of_notMem hkey _

theorem Scope.meets_iff {u s : Scope} :
    (∃ target, u.covers target = true ∧ s.covers target = true) ↔ u.Meets s := by
  constructor
  · rintro ⟨target, hu, hs⟩
    obtain ⟨hcloud, haccount, hregions, hservices, hgroups, hids, htags⟩ := covers_iff.mp hu
    obtain ⟨hcloud', haccount', hregions', hservices', hgroups', hids', htags'⟩ := covers_iff.mp hs
    rw [tagsCover_iff] at htags htags'
    exact ⟨fun c c' hc hc' => Option.some.inj ((hcloud c hc).symm.trans (hcloud' c' hc')),
      fun id id' hid hid' => Option.some.inj ((haccount id hid).symm.trans (haccount' id' hid')),
      ⟨_, hregions, hregions'⟩, ⟨_, hservices, hservices'⟩, ⟨_, hgroups, hgroups'⟩,
      ⟨_, hids, hids'⟩, fun key => ⟨_, htags key, htags' key⟩⟩
  · rintro ⟨hcloud, haccount, ⟨region, hregion⟩, ⟨service, hservice⟩, ⟨group, hgroup⟩, ⟨id, hid⟩, htags⟩
    choose f hf using htags
    have hkeys : ∀ key ∈ u.tagKeys, key ∈ u.tagKeys ++ s.tagKeys := fun _ => List.mem_append_left _
    have hkeys' : ∀ key ∈ s.tagKeys, key ∈ u.tagKeys ++ s.tagKeys := fun _ => List.mem_append_right _
    refine ⟨⟨u.cloud.or s.cloud, u.accountRefId.or s.accountRefId, region, service, id, group,
      some ((u.tagKeys ++ s.tagKeys).map fun key => (key, f key))⟩, ?_, ?_⟩
    · refine covers_iff.mpr ⟨fun c hc => by simp [hc], fun a ha => by simp [ha], hregion.1,
        hservice.1, hgroup.1, hid.1, tagsCover_iff.mpr ?_⟩
      exact permitsTag_of_keys rfl hkeys fun key => (hf key).1
    · refine covers_iff.mpr ⟨fun c hc => ?_, fun a ha => ?_, hregion.2, hservice.2, hgroup.2, hid.2,
        tagsCover_iff.mpr ?_⟩
      · cases hu : u.cloud with
        | none => simp [hc]
        | some c' => simp [hcloud c' c hu hc]
      · cases hu : u.accountRefId with
        | none => simp [ha]
        | some a' => simp [haccount a' a hu ha]
      · exact permitsTag_of_keys rfl hkeys' fun key => (hf key).2

end Meeting

section Cells

/-- A dimension cut down to one of its values, if it has any. -/
def DimCell (dim cell : Option (List String)) : Prop :=
  match restriction dim with
  | none => cell = none
  | some listed => ∃ v ∈ listed, cell = some [v]

/-- The value a cell leaves: an open dimension leaves none. -/
def cellValue (cell : Option (List String)) : Option String := cell.bind List.head?

/-- A cell of a scope: one value in every restricted dimension and for every tag key. -/
structure Scope.CellOf (c s : Scope) (pick : String → Option String) : Prop where
  cloud : c.cloud = s.cloud
  account : c.accountRefId = s.accountRefId
  regions : DimCell s.regions c.regions
  services : DimCell s.services c.services
  resourceGroups : DimCell s.resourceGroups c.resourceGroups
  resourceIds : DimCell s.resourceIds c.resourceIds
  tags : c.tagSelector =
    s.tagSelector.map fun entries => entries.map fun entry => (entry.1, .only (pick entry.1))
  permitted : ∀ key, s.permitsTag key (pick key)

variable {dim cell : Option (List String)} {value : Option String}

theorem dimCovers_singleton {v : String} : dimCovers (some [v]) value = true ↔ value = some v := by
  have hcell : restriction (some [v]) = some [v] := rfl
  rw [dimCovers_some hcell]
  simp

theorem DimCell.covers (h : DimCell dim cell) (hvalue : dimCovers cell value = true) :
    dimCovers dim value = true := by
  unfold DimCell at h
  split at h
  · rename_i hopen
    rw [dimCovers, hopen]
  · rename_i listed hlisted
    obtain ⟨v, hv, rfl⟩ := h
    exact (dimCovers_some hlisted).mpr ⟨v, hv, dimCovers_singleton.mp hvalue⟩

theorem DimCell.covers_cellValue (h : DimCell dim cell) : dimCovers cell (cellValue cell) = true := by
  unfold DimCell at h
  split at h
  · rw [h]
    rfl
  · obtain ⟨v, -, rfl⟩ := h
    exact dimCovers_singleton.mpr rfl

theorem exists_dimCell (h : dimCovers dim value = true) :
    ∃ cell, DimCell dim cell ∧ dimCovers cell value = true := by
  cases hdim : restriction dim with
  | none => exact ⟨none, by rw [DimCell, hdim], rfl⟩
  | some listed =>
    obtain ⟨v, hv, rfl⟩ := (dimCovers_some hdim).mp h
    refine ⟨some [v], ?_, dimCovers_singleton.mpr rfl⟩
    rw [DimCell, hdim]
    exact ⟨v, hv, rfl⟩

/-- Of a selector with one value a key, the entries have that value. -/
theorem only_of_mem {selector : Option (List (String × TagAllowed))}
    {pick : String → Option String} {entry : String × TagAllowed}
    (h : entry ∈ (selector.map fun entries =>
      entries.map fun entry => (entry.1, TagAllowed.only (pick entry.1))).getD []) :
    entry.2 = .only (pick entry.1) := by
  cases selector with
  | none => cases h
  | some entries =>
    obtain ⟨entry', -, rfl⟩ := List.mem_map.mp h
    rfl

/-- A target lies in a cell of every scope that covers it. -/
theorem Scope.exists_cell {s : Scope} {target : Target} (h : s.covers target = true) :
    ∃ c : Scope, c.CellOf s target.tag ∧ c.covers target = true := by
  obtain ⟨hcloud, haccount, hregions, hservices, hgroups, hids, htags⟩ := covers_iff.mp h
  obtain ⟨regions, hregions, hregion⟩ := exists_dimCell hregions
  obtain ⟨services, hservices, hservice⟩ := exists_dimCell hservices
  obtain ⟨groups, hgroups, hgroup⟩ := exists_dimCell hgroups
  obtain ⟨ids, hids, hid⟩ := exists_dimCell hids
  refine ⟨⟨s.cloud, s.accountRefId, regions, services, groups, ids, s.tagSelector.map fun entries =>
    entries.map fun entry => (entry.1, .only (target.tag entry.1))⟩,
    ⟨rfl, rfl, hregions, hservices, hgroups, hids, rfl, tagsCover_iff.mp htags⟩,
    covers_iff.mpr ⟨hcloud, haccount, hregion, hservice, hgroup, hid, tagsCover_iff.mpr ?_⟩⟩
  intro key entry hentry hkey
  simp [only_of_mem hentry, TagAllowed.list, ← hkey]

end Cells

end MonitoringHub.Access
