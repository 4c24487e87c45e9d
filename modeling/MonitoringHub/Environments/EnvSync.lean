import Mathlib.Data.List.Dedup
import MonitoringHub.Environments.ResolveEnvironment
import MonitoringHub.Lib.DerivedRows
import MonitoringHub.Lib.GroupTally

/-! Environment-sync passes and the edits that cause them. A pass reads rows, edges, overrides and
account defaults at once, classifies every row, and writes the ones in its scope that differ, each
only if the override of the row is still the one it read. -/

namespace MonitoringHub.Environments
open Alerts Lib

/-- The columns of a resource that neither passes nor edits write; `live` are the rows that the
select of a pass returns. -/
structure ResourceRow where
  id : ℕ
  account : ℕ
  resourceId : String
  resourceType : String
  name : Option String
  tags : Tags
  synced : Option Tags
  provider : String
  live : Bool
  deriving DecidableEq, Repr

/-- What people edit: `env_override` of a resource and `default_env` of an account. -/
structure Inputs where
  override : ℕ → Option Tier
  defaultEnv : ℕ → Option Tier

/-- `env_resolved`, `env_source`, `env_reason` and `tag_state` -/
structure Stored where
  env : Option Tier
  source : Option Source
  reason : Option String
  state : Option TagState
  deriving DecidableEq, Repr

/-- What a pass would store. -/
structure Outcome where
  finding : Finding
  state : TagState
  deriving DecidableEq, Repr

/-- `same`: nothing to write. -/
def Stored.Same (s : Stored) (o : Outcome) : Prop :=
  s.env = some o.finding.resolution.env ∧ s.source = some o.finding.resolution.source ∧
    s.reason.getD "" = o.finding.reason ∧ s.state = some o.state

instance (s : Stored) (o : Outcome) : Decidable (s.Same o) :=
  inferInstanceAs (Decidable (_ ∧ _ ∧ _ ∧ _))

def Outcome.stored (o : Outcome) : Stored :=
  ⟨some o.finding.resolution.env, some o.finding.resolution.source, some o.finding.reason,
    some o.state⟩

theorem Outcome.stored_same (o : Outcome) : o.stored.Same o := ⟨rfl, rfl, rfl, rfl⟩

/-- The rows and their 'attached_to' edges, and the switches a pass reads. -/
structure Inventory where
  repr : String → String
  tagSync : Bool
  feedsEnvironment : Bool
  rows : List ResourceRow
  ids : (rows.map ResourceRow.id).Nodup
  edges : List (ℕ × String × String)

/-- What a pass is asked to look after. -/
inductive Request
  | all
  | account (account : ℕ)
  | resources (pks : List ℕ)
  deriving DecidableEq, Repr

/-- `POST /classify` (`none` clears) and `PUT /accounts/{id}/default`. -/
inductive Edit
  | classify (pks : List ℕ) (choice : Option Tier)
  | setAccountDefault (account : ℕ) (choice : Option Tier)
  deriving DecidableEq, Repr

namespace ResourceRow

/-- `_row_synced` -/
def rowSynced (r : ResourceRow) : Option Tags := usableSynced r.resourceType r.synced

def label (r : ResourceRow) : String :=
  r.resourceType ++ " " ++ ((r.name.filter (· ≠ "")).getD r.resourceId)

end ResourceRow

section Classify

/-- `by_key`: the last row of an account and resource id. -/
def byKey (rows : List ResourceRow) (account : ℕ) (resourceId : String) : Option ResourceRow :=
  (rows.filter fun r => r.account = account ∧ r.resourceId = resourceId).getLast?

/-- The two rows that an edge attaches, parent first. -/
def ends (rows : List ResourceRow) (edge : ℕ × String × String) :
    Option (ResourceRow × ResourceRow) :=
  (byKey rows edge.1 edge.2.1).bind fun p => (byKey rows edge.1 edge.2.2).bind fun c =>
    if p.id ≠ c.id then some (p, c) else none

def attached (rows : List ResourceRow) (edges : List (ℕ × String × String)) :
    List (ResourceRow × ResourceRow) := edges.filterMap (ends rows)

/-- `parents_of` at an id. -/
def parentsOf (rows : List ResourceRow) (edges : List (ℕ × String × String)) (id : ℕ) :
    List ResourceRow := ((attached rows edges).filter fun e => e.2.id = id).map Prod.fst

/-- The keys of `parents_of`, in order. -/
def childIds (rows : List ResourceRow) (edges : List (ℕ × String × String)) : List ℕ :=
  ((attached rows edges).map fun e => e.2.id).eraseDups

/-- Whether an account is among those that are loaded; `none` is every account. -/
def listed (accounts : Option (List ℕ)) (account : ℕ) : Bool :=
  accounts.all fun ids => ids.contains account

end Classify

namespace Inventory
variable (inv : Inventory)

/-- `_row_provider` -/
def rowProvider (r : ResourceRow) : Option String :=
  if inv.tagSync then (some (lowered r.provider)).filter fun p => (providerTagTypes p).isSome
  else none

/-- The tags that decide, with those of the tag sync over them where they may. -/
def rowTags (r : ResourceRow) : Tags :=
  if inv.feedsEnvironment then
    (r.rowSynced.getD []).foldl (fun tags t => GroupTally.upsert t.1 t.2 (fun _ => t.2) tags) r.tags
  else r.tags

/-- `resolve_row` -/
def resolveRow (x : Inputs) (r : ResourceRow) (related : List (Resolution × String)) : Finding :=
  resolveEnvironment inv.repr ((x.override r.id).map tierText) (inv.rowTags r) r.name
    (some r.resourceId) ((x.defaultEnv r.account).map tierText) related

/-- `classify_rows` at a row: on its own, or with what its parents are on their own. -/
def classifyRow (rows : List ResourceRow) (edges : List (ℕ × String × String)) (x : Inputs)
    (r : ResourceRow) : Finding :=
  inv.resolveRow x r <| (parentsOf rows edges r.id).map fun p =>
    ((inv.resolveRow x p []).resolution, p.label)

/-- What a pass over these rows makes of a row. -/
def outcome (rows : List ResourceRow) (edges : List (ℕ × String × String)) (x : Inputs)
    (r : ResourceRow) : Outcome :=
  ⟨inv.classifyRow rows edges x r,
    tagState r.resourceType r.tags r.rowSynced (inv.rowProvider r)⟩

/-- The accounts whose rows are loaded, `none` for every account. -/
def accountIds : Request → Option (List ℕ)
  | .all => none
  | .account account => some [account]
  | .resources pks =>
    if pks = [] then none
    else some ((inv.rows.filter fun r => r.id ∈ pks).map ResourceRow.account).dedup

/-- `_load` -/
def load (accounts : Option (List ℕ)) : List ResourceRow :=
  inv.rows.filter fun r => r.live ∧ listed accounts r.account

/-- `_load_edges` -/
def loadEdges (accounts : Option (List ℕ)) : List (ℕ × String × String) :=
  inv.edges.filter fun e => listed accounts e.1

/-- A child joins the scope if one of its parents is in it. -/
def widen (parents : ℕ → List ResourceRow) (scope : List ℕ) (c : ℕ) : List ℕ :=
  if (parents c).any fun p => scope.contains p.id then c :: scope else scope

/-- The ids that may be written, `none` for every id. The set grows while `parents_of` is gone
through. -/
def scope (rows : List ResourceRow) (edges : List (ℕ × String × String)) :
    Request → Option (List ℕ)
  | .resources pks =>
    if pks = [] then none
    else some ((childIds rows edges).foldl (widen (parentsOf rows edges)) pks)
  | _ => none

/-- The updates of a pass, by ascending id. -/
def updates (req : Request) (x : Inputs) (stored : ResourceRow → Stored) :
    List (ResourceRow × Outcome) :=
  let rows := inv.load (inv.accountIds req)
  let edges := inv.loadEdges (inv.accountIds req)
  let scope := scope rows edges req
  ((rows.map fun r => (r, inv.outcome rows edges x r)).filter fun u =>
    (scope.all fun ids => ids.contains u.1.id) ∧ ¬(stored u.1).Same u.2).insertionSort
      fun u u' => u.1.id ≤ u'.1.id

variable {inv} {accounts : Option (List ℕ)} {r p : ResourceRow} {rows : List ResourceRow}
  {edges : List (ℕ × String × String)}

theorem mem_load : r ∈ inv.load accounts ↔ r ∈ inv.load none ∧ listed accounts r.account := by
  simp [load, listed, and_assoc]

theorem eq_of_id (hr : r ∈ inv.load accounts) (hp : p ∈ inv.load none) (h : r.id = p.id) : r = p :=
  List.inj_on_of_nodup_map inv.ids (List.mem_filter.mp hr).1 (List.mem_filter.mp hp).1 h

theorem byKey_some {account : ℕ} {resourceId : String}
    (h : byKey rows account resourceId = some r) :
    r ∈ rows ∧ r.account = account := by
  obtain ⟨hr, hkey⟩ := List.mem_filter.mp (List.mem_of_getLast? h)
  exact ⟨hr, (of_decide_eq_true hkey).1⟩

theorem byKey_load {account : ℕ} {resourceId : String} (h : listed accounts account = true) :
    byKey (inv.load accounts) account resourceId = byKey (inv.load none) account resourceId := by
  unfold byKey load
  rw [List.filter_filter, List.filter_filter]
  congr 1
  refine List.filter_congr fun r _ => ?_
  rw [Bool.eq_iff_iff]
  simp only [Bool.and_eq_true, decide_eq_true_eq]
  constructor
  · rintro ⟨hkey, hlive, -⟩
    exact ⟨hkey, hlive, rfl⟩
  · rintro ⟨⟨rfl, hid⟩, hlive, -⟩
    exact ⟨⟨rfl, hid⟩, hlive, h⟩

theorem ends_some {edge : ℕ × String × String} {e : ResourceRow × ResourceRow}
    (h : ends rows edge = some e) :
    e.1 ∈ rows ∧ e.2 ∈ rows ∧ e.1.account = edge.1 ∧ e.2.account = edge.1 := by
  obtain ⟨p, hp, h⟩ := Option.bind_eq_some_iff.mp h
  obtain ⟨c, hc, h⟩ := Option.bind_eq_some_iff.mp h
  obtain ⟨-, heq⟩ := Option.ite_none_right_eq_some.mp h
  obtain rfl := Option.some.inj heq
  exact ⟨(byKey_some hp).1, (byKey_some hc).1, (byKey_some hp).2, (byKey_some hc).2⟩

/-- Loading some accounts loads the whole of each. -/
theorem attached_load : attached (inv.load accounts) (inv.loadEdges accounts) =
    (attached (inv.load none) (inv.loadEdges none)).filter
      fun e => listed accounts e.2.account := by
  have hall : inv.loadEdges none = inv.edges := List.filter_eq_self.mpr fun _ _ => rfl
  unfold attached
  rw [hall, loadEdges, List.filterMap_filter, List.filter_filterMap]
  refine List.filterMap_congr fun edge _ => ?_
  split
  · rename_i hlisted
    have hends : ends (inv.load accounts) edge = ends (inv.load none) edge := by
      unfold ends
      rw [byKey_load hlisted, byKey_load hlisted]
    rw [hends]
    cases hend : ends (inv.load none) edge with
    | none => rfl
    | some e =>
      rw [Option.filter_some, (ends_some hend).2.2.2, if_pos hlisted]
  · rename_i hlisted
    cases hend : ends (inv.load none) edge with
    | none => rfl
    | some e =>
      rw [Option.filter_some, (ends_some hend).2.2.2, if_neg hlisted]

/-- So a row has the parents it has among all rows. -/
theorem parentsOf_load (hr : r ∈ inv.load accounts) :
    parentsOf (inv.load accounts) (inv.loadEdges accounts) r.id =
      parentsOf (inv.load none) (inv.loadEdges none) r.id := by
  unfold parentsOf
  rw [attached_load, List.filter_filter]
  congr 1
  refine List.filter_congr fun e he => ?_
  obtain ⟨edge, -, hend⟩ := List.mem_filterMap.mp he
  rw [Bool.eq_iff_iff]
  simp only [Bool.and_eq_true, decide_eq_true_eq, and_iff_left_iff_imp]
  intro hid
  rw [← eq_of_id hr (ends_some hend).2.1 hid.symm]
  exact (mem_load.mp hr).2

theorem outcome_load {x : Inputs} (hr : r ∈ inv.load accounts) :
    inv.outcome (inv.load accounts) (inv.loadEdges accounts) x r =
      inv.outcome (inv.load none) (inv.loadEdges none) x r := by
  unfold outcome classifyRow
  rw [parentsOf_load hr]

/-- A parent is a row of the account of its child. -/
theorem parent_account (hr : r ∈ inv.load none)
    (hp : p ∈ parentsOf (inv.load none) (inv.loadEdges none) r.id) :
    p ∈ inv.load none ∧ p.account = r.account := by
  obtain ⟨⟨p', c⟩, he, rfl⟩ := List.mem_map.mp hp
  obtain ⟨hattached, hid⟩ := List.mem_filter.mp he
  obtain ⟨edge, -, hend⟩ := List.mem_filterMap.mp hattached
  obtain ⟨hp', hc, hpa, hca⟩ := ends_some hend
  obtain rfl := eq_of_id hr hc (of_decide_eq_true hid).symm
  exact ⟨hp', hpa.trans hca.symm⟩

/-- The rows that a pass asked for by a request looks after. -/
def Covers (inv : Inventory) (req : Request) (r : ResourceRow) : Prop :=
  r ∈ inv.load none ∧
    match req with
    | .all => True
    | .account account => r.account = account
    | .resources pks => pks = [] ∨ r.id ∈ pks ∨
        ∃ p ∈ parentsOf (inv.load none) (inv.loadEdges none) r.id, p.id ∈ pks

theorem load_of_covers {req : Request} (h : inv.Covers req r) :
    r ∈ inv.load (inv.accountIds req) := by
  obtain ⟨hr, hreq⟩ := h
  refine mem_load.mpr ⟨hr, ?_⟩
  cases req with
  | all => rfl
  | account account => simpa [accountIds, listed] using hreq
  | resources pks =>
    by_cases hnil : pks = []
    · rw [accountIds, if_pos hnil]
      rfl
    · have hnamed : ∃ p ∈ inv.load none, p.id ∈ pks ∧ p.account = r.account := by
        rcases hreq with hempty | hid | ⟨p, hp, hid⟩
        · exact absurd hempty hnil
        · exact ⟨r, hr, hid, rfl⟩
        · obtain ⟨hpr, haccount⟩ := parent_account hr hp
          exact ⟨p, hpr, hid, haccount⟩
      obtain ⟨p, hp, hid, haccount⟩ := hnamed
      have hmem : r.account ∈ (inv.rows.filter fun r => r.id ∈ pks).map ResourceRow.account :=
        List.mem_map.mpr ⟨p, List.mem_filter.mpr ⟨(List.mem_filter.mp hp).1, by simpa⟩, haccount⟩
      rw [accountIds, if_neg hnil, listed, Option.all_some, List.contains_iff_mem, List.mem_dedup]
      exact hmem

section Scope
variable {parents : ℕ → List ResourceRow} {cs scope : List ℕ} {c i : ℕ}

theorem mem_widen (h : i ∈ scope) : i ∈ cs.foldl (widen parents) scope := by
  refine List.foldlRecOn cs _ h fun scope h c _ => ?_
  unfold widen
  split
  · exact List.mem_cons_of_mem _ h
  · exact h

theorem child_mem_widen (hc : c ∈ cs) (hparent : ∃ p ∈ parents c, p.id ∈ scope) :
    c ∈ cs.foldl (widen parents) scope := by
  induction cs generalizing scope with
  | nil => cases hc
  | cons c' cs ih =>
    obtain ⟨p, hp, hid⟩ := hparent
    rw [List.foldl_cons]
    rcases List.mem_cons.mp hc with rfl | hc
    · refine mem_widen ?_
      have hany : ((parents c).any fun p => scope.contains p.id) = true :=
        List.any_eq_true.mpr ⟨p, hp, by simpa using hid⟩
      unfold widen
      rw [if_pos hany]
      exact List.mem_cons_self
    · refine ih hc ⟨p, hp, ?_⟩
      unfold widen
      split
      · exact List.mem_cons_of_mem _ hid
      · exact hid

end Scope

theorem childIds_of_parent (h : p ∈ parentsOf rows edges r.id) : r.id ∈ childIds rows edges := by
  obtain ⟨e, he, rfl⟩ := List.mem_map.mp h
  obtain ⟨hattached, hid⟩ := List.mem_filter.mp he
  rw [childIds, List.mem_eraseDups]
  exact List.mem_map.mpr ⟨e, hattached, of_decide_eq_true hid⟩

theorem scope_of_covers {req : Request} (h : inv.Covers req r) :
    (scope (inv.load (inv.accountIds req)) (inv.loadEdges (inv.accountIds req)) req).all
      (fun ids => ids.contains r.id) = true := by
  have hload := load_of_covers h
  obtain ⟨hr, hreq⟩ := h
  cases req with
  | all => rfl
  | account account => rfl
  | resources pks =>
    by_cases hnil : pks = []
    · rw [scope, if_pos hnil]
      rfl
    · rw [scope, if_neg hnil, Option.all_some, List.contains_iff_mem]
      rcases hreq with hempty | hid | ⟨p, hp, hid⟩
      · exact absurd hempty hnil
      · exact mem_widen hid
      · rw [← parentsOf_load hload] at hp
        exact child_mem_widen (childIds_of_parent hp) ⟨p, hp, hid⟩

theorem mem_updates {req : Request} {x : Inputs} {stored : ResourceRow → Stored} {o : Outcome} :
    (r, o) ∈ inv.updates req x stored ↔ r ∈ inv.load (inv.accountIds req) ∧
      o = inv.outcome (inv.load none) (inv.loadEdges none) x r ∧ ¬(stored r).Same o ∧
      (scope (inv.load (inv.accountIds req)) (inv.loadEdges (inv.accountIds req)) req).all
        (fun ids => ids.contains r.id) = true := by
  simp only [updates, List.mem_insertionSort, List.mem_filter, List.mem_map, Prod.mk.injEq,
    decide_eq_true_eq]
  constructor
  · rintro ⟨⟨r', hr', rfl, rfl⟩, hscope, hdiffers⟩
    exact ⟨hr', outcome_load hr', hdiffers, hscope⟩
  · rintro ⟨hr, rfl, hdiffers, hscope⟩
    exact ⟨⟨r, hr, rfl, outcome_load hr⟩, hscope, hdiffers⟩

end Inventory

def Edit.apply (x : Inputs) : Edit → Inputs
  | .classify pks choice =>
    { x with override := fun id => if id ∈ pks then choice else x.override id }
  | .setAccountDefault account choice =>
    { x with defaultEnv := Function.update x.defaultEnv account choice }

/-- What `_resync` is asked for after the edit. -/
def Edit.request : Edit → Request
  | .classify pks _ => .resources pks
  | .setAccountDefault account _ => .account account

/-- What a row's outcome depends on besides its own override: the default of its account, and what
its parents are judged by. -/
def Inventory.inherited (inv : Inventory) (x : Inputs) (r : ResourceRow) :
    Option Tier × List (Option Tier × Option Tier) :=
  (x.defaultEnv r.account, (parentsOf (inv.load none) (inv.loadEdges none) r.id).map fun p =>
    (x.override p.id, x.defaultEnv p.account))

section Edits
variable {inv : Inventory} {x x' : Inputs} {r : ResourceRow}

theorem Inventory.outcome_congr (hown : x.override r.id = x'.override r.id)
    (hinherited : inv.inherited x r = inv.inherited x' r) :
    inv.outcome (inv.load none) (inv.loadEdges none) x r =
      inv.outcome (inv.load none) (inv.loadEdges none) x' r := by
  obtain ⟨hdefault, hparents⟩ := Prod.mk.inj hinherited
  have hrelated : ((parentsOf (inv.load none) (inv.loadEdges none) r.id).map fun p =>
        ((inv.resolveRow x p []).resolution, p.label)) =
      (parentsOf (inv.load none) (inv.loadEdges none) r.id).map fun p =>
        ((inv.resolveRow x' p []).resolution, p.label) := by
    refine List.map_congr_left fun p hp => ?_
    obtain ⟨hoverride, hdefault⟩ := Prod.mk.inj (List.map_inj_left.mp hparents p hp)
    unfold resolveRow
    rw [hoverride, hdefault]
  unfold outcome classifyRow
  rw [hrelated]
  unfold resolveRow
  rw [hown, hdefault]

/-- An edit changes nothing that a row it is not re-resolved for depends on. -/
theorem Edit.reach {e : Edit} (hr : r ∈ inv.load none) (h : ¬inv.Covers e.request r) :
    (e.apply x).override r.id = x.override r.id ∧
      inv.inherited (e.apply x) r = inv.inherited x r := by
  cases e with
  | classify pks choice =>
    have hid : r.id ∉ pks := fun hid => h ⟨hr, .inr (.inl hid)⟩
    refine ⟨if_neg hid, Prod.ext rfl (List.map_congr_left fun p hp => ?_)⟩
    have hpid : p.id ∉ pks := fun hpid => h ⟨hr, .inr (.inr ⟨p, hp, hpid⟩)⟩
    exact Prod.ext (if_neg hpid) rfl
  | setAccountDefault account choice =>
    have haccount : r.account ≠ account := fun haccount => h ⟨hr, haccount⟩
    refine ⟨rfl, Prod.ext (Function.update_of_ne haccount _ _)
      (List.map_congr_left fun p hp => Prod.ext rfl ?_)⟩
    have hparent : p.account ≠ account := (Inventory.parent_account hr hp).2 ▸ haccount
    exact Function.update_of_ne hparent _ _

end Edits

/-- The stored columns as derived rows: an update is guarded by `env_override` only. -/
def Inventory.derivation (inv : Inventory) : Derivation Inputs ResourceRow Outcome Stored Request
    Edit (Option Tier) (Option Tier × List (Option Tier × Option Tier)) where
  Row r := r ∈ inv.load none
  value x r := inv.outcome (inv.load none) (inv.loadEdges none) x r
  own x r := x.override r.id
  dep x r := inv.inherited x r
  shows s o := s.Same o
  put := Outcome.stored
  covers := inv.Covers
  plan := inv.updates
  edit e x := e.apply x
  request := Edit.request
  value_congr := Inventory.outcome_congr
  shows_put := Outcome.stored_same
  mem_plan h := (mem_updates.mp h).2.1
  planned hcovers hdiffers := ⟨_, mem_updates.mpr
    ⟨load_of_covers hcovers, rfl, hdiffers, scope_of_covers hcovers⟩⟩
  reach := Edit.reach

end MonitoringHub.Environments
