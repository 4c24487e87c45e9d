import Mathlib.Data.List.Nodup
import MonitoringHub.Access.AccessFilter

/-! What the filter says of one account. `accountView` folds the scopes that reach the
account, then the denials that touch it; the tables the code builds hold exactly that
view, and the SQL predicate is a test of it. -/

namespace MonitoringHub.Access
open Lib.KeyedStore

/-- What the filter holds on an account: nothing, every region, or a list. -/
abbrev RegionView := Option (Option (List String))

def widen (view : RegionView) (s : Scope) : RegionView :=
  match restriction s.regions, view with
  | none, _ => some none
  | some _, some none => some none
  | some listed, some (some existing) => some (some (existing ++ listed))
  | some listed, none => some (some listed)

def narrow (view : RegionView) (s : Scope) : RegionView :=
  if s.regionOnly then
    match view.join with
    | none => none
    | some current =>
      match remainingRegions s current with
      | [] => none
      | remaining => some (some remaining)
  else none

/-- The grant expands to the account. -/
def Scope.reaches (s : Scope) (a : Account) : Bool :=
  match s.accountRefId with
  | some id => a.id = id
  | none => s.cloud.all fun c => a.provider = c

/-- The denial is about the account. -/
def Scope.touches (s : Scope) (a : Account) : Bool :=
  (s.accountRefId.all fun id => a.id = id) && s.cloud.all fun c => a.provider = c

def grantedView (scopes : List Scope) (a : Account) : RegionView :=
  (scopes.filter fun s => s.reaches a).foldl widen none

def accountView (scopes denied : List Scope) (a : Account) : RegionView :=
  (denied.filter fun s => s.touches a).foldl narrow (grantedView scopes a)

def serviceView (scopes : List Scope) : Option (List String) :=
  scopes.foldl (fun names s => addNames names s.services) (some [])

def regionShown (collate : String → String) (view : RegionView) (region : Option String) : Bool :=
  match view with
  | none => false
  | some none => true
  | some (some listed) => region.any (listedIn collate listed)

def serviceShown (collate : String → String) (names : Option (List String)) (service : String) :
    Bool :=
  names.all fun listed => listedIn collate listed service

namespace Accounts
variable {accounts : Accounts} {a : Account} (ha : a ∈ accounts.rows)
include ha

theorem mem_ids {p : Account → Bool} :
    a.id ∈ (accounts.rows.filter p).map Account.id ↔ p a = true := by
  rw [List.mem_map]
  constructor
  · rintro ⟨a', ha', hid⟩
    obtain ⟨hrow, hp⟩ := List.mem_filter.mp ha'
    rwa [List.inj_on_of_nodup_map accounts.distinct hrow ha hid] at hp
  · intro hp
    exact ⟨a, List.mem_filter.mpr ⟨ha, hp⟩, rfl⟩

theorem mem_matched {s : Scope} : a.id ∈ accounts.matched s ↔ s.reaches a = true := by
  cases hid : s.accountRefId with
  | some id => simp [matched, Scope.reaches, hid]
  | none =>
    simp only [matched, Scope.reaches, hid]
    exact mem_ids ha

theorem mem_denied {s : Scope} : a.id ∈ accounts.denied s ↔ s.touches a = true :=
  mem_ids ha

end Accounts

theorem Accounts.matched_nodup (accounts : Accounts) (s : Scope) : (accounts.matched s).Nodup := by
  unfold matched
  split
  · exact List.nodup_singleton _
  · exact accounts.distinct.sublist (List.filter_sublist.map _)

theorem Accounts.denied_nodup (accounts : Accounts) (s : Scope) : (accounts.denied s).Nodup :=
  accounts.distinct.sublist (List.filter_sublist.map _)

/-- The account set and the region map agree, and no account has an empty list. -/
structure Merged.WellFormed (m : Merged) : Prop where
  keyed : ∀ id, id ∈ m.accountIds ↔ (find id m.regions).isSome = true
  distinct : Distinct m.regions
  filled : ∀ id listed, find id m.regions = some (some listed) → listed ≠ []

section Regions
variable {map : RegionMap} {s : Scope} {id id' : AccountId}

theorem find_addRegions : find id' (addRegions s.regions map id) =
    if id' = id then widen (find id' map) s else find id' map := by
  unfold addRegions widen
  by_cases h : id' = id
  · subst h
    cases restriction s.regions with
    | none => simp [find_write]
    | some listed =>
      cases hfind : find id' map with
      | none => simp [find_write]
      | some view => cases view <;> simp [find_write, hfind]
  · rw [if_neg h]
    cases restriction s.regions with
    | none => simp [find_write, h]
    | some listed =>
      cases find id map with
      | none => simp [find_write, h]
      | some view => cases view <;> simp [find_write, h]

theorem addRegions_distinct (h : Distinct map) : Distinct (addRegions s.regions map id) := by
  unfold addRegions
  split
  · exact h.write _ _
  · split
    · exact h
    · exact h.write _ _
    · exact h.write _ _

theorem widen_isSome (view : RegionView) (s : Scope) : (widen view s).isSome = true := by
  unfold widen
  split <;> rfl

theorem widen_filled {view : RegionView} (h : ∀ listed, view = some (some listed) → listed ≠ [])
    {listed : List String} (hlisted : widen view s = some (some listed)) : listed ≠ [] := by
  unfold widen at hlisted
  split at hlisted
  · cases hlisted
  · cases hlisted
  · rename_i new existing hnew
    obtain rfl := Option.some.inj (Option.some.inj hlisted)
    exact List.append_ne_nil_of_right_ne_nil _ (restriction_some.mp hnew).2
  · rename_i new hnew
    obtain rfl := Option.some.inj (Option.some.inj hlisted)
    exact (restriction_some.mp hnew).2

end Regions

section Loops
variable {accounts : Accounts} {m : Merged} {s : Scope}

theorem foldl_insert_mem {id : AccountId} (ids known : List AccountId) :
    id ∈ ids.foldl (fun known id => known.insert id) known ↔ id ∈ known ∨ id ∈ ids := by
  induction ids generalizing known with
  | nil => simp
  | cons id' ids ih =>
    rw [List.foldl_cons, ih, List.mem_insert_iff, List.mem_cons]
    tauto

/-- One grant merged in: each account it expands to is widened, once. -/
theorem mergeScope_spec (accounts : Accounts) (h : m.WellFormed) (s : Scope) :
    (mergeScope accounts m s).WellFormed ∧
    ∀ id, find id (mergeScope accounts m s).regions =
      if id ∈ accounts.matched s then widen (find id m.regions) s else find id m.regions := by
  obtain ⟨⟨hdistinct, hfilled⟩, hfind⟩ := foldl_once
    (q := fun (map : RegionMap) id => find id map) (f := addRegions s.regions)
    (g := fun view => widen view s)
    (I := fun map => Distinct map ∧ ∀ id listed, find id map = some (some listed) → listed ≠ [])
    (fun map id hI => ⟨addRegions_distinct hI.1, fun id' listed hlisted => by
      rw [find_addRegions] at hlisted
      split at hlisted
      · exact widen_filled (hI.2 id') hlisted
      · exact hI.2 id' listed hlisted⟩)
    (fun map id id' _ => find_addRegions) (accounts.matched_nodup s) ⟨h.distinct, h.filled⟩
  refine ⟨⟨fun id => ?_, hdistinct, hfilled⟩, hfind⟩
  have hregions : find id (mergeScope accounts m s).regions =
      if id ∈ accounts.matched s then widen (find id m.regions) s else find id m.regions := hfind id
  have hids : id ∈ (mergeScope accounts m s).accountIds ↔
      id ∈ m.accountIds ∨ id ∈ accounts.matched s := foldl_insert_mem _ _
  rw [hids, hregions]
  by_cases hmatched : id ∈ accounts.matched s
  · simp [hmatched, widen_isSome]
  · simp [hmatched, h.keyed id]

theorem dropAccount_spec (h : m.WellFormed) (id : AccountId) : (m.dropAccount id).WellFormed ∧
    ∀ id', find id' (m.dropAccount id).regions = if id' = id then none else find id' m.regions := by
  have hfind : ∀ id', find id' (m.dropAccount id).regions =
      if id' = id then none else find id' m.regions := by
    intro id'
    rw [Merged.dropAccount, find_dropWhere]
    simp
  have hdistinct : Distinct (m.dropAccount id).regions := h.distinct.dropWhere fun id' => id' = id
  refine ⟨⟨fun id' => ?_, hdistinct, fun id' listed hlisted => ?_⟩, hfind⟩
  · rw [hfind]
    have hids : id' ∈ (m.dropAccount id).accountIds ↔ id' ∈ m.accountIds ∧ id' ≠ id := by
      simp [Merged.dropAccount]
    rw [hids, h.keyed id']
    by_cases hid : id' = id <;> simp [hid]
  · rw [hfind] at hlisted
    split at hlisted
    · cases hlisted
    · exact h.filled id' listed hlisted

/-- One denial on one account narrows the view of that account. -/
theorem subtract_spec (h : m.WellFormed) (s : Scope) (id : AccountId) :
    (subtract s m id).WellFormed ∧ ∀ id', find id' (subtract s m id).regions =
      if id' = id then narrow (find id' m.regions) s else find id' m.regions := by
  have hdrop : narrow (find id m.regions) s = none → (m.dropAccount id).WellFormed ∧
      ∀ id', find id' (m.dropAccount id).regions =
        if id' = id then narrow (find id' m.regions) s else find id' m.regions := by
    intro hnone
    obtain ⟨hwf, hfind⟩ := dropAccount_spec h id
    refine ⟨hwf, fun id' => ?_⟩
    rw [hfind]
    by_cases hid : id' = id
    · rw [if_pos hid, if_pos hid, hid, hnone]
    · rw [if_neg hid, if_neg hid]
  unfold subtract
  split
  · rename_i hin
    split
    · rename_i honly
      split
      · rename_i hview
        exact hdrop (by rw [narrow, if_pos honly, hview])
      · rename_i current hview
        split
        · rename_i hgone
          exact hdrop (by simp only [narrow, if_pos honly, hview, hgone])
        · rename_i hleft
          refine ⟨⟨fun id' => ?_, h.distinct.write _ _, fun id' listed hlisted => ?_⟩, fun id' => ?_⟩
          · rw [find_write]
            by_cases hid : id' = id
            · rw [if_pos hid, hid]
              simpa using hin
            · rw [if_neg hid]
              exact h.keyed id'
          · rw [find_write] at hlisted
            split at hlisted
            · obtain rfl := Option.some.inj (Option.some.inj hlisted)
              exact hleft
            · exact h.filled id' listed hlisted
          · rw [find_write]
            by_cases hid : id' = id
            · rw [if_pos hid, if_pos hid, hid]
              simp only [narrow, if_pos honly, hview]
            · rw [if_neg hid, if_neg hid]
    · rename_i honly
      exact hdrop (by rw [narrow, if_neg honly])
  · rename_i hout
    have hnone : find id m.regions = none := by
      rw [List.contains_iff_mem, h.keyed, Option.not_isSome_iff_eq_none] at hout
      exact hout
    refine ⟨h, fun id' => ?_⟩
    by_cases hid : id' = id
    · rw [if_pos hid, hid, hnone, narrow]
      simp
    · rw [if_neg hid]

theorem subtract_services (s : Scope) (m : Merged) (id : AccountId) :
    (subtract s m id).services = m.services := by
  unfold subtract
  split
  · split
    · split
      · rfl
      · split <;> rfl
    · rfl
  · rfl

/-- One denial: each account it is about is narrowed, once. -/
theorem subtractDenial_spec (accounts : Accounts) (h : m.WellFormed) (s : Scope) :
    ((subtractDenial accounts m s).WellFormed ∧
      (subtractDenial accounts m s).services = m.services) ∧
    ∀ id, find id (subtractDenial accounts m s).regions =
      if id ∈ accounts.denied s then narrow (find id m.regions) s else find id m.regions :=
  foldl_once (q := fun (m : Merged) id => find id m.regions) (f := subtract s)
    (g := fun view => narrow view s)
    (I := fun m' => m'.WellFormed ∧ m'.services = m.services)
    (fun m' id hI => ⟨(subtract_spec hI.1 s id).1, (subtract_services s m' id).trans hI.2⟩)
    (fun _ id id' hI => (subtract_spec hI.1 s id).2 id') (accounts.denied_nodup s) ⟨h, rfl⟩

section OneAccount
variable {a : Account} (ha : a ∈ accounts.rows)
include ha

theorem mergeScopes_spec (scopes : List Scope) (h : m.WellFormed) :
    (scopes.foldl (mergeScope accounts) m).WellFormed ∧
    find a.id (scopes.foldl (mergeScope accounts) m).regions =
      (scopes.filter fun s => s.reaches a).foldl widen (find a.id m.regions) ∧
    (scopes.foldl (mergeScope accounts) m).services =
      scopes.foldl (fun names s => addNames names s.services) m.services := by
  induction scopes generalizing m with
  | nil => exact ⟨h, rfl, rfl⟩
  | cons s scopes ih =>
    obtain ⟨hwf, hfind⟩ := mergeScope_spec accounts h s
    obtain ⟨hwf', hview, hservices⟩ := ih hwf
    refine ⟨hwf', ?_, hservices⟩
    rw [List.foldl_cons, hview, hfind, List.filter_cons]
    by_cases hreach : s.reaches a = true
    · rw [if_pos ((Accounts.mem_matched ha).mpr hreach), if_pos hreach, List.foldl_cons]
    · rw [if_neg fun hm => hreach ((Accounts.mem_matched ha).mp hm), if_neg hreach]

theorem subtractDenials_spec (denied : List Scope) (h : m.WellFormed) :
    (denied.foldl (subtractDenial accounts) m).WellFormed ∧
    find a.id (denied.foldl (subtractDenial accounts) m).regions =
      (denied.filter fun s => s.touches a).foldl narrow (find a.id m.regions) ∧
    (denied.foldl (subtractDenial accounts) m).services = m.services := by
  induction denied generalizing m with
  | nil => exact ⟨h, rfl, rfl⟩
  | cons s denied ih =>
    obtain ⟨⟨hwf, hsame⟩, hfind⟩ := subtractDenial_spec accounts h s
    obtain ⟨hwf', hview, hservices⟩ := ih hwf
    refine ⟨hwf', ?_, hservices.trans hsame⟩
    rw [List.foldl_cons, hview, hfind, List.filter_cons]
    by_cases htouch : s.touches a = true
    · rw [if_pos ((Accounts.mem_denied ha).mpr htouch), if_pos htouch, List.foldl_cons]
    · rw [if_neg fun hm => htouch ((Accounts.mem_denied ha).mp hm), if_neg htouch]

end OneAccount

end Loops

section Views
variable {collate : String → String}

/-- What a list dimension shows when the database compares. -/
def dimShown (collate : String → String) (dim : Option (List String)) (value : Option String) :
    Bool :=
  match restriction dim with
  | none => true
  | some listed => value.any (listedIn collate listed)

theorem listedIn_append (xs ys : List String) (value : String) :
    listedIn collate (xs ++ ys) value = (listedIn collate xs value || listedIn collate ys value) :=
  List.any_append

theorem regionShown_widen (view : RegionView) (s : Scope) (region : Option String) :
    regionShown collate (widen view s) region =
      (regionShown collate view region || dimShown collate s.regions region) := by
  unfold widen dimShown
  cases restriction s.regions with
  | none => simp [regionShown]
  | some listed =>
    cases view with
    | none => simp [regionShown]
    | some view =>
      cases view with
      | none => simp [regionShown]
      | some existing => cases region <;> simp [regionShown, listedIn_append]

/-- The grants show a region on an account if one of those that reach it does. -/
theorem regionShown_granted (scopes : List Scope) (a : Account) (region : Option String) :
    regionShown collate (grantedView scopes a) region = true ↔
      ∃ s ∈ scopes, s.reaches a = true ∧ dimShown collate s.regions region = true := by
  have hfold : ∀ (ss : List Scope) (view : RegionView),
      regionShown collate (ss.foldl widen view) region = true ↔
        regionShown collate view region = true ∨
          ∃ s ∈ ss, dimShown collate s.regions region = true := by
    intro ss
    induction ss with
    | nil => simp
    | cons s ss ih =>
      intro view
      rw [List.foldl_cons, ih, regionShown_widen, Bool.or_eq_true, List.exists_mem_cons_iff,
        or_assoc]
  rw [grantedView, hfold]
  simp [regionShown, and_assoc]

/-- The services show a type if one of the grants does, on whatever account. -/
theorem serviceShown_merged (scopes : List Scope) (service : String) :
    serviceShown collate (serviceView scopes) service = true ↔
      ∃ s ∈ scopes, dimShown collate s.services (some service) = true := by
  have hstep : ∀ (names dim : Option (List String)),
      serviceShown collate (addNames names dim) service =
        (serviceShown collate names service || dimShown collate dim (some service)) := by
    intro names dim
    unfold addNames dimShown
    cases names with
    | none => simp [serviceShown]
    | some existing => cases restriction dim <;> simp [serviceShown, listedIn_append]
  have hfold : ∀ (ss : List Scope) (names : Option (List String)),
      serviceShown collate (ss.foldl (fun names s => addNames names s.services) names) service =
        true ↔ serviceShown collate names service = true ∨
          ∃ s ∈ ss, dimShown collate s.services (some service) = true := by
    intro ss
    induction ss with
    | nil => simp
    | cons s ss ih =>
      intro names
      rw [List.foldl_cons, ih, hstep, Bool.or_eq_true, List.exists_mem_cons_iff, or_assoc]
  rw [serviceView, hfold]
  simp [serviceShown, listedIn]

end Views

section Predicate
variable {collate : String → String} {row : Row}

theorem Sql.eval_and {p q : Sql} : (Sql.and p q).eval collate row = some true ↔
    p.eval collate row = some true ∧ q.eval collate row = some true := by
  rw [Sql.eval]
  split <;> simp_all

theorem Sql.eval_or {p q : Sql} : (Sql.or p q).eval collate row = some true ↔
    p.eval collate row = some true ∨ q.eval collate row = some true := by
  rw [Sql.eval]
  split <;> simp_all

theorem Sql.eval_conj (clauses : List Sql) : (Sql.conj clauses).eval collate row = some true ↔
    ∀ p ∈ clauses, p.eval collate row = some true := by
  induction clauses with
  | nil => simp [Sql.conj, Sql.eval]
  | cons p clauses ih =>
    cases clauses with
    | nil => simp [Sql.conj]
    | cons q clauses =>
      have hconj : Sql.conj (p :: q :: clauses) = .and p (Sql.conj (q :: clauses)) := rfl
      rw [hconj, Sql.eval_and, ih, List.forall_mem_cons (l := q :: clauses)]

theorem Sql.eval_disj (clauses : List Sql) : (Sql.disj clauses).eval collate row = some true ↔
    ∃ p ∈ clauses, p.eval collate row = some true := by
  induction clauses with
  | nil => simp [Sql.disj, Sql.eval]
  | cons p clauses ih =>
    cases clauses with
    | nil => simp [Sql.disj]
    | cons q clauses =>
      have hdisj : Sql.disj (p :: q :: clauses) = .or p (Sql.disj (q :: clauses)) := rfl
      rw [hdisj, Sql.eval_or, ih, List.exists_mem_cons_iff _ p (q :: clauses)]

/-- The clause of one account holds of the rows of that account its view shows. -/
theorem accountClause_eval {id : AccountId} {view : Option (List String)} {clause : Sql}
    (h : AccessFilter.accountClause (id, view) = some clause) :
    clause.eval collate row = some true ↔
      row.accountId = id ∧ regionShown collate (some view) row.region = true := by
  unfold AccessFilter.accountClause at h
  split at h
  · rename_i heq
    obtain ⟨rfl, rfl⟩ := Prod.mk.inj heq
    obtain rfl := Option.some.inj h
    simp [Sql.eval, regionShown]
  · cases h
  · rename_i heq
    obtain ⟨rfl, rfl⟩ := Prod.mk.inj heq
    obtain rfl := Option.some.inj h
    rw [Sql.eval_and]
    cases hregion : row.region <;> simp [Sql.eval, regionShown, hregion]

theorem accountClause_isSome (id : AccountId) {view : Option (List String)}
    (h : ∀ listed, view = some listed → listed ≠ []) :
    ∃ clause, AccessFilter.accountClause (id, view) = some clause := by
  match view with
  | none => exact ⟨_, rfl⟩
  | some [] => exact absurd rfl (h [] rfl)
  | some (region :: regions) => exact ⟨_, rfl⟩

/-- The region clause, on a row of an account the filter has. -/
theorem regionClauses_eval {m : Merged} (h : m.WellFormed) {view : Option (List String)}
    (hview : find row.accountId m.regions = some view) :
    (∀ p ∈ m.filter.regionClauses, p.eval collate row = some true) ↔
      regionShown collate (some view) row.region = true := by
  obtain ⟨clause, hclause⟩ := accountClause_isSome row.accountId
    fun listed hlisted => h.filled row.accountId listed (hlisted ▸ hview)
  have hmem : clause ∈ m.regions.filterMap AccessFilter.accountClause :=
    List.mem_filterMap.mpr ⟨_, h.distinct.mem_iff.mpr hview, hclause⟩
  have hclauses : m.filter.regionClauses =
      [.disj (m.regions.filterMap AccessFilter.accountClause)] := by
    unfold AccessFilter.regionClauses
    split
    · rename_i hnil
      have : m.regions.filterMap AccessFilter.accountClause = [] := hnil
      rw [this] at hmem
      cases hmem
    · rfl
  rw [hclauses, List.forall_mem_singleton, Sql.eval_disj]
  constructor
  · rintro ⟨p, hp, heval⟩
    obtain ⟨⟨id, view'⟩, hentry, hp⟩ := List.mem_filterMap.mp hp
    obtain ⟨rfl, hshown⟩ := (accountClause_eval hp).mp heval
    obtain rfl := Option.some.inj (hview.symm.trans (h.distinct.mem_iff.mp hentry))
    exact hshown
  · intro hshown
    exact ⟨clause, hmem, (accountClause_eval hclause).mpr ⟨rfl, hshown⟩⟩

/-- The predicate tests the view of the row's account and the merged services. -/
theorem Merged.filter_admits {m : Merged} (h : m.WellFormed) : m.filter.admits collate row ↔
    regionShown collate (find row.accountId m.regions) row.region = true ∧
      serviceShown collate m.services row.resourceType = true := by
  have hkeyed := h.keyed row.accountId
  have hids : m.filter.accountIds = some m.accountIds := rfl
  have hservices : m.filter.services = m.services := rfl
  have hunrestricted : m.filter.unrestricted = false := rfl
  unfold AccessFilter.admits AccessFilter.sql
  cases hview : find row.accountId m.regions with
  | none =>
    have hout : row.accountId ∉ m.accountIds := by simp [hkeyed, hview]
    simp only [regionShown, Bool.false_eq_true, false_and, iff_false, hunrestricted, if_false]
    split
    · simp [Sql.eval]
    · rw [Sql.eval_conj]
      intro hall
      have := hall (.accountIn m.accountIds) (by simp [AccessFilter.accountClauses, hids])
      simp [Sql.eval, hout] at this
  | some view =>
    have hin : row.accountId ∈ m.accountIds := by simp [hkeyed, hview]
    have hne : m.accountIds.isEmpty = false := by
      cases hlist : m.accountIds with
      | nil => simp [hlist] at hin
      | cons => rfl
    have hempty : m.filter.isEmpty = false := by
      simp [AccessFilter.isEmpty, hids, hunrestricted, hne]
    simp only [hunrestricted, Bool.false_eq_true, if_false, hempty, Bool.false_or, hservices]
    split
    · rename_i hno
      rw [Option.any_eq_true] at hno
      obtain ⟨names, hnames, hnil⟩ := hno
      rw [List.isEmpty_iff.mp hnil] at hnames
      simp [Sql.eval, serviceShown, hnames, listedIn]
    · rw [Sql.eval_conj, List.forall_mem_append, List.forall_mem_append,
        regionClauses_eval h hview]
      have haccount : ∀ p ∈ m.filter.accountClauses, p.eval collate row = some true := by
        simp [AccessFilter.accountClauses, hids, Sql.eval, hin]
      have hservice : (∀ p ∈ m.filter.serviceClauses, p.eval collate row = some true) ↔
          serviceShown collate m.services row.resourceType = true := by
        unfold AccessFilter.serviceClauses
        rw [hservices]
        cases m.services <;> simp [Sql.eval, serviceShown]
      rw [hservice]
      exact ⟨fun hall => ⟨hall.2, hall.1.2⟩, fun hall => ⟨⟨haccount, hall.2⟩, hall.1⟩⟩

end Predicate

section Global
variable {accounts : Accounts} {scopes : List Scope} {a : Account}

theorem foldl_widen_all (ss : List Scope) (view : RegionView)
    (h : view = some none ∨ ∃ s ∈ ss, restricts s.regions = false) :
    ss.foldl widen view = some none := by
  induction ss generalizing view with
  | nil => exact h.resolve_right (by simp)
  | cons s ss ih =>
    refine ih _ ?_
    rcases h with rfl | ⟨s', hs', hnone⟩
    · left
      unfold widen
      split <;> first | rfl | simp_all
    · rcases List.mem_cons.mp hs' with rfl | hs'
      · left
        simp only [widen, restricts_false.mp hnone]
      · exact .inr ⟨s', hs', hnone⟩

theorem serviceView_all (ss : List Scope) (names : Option (List String))
    (h : names = none ∨ ∃ s ∈ ss, restricts s.services = false) :
    ss.foldl (fun names s => addNames names s.services) names = none := by
  induction ss generalizing names with
  | nil => exact h.resolve_right (by simp)
  | cons s ss ih =>
    refine ih _ ?_
    rcases h with rfl | ⟨s', hs', hnone⟩
    · exact .inl rfl
    · rcases List.mem_cons.mp hs' with rfl | hs'
      · left
        cases names <;> simp [addNames, restricts_false.mp hnone]
      · exact .inr ⟨s', hs', hnone⟩

/-- A global grant shows every region of every account, and every service. -/
theorem views_of_global (h : scopes.any Scope.isGlobal = true) :
    grantedView scopes a = some none ∧ serviceView scopes = none := by
  obtain ⟨s, hs, hglobal⟩ := List.any_eq_true.mp h
  obtain ⟨hcloud, haccount, hregions, hservices, -⟩ := Scope.isGlobal_iff.mp hglobal
  have hreach : s.reaches a = true := by simp [Scope.reaches, haccount, hcloud]
  exact ⟨foldl_widen_all _ _ (.inr ⟨s, List.mem_filter.mpr ⟨hs, hreach⟩, hregions⟩),
    serviceView_all _ _ (.inr ⟨s, hs, hservices⟩)⟩

theorem find_all (accounts : Accounts) (id : AccountId) : find id accounts.all.regions =
    if id ∈ accounts.rows.map Account.id then some none else none := by
  unfold Accounts.all
  simp only
  induction accounts.rows with
  | nil => rfl
  | cons a rows ih =>
    rw [List.map_cons, find, ih, List.map_cons]
    by_cases hid : a.id = id
    · simp [hid]
    · have hne : ¬ id = a.id := fun h => hid h.symm
      simp [hid, hne]

theorem all_wellFormed (accounts : Accounts) : accounts.all.WellFormed := by
  refine ⟨fun id => ?_, ?_, fun id listed hlisted => ?_⟩
  · rw [find_all]
    have hids : accounts.all.accountIds = accounts.rows.map Account.id := rfl
    rw [hids]
    split <;> simp_all
  · have hkeys : keys accounts.all.regions = accounts.rows.map Account.id := by
      simp [keys, Accounts.all]
    rw [Distinct, hkeys]
    exact accounts.distinct
  · rw [find_all] at hlisted
    split at hlisted <;> simp_all

theorem empty_wellFormed : Merged.empty.WellFormed := by
  refine ⟨fun id => ?_, List.nodup_nil, fun id listed hlisted => ?_⟩
  · simp [Merged.empty, find]
  · simp [Merged.empty, find] at hlisted

/-- The tables hold the view of each account. -/
theorem mergedAccess_spec (ha : a ∈ accounts.rows) (scopes denied : List Scope) :
    (mergedAccess accounts scopes denied).WellFormed ∧
    find a.id (mergedAccess accounts scopes denied).regions = accountView scopes denied a ∧
    (mergedAccess accounts scopes denied).services = serviceView scopes := by
  unfold mergedAccess
  split
  · rename_i hglobal
    obtain ⟨hview, hservices⟩ := views_of_global (a := a) hglobal
    obtain ⟨hwf, hfind, hsame⟩ := subtractDenials_spec ha denied (all_wellFormed accounts)
    refine ⟨hwf, ?_, hsame.trans hservices.symm⟩
    rw [hfind, accountView, hview, find_all, if_pos (List.mem_map_of_mem ha)]
  · obtain ⟨hwf, hview, hservices⟩ := mergeScopes_spec ha scopes empty_wellFormed
    obtain ⟨hwf', hfind, hsame⟩ := subtractDenials_spec ha denied hwf
    refine ⟨hwf', ?_, hsame.trans hservices⟩
    rw [hfind, hview]
    rfl

/-- What a list query shows: the row's region on the view of its account, its type among
the merged services, and nothing at all under a denial without a scope. -/
theorem accessibleFilter_admits {collate : String → String} {access : ResolvedAccess}
    {permission : Option String} {row : Row} (ha : a ∈ accounts.rows) (hrow : row.accountId = a.id) :
    (accessibleFilter accounts access permission).admits collate row ↔
      (∀ d ∈ applicableDenials access permission, d.scope ≠ none) ∧
      regionShown collate (accountView (relevantScopes access permission)
        ((applicableDenials access permission).filterMap Denial.scope) a) row.region = true ∧
      serviceShown collate (serviceView (relevantScopes access permission)) row.resourceType =
        true := by
  have hnothing : ¬ AccessFilter.nothing.admits collate row := by
    simp [AccessFilter.admits, AccessFilter.sql, AccessFilter.nothing, AccessFilter.isEmpty,
      Sql.eval]
  unfold accessibleFilter
  simp only
  split
  · rename_i hnone
    have hview : serviceShown collate (serviceView (relevantScopes access permission))
        row.resourceType = false := by
      rw [List.isEmpty_iff.mp hnone]
      rfl
    simp [hnothing, hview]
  · split
    · rename_i hall
      obtain ⟨d, hd, hscope⟩ := List.any_eq_true.mp hall
      refine iff_of_false hnothing fun h => h.1 d hd (Option.isNone_iff_eq_none.mp hscope)
    · rename_i hscoped
      have hdenials : ∀ d ∈ applicableDenials access permission, d.scope ≠ none := by
        intro d hd hscope
        exact hscoped (List.any_eq_true.mpr ⟨d, hd, by simp [hscope]⟩)
      split
      · rename_i hglobal
        rw [Bool.and_eq_true, List.isEmpty_iff] at hglobal
        obtain ⟨hview, hservices⟩ := views_of_global (a := a) hglobal.1
        have hadmits : AccessFilter.everything.admits collate row := rfl
        simp [hadmits, hglobal.2, accountView, hview, hservices, regionShown, serviceShown]
      · obtain ⟨hwf, hview, hservices⟩ := mergedAccess_spec ha (relevantScopes access permission)
          ((applicableDenials access permission).filterMap Denial.scope)
        rw [Merged.filter_admits hwf, hrow, hview, hservices]
        exact ⟨fun h => ⟨hdenials, h⟩, fun h => h.2⟩

end Global

end MonitoringHub.Access
