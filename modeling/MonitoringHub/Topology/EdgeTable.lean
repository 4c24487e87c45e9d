import Mathlib.Data.List.Nodup
import Mathlib.Data.Set.Function

/-! The table `resource_relationships`. An edge is unique by the hash of its colon-joined columns;
a sync upserts the edges it has seen and drops the automatic ones of its account and type that it
has not. -/

namespace MonitoringHub.Topology

inductive Origin
  | auto
  | manual
  deriving DecidableEq, Repr

/-- The columns under `edge_hash`. -/
structure EdgeKey where
  account : ℕ
  source : String
  target : String
  kind : String
  deriving DecidableEq, Repr

/-- `CONCAT_WS(':', aws_account_id, source_resource_id, target_resource_id, relationship_type)` -/
def EdgeKey.text (k : EdgeKey) : String :=
  s!"{k.account}:{k.source}:{k.target}:{k.kind}"

structure Edge where
  id : ℕ
  key : EdgeKey
  origin : Origin
  deriving DecidableEq, Repr

namespace Edge

/-- The rows that the sync of an account and a type may delete. -/
def Synced (account : ℕ) (kind : String) (e : Edge) : Prop :=
  e.key.account = account ∧ e.key.kind = kind ∧ e.origin = .auto

instance (account : ℕ) (kind : String) (e : Edge) : Decidable (e.Synced account kind) :=
  inferInstanceAs (Decidable (_ ∧ _ ∧ _))

def pair (e : Edge) : String × String := (e.key.source, e.key.target)

end Edge

section Table
variable (sha2 : String → String)

/-- `edge_hash` -/
def edgeHash (k : EdgeKey) : String := sha2 k.text

/-- The rows, under their primary key and `uniq_edge_hash`. -/
structure Table where
  rows : List Edge
  nextId : ℕ
  ids : (rows.map Edge.id).Nodup
  fresh : ∀ e ∈ rows, e.id < nextId
  hashes : ∀ e ∈ rows, ∀ e' ∈ rows, edgeHash sha2 e.key = edgeHash sha2 e'.key → e = e'

namespace Table
variable {sha2} (t : Table sha2)

theorem eq_of_id {e e' : Edge} (he : e ∈ t.rows) (he' : e' ∈ t.rows) (h : e.id = e'.id) : e = e' :=
  List.inj_on_of_nodup_map t.ids he he' h

/-- The row that an insert of the key would duplicate. -/
def holder (k : EdgeKey) : Option Edge :=
  t.rows.find? fun e => edgeHash sha2 e.key = edgeHash sha2 k

variable {t} in
theorem holder_some {k : EdgeKey} {e : Edge} (h : t.holder k = some e) :
    e ∈ t.rows ∧ edgeHash sha2 e.key = edgeHash sha2 k :=
  ⟨List.mem_of_find?_eq_some h, by simpa using List.find?_some h⟩

variable {t} in
theorem holder_none {k : EdgeKey} (h : t.holder k = none) :
    ∀ e ∈ t.rows, edgeHash sha2 e.key ≠ edgeHash sha2 k := fun e he => by
  simpa using List.find?_eq_none.mp h e he

def insert (k : EdgeKey) (origin : Origin) (h : t.holder k = none) : Table sha2 where
  rows := t.rows ++ [⟨t.nextId, k, origin⟩]
  nextId := t.nextId + 1
  ids := by
    rw [List.map_append, List.map_singleton]
    refine List.nodup_append.mpr ⟨t.ids, List.nodup_singleton _, ?_⟩
    intro i hi j hj
    obtain ⟨e, he, rfl⟩ := List.mem_map.mp hi
    rw [List.mem_singleton.mp hj]
    exact Nat.ne_of_lt (t.fresh e he)
  fresh e he := by
    rcases List.mem_append.mp he with he | he
    · exact Nat.lt_succ_of_lt (t.fresh e he)
    · rw [List.mem_singleton.mp he]
      exact Nat.lt_succ_self _
  hashes e he e' he' hsame := by
    have hnew := holder_none h
    rcases List.mem_append.mp he with he | he <;> rcases List.mem_append.mp he' with he' | he'
    · exact t.hashes e he e' he' hsame
    · rw [List.mem_singleton.mp he'] at hsame
      exact absurd hsame (hnew e he)
    · rw [List.mem_singleton.mp he] at hsame
      exact absurd hsame.symm (hnew e' he')
    · rw [List.mem_singleton.mp he, List.mem_singleton.mp he']

/-- No other row has the hash that the rewritten one would get. -/
def Fits (e : Edge) : Prop :=
  ∀ e' ∈ t.rows, e'.id ≠ e.id → edgeHash sha2 e'.key ≠ edgeHash sha2 e.key

instance (e : Edge) : Decidable (t.Fits e) :=
  inferInstanceAs (Decidable (∀ e' ∈ t.rows, _))

theorem map_replace_id (e : Edge) :
    (t.rows.map fun r => if r.id = e.id then e else r).map Edge.id = t.rows.map Edge.id := by
  rw [List.map_map]
  refine List.map_congr_left fun r _ => ?_
  simp only [Function.comp_apply]
  split
  · rename_i h
    exact h.symm
  · rfl

/-- `UPDATE` of the row with the id of `e`. -/
def replace (e : Edge) (h : t.Fits e) : Table sha2 where
  rows := t.rows.map fun r => if r.id = e.id then e else r
  nextId := t.nextId
  ids := t.map_replace_id e ▸ t.ids
  fresh r hr := by
    obtain ⟨r₀, hr₀, rfl⟩ := List.mem_map.mp hr
    split
    · rename_i hid
      exact hid ▸ t.fresh r₀ hr₀
    · exact t.fresh r₀ hr₀
  hashes r hr r' hr' hsame := by
    obtain ⟨r₀, hr₀, rfl⟩ := List.mem_map.mp hr
    obtain ⟨r₁, hr₁, rfl⟩ := List.mem_map.mp hr'
    split at hsame <;> split at hsame
    · rw [if_pos ‹_›, if_pos ‹_›]
    · rename_i hne
      exact absurd hsame.symm (h r₁ hr₁ hne)
    · rename_i hne _
      exact absurd hsame (h r₀ hr₀ hne)
    · rw [if_neg ‹_›, if_neg ‹_›]
      exact t.hashes r₀ hr₀ r₁ hr₁ hsame

def delete (p : Edge → Bool) : Table sha2 where
  rows := t.rows.filter fun e => !p e
  nextId := t.nextId
  ids := t.ids.sublist (List.filter_sublist.map _)
  fresh e he := t.fresh e (List.mem_filter.mp he).1
  hashes e he e' he' := t.hashes e (List.mem_filter.mp he).1 e' (List.mem_filter.mp he').1

/-- An insert, or the row it duplicates rewritten; `none` is the error of a rewritten row that
duplicates another. -/
def upsert (k : EdgeKey) (origin : Origin) (rewrite : Edge → Edge) : Option (Table sha2) :=
  match h : t.holder k with
  | none => some (t.insert k origin h)
  | some e =>
    let e' := { rewrite e with id := e.id }
    if hfits : t.Fits e' then some (t.replace e' hfits) else none

/-- `ON DUPLICATE KEY UPDATE source_resource_id = VALUES(source_resource_id)` -/
def upsertAuto (k : EdgeKey) : Option (Table sha2) :=
  t.upsert k .auto fun e => { e with key := { e.key with source := k.source } }

/-- The upserts of a sync, one for each pair it has seen. -/
def upsertPairs (account : ℕ) (kind : String) (pairs : List (String × String)) :
    Option (Table sha2) :=
  pairs.foldlM (fun t p => t.upsertAuto ⟨account, p.1, p.2, kind⟩) t

/-- The ids of the automatic edges that were not seen. -/
def staleIds (account : ℕ) (kind : String) (pairs : List (String × String)) : List ℕ :=
  (t.rows.filter fun e => e.Synced account kind ∧ e.pair ∉ pairs).map Edge.id

/-- Upsert, then prune if anything was seen; an error rolls the sync back. -/
def syncPairs (account : ℕ) (kind : String) (pairs : List (String × String)) : Table sha2 :=
  match t.upsertPairs account kind pairs with
  | none => t
  | some t' =>
    if pairs = [] then t'
    else
      let stale := t'.staleIds account kind pairs
      t'.delete fun e => e.id ∈ stale

/-- `_sync_topology_edges` -/
def syncTopologyEdges (account : ℕ) (lbTargets : List (String × List String)) : Table sha2 :=
  t.syncPairs account "routes_to" (lbTargets.flatMap fun e => e.2.map fun i => (e.1, i))

/-- `_sync_ebs_attachment_edges` -/
def syncEbsAttachmentEdges (account : ℕ) (attachments : List (String × List String)) :
    Table sha2 :=
  t.syncPairs account "attached_to" (attachments.flatMap fun e => e.2.map fun v => (e.1, v))

/-- `sync_auto_edges`, for pairs that are not all seen once. -/
def syncAutoEdges (account : ℕ) (kind : String) (pairs : List (String × String)) : Table sha2 :=
  if pairs.eraseDups = [] then t else t.syncPairs account kind pairs.eraseDups

/-- `add_manual_edge`; a request it refuses leaves the table. -/
def addManualEdge (k : EdgeKey) : Table sha2 :=
  if k.source = "" ∨ k.target = "" ∨ k.source = k.target then t
  else (t.upsert k .manual fun e => { e with origin := .manual }).getD t

/-- `delete_manual_edge` -/
def deleteManualEdge (account id : ℕ) : Table sha2 :=
  t.delete fun e => e.id = id ∧ e.key.account = account ∧ e.origin = .manual

/-- Every edge is one of these. -/
def Within (K : Set EdgeKey) : Prop := ∀ e ∈ t.rows, e.key ∈ K

/-- What upserts of automatic edges do where no two edges share a hash: they add what is not
there. -/
structure GrownBy (keys : List EdgeKey) (t t' : Table sha2) : Prop where
  kept : ∀ e ∈ t.rows, e ∈ t'.rows
  added : ∀ e ∈ t'.rows, e ∈ t.rows ∨ e.key ∈ keys ∧ e.origin = .auto

variable {t} {t' : Table sha2} {K : Set EdgeKey} {k : EdgeKey}

theorem upsertAuto_grown (hsep : Set.InjOn (edgeHash sha2) K) (hwithin : t.Within K)
    (hk : k ∈ K) : ∃ t', t.upsertAuto k = some t' ∧ GrownBy [k] t t' := by
  unfold upsertAuto upsert
  split
  · rename_i hnone
    refine ⟨_, rfl, fun e he => List.mem_append_left _ he, fun e he => ?_⟩
    rcases List.mem_append.mp he with he | he
    · exact .inl he
    · rw [List.mem_singleton.mp he]
      exact .inr ⟨List.mem_singleton_self k, rfl⟩
  · rename_i e hholder
    obtain ⟨he, hhash⟩ := holder_some hholder
    obtain rfl : e.key = k := hsep (hwithin e he) hk hhash
    -- The row that is there has the source already, so the update rewrites nothing.
    have hfits : t.Fits e := fun e' he' hid hsame =>
      hid (congrArg Edge.id (t.hashes e' he' e he hsame))
    have hrows : (t.replace e hfits).rows = t.rows := by
      refine (List.map_congr_left fun r hr => ?_).trans (List.map_id _)
      split
      · rename_i hid
        exact t.eq_of_id he hr hid.symm
      · rfl
    refine ⟨t.replace e hfits, dif_pos hfits, ?_, ?_⟩
    · rw [hrows]
      exact fun e he => he
    · rw [hrows]
      exact fun e he => .inl he

theorem GrownBy.within {keys : List EdgeKey} (h : GrownBy keys t t') (hwithin : t.Within K)
    (hkeys : ∀ k ∈ keys, k ∈ K) : t'.Within K := by
  intro e he
  rcases h.added e he with he | ⟨hkey, -⟩
  · exact hwithin e he
  · exact hkeys _ hkey

variable {account : ℕ} {kind : String} {pairs : List (String × String)}

/-- The keys under which the pairs of a sync are stored. -/
def pairKeys (account : ℕ) (kind : String) (pairs : List (String × String)) : List EdgeKey :=
  pairs.map fun p => ⟨account, p.1, p.2, kind⟩

theorem upsertPairs_grown (hsep : Set.InjOn (edgeHash sha2) K) (hwithin : t.Within K)
    (hpairs : ∀ k ∈ pairKeys account kind pairs, k ∈ K) :
    ∃ t', t.upsertPairs account kind pairs = some t' ∧
      GrownBy (pairKeys account kind pairs) t t' := by
  unfold upsertPairs
  induction pairs generalizing t with
  | nil => exact ⟨t, rfl, fun e he => he, fun e he => .inl he⟩
  | cons p pairs ih =>
    obtain ⟨t₁, hstep, hgrown⟩ := upsertAuto_grown hsep hwithin (hpairs _ List.mem_cons_self)
    have hwithin₁ : t₁.Within K := hgrown.within hwithin fun k hk => by
      rw [List.mem_singleton.mp hk]
      exact hpairs _ List.mem_cons_self
    obtain ⟨t₂, hrest, hgrown₂⟩ :=
      ih hwithin₁ fun k hk => hpairs k (List.mem_cons_of_mem _ hk)
    refine ⟨t₂, ?_, fun e he => hgrown₂.kept e (hgrown.kept e he), fun e he => ?_⟩
    · rw [List.foldlM_cons, hstep]
      exact hrest
    · rcases hgrown₂.added e he with he | ⟨hkey, horigin⟩
      · rcases hgrown.added e he with he | ⟨hkey, horigin⟩
        · exact .inl he
        · rw [List.mem_singleton.mp hkey]
          exact .inr ⟨List.mem_cons_self, horigin⟩
      · exact .inr ⟨List.mem_cons_of_mem _ hkey, horigin⟩

theorem mem_delete {p : Edge → Bool} {e : Edge} :
    e ∈ (t.delete p).rows ↔ e ∈ t.rows ∧ p e = false := by
  rw [delete, List.mem_filter, Bool.not_eq_true']

/-- The rows pruned by id are the ones that were not seen. -/
theorem mem_staleIds {e : Edge} (he : e ∈ t.rows) :
    e.id ∈ t.staleIds account kind pairs ↔ e.Synced account kind ∧ e.pair ∉ pairs := by
  simp only [staleIds, List.mem_map, List.mem_filter, decide_eq_true_eq]
  constructor
  · rintro ⟨e', ⟨he', hstale⟩, hid⟩
    rwa [t.eq_of_id he he' hid.symm]
  · exact fun hstale => ⟨e, ⟨he, hstale⟩, rfl⟩

/-- What a sync leaves: the edges it may not delete and those it has seen. -/
structure SyncedBy (account : ℕ) (kind : String) (pairs : List (String × String))
    (t t' : Table sha2) : Prop where
  stays : ∀ e ∈ t.rows, e ∈ t'.rows ↔ pairs = [] ∨ ¬e.Synced account kind ∨ e.pair ∈ pairs
  added : ∀ e ∈ t'.rows, e ∈ t.rows ∨ e.Synced account kind ∧ e.pair ∈ pairs

theorem SyncedBy.congr {pairs' : List (String × String)} (hpairs : ∀ p, p ∈ pairs ↔ p ∈ pairs')
    (h : SyncedBy account kind pairs t t') : SyncedBy account kind pairs' t t' := by
  have hnil : pairs = [] ↔ pairs' = [] := by
    simp only [List.eq_nil_iff_forall_not_mem, hpairs]
  exact ⟨fun e he => by rw [h.stays e he, hnil, hpairs],
    fun e he => by rw [← hpairs]; exact h.added e he⟩

theorem SyncedBy.refl (t : Table sha2) : SyncedBy account kind [] t t :=
  ⟨fun _ he => ⟨fun _ => .inl rfl, fun _ => he⟩, fun _ he => .inl he⟩

theorem syncPairs_syncedBy (hsep : Set.InjOn (edgeHash sha2) K) (hwithin : t.Within K)
    (hpairs : ∀ k ∈ pairKeys account kind pairs, k ∈ K) :
    SyncedBy account kind pairs t (t.syncPairs account kind pairs) := by
  obtain ⟨t', hupserts, hgrown⟩ := upsertPairs_grown hsep hwithin hpairs
  have hseen : ∀ e : Edge, e.key ∈ pairKeys account kind pairs → e.origin = .auto →
      e.Synced account kind ∧ e.pair ∈ pairs := by
    intro e hkey horigin
    obtain ⟨p, hp, hkey⟩ := List.mem_map.mp hkey
    refine ⟨⟨hkey ▸ rfl, hkey ▸ rfl, horigin⟩, ?_⟩
    rw [Edge.pair, ← hkey]
    exact hp
  unfold syncPairs
  rw [hupserts]
  dsimp only
  split
  · rename_i hnil
    subst hnil
    refine ⟨fun e he => ⟨fun _ => .inl rfl, fun _ => hgrown.kept e he⟩, fun e he => ?_⟩
    exact (hgrown.added e he).imp_right fun h => hseen e h.1 h.2
  · rename_i hne
    constructor
    · intro e he
      rw [mem_delete, decide_eq_false_iff_not, mem_staleIds (hgrown.kept e he)]
      have hthere := hgrown.kept e he
      tauto
    · intro e he
      exact (hgrown.added e (mem_delete.mp he).1).imp_right fun h => hseen e h.1 h.2

theorem syncAutoEdges_syncedBy (hsep : Set.InjOn (edgeHash sha2) K) (hwithin : t.Within K)
    (hpairs : ∀ k ∈ pairKeys account kind pairs, k ∈ K) :
    SyncedBy account kind pairs t (t.syncAutoEdges account kind pairs) := by
  have hmem : ∀ p, p ∈ pairs.eraseDups ↔ p ∈ pairs := fun p => List.mem_eraseDups
  refine SyncedBy.congr hmem ?_
  unfold syncAutoEdges
  split
  · rename_i hnil
    rw [hnil]
    exact .refl t
  · refine syncPairs_syncedBy hsep hwithin fun k hk => hpairs k ?_
    obtain ⟨p, hp, rfl⟩ := List.mem_map.mp hk
    exact List.mem_map.mpr ⟨p, (hmem p).mp hp, rfl⟩

theorem SyncedBy.within (h : SyncedBy account kind pairs t t') (hwithin : t.Within K)
    (hpairs : ∀ k ∈ pairKeys account kind pairs, k ∈ K) : t'.Within K := by
  intro e he
  rcases h.added e he with he | ⟨⟨rfl, rfl, -⟩, hpair⟩
  · exact hwithin e he
  · exact hpairs _ (List.mem_map.mpr ⟨e.pair, hpair, rfl⟩)

theorem addManualEdge_within (hwithin : t.Within K) (hk : k ∈ K) :
    (t.addManualEdge k).Within K := by
  unfold addManualEdge upsert
  split
  · exact hwithin
  · split
    · intro e he
      rcases List.mem_append.mp he with he | he
      · exact hwithin e he
      · rw [List.mem_singleton.mp he]
        exact hk
    · rename_i e hholder
      dsimp only
      split
      · intro r hr
        obtain ⟨r₀, hr₀, rfl⟩ := List.mem_map.mp hr
        split
        · exact hwithin e (holder_some hholder).1
        · exact hwithin r₀ hr₀
      · exact hwithin

theorem deleteManualEdge_within {id : ℕ} (hwithin : t.Within K) :
    (t.deleteManualEdge account id).Within K :=
  fun e he => hwithin e (mem_delete.mp he).1

end Table

end Table

end MonitoringHub.Topology
