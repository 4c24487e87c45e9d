import Mathlib.Data.List.Lattice
import MonitoringHub.Lib.GroupTally
import MonitoringHub.Lib.Text
import MonitoringHub.Topology.EdgeTable

/-! The polls that feed `resource_relationships`. A call fails or returns a page; that more pages
follow is not looked at. What the calls of a poll returned is synced, and a call that failed is
skipped. -/

namespace MonitoringHub.Topology
open Lib

/-- What a cloud call returns. -/
inductive Answer (α : Type)
  | failed
  | page (items : List α) (more : Bool)

namespace Answer
variable {α : Type}

def items : Answer α → Option (List α)
  | failed => none
  | page items _ => some items

/-- The call returned everything there is. -/
def Complete : Answer α → Prop
  | failed => False
  | page _ more => more = false

end Answer

/-- A target group, with what `describe_target_health` says of it: the ids of its targets. -/
structure TargetGroup where
  loadBalancerArns : Option (List String)
  health : Answer (Option String)

structure Volume where
  volumeId : String
  instanceIds : List (Option String)

/-- The ids of the targets that are instances. -/
def targetIds (descs : List (Option String)) : List String :=
  descs.filterMap fun id => id.filter (Text.startsWith · "i-")

/-- The load balancers of the groups that answered, each with the targets of the group. -/
def groupTargets (groups : List TargetGroup) : List (String × List String) :=
  groups.flatMap fun tg =>
    match tg.health.items with
    | none => []
    | some descs => (tg.loadBalancerArns.getD []).map fun lb => (lb, targetIds descs)

/-- `lb_targets` of `poll_alb_target_health` -/
def lbTargets (groups : List TargetGroup) : List (String × List String) :=
  GroupTally.tally Prod.fst (fun _ => []) (fun ids e => ids ∪ e.2) (groupTargets groups)

def volumeInstances (vols : List Volume) : List (String × String) :=
  vols.flatMap fun v =>
    (v.instanceIds.filterMap fun id => id.filter (· ≠ "")).map fun i => (i, v.volumeId)

/-- `attachments` of `poll_ebs_attachments` -/
def attachments (vols : List Volume) : List (String × List String) :=
  GroupTally.tally Prod.fst (fun _ => []) (fun ids e => ids ∪ [e.2]) (volumeInstances vols)

/-- The calls of a poll of one account. -/
inductive Calls
  | targetHealth (groups : Answer TargetGroup) (session : Bool)
  | ebsAttachments (volumes : Answer Volume)
  | autoEdges (kind : String) (pairs : Answer (String × String))

structure Poll where
  account : ℕ
  calls : Calls

namespace Poll

/-- The type of the edges that the poll keeps. -/
def kind (p : Poll) : String :=
  match p.calls with
  | .targetHealth _ _ => "routes_to"
  | .ebsAttachments _ => "attached_to"
  | .autoEdges kind _ => kind

/-- Every call returned everything. -/
def Complete (p : Poll) : Prop :=
  match p.calls with
  | .targetHealth groups session =>
    groups.Complete ∧ session = true ∧ ∀ tgs, groups.items = some tgs →
      ∀ tg ∈ tgs, tg.health.Complete
  | .ebsAttachments volumes => volumes.Complete
  | .autoEdges _ pairs => pairs.Complete

/-- A call that succeeded returned the pair. -/
def Contains (p : Poll) (pair : String × String) : Prop :=
  match p.calls with
  | .targetHealth groups session =>
    session = true ∧ ∃ tgs, groups.items = some tgs ∧ ∃ tg ∈ tgs, ∃ descs,
      tg.health.items = some descs ∧ pair.1 ∈ tg.loadBalancerArns.getD [] ∧
        some pair.2 ∈ descs ∧ Text.startsWith pair.2 "i-"
  | .ebsAttachments volumes =>
    ∃ vols, volumes.items = some vols ∧ ∃ v ∈ vols,
      some pair.1 ∈ v.instanceIds ∧ pair.1 ≠ "" ∧ v.volumeId = pair.2
  | .autoEdges _ pairs => ∃ ps, pairs.items = some ps ∧ pair ∈ ps

variable {sha2 : String → String}

/-- What a poll does to the table: nothing where its list call or its session failed. -/
def apply (p : Poll) (t : Table sha2) : Table sha2 :=
  match p.calls with
  | .targetHealth groups session =>
    match groups.items with
    | none => t
    | some tgs =>
      if session = false ∨ lbTargets tgs = [] then t
      else t.syncTopologyEdges p.account (lbTargets tgs)
  | .ebsAttachments volumes =>
    match volumes.items with
    | none => t
    | some vols =>
      if attachments vols = [] then t
      else t.syncEbsAttachmentEdges p.account (attachments vols)
  | .autoEdges kind pairs =>
    match pairs.items with
    | none => t
    | some ps => if ps = [] then t else t.syncAutoEdges p.account kind ps

end Poll

/-- The pairs of a grouped answer. -/
theorem mem_pairs {groups : List (String × List String)} {p : String × String} :
    p ∈ groups.flatMap (fun e => e.2.map fun i => (e.1, i)) ↔
      ∃ ids, (p.1, ids) ∈ groups ∧ p.2 ∈ ids := by
  obtain ⟨a, i⟩ := p
  simp only [List.mem_flatMap, List.mem_map, Prod.mk.injEq]
  constructor
  · rintro ⟨⟨a', ids⟩, he, i', hi, rfl, rfl⟩
    exact ⟨ids, he, hi⟩
  · rintro ⟨ids, he, hi⟩
    exact ⟨(a, ids), he, i, hi, rfl, rfl⟩

theorem mem_targetIds {descs : List (Option String)} {i : String} :
    i ∈ targetIds descs ↔ some i ∈ descs ∧ Text.startsWith i "i-" := by
  simp only [targetIds, List.mem_filterMap, Option.filter_eq_some_iff]
  constructor
  · rintro ⟨_, hmem, rfl, hstart⟩
    exact ⟨hmem, hstart⟩
  · rintro ⟨hmem, hstart⟩
    exact ⟨some i, hmem, rfl, hstart⟩

theorem mem_groupTargets {groups : List TargetGroup} {lb : String} {ids : List String} :
    (lb, ids) ∈ groupTargets groups ↔ ∃ tg ∈ groups, ∃ descs, tg.health.items = some descs ∧
      lb ∈ tg.loadBalancerArns.getD [] ∧ ids = targetIds descs := by
  simp only [groupTargets, List.mem_flatMap]
  refine exists_congr fun tg => and_congr_right fun _ => ?_
  cases hitems : tg.health.items with
  | none => simp
  | some descs =>
    simp only [List.mem_map, Prod.mk.injEq, Option.some.injEq, exists_eq_left']
    constructor
    · rintro ⟨_, hlb, rfl, rfl⟩
      exact ⟨hlb, rfl⟩
    · rintro ⟨hlb, rfl⟩
      exact ⟨lb, hlb, rfl, rfl⟩

theorem mem_lbTargets {groups : List TargetGroup} {lb i : String} :
    (∃ ids, (lb, ids) ∈ lbTargets groups ∧ i ∈ ids) ↔
      ∃ tg ∈ groups, ∃ descs, tg.health.items = some descs ∧
        lb ∈ tg.loadBalancerArns.getD [] ∧ some i ∈ descs ∧ Text.startsWith i "i-" := by
  have hadd : ∀ (ids : List String) (e : String × List String) (i : String),
      i ∈ ids ∪ e.2 ↔ i ∈ ids ∨ i ∈ e.2 := fun _ _ _ => List.mem_union_iff
  rw [lbTargets, GroupTally.mem_groups hadd]
  constructor
  · rintro ⟨⟨lb', ids⟩, hrow, rfl, hi⟩
    obtain ⟨tg, htg, descs, hitems, hlb, rfl⟩ := mem_groupTargets.mp hrow
    exact ⟨tg, htg, descs, hitems, hlb, mem_targetIds.mp hi⟩
  · rintro ⟨tg, htg, descs, hitems, hlb, hi⟩
    exact ⟨(lb, targetIds descs), mem_groupTargets.mpr ⟨tg, htg, descs, hitems, hlb, rfl⟩, rfl,
      mem_targetIds.mpr hi⟩

theorem mem_attachments {vols : List Volume} {i v : String} :
    (∃ ids, (i, ids) ∈ attachments vols ∧ v ∈ ids) ↔
      ∃ vol ∈ vols, some i ∈ vol.instanceIds ∧ i ≠ "" ∧ vol.volumeId = v := by
  have hadd : ∀ (ids : List String) (e : String × String) (v : String),
      v ∈ ids ∪ [e.2] ↔ v ∈ ids ∨ v ∈ [e.2] := fun _ _ _ => List.mem_union_iff
  rw [attachments, GroupTally.mem_groups hadd]
  simp only [volumeInstances, List.mem_flatMap, List.mem_map, List.mem_filterMap,
    Option.filter_eq_some_iff, List.mem_singleton, decide_eq_true_eq]
  constructor
  · rintro ⟨_, ⟨vol, hvol, i', ⟨_, hmem, rfl, hne⟩, rfl⟩, rfl, rfl⟩
    exact ⟨vol, hvol, hmem, hne, rfl⟩
  · rintro ⟨vol, hvol, hmem, hne, rfl⟩
    exact ⟨_, ⟨vol, hvol, i, ⟨some i, hmem, rfl, hne⟩, rfl⟩, rfl, rfl⟩

section Poll
variable {sha2 : String → String} {p : Poll} {t : Table sha2} {K : Set EdgeKey}

/-- The key under which a poll stores a pair. -/
def Poll.key (p : Poll) (pair : String × String) : EdgeKey :=
  ⟨p.account, pair.1, pair.2, p.kind⟩

/-- A poll syncs what its calls returned. -/
theorem Poll.apply_syncedBy (hsep : Set.InjOn (edgeHash sha2) K) (hwithin : t.Within K)
    (hpairs : ∀ pair, p.Contains pair → p.key pair ∈ K) :
    ∃ pairs, (∀ pair, pair ∈ pairs ↔ p.Contains pair) ∧
      Table.SyncedBy p.account p.kind pairs t (p.apply t) := by
  obtain ⟨account, calls⟩ := p
  have hkeys : ∀ pairs : List (String × String),
      (∀ pair, pair ∈ pairs ↔ Contains ⟨account, calls⟩ pair) →
      ∀ k ∈ Table.pairKeys account (kind ⟨account, calls⟩) pairs, k ∈ K := by
    intro pairs hmem k hk
    obtain ⟨pair, hpair, rfl⟩ := List.mem_map.mp hk
    exact hpairs pair ((hmem pair).mp hpair)
  have hnone : (∀ pair, ¬Contains ⟨account, calls⟩ pair) →
      ∃ pairs, (∀ pair, pair ∈ pairs ↔ Contains ⟨account, calls⟩ pair) ∧
        Table.SyncedBy account (kind ⟨account, calls⟩) pairs t t := fun hno =>
    ⟨[], fun pair => ⟨nofun, fun hpair => absurd hpair (hno pair)⟩, .refl t⟩
  cases calls with
  | targetHealth groups session =>
    dsimp only [apply]
    cases hgroups : groups.items with
    | none => exact hnone fun pair hpair => by simp [Contains, hgroups] at hpair
    | some tgs =>
      dsimp only
      have hmem : ∀ pair, session = true → (Contains ⟨account, .targetHealth groups session⟩ pair ↔
          ∃ ids, (pair.1, ids) ∈ lbTargets tgs ∧ pair.2 ∈ ids) := fun pair hsession => by
        simp only [Contains, hgroups, hsession, true_and, Option.some.injEq, exists_eq_left',
          mem_lbTargets]
      split
      · rename_i hskip
        refine hnone fun pair hpair => ?_
        obtain ⟨ids, hids, -⟩ := (hmem pair hpair.1).mp hpair
        rcases hskip with hsession | hnil
        · exact absurd (hsession.symm.trans hpair.1) Bool.false_ne_true
        · simp [hnil] at hids
      · rename_i hgo
        have hpair := fun pair => mem_pairs.trans
          (hmem pair (by simpa using fun h => hgo (.inl h))).symm
        exact ⟨_, hpair, Table.syncPairs_syncedBy hsep hwithin (hkeys _ hpair)⟩
  | ebsAttachments volumes =>
    dsimp only [apply]
    cases hvols : volumes.items with
    | none => exact hnone fun pair hpair => by simp [Contains, hvols] at hpair
    | some vols =>
      dsimp only
      have hmem : ∀ pair, Contains ⟨account, .ebsAttachments volumes⟩ pair ↔
          ∃ ids, (pair.1, ids) ∈ attachments vols ∧ pair.2 ∈ ids := fun pair => by
        simp only [Contains, hvols, Option.some.injEq, exists_eq_left', mem_attachments]
      split
      · rename_i hnil
        refine hnone fun pair hpair => ?_
        obtain ⟨ids, hids, -⟩ := (hmem pair).mp hpair
        simp [hnil] at hids
      · have hpair := fun pair => mem_pairs.trans (hmem pair).symm
        exact ⟨_, hpair, Table.syncPairs_syncedBy hsep hwithin (hkeys _ hpair)⟩
  | autoEdges kind pairs =>
    dsimp only [apply]
    cases hps : pairs.items with
    | none => exact hnone fun pair hpair => by simp [Contains, hps] at hpair
    | some ps =>
      dsimp only
      have hpair : ∀ pair, pair ∈ ps ↔ Contains ⟨account, .autoEdges kind pairs⟩ pair := fun pair =>
        by simp only [Contains, hps, Option.some.injEq, exists_eq_left']
      split
      · rename_i hnil
        exact hnone fun pair hcontains => by simpa [hnil] using (hpair pair).mpr hcontains
      · exact ⟨ps, hpair, Table.syncAutoEdges_syncedBy hsep hwithin (hkeys ps hpair)⟩

end Poll

/-- A poll, or an operator's edit of the manual edges. -/
inductive Act
  | poll (p : Poll)
  | addManualEdge (k : EdgeKey)
  | deleteManualEdge (account id : ℕ)

section Run
variable {sha2 : String → String} {t₀ t : Table sha2} {K : Set EdgeKey} {p : Poll}

def Act.apply (t : Table sha2) : Act → Table sha2
  | .poll p => p.apply t
  | .addManualEdge k => t.addManualEdge k
  | .deleteManualEdge account id => t.deleteManualEdge account id

/-- The edges an act can bring in. -/
def Act.Brings : Act → EdgeKey → Prop
  | .poll p, k => ∃ pair, p.Contains pair ∧ k = p.key pair
  | .addManualEdge k', k => k = k'
  | .deleteManualEdge _ _, _ => False

def after (t₀ : Table sha2) (acts : List Act) : Table sha2 := acts.foldl Act.apply t₀

/-- The edges of the table and those that the acts bring in. -/
def known (t₀ : Table sha2) (acts : List Act) : Set EdgeKey :=
  {k | (∃ e ∈ t₀.rows, e.key = k) ∨ ∃ act ∈ acts, act.Brings k}

theorem Act.apply_within (hsep : Set.InjOn (edgeHash sha2) K) (hwithin : t.Within K) {act : Act}
    (hact : ∀ k, act.Brings k → k ∈ K) : (act.apply t).Within K := by
  cases act with
  | poll p =>
    have hpairs : ∀ pair, p.Contains pair → p.key pair ∈ K := fun pair hpair =>
      hact _ ⟨pair, hpair, rfl⟩
    obtain ⟨pairs, hmem, hsynced⟩ := p.apply_syncedBy hsep hwithin hpairs
    refine hsynced.within hwithin fun k hk => ?_
    obtain ⟨pair, hpair, rfl⟩ := List.mem_map.mp hk
    exact hpairs pair ((hmem pair).mp hpair)
  | addManualEdge k => exact Table.addManualEdge_within hwithin (hact k rfl)
  | deleteManualEdge account id => exact Table.deleteManualEdge_within hwithin

theorem after_within {acts : List Act} (hsep : Set.InjOn (edgeHash sha2) K)
    (hwithin : t₀.Within K) (hacts : ∀ act ∈ acts, ∀ k, act.Brings k → k ∈ K) :
    (after t₀ acts).Within K := by
  induction acts generalizing t₀ with
  | nil => exact hwithin
  | cons act acts ih =>
    exact ih (Act.apply_within hsep hwithin (hacts act List.mem_cons_self))
      fun act' hact' => hacts act' (List.mem_cons_of_mem _ hact')

end Run

def loadBalancer : String :=
  "arn:aws:elasticloadbalancing:ap-south-1:123456789012:loadbalancer/app/web/1"

/-- SHA-256 of the texts below. -/
def digest (text : String) : String :=
  match text with
  | "1:i-0a:vol-0a:attached_to" =>
    "4ad5803d0d73a30f22b3c566dcfdbabee703d177c14ef7828508924d9097d5ea"
  | "1:i-0b:vol-0b:attached_to" =>
    "1496cc0af8ea8357a947b598b30c79981ad4cf45ed36b454a2b311a3bc92caf5"
  | "1:i-0a:i-0b:depends_on" =>
    "7aa2e40f6eb14ad634f758c76b3368e6ca3f3dedc95a2a33e9ddcbf6a20a2643"
  | "1:lb-a:i-0a:routes_to" =>
    "181da84c7d339e80339730d998a706d96e91a4520f7ba29a5a2de9df34ed1c84"
  | "1:lb-b:i-0b:routes_to" =>
    "9f9681962cb543db4d69bd46134dc86132adc74473526e1e9cff8f84bab15ccd"
  | "1:arn:aws:elasticloadbalancing:ap-south-1:123456789012:loadbalancer/app/web/1:i-0a:routes_to" =>
    "5999e1d8a173d0c0a47de6a9d67a7491a94388555e97460a0591e8e3a8d34a2b"
  | _ => ""

def attached (i v : String) : EdgeKey := ⟨1, i, v, "attached_to"⟩

def dependsOn : EdgeKey := ⟨1, "i-0a", "i-0b", "depends_on"⟩

/-- A volume attached to an instance, and an edge entered by hand. -/
def attachedTable : Table digest where
  rows := [⟨1, attached "i-0a" "vol-0a", .auto⟩, ⟨2, dependsOn, .manual⟩]
  nextId := 3
  ids := by decide
  fresh := by decide
  hashes := by decide +kernel

/-- An instance behind each of two load balancers. -/
def routedTable : Table digest where
  rows := [⟨1, ⟨1, "lb-a", "i-0a", "routes_to"⟩, .auto⟩,
    ⟨2, ⟨1, "lb-b", "i-0b", "routes_to"⟩, .auto⟩]
  nextId := 3
  ids := by decide
  fresh := by decide
  hashes := by decide +kernel

/-- An edge entered by hand, with the text of the one from a load balancer to an instance. -/
def splitElsewhere : EdgeKey :=
  ⟨1, "arn", "aws:elasticloadbalancing:ap-south-1:123456789012:loadbalancer/app/web/1:i-0a",
    "routes_to"⟩

def enteredTable : Table digest where
  rows := [⟨1, splitElsewhere, .manual⟩]
  nextId := 2
  ids := by decide
  fresh := by decide
  hashes := by decide +kernel

/-- The group of the second load balancer does not answer. -/
def halfAnswered : Poll :=
  ⟨1, .targetHealth (.page [⟨some ["lb-a"], .page [some "i-0a"] false⟩, ⟨some ["lb-b"], .failed⟩]
    false) true⟩

/-- Every call that says where a source leads returned everything. -/
def Poll.Covers (p : Poll) (source : String) : Prop :=
  match p.calls with
  | .targetHealth groups session =>
    groups.Complete ∧ session = true ∧ ∀ tgs, groups.items = some tgs →
      ∀ tg ∈ tgs, source ∈ tg.loadBalancerArns.getD [] → tg.health.Complete
  | .ebsAttachments volumes => volumes.Complete
  | .autoEdges _ pairs => pairs.Complete

end MonitoringHub.Topology
