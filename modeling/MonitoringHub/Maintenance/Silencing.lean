import MonitoringHub.Incidents.Correlation
import MonitoringHub.Lib.KeyedStore
import MonitoringHub.Lib.QueryRows

/-! Maintenance silencing. A sync silences the open alerts on the resources that active
windows cover and un-silences the rest. The database compares resource ids by `collate`,
the un-silencing compares them exactly. -/

namespace MonitoringHub.Maintenance
open Lib Lib.KeyedStore
open Incidents (AlertStatus Relationship)

structure Window where
  account : ℕ
  resourceId : String
  reason : String
  startsAt : ℕ
  endsAt : ℕ
  silenceDownstream : Bool
  deriving DecidableEq, Repr

structure Alert where
  account : Option ℕ
  resourceId : String
  status : AlertStatus
  silenced : Bool
  silencedReason : Option String
  deriving DecidableEq, Repr

structure Tables where
  windows : List Window
  alerts : List Alert
  relationships : List Relationship
  deriving DecidableEq, Repr

def maxCascadeDepth : ℕ := 10

def Window.activeAt (w : Window) (now : ℕ) : Bool :=
  decide (w.startsAt ≤ now) && decide (now ≤ w.endsAt)

/-- `status IN ('active', 'acknowledged')`. -/
def Alert.isOpen (a : Alert) : Bool := a.status = .active || a.status = .acknowledged

/-- The text is cut to the column's length. -/
def Window.silencedReason (w : Window) : String :=
  String.ofList (("Maintenance window: " ++ w.reason).toList.take 500)

section Sync
variable (collate : String → String)

/-- The relationships on `resource`, the target; of one account if there is one. -/
def relationshipsOn (rels : List Relationship) (account : Option ℕ) (resource : String) :
    List Relationship :=
  rels.filter fun rel => collate rel.target = collate resource &&
    account.all fun account => rel.account = account

/-- The root, and what depends on it through at most `maxCascadeDepth` relationships: a
source depends on its target. -/
def affectedResourceIds (rels : List Relationship) (root : String) (silenceDownstream : Bool)
    (account : Option ℕ) : List String :=
  if silenceDownstream then
    let anchor := distinctOn collate ((relationshipsOn collate rels account root).map (·.target))
    root :: distinctOn collate (recursiveRows
      (fun resource => (relationshipsOn collate rels account resource).map (·.source))
      anchor maxCascadeDepth)
  else [root]

/-- One window of `active_silenced_map`. -/
def silenceWindow (rels : List Relationship) (covered : List ((ℕ × String) × String))
    (w : Window) : List ((ℕ × String) × String) :=
  (affectedResourceIds collate rels w.resourceId w.silenceDownstream (some w.account)).foldl
    (fun covered rid => setDefault (w.account, rid) w.silencedReason covered) covered

def activeSilencedMap (s : Tables) (now : ℕ) : List ((ℕ × String) × String) :=
  (s.windows.filter (·.activeAt now)).foldl (silenceWindow collate s.relationships) []

/-- The resources of one account and reason share an UPDATE. -/
def byReason (covered : List ((ℕ × String) × String)) : List ((ℕ × String) × List String) :=
  covered.foldl (fun groups item => appendAt (item.1.1, item.2) item.1.2 groups) []

/-- The WHERE clause of the silencing UPDATE. -/
def silences (group : (ℕ × String) × List String) (a : Alert) : Bool :=
  a.account = some group.1.1 && (group.2.any fun rid => collate rid = collate a.resourceId) &&
    a.isOpen && !a.silenced

def silenceRow (a : Alert) (group : (ℕ × String) × List String) : Alert :=
  if silences collate group a then
    { a with silenced := true, silencedReason := some group.1.2 }
  else a

def silenceGroup (counted : List Alert × ℕ) (group : (ℕ × String) × List String) :
    List Alert × ℕ :=
  (counted.1.map fun a => silenceRow collate a group,
    counted.2 + counted.1.countP (silences collate group))

end Sync

/-- `(aws_account_id, resource_id) in covered`, with Python's equality. -/
def isCovered (covered : List ((ℕ × String) × String)) (a : Alert) : Bool :=
  a.account.any fun account => (find (account, a.resourceId) covered).isSome

def staleIds (covered : List ((ℕ × String) × String)) (alerts : List Alert) : List ℕ :=
  (alerts.zipIdx.filter fun (a, _) => a.silenced && a.isOpen && !isCovered covered a).map Prod.snd

def unsilenceChunk (counted : List Alert × ℕ) (chunk : List ℕ) : List Alert × ℕ :=
  (counted.1.mapIdx fun id a =>
      if id ∈ chunk then { a with silenced := false, silencedReason := none } else a,
    counted.2 + counted.1.zipIdx.countP fun (_, id) => id ∈ chunk)

structure SyncCounts where
  silenced : ℕ
  unsilenced : ℕ
  deriving DecidableEq, Repr

def syncMaintenanceSilencing (collate : String → String) (s : Tables) (now : ℕ) :
    Tables × SyncCounts :=
  let covered := activeSilencedMap collate s now
  let (alerts, silenced) := (byReason covered).foldl (silenceGroup collate) (s.alerts, 0)
  let (alerts, unsilenced) :=
    (slices 500 (staleIds covered alerts)).foldl unsilenceChunk (alerts, 0)
  ({ s with alerts }, ⟨silenced, unsilenced⟩)

/-- `resource` depends on the one before it through a relationship of the account. -/
def DependsOn (collate : String → String) (rels : List Relationship) (account : ℕ) :
    StepRel String Relationship := fun resource rel dependent =>
  rel ∈ rels ∧ rel.account = account ∧ collate rel.target = collate resource ∧
    rel.source = dependent

/-- What a window is for: its root, and with `silence_downstream` whatever depends on the
root over at most `maxCascadeDepth` relationships. -/
def Window.Covers (collate : String → String) (rels : List Relationship) (w : Window)
    (resource : String) : Prop :=
  resource = w.resourceId ∨ w.silenceDownstream = true ∧
    ∃ path, Steps (DependsOn collate rels w.account) w.resourceId path resource ∧
      path.length ≤ maxCascadeDepth

def Tables.Covered (collate : String → String) (s : Tables) (now : ℕ) (a : Alert) : Prop :=
  ∃ w ∈ s.windows, w.activeAt now = true ∧ a.account = some w.account ∧
    w.Covers collate s.relationships a.resourceId

def Tables.resourceIds (s : Tables) : List String :=
  s.windows.map (·.resourceId) ++ s.alerts.map (·.resourceId) ++
    s.relationships.map (·.source) ++ s.relationships.map (·.target)

/-- No two spellings of one resource. -/
def Tables.OneSpelling (collate : String → String) (s : Tables) : Prop :=
  ∀ r ∈ s.resourceIds, ∀ r' ∈ s.resourceIds, collate r = collate r' → r = r'

section Coverage
variable {collate : String → String} {s : Tables} {now : ℕ} {rels : List Relationship}
  {w : Window} {a : Alert} {account : ℕ} {root rid : String}

theorem mem_relationshipsOn {rel : Relationship} :
    rel ∈ relationshipsOn collate rels (some account) rid ↔
      rel ∈ rels ∧ rel.account = account ∧ collate rel.target = collate rid := by
  simp only [relationshipsOn, List.mem_filter, Bool.and_eq_true, decide_eq_true_eq,
    Option.all_some]
  exact and_congr_right fun _ => and_comm

theorem reached_mem {path : List Relationship}
    (run : Steps (DependsOn collate s.relationships account) root path rid)
    (hroot : root ∈ s.resourceIds) : rid ∈ s.resourceIds := by
  cases run with
  | refl => exact hroot
  | snoc _ hlast =>
    obtain ⟨hrel, -, -, rfl⟩ := hlast
    simp only [Tables.resourceIds, List.mem_append, List.mem_map]
    exact .inl (.inr ⟨_, hrel, rfl⟩)

/-- What the queries return for a window, when no resource has two spellings. -/
theorem mem_affectedResourceIds (hone : s.OneSpelling collate) (hw : w ∈ s.windows) :
    rid ∈ affectedResourceIds collate s.relationships w.resourceId w.silenceDownstream
        (some w.account) ↔ w.Covers collate s.relationships rid := by
  have hroot : w.resourceId ∈ s.resourceIds := by
    simp only [Tables.resourceIds, List.mem_append, List.mem_map]
    exact .inl (.inl (.inl ⟨w, hw, rfl⟩))
  have hnext : ∀ a b, b ∈ (relationshipsOn collate s.relationships (some w.account) a).map
      (·.source) ↔ ∃ rel, DependsOn collate s.relationships w.account a rel b := by
    intro a b
    simp only [List.mem_map, mem_relationshipsOn, DependsOn, and_assoc]
  -- the anchor is the root, if anything depends on it
  have hanchor : ∀ t ∈ (relationshipsOn collate s.relationships (some w.account)
      w.resourceId).map (·.target), t = w.resourceId := by
    intro t ht
    obtain ⟨rel, hrel, rfl⟩ := List.mem_map.mp ht
    obtain ⟨hrel, -, heq⟩ := mem_relationshipsOn.mp hrel
    refine hone _ ?_ _ hroot heq
    simp only [Tables.resourceIds, List.mem_append, List.mem_map]
    exact .inr ⟨rel, hrel, rfl⟩
  unfold affectedResourceIds Window.Covers
  cases w.silenceDownstream with
  | false => simp
  | true =>
    simp only [if_true, List.mem_cons, true_and]
    refine or_congr_right' fun hne => ?_
    constructor
    · intro hmem
      obtain ⟨t, ht, path, run, hlen⟩ :=
        (mem_recursiveRows hnext).mp (mem_of_distinctOn collate hmem)
      obtain rfl := hanchor t (mem_of_distinctOn collate ht)
      exact ⟨path, run, hlen⟩
    · rintro ⟨path, run, hlen⟩
      obtain ⟨rel, -, hrel, haccount, htarget, -⟩ := run.eq_or_first.resolve_left hne
      obtain ⟨t, ht, -⟩ := exists_distinctOn collate
        (List.mem_map_of_mem (mem_relationshipsOn.mpr ⟨hrel, haccount, htarget⟩))
      obtain rfl := hanchor t (mem_of_distinctOn collate ht)
      obtain ⟨r, hr, heq⟩ := exists_distinctOn collate
        ((mem_recursiveRows hnext).mpr ⟨_, ht, path, run, hlen⟩)
      obtain ⟨t', ht', path', run', -⟩ :=
        (mem_recursiveRows hnext).mp (mem_of_distinctOn collate hr)
      obtain rfl := hanchor t' (mem_of_distinctOn collate ht')
      obtain rfl := hone _ (reached_mem run hroot) _ (reached_mem run' hroot) heq
      exact hr

/-- The keys of the map are the resources that active windows cover. -/
theorem mem_activeSilencedMap (hone : s.OneSpelling collate) :
    (account, rid) ∈ keys (activeSilencedMap collate s now) ↔
      ∃ w ∈ s.windows, w.activeAt now = true ∧ account = w.account ∧
        w.Covers collate s.relationships rid := by
  have hfold : ∀ (windows : List Window) (covered : List ((ℕ × String) × String)),
      (account, rid) ∈ keys (windows.foldl (silenceWindow collate s.relationships) covered) ↔
        (account, rid) ∈ keys covered ∨ ∃ w ∈ windows, account = w.account ∧
          rid ∈ affectedResourceIds collate s.relationships w.resourceId w.silenceDownstream
            (some w.account) := by
    intro windows
    induction windows with
    | nil => simp
    | cons w windows ih =>
      intro covered
      rw [List.foldl_cons, ih, silenceWindow, mem_keys_foldl_setDefault, or_assoc,
        List.exists_mem_cons_iff]
      refine or_congr_right (or_congr_left ?_)
      simp only [Prod.mk.injEq]
      constructor
      · rintro ⟨r, hr, rfl, rfl⟩
        exact ⟨rfl, hr⟩
      · rintro ⟨rfl, hr⟩
        exact ⟨rid, hr, rfl, rfl⟩
  rw [activeSilencedMap, hfold]
  simp only [keys, List.map_nil, List.not_mem_nil, false_or, List.mem_filter, and_assoc]
  refine exists_congr fun w => and_congr_right fun hw => and_congr_right fun _ =>
    and_congr_right fun _ => mem_affectedResourceIds hone hw

theorem isCovered_iff (hone : s.OneSpelling collate) :
    isCovered (activeSilencedMap collate s now) a = true ↔ s.Covered collate now a := by
  simp only [isCovered, Option.any_eq_true, find_isSome_iff, mem_activeSilencedMap hone]
  constructor
  · rintro ⟨account, haccount, w, hw, hactive, rfl, hcovers⟩
    exact ⟨w, hw, hactive, haccount, hcovers⟩
  · rintro ⟨w, hw, hactive, haccount, hcovers⟩
    exact ⟨w.account, haccount, w, hw, hactive, rfl, hcovers⟩

theorem lists_byReason {covered : List ((ℕ × String) × String)} :
    (∃ reason, Lists (byReason covered) (account, reason) rid) ↔ (account, rid) ∈ keys covered := by
  simp only [byReason, lists_foldl_appendAt, keys, List.mem_map]
  constructor
  · rintro ⟨reason, ⟨vs, hvs, -⟩ | ⟨item, hitem, heq, rfl⟩⟩
    · cases hvs
    · exact ⟨item, hitem, by rw [← (Prod.mk.inj heq).1]⟩
  · rintro ⟨item, hitem, heq⟩
    exact ⟨item.2, .inr ⟨item, hitem, by rw [heq], by rw [heq]⟩⟩

end Coverage

section Rows
variable {collate : String → String} {groups : List ((ℕ × String) × List String)}
  {alerts : List Alert} {a : Alert} {chunks : List (List ℕ)} {n id : ℕ}

/-- A row after all silencing UPDATEs. -/
theorem silenceRows_spec (collate : String → String)
    (groups : List ((ℕ × String) × List String)) (a : Alert) :
    (groups.foldl (silenceRow collate) a).account = a.account ∧
      (groups.foldl (silenceRow collate) a).resourceId = a.resourceId ∧
      (groups.foldl (silenceRow collate) a).status = a.status ∧
      ((groups.foldl (silenceRow collate) a).silenced = true ↔
        a.silenced = true ∨ ∃ group ∈ groups, silences collate group a = true) := by
  induction groups generalizing a with
  | nil => simp
  | cons group groups ih =>
    rw [List.foldl_cons, List.exists_mem_cons_iff]
    by_cases hgroup : silences collate group a = true
    · rw [silenceRow, if_pos hgroup]
      obtain ⟨haccount, hresource, hstatus, hsilenced⟩ :=
        ih { a with silenced := true, silencedReason := some group.1.2 }
      exact ⟨haccount, hresource, hstatus, fun _ => .inr (.inl hgroup),
        fun _ => hsilenced.mpr (.inl rfl)⟩
    · rw [silenceRow, if_neg hgroup]
      obtain ⟨haccount, hresource, hstatus, hsilenced⟩ := ih a
      refine ⟨haccount, hresource, hstatus, hsilenced.trans (or_congr_right ?_)⟩
      exact ⟨.inr, fun h => h.resolve_left hgroup⟩

theorem silenceGroups_rows :
    (groups.foldl (silenceGroup collate) (alerts, n)).1 =
      alerts.map fun a => groups.foldl (silenceRow collate) a := by
  induction groups generalizing alerts n with
  | nil => simp
  | cons group groups ih =>
    rw [List.foldl_cons, silenceGroup, ih, List.map_map]
    rfl

/-- An UPDATE that matches no row. -/
theorem silenceGroups_none
    (h : ∀ a ∈ alerts, ∀ group ∈ groups, silences collate group a = false) :
    groups.foldl (silenceGroup collate) (alerts, n) = (alerts, n) := by
  induction groups with
  | nil => rfl
  | cons group groups ih =>
    have hfirst : ∀ a ∈ alerts, silences collate group a = false :=
      fun a ha => h a ha group List.mem_cons_self
    have hrows : alerts.map (fun a => silenceRow collate a group) = alerts := by
      refine (List.map_congr_left fun a ha => ?_).trans (List.map_id alerts)
      rw [silenceRow, hfirst a ha]
      rfl
    have hcount : alerts.countP (silences collate group) = 0 :=
      List.countP_eq_zero.mpr fun a ha => by simp [hfirst a ha]
    rw [List.foldl_cons, silenceGroup, hrows, hcount]
    exact ih fun a ha group hgroup => h a ha group (List.mem_cons_of_mem _ hgroup)

theorem unsilenceChunks_rows :
    (chunks.foldl unsilenceChunk (alerts, n)).1[id]? = alerts[id]?.map fun a =>
      if ∃ chunk ∈ chunks, id ∈ chunk then { a with silenced := false, silencedReason := none }
      else a := by
  induction chunks generalizing alerts n with
  | nil => simp
  | cons chunk chunks ih =>
    rw [List.foldl_cons, unsilenceChunk, ih, List.getElem?_mapIdx, Option.map_map]
    congr 1
    funext a
    simp only [Function.comp_apply, List.exists_mem_cons_iff]
    by_cases hchunk : id ∈ chunk <;> by_cases hrest : ∃ chunk ∈ chunks, id ∈ chunk <;>
      simp [hchunk, hrest]

theorem mem_staleIds {covered : List ((ℕ × String) × String)} :
    id ∈ staleIds covered alerts ↔ ∃ a, alerts[id]? = some a ∧ a.silenced = true ∧
      a.isOpen = true ∧ isCovered covered a = false := by
  simp only [staleIds, List.mem_map, List.mem_filter, Prod.exists, List.mem_zipIdx_iff_getElem?,
    Bool.and_eq_true, Bool.not_eq_true', and_assoc]
  constructor
  · rintro ⟨a, _, ha, hsilenced, hopen, hcovered, rfl⟩
    exact ⟨a, ha, hsilenced, hopen, hcovered⟩
  · rintro ⟨a, ha, hsilenced, hopen, hcovered⟩
    exact ⟨a, id, ha, hsilenced, hopen, hcovered, rfl⟩

/-- An open alert on a covered resource is silenced once all groups are through. -/
theorem silenceRows_covered {covered : List ((ℕ × String) × String)} (hopen : a.isOpen = true)
    (hcovered : isCovered covered a = true) :
    ((byReason covered).foldl (silenceRow collate) a).silenced = true := by
  obtain ⟨-, -, -, hsilenced⟩ := silenceRows_spec collate (byReason covered) a
  refine hsilenced.mpr ?_
  cases hloud : a.silenced with
  | true => exact .inl rfl
  | false =>
    obtain ⟨account, haccount, hfind⟩ := Option.any_eq_true .. |>.mp hcovered
    obtain ⟨reason, vs, hgroup, hrid⟩ := lists_byReason.mpr (find_isSome_iff.mp hfind)
    refine .inr ⟨_, hgroup, ?_⟩
    simp only [silences, haccount, hopen, hloud, decide_true, Bool.true_and, Bool.not_false,
      Bool.and_true, List.any_eq_true, decide_eq_true_eq]
    exact ⟨_, hrid, rfl⟩

/-- A row after both UPDATEs. -/
def syncedRow (collate : String → String) (covered : List ((ℕ × String) × String)) (a : Alert) :
    Alert :=
  let a := (byReason covered).foldl (silenceRow collate) a
  if a.silenced = true ∧ a.isOpen = true ∧ isCovered covered a = false then
    { a with silenced := false, silencedReason := none }
  else a

theorem syncedRow_spec (collate : String → String) (covered : List ((ℕ × String) × String))
    (a : Alert) :
    (syncedRow collate covered a).account = a.account ∧
      (syncedRow collate covered a).resourceId = a.resourceId ∧
      (syncedRow collate covered a).status = a.status ∧
      (a.isOpen = true →
        ((syncedRow collate covered a).silenced = true ↔ isCovered covered a = true)) := by
  obtain ⟨haccount, hresource, hstatus, -⟩ := silenceRows_spec collate (byReason covered) a
  have hcovered : isCovered covered ((byReason covered).foldl (silenceRow collate) a) =
      isCovered covered a := by
    simp only [isCovered, haccount, hresource]
  have hopen : ((byReason covered).foldl (silenceRow collate) a).isOpen = a.isOpen := by
    simp only [Alert.isOpen, hstatus]
  simp only [syncedRow, hcovered, hopen]
  split
  · rename_i hstale
    exact ⟨haccount, hresource, hstatus, fun _ => by simp [hstale.2.2]⟩
  · rename_i hkept
    refine ⟨haccount, hresource, hstatus, fun ha => ⟨fun hsilenced => ?_, silenceRows_covered ha⟩⟩
    by_contra hnot
    exact hkept ⟨hsilenced, ha, by simpa using hnot⟩

end Rows

section Result
variable {collate : String → String} {s : Tables} {now id : ℕ} {a : Alert}

/-- A silencing UPDATE matches a row, by account and resource, only if it is covered. -/
theorem silences_covered (hone : s.OneSpelling collate) (ha : a.resourceId ∈ s.resourceIds)
    {group : (ℕ × String) × List String}
    (hgroup : group ∈ byReason (activeSilencedMap collate s now))
    (h : silences collate group a = true) :
    isCovered (activeSilencedMap collate s now) a = true ∧ a.silenced = false := by
  simp only [silences, Bool.and_eq_true, decide_eq_true_eq, List.any_eq_true,
    Bool.not_eq_true'] at h
  obtain ⟨⟨⟨haccount, rid, hrid, heq⟩, -⟩, hloud⟩ := h
  have hkey := lists_byReason.mp ⟨group.1.2, group.2, hgroup, hrid⟩
  obtain ⟨w, hw, -, -, hcovers⟩ := (mem_activeSilencedMap hone).mp hkey
  have hmem : rid ∈ s.resourceIds := by
    rcases hcovers with rfl | ⟨-, path, run, -⟩
    · simp only [Tables.resourceIds, List.mem_append, List.mem_map]
      exact .inl (.inl (.inl ⟨w, hw, rfl⟩))
    · refine reached_mem run ?_
      simp only [Tables.resourceIds, List.mem_append, List.mem_map]
      exact .inl (.inl (.inl ⟨w, hw, rfl⟩))
  obtain rfl := hone rid hmem a.resourceId ha heq
  exact ⟨Option.any_eq_true .. |>.mpr ⟨group.1.1, haccount, find_isSome_iff.mpr hkey⟩, hloud⟩

theorem sync_alerts : (syncMaintenanceSilencing collate s now).1.alerts =
    s.alerts.map (syncedRow collate (activeSilencedMap collate s now)) := by
  have hrows : (syncMaintenanceSilencing collate s now).1.alerts =
      ((slices 500 (staleIds (activeSilencedMap collate s now)
        ((byReason (activeSilencedMap collate s now)).foldl (silenceGroup collate)
          (s.alerts, 0)).1)).foldl unsilenceChunk
        (((byReason (activeSilencedMap collate s now)).foldl (silenceGroup collate)
          (s.alerts, 0)).1, 0)).1 := rfl
  rw [hrows, silenceGroups_rows]
  refine List.ext_getElem? fun id => ?_
  simp only [unsilenceChunks_rows, List.getElem?_map, Option.map_map,
    mem_slices (by decide : 0 < 500), mem_staleIds]
  cases hrow : s.alerts[id]? with
  | none => rfl
  | some a => simp [syncedRow]

/-- Where every open alert is silenced exactly if it is covered, a sync changes nothing. -/
theorem sync_settled (hone : s.OneSpelling collate)
    (h : ∀ a ∈ s.alerts, a.isOpen = true →
      (a.silenced = true ↔ isCovered (activeSilencedMap collate s now) a = true)) :
    syncMaintenanceSilencing collate s now = (s, ⟨0, 0⟩) := by
  have hloud : ∀ a ∈ s.alerts, ∀ group ∈ byReason (activeSilencedMap collate s now),
      silences collate group a = false := by
    intro a ha group hgroup
    by_contra hne
    have hmatch : silences collate group a = true := by simpa using hne
    have hopen : a.isOpen = true := by
      simp only [silences, Bool.and_eq_true] at hmatch
      exact hmatch.1.2
    have hmem : a.resourceId ∈ s.resourceIds := by
      simp only [Tables.resourceIds, List.mem_append, List.mem_map]
      exact .inl (.inl (.inr ⟨a, ha, rfl⟩))
    obtain ⟨hcovered, hnot⟩ := silences_covered hone hmem hgroup hmatch
    rw [(h a ha hopen).mpr hcovered] at hnot
    cases hnot
  have hstale : staleIds (activeSilencedMap collate s now) s.alerts = [] := by
    refine List.eq_nil_iff_forall_not_mem.mpr fun id hid => ?_
    obtain ⟨a, ha, hsilenced, hopen, hnot⟩ := mem_staleIds.mp hid
    rw [(h a (List.mem_of_getElem? ha) hopen).mp hsilenced] at hnot
    cases hnot
  unfold syncMaintenanceSilencing
  simp only [silenceGroups_none hloud, hstale]
  rfl

/-- When no resource has two spellings, a sync leaves an open alert silenced exactly if an
active window of its account covers its resource, and a second one changes nothing. -/
theorem silenced_iff_covered (collate : String → String) (s : Tables) (now : ℕ)
    (hone : s.OneSpelling collate) :
    (∀ a ∈ (syncMaintenanceSilencing collate s now).1.alerts, a.isOpen = true →
      (a.silenced = true ↔ s.Covered collate now a)) ∧
    syncMaintenanceSilencing collate (syncMaintenanceSilencing collate s now).1 now =
      ((syncMaintenanceSilencing collate s now).1, ⟨0, 0⟩) := by
  have hrows : ∀ a ∈ (syncMaintenanceSilencing collate s now).1.alerts, a.isOpen = true →
      (a.silenced = true ↔ isCovered (activeSilencedMap collate s now) a = true) := by
    intro a ha hopen
    rw [sync_alerts] at ha
    obtain ⟨b, -, rfl⟩ := List.mem_map.mp ha
    obtain ⟨haccount, hresource, hstatus, hsilenced⟩ :=
      syncedRow_spec collate (activeSilencedMap collate s now) b
    simp only [isCovered, haccount, hresource]
    simp only [Alert.isOpen, hstatus] at hopen
    exact hsilenced hopen
  have hids : (syncMaintenanceSilencing collate s now).1.resourceIds = s.resourceIds := by
    have halerts : (syncMaintenanceSilencing collate s now).1.alerts.map (·.resourceId) =
        s.alerts.map (·.resourceId) := by
      rw [sync_alerts, List.map_map]
      exact List.map_congr_left fun b _ => (syncedRow_spec collate _ b).2.1
    simp only [Tables.resourceIds, halerts]
    rfl
  refine ⟨fun a ha hopen => (hrows a ha hopen).trans (isCovered_iff hone), ?_⟩
  refine sync_settled (fun r hr r' hr' heq => ?_) hrows
  rw [hids] at hr hr'
  exact hone r hr r' hr' heq

end Result

section Example

/-- `web` depends on `db`. A window on `db`, for the root alone or with what depends on it. -/
def oneWindow (silenceDownstream : Bool) : Tables :=
  ⟨[⟨1, "db", "upgrade", 0, 100, silenceDownstream⟩],
    [⟨some 1, "web", .active, false, none⟩, ⟨some 1, "cache", .active, true, some "manual"⟩],
    [⟨1, "web", "db"⟩]⟩

/-- A window for its root alone leaves what depends on the root loud. -/
theorem root_only_window_loud : ∃ (s : Tables) (now : ℕ) (w : Window) (a : Alert),
    w ∈ s.windows ∧ w.activeAt now = true ∧ a.account = some w.account ∧
    (∃ path, Steps (DependsOn id s.relationships w.account) w.resourceId path a.resourceId ∧
      path.length ≤ maxCascadeDepth) ∧
    a ∈ (syncMaintenanceSilencing id s now).1.alerts ∧ a.isOpen = true ∧ a.silenced = false := by
  refine ⟨oneWindow false, 0, ⟨1, "db", "upgrade", 0, 100, false⟩,
    ⟨some 1, "web", .active, false, none⟩, by decide, by decide, rfl,
    ⟨[⟨1, "web", "db"⟩], Steps.refl.snoc ⟨by decide, rfl, rfl, rfl⟩, by decide⟩, ?_, by decide, rfl⟩
  decide +kernel

/-- A window on `db` with what depends on it silences `web` and un-silences `cache`. -/
theorem silenced_iff_covered_downstream :
    (∃ a ∈ (syncMaintenanceSilencing id (oneWindow true) 0).1.alerts,
      a.resourceId = "web" ∧ a.silenced = true ∧ (oneWindow true).Covered id 0 a) ∧
    syncMaintenanceSilencing id (syncMaintenanceSilencing id (oneWindow true) 0).1 0 =
      ((syncMaintenanceSilencing id (oneWindow true) 0).1, ⟨0, 0⟩) := by
  obtain ⟨hiff, hagain⟩ := silenced_iff_covered id (oneWindow true) 0 fun _ _ _ _ h => h
  have hweb : (⟨some 1, "web", .active, true, some "Maintenance window: upgrade"⟩ : Alert) ∈
      (syncMaintenanceSilencing id (oneWindow true) 0).1.alerts := by decide +kernel
  exact ⟨⟨_, hweb, rfl, rfl, (hiff _ hweb (by decide)).mp rfl⟩, hagain⟩

end Example

end MonitoringHub.Maintenance
