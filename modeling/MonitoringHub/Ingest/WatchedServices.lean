import Mathlib.Data.List.Sort
import Mathlib.Data.String.Basic
import MonitoringHub.Ingest.AgentRow
import MonitoringHub.Ingest.HostConfig
import MonitoringHub.Lib.GroupTally
import MonitoringHub.Lib.RowTable
import MonitoringHub.Lib.StepRun
import MonitoringHub.Lib.Text

/-! The stored services of a host. PATCH deletes the rows of names that it takes off the list,
and a report replaces the rows if it carries the version that its authentication read. -/

namespace MonitoringHub.Ingest
open Lib Lib.RowTable Lib.GroupTally

inductive ServiceState
  | running
  | stopped
  | failed
  | unknown
  deriving DecidableEq

/-- A row of `host_agent_services` of the host. -/
structure ServiceRow where
  name : String
  state : ServiceState
  stateSince : ℤ
  observedAt : ℤ
  deriving DecidableEq

/-- `SERVICE_CLAMP_PAST_SECONDS` -/
def serviceClampPastSeconds : ℤ := 86400
/-- `SERVICE_CLAMP_FUTURE_SECONDS` -/
def serviceClampFutureSeconds : ℤ := 600

/-- `_service_observed_at` -/
def serviceObservedAt (sentAt now : ℤ) : ℤ :=
  if sentAt < now - serviceClampPastSeconds ∨ now + serviceClampFutureSeconds < sentAt then now
  else sentAt

/-- `ON DUPLICATE KEY UPDATE` of `SQL_UPSERT_SERVICES`, from left to right. -/
def ServiceRow.observe (state : ServiceState) (observed : ℤ) (row : ServiceRow) : ServiceRow :=
  { row with
    stateSince := if row.observedAt ≤ observed ∧ row.state ≠ state then observed else row.stateSince
    state := if row.observedAt ≤ observed then state else row.state
    observedAt := max row.observedAt observed }

section Names
variable (fold : String → String)

/-- `SQL_UPSERT_SERVICES`; the key takes names for the same that the collation folds together. -/
def upsertService (observed : ℤ) (rows : List ServiceRow) (report : String × ServiceState) :
    List ServiceRow :=
  if rows.any fun row => fold row.name = fold report.1 then
    rows.map fun row =>
      if fold row.name = fold report.1 then row.observe report.2 observed else row
  else rows ++ [⟨report.1, report.2, observed, observed⟩]

/-- `DELETE .. WHERE service_name NOT IN (..)` -/
def keepServices (names : List String) (rows : List ServiceRow) : List ServiceRow :=
  rows.filter fun row => names.any fun name => fold name = fold row.name

end Names

/-- The services of a report, the last state of each name, in the order of the names. -/
def latestServices (services : List (String × ServiceState)) : List (String × ServiceState) :=
  (tally Prod.fst Prod.snd (fun _ report => report.2) services).insertionSort fun a b => a.1 ≤ b.1

/-- What validation leaves of a request. -/
structure ServiceReport (S : Type) where
  clean : Clean S
  configVersion : ℕ
  services : List (String × ServiceState)
  sentAt : ℤ

/-- A request past its authentication, with the `config_version` that it read there. -/
structure ServiceCall (S : Type) where
  report : ServiceReport S
  read : ℕ
  finished : Bool

/-- The host's row, its stored services, and the requests so far. -/
structure WatchedHost (S : Type) where
  agent : AgentRow
  configVersion : ℕ
  stored : StoredConfig
  services : List ServiceRow
  calls : List (ServiceCall S)

inductive WatchAct (S : Type)
  | patch (body : ConfigPatch)
  | revoke
  | enroll
  | authenticate (report : ServiceReport S)
  | transact (call now later : ℕ)

namespace WatchedHost
variable {S : Type}

/-- A row as its first enrolment leaves it. -/
def fresh (agent : AgentRow) : WatchedHost S := ⟨agent, 1, .unset, [], []⟩

/-- The request's `_transact` comes to `_write_services`, and that writes. -/
def writesServices (s : WatchedHost S) (call : ServiceCall S) (now later : ℕ) : Bool :=
  (call.report.clean.samples.isEmpty ||
    !(transact now later call.report.clean s.agent).2.isEmpty) &&
  !call.report.services.isEmpty && call.report.configVersion = call.read

variable (fold : String → String)

/-- `_write_services` -/
def writeServices (now : ℤ) (report : ServiceReport S) (rows : List ServiceRow) :
    List ServiceRow :=
  let latest := latestServices report.services
  keepServices fold (latest.map Prod.fst)
    (latest.foldl (upsertService fold (serviceObservedAt report.sentAt now)) rows)

/-- `patch_host_agent_config`; `none` where it is refused. -/
def patch (s : WatchedHost S) (body : ConfigPatch) : Option (WatchedHost S) :=
  match body.changes with
  | .error _ => none
  | .ok changes =>
    if s.agent.status = .revoked then none
    else some { s with
      configVersion := s.configVersion + 1
      stored := s.stored.update changes
      services := match changes.watchServices with
        | some kept => keepServices fold kept s.services
        | none => s.services }

def step (s : WatchedHost S) : WatchAct S → Option (WatchedHost S)
  | .patch body => s.patch fold body
  | .revoke => some { s with agent := { s.agent with status := .revoked } }
  | .enroll => some { s with agent := { s.agent with status := .active, lastSeq := 0 } }
  | .authenticate report =>
    if s.agent.status = .active then
      some { s with calls := s.calls ++ [⟨report, s.configVersion, false⟩] }
    else none
  | .transact k now later =>
    match s.calls[k]? with
    | some call =>
      if call.finished then none
      else some { s with
        agent := (transact now later call.report.clean s.agent).1
        services := if s.writesServices call now later then
            writeServices fold now call.report s.services
          else s.services
        calls := modifyAt k (fun call => { call with finished := true }) s.calls }
    | none => none

/-- Every stored service is on the list in force. -/
def Watched (s : WatchedHost S) : Prop := ∀ row ∈ s.services, row.name ∈ s.stored.watched

/-- A new list has the very names of the rows that it keeps; and a report that is written brings
no new name that is not on the list, where of names that fold together the first one counts. -/
def OnList (s : WatchedHost S) : WatchAct S → Prop
  | .patch body => ∀ kept ∈ body.kept, ∀ row ∈ s.services,
      (∃ name ∈ kept, fold name = fold row.name) → row.name ∈ kept
  | .transact k now later => ∀ call ∈ s.calls[k]?, s.writesServices call now later = true →
      ∀ name ∈ call.report.services.map Prod.fst,
        (∀ row ∈ s.services, fold row.name ≠ fold name) →
        (∀ name' ∈ call.report.services.map Prod.fst, fold name' = fold name → name ≤ name') →
          name ∈ s.stored.watched
  | _ => True

instance (s : WatchedHost S) : ∀ act, Decidable (s.OnList fold act)
  | .patch body => inferInstanceAs (Decidable (∀ kept ∈ body.kept, _))
  | .transact k _ _ => inferInstanceAs (Decidable (∀ call ∈ s.calls[k]?, _))
  | .revoke | .enroll | .authenticate _ => inferInstanceAs (Decidable True)

instance (s : WatchedHost S) : Decidable s.Watched :=
  inferInstanceAs (Decidable (∀ row ∈ s.services, _))

end WatchedHost

section Names
variable {fold : String → String} {rows : List ServiceRow} {name : String} {observed : ℤ}

theorem mem_keepServices {names : List String} {row : ServiceRow} :
    row ∈ keepServices fold names rows ↔ row ∈ rows ∧ ∃ name ∈ names, fold name = fold row.name := by
  rw [keepServices, List.mem_filter, List.any_eq_true]
  simp only [decide_eq_true_eq]

/-- A report adds its name where no row has one that folds to the same. -/
theorem name_upsertService {report : String × ServiceState} :
    name ∈ (upsertService fold observed rows report).map ServiceRow.name ↔
      name ∈ rows.map ServiceRow.name ∨
        (name = report.1 ∧ ∀ row ∈ rows, fold row.name ≠ fold name) := by
  unfold upsertService
  split
  · rename_i hany
    have hnames : (rows.map fun row =>
        if fold row.name = fold report.1 then row.observe report.2 observed else row).map
          ServiceRow.name = rows.map ServiceRow.name := by
      rw [List.map_map]
      refine List.map_congr_left fun row _ => ?_
      rw [Function.comp_apply]
      split <;> rfl
    rw [hnames]
    refine ⟨.inl, fun h => h.resolve_right ?_⟩
    rintro ⟨rfl, hnone⟩
    obtain ⟨row, hrow, hfold⟩ := List.any_eq_true.mp hany
    exact hnone row hrow (of_decide_eq_true hfold)
  · rename_i hany
    rw [List.map_append, List.mem_append]
    refine or_congr_right ⟨fun h => ?_, fun h => ?_⟩
    · obtain rfl := List.mem_singleton.mp h
      refine ⟨rfl, fun row hrow hfold => hany ?_⟩
      exact List.any_eq_true.mpr ⟨row, hrow, decide_eq_true hfold⟩
    · exact List.mem_singleton.mpr h.1

theorem unnamed_upsertService {report : String × ServiceState} :
    (∀ row ∈ upsertService fold observed rows report, fold row.name ≠ fold name) ↔
      (∀ row ∈ rows, fold row.name ≠ fold name) ∧ fold report.1 ≠ fold name := by
  have hmap (rows : List ServiceRow) : (∀ row ∈ rows, fold row.name ≠ fold name) ↔
      ∀ n ∈ rows.map ServiceRow.name, fold n ≠ fold name :=
    (List.forall_mem_map (P := fun n => fold n ≠ fold name)).symm
  rw [hmap, hmap]
  simp only [name_upsertService]
  constructor
  · intro h
    refine ⟨fun n hn => h n (.inl hn), fun hreport => ?_⟩
    by_cases hnone : ∀ row ∈ rows, fold row.name ≠ fold report.1
    · exact h report.1 (.inr ⟨rfl, hnone⟩) hreport
    · push Not at hnone
      obtain ⟨row, hrow, hfold⟩ := hnone
      exact h row.name (.inl (List.mem_map_of_mem hrow)) (hfold.trans hreport)
  · rintro ⟨hrows, hreport⟩ n (hn | ⟨rfl, -⟩)
    · exact hrows n hn
    · exact hreport

/-- Of the names that fold together a list of reports adds the first, if no row has one. -/
theorem name_upsertServices {reports : List (String × ServiceState)} :
    name ∈ (reports.foldl (upsertService fold observed) rows).map ServiceRow.name ↔
      name ∈ rows.map ServiceRow.name ∨
        ((reports.find? fun report => fold report.1 = fold name).map Prod.fst = some name ∧
          ∀ row ∈ rows, fold row.name ≠ fold name) := by
  induction reports generalizing rows with
  | nil => simp
  | cons report reports ih =>
    rw [List.foldl_cons, ih, name_upsertService, unnamed_upsertService, List.find?_cons]
    by_cases hreport : fold report.1 = fold name
    · simp only [hreport, decide_true, Option.map_some, Option.some.injEq, ne_eq, not_true_eq_false,
        and_false, or_false, eq_comm (a := name)]
    · have hne : name ≠ report.1 := fun heq => hreport (heq ▸ rfl)
      simp only [hreport, hne, decide_false, false_and, or_false, ne_eq, not_false_eq_true, and_true]

theorem pairwise_latestServices (services : List (String × ServiceState)) :
    (latestServices services).Pairwise fun a b => a.1 ≤ b.1 := by
  have : Std.Total fun a b : String × ServiceState => a.1 ≤ b.1 := ⟨fun a b => le_total a.1 b.1⟩
  have : IsTrans (String × ServiceState) fun a b => a.1 ≤ b.1 := ⟨fun _ _ _ => le_trans⟩
  exact List.pairwise_insertionSort _ _

theorem mem_latestServices {services : List (String × ServiceState)} :
    name ∈ (latestServices services).map Prod.fst ↔ name ∈ services.map Prod.fst := by
  have hsort : name ∈ (latestServices services).map Prod.fst ↔
      ∃ state, (name, state) ∈ tally Prod.fst Prod.snd (fun _ report => report.2) services := by
    simp [latestServices]
  rw [hsort]
  constructor
  · rintro ⟨state, hstate⟩
    obtain ⟨report, hreport, hname⟩ := key_of_mem_tally hstate
    exact List.mem_map.mpr ⟨report, hreport, hname⟩
  · intro hname
    obtain ⟨report, hreport, rfl⟩ := List.mem_map.mp hname
    exact exists_mem_tally Prod.fst Prod.snd (fun _ report => report.2) hreport

/-- The first report of a name that folds to this one, in the order of the names. -/
theorem find_latestServices {services : List (String × ServiceState)} :
    ((latestServices services).find? fun report => fold report.1 = fold name).map Prod.fst =
      some name ↔ name ∈ services.map Prod.fst ∧
        ∀ name' ∈ services.map Prod.fst, fold name' = fold name → name ≤ name' := by
  have hfirst (report : String × ServiceState)
      (hreport : (latestServices services).find? (fun report => fold report.1 = fold name) =
        some report) :
      report.1 ∈ services.map Prod.fst ∧ fold report.1 = fold name ∧
        ∀ name' ∈ services.map Prod.fst, fold name' = fold name → report.1 ≤ name' := by
    obtain ⟨hfold, pre, post, hlist, hpre⟩ := List.find?_eq_some_iff_append.mp hreport
    refine ⟨mem_latestServices.mp ?_, of_decide_eq_true hfold, fun name' hname' hfold' => ?_⟩
    · exact List.mem_map_of_mem (List.mem_of_find?_eq_some hreport)
    · obtain ⟨later, hlater, rfl⟩ := List.mem_map.mp (mem_latestServices.mpr hname')
      have hsorted := pairwise_latestServices services
      rw [hlist] at hlater hsorted
      rcases List.mem_append.mp hlater with hbefore | hfrom
      · have hno := hpre later hbefore
        simp [hfold'] at hno
      · rcases List.mem_cons.mp hfrom with rfl | hafter
        · exact le_rfl
        · exact (List.pairwise_cons.mp (List.pairwise_append.mp hsorted).2.1).1 later hafter
  constructor
  · intro h
    obtain ⟨report, hreport, rfl⟩ := Option.map_eq_some_iff.mp h
    obtain ⟨hmem, -, hleast⟩ := hfirst report hreport
    exact ⟨hmem, hleast⟩
  · rintro ⟨hmem, hleast⟩
    obtain ⟨reported, hreported, hname⟩ := List.mem_map.mp (mem_latestServices.mpr hmem)
    cases hreport : (latestServices services).find? fun report => fold report.1 = fold name with
    | none =>
      have hno := List.find?_eq_none.mp hreport reported hreported
      simp [hname] at hno
    | some report =>
      obtain ⟨hmem', hfold, hleast'⟩ := hfirst report hreport
      exact congrArg some (le_antisymm (hleast' name hmem rfl) (hleast report.1 hmem' hfold))

/-- What a report stores: names that were stored, and new ones. -/
theorem name_writeServices {S : Type} {now : ℤ} {report : ServiceReport S}
    (h : name ∈ (WatchedHost.writeServices fold now report rows).map ServiceRow.name) :
    name ∈ rows.map ServiceRow.name ∨
      ((∀ row ∈ rows, fold row.name ≠ fold name) ∧ name ∈ report.services.map Prod.fst ∧
        ∀ name' ∈ report.services.map Prod.fst, fold name' = fold name → name ≤ name') := by
  obtain ⟨row, hrow, rfl⟩ := List.mem_map.mp h
  have hupserted := List.mem_map_of_mem (f := ServiceRow.name) (mem_keepServices.mp hrow).1
  refine (name_upsertServices.mp hupserted).imp_right fun hnew => ⟨hnew.2, ?_⟩
  exact find_latestServices.mp hnew.1

theorem writeServices_new {S : Type} {now : ℤ} {report : ServiceReport S}
    (hnew : ∀ row ∈ rows, fold row.name ≠ fold name) (hname : name ∈ report.services.map Prod.fst)
    (hfirst : ∀ name' ∈ report.services.map Prod.fst, fold name' = fold name → name ≤ name') :
    name ∈ (WatchedHost.writeServices fold now report rows).map ServiceRow.name := by
  have hfind := find_latestServices.mpr ⟨hname, hfirst⟩
  have hupserted : name ∈ ((latestServices report.services).foldl
      (upsertService fold (serviceObservedAt report.sentAt now)) rows).map ServiceRow.name :=
    name_upsertServices.mpr (.inr ⟨hfind, hnew⟩)
  obtain ⟨row, hrow, rfl⟩ := List.mem_map.mp hupserted
  refine List.mem_map_of_mem (mem_keepServices.mpr ⟨hrow, row.name, ?_, rfl⟩)
  exact mem_latestServices.mpr hname

end Names

section Runs
variable {S : Type} {fold : String → String} {s t : WatchedHost S} {act : WatchAct S}

theorem Watched.step (h : s.Watched) (honlist : s.OnList fold act) (hstep : s.step fold act = some t) :
    t.Watched := by
  cases act <;> simp only [WatchedHost.step] at hstep
  case patch body =>
    unfold WatchedHost.patch at hstep
    split at hstep
    · cases hstep
    · rename_i changes hchanges
      obtain ⟨-, hstep⟩ := Option.ite_none_left_eq_some.mp hstep
      obtain rfl := Option.some.inj hstep
      intro row hrow
      rw [StoredConfig.watched_update]
      cases hkept : changes.watchServices with
      | none =>
        rw [hkept] at hrow
        exact h row hrow
      | some kept =>
        rw [hkept] at hrow
        have hbody : kept ∈ body.kept := by
          simp [ConfigPatch.kept, hchanges, hkept, Except.toOption]
        obtain ⟨hrow, hname⟩ := mem_keepServices.mp hrow
        exact honlist kept hbody row hrow hname
  case revoke =>
    obtain rfl := Option.some.inj hstep
    exact h
  case enroll =>
    obtain rfl := Option.some.inj hstep
    exact h
  case authenticate =>
    obtain ⟨-, hstep⟩ := Option.ite_none_right_eq_some.mp hstep
    obtain rfl := Option.some.inj hstep
    exact h
  case transact k now later =>
    split at hstep
    · rename_i call hcall
      obtain ⟨-, hstep⟩ := Option.ite_none_left_eq_some.mp hstep
      obtain rfl := Option.some.inj hstep
      intro row hrow
      dsimp only at hrow ⊢
      split at hrow
      · rename_i hwrites
        rcases name_writeServices (List.mem_map_of_mem hrow) with hold | ⟨hnew, hname, hfirst⟩
        · obtain ⟨row', hrow', heq⟩ := List.mem_map.mp hold
          exact heq ▸ h row' hrow'
        · exact honlist call hcall hwrites row.name hname hnew hfirst
      · exact h row hrow
    · cases hstep

/-- The condition is the weakest one: a step that leaves the stored services on the list
meets it. -/
theorem onList_of_watched (hstep : s.step fold act = some t) (h : t.Watched) :
    s.OnList fold act := by
  cases act with
  | patch body =>
    intro kept hkept row hrow hname
    simp only [WatchedHost.step, WatchedHost.patch] at hstep
    split at hstep
    · rename_i hchanges
      simp [ConfigPatch.kept, hchanges, Except.toOption] at hkept
    · rename_i changes hchanges
      obtain ⟨-, hstep⟩ := Option.ite_none_left_eq_some.mp hstep
      obtain rfl := Option.some.inj hstep
      have hkept : changes.watchServices = some kept := by
        simpa [ConfigPatch.kept, hchanges, Except.toOption] using hkept
      have hwatched := h row (by rw [hkept]; exact mem_keepServices.mpr ⟨hrow, hname⟩)
      rwa [StoredConfig.watched_update, hkept] at hwatched
  | transact k now later =>
    intro call hcall hwrites name hname hnew hfirst
    simp only [WatchedHost.step] at hstep
    rw [Option.mem_def.mp hcall] at hstep
    obtain ⟨-, hstep⟩ := Option.ite_none_left_eq_some.mp hstep
    obtain rfl := Option.some.inj hstep
    have hwritten : name ∈ (WatchedHost.writeServices fold now call.report s.services).map
        ServiceRow.name := writeServices_new hnew hname hfirst
    obtain ⟨row, hrow, rfl⟩ := List.mem_map.mp hwritten
    refine h row ?_
    dsimp only
    rw [if_pos hwrites]
    exact hrow
  | _ => trivial

/-- A heartbeat under this version and number. -/
def servicesReport (seq configVersion : ℕ) (services : List (String × ServiceState)) :
    ServiceReport Unit := ⟨⟨seq, "1.2", []⟩, configVersion, services, 60⟩

end Runs

end MonitoringHub.Ingest
