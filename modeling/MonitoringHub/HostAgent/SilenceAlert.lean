import MonitoringHub.HostAgent.WatchdogRun

/-! A silent group and its alert. The import at the head of `_environment` names two things
that `environment_classifier` does not have, so the turn that has to open an alert raises
and the pass is rolled back. What is left of a pass refreshes and closes alerts. -/

namespace MonitoringHub.HostAgent
open Lib Lib.KeyedStore

/-- The groups of a pass. -/
def passGroups (input : PassInput) (db : Database) : List ((ℕ × String) × List AgedHost) :=
  groupHosts db.resources (fetchHosts db input.now)

/-- An open heartbeat alert that the state row of no departed host records. -/
def Surviving (db : Database) (key : ℕ × String) : Prop :=
  ∃ id, OpenAt db.alerts key id ∧ ∀ row ∈ departedRows db, row.2.alertId ≠ some id

/-- After a pass a silent group has exactly one open alert and any other group none. -/
def GroupRight (input : PassInput) (db after : Database) (key : ℕ × String) (lead : AgedHost) :
    Prop :=
  (Silent input.stale db.resources lead → ∃! id, OpenAt after.alerts key id) ∧
    (¬ Silent input.stale db.resources lead → ∀ id, ¬ OpenAt after.alerts key id)

/-- Before the pass a silent group has its open alert, on a resource row; a group without a
resource row that is not silent has none. -/
def GroupReady (input : PassInput) (db : Database) (key : ℕ × String) (lead : AgedHost) : Prop :=
  (Silent input.stale db.resources lead →
    (∃ target, findTarget db.resources lead = some target) ∧ Surviving db key) ∧
  (¬ Silent input.stale db.resources lead → findTarget db.resources lead = none →
    ¬ Surviving db key)

/-- A turn closes what is open on the key. -/
def Closing (stale : ℕ) (resources : List Resource) (lead : AgedHost) (key : ℕ × String) : Prop :=
  ¬ Silent stale resources lead ∧ targetKey resources lead = some key

section Turn
variable {c : Classifier} {input : PassInput} {db db' : Database} {host lead : AgedHost}
  {members : List AgedHost} {resources : List Resource} {key : ℕ × String} {id : ℕ}

theorem environment_raises (c : Classifier) (row : Resource) : environment c row = none :=
  if_neg (by decide)

theorem groupKey_of_targetKey (h : targetKey resources lead = some key) :
    groupKey resources lead = key := by
  obtain ⟨target, htarget, rfl⟩ := Option.map_eq_some_iff.mp h
  rw [groupKey, htarget]
  rfl

theorem targetKey_of_target {target : Resource} (h : findTarget resources lead = some target)
    (hkey : groupKey resources lead = key) : targetKey resources lead = some key := by
  rw [← hkey, groupKey, targetKey, h]
  rfl

/-- A turn completes unless it has to open an alert. -/
theorem evaluateHost_isSome :
    (evaluateHost (environment c) input db host).isSome = true ↔
      (Silent input.stale db.resources host →
        ∃ key, targetKey db.resources host = some key ∧ ∃ id, OpenAt db.alerts key id) := by
  constructor
  · intro hsome hsilent
    obtain ⟨db', hturn⟩ := Option.isSome_iff_exists.mp hsome
    obtain ⟨-, ⟨hnot, -⟩ | ⟨-, hkeeps | hopens⟩⟩ := evaluateHost_cases hturn
    · exact absurd hsilent hnot
    · obtain ⟨target, a, id, -, -, htarget, hopen, -⟩ := hkeeps.alerts
      exact ⟨_, targetKey_of_target htarget rfl, id, by
        rw [groupKey, htarget]
        exact openAlert_some hopen⟩
    · obtain ⟨target, env, -, -, henv, -⟩ := hopens.opened
      rw [environment_raises] at henv
      cases henv
  · intro hkept
    unfold evaluateHost
    dsimp only
    split
    · rfl
    · rename_i hoffline
      split
      · rfl
      · rename_i hinfo
        have hsilent : Silent input.stale db.resources host := by
          refine ⟨hoffline, ?_⟩
          rintro ⟨info, hsome, hstopped⟩
          rw [hsome, Option.filter_some_pos (by simpa using hstopped)] at hinfo
          cases hinfo
        obtain ⟨key, hkey, id, hid⟩ := hkept hsilent
        obtain ⟨target, htarget, rfl⟩ := Option.map_eq_some_iff.mp hkey
        rw [htarget, Option.bind_some]
        cases hopen : openAlert db.alerts host.account target.resourceId with
        | none => exact absurd hid (openAlert_none hopen)
        | some found => rfl

theorem evaluateGroup_isSome (c : Classifier) :
    (evaluateGroup (environment c) input db members).isSome = true ↔
      ∀ lead, leadOf members = some lead → Silent input.stale db.resources lead →
        ∃ key, targetKey db.resources lead = some key ∧ ∃ id, OpenAt db.alerts key id := by
  unfold evaluateGroup leadOf
  cases members.insertionSort Fresher with
  | nil => simp
  | cons lead twins =>
    simp only [Option.isSome_map, evaluateHost_isSome, List.head?_cons, Option.some.injEq,
      forall_eq']

/-- What a turn that completes has done. -/
theorem evaluateGroup_effect (h : evaluateGroup (environment c) input db members = some db')
    (hone : OneOpen db.alerts) :
    db'.resources = db.resources ∧ OneOpen db'.alerts ∧ ∀ key id, OpenAt db'.alerts key id ↔
      OpenAt db.alerts key id ∧ ∀ lead, leadOf members = some lead →
        ¬ Closing input.stale db.resources lead key := by
  have heffect : db'.resources = db.resources ∧ ∀ key id, OpenAt db'.alerts key id ↔
      OpenAt db.alerts key id ∧ ∀ lead, leadOf members = some lead →
        ¬ Closing input.stale db.resources lead key := by
    rcases evaluateGroup_some h with ⟨hnone, rfl⟩ | ⟨lead, db₁, hlead, hturn, halerts, hres, -⟩
    · exact ⟨rfl, by simp [hnone]⟩
    · rw [halerts, hres, hlead]
      simp only [Option.some.injEq, forall_eq', Closing]
      obtain ⟨-, ⟨hnot, reason, hcloses⟩ | ⟨hsilent, hkeeps | hopens⟩⟩ := evaluateHost_cases hturn
      · refine ⟨hcloses.resources, fun key id => ?_⟩
        rw [hcloses.openAt hone]
        simp [hnot]
      · refine ⟨hkeeps.resources, fun key id => ?_⟩
        rw [hkeeps.openAt]
        simp [hsilent]
      · obtain ⟨target, env, -, -, henv, -⟩ := hopens.opened
        rw [environment_raises] at henv
        cases henv
  exact ⟨heffect.1, hone.of_subset fun key id hid => ((heffect.2 key id).mp hid).1, heffect.2⟩

end Turn

section Pass
variable {c : Classifier} {input : PassInput} {db db' : Database} {lead : AgedHost}
  {groups : List ((ℕ × String) × List AgedHost)} {key : ℕ × String} {id : ℕ}

theorem turns_effect
    (h : groups.foldlM (fun db group => evaluateGroup (environment c) input db group.2) db =
      some db') (hone : OneOpen db.alerts) :
    OneOpen db'.alerts ∧ ∀ key id, OpenAt db'.alerts key id ↔ OpenAt db.alerts key id ∧
      ∀ group ∈ groups, ∀ lead, leadOf group.2 = some lead →
        ¬ Closing input.stale db.resources lead key := by
  induction groups generalizing db with
  | nil =>
    obtain rfl := Option.some.inj h
    exact ⟨hone, by simp⟩
  | cons group groups ih =>
    rw [List.foldlM_cons] at h
    obtain ⟨db₁, hturn, hrest⟩ := Option.bind_eq_some_iff.mp h
    obtain ⟨hresources, hone₁, hopen₁⟩ := evaluateGroup_effect hturn hone
    obtain ⟨hone', hopen'⟩ := ih hrest hone₁
    refine ⟨hone', fun key id => ?_⟩
    rw [hopen', hopen₁, hresources, List.forall_mem_cons, and_assoc]

/-- A pass completes unless a silent group lacks its alert: no turn closes another group's. -/
theorem turns_isSome (c : Classifier) (input : PassInput) (hdistinct : Distinct groups)
    (hkeys : ∀ group ∈ groups, ∀ lead, leadOf group.2 = some lead →
      groupKey db.resources lead = group.1) (hone : OneOpen db.alerts) :
    (groups.foldlM (fun db group => evaluateGroup (environment c) input db group.2) db).isSome =
        true ↔
      ∀ group ∈ groups, ∀ lead, leadOf group.2 = some lead →
        Silent input.stale db.resources lead →
          ∃ key, targetKey db.resources lead = some key ∧ ∃ id, OpenAt db.alerts key id := by
  induction groups generalizing db with
  | nil => simp
  | cons group groups ih =>
    obtain ⟨hnew, hrest⟩ := List.nodup_cons.mp hdistinct
    rw [List.foldlM_cons, List.forall_mem_cons]
    cases hturn : evaluateGroup (environment c) input db group.2 with
    | none =>
      refine ⟨fun h => (by cases h), fun ⟨hfirst, _⟩ => ?_⟩
      have hsome := (evaluateGroup_isSome c).mpr hfirst
      rw [hturn] at hsome
      cases hsome
    | some db₁ =>
      have hfirst := (evaluateGroup_isSome c).mp (Option.isSome_iff_exists.mpr ⟨db₁, hturn⟩)
      obtain ⟨hresources, hone₁, hopen₁⟩ := evaluateGroup_effect hturn hone
      have hkeys₁ : ∀ group ∈ groups, ∀ lead, leadOf group.2 = some lead →
          groupKey db₁.resources lead = group.1 := fun g hg lead hlead => by
        rw [hresources]
        exact hkeys g (List.mem_cons_of_mem _ hg) lead hlead
      refine (ih hrest hkeys₁ hone₁).trans ?_
      rw [hresources]
      refine ⟨fun h => ⟨hfirst, fun g hg lead hlead hsilent => ?_⟩,
        fun ⟨_, h⟩ g hg lead hlead hsilent => ?_⟩
      · obtain ⟨key, hkey, id, hid⟩ := h g hg lead hlead hsilent
        exact ⟨key, hkey, id, ((hopen₁ key id).mp hid).1⟩
      · obtain ⟨key, hkey, id, hid⟩ := h g hg lead hlead hsilent
        refine ⟨key, hkey, id, (hopen₁ key id).mpr ⟨hid, fun lead' hlead' hcloses => ?_⟩⟩
        -- the group whose turn this was would be another of the same key
        have hsame : group.1 = g.1 := by
          rw [← hkeys group List.mem_cons_self lead' hlead',
            ← hkeys g (List.mem_cons_of_mem _ hg) lead hlead, groupKey_of_targetKey hcloses.2,
            groupKey_of_targetKey hkey]
        exact hnew (hsame ▸ List.mem_map_of_mem hg)

theorem passGroups_clean : groupHosts (cleanDeparted db).resources
    (fetchHosts (cleanDeparted db) input.now) = passGroups input db := by
  obtain ⟨hhosts, haccounts, hresources, -⟩ := cleanDeparted_spec db
  rw [passGroups, fetchHosts, fetchHosts, hhosts, haccounts, hresources]

theorem surviving_iff : Surviving db key ↔ ∃ id, OpenAt (cleanDeparted db).alerts key id :=
  exists_congr fun id => ((cleanDeparted_spec db).2.2.2 key id).symm

theorem passGroups_distinct (input : PassInput) (db : Database) :
    Distinct (passGroups input db) :=
  groupHosts_distinct

theorem passGroups_key {group : (ℕ × String) × List AgedHost} (hgroup : group ∈ passGroups input db)
    (hlead : leadOf group.2 = some lead) : groupKey db.resources lead = group.1 :=
  (mem_groupHosts hgroup (leadOf_spec hlead).1).2

/-- Only the turn of a group itself closes what is open on its key. -/
theorem passGroups_closing {group group' : (ℕ × String) × List AgedHost} {lead' : AgedHost}
    (hgroup : group ∈ passGroups input db) (hlead : leadOf group.2 = some lead)
    (hgroup' : group' ∈ passGroups input db) (hlead' : leadOf group'.2 = some lead')
    (hcloses : Closing input.stale db.resources lead' group.1) : lead' = lead := by
  have hkey : group'.1 = group.1 :=
    (passGroups_key hgroup' hlead').symm.trans (groupKey_of_targetKey hcloses.2)
  have hfind := (passGroups_distinct input db).mem_iff.mp hgroup'
  rw [hkey, (passGroups_distinct input db).mem_iff.mp hgroup] at hfind
  rw [← Option.some.inj hfind, hlead] at hlead'
  exact (Option.some.inj hlead').symm

/-- From a sound database a pass completes and leaves every group right exactly if every
group is ready. -/
theorem runWatchdog_right_iff (hone : OneOpen db.alerts) :
    (∃ after, runWatchdog (environment c) input db = some after ∧
      ∀ group ∈ passGroups input db, ∀ lead, leadOf group.2 = some lead →
        GroupRight input db after group.1 lead) ↔
    ∀ group ∈ passGroups input db, ∀ lead, leadOf group.2 = some lead →
      GroupReady input db group.1 lead := by
  obtain ⟨-, -, hresources, hopen⟩ := cleanDeparted_spec db
  have hone₁ : OneOpen (cleanDeparted db).alerts :=
    hone.of_subset fun key id hid => ((hopen key id).mp hid).1
  have hkeys : ∀ group ∈ passGroups input db, ∀ lead, leadOf group.2 = some lead →
      groupKey db.resources lead = group.1 :=
    fun group hgroup lead hlead => passGroups_key hgroup hlead
  have hrun : runWatchdog (environment c) input db = (passGroups input db).foldlM
      (fun db group => evaluateGroup (environment c) input db group.2) (cleanDeparted db) := by
    rw [runWatchdog, passGroups_clean]
  have hcompletes := turns_isSome c input (passGroups_distinct input db)
    (hresources.symm ▸ hkeys) hone₁
  rw [← hrun, hresources] at hcompletes
  constructor
  · rintro ⟨after, hafter, hright⟩ group hgroup lead hlead
    have hkept := hcompletes.mp (Option.isSome_iff_exists.mpr ⟨after, hafter⟩) group hgroup lead
      hlead
    obtain ⟨-, heffect⟩ := turns_effect (hrun ▸ hafter) hone₁
    rw [hresources] at heffect
    refine ⟨fun hsilent => ?_, fun hnot hnone hsurviving => ?_⟩
    · obtain ⟨key, hkey, id, hid⟩ := hkept hsilent
      obtain rfl := (groupKey_of_targetKey hkey).symm.trans (hkeys group hgroup lead hlead)
      obtain ⟨target, htarget, -⟩ := Option.map_eq_some_iff.mp hkey
      exact ⟨⟨target, htarget⟩, surviving_iff.mpr ⟨id, hid⟩⟩
    · obtain ⟨id, hid⟩ := surviving_iff.mp hsurviving
      refine (hright group hgroup lead hlead).2 hnot id ((heffect group.1 id).mpr ⟨hid, ?_⟩)
      intro group' hgroup' lead' hlead' hcloses
      obtain rfl := passGroups_closing hgroup hlead hgroup' hlead' hcloses
      have hkey := hcloses.2
      rw [targetKey, hnone] at hkey
      cases hkey
  · intro hready
    have hsome := hcompletes.mpr fun group hgroup lead hlead hsilent => by
      obtain ⟨⟨target, htarget⟩, hsurviving⟩ := (hready group hgroup lead hlead).1 hsilent
      exact ⟨group.1, targetKey_of_target htarget (hkeys group hgroup lead hlead),
        surviving_iff.mp hsurviving⟩
    obtain ⟨after, hafter⟩ := Option.isSome_iff_exists.mp hsome
    obtain ⟨hone', heffect⟩ := turns_effect (hrun ▸ hafter) hone₁
    rw [hresources] at heffect
    refine ⟨after, hafter, fun group hgroup lead hlead =>
      ⟨fun hsilent => ?_, fun hnot id hid => ?_⟩⟩
    · obtain ⟨-, hsurviving⟩ := (hready group hgroup lead hlead).1 hsilent
      obtain ⟨id, hid⟩ := surviving_iff.mp hsurviving
      have hkept : OpenAt after.alerts group.1 id := by
        refine (heffect group.1 id).mpr ⟨hid, fun group' hgroup' lead' hlead' hcloses => ?_⟩
        obtain rfl := passGroups_closing hgroup hlead hgroup' hlead' hcloses
        exact hcloses.1 hsilent
      exact ⟨id, hkept, fun id' hid' => hone'.eq hid' hkept⟩
    · obtain ⟨hbefore, hopen'⟩ := (heffect group.1 id).mp hid
      cases htarget : findTarget db.resources lead with
      | none =>
        exact (hready group hgroup lead hlead).2 hnot htarget (surviving_iff.mpr ⟨id, hbefore⟩)
      | some target =>
        exact hopen' group hgroup lead hlead
          ⟨hnot, targetKey_of_target htarget (hkeys group hgroup lead hlead)⟩

end Pass

section Runs
variable {c : Classifier} {db₀ : Database} {s : State} {tr : List Event}

theorem sound_of_run (hdb : db₀.Sound)
    (run : Steps (Takes (State.step (environment c))) (.start db₀) tr s) : s.Sound := by
  refine run.stable (P := State.Sound) ⟨hdb, fun p hp => by cases hp⟩ fun t e u h hstep => ?_
  exact h.step (.inl (environment_raises c)) hstep

/-- In every reachable state: a pass completes and leaves a silent group with exactly one
open alert, any other with none, if and only if every silent group has its alert already
and no alert hangs on the own id of a host that is not silent and has no resource row. -/
theorem silence_alert_iff (hdb : db₀.Sound)
    (run : Steps (Takes (State.step (environment c))) (.start db₀) tr s) (input : PassInput) :
    (∃ after, runWatchdog (environment c) input s.db = some after ∧
      ∀ group ∈ passGroups input s.db, ∀ lead, leadOf group.2 = some lead →
        GroupRight input s.db after group.1 lead) ↔
    ∀ group ∈ passGroups input s.db, ∀ lead, leadOf group.2 = some lead →
      GroupReady input s.db group.1 lead :=
  runWatchdog_right_iff (sound_of_run hdb run).db.oneOpen

end Runs

section Example

def plainClassifier : Classifier := ⟨false, fun _ _ => "prod", "ignore", "unknown"⟩

/-- Its instance is not discovered yet. -/
def webHost : Host := ⟨1, 1, "web-1", some "i-1", none, true, some 0, some 0⟩

def quarterHour : PassInput := ⟨1000, 180, []⟩

/-- The host's own resource, with an open alert if there is one. -/
def webDatabase (alerts : List Alert) : Database :=
  ⟨[1], [webHost], [⟨1, "host_agent", "host-agent-1", "web-1", [], none, none, none⟩], alerts, []⟩

def webAlert : Alert :=
  ⟨some 1, "host-agent-1", metric, "WARNING", "prod", "1:host_agent:host_agent_heartbeat",
    .active, 200, 180, false, none, none, some 1⟩

instance (resources : List Resource) (host : AgedHost) : Decidable (KnownStopped resources host) :=
  inferInstanceAs (Decidable (∃ info ∈ instanceInfo resources host, info.state ∈ stoppedStates))

instance (stale : ℕ) (resources : List Resource) (host : AgedHost) :
    Decidable (Silent stale resources host) :=
  inferInstanceAs (Decidable (classify host.age stale ≠ .online ∧ ¬ KnownStopped resources host))

theorem webDatabase_sound (alerts : List Alert) (h : alerts.length ≤ 1) :
    (webDatabase alerts).Sound := by
  refine ⟨List.nodup_singleton 1, fun key i j a b ha hb _ _ => ?_⟩
  have hi := (List.getElem?_eq_some_iff.mp ha).1
  have hj := (List.getElem?_eq_some_iff.mp hb).1
  simp only [webDatabase] at hi hj
  omega

/-- The first pass that finds a host silent raises. -/
theorem silent_host_pass_raises : ∃ (db₀ : Database) (s : State) (tr : List Event)
    (input : PassInput), db₀.Sound ∧
    Steps (Takes (State.step (environment plainClassifier))) (.start db₀) tr s ∧
    (∃ group ∈ passGroups input s.db, ∃ lead, leadOf group.2 = some lead ∧
      Silent input.stale s.db.resources lead) ∧
    runWatchdog (environment plainClassifier) input s.db = none := by
  refine ⟨webDatabase [], _, _, quarterHour, webDatabase_sound [] (by decide), .refl, ?_, ?_⟩
  · exact ⟨((1, "host-agent-1"), [⟨1, 1, "web-1", some "i-1", none, 1000⟩]), by decide +kernel,
      ⟨1, 1, "web-1", some "i-1", none, 1000⟩, by decide +kernel, by decide +kernel⟩
  · decide +kernel

/-- A host that stays silent keeps the alert it has. -/
theorem silence_alert_iff_kept : ∃ after,
    runWatchdog (environment plainClassifier) quarterHour (webDatabase [webAlert]) = some after ∧
    ∃! id, OpenAt after.alerts (1, "host-agent-1") id := by
  have hgroups : passGroups quarterHour (webDatabase [webAlert]) =
      [((1, "host-agent-1"), [⟨1, 1, "web-1", some "i-1", none, 1000⟩])] := by decide +kernel
  obtain ⟨after, hafter, hright⟩ := (silence_alert_iff (c := plainClassifier)
    (webDatabase_sound [webAlert] (by decide)) .refl quarterHour).mpr (by
      intro group hgroup lead hlead
      rw [State.start, hgroups, List.mem_singleton] at hgroup
      subst hgroup
      obtain rfl := Option.some.inj hlead
      refine ⟨fun _ => ⟨⟨_, rfl⟩, 0, ⟨webAlert, rfl, by decide⟩, fun row hrow => by cases hrow⟩, ?_⟩
      intro hnot
      exact absurd (by decide +kernel) hnot)
  have hweb : ((1, "host-agent-1"), [⟨1, 1, "web-1", some "i-1", none, 1000⟩]) ∈
      passGroups quarterHour (webDatabase [webAlert]) := by
    rw [hgroups]
    exact List.mem_cons_self
  exact ⟨after, hafter, (hright _ hweb _ rfl).1 (by decide +kernel)⟩

end Example

end MonitoringHub.HostAgent
