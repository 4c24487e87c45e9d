import MonitoringHub.HostAgent.Watchdog
import MonitoringHub.Lib.StepRun

/-! Runs of the watchdog. A pass is taken apart into its turns; between passes hosts,
accounts and resources change in any way, and alerts of other metrics come and go. What a
turn does to the heartbeat alerts is said once, and the uniqueness of the open one derived
from it. -/

namespace MonitoringHub.HostAgent
open Lib Lib.KeyedStore

/-- Row `id` is an open heartbeat alert of the key's account on the key's resource. -/
def OpenAt (alerts : List Alert) (key : ℕ × String) (id : ℕ) : Prop :=
  ∃ a, alerts[id]? = some a ∧ a.heartbeatOn key.1 key.2 = true

def OneOpen (alerts : List Alert) : Prop :=
  ∀ key : ℕ × String, RowTable.AtMostOne (Alert.heartbeatOn key.1 key.2) alerts

/-- The host that stands for its group. -/
def leadOf (members : List AgedHost) : Option AgedHost := (members.insertionSort Fresher).head?

/-- What discovery knows of the host's instance is that it is stopped. -/
def KnownStopped (resources : List Resource) (host : AgedHost) : Prop :=
  ∃ info ∈ instanceInfo resources host, info.state ∈ stoppedStates

/-- Silent beyond the limit, on an instance not known to be stopped. -/
def Silent (stale : ℕ) (resources : List Resource) (host : AgedHost) : Prop :=
  classify host.age stale ≠ .online ∧ ¬ KnownStopped resources host

/-- A pass under way: what a rollback restores, the hosts it has fetched and the groups it
has still to evaluate. -/
structure Pass where
  input : PassInput
  saved : Database
  hosts : List AgedHost
  todo : List ((ℕ × String) × List AgedHost)
  deriving DecidableEq

structure State where
  db : Database
  pass : Option Pass
  deriving DecidableEq

/-- `begin`, a turn for every group and `finish` make up a pass. -/
inductive Event
  | setHosts (hosts : List Host)
  | setAccounts (activeAccounts : List ℕ)
  | discover (resources : List Resource)
  | raise (alert : Alert)
  | acknowledge (id : ℕ)
  | resolve (id : ℕ)
  | begin (input : PassInput)
  | evaluate
  | finish
  deriving DecidableEq

/-- A change outside the watchdog. -/
def State.outside (s : State) (db : Database) : Option State :=
  if s.pass.isNone then some ⟨db, none⟩ else none

def State.step (environment : Resource → Option String) (s : State) : Event → Option State
  | .setHosts hosts =>
    if (hosts.map (·.id)).Nodup then s.outside { s.db with hosts } else none
  | .setAccounts activeAccounts => s.outside { s.db with activeAccounts }
  | .discover resources => s.outside { s.db with resources }
  | .raise alert =>
    if alert.metricName ≠ metric then s.outside { s.db with alerts := s.db.alerts ++ [alert] }
    else none
  | .acknowledge id => s.outside { s.db with
      alerts := RowTable.modifyAt id
        (fun a => if a.status = .active then { a with status := .acknowledged } else a)
        s.db.alerts }
  | .resolve id => s.outside { s.db with alerts := HostAgent.resolve "manual" id s.db.alerts }
  | .begin input =>
    if s.pass.isNone then
      let db := cleanDeparted s.db
      let hosts := fetchHosts db input.now
      some ⟨db, some ⟨input, s.db, hosts, groupHosts db.resources hosts⟩⟩
    else none
  | .evaluate =>
    match s.pass with
    | some ⟨input, saved, hosts, group :: todo⟩ =>
      match evaluateGroup environment input s.db group.2 with
      | some db => some ⟨db, some ⟨input, saved, hosts, todo⟩⟩
      | none => some ⟨saved, none⟩
    | _ => none
  | .finish =>
    match s.pass with
    | some ⟨_, _, _, []⟩ => some ⟨s.db, none⟩
    | _ => none

def State.start (db : Database) : State := ⟨db, none⟩

/-- A silent host without a resource row has no open alert on its own resource id. -/
def OwnFree (s : State) : Event → Prop
  | .evaluate => ∀ p ∈ s.pass, ∀ group ∈ p.todo.head?, ∀ lead ∈ leadOf group.2,
      Silent p.input.stale s.db.resources lead → findTarget s.db.resources lead = none →
        ∀ a ∈ s.db.alerts, a.heartbeatOn lead.account (ownResourceId lead.id) = false
  | _ => True

section Alerts
variable {alerts : List Alert} {key : ℕ × String} {id id₀ : ℕ} {a : Alert}

theorem heartbeatOn_iff {account : ℕ} {rid : String} :
    a.heartbeatOn account rid = true ↔ a.account = some account ∧ a.resourceId = rid ∧
      a.metricName = metric ∧ a.isOpen = true := by
  simp only [Alert.heartbeatOn, Bool.and_eq_true, decide_eq_true_eq, and_assoc]

theorem OneOpen.eq (h : OneOpen alerts) {i j : ℕ} (hi : OpenAt alerts key i)
    (hj : OpenAt alerts key j) : i = j := by
  obtain ⟨a, ha, hopen⟩ := hi
  obtain ⟨b, hb, hopen'⟩ := hj
  exact h key i j a b ha hb hopen hopen'

theorem OpenAt.key_eq {key' : ℕ × String} (h : OpenAt alerts key id) (h' : OpenAt alerts key' id) :
    key = key' := by
  obtain ⟨a, ha, hopen⟩ := h
  obtain ⟨b, hb, hopen'⟩ := h'
  obtain rfl := Option.some.inj (ha.symm.trans hb)
  obtain ⟨haccount, hrid, -⟩ := heartbeatOn_iff.mp hopen
  obtain ⟨haccount', hrid', -⟩ := heartbeatOn_iff.mp hopen'
  exact Prod.ext (Option.some.inj (haccount.symm.trans haccount')) (hrid.symm.trans hrid')

/-- Closing and refreshing open nothing. -/
theorem OneOpen.of_subset {alerts' : List Alert} (h : OneOpen alerts)
    (hsub : ∀ key id, OpenAt alerts' key id → OpenAt alerts key id) : OneOpen alerts' :=
  fun key => (h key).of_pointwise fun i b hb hopen => hsub key i ⟨b, hb, hopen⟩

theorem openAlert_some {account : ℕ} {rid : String}
    (h : openAlert alerts account rid = some (a, id)) : OpenAt alerts (account, rid) id := by
  have hmem := List.mem_of_find?_eq_some h
  have hopen := List.find?_some h
  exact ⟨a, List.mem_zipIdx_iff_getElem?.mp hmem, hopen⟩

theorem openAlert_none {account : ℕ} {rid : String}
    (h : openAlert alerts account rid = none) : ¬ OpenAt alerts (account, rid) id := by
  rintro ⟨a, ha, hopen⟩
  exact List.find?_eq_none.mp h (a, id) (List.mem_zipIdx_iff_getElem?.mpr ha) hopen

/-- A rewrite of one row that keeps what makes it an open heartbeat alert. -/
theorem openAt_modifyAt_same {f : Alert → Alert}
    (hf : ∀ a account rid, (f a).heartbeatOn account rid = a.heartbeatOn account rid) :
    OpenAt (RowTable.modifyAt id₀ f alerts) key id ↔ OpenAt alerts key id := by
  simp only [OpenAt, RowTable.modifyAt_getElem?]
  split
  · cases alerts[id]? with
    | none => simp
    | some b => simp [hf]
  · exact Iff.rfl

theorem openAt_resolve {reason : String} :
    OpenAt (resolve reason id₀ alerts) key id ↔ OpenAt alerts key id ∧ id ≠ id₀ := by
  simp only [OpenAt, resolve, RowTable.modifyAt_getElem?]
  split
  · rename_i heq
    subst heq
    simp only [ne_eq, not_true, and_false, iff_false]
    rintro ⟨a, ha, hopen⟩
    obtain ⟨b, -, rfl⟩ := Option.map_eq_some_iff.mp ha
    obtain ⟨-, -, -, hclosed⟩ := heartbeatOn_iff.mp hopen
    split at hclosed
    · simp [Alert.isOpen] at hclosed
    · contradiction
  · rename_i hne
    exact ⟨fun h => ⟨h, fun heq => hne heq.symm⟩, fun h => h.1⟩

theorem refresh_isOpen (severity : String) (age : ℤ) (threshold : ℕ) (a : Alert) :
    (refresh severity age threshold a).isOpen = a.isOpen := by
  simp only [refresh, Alert.isOpen]
  split
  · rename_i hack
    simp [hack.2.2]
  · rfl

theorem refresh_heartbeatOn (severity : String) (age : ℤ) (threshold : ℕ) (a : Alert)
    (account : ℕ) (rid : String) :
    (refresh severity age threshold a).heartbeatOn account rid = a.heartbeatOn account rid := by
  simp only [Alert.heartbeatOn, refresh_isOpen]
  rfl

theorem openAt_append :
    OpenAt (alerts ++ [a]) key id ↔
      OpenAt alerts key id ∨ (id = alerts.length ∧ a.heartbeatOn key.1 key.2 = true) := by
  simp only [OpenAt]
  rcases Nat.lt_trichotomy id alerts.length with hlt | rfl | hgt
  · simp [List.getElem?_append_left hlt, Nat.ne_of_lt hlt]
  · simp
  · have hnone : alerts[id]? = none := List.getElem?_eq_none (Nat.le_of_lt hgt)
    rw [List.getElem?_eq_none (by simpa using Nat.succ_le_of_lt hgt), hnone]
    simp [Nat.ne_of_gt hgt]

/-- A new row where its own key has no open alert. -/
theorem OneOpen.append (h : OneOpen alerts)
    (hfree : ∀ key, a.heartbeatOn key.1 key.2 = true → ∀ id, ¬ OpenAt alerts key id) :
    OneOpen (alerts ++ [a]) := by
  intro key
  by_cases ha : a.heartbeatOn key.1 key.2 = true
  · refine RowTable.AtMostOne.append fun i b hb => ?_
    by_contra hopen
    exact hfree key ha i ⟨b, hb, by simpa using hopen⟩
  · refine (h key).of_pointwise fun i b hb hopen => ?_
    rcases openAt_append.mp ⟨b, hb, hopen⟩ with hold | ⟨-, hnew⟩
    · exact hold
    · exact absurd hnew ha

end Alerts

section Turn
variable {environment : Resource → Option String} {input : PassInput} {db db' : Database}
  {host lead m : AgedHost} {members : List AgedHost} {key : ℕ × String} {id : ℕ}

/-- The key of an alert on the resource a host resolves to. -/
def targetKey (resources : List Resource) (host : AgedHost) : Option (ℕ × String) :=
  (findTarget resources host).map fun target => (host.account, target.resourceId)

/-- The turn of a host that is not silent closes what is open on its target. -/
structure Closes (reason : String) (host : AgedHost) (db db' : Database) : Prop where
  resources : db'.resources = db.resources
  alerts : db'.alerts = (closeExisting reason ((findTarget db.resources host).bind fun target =>
    openAlert db.alerts host.account target.resourceId) db).alerts

/-- The turn of a silent host refreshes the open alert on its target. -/
structure Keeps (host : AgedHost) (db db' : Database) : Prop where
  resources : db'.resources = db.resources
  alerts : ∃ target a id severity threshold, findTarget db.resources host = some target ∧
    openAlert db.alerts host.account target.resourceId = some (a, id) ∧
    db'.alerts = RowTable.modifyAt id (refresh severity host.age threshold) db.alerts

/-- The turn of a silent host opens an alert where there is none on its target. -/
structure Opens (environment : Resource → Option String) (input : PassInput) (host : AgedHost)
    (db db' : Database) : Prop where
  free : ∀ target, findTarget db.resources host = some target →
    openAlert db.alerts host.account target.resourceId = none
  opened : ∃ target env severity threshold, environment target = some env ∧
    ensureTarget db.resources host = (some target, db'.resources) ∧
    db'.alerts = db.alerts ++ [newAlert input host target env severity threshold]

theorem closeExisting_frame (reason : String) (existing : Option (Alert × ℕ)) (db : Database) :
    (closeExisting reason existing db).hosts = db.hosts ∧
      (closeExisting reason existing db).resources = db.resources := by
  cases existing with
  | none => exact ⟨rfl, rfl⟩
  | some found => exact ⟨rfl, rfl⟩

theorem evaluateSilent_cases {state : HostState} {info : Option InstanceInfo}
    (h : evaluateSilent environment input db host state info (findTarget db.resources host)
      ((findTarget db.resources host).bind fun target =>
        openAlert db.alerts host.account target.resourceId) = some db') :
    db'.hosts = db.hosts ∧ (Keeps host db db' ∨ Opens environment input host db db') := by
  unfold evaluateSilent at h
  dsimp only at h
  split at h
  · rename_i _ _ target a id htarget hopen
    obtain rfl := Option.some.inj h
    rw [htarget] at hopen
    exact ⟨rfl, .inl ⟨rfl, target, a, id, _, _, htarget, hopen, rfl⟩⟩
  · rename_i hnone
    obtain ⟨target, htarget, h⟩ := Option.bind_eq_some_iff.mp h
    obtain ⟨env, henv, rfl⟩ := Option.map_eq_some_iff.mp h
    refine ⟨rfl, .inr ⟨fun target' htarget' => ?_, target, env, _, _, henv, ?_, rfl⟩⟩
    · cases hfound : openAlert db.alerts host.account target'.resourceId with
      | none => rfl
      | some found =>
        exact (hnone target' found.1 found.2 htarget' (by rw [htarget']; exact hfound)).elim
    · exact Prod.ext htarget rfl

/-- Everything a turn can do. -/
theorem evaluateHost_cases (h : evaluateHost environment input db host = some db') :
    db'.hosts = db.hosts ∧
      ((¬ Silent input.stale db.resources host ∧ ∃ reason, Closes reason host db db') ∨
        (Silent input.stale db.resources host ∧
          (Keeps host db db' ∨ Opens environment input host db db'))) := by
  unfold evaluateHost at h
  dsimp only at h
  split at h
  · rename_i honline
    obtain rfl := Option.some.inj h
    obtain ⟨hhosts, hresources⟩ := closeExisting_frame "recovered"
      ((findTarget db.resources host).bind fun target =>
        openAlert db.alerts host.account target.resourceId) db
    exact ⟨hhosts, .inl ⟨fun hsilent => hsilent.1 honline, _, hresources, rfl⟩⟩
  · rename_i hoffline
    split at h
    · rename_i info hinfo
      obtain ⟨hsome, hstopped⟩ := Option.filter_eq_some_iff.mp hinfo
      obtain rfl := Option.some.inj h
      obtain ⟨hhosts, hresources⟩ := closeExisting_frame "instance_stopped"
        ((findTarget db.resources host).bind fun target =>
          openAlert db.alerts host.account target.resourceId) db
      exact ⟨hhosts, .inl ⟨fun hsilent => hsilent.2 ⟨info, hsome, by simpa using hstopped⟩, _,
        hresources, rfl⟩⟩
    · rename_i hinfo
      obtain ⟨hhosts, hcases⟩ := evaluateSilent_cases h
      refine ⟨hhosts, .inr ⟨⟨hoffline, ?_⟩, hcases⟩⟩
      rintro ⟨info, hsome, hstopped⟩
      rw [hsome, Option.filter_some_pos (by simpa using hstopped)] at hinfo
      cases hinfo

theorem mem_resourceNamed {resources : List Resource} {account : ℕ} {rid : String}
    {target : Resource} (h : resourceNamed resources account rid = some target) :
    target ∈ resources ∧ target.account = account ∧ target.resourceId = rid := by
  have hmem : target ∈ resources.filter fun r => r.account = account && r.resourceId = rid := by
    rcases Option.or_eq_some_iff.mp h with hec2 | ⟨-, hhead⟩
    · exact List.mem_of_find?_eq_some hec2
    · exact List.mem_of_head? hhead
  simpa using hmem

theorem resourceNamed_none {resources : List Resource} {account : ℕ} {rid : String}
    (h : resourceNamed resources account rid = none) :
    ∀ r ∈ resources, r.account = account → r.resourceId ≠ rid := by
  intro r hr haccount hrid
  have hrow : r ∈ resources.filter fun r => r.account = account && r.resourceId = rid := by
    simp [hr, haccount, hrid]
  rw [List.head?_eq_none_iff.mp (Option.or_eq_none_iff.mp h).2] at hrow
  cases hrow

/-- A host's own resource row is what its lookup finds once there is one. -/
theorem ensureTarget_own {resources resources' : List Resource} {target : Resource}
    (hnone : findTarget resources host = none)
    (h : ensureTarget resources host = (some target, resources')) :
    target.resourceId = ownResourceId host.id := by
  rw [ensureTarget, hnone] at h
  obtain ⟨hfound, -⟩ := Prod.mk.inj h
  obtain ⟨hnamed, hown⟩ := Option.or_eq_none_iff.mp hnone
  rcases Option.or_eq_some_iff.mp hfound with hnew | ⟨-, hnew⟩
  · obtain ⟨rid, hrid, hbind⟩ := List.exists_of_findSome?_eq_some hnew
    obtain ⟨rid', hset, hrow⟩ := Option.bind_eq_some_iff.mp hbind
    obtain ⟨hmem, haccount, heq⟩ := mem_resourceNamed hrow
    rcases List.mem_append.mp hmem with hold | hlast
    · -- an old row of this id would have been found before
      have hbefore := List.findSome?_eq_none_iff.mp hnamed rid hrid
      rw [hset, Option.bind_some] at hbefore
      exact absurd heq (resourceNamed_none hbefore target hold haccount)
    · rw [List.mem_singleton.mp hlast]
  · have hlast := List.find?_some hnew
    simp only [Bool.and_eq_true, decide_eq_true_eq] at hlast
    exact hlast.2

theorem Closes.openAt {reason : String} (h : Closes reason host db db') (hone : OneOpen db.alerts) :
    OpenAt db'.alerts key id ↔
      OpenAt db.alerts key id ∧ targetKey db.resources host ≠ some key := by
  rw [h.alerts, targetKey]
  cases htarget : findTarget db.resources host with
  | none => simp [closeExisting]
  | some target =>
    simp only [Option.bind_some, Option.map_some, ne_eq, Option.some.injEq]
    cases hopen : openAlert db.alerts host.account target.resourceId with
    | none =>
      refine ⟨fun h => ⟨h, ?_⟩, fun h => h.1⟩
      rintro rfl
      exact openAlert_none hopen h
    | some found =>
      obtain ⟨a, id₀⟩ := found
      have hfound := openAlert_some hopen
      simp only [closeExisting, openAt_resolve]
      refine and_congr_right fun hid => not_congr ⟨?_, ?_⟩
      · rintro rfl
        exact hfound.key_eq hid
      · rintro rfl
        exact hone.eq hid hfound

theorem Keeps.openAt (h : Keeps host db db') :
    OpenAt db'.alerts key id ↔ OpenAt db.alerts key id := by
  obtain ⟨-, target, a, id₀, severity, threshold, -, -, halerts⟩ := h
  rw [halerts]
  exact openAt_modifyAt_same (refresh_heartbeatOn severity host.age threshold)

theorem Opens.oneOpen (h : Opens environment input host db db') (hone : OneOpen db.alerts)
    (hown : findTarget db.resources host = none →
      ∀ id, ¬ OpenAt db.alerts (host.account, ownResourceId host.id) id) : OneOpen db'.alerts := by
  obtain ⟨hfree, target, env, severity, threshold, -, hensure, halerts⟩ := h
  rw [halerts]
  refine hone.append fun key hkey id hid => ?_
  obtain rfl : (host.account, target.resourceId) = key := by
    obtain ⟨haccount, hrid, -⟩ := heartbeatOn_iff.mp hkey
    exact Prod.ext (Option.some.inj haccount) hrid
  cases htarget : findTarget db.resources host with
  | none => exact hown htarget id (ensureTarget_own htarget hensure ▸ hid)
  | some target' =>
    rw [ensureTarget, htarget] at hensure
    obtain rfl := Option.some.inj (Prod.mk.inj hensure).1
    exact openAlert_none (hfree target' htarget) hid

theorem saveTwins_frame (twins : List AgedHost) (db : Database) :
    (twins.foldl (saveTwin input lead) db).alerts = db.alerts ∧
      (twins.foldl (saveTwin input lead) db).resources = db.resources ∧
      (twins.foldl (saveTwin input lead) db).hosts = db.hosts := by
  induction twins generalizing db with
  | nil => exact ⟨rfl, rfl, rfl⟩
  | cons twin twins ih => exact ih (saveTwin input lead db twin)

/-- The turn of a group is that of its lead; the twins have their state rows written. -/
theorem evaluateGroup_some (h : evaluateGroup environment input db members = some db') :
    (leadOf members = none ∧ db' = db) ∨
      ∃ lead db₁, leadOf members = some lead ∧
        evaluateHost environment input db lead = some db₁ ∧ db'.alerts = db₁.alerts ∧
        db'.resources = db₁.resources ∧ db'.hosts = db₁.hosts := by
  unfold evaluateGroup at h
  unfold leadOf
  cases hsort : members.insertionSort Fresher with
  | nil =>
    rw [hsort] at h
    exact .inl ⟨rfl, (Option.some.inj h).symm⟩
  | cons lead twins =>
    rw [hsort] at h
    obtain ⟨db₁, hlead, rfl⟩ := Option.map_eq_some_iff.mp h
    exact .inr ⟨lead, db₁, rfl, hlead, saveTwins_frame twins db₁⟩

theorem fresher_total (a b : AgedHost) : Fresher a b ∨ Fresher b a := by
  unfold Fresher
  omega

theorem fresher_trans {a b c : AgedHost} (h : Fresher a b) (h' : Fresher b c) : Fresher a c := by
  unfold Fresher at *
  omega

/-- The lead is the most recently seen of its group. -/
theorem leadOf_spec (h : leadOf members = some lead) :
    lead ∈ members ∧ ∀ m ∈ members, lead.age ≤ m.age := by
  have : Std.Total Fresher := ⟨fresher_total⟩
  have : IsTrans AgedHost Fresher := ⟨fun _ _ _ => fresher_trans⟩
  have hsorted := List.pairwise_insertionSort Fresher members
  have hmem : ∀ m, m ∈ members ↔ m ∈ members.insertionSort Fresher :=
    fun m => (List.mem_insertionSort Fresher).symm
  unfold leadOf at h
  cases hsort : members.insertionSort Fresher with
  | nil =>
    rw [hsort] at h
    cases h
  | cons first twins =>
    rw [hsort] at h hsorted
    simp only [hsort] at hmem
    obtain rfl := Option.some.inj h
    refine ⟨(hmem first).mpr List.mem_cons_self, fun m hm => ?_⟩
    rcases List.mem_cons.mp ((hmem m).mp hm) with rfl | hm
    · exact le_rfl
    · have hfresher : Fresher first m := (List.pairwise_cons.mp hsorted).1 m hm
      unfold Fresher at hfresher
      omega

theorem leadOf_eq_none (h : leadOf members = none) : members = [] := by
  have hlen := List.length_insertionSort Fresher members
  rw [List.head?_eq_none_iff.mp h] at hlen
  exact List.length_eq_zero_iff.mp hlen.symm

end Turn

section Pass
variable {db : Database} {resources : List Resource} {hosts : List AgedHost} {host : AgedHost}
  {key : ℕ × String} {id : ℕ}

theorem cleanRows_spec (rows : List (ℕ × WatchdogRow)) (db : Database) :
    (rows.foldl cleanRow db).hosts = db.hosts ∧
      (rows.foldl cleanRow db).activeAccounts = db.activeAccounts ∧
      (rows.foldl cleanRow db).resources = db.resources ∧
      ∀ key id, OpenAt (rows.foldl cleanRow db).alerts key id ↔
        OpenAt db.alerts key id ∧ ∀ row ∈ rows, row.2.alertId ≠ some id := by
  induction rows generalizing db with
  | nil => simp
  | cons row rows ih =>
    rw [List.foldl_cons]
    obtain ⟨hhosts, haccounts, hresources, halerts⟩ := ih (cleanRow db row)
    refine ⟨hhosts, haccounts, hresources, fun key id => ?_⟩
    rw [halerts, List.forall_mem_cons, ← and_assoc]
    refine and_congr_left fun _ => ?_
    unfold cleanRow
    cases row.2.alertId with
    | none => simp
    | some recorded => simp [openAt_resolve, eq_comm]

/-- Clearing departed hosts closes the alerts that their state rows record. -/
theorem cleanDeparted_spec (db : Database) :
    (cleanDeparted db).hosts = db.hosts ∧ (cleanDeparted db).activeAccounts = db.activeAccounts ∧
      (cleanDeparted db).resources = db.resources ∧
      ∀ key id, OpenAt (cleanDeparted db).alerts key id ↔
        OpenAt db.alerts key id ∧ ∀ row ∈ departedRows db, row.2.alertId ≠ some id :=
  cleanRows_spec (departedRows db) db

theorem mem_groupHosts {group : (ℕ × String) × List AgedHost}
    (h : group ∈ groupHosts resources hosts) (hhost : host ∈ group.2) :
    host ∈ hosts ∧ groupKey resources host = group.1 := by
  have hlists : Lists (groupHosts resources hosts) group.1 host := ⟨group.2, h, hhost⟩
  rw [groupHosts, lists_foldl_appendAt] at hlists
  rcases hlists with ⟨vs, hvs, -⟩ | ⟨item, hitem, hkey, rfl⟩
  · cases hvs
  · exact ⟨hitem, hkey⟩

theorem exists_groupHosts (h : host ∈ hosts) :
    ∃ group ∈ groupHosts resources hosts, host ∈ group.2 := by
  have hlists : Lists (groupHosts resources hosts) (groupKey resources host) host := by
    rw [groupHosts, lists_foldl_appendAt]
    exact .inr ⟨host, h, rfl, rfl⟩
  obtain ⟨members, hgroup, hmem⟩ := hlists
  exact ⟨_, hgroup, hmem⟩

theorem groupHosts_distinct : Distinct (groupHosts resources hosts) :=
  Distinct.foldl_appendAt List.nodup_nil

end Pass

/-- Host ids are distinct, and no resource has two open heartbeat alerts. -/
structure Database.Sound (db : Database) : Prop where
  hostIds : (db.hosts.map (·.id)).Nodup
  oneOpen : OneOpen db.alerts

structure State.Sound (s : State) : Prop where
  db : s.db.Sound
  saved : ∀ p, s.pass = some p → p.saved.Sound

section Runs
variable {environment : Resource → Option String} {s t : State} {e : Event}

theorem State.Sound.outside {db : Database} (h : s.outside db = some t) (hdb : db.Sound) :
    t.Sound := by
  obtain ⟨-, ht⟩ := Option.ite_none_right_eq_some.mp h
  obtain rfl := Option.some.inj ht
  exact ⟨hdb, fun p hp => by cases hp⟩

/-- A turn keeps one open alert a resource, unless it opens one on the own id of a host
whose row is gone. -/
theorem evaluateGroup_sound {input : PassInput} {db db' : Database} {members : List AgedHost}
    (h : evaluateGroup environment input db members = some db')
    (hown : ∀ lead, leadOf members = some lead → Silent input.stale db.resources lead →
      findTarget db.resources lead = none → (∃ target env, environment target = some env) →
        ∀ id, ¬ OpenAt db.alerts (lead.account, ownResourceId lead.id) id)
    (hdb : db.Sound) : db'.Sound := by
  rcases evaluateGroup_some h with ⟨-, rfl⟩ | ⟨lead, db₁, hlead, hturn, halerts, -, hhosts⟩
  · exact hdb
  · obtain ⟨hhosts₁, hcases⟩ := evaluateHost_cases hturn
    refine ⟨(hhosts.trans hhosts₁).symm ▸ hdb.hostIds, halerts.symm ▸ ?_⟩
    have hone := hdb.oneOpen
    rcases hcases with ⟨-, reason, hcloses⟩ | ⟨hsilent, hkeeps | hopens⟩
    · exact hone.of_subset fun key id hid => ((hcloses.openAt hone).mp hid).1
    · exact hone.of_subset fun key id hid => hkeeps.openAt.mp hid
    · refine hopens.oneOpen hone fun hnone => ?_
      obtain ⟨target, env, -, -, henv, -⟩ := hopens.opened
      exact hown lead hlead hsilent hnone ⟨target, env, henv⟩

/-- A turn either advances its pass or rolls all of it back. -/
theorem evaluate_cases (h : s.step environment .evaluate = some t) :
    ∃ p group todo, s.pass = some p ∧ p.todo = group :: todo ∧
      ((∃ db, evaluateGroup environment p.input s.db group.2 = some db ∧
          t = ⟨db, some { p with todo }⟩) ∨
        t = .start p.saved) := by
  obtain ⟨db, pass⟩ := s
  rcases pass with _ | ⟨input, saved, hosts, _ | ⟨group, todo⟩⟩
  · cases h
  · cases h
  · refine ⟨_, group, todo, rfl, rfl, ?_⟩
    simp only [State.step] at h
    split at h
    · rename_i db' hturn
      exact .inl ⟨db', hturn, (Option.some.inj h).symm⟩
    · exact .inr (Option.some.inj h).symm

theorem finish_cases (h : s.step environment .finish = some t) :
    ∃ p, s.pass = some p ∧ p.todo = [] ∧ t = .start s.db := by
  obtain ⟨db, pass⟩ := s
  rcases pass with _ | ⟨input, saved, hosts, _ | ⟨group, todo⟩⟩
  · cases h
  · exact ⟨_, rfl, rfl, (Option.some.inj h).symm⟩
  · cases h

theorem Database.Sound.start {db : Database} (h : db.Sound) : (State.start db).Sound :=
  ⟨h, fun p hp => by cases hp⟩

theorem State.Sound.step (h : s.Sound)
    (hsafe : (∀ target, environment target = none) ∨ OwnFree s e)
    (hstep : s.step environment e = some t) : t.Sound := by
  have hids := h.db.hostIds
  have hone := h.db.oneOpen
  cases e with
  | setHosts hosts =>
    obtain ⟨hnodup, hstep⟩ := Option.ite_none_right_eq_some.mp hstep
    exact .outside hstep ⟨hnodup, hone⟩
  | setAccounts activeAccounts => exact .outside hstep ⟨hids, hone⟩
  | discover resources => exact .outside hstep ⟨hids, hone⟩
  | raise alert =>
    obtain ⟨hmetric, hstep⟩ := Option.ite_none_right_eq_some.mp hstep
    refine .outside hstep ⟨hids, hone.append fun key hkey => ?_⟩
    exact absurd (heartbeatOn_iff.mp hkey).2.2.1 hmetric
  | acknowledge id =>
    refine .outside hstep ⟨hids, hone.of_subset fun key i hi => ?_⟩
    refine (openAt_modifyAt_same fun a account rid => ?_).mp hi
    split
    · rename_i hactive
      simp [Alert.heartbeatOn, Alert.isOpen, hactive]
    · rfl
  | resolve id =>
    exact .outside hstep ⟨hids, hone.of_subset fun key i hi => (openAt_resolve.mp hi).1⟩
  | begin input =>
    obtain ⟨-, ht⟩ := Option.ite_none_right_eq_some.mp hstep
    obtain rfl := Option.some.inj ht
    obtain ⟨hhosts, -, -, hopen⟩ := cleanDeparted_spec s.db
    refine ⟨⟨hhosts.symm ▸ hids, hone.of_subset fun key i hi => ((hopen key i).mp hi).1⟩, ?_⟩
    intro p hp
    obtain rfl := Option.some.inj hp
    exact h.db
  | evaluate =>
    obtain ⟨p, group, todo, hpass, htodo, ⟨db, hturn, rfl⟩ | rfl⟩ := evaluate_cases hstep
    · refine ⟨evaluateGroup_sound hturn ?_ h.db, fun p' hp' => ?_⟩
      · intro lead hlead hsilent hnone ⟨target, env, henv⟩ id ⟨a, ha, hopen⟩
        rcases hsafe with hraises | hown
        · rw [hraises target] at henv
          cases henv
        · rw [hown p hpass group (by rw [htodo]; rfl) lead hlead hsilent hnone a
            (List.mem_of_getElem? ha)] at hopen
          cases hopen
      · obtain rfl := Option.some.inj hp'
        exact h.saved p hpass
    · exact (h.saved p hpass).start
  | finish =>
    obtain ⟨p, -, -, rfl⟩ := finish_cases hstep
    exact h.db.start

theorem turns_run (environment : Resource → Option String) (input : PassInput)
    (saved : Database) (hosts : List AgedHost) (groups : List ((ℕ × String) × List AgedHost))
    (db : Database) :
    ∃ tr, Steps (Takes (State.step environment)) ⟨db, some ⟨input, saved, hosts, groups⟩⟩ tr
      (.start ((groups.foldlM (fun db group => evaluateGroup environment input db group.2)
        db).getD saved)) := by
  induction groups generalizing db with
  | nil =>
    have hfinish : Takes (State.step environment) ⟨db, some ⟨input, saved, hosts, []⟩⟩ .finish
        (.start db) := rfl
    exact ⟨_, .snoc .refl hfinish⟩
  | cons group groups ih =>
    rw [List.foldlM_cons]
    cases hturn : evaluateGroup environment input db group.2 with
    | none =>
      have hback : Takes (State.step environment)
          ⟨db, some ⟨input, saved, hosts, group :: groups⟩⟩ .evaluate (.start saved) := by
        simp only [Takes, State.step, hturn]
        rfl
      exact ⟨_, .snoc .refl hback⟩
    | some db' =>
      have hnext : Takes (State.step environment)
          ⟨db, some ⟨input, saved, hosts, group :: groups⟩⟩ .evaluate
          ⟨db', some ⟨input, saved, hosts, groups⟩⟩ := by
        simp only [Takes, State.step, hturn]
      obtain ⟨tr, run⟩ := ih db'
      exact ⟨_, (Steps.refl.snoc hnext).trans run⟩

/-- A pass that completes, and one that is rolled back, are runs of its turns. -/
theorem runWatchdog_run (environment : Resource → Option String) (input : PassInput)
    (db : Database) : ∃ tr, Steps (Takes (State.step environment)) (.start db) tr
      (.start ((runWatchdog environment input db).getD db)) := by
  have hbegin : ∃ s, Takes (State.step environment) (.start db) (.begin input) s := ⟨_, rfl⟩
  obtain ⟨s, hs⟩ := hbegin
  obtain rfl := Option.some.inj hs
  obtain ⟨tr, run⟩ := turns_run environment input db _ _ (cleanDeparted db)
  exact ⟨_, (Steps.refl.snoc hs).trans run⟩

end Runs

end MonitoringHub.HostAgent
