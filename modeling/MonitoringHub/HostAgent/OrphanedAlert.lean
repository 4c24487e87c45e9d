import MonitoringHub.HostAgent.SilenceAlert

/-! Alerts of hosts that come back. The alert to close is looked up on the resource the host
resolves to when it is seen again. While that is the resource the alert hangs on, no alert
raised for the host outlives the pass, whatever `_environment` returns. -/

namespace MonitoringHub.HostAgent
open Lib

/-- An open heartbeat alert raised for the host. -/
def Alert.raisedOpen (host : ℕ) (a : Alert) : Bool :=
  a.metricName = metric && a.isOpen && a.raisedFor = some host

/-- When a group's turn comes, every open alert raised for an online member hangs on the
resource that the group's lead resolves to. -/
def Recoverable (s : State) : Event → Prop
  | .evaluate => ∀ p ∈ s.pass, ∀ group ∈ p.todo.head?, ∀ lead ∈ leadOf group.2,
      ∀ m ∈ group.2, classify m.age p.input.stale = .online →
        ∀ a ∈ s.db.alerts, a.raisedOpen m.id = true →
          ∃ target ∈ findTarget s.db.resources lead,
            a.heartbeatOn lead.account target.resourceId = true
  | _ => True

def Followed (s : State) (e : Event) : Prop := OwnFree s e ∧ Recoverable s e

/-- Within a pass: an online host waits for its turn, or has no open alert. -/
structure Pass.Tracked (db : Database) (p : Pass) : Prop where
  members : ∀ group ∈ p.todo, ∀ m ∈ group.2, m ∈ p.hosts
  ids : ∀ h ∈ p.hosts, ∀ h' ∈ p.hosts, h.id = h'.id → h = h'
  online : ∀ h ∈ p.hosts, classify h.age p.input.stale = .online →
    (∃ group ∈ p.todo, h ∈ group.2) ∨ ∀ a ∈ db.alerts, a.raisedOpen h.id = false

section Turn
variable {environment : Resource → Option String} {input : PassInput} {db db' : Database}
  {host lead m : AgedHost} {members : List AgedHost} {alerts : List Alert} {a : Alert} {id n : ℕ}

theorem classify_online {age : ℤ} {stale : ℕ} : classify age stale = .online ↔ age ≤ stale := by
  unfold classify
  split
  · simp [*]
  · split <;> simp [*]

theorem Closes.raisedOpen {reason : String} (h : Closes reason host db db') (ha : a ∈ db'.alerts)
    (hopen : a.raisedOpen n = true) : a ∈ db.alerts := by
  rw [h.alerts] at ha
  unfold closeExisting at ha
  split at ha
  · obtain ⟨i, hi⟩ := List.mem_iff_getElem?.mp ha
    rw [resolve, RowTable.modifyAt_getElem?] at hi
    split at hi
    · obtain ⟨b, hb, rfl⟩ := Option.map_eq_some_iff.mp hi
      split at hopen
      · simp [Alert.raisedOpen, Alert.isOpen] at hopen
      · rename_i hclosed
        rw [if_neg hclosed]
        exact List.mem_of_getElem? hb
    · exact List.mem_of_getElem? hi
  · exact ha

theorem Keeps.raisedOpen (h : Keeps host db db') (hnone : ∀ a ∈ db.alerts, a.raisedOpen n = false) :
    ∀ a ∈ db'.alerts, a.raisedOpen n = false := by
  obtain ⟨-, target, a, id, severity, threshold, -, -, halerts⟩ := h
  intro b hb
  rw [halerts] at hb
  obtain ⟨i, hi⟩ := List.mem_iff_getElem?.mp hb
  rw [RowTable.modifyAt_getElem?] at hi
  split at hi
  · obtain ⟨b', hb', rfl⟩ := Option.map_eq_some_iff.mp hi
    have hbefore := hnone b' (List.mem_of_getElem? hb')
    have hopen : (refresh severity host.age threshold b').isOpen = b'.isOpen :=
      refresh_isOpen severity host.age threshold b'
    simp only [Alert.raisedOpen, hopen]
    exact hbefore
  · exact hnone b (List.mem_of_getElem? hi)

theorem Opens.raisedOpen (h : Opens environment input host db db') (hother : host.id ≠ n)
    (hnone : ∀ a ∈ db.alerts, a.raisedOpen n = false) :
    ∀ a ∈ db'.alerts, a.raisedOpen n = false := by
  obtain ⟨-, target, env, severity, threshold, -, -, halerts⟩ := h
  intro b hb
  rw [halerts, List.mem_append, List.mem_singleton] at hb
  rcases hb with hb | rfl
  · exact hnone b hb
  · simp [Alert.raisedOpen, newAlert, hother]

/-- After its group's turn an online host has no open alert left, and no other host gains
one. -/
theorem evaluateGroup_raisedOpen (h : evaluateGroup environment input db members = some db')
    (hone : OneOpen db.alerts)
    (hrecover : ∀ lead, leadOf members = some lead → m ∈ members →
      ∀ a ∈ db.alerts, a.raisedOpen m.id = true → ∃ target ∈ findTarget db.resources lead,
        a.heartbeatOn lead.account target.resourceId = true)
    (honline : classify m.age input.stale = .online)
    (hother : ∀ lead, leadOf members = some lead →
      classify lead.age input.stale ≠ .online → lead.id ≠ m.id)
    (hbefore : m ∈ members ∨ ∀ a ∈ db.alerts, a.raisedOpen m.id = false) :
    ∀ a ∈ db'.alerts, a.raisedOpen m.id = false := by
  rcases evaluateGroup_some h with ⟨hnone, rfl⟩ | ⟨lead, db₁, hlead, hturn, halerts, -⟩
  · exact hbefore.resolve_left (by simp [leadOf_eq_none hnone])
  · rw [halerts]
    -- the lead of an online host's group is online
    have hlocal : Silent input.stale db.resources lead →
        ∀ a ∈ db.alerts, a.raisedOpen m.id = false := by
      intro hsilent
      refine hbefore.resolve_left fun hmem => hsilent.1 ?_
      rw [classify_online] at honline ⊢
      exact ((leadOf_spec hlead).2 m hmem).trans honline
    obtain ⟨-, ⟨-, reason, hcloses⟩ | ⟨hsilent, hkeeps | hopens⟩⟩ := evaluateHost_cases hturn
    · intro a ha
      by_contra hraised
      have hraised : a.raisedOpen m.id = true := by simpa using hraised
      have hold := hcloses.raisedOpen ha hraised
      rcases hbefore with hmem | hnone
      · obtain ⟨target, htarget, hopen⟩ := hrecover lead hlead hmem a hold hraised
        obtain ⟨i, hi⟩ := List.mem_iff_getElem?.mp ha
        have hopenAt : OpenAt db₁.alerts (lead.account, target.resourceId) i := ⟨a, hi, hopen⟩
        exact ((hcloses.openAt hone).mp hopenAt).2 (targetKey_of_target htarget (by
          rw [groupKey, show findTarget db.resources lead = some target from htarget]
          rfl))
      · rw [hnone a hold] at hraised
        cases hraised
    · exact hkeeps.raisedOpen (hlocal hsilent)
    · exact hopens.raisedOpen (hother lead hlead hsilent.1) (hlocal hsilent)

end Turn

section Runs
variable {environment : Resource → Option String} {db₀ : Database} {s t : State} {e : Event}
  {tr : List Event}

theorem fetchHosts_inj {db : Database} {now : ℕ} (hids : (db.hosts.map (·.id)).Nodup) :
    ∀ h ∈ fetchHosts db now, ∀ h' ∈ fetchHosts db now, h.id = h'.id → h = h' := by
  intro h hh h' hh' heq
  obtain ⟨row, hrow, haged⟩ := List.mem_filterMap.mp hh
  obtain ⟨row', hrow', haged'⟩ := List.mem_filterMap.mp hh'
  have hid : ∀ {row : Host} {h : AgedHost}, (row.lastSeenAt.or row.enrolledAt).map (fun seen =>
      (⟨row.id, row.account, row.hostname, row.instanceId, row.resourceId, (now : ℤ) - seen⟩ :
        AgedHost)) = some h → h.id = row.id := by
    intro row h haged
    obtain ⟨seen, -, rfl⟩ := Option.map_eq_some_iff.mp haged
    rfl
  have hrows : row = row' := List.inj_on_of_nodup_map hids (List.mem_of_mem_filter hrow)
    (List.mem_of_mem_filter hrow') ((hid haged).symm.trans (heq.trans (hid haged')))
  subst hrows
  exact Option.some.inj (haged.symm.trans haged')

structure State.Tracked (s : State) : Prop where
  sound : s.Sound
  pass : ∀ p, s.pass = some p → p.Tracked s.db

theorem outside_pass {db : Database} (h : s.outside db = some t) : t.pass = none := by
  obtain ⟨-, ht⟩ := Option.ite_none_right_eq_some.mp h
  obtain rfl := Option.some.inj ht
  rfl

/-- The fetched hosts of a pass, at its start. -/
theorem begin_tracked {db : Database} (hids : (db.hosts.map (·.id)).Nodup) (input : PassInput)
    (saved : Database) : Pass.Tracked db ⟨input, saved, fetchHosts db input.now,
      groupHosts db.resources (fetchHosts db input.now)⟩ where
  members _ hgroup _ hm := (mem_groupHosts hgroup hm).1
  ids := fetchHosts_inj hids
  online _ hh _ := .inl (exists_groupHosts hh)

/-- The turn of the next group. -/
theorem Pass.Tracked.turn {db db' : Database} {p : Pass} {group : (ℕ × String) × List AgedHost}
    {todo : List ((ℕ × String) × List AgedHost)} (h : p.Tracked db) (htodo : p.todo = group :: todo)
    (hone : OneOpen db.alerts) (hturn : evaluateGroup environment p.input db group.2 = some db')
    (hrecover : ∀ lead, leadOf group.2 = some lead → ∀ m ∈ group.2,
      classify m.age p.input.stale = .online → ∀ a ∈ db.alerts, a.raisedOpen m.id = true →
        ∃ target ∈ findTarget db.resources lead,
          a.heartbeatOn lead.account target.resourceId = true) :
    Pass.Tracked db' { p with todo } := by
  have hmembers := h.members
  have hwaits := h.online
  rw [htodo] at hmembers hwaits
  refine ⟨fun g hg => hmembers g (List.mem_cons_of_mem _ hg), h.ids, fun m hm honline => ?_⟩
  have hother : ∀ lead, leadOf group.2 = some lead →
      classify lead.age p.input.stale ≠ .online → lead.id ≠ m.id := by
    intro lead hlead hoffline heq
    have hmem := hmembers group List.mem_cons_self lead (leadOf_spec hlead).1
    rw [h.ids lead hmem m hm heq] at hoffline
    exact hoffline honline
  have hturned := evaluateGroup_raisedOpen hturn hone
    (fun lead hlead hmem => hrecover lead hlead m hmem honline) honline hother
  rcases hwaits m hm honline with ⟨g, hg, hmem⟩ | hnone
  · rcases List.mem_cons.mp hg with rfl | hg
    · exact .inr (hturned (.inl hmem))
    · exact .inl ⟨g, hg, hmem⟩
  · exact .inr (hturned (.inr hnone))

theorem State.Tracked.step (h : s.Tracked) (hfollowed : Followed s e)
    (hstep : s.step environment e = some t) : t.Tracked := by
  refine ⟨h.sound.step (.inr hfollowed.1) hstep, fun p hp => ?_⟩
  have houtside : ∀ db, s.outside db = some t → p.Tracked t.db := by
    intro db hout
    rw [outside_pass hout] at hp
    cases hp
  cases e with
  | setHosts hosts => exact houtside _ (Option.ite_none_right_eq_some.mp hstep).2
  | setAccounts activeAccounts => exact houtside _ hstep
  | discover resources => exact houtside _ hstep
  | raise alert => exact houtside _ (Option.ite_none_right_eq_some.mp hstep).2
  | acknowledge id => exact houtside _ hstep
  | resolve id => exact houtside _ hstep
  | begin input =>
    obtain ⟨-, ht⟩ := Option.ite_none_right_eq_some.mp hstep
    obtain rfl := Option.some.inj ht
    obtain rfl := Option.some.inj hp
    obtain ⟨hhosts, -⟩ := cleanDeparted_spec s.db
    exact begin_tracked (hhosts.symm ▸ h.sound.db.hostIds) input s.db
  | evaluate =>
    obtain ⟨p', group, todo, hpass, htodo, ⟨db, hturn, rfl⟩ | rfl⟩ := evaluate_cases hstep
    · obtain rfl := Option.some.inj hp
      refine (h.pass p' hpass).turn htodo h.sound.db.oneOpen hturn fun lead hlead m hm honline => ?_
      exact hfollowed.2 p' hpass group (by rw [htodo]; rfl) lead hlead m hm honline
    · cases hp
  | finish =>
    obtain ⟨-, -, -, rfl⟩ := finish_cases hstep
    cases hp

/-- In every run: while at each turn an online host's alerts hang on the resource its group
resolves to, and a silent host without a resource row has no alert on its own id, no alert
raised for a host that a completed pass found online is open after it. -/
theorem recovered_host_closed (hdb : db₀.Sound)
    (run : Steps (Guarded (Takes (State.step environment)) Followed) (.start db₀) tr s)
    (p : Pass) (hp : s.pass = some p) (hfinish : s.step environment .finish = some t)
    (host : AgedHost) (hhost : host ∈ p.hosts)
    (honline : classify host.age p.input.stale = .online) :
    ∀ a ∈ t.db.alerts, a.raisedOpen host.id = false := by
  have htracked : s.Tracked := by
    refine run.stable ⟨⟨hdb, fun p hp => by cases hp⟩, fun p hp => by cases hp⟩ ?_
    exact fun t e u h hstep => h.step hstep.1 hstep.2
  obtain ⟨p', hp', htodo, rfl⟩ := finish_cases hfinish
  obtain rfl : p' = p := Option.some.inj (hp'.symm.trans hp)
  rcases (htracked.pass p' hp).online host hhost honline with ⟨group, hgroup, -⟩ | hnone
  · rw [htodo] at hgroup
    cases hgroup
  · exact hnone

end Runs

section Example

/-- A run in which a host comes back and an alert raised for it stays open. -/
def LosesAlert (environment : Resource → Option String) (db₀ : Database) : Prop :=
  ∃ (s t : State) (tr : List Event) (p : Pass) (host : AgedHost) (a : Alert),
    Steps (Takes (State.step environment)) (.start db₀) tr s ∧ s.pass = some p ∧
    s.step environment .finish = some t ∧ host ∈ p.hosts ∧
    classify host.age p.input.stale = .online ∧ a ∈ t.db.alerts ∧ a.raisedOpen host.id = true

def back : Event := .setHosts [{ webHost with lastSeenAt := some 1000 }]

def minuteLater : PassInput := ⟨1060, 180, []⟩

/-- A pass that finds the host silent; then its instance is discovered, and the host is back. -/
def discovered : List Event :=
  [.begin quarterHour, .evaluate, .finish,
    .discover (⟨1, "ec2", "i-1", "web", [], none, some "running", none⟩ ::
      (webDatabase []).resources),
    back, .begin minuteLater, .evaluate]

theorem losesAlert_of_play (environment : Resource → Option String) (db₀ : Database)
    (h : ((play (State.step environment) (.start db₀) discovered).any fun s =>
      (State.step environment s .finish).any fun t => s.pass.any fun p =>
        p.hosts.any fun host => classify host.age p.input.stale = .online &&
          t.db.alerts.any fun a => a.raisedOpen host.id) = true) : LosesAlert environment db₀ := by
  obtain ⟨s, t, run, hfinish, hp⟩ := exists_play_last (State.step environment) (.start db₀)
    discovered .finish _ h
  obtain ⟨p, hpass, hp⟩ := Option.any_eq_true .. |>.mp hp
  obtain ⟨host, hhost, hp⟩ := List.any_eq_true.mp hp
  rw [Bool.and_eq_true, decide_eq_true_eq] at hp
  obtain ⟨a, ha, hopen⟩ := List.any_eq_true.mp hp.2
  exact ⟨s, t, _, p, host, a, run, hpass, hfinish, hhost, hp.1, ha, hopen⟩

/-- The alert stays on the host's own resource once the host resolves to its instance: one
that was open before, and one that a pass raises where `_environment` returns. -/
theorem recovered_host_orphaned :
    LosesAlert (environment plainClassifier) (webDatabase [webAlert]) ∧
      LosesAlert (fun row => some (environmentBody plainClassifier row)) (webDatabase []) :=
  ⟨losesAlert_of_play _ _ (by decide +kernel), losesAlert_of_play _ _ (by decide +kernel)⟩

instance (s : State) (e : Event) : Decidable (Followed s e) :=
  match e with
  | .evaluate => inferInstanceAs (Decidable (
      (∀ p ∈ s.pass, ∀ group ∈ p.todo.head?, ∀ lead ∈ leadOf group.2,
        Silent p.input.stale s.db.resources lead → findTarget s.db.resources lead = none →
          ∀ a ∈ s.db.alerts, a.heartbeatOn lead.account (ownResourceId lead.id) = false) ∧
      ∀ p ∈ s.pass, ∀ group ∈ p.todo.head?, ∀ lead ∈ leadOf group.2,
        ∀ m ∈ group.2, classify m.age p.input.stale = .online →
          ∀ a ∈ s.db.alerts, a.raisedOpen m.id = true →
            ∃ target ∈ findTarget s.db.resources lead,
              a.heartbeatOn lead.account target.resourceId = true))
  | .setHosts _ | .setAccounts _ | .discover _ | .raise _ | .acknowledge _ | .resolve _
  | .begin _ | .finish => .isTrue ⟨trivial, trivial⟩

def backAfterMinute : AgedHost := ⟨1, 1, "web-1", some "i-1", none, 60⟩

/-- Without the discovery the alert is found and closed. -/
theorem recovered_host_closed_own : ∃ t : State,
    t.pass = none ∧ t.db.alerts ≠ [] ∧ ∀ a ∈ t.db.alerts, a.raisedOpen 1 = false := by
  obtain ⟨s, t, run, hfinish, hp⟩ := exists_play_last
    (gated (State.step (environment plainClassifier)) Followed)
    (.start (webDatabase [webAlert])) [back, .begin minuteLater, .evaluate] .finish
    (fun s t => s.pass.any (fun p : Pass => decide (backAfterMinute ∈ p.hosts) &&
      classify backAfterMinute.age p.input.stale = .online) && decide (t.pass = none) &&
      decide (t.db.alerts ≠ []))
    (by decide +kernel)
  simp only [Bool.and_eq_true, decide_eq_true_eq, Option.any_eq_true] at hp
  obtain ⟨⟨⟨p, hpass, hhost, honline⟩, hidle⟩, hkept⟩ := hp
  exact ⟨t, hidle, hkept, recovered_host_closed (webDatabase_sound [webAlert] (by decide))
    (run.mono fun _ _ _ => gated_guarded) p hpass (gated_guarded hfinish).2 backAfterMinute hhost
    honline⟩

end Example

end MonitoringHub.HostAgent
