import MonitoringHub.Incidents.Correlation

/-! No alert in two active incidents. A pass looks at the incidents of an alert when it
fetches the list, and again nowhere: an alert it has grouped as a partner is visited like a
loose one. Such an alert always finds its own incident, so it seeds nothing; which of
several it joins is left to the database. -/

namespace MonitoringHub.Incidents
open Lib

/-- The alert the loop visits next. -/
def State.visited (s : State) : Option (Alert × ℕ) :=
  match s.loop with
  | some ⟨id :: _, _, _⟩ => s.tables.alerts[id]?.map fun alert => (alert, id)
  | _ => none

/-- A visited alert that is grouped already is joined to its own incident. -/
def RejoinsOwn (collate : String → String) (s : State) : Event → Prop
  | .visit _ join _ => ∀ alert ∈ s.visited, ∀ i ∈ s.tables.activeOf alert.2,
      ∀ j ∈ limitOne (s.tables.joinable collate alert.1) join, j = i
  | _ => True

structure Tables.Inv (s : Tables) : Prop where
  one : ∀ id, ∀ i ∈ s.activeOf id, ∀ j ∈ s.activeOf id, i = j
  known : ∀ row ∈ s.incidentAlerts, row.1 < s.incidents.length

/-- A grouped alert still to be visited can join the incident that holds it. -/
structure Loop.Inv (collate : String → String) (s : Tables) (todo : List ℕ) : Prop where
  nodup : todo.Nodup
  own : ∀ id ∈ todo, ∀ alert, s.alerts[id]? = some alert →
    ∀ i ∈ s.activeOf id, i ∈ s.joinable collate alert

theorem mem_insertIgnore {row new : ℕ × ℕ} {table : List (ℕ × ℕ)} :
    row ∈ insertIgnore new table ↔ row ∈ table ∨ row = new := by
  unfold insertIgnore
  split
  · rename_i hnew
    exact ⟨.inl, fun h => h.elim id fun heq => heq ▸ hnew⟩
  · simp

section Queries
variable {collate : String → String} {s s' : Tables} {alert : Alert} {id i : ℕ}

theorem mem_activeOf :
    i ∈ s.activeOf id ↔ (i, id) ∈ s.incidentAlerts ∧ s.activeIncident i = true := by
  simp [Tables.activeOf]

theorem minutesApart_comm (t t' : ℕ) : minutesApart t t' = minutesApart t' t := by
  rw [minutesApart, minutesApart, Nat.add_comm]

theorem edge_comm (account : ℕ) (r r' : String) :
    s.edge collate account r r' = s.edge collate account r' r := by
  unfold Tables.edge
  congr 1
  funext rel
  rw [Bool.or_comm, Bool.and_comm (decide (collate rel.target = collate r')),
    Bool.and_comm (decide (collate rel.source = collate r'))]

/-- What makes an incident joinable: its own row, and a member beside the alert. -/
theorem mem_joinable :
    i ∈ s.joinable collate alert ↔ ∃ inc, s.incidents[i]? = some inc ∧ inc.active = true ∧
      alert.account = some inc.account ∧
      minutesApart inc.startedAt alert.triggeredAt ≤ correlationWindowMinutes ∧
      ∃ id2 a2, (i, id2) ∈ s.incidentAlerts ∧ s.alerts[id2]? = some a2 ∧
        a2.account = some inc.account ∧
        s.edge collate inc.account alert.resourceId a2.resourceId = true := by
  simp only [Tables.joinable, List.mem_map, List.mem_filter, Prod.exists,
    List.mem_zipIdx_iff_getElem?, Bool.and_eq_true, decide_eq_true_eq, List.any_eq_true,
    Option.any_eq_true, and_assoc]
  constructor
  · rintro ⟨inc, _, hinc, hactive, haccount, hnear, ⟨_, id2, hrow, rfl, a2, ha2, hbeside⟩, rfl⟩
    exact ⟨inc, hinc, hactive, haccount, hnear, id2, a2, hrow, ha2, hbeside⟩
  · rintro ⟨inc, hinc, hactive, haccount, hnear, id2, a2, hrow, ha2, hbeside⟩
    exact ⟨inc, i, hinc, hactive, haccount, hnear, ⟨i, id2, hrow, rfl, a2, ha2, hbeside⟩, rfl⟩

theorem activeIncident_lt (h : s.activeIncident i = true) : i < s.incidents.length := by
  by_contra hlen
  rw [Tables.activeIncident, List.getElem?_eq_none (Nat.le_of_not_lt hlen)] at h
  cases h

theorem activeIncident_of_joinable (h : i ∈ s.joinable collate alert) :
    s.activeIncident i = true := by
  obtain ⟨inc, hinc, hactive, -⟩ := mem_joinable.mp h
  simp [Tables.activeIncident, hinc, hactive]

theorem mem_partners {partner : Alert × ℕ} (h : partner ∈ s.partners collate id alert) :
    s.alerts[partner.2]? = some partner.1 ∧ (∀ row ∈ s.incidentAlerts, row.2 ≠ partner.2) ∧
      minutesApart partner.1.triggeredAt alert.triggeredAt ≤ correlationWindowMinutes ∧
      partner.1.account = alert.account ∧ ∀ account, alert.account = some account →
        s.edge collate account alert.resourceId partner.1.resourceId = true := by
  obtain ⟨a2, id2⟩ := partner
  obtain ⟨hrow, hcond⟩ := List.mem_filter.mp h
  simp only [Bool.and_eq_true, decide_eq_true_eq, List.all_eq_true, Option.any_eq_true] at hcond
  obtain ⟨⟨⟨⟨-, hfree⟩, hnear⟩, haccount⟩, account, hsome, hedge⟩ := hcond
  refine ⟨List.mem_zipIdx_iff_getElem?.mp hrow, hfree, hnear, haccount, fun account' h' => ?_⟩
  obtain rfl : account = account' := Option.some.inj (hsome.symm.trans h')
  exact hedge

theorem looseAlerts_nodup : (s.looseAlerts collate).Nodup := by
  have hids : ((s.alerts.zipIdx).map Prod.snd).Nodup := by
    rw [List.zipIdx_map_snd]
    exact List.nodup_range'
  exact hids.sublist (List.filter_sublist.map Prod.snd)

theorem activeOf_looseAlerts (h : id ∈ s.looseAlerts collate) : s.activeOf id = [] := by
  simp only [Tables.looseAlerts, List.mem_map, List.mem_filter, Prod.exists] at h
  obtain ⟨a, id', ⟨-, hcond⟩, rfl⟩ := h
  simp only [Bool.and_eq_true, List.isEmpty_iff] at hcond
  exact hcond.2

/-- Within a pass incidents and members are only added. -/
structure Tables.Grows (s s' : Tables) : Prop where
  alerts : s'.alerts = s.alerts
  relationships : s'.relationships = s.relationships
  members : ∀ row ∈ s.incidentAlerts, row ∈ s'.incidentAlerts
  incidents : ∀ (i : ℕ) (inc : Incident), s.incidents[i]? = some inc →
    ∃ inc', s'.incidents[i]? = some inc' ∧ inc'.active = inc.active ∧
      inc'.account = inc.account ∧ inc'.startedAt = inc.startedAt

theorem Tables.Grows.joinable (h : s.Grows s') (hi : i ∈ s.joinable collate alert) :
    i ∈ s'.joinable collate alert := by
  obtain ⟨inc, hinc, hactive, haccount, hnear, id2, a2, hmember, ha2, hsame, hedge⟩ :=
    mem_joinable.mp hi
  obtain ⟨inc', hinc', hact, hacc, hstart⟩ := h.incidents i inc hinc
  refine mem_joinable.mpr ⟨inc', hinc', hact.trans hactive, hacc.symm ▸ haccount,
    hstart.symm ▸ hnear, id2, a2, h.members _ hmember, h.alerts.symm ▸ ha2, hacc.symm ▸ hsame, ?_⟩
  rw [hacc]
  simpa only [Tables.edge, h.relationships] using hedge

end Queries

section Visit
variable {collate : String → String} {s : Tables} {now account join seed : ℕ} {loop : Loop}
  {todo : List ℕ} {alert partner : Alert × ℕ} {i j id : ℕ}

theorem attach_grows : s.Grows (s.attach collate now alert i) where
  alerts := rfl
  relationships := rfl
  members row hrow := mem_insertIgnore.mpr (.inl hrow)
  incidents j inc hinc := by
    simp only [Tables.attach, RowTable.modifyAt_getElem?]
    split
    · rw [hinc]
      exact ⟨_, rfl, rfl, rfl, rfl⟩
    · exact ⟨inc, hinc, rfl, rfl, rfl⟩

theorem seed_grows : s.Grows (s.seed now account alert partner) where
  alerts := rfl
  relationships := rfl
  members row hrow := mem_insertIgnore.mpr (.inl (mem_insertIgnore.mpr (.inl hrow)))
  incidents j inc hinc := by
    have hlen := (List.getElem?_eq_some_iff.mp hinc).1
    refine ⟨inc, ?_, rfl, rfl, rfl⟩
    simp only [Tables.seed, List.getElem?_append_left hlen]
    exact hinc

/-- Joining adds the alert to an incident that is there. -/
theorem mem_activeOf_attach (hi : s.activeIncident i = true) :
    j ∈ (s.attach collate now alert i).activeOf id ↔
      j ∈ s.activeOf id ∨ (j = i ∧ id = alert.2) := by
  have hactive : (s.attach collate now alert i).activeIncident j = s.activeIncident j := by
    simp only [Tables.activeIncident, Tables.attach, RowTable.modifyAt_getElem?]
    split
    · cases s.incidents[j]? <;> rfl
    · rfl
  rw [mem_activeOf, mem_activeOf, hactive]
  simp only [Tables.attach, mem_insertIgnore, Prod.mk.injEq, or_and_right]
  exact or_congr_right ⟨fun h => h.1, fun h => ⟨h, h.1 ▸ hi⟩⟩

/-- Seeding adds the pair to an incident of its own. -/
theorem mem_activeOf_seed (hinv : s.Inv) :
    j ∈ (s.seed now account alert partner).activeOf id ↔
      j ∈ s.activeOf id ∨ (j = s.incidents.length ∧ (id = alert.2 ∨ id = partner.2)) := by
  have hactive : (s.seed now account alert partner).activeIncident j =
      (s.activeIncident j || j = s.incidents.length) := by
    simp only [Tables.activeIncident, Tables.seed]
    rcases Nat.lt_trichotomy j s.incidents.length with hlt | rfl | hgt
    · rw [List.getElem?_append_left hlt]
      simp [Nat.ne_of_lt hlt]
    · simp
    · have hnone : s.incidents[j]? = none := List.getElem?_eq_none (Nat.le_of_lt hgt)
      rw [List.getElem?_eq_none (by simpa using Nat.succ_le_of_lt hgt), hnone]
      simp [Nat.ne_of_gt hgt]
  have hold : (j, id) ∈ s.incidentAlerts → j ≠ s.incidents.length :=
    fun hmem => Nat.ne_of_lt (hinv.known _ hmem)
  rw [mem_activeOf, mem_activeOf, hactive]
  simp only [Tables.seed, mem_insertIgnore, Prod.mk.injEq, Bool.or_eq_true, decide_eq_true_eq]
  constructor
  · rintro ⟨(hmem | ⟨rfl, rfl⟩) | ⟨rfl, rfl⟩, hact⟩
    · exact .inl ⟨hmem, hact.resolve_right (hold hmem)⟩
    · exact .inr ⟨rfl, .inl rfl⟩
    · exact .inr ⟨rfl, .inr rfl⟩
  · rintro (⟨hmem, hact⟩ | ⟨rfl, rfl | rfl⟩)
    · exact ⟨.inl (.inl hmem), .inl hact⟩
    · exact ⟨.inl (.inr ⟨rfl, rfl⟩), .inr rfl⟩
    · exact ⟨.inr ⟨rfl, rfl⟩, .inr rfl⟩

/-- Joining `i` keeps one active incident an alert exactly if no other holds the alert. -/
theorem attach_one_iff (hinv : s.Inv) (hi : s.activeIncident i = true) :
    (s.attach collate now alert i).Inv ↔ ∀ j ∈ s.activeOf alert.2, i = j := by
  constructor
  · intro h j hj
    exact h.one alert.2 i ((mem_activeOf_attach hi).mpr (.inr ⟨rfl, rfl⟩)) j
      ((mem_activeOf_attach hi).mpr (.inl hj))
  · intro hown
    refine ⟨fun id j hj k hk => ?_, fun row hrow => ?_⟩
    · rw [mem_activeOf_attach hi] at hj hk
      rcases hj with hj | ⟨rfl, rfl⟩ <;> rcases hk with hk | ⟨rfl, hid⟩
      · exact hinv.one id j hj k hk
      · exact (hown j (hid ▸ hj)).symm
      · exact hown k hk
      · rfl
    · simp only [Tables.attach, RowTable.modifyAt_length]
      rcases mem_insertIgnore.mp hrow with hrow | rfl
      · exact hinv.known row hrow
      · exact activeIncident_lt hi

theorem seed_inv (hinv : s.Inv) (halone : s.activeOf alert.2 = [])
    (hfree : ∀ row ∈ s.incidentAlerts, row.2 ≠ partner.2) :
    (s.seed now account alert partner).Inv := by
  -- neither alert of the pair is in an active incident before
  have hnew : ∀ j id, id = alert.2 ∨ id = partner.2 → j ∉ s.activeOf id := by
    rintro j id (rfl | rfl) hj
    · rw [halone] at hj
      cases hj
    · exact hfree _ (mem_activeOf.mp hj).1 rfl
  refine ⟨fun id j hj k hk => ?_, fun row hrow => ?_⟩
  · rw [mem_activeOf_seed hinv] at hj hk
    rcases hj with hj | ⟨rfl, hid⟩ <;> rcases hk with hk | ⟨rfl, hid'⟩
    · exact hinv.one id j hj k hk
    · exact absurd hj (hnew j id hid')
    · exact absurd hk (hnew k id hid)
    · rfl
  · have hold := hinv.known row
    simp only [Tables.seed, mem_insertIgnore, List.length_append, List.length_singleton]
      at hrow ⊢
    rcases hrow with (hrow | rfl) | rfl
    · exact Nat.lt_succ_of_lt (hold hrow)
    · exact Nat.lt_succ_self _
    · exact Nat.lt_succ_self _

/-- The partner of a new incident can join it: the alert that seeded it is a neighbour,
and it started when one of the two did. -/
theorem joinable_seed (halert : s.alerts[alert.2]? = some alert.1)
    (haccount : alert.1.account = some account)
    (hpartner : partner ∈ s.partners collate alert.2 alert.1) :
    s.incidents.length ∈ (s.seed now account alert partner).joinable collate partner.1 := by
  obtain ⟨-, -, hnear, hsame, hedge⟩ := mem_partners hpartner
  have hstart : minutesApart (pickRoot alert partner).triggeredAt partner.1.triggeredAt ≤
      correlationWindowMinutes := by
    unfold pickRoot
    split
    · simp [minutesApart]
    · rwa [minutesApart_comm]
  refine mem_joinable.mpr ⟨_, List.getElem?_concat_length, rfl, hsame.trans haccount, hstart,
    alert.2, alert.1, ?_, halert, haccount, ?_⟩
  · exact mem_insertIgnore.mpr (.inl (mem_insertIgnore.mpr (.inr rfl)))
  · rw [edge_comm]
    exact hedge account haccount

@[simp] theorem correlateAlert_todo :
    (correlateAlert collate s loop now join seed alert).2.todo = loop.todo := by
  unfold correlateAlert
  split
  · dsimp only
    split <;> rfl
  · split <;> rfl

/-- One turn of the loop. -/
theorem correlateAlert_inv (hinv : s.Inv) (hloop : Loop.Inv collate s (alert.2 :: todo))
    (halert : s.alerts[alert.2]? = some alert.1)
    (hown : ∀ i ∈ s.activeOf alert.2, ∀ j ∈ limitOne (s.joinable collate alert.1) join, j = i) :
    (correlateAlert collate s loop now join seed alert).1.Inv ∧
      Loop.Inv collate (correlateAlert collate s loop now join seed alert).1 todo := by
  obtain ⟨hnew, hnodup⟩ := List.nodup_cons.mp hloop.nodup
  have htail : ∀ id ∈ todo, ∀ a, s.alerts[id]? = some a →
      ∀ i ∈ s.activeOf id, i ∈ s.joinable collate a :=
    fun id hid => hloop.own id (List.mem_cons_of_mem _ hid)
  unfold correlateAlert
  cases hjoin : limitOne (s.joinable collate alert.1) join with
  | some i =>
    have hi := activeIncident_of_joinable (limitOne_mem hjoin)
    refine ⟨(attach_one_iff hinv hi).mpr fun j hj => hown j hj i hjoin, hnodup, ?_⟩
    intro id hid a ha j hj
    rcases (mem_activeOf_attach hi).mp hj with hj | ⟨-, rfl⟩
    · exact attach_grows.joinable (htail id hid a ha j hj)
    · exact absurd hid hnew
  | none =>
    -- a grouped alert finds its own incident, so this one is in none
    have halone : s.activeOf alert.2 = [] := by
      refine List.eq_nil_iff_forall_not_mem.mpr fun i hi => ?_
      have hfound := hloop.own alert.2 List.mem_cons_self alert.1 halert i hi
      rw [limitOne_none hjoin] at hfound
      cases hfound
    cases hseed : limitOne (s.partners collate alert.2 alert.1) seed with
    | none => exact ⟨hinv, hnodup, htail⟩
    | some partner =>
      cases haccount : alert.1.account with
      | none => exact ⟨hinv, hnodup, htail⟩
      | some account =>
        have hpartner := limitOne_mem hseed
        obtain ⟨hrow, hfree, -⟩ := mem_partners hpartner
        refine ⟨seed_inv hinv halone hfree, hnodup, fun id hid a ha j hj => ?_⟩
        rcases (mem_activeOf_seed hinv).mp hj with hj | ⟨rfl, rfl | rfl⟩
        · exact seed_grows.joinable (htail id hid a ha j hj)
        · exact absurd hid hnew
        · obtain rfl : partner.1 = a := Option.some.inj (hrow.symm.trans ha)
          exact joinable_seed halert haccount hpartner

end Visit

structure State.Inv (collate : String → String) (s : State) : Prop where
  tables : s.tables.Inv
  loop : ∀ loop, s.loop = some loop → Loop.Inv collate s.tables loop.todo

section Runs
variable {collate : String → String} {s t : State} {e : Event} {tr : List Event}

theorem resolveIncidents_inv {s : Tables} (h : s.Inv) (now : ℕ) : (s.resolveIncidents now).Inv := by
  have hsub : ∀ i id, i ∈ (s.resolveIncidents now).activeOf id → i ∈ s.activeOf id := by
    intro i id hi
    obtain ⟨hmem, hact⟩ := mem_activeOf.mp hi
    refine mem_activeOf.mpr ⟨hmem, ?_⟩
    simp only [Tables.activeIncident, Tables.resolveIncidents, List.getElem?_mapIdx] at hact ⊢
    cases hrow : s.incidents[i]? with
    | none => simp [hrow] at hact
    | some inc =>
      simp only [hrow, Option.map_some, Option.any_some] at hact ⊢
      split at hact
      · cases hact
      · exact hact
  refine ⟨fun id i hi j hj => h.one id i (hsub i id hi) j (hsub j id hj), fun row hrow => ?_⟩
  simpa [Tables.resolveIncidents] using h.known row hrow

theorem State.Inv.idle {tables : Tables} (h : tables.Inv) : State.Inv collate ⟨tables, none⟩ :=
  ⟨h, fun loop hloop => by cases hloop⟩

theorem State.Inv.step (h : s.Inv collate) (hown : RejoinsOwn collate s e)
    (hstep : s.step collate e = some t) : t.Inv collate := by
  obtain ⟨tables, loop⟩ := s
  cases e with
  | arrive alert =>
    obtain ⟨rfl, ht⟩ := Option.ite_none_right_eq_some.mp hstep
    obtain rfl := Option.some.inj ht
    exact .idle ⟨h.tables.one, h.tables.known⟩
  | setStatus id status =>
    obtain ⟨rfl, ht⟩ := Option.ite_none_right_eq_some.mp hstep
    obtain rfl := Option.some.inj ht
    exact .idle ⟨h.tables.one, h.tables.known⟩
  | relate relationships =>
    obtain ⟨rfl, ht⟩ := Option.ite_none_right_eq_some.mp hstep
    obtain rfl := Option.some.inj ht
    exact .idle ⟨h.tables.one, h.tables.known⟩
  | fetch order =>
    obtain ⟨⟨-, hperm⟩, ht⟩ := Option.ite_none_right_eq_some.mp hstep
    obtain rfl := Option.some.inj ht
    refine ⟨h.tables, fun loop hloop => ?_⟩
    obtain rfl := Option.some.inj hloop
    refine ⟨hperm.nodup_iff.mpr looseAlerts_nodup, fun id hid alert _ i hi => ?_⟩
    -- no fetched alert is in an active incident yet
    rw [activeOf_looseAlerts (hperm.mem_iff.mp hid)] at hi
    cases hi
  | visit now join seed =>
    match loop with
    | none => cases hstep
    | some ⟨[], _, _⟩ => cases hstep
    | some ⟨id :: todo, created, attached⟩ =>
      obtain ⟨alert, halert, rfl⟩ := Option.map_eq_some_iff.mp hstep
      have hnext : (alert, id) ∈ State.visited ⟨tables, some ⟨id :: todo, created, attached⟩⟩ :=
        Option.map_eq_some_iff.mpr ⟨alert, halert, rfl⟩
      obtain ⟨htables, hloop⟩ : (correlateAlert collate tables ⟨todo, created, attached⟩ now join
          seed (alert, id)).1.Inv ∧ _ :=
        correlateAlert_inv h.tables (h.loop _ rfl) halert (hown _ hnext)
      refine ⟨htables, fun loop hsome => ?_⟩
      obtain rfl := Option.some.inj hsome
      rwa [correlateAlert_todo]
  | finish now =>
    match loop with
    | none => cases hstep
    | some ⟨_ :: _, _, _⟩ => cases hstep
    | some ⟨[], _, _⟩ =>
      obtain rfl := Option.some.inj hstep
      exact .idle (resolveIncidents_inv h.tables now)

theorem start_inv : State.start.Inv collate :=
  .idle { one := fun id i hi => (by cases hi), known := fun row hrow => (by cases hrow) }

/-- While every visited alert that a pass has grouped is joined to its own incident, no
alert is in two active incidents. -/
theorem one_active_incident 
    (run : Steps (Guarded (Takes (State.step collate)) (RejoinsOwn collate)) .start tr s)
    (id i j : ℕ) (hi : i ∈ s.tables.activeOf id) (hj : j ∈ s.tables.activeOf id) : i = j := by
  have hinv : s.Inv collate := run.stable start_inv fun _ _ _ h hstep => h.step hstep.1 hstep.2
  exact hinv.tables.one id i hi j hj

end Runs

section Example

def breach (resourceId : String) : Alert :=
  ⟨some 1, resourceId, "CPUUtilization", "WARNING", 0, .active⟩

/-- Resources `a`, `b`, `c`, `d` in a row. The alerts of `c` and `d` are grouped by a first
pass, those of `a` and `b` fetched by a second one. -/
def secondPass : List Event :=
  [.relate [⟨1, "a", "b"⟩, ⟨1, "b", "c"⟩, ⟨1, "c", "d"⟩],
    .arrive (breach "c"), .arrive (breach "d"),
    .fetch [0, 1], .visit 0 0 0, .visit 0 0 0, .finish 0,
    .arrive (breach "a"), .arrive (breach "b"), .fetch [2, 3]]

/-- The alert of `a` seeds an incident with that of `b`, which then joins the one of `c`. -/
theorem grouped_alert_joins_another : ∃ (tr : List Event) (s : State),
    Steps (Takes (State.step id)) .start tr s ∧ tr.head? = some (.finish 0) ∧
    0 ∈ s.tables.activeOf 3 ∧ 1 ∈ s.tables.activeOf 3 := by
  obtain ⟨s, run, -, hp⟩ := exists_play (State.step id) .start
    (secondPass ++ [.visit 0 0 0, .visit 0 0 0, .finish 0])
    (fun s => decide (0 ∈ s.tables.activeOf 3) && decide (1 ∈ s.tables.activeOf 3))
    (by decide +kernel)
  simp only [Bool.and_eq_true, decide_eq_true_eq] at hp
  exact ⟨_, s, run, rfl, hp⟩

instance (collate : String → String) (s : State) (e : Event) :
    Decidable (RejoinsOwn collate s e) :=
  match e with
  | .visit _ join _ => inferInstanceAs (Decidable (∀ alert ∈ s.visited,
      ∀ i ∈ s.tables.activeOf alert.2,
        ∀ j ∈ limitOne (s.tables.joinable collate alert.1) join, j = i))
  | .arrive _ | .setStatus .. | .relate _ | .fetch _ | .finish _ => .isTrue trivial

/-- When the database returns the other row, `b` stays with `a`. -/
theorem one_active_incident_rejoined : ∃ s : State,
    1 ∈ s.tables.activeOf 3 ∧ ∀ i ∈ s.tables.activeOf 3, i = 1 := by
  obtain ⟨s, run, -, hp⟩ := exists_play (gated (State.step id) (RejoinsOwn id)) .start
    (secondPass ++ [.visit 0 0 0, .visit 0 1 0, .finish 0])
    (fun s => decide (1 ∈ s.tables.activeOf 3)) (by decide +kernel)
  have hmem := of_decide_eq_true hp
  exact ⟨s, hmem, fun i hi =>
    one_active_incident (run.mono fun _ _ _ => gated_guarded) 3 i 1 hi hmem⟩

end Example

end MonitoringHub.Incidents
