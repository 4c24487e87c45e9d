import MonitoringHub.Synthetic.CheckMonitor

/-! One open uptime alert per check that is down. The streak, the status and the alert are
written by different operations; what ties them is that only a commit writes the status, and
that it goes on from the status its batch read. -/

namespace MonitoringHub.Synthetic
open Lib Lib.KeyedStore Lib.RowTable
open Alerts (Status)

section Alerts
variable {id : ℕ} {a : UptimeAlert} {alerts alerts' : List UptimeAlert}

@[simp] theorem openOn_iff : openOn id a = true ↔ a.checkId = id ∧ a.status.isOpen = true := by
  simp only [openOn, Bool.and_eq_true, decide_eq_true_eq]

/-- The check has an open alert. -/
def HasOpen (id : ℕ) (alerts : List UptimeAlert) : Prop := ∃ a ∈ alerts, openOn id a = true

/-- Row by row, what is open was open before and of the same check. -/
def OpensNothing (alerts alerts' : List UptimeAlert) : Prop :=
  ∀ (i : ℕ) (a' : UptimeAlert), alerts'[i]? = some a' → a'.status.isOpen = true →
    ∃ a, alerts[i]? = some a ∧ a.checkId = a'.checkId ∧ a.status.isOpen = true

theorem OpensNothing.one (h : OpensNothing alerts alerts') (hone : AtMostOne (openOn id) alerts) :
    AtMostOne (openOn id) alerts' := by
  refine hone.of_pointwise fun i a' ha' hopen => ?_
  obtain ⟨hid, hstatus⟩ := openOn_iff.mp hopen
  obtain ⟨a, ha, hsame, hwas⟩ := h i a' ha' hstatus
  exact ⟨a, ha, openOn_iff.mpr ⟨hsame.trans hid, hwas⟩⟩

theorem OpensNothing.mem (h : OpensNothing alerts alerts') {a' : UptimeAlert} (ha' : a' ∈ alerts')
    (hopen : a'.status.isOpen = true) :
    ∃ a ∈ alerts, a.checkId = a'.checkId ∧ a.status.isOpen = true := by
  obtain ⟨i, hi⟩ := List.mem_iff_getElem?.mp ha'
  obtain ⟨a, ha, hsame, hwas⟩ := h i a' hi hopen
  exact ⟨a, List.mem_of_getElem? ha, hsame, hwas⟩

/-- A rewrite of rows that moves none to another check and opens none. -/
structure Quiet (f : UptimeAlert → UptimeAlert) : Prop where
  checkId : ∀ a, (f a).checkId = a.checkId
  opens : ∀ a, (f a).status.isOpen = true → a.status.isOpen = true

theorem Quiet.map {f : UptimeAlert → UptimeAlert} (hf : Quiet f) :
    OpensNothing alerts (alerts.map f) := by
  intro i a' ha' hopen
  rw [List.getElem?_map] at ha'
  obtain ⟨a, ha, rfl⟩ := Option.map_eq_some_iff.mp ha'
  exact ⟨a, ha, (hf.checkId a).symm, hf.opens a hopen⟩

theorem Quiet.modifyAt {f : UptimeAlert → UptimeAlert} (hf : Quiet f) (i : ℕ) :
    OpensNothing alerts (modifyAt i f alerts) := by
  intro n a' ha' hopen
  rw [modifyAt_getElem?] at ha'
  split at ha'
  · obtain ⟨a, ha, rfl⟩ := Option.map_eq_some_iff.mp ha'
    exact ⟨a, ha, (hf.checkId a).symm, hf.opens a hopen⟩
  · exact ⟨a', ha', rfl, hopen⟩

theorem quiet_acknowledge : Quiet UptimeAlert.acknowledge where
  checkId a := by
    unfold UptimeAlert.acknowledge
    split <;> rfl
  opens a h := by
    unfold UptimeAlert.acknowledge at h
    split at h
    · rename_i hactive
      rw [hactive]
      rfl
    · exact h

theorem quiet_resolve : Quiet UptimeAlert.resolve := ⟨fun _ => rfl, fun _ h => by cases h⟩

theorem quiet_resolveIf (id : ℕ) : Quiet fun a => if openOn id a then a.resolve else a where
  checkId a := by
    split <;> rfl
  opens a h := by
    split at h
    · cases h
    · exact h

theorem not_hasOpen_resolveAlerts (id : ℕ) (alerts : List UptimeAlert) :
    ¬ HasOpen id (resolveAlerts id alerts) := by
  rintro ⟨a', ha', hopen⟩
  obtain ⟨a, -, rfl⟩ := List.mem_map.mp ha'
  by_cases ha : openOn id a = true
  · simp [ha, UptimeAlert.resolve, Status.isOpen] at hopen
  · rw [if_neg ha] at hopen
    exact ha hopen

/-- Afterwards the check has an open alert, and it is the only row that may be new. -/
theorem writeOrUpdateAlert_opens (id failures threshold : ℕ) (alerts : List UptimeAlert) :
    HasOpen id (writeOrUpdateAlert id failures threshold alerts) ∧
      (OpensNothing alerts (writeOrUpdateAlert id failures threshold alerts) ∨
        writeOrUpdateAlert id failures threshold alerts =
          alerts ++ [⟨id, .active, failures, threshold⟩] ∧ ¬ HasOpen id alerts) := by
  unfold writeOrUpdateAlert
  split
  · rename_i i a hfound
    obtain ⟨ha, hopen⟩ := lastMatch_some hfound
    refine ⟨⟨{ a with currentValue := failures }, ?_, hopen⟩, .inl ?_⟩
    · refine List.mem_iff_getElem?.mpr ⟨i, ?_⟩
      rw [modifyAt_found ha, if_pos rfl]
    · have hquiet : Quiet fun a => { a with currentValue := failures } := ⟨fun _ => rfl, fun _ h => h⟩
      exact hquiet.modifyAt i
  · rename_i hnone
    refine ⟨⟨_, List.mem_append_right _ List.mem_cons_self, by simp [Status.isOpen]⟩, .inr ⟨rfl, ?_⟩⟩
    rintro ⟨a, ha, hopen⟩
    obtain ⟨i, hi⟩ := List.mem_iff_getElem?.mp ha
    rw [lastMatch_none hnone i a hi] at hopen
    cases hopen

theorem writeOrUpdateAlert_one {failures threshold id' : ℕ}
    (hone : AtMostOne (openOn id') alerts) :
    AtMostOne (openOn id') (writeOrUpdateAlert id failures threshold alerts) := by
  obtain ⟨-, hkept | ⟨hnew, hnone⟩⟩ := writeOrUpdateAlert_opens id failures threshold alerts
  · exact hkept.one hone
  · rw [hnew]
    by_cases hid : id' = id
    · subst hid
      refine AtMostOne.append fun i b hb => ?_
      by_contra hopen
      exact hnone ⟨b, List.mem_of_getElem? hb, by simpa using hopen⟩
    · refine hone.of_pointwise fun i b hb hopen => ⟨b, ?_, hopen⟩
      rw [List.getElem?_append] at hb
      split at hb
      · exact hb
      · obtain rfl := List.mem_singleton.mp (List.mem_of_getElem? hb)
        exact absurd (openOn_iff.mp hopen).1.symm hid

end Alerts

/-- What every reachable state keeps. The status that a batch read is still the status of
the check: only probes write it, and a check is in the batch once. -/
structure Monitor.Inv (m : Monitor) : Prop where
  one : ∀ id, AtMostOne (openOn id) m.alerts
  down : ∀ a ∈ m.alerts, a.status.isOpen = true →
    ∃ c, find a.checkId m.checks = some c ∧ c.currentStatus = .down
  ids : ∀ id c, find id m.checks = some c → id < m.nextId
  batch : ∀ e ∈ m.batch, e.1 < m.nextId ∧
    ∀ c, find e.1 m.checks = some c → c.currentStatus = e.2.currentStatus
  once : (m.batch.map Prod.fst).Nodup

section Run
variable {collate : String → String} {m m' : Monitor} {id : ℕ} {current read c c' : Check}
  {success : Bool} {rest : List (ℕ × Check)}

theorem Monitor.Inv.opensNothing (h : m.Inv) {alerts : List UptimeAlert}
    (hquiet : OpensNothing m.alerts alerts) : { m with alerts := alerts }.Inv where
  one id := hquiet.one (h.one id)
  down a ha hopen := by
    obtain ⟨b, hb, hsame, hwas⟩ := hquiet.mem ha hopen
    rw [← hsame]
    exact h.down b hb hwas
  ids := h.ids
  batch := h.batch
  once := h.once

theorem Monitor.Inv.shortened (h : m.Inv) (hbatch : m.batch = (id, read) :: rest) :
    { m with batch := rest }.Inv where
  one := h.one
  down := h.down
  ids := h.ids
  batch e he := h.batch e (hbatch ▸ List.mem_cons_of_mem _ he)
  once := by
    have honce := h.once
    rw [hbatch, List.map_cons, List.nodup_cons] at honce
    exact honce.2

/-- A rewrite of a check that keeps its status. -/
theorem Monitor.Inv.rewrite (h : m.Inv) (hc : find id m.checks = some c)
    (hstatus : c'.currentStatus = c.currentStatus) :
    { m with checks := write id c' m.checks }.Inv where
  one := h.one
  down a ha hopen := by
    obtain ⟨found, hfound, hdown⟩ := h.down a ha hopen
    by_cases hid : a.checkId = id
    · obtain rfl := Option.some.inj (hc.symm.trans (hid ▸ hfound))
      exact ⟨c', by rw [find_write, if_pos hid], hstatus.trans hdown⟩
    · exact ⟨found, by rw [find_write, if_neg hid, hfound], hdown⟩
  ids id' found hfound := by
    rw [find_write] at hfound
    split at hfound
    · rename_i hid
      exact hid ▸ h.ids id c hc
    · exact h.ids id' found hfound
  batch e he := by
    refine ⟨(h.batch e he).1, fun found hfound => ?_⟩
    rw [find_write] at hfound
    split at hfound
    · rename_i hid
      cases hfound
      exact hstatus.trans ((h.batch e he).2 c (hid ▸ hc))
    · exact (h.batch e he).2 found hfound
  once := h.once

theorem Monitor.Inv.create (h : m.Inv) (c : Check) :
    { m with checks := write m.nextId c m.checks, nextId := m.nextId + 1 }.Inv where
  one := h.one
  down a ha hopen := by
    obtain ⟨found, hfound, hdown⟩ := h.down a ha hopen
    refine ⟨found, ?_, hdown⟩
    have hlt := h.ids a.checkId found hfound
    rw [find_write, if_neg (by omega), hfound]
  ids id found hfound := by
    rw [find_write] at hfound
    split at hfound
    · simp only
      omega
    · exact Nat.lt_succ_of_lt (h.ids id found hfound)
  batch e he := by
    have hlt := (h.batch e he).1
    refine ⟨Nat.lt_succ_of_lt hlt, fun found hfound => ?_⟩
    rw [find_write, if_neg (by omega)] at hfound
    exact (h.batch e he).2 found hfound
  once := h.once

theorem Monitor.Inv.delete (h : m.Inv) (id : ℕ) :
    { m with checks := dropWhere (fun key => key = id) m.checks
             alerts := resolveAlerts id m.alerts }.Inv where
  one id' := (quiet_resolveIf id).map.one (h.one id')
  down a ha hopen := by
    obtain ⟨b, hb, hsame, hwas⟩ := (quiet_resolveIf id).map.mem ha hopen
    obtain ⟨found, hfound, hdown⟩ := h.down b hb hwas
    have hother : a.checkId ≠ id := fun hid =>
      not_hasOpen_resolveAlerts id m.alerts ⟨a, ha, openOn_iff.mpr ⟨hid, hopen⟩⟩
    refine ⟨found, ?_, hdown⟩
    rw [find_dropWhere, if_neg (by simpa using hother), ← hsame, hfound]
  ids id' found hfound := by
    have hkept : find id' (dropWhere (fun key => key = id) m.checks) = some found := hfound
    exact h.ids id' found (find_dropWhere_some hkept).2
  batch e he := by
    refine ⟨(h.batch e he).1, fun found hfound => ?_⟩
    have hkept : find e.1 (dropWhere (fun key => key = id) m.checks) = some found := hfound
    exact (h.batch e he).2 found (find_dropWhere_some hkept).2
  once := h.once

theorem Monitor.Inv.readDue (h : m.Inv) {ids : List ℕ} (hids : ids.Nodup) :
    { m with batch := ids.filterMap fun id =>
        ((find id m.checks).filter fun c : Check => c.enabled).map fun c => (id, c) }.Inv where
  one := h.one
  down := h.down
  ids := h.ids
  batch e he := by
    obtain ⟨id, -, hread⟩ := List.mem_filterMap.mp he
    obtain ⟨c, hc, rfl⟩ := Option.map_eq_some_iff.mp hread
    have hfound := Option.eq_some_of_filter_eq_some hc
    refine ⟨h.ids id c hfound, fun found hsame => ?_⟩
    rw [Option.some.inj (hfound.symm.trans hsame)]
  once := by
    rw [List.map_filterMap]
    refine List.Nodup.filterMap (fun id id' key hkey hkey' => ?_) hids
    rw [Option.map_map] at hkey hkey'
    obtain ⟨_, -, rfl⟩ := Option.map_eq_some_iff.mp hkey
    obtain ⟨_, -, hsame⟩ := Option.map_eq_some_iff.mp hkey'
    exact hsame.symm

/-- The alert after a commit, whatever branch it took. -/
theorem Monitor.Inv.commitProbe_open (h : m.Inv) (hcurrent : find id m.checks = some current)
    (hstatus : current.currentStatus = read.currentStatus) :
    HasOpen id (m.commitProbe id current read success).alerts ↔ newStatus read success = .down := by
  simp only [commitProbe]
  split
  · rename_i hdown
    exact iff_of_true (writeOrUpdateAlert_opens ..).1 hdown
  · rename_i hdown
    refine iff_of_false ?_ hdown
    split
    · exact not_hasOpen_resolveAlerts id m.alerts
    · rename_i hup
      rintro ⟨a, ha, hopen⟩
      obtain ⟨hid, hisopen⟩ := openOn_iff.mp hopen
      obtain ⟨found, hfound, hwas⟩ := h.down a ha hisopen
      obtain rfl := Option.some.inj (hcurrent.symm.trans (hid ▸ hfound))
      rw [hstatus] at hwas
      -- an open alert means the batch read `down`: the new status is, or the branch was taken
      unfold newStatus at hdown hup
      split at hdown
      · exact hup ⟨by rename_i hsuccess; rw [if_pos hsuccess], hwas⟩
      · split at hdown
        · exact hdown rfl
        · exact hdown hwas

theorem Monitor.Inv.commitProbe (h : m.Inv) (hcurrent : find id m.checks = some current)
    (hstatus : current.currentStatus = read.currentStatus) (honce : id ∉ m.batch.map Prod.fst) :
    (m.commitProbe id current read success).Inv where
  one id' := by
    simp only [Monitor.commitProbe]
    split
    · exact writeOrUpdateAlert_one (h.one id')
    · split
      · exact (quiet_resolveIf id).map.one (h.one id')
      · exact h.one id'
  down a ha hopen := by
    have hwritten (id' : ℕ) : find id' (m.commitProbe id current read success).checks =
        if id' = id then some { current with
          consecutiveFailures := newFailures read success, currentStatus := newStatus read success }
        else find id' m.checks := find_write ..
    by_cases hid : a.checkId = id
    · have hdown := (h.commitProbe_open hcurrent hstatus).mp ⟨a, ha, openOn_iff.mpr ⟨hid, hopen⟩⟩
      exact ⟨_, by rw [hwritten, if_pos hid], hdown⟩
    · have hold : ∃ b ∈ m.alerts, b.checkId = a.checkId ∧ b.status.isOpen = true := by
        simp only [Monitor.commitProbe] at ha
        split at ha
        · rcases (writeOrUpdateAlert_opens ..).2 with hquiet | ⟨hnew, -⟩
          · exact hquiet.mem ha hopen
          · rw [hnew] at ha
            rcases List.mem_append.mp ha with hmem | hmem
            · exact ⟨a, hmem, rfl, hopen⟩
            · rw [List.mem_singleton.mp hmem] at hid
              exact absurd rfl hid
        · split at ha
          · exact (quiet_resolveIf id).map.mem ha hopen
          · exact ⟨a, ha, rfl, hopen⟩
      obtain ⟨b, hb, hsame, hwas⟩ := hold
      obtain ⟨found, hfound, hdown⟩ := h.down b hb hwas
      exact ⟨found, by rw [hwritten, if_neg hid, ← hsame, hfound], hdown⟩
  ids id' found hfound := by
    simp only [Monitor.commitProbe, find_write] at hfound
    split at hfound
    · rename_i hid
      exact hid ▸ h.ids id current hcurrent
    · exact h.ids id' found hfound
  batch e he := by
    refine ⟨(h.batch e he).1, fun found hfound => ?_⟩
    have hother : e.1 ≠ id := fun hid => honce (hid ▸ List.mem_map_of_mem he)
    simp only [Monitor.commitProbe, find_write, if_neg hother] at hfound
    exact (h.batch e he).2 found hfound
  once := h.once

theorem Monitor.Inv.step (h : m.Inv) {e : Event} (hstep : m.step collate e = some m') : m'.Inv := by
  cases e <;> simp only [Monitor.step] at hstep
  case create settings threshold enabled =>
    cases hstep
    exact h.create _
  case patch id p =>
    obtain ⟨c, hc, rfl⟩ := Option.map_eq_some_iff.mp hstep
    exact h.rewrite hc rfl
  case delete id =>
    obtain ⟨c, -, rfl⟩ := Option.map_eq_some_iff.mp hstep
    exact h.delete id
  case readDue ids =>
    split at hstep
    · rename_i hready
      cases hstep
      exact h.readDue hready.2
    · cases hstep
  case probe success =>
    split at hstep
    · cases hstep
    · rename_i id read rest hbatch
      have hread := h.batch (id, read) (by rw [hbatch]; exact List.mem_cons_self)
      have hrest := h.shortened hbatch
      split at hstep <;> cases hstep
      · rename_i current hcurrent
        have hfound := Option.eq_some_of_filter_eq_some hcurrent
        have honce := h.once
        rw [hbatch, List.map_cons, List.nodup_cons] at honce
        exact hrest.commitProbe hfound (hread.2 current hfound) honce.1
      · exact hrest
  case skip =>
    split at hstep
    · cases hstep
    · rename_i hbatch
      cases hstep
      exact h.shortened hbatch
  case abandon =>
    cases hstep
    exact ⟨h.one, h.down, h.ids, fun e he => (by cases he), List.nodup_nil⟩
  case acknowledge i =>
    obtain ⟨a, -, rfl⟩ := Option.map_eq_some_iff.mp hstep
    exact h.opensNothing (quiet_acknowledge.modifyAt i)
  case resolve i =>
    obtain ⟨a, -, rfl⟩ := Option.map_eq_some_iff.mp hstep
    exact h.opensNothing (quiet_resolve.modifyAt i)

theorem Monitor.inv_start : Monitor.start.Inv where
  one _ := atMostOne_nil _
  down a ha := by cases ha
  ids id c hc := by cases hc
  batch e he := by cases he
  once := List.nodup_nil

theorem inv_of_run {tr : List Event} (run : Steps (Takes (Monitor.step collate)) .start tr m) :
    m.Inv :=
  run.stable Monitor.inv_start fun _ _ _ h hstep => h.step hstep

end Run

section Example

def statusPage : ProbeSettings := ⟨"https://status.example", some 200, none, false, 10⟩

/-- The check after one failure of the two it takes. -/
def failedOnce : Check := ⟨statusPage, 2, true, 1, .unknown⟩

end Example

end MonitoringHub.Synthetic
