import MonitoringHub.Alerts.Interleaving

/-! One open alert per key. Nothing in the schema enforces it: while a row is in
flight, what it read about its key stays true until it writes, and between rows no
key has both an open alert and a pending candidate. -/

namespace MonitoringHub.Alerts
open Lib

def Db.OpenAt (db : Db) (k : AlertKey) (id : ℕ) : Prop :=
  ∃ a, db.alerts[id]? = some a ∧ openOn k a = true

def Db.NoOpen (db : Db) (k : AlertKey) : Prop := ∀ id, ¬ db.OpenAt k id

/-- Row `id` belongs to the key and no other row of the key is open. -/
def Db.OnlyOpen (db : Db) (k : AlertKey) (id : ℕ) : Prop :=
  (∃ a, db.alerts[id]? = some a ∧ a.key = k) ∧ ∀ i, db.OpenAt k i → i = id

/-- At most one open alert, and no candidate pending beside it. -/
def Db.Exclusive (db : Db) (k : AlertKey) : Prop :=
  RowTable.AtMostOne (openOn k) db.alerts ∧ (db.pending k ≠ none → db.NoOpen k)

/-- No row of `k` is open in `db'` that was not open in `db`. -/
def Db.OpensNothing (k : AlertKey) (db db' : Db) : Prop := ∀ i, db'.OpenAt k i → db.OpenAt k i

section OpensNothing
variable {k : AlertKey} {db db' : Db}

theorem Db.NoOpen.mono (h : db.NoOpen k) (hno : Db.OpensNothing k db db') : db'.NoOpen k :=
  fun i hi => h i (hno i hi)

theorem Db.Exclusive.mono (h : db.Exclusive k) (hno : Db.OpensNothing k db db')
    (hpending : db'.pending k ≠ none → db.pending k ≠ none) : db'.Exclusive k := by
  refine ⟨h.1.of_pointwise fun i b hb hopen => hno i ⟨b, hb, hopen⟩, fun hp => ?_⟩
  exact (h.2 (hpending hp)).mono hno

theorem Db.Handled.opensNothing (h : db.Handled db') (k : AlertKey) :
    Db.OpensNothing k db db' := by
  rintro i ⟨a', ha', hopen⟩
  obtain ⟨a, ha, hab⟩ := h.2 i a' ha'
  obtain ⟨hkey, hstatus⟩ := openOn_iff.mp hopen
  exact ⟨a, ha, openOn_iff.mpr ⟨hab.key_eq ▸ hkey, hab.open_before hstatus⟩⟩

theorem Db.OnlyOpen.handled {id : ℕ} (h : db.OnlyOpen k id) (hh : db.Handled db') :
    db'.OnlyOpen k id := by
  obtain ⟨⟨a, ha, hkey⟩, honly⟩ := h
  obtain ⟨a', ha', hab⟩ := hh.kept ha
  exact ⟨⟨a', ha', hab.key_eq.trans hkey⟩, fun i hi => honly i (hh.opensNothing k i hi)⟩

/-- Rewriting one row of another key opens nothing of `k`. -/
theorem Db.opensNothing_modifyAlert {id : ℕ} {f : Alert → Alert} {a : Alert}
    (ha : db.alerts[id]? = some a) (hkey : a.key ≠ k) (hf : (f a).key = a.key) :
    Db.OpensNothing k db (db.modifyAlert id f) := by
  rintro i ⟨b, hb, hopen⟩
  rw [db.modifyAlert_getElem?] at hb
  split at hb
  · rename_i hid
    subst hid
    rw [ha] at hb
    obtain rfl := Option.some.inj hb
    exact absurd (hf ▸ (openOn_iff.mp hopen).1) hkey
  · exact ⟨b, hb, hopen⟩

theorem Db.opensNothing_insertAlert {a : Alert} (hkey : a.key ≠ k) :
    Db.OpensNothing k db (db.insertAlert a) := by
  rintro i ⟨b, hb, hopen⟩
  by_cases hi : i < db.alerts.length
  · rw [Db.insertAlert, List.getElem?_append_left hi] at hb
    exact ⟨b, hb, hopen⟩
  · rw [Db.insertAlert, List.getElem?_append_right (by omega)] at hb
    obtain rfl := List.mem_singleton.mp (List.mem_of_getElem? hb)
    exact absurd (openOn_iff.mp hopen).1 hkey

/-- Rewriting the one row of the key that may be open keeps it the only one. -/
theorem Db.OnlyOpen.modifyAlert {id : ℕ} {f : Alert → Alert} (h : db.OnlyOpen k id)
    (hf : ∀ a, db.alerts[id]? = some a → (f a).key = k) : (db.modifyAlert id f).OnlyOpen k id := by
  obtain ⟨⟨a, ha, -⟩, honly⟩ := h
  refine ⟨⟨f a, ?_, hf a ha⟩, ?_⟩
  · rw [db.modifyAlert_getElem?, if_pos rfl, ha]
    rfl
  · rintro i ⟨b, hb, hopen⟩
    rw [db.modifyAlert_getElem?] at hb
    split at hb
    · rename_i hid
      exact hid.symm
    · exact honly i ⟨b, hb, hopen⟩

theorem Db.NoOpen.insertAlert {a : Alert} (h : db.NoOpen k) (hkey : a.key = k) :
    (db.insertAlert a).OnlyOpen k db.alerts.length := by
  refine ⟨⟨a, by simp [Db.insertAlert], hkey⟩, ?_⟩
  rintro i ⟨b, hb, hopen⟩
  by_cases hi : i < db.alerts.length
  · rw [Db.insertAlert, List.getElem?_append_left hi] at hb
    exact absurd ⟨b, hb, hopen⟩ (h i)
  · have hlen := (List.getElem?_eq_some_iff.mp hb).1
    simp only [Db.insertAlert, List.length_append, List.length_singleton] at hlen
    omega

theorem Db.NoOpen.exclusive (h : db.NoOpen k) : db.Exclusive k :=
  ⟨fun i _ a _ ha _ hpa _ => absurd ⟨a, ha, hpa⟩ (h i), fun _ => h⟩

theorem Db.OnlyOpen.exclusive {id : ℕ} (h : db.OnlyOpen k id) (hp : db.pending k = none) :
    db.Exclusive k :=
  ⟨fun i j a b ha hb hpa hpb => (h.2 i ⟨a, ha, hpa⟩).trans (h.2 j ⟨b, hb, hpb⟩).symm,
    fun hne => absurd hp hne⟩

end OpensNothing

theorem Db.selectOpen_none {db : Db} {k : AlertKey} (h : db.selectOpen k = none) : db.NoOpen k := by
  rintro i ⟨a, ha, hopen⟩
  rw [RowTable.lastMatch_none h i a ha] at hopen
  cases hopen

theorem Db.selectOpen_some {db : Db} {k : AlertKey} {id : ℕ} {a : Alert}
    (h : db.selectOpen k = some (id, a)) : db.alerts[id]? = some a ∧ openOn k a = true :=
  RowTable.lastMatch_some h

theorem Db.Exclusive.onlyOpen {db : Db} {k : AlertKey} {id : ℕ} {a : Alert} (h : db.Exclusive k)
    (hsel : db.selectOpen k = some (id, a)) : db.OnlyOpen k id ∧ db.pending k = none := by
  obtain ⟨ha, hopen⟩ := Db.selectOpen_some hsel
  refine ⟨⟨⟨a, ha, (openOn_iff.mp hopen).1⟩, ?_⟩, ?_⟩
  · rintro i ⟨b, hb, hpb⟩
    exact h.1 i id b a hb ha hpb hopen
  · by_contra hne
    exact h.2 hne id ⟨a, ha, hopen⟩

/-- What a row in flight may rely on about its own key, statement by statement. -/
def Flight.Safe (f : Flight) (db : Db) : Prop :=
  match f.phase with
  | .looked (some (id, _)) | .cleared id _ =>
    db.OnlyOpen f.r.key id ∧ db.pending f.r.key = none ∧ f.saved = none
  | .marked id before _ | .confirmed id before _ =>
    db.OnlyOpen f.r.key id ∧ db.pending f.r.key = none ∧ f.saved = none ∧ before.key = f.r.key
  | .looked none | .touched _ => db.NoOpen f.r.key
  | .inserted _ => ∃ id, id + 1 = db.alerts.length ∧ db.OnlyOpen f.r.key id

theorem Flight.Safe.handled {f : Flight} {db db' : Db} (h : f.Safe db) (hh : db.Handled db')
    (hpending : db'.pending = db.pending) : f.Safe db' := by
  unfold Flight.Safe at *
  rw [hpending]
  split <;> simp only [*] at h
  · exact ⟨h.1.handled hh, h.2⟩
  · exact ⟨h.1.handled hh, h.2⟩
  · exact ⟨h.1.handled hh, h.2⟩
  · exact ⟨h.1.handled hh, h.2⟩
  · exact h.mono (hh.opensNothing _)
  · exact h.mono (hh.opensNothing _)
  · obtain ⟨id, hid, honly⟩ := h
    exact ⟨id, hid.trans hh.1.symm, honly.handled hh⟩

def Interleaved.OneAlert (s : Interleaved) : Prop :=
  (∀ k, (∀ f, s.flight = some f → f.r.key ≠ k) → s.db.Exclusive k) ∧
    ∀ f, s.flight = some f → f.Safe s.db

theorem Interleaved.OneAlert.of_done {db : Db} (h : ∀ k, db.Exclusive k) :
    (⟨db, none⟩ : Interleaved).OneAlert := by
  refine ⟨fun k _ => h k, fun f hf => ?_⟩
  cases hf

theorem Interleaved.OneAlert.of_next {db : Db} {f : Flight}
    (hother : ∀ k, f.r.key ≠ k → db.Exclusive k) (hsafe : f.Safe db) :
    (⟨db, some f⟩ : Interleaved).OneAlert := by
  refine ⟨fun k hk => hother k (hk f rfl), fun f' hf' => ?_⟩
  obtain rfl := Option.some.inj hf'
  exact hsafe

section Statement
variable {f : Flight} {db : Db}

theorem Db.Exclusive.setPending_ne {k : AlertKey} (h : db.Exclusive k) (hk : f.r.key ≠ k)
    (p : Option Pending) : (db.setPending f.r.key p).Exclusive k := by
  refine h.mono (fun _ hi => hi) fun hne => ?_
  rwa [db.setPending_ne _ (Ne.symm hk)] at hne

/-- A row that is done has settled its own key beside the others. -/
theorem Db.exclusive_all {k : AlertKey} (hother : ∀ k', k ≠ k' → db.Exclusive k')
    (hkey : db.Exclusive k) (k' : AlertKey) : db.Exclusive k' := by
  by_cases hk : k = k'
  · exact hk ▸ hkey
  · exact hother k' hk

theorem StatementEffect.oneAlert {now : ℕ} {s : Interleaved} (h : StatementEffect f now db s)
    (hother : ∀ k, f.r.key ≠ k → db.Exclusive k) (hsafe : f.Safe db) : s.OneAlert := by
  have hother_set : ∀ p k, f.r.key ≠ k → (db.setPending f.r.key p).Exclusive k :=
    fun p k hk => (hother k hk).setPending_ne hk p
  have hother_modify : ∀ {id : ℕ} {g : Alert → Alert}, (∀ a, (g a).key = a.key) →
      db.OnlyOpen f.r.key id → (∀ k, f.r.key ≠ k → (db.modifyAlert id g).Exclusive k) ∧
        (db.modifyAlert id g).OnlyOpen f.r.key id := by
    intro id g hg honly
    obtain ⟨a, ha, hkey⟩ := honly.1
    refine ⟨fun k hk => ?_, honly.modifyAlert fun b hb => ?_⟩
    · exact (hother k hk).mono (Db.opensNothing_modifyAlert ha (hkey ▸ hk) (hg a)) fun hp => hp
    · obtain rfl := Option.some.inj (ha.symm.trans hb)
      exact (hg a).trans hkey
  cases h with
  | refreshed hphase =>
    simp only [Flight.Safe, hphase] at hsafe
    obtain ⟨hk, honly⟩ := hother_modify
      (fun a => (Alert.markBreach_breached now _ _ _ _ a).key_eq) hsafe.1
    exact .of_done (Db.exclusive_all hk (honly.exclusive hsafe.2.1))
  | cleared hphase =>
    simp only [Flight.Safe, hphase] at hsafe
    exact .of_next (hother_set none) ⟨hsafe.1, db.clearPending_self _, hsafe.2.2⟩
  | pended hphase | settled hphase =>
    simp only [Flight.Safe, hphase] at hsafe
    exact .of_done (Db.exclusive_all (hother_set _) (Db.NoOpen.exclusive hsafe))
  | touched hphase =>
    simp only [Flight.Safe, hphase] at hsafe
    exact .of_next (hother_set _) hsafe
  | marked hphase hvalue hbefore =>
    simp only [Flight.Safe, hphase] at hsafe
    obtain ⟨hk, honly⟩ := hother_modify (Alert.markHealthy_key now _ _) hsafe.1
    obtain ⟨a, ha, hkey⟩ := hsafe.1.1
    obtain rfl := Option.some.inj (hbefore.symm.trans ha)
    exact .of_next hk ⟨honly, hsafe.2.1, hsafe.2.2, hkey⟩
  | confirmed hphase =>
    simp only [Flight.Safe, hphase] at hsafe
    exact .of_next hother hsafe
  | kept hphase =>
    simp only [Flight.Safe, hphase] at hsafe
    exact .of_done (Db.exclusive_all hother (hsafe.1.exclusive hsafe.2.1))
  | resolved hphase =>
    simp only [Flight.Safe, hphase] at hsafe
    obtain ⟨hk, honly⟩ := hother_modify (Alert.resolveOpen_key now _) hsafe.1
    exact .of_done (Db.exclusive_all hk (honly.exclusive hsafe.2.1))
  | inserted hphase =>
    simp only [Flight.Safe, hphase] at hsafe
    refine .of_next (fun k hk => ?_) ⟨db.alerts.length, by simp [Db.insertAlert],
      hsafe.insertAlert rfl⟩
    exact (hother k hk).mono (Db.opensNothing_insertAlert hk) fun hp => hp
  | finished hphase =>
    simp only [Flight.Safe, hphase] at hsafe
    obtain ⟨id, -, honly⟩ := hsafe
    exact .of_done (Db.exclusive_all (hother_set none)
      (Db.OnlyOpen.exclusive honly (db.clearPending_self _)))

theorem RollbackEffect.exclusive {db' : Db} (h : RollbackEffect f db db')
    (hother : ∀ k, f.r.key ≠ k → db.Exclusive k) (hsafe : f.Safe db) (k : AlertKey) :
    db'.Exclusive k := by
  cases h with
  | unwritten hphase hinserted =>
    refine Db.exclusive_all (fun k hk => (hother k hk).setPending_ne hk _) ?_ k
    unfold Flight.Safe at hsafe
    split at hsafe
    · rw [hsafe.2.2]
      exact Db.OnlyOpen.exclusive hsafe.1 (db.setPending_self _ none)
    · rw [hsafe.2.2]
      exact Db.OnlyOpen.exclusive hsafe.1 (db.setPending_self _ none)
    · rename_i hp
      exact absurd hp (hphase _ _ _).1
    · rename_i hp
      exact absurd hp (hphase _ _ _).2
    · exact Db.NoOpen.exclusive hsafe
    · exact Db.NoOpen.exclusive hsafe
    · rename_i hp
      exact absurd hp (hinserted _)
  | unmarked hphase hafter =>
    rename_i id before after
    have hsafe' : db.OnlyOpen f.r.key id ∧ db.pending f.r.key = none ∧ f.saved = none ∧
        before.key = f.r.key := by
      rcases hphase with hphase | hphase <;> simpa only [Flight.Safe, hphase] using hsafe
    obtain ⟨honly, -, hsaved, hkey⟩ := hsafe'
    obtain ⟨a, ha, hakey⟩ := honly.1
    rw [hsaved]
    refine Db.exclusive_all (k := f.r.key) (fun k hk => ?_) ?_ k
    · exact ((hother k hk).mono (Db.opensNothing_modifyAlert ha (hakey ▸ hk)
        (hkey.trans hakey.symm)) fun hp => hp).setPending_ne hk none
    · exact Db.OnlyOpen.exclusive (honly.modifyAlert fun _ _ => hkey) (Db.setPending_self _ _ none)
  | uninserted hphase hlast =>
    rename_i a front
    simp only [Flight.Safe, hphase] at hsafe
    obtain ⟨id, hid, honly⟩ := hsafe
    have hback : ∀ k', Db.OpensNothing k' db { db with alerts := front } := by
      rintro k' i ⟨b, hb, hopen⟩
      refine ⟨b, ?_, hopen⟩
      have hb' : front[i]? = some b := hb
      rw [hlast, List.getElem?_append_left (List.getElem?_eq_some_iff.mp hb').1, hb']
    refine Db.exclusive_all (k := f.r.key) (fun k hk => ?_) ?_ k
    · exact ((hother k hk).mono (hback k) fun hp => hp).setPending_ne hk _
    · -- the row taken back was the only open one of its key
      refine Db.NoOpen.exclusive fun i hi => ?_
      have hlt : i < front.length := by
        obtain ⟨b, hb, -⟩ := hi
        exact (List.getElem?_eq_some_iff.mp hb).1
      have heq := honly.2 i (hback _ i hi)
      rw [hlast, List.length_append, List.length_singleton] at hid
      omega

end Statement

namespace Interleaved

theorem step_oneAlert {s s' : Interleaved} {m : Move} (h : s.step m = some s')
    (hs : s.OneAlert) : s'.OneAlert := by
  have hidle : s.flight = none → ∀ k, s.db.Exclusive k := fun hnone k =>
    hs.1 k fun f hf => by simp [hnone] at hf
  have hbusy : ∀ f, s.flight = some f → (∀ k, f.r.key ≠ k → s.db.Exclusive k) ∧ f.Safe s.db := by
    intro f hf
    refine ⟨fun k hk => hs.1 k fun f' hf' => ?_, hs.2 f hf⟩
    obtain rfl := Option.some.inj (hf.symm.trans hf')
    exact hk
  cases step_effect h with
  | select hnone =>
    rename_i r
    have hex := hidle hnone r.key
    refine .of_next (fun k _ => hidle hnone k) ?_
    cases hsel : s.db.selectOpen r.key with
    | none => simpa only [Flight.Safe] using Db.selectOpen_none hsel
    | some found =>
      obtain ⟨honly, hpending⟩ := hex.onlyOpen hsel
      exact ⟨honly, hpending, hpending⟩
  | statement hf heff => exact heff.oneAlert (hbusy _ hf).1 (hbusy _ hf).2
  | rollback hf heff => exact .of_done (heff.exclusive (hbusy _ hf).1 (hbusy _ hf).2)
  | sweep hnone =>
    exact .of_done fun k => (hidle hnone k).mono
      ((s.db.resolveIds_handled ..).opensNothing k) fun hp => hp
  | expire hnone =>
    refine .of_done fun k => (hidle hnone k).mono (fun _ hi => hi) fun hp => ?_
    obtain ⟨p, hp⟩ := Option.ne_none_iff_exists'.mp hp
    exact Option.ne_none_iff_exists'.mpr ⟨p, Db.expirePending_some s.db k hp⟩
  | human =>
    rename_i now act
    have hh := s.db.act_handled now act
    refine ⟨fun k hk => (hs.1 k hk).mono (hh.opensNothing k) fun hp => hp, fun f hf => ?_⟩
    exact (hs.2 f hf).handled hh rfl

theorem run_oneAlert {s₀ s : Interleaved} {tr : List Move} (run : Steps (Takes step) s₀ tr s)
    (hstart : s₀.OneAlert) : s.OneAlert :=
  run.stable hstart fun _ _ _ hs h => step_oneAlert h hs

theorem oneAlert_of_empty {s : Interleaved} (hempty : s.db.alerts = []) (hidle : s.flight = none) :
    s.OneAlert := by
  refine ⟨fun k _ => Db.NoOpen.exclusive ?_, fun f hf => by simp [hidle] at hf⟩
  rintro i ⟨a, ha, -⟩
  simp [hempty] at ha

theorem OneAlert.atMostOne {s : Interleaved} (h : s.OneAlert) (k : AlertKey) :
    RowTable.AtMostOne (openOn k) s.db.alerts := by
  by_cases hk : ∀ f, s.flight = some f → f.r.key ≠ k
  · exact (h.1 k hk).1
  · push Not at hk
    obtain ⟨f, hf, rfl⟩ := hk
    have honly : ∀ {id}, s.db.OnlyOpen f.r.key id → RowTable.AtMostOne (openOn f.r.key)
        s.db.alerts := fun h i j a b ha hb hpa hpb =>
      (h.2 i ⟨a, ha, hpa⟩).trans (h.2 j ⟨b, hb, hpb⟩).symm
    have hsafe := h.2 f hf
    unfold Flight.Safe at hsafe
    split at hsafe
    · exact honly hsafe.1
    · exact honly hsafe.1
    · exact honly hsafe.1
    · exact honly hsafe.1
    · exact (Db.NoOpen.exclusive hsafe).1
    · exact (Db.NoOpen.exclusive hsafe).1
    · obtain ⟨id, -, h⟩ := hsafe
      exact honly h

/-- From an empty alerts table, in any interleaving of row evaluations, rollbacks,
sweeps and people: one open alert per key, and between rows never a pending row
beside it. -/
theorem one_open_alert_per_key {s₀ s : Interleaved} {tr : List Move}
    (hempty : s₀.db.alerts = []) (hidle : s₀.flight = none)
    (run : Steps (Takes step) s₀ tr s) (k : AlertKey) :
    RowTable.AtMostOne (openOn k) s.db.alerts ∧
      (s.flight = none → ¬ (s.db.pending k ≠ none ∧ ∃ id, s.db.OpenAt k id)) := by
  have h := run_oneAlert run (oneAlert_of_empty hempty hidle)
  refine ⟨h.atMostOne k, fun hnone => ?_⟩
  rintro ⟨hp, id, hopen⟩
  exact (h.1 k fun f hf => by simp [hnone] at hf).2 hp id hopen

/-- A warning raised, acknowledged and escalated. -/
theorem one_open_alert_per_key_escalated :
    ∃ s : Interleaved, s.flight = none ∧ (s.db.alerts.length = 1 ∧
      ¬ (s.db.pending (hostCpu 75 5).key ≠ none ∧ ∃ id, s.db.OpenAt (hostCpu 75 5).key id)) := by
  obtain ⟨s, run, -, hp⟩ := exists_play step ⟨⟨[], fun _ => none⟩, none⟩
    [.select (hostCpu 75 5), .statement 0, .statement 0, .statement 0,
      .human 60 (.acknowledge 0 "ops"), .select (hostCpu 95 5), .statement 300]
    (fun s => s.flight.isNone && decide (s.db.alerts.length = 1)) (by decide +kernel)
  simp only [Bool.and_eq_true, Option.isNone_iff_eq_none, decide_eq_true_eq] at hp
  exact ⟨s, hp.1, hp.2, (one_open_alert_per_key rfl rfl run (hostCpu 75 5).key).2 hp.1⟩

end Interleaved

end MonitoringHub.Alerts
