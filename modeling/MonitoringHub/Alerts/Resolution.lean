import MonitoringHub.Alerts.Interleaving

/-! Resolved alerts. Every statement that changes a status names open rows only,
but one: the update of a breaching cycle names its alert by id and decides from an
earlier read whether to set it active again. Away from that window a resolved alert
stays resolved. -/

namespace MonitoringHub.Alerts
open Lib

def Db.Resolved (db : Db) (id : ℕ) : Prop :=
  ∃ a, db.alerts[id]? = some a ∧ a.status = .resolved

theorem Db.Resolved.modifyAlert {db : Db} {id i : ℕ} {f : Alert → Alert} (h : db.Resolved id)
    (hf : i = id → ∀ a, db.alerts[i]? = some a → a.status = .resolved →
      (f a).status = .resolved) : (db.modifyAlert i f).Resolved id := by
  obtain ⟨a, ha, hres⟩ := h
  by_cases hi : i = id
  · subst hi
    refine ⟨f a, ?_, hf rfl a ha hres⟩
    rw [db.modifyAlert_getElem?, if_pos rfl, ha]
    rfl
  · refine ⟨a, ?_, hres⟩
    rw [db.modifyAlert_getElem?, if_neg hi, ha]

theorem Db.Resolved.insertAlert {db : Db} {id : ℕ} {a : Alert} (h : db.Resolved id) :
    (db.insertAlert a).Resolved id := by
  obtain ⟨b, hb, hres⟩ := h
  refine ⟨b, ?_, hres⟩
  have hlt := (List.getElem?_eq_some_iff.mp hb).1
  rw [Db.insertAlert, List.getElem?_append_left hlt, hb]

theorem Db.Resolved.handled {db db' : Db} {id : ℕ} (h : db.Resolved id) (hh : db.Handled db') :
    db'.Resolved id := by
  obtain ⟨a, ha, hres⟩ := h
  obtain ⟨a', ha', hab⟩ := hh.kept ha
  refine ⟨a', ha', ?_⟩
  by_contra hopen
  exact Status.isOpen_iff.mp (hab.open_before (Status.isOpen_iff.mpr hopen)) hres

/-- A row in flight that read this alert as acknowledged and milder than CRITICAL,
and whose own reading is critical: its next statement sets the alert active again. -/
def Interleaved.Reopening (s : Interleaved) (id : ℕ) : Prop :=
  ∃ f existing, s.flight = some f ∧ f.phase = .looked (some (id, existing)) ∧
    f.r.verdict.isCritical = true ∧ existing.severity ≠ .critical ∧
    existing.status = .acknowledged

/-- The images kept for a rollback hold the status the row left on the alert. -/
def Phase.KeepsStatus : Phase → Prop
  | .marked _ before after | .confirmed _ before after => after.status = before.status
  | .inserted a => a.status = .active
  | _ => True

def Interleaved.KeepsStatus (s : Interleaved) : Prop := ∀ f, s.flight = some f → f.phase.KeepsStatus

theorem StatementEffect.keepsStatus {f : Flight} {now : ℕ} {db : Db} {s : Interleaved}
    (h : StatementEffect f now db s) (hf : f.phase.KeepsStatus) : s.KeepsStatus := by
  intro f' hf'
  cases h with
  | refreshed | pended | settled | kept | resolved | finished => cases hf'
  | cleared | touched | marked | inserted =>
    obtain rfl := Option.some.inj hf'
    trivial
  | confirmed hphase =>
    obtain rfl := Option.some.inj hf'
    rw [hphase] at hf
    exact hf

/-- A statement leaves a resolved alert resolved unless the row is reopening it. -/
theorem StatementEffect.resolved_or_reopening {f : Flight} {now : ℕ} {db : Db} {s : Interleaved}
    {id : ℕ} (h : StatementEffect f now db s) (hres : db.Resolved id) :
    s.db.Resolved id ∨ (⟨db, some f⟩ : Interleaved).Reopening id := by
  cases h with
  | refreshed hphase hvalue hbreach =>
    rename_i i existing value
    by_cases hup : existing.severity ≠ f.r.verdict.severity ∧
        f.r.verdict.severity = .critical ∧ existing.status = .acknowledged
    · by_cases hi : i = id
      · subst hi
        have hcrit := f.r.verdict.severity_critical_iff.mp hup.2.1
        exact .inr ⟨f, existing, rfl, hphase, hcrit, hup.2.1 ▸ hup.1, hup.2.2⟩
      · exact .inl (hres.modifyAlert fun h => absurd h hi)
    · refine .inl (hres.modifyAlert fun _ a _ ha => ?_)
      rw [Alert.markBreach_status, if_neg hup, ha]
  | cleared | pended | touched | settled | confirmed | kept | finished => exact .inl hres
  | marked => exact .inl (hres.modifyAlert fun _ _ _ ha => ha)
  | resolved =>
    refine .inl (hres.modifyAlert fun _ a _ ha => ?_)
    simp [Alert.resolveOpen, ha]
  | inserted => exact .inl hres.insertAlert

theorem RollbackEffect.resolved {f : Flight} {db db' : Db} {id : ℕ}
    (h : RollbackEffect f db db') (hf : f.phase.KeepsStatus) (hres : db.Resolved id) :
    db'.Resolved id := by
  cases h with
  | unwritten => exact hres
  | unmarked hphase hafter =>
    rename_i i before after
    have hkeep : after.status = before.status := by
      rcases hphase with hphase | hphase <;> simpa [Phase.KeepsStatus, hphase] using hf
    refine Db.Resolved.modifyAlert hres fun _ a ha hr => ?_
    obtain rfl := Option.some.inj (hafter.symm.trans ha)
    rw [← hkeep, hr]
  | uninserted hphase hlast =>
    rename_i a front
    obtain ⟨b, hb, hr⟩ := hres
    have hactive : a.status = .active := by simpa [Phase.KeepsStatus, hphase] using hf
    rw [hlast] at hb
    refine ⟨b, ?_, hr⟩
    by_cases hid : id < front.length
    · rwa [List.getElem?_append_left hid] at hb
    · rw [List.getElem?_append_right (by omega)] at hb
      have hmem := List.mem_of_getElem? hb
      rw [List.mem_singleton.mp hmem, hactive] at hr
      cases hr

namespace Interleaved

theorem step_keepsStatus {s s' : Interleaved} {m : Move} (h : s.step m = some s')
    (hs : s.KeepsStatus) : s'.KeepsStatus := by
  cases step_effect h with
  | select =>
    intro f hf
    obtain rfl := Option.some.inj hf
    trivial
  | statement hf heff => exact heff.keepsStatus (hs _ hf)
  | rollback | sweep | expire =>
    intro f hf
    cases hf
  | human => exact hs

/-- The only step that takes an alert out of `resolved` is the reopening update. -/
theorem step_resolved {s s' : Interleaved} {m : Move} {id : ℕ} (h : s.step m = some s')
    (hs : s.KeepsStatus) (hres : s.db.Resolved id) : s'.db.Resolved id ∨ s.Reopening id := by
  cases step_effect h with
  | select | expire => exact .inl hres
  | statement hf heff =>
    rcases heff.resolved_or_reopening hres with hstay | ⟨f', existing, hf', hrest⟩
    · exact .inl hstay
    · obtain rfl := Option.some.inj hf'
      exact .inr ⟨_, existing, hf, hrest⟩
  | rollback hf heff => exact .inl (heff.resolved (hs _ hf) hres)
  | sweep => exact .inl (hres.handled (s.db.resolveIds_handled ..))
  | human => exact .inl (hres.handled (s.db.act_handled ..))

/-- Nobody resolves an alert while a row in flight is about to reopen it. -/
def LeavesReopening (s : Interleaved) (m : Move) : Prop :=
  ∀ id now user, m = .human now (.resolve id user) → ¬ s.Reopening id

/-- While a row is about to reopen an alert, the alert is still acknowledged. -/
def AckWhileReopening (s : Interleaved) : Prop :=
  ∀ id, s.Reopening id → ∃ a, s.db.alerts[id]? = some a ∧ a.status = .acknowledged

theorem step_ackWhileReopening {s s' : Interleaved} {m : Move} (hguard : s.LeavesReopening m)
    (h : s.step m = some s') (hs : s.AckWhileReopening) : s'.AckWhileReopening := by
  rintro id ⟨f, existing, hf, hphase, hcrit, hmild, hack⟩
  cases step_effect h with
  | select =>
    obtain rfl := Option.some.inj hf
    exact ⟨existing, (RowTable.lastMatch_some (Phase.looked.inj hphase)).1, hack⟩
  | statement _ heff =>
    cases heff with
    | refreshed | pended | settled | kept | resolved | finished => cases hf
    | cleared | touched | marked | confirmed | inserted =>
      obtain rfl := Option.some.inj hf
      cases hphase
  | rollback | sweep | expire => cases hf
  | human =>
    rename_i now act
    have hreopen : s.Reopening id := ⟨f, existing, hf, hphase, hcrit, hmild, hack⟩
    obtain ⟨a, ha, hs⟩ := hs id hreopen
    refine ⟨act.rewrite now id a, ?_, ?_⟩
    · simp only [Db.act, List.getElem?_mapIdx, ha, Option.map_some]
    · cases act with
      | acknowledge i user => simp [HumanAction.rewrite, hs]
      | ackGroup g inScope user => simp [HumanAction.rewrite, hs]
      | resolve i user =>
        have hne : id ≠ i := by
          rintro rfl
          exact hguard id now user rfl hreopen
        simp [HumanAction.rewrite, hne, hs]
      | clear inScope user => simp [HumanAction.rewrite, hs]

/-- In every run in which nobody resolves an alert inside a reopening window, an
alert once resolved is resolved in every later state. -/
theorem resolved_stays_resolved {s₀ s s' : Interleaved} {tr tr' : List Move} {id : ℕ}
    (hstart : s₀.flight = none) (run : Steps (Guarded (Takes step) LeavesReopening) s₀ tr s)
    (hres : s.db.Resolved id) (later : Steps (Guarded (Takes step) LeavesReopening) s tr' s') :
    s'.db.Resolved id := by
  have hkept : s.KeepsStatus ∧ s.AckWhileReopening := by
    refine run.stable (P := fun s => s.KeepsStatus ∧ s.AckWhileReopening)
      ⟨fun f hf => by simp [hstart] at hf, fun id ⟨f, _, hf, _⟩ => by simp [hstart] at hf⟩ ?_
    rintro t m u ⟨hkeeps, hack⟩ ⟨hguard, hstep⟩
    exact ⟨step_keepsStatus hstep hkeeps, step_ackWhileReopening hguard hstep hack⟩
  have hall := later.stable
    (P := fun s => (s.KeepsStatus ∧ s.AckWhileReopening) ∧ s.db.Resolved id) ⟨hkept, hres⟩ (by
      rintro t m u ⟨⟨hkeeps, hack⟩, ht⟩ ⟨hguard, hstep⟩
      refine ⟨⟨step_keepsStatus hstep hkeeps, step_ackWhileReopening hguard hstep hack⟩, ?_⟩
      rcases step_resolved hstep hkeeps ht with hstay | hreopen
      · exact hstay
      · obtain ⟨a, ha, hstatus⟩ := hack id hreopen
        obtain ⟨b, hb, hb'⟩ := ht
        obtain rfl := Option.some.inj (ha.symm.trans hb)
        rw [hstatus] at hb'
        cases hb')
  exact hall.2

/-- One open warning, resolved by a person between rows; the next row then looks. -/
theorem resolved_stays_resolved_between_rows :
    let raised : Interleaved := ⟨⟨[promotedAlert 0 75 (hostCpu 75 5)
      (touchPending 0 .warning .prod (some 75) (some 70) none).2], fun _ => none⟩, none⟩
    let closed : Interleaved := ⟨raised.db.act 60 (.resolve 0 "ops"), none⟩
    (⟨closed.db, some ⟨hostCpu 95 5, none, .looked (closed.db.selectOpen (hostCpu 95 5).key)⟩⟩ :
      Interleaved).db.Resolved 0 := by
  intro raised closed
  have hclose : Steps (Guarded (Takes step) LeavesReopening) raised
      [.human 60 (.resolve 0 "ops")] closed :=
    Steps.refl.snoc ⟨fun _ _ _ _ ⟨_, _, hf, _⟩ => (by cases hf), rfl⟩
  have hselect : Steps (Guarded (Takes step) LeavesReopening) closed [.select (hostCpu 95 5)]
      ⟨closed.db, some ⟨hostCpu 95 5, none, .looked (closed.db.selectOpen (hostCpu 95 5).key)⟩⟩ :=
    Steps.refl.snoc ⟨fun _ _ _ h => (by cases h), rfl⟩
  exact resolved_stays_resolved rfl hclose ⟨_, rfl, rfl⟩ hselect

/-- A warning is raised and acknowledged; the evaluator reads it together with a
critical reading; a person resolves it before the evaluator writes. -/
def resolvedInWindow : List Move := [
  .select (hostCpu 75 5), .statement 0, .statement 0, .statement 0,
  .human 60 (.acknowledge 0 "ops"), .select (hostCpu 95 5), .human 120 (.resolve 0 "ops")]

theorem resolved_reopens :
    ∃ s s' : Interleaved, Steps (Takes step) ⟨⟨[], fun _ => none⟩, none⟩
        resolvedInWindow.reverse s ∧ s.db.Resolved 0 ∧
      Steps (Takes step) s [.statement 121] s' ∧
      ∃ a, s'.db.alerts[0]? = some a ∧ a.status = .active := by
  obtain ⟨s', -, hplay', hactive⟩ := exists_play step ⟨⟨[], fun _ => none⟩, none⟩
    (resolvedInWindow ++ [.statement 121])
    (fun s => s.db.alerts[0]?.any fun a => a.status = .active) (by decide +kernel)
  obtain ⟨s, run, hplay, hres⟩ := exists_play step ⟨⟨[], fun _ => none⟩, none⟩ resolvedInWindow
    (fun s => s.db.alerts[0]?.any fun a => a.status = .resolved) (by decide +kernel)
  rw [play_append hplay] at hplay'
  refine ⟨s, s', run, ?_, play_steps hplay', ?_⟩
  · simpa [Db.Resolved, Option.any_eq_true] using hres
  · simpa [Option.any_eq_true] using hactive

end Interleaved

end MonitoringHub.Alerts
