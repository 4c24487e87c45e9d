import MonitoringHub.Reports.JobBoard

/-! What holds of report jobs in every interleaving where no stale writer gets through: a sound
board, kept by each step whose writes are current. -/

namespace MonitoringHub.Reports
open Lib Lib.RowTable Lib.KeyedStore

section Steps
variable {c : Timeouts} {s t : JobBoard} {act : ReportAct} {id i k attempts maxAttempts : ℕ}
  {job job' : Job}

/-- An execution or a sweep has read these attempts and this maximum of the job. -/
def Snapshot (s : JobBoard) (id attempts maxAttempts : ℕ) : Prop :=
  (∃ e ∈ s.executions, e.jobId = id ∧ e.stage.claim = some (attempts, maxAttempts)) ∨
    ∃ stuck orphaned, Sweep.selected stuck orphaned ∈ s.sweeps ∧ (id, attempts, maxAttempts) ∈ stuck

theorem snapshot_setStage {stage : Stage} (h : Snapshot (s.setStage i stage) id attempts maxAttempts) :
    Snapshot s id attempts maxAttempts ∨ ∃ e, s.executions[i]? = some e ∧ e.jobId = id ∧
      stage.claim = some (attempts, maxAttempts) := by
  rcases h with ⟨e, hmem, hid, hclaim⟩ | hsweep
  · rcases mem_modifyAt hmem with hold | ⟨e, he, rfl⟩
    · exact .inl (.inl ⟨e, hold, hid, hclaim⟩)
    · exact .inr ⟨e, he, hid, hclaim⟩
  · exact .inl (.inr hsweep)

theorem snapshot_start {id' : ℕ}
    (h : Snapshot { s with executions := s.executions ++ [⟨id', .starting⟩] } id attempts
      maxAttempts) : Snapshot s id attempts maxAttempts := by
  rcases h with ⟨e, he, hid, hclaim⟩ | hsweep
  · rcases List.mem_append.mp he with hold | hnew
    · exact .inl ⟨e, hold, hid, hclaim⟩
    · rw [List.mem_singleton.mp hnew] at hclaim
      cases hclaim
  · exact .inr hsweep

theorem snapshot_retrying {jobIds : List ℕ}
    (h : Snapshot { s with sweeps := modifyAt k (fun _ => .retrying jobIds) s.sweeps } id attempts
      maxAttempts) : Snapshot s id attempts maxAttempts := by
  rcases h with hexec | ⟨stuck, orphaned, hsweep, hentry⟩
  · exact .inl hexec
  · rcases mem_modifyAt hsweep with hold | ⟨_, -, hnew⟩
    · exact .inr ⟨stuck, orphaned, hold, hentry⟩
    · cases hnew

theorem snapshot_stuck {orphaned : List ℕ}
    (h : Snapshot { s with sweeps := s.sweeps ++ [.selected (s.stuck c) orphaned] } id attempts
      maxAttempts) : Snapshot s id attempts maxAttempts ∨
        ∃ job, s.jobs[id]? = some job ∧ job.maxAttempts = maxAttempts := by
  rcases h with hexec | ⟨stuck, orphaned, hsweep, hentry⟩
  · exact .inl (.inl hexec)
  · rcases List.mem_append.mp hsweep with hold | hnew
    · exact .inl (.inr ⟨stuck, orphaned, hold, hentry⟩)
    · obtain ⟨rfl, rfl⟩ := Sweep.selected.inj (List.mem_singleton.mp hnew)
      obtain ⟨⟨job, _⟩, hjob, heq⟩ := List.mem_map.mp hentry
      obtain ⟨rfl, -, rfl⟩ := heq
      exact .inr ⟨job, List.mem_zipIdx_iff_getElem?.mp (List.mem_filter.mp hjob).1, rfl⟩

/-- What is read was read before, or is of a job of now. -/
theorem Stepped.snapshot (h : Stepped c s act t) (hsnapshot : Snapshot t id attempts maxAttempts) :
    Snapshot s id attempts maxAttempts ∨
      ∃ job, s.jobs[id]? = some job ∧ job.maxAttempts = maxAttempts := by
  cases h with
  | elapse | enqueue => exact .inl hsnapshot
  | start id' => exact .inl (snapshot_start hsnapshot)
  | claim i id' hstarting =>
    unfold JobBoard.claim at hsnapshot
    split at hsnapshot
    · rename_i claimed hclaimed
      split at hsnapshot
      · refine (snapshot_setStage hsnapshot).imp_right ?_
        rintro ⟨e, he, rfl, hclaim⟩
        obtain ⟨-, rfl⟩ := Prod.mk.inj (Option.some.inj hclaim)
        obtain rfl := Option.some.inj (hstarting.symm.trans he)
        exact ⟨claimed, hclaimed, rfl⟩
      · refine .inl ((snapshot_setStage hsnapshot).resolve_right ?_)
        rintro ⟨_, -, -, hclaim⟩
        cases hclaim
    · refine .inl ((snapshot_setStage hsnapshot).resolve_right ?_)
      rintro ⟨_, -, -, hclaim⟩
      cases hclaim
  | complete i scopeLabel s3Key id' attempts' maxAttempts' u hstage hmark =>
    obtain ⟨-, hmark⟩ := Option.ite_none_left_eq_some.mp hmark
    obtain rfl := Option.some.inj hmark
    rcases snapshot_setStage hsnapshot with hold | ⟨e, he, rfl, hclaim⟩
    · exact .inl hold
    · obtain rfl := Option.some.inj (hstage.symm.trans he)
      exact .inl (.inl ⟨_, List.mem_of_getElem? hstage, rfl, hclaim⟩)
  | raise i error e attempts' maxAttempts' hexec hclaim =>
    rcases snapshot_setStage hsnapshot with hold | ⟨e', he', rfl, hclaim'⟩
    · exact .inl hold
    · obtain rfl := Option.some.inj (hexec.symm.trans he')
      exact .inl (.inl ⟨e, List.mem_of_getElem? hexec, rfl, hclaim.trans hclaim'⟩)
  | audit | crash | markFailed =>
    refine .inl ((snapshot_setStage hsnapshot).resolve_right ?_)
    rintro ⟨_, -, -, hclaim⟩
    cases hclaim
  | sweep => exact snapshot_stuck hsnapshot
  | requeue k stuck orphaned jobIds hsweep => exact .inl (snapshot_retrying hsnapshot)
  | retry k id' jobIds =>
    exact .inl (snapshot_retrying (snapshot_start hsnapshot))
  | abandon k => exact .inl (snapshot_retrying hsnapshot)

/-- Only a job that was read gets a report. -/
theorem Stepped.reported (h : Stepped c s act t) (hreported : t.reported id = true) :
    s.reported id = true ∨ ∃ attempts maxAttempts, Snapshot s id attempts maxAttempts := by
  cases h with
  | complete i scopeLabel s3Key id' attempts maxAttempts u hstage hmark =>
    obtain ⟨-, hmark⟩ := Option.ite_none_left_eq_some.mp hmark
    obtain rfl := Option.some.inj hmark
    have hrow := (reported_append (s := s) ⟨id', scopeLabel, s3Key⟩ id).symm.trans hreported
    rcases (Bool.or_eq_true _ _).mp hrow with hold | hid
    · exact .inl hold
    · exact .inr ⟨attempts, maxAttempts,
        .inl ⟨_, List.mem_of_getElem? hstage, of_decide_eq_true hid, rfl⟩⟩
  | claim i id' hstarting =>
    unfold JobBoard.claim at hreported
    split at hreported
    · split at hreported <;> exact .inl hreported
    · exact .inl hreported
  | elapse | enqueue | start | raise | audit | crash | markFailed | sweep | requeue | retry
      | abandon => exact .inl hreported

/-- What a step writes goes back to what was read. -/
theorem writes_snapshot {w : StatusWrite} (hw : w ∈ s.writes act) : ∃ maxAttempts,
    Snapshot s w.jobId w.attempts maxAttempts ∧
      (w.status = .complete ∨ w.status = retryStatus w.attempts maxAttempts) := by
  cases act with
  | complete i scopeLabel s3Key =>
    simp only [JobBoard.writes] at hw
    split at hw
    · rename_i id attempts maxAttempts hstage
      obtain rfl := List.mem_singleton.mp hw
      exact ⟨maxAttempts, .inl ⟨_, List.mem_of_getElem? hstage, rfl, rfl⟩, .inl rfl⟩
    · cases hw
  | markFailed i =>
    simp only [JobBoard.writes] at hw
    split at hw
    · rename_i id attempts maxAttempts error hstage
      obtain rfl := List.mem_singleton.mp hw
      exact ⟨maxAttempts, .inl ⟨_, List.mem_of_getElem? hstage, rfl, rfl⟩, .inr rfl⟩
    · cases hw
  | requeue k =>
    simp only [JobBoard.writes] at hw
    split at hw
    · rename_i stuck orphaned hsweep
      obtain ⟨⟨id, attempts, maxAttempts⟩, hentry, rfl⟩ := List.mem_map.mp hw
      exact ⟨maxAttempts, .inr ⟨stuck, orphaned, List.mem_of_getElem? hsweep, hentry⟩, .inr rfl⟩
    · cases hw
  | elapse | enqueue | start | claim | raise | audit | crash | sweep | retry | abandon => cases hw

/-- A report exists exactly for a complete job, and a queued job has an attempt left. -/
structure JobSound (s : JobBoard) (id : ℕ) (job : Job) : Prop where
  reported : s.reported id = true ↔ job.status = .complete
  attempts : job.attempts ≤ job.maxAttempts
  queued : job.status = .queued → job.attempts < job.maxAttempts

structure Sound (s : JobBoard) : Prop where
  job : ∀ id job, s.jobs[id]? = some job → JobSound s id job
  known : ∀ id, s.reported id = true → ∃ job, s.jobs[id]? = some job
  snapshot : ∀ id attempts maxAttempts, Snapshot s id attempts maxAttempts →
    ∃ job, s.jobs[id]? = some job ∧ job.maxAttempts = maxAttempts

theorem retryStatus_queued (h : retryStatus attempts maxAttempts = .queued) :
    attempts < maxAttempts := by
  unfold retryStatus at h
  split at h
  · assumption
  · cases h

/-- A write that keeps the status, or that nobody has overtaken, keeps the job sound. -/
theorem JobSound.moved (h : JobSound s id job) (hs : Sound s) (hjob : s.jobs[id]? = some job)
    (hcurrent : s.Current act) (hmoved : Moved s t act id job job') : JobSound t id job' := by
  have hmax := hmoved.maxAttempts
  cases hmoved.move with
  | kept hstatus hattempts hreported =>
    refine ⟨?_, by rw [hattempts, hmax]; exact h.attempts, ?_⟩
    · rw [hreported, hstatus]
      exact h.reported
    · rw [hstatus, hattempts, hmax]
      exact h.queued
  | claimed i hact hstarting hqueued hstatus hattempts hreported =>
    have hleft := h.queued hqueued
    refine ⟨?_, by omega, ?_⟩
    · rw [hreported, h.reported, hqueued, hstatus]
      simp
    · rw [hstatus]
      exact fun heq => nomatch heq
  | written w hw hid hstatus hattempts hreported =>
    subst hid
    obtain ⟨maxAttempts, hsnapshot, hwritten⟩ := writes_snapshot hw
    obtain ⟨_, hread, rfl⟩ := hs.snapshot _ _ _ hsnapshot
    obtain rfl := Option.some.inj (hjob.symm.trans hread)
    rcases hcurrent w hw job hjob with hsame | ⟨hunfinished, hlatest⟩
    · refine ⟨?_, by rw [hattempts, hmax]; exact h.attempts, ?_⟩
      · rw [hreported, h.reported, hstatus, hsame, or_self]
      · rw [hstatus, ← hsame, hattempts, hmax]
        exact h.queued
    · refine ⟨?_, by rw [hattempts, hmax]; exact h.attempts, ?_⟩
      · have hno : ¬ s.reported w.jobId = true := by
          rw [h.reported]
          intro hcomplete
          rw [hcomplete] at hunfinished
          cases hunfinished
        rw [hreported, hstatus, or_iff_right hno]
      · intro hqueued
        rw [hstatus] at hqueued
        rcases hwritten with hcomplete | hretry
        · cases hcomplete.symm.trans hqueued
        · rw [hattempts, hmax, hlatest]
          exact retryStatus_queued (hretry.symm.trans hqueued)

theorem sound_step (hs : Sound s) (hcurrent : s.Current act) (h : Stepped c s act t) : Sound t := by
  have hkept (id : ℕ) (job : Job) (hjob : s.jobs[id]? = some job) :
      ∃ job', t.jobs[id]? = some job' ∧ job'.maxAttempts = job.maxAttempts := by
    obtain ⟨job', hmoved⟩ := h.moved hjob
    exact ⟨job', hmoved.found, hmoved.maxAttempts⟩
  refine ⟨fun id job' hjob' => ?_, fun id hreported => ?_, fun id attempts maxAttempts hread => ?_⟩
  · cases hold : s.jobs[id]? with
    | some job =>
      obtain ⟨moved, hmoved⟩ := h.moved hold
      obtain rfl := Option.some.inj (hmoved.found.symm.trans hjob')
      exact (hs.job id job hold).moved hs hold hcurrent hmoved
    | none =>
      obtain ⟨rfl, -, hreports⟩ := h.fresh hold hjob'
      have hno : ¬ t.reported id = true := by
        rw [JobBoard.reported, hreports]
        intro hreported
        obtain ⟨job, hjob⟩ := hs.known id hreported
        cases hold.symm.trans hjob
      exact ⟨iff_of_false hno (by simp [freshJob]), by simp [freshJob], by simp [freshJob]⟩
  · have hjob : ∃ job, s.jobs[id]? = some job := by
      rcases h.reported hreported with hold | ⟨attempts, maxAttempts, hread⟩
      · exact hs.known id hold
      · obtain ⟨job, hjob, -⟩ := hs.snapshot id attempts maxAttempts hread
        exact ⟨job, hjob⟩
    obtain ⟨job, hjob⟩ := hjob
    obtain ⟨job', hjob', -⟩ := hkept id job hjob
    exact ⟨job', hjob'⟩
  · have hjob : ∃ job, s.jobs[id]? = some job ∧ job.maxAttempts = maxAttempts := by
      rcases h.snapshot hread with hold | hnew
      · exact hs.snapshot id attempts maxAttempts hold
      · exact hnew
    obtain ⟨job, hjob, rfl⟩ := hjob
    exact hkept id job hjob

/-- A finished job keeps its status. -/
theorem finished_kept (hcurrent : s.Current act) (h : Stepped c s act t)
    (hjob : s.jobs[id]? = some job) (hfinished : job.status.finished = true) :
    ∃ job', t.jobs[id]? = some job' ∧ job'.status = job.status := by
  obtain ⟨job', hmoved⟩ := h.moved hjob
  refine ⟨job', hmoved.found, ?_⟩
  cases hmoved.move with
  | kept hstatus => exact hstatus
  | claimed i hact hstarting hqueued =>
    rw [hqueued] at hfinished
    cases hfinished
  | written w hw hid hstatus =>
    subst hid
    rcases hcurrent w hw job hjob with hsame | ⟨hunfinished, -⟩
    · rw [hstatus, hsame]
    · rw [hfinished] at hunfinished
      cases hunfinished

/-- A later execution has claimed the job since. -/
def Lost (s : JobBoard) (i : ℕ) : Prop :=
  ∃ e ∈ s.executions[i]?, ∃ read ∈ e.stage.claim, ∃ job ∈ s.jobs[e.jobId]?,
    read.1 < job.attempts

instance (s : JobBoard) (i : ℕ) : Decidable (Lost s i) :=
  inferInstanceAs (Decidable (∃ e ∈ s.executions[i]?, _))

theorem writes_execution {w : StatusWrite} (hw : w ∈ s.writes act)
    (hact : act.execution = some i) : ∃ e maxAttempts, s.executions[i]? = some e ∧
      e.jobId = w.jobId ∧ e.stage.claim = some (w.attempts, maxAttempts) := by
  cases act with
  | complete j scopeLabel s3Key =>
    obtain rfl := Option.some.inj hact
    simp only [JobBoard.writes] at hw
    split at hw
    · rename_i id attempts maxAttempts hstage
      obtain rfl := List.mem_singleton.mp hw
      exact ⟨_, maxAttempts, hstage, rfl, rfl⟩
    · cases hw
  | markFailed j =>
    obtain rfl := Option.some.inj hact
    simp only [JobBoard.writes] at hw
    split at hw
    · rename_i id attempts maxAttempts error hstage
      obtain rfl := List.mem_singleton.mp hw
      exact ⟨_, maxAttempts, hstage, rfl, rfl⟩
    · cases hw
  | elapse | enqueue | start | sweep | requeue | retry | abandon => cases hact
  | claim | raise | audit | crash => cases hw

/-- An execution that lost its claim changes no status. -/
theorem lost_keeps (hcurrent : s.Current act) (h : Stepped c s act t)
    (hact : act.execution = some i) (hlost : Lost s i) (hjob : s.jobs[id]? = some job) :
    ∃ job', t.jobs[id]? = some job' ∧ job'.status = job.status := by
  obtain ⟨e, he, read, hclaim, claimed, hclaimed, hlater⟩ := hlost
  obtain ⟨job', hmoved⟩ := h.moved hjob
  refine ⟨job', hmoved.found, ?_⟩
  cases hmoved.move with
  | kept hstatus => exact hstatus
  | claimed j hclaims hstarting =>
    subst hclaims
    obtain rfl := Option.some.inj hact
    obtain rfl := Option.some.inj (hstarting.symm.trans he)
    cases hclaim
  | written w hw hid hstatus =>
    subst hid
    obtain ⟨e', _, he', hsame, hread⟩ := writes_execution hw hact
    obtain rfl := Option.some.inj (he.symm.trans he')
    obtain rfl := Option.some.inj (hclaim.symm.trans hread)
    rw [hsame] at hclaimed
    obtain rfl := Option.some.inj (hjob.symm.trans hclaimed)
    rcases hcurrent w hw job hjob with hkeeps | ⟨-, hlatest⟩
    · rw [hstatus, hkeeps]
    · omega

end Steps

section Runs
variable {c : Timeouts} {s t : JobBoard} {tr tr' : List ReportAct}

theorem sound_empty : Sound .empty := by
  refine ⟨fun id job hjob => ?_, fun id hreported => ?_, fun id attempts maxAttempts hread => ?_⟩
  · simp [JobBoard.empty] at hjob
  · cases hreported
  · rcases hread with ⟨e, he, -⟩ | ⟨stuck, orphaned, hsweep, -⟩
    · cases he
    · cases hsweep

theorem sound_run (run : Steps (Guarded (Takes (JobBoard.step c)) JobBoard.Current) .empty tr t) :
    Sound t :=
  run.stable sound_empty fun _ _ _ hs hstep => sound_step hs hstep.1 (stepped hstep.2)

/-- Where no status is written over a finished job or past a later claim, finished jobs stay as
they are, reports are those of the complete jobs, the attempts stay within the maximum, and an
execution that lost its claim changes no status. -/
theorem job_lifecycle
    (first : Steps (Guarded (Takes (JobBoard.step c)) JobBoard.Current) .empty tr s)
    (later : Steps (Guarded (Takes (JobBoard.step c)) JobBoard.Current) s tr' t) :
    (∀ (id : ℕ) (job : Job), s.jobs[id]? = some job → job.status.finished = true →
      ∃ job', t.jobs[id]? = some job' ∧ job'.status = job.status) ∧
    (∀ (id : ℕ) (job : Job), t.jobs[id]? = some job →
      (t.reported id = true ↔ job.status = .complete) ∧ job.attempts ≤ job.maxAttempts) ∧
    ∀ i act u, Lost t i → act.execution = some i → t.Current act → t.step c act = some u →
      ∀ (id : ℕ) (job : Job), t.jobs[id]? = some job → ∃ job', u.jobs[id]? = some job' ∧
        job'.status = job.status := by
  refine ⟨fun id job hjob hfinished => ?_, fun id job hjob => ?_, ?_⟩
  · refine later.stable (P := fun t => ∃ job', t.jobs[id]? = some job' ∧ job'.status = job.status)
      ⟨job, hjob, rfl⟩ ?_
    rintro u act v ⟨now, hnow, hstatus⟩ ⟨hcurrent, hstep⟩
    obtain ⟨job', hjob', hsame⟩ := finished_kept hcurrent (stepped hstep) hnow (hstatus ▸ hfinished)
    exact ⟨job', hjob', hsame.trans hstatus⟩
  · have hsound := (sound_run (first.trans later)).job id job hjob
    exact ⟨hsound.reported, hsound.attempts⟩
  · intro i act u hlost hact hcurrent hstep id job hjob
    exact lost_keeps hcurrent (stepped hstep) hact hlost hjob

/-- A job that is complete stays so while the audit entry is written. -/
theorem job_lifecycle_completed : ∃ s t, Steps (Takes (JobBoard.step ⟨15, 5⟩)) s [.audit 0] t ∧
    s.reported 0 = true ∧ ∃ job', t.jobs[0]? = some job' ∧ job'.status = .complete := by
  obtain ⟨s, t, first, last, hp⟩ := exists_play_last (gated (JobBoard.step ⟨15, 5⟩) JobBoard.Current)
    .empty [.enqueue, .start 0, .claim 0, .complete 0 "acme" "reports/acme.pdf"] (.audit 0)
    (fun s _ => s.reported 0 && s.jobs[0]?.any fun job => job.status = .complete) (by decide +kernel)
  obtain ⟨hreported, hcomplete⟩ := (Bool.and_eq_true _ _).mp hp
  obtain ⟨job, hjob, hstatus⟩ := (Option.any_eq_true _ _).mp hcomplete
  have hstatus : job.status = .complete := of_decide_eq_true hstatus
  have hlast := gated_guarded last
  obtain ⟨job', hjob', hsame⟩ :=
    (job_lifecycle (first.mono fun _ _ _ h => gated_guarded h) (Steps.refl.snoc hlast)).1 0 job hjob
      (by rw [hstatus]; rfl)
  exact ⟨s, t, Steps.refl.snoc hlast.2, hreported, job', hjob', hsame.trans hstatus⟩

/-- A failure after the report is committed queues a complete job again; so does an execution
that was overtaken; and with what it read first it queues a job for a fourth attempt of three. -/
theorem stale_writes :
    (∃ s t, Steps (Takes (JobBoard.step ⟨15, 5⟩)) .empty
        [.raise 0 "connection lost", .complete 0 "acme" "reports/acme.pdf", .claim 0, .start 0,
          .enqueue] s ∧ s.step ⟨15, 5⟩ (.markFailed 0) = some t ∧
      s.jobs[0]?.map Job.status = some .complete ∧ t.jobs[0]?.map Job.status = some .queued ∧
      t.reported 0 = true) ∧
    (∃ s t, Steps (Takes (JobBoard.step ⟨15, 5⟩)) .empty
        [.raise 0 "timed out", .complete 1 "acme" "reports/acme.pdf", .claim 1, .retry 0,
          .requeue 0, .sweep, .elapse 16, .claim 0, .start 0, .enqueue] s ∧
      s.step ⟨15, 5⟩ (.markFailed 0) = some t ∧ Lost s 0 ∧
      s.jobs[0]?.map Job.status = some .complete ∧ t.jobs[0]?.map Job.status = some .queued) ∧
    ∃ t, Steps (Takes (JobBoard.step ⟨15, 5⟩)) .empty
        [.claim 3, .start 0, .markFailed 0, .raise 0 "timed out", .claim 2, .retry 1, .requeue 1,
          .sweep, .elapse 16, .claim 1, .retry 0, .requeue 0, .sweep, .elapse 16, .claim 0,
          .start 0, .enqueue] t ∧ ∃ job ∈ t.jobs[0]?, job.maxAttempts < job.attempts := by
  refine ⟨?_, ?_, ?_⟩
  · obtain ⟨s, t, run, last, hp⟩ := exists_play_last (JobBoard.step ⟨15, 5⟩) .empty
      [.enqueue, .start 0, .claim 0, .complete 0 "acme" "reports/acme.pdf",
        .raise 0 "connection lost"] (.markFailed 0)
      (fun s t => s.jobs[0]?.map Job.status = some .complete ∧
        t.jobs[0]?.map Job.status = some .queued ∧ t.reported 0 = true) (by decide +kernel)
    exact ⟨s, t, run, last, of_decide_eq_true hp⟩
  · obtain ⟨s, t, run, last, hp⟩ := exists_play_last (JobBoard.step ⟨15, 5⟩) .empty
      [.enqueue, .start 0, .claim 0, .elapse 16, .sweep, .requeue 0, .retry 0, .claim 1,
        .complete 1 "acme" "reports/acme.pdf", .raise 0 "timed out"] (.markFailed 0)
      (fun s t => Lost s 0 ∧ s.jobs[0]?.map Job.status = some .complete ∧
        t.jobs[0]?.map Job.status = some .queued) (by decide +kernel)
    exact ⟨s, t, run, last, of_decide_eq_true hp⟩
  · obtain ⟨t, run, -, hp⟩ := exists_play (JobBoard.step ⟨15, 5⟩) .empty
      [.enqueue, .start 0, .claim 0, .elapse 16, .sweep, .requeue 0, .retry 0, .claim 1, .elapse 16,
        .sweep, .requeue 1, .retry 1, .claim 2, .raise 0 "timed out", .markFailed 0, .start 0,
        .claim 3] (fun t => ∃ job ∈ t.jobs[0]?, job.maxAttempts < job.attempts) (by decide +kernel)
    exact ⟨t, run, of_decide_eq_true hp⟩

end Runs

end MonitoringHub.Reports
