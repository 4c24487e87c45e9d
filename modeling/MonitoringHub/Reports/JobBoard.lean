import MonitoringHub.Lib.RowTable
import MonitoringHub.Lib.KeyedStore
import MonitoringHub.Lib.StepRun

/-! Report jobs. Any number of executions of `run_job` and of sweeps interleave, each statement
or transaction one step; only the claim of a job looks at its status. -/

namespace MonitoringHub.Reports
open Lib Lib.RowTable Lib.KeyedStore

inductive JobStatus
  | queued
  | processing
  | complete
  | failed
  deriving DecidableEq

def JobStatus.finished : JobStatus → Bool
  | complete | failed => true
  | queued | processing => false

/-- A row of `report_jobs`. -/
structure Job where
  status : JobStatus
  attempts : ℕ
  maxAttempts : ℕ
  errorMessage : Option String
  claimedAt : Option ℕ
  updatedAt : ℕ
  deriving DecidableEq

/-- A row of `reports`; the job is a unique key. -/
structure ReportRow where
  jobId : ℕ
  scopeLabel : String
  s3Key : String

/-- How far an execution of `run_job` is, with the attempts and the maximum that its claim
read. -/
inductive Stage
  | starting
  | rendering (attempts maxAttempts : ℕ)
  | auditing (attempts maxAttempts : ℕ)
  | failing (attempts maxAttempts : ℕ) (error : String)
  | ended

def Stage.claim : Stage → Option (ℕ × ℕ)
  | rendering attempts maxAttempts => some (attempts, maxAttempts)
  | auditing attempts maxAttempts => some (attempts, maxAttempts)
  | failing attempts maxAttempts _ => some (attempts, maxAttempts)
  | starting => none
  | ended => none

structure Execution where
  jobId : ℕ
  stage : Stage

/-- A sweep has read the stuck jobs, with their attempts and maximum, and the orphaned ones; or
it has written and runs the jobs to retry. -/
inductive Sweep
  | selected (stuck : List (ℕ × ℕ × ℕ)) (orphaned : List ℕ)
  | retrying (jobIds : List ℕ)

structure JobBoard where
  now : ℕ
  jobs : List Job
  reports : List ReportRow
  executions : List Execution
  sweeps : List Sweep

/-- `_STUCK_TIMEOUT_MINUTES` and `_QUEUED_TIMEOUT_MINUTES` -/
structure Timeouts where
  stuck : ℕ
  queued : ℕ

/-- One step: time passes, a request enqueues a job, an execution or a sweep goes on. -/
inductive ReportAct
  | elapse (minutes : ℕ)
  | enqueue
  | start (jobId : ℕ)
  | claim (i : ℕ)
  | complete (i : ℕ) (scopeLabel s3Key : String)
  | raise (i : ℕ) (error : String)
  | audit (i : ℕ)
  | markFailed (i : ℕ)
  | crash (i : ℕ)
  | sweep
  | requeue (k : ℕ)
  | retry (k : ℕ)
  | abandon (k : ℕ)

/-- The execution that takes the step. -/
def ReportAct.execution : ReportAct → Option ℕ
  | claim i => some i
  | complete i _ _ => some i
  | raise i _ => some i
  | audit i => some i
  | markFailed i => some i
  | crash i => some i
  | _ => none

def freshJob (now : ℕ) : Job := ⟨.queued, 0, 3, none, none, now⟩

/-- `QUEUED` while there are attempts left. -/
def retryStatus (attempts maxAttempts : ℕ) : JobStatus :=
  if attempts < maxAttempts then .queued else .failed

namespace Job

/-- `updated_at` moves only if something changes. -/
def update (now : ℕ) (change : Job → Job) (job : Job) : Job :=
  if change job = job then job else { change job with updatedAt := now }

def claim (now : ℕ) (job : Job) : Job :=
  { job with status := .processing, claimedAt := some now, attempts := job.attempts + 1 }

def finish (job : Job) : Job := { job with status := .complete, errorMessage := none }

def fail (status : JobStatus) (error : String) (job : Job) : Job :=
  { job with status := status, errorMessage := some (.ofList (error.toList.take 4000)) }

end Job

namespace JobBoard

def empty : JobBoard := ⟨0, [], [], [], []⟩

def reported (s : JobBoard) (id : ℕ) : Bool := s.reports.any fun row => row.jobId = id

def writeJob (s : JobBoard) (id : ℕ) (change : Job → Job) : JobBoard :=
  { s with jobs := modifyAt id (Job.update s.now change) s.jobs }

def setStage (s : JobBoard) (i : ℕ) (stage : Stage) : JobBoard :=
  { s with executions := modifyAt i (fun e => { e with stage := stage }) s.executions }

/-- `_claim`: only a queued job. -/
def claim (s : JobBoard) (i id : ℕ) : JobBoard :=
  match s.jobs[id]? with
  | some job =>
    if job.status = .queued then
      (s.writeJob id (Job.claim s.now)).setStage i (.rendering (job.attempts + 1) job.maxAttempts)
    else s.setStage i .ended
  | none => s.setStage i .ended

/-- The jobs in processing since before the cutoff. -/
def stuck (s : JobBoard) (c : Timeouts) : List (ℕ × ℕ × ℕ) :=
  (s.jobs.zipIdx.filter fun entry =>
      entry.1.status = .processing && entry.1.claimedAt.any fun at' => at' + c.stuck < s.now).map
    fun entry => (entry.2, entry.1.attempts, entry.1.maxAttempts)

def orphaned (s : JobBoard) (c : Timeouts) : List ℕ :=
  (s.jobs.zipIdx.filter fun entry =>
      entry.1.status = .queued && entry.1.updatedAt + c.queued < s.now).map Prod.snd

/-- `_mark_complete`, one transaction; the unique key refuses a second report. -/
def markComplete (s : JobBoard) (id : ℕ) (scopeLabel s3Key : String) : Option JobBoard :=
  if s.reported id then none
  else some (({ s with reports := s.reports ++ [⟨id, scopeLabel, s3Key⟩] } : JobBoard).writeJob id
    Job.finish)

/-- What a sweep writes to a job. -/
def requeued (now : ℕ) (stuck : List (ℕ × ℕ × ℕ)) (id : ℕ) (job : Job) : Job :=
  match find id stuck with
  | some (attempts, maxAttempts) =>
    job.update now (.fail (retryStatus attempts maxAttempts) "Requeued: worker timeout")
  | none => job

def step (c : Timeouts) (s : JobBoard) : ReportAct → Option JobBoard
  | .elapse minutes => some { s with now := s.now + minutes }
  | .enqueue => some { s with jobs := s.jobs ++ [freshJob s.now] }
  | .start id => some { s with executions := s.executions ++ [⟨id, .starting⟩] }
  | .claim i =>
    match s.executions[i]? with
    | some ⟨id, .starting⟩ => some (s.claim i id)
    | _ => none
  | .complete i scopeLabel s3Key =>
    match s.executions[i]? with
    | some ⟨id, .rendering attempts maxAttempts⟩ =>
      (s.markComplete id scopeLabel s3Key).map fun t =>
        t.setStage i (.auditing attempts maxAttempts)
    | _ => none
  | .raise i error =>
    match s.executions[i]? with
    | some ⟨_, .rendering attempts maxAttempts⟩ =>
      some (s.setStage i (.failing attempts maxAttempts error))
    | some ⟨_, .auditing attempts maxAttempts⟩ =>
      some (s.setStage i (.failing attempts maxAttempts error))
    | _ => none
  | .audit i =>
    match s.executions[i]? with
    | some ⟨_, .auditing _ _⟩ => some (s.setStage i .ended)
    | _ => none
  | .markFailed i =>
    match s.executions[i]? with
    | some ⟨id, .failing attempts maxAttempts error⟩ =>
      some ((s.writeJob id (.fail (retryStatus attempts maxAttempts) error)).setStage i .ended)
    | _ => none
  | .crash i => some (s.setStage i .ended)
  | .sweep => some { s with sweeps := s.sweeps ++ [.selected (s.stuck c) (s.orphaned c)] }
  | .requeue k =>
    match s.sweeps[k]? with
    | some (.selected stuck orphaned) =>
      let retry := (stuck.filter fun e => retryStatus e.2.1 e.2.2 = .queued).map Prod.fst
      some { s with
        jobs := s.jobs.mapIdx (requeued s.now stuck)
        sweeps := modifyAt k (fun _ => .retrying (retry ++ orphaned)) s.sweeps }
    | _ => none
  | .retry k =>
    match s.sweeps[k]? with
    | some (.retrying (id :: rest)) =>
      some { s with
        executions := s.executions ++ [⟨id, .starting⟩]
        sweeps := modifyAt k (fun _ => .retrying rest) s.sweeps }
    | _ => none
  | .abandon k => some { s with sweeps := modifyAt k (fun _ => .retrying []) s.sweeps }

end JobBoard

/-- A status written by id, and the attempts that the writer has read. -/
structure StatusWrite where
  jobId : ℕ
  attempts : ℕ
  status : JobStatus

namespace JobBoard

/-- The statuses that a step writes, other than by a claim. -/
def writes (s : JobBoard) : ReportAct → List StatusWrite
  | .complete i _ _ =>
    match s.executions[i]? with
    | some ⟨id, .rendering attempts _⟩ => [⟨id, attempts, .complete⟩]
    | _ => []
  | .markFailed i =>
    match s.executions[i]? with
    | some ⟨id, .failing attempts maxAttempts _⟩ =>
      [⟨id, attempts, retryStatus attempts maxAttempts⟩]
    | _ => []
  | .requeue k =>
    match s.sweeps[k]? with
    | some (.selected stuck _) => stuck.map fun e => ⟨e.1, e.2.1, retryStatus e.2.1 e.2.2⟩
    | _ => []
  | _ => []

/-- Each write leaves the status as it is, or the job is unfinished and nobody has claimed it
since the writer read it. -/
def Current (s : JobBoard) (act : ReportAct) : Prop :=
  ∀ w ∈ s.writes act, ∀ job ∈ s.jobs[w.jobId]?, job.status = w.status ∨
    job.status.finished = false ∧ job.attempts = w.attempts

instance (s : JobBoard) (act : ReportAct) : Decidable (s.Current act) :=
  inferInstanceAs (Decidable (∀ w ∈ s.writes act, ∀ job ∈ s.jobs[w.jobId]?, _))

end JobBoard

/-- What each step needs and makes. -/
inductive Stepped (c : Timeouts) (s : JobBoard) : ReportAct → JobBoard → Prop
  | elapse (minutes : ℕ) : Stepped c s (.elapse minutes) { s with now := s.now + minutes }
  | enqueue : Stepped c s .enqueue { s with jobs := s.jobs ++ [freshJob s.now] }
  | start (id : ℕ) :
    Stepped c s (.start id) { s with executions := s.executions ++ [⟨id, .starting⟩] }
  | claim (i id : ℕ) (hstarting : s.executions[i]? = some ⟨id, .starting⟩) :
    Stepped c s (.claim i) (s.claim i id)
  | complete (i : ℕ) (scopeLabel s3Key : String) (id attempts maxAttempts : ℕ) (u : JobBoard)
    (hstage : s.executions[i]? = some ⟨id, .rendering attempts maxAttempts⟩)
    (hmark : s.markComplete id scopeLabel s3Key = some u) :
    Stepped c s (.complete i scopeLabel s3Key) (u.setStage i (.auditing attempts maxAttempts))
  | raise (i : ℕ) (error : String) (e : Execution) (attempts maxAttempts : ℕ)
    (hexec : s.executions[i]? = some e) (hclaim : e.stage.claim = some (attempts, maxAttempts)) :
    Stepped c s (.raise i error) (s.setStage i (.failing attempts maxAttempts error))
  | audit (i : ℕ) : Stepped c s (.audit i) (s.setStage i .ended)
  | markFailed (i id attempts maxAttempts : ℕ) (error : String)
    (hstage : s.executions[i]? = some ⟨id, .failing attempts maxAttempts error⟩) :
    Stepped c s (.markFailed i)
      ((s.writeJob id (.fail (retryStatus attempts maxAttempts) error)).setStage i .ended)
  | crash (i : ℕ) : Stepped c s (.crash i) (s.setStage i .ended)
  | sweep : Stepped c s .sweep
      { s with sweeps := s.sweeps ++ [.selected (s.stuck c) (s.orphaned c)] }
  | requeue (k : ℕ) (stuck : List (ℕ × ℕ × ℕ)) (orphaned jobIds : List ℕ)
    (hsweep : s.sweeps[k]? = some (.selected stuck orphaned)) :
    Stepped c s (.requeue k) { s with
      jobs := s.jobs.mapIdx (JobBoard.requeued s.now stuck)
      sweeps := modifyAt k (fun _ => .retrying jobIds) s.sweeps }
  | retry (k id : ℕ) (jobIds : List ℕ) :
    Stepped c s (.retry k) { s with
      executions := s.executions ++ [⟨id, .starting⟩]
      sweeps := modifyAt k (fun _ => .retrying jobIds) s.sweeps }
  | abandon (k : ℕ) :
    Stepped c s (.abandon k) { s with sweeps := modifyAt k (fun _ => .retrying []) s.sweeps }

section Steps
variable {c : Timeouts} {s t : JobBoard} {act : ReportAct} {id i k attempts maxAttempts : ℕ}
  {job job' : Job} {status : JobStatus} {now : ℕ} {change : Job → Job}

@[simp] theorem update_status : (job.update now change).status = (change job).status := by
  unfold Job.update
  split
  · rename_i hsame
    rw [hsame]
  · rfl

@[simp] theorem update_attempts : (job.update now change).attempts = (change job).attempts := by
  unfold Job.update
  split
  · rename_i hsame
    rw [hsame]
  · rfl

@[simp] theorem update_maxAttempts :
    (job.update now change).maxAttempts = (change job).maxAttempts := by
  unfold Job.update
  split
  · rename_i hsame
    rw [hsame]
  · rfl

@[simp] theorem setStage_jobs (stage : Stage) : (s.setStage i stage).jobs = s.jobs := rfl

@[simp] theorem setStage_reports (stage : Stage) : (s.setStage i stage).reports = s.reports := rfl

theorem writeJob_job (hjob : s.jobs[id]? = some job) (id' : ℕ) (change : Job → Job) :
    (s.writeJob id' change).jobs[id]? =
      some (if id' = id then job.update s.now change else job) := by
  unfold JobBoard.writeJob
  dsimp only
  rw [modifyAt_getElem?, hjob]
  split <;> rfl

/-- What a step does to one job: it keeps status and attempts, claims the job, or writes a
status. -/
inductive JobMove (s t : JobBoard) (act : ReportAct) (id : ℕ) (job job' : Job) : Prop
  | kept (hstatus : job'.status = job.status) (hattempts : job'.attempts = job.attempts)
      (hreported : t.reported id = s.reported id)
  | claimed (i : ℕ) (hact : act = .claim i) (hstarting : s.executions[i]? = some ⟨id, .starting⟩)
      (hqueued : job.status = .queued) (hstatus : job'.status = .processing)
      (hattempts : job'.attempts = job.attempts + 1) (hreported : t.reported id = s.reported id)
  | written (w : StatusWrite) (hw : w ∈ s.writes act) (hid : w.jobId = id)
      (hstatus : job'.status = w.status) (hattempts : job'.attempts = job.attempts)
      (hreported : t.reported id = true ↔ s.reported id = true ∨ w.status = .complete)

/-- The job after a step. -/
structure Moved (s t : JobBoard) (act : ReportAct) (id : ℕ) (job job' : Job) : Prop where
  found : t.jobs[id]? = some job'
  maxAttempts : job'.maxAttempts = job.maxAttempts
  move : JobMove s t act id job job'

theorem moved_of_same (hjob : s.jobs[id]? = some job) (hjobs : t.jobs = s.jobs)
    (hreports : t.reports = s.reports) : ∃ job', Moved s t act id job job' := by
  refine ⟨job, hjobs ▸ hjob, rfl, .kept rfl rfl ?_⟩
  rw [JobBoard.reported, JobBoard.reported, hreports]

theorem Moved.setStage (h : Moved s t act id job job') (i : ℕ) (stage : Stage) :
    Moved s (t.setStage i stage) act id job job' := by
  refine ⟨h.found, h.maxAttempts, ?_⟩
  cases h.move with
  | kept hstatus hattempts hreported => exact .kept hstatus hattempts hreported
  | claimed j hact hstarting hqueued hstatus hattempts hreported =>
    exact .claimed j hact hstarting hqueued hstatus hattempts hreported
  | written w hw hid hstatus hattempts hreported =>
    exact .written w hw hid hstatus hattempts hreported

theorem retryStatus_ne_complete : retryStatus attempts maxAttempts ≠ .complete := by
  unfold retryStatus
  split <;> simp

theorem claim_moved (hjob : s.jobs[id]? = some job) {id' : ℕ}
    (hstarting : s.executions[i]? = some ⟨id', .starting⟩) :
    ∃ job', Moved s (s.claim i id') (.claim i) id job job' := by
  unfold JobBoard.claim
  split
  · rename_i claimed hclaimed
    split
    · rename_i hqueued
      have hfound := writeJob_job hjob id' (Job.claim s.now)
      by_cases hid : id' = id
      · subst hid
        obtain rfl : claimed = job := Option.some.inj (hclaimed.symm.trans hjob)
        rw [if_pos rfl] at hfound
        exact ⟨_, hfound, update_maxAttempts,
          .claimed i rfl hstarting hqueued update_status update_attempts rfl⟩
      · rw [if_neg hid] at hfound
        exact ⟨_, hfound, rfl, .kept rfl rfl rfl⟩
    · exact moved_of_same hjob rfl rfl
  · exact moved_of_same hjob rfl rfl

theorem reported_append (row : ReportRow) (id : ℕ) :
    ({ s with reports := s.reports ++ [row] } : JobBoard).reported id =
      (s.reported id || decide (row.jobId = id)) := by
  simp [JobBoard.reported]

theorem complete_moved (hjob : s.jobs[id]? = some job) {id' : ℕ} {scopeLabel s3Key : String}
    (hstage : s.executions[i]? = some ⟨id', .rendering attempts maxAttempts⟩)
    (h : s.markComplete id' scopeLabel s3Key = some t) :
    ∃ job', Moved s t (.complete i scopeLabel s3Key) id job job' := by
  obtain ⟨-, h⟩ := Option.ite_none_left_eq_some.mp h
  obtain rfl := Option.some.inj h
  have hfound := writeJob_job (s := { s with reports := s.reports ++ [⟨id', scopeLabel, s3Key⟩] })
    hjob id' Job.finish
  have hreported := reported_append (s := s) ⟨id', scopeLabel, s3Key⟩ id
  by_cases hid : id' = id
  · subst hid
    rw [if_pos rfl] at hfound
    refine ⟨_, hfound, update_maxAttempts, .written ⟨id', attempts, .complete⟩ ?_ rfl update_status
      update_attempts ?_⟩
    · simp only [JobBoard.writes, hstage, List.mem_singleton]
    · exact iff_of_true (hreported.trans (by simp)) (.inr rfl)
  · rw [if_neg hid] at hfound
    exact ⟨_, hfound, rfl, .kept rfl rfl (hreported.trans (by simp [hid]))⟩

theorem failed_moved (hjob : s.jobs[id]? = some job) {id' : ℕ} {error : String}
    (hstage : s.executions[i]? = some ⟨id', .failing attempts maxAttempts error⟩) :
    ∃ job', Moved s (s.writeJob id' (.fail (retryStatus attempts maxAttempts) error))
      (.markFailed i) id job job' := by
  have hfound := writeJob_job hjob id' (.fail (retryStatus attempts maxAttempts) error)
  by_cases hid : id' = id
  · subst hid
    rw [if_pos rfl] at hfound
    refine ⟨_, hfound, update_maxAttempts,
      .written ⟨id', attempts, retryStatus attempts maxAttempts⟩ ?_ rfl update_status
        update_attempts ?_⟩
    · simp only [JobBoard.writes, hstage, List.mem_singleton]
    · exact ⟨.inl, fun h => h.resolve_right retryStatus_ne_complete⟩
  · rw [if_neg hid] at hfound
    exact ⟨_, hfound, rfl, .kept rfl rfl rfl⟩

theorem requeue_moved (hjob : s.jobs[id]? = some job) {stuck : List (ℕ × ℕ × ℕ)}
    {orphaned : List ℕ} (hsweep : s.sweeps[k]? = some (.selected stuck orphaned))
    (sweeps : List Sweep) :
    ∃ job', Moved s
      { s with jobs := s.jobs.mapIdx (JobBoard.requeued s.now stuck), sweeps := sweeps }
      (.requeue k) id job job' := by
  have hfound : (s.jobs.mapIdx (JobBoard.requeued s.now stuck))[id]? =
      some (JobBoard.requeued s.now stuck id job) := by
    rw [List.getElem?_mapIdx, hjob]
    rfl
  unfold JobBoard.requeued at hfound
  split at hfound
  · rename_i attempts maxAttempts hentry
    refine ⟨_, hfound, update_maxAttempts, .written ⟨id, attempts, retryStatus attempts maxAttempts⟩
      ?_ rfl update_status update_attempts ?_⟩
    · simp only [JobBoard.writes, hsweep]
      exact List.mem_map.mpr ⟨_, mem_of_find hentry, rfl⟩
    · exact ⟨.inl, fun h => h.resolve_right retryStatus_ne_complete⟩
  · exact ⟨_, hfound, rfl, .kept rfl rfl rfl⟩

theorem stepped (h : s.step c act = some t) : Stepped c s act t := by
  unfold JobBoard.step at h
  cases act with
  | elapse minutes => exact Option.some.inj h ▸ .elapse minutes
  | enqueue => exact Option.some.inj h ▸ .enqueue
  | start id => exact Option.some.inj h ▸ .start id
  | crash i => exact Option.some.inj h ▸ .crash i
  | sweep => exact Option.some.inj h ▸ .sweep
  | abandon k => exact Option.some.inj h ▸ .abandon k
  | claim i =>
    dsimp only at h
    split at h
    · rename_i hstarting
      exact Option.some.inj h ▸ .claim i _ hstarting
    · cases h
  | complete i scopeLabel s3Key =>
    dsimp only at h
    split at h
    · rename_i hstage
      obtain ⟨u, hu, rfl⟩ := Option.map_eq_some_iff.mp h
      exact .complete i scopeLabel s3Key _ _ _ u hstage hu
    · cases h
  | raise i error =>
    dsimp only at h
    split at h
    · rename_i hexec
      exact Option.some.inj h ▸ .raise i error _ _ _ hexec rfl
    · rename_i hexec
      exact Option.some.inj h ▸ .raise i error _ _ _ hexec rfl
    · cases h
  | audit i =>
    dsimp only at h
    split at h
    · exact Option.some.inj h ▸ .audit i
    · cases h
  | markFailed i =>
    dsimp only at h
    split at h
    · rename_i hstage
      exact Option.some.inj h ▸ .markFailed i _ _ _ _ hstage
    · cases h
  | requeue k =>
    dsimp only at h
    split at h
    · rename_i hsweep
      exact Option.some.inj h ▸ .requeue k _ _ _ hsweep
    · cases h
  | retry k =>
    dsimp only at h
    split at h
    · exact Option.some.inj h ▸ .retry k _ _
    · cases h

theorem Stepped.moved (h : Stepped c s act t) (hjob : s.jobs[id]? = some job) :
    ∃ job', Moved s t act id job job' := by
  cases h with
  | enqueue =>
    have hid := (List.getElem?_eq_some_iff.mp hjob).1
    exact ⟨job, (List.getElem?_append_left hid).trans hjob, rfl, .kept rfl rfl rfl⟩
  | claim i id' hstarting => exact claim_moved hjob hstarting
  | complete i scopeLabel s3Key id' attempts maxAttempts u hstage hmark =>
    obtain ⟨job', hmoved⟩ := complete_moved hjob hstage hmark
    exact ⟨job', hmoved.setStage i _⟩
  | markFailed i id' attempts maxAttempts error hstage =>
    obtain ⟨job', hmoved⟩ := failed_moved hjob hstage
    exact ⟨job', hmoved.setStage i _⟩
  | requeue k stuck orphaned jobIds hsweep => exact requeue_moved hjob hsweep _
  | elapse | start | raise | audit | crash | sweep | retry | abandon =>
    exact moved_of_same hjob rfl rfl

@[simp] theorem writeJob_length : (s.writeJob id change).jobs.length = s.jobs.length :=
  modifyAt_length _ _ _

/-- Only a request adds a job. -/
theorem Stepped.length (h : Stepped c s act t) : t.jobs.length = s.jobs.length ∨
    t = { s with jobs := s.jobs ++ [freshJob s.now] } := by
  cases h with
  | enqueue => exact .inr rfl
  | claim i id' hstarting =>
    left
    unfold JobBoard.claim
    split
    · split <;> simp
    · simp
  | complete i scopeLabel s3Key id' attempts maxAttempts u hstage hmark =>
    obtain ⟨-, hmark⟩ := Option.ite_none_left_eq_some.mp hmark
    obtain rfl := Option.some.inj hmark
    exact .inl writeJob_length
  | markFailed i id' attempts maxAttempts error hstage => exact .inl writeJob_length
  | requeue k stuck orphaned jobIds hsweep => exact .inl List.length_mapIdx
  | elapse | start | raise | audit | crash | sweep | retry | abandon => exact .inl rfl

/-- A job that was not there is fresh. -/
theorem Stepped.fresh (h : Stepped c s act t) (hnone : s.jobs[id]? = none)
    (hjob : t.jobs[id]? = some job) :
    job = freshJob s.now ∧ id = s.jobs.length ∧ t.reports = s.reports := by
  rcases h.length with hlength | rfl
  · have hin := (List.getElem?_eq_some_iff.mp hjob).1
    rw [hlength] at hin
    exact absurd (List.getElem?_eq_none_iff.mp hnone) (Nat.not_le.mpr hin)
  · rcases found_append hjob with hold | ⟨hid, hnew⟩
    · cases hnone.symm.trans hold
    · exact ⟨hnew, hid, rfl⟩

end Steps

end MonitoringHub.Reports
