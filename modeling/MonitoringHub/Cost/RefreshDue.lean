import MonitoringHub.Lib.StepRun
import MonitoringHub.Lib.GatedCounter
import Mathlib.Logic.Function.Basic

/-! When the billed cost of one account is read. Any number of worker processes run `refresh_due`;
the lock is a worker's own, and the log is what they share. Times are in microseconds, except
`fetched_at`, which the log keeps in whole seconds. -/

namespace MonitoringHub.Cost
open Lib

def microseconds : ℕ := 1000000
def refreshHours : ℕ := 24
def manualCooldownMinutes : ℕ := 60

/-- `min_age` of a manual refresh and of a scheduled one. -/
def minAge (force : Bool) : ℕ :=
  if force then manualCooldownMinutes * 60 * microseconds else refreshHours * 3600 * microseconds

inductive CostModule
  | costExplorer | cloudCost
  deriving DecidableEq

structure CostFetch where
  id : ℕ
  force : Bool
  started : ℕ

/-- Where a worker is in `refresh_due`, as far as this account goes. A worker that may fetch
carries the number of fetches begun when its check let it through. -/
inductive RefreshStage
  | idle
  | looping (asked : ℕ) (force : Bool)
  | refreshing (asked : ℕ) (force : Bool) (seen : ℕ)
  | fetching (id : ℕ)
  | saving (call : Option ℕ) (fetchedAt : ℕ)
  | passed

/-- `fetches`, newest first, and the log row of each are kept for the statements. -/
structure CostReads where
  now : ℕ
  log : List ℕ
  workers : ℕ → RefreshStage
  fetches : List CostFetch
  stored : ℕ → Option ℕ

/-- `read` and `ok` say whether the database does what it is asked. -/
inductive RefreshAct
  | elapse (d : ℕ)
  | refreshDue (p : ℕ) (force : Bool)
  | checkAccount (p : ℕ) (read : Bool)
  | startFetch (p : ℕ)
  | insertLog (p : ℕ) (ok : Bool)
  | commitLog (p : ℕ) (ok : Bool)
  | leave (p : ℕ)

namespace CostReads

def start : CostReads := ⟨0, [], fun _ => .idle, [], fun _ => none⟩

def setWorker (s : CostReads) (p : ℕ) (stage : RefreshStage) : CostReads :=
  { s with workers := Function.update s.workers p stage }

/-- `none` where `_last_attempt` raises. -/
def lastAttempt (s : CostReads) (m : CostModule) (read : Bool) : Option (Option ℕ) :=
  if read then some s.log.max?
  else
    match m with
    | .costExplorer => none
    | .cloudCost => some none

def tooRecent (asked : ℕ) (force : Bool) : Option ℕ → Bool
  | none => false
  | some last => asked < last * microseconds + minAge force

def checkAccount (s : CostReads) (m : CostModule) (p asked : ℕ) (force read : Bool) : CostReads :=
  match s.lastAttempt m read with
  | none => s.setWorker p .idle
  | some last =>
    if tooRecent asked force last then s.setWorker p .passed
    else s.setWorker p (.refreshing asked force s.fetches.length)

def startFetch (s : CostReads) (p : ℕ) (force : Bool) : CostReads :=
  { s with fetches := ⟨s.fetches.length, force, s.now⟩ :: s.fetches }.setWorker p
    (.fetching s.fetches.length)

/-- The row of the log, stamped by the database as it is inserted. -/
def insertLog (s : CostReads) (p : ℕ) (call : Option ℕ) (ok : Bool) : CostReads :=
  s.setWorker p (if ok then .saving call (s.now / microseconds) else .passed)

def commitLog (s : CostReads) (p : ℕ) (call : Option ℕ) (fetchedAt : ℕ) (ok : Bool) : CostReads :=
  if ok then
    { s with
      log := fetchedAt :: s.log,
      stored := match call with
        | some i => Function.update s.stored i (some fetchedAt)
        | none => s.stored }.setWorker p .passed
  else s.setWorker p .passed

/-- A worker leaves when its loop ends, when an exception ends it, and when the process dies. -/
def step (m : CostModule) (s : CostReads) : RefreshAct → Option CostReads
  | .elapse d => some { s with now := s.now + d }
  | .refreshDue p force =>
    match s.workers p with
    | .idle => some (s.setWorker p (.looping s.now force))
    | _ => none
  | .checkAccount p read =>
    match s.workers p with
    | .looping asked force => some (s.checkAccount m p asked force read)
    | _ => none
  | .startFetch p =>
    match s.workers p with
    | .refreshing _ force _ => some (s.startFetch p force)
    | _ => none
  | .insertLog p ok =>
    match s.workers p with
    | .refreshing _ _ _ => some (s.insertLog p none ok)
    | .fetching i => some (s.insertLog p (some i) ok)
    | _ => none
  | .commitLog p ok =>
    match s.workers p with
    | .saving call fetchedAt => some (s.commitLog p call fetchedAt ok)
    | _ => none
  | .leave p => some (s.setWorker p .idle)

/-- How far apart two fetches have to start. -/
def gap (force force' : Bool) : ℕ := minAge (force || force')

def scheduled (s : CostReads) : List CostFetch := s.fetches.filter fun f => !f.force

def startedOn (s : CostReads) (lo : ℕ) : List ℕ :=
  (s.fetches.map CostFetch.started).filter fun t => lo ≤ t ∧ t < lo + minAge false

/-- The fetches are rationed; in no 24 hours do more than 24 of them start. -/
structure Rationed (s : CostReads) : Prop where
  all : Spaced (minAge true) (s.fetches.map CostFetch.started)
  scheduled : Spaced (minAge false) (s.scheduled.map CostFetch.started)
  daily : ∀ lo, (s.startedOn lo).length ≤ 24

def letsThrough (s : CostReads) (m : CostModule) (asked : ℕ) (force read : Bool) : Bool :=
  (s.lastAttempt m read).any fun last => !tooRecent asked force last

/-- The log tells of the fetch, by a row not stamped before it began; or it began long ago. -/
def toldOf (s : CostReads) (asked : ℕ) (force read : Bool) (f : CostFetch) : Bool :=
  (read && (s.stored f.id).any fun w => f.started ≤ w * microseconds) ||
    f.started + gap f.force force ≤ asked

/-- A check that lets a fetch through is told of every fetch begun before, and no other fetch
begins before that one does. -/
def loggedInTime (m : CostModule) (s : CostReads) : RefreshAct → Bool
  | .checkAccount p read =>
    match s.workers p with
    | .looping asked force =>
      !s.letsThrough m asked force read || s.fetches.all (s.toldOf asked force read)
    | _ => true
  | .startFetch p =>
    match s.workers p with
    | .refreshing _ _ seen => s.fetches.length = seen
    | _ => true
  | _ => true

def StageSound (s : CostReads) : RefreshStage → Prop
  | .looping asked _ => asked ≤ s.now
  | .refreshing asked force seen => asked ≤ s.now ∧ seen ≤ s.fetches.length ∧
    ∀ f ∈ s.fetches, f.id < seen → f.started + gap f.force force ≤ asked
  | _ => True

structure Sound (s : CostReads) : Prop where
  stages : ∀ p, s.StageSound (s.workers p)
  ids : ∀ f ∈ s.fetches, f.id < s.fetches.length
  stored : ∀ i w, s.stored i = some w → w ∈ s.log
  all : Spaced (minAge true) (s.fetches.map CostFetch.started)
  scheduled : Spaced (minAge false) (s.scheduled.map CostFetch.started)

variable {m : CostModule} {s s' : CostReads} {act : RefreshAct} {p : ℕ}

theorem gap_le (force force' : Bool) : gap force force' ≤ minAge force' := by
  cases force <;> cases force' <;> decide

theorem minAge_true_le (force force' : Bool) : minAge true ≤ gap force force' := by
  cases force <;> cases force' <;> decide

theorem Sound.rationed (h : s.Sound) : s.Rationed where
  all := h.all
  scheduled := h.scheduled
  daily lo := by
    have hspaced : Spaced (minAge true) (s.startedOn lo) := h.all.sublist List.filter_sublist
    have hday : minAge true * ((s.startedOn lo).length - 1) < minAge false :=
      hspaced.length_le_of_window (by decide) fun t ht =>
        of_decide_eq_true (List.mem_filter.mp ht).2
    have hhour : minAge false = 24 * minAge true := rfl
    have hpos : 0 < minAge true := by decide
    rw [hhour, Nat.mul_comm] at hday
    have := Nat.lt_of_mul_lt_mul_right hday
    omega

theorem StageSound.elapse {stage : RefreshStage} (h : s.StageSound stage) (d : ℕ) :
    StageSound { s with now := s.now + d } stage := by
  cases stage with
  | looping asked force => exact Nat.le_add_right_of_le h
  | refreshing asked force seen => exact ⟨Nat.le_add_right_of_le h.1, h.2⟩
  | _ => trivial

theorem Sound.setWorker (h : s.Sound) {stage : RefreshStage} (hstage : s.StageSound stage) :
    (s.setWorker p stage).Sound := by
  refine ⟨fun q => ?_, h.ids, h.stored, h.all, h.scheduled⟩
  by_cases hq : q = p
  · subst hq
    have hnew : (s.setWorker q stage).workers q = stage := Function.update_self ..
    rw [hnew]
    exact hstage
  · have hold : (s.setWorker p stage).workers q = s.workers q := Function.update_of_ne hq ..
    rw [hold]
    exact h.stages q

/-- A row of the log keeps every check off until it is old enough. -/
theorem toldOf_old (h : s.Sound) {asked : ℕ} {last : Option ℕ} {force read : Bool} {f : CostFetch}
    (hread : s.lastAttempt m read = some last) (hdue : tooRecent asked force last = false)
    (htold : s.toldOf asked force read f = true) : f.started + gap f.force force ≤ asked := by
  rcases (Bool.or_eq_true _ _).mp htold with hstored | hold
  · obtain ⟨hread', hw⟩ := (Bool.and_eq_true _ _).mp hstored
    obtain ⟨w, hw, hstamp⟩ := (Option.any_eq_true _ _).mp hw
    have hmem := h.stored f.id w hw
    unfold lastAttempt at hread
    rw [if_pos hread'] at hread
    have hmax := Option.some.inj hread
    cases last with
    | none =>
      rw [List.max?_eq_none_iff.mp hmax] at hmem
      cases hmem
    | some last =>
      have hle := Nat.mul_le_mul_right microseconds ((List.max?_eq_some_iff.mp hmax).2 w hmem)
      have hstamp := of_decide_eq_true hstamp
      have hdue := of_decide_eq_false hdue
      have hgap := gap_le f.force force
      omega
  · exact of_decide_eq_true hold

theorem Sound.checkAccount (h : s.Sound) {asked : ℕ} {force read : Bool} (hasked : asked ≤ s.now)
    (htold : (!s.letsThrough m asked force read || s.fetches.all (s.toldOf asked force read)) =
      true) : (s.checkAccount m p asked force read).Sound := by
  unfold CostReads.checkAccount
  split
  · exact h.setWorker trivial
  · rename_i last hread
    split
    · exact h.setWorker trivial
    · rename_i hdue
      have hdue := Bool.eq_false_of_not_eq_true hdue
      refine h.setWorker ⟨hasked, Nat.le_refl _, fun f hf _ => ?_⟩
      have hlets : s.letsThrough m asked force read = true := by
        unfold letsThrough
        rw [hread, Option.any_some, hdue]
        rfl
      rw [hlets] at htold
      exact toldOf_old h hread hdue (List.all_eq_true.mp htold f hf)

/-- The fetch that starts is the first since its worker was let through, so it starts a gap after
every other. -/
theorem Sound.startFetch (h : s.Sound) {asked seen : ℕ} {force : Bool}
    (hstage : s.StageSound (.refreshing asked force seen)) (hseen : s.fetches.length = seen) :
    (s.startFetch p force).Sound := by
  obtain ⟨hasked, -, hold⟩ := hstage
  have hgap : ∀ f ∈ s.fetches, f.started + gap f.force force ≤ s.now := fun f hf =>
    (hold f hf (hseen ▸ h.ids f hf)).trans hasked
  unfold CostReads.startFetch
  refine Sound.setWorker (s := _) ?_ trivial
  refine ⟨fun q => ?_, fun f hf => ?_, h.stored, ?_, ?_⟩
  · have hq := h.stages q
    dsimp only
    cases hstage : s.workers q with
    | refreshing asked force seen =>
      rw [hstage] at hq
      refine ⟨hq.1, Nat.le_succ_of_le hq.2.1, fun f hf hlt => ?_⟩
      cases hf with
      | head => exact absurd hq.2.1 (Nat.not_le_of_gt hlt)
      | tail _ hmem => exact hq.2.2 f hmem hlt
    | looping asked force =>
      rw [hstage] at hq
      exact hq
    | _ => trivial
  · cases hf with
    | head => exact Nat.lt_succ_self _
    | tail _ hmem => exact Nat.lt_succ_of_lt (h.ids f hmem)
  · refine Spaced.cons h.all fun t ht => ?_
    obtain ⟨f, hf, rfl⟩ := List.mem_map.mp ht
    exact (Nat.add_le_add_left (minAge_true_le f.force force) _).trans (hgap f hf)
  · cases force with
    | true => exact h.scheduled
    | false =>
      refine Spaced.cons h.scheduled fun t ht => ?_
      obtain ⟨f, hf, rfl⟩ := List.mem_map.mp ht
      obtain ⟨hf, hforce⟩ := List.mem_filter.mp hf
      have := hgap f hf
      rwa [(Bool.not_eq_true' _).mp hforce] at this

theorem Sound.commitLog (h : s.Sound) (call : Option ℕ) (fetchedAt : ℕ) (ok : Bool) :
    (s.commitLog p call fetchedAt ok).Sound := by
  unfold CostReads.commitLog
  split
  · apply Sound.setWorker
    · refine ⟨h.stages, h.ids, fun i w hw => ?_, h.all, h.scheduled⟩
      cases call with
      | none => exact List.mem_cons_of_mem _ (h.stored i w hw)
      | some j =>
        dsimp only at hw
        by_cases hij : i = j
        · subst hij
          rw [Function.update_self] at hw
          exact Option.some.inj hw ▸ List.mem_cons_self
        · rw [Function.update_of_ne hij] at hw
          exact List.mem_cons_of_mem _ (h.stored i w hw)
    · trivial
  · exact h.setWorker trivial

theorem Sound.step (h : s.Sound) (hstep : s.step m act = some s')
    (hknows : s.loggedInTime m act = true) : s'.Sound := by
  cases act with
  | elapse d =>
    obtain rfl := Option.some.inj hstep
    exact ⟨fun p => (h.stages p).elapse d, h.ids, h.stored, h.all, h.scheduled⟩
  | refreshDue p force =>
    simp only [CostReads.step] at hstep
    split at hstep
    · obtain rfl := Option.some.inj hstep
      refine h.setWorker ?_
      exact Nat.le_refl s.now
    · cases hstep
  | checkAccount p read =>
    have hp := h.stages p
    simp only [CostReads.step] at hstep
    simp only [loggedInTime] at hknows
    cases hstage : s.workers p with
    | looping asked force =>
      simp only [hstage] at hp hstep hknows
      obtain rfl := Option.some.inj hstep
      exact h.checkAccount hp hknows
    | _ => simp [hstage] at hstep
  | startFetch p =>
    have hp := h.stages p
    simp only [CostReads.step] at hstep
    simp only [loggedInTime] at hknows
    cases hstage : s.workers p with
    | refreshing asked force seen =>
      simp only [hstage] at hp hstep hknows
      obtain rfl := Option.some.inj hstep
      exact h.startFetch hp (of_decide_eq_true hknows)
    | _ => simp [hstage] at hstep
  | insertLog p ok =>
    have hsound : ∀ call, (s.insertLog p call ok).Sound := fun call => by
      cases ok <;> exact h.setWorker trivial
    simp only [CostReads.step] at hstep
    split at hstep
    · exact Option.some.inj hstep ▸ hsound none
    · exact Option.some.inj hstep ▸ hsound _
    · cases hstep
  | commitLog p ok =>
    simp only [CostReads.step] at hstep
    split at hstep
    · rename_i call fetchedAt _
      exact Option.some.inj hstep ▸ h.commitLog call fetchedAt ok
    · cases hstep
  | leave p =>
    obtain rfl := Option.some.inj hstep
    exact h.setWorker trivial

theorem sound_start : start.Sound :=
  ⟨fun _ => trivial, nofun, nofun, List.IsChain.nil, List.IsChain.nil⟩

/-- In a run whose checks are told of the fetches before, the reads are rationed. -/
theorem paid_reads_rationed {tr : List RefreshAct}
    (run : Steps (Guarded (Takes (step m)) fun s act => s.loggedInTime m act = true) start tr s) :
    s.Rationed :=
  (run.stable (P := Sound) sound_start fun _ _ _ h hstep => h.step hstep.2 hstep.1).rationed

/-- A scheduled refresh and a manual one an hour later, each of them logged. -/
theorem paid_reads_rationed_twice : ∃ tr s, Steps (Guarded (Takes (step .costExplorer))
      fun s act => s.loggedInTime .costExplorer act = true) start tr s ∧
    s.fetches.length = 2 ∧ s.Rationed := by
  obtain ⟨s, run, -, hp⟩ := exists_play
    (gated (step .costExplorer) fun s act => s.loggedInTime .costExplorer act = true) start
    [.refreshDue 0 false, .checkAccount 0 true, .startFetch 0, .insertLog 0 true, .commitLog 0 true,
      .leave 0, .elapse (minAge true), .refreshDue 1 true, .checkAccount 1 true, .startFetch 1]
    (fun s => decide (s.fetches.length = 2)) (by decide)
  have guarded := run.mono fun _ _ _ => gated_guarded
  exact ⟨_, s, guarded, of_decide_eq_true hp, paid_reads_rationed guarded⟩

/-- A worker asked for a manual refresh checks while another worker's scheduled fetch is under
way. -/
theorem reads_overlap : ∃ tr s, Steps (Takes (step .costExplorer)) start tr s ∧
    s.fetches.map CostFetch.started = [5, 0] ∧ ¬ s.Rationed := by
  obtain ⟨s, run, -, hp⟩ := exists_play (step .costExplorer) start
    [.refreshDue 0 false, .checkAccount 0 true, .startFetch 0, .elapse 5, .refreshDue 1 true,
      .checkAccount 1 true, .startFetch 1]
    (fun s => decide (s.fetches.map CostFetch.started = [5, 0])) (by decide)
  have hstarts := of_decide_eq_true hp
  refine ⟨_, s, run, hstarts, fun hrationed => ?_⟩
  have hspaced := hrationed.all
  rw [hstarts] at hspaced
  exact absurd hspaced (by decide)

end CostReads

end MonitoringHub.Cost
