import MonitoringHub.Synthetic.CheckMonitor

/-! Probes against edits. Any number of probes are under way, each with the row it read when it
was started; a commit compares values, and an edit that sets a field back to what a probe read
looks to it as if there had been none. Which edits reset a streak, and which results of older
probes were stored, is kept beside the tables; nothing in the code reads it. -/

namespace MonitoringHub.Synthetic
open Lib Lib.KeyedStore Lib.RowTable

/-- A probe, with the resets of its check before it was started. -/
structure Flight where
  checkId : ℕ
  read : Check
  resetsSeen : ℕ
  running : Bool
  deriving DecidableEq, Repr

structure ProbeRace where
  monitor : Monitor
  flights : List Flight
  resets : List ℕ
  overwritten : List Flight
  deriving DecidableEq, Repr

inductive RaceAct
  | edit (e : Event)
  | start (id : ℕ)
  | commit (i : ℕ) (success : Bool)
  | die (i : ℕ)
  deriving DecidableEq, Repr

/-- What people do, as against what the process that probes does. -/
def Event.isEdit : Event → Bool
  | .create _ _ _ | .patch _ _ | .delete _ | .acknowledge _ | .resolve _ => true
  | .readDue _ | .probe _ | .skip | .abandon => false

/-- The check whose streak an edit resets. -/
def Event.reset : Event → Option ℕ
  | .patch id p => if p.probeAffecting then some id else none
  | _ => none

/-- What a probe can change of its check. -/
def Monitor.outcome (m : Monitor) (id : ℕ) :
    Option (ℕ × CheckStatus) × List UptimeAlert :=
  ((find id m.checks).map fun c => (c.consecutiveFailures, c.currentStatus),
    m.alerts.filter fun a => a.checkId = id)

namespace ProbeRace

def empty : ProbeRace := ⟨.start, [], [], []⟩

/-- An edit has reset the streak since the probe was started. -/
def stale (s : ProbeRace) (f : Flight) : Bool := decide (f.resetsSeen < s.resets.count f.checkId)

def finish (s : ProbeRace) (i : ℕ) : ProbeRace :=
  { s with flights := modifyAt i (fun f => { f with running := false }) s.flights }

/-- The row the result goes to, if it is as it was read. -/
def accepted (collate : String → String) (s : ProbeRace) (f : Flight) : Option Check :=
  (find f.checkId s.monitor.checks).filter fun current => unchangedSinceRead collate current f.read

def commit (collate : String → String) (s : ProbeRace) (i : ℕ) (f : Flight) (success : Bool) :
    ProbeRace :=
  match s.accepted collate f with
  | none => s.finish i
  | some current =>
    let monitor := s.monitor.commitProbe f.checkId current f.read success
    { s.finish i with
      monitor := monitor
      overwritten :=
        if s.stale f && decide (monitor.outcome f.checkId ≠ s.monitor.outcome f.checkId) then
          f :: s.overwritten
        else s.overwritten }

def step (collate : String → String) (s : ProbeRace) : RaceAct → Option ProbeRace
  | .edit e =>
    if e.isEdit then (s.monitor.step collate e).map fun monitor =>
      { s with monitor := monitor, resets := e.reset.toList ++ s.resets }
    else none
  | .start id => ((find id s.monitor.checks).filter fun c => c.enabled).map fun c =>
      { s with flights := s.flights ++ [⟨id, c, s.resets.count id, true⟩] }
  | .commit i success => (s.flights[i]?).bind fun f =>
      if f.running then some (s.commit collate i f success) else none
  | .die i => (s.flights[i]?).bind fun f => if f.running then some (s.finish i) else none

/-- A probe that is older than the last reset meets other settings, or no enabled check. -/
def SettingsDiffer (collate : String → String) (s : ProbeRace) : RaceAct → Prop
  | .commit i _ => ∀ f current, s.flights[i]? = some f → s.stale f = true →
      find f.checkId s.monitor.checks = some current →
      unchangedSinceRead collate current f.read = false
  | _ => True

section Commits
variable {collate : String → String} {s : ProbeRace} {i : ℕ} {f : Flight} {success : Bool}

theorem accepted_eq_none (h : ∀ current, find f.checkId s.monitor.checks = some current →
    unchangedSinceRead collate current f.read = false) : s.accepted collate f = none := by
  rw [accepted, Option.filter_eq_none_iff]
  intro current hfound
  simp [h current hfound]

/-- Only an old probe whose result is accepted is recorded. -/
theorem overwritten_commit (h : s.stale f = true → s.accepted collate f = none) :
    (s.commit collate i f success).overwritten = s.overwritten := by
  unfold commit
  split
  · rfl
  · rename_i current haccepted
    by_cases hstale : s.stale f = true
    · rw [h hstale] at haccepted
      cases haccepted
    · exact if_neg (by simp [hstale])

/-- A failure that is accepted after the reset starts the streak again. -/
theorem overwrites {current : Check} (hfound : find f.checkId s.monitor.checks = some current)
    (hstale : s.stale f = true) (hsame : unchangedSinceRead collate current f.read = true)
    (hreset : current.consecutiveFailures = 0) :
    (s.commit collate i f false).overwritten = f :: s.overwritten := by
  have haccepted : s.accepted collate f = some current := by
    rw [accepted, hfound]
    exact Option.filter_eq_some_iff.mpr ⟨rfl, hsame⟩
  have hchanged : (s.monitor.commitProbe f.checkId current f.read false).outcome f.checkId ≠
      s.monitor.outcome f.checkId := by
    intro heq
    have hstreak := congrArg (fun o => o.1.map Prod.fst) heq
    simp [Monitor.outcome, Monitor.commitProbe, find_write, hfound, newFailures, hreset]
      at hstreak
  rw [commit, haccepted]
  exact if_pos (by simp [hstale, hchanged])

end Commits

end ProbeRace

section Runs
variable {collate : String → String} {s : ProbeRace} {tr : List RaceAct}

/-- Where every old probe meets other settings, none has changed what a reset left: neither the
streak nor the status nor an alert. -/
theorem nothing_overwritten (run : Steps
    (Guarded (Takes (ProbeRace.step collate)) (ProbeRace.SettingsDiffer collate)) .empty tr s) :
    s.overwritten = [] := by
  refine run.stable (P := fun s => s.overwritten = []) rfl ?_
  rintro t a u hnone ⟨hdiffer, hstep⟩
  cases a with
  | edit e =>
    obtain ⟨-, hstep⟩ := Option.ite_none_right_eq_some.mp hstep
    obtain ⟨m, -, rfl⟩ := Option.map_eq_some_iff.mp hstep
    exact hnone
  | start id =>
    obtain ⟨c, -, rfl⟩ := Option.map_eq_some_iff.mp hstep
    exact hnone
  | commit i success =>
    obtain ⟨f, hf, hstep⟩ := Option.bind_eq_some_iff.mp hstep
    obtain ⟨-, hstep⟩ := Option.ite_none_right_eq_some.mp hstep
    obtain rfl := Option.some.inj hstep
    rw [ProbeRace.overwritten_commit fun hstale =>
      ProbeRace.accepted_eq_none fun current => hdiffer f current hf hstale]
    exact hnone
  | die i =>
    obtain ⟨f, -, hstep⟩ := Option.bind_eq_some_iff.mp hstep
    obtain ⟨-, hstep⟩ := Option.ite_none_right_eq_some.mp hstep
    obtain rfl := Option.some.inj hstep
    exact hnone

/-- In a run in which every old probe meets other settings nothing an edit reset is overwritten;
and an old probe that fails, with the settings as it read them and the streak still reset,
overwrites it. -/
theorem stale_probes (run : Steps (Takes (ProbeRace.step collate)) .empty tr s) :
    (Steps (Guarded (Takes (ProbeRace.step collate)) (ProbeRace.SettingsDiffer collate))
      .empty tr s → s.overwritten = []) ∧
    ∀ (i : ℕ) (f : Flight) (current : Check), s.flights[i]? = some f → f.running = true →
      s.stale f = true → find f.checkId s.monitor.checks = some current →
      unchangedSinceRead collate current f.read = true → current.consecutiveFailures = 0 →
      ∃ t, Steps (Takes (ProbeRace.step collate)) .empty (.commit i false :: tr) t ∧
        f ∈ t.overwritten := by
  refine ⟨nothing_overwritten, fun i f current hf hrunning hstale hfound hsame hreset => ?_⟩
  have hstep : s.step collate (.commit i false) = some (s.commit collate i f false) := by
    simp [ProbeRace.step, hf, hrunning]
  refine ⟨_, run.snoc hstep, ?_⟩
  rw [ProbeRace.overwrites hfound hstale hsame hreset]
  exact List.mem_cons_self

end Runs

def website (target : String) : ProbeSettings := ⟨target, some 200, none, false, 10⟩

def CheckPatch.ofTarget (target : String) : CheckPatch :=
  ⟨some target, none, none, none, none, none, none⟩

/-- The target is moved away and back while a probe is under way, and the probe fails. -/
def awayAndBack : List RaceAct :=
  [.edit (.create (website "https://a.example") 1 true), .start 0,
    .edit (.patch 0 (.ofTarget "https://b.example")),
    .edit (.patch 0 (.ofTarget "https://a.example")), .commit 0 false]

theorem stale_probe_overwrites : ¬∀ (tr : List RaceAct) (s : ProbeRace),
    Steps (Takes (ProbeRace.step fun text => text)) .empty tr s → s.overwritten = [] := by
  intro h
  obtain ⟨s, run, -, hp⟩ := exists_play (ProbeRace.step fun text => text) .empty awayAndBack
    (fun s => decide (s.overwritten ≠ [])) (by decide +kernel)
  exact of_decide_eq_true hp (h _ s run)

instance (collate : String → String) (s : ProbeRace) (a : RaceAct) :
    Decidable (s.SettingsDiffer collate a) :=
  match a with
  | .commit i _ =>
    decidable_of_iff (∀ f ∈ s.flights[i]?, s.stale f = true →
      ∀ current ∈ find f.checkId s.monitor.checks, unchangedSinceRead collate current f.read = false)
      ⟨fun h f current hf hstale hfound => h f hf hstale current hfound,
        fun h f hf hstale current hfound => h f current hf hstale hfound⟩
  | .edit _ => .isTrue trivial
  | .start _ => .isTrue trivial
  | .die _ => .isTrue trivial

/-- The target is moved away: what the old probe saw is dropped. -/
theorem stale_probes_away : ∃ s : ProbeRace, s.resets = [0] ∧ s.overwritten = [] := by
  obtain ⟨s, run, -, hp⟩ := exists_play
    (gated (ProbeRace.step fun text => text) (ProbeRace.SettingsDiffer fun text => text)) .empty
    [.edit (.create (website "https://a.example") 1 true), .start 0,
      .edit (.patch 0 (.ofTarget "https://b.example")), .commit 0 false]
    (fun s => decide (s.resets = [0])) (by decide +kernel)
  have hguarded := run.mono fun _ _ _ => gated_guarded
  exact ⟨s, of_decide_eq_true hp, (stale_probes (Guarded.run hguarded)).1 hguarded⟩

end MonitoringHub.Synthetic
