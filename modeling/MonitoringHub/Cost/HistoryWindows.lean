import MonitoringHub.Lib.StepRun
import MonitoringHub.Lib.Windows
import Mathlib.Data.Int.Order.Basic

/-! Which days of one account's billed cost have been read. A refresh reads a window of days that
ends with the day it runs on; a long one first, short ones once the log has a long one. -/

namespace MonitoringHub.Cost
open Lib

def backfillDays : ℕ := 90
def refreshDays : ℕ := 14

inductive Provider
  | aws | azure | gcp
  deriving DecidableEq

inductive CostStatus
  | ok | permissionMissing | notEnabled | notConfigured | error
  deriving DecidableEq

/-- The cloud has so many pages, or the refresh ends with another status. -/
inductive CostAnswer
  | pages (n : ℕ)
  | raised (status : CostStatus)

/-- A row of the fetch log. The day, the days asked for and whether every page was read are for
the statements. -/
structure FetchLogRow where
  status : CostStatus
  windowDays : Option ℕ
  day : ℤ
  days : ℕ
  complete : Bool

def FetchLogRow.Ok (r : FetchLogRow) : Prop := r.status = .ok

instance (r : FetchLogRow) : Decidable r.Ok := inferInstanceAs (Decidable (r.status = .ok))

/-- The days asked for, both ends included. -/
def FetchLogRow.window (r : FetchLogRow) : Window ℤ :=
  ⟨r.day - r.days, r.day, Int.sub_le_self _ (Int.natCast_nonneg _)⟩

/-- The log, newest row first. -/
structure CostHistory where
  today : ℤ
  log : List FetchLogRow

/-- `read` and `saved` say whether `_backfilled` and `_save` succeed. -/
inductive HistoryAct
  | elapse (days : ℕ)
  | refreshAccount (read : Bool) (answer : CostAnswer) (saved : Bool)

/-- The pages read at most: of Azure always as many, of AWS more for a long window. -/
def Provider.maxPages (p : Provider) (window : ℕ) : Option ℕ :=
  match p with
  | .aws => some (if window = refreshDays then 5 else 12)
  | .azure => some 12
  | .gcp => none

def Provider.truncated (p : Provider) (window pages : ℕ) : Bool :=
  (p.maxPages window).any fun limit => limit < pages

/-- Of the two that stop at a page limit only AWS says so. -/
def Provider.statusOf (p : Provider) (window pages : ℕ) : CostStatus :=
  match p with
  | .aws => if p.truncated window pages then .error else .ok
  | .azure => .ok
  | .gcp => .ok

namespace CostHistory

def start (today : ℤ) : CostHistory := ⟨today, []⟩

def okRows (s : CostHistory) : List FetchLogRow := s.log.filter fun r => r.Ok

def backfilled (s : CostHistory) (read : Bool) : Bool :=
  read && (s.okRows.filterMap FetchLogRow.windowDays).max?.any fun w => backfillDays ≤ w

def windowFor (s : CostHistory) (read : Bool) : ℕ :=
  if s.backfilled read then refreshDays else backfillDays

def logged (s : CostHistory) (window : ℕ) (status : CostStatus) (complete : Bool) : FetchLogRow :=
  ⟨status, if status = .ok then some window else none, s.today, window, complete⟩

def refreshAccount (s : CostHistory) (p : Provider) (read : Bool) : CostAnswer → Option FetchLogRow
  | .pages n => some (s.logged (s.windowFor read) (p.statusOf (s.windowFor read) n)
      (!p.truncated (s.windowFor read) n))
  | .raised .ok => none
  | .raised status => some (s.logged (s.windowFor read) status false)

def step (p : Provider) (s : CostHistory) : HistoryAct → Option CostHistory
  | .elapse days => some { s with today := s.today + days }
  | .refreshAccount read answer saved => (s.refreshAccount p read answer).map fun r =>
    if saved then { s with log := r :: s.log } else s

/-- Every day from the start of the first successful window to the newest successful refresh has
been read. -/
def NoHoles (s : CostHistory) : Prop :=
  ∀ newest first, s.okRows.head? = some newest → s.okRows.getLast? = some first →
    ∀ d, first.window.opens ≤ d → d ≤ newest.day →
      ∃ r ∈ s.okRows, r.complete = true ∧ r.window.Holds d

/-- A refresh that is recorded as successful and read every page comes at most 15 days after the
last successful one, 91 where it could not ask whether there was one; one that did not read every
page repeats a day that has been read. -/
def InReach (p : Provider) (s : CostHistory) : HistoryAct → Prop
  | .refreshAccount read (.pages n) true =>
    let window := s.windowFor read
    p.statusOf window n = .ok →
      if p.truncated window n then ∃ last, s.okRows.head? = some last ∧ s.today ≤ last.day
      else ∀ last, s.okRows.head? = some last →
        s.today ≤ last.day + 1 + (if read then refreshDays else backfillDays : ℕ)
  | _ => True

/-- The days of the rows do not decrease, and the log has a long window once it has any. -/
structure Sound (s : CostHistory) : Prop where
  past : ∀ r ∈ s.okRows, r.day ≤ s.today
  sorted : s.okRows.Pairwise fun newer older => older.day ≤ newer.day
  long : s.okRows ≠ [] → ∃ r ∈ s.okRows, r.windowDays = some backfillDays

variable {p : Provider} {s s' : CostHistory} {act : HistoryAct} {read : Bool} {r : FetchLogRow}

theorem windowFor_sound (h : s.Sound) (hne : s.okRows ≠ []) :
    s.windowFor read = if read then refreshDays else backfillDays := by
  unfold windowFor backfilled
  cases read with
  | false => rfl
  | true =>
    obtain ⟨r, hr, hwindow⟩ := h.long hne
    have hmem : backfillDays ∈ s.okRows.filterMap FetchLogRow.windowDays :=
      List.mem_filterMap.mpr ⟨r, hr, hwindow⟩
    obtain ⟨w, hw⟩ := Option.isSome_iff_exists.mp (List.isSome_max?_of_mem hmem)
    have hle := (List.max?_eq_some_iff.mp hw).2 _ hmem
    rw [hw, Option.any_some, Bool.true_and, if_pos (decide_eq_true hle), if_pos rfl]

theorem windowFor_first (hnil : s.okRows = []) : s.windowFor read = backfillDays := by
  unfold windowFor backfilled
  rw [hnil]
  simp

theorem okRows_cons (s : CostHistory) (hr : r.Ok) :
    okRows { s with log := r :: s.log } = r :: s.okRows :=
  List.filter_cons_of_pos (decide_eq_true hr)

theorem okRows_cons_other (s : CostHistory) (hr : ¬ r.Ok) :
    okRows { s with log := r :: s.log } = s.okRows :=
  List.filter_cons_of_neg fun h => hr (of_decide_eq_true h)

theorem noHoles_congr (h : s'.okRows = s.okRows) : s'.NoHoles ↔ s.NoHoles := by
  unfold NoHoles
  rw [h]

/-- The first successful row leaves no hole if it is complete. -/
theorem noHoles_first (hrows : s'.okRows = [r]) : s'.NoHoles ↔ r.complete = true := by
  unfold NoHoles
  rw [hrows]
  constructor
  · intro hall
    obtain ⟨r', hr', hcomplete, -⟩ := hall r r rfl rfl r.day r.window.opens_le_closes le_rfl
    obtain rfl := List.mem_singleton.mp hr'
    exact hcomplete
  · intro hcomplete newest first hnewest hfirst d hlo hhi
    obtain rfl := Option.some.inj hnewest
    obtain rfl := Option.some.inj hfirst
    exact ⟨r, List.mem_singleton_self r, hcomplete, hlo, hhi⟩

section Later
variable {last : FetchLogRow} {older : List FetchLogRow}

theorem day_le_last (h : s.Sound) (hrows : s.okRows = last :: older) (hr : r ∈ s.okRows) :
    r.day ≤ last.day := by
  rw [hrows] at hr
  cases hr with
  | head => exact le_rfl
  | tail _ hmem => exact (List.pairwise_cons.mp (hrows ▸ h.sorted)).1 r hmem

/-- A later row leaves the first one where it is. -/
theorem exists_first (hrows : s.okRows = last :: older) (hnew : s'.okRows = r :: s.okRows) :
    ∃ first ∈ s.okRows, s.okRows.getLast? = some first ∧ s'.okRows.getLast? = some first := by
  have hne : s.okRows ≠ [] := hrows ▸ List.cons_ne_nil _ _
  obtain ⟨first, hfirst⟩ := Option.isSome_iff_exists.mp (List.getLast?_isSome.mpr hne)
  refine ⟨first, List.mem_of_getLast? hfirst, hfirst, ?_⟩
  rw [hnew, hrows, List.getLast?_cons_cons, ← hrows, hfirst]

/-- The days up to the newest row stay read. -/
theorem NoHoles.later (hold : s.NoHoles) (hrows : s.okRows = last :: older)
    (hnew : s'.okRows = r :: s.okRows) {first : FetchLogRow}
    (hfirst : s'.okRows.getLast? = some first) {d : ℤ} (hlo : first.window.opens ≤ d)
    (hd : d ≤ last.day) : ∃ v ∈ s'.okRows, v.complete = true ∧ v.window.Holds d := by
  rw [hnew, hrows, List.getLast?_cons_cons, ← hrows] at hfirst
  obtain ⟨v, hv, hread⟩ := hold last first (by rw [hrows]; rfl) hfirst d hlo hd
  exact ⟨v, hnew ▸ List.mem_cons_of_mem _ hv, hread⟩

/-- A later row reaches from the newest one on, or leaves the day after it unread. -/
theorem noHoles_complete (h : s.Sound) (hold : s.NoHoles) (hrows : s.okRows = last :: older)
    (hnew : s'.okRows = r :: s.okRows) (hcomplete : r.complete = true) :
    s'.NoHoles ↔ r.window.opens ≤ last.day + 1 := by
  constructor
  · intro hall
    by_contra hgap
    obtain ⟨first, hmem, -, hlast⟩ := exists_first hrows hnew
    have hfirstDay := day_le_last h hrows hmem
    have hopens := first.window.opens_le_closes
    have hcloses := r.window.opens_le_closes
    obtain ⟨v, hv, -, hlo, hhi⟩ := hall r first (by rw [hnew]; rfl) hlast (last.day + 1)
      (by change first.window.opens ≤ first.day at hopens; omega)
      (by change r.window.opens ≤ r.day at hcloses; omega)
    rw [hnew] at hv
    cases hv with
    | head => exact hgap hlo
    | tail _ hmem =>
      have hday := day_le_last h hrows hmem
      change last.day + 1 ≤ v.day at hhi
      omega
  · intro hreach newest first hnewest hfirst d hlo hhi
    by_cases hd : d ≤ last.day
    · exact hold.later hrows hnew hfirst hlo hd
    · rw [hnew] at hnewest
      obtain rfl := Option.some.inj hnewest
      refine ⟨r, hnew ▸ List.mem_cons_self, hcomplete, ?_, hhi⟩
      omega

/-- A later row that did not read every page adds no day. -/
theorem noHoles_incomplete (h : s.Sound) (hold : s.NoHoles) (hrows : s.okRows = last :: older)
    (hnew : s'.okRows = r :: s.okRows) (hday : r.day = s.today) (hcut : r.complete = false) :
    s'.NoHoles ↔ s.today ≤ last.day := by
  constructor
  · intro hall
    obtain ⟨first, hmem, -, hlast⟩ := exists_first hrows hnew
    have hfirstDay := h.past first hmem
    have hopens : first.window.opens ≤ first.day := first.window.opens_le_closes
    obtain ⟨v, hv, hread, -, hhi⟩ := hall r first (by rw [hnew]; rfl) hlast s.today
      (hopens.trans hfirstDay) hday.ge
    rw [hnew] at hv
    cases hv with
    | head =>
      rw [hcut] at hread
      cases hread
    | tail _ hmem => exact le_trans hhi (day_le_last h hrows hmem)
  · intro hsame newest first hnewest hfirst d hlo hhi
    rw [hnew] at hnewest
    obtain rfl := Option.some.inj hnewest
    exact hold.later hrows hnew hfirst hlo (by omega)

end Later

/-- A row recorded as successful answers a read that raised nothing. -/
theorem refreshAccount_ok {answer : CostAnswer} (h : s.refreshAccount p read answer = some r)
    (hr : r.Ok) : ∃ n, answer = .pages n ∧ p.statusOf (s.windowFor read) n = .ok ∧
      r = ⟨.ok, some (s.windowFor read), s.today, s.windowFor read,
        !p.truncated (s.windowFor read) n⟩ := by
  cases answer with
  | pages n =>
    obtain rfl := Option.some.inj h
    have hstatus : p.statusOf (s.windowFor read) n = .ok := hr
    refine ⟨n, rfl, hstatus, ?_⟩
    unfold logged
    rw [hstatus, if_pos rfl]
  | raised status =>
    cases status with
    | ok => cases h
    | _ =>
      obtain rfl := Option.some.inj h
      cases hr

theorem Sound.cons (h : s.Sound) {n : ℕ} (hok : r = ⟨.ok, some (s.windowFor read), s.today,
      s.windowFor read, !p.truncated (s.windowFor read) n⟩) :
    Sound { s with log := r :: s.log } := by
  have hr : r.Ok := by rw [hok]; rfl
  have hday : r.day = s.today := by rw [hok]
  have hrows := okRows_cons s hr
  refine ⟨?_, ?_, fun _ => ?_⟩
  · rw [hrows]
    intro v hv
    cases hv with
    | head => exact hday.le
    | tail _ hmem => exact h.past v hmem
  · rw [hrows]
    exact List.pairwise_cons.mpr ⟨fun v hv => (h.past v hv).trans hday.ge, h.sorted⟩
  · rw [hrows]
    by_cases hnil : s.okRows = []
    · refine ⟨r, List.mem_cons_self, ?_⟩
      rw [hok, windowFor_first hnil]
    · obtain ⟨v, hv, hwindow⟩ := h.long hnil
      exact ⟨v, List.mem_cons_of_mem _ hv, hwindow⟩

theorem Sound.of_okRows (h : s.Sound) (hrows : s'.okRows = s.okRows) (htoday : s.today ≤ s'.today) :
    s'.Sound := by
  refine ⟨?_, ?_, ?_⟩
  · rw [hrows]
    exact fun r hr => (h.past r hr).trans htoday
  · rw [hrows]
    exact h.sorted
  · rw [hrows]
    exact h.long

theorem Sound.step (h : s.Sound) (hstep : s.step p act = some s') : s'.Sound := by
  cases act with
  | elapse days =>
    obtain rfl := Option.some.inj hstep
    exact h.of_okRows rfl (Int.le_add_of_nonneg_right (Int.natCast_nonneg days))
  | refreshAccount read answer saved =>
    obtain ⟨r, hr, rfl⟩ := Option.map_eq_some_iff.mp hstep
    cases saved with
    | false => exact h
    | true =>
      by_cases hok : r.Ok
      · obtain ⟨n, -, -, hrow⟩ := refreshAccount_ok hr hok
        exact h.cons hrow
      · exact h.of_okRows (okRows_cons_other s hok) le_rfl

/-- A window asked for with the log at hand reaches back over the last successful row, or not. -/
theorem noHoles_recorded (h : s.Sound) (hold : s.NoHoles) {cut : Bool}
    (hrow : r = ⟨.ok, some (s.windowFor read), s.today, s.windowFor read, !cut⟩) :
    NoHoles { s with log := r :: s.log } ↔
      if cut then ∃ last, s.okRows.head? = some last ∧ s.today ≤ last.day
      else ∀ last, s.okRows.head? = some last →
        s.today ≤ last.day + 1 + (if read then refreshDays else backfillDays : ℕ) := by
  have hr : r.Ok := by rw [hrow]; rfl
  have hcomplete : r.complete = !cut := by rw [hrow]
  have hday : r.day = s.today := by rw [hrow]
  have hopens : r.window.opens = s.today - s.windowFor read := by rw [hrow]; rfl
  have hnew := okRows_cons s hr
  cases hrows : s.okRows with
  | nil =>
    rw [hrows] at hnew
    rw [noHoles_first hnew, hcomplete]
    cases cut with
    | true => simp
    | false => simp
  | cons last older =>
    have hwindow : s.windowFor read = if read then refreshDays else backfillDays :=
      windowFor_sound h (by rw [hrows]; exact List.cons_ne_nil _ _)
    cases cut with
    | true =>
      rw [noHoles_incomplete h hold hrows hnew hday hcomplete]
      simp
    | false =>
      have hreach : ∀ w : ℤ, s.today - w ≤ last.day + 1 ↔ s.today ≤ last.day + 1 + w :=
        fun w => by omega
      rw [noHoles_complete h hold hrows hnew hcomplete, hopens, hwindow, hreach]
      simp

theorem noHoles_step (h : s.Sound) (hold : s.NoHoles) (hstep : s.step p act = some s') :
    s'.NoHoles ↔ s.InReach p act := by
  cases act with
  | elapse days =>
    obtain rfl := Option.some.inj hstep
    exact iff_of_true hold trivial
  | refreshAccount read answer saved =>
    obtain ⟨r, hr, rfl⟩ := Option.map_eq_some_iff.mp hstep
    cases saved with
    | false => cases answer <;> exact iff_of_true hold trivial
    | true =>
      by_cases hok : r.Ok
      · obtain ⟨n, rfl, hstatus, hrow⟩ := refreshAccount_ok hr hok
        rw [if_pos rfl, noHoles_recorded h hold hrow]
        exact ⟨fun hin _ => hin, fun hin => hin hstatus⟩
      · refine iff_of_true ((noHoles_congr (okRows_cons_other s hok)).mpr hold) ?_
        cases answer with
        | pages n =>
          obtain rfl := Option.some.inj hr
          exact fun hstatus => absurd hstatus hok
        | raised status => trivial

theorem sound_start (today : ℤ) : (start today).Sound :=
  ⟨fun _ hr => (List.not_mem_nil hr).elim, List.Pairwise.nil, fun hne => absurd rfl hne⟩

theorem noHoles_start (today : ℤ) : (start today).NoHoles := by
  intro newest first hnewest
  have hnil : (start today).okRows = [] := rfl
  rw [hnil] at hnewest
  cases hnewest

/-- The runs without a hole after any successful refresh are those in which every recorded one
meets `InReach`. -/
theorem no_holes_iff (p : Provider) (today : ℤ) (tr : List HistoryAct) (s : CostHistory) :
    Steps (Keeping (Takes (step p)) NoHoles) (start today) tr s ↔
      Steps (Guarded (Takes (step p)) (InReach p)) (start today) tr s :=
  Steps.keeping_iff (I := Sound) (sound_start today) (noHoles_start today)
    (fun _ _ _ h hstep => h.step hstep) fun _ _ _ h hold hstep => noHoles_step h hold hstep

/-- An account without a successful read for 20 days: the 14 days of the next one leave days 91
to 95 unread. -/
theorem outage_leaves_hole : ∃ tr s, Steps (Takes (step .aws)) (start 90) tr s ∧
    (∃ r older, s.okRows = r :: older ∧ r.day = 110) ∧ ¬ s.NoHoles := by
  obtain ⟨s, run, -, hp⟩ := exists_play (step .aws) (start 90)
    [.refreshAccount true (.pages 1) true, .elapse 20, .refreshAccount true (.pages 1) true]
    (fun s => s.okRows.map (fun r => (r.day, r.days, r.complete)) =
      [(110, 14, true), (90, 90, true)]) (by decide)
  have hrows := of_decide_eq_true hp
  obtain ⟨r, older, hs, hr, hrest⟩ := List.map_eq_cons_iff.mp hrows
  obtain ⟨first, rest, rfl, hfirst, hnil⟩ := List.map_eq_cons_iff.mp hrest
  obtain rfl := List.map_eq_nil_iff.mp hnil
  simp only [Prod.mk.injEq] at hr hfirst
  refine ⟨_, s, run, ⟨r, _, hs, hr.1⟩, fun hholes => ?_⟩
  obtain ⟨v, hv, -, hlo, hhi⟩ := hholes r first (by rw [hs]; rfl) (by rw [hs]; rfl) 93
    (by simp [FetchLogRow.window, hfirst.1, hfirst.2.1]) (by rw [hr.1]; decide)
  rw [hs] at hv
  simp only [FetchLogRow.window] at hlo hhi
  rcases List.mem_cons.mp hv with rfl | hv
  · rw [hr.1, hr.2.1] at hlo
    exact absurd hlo (by decide)
  · obtain rfl := List.mem_singleton.mp hv
    rw [hfirst.1] at hhi
    exact absurd hhi (by decide)

end CostHistory

end MonitoringHub.Cost
