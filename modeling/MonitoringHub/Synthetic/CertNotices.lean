import MonitoringHub.Lib.StepRun
import MonitoringHub.Lib.KeyedStore
import Mathlib.Data.Int.Notation

/-! The notices about one check's certificates. The state is a row for each certificate that was
announced, keyed by the day it expires on; a renewal deletes the rows of the older ones. Times
are whole seconds. -/

namespace MonitoringHub.Synthetic
open Lib KeyedStore

inductive CertStage
  | warn | crit | expired
  deriving DecidableEq

def CertStage.rank : CertStage → ℕ
  | .warn => 1
  | .crit => 2
  | .expired => 3

inductive CertAction
  | first | escalated | reminder
  deriving DecidableEq

/-- `SYNTHETIC_CERT_REMINDER_WARN_DAYS` and `SYNTHETIC_CERT_REMINDER_CRIT_DAYS`. -/
structure ReminderDays where
  warn : ℕ
  crit : ℕ

def ReminderDays.interval (r : ReminderDays) : CertStage → ℕ
  | .warn => r.warn * 86400
  | .crit => r.crit * 86400
  | .expired => r.crit * 86400

structure NoticeState where
  stage : CertStage
  lastSentAt : ℕ

/-- Where the database fails a probe, if it does. -/
inductive NoticeFailure
  | select | delete | insert | commit
  deriving DecidableEq

/-- A probe with a certificate: when it expires, the days left, the check's limits as they are
then, and how many messages each delivery gets out. -/
structure CertProbe where
  notAfter : ℕ
  daysLeft : ℤ
  warn : ℤ
  crit : ℤ
  silenced : Bool
  channels : ℕ
  contacts : ℕ
  renewalContacts : ℕ
  failure : Option NoticeFailure

structure CertNotice where
  action : CertAction
  key : ℕ
  stage : CertStage
  time : ℕ
  deriving DecidableEq

/-- What was sent is kept for the statements, newest first; of a renewal, the new certificate. -/
structure CertNotices where
  now : ℕ
  rows : List (ℕ × NoticeState)
  notices : List CertNotice
  renewals : List ℕ

inductive CertAct
  | elapse (d : ℕ)
  | probe (p : CertProbe)

def certStage (daysLeft warn crit : ℤ) : Option CertStage :=
  if daysLeft < 0 then some .expired
  else if daysLeft ≤ crit then some .crit
  else if daysLeft ≤ warn then some .warn
  else none

def certAction (r : ReminderDays) (prev : Option NoticeState) (stage : CertStage) (now : ℕ) :
    Option CertAction :=
  match prev with
  | none => some .first
  | some prev =>
    if prev.stage.rank < stage.rank then some .escalated
    else if stage.rank = prev.stage.rank ∧ prev.lastSentAt + r.interval stage ≤ now then
      some .reminder
    else none

/-- Reminders go to the check's contacts only. -/
def CertProbe.messages (p : CertProbe) (action : CertAction) : ℕ :=
  (if action = .reminder then 0 else p.channels) + p.contacts

namespace CertNotices
variable (r : ReminderDays)

def start : CertNotices := ⟨0, [], [], []⟩

def older (s : CertNotices) (p : CertProbe) : List (ℕ × NoticeState) :=
  s.rows.filter fun row => row.1 < p.notAfter

/-- The renewed notice gets out. -/
def Renews (s : CertNotices) (p : CertProbe) : Prop :=
  s.older p ≠ [] ∧ find p.notAfter s.rows = none ∧ p.silenced = false ∧ 0 < p.renewalContacts

instance (s : CertNotices) (p : CertProbe) : Decidable (s.Renews p) :=
  inferInstanceAs (Decidable (_ ∧ _))

/-- The stage and the action of a notice that gets out. -/
def delivered (s : CertNotices) (p : CertProbe) : Option (CertStage × CertAction) :=
  (certStage p.daysLeft p.warn p.crit).bind fun stage =>
    (certAction r (find p.notAfter s.rows) stage s.now).bind fun action =>
      if p.silenced = false ∧ 0 < p.messages action then some (stage, action) else none

/-- The all-clear of a renewal, and the rows it deletes. -/
def renewal (s : CertNotices) (p : CertProbe) : CertNotices :=
  if s.Renews p then
    { s with
      rows := dropWhere (fun key => key < p.notAfter) s.rows
      renewals := p.notAfter :: s.renewals }
  else s

/-- The other notice, and its row. -/
def announce (s : CertNotices) (p : CertProbe) : CertNotices :=
  match s.delivered r p with
  | none => s
  | some (stage, action) =>
    { s with
      rows := write p.notAfter ⟨stage, s.now⟩ s.rows
      notices := ⟨action, p.notAfter, stage, s.now⟩ :: s.notices }

/-- A failed statement ends the probe; what was sent stays sent, the rows are rolled back. -/
def onCertificate (s : CertNotices) (p : CertProbe) : CertNotices :=
  if p.failure = some .select then s
  else if s.Renews p ∧ p.failure = some .delete then { s.renewal p with rows := s.rows }
  else
    let done := (s.renewal p).announce r p
    if (s.delivered r p).isSome = true ∧ p.failure = some .insert ∨ p.failure = some .commit then
      { done with rows := s.rows }
    else done

def step (s : CertNotices) : CertAct → Option CertNotices
  | .elapse d => some { s with now := s.now + d }
  | .probe p => some (s.onCertificate r p)

/-- For each certificate every stage is announced at most once as first or escalated, its
reminders are their interval apart, and it is announced as a renewal at most once. -/
structure NoSpam (s : CertNotices) : Prop where
  announced : s.notices.Pairwise fun later earlier =>
    later.action ≠ .reminder → earlier.action ≠ .reminder →
    ¬ (later.key = earlier.key ∧ later.stage = earlier.stage)
  reminded : s.notices.Pairwise fun later earlier =>
    later.action = .reminder → earlier.action = .reminder →
    later.key = earlier.key → later.stage = earlier.stage →
    earlier.time + r.interval earlier.stage ≤ later.time
  renewed : s.renewals.Nodup

/-- What a probe sends it records, and it sends no notice of a certificate older than one whose
renewal was announced. -/
def InOrder (s : CertNotices) : CertAct → Prop
  | .elapse _ => True
  | .probe p => (s.Renews p → p.failure = none) ∧
    ((s.delivered r p).isSome = true → p.failure = none ∧ ∀ key ∈ s.renewals, key ≤ p.notAfter)

instance (s : CertNotices) (act : CertAct) : Decidable (s.InOrder r act) :=
  match act with
  | .elapse _ => isTrue trivial
  | .probe _ => inferInstanceAs (Decidable (_ ∧ _))

/-- A notice has a row at its stage or a later one, unless a renewal took the row; and a renewal
leaves no row of an older certificate. -/
structure Sound (s : CertNotices) : Prop where
  rowed : ∀ n ∈ s.notices, (∃ row, find n.key s.rows = some row ∧ n.stage.rank ≤ row.stage.rank ∧
      n.time ≤ row.lastSentAt) ∨ ∃ key ∈ s.renewals, n.key < key
  fresh : ∀ entry ∈ s.rows, ∀ key ∈ s.renewals, key ≤ entry.1
  past : ∀ entry ∈ s.rows, entry.2.lastSentAt ≤ s.now
  noSpam : s.NoSpam r

variable {r} {s s' : CertNotices} {p : CertProbe} {act : CertAct}

theorem certAction_again {prev : NoticeState} {stage : CertStage} {now : ℕ} {action : CertAction}
    (h : certAction r (some prev) stage now = some action) :
    prev.stage.rank ≤ stage.rank ∧
      (action = .escalated ∧ prev.stage.rank < stage.rank ∨
        action = .reminder ∧ prev.lastSentAt + r.interval stage ≤ now) := by
  simp only [certAction] at h
  split at h
  · rename_i hworse
    exact ⟨Nat.le_of_lt hworse, .inl ⟨(Option.some.inj h).symm, hworse⟩⟩
  · split at h
    · rename_i hsame
      exact ⟨Nat.le_of_eq hsame.1.symm, .inr ⟨(Option.some.inj h).symm, hsame.2⟩⟩
    · cases h

theorem delivered_some {stage : CertStage} {action : CertAction}
    (h : s.delivered r p = some (stage, action)) :
    certAction r (find p.notAfter s.rows) stage s.now = some action := by
  obtain ⟨stage', -, h⟩ := Option.bind_eq_some_iff.mp h
  obtain ⟨action', haction, h⟩ := Option.bind_eq_some_iff.mp h
  obtain ⟨-, h⟩ := Option.ite_none_right_eq_some.mp h
  obtain ⟨rfl, rfl⟩ := Prod.mk.inj (Option.some.inj h)
  exact haction

/-- A renewal leaves the row of the new certificate as it is. -/
theorem delivered_renewal (s : CertNotices) (p : CertProbe) :
    (s.renewal p).delivered r p = s.delivered r p := by
  have hfind : find p.notAfter (s.renewal p).rows = find p.notAfter s.rows := by
    unfold renewal
    split
    · dsimp only
      rw [find_dropWhere]
      simp
    · rfl
  have hnow : (s.renewal p).now = s.now := by
    unfold renewal
    split <;> rfl
  unfold delivered
  rw [hfind, hnow]

theorem Sound.renewal (h : s.Sound r) (p : CertProbe) : (s.renewal p).Sound r := by
  unfold CertNotices.renewal
  split
  · rename_i hrenews
    refine ⟨fun n hn => ?_, fun entry hentry key hkey => ?_, fun entry hentry => ?_, ?_⟩
    · rcases h.rowed n hn with ⟨row, hrow, hrank, htime⟩ | ⟨key, hkey, hlt⟩
      · by_cases hold : n.key < p.notAfter
        · exact .inr ⟨p.notAfter, List.mem_cons_self, hold⟩
        · refine .inl ⟨row, ?_, hrank, htime⟩
          dsimp only
          rw [find_dropWhere, if_neg (by simpa using hold), hrow]
      · exact .inr ⟨key, List.mem_cons_of_mem _ hkey, hlt⟩
    · obtain ⟨hmem, hkept⟩ := List.mem_filter.mp hentry
      cases hkey with
      | head => simpa using hkept
      | tail _ hkey => exact h.fresh entry hmem key hkey
    · exact h.past entry (List.mem_filter.mp hentry).1
    · refine ⟨h.noSpam.announced, h.noSpam.reminded, List.nodup_cons.mpr ⟨fun hmem => ?_,
        h.noSpam.renewed⟩⟩
      -- an older row was there, and none is older than an announced renewal
      obtain ⟨entry, hentry⟩ := List.exists_mem_of_ne_nil _ hrenews.1
      obtain ⟨hrow, hlt⟩ := List.mem_filter.mp hentry
      have := h.fresh entry hrow p.notAfter hmem
      have := of_decide_eq_true hlt
      omega
  · exact h

/-- A notice of the certificate had a row, which the new notice goes past. -/
theorem Sound.row_of_notice (h : s.Sound r) {n : CertNotice} (hn : n ∈ s.notices)
    (hkeys : ∀ key ∈ s.renewals, key ≤ n.key) : ∃ row, find n.key s.rows = some row ∧
      n.stage.rank ≤ row.stage.rank ∧ n.time ≤ row.lastSentAt ∧ row.lastSentAt ≤ s.now := by
  rcases h.rowed n hn with ⟨row, hrow, hrank, htime⟩ | ⟨key, hkey, hlt⟩
  · exact ⟨row, hrow, hrank, htime, h.past _ (mem_of_find hrow)⟩
  · have := hkeys key hkey
    omega

theorem Sound.announce (h : s.Sound r)
    (hkeys : (s.delivered r p).isSome = true → ∀ key ∈ s.renewals, key ≤ p.notAfter) :
    (s.announce r p).Sound r := by
  unfold CertNotices.announce
  split
  · exact h
  · rename_i stage action hdelivered
    have haction := delivered_some hdelivered
    rw [hdelivered] at hkeys
    replace hkeys := hkeys rfl
    have hbefore : ∀ n ∈ s.notices, n.key = p.notAfter → n.stage.rank ≤ stage.rank ∧
        n.time ≤ s.now ∧ (action = .escalated ∧ n.stage.rank < stage.rank ∨
          action = .reminder ∧ n.time + r.interval stage ≤ s.now) := by
      intro n hn hkey
      obtain ⟨row, hrow, hrank, htime, hpast⟩ := h.row_of_notice hn (hkey ▸ hkeys)
      rw [← hkey, hrow] at haction
      obtain ⟨hle, hcase⟩ := certAction_again haction
      refine ⟨Nat.le_trans hrank hle, Nat.le_trans htime hpast, ?_⟩
      rcases hcase with ⟨hesc, hlt⟩ | ⟨hrem, hdue⟩
      · exact .inl ⟨hesc, Nat.lt_of_le_of_lt hrank hlt⟩
      · exact .inr ⟨hrem, Nat.le_trans (Nat.add_le_add_right htime _) hdue⟩
    refine ⟨fun n hn => ?_, fun entry hentry key hkey => ?_, fun entry hentry => ?_, ?_⟩
    · cases hn with
      | head => exact .inl ⟨_, (find_write _ _ _ _).trans (if_pos rfl), Nat.le_refl _,
          Nat.le_refl _⟩
      | tail _ hmem =>
        by_cases hkey : n.key = p.notAfter
        · obtain ⟨hrank, htime, -⟩ := hbefore n hmem hkey
          exact .inl ⟨_, (find_write _ _ _ _).trans (if_pos hkey), hrank, htime⟩
        · rcases h.rowed n hmem with ⟨row, hrow, hrank, htime⟩ | hlost
          · exact .inl ⟨row, (find_write _ _ _ _).trans ((if_neg hkey).trans hrow), hrank, htime⟩
          · exact .inr hlost
    · cases hentry with
      | head => exact hkeys key hkey
      | tail _ hmem => exact h.fresh entry (List.mem_filter.mp hmem).1 key hkey
    · cases hentry with
      | head => exact Nat.le_refl _
      | tail _ hmem => exact h.past entry (List.mem_filter.mp hmem).1
    · refine ⟨List.pairwise_cons.mpr ⟨fun n hn hnew _ hsame => ?_, h.noSpam.announced⟩,
        List.pairwise_cons.mpr ⟨fun n hn hnew _ hkey hstage => ?_, h.noSpam.reminded⟩,
        h.noSpam.renewed⟩
      · obtain ⟨-, -, hcase⟩ := hbefore n hn hsame.1.symm
        rcases hcase with ⟨-, hlt⟩ | ⟨hrem, -⟩
        · rw [← hsame.2] at hlt
          exact Nat.lt_irrefl _ hlt
        · exact hnew hrem
      · obtain ⟨-, -, hcase⟩ := hbefore n hn hkey.symm
        rcases hcase with ⟨hesc, -⟩ | ⟨-, hdue⟩
        · cases hnew.symm.trans hesc
        · exact hstage ▸ hdue

/-- A probe that sends nothing leaves everything as it is. -/
theorem onCertificate_quiet (hrenews : ¬ s.Renews p) (hnone : s.delivered r p = none) :
    s.onCertificate r p = s := by
  have hrenewal : s.renewal p = s := if_neg hrenews
  have hannounce : s.announce r p = s := by
    unfold announce
    rw [hnone]
  unfold onCertificate
  split
  · rfl
  · rw [if_neg fun hboth => hrenews hboth.1, hrenewal, hannounce]
    split <;> rfl

theorem onCertificate_recorded (h : p.failure = none) :
    s.onCertificate r p = (s.renewal p).announce r p := by
  unfold onCertificate
  rw [h]
  simp

theorem Sound.step (h : s.Sound r) (hstep : s.step r act = some s') (hin : s.InOrder r act) :
    s'.Sound r := by
  cases act with
  | elapse d =>
    obtain rfl := Option.some.inj hstep
    exact ⟨h.rowed, h.fresh, fun entry hentry => Nat.le_add_right_of_le (h.past entry hentry),
      ⟨h.noSpam.announced, h.noSpam.reminded, h.noSpam.renewed⟩⟩
  | probe p =>
    obtain rfl := Option.some.inj hstep
    obtain ⟨hrenewal, hnotice⟩ := hin
    have hkeys : (s.delivered r p).isSome = true →
        ∀ key ∈ (s.renewal p).renewals, key ≤ p.notAfter := by
      intro hsome key hkey
      unfold CertNotices.renewal at hkey
      split at hkey
      · cases hkey with
        | head => exact Nat.le_refl _
        | tail _ hmem => exact (hnotice hsome).2 key hmem
      · exact (hnotice hsome).2 key hkey
    have hrecorded : p.failure = none → (s.onCertificate r p).Sound r := by
      intro hok
      rw [onCertificate_recorded hok]
      exact (h.renewal p).announce (by rw [delivered_renewal]; exact hkeys)
    by_cases hrenews : s.Renews p
    · exact hrecorded (hrenewal hrenews)
    · cases hdelivered : s.delivered r p with
      | none =>
        rw [onCertificate_quiet hrenews hdelivered]
        exact h
      | some notice => exact hrecorded (hnotice (by rw [hdelivered]; rfl)).1

theorem sound_start : start.Sound r where
  rowed := nofun
  fresh := nofun
  past := nofun
  noSpam := ⟨List.Pairwise.nil, List.Pairwise.nil, List.nodup_nil⟩

/-- In a run in order nobody is spammed. -/
theorem certificate_notices {tr : List CertAct}
    (run : Steps (Guarded (Takes (step r)) (InOrder r)) start tr s) : s.NoSpam r :=
  (run.stable (P := Sound r) sound_start fun _ _ _ h hstep => h.step hstep.2 hstep.1).noSpam

/-- A probe of the certificate that expires then, with so many days left, limits of 30 and 7 days
and one contact. -/
def probeOf (notAfter : ℕ) (daysLeft : ℤ) : CertAct :=
  .probe ⟨notAfter, daysLeft, 30, 7, false, 0, 1, 1, none⟩

/-- The first notice, the reminder a week later, the critical one, and the renewal. -/
theorem certificate_notices_renewed : ∃ tr s,
    Steps (Guarded (Takes (step ⟨7, 1⟩)) (InOrder ⟨7, 1⟩)) start tr s ∧
    s.notices.map CertNotice.action = [.escalated, .reminder, .first] ∧ s.renewals = [200] ∧
    s.NoSpam ⟨7, 1⟩ := by
  obtain ⟨s, run, -, hp⟩ := exists_play (gated (step ⟨7, 1⟩) (InOrder ⟨7, 1⟩)) start
    [probeOf 100 20, .elapse 604800, probeOf 100 13, .elapse 86400, probeOf 100 6, probeOf 200 300,
      probeOf 200 300]
    (fun s => decide (s.notices.map CertNotice.action = [.escalated, .reminder, .first]) &&
      decide (s.renewals = [200])) (by decide)
  obtain ⟨hnotices, hrenewals⟩ := Bool.and_eq_true_iff.mp hp
  have guarded := run.mono fun _ _ _ => gated_guarded
  exact ⟨_, s, guarded, of_decide_eq_true hnotices, of_decide_eq_true hrenewals,
    certificate_notices guarded⟩

/-- Two servers behind one name: the old certificate is announced again after the new one was. -/
theorem alternation_announces_again : ∃ tr s, Steps (Takes (step ⟨7, 1⟩)) start tr s ∧
    s.notices = [⟨.first, 100, .warn, 0⟩, ⟨.first, 100, .warn, 0⟩] ∧ s.renewals = [200] ∧
    ¬ s.NoSpam ⟨7, 1⟩ := by
  obtain ⟨s, run, -, hp⟩ := exists_play (step ⟨7, 1⟩) start
    [probeOf 100 20, probeOf 200 300, probeOf 100 20]
    (fun s => decide (s.notices = [⟨.first, 100, .warn, 0⟩, ⟨.first, 100, .warn, 0⟩]) &&
      decide (s.renewals = [200])) (by decide)
  obtain ⟨hnotices, hrenewals⟩ := Bool.and_eq_true_iff.mp hp
  have hnotices := of_decide_eq_true hnotices
  refine ⟨_, s, run, hnotices, of_decide_eq_true hrenewals, fun hspam => ?_⟩
  have hannounced := hspam.announced
  rw [hnotices] at hannounced
  exact (List.pairwise_cons.mp hannounced).1 _ List.mem_cons_self nofun nofun ⟨rfl, rfl⟩

end CertNotices

end MonitoringHub.Synthetic
