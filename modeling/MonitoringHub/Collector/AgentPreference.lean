import MonitoringHub.Collector.SlowCoverage
import Mathlib.Logic.Function.Basic

/-! The host agent in place of the CloudWatch agent, for one instance that a host agent is attached
to. An accepted payload leaves a marker with the memory and disk names that it carried; while the
marker lives, the memory and disk collectors leave these out. -/

namespace MonitoringHub.Collector
open Lib Lib.Text Alerts

def memName : String := "mem_used_percent"
def diskName : String := "disk_used_percent"

def isDiskName (name : String) : Bool := name == diskName || startsWith name (diskName ++ "__")
def isCwagentName (name : String) : Bool := name == memName || isDiskName name

/-- The age and the skew of the samples that a payload may carry. -/
def maxAgeSeconds : ℕ := 24 * 3600
def futureSkewSeconds : ℕ := 10 * 60

/-- The two collectors that ask for what the CloudWatch agent published. -/
inductive Cwagent
  | mem | disk
  deriving DecidableEq, Repr

namespace Cwagent

def all : List Cwagent := [.mem, .disk]

def tier : Cwagent → PollTier
  | .mem => cwagentMemTier
  | .disk => cwagentDiskTier

def lookback : Cwagent → ℕ
  | .mem => cwagentMemLookback
  | .disk => cwagentDiskLookback

def interval (c : Cwagent) : ℕ := c.tier.seconds

/-- The metrics of one instance, with the mounts that it reports. -/
def names (mounts : List String) : Cwagent → List String
  | .mem => [memName]
  | .disk => mounts

/-- How old the last sample may be at a cycle that leaves a metric out: not stale, and young enough
for the next cycle to look back to it. -/
def reach (staleSeconds : ℕ) (c : Cwagent) : ℕ := min staleSeconds (60 * c.lookback - c.interval)

theorem mem_all (c : Cwagent) : c ∈ all := by cases c <;> decide

theorem interval_le_lookback (c : Cwagent) : c.interval ≤ 60 * c.lookback := by
  cases c <;> decide

end Cwagent

/-- `hostagent:feed:<id>` -/
structure FeedMarker where
  names : List String
  ts : ℕ

/-- What a cycle did with one metric, with the times of the samples stored by then. -/
structure FetchDecision where
  cwagent : Cwagent
  name : String
  time : ℕ
  skipped : Bool
  /-- whether the cycle before skipped it -/
  resumes : Bool
  agentSamples : List ℕ
  fetches : List ℕ

structure FeedRun where
  now : ℕ
  samples : String → List ℕ
  fetches : String → List ℕ
  /-- the names of the committed payloads whose marker is not stored yet -/
  pending : List (List String)
  marker : Option FeedMarker
  nextDue : Cwagent → ℕ
  skipping : Cwagent → String → Bool
  decisions : List FetchDecision

/-- A payload as it was received, by stored name and time of its samples; a cycle may find the
cache down. -/
inductive FeedAct
  | elapse (seconds : ℕ)
  | ingest (received : ℕ) (payload : List (String × ℕ))
  | mark (i : ℕ)
  | cycle (c : Cwagent) (visible : Bool)

namespace FeedRun
variable (staleSeconds : ℕ) (mounts : List String)

/-- The next cycles are due at any later times. -/
def start (now : ℕ) (wait : Cwagent → ℕ) : FeedRun :=
  ⟨now, fun _ => [], fun _ => [], [], none, fun c => now + wait c, fun _ _ => false, []⟩

/-- `mark_feed` -/
def markFeed (s : FeedRun) (storedNames : List String) : FeedRun :=
  let names := storedNames.filter isCwagentName
  if names = [] then s else { s with marker := some ⟨names, s.now⟩ }

def fedNames (s : FeedRun) (visible : Bool) : List String :=
  match s.marker with
  | some m => if visible = true ∧ s.now < m.ts + staleSeconds then m.names else []
  | none => []

/-- `drop_resources_with_fed_metric` and `covered_disk_names` -/
def skips (s : FeedRun) (visible : Bool) (c : Cwagent) (name : String) : Bool :=
  match c with
  | .mem => (s.fedNames staleSeconds visible).contains name
  | .disk => ((s.fedNames staleSeconds visible).filter isDiskName).contains name

def fetchDecision (s : FeedRun) (visible : Bool) (c : Cwagent) (name : String) : FetchDecision :=
  ⟨c, name, s.now, s.skips staleSeconds visible c name, s.skipping c name, s.samples name,
    s.fetches name⟩

/-- `_collect_ec2_cwagent_mem` and `_collect_ec2_cwagent_disk` -/
def collect (s : FeedRun) (visible : Bool) (c : Cwagent) : FeedRun :=
  { s with
    nextDue := Function.update s.nextDue c (s.now + c.interval)
    skipping := Function.update s.skipping c (s.skips staleSeconds visible c)
    fetches := fun name =>
      if name ∈ c.names mounts ∧ s.skips staleSeconds visible c name = false then
        s.now :: s.fetches name
      else s.fetches name
    decisions := (c.names mounts).map (s.fetchDecision staleSeconds visible c) ++ s.decisions }

def store (s : FeedRun) (payload : List (String × ℕ)) : FeedRun :=
  { s with
    samples := fun name => (payload.filter fun p => p.1 = name).map Prod.snd ++ s.samples name
    pending := s.pending ++ [payload.map Prod.fst] }

def step (s : FeedRun) : FeedAct → Option FeedRun
  | .elapse seconds =>
    if ∀ c ∈ Cwagent.all, s.now + seconds ≤ s.nextDue c then
      some { s with now := s.now + seconds }
    else none
  | .ingest received payload =>
    if received ≤ s.now ∧ payload ≠ [] ∧ ∀ p ∈ payload,
        received ≤ p.2 + maxAgeSeconds ∧ p.2 ≤ received + futureSkewSeconds then
      some (s.store payload)
    else none
  | .mark i => s.pending[i]?.map fun names =>
    { s.markFeed names with pending := s.pending.eraseIdx i }
  | .cycle c visible =>
    if s.now = s.nextDue c then some (s.collect staleSeconds mounts visible c) else none

/-- A metric is left out only while the agent's last sample of it is not stale, and the window of
the fetch after that leaves no instant out since the last sample there is. -/
def GoodDecision (d : FetchDecision) : Prop :=
  if d.skipped = true then ∃ t ∈ d.agentSamples, d.time ≤ t + staleSeconds
  else d.resumes = true → ∀ x ≤ d.time, (∀ t ∈ d.agentSamples ++ d.fetches, t ≤ x) →
    d.time ≤ x + 60 * d.cwagent.lookback

def NoGap (s : FeedRun) : Prop := ∀ d ∈ s.decisions, GoodDecision staleSeconds d

/-- The last due time of a collector before `limit`. -/
def lastDue (s : FeedRun) (c : Cwagent) (limit : ℕ) : ℕ :=
  s.nextDue c + (limit - 1 - s.nextDue c) / c.interval * c.interval

/-- No marker that is stored outlives the samples of its names: at the last cycle in its life the
last of them is within reach. -/
def Backed (s : FeedRun) : FeedAct → Prop
  | .mark i => ∀ names ∈ s.pending[i]?, ∀ c ∈ Cwagent.all, ∀ name ∈ names, isCwagentName name →
    name ∈ c.names mounts → s.nextDue c < s.now + staleSeconds →
      ∃ t ∈ s.samples name, s.lastDue c (s.now + staleSeconds) ≤ t + c.reach staleSeconds
  | _ => True

instance (s : FeedRun) (act : FeedAct) : Decidable (s.Backed staleSeconds mounts act) :=
  match act with
  | .mark i => inferInstanceAs (Decidable (∀ names ∈ s.pending[i]?, ∀ c ∈ Cwagent.all,
    ∀ name ∈ names, isCwagentName name → name ∈ c.names mounts →
      s.nextDue c < s.now + staleSeconds →
        ∃ t ∈ s.samples name, s.lastDue c (s.now + staleSeconds) ≤ t + c.reach staleSeconds))
  | .elapse _ | .ingest _ _ | .cycle _ _ => isTrue trivial

variable {staleSeconds} {mounts} {s s' : FeedRun} {act : FeedAct} {c : Cwagent} {name : String}
  {visible : Bool}

/-- Every cycle due in the life of the marker will be within reach of a sample. -/
def Reached (staleSeconds : ℕ) (s : FeedRun) (c : Cwagent) (name : String) (limit : ℕ) : Prop :=
  ∀ j, s.nextDue c + j * c.interval < limit →
    ∃ t ∈ s.samples name, s.nextDue c + j * c.interval ≤ t + c.reach staleSeconds

structure Sound (staleSeconds : ℕ) (mounts : List String) (s : FeedRun) : Prop where
  due : ∀ c, s.now ≤ s.nextDue c
  marked : ∀ m, s.marker = some m → ∀ c, ∀ name ∈ m.names, name ∈ c.names mounts →
    Reached staleSeconds s c name (m.ts + staleSeconds)
  skipping : ∀ c, ∀ name ∈ c.names mounts, s.skipping c name = true →
    ∃ t ∈ s.samples name, s.nextDue c ≤ t + 60 * c.lookback
  good : s.NoGap staleSeconds

theorem lastDue_ge {limit j : ℕ} (h : s.nextDue c + j * c.interval < limit) :
    s.nextDue c + j * c.interval ≤ s.lastDue c limit := by
  unfold lastDue
  have hpos : 0 < c.interval := by cases c <;> decide
  have hle : j ≤ (limit - 1 - s.nextDue c) / c.interval := by
    rw [Nat.le_div_iff_mul_le hpos]
    omega
  have hmul := Nat.mul_le_mul_right c.interval hle
  omega

theorem skips_marker (h : s.skips staleSeconds visible c name = true) :
    ∃ m, s.marker = some m ∧ name ∈ m.names ∧ s.now < m.ts + staleSeconds := by
  have hfed : name ∈ s.fedNames staleSeconds visible := by
    cases c with
    | mem => exact List.contains_iff_mem.mp h
    | disk => exact List.mem_of_mem_filter (List.contains_iff_mem.mp h)
  unfold fedNames at hfed
  split at hfed
  · rename_i m hm
    split at hfed
    · rename_i hlive
      exact ⟨m, hm, hfed, hlive.2⟩
    · cases hfed
  · cases hfed

/-- What the invariant says of a metric that a cycle leaves out. -/
theorem Sound.skipped (h : Sound staleSeconds mounts s) (hdue : s.now = s.nextDue c)
    (hname : name ∈ c.names mounts) (hskip : s.skips staleSeconds visible c name = true) :
    ∃ t ∈ s.samples name, s.now ≤ t + c.reach staleSeconds := by
  obtain ⟨m, hm, hmem, hlive⟩ := skips_marker hskip
  have hreach := h.marked m hm c name hmem hname 0
  rw [Nat.zero_mul, Nat.add_zero, ← hdue] at hreach
  exact hreach hlive

theorem Sound.fetchDecision (h : Sound staleSeconds mounts s) (hdue : s.now = s.nextDue c)
    (hname : name ∈ c.names mounts) :
    GoodDecision staleSeconds (s.fetchDecision staleSeconds visible c name) := by
  unfold GoodDecision
  split
  · rename_i hskip
    obtain ⟨t, ht, hle⟩ := h.skipped hdue hname hskip
    exact ⟨t, ht, Nat.le_trans hle (Nat.add_le_add_left (Nat.min_le_left _ _) t)⟩
  · intro hresumes x _ hx
    obtain ⟨t, ht, hle⟩ := h.skipping c name hname hresumes
    have htx := hx t (List.mem_append_left _ ht)
    rw [← hdue] at hle
    exact Nat.le_trans hle (Nat.add_le_add_right htx _)

theorem Sound.collect (h : Sound staleSeconds mounts s) (hdue : s.now = s.nextDue c) :
    Sound staleSeconds mounts (s.collect staleSeconds mounts visible c) where
  due c' := by
    simp only [FeedRun.collect]
    by_cases hc : c' = c
    · subst hc
      rw [Function.update_self]
      omega
    · rw [Function.update_of_ne hc]
      exact h.due c'
  marked m hm c' name hmem hname := by
    have hreached := h.marked m hm c' name hmem hname
    by_cases hc : c' = c
    · subst hc
      intro j hj
      obtain ⟨t, ht, hle⟩ := hreached (j + 1) (by
        simp only [FeedRun.collect, Function.update_self] at hj
        rw [← hdue, Nat.succ_mul]
        omega)
      refine ⟨t, ht, ?_⟩
      simp only [FeedRun.collect, Function.update_self]
      rw [← hdue, Nat.succ_mul] at hle
      omega
    · unfold Reached
      simp only [FeedRun.collect, Function.update_of_ne hc]
      exact hreached
  skipping c' name hname hskip := by
    simp only [FeedRun.collect] at hskip ⊢
    by_cases hc : c' = c
    · subst hc
      rw [Function.update_self] at hskip ⊢
      obtain ⟨t, ht, hle⟩ := h.skipped hdue hname hskip
      refine ⟨t, ht, ?_⟩
      have hinterval := c'.interval_le_lookback
      unfold Cwagent.reach at hle
      omega
    · rw [Function.update_of_ne hc] at hskip ⊢
      exact h.skipping c' name hname hskip
  good d hd := by
    rcases List.mem_append.mp hd with hnew | hold
    · obtain ⟨name, hname, rfl⟩ := List.mem_map.mp hnew
      exact h.fetchDecision hdue hname
    · exact h.good d hold

theorem Sound.store (h : Sound staleSeconds mounts s) (payload : List (String × ℕ)) :
    Sound staleSeconds mounts (s.store payload) where
  due := h.due
  marked m hm c name hmem hname j hj := by
    obtain ⟨t, ht, hle⟩ := h.marked m hm c name hmem hname j hj
    exact ⟨t, List.mem_append_right _ ht, hle⟩
  skipping c name hname hskip := by
    obtain ⟨t, ht, hle⟩ := h.skipping c name hname hskip
    exact ⟨t, List.mem_append_right _ ht, hle⟩
  good := h.good

theorem Sound.markFeed {names : List String} (h : Sound staleSeconds mounts s)
    (hback : ∀ c ∈ Cwagent.all, ∀ name ∈ names, isCwagentName name → name ∈ c.names mounts →
      s.nextDue c < s.now + staleSeconds →
        ∃ t ∈ s.samples name, s.lastDue c (s.now + staleSeconds) ≤ t + c.reach staleSeconds) :
    Sound staleSeconds mounts (s.markFeed names) := by
  unfold FeedRun.markFeed
  dsimp only
  split
  · exact h
  · refine ⟨h.due, ?_, h.skipping, h.good⟩
    intro m hm c name hmem hname j hj
    obtain rfl := Option.some.inj hm
    obtain ⟨hmem, hcw⟩ := List.mem_filter.mp hmem
    have hlimit : s.nextDue c + j * c.interval < s.now + staleSeconds := hj
    obtain ⟨t, ht, hle⟩ := hback c c.mem_all name hmem hcw hname (by omega)
    exact ⟨t, ht, Nat.le_trans (lastDue_ge hlimit) hle⟩

theorem Sound.step (h : Sound staleSeconds mounts s) (hG : s.Backed staleSeconds mounts act)
    (hstep : s.step staleSeconds mounts act = some s') : Sound staleSeconds mounts s' := by
  cases act with
  | elapse seconds =>
    obtain ⟨hdue, hs⟩ := Option.ite_none_right_eq_some.mp hstep
    obtain rfl := Option.some.inj hs
    exact ⟨fun c => hdue c c.mem_all, h.marked, h.skipping, h.good⟩
  | ingest received payload =>
    obtain ⟨-, hs⟩ := Option.ite_none_right_eq_some.mp hstep
    obtain rfl := Option.some.inj hs
    exact h.store payload
  | mark i =>
    obtain ⟨names, hnames, rfl⟩ := Option.map_eq_some_iff.mp hstep
    have hmark := h.markFeed (hG names hnames)
    exact ⟨hmark.due, hmark.marked, hmark.skipping, hmark.good⟩
  | cycle c visible =>
    obtain ⟨hdue, hs⟩ := Option.ite_none_right_eq_some.mp hstep
    obtain rfl := Option.some.inj hs
    exact h.collect hdue

/-- Where every marker is backed by its samples, no cycle leaves a gap. -/
theorem no_gap {now : ℕ} {wait : Cwagent → ℕ} {tr : List FeedAct}
    (run : Steps (Guarded (Takes (step staleSeconds mounts)) (Backed staleSeconds mounts))
      (start now wait) tr s) : s.NoGap staleSeconds := by
  have hstart : Sound staleSeconds mounts (start now wait) :=
    ⟨fun c => Nat.le_add_right now (wait c), nofun, fun _ _ _ => nofun, nofun⟩
  exact (run.stable hstart fun _ _ _ h hstep => h.step hstep.1 hstep.2).good

def exampleWait : Cwagent → ℕ
  | .mem => 0
  | .disk => 500

/-- A payload of one memory sample, its marker, and the wait of ten seconds for the next cycle. -/
def exampleFeed (received taken : ℕ) : List FeedAct :=
  [.ingest received [(memName, taken)], .mark 0, .elapse 10]

/-- A live payload takes the place of one fetch. -/
theorem no_gap_live : ∃ tr s,
    Steps (Guarded (Takes (step 180 [])) (Backed 180 [])) (start 100000 exampleWait) tr s ∧
      (∃ d ∈ s.decisions, d.skipped = true) ∧ s.NoGap 180 := by
  obtain ⟨s, run, -, hp⟩ := exists_play (gated (step 180 []) (Backed 180 []))
    (start 100000 exampleWait)
    ([.cycle .mem true, .elapse 290] ++ exampleFeed 100290 100288 ++ [.cycle .mem true])
    (fun (s : FeedRun) => s.decisions.any fun (d : FetchDecision) => d.skipped) (by decide)
  have run := run.mono fun _ _ _ => gated_guarded
  exact ⟨_, s, run, List.any_eq_true.mp hp, no_gap run⟩

/-- Samples of hours ago are replayed for a while, and the agent stops. The cycles leave memory out
without a recent sample, and the fetch after them looks back over half of the time. -/
theorem replay_leaves_gap : ∃ tr s,
    Steps (Takes (step 180 [])) (start 100000 exampleWait) tr s ∧ ¬ s.NoGap 180 ∧
      (∃ d ∈ s.decisions, d.skipped = true ∧ ∀ t ∈ d.agentSamples, t + 180 < d.time) ∧
      ∃ d ∈ s.decisions, d.skipped = false ∧ d.resumes = true ∧
        ∀ t ∈ d.agentSamples ++ d.fetches, t + 60 * d.cwagent.lookback < d.time := by
  obtain ⟨s, run, -, hp⟩ := exists_play (step 180 []) (start 100000 exampleWait)
    ([.cycle .mem true, .elapse 290] ++ exampleFeed 100290 80000 ++
      [.cycle .mem true, .elapse 200, .cycle .disk true, .elapse 90] ++ exampleFeed 100590 80060 ++
      [.cycle .mem true, .elapse 290] ++ exampleFeed 100890 80120 ++
      [.cycle .mem true, .elapse 300, .cycle .mem true])
    (fun (s : FeedRun) =>
      decide (∃ d ∈ s.decisions, d.skipped = true ∧ ∀ t ∈ d.agentSamples, t + 180 < d.time) &&
      decide (∃ d ∈ s.decisions, d.skipped = false ∧ d.resumes = true ∧
        ∀ t ∈ d.agentSamples ++ d.fetches, t + 60 * d.cwagent.lookback < d.time)) (by decide)
  obtain ⟨hskip, hfetch⟩ := Bool.and_eq_true_iff.mp hp
  refine ⟨_, s, run, ?_, of_decide_eq_true hskip, of_decide_eq_true hfetch⟩
  intro hgood
  obtain ⟨d, hd, hskipped, hold⟩ := of_decide_eq_true hskip
  have hd := hgood d hd
  rw [GoodDecision, if_pos hskipped] at hd
  obtain ⟨t, ht, hle⟩ := hd
  have hlt := hold t ht
  omega

end FeedRun

end MonitoringHub.Collector
