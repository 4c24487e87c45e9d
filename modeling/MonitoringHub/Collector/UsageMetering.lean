import Mathlib.Algebra.Group.Prod
import Mathlib.Data.Prod.Lex
import Mathlib.Data.String.Basic
import Mathlib.Tactic.Abel
import MonitoringHub.Lib.Ledger
import MonitoringHub.Lib.StepRun

/-! The counters of billed cloud calls. Calls are recorded in memory; a flush takes the counters
away under the lock and writes them to `op_events` one row after the other, while others go on
recording. `log_event` swallows what goes wrong with a row, and the row is gone. -/

namespace MonitoringHub.UsageMetering
open Lib Lib.KeyedStore Lib.GroupTally Lib.Ledger

structure UsageKey where
  provider : String
  tier : String
  source : String
  operation : String
  deriving DecidableEq

/-- A number of calls and of billed units. -/
abbrev Usage := ℕ × ℕ

/-- Python's `value or default` on a text that may be missing. -/
def orElse (value : Option String) (default : String) : String :=
  match value with
  | none => default
  | some text => if text = "" then default else text

/-- `_DEFAULT_OPERATION` -/
def defaultOperation (provider : String) : String :=
  if provider = "aws" then "GetMetricData"
  else if provider = "azure" then "MonitorMetrics"
  else if provider = "gcp" then "ListTimeSeries"
  else "unknown"

structure Call where
  provider : String
  tier : Option String
  usage : Usage
  source : Option String
  operation : Option String
  deriving DecidableEq

/-- `_resolve` -/
def Call.resolve (c : Call) : UsageKey :=
  let source := orElse c.source "collector"
  let operation := c.operation.getD
    (if c.tier = some "tag_sync" then "GetResources" else defaultOperation c.provider)
  ⟨c.provider, if source = "collector" then orElse c.tier "unknown" else source, source, operation⟩

/-- A flush that has taken the counters: the rows it has not come to, whether it has `log_event`,
and the count it will return. -/
structure Flush where
  rows : List (UsageKey × Usage)
  imported : Bool
  written : ℕ

/-- The counters in memory, the flushes by thread, the rows of `op_events`, the calls so far, and
what the flushes that are through returned. -/
structure Metering where
  counts : List (UsageKey × Usage)
  flushes : List (ℕ × Flush)
  stored : List (UsageKey × Usage)
  recorded : List (UsageKey × Usage)
  returned : List ℕ

inductive Act
  | record (c : Call)
  | take (flush : ℕ)
  | importOpLog (flush : ℕ) (found : Bool)
  | write (flush : ℕ) (persisted : Bool)
  | finish (flush : ℕ)
  deriving DecidableEq

/-- `sorted(taken.items())` -/
def sortedItems (taken : List (UsageKey × Usage)) : List (UsageKey × Usage) :=
  taken.mergeSort fun a b =>
    decide (toLex (a.1.provider, toLex (a.1.tier, toLex (a.1.source, a.1.operation))) ≤
      toLex (b.1.provider, toLex (b.1.tier, toLex (b.1.source, b.1.operation))))

namespace Metering

def start : Metering := ⟨[], [], [], [], []⟩

/-- `record`; a call without calls and units is not counted. -/
def record (s : Metering) (c : Call) : Metering :=
  { s with
    counts := if c.usage = 0 then s.counts else upsert c.resolve 0 (· + c.usage) s.counts
    recorded := s.recorded ++ [(c.resolve, c.usage)] }

/-- `_take`, by a thread that is not flushing already -/
def take (s : Metering) (flush : ℕ) : Option Metering :=
  if (find flush s.flushes).isSome then none
  else some { s with counts := [], flushes := (flush, ⟨s.counts, false, 0⟩) :: s.flushes }

/-- The import of `log_event` in a flush that took something; without it the counters are
dropped. -/
def importOpLog (s : Metering) (flush : ℕ) (found : Bool) : Option Metering :=
  match find flush s.flushes with
  | none => none
  | some f =>
    if f.imported = true ∨ f.rows = [] then none
    else if found then
      some { s with flushes := KeyedStore.write flush ⟨sortedItems f.rows, true, 0⟩ s.flushes }
    else some { s with flushes := dropWhere (fun k => k = flush) s.flushes }

/-- One turn of the loop: `log_event` returns whether its row was persisted or not. -/
def write (s : Metering) (flush : ℕ) (persisted : Bool) : Option Metering :=
  match find flush s.flushes with
  | none => none
  | some f =>
    match f.imported, f.rows with
    | true, row :: rows =>
      some { s with
        flushes := KeyedStore.write flush ⟨rows, true, f.written + 1⟩ s.flushes
        stored := if persisted then s.stored ++ [row] else s.stored }
    | _, _ => none

/-- A flush that is through returns its count. -/
def finish (s : Metering) (flush : ℕ) : Option Metering :=
  match find flush s.flushes with
  | none => none
  | some f =>
    if f.rows = [] then
      some { s with
        flushes := dropWhere (fun k => k = flush) s.flushes
        returned := s.returned ++ [f.written] }
    else none

def step (s : Metering) : Act → Option Metering
  | .record c => some (s.record c)
  | .take flush => s.take flush
  | .importOpLog flush found => s.importOpLog flush found
  | .write flush persisted => s.write flush persisted
  | .finish flush => s.finish flush

/-- What the running flushes have not come to yet. -/
def held (s : Metering) (k : UsageKey) : Usage :=
  (s.flushes.map fun e => amount k e.2.rows).sum

/-- What is in `op_events`, in memory or with a running flush. -/
def metered (s : Metering) (k : UsageKey) : Usage :=
  amount k s.stored + amount k s.counts + s.held k

/-- Every recorded call is somewhere, once. -/
def Conserved (s : Metering) : Prop := ∀ k, s.metered k = amount k s.recorded

/-- One flush a thread, and no counter of nothing. -/
structure Sound (s : Metering) : Prop where
  distinct : Distinct s.flushes
  counts : ∀ row ∈ s.counts, row.2 ≠ 0
  rows : ∀ e ∈ s.flushes, ∀ row ∈ e.2.rows, row.2 ≠ 0

/-- The rows that a step leaves nowhere. -/
def lostBy (s : Metering) : Act → List (UsageKey × Usage)
  | .importOpLog flush false => ((find flush s.flushes).map Flush.rows).getD []
  | .write flush false => (((find flush s.flushes).map Flush.rows).getD []).take 1
  | _ => []

end Metering

/-- The row is persisted, and `log_event` is there. -/
def Act.Works : Act → Prop
  | .importOpLog _ found => found = true
  | .write _ persisted => persisted = true
  | _ => True

section Step
variable {s t : Metering} {flush : ℕ} {f : Flush} {a : Act} {k : UsageKey}

theorem usage_eq_zero (a b : Usage) (h : a + b = 0) : a = 0 := by
  have h₁ := congrArg Prod.fst h
  have h₂ := congrArg Prod.snd h
  simp only [Prod.fst_add, Prod.snd_add, Prod.fst_zero, Prod.snd_zero] at h₁ h₂
  exact Prod.ext (by simp; omega) (by simp; omega)

/-- What is held, with one flush set apart. -/
theorem Metering.held_find (h : s.Sound) (hfind : find flush s.flushes = some f) (k : UsageKey) :
    s.held k = amount k f.rows +
      ((dropWhere (fun k' => k' = flush) s.flushes).map fun e => amount k e.2.rows).sum :=
  sum_find_dropWhere h.distinct hfind fun f => amount k f.rows

theorem amount_sortedItems (k : UsageKey) (taken : List (UsageKey × Usage)) :
    amount k (sortedItems taken) = amount k taken :=
  amount_perm (List.mergeSort_perm taken _) k

/-- What a step of each kind does. -/
theorem step_cases (h : s.step a = some t) :
    (∃ c, a = .record c ∧ t = s.record c) ∨
    (∃ flush, a = .take flush ∧ find flush s.flushes = none ∧
      t = { s with counts := [], flushes := (flush, ⟨s.counts, false, 0⟩) :: s.flushes }) ∨
    (∃ flush found f, a = .importOpLog flush found ∧ find flush s.flushes = some f ∧ f.rows ≠ [] ∧
      t = { s with flushes := if found then
        KeyedStore.write flush ⟨sortedItems f.rows, true, 0⟩ s.flushes
        else dropWhere (fun k => k = flush) s.flushes }) ∨
    (∃ flush persisted f row rows, a = .write flush persisted ∧ find flush s.flushes = some f ∧
      f.rows = row :: rows ∧
      t = { s with
        flushes := KeyedStore.write flush ⟨rows, true, f.written + 1⟩ s.flushes
        stored := if persisted then s.stored ++ [row] else s.stored }) ∨
    (∃ flush f, a = .finish flush ∧ find flush s.flushes = some f ∧ f.rows = [] ∧
      t = { s with
        flushes := dropWhere (fun k => k = flush) s.flushes
        returned := s.returned ++ [f.written] }) := by
  cases a with
  | record c => exact .inl ⟨c, rfl, (Option.some.inj h).symm⟩
  | take flush =>
    dsimp only [Metering.step, Metering.take] at h
    split at h
    · cases h
    · rename_i hnone
      exact .inr (.inl ⟨flush, rfl, by simpa using hnone, (Option.some.inj h).symm⟩)
  | importOpLog flush found =>
    dsimp only [Metering.step, Metering.importOpLog] at h
    split at h
    · cases h
    · rename_i f hfind
      split at h
      · cases h
      · rename_i hready
        refine .inr (.inr (.inl ⟨flush, found, f, rfl, hfind, fun hnil => hready (.inr hnil), ?_⟩))
        cases found with
        | true => exact (Option.some.inj h).symm
        | false => exact (Option.some.inj h).symm
  | write flush persisted =>
    dsimp only [Metering.step, Metering.write] at h
    split at h
    · cases h
    · rename_i f hfind
      split at h
      · rename_i row rows _ hrows
        exact .inr (.inr (.inr (.inl ⟨flush, persisted, f, row, rows, rfl, hfind, hrows,
          (Option.some.inj h).symm⟩)))
      · cases h
  | finish flush =>
    dsimp only [Metering.step, Metering.finish] at h
    split at h
    · cases h
    · rename_i f hfind
      split at h
      · rename_i hrows
        exact .inr (.inr (.inr (.inr ⟨flush, f, rfl, hfind, hrows, (Option.some.inj h).symm⟩)))
      · cases h

theorem mem_upsert_ne_zero {k : UsageKey} {w : Usage} {rows : List (UsageKey × Usage)}
    (hw : w ≠ 0) (hrows : ∀ row ∈ rows, row.2 ≠ 0) :
    ∀ row ∈ upsert k 0 (· + w) rows, row.2 ≠ 0 := by
  induction rows with
  | nil => simpa [upsert] using hw
  | cons row rows ih =>
    have hrest := fun row' hrow' => hrows row' (List.mem_cons_of_mem _ hrow')
    obtain ⟨k', m⟩ := row
    rw [upsert]
    split
    · refine List.forall_mem_cons.mpr ⟨fun hzero => ?_, hrest⟩
      exact hrows (k', m) List.mem_cons_self (usage_eq_zero m w hzero)
    · exact List.forall_mem_cons.mpr ⟨hrows _ List.mem_cons_self, ih hrest⟩

theorem step_sound (hs : s.Sound) (h : s.step a = some t) : t.Sound := by
  have hdrop : ∀ (flush : ℕ), ∀ e ∈ dropWhere (fun k => k = flush) s.flushes,
      ∀ row ∈ e.2.rows, row.2 ≠ 0 := fun flush e he => hs.rows e (List.mem_filter.mp he).1
  rcases step_cases h with ⟨c, -, rfl⟩ | ⟨flush, -, hnone, rfl⟩ |
    ⟨flush, found, f, -, hfind, -, rfl⟩ | ⟨flush, persisted, f, row, rows, -, hfind, hrows, rfl⟩ |
    ⟨flush, f, -, hfind, -, rfl⟩
  · refine ⟨hs.distinct, ?_, hs.rows⟩
    dsimp only [Metering.record]
    split
    · exact hs.counts
    · rename_i hw
      exact mem_upsert_ne_zero hw hs.counts
  · refine ⟨List.nodup_cons.mpr ⟨fun hmem => ?_, hs.distinct⟩, by simp, ?_⟩
    · have hsome := find_isSome_iff.mpr hmem
      rw [hnone] at hsome
      cases hsome
    · exact List.forall_mem_cons.mpr ⟨hs.counts, hs.rows⟩
  · have hf := hs.rows _ (mem_of_find hfind)
    cases found with
    | true =>
      refine ⟨hs.distinct.write _ _, hs.counts, List.forall_mem_cons.mpr ⟨fun row hrow => ?_,
        hdrop flush⟩⟩
      exact hf row ((List.mergeSort_perm f.rows _).mem_iff.mp hrow)
    | false => exact ⟨hs.distinct.dropWhere fun k => k = flush, hs.counts, hdrop flush⟩
  · have hf := hs.rows _ (mem_of_find hfind)
    refine ⟨hs.distinct.write _ _, hs.counts, List.forall_mem_cons.mpr ⟨fun row' hrow' => ?_,
      hdrop flush⟩⟩
    exact hf row' (hrows ▸ List.mem_cons_of_mem _ hrow')
  · exact ⟨hs.distinct.dropWhere fun k => k = flush, hs.counts, hdrop flush⟩

/-- A step books what is recorded, and loses what its failing writes held. -/
theorem step_conserves (hs : s.Sound) (h : s.step a = some t) (k : UsageKey) :
    t.metered k + amount k (s.lostBy a) + amount k s.recorded =
      s.metered k + amount k t.recorded := by
  rcases step_cases h with ⟨c, rfl, rfl⟩ | ⟨flush, rfl, hnone, rfl⟩ |
    ⟨flush, found, f, rfl, hfind, -, rfl⟩ |
    ⟨flush, persisted, f, row, rows, rfl, hfind, hrows, rfl⟩ | ⟨flush, f, rfl, hfind, hrows, rfl⟩
  · have hcounts : amount k (s.record c).counts =
        amount k s.counts + if c.resolve = k then c.usage else 0 := by
      dsimp only [Metering.record]
      split
      · rename_i hzero
        simp [hzero]
      · exact amount_upsert k c.resolve c.usage s.counts
    have hrecorded : amount k (s.record c).recorded =
        amount k s.recorded + if c.resolve = k then c.usage else 0 := by
      simp [Metering.record, amount_cons]
    have hheld : (s.record c).held k = s.held k := rfl
    have hstored : (s.record c).stored = s.stored := rfl
    simp only [Metering.metered, Metering.lostBy, amount_nil, hcounts, hrecorded, hheld, hstored]
    abel
  · simp only [Metering.metered, Metering.held, Metering.lostBy, amount_nil, List.map_cons,
      List.sum_cons]
    abel
  · have hheld := Metering.held_find hs hfind k
    cases found with
    | true =>
      simp only [Metering.metered, Metering.lostBy, amount_nil, hheld]
      simp only [Metering.held, KeyedStore.write, if_true, List.map_cons, List.sum_cons,
        amount_sortedItems]
      abel
    | false =>
      simp only [Metering.metered, Metering.lostBy, hheld, hfind, Option.map_some,
        Option.getD_some]
      simp only [Metering.held, Bool.false_eq_true, if_false]
      abel
  · have hheld := Metering.held_find hs hfind k
    rw [hrows, amount_cons] at hheld
    cases persisted with
    | true =>
      simp only [Metering.metered, Metering.lostBy, amount_nil, hheld]
      simp only [Metering.held, KeyedStore.write, if_true, List.map_cons, List.sum_cons,
        amount_append, amount_cons, amount_nil]
      abel
    | false =>
      simp only [Metering.metered, Metering.lostBy, hheld, hfind, Option.map_some,
        Option.getD_some, hrows, List.take_succ_cons, List.take_zero, amount_cons, amount_nil]
      simp only [Metering.held, KeyedStore.write, Bool.false_eq_true, if_false, List.map_cons,
        List.sum_cons]
      abel
  · have hheld := Metering.held_find hs hfind k
    rw [hrows, amount_nil, zero_add] at hheld
    simp only [Metering.metered, Metering.lostBy, amount_nil, hheld]
    simp only [Metering.held]
    abel

/-- A step loses nothing exactly if the write or the import works. -/
theorem lostBy_eq_nil (h : s.step a = some t) : s.lostBy a = [] ↔ a.Works := by
  rcases step_cases h with ⟨c, rfl, -⟩ | ⟨flush, rfl, -, -⟩ |
    ⟨flush, found, f, rfl, hfind, hrows, -⟩ |
    ⟨flush, persisted, f, row, rows, rfl, hfind, hrows, -⟩ | ⟨flush, f, rfl, -, -, -⟩
  · simp [Metering.lostBy, Act.Works]
  · simp [Metering.lostBy, Act.Works]
  · cases found <;> simp [Metering.lostBy, Act.Works, hfind, hrows]
  · cases persisted <;> simp [Metering.lostBy, Act.Works, hfind, hrows]
  · simp [Metering.lostBy, Act.Works]

theorem lostBy_ne_zero (hs : s.Sound) : ∀ row ∈ s.lostBy a, row.2 ≠ 0 := by
  have hheld : ∀ flush, ∀ row ∈ ((find flush s.flushes).map Flush.rows).getD [], row.2 ≠ 0 := by
    intro flush row hrow
    cases hfind : find flush s.flushes with
    | none => simp [hfind] at hrow
    | some f =>
      rw [hfind] at hrow
      exact hs.rows _ (mem_of_find hfind) row hrow
  intro row hrow
  cases a with
  | record c => cases hrow
  | take flush => cases hrow
  | importOpLog flush found =>
    cases found with
    | true => cases hrow
    | false => exact hheld flush row hrow
  | write flush persisted =>
    cases persisted with
    | true => cases hrow
    | false => exact hheld flush row (List.mem_of_mem_take hrow)
  | finish flush => cases hrow

/-- From a state that has everything, a step keeps everything exactly if it works. -/
theorem step_conserved_iff (hs : s.Sound) (hconserved : s.Conserved) (h : s.step a = some t) :
    t.Conserved ↔ a.Works := by
  have hbalance : ∀ k, t.metered k + amount k (s.lostBy a) = amount k t.recorded := by
    intro k
    have hstep := step_conserves hs h k
    rw [hconserved k, add_comm (amount k s.recorded)] at hstep
    exact add_right_cancel hstep
  rw [← lostBy_eq_nil h]
  constructor
  · intro hkept
    refine List.eq_nil_iff_forall_not_mem.mpr fun row hrow => ?_
    refine exists_amount_ne_zero hrow usage_eq_zero (lostBy_ne_zero hs row hrow) ?_
    have hrow' := hbalance row.1
    rw [hkept row.1] at hrow'
    exact add_eq_left.mp hrow'
  · intro hnil k
    have hk := hbalance k
    rwa [hnil, amount_nil, add_zero] at hk

end Step

theorem start_sound : Metering.start.Sound := ⟨List.nodup_nil, by simp [Metering.start],
  by simp [Metering.start]⟩

theorem start_conserved : Metering.start.Conserved := fun _ => rfl

/-- The runs in which every recorded call is stored, in memory or with a flush at every moment
are those whose every import and every row write works. -/
theorem metered_iff (tr : List Act) (t : Metering) :
    Steps (Keeping (Takes Metering.step) Metering.Conserved) .start tr t ↔
      Steps (Guarded (Takes Metering.step) fun _ a => a.Works) .start tr t :=
  Steps.keeping_iff start_sound start_conserved (fun _ _ _ hs h => step_sound hs h)
    fun _ _ _ hs hconserved h => step_conserved_iff hs hconserved h

/-- 500 metrics of one request, and a flush whose row is not persisted. -/
def failedWrite : List Act :=
  [.record ⟨"aws", some "standard", (1, 500), none, none⟩, .take 1, .importOpLog 1 true,
    .write 1 false, .finish 1]

/-- The flush returns that it wrote one row, and the counts are nowhere. -/
theorem failedWrite_lost :
    ∃ t, Steps (Takes Metering.step) .start failedWrite.reverse t ∧ t.returned = [1] ∧
      ¬ t.Conserved := by
  have hplay : play Metering.step .start failedWrite = some ⟨[], [], [],
      [(⟨"aws", "standard", "collector", "GetMetricData"⟩, (1, 500))], [1]⟩ := by
    simp [failedWrite, play, Metering.step, Metering.start, Metering.record, Metering.take,
      Metering.importOpLog, Metering.write, Metering.finish, Call.resolve, orElse,
      defaultOperation, upsert, find, KeyedStore.write, dropWhere, sortedItems]
  refine ⟨_, play_steps hplay, rfl, fun hconserved => ?_⟩
  have hk := hconserved ⟨"aws", "standard", "collector", "GetMetricData"⟩
  simp only [Metering.metered, Metering.held, amount_cons, amount_nil, List.map_nil,
    List.sum_nil, if_true, add_zero] at hk
  cases congrArg Prod.fst hk

end MonitoringHub.UsageMetering
