import MonitoringHub.Ingest.LastValue

/-! The two batch writers of the collectors: last values are upserted, history rows are kept
or, where the caller asks for it, replaced. -/

namespace MonitoringHub.MetricsWriter
open Lib Lib.KeyedStore Ingest

/-- `write_metrics_batch`, in the order of the unique key -/
def writeMetricsBatch (written : ℕ) (rows : List (SeriesKey × ℚ))
    (metrics : List (SeriesKey × (ℚ × ℕ))) : List (SeriesKey × (ℚ × ℕ)) :=
  upserts Prod.fst (fun row => (round6 row.2, written))
    (rows.mergeSort fun a b => decide (toLex a.1 ≤ toLex b.1)) metrics

/-- `_sorted_for_locking` of the history rows -/
def sortedForLocking (rows : List ((SeriesKey × ℕ) × ℚ)) : List ((SeriesKey × ℕ) × ℚ) :=
  rows.mergeSort fun a b =>
    decide (toLex (toLex a.1.1, a.1.2) ≤ toLex (toLex b.1.1, b.1.2))

/-- `write_metric_history_batch` -/
def writeMetricHistoryBatch (overwrite : Bool) (rows : List ((SeriesKey × ℕ) × ℚ))
    (history : List ((SeriesKey × ℕ) × ℚ)) : List ((SeriesKey × ℕ) × ℚ) :=
  if overwrite then upserts Prod.fst (fun row => round6 row.2) (sortedForLocking rows) history
  else (sortedForLocking rows).foldl
    (fun history row => setDefault row.1 (round6 row.2) history) history

/-- One call of each. -/
def writeBatches (written : ℕ) (overwrite : Bool) (rows : List (SeriesKey × ℚ))
    (historyRows : List ((SeriesKey × ℕ) × ℚ)) (tables : MetricTables) : MetricTables where
  metrics := writeMetricsBatch written rows tables.metrics
  history := writeMetricHistoryBatch overwrite historyRows tables.history

section Find
variable {written : ℕ} {overwrite : Bool} {rows : List (SeriesKey × ℚ)}
  {historyRows : List ((SeriesKey × ℕ) × ℚ)} {tables : MetricTables} {k : SeriesKey} {ts : ℕ}

theorem find_writeMetricsBatch (written : ℕ) (rows : List (SeriesKey × ℚ))
    (metrics : List (SeriesKey × (ℚ × ℕ))) (k : SeriesKey) :
    find k (writeMetricsBatch written rows metrics) =
      (((rows.filter fun row => row.1 = k).getLast?).map fun row => (round6 row.2, written)).or
        (find k metrics) := by
  rw [writeMetricsBatch, find_upserts, filter_mergeSort]
  · intro a b c hab hbc
    exact decide_eq_true ((of_decide_eq_true hab).trans (of_decide_eq_true hbc))
  · intro a b
    simpa using le_total (toLex a.1) (toLex b.1)
  · intro a b ha hb
    rw [of_decide_eq_true ha, of_decide_eq_true hb]
    exact decide_eq_true le_rfl

/-- A sample that no row is about stays as it was. -/
theorem find_writeMetricHistoryBatch (overwrite : Bool)
    {history : List ((SeriesKey × ℕ) × ℚ)} (h : ∀ row ∈ historyRows, row.1 ≠ (k, ts)) :
    find (k, ts) (writeMetricHistoryBatch overwrite historyRows history) =
      find (k, ts) history := by
  have hsorted : ∀ row ∈ sortedForLocking historyRows, row.1 ≠ (k, ts) := fun row hrow =>
    h row ((List.mergeSort_perm historyRows _).mem_iff.mp hrow)
  rw [writeMetricHistoryBatch]
  split
  · have hnil : (sortedForLocking historyRows).filter (fun row => row.1 = (k, ts)) = [] := by
      simpa [List.filter_eq_nil_iff] using hsorted
    rw [find_upserts, hnil]
    rfl
  · generalize sortedForLocking historyRows = sorted at hsorted
    induction sorted generalizing history with
    | nil => rfl
    | cons row sorted ih =>
      rw [List.foldl_cons, ih fun row' hrow' => hsorted row' (List.mem_cons_of_mem _ hrow'),
        setDefault]
      split
      · rfl
      · rw [find_append, find, if_neg (hsorted row List.mem_cons_self), find, Option.or_none]

/-- Whole numbers are stored as they are. -/
theorem round6_natCast (n : ℕ) : round6 n = n := by
  have hfloor : ((n : ℚ) * 1000000).floor = n * 1000000 := by
    rw [show ((n : ℚ) * 1000000) = ((n * 1000000 : ℤ) : ℚ) by push_cast; rfl]
    exact Rat.floor_intCast _
  have hnot : ¬ (1 / 2 < (n : ℚ) * 1000000 - ((n * 1000000 : ℤ) : ℚ) ∨
      (n : ℚ) * 1000000 - ((n * 1000000 : ℤ) : ℚ) = 1 / 2 ∧ (n * 1000000 : ℤ) % 2 = 1) := by
    push_cast
    rw [sub_self]
    norm_num
  rw [round6]
  simp only [hfloor, if_neg hnot]
  push_cast
  exact mul_div_cancel_right₀ _ (by norm_num)

/-- The tables have the same of a series. -/
def SameSeries (k : SeriesKey) (tables tables' : MetricTables) : Prop :=
  find k tables'.metrics = find k tables.metrics ∧
    ∀ ts, find (k, ts) tables'.history = find (k, ts) tables.history

theorem SameSeries.trans {tables tables' tables'' : MetricTables}
    (h : SameSeries k tables tables') (h' : SameSeries k tables' tables'') :
    SameSeries k tables tables'' :=
  ⟨h'.1.trans h.1, fun ts => (h'.2 ts).trans (h.2 ts)⟩

theorem writeBatches_same (written : ℕ) (overwrite : Bool) (tables : MetricTables)
    (hrows : ∀ row ∈ rows, row.1 ≠ k) (hhistory : ∀ row ∈ historyRows, row.1.1 ≠ k) :
    SameSeries k tables (writeBatches written overwrite rows historyRows tables) := by
  constructor
  · have hnil : rows.filter (fun row => row.1 = k) = [] := by
      simpa [List.filter_eq_nil_iff] using hrows
    rw [writeBatches, find_writeMetricsBatch, hnil]
    rfl
  · intro ts
    refine find_writeMetricHistoryBatch overwrite fun row hrow heq => hhistory row hrow ?_
    exact congrArg Prod.fst heq

end Find

end MonitoringHub.MetricsWriter
