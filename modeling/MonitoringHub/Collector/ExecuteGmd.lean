import MonitoringHub.Collector.GmdRequests
import MonitoringHub.Collector.MetricsWriter

/-! What `_execute_gmd` stores of the answers to its requests. A Sum series without values is
stored as zero, whatever status its result has: complete, cut short or refused. -/

namespace MonitoringHub.Gmd
open Lib Lib.KeyedStore Lib.GroupTally Ingest MetricsWriter

/-- `StatusCode` of a result, as CloudWatch documents it. -/
inductive StatusCode
  | complete | partialData | internalError | forbidden
  deriving DecidableEq

/-- A result of one page: datapoints newest first. -/
structure ResultPart where
  id : String
  timestamps : List ℕ
  values : List ℚ
  statusCode : StatusCode

structure Page where
  results : List ResultPart
  nextToken : Option String

def Page.hasNext (page : Page) : Bool := page.nextToken.any fun token => token ≠ ""

/-- `_GMD_MAX_PAGES` -/
def gmdMaxPages : ℕ := 50

/-- The pages of a request from the `n`-th on, `left` at most; none if a call fails. -/
def pagesFrom (answers : ℕ → Option Page) : ℕ → ℕ → Option (List Page)
  | 0, _ => some []
  | left + 1, n =>
    match answers n with
    | none => none
    | some page =>
      if page.hasNext then (pagesFrom answers left (n + 1)).map (page :: ·) else some [page]

def readPages (answers : ℕ → Option Page) : Option (List Page) :=
  pagesFrom answers gmdMaxPages 0

def parts (pages : List Page) : List ResultPart := pages.flatMap Page.results

/-- `merged`: the datapoints of each id over the pages. -/
def merged (pages : List Page) : List (String × List ℕ × List ℚ) :=
  tally ResultPart.id (fun _ => ([], []))
    (fun series part => (series.1 ++ part.timestamps, series.2 ++ part.values)) (parts pages)

/-- `_get_metric_data_all_pages` -/
def getMetricDataAllPages (answers : ℕ → Option Page) :
    Option (List (String × List ℕ × List ℚ) × ℕ) :=
  (readPages answers).map fun pages => (merged pages, pages.length)

/-- The rows of one result, for the last values and for the history. -/
structure SeriesRows where
  latest : List (SeriesKey × ℚ)
  history : List ((SeriesKey × ℕ) × ℚ)

def SeriesRows.none : SeriesRows := ⟨[], []⟩

/-- The entry of a query that belongs to a known resource, under the key of its series. -/
def seriesOf (idMap : List (String × SeriesEntry)) (qid : String) :
    Option (SeriesKey × Option String) :=
  (find qid idMap).bind fun entry => entry.resourceDbId.map fun rid =>
    ((rid, entry.dbName), entry.stat)

/-- One turn of the loop over the results. -/
def seriesRows (idMap : List (String × SeriesEntry)) (zeroTs : ℕ)
    (result : String × List ℕ × List ℚ) : SeriesRows :=
  match seriesOf idMap result.1 with
  | none => .none
  | some (k, stat) =>
    match result.2.2 with
    | [] => if stat = some "Sum" then ⟨[(k, 0)], [((k, zeroTs), 0)]⟩ else .none
    | newest :: _ => ⟨[(k, newest)], (result.2.1.zip result.2.2).map fun p => ((k, p.1), p.2)⟩

/-- `_align_window_end` -/
def alignWindowEnd (now period grace : ℕ) : ℕ := (now - grace) - (now - grace) % period

/-- `SETTLE_GRACE_SECONDS` -/
def settleGraceSeconds : ℕ := 180
/-- `SETTLE_GRACE_1MIN_SECONDS` -/
def settleGrace1MinSeconds : ℕ := 180

/-- `_grace_for`, with `NATIVE_1MIN_PERIOD` -/
def graceFor (period : ℕ) : ℕ := if period = 60 then settleGrace1MinSeconds else settleGraceSeconds

/-- `zero_ts`: the last bucket of the window. -/
def zeroTs (now : ℕ) (alignPeriod : Option ℕ) : ℕ :=
  match alignPeriod with
  | none => now
  | some period => alignWindowEnd now period (graceFor period) - period

/-- The answers of CloudWatch: what the calls of each request return. -/
abbrev Answers := ℕ → ℕ → Option Page

/-- The pages of the requests that did not fail. -/
def reads (queries : List Query) (answers : Answers) : List (List Page) :=
  (requestChunks queries).zipIdx.filterMap fun request => readPages (answers request.2)

/-- The rows of all results. -/
def gmdRows (queries : List Query) (idMap : List (String × SeriesEntry)) (zeroTs : ℕ)
    (answers : Answers) : List SeriesRows :=
  ((requestChunks queries).zipIdx.filterMap fun request =>
    getMetricDataAllPages (answers request.2)).flatMap fun read =>
      read.1.map (seriesRows idMap zeroTs)

/-- `_execute_gmd`: the number of series with data, and the two tables. -/
def executeGmd (queries : List Query) (idMap : List (String × SeriesEntry)) (now : ℕ)
    (alignPeriod : Option ℕ) (answers : Answers) (written : ℕ) (tables : MetricTables) :
    ℕ × MetricTables :=
  let rows := gmdRows queries idMap (zeroTs now alignPeriod) answers
  let latest := rows.flatMap SeriesRows.latest
  (latest.length, writeBatches written true latest (rows.flatMap SeriesRows.history) tables)

/-- The datapoints that the pages have for a query. -/
def valuesOf (pages : List Page) (qid : String) : List ℚ :=
  ((parts pages).filter fun part => part.id = qid).flatMap ResultPart.values

/-- What CloudWatch last said of a query. -/
def statusOf (pages : List Page) (qid : String) : Option StatusCode :=
  (((parts pages).filter fun part => part.id = qid).getLast?).map ResultPart.statusCode

/-- No query of the series has a value, and none was reported complete. -/
def Silent (queries : List Query) (idMap : List (String × SeriesEntry)) (answers : Answers)
    (k : SeriesKey) : Prop :=
  ∀ pages ∈ reads queries answers, ∀ qid stat, seriesOf idMap qid = some (k, stat) →
    valuesOf pages qid = [] ∧ statusOf pages qid ≠ some .complete

section Rows
variable {queries : List Query} {idMap : List (String × SeriesEntry)} {answers : Answers}
  {pages : List Page} {qid : String} {k : SeriesKey} {zero : ℕ}

theorem foldl_series (group : List ResultPart) (series : List ℕ × List ℚ) :
    group.foldl (fun series part => (series.1 ++ part.timestamps, series.2 ++ part.values)) series =
      (series.1 ++ group.flatMap ResultPart.timestamps,
        series.2 ++ group.flatMap ResultPart.values) := by
  induction group generalizing series with
  | nil => simp
  | cons part group ih => simp [ih]

theorem merged_values {datapoints : List ℕ × List ℚ} (h : (qid, datapoints) ∈ merged pages) :
    datapoints.2 = valuesOf pages qid := by
  rw [merged, mem_tally] at h
  rw [valuesOf]
  cases hgroup : (parts pages).filter fun part => part.id = qid with
  | nil =>
    rw [hgroup] at h
    cases h
  | cons part group =>
    rw [hgroup, groupOf, foldl_series] at h
    rw [← Option.some.inj h]
    exact List.nil_append _

theorem mem_gmdRows {rows : SeriesRows} : rows ∈ gmdRows queries idMap zero answers ↔
    ∃ pages ∈ reads queries answers, ∃ result ∈ merged pages,
      seriesRows idMap zero result = rows := by
  simp only [gmdRows, reads, getMetricDataAllPages, List.mem_flatMap, List.mem_filterMap,
    List.mem_map, Option.map_eq_some_iff]
  constructor
  · rintro ⟨_, ⟨request, hrequest, pages, hpages, rfl⟩, result, hresult, rfl⟩
    exact ⟨pages, ⟨request, hrequest, hpages⟩, result, hresult, rfl⟩
  · rintro ⟨pages, ⟨request, hrequest, hpages⟩, result, hresult, rfl⟩
    exact ⟨_, ⟨request, hrequest, pages, hpages, rfl⟩, result, hresult, rfl⟩

/-- The rows of a result are of its own series. -/
theorem key_of_seriesRows {result : String × List ℕ × List ℚ}
    (h : (∃ row ∈ (seriesRows idMap zero result).latest, row.1 = k) ∨
      ∃ row ∈ (seriesRows idMap zero result).history, row.1.1 = k) :
    ∃ stat, seriesOf idMap result.1 = some (k, stat) ∧
      (result.2.2 = [] → stat = some "Sum") := by
  unfold seriesRows at h
  cases hseries : seriesOf idMap result.1 with
  | none => simp [hseries, SeriesRows.none] at h
  | some series =>
    obtain ⟨k', stat⟩ := series
    refine ⟨stat, ?_⟩
    cases hvalues : result.2.2 with
    | nil =>
      by_cases hsum : stat = some "Sum"
      · have hk : k' = k := by simpa [hseries, hvalues, hsum] using h
        exact ⟨by rw [hk], fun _ => hsum⟩
      · simp [hseries, hvalues, hsum, SeriesRows.none] at h
    | cons newest older =>
      have hk : k' = k := by
        simp only [hseries, hvalues, List.mem_singleton, exists_eq_left, List.mem_map] at h
        rcases h with hk | ⟨_, ⟨_, _, rfl⟩, hk⟩
        · exact hk
        · exact hk
      exact ⟨by rw [hk], fun hnil => absurd hnil (List.cons_ne_nil newest older)⟩

/-- A Sum result without values is stored as zero. -/
theorem zero_stored {part : ResultPart} (hpages : pages ∈ reads queries answers)
    (hpart : part ∈ parts pages) (hseries : seriesOf idMap part.id = some (k, some "Sum"))
    (hvalues : valuesOf pages part.id = []) :
    ∃ rows ∈ gmdRows queries idMap zero answers, (k, 0) ∈ rows.latest := by
  obtain ⟨datapoints, hmerged⟩ := exists_mem_tally ResultPart.id (fun _ => ([], []))
    (fun series part => (series.1 ++ part.timestamps, series.2 ++ part.values)) hpart
  refine ⟨_, mem_gmdRows.mpr ⟨pages, hpages, _, hmerged, rfl⟩, ?_⟩
  have hnone : datapoints.2 = [] := (merged_values hmerged).trans hvalues
  simp [seriesRows, hseries, hnone]

end Rows

/-- A silent series gets no row and keeps its last value and its history. -/
def ZerosReal (queries : List Query) (idMap : List (String × SeriesEntry)) (now : ℕ)
    (alignPeriod : Option ℕ) (answers : Answers) (written : ℕ) (tables : MetricTables) : Prop :=
  ∀ k, Silent queries idMap answers k →
    (∀ rows ∈ gmdRows queries idMap (zeroTs now alignPeriod) answers,
      (∀ row ∈ rows.latest, row.1 ≠ k) ∧ ∀ row ∈ rows.history, row.1.1 ≠ k) ∧
    SameSeries k tables (executeGmd queries idMap now alignPeriod answers written tables).2

/-- No answer that was read has a result for a Sum query of a silent series. -/
def EmptySumsComplete (queries : List Query) (idMap : List (String × SeriesEntry))
    (answers : Answers) : Prop :=
  ∀ pages ∈ reads queries answers, ∀ part ∈ parts pages, ∀ k,
    seriesOf idMap part.id = some (k, some "Sum") → ¬ Silent queries idMap answers k

theorem zerosReal_iff (queries : List Query) (idMap : List (String × SeriesEntry)) (now : ℕ)
    (alignPeriod : Option ℕ) (answers : Answers) (written : ℕ) (tables : MetricTables) :
    ZerosReal queries idMap now alignPeriod answers written tables ↔
      EmptySumsComplete queries idMap answers := by
  constructor
  · intro hreal pages hpages part hpart k hseries hsilent
    obtain ⟨rows, hrows, hzero⟩ := zero_stored hpages hpart hseries
      (hsilent pages hpages _ _ hseries).1
    exact ((hreal k hsilent).1 rows hrows).1 (k, 0) hzero rfl
  · intro hcomplete k hsilent
    have hrows : ∀ rows ∈ gmdRows queries idMap (zeroTs now alignPeriod) answers,
        (∀ row ∈ rows.latest, row.1 ≠ k) ∧ ∀ row ∈ rows.history, row.1.1 ≠ k := by
      intro rows hmem
      obtain ⟨pages, hpages, result, hresult, rfl⟩ := mem_gmdRows.mp hmem
      by_contra hsome
      simp only [not_and_or, not_forall, not_not, exists_prop] at hsome
      obtain ⟨stat, hseries, hsum⟩ := key_of_seriesRows hsome
      have hvalues : result.2.2 = [] :=
        (merged_values hresult).trans (hsilent pages hpages _ _ hseries).1
      rw [hsum hvalues] at hseries
      obtain ⟨part, hpart, hid⟩ := key_of_mem_tally hresult
      exact hcomplete pages hpages part hpart k (hid ▸ hseries) hsilent
    refine ⟨hrows, writeBatches_same written true tables (fun row hrow => ?_) fun row hrow => ?_⟩
    · obtain ⟨rows, hmem, hrow⟩ := List.mem_flatMap.mp hrow
      exact (hrows rows hmem).1 row hrow
    · obtain ⟨rows, hmem, hrow⟩ := List.mem_flatMap.mp hrow
      exact (hrows rows hmem).2 row hrow

/-- The error count of a load balancer. -/
def errorQuery : Query :=
  ⟨"q0", some ⟨"AWS/ApplicationELB", "HTTPCode_Target_5XX_Count", [("LoadBalancer", "app/web/1")],
    60, "Sum"⟩, none, some true⟩

def errorMap : List (String × SeriesEntry) := [("q0", ⟨some 7, "errors5xx", some "Sum"⟩)]

/-- CloudWatch could not read the series. -/
def errorAnswers : Answers := fun _ _ => some ⟨[⟨"q0", [], [], .internalError⟩], none⟩

/-- The count of 12 errors becomes a fresh zero. -/
theorem internalError_zeroed :
    find (7, "errors5xx") (executeGmd [errorQuery] errorMap 6000 (some 60) errorAnswers 6000
      ⟨[((7, "errors5xx"), (12, 5000))], []⟩).2.metrics = some (0, 6000) ∧
    ¬ ZerosReal [errorQuery] errorMap 6000 (some 60) errorAnswers 6000
      ⟨[((7, "errors5xx"), (12, 5000))], []⟩ := by
  have hreads : reads [errorQuery] errorAnswers =
      [[⟨[⟨"q0", [], [], .internalError⟩], none⟩]] := rfl
  have hrows : gmdRows [errorQuery] errorMap (zeroTs 6000 (some 60)) errorAnswers =
      [⟨[((7, "errors5xx"), 0)], [(((7, "errors5xx"), 5760), 0)]⟩] := rfl
  refine ⟨?_, fun hreal => ?_⟩
  · rw [executeGmd, hrows]
    exact (find_writeMetricsBatch ..).trans (by simpa using round6_natCast 0)
  · have hsilent : Silent [errorQuery] errorMap errorAnswers (7, "errors5xx") := by
      rw [Silent, hreads, List.forall_mem_singleton]
      intro qid stat hseries
      have hqid : "q0" = qid := by
        by_contra hne
        simp [seriesOf, errorMap, find, hne] at hseries
      subst hqid
      exact ⟨rfl, by decide⟩
    have hnone := (hreal _ hsilent).1
    rw [hrows, List.forall_mem_singleton] at hnone
    exact hnone.1 _ List.mem_cons_self rfl

end MonitoringHub.Gmd
