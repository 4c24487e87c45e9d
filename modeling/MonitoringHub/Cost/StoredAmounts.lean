import MonitoringHub.Cost.PagesLeft
import MonitoringHub.Lib.Overwrites

/-! Whether the stored cost of a day is the cost that was reported for it. Azure's rows are added up
page by page, the rows of all pages are cut to the width of the columns and upserted; AWS's rows
are upserted as they come. What a later row of the same stored key overwrites is lost, and so is
what stands on the pages behind the last that is read. -/

namespace MonitoringHub.Cost
open Lib KeyedStore GroupTally Overwrites
open TagScript (Text lit)

/-- What is stored under a key. -/
structure StoredCost where
  amountUsd : ℤ
  quantity : Option ℤ
  unit : Option Text

section Save
variable (collate : Text → Text)

/-- The primary key of `cloud_cost_actuals` behind the provider, as the collation compares it. -/
def CostRow.storedKey (r : CostRow) : (Text × Text) × Text × ℤ :=
  ((collate (r.billedAccount.take 100), collate (r.region.take 60)), collate (r.sku.take 160),
    r.usageDate)

/-- The rows of `_save` in an empty table. -/
def saveAzure (rows : List CostRow) : List (((Text × Text) × Text × ℤ) × StoredCost) :=
  upserts (CostRow.storedKey collate) (fun r => ⟨r.amountUsd, r.quantity, r.unit⟩) rows []

/-- The primary key of `aws_cost_actuals`. -/
def CeRow.storedKey (r : CeRow) : Text × Text × ℤ :=
  (collate r.billedAccountId, collate (r.usageType.take 120), r.usageDate)

def saveAws (rows : List CeRow) : List ((Text × Text × ℤ) × StoredCost) :=
  upserts (CeRow.storedKey collate) (fun r => ⟨r.amountUsd, r.quantity, r.unit⟩) rows []

end Save

/-- The amounts stored for a day. -/
def storedOn {κ : Type} (dayOf : κ → ℤ) (d : ℤ) (table : List (κ × StoredCost)) : ℤ :=
  ((table.filter fun e => dayOf e.1 = d).map fun e => e.2.amountUsd).sum

/-! What is reported. -/

/-- Page `i` of a subscription that has these pages. -/
def azurePage (pages : List AzureProps) (i : ℕ) : AzurePayload where
  properties := some
    { pages.getD i ⟨[], [], []⟩ with
      nextLink := if i + 1 < pages.length then lit "next" else [] }
  bare := ⟨[], [], []⟩

def azurePages (pages : List AzureProps) : AzureAnswers := fun i =>
  .ok { statusCode := 200, body := .ok (azurePage pages i) }

def azureCloud (subscriptionId : Text) (pages : List AzureProps) : AzureCloud :=
  ⟨.ok true, subscriptionId, .ok (), azurePages pages⟩

/-- Page `i` of an account that has these pages. -/
def awsPage (pages : List (List CePeriod)) (i : ℕ) : CePage where
  resultsByTime := pages.getD i []
  nextPageToken := if i + 1 < pages.length then lit "next" else []

def awsCloud (pages : List (List CePeriod)) : CeCloud :=
  ⟨.ok (), fun i => .ok (awsPage pages i)⟩

/-- The rows of a page that can be read. -/
def readableRows (page : AzureProps) : List Reported :=
  (reportedRows ⟨some page, ⟨[], [], []⟩⟩).toOption.getD []

def reportedOn (d : ℤ) (rows : List Reported) : ℤ :=
  ((rows.filter fun r => r.day = d).map Reported.amount).sum

section Azure
variable {collate : Text → Text} {sub : Text} {d : ℤ}

/-- The stored key of what is added up under a key. -/
def cutKey (collate : Text → Text) (sub : Text) (k : MeterKey) : (Text × Text) × Text × ℤ :=
  (costRow sub (k, 0, none)).storedKey collate

theorem parsePages_ok {pages : List AzurePayload} {rows : List CostRow}
    (h : parsePages sub pages = .ok rows) :
    ∃ batches : List (List Reported), pages.map reportedRows = batches.map .ok ∧
      rows = (batches.flatMap merged).map (costRow sub) := by
  induction pages generalizing rows with
  | nil =>
    cases h
    exact ⟨[], rfl, rfl⟩
  | cons data pages ih =>
    rw [parsePages, parseAzureQuery] at h
    cases hdata : reportedRows data with
    | error e => rw [hdata] at h; cases h
    | ok batch =>
      cases hpages : parsePages sub pages with
      | error e => rw [hdata, hpages] at h; cases h
      | ok rest =>
        rw [hdata, hpages] at h
        cases h
        obtain ⟨batches, hbatches, rfl⟩ := ih hpages
        refine ⟨batch :: batches, ?_, ?_⟩
        · rw [List.map_cons, List.map_cons, hdata, hbatches]
        · rw [List.flatMap_cons, List.map_append]

/-- What a merged entry and a reported row add to a day. -/
def mergedOn (d : ℤ) (e : MeterKey × ℤ × Option ℤ) : ℤ := if e.1.2.2 = d then e.2.1 else 0

def Reported.on (d : ℤ) (r : Reported) : ℤ := if r.day = d then r.amount else 0

theorem mergedOn_start (d : ℤ) (r : Reported) : mergedOn d (r.key, 0, none) = 0 := ite_self _

theorem mergedOn_add (d : ℤ) (b : ℤ × Option ℤ) (r : Reported) :
    mergedOn d (r.key, addReported b r) = mergedOn d (r.key, b) + r.on d := by
  unfold mergedOn Reported.on Reported.day addReported
  dsimp only
  split_ifs
  · rfl
  · rfl

theorem reportedOn_eq (rows : List Reported) :
    reportedOn d rows = (rows.map (Reported.on d)).sum := by
  rw [reportedOn, sum_filter]
  simp only [decide_eq_true_eq]
  rfl

theorem storedOn_eq {κ : Type} (dayOf : κ → ℤ) (table : List (κ × StoredCost)) :
    storedOn dayOf d table =
      (table.map fun e => if dayOf e.1 = d then e.2.amountUsd else 0).sum := by
  rw [storedOn, sum_filter]
  simp only [decide_eq_true_eq]

/-- What is stored of a day and what was lost of it make up what was reported. -/
theorem storedOn_saveAzure (collate : Text → Text) (sub : Text) (batches : List (List Reported)) :
    storedOn (fun k => k.2.2) d (saveAzure collate ((batches.flatMap merged).map (costRow sub))) +
        reportedOn d (lost Reported.key (cutKey collate sub) batches) =
      reportedOn d batches.flatten := by
  have hwritten := sum_upserts (CostRow.storedKey collate)
    (fun r => (⟨r.amountUsd, r.quantity, r.unit⟩ : StoredCost))
    (fun e => if e.1.2.2 = d then e.2.amountUsd else 0) ((batches.flatMap merged).map (costRow sub))
  rw [overwritten_map, List.map_map, List.map_map] at hwritten
  have hlost := sum_overwritten_tally Reported.key (fun _ => (0, none)) addReported
    (cutKey collate sub) (mergedOn_start d) (mergedOn_add d) batches
  have hmerged := sum_flatMap_tally Reported.key (fun _ => (0, none)) addReported
    (mergedOn_start d) (mergedOn_add d) batches
  rw [storedOn_eq, reportedOn_eq, reportedOn_eq, ← hlost, ← hmerged]
  exact hwritten

theorem nextUrl_azurePage (pages : List AzureProps) (i : ℕ) :
    (azurePage pages i).nextUrl = [] ↔ pages.length ≤ i + 1 := by
  change (if i + 1 < pages.length then lit "next" else []) = [] ↔ _
  split
  · rename_i hmore
    exact iff_of_false (by decide) (not_le.mpr hmore)
  · rename_i hlast
    exact iff_of_true rfl (not_lt.mp hlast)

theorem pageAt_azurePages (pages : List AzureProps) (made : ℕ) :
    PageAt (azurePages pages) made (azurePage pages made) (made + 1) :=
  ⟨_, .final rfl (fun h => by cases h) rfl, rfl, rfl⟩

/-- What is read of the pages is what stands on the first of them. -/
theorem readPages_azurePages {pages : List AzureProps} {left made : ℕ} (h : made < pages.length) :
    ∃ read made', readPages (azurePages pages) left made = .ok (some read, made') ∧
      read.map reportedRows = ((pages.drop made).take left).map fun page =>
        reportedRows ⟨some page, ⟨[], [], []⟩⟩ := by
  induction left generalizing made with
  | zero => exact ⟨[], made, rfl, rfl⟩
  | succ left ih =>
    have hpage : reportedRows (azurePage pages made) =
        reportedRows ⟨some pages[made], ⟨[], [], []⟩⟩ := by
      have hget : pages.getD made ⟨[], [], []⟩ = pages[made] := by simp [h]
      rw [azurePage, hget]
      rfl
    have hdrop : pages.drop made = pages[made] :: pages.drop (made + 1) :=
      List.drop_eq_getElem_cons h
    rw [readPages_page (pageAt_azurePages pages made), hdrop, List.take_succ_cons, List.map_cons]
    by_cases hlast : pages.length ≤ made + 1
    · refine ⟨[azurePage pages made], made + 1, if_pos ((nextUrl_azurePage pages made).mpr hlast), ?_⟩
      rw [List.map_singleton, hpage, List.drop_eq_nil_of_le hlast, List.take_nil, List.map_nil]
    · obtain ⟨read, made', hread, hrows⟩ := ih (not_le.mp hlast)
      refine ⟨azurePage pages made :: read, made', ?_, ?_⟩
      · rw [if_neg fun hnil => hlast ((nextUrl_azurePage pages made).mp hnil), hread]
        rfl
      · rw [List.map_cons, hpage, hrows]

theorem readableRows_of_ok {pages : List AzureProps} {batches : List (List Reported)}
    (h : pages.map (fun page => reportedRows ⟨some page, ⟨[], [], []⟩⟩) = batches.map .ok) :
    batches = pages.map readableRows := by
  have hread := congrArg (List.map fun r : Except FetchError (List Reported) =>
    r.toOption.getD []) h
  rw [List.map_map, List.map_map] at hread
  refine Eq.trans ?_ hread.symm
  exact (List.map_id' batches).symm

/-- The rows of a fetch are those of the first pages, added up page by page. -/
theorem fetch_azureCloud {pages : List AzureProps} {rows : List CostRow} {made : ℕ}
    (h : (azureCloud sub pages).fetch = .ok (rows, made)) :
    rows = (((pages.take azureMaxPages).map readableRows).flatMap merged).map (costRow sub) := by
  have hsub : sub ≠ [] := by
    rintro rfl
    cases h
  obtain ⟨read, made', hread, hrows⟩ : ∃ read made',
      readPages (azurePages pages) azureMaxPages 0 = .ok (some read, made') ∧
        ∀ batches : List (List Reported), read.map reportedRows = batches.map .ok →
          batches = (pages.take azureMaxPages).map readableRows := by
    by_cases hpages : 0 < pages.length
    · obtain ⟨read, made', hread, hrows⟩ := readPages_azurePages hpages
      refine ⟨read, made', hread, fun batches hbatches => readableRows_of_ok ?_⟩
      rw [← hbatches, hrows, List.drop_zero]
    · obtain rfl := List.length_eq_zero_iff.mp (Nat.eq_zero_of_not_pos hpages)
      refine ⟨[azurePage [] 0], 1, ?_, fun batches hbatches => ?_⟩
      · exact (readPages_page (pageAt_azurePages [] 0) 11).trans
          (if_pos ((nextUrl_azurePage [] 0).mpr (Nat.zero_le _)))
      · cases batches with
        | nil => rfl
        | cons batch batches =>
          have hnone : reportedRows (azurePage [] 0) = .error .noColumns := rfl
          rw [List.map_singleton, hnone] at hbatches
          cases hbatches
  have hpages : (azureCloud sub pages).pages = .ok (read, made') := by
    change (if sub = [] then _ else readColumns (azurePages pages) costColumns 0) = _
    rw [if_neg hsub, costColumns, readColumns, hread]
  rw [AzureCloud.fetch_of_pages hpages] at h
  cases hparse : parsePages sub read with
  | error e =>
    rw [show (azureCloud sub pages).subscriptionId = sub from rfl, hparse] at h
    cases h
  | ok rows' =>
    rw [show (azureCloud sub pages).subscriptionId = sub from rfl, hparse] at h
    cases h
    obtain ⟨batches, hbatches, rfl⟩ := parsePages_ok hparse
    rw [← hrows batches hbatches]

theorem reportedOn_append (rows rows' : List Reported) :
    reportedOn d (rows ++ rows') = reportedOn d rows + reportedOn d rows' := by
  rw [reportedOn, List.filter_append, List.map_append, List.sum_append]
  rfl

end Azure

section Aws
variable {collate : Text → Text} {d : ℤ}

/-- The rows of a page. -/
def ceRows (page : List CePeriod) : List CeRow := parseCostResponse [⟨page, []⟩]

def ceReportedOn (d : ℤ) (rows : List CeRow) : ℤ :=
  ((rows.filter fun r => r.usageDate = d).map CeRow.amountUsd).sum

theorem ceReportedOn_append (rows rows' : List CeRow) :
    ceReportedOn d (rows ++ rows') = ceReportedOn d rows + ceReportedOn d rows' := by
  rw [ceReportedOn, List.filter_append, List.map_append, List.sum_append]
  rfl

theorem ceReportedOn_eq (rows : List CeRow) :
    ceReportedOn d rows = (rows.map fun r => if r.usageDate = d then r.amountUsd else 0).sum := by
  rw [ceReportedOn, sum_filter]
  simp only [decide_eq_true_eq]

theorem storedOn_saveAws (collate : Text → Text) (rows : List CeRow) :
    storedOn (fun k => k.2.2) d (saveAws collate rows) +
        ceReportedOn d (overwritten (CeRow.storedKey collate) rows) =
      ceReportedOn d rows := by
  have hwritten := sum_upserts (CeRow.storedKey collate)
    (fun r => (⟨r.amountUsd, r.quantity, r.unit⟩ : StoredCost))
    (fun e => if e.1.2.2 = d then e.2.amountUsd else 0) rows
  rw [storedOn_eq, ceReportedOn_eq, ceReportedOn_eq]
  exact hwritten

theorem parseCostResponse_cons (page : CePage) (pages : List CePage) :
    parseCostResponse (page :: pages) = ceRows page.resultsByTime ++ parseCostResponse pages := by
  rw [ceRows, parseCostResponse, parseCostResponse, parseCostResponse, List.flatMap_cons,
    List.flatMap_singleton]

theorem readCePages_awsCloud (pages : List (List CePeriod)) (left made : ℕ) :
    ∃ read requests truncated,
      readCePages (awsCloud pages).answers left made = .ok (read, requests, truncated) ∧
        parseCostResponse read = ((pages.drop made).take left).flatMap ceRows ∧
        (made < pages.length → truncated = decide (made + left < pages.length)) := by
  induction left generalizing made with
  | zero => exact ⟨[], made, true, rfl, rfl, fun h => (decide_eq_true h).symm⟩
  | succ left ih =>
    have hanswer : (awsCloud pages).answers made = .ok (awsPage pages made) := rfl
    have htoken : (awsPage pages made).nextPageToken =
      if made + 1 < pages.length then lit "next" else [] := rfl
    have hresults : (awsPage pages made).resultsByTime = pages.getD made [] := rfl
    rw [readCePages, hanswer]
    by_cases hmore : made + 1 < pages.length
    · obtain ⟨read, requests, truncated, hread, hrows, htruncated⟩ := ih (made + 1)
      have hin : made < pages.length := Nat.lt_of_succ_lt hmore
      have hnext : lit "next" ≠ [] := by decide
      refine ⟨awsPage pages made :: read, requests, truncated, ?_, ?_, fun _ => ?_⟩
      · simp only [htoken, if_pos hmore, if_neg hnext, hread]
        rfl
      · rw [parseCostResponse_cons, hrows, List.drop_eq_getElem_cons hin, List.take_succ_cons,
          List.flatMap_cons, hresults]
        simp [hin]
      · rw [htruncated hmore, Nat.add_right_comm, Nat.add_assoc]
    · refine ⟨[awsPage pages made], made + 1, false, ?_, ?_, fun _ => ?_⟩
      · simp only [htoken, if_neg hmore, if_true]
      · rw [parseCostResponse_cons, hresults]
        by_cases hin : made < pages.length
        · rw [List.drop_eq_getElem_cons hin, List.drop_eq_nil_of_le (not_lt.mp hmore)]
          simp [hin, parseCostResponse]
        · rw [List.drop_eq_nil_of_le (not_lt.mp hin)]
          simp [hin, parseCostResponse, ceRows]
      · exact (decide_eq_false (by omega)).symm

/-- The rows of a fetch are those of the first pages. -/
theorem fetch_awsCloud {pages : List (List CePeriod)} {limit requests : ℕ} {rows : List CeRow}
    {truncated : Bool} (h : (awsCloud pages).fetch limit = .ok (rows, requests, truncated)) :
    rows = (pages.take limit).flatMap ceRows := by
  obtain ⟨read, requests', truncated', hread, hrows, -⟩ := readCePages_awsCloud pages limit 0
  have hpages : (awsCloud pages).pages limit = .ok (read, requests', truncated') := hread
  rw [CeCloud.fetch, hpages] at h
  cases h
  rw [hrows, List.drop_zero]

/-- The status by the number of pages, as the history of the refreshes has it. -/
theorem status_awsCloud {pages : List (List CePeriod)} (hpages : pages ≠ []) (window : ℕ) :
    ((awsCloud pages).refreshAccount window).status = Provider.aws.statusOf window pages.length := by
  obtain ⟨read, requests, truncated, hread, -, htruncated⟩ := readCePages_awsCloud pages
    (if window = refreshDays then maxPages else maxPagesBackfill) 0
  have hfetch : (awsCloud pages).fetch
      (if window = refreshDays then maxPages else maxPagesBackfill) =
        .ok (parseCostResponse read, requests, truncated) := by
    have hok : (awsCloud pages).pages
      (if window = refreshDays then maxPages else maxPagesBackfill) =
        .ok (read, requests, truncated) := hread
    rw [CeCloud.fetch, hok]
    rfl
  rw [Nat.zero_add] at htruncated
  have hcut : Provider.aws.truncated window pages.length = truncated :=
    (htruncated (List.length_pos_iff.mpr hpages)).symm
  rw [CeCloud.refreshAccount, hfetch, Provider.statusOf, hcut]
  cases truncated <;> rfl

end Aws

/-- The stored amounts of every day are the reported ones exactly when, day by day, what is
overwritten and what stands on pages that are not read come to nothing. -/
theorem storedOn_iff (collate : Text → Text) :
    (∀ (sub : Text) (pages : List AzureProps) (rows : List CostRow) (made : ℕ),
      (azureCloud sub pages).fetch = .ok (rows, made) →
        ((∀ d, storedOn (fun k => k.2.2) d (saveAzure collate rows) =
            reportedOn d (pages.flatMap readableRows)) ↔
          ∀ d, reportedOn d (lost Reported.key (cutKey collate sub)
              ((pages.take azureMaxPages).map readableRows)) +
            reportedOn d ((pages.drop azureMaxPages).flatMap readableRows) = 0)) ∧
    (∀ (pages : List (List CePeriod)) (limit : ℕ) (rows : List CeRow) (requests : ℕ)
      (truncated : Bool), (awsCloud pages).fetch limit = .ok (rows, requests, truncated) →
        ((∀ d, storedOn (fun k => k.2.2) d (saveAws collate rows) =
            ceReportedOn d (pages.flatMap ceRows)) ↔
          ∀ d, ceReportedOn d (overwritten (CeRow.storedKey collate)
              ((pages.take limit).flatMap ceRows)) +
            ceReportedOn d ((pages.drop limit).flatMap ceRows) = 0)) := by
  constructor
  · intro sub pages rows made h
    rw [fetch_azureCloud h]
    refine forall_congr' fun d => ?_
    have hwritten := storedOn_saveAzure (d := d) collate sub
      ((pages.take azureMaxPages).map readableRows)
    have hsplit : reportedOn d (pages.flatMap readableRows) =
        reportedOn d ((pages.take azureMaxPages).map readableRows).flatten +
          reportedOn d ((pages.drop azureMaxPages).flatMap readableRows) := by
      rw [← List.flatMap_def, ← reportedOn_append, ← List.flatMap_append, List.take_append_drop]
    omega
  · intro pages limit rows requests truncated h
    rw [fetch_awsCloud h]
    refine forall_congr' fun d => ?_
    have hwritten := storedOn_saveAws (d := d) collate
      ((pages.take limit).flatMap ceRows)
    have hsplit : ceReportedOn d (pages.flatMap ceRows) =
        ceReportedOn d ((pages.take limit).flatMap ceRows) +
          ceReportedOn d ((pages.drop limit).flatMap ceRows) := by
      rw [← ceReportedOn_append, ← List.flatMap_append, List.take_append_drop]
    omega

/-- A page with one dollar for metric queries. -/
def dollarPage : AzureProps where
  columns := [lit "CostUSD", lit "UsageDate", lit "Meter"]
  rows := [[⟨lit "1.0", true, some 1000000⟩, ⟨lit "20261015", true, some 20261015000000⟩,
    ⟨lit "Metric Queries", true, none⟩]]
  nextLink := []

/-- A day with one dollar for requests. -/
def dollarPeriod : CePeriod :=
  ⟨some 739904, false, [⟨[lit "CW:Requests", lit "111122223333"], some 1000000, none, []⟩]⟩

theorem onePage_stored :
    (∃ rows made, (azureCloud (lit "sub-1") [dollarPage]).fetch = .ok (rows, made) ∧
      ((∀ d, storedOn (fun k => k.2.2) d (saveAzure id rows) =
          reportedOn d ([dollarPage].flatMap readableRows)) ↔
        ∀ d, reportedOn d (lost Reported.key (cutKey id (lit "sub-1"))
            (([dollarPage].take azureMaxPages).map readableRows)) +
          reportedOn d (([dollarPage].drop azureMaxPages).flatMap readableRows) = 0)) ∧
    ∃ rows requests truncated,
      (awsCloud [[dollarPeriod]]).fetch maxPages = .ok (rows, requests, truncated) ∧
        ((∀ d, storedOn (fun k => k.2.2) d (saveAws id rows) =
            ceReportedOn d ([[dollarPeriod]].flatMap ceRows)) ↔
          ∀ d, ceReportedOn d (overwritten (CeRow.storedKey id)
              (([[dollarPeriod]].take maxPages).flatMap ceRows)) +
            ceReportedOn d (([[dollarPeriod]].drop maxPages).flatMap ceRows) = 0) :=
  ⟨⟨_, _, rfl, (storedOn_iff id).1 (lit "sub-1") [dollarPage] _ _ rfl⟩,
    _, _, _, rfl, (storedOn_iff id).2 [[dollarPeriod]] maxPages _ _ _ rfl⟩

/-- The same meter on two pages: two dollars are reported and one is stored. -/
theorem twoPages_halved : ∃ rows made,
    (azureCloud (lit "sub-1") [dollarPage, dollarPage]).fetch = .ok (rows, made) ∧
      storedOn (fun k => k.2.2) 739904 (saveAzure id rows) = 1000000 ∧
      reportedOn 739904 ([dollarPage, dollarPage].flatMap readableRows) = 2000000 :=
  ⟨_, _, rfl, by decide, by decide⟩

end MonitoringHub.Cost
