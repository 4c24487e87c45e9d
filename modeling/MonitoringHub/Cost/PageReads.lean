import MonitoringHub.Cost.CostRows

/-! How far the pages of billed cost are read and what the fetch log says of it. Azure's pages are
followed by a link, a column name that is rejected gives way to the next, a throttled request is
sent again; AWS's pages are followed by a token. -/

namespace MonitoringHub.Cost
open TagScript (Text)

def azureMaxPages : ℕ := 12
def maxPages : ℕ := 5
def maxPagesBackfill : ℕ := 12
def attempts : ℕ := 4

/-- The cost columns, in the order they are tried. -/
def costColumns : List String := ["CostUSD", "PreTaxCostUSD", "PreTaxCost"]

/-- `body` is what `resp.json()` gives or raises. -/
structure AzureResponse where
  statusCode : ℕ
  body : Except String AzurePayload

/-- What the requests are answered, in the order they are sent; one may raise. -/
abbrev AzureAnswers := ℕ → Except String AzureResponse

/-- One page's request, sent again while it is throttled. -/
def postPage (answers : AzureAnswers) : ℕ → ℕ → Except FetchError (AzureResponse × ℕ)
  | 0, _ => .error (.raised "AttributeError")
  | tries + 1, made =>
    match answers made with
    | .error name => .error (.raised name)
    | .ok resp =>
      if resp.statusCode = 429 ∧ tries ≠ 0 then postPage answers tries (made + 1)
      else .ok (resp, made + 1)

/-- `(data.get("properties") or {}).get("nextLink")` -/
def AzurePayload.nextUrl (data : AzurePayload) : Text :=
  (data.properties.map AzureProps.nextLink).getD []

/-- The pages of one column, `none` where the column is rejected, and the requests made. -/
def readPages (answers : AzureAnswers) :
    ℕ → ℕ → Except FetchError (Option (List AzurePayload) × ℕ)
  | 0, made => .ok (some [], made)
  | left + 1, made =>
    match postPage answers attempts made with
    | .error e => .error e
    | .ok (resp, made) =>
      if resp.statusCode = 401 ∨ resp.statusCode = 403 then .error .permission
      else if resp.statusCode = 400 then .ok (none, made)
      else if resp.statusCode ≠ 200 then .error (.http resp.statusCode)
      else
        match resp.body with
        | .error name => .error (.raised name)
        | .ok data =>
          if data.nextUrl = [] then .ok (some [data], made)
          else (readPages answers left made).map fun (rest, made) =>
            (rest.map (data :: ·), made)

def readColumns (answers : AzureAnswers) :
    List String → ℕ → Except FetchError (List AzurePayload × ℕ)
  | [], _ => .error .columnsRejected
  | _ :: columns, made =>
    match readPages answers azureMaxPages made with
    | .error e => .error e
    | .ok (some pages, made) => .ok (pages, made)
    | .ok (none, made) => readColumns answers columns made

/-- A subscription: what `load_credential` gives or raises, its id, whether a token is got. -/
structure AzureCloud where
  credential : Except String Bool
  subscriptionId : Text
  token : Except String Unit
  answers : AzureAnswers

/-- The pages `fetch_azure` reads, and the requests it makes. -/
def AzureCloud.pages (c : AzureCloud) : Except FetchError (List AzurePayload × ℕ) :=
  match c.credential with
  | .error name => .error (.raised name)
  | .ok false => .error .noCredential
  | .ok true =>
    if c.subscriptionId = [] then .error .noSubscription
    else
      match c.token with
      | .error name => .error (.raised name)
      | .ok () => readColumns c.answers costColumns 0

/-- `fetch_azure` -/
def AzureCloud.fetch (c : AzureCloud) : Except FetchError (List CostRow × ℕ) := do
  let (pages, made) ← c.pages
  let rows ← parsePages c.subscriptionId pages
  return (rows, made)

/-- An account by what its session and its requests give; what fails gives its error code. -/
structure CeCloud where
  session : Except String Unit
  answers : ℕ → Except String CePage

/-- The pages, the requests made and whether the limit cut them off. -/
def readCePages (answers : ℕ → Except String CePage) :
    ℕ → ℕ → Except String (List CePage × ℕ × Bool)
  | 0, requests => .ok ([], requests, true)
  | left + 1, requests =>
    match answers requests with
    | .error code => .error code
    | .ok page =>
      if page.nextPageToken = [] then .ok ([page], requests + 1, false)
      else (readCePages answers left (requests + 1)).map fun (pages, requests, truncated) =>
        (page :: pages, requests, truncated)

def CeCloud.pages (c : CeCloud) (maxPages : ℕ) : Except String (List CePage × ℕ × Bool) :=
  match c.session with
  | .error code => .error code
  | .ok () => readCePages c.answers maxPages 0

/-- `fetch_cloudwatch_cost_ex` -/
def CeCloud.fetch (c : CeCloud) (maxPages : ℕ) : Except String (List CeRow × ℕ × Bool) :=
  (c.pages maxPages).map fun (pages, requests, truncated) =>
    (parseCostResponse pages, requests, truncated)

/-- `classify_error` of Cost Explorer -/
def ceStatus (code : String) : CostStatus :=
  if code ∈ ["AccessDeniedException", "AccessDenied", "UnauthorizedOperation"] then
    .permissionMissing
  else if code ∈ ["DataUnavailableException", "OptInRequired", "SubscriptionRequiredException"] then
    .notEnabled
  else .error

inductive CostError
  | fetch (e : FetchError)
  | costExplorer (code : String)
  | incomplete (requests : ℕ)

structure CostLogRow where
  status : CostStatus
  requests : ℕ
  rowsWritten : ℕ
  error : Option CostError
  windowDays : Option ℕ

/-- `_backfilled`; `read` says whether the log can be read. -/
def backfilled (log : List CostLogRow) (read : Bool) : Bool :=
  read && ((log.filter fun r => r.status = .ok).filterMap CostLogRow.windowDays).max?.any
    fun w => backfillDays ≤ w

def windowFor (log : List CostLogRow) (read : Bool) : ℕ :=
  if backfilled log read then refreshDays else backfillDays

inductive CostCloud
  | aws (c : CeCloud)
  | azure (c : AzureCloud)

/-- How `_save` ends; only that of AWS can do without the column of the window. -/
inductive SaveEnd
  | stored
  | withoutWindow
  | failed
  deriving DecidableEq

/-- The log row of `refresh_account` of an AWS account. -/
def CeCloud.refreshAccount (c : CeCloud) (window : ℕ) : CostLogRow :=
  match c.fetch (if window = refreshDays then maxPages else maxPagesBackfill) with
  | .error code => ⟨ceStatus code, 0, 0, some (.costExplorer code), none⟩
  | .ok (rows, requests, true) => ⟨.error, requests, rows.length, some (.incomplete requests), none⟩
  | .ok (rows, requests, false) => ⟨.ok, requests, rows.length, none, some window⟩

/-- The log row of `refresh_account` of a subscription. -/
def AzureCloud.refreshAccount (c : AzureCloud) (window : ℕ) : CostLogRow :=
  match c.fetch with
  | .error e => ⟨e.status, 0, 0, some (.fetch e), none⟩
  | .ok (rows, requests) => ⟨.ok, requests, rows.length, none, some window⟩

/-- The fetch log after `refresh_account`, newest row first. -/
def CostCloud.refreshAccount (cloud : CostCloud) (read : Bool) (save : SaveEnd)
    (log : List CostLogRow) : List CostLogRow :=
  match cloud, save with
  | _, .failed => log
  | .aws c, .stored => c.refreshAccount (windowFor log read) :: log
  | .aws c, .withoutWindow =>
    { c.refreshAccount (windowFor log read) with windowDays := none } :: log
  | .azure c, .stored => c.refreshAccount (windowFor log read) :: log
  | .azure _, .withoutWindow => log

end MonitoringHub.Cost
