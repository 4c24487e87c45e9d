import MonitoringHub.Cost.HistoryWindows
import MonitoringHub.Lib.Calendar
import MonitoringHub.Lib.GroupTally
import MonitoringHub.TagScript.BuildTagPlan

/-! What is read of the billed cost that Azure and AWS answer. Amounts and quantities are counted in
millionths, days from the first day of the calendar. -/

namespace MonitoringHub.Cost
open Lib GroupTally Environments
open TagScript (Text lit digitZeros isDecimal)

/-- A cell of an answer by what is asked of it: its text, whether it is true, and the amount that
`float` reads of it. -/
structure Cell where
  shown : Text
  truthy : Bool
  amount : Option ℤ

/-- The properties of an answer; what is missing is empty. -/
structure AzureProps where
  columns : List Text
  rows : List (List Cell)
  nextLink : Text

/-- An answer with its properties, or with these keys beside them. -/
structure AzurePayload where
  properties : Option AzureProps
  bare : AzureProps

def AzurePayload.props (p : AzurePayload) : AzureProps := p.properties.getD p.bare

/-- `CostFetchError` by its message, and any other exception by its name. -/
inductive FetchError
  | noCredential
  | noSubscription
  | permission
  | http (statusCode : ℕ)
  | columnsRejected
  | noColumns
  | localCurrency (currency : Text)
  | raised (name : String)
  deriving DecidableEq

/-- `classify_error` -/
def FetchError.status : FetchError → CostStatus
  | .noCredential | .noSubscription => .notConfigured
  | .permission => .permissionMissing
  | .http _ | .columnsRejected | .noColumns | .localCurrency _ => .error
  | .raised name =>
    if name ∈ ["Forbidden", "PermissionDenied", "Unauthorized"] then .permissionMissing
    else if name = "NotFound" then .notConfigured
    else .error

/-! Dates. -/

def digitValue (c : Char) : ℕ :=
  ((digitZeros.find? fun z => z ≤ c.toNat && c.toNat < z + 10).map fun z => c.toNat - z).getD 0

/-- `int` of a text of digits, or of a blank before one. -/
def intOf (s : Text) : ℕ := s.foldl (fun n c => 10 * n + digitValue c) 0

/-- `date(year, month, day)`, where there is such a day. -/
def dateOf (year month day : ℕ) : Option ℤ :=
  let i : ℤ := 12 * year + month - 1
  if 1 ≤ year ∧ 1 ≤ month ∧ month ≤ 12 ∧ 1 ≤ day ∧
      Calendar.dateIn i day < Calendar.monthStart (i + 1) then
    some (Calendar.dateIn i day)
  else none

def oneToNine (c : Char) : Bool := '1' ≤ c && c ≤ '9'

/-- `%m` of `strptime` -/
def monthText : Text → Bool
  | [c] => oneToNine c
  | ['0', c] => oneToNine c
  | ['1', c] => c == '0' || c == '1' || c == '2'
  | _ => false

/-- `%d` of `strptime` -/
def dayText : Text → Bool
  | [c] => oneToNine c
  | [' ', c] | ['0', c] => oneToNine c
  | ['1', c] | ['2', c] => isDecimal c
  | ['3', c] => c == '0' || c == '1'
  | _ => false

/-- `datetime.strptime(s, "%Y-%m-%d").date()` -/
def isoDate (s : Text) : Option ℤ :=
  match s.splitOn '-' with
  | [y, m, d] =>
    if y.length = 4 ∧ y.all isDecimal ∧ monthText m ∧ dayText d then
      dateOf (intOf y) (intOf m) (intOf d)
    else none
  | _ => none

/-- `_azure_date` -/
def azureDate (v : Text) : Option ℤ :=
  let s := strip v
  if s.length = 8 ∧ s.all isDecimal then
    dateOf (intOf (s.take 4)) (intOf ((s.drop 4).take 2)) (intOf ((s.drop 6).take 2))
  else isoDate (s.take 10)

/-! Azure. -/

structure AzureColumns where
  cost : ℕ
  inUsd : Bool
  date : ℕ
  quantity : Option ℕ
  meter : Option ℕ
  location : Option ℕ
  currency : Option ℕ

/-- The place of the first of the names that is a column. -/
def col (cols : List Text) (names : List Text) : Option ℕ :=
  names.findSome? fun name => cols.findIdx? (· = name)

def azureColumns (columns : List Text) : Option AzureColumns := do
  let cols := columns.map fun c => c.flatMap lowerChar
  let usd := col cols [lit "costusd", lit "pretaxcostusd"]
  let cost ← usd.or (col cols [lit "cost", lit "pretaxcost"])
  let date ← col cols [lit "usagedate"]
  return {
    cost, date
    inUsd := usd.isSome
    quantity := col cols [lit "usagequantity"]
    meter := col cols [lit "meter"]
    location := col cols [lit "resourcelocation"]
    currency := col cols [lit "currency"] }

abbrev MeterKey := Text × Text × ℤ

/-- A row that could be read: region, SKU and day, the amount and the quantity. -/
structure Reported where
  key : MeterKey
  amount : ℤ
  quantity : Option ℤ

def Reported.day (r : Reported) : ℤ := r.key.2.2

def cellAt (row : List Cell) (i : ℕ) : Except FetchError Cell :=
  match row[i]? with
  | some cell => .ok cell
  | none => .error (.raised "IndexError")

/-- The stripped text of a column that the answer has and the row fills. -/
def textAt (row : List Cell) (i : Option ℕ) (missing : Text) : Except FetchError Text :=
  match i with
  | none => .ok missing
  | some i => (cellAt row i).map fun cell => if cell.truthy then strip cell.shown else missing

/-- `str.upper` as far as it can give ASCII letters. -/
def upperChar (c : Char) : Char := if c = '\u017f' then 'S' else c.toUpper

/-- A row in the order its cells are read; `none` where the row is skipped. -/
def readRow (c : AzureColumns) (row : List Cell) : Except FetchError (Option Reported) := do
  if let (false, some i) := (c.inUsd, c.currency) then
    let currency ← cellAt row i
    if currency.shown.map upperChar ≠ lit "USD" then throw (.localCurrency currency.shown)
  let date ← cellAt row c.date
  let some day := azureDate date.shown | return none
  let cost ← cellAt row c.cost
  let some amount := (if cost.truthy then cost.amount else some 0) | return none
  let quantity ← match c.quantity with
    | none => pure none
    | some i => (cellAt row i).map Cell.amount
  let region ← textAt row c.location []
  let sku ← textAt row c.meter (lit "Azure Monitor")
  return some { key := (region, sku, day), amount, quantity }

def readRows (c : AzureColumns) : List (List Cell) → Except FetchError (List Reported)
  | [] => .ok []
  | row :: rows => do
    let reported ← readRow c row
    let rest ← readRows c rows
    return reported.toList ++ rest

/-- The readable rows of an answer. -/
def reportedRows (payload : AzurePayload) : Except FetchError (List Reported) :=
  match azureColumns payload.props.columns with
  | none => .error .noColumns
  | some c => readRows c payload.props.rows

def addReported (sum : ℤ × Option ℤ) (r : Reported) : ℤ × Option ℤ :=
  (sum.1 + r.amount, match r.quantity with
    | none => sum.2
    | some quantity => some (sum.2.getD 0 + quantity))

/-- `merged` -/
def merged (rows : List Reported) : List (MeterKey × ℤ × Option ℤ) :=
  tally Reported.key (fun _ => (0, none)) addReported rows

structure CostRow where
  billedAccount : Text
  region : Text
  sku : Text
  usageDate : ℤ
  amountUsd : ℤ
  quantity : Option ℤ
  unit : Option Text

def costRow (subscriptionId : Text) (e : MeterKey × ℤ × Option ℤ) : CostRow :=
  { billedAccount := subscriptionId, region := e.1.1, sku := e.1.2.1, usageDate := e.1.2.2
    amountUsd := e.2.1, quantity := e.2.2, unit := none }

/-- `parse_azure_query` -/
def parseAzureQuery (payload : AzurePayload) (subscriptionId : Text) :
    Except FetchError (List CostRow) :=
  (reportedRows payload).map fun rows => (merged rows).map (costRow subscriptionId)

def parsePages (subscriptionId : Text) : List AzurePayload → Except FetchError (List CostRow)
  | [] => .ok []
  | data :: pages => do
    let rows ← parseAzureQuery data subscriptionId
    let rest ← parsePages subscriptionId pages
    return rows ++ rest

/-! AWS. -/

/-- A group: the amount and the quantity as `float` reads them, `none` where it reads no number. -/
structure CeGroup where
  keys : List Text
  amount : Option ℤ
  quantity : Option ℤ
  unit : Text

/-- A day's groups; `start` is the day `date.fromisoformat` reads. -/
structure CePeriod where
  start : Option ℤ
  estimated : Bool
  groups : List CeGroup

/-- A page; a missing token is empty. -/
structure CePage where
  resultsByTime : List CePeriod
  nextPageToken : Text

structure CeRow where
  billedAccountId : Text
  usageType : Text
  usageDate : ℤ
  amountUsd : ℤ
  estimated : Bool
  quantity : Option ℤ
  unit : Option Text

def ceRow (day : ℤ) (estimated : Bool) (g : CeGroup) : Option CeRow :=
  match g.keys, g.amount with
  | usageType :: account :: _, some amount =>
    some {
      billedAccountId := account, usageType, usageDate := day, amountUsd := amount, estimated
      quantity := g.quantity
      unit := if g.unit = [] then none else some (g.unit.take 40) }
  | _, _ => none

/-- `parse_cost_response` -/
def parseCostResponse (pages : List CePage) : List CeRow :=
  pages.flatMap fun page => page.resultsByTime.flatMap fun period =>
    match period.start with
    | none => []
    | some day => period.groups.filterMap (ceRow day period.estimated)

end MonitoringHub.Cost
