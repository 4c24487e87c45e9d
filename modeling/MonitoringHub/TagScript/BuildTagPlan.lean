import Mathlib.Data.List.Sort
import Mathlib.Algebra.GroupWithZero.Nat
import MonitoringHub.Environments.Suggestions
import MonitoringHub.Lib.QueryRows
import MonitoringHub.Lib.Trim

/-! The script that writes the decided environments as AWS tags. Rows are chosen and narrowed,
checked against strict patterns, grouped by account, region and environment, and written out:
a function an account, a command for every hundred resources. -/

namespace MonitoringHub.TagScript
open Lib KeyedStore Alerts Environments

abbrev Text := List Char

/-- A text of the source. -/
def lit (s : String) : Text := s.toList

theorem of_lit {P : Text → Prop} {l : List Char} (h : P l) : P (lit (String.ofList l)) := by
  rw [lit, String.toList_ofList]
  exact h

theorem lit_split {a b c : List Char} {x : Char} (h : a = b ++ x :: c) :
    lit (String.ofList a) = lit (String.ofList b) ++ x :: lit (String.ofList c) := by
  simp only [lit, String.toList_ofList]
  exact h

/-- A resource joined with its account. A missing text is empty. -/
structure TagRow where
  awsAccountId : ℕ
  accountId : Text
  accountName : Text
  resourceType : Text
  resourceId : Text
  name : Text
  region : Text
  tags : TagDict
  envResolved : Option Tier
  envSource : Option Source
  tagState : Option TagState

abbrev RowKey := ℕ × Text

def TagRow.key (r : TagRow) : RowKey := (r.awsAccountId, r.resourceId)

/-- What the person narrowed the page by; an empty text narrows nothing. -/
structure Filters where
  sources : List Source
  env : Text
  region : Text
  resourceType : Text

/-- `datetime.strftime` of the time of generation. -/
structure Stamp where
  year : ℕ
  month : ℕ
  day : ℕ
  hour : ℕ
  minute : ℕ

def defaultSources : List Source := [.manual, .name, .related]
def exportTypes : List Text := [lit "ec2", lit "ebs"]
def batch : ℕ := 100
def needsTagging : List TagState := [.missing, .invalid, .nonstandard]

def tierText : Tier → Text
  | .prod => lit "prod"
  | .nonprod => lit "nonprod"

/-! The strict patterns. -/

/-- The zeros of the decimal digits that `\d` accepts; each is followed by its nine others. -/
def digitZeros : List ℕ :=
  [48, 1632, 1776, 1984, 2406, 2534, 2662, 2790, 2918, 3046, 3174, 3302, 3430, 3558, 3664, 3792,
    3872, 4160, 4240, 6112, 6160, 6470, 6608, 6784, 6800, 6992, 7088, 7232, 7248, 42528, 43216,
    43264, 43472, 43504, 43600, 44016, 65296, 66720, 68912, 69734, 69872, 69942, 70096, 70384,
    70736, 70864, 71248, 71360, 71472, 71904, 72016, 72784, 73040, 73120, 92768, 92864, 93008,
    120782, 120792, 120802, 120812, 120822, 123200, 123632, 125264, 130032]

/-- `\d` -/
def isDecimal (c : Char) : Bool := digitZeros.any fun z => z ≤ c.toNat && c.toNat < z + 10

def isHex (c : Char) : Bool := c.isDigit || (lit "abcdef").contains c

/-- `[0-9a-f]{8,17}` -/
def hexTail (s : Text) : Bool := 8 ≤ s.length && s.length ≤ 17 && s.all isHex

/-- `(i|vol)-[0-9a-f]{8,17}` -/
def strictId : Text → Bool
  | 'i' :: '-' :: s => hexTail s
  | 'v' :: 'o' :: 'l' :: '-' :: s => hexTail s
  | _ => false

/-- `[a-z]{2}(?:-[a-z]+)+-\d` -/
def strictRegion (s : Text) : Bool :=
  match s.splitOn '-' with
  | head :: parts =>
    head.length == 2 && head.all Char.isLower && 2 ≤ parts.length &&
      parts.dropLast.all (fun part => part ≠ [] && part.all Char.isLower) &&
      parts.getLast?.any (fun part => part.length == 1 && part.all isDecimal)
  | [] => false

/-- `\d{12}` -/
def strictAccount (s : Text) : Bool := s.length == 12 && s.all isDecimal

def endsInNewline (s : Text) : Bool := s.getLast? == some '\n'

/-- `re.match` of `^…$`: the dollar also matches before a newline at the end. -/
def anchored (strict : Text → Bool) (s : Text) : Bool :=
  strict s || (endsInNewline s && strict s.dropLast)

/-- The characters `_clean` leaves in a name. -/
def nameChar (c : Char) : Bool := c.isAlphanum || (lit " ._:@+=-").contains c

/-- `_clean` -/
def clean (text : Text) (limit : ℕ) : Text := trim (· == ' ') ((text.filter nameChar).take limit)

/-! What is exported. -/

/-- The environment of a row that `_eligible` accepts. -/
def eligible (sources : List Source) (r : TagRow) : Option Tier :=
  r.envResolved.filter fun _ =>
    r.envSource.any sources.contains && r.tagState.any needsTagging.contains

/-- `_tags_parent` -/
def tagsParent (r : TagRow) : Option Text :=
  match find "parent_ec2" r.tags with
  | some (.text s) => if s = "" then none else some (lit s)
  | _ => none

def assignSome (key : RowKey) (tier : Option Tier) (chosen : List (RowKey × Tier)) :
    List (RowKey × Tier) :=
  match tier with
  | some t => assign key t chosen
  | none => chosen

def chooseInstance (sources : List Source) (chosen : List (RowKey × Tier)) (r : TagRow) :
    List (RowKey × Tier) :=
  if r.resourceType = lit "ec2" then assignSome r.key (eligible sources r) chosen else chosen

/-- An attached volume follows its instance. -/
def chooseVolume (sources : List Source) (chosen : List (RowKey × Tier)) (r : TagRow) :
    List (RowKey × Tier) :=
  if r.resourceType = lit "ebs" then
    match tagsParent r with
    | some parent => assignSome r.key (find (r.awsAccountId, parent) chosen) chosen
    | none => assignSome r.key (eligible sources r) chosen
  else chosen

def choose (sources : List Source) (rows : List TagRow) : List (RowKey × Tier) :=
  rows.foldl (chooseVolume sources) (rows.foldl (chooseInstance sources) [])

/-- A decided resource of a type that the script does not cover. -/
def uncovered (sources : List Source) (r : TagRow) : Bool :=
  !exportTypes.contains r.resourceType && r.envResolved.isSome &&
    r.envSource.any sources.contains

def countType (counts : List (Text × ℕ)) (r : TagRow) : List (Text × ℕ) :=
  assign r.resourceType ((find r.resourceType counts).getD 0 + 1) counts

def notCovered (sources : List Source) (rows : List TagRow) : List (Text × ℕ) :=
  (rows.filter (uncovered sources)).foldl countType []

/-- A row and the environment to tag it with. -/
structure Export where
  row : TagRow
  tier : Tier

def Filters.keeps (f : Filters) (e : Export) : Bool :=
  (f.env == [] || tierText e.tier == f.env) && (f.region == [] || e.row.region == f.region) &&
    (f.resourceType == [] || e.row.resourceType == f.resourceType)

def byKey (rows : List TagRow) : List (RowKey × TagRow) :=
  rows.foldl (fun d r => assign r.key r d) []

def chosen (f : Filters) (rows : List TagRow) : List Export :=
  ((choose f.sources rows).filterMap fun c =>
    (find c.1 (byKey rows)).map fun r => ⟨r, c.2⟩).filter f.keeps

def Export.valid (e : Export) : Bool :=
  anchored strictId e.row.resourceId && anchored strictRegion e.row.region &&
    anchored strictAccount e.row.accountId

def exported (f : Filters) (rows : List TagRow) : List Export :=
  (chosen f rows).filter Export.valid

def skipped (f : Filters) (rows : List TagRow) : ℕ :=
  (chosen f rows).countP fun e => !e.valid

/-! Grouping. -/

/-- The resources of one account, region and environment, each with its row. -/
structure Group where
  acct : ℕ
  region : Text
  tier : Tier
  rows : List TagRow

abbrev GroupKey := ℕ × Text × Tier

def Export.groupKey (e : Export) : GroupKey := (e.row.awsAccountId, e.row.region, e.tier)

def grouped (exports : List Export) : List (GroupKey × List TagRow) :=
  exports.foldl (fun store e => appendAt e.groupKey e.row store) []

def Group.ofEntry (entry : GroupKey × List TagRow) : Group :=
  ⟨entry.1.1, entry.1.2.1, entry.1.2.2, entry.2⟩

/-- The account name and number that stand with the first resource of a group. -/
def Group.accountName (g : Group) : Text := (g.rows.head?.map TagRow.accountName).getD []

def Group.accountId (g : Group) : Text := (g.rows.head?.map TagRow.accountId).getD []

/-- Python compares texts by code points. -/
def compareText : Text → Text → Ordering
  | [], [] => .eq
  | [], _ :: _ => .lt
  | _ :: _, [] => .gt
  | a :: s, b :: t => (compare a.toNat b.toNat).then (compareText s t)

def compareGroups (g h : Group) : Ordering :=
  (((compareText g.accountName h.accountName).then (compare g.acct h.acct)).then
    (compareText g.region h.region)).then (compareText (tierText g.tier) (tierText h.tier))

def ordered (exports : List Export) : List Group :=
  ((grouped exports).map Group.ofEntry).insertionSort fun g h => (compareGroups g h).isLE

def byEnv (groups : List Group) : List (Tier × ℕ) :=
  groups.foldl (fun d g => assign g.tier ((find g.tier d).getD 0 + g.rows.length) d) []

structure Account where
  acct : ℕ
  number : Text
  name : Text

/-- One account for each run of its groups. -/
def accountsFrom (last : Option ℕ) : List Group → List Account
  | [] => []
  | g :: gs =>
    if last = some g.acct then accountsFrom last gs
    else ⟨g.acct, g.accountId, clean g.accountName 40⟩ :: accountsFrom (some g.acct) gs

def accounts (groups : List Group) : List Account := accountsFrom none groups

/-! Writing the script. -/

def number (n : ℕ) : Text := Nat.toDigits 10 n

def padded (width n : ℕ) : Text := List.replicate (width - (number n).length) '0' ++ number n

def Stamp.text (now : Stamp) : Text :=
  padded 4 now.year ++ '-' :: padded 2 now.month ++ '-' :: padded 2 now.day ++
    ' ' :: padded 2 now.hour ++ ':' :: padded 2 now.minute ++ lit " UTC"

def commaSep : List Text → Text := List.intercalate (lit ", ")

def usageLines : List Text :=
  [lit "#",
    lit "# WHAT IT DOES",
    lit "#   Adds or overwrites ONLY the Environment tag on the resources below. " ++
      lit "Every other tag is left as it is.",
    lit "#   It covers EC2 instances and EBS volumes. " ++
      lit "CloudOps never runs it; you do, with your own AWS credentials.",
    lit "#",
    lit "# WHERE TO RUN IT",
    lit "#   Sign in to the AWS console of the account named in a block below and " ++
      lit "open AWS CloudShell (any region),",
    lit "#   or use a terminal with that account's credentials. " ++
      lit "Paste or upload this file and run it there:",
    lit "#       bash cloudops-tagging-plan.sh",
    lit "#   Run it once per account. " ++
      lit "A block only runs when the credentials belong to its account; any other",
    lit "#   account's block is never run, " ++
      lit "and if the credentials match none of them the script stops at once.",
    lit "#   The identity needs the ec2:CreateTags permission (and ec2:DescribeTags to verify).",
    lit "#   To preview without changing anything:   DRY_RUN=1 bash cloudops-tagging-plan.sh",
    lit "#"]

/-- The lines that stand in a script as they are, comments apart. -/
def blankLine : Text := []
def closeLine : Text := ['\x7d']
def runLines : List Text :=
  [lit "set -euo pipefail",
    lit "DRY_RUN=\"$\x7bDRY_RUN:-0\x7d\"",
    lit "run() \x7b if [ \"$DRY_RUN\" = \"1\" ]; then echo \"[dry run] $*\"; else \"$@\"; fi; \x7d"]
def caseLines : List Text :=
  [lit "CURRENT_ACCOUNT=\"$(aws sts get-caller-identity --query Account --output text)\"",
    lit "case \"$CURRENT_ACCOUNT\" in"]
def doneLines : List Text :=
  [lit "esac",
    lit "echo \"Done. Verify with: aws ec2 describe-tags --filters Name=key,Values=Environment " ++
      lit "Name=resource-id,Values=<id> --region <region>\""]

def generatedLine (now : Stamp) : Text := lit "# CloudOps tagging plan, generated " ++ now.text

def envCounts (counts : List (Tier × ℕ)) : List Text :=
  (counts.insertionSort fun a b => (compareText (tierText a.1) (tierText b.1)).isLE).map fun e =>
    tierText e.1 ++ ' ' :: number e.2

def summaryLine (counts : List (Tier × ℕ)) (total accts : ℕ) : Text :=
  lit "# SUMMARY  (" ++
    (if counts = [] then lit "nothing to tag" else commaSep (envCounts counts)) ++
    lit "; " ++ number total ++ lit " resource(s) in " ++ number accts ++
    lit " account(s))"

/-- A group as the result reports it. -/
structure Summary where
  accountId : Text
  accountName : Text
  region : Text
  env : Tier
  count : ℕ

def Group.summary (g : Group) : Summary :=
  ⟨g.accountId, clean g.accountName 60, g.region, g.tier, g.rows.length⟩

def Summary.text (g : Summary) : Text :=
  g.region ++ ' ' :: tierText g.env ++ ' ' :: number g.count

def accountLine (entry : (Text × Text) × List Summary) : Text :=
  lit "#   " ++ entry.1.1 ++ lit " (" ++ entry.1.2 ++ lit "): " ++
    commaSep (entry.2.map Summary.text)

def accountLines (groups : List Group) : List Text :=
  ((groups.map Group.summary).foldl (fun store g => appendAt (g.accountName, g.accountId) g store)
    []).map accountLine

def titleLine (name aid : Text) : Text :=
  lit "# ===== Account " ++ name ++ lit " (" ++ aid ++ lit ") ====="

def headerLine (aid : Text) : Text := lit "tag_account_" ++ aid ++ lit "() \x7b"

def groupLine (g : Group) : Text :=
  lit "  # " ++ g.region ++ lit ": Environment=" ++ tierText g.tier ++ lit ", " ++
    number g.rows.length ++ lit " resource(s)"

def resourceLine (r : TagRow) : Text :=
  let nm := clean r.name 60
  lit "  #   " ++ r.resourceId ++
    if nm ≠ [] ∧ nm ≠ r.resourceId then lit "  " ++ nm else []

def commandLine (region : Text) (ids : List Text) (tier : Text) : Text :=
  lit "  run aws ec2 create-tags --region " ++ region ++ lit " --resources " ++
    List.intercalate [' '] ids ++ lit " --tags Key=Environment,Value=" ++ tier

def Group.sortedRows (g : Group) : List TagRow :=
  g.rows.insertionSort fun r s => (compareText r.resourceId s.resourceId).isLE

def Group.chunks (g : Group) : List (List Text) :=
  slices batch (g.sortedRows.map TagRow.resourceId)

def commandLines (g : Group) : List Text :=
  g.chunks.map fun ids => commandLine g.region ids (tierText g.tier)

def groupLines (g : Group) : List Text :=
  groupLine g :: g.sortedRows.map resourceLine ++ commandLines g ++ [blankLine]

/-- The blocks, one function for each run of groups of an account. -/
def blockLines (accts : List Account) (last : Option ℕ) : List Group → List Text
  | [] => []
  | g :: gs =>
    (if last = some g.acct then [] else
      (if last = none then [] else [closeLine, blankLine]) ++
        match accts.find? fun a => a.acct = g.acct with
        | some a => [titleLine a.name a.number, headerLine a.number]
        | none => []) ++
      groupLines g ++ blockLines accts (some g.acct) gs

def caseLine (aid name : Text) : Text :=
  lit "  " ++ aid ++ lit ") echo 'Tagging account " ++ name ++ lit " (" ++ aid ++
    lit ")'; tag_account_" ++ aid ++ lit " ;;"

def otherwiseLine (aids : List Text) : Text :=
  lit "  *) echo \"These credentials are for account $CURRENT_ACCOUNT, " ++
    lit "which has no block in this script. Expected one of: " ++ commaSep aids ++
    lit "\"; exit 1 ;;"

def dispatchLines (accts : List Account) : List Text :=
  [closeLine, blankLine] ++ caseLines ++ accts.map (fun a => caseLine a.number a.name) ++
    [otherwiseLine (accts.map Account.number)] ++ doneLines ++ [blankLine]

def nothingLine : Text :=
  lit "# Nothing to export: no EC2 instance or EBS volume matches, " ++
    lit "i.e. has a CloudOps decision and a missing or non-standard Environment tag."

def typeText (entry : Text × ℕ) : Text := entry.1 ++ lit " x" ++ number entry.2

def notCoveredStem : Text :=
  lit "# Not covered by this script (tag in the console or with Tag Editor): "

def notCoveredLine (counts : List (Text × ℕ)) : Text :=
  notCoveredStem ++
    commaSep ((counts.insertionSort fun a b => (compareText a.1 b.1).isLE).map typeText)

def coveredLines (groups : List Group) (now : Stamp) : List Text :=
  let counts := byEnv groups
  let accts := accounts groups
  lit "#!/usr/bin/env bash" :: generatedLine now :: usageLines ++
    [summaryLine counts (counts.map Prod.snd).sum accts.length] ++ accountLines groups ++
    [blankLine] ++ runLines ++ [blankLine] ++ blockLines accts none groups ++
    if groups = [] then [nothingLine] else dispatchLines accts

def scriptLines (f : Filters) (rows : List TagRow) (now : Stamp) : List Text :=
  coveredLines (ordered (exported f rows)) now ++
    if notCovered f.sources rows = [] then []
    else [notCoveredLine (notCovered f.sources rows)]

structure TagPlan where
  script : Text
  resources : ℕ
  commands : ℕ
  accounts : ℕ
  notCovered : List (Text × ℕ)
  skippedInvalid : ℕ
  byEnv : List (Tier × ℕ)
  groups : List Summary

def buildTagPlan (f : Filters) (rows : List TagRow) (now : Stamp) : TagPlan :=
  let groups := ordered (exported f rows)
  let counts := TagScript.byEnv groups
  { script := List.intercalate ['\n'] (scriptLines f rows now) ++ ['\n']
    resources := (counts.map Prod.snd).sum
    commands := (groups.map fun g => g.chunks.length).sum
    accounts := (TagScript.accounts groups).length
    notCovered := TagScript.notCovered f.sources rows
    skippedInvalid := skipped f rows
    byEnv := counts
    groups := groups.map Group.summary }

end MonitoringHub.TagScript
