import MonitoringHub.Lib.GroupTally
import MonitoringHub.TagSync.ArnKey

/-! `plan_account`: what the tagging sweeps of an account say about its rows. A sweep proves that
a resource is tagged; that one is untagged is said only from a completed sweep of its region,
for a type whose ARNs are known to meet rows. -/

namespace MonitoringHub.TagSync
open Lib Lib.KeyedStore Lib.GroupTally

structure Item where
  arn : Option String
  tags : List (Option String × Option String)

/-- One tagging sweep; not `ok` is a sweep that failed or is incomplete. -/
structure Sweep where
  region : String
  ok : Bool
  items : List Item
  scope : Option String

namespace Sweep

def scopeWord (sw : Sweep) : String :=
  match sw.scope with
  | none => "full"
  | some word => if word = "" then "full" else word

/-- `SCOPE_TYPES`: whether the sweep may speak for a type. -/
def speaksFor (sw : Sweep) (rtype : String) : Bool :=
  if sw.scopeWord = "full" then true
  else if sw.scopeWord = "global" then globalTypes.contains rtype
  else if sw.scopeWord = "s3" then rtype == "s3"
  else false

def completed (sw : Sweep) : Bool := sw.ok && sw.scopeWord == "full"

end Sweep

/-- What the index keeps of an item. -/
structure Entry where
  key : Key
  arn : Option String
  tags : TagDict
  aclId : Option String
  region : String
  deriving DecidableEq, Repr

/-- What becomes of an item of a sweep that is ok. -/
inductive ItemFate
  | unsupported
  | outside
  | foreign (arn : Option String)
  | indexed (entry : Entry)

section Plan
variable (py : TextMethods) (accountNumber : String)

def itemFate (sw : Sweep) (it : Item) : ItemFate :=
  match arnKey py it.arn with
  | none => .unsupported
  | some (key, aclId) =>
    if !sw.speaksFor key.rtype then .outside
    else if key.rtype ≠ "s3" ∧ key.account ≠ accountNumber then .foreign it.arn
    else .indexed ⟨key, it.arn, cleanTags py it.tags, aclId, sw.region⟩

def fates (sweeps : List Sweep) : List ItemFate :=
  (sweeps.filter Sweep.ok).flatMap fun sw => sw.items.map (itemFate py accountNumber sw)

def entries (sweeps : List Sweep) : List Entry :=
  (fates py accountNumber sweeps).filterMap fun
    | .indexed entry => some entry
    | _ => none

/-- What the loops over the rows read. -/
structure Evidence where
  okRegions : List (String × ℕ)
  arnIndex : List (Key × List Entry)
  byKey : List (Key × List ResourceRow)
  arnsPerTypeRegion : List ((String × String) × ℕ)

/-- The rows that have a key, each with it. -/
def keyedRows (rows : List ResourceRow) : List (Key × ResourceRow) :=
  rows.filterMap fun r => (rowKey py r accountNumber).map fun k => (k, r)

def evidence (rows : List ResourceRow) (sweeps : List Sweep) : Evidence :=
  let arnIndex := tally Entry.key (fun _ => []) (fun es e => es ++ [e])
    (entries py accountNumber sweeps)
  { okRegions := tally Sweep.region (fun _ => 0) (fun n sw => n + sw.items.length)
      (sweeps.filter Sweep.completed)
    arnIndex := arnIndex
    byKey := tally Prod.fst (fun _ => []) (fun rs e => rs ++ [e.2])
      (keyedRows py accountNumber rows)
    arnsPerTypeRegion := tally (fun e => (e.1.rtype, e.1.region)) (fun _ => 0) (fun n _ => n + 1)
      arnIndex }

/-- What the first loop finds for a row. -/
inductive Verdict
  | skipped
  | unmatched
  | shared (count : ℕ) (key : Key)
  | differing (key : Key)
  | aclMismatch (key : Key) (aclId : String) (stored : AclValue)
  | tagged (key : Key) (entry : Entry)
  | pending (key : Key)

end Plan

/-- `_tags_acl_id`; `loads` is Python's `json.loads`, `none` where it raises. -/
def tagsAclId (loads : String → Option StoredTags) : StoredTags → Option AclValue
  | .object aclId => aclId
  | .neither => none
  | .json text =>
    if text = "" then none
    else match loads text with
      | some (.object aclId) => aclId
      | _ => none

/-- A stored id that is there and is not the id of the ARN. -/
def aclDisagrees (stored : Option AclValue) (aclId : Option String) : Option (String × AclValue) :=
  match stored, aclId with
  | some (.text id), some aclId =>
    if id ≠ "" ∧ aclId ≠ "" ∧ id ≠ aclId then some (aclId, .text id) else none
  | some (.other truthy), some aclId =>
    if truthy ∧ aclId ≠ "" then some (aclId, .other truthy) else none
  | _, _ => none

/-- The tags and the id in which the entries of a key may differ. -/
def Entry.signature (e : Entry) : List (String × String) × Option String :=
  (TagDict.sortedItems e.tags, e.aclId)

def verdict (py : TextMethods) (loads : String → Option StoredTags) (accountNumber : String)
    (ev : Evidence) (r : ResourceRow) : Verdict :=
  if r.rtype py ∉ syncTypes then .skipped
  else match rowKey py r accountNumber with
    | none => .unmatched
    | some k =>
      let sharing := (find k ev.byKey).getD []
      if 1 < sharing.length then .shared sharing.length k
      else match (find k ev.arnIndex).getD [] with
        | [] => .pending k
        | first :: rest =>
          if rest.any fun e => e.signature ≠ first.signature then .differing k
          else match if r.rtype py = "wafv2" then
              aclDisagrees (tagsAclId loads r.tags) first.aclId else none with
            | some (aclId, stored) => .aclMismatch k aclId stored
            | none => .tagged k first

inductive DecisionStatus
  | tagged
  | absent
  deriving DecidableEq, Repr

structure Decision where
  status : DecisionStatus
  tags : TagDict
  reason : String
  deriving DecidableEq, Repr

/-- `_absence_blocker` -/
def absenceBlocker (absenceTypes : List String) (ev : Evidence)
    (matchedPerTypeRegion : List ((String × String) × ℕ)) (k : Key) : Option String :=
  let typeRegion := (k.rtype, k.region)
  let arns := (find typeRegion ev.arnsPerTypeRegion).getD 0
  if k.rtype ∉ absenceTypes then some s!"{k.rtype}: type not in the absence-verified list"
  else if k.rtype ∈ globalTypes then some s!"{k.rtype}: global type"
  else match find k.region ev.okRegions with
    | none => some s!"{k.rtype}: no completed sweep for {k.region}"
    | some count =>
      if count = 0 then
        some s!"{k.region}: sweep returned no resources at all (index may be empty)"
      else if 0 < arns ∧ (find typeRegion matchedPerTypeRegion).getD 0 = 0 then
        some (s!"{k.rtype}/{k.region}: sweep has {arns} ARN(s) of this type " ++
          "but none matched a row (mapping suspect)")
      else none

/-- The rows of an account; their ids are a primary key. -/
structure Rows where
  rows : List ResourceRow
  ids : (rows.map ResourceRow.id).Nodup

structure Plan where
  decisions : List (ℕ × Decision)
  foreignArns : List (Option String)
  unsupportedArns : ℕ

section Decisions
variable (py : TextMethods) (loads : String → Option StoredTags) (accountNumber : String)
  (absenceTypes : List String) (ev : Evidence)

def taggedKey (r : ResourceRow) : Option (String × String) :=
  match verdict py loads accountNumber ev r with
  | .tagged k _ => some (r.rtype py, k.region)
  | _ => none

/-- What the first loop decides. -/
def taggedDecision (r : ResourceRow) : Option Decision :=
  match verdict py loads accountNumber ev r with
  | .tagged _ e => some ⟨.tagged, e.tags, "matched " ++ e.arn.getD ""⟩
  | _ => none

/-- What the second loop decides. -/
def absentDecision (matchedPerTypeRegion : List ((String × String) × ℕ)) (r : ResourceRow) :
    Option Decision :=
  match verdict py loads accountNumber ev r with
  | .pending k =>
    if (absenceBlocker absenceTypes ev matchedPerTypeRegion k).isNone then
      some ⟨.absent, [], s!"not in a completed sweep of {k.region}"⟩
    else none
  | _ => none

def matchedPerTypeRegion (rows : List ResourceRow) : List ((String × String) × ℕ) :=
  tally id (fun _ => 0) (fun n _ => n + 1) (rows.filterMap (taggedKey py loads accountNumber ev))

/-- The decisions in the order they are written. -/
def decided (rows : List ResourceRow) : List (ℕ × Decision) :=
  let matched := matchedPerTypeRegion py loads accountNumber ev rows
  rows.filterMap (fun r => (taggedDecision py loads accountNumber ev r).map fun d => (r.id, d)) ++
    rows.filterMap fun r =>
      (absentDecision py loads accountNumber absenceTypes ev matched r).map fun d => (r.id, d)

end Decisions

def planAccount (py : TextMethods) (loads : String → Option StoredTags) (rows : Rows)
    (sweeps : List Sweep) (accountNumber : String) (absenceTypes : List String) : Plan :=
  let ev := evidence py accountNumber rows.rows sweeps
  let allowed := absenceTypes.filter fun t => absenceVerifiedTypes.contains t
  { decisions :=
      (decided py loads accountNumber allowed ev rows.rows).foldl (fun ds d => write d.1 d.2 ds) []
    foreignArns := (fates py accountNumber sweeps).filterMap fun
      | .foreign arn => some arn
      | _ => none
    unsupportedArns := (fates py accountNumber sweeps).countP fun
      | .unsupported => true
      | _ => false }

end MonitoringHub.TagSync
