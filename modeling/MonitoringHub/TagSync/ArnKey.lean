import Mathlib.Data.List.Sort
import MonitoringHub.Lib.Text

/-! The key under which an ARN and a row of `resources` meet: type, account, region, name.
Both sides refuse whatever does not name a resource of a synced type. -/

namespace MonitoringHub.TagSync
open Lib

/-- Python's `str.strip` and `str.lower`. -/
structure TextMethods where
  strip : String → String
  lower : String → String

structure Arn where
  partition : String
  service : String
  region : String
  account : String
  resource : String
  deriving DecidableEq, Repr

structure Key where
  rtype : String
  account : String
  region : String
  name : String
  deriving DecidableEq, Repr

def syncTypes : List String :=
  ["s3", "logs", "kms", "lambda", "elb", "sqs", "sns", "natgateway", "certificatemanager",
    "cloudfront", "kinesis", "wafv2", "backup", "events", "dynamodb", "eks", "firehose"]

/-- `ABSENCE_VERIFIED_TYPES` -/
def absenceVerifiedTypes : List String :=
  ["logs", "kms", "lambda", "elb", "sqs", "sns", "natgateway", "certificatemanager",
    "kinesis", "backup", "events", "dynamodb", "eks", "firehose"]

def globalTypes : List String := ["s3", "cloudfront"]

/-- The types whose rows are stored under their ARN. -/
def arnTypes : List String := ["lambda", "elb", "certificatemanager"]

def parseArn (py : TextMethods) : Option String → Option Arn
  | none => none
  | some arn =>
    match (Text.splitAtMost ':' 5 (py.strip arn).toList).map String.ofList with
    | [head, partition, service, region, account, resource] =>
      if head ≠ "arn" ∨ service = "" ∨ resource = "" then none
      else some ⟨partition, service, region, account, resource⟩
    | _ => none

def hasAny (separators : List Char) (s : String) : Bool :=
  s.toList.any fun c => separators.contains c

/-- `_one_segment` -/
def oneSegment (resource stem : String) : Option String :=
  (Text.after stem resource).filter fun rest => rest ≠ "" && !hasAny ['/', ':'] rest

/-- A service whose resources are one segment after a stem. -/
def segmentName (rtype stem resource : String) : Option (String × String) :=
  (oneSegment resource stem).map fun name => (rtype, name)

def bucketName (a : Arn) : Option (String × String) :=
  if a.region = "" ∧ a.account = "" ∧ !hasAny ['/', ':'] a.resource then some ("s3", a.resource)
  else none

def logGroupName (resource : String) : Option (String × String) :=
  match Text.after "log-group:" resource with
  | none => none
  | some rest =>
    let name := Text.withoutTail ":*" rest
    if name ≠ "" ∧ !hasAny [':'] name then some ("logs", name) else none

def loadBalancerName (resource : String) : Option (String × String) :=
  if (["loadbalancer/app/", "loadbalancer/net/", "loadbalancer/gwy/"].any fun stem =>
      Text.startsWith resource stem) ∧ resource.toList.count '/' = 3 then
    some ("elb", resource)
  else none

/-- `regional/webacl/NAME/ID`: the name and the id. -/
def webAclName (resource : String) : Option (String × String) :=
  match Text.split '/' resource with
  | [scope, kind, name, id] =>
    if scope = "regional" ∧ kind = "webacl" ∧ name ≠ "" ∧ id ≠ "" then some (name, id) else none
  | _ => none

/-- `_arn_name`: the type and the name a row would have. -/
def arnName (a : Arn) : Option (String × String) :=
  if a.service = "s3" then bucketName a
  else if a.service = "logs" then logGroupName a.resource
  else if a.service = "kms" then segmentName "kms" "key/" a.resource
  else if a.service = "lambda" then segmentName "lambda" "function:" a.resource
  else if a.service = "elasticloadbalancing" then loadBalancerName a.resource
  else if a.service = "sqs" then segmentName "sqs" "" a.resource
  else if a.service = "sns" then segmentName "sns" "" a.resource
  else if a.service = "ec2" then segmentName "natgateway" "natgateway/" a.resource
  else if a.service = "acm" then segmentName "certificatemanager" "certificate/" a.resource
  else if a.service = "cloudfront" then segmentName "cloudfront" "distribution/" a.resource
  else if a.service = "kinesis" then segmentName "kinesis" "stream/" a.resource
  else if a.service = "wafv2" then (webAclName a.resource).map fun acl => ("wafv2", acl.1)
  else if a.service = "backup" then segmentName "backup" "backup-vault:" a.resource
  else if a.service = "events" then segmentName "events" "rule/" a.resource
  else if a.service = "dynamodb" then segmentName "dynamodb" "table/" a.resource
  else if a.service = "eks" then segmentName "eks" "cluster/" a.resource
  else if a.service = "firehose" then segmentName "firehose" "deliverystream/" a.resource
  else none

/-- `arn_key`, with the id of a web ACL. -/
def arnKey (py : TextMethods) (arn : Option String) : Option (Key × Option String) :=
  (parseArn py arn).bind fun a =>
    (arnName a).bind fun (rtype, name) =>
      if rtype ∉ syncTypes then none
      else if rtype ∉ globalTypes ∧ a.region = "" then none
      else
        let region := if rtype ∈ globalTypes then "" else a.region
        let aclId := if rtype = "wafv2" then (webAclName a.resource).map Prod.snd else none
        some (⟨rtype, a.account, region, name⟩, aclId)

/-- The value of `acl_id` in stored tags. -/
inductive AclValue
  | text (id : String)
  | other (truthy : Bool)
  deriving DecidableEq, Repr

/-- Tags as stored: a JSON text, or an object with or without an `acl_id`, or neither. -/
inductive StoredTags
  | json (text : String)
  | object (aclId : Option AclValue)
  | neither
  deriving DecidableEq, Repr

/-- A row of `resources`, as the tag sync reads it. -/
structure ResourceRow where
  id : ℕ
  resourceType : Option String
  resourceId : Option String
  region : Option String
  tags : StoredTags
  deriving DecidableEq, Repr

def ResourceRow.rtype (py : TextMethods) (r : ResourceRow) : String :=
  py.lower (r.resourceType.getD "")

def rowKey (py : TextMethods) (r : ResourceRow) (accountNumber : String) : Option Key :=
  let rtype := r.rtype py
  let rid := r.resourceId.getD ""
  if rtype ∉ syncTypes ∨ rid = "" ∨ accountNumber = "" then none
  else if rtype ∈ arnTypes then
    match arnKey py (some rid) with
    | none => none
    | some (k, _) => if k.rtype ≠ rtype ∨ k.account ≠ accountNumber then none else some k
  else if Text.startsWith rid "arn:" then none
  else if rtype = "s3" then some ⟨"s3", "", "", rid⟩
  else if rtype = "cloudfront" then some ⟨"cloudfront", accountNumber, "", rid⟩
  else
    let region := r.region.getD ""
    if region = "" ∨ region = "global" then none else some ⟨rtype, accountNumber, region, rid⟩

abbrev TagDict := List (String × String)

/-- `_clean_tags`; a key may be no text and a value missing. -/
def cleanTags (py : TextMethods) (tags : List (Option String × Option String)) : TagDict :=
  tags.filterMap fun (key, value) =>
    match key with
    | none => none
    | some key => if Text.startsWith (py.lower key) "aws:" then none else some (key, value.getD "")

/-- The items of a dictionary in order, as two dictionaries are compared. -/
def TagDict.sortedItems (tags : TagDict) : List (String × String) :=
  tags.insertionSort fun a b => a.1 < b.1 ∨ a.1 = b.1 ∧ a.2 ≤ b.2

/-- The key of a row has the row's type, and every key but a bucket's names the account. -/
theorem rowKey_some {py : TextMethods} {r : ResourceRow} {accountNumber : String} {k : Key}
    (h : rowKey py r accountNumber = some k) :
    k.rtype = r.rtype py ∧ (k.rtype = "s3" ∨ k.account = accountNumber) := by
  unfold rowKey at h
  simp only at h
  split at h
  · cases h
  · split at h
    · split at h
      · cases h
      · split at h
        · cases h
        · rename_i hsame
          obtain rfl := Option.some.inj h
          obtain ⟨hrtype, haccount⟩ := not_or.mp hsame
          exact ⟨not_not.mp hrtype, .inr (not_not.mp haccount)⟩
    · split at h
      · cases h
      · split at h
        · rename_i hs3
          obtain rfl := Option.some.inj h
          exact ⟨hs3.symm, .inl rfl⟩
        · split at h
          · rename_i hcloudfront
            obtain rfl := Option.some.inj h
            exact ⟨hcloudfront.symm, .inr rfl⟩
          · split at h
            · cases h
            · obtain rfl := Option.some.inj h
              exact ⟨rfl, .inr rfl⟩

end MonitoringHub.TagSync
