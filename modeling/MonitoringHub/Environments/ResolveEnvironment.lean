import Mathlib.Data.List.Sort
import Mathlib.Data.String.Basic
import MonitoringHub.Environments.EnvironmentClassifier

/-! `resolve_environment` with the reasons that are stored, and the tag state beside them. -/

namespace MonitoringHub.Environments
open Alerts Lib Lib.Pattern

abbrev Tags := List (String × String)

def tierText : Tier → String
  | .prod => "prod"
  | .nonprod => "nonprod"

def Source.text : Source → String
  | .manual => "manual"
  | .tag => "tag"
  | .name => "name"
  | .related => "related"
  | .account => "account"
  | .unknown => "unknown"

/-- A resolution and its reason. -/
structure Finding where
  resolution : Resolution
  reason : String
  deriving DecidableEq, Repr

def lowered (s : String) : String := String.ofList (s.toList.flatMap lowerChar)

/-- `_clip` -/
def clip (text : String) : String :=
  if text.length ≤ 200 then text else String.ofList (text.toList.take 197) ++ "..."

/-- The words behind the tiers of `scan`. -/
def scanWords (value : String) : List String :=
  let s := value.toList
  let s₁ := sub preProd [' '] s
  let s₂ := sub nonProd [' '] s₁
  (findAll preProd s ++ findAll nonProd s₁).map
      (fun phrase => String.ofList ((strip phrase).flatMap lowerChar)) ++
    (tokens (sub devOps [' '] (camelCut s₂))).filterMap fun token =>
      let base := dropTrailingDigits (token.map Char.toLower)
      if (wordTier base).isSome then some (String.ofList base) else none

/-- `_from_tags` -/
def tagFinding (tags : Tags) : Option Finding :=
  let folded := tags.foldl (fun folded tag => KeyedStore.setDefault (foldKey tag.1) tag folded) []
  tagKeys.findSome? fun key =>
    (KeyedStore.find key folded).bind fun (k, v) =>
      (normalizeTier v).map fun t => ⟨⟨t, .tag⟩, clip s!"tag {k}={v}"⟩

/-- A text that names one tier, with its label. -/
def singleName (e : String × String) : Option Finding :=
  (normalizeTier e.2).map fun t => ⟨⟨t, .name⟩,
    clip (e.1 ++ " token '" ++ (scanWords e.2).headD "" ++ "' in '" ++ e.2 ++ "'")⟩

section Reasons
variable (repr : String → String)

/-- A list of texts as Python prints it, with `repr` for each. -/
def pyList (words : List String) : String := "[" ++ ", ".intercalate (words.map repr) ++ "]"

/-- A text that names both tiers. -/
def conflictingName (e : String × String) : Finding :=
  ⟨⟨.prod, .unknown⟩, clip ("conflicting " ++ e.1 ++ " tokens " ++
    pyList repr ((scanWords e.2).dedup.insertionSort fun a b => a ≤ b) ++ " in '" ++ e.2 ++ "'")⟩

/-- The name and the id, if they are there, with their labels. -/
def nameTexts (name resourceId : Option String) : List (String × String) :=
  (name.map fun text => ("name", text)).toList ++ (resourceId.map fun text => ("id", text)).toList

/-- `_from_name` -/
def nameFinding (name resourceId : Option String) : Option Finding :=
  let texts := nameTexts name resourceId
  (texts.findSome? singleName).or
    ((texts.find? fun e => scan e.2 ≠ []).map (conflictingName repr))

end Reasons

/-- `RELATED_PARENT_SOURCES` -/
def Source.lends (s : Source) : Bool := [.manual, .tag, .name].contains s

/-- `_from_related` -/
def relatedFinding (related : List (Resolution × String)) : Option Finding :=
  match related.filter fun e => e.1.source.lends with
  | [] => none
  | first :: rest =>
    if rest.any fun e => e.1.env ≠ first.1.env then
      let detail := ", ".intercalate ((first :: rest).map fun e => e.2 ++ "=" ++ tierText e.1.env)
      some ⟨⟨.prod, .unknown⟩, clip ("attached resources disagree: " ++ detail)⟩
    else
      some ⟨⟨first.1.env, .related⟩, clip ("attached to " ++ first.2 ++ " (" ++
        tierText first.1.env ++ ", by " ++ first.1.source.text ++ ")")⟩

/-- What an override says; the old `ignore` is production. -/
def overrideTier (override : String) : Option Tier :=
  let o := String.ofList ((strip override.toList).flatMap lowerChar)
  (recognizedTier (some o)).or (if o = "ignore" then some .prod else none)

def resolveEnvironment (repr : String → String) (override : Option String) (tags : Tags)
    (name resourceId accountDefault : Option String) (related : List (Resolution × String)) :
    Finding :=
  match override.bind overrideTier with
  | some t => ⟨⟨t, .manual⟩, "set by a user"⟩
  | none =>
    let named := nameFinding repr name resourceId
    -- A name that contradicts itself yields to the resource it is attached to, and to nothing else.
    ((tagFinding tags).or (named.filter fun f => f.resolution.source ≠ .unknown)).getD <|
      ((relatedFinding related).or named).getD <|
        match recognizedTier accountDefault with
        | some t => ⟨⟨t, .account⟩, "account default"⟩
        | none => ⟨⟨.prod, .unknown⟩,
            "no override, tag, name token or account default (treated as PROD until placed)"⟩

/-! Whose tags are stored for a type decides what can be said of them. -/

def tagsCollectedTypes : List String :=
  ["ec2", "rds", "efs", "autoscaling", "transitgateway", "vpn"]

def tagSyncTypes : List String :=
  ["s3", "logs", "kms", "lambda", "elb", "sqs", "sns", "natgateway", "certificatemanager",
    "cloudfront", "kinesis", "wafv2", "backup", "events", "dynamodb", "eks", "firehose"]

def azureTaggedTypes : List String :=
  ["vm", "storage_account", "sql_database", "app_service", "function_app", "vmss", "aks_cluster",
    "cosmosdb_account", "redis_cache", "service_bus_namespace", "eventhub_namespace",
    "load_balancer", "application_gateway", "vpn_gateway", "key_vault", "container_instance",
    "cdn_profile", "data_factory", "managed_disk"]

def gcpLabeledTypes : List String :=
  ["compute_instance", "gcs_bucket", "cloudsql_instance", "cloud_run_service", "gke_cluster",
    "cloudfunctions_function", "pubsub_topic", "pubsub_subscription", "cloud_lb", "redis_instance",
    "spanner_instance", "gce_persistent_disk"]

/-- `PROVIDER_TAG_TYPES` -/
def providerTagTypes (provider : String) : Option (List String) :=
  if provider = "azure" then some azureTaggedTypes
  else if provider = "gcp" then some gcpLabeledTypes
  else none

inductive TagState
  | ok | nonstandard | invalid | missing | notChecked
  deriving DecidableEq, Repr

section TagState
variable (resourceType : String) (tags : Tags) (synced : Option Tags) (provider : Option String)

/-- A tag-sync result, for a type that the sync covers. -/
def usableSynced : Option Tags :=
  synced.filter fun _ => tagSyncTypes.contains (lowered resourceType)

def effectiveTags : Tags := (usableSynced resourceType synced).getD tags

def tagsKnown : Bool :=
  let t := lowered resourceType
  match providerTagTypes (lowered (provider.getD "")) with
  | some types => types.contains t
  | none =>
    if tagsCollectedTypes.contains t then true
    else if (usableSynced t synced).isSome then true
    else if t = "ebs" then (KeyedStore.find "parent_ec2" tags).isNone
    else false

/-- `tag_state` -/
def tagState : TagState :=
  if !tagsKnown resourceType tags synced provider then .notChecked
  else
    let d := effectiveTags resourceType tags synced
    let key := if lowered (provider.getD "") = "gcp" then "environment" else "Environment"
    if ["prod", "nonprod"].contains ((KeyedStore.find key d).getD "") then .ok
    else if !d.any fun tag => tagKeys.contains (foldKey tag.1) then .missing
    else if (tagFinding d).isSome then .nonstandard
    else .invalid

end TagState

/-- The tag that decides, without its reason. -/
theorem tagFinding_resolution (tags : Tags) :
    (tagFinding tags).map Finding.resolution = fromTags tags := by
  have hfolded : ∀ (folded : List (List Char × (String × String))),
      (tags.foldl (fun folded tag => KeyedStore.setDefault (foldKey tag.1) tag folded) folded).map
          (fun e => (e.1, e.2.2)) =
        tags.foldl foldTag (folded.map fun e => (e.1, e.2.2)) := by
    induction tags with
    | nil => exact fun _ => rfl
    | cons tag tags ih =>
      intro folded
      rw [List.foldl_cons, List.foldl_cons, ih, KeyedStore.map_setDefault]
      rfl
  unfold tagFinding fromTags
  rw [List.map_findSome?]
  congr 1
  funext key
  have hempty := hfolded []
  rw [List.map_nil] at hempty
  rw [← hempty, KeyedStore.find_map, Function.comp_apply]
  cases KeyedStore.find key (tags.foldl
      (fun folded tag => KeyedStore.setDefault (foldKey tag.1) tag folded) []) with
  | none => rfl
  | some tag =>
    rw [Option.bind_some, Option.map_some, Option.bind_some, Option.map_map]
    rfl

theorem singleName_resolution (e : String × String) :
    (singleName e).map Finding.resolution = (normalizeTier e.2).map fun t => ⟨t, .name⟩ := by
  rw [singleName, Option.map_map]
  rfl

/-- What the name and the id say, without the reason. -/
theorem nameFinding_resolution (repr : String → String) (name resourceId : Option String) :
    (nameFinding repr name resourceId).map Finding.resolution = fromName name resourceId := by
  have htexts : [name, resourceId].filterMap id = (nameTexts name resourceId).map Prod.snd := by
    cases name <;> cases resourceId <;> rfl
  unfold nameFinding fromName
  rw [htexts]
  generalize nameTexts name resourceId = texts
  have hsingle : (texts.findSome? singleName).map Finding.resolution =
      ((texts.map Prod.snd).findSome? normalizeTier).map fun t => ⟨t, .name⟩ := by
    rw [List.map_findSome?, List.findSome?_map, List.map_findSome?]
    congr 1
    funext e
    exact singleName_resolution e
  rw [Option.map_or, hsingle]
  dsimp only
  cases (texts.map Prod.snd).findSome? normalizeTier with
  | some t => rfl
  | none =>
    dsimp only
    rw [Option.map_none, Option.none_or, Option.map_map, List.any_map]
    cases hfind : texts.find? fun e => scan e.2 ≠ [] with
    | none =>
      have hall := List.find?_eq_none.mp hfind
      have hany : (texts.any ((fun text => decide (scan text ≠ [])) ∘ Prod.snd)) = false := by
        simpa using hall
      rw [if_neg (by simpa using hany)]
      rfl
    | some e =>
      have hany : (texts.any ((fun text => decide (scan text ≠ [])) ∘ Prod.snd)) = true :=
        List.any_eq_true.mpr ⟨e, List.mem_of_find?_eq_some hfind, List.find?_some hfind⟩
      rw [if_pos hany]
      rfl

end MonitoringHub.Environments
