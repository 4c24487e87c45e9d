import MonitoringHub.Lib.PercentQuote
import MonitoringHub.TagScript.BuildTagPlan

/-! Links into the AWS console. An address is put together from texts of the source and texts the
caller gave; the region goes into the host, the others behind it. -/

namespace MonitoringHub.Console
open Lib KeyedStore PercentQuote Environments
open TagScript (Text lit isDecimal anchored)

/-- A piece of an address: a text of the source, or one that comes from the caller. -/
inductive Piece
  | own (s : String)
  | given (t : Text)
  deriving DecidableEq

def Piece.text : Piece → Text
  | .own s => s.toList
  | .given t => t

abbrev Url := List Piece

def Url.text (u : Url) : Text := u.flatMap Piece.text

/-- `[a-z]{2,3}(-[a-z]+){1,2}-` and one digit. -/
def regionName (digit : Char → Bool) (s : Text) : Bool :=
  match s.splitOn '-' with
  | head :: parts =>
    (head.length == 2 || head.length == 3) && head.all Char.isLower &&
      (parts.length == 2 || parts.length == 3) &&
      parts.dropLast.all (fun part => part ≠ [] && part.all Char.isLower) &&
      parts.getLast?.any (fun part => part.length == 1 && part.all digit)
  | [] => false

/-- `_VALID_REGION_RE.match` -/
def validRegionRe (s : Text) : Bool := anchored (regionName isDecimal) s

/-- `_safe_region`; a missing region is empty. -/
def safeRegion (region : Piece) : Piece :=
  if region.text ≠ [] ∧ validRegionRe region.text then region else .own "us-east-1"

/-- `str.lower` -/
def lower (s : Text) : Text := s.flatMap lowerChar

/-- What follows `https://{region}.console.aws.amazon.com`. -/
def regional (region : Piece) (path : String) (rest : Url) : Url :=
  .own "https://" :: region :: .own ".console.aws.amazon.com/" :: .own path :: rest

/-- A page on a host of its own, whatever the region. -/
structure GlobalPage where
  host : String
  path : String

def GlobalPage.url (p : GlobalPage) (rest : Url) : Url :=
  .own "https://" :: .own p.host :: .own "/" :: .own p.path :: rest

/-- `path?region={region}hash`; of one page neither. -/
inductive ListPage
  | home (path hash : String)
  | bare (path : String)

def ListPage.url (region : Piece) : ListPage → Url
  | .home path hash => regional region path [.own "?region=", region, .own hash]
  | .bare path => regional region path []

def globalPages : List (Text × GlobalPage) :=
  [(lit "s3", ⟨"s3.console.aws.amazon.com", "s3/buckets"⟩),
    (lit "route53", ⟨"console.aws.amazon.com", "route53/healthchecks/home#/"⟩),
    (lit "cloudfront", ⟨"console.aws.amazon.com", "cloudfront/v4/home#/distributions"⟩),
    (lit "globalaccelerator",
      ⟨"us-west-2.console.aws.amazon.com", "ga/home?region=us-west-2#/accelerators"⟩)]

def listPages : List (Text × ListPage) :=
  [(lit "ec2", .home "ec2/home" "#Instances:"),
    (lit "ebs", .home "ec2/home" "#Volumes:"),
    (lit "rds", .home "rds/home" "#databases:"),
    (lit "lambda", .home "lambda/home" "#/functions"),
    (lit "elb", .home "ec2/home" "#LoadBalancers:"),
    (lit "ecs", .home "ecs/home" ""),
    (lit "security_group", .home "ec2/home" "#SecurityGroups:"),
    (lit "iam_user", .bare "iam/home#/users"),
    (lit "dynamodb", .home "dynamodbv2/home" "#tables"),
    (lit "sqs", .home "sqs/v2/home" "#/queues"),
    (lit "sns", .home "sns/v3/home" "#/topics"),
    (lit "kinesis", .home "kinesis/home" "#/streams/list"),
    (lit "firehose", .home "firehose/home" "#/"),
    (lit "autoscaling", .home "ec2autoscaling/home" ""),
    (lit "natgateway", .home "vpc/home" "#NatGateways:"),
    (lit "efs", .home "efs/home" "#/file-systems"),
    (lit "elasticache", .home "elasticache/home" ""),
    (lit "redshift", .home "redshiftv2/home" "#clusters:"),
    (lit "memorydb", .home "memorydb/home" "#/clusters"),
    (lit "dax", .home "dax/home" ""),
    (lit "states", .home "states/home" "#/statemachines"),
    (lit "events", .home "events/home" "#/rules"),
    (lit "kms", .home "kms/home" "#/kms/keys"),
    (lit "certificatemanager", .home "acm/home" "#/certificates/list"),
    (lit "backup", .home "backup/home" ""),
    (lit "cognito", .home "cognito/v2/home" "#/user-pools"),
    (lit "logs", .home "cloudwatch/home" "#logsV2:log-groups"),
    (lit "dms", .home "dms/v2/home" "#/replicationInstances"),
    (lit "directconnect", .home "directconnect/v2/home" "#/connections"),
    (lit "eks", .home "eks/home" "#/clusters"),
    (lit "documentdb", .home "docdb/home" "#clusters:"),
    (lit "neptune", .home "neptune/home" "#databases:"),
    (lit "apigateway", .home "apigateway/main/apis" ""),
    (lit "opensearch", .home "aos/home" "#opensearch/domains"),
    (lit "wafv2", .home "wafv2/homev2/web-acls" ""),
    (lit "msk", .home "msk/home" "#/clusters"),
    (lit "transitgateway", .home "vpc/home" "#TransitGateways:"),
    (lit "vpn", .home "vpc/home" "#VpnConnections:")]

/-- `service_console_list_url` -/
def serviceConsoleListUrl (service : Text) (region : Piece) : Url :=
  match find (lower service) globalPages with
  | some page => page.url []
  | none => ((find (lower service) listPages).getD (.home "console/home" "")).url (safeRegion region)

/-- `_legacy_prefix_guess_destination` -/
def legacyPrefixGuessDestination (resource : Text) (region : Piece) : Url :=
  let region := safeRegion region
  if resource = [] then regional region "console/home?region=" [region]
  else if lit "i-" <+: resource then
    regional region "ec2/home?region=" [region, .own "#Instances:instanceId=", .given resource]
  else if lit "vol-" <+: resource then
    regional region "ec2/home?region=" [region, .own "#Volumes:volumeId=", .given resource]
  else if lit "lambda" <:+: resource ∨ lit "arn:aws:lambda" <+: resource then
    regional region "lambda/home?region="
      [region, .own "#/functions/", .given ((resource.splitOn ':').getLastD [])]
  else if lit "db-" <+: resource ∨ lit "rds" <:+: resource then
    regional region "rds/home?region=" [region, .own "#database:"]
  else regional region "console/home?region=" [region]

/-- What the caller asks a link for; a missing text is empty. -/
structure LinkRequest where
  service : Text
  resourceId : Text
  region : Text
  resourceName : Text
  ecsServiceName : Text

/-- `resource_name_enc or resource_id_enc` -/
def LinkRequest.named (r : LinkRequest) : Text :=
  if r.resourceName = [] then quote r.resourceId else quote r.resourceName

/-- `resource_console_destination` -/
def resourceConsoleDestination (r : LinkRequest) : Url :=
  let region := safeRegion (.given r.region)
  if r.resourceId = [] then serviceConsoleListUrl r.service region
  else
    let svc := lower r.service
    let resourceIdEnc := Piece.given (quote r.resourceId)
    if svc = lit "ec2" then
      regional region "ec2/home?region=" [region, .own "#Instances:instanceId=", resourceIdEnc]
    else if svc = lit "ebs" then
      regional region "ec2/home?region=" [region, .own "#Volumes:volumeId=", resourceIdEnc]
    else if svc = lit "rds" then
      regional region "rds/home?region=" [region, .own "#database:id=", resourceIdEnc]
    else if svc = lit "lambda" then
      regional region "lambda/home?region=" [region, .own "#/functions/", resourceIdEnc]
    else if svc = lit "s3" then
      GlobalPage.url ⟨"s3.console.aws.amazon.com", "s3/buckets/"⟩ [resourceIdEnc]
    else if svc = lit "elb" then
      regional region "ec2/home?region=" [region, .own "#LoadBalancers:search=", .given r.named]
    else if svc = lit "ecs" then
      if r.ecsServiceName = [] then
        regional region "ecs/home?region=" [region, .own "#/clusters/", .given r.named]
      else
        regional region "ecs/home?region=" [region, .own "#/clusters/", .given r.named,
          .own "/services/", .given (quote r.ecsServiceName)]
    else if svc = lit "security_group" then
      regional region "ec2/home?region=" [region, .own "#SecurityGroups:groupId=", resourceIdEnc]
    else if svc = lit "iam_user" then
      regional region "iam/home#/users/details/" [.given r.named,
        .own "?section=security_credentials"]
    else if svc = lit "dynamodb" then
      regional region "dynamodbv2/home?region=" [region, .own "#table?initialTagKey=&name=",
        resourceIdEnc, .own "&tab=overview"]
    else if svc = lit "logs" then
      regional region "cloudwatch/home?region=" [region,
        .own "#logsV2:log-groups/log-group/", resourceIdEnc]
    else if svc ≠ [] then serviceConsoleListUrl svc region
    else legacyPrefixGuessDestination r.resourceId region

end MonitoringHub.Console
