import MonitoringHub.Lib.KeyedStore
import MonitoringHub.Lib.Pattern
import MonitoringHub.Environments.EnvTiers

/-! The name scanner and the readers built on it. A text is cut into tokens at every
character that is no ASCII letter or digit and at camelCase boundaries, after the phrases
"pre-prod" and "non-prod" were taken out; a token counts when it is a vocabulary word. -/

namespace MonitoringHub.Environments
open Alerts Lib Lib.Pattern

/-! The patterns ignore case, so a class of ASCII letters also takes the four characters that
fold into it. -/

def letterLike (c : Char) : Bool :=
  c.isAlpha || ['\u0130', '\u0131', '\u017f', '\u212a'].contains c

def alnumLike (c : Char) : Bool := letterLike c || c.isDigit

def sameLetter (c d : Char) : Bool :=
  d.toLower == c || (c == 'i' && (d == '\u0130' || d == '\u0131')) || (c == 's' && d == '\u017f') ||
    (c == 'k' && d == '\u212a')

def text : List Char → Pattern
  | [] => .before []
  | c :: cs => .seq (.one (sameLetter c)) (text cs)

def isSep (c : Char) : Bool := isSpace c || ['_', '-', '.', '/', ':'].contains c

/-- `_PRE_PROD` and `_NON_PROD`. -/
def prodPhrase (stem : String) : Pattern :=
  .seq (.notAfter alnumLike) (.seq (text stem.toList) (.seq (.many isSep) (.seq (text "prod".toList)
    (.seq (.opt (text "uction".toList)) (.notBefore letterLike)))))

def preProd : Pattern := prodPhrase "pre"

def nonProd : Pattern := prodPhrase "non"

def secPart : Pattern := .opt (.seq (text "sec".toList) (.many isSep))

def devOps : Pattern :=
  .seq (.notAfter alnumLike) (.seq secPart (.seq (text "dev".toList) (.seq (.many isSep)
    (.seq secPart (.seq (text "ops".toList) (.notBefore letterLike))))))

def camel1 : Pattern := .seq (.after lowerAlnum) (.before [Char.isUpper])

def camel2 : Pattern := .seq (.after Char.isUpper) (.before [Char.isUpper, Char.isLower])

def camelCut (s : List Char) : List Char := sub camel2 [' '] (sub camel1 [' '] s)

def tokens (s : List Char) : List (List Char) := pieces Char.isAlphanum s

def tokenTier (token : List Char) : Option Tier :=
  wordTier (dropTrailingDigits (token.map Char.toLower))

/-- The tiers found, phrases first. -/
def scan (value : String) : List Tier :=
  let s := value.toList
  let s₁ := sub preProd [' '] s
  let s₂ := sub nonProd [' '] s₁
  (findAll preProd s ++ findAll nonProd s₁).map (fun _ => .nonprod) ++
    (tokens (sub devOps [' '] (camelCut s₂))).filterMap tokenTier

def oneTier (tiers : List Tier) : Option Tier :=
  match tiers with
  | [] => none
  | t :: ts => if ts.all (· == t) then some t else none

def normalizeTier (value : String) : Option Tier := oneTier (scan value)

inductive Source
  | manual | tag | name | related | account | unknown
  deriving DecidableEq, Repr

structure Resolution where
  env : Tier
  source : Source
  deriving DecidableEq, Repr

def tagKeys : List (List Char) :=
  ["environment", "env", "stage", "deployment_environment", "app_env", "appenv", "env_type",
    "environment_type", "envtype"].map String.toList

/-- `re.sub(r"[-.\s]+", "_", key)`: a run of these characters becomes one underscore. -/
def underscored : List Char → List Char
  | [] => []
  | c :: s =>
    let cut := fun d => isSpace d || d == '-' || d == '.'
    if cut c then (if s.head?.any cut then underscored s else '_' :: underscored s)
    else c :: underscored s

def foldKey (key : String) : List Char := underscored ((strip key.toList).flatMap lowerChar)

def foldTag (folded : List (List Char × String)) (tag : String × String) :
    List (List Char × String) := KeyedStore.setDefault (foldKey tag.1) tag.2 folded

/-- The first environment tag whose value names one tier. -/
def fromTags (tags : List (String × String)) : Option Resolution :=
  let folded := tags.foldl foldTag []
  tagKeys.findSome? fun key =>
    ((KeyedStore.find key folded).bind normalizeTier).map fun t => ⟨t, .tag⟩

/-- The name, then the id; texts that name both tiers are only noted. -/
def fromName (name resourceId : Option String) : Option Resolution :=
  let texts := [name, resourceId].filterMap id
  match texts.findSome? normalizeTier with
  | some t => some ⟨t, .name⟩
  | none => if texts.any fun text => scan text ≠ [] then some ⟨.prod, .unknown⟩ else none

/-- `_environment_from_tags` of the alert evaluator. -/
def environmentFromTags (tags : List (String × String)) : Tier :=
  toTier (some (((KeyedStore.find "environment" tags).or
    (KeyedStore.find "Environment" tags)).getD "prod"))

end MonitoringHub.Environments
