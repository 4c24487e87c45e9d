import MonitoringHub.Lib.StepRun
import MonitoringHub.Lib.Text

/-! The mails of the alert and incident rules: which rules match an event, what
`decide` reads of the earlier sends, and one dispatch after the other. What a person
has been mailed is kept beside the table of sends; nothing in the code reads it. -/

namespace MonitoringHub.EmailRules
open Lib

inductive Event
  | alertOpened
  | alertEscalated
  | alertResolved
  | incidentOpened
  | incidentResolved
  deriving DecidableEq, Repr

def Event.word : Event → String
  | .alertOpened => "alert_opened"
  | .alertEscalated => "alert_escalated"
  | .alertResolved => "alert_resolved"
  | .incidentOpened => "incident_opened"
  | .incidentResolved => "incident_resolved"

inductive ObjectKind
  | alert
  | incident
  deriving DecidableEq, Repr

/-- A row of `email_alert_rules`. -/
structure Rule where
  id : ℕ
  enabled : Bool
  events : String
  minSeverity : Option String
  accountId : Option ℕ

/-- What a dispatch knows of the alert or incident. -/
structure Context where
  kind : ObjectKind
  objectId : ℕ
  accountId : Option ℕ
  resourceId : Option String
  severity : Option String
  silenced : Bool
  deriving DecidableEq, Repr

/-- `_RANK.get(word, default)` -/
def rank (word : String) (default : ℕ) : ℕ :=
  if word = "WARNING" then 1 else if word = "CRITICAL" then 2 else default

namespace Rule

def words (rule : Rule) : List String := (Text.split ',' rule.events).map Text.strip

/-- An empty word counts as a missing one. -/
def leastRank (rule : Rule) : ℕ :=
  match rule.minSeverity with
  | none => rank "WARNING" 1
  | some word => rank (Text.upper (if word = "" then "WARNING" else word)) 1

def matchesEvent (rule : Rule) (event : Event) (severity : Option String) (accountId : Option ℕ) :
    Bool :=
  rule.enabled && decide (event.word ∈ rule.words) &&
    decide (rule.leastRank ≤ rank (Text.upper (severity.getD "")) 0) &&
    (rule.accountId.isNone || rule.accountId == accountId)

end Rule

/-- One of the sends that `_recent_sends` returns. -/
structure RecentSend where
  sentAt : ℤ
  resourceKey : Option String
  deriving DecidableEq, Repr

/-- `decide`: may one mail go to one person for one rule? -/
def decideMail (now : ℤ) (recent : List RecentSend) (resKey : Option String) (throttle cap : ℤ)
    (alreadySent : Bool) : Bool × String :=
  if alreadySent then (false, "already mailed for this event")
  else if cap ≤ (recent.filter fun r => decide (now - 3600 < r.sentAt)).length then
    (false, "hourly cap reached")
  else if resKey.isSome &&
      recent.any fun r => r.resourceKey == resKey && decide (now - throttle < r.sentAt) then
    (false, "throttled (same resource, inside the window)")
  else (true, "")

/-- A row of `email_rule_sends`. -/
structure SendRow where
  ruleId : ℕ
  recipientKey : String
  kind : ObjectKind
  objectId : ℕ
  event : Event
  resourceKey : Option String
  sentAt : ℤ
  deriving DecidableEq, Repr

/-- The unique key of the table. -/
def SendRow.key (row : SendRow) : String × ObjectKind × ℕ × Event :=
  (row.recipientKey, row.kind, row.objectId, row.event)

/-- The resource of an account. -/
structure Resource where
  accountId : Option ℕ
  resourceId : String
  deriving DecidableEq, Repr

/-- A mail that went out, and the throttle that was in force. -/
structure Mail where
  ruleId : ℕ
  person : String
  kind : ObjectKind
  objectId : ℕ
  event : Event
  resource : Option Resource
  sentAt : ℤ
  throttle : ℤ
  deriving DecidableEq, Repr

/-- The event of an object that a person was mailed about. -/
def Mail.key (m : Mail) : String × ObjectKind × ℕ × Event := (m.person, m.kind, m.objectId, m.event)

/-- Python's `strip().lower()` and `lower()`, and SHA-1 in hexadecimal. -/
structure TextMethods where
  normal : String → String
  lower : String → String
  sha1 : String → String

namespace TextMethods
variable (py : TextMethods)

def recipientKey (address : String) : String := py.sha1 (py.normal address)

def resourceKey (event : Event) (r : Resource) : String :=
  let account := (r.accountId.map toString).getD "None"
  py.sha1 s!"{account}|{event.word}:{r.resourceId}"

/-- The row that a mail leaves. -/
def row (m : Mail) : SendRow :=
  ⟨m.ruleId, py.sha1 m.person, m.kind, m.objectId, m.event, m.resource.map (py.resourceKey m.event),
    m.sentAt⟩

end TextMethods

/-- One event to dispatch: the enabled rules, whom others mail already, the addresses of a rule
(either lookup may raise), the seconds that pass before an address is looked at, which sends
succeed, and the limits in force. -/
structure Dispatch where
  event : Event
  ctx : Context
  rules : List Rule
  excluded : Option (List String)
  addresses : ℕ → Option (List String)
  pause : ℕ → String → ℕ
  delivered : ℕ → String → Bool
  throttle : ℤ
  cap : ℤ

namespace Dispatch

def resource (d : Dispatch) : Option Resource :=
  match d.ctx.resourceId with
  | none => none
  | some id => if id = "" then none else some ⟨d.ctx.accountId, id⟩

def matching (d : Dispatch) : List Rule :=
  d.rules.filter fun rule => rule.matchesEvent d.event d.ctx.severity d.ctx.accountId

/-- The addresses rule by rule, up to a lookup that raises. -/
def offersOf (d : Dispatch) : List Rule → List (Rule × String)
  | [] => []
  | rule :: rules =>
    match d.addresses rule.id with
    | none => []
    | some addresses => addresses.map (fun address => (rule, address)) ++ d.offersOf rules

/-- What the loops of `_dispatch_one` go through. -/
def offers (py : TextMethods) (d : Dispatch) : List (Rule × String) :=
  match d.excluded with
  | none => []
  | some excluded =>
    if d.ctx.silenced then []
    else (d.offersOf d.matching).filter fun offer => !excluded.contains (py.lower offer.2)

end Dispatch

structure MailState where
  now : ℤ
  sends : List SendRow
  mails : List Mail

namespace MailState
variable (py : TextMethods)

/-- The sends of a rule to a person in the last hour. -/
def recentSends (s : MailState) (ruleId : ℕ) (rkey : String) : List RecentSend :=
  (s.sends.filter fun row => decide (row.ruleId = ruleId ∧ row.recipientKey = rkey ∧
    s.now - 3600 < row.sentAt)).map fun row => ⟨row.sentAt, row.resourceKey⟩

def alreadySent (s : MailState) (key : String × ObjectKind × ℕ × Event) : Bool :=
  s.sends.any fun row => row.key == key

/-- A successful send: INSERT IGNORE of its row. -/
def recordSend (s : MailState) (m : Mail) : MailState :=
  { s with
    sends := if s.alreadySent (py.row m).key then s.sends else py.row m :: s.sends
    mails := m :: s.mails }

/-- The mail of this rule to this address. -/
def mailFor (s : MailState) (d : Dispatch) (offer : Rule × String) : Mail :=
  ⟨offer.1.id, py.normal offer.2, d.ctx.kind, d.ctx.objectId, d.event, d.resource, s.now, d.throttle⟩

/-- Whether `decide` lets the mail go out. -/
def allowed (s : MailState) (d : Dispatch) (offer : Rule × String) : Bool :=
  let row := py.row (s.mailFor py d offer)
  (decideMail s.now (s.recentSends row.ruleId row.recipientKey) row.resourceKey d.throttle d.cap
    (s.alreadySent row.key)).1

def wait (s : MailState) (seconds : ℕ) : MailState := { s with now := s.now + seconds }

/-- The body of the loops. -/
def offer (d : Dispatch) (s : MailState) (offer : Rule × String) : MailState :=
  let s := s.wait (d.pause offer.1.id offer.2)
  if s.allowed py d offer && d.delivered offer.1.id offer.2 then
    s.recordSend py (s.mailFor py d offer)
  else s

def dispatchOne (s : MailState) (d : Dispatch) : MailState := (d.offers py).foldl (offer py d) s

end MailState

inductive MailAct
  | elapse (seconds : ℕ)
  | dispatch (d : Dispatch)

def MailState.step (py : TextMethods) (s : MailState) : MailAct → Option MailState
  | .elapse seconds => some (s.wait seconds)
  | .dispatch d => some (s.dispatchOne py d)

end MonitoringHub.EmailRules
