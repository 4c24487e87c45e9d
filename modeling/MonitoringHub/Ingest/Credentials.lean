import Mathlib.Data.List.Basic
import MonitoringHub.Ingest.Attachment
import MonitoringHub.Lib.LeastByKey

/-! The credentials of the host agents. An enrolment key lets an agent in, an enrolment revokes
the tokens of its host and leaves one new one, and the daily retention deletes tokens and keys that
are of no more use. Whose token a text is, is a matter of what was last said about the host. -/

namespace MonitoringHub.Ingest
open Lib Lib.RowTable

/-- What the server takes from elsewhere: SHA-256, and the collation of `hostname`. -/
structure Backend where
  hashSecret : String → String
  sameHostname : String → String → Bool

def secretChar (c : Char) : Bool := c.isAlphanum || c = '_' || c = '-'

/-- `_TOKEN_RE` and `_KEY_RE`: `$` also matches before a newline that ends the text. -/
def looksLike (head : String) (length : ℕ) (value : String) : Bool :=
  let chars := value.toList
  let body := if chars.getLast? = some '\n' then chars.dropLast else chars
  decide (head.toList <+: body) && decide ((body.drop head.toList.length).length = length) &&
    (body.drop head.toList.length).all secretChar

def looksLikeToken : String → Bool := looksLike "cah_" 40

def looksLikeEnrollmentKey : String → Bool := looksLike "cak_" 32

/-- A row of `host_agent_enrollment_keys`. -/
structure EnrollmentKey where
  id : ℕ
  awsAccountId : ℕ
  keyHash : String
  maxUses : ℕ
  usedCount : ℕ
  expiresAt : Option ℕ
  revoked : Bool
  createdAt : ℕ
  deriving DecidableEq

/-- `revoked = 0 AND used_count < max_uses AND (expires_at IS NULL OR expires_at > ..)` -/
def EnrollmentKey.valid (now : ℕ) (k : EnrollmentKey) : Bool :=
  !k.revoked && k.usedCount < k.maxUses && k.expiresAt.all fun e => now < e

/-- A row of `host_agent_tokens`. -/
structure AgentToken where
  hostAgentId : ℕ
  tokenHash : String
  revokedAt : Option ℕ
  deriving DecidableEq

def AgentToken.live (t : AgentToken) : Bool := t.revokedAt.isNone

/-- `SET revoked_at = .. WHERE host_agent_id = %s AND revoked_at IS NULL` -/
def AgentToken.revoke (host now : ℕ) (t : AgentToken) : AgentToken :=
  if t.hostAgentId = host ∧ t.revokedAt = none then { t with revokedAt := some now } else t

/-- A row of `host_agents`, with the version of its configuration. -/
structure HostRow extends AgentRow where
  configVersion : ℕ
  deriving DecidableEq

structure EnrollRequest where
  enrollmentKey : String
  hostname : String
  instanceId : Option String
  agentVersion : String

/-- 404 where the feature is off, 401, 500 and 200. -/
inductive EnrollReply
  | notFound
  | invalidKey
  | serverError
  | enrolled (keyId hostId : ℕ)
  deriving DecidableEq

/-- What `authenticate_agent` says of the bearer of a token. -/
structure AgentIdentity where
  hostAgentId : ℕ
  awsAccountId : ℕ
  hostname : String
  resourceId : Option String
  configVersion : ℕ
  deriving DecidableEq

/-- The three tables, with `aws_accounts` by id, `HOST_AGENT_ENABLED` and the clock in seconds.
Hosts are never deleted, and their ids are their positions. -/
structure Credentials where
  keys : List EnrollmentKey
  hosts : List HostRow
  tokens : List AgentToken
  nextKey : ℕ
  accounts : List ℕ
  enabled : Bool
  now : ℕ

/-- What is sent to the server, with what it answers an agent; a scope is `none` where the user
sees every account. An administrator's request that finds the feature off is no event. -/
inductive CredentialEvent
  | wait (seconds : ℕ)
  | accountsChanged (accounts : List ℕ)
  | switched (enabled : Bool)
  | hostChanged (host : ℕ) (row : HostRow)
  | createKey (accessible : Option (List ℕ)) (account maxUses hours : ℕ) (key : String)
      (reply : Option ℕ)
  | revokeKey (accessible : Option (List ℕ)) (key : ℕ)
  | enroll (req : EnrollRequest) (token : String) (reply : EnrollReply)
  | revokeHost (accessible : Option (List ℕ)) (host : ℕ) (reply : Option ℕ)
  | authenticate (token : String) (reply : Option AgentIdentity)
  | pruneTokens (days : ℤ) (batch : List String)
  | pruneKeys (days : ℤ) (batch : List ℕ)

/-- `_in_scope` -/
def inScope (accessible : Option (List ℕ)) (account : ℕ) : Bool :=
  accessible.all fun ids => decide (account ∈ ids)

/-- `MIN_HOST_AGENT_CREDENTIAL_RETENTION_DAYS`; zero days and fewer keep everything. -/
def credentialWindow (days : ℤ) : Option ℕ :=
  if days ≤ 0 then none else some (max days.toNat 30 * 86400)

namespace Credentials

def empty (accounts : List ℕ) (enabled : Bool) (now : ℕ) : Credentials :=
  ⟨[], [], [], 0, accounts, enabled, now⟩

def identity (s : Credentials) (host : ℕ) : Option AgentIdentity :=
  (s.hosts[host]?).map fun row =>
    ⟨host, row.awsAccountId, row.hostname, row.resourceId, row.configVersion⟩

/-- `authenticate_agent`; the join drops a token without a host. -/
def authenticateAgent (b : Backend) (s : Credentials) (token : String) : Option AgentIdentity :=
  if !s.enabled || !looksLikeToken token then none
  else
    (s.tokens.find? fun t => t.tokenHash = b.hashSecret token).bind fun t =>
      (s.hosts[t.hostAgentId]?).bind fun row =>
        if t.revokedAt ≠ none ∨ row.status ≠ .active then none else s.identity t.hostAgentId

/-- `create_enrollment_key`; a hash that is there already breaks the unique key. -/
def createKey (b : Backend) (s : Credentials) (accessible : Option (List ℕ))
    (account maxUses hours : ℕ) (key : String) : Credentials × Option ℕ :=
  if !inScope accessible account || account ∉ s.accounts ||
      s.keys.any fun k => k.keyHash = b.hashSecret key then (s, none)
  else
    ({ s with
        keys := s.keys ++ [⟨s.nextKey, account, b.hashSecret key, maxUses, 0,
          some (s.now + hours * 3600), false, s.now⟩]
        nextKey := s.nextKey + 1 }, some s.nextKey)

/-- `revoke_enrollment_key` -/
def revokeKey (s : Credentials) (accessible : Option (List ℕ)) (key : ℕ) : Credentials :=
  { s with
    keys := s.keys.map fun k =>
      if k.id = key ∧ inScope accessible k.awsAccountId then { k with revoked := true } else k }

/-- The upsert of `host_agents` on its unique key, with the id of the row. -/
def upsertHost (b : Backend) (hosts : List HostRow) (account : ℕ) (req : EnrollRequest) :
    List HostRow × ℕ :=
  match hosts.findIdx? fun h =>
      h.awsAccountId = account && b.sameHostname h.hostname req.hostname with
  | some i =>
    (modifyAt i (fun h => ⟨h.toAgentRow.reEnrolled req.instanceId req.agentVersion,
      h.configVersion⟩) hosts, i)
  | none =>
    (hosts ++ [⟨⟨account, req.hostname, .active, 0, none, req.agentVersion, none, req.instanceId⟩,
      1⟩], hosts.length)

/-- The rows that the conditional `UPDATE` of an enrolment takes. -/
def opens (b : Backend) (now : ℕ) (req : EnrollRequest) (k : EnrollmentKey) : Bool :=
  k.valid now && k.keyHash = b.hashSecret req.enrollmentKey

/-- `enroll`, a transaction that is rolled back unless it ends in `enrolled`. -/
def enroll (b : Backend) (s : Credentials) (req : EnrollRequest) (token : String) :
    Credentials × EnrollReply :=
  if !s.enabled then (s, .notFound)
  else if !looksLikeEnrollmentKey req.enrollmentKey then (s, .invalidKey)
  else
    match s.keys.filter (opens b s.now req) with
    | [key] =>
      if key.awsAccountId ∉ s.accounts then (s, .invalidKey)
      else if s.tokens.any fun t => t.tokenHash = b.hashSecret token then (s, .serverError)
      else
        let upserted := upsertHost b s.hosts key.awsAccountId req
        ({ s with
            keys := s.keys.map fun k =>
              if opens b s.now req k then { k with usedCount := k.usedCount + 1 } else k
            hosts := upserted.1
            tokens := s.tokens.map (AgentToken.revoke upserted.2 s.now) ++
              [⟨upserted.2, b.hashSecret token, none⟩] },
          .enrolled key.id upserted.2)
    | _ => (s, .invalidKey)

/-- `revoke_host_agent`, with the number of tokens it revoked. -/
def revokeHost (s : Credentials) (accessible : Option (List ℕ)) (host : ℕ) :
    Credentials × Option ℕ :=
  match s.hosts[host]? with
  | none => (s, none)
  | some row =>
    if !inScope accessible row.awsAccountId then (s, none)
    else
      ({ s with
          tokens := s.tokens.map (AgentToken.revoke host s.now)
          hosts := modifyAt host (fun h => { h with status := .revoked }) s.hosts },
        some (s.tokens.countP fun t => t.hostAgentId = host && t.live))

/-- The first half of `prune_host_agent_credentials`; a batch is what its `LIMIT` lets through. -/
def pruneTokens (s : Credentials) (days : ℤ) (batch : List String) : Credentials :=
  match credentialWindow days with
  | none => s
  | some window =>
    { s with
      tokens := s.tokens.filter fun t =>
        !(t.tokenHash ∈ batch && t.revokedAt.any fun at_ => at_ + window < s.now) }

/-- The second half: keys that are revoked, used up or expired. -/
def pruneKeys (s : Credentials) (days : ℤ) (batch : List ℕ) : Credentials :=
  match credentialWindow days with
  | none => s
  | some window =>
    { s with
      keys := s.keys.filter fun k =>
        !(k.id ∈ batch && k.createdAt + window < s.now &&
          (k.revoked || k.maxUses ≤ k.usedCount || k.expiresAt.any fun e => e < s.now)) }

/-- An ingest request or a change of the configuration leaves who the host is. -/
def hostChanged (s : Credentials) (host : ℕ) (row : HostRow) : Option Credentials :=
  (s.hosts[host]?).bind fun old =>
    if old.awsAccountId = row.awsAccountId ∧ old.hostname = row.hostname ∧
        old.status = row.status then
      some { s with hosts := modifyAt host (fun _ => row) s.hosts }
    else none

/-- `host_agents_enabled_gate` on an administrator's request. -/
def gate (s : Credentials) (out : Option Credentials) : Option Credentials :=
  if s.enabled then out else none

/-- An answer that the server does not give is no step. -/
def answered {α : Type} [DecidableEq α] (reply : α) (out : Credentials × α) : Option Credentials :=
  if out.2 = reply then some out.1 else none

def step (b : Backend) (s : Credentials) : CredentialEvent → Option Credentials
  | .wait seconds => some { s with now := s.now + seconds }
  | .accountsChanged accounts => some { s with accounts := accounts }
  | .switched enabled => some { s with enabled := enabled }
  | .hostChanged host row => s.hostChanged host row
  | .createKey accessible account maxUses hours key reply =>
    s.gate (answered reply (s.createKey b accessible account maxUses hours key))
  | .revokeKey accessible key => s.gate (some (s.revokeKey accessible key))
  | .enroll req token reply => answered reply (s.enroll b req token)
  | .revokeHost accessible host reply => s.gate (answered reply (s.revokeHost accessible host))
  | .authenticate token reply => answered reply (s, s.authenticateAgent b token)
  | .pruneTokens days batch => some (s.pruneTokens days batch)
  | .pruneKeys days batch => some (s.pruneKeys days batch)

end Credentials

/-- The token that the last enrolment of the host handed out, unless the host was revoked since. -/
def lastIssued : List CredentialEvent → ℕ → Option String
  | [], _ => none
  | .enroll _ token (.enrolled _ i) :: older, host =>
    if i = host then some token else lastIssued older host
  | .revokeHost _ i (some _) :: older, host => if i = host then none else lastIssued older host
  | _ :: older, host => lastIssued older host

section Tokens
variable {host now : ℕ} {tokens : List AgentToken}

@[simp] theorem AgentToken.revoke_tokenHash (t : AgentToken) :
    (t.revoke host now).tokenHash = t.tokenHash := by
  unfold AgentToken.revoke
  split <;> rfl

@[simp] theorem AgentToken.revoke_hostAgentId (t : AgentToken) :
    (t.revoke host now).hostAgentId = t.hostAgentId := by
  unfold AgentToken.revoke
  split <;> rfl

theorem AgentToken.revoke_live (t : AgentToken) :
    (t.revoke host now).live = (t.live && decide (t.hostAgentId ≠ host)) := by
  unfold AgentToken.revoke AgentToken.live
  split
  · rename_i h
    simp [h.1]
  · rename_i h
    cases hr : t.revokedAt <;> simp_all

theorem hashes_revoke : (tokens.map (AgentToken.revoke host now)).map AgentToken.tokenHash =
    tokens.map AgentToken.tokenHash := by
  rw [List.map_map]
  exact List.map_congr_left fun t _ => t.revoke_tokenHash

/-- The tokens still live after those of a host are revoked. -/
theorem mem_revoke_live {i : ℕ} {hash : String} :
    ⟨i, hash, none⟩ ∈ tokens.map (AgentToken.revoke host now) ↔
      ⟨i, hash, none⟩ ∈ tokens ∧ i ≠ host := by
  rw [List.mem_map]
  constructor
  · rintro ⟨t, ht, heq⟩
    have hlive : (t.revoke host now).live = true := by rw [heq]; rfl
    rw [AgentToken.revoke_live, Bool.and_eq_true] at hlive
    have hsame : t.revoke host now = t := by
      refine if_neg fun h => ?_
      simp [h.1] at hlive
    rw [hsame] at heq
    subst heq
    exact ⟨ht, by simpa using hlive.2⟩
  · rintro ⟨ht, hne⟩
    exact ⟨_, ht, if_neg fun h => hne h.1⟩

end Tokens

namespace Credentials
variable {b : Backend} {s t : Credentials}

/-- The row that an upsert leaves is active, and the rows of the other hosts are as they were. -/
theorem upsertHost_spec (b : Backend) (hosts : List HostRow) (account : ℕ) (req : EnrollRequest) :
    hosts.length ≤ (upsertHost b hosts account req).1.length ∧
      (∃ row, (upsertHost b hosts account req).1[(upsertHost b hosts account req).2]? = some row ∧
        row.status = .active) ∧
      ∀ j, j ≠ (upsertHost b hosts account req).2 →
        (upsertHost b hosts account req).1[j]? = hosts[j]? := by
  unfold upsertHost
  split
  · rename_i i hi
    obtain ⟨hlt, -⟩ := List.findIdx?_eq_some_iff_findIdx_eq.mp hi
    have hrow : hosts[i]? = some hosts[i] := List.getElem?_eq_getElem hlt
    exact ⟨(modifyAt_length _ _ _).ge,
      ⟨_, (modifyAt_found hrow _ i).trans (if_pos rfl), rfl⟩,
      fun j hj => (modifyAt_found hrow _ j).trans (if_neg hj)⟩
  · refine ⟨by simp, ⟨⟨⟨account, req.hostname, .active, 0, none, req.agentVersion, none,
      req.instanceId⟩, 1⟩, List.getElem?_concat_length, rfl⟩, fun j hj => ?_⟩
    rcases Nat.lt_or_ge j hosts.length with hlt | hge
    · exact List.getElem?_append_left hlt
    · have hj' : hosts.length + 1 ≤ j := lt_of_le_of_ne hge (Ne.symm hj)
      rw [List.getElem?_eq_none (by simpa using hj'), List.getElem?_eq_none hge]

/-- An enrolment that goes through: the key it used and the state it leaves. -/
theorem enroll_enrolled {req : EnrollRequest} {token : String} {keyId host : ℕ}
    (h : s.enroll b req token = (t, .enrolled keyId host)) :
    ∃ key, s.keys.filter (opens b s.now req) = [key] ∧ key.id = keyId ∧
      (∀ u ∈ s.tokens, u.tokenHash ≠ b.hashSecret token) ∧
      host = (upsertHost b s.hosts key.awsAccountId req).2 ∧
      t = { s with
        keys := s.keys.map fun k =>
          if opens b s.now req k then { k with usedCount := k.usedCount + 1 } else k
        hosts := (upsertHost b s.hosts key.awsAccountId req).1
        tokens := s.tokens.map (AgentToken.revoke host s.now) ++
          [⟨host, b.hashSecret token, none⟩] } := by
  unfold enroll at h
  split at h
  · cases h
  · split at h
    · cases h
    · split at h
      · rename_i key hkey
        split at h
        · cases h
        · split at h
          · cases h
          · rename_i hnew
            obtain ⟨rfl, hreply⟩ := Prod.mk.inj h
            obtain ⟨rfl, rfl⟩ := EnrollReply.enrolled.inj hreply
            refine ⟨key, hkey, rfl, fun u hu heq => hnew ?_, rfl, rfl⟩
            exact List.any_eq_true.mpr ⟨u, hu, decide_eq_true heq⟩
      · cases h

/-- Any other answer to an enrolment leaves the tables as they were. -/
theorem enroll_refused {req : EnrollRequest} {token : String} {reply : EnrollReply}
    (h : s.enroll b req token = (t, reply)) (hreply : ∀ k i, reply ≠ .enrolled k i) : t = s := by
  unfold enroll at h
  split at h
  · exact (Prod.mk.inj h).1.symm
  · split at h
    · exact (Prod.mk.inj h).1.symm
    · split at h
      · split at h
        · exact (Prod.mk.inj h).1.symm
        · split at h
          · exact (Prod.mk.inj h).1.symm
          · exact absurd (Prod.mk.inj h).2.symm (hreply _ _)
      · exact (Prod.mk.inj h).1.symm

theorem revokeHost_some {accessible : Option (List ℕ)} {host n : ℕ}
    (h : s.revokeHost accessible host = (t, some n)) :
    t = { s with
      tokens := s.tokens.map (AgentToken.revoke host s.now)
      hosts := modifyAt host (fun h => { h with status := .revoked }) s.hosts } := by
  unfold revokeHost at h
  split at h
  · cases h
  · split at h
    · cases h
    · exact (Prod.mk.inj h).1.symm

theorem revokeHost_none {accessible : Option (List ℕ)} {host : ℕ}
    (h : s.revokeHost accessible host = (t, none)) : t = s := by
  unfold revokeHost at h
  split at h
  · exact (Prod.mk.inj h).1.symm
  · split at h
    · exact (Prod.mk.inj h).1.symm
    · cases h

theorem answered_some {α : Type} [DecidableEq α] {reply : α} {out : Credentials × α}
    (h : answered reply out = some t) : out = (t, reply) := by
  unfold answered at h
  split at h
  · rename_i hreply
    exact Prod.ext (Option.some.inj h) hreply
  · cases h

theorem gate_some {out : Option Credentials} (h : s.gate out = some t) : out = some t := by
  unfold gate at h
  split at h
  · exact h
  · cases h

/-- The token table and what was said of the hosts. A host of which a token is live is active. -/
structure Witnessed (b : Backend) (tr : List CredentialEvent) (s : Credentials) : Prop where
  unique : (s.tokens.map AgentToken.tokenHash).Nodup
  bound : ∀ t ∈ s.tokens, t.hostAgentId < s.hosts.length
  live : ∀ host hash, ⟨host, hash, none⟩ ∈ s.tokens ↔
    ∃ token, lastIssued tr host = some token ∧ b.hashSecret token = hash
  active : ∀ host row, s.hosts[host]? = some row → lastIssued tr host ≠ none →
    row.status = .active

variable {tr : List CredentialEvent}

/-- A step that the trace does not tell of, that drops at most dead tokens and that keeps what the
hosts are. -/
theorem Witnessed.quiet (h : Witnessed b tr s) {e : CredentialEvent}
    (he : lastIssued (e :: tr) = lastIssued tr) (hsub : t.tokens.Sublist s.tokens)
    (hkeep : ∀ u ∈ s.tokens, u.revokedAt = none → u ∈ t.tokens)
    (hlen : t.hosts.length = s.hosts.length)
    (hstatus : ∀ (i : ℕ) (row : HostRow), t.hosts[i]? = some row →
      ∃ old, s.hosts[i]? = some old ∧ row.status = old.status) : Witnessed b (e :: tr) t where
  unique := h.unique.sublist (hsub.map _)
  bound u hu := hlen ▸ h.bound u (hsub.subset hu)
  live host hash := by
    rw [he, ← h.live]
    exact ⟨fun hu => hsub.subset hu, fun hu => hkeep _ hu rfl⟩
  active i row hrow hissued := by
    obtain ⟨old, hold, hsame⟩ := hstatus i row hrow
    exact hsame.trans (h.active i old hold (he ▸ hissued))

theorem Witnessed.same (h : Witnessed b tr s) {e : CredentialEvent}
    (he : lastIssued (e :: tr) = lastIssued tr) (htokens : t.tokens = s.tokens)
    (hhosts : t.hosts = s.hosts) : Witnessed b (e :: tr) t :=
  h.quiet he (htokens ▸ List.Sublist.refl _) (fun _ hu _ => htokens ▸ hu) (hhosts ▸ rfl)
    fun _ row hrow => ⟨row, hhosts ▸ hrow, rfl⟩

theorem Witnessed.enrolled (h : Witnessed b tr s) {req : EnrollRequest} {token : String}
    {keyId host : ℕ} (hstep : s.enroll b req token = (t, .enrolled keyId host)) :
    Witnessed b (.enroll req token (.enrolled keyId host) :: tr) t := by
  obtain ⟨key, -, -, hnew, hhost, rfl⟩ := enroll_enrolled hstep
  obtain ⟨hlen, ⟨row, hrow, hactive⟩, hothers⟩ := upsertHost_spec b s.hosts key.awsAccountId req
  rw [← hhost] at hrow hothers
  have hlt : host < (upsertHost b s.hosts key.awsAccountId req).1.length :=
    (List.getElem?_eq_some_iff.mp hrow).1
  refine ⟨?_, fun u hu => ?_, fun i hash => ?_, fun i row' hrow' hissued => ?_⟩
  · rw [List.map_append, hashes_revoke, List.nodup_append]
    refine ⟨h.unique, List.pairwise_singleton _ _, fun hash hin hash' hin' heq => ?_⟩
    obtain ⟨u, hu, rfl⟩ := List.mem_map.mp hin
    exact hnew u hu (heq.trans (List.mem_singleton.mp hin'))
  · rcases List.mem_append.mp hu with hu | hu
    · obtain ⟨v, hv, rfl⟩ := List.mem_map.mp hu
      rw [AgentToken.revoke_hostAgentId]
      exact (h.bound v hv).trans_le hlen
    · rw [List.mem_singleton.mp hu]
      exact hlt
  · rw [List.mem_append, mem_revoke_live, List.mem_singleton, AgentToken.mk.injEq, h.live]
    simp only [lastIssued]
    by_cases hi : host = i
    · simp [hi, eq_comm]
    · simp [hi, Ne.symm hi]
  · by_cases hi : i = host
    · subst hi
      rw [hrow] at hrow'
      exact Option.some.inj hrow' ▸ hactive
    · refine h.active i row' ((hothers i hi).symm.trans hrow') ?_
      simpa only [lastIssued, if_neg (Ne.symm hi)] using hissued

theorem Witnessed.revoked (h : Witnessed b tr s) {accessible : Option (List ℕ)} {host n : ℕ}
    (hstep : s.revokeHost accessible host = (t, some n)) :
    Witnessed b (.revokeHost accessible host (some n) :: tr) t := by
  obtain rfl := revokeHost_some hstep
  refine ⟨?_, fun u hu => ?_, fun i hash => ?_, fun i row hrow hissued => ?_⟩
  · rw [hashes_revoke]
    exact h.unique
  · obtain ⟨v, hv, rfl⟩ := List.mem_map.mp hu
    rw [AgentToken.revoke_hostAgentId, modifyAt_length]
    exact h.bound v hv
  · rw [mem_revoke_live, h.live]
    simp only [lastIssued]
    by_cases hi : host = i
    · simp [hi]
    · simp [hi, Ne.symm hi]
  · simp only [lastIssued] at hissued
    split at hissued
    · exact absurd rfl hissued
    · rename_i hi
      rw [modifyAt_getElem?, if_neg hi] at hrow
      exact h.active i row hrow hissued

theorem Witnessed.pruned (h : Witnessed b tr s) (days : ℤ) (batch : List String) :
    Witnessed b (.pruneTokens days batch :: tr) (s.pruneTokens days batch) := by
  unfold pruneTokens
  split
  · exact h.same rfl rfl rfl
  · refine h.quiet rfl List.filter_sublist (fun u hu hlive => ?_) rfl
      fun i row hrow => ⟨row, hrow, rfl⟩
    exact List.mem_filter.mpr ⟨hu, by simp [hlive]⟩

theorem Witnessed.changed (h : Witnessed b tr s) {host : ℕ} {row : HostRow}
    (hstep : s.hostChanged host row = some t) : Witnessed b (.hostChanged host row :: tr) t := by
  obtain ⟨old, hold, hstep⟩ := Option.bind_eq_some_iff.mp hstep
  split at hstep
  · rename_i hsame
    obtain rfl := Option.some.inj hstep
    refine h.quiet rfl (List.Sublist.refl _) (fun _ hu _ => hu) (modifyAt_length _ _ _)
      fun i row' hrow' => ?_
    rw [modifyAt_found hold] at hrow'
    split at hrow'
    · rename_i hi
      exact ⟨old, hi ▸ hold, Option.some.inj hrow' ▸ hsame.2.2.symm⟩
    · exact ⟨row', hrow', rfl⟩
  · cases hstep

/-- What one request leaves of the invariant. -/
theorem Witnessed.step (h : Witnessed b tr s) {e : CredentialEvent} (hstep : s.step b e = some t) :
    Witnessed b (e :: tr) t := by
  cases e with
  | wait | accountsChanged | switched =>
    obtain rfl := Option.some.inj hstep
    exact h.same rfl rfl rfl
  | revokeKey accessible key =>
    obtain rfl := Option.some.inj (gate_some hstep)
    exact h.same rfl rfl rfl
  | hostChanged host row => exact h.changed hstep
  | createKey accessible account maxUses hours key reply =>
    have hout := answered_some (gate_some hstep)
    unfold createKey at hout
    split at hout
    all_goals
      obtain rfl := (Prod.mk.inj hout).1
      exact h.same rfl rfl rfl
  | enroll req token reply =>
    have hout := answered_some hstep
    cases reply with
    | enrolled keyId host => exact h.enrolled hout
    | notFound | invalidKey | serverError =>
      obtain rfl := enroll_refused hout fun _ _ hne => EnrollReply.noConfusion hne
      exact h.same rfl rfl rfl
  | revokeHost accessible host reply =>
    have hout := answered_some (gate_some hstep)
    cases reply with
    | some n => exact h.revoked hout
    | none =>
      obtain rfl := revokeHost_none hout
      exact h.same rfl rfl rfl
  | authenticate token reply =>
    obtain rfl := (Prod.mk.inj (answered_some hstep)).1
    exact h.same rfl rfl rfl
  | pruneTokens days batch =>
    obtain rfl := Option.some.inj hstep
    exact h.pruned days batch
  | pruneKeys days batch =>
    obtain rfl := Option.some.inj hstep
    unfold pruneKeys
    split
    all_goals exact h.same rfl rfl rfl

theorem witnessed_of_run {accounts : List ℕ} {enabled : Bool} {now : ℕ}
    (run : Steps (Takes (step b)) (empty accounts enabled now) tr s) : Witnessed b tr s := by
  refine run.invariant ⟨List.nodup_nil, fun u hu => ?_, fun host hash => ?_, fun i row hrow => ?_⟩
    fun tr t e u h hR => h.step hR
  · cases hu
  · simp [empty, lastIssued]
  · simp [empty] at hrow

/-- Where no two tokens share a hash, one speaks for a host if it is live and the host is active. -/
theorem authenticateAgent_eq_some (hunique : (s.tokens.map AgentToken.tokenHash).Nodup)
    (token : String) (who : AgentIdentity) :
    s.authenticateAgent b token = some who ↔
      s.enabled = true ∧ looksLikeToken token = true ∧ s.identity who.hostAgentId = some who ∧
        ⟨who.hostAgentId, b.hashSecret token, none⟩ ∈ s.tokens ∧
        ∃ row, s.hosts[who.hostAgentId]? = some row ∧ row.status = .active := by
  unfold authenticateAgent
  by_cases hgate : (!s.enabled || !looksLikeToken token) = true
  · rw [if_pos hgate]
    simp only [Bool.or_eq_true, Bool.not_eq_true'] at hgate
    rcases hgate with hoff | hbad
    · simp [hoff]
    · simp [hbad]
  · rw [if_neg hgate]
    simp only [Bool.or_eq_true, Bool.not_eq_true', not_or, Bool.not_eq_false] at hgate
    simp only [hgate.1, hgate.2, true_and]
    constructor
    · intro hauth
      obtain ⟨u, hfind, hauth⟩ := Option.bind_eq_some_iff.mp hauth
      obtain ⟨row, hrow, hauth⟩ := Option.bind_eq_some_iff.mp hauth
      split at hauth
      · cases hauth
      · rename_i hgood
        obtain ⟨hlive, hactive⟩ := not_or.mp hgood
        have hhash : u.tokenHash = b.hashSecret token := by
          simpa using List.find?_some hfind
        have hwho : u.hostAgentId = who.hostAgentId := by
          obtain ⟨_, -, rfl⟩ := Option.map_eq_some_iff.mp hauth
          rfl
        refine ⟨hwho ▸ hauth, ?_, row, hwho ▸ hrow, not_not.mp hactive⟩
        rw [← hwho, ← hhash, ← not_not.mp hlive]
        exact List.mem_of_find?_eq_some hfind
    · rintro ⟨hwho, hmem, row, hrow, hactive⟩
      have hfind := LeastByKey.find_eq_of_mem hunique hmem
      simp only [hfind, Option.bind_some, hrow, hactive]
      simpa using hwho

end Credentials

/-- After every sequence of requests, a token speaks for a host exactly if it is the one that the
host's last enrolment handed out and the host has not been revoked since. -/
theorem authenticates_iff {b : Backend} {accounts : List ℕ} {enabled : Bool} {now : ℕ}
    {tr : List CredentialEvent} {s : Credentials}
    (run : Steps (Takes (Credentials.step b)) (.empty accounts enabled now) tr s)
    (token : String) (who : AgentIdentity) :
    s.authenticateAgent b token = some who ↔
      s.enabled = true ∧ looksLikeToken token = true ∧
        s.identity who.hostAgentId = some who ∧
        ∃ issued, lastIssued tr who.hostAgentId = some issued ∧
          b.hashSecret issued = b.hashSecret token := by
  have h := Credentials.witnessed_of_run run
  rw [Credentials.authenticateAgent_eq_some h.unique, h.live]
  refine and_congr_right fun _ => and_congr_right fun _ => and_congr_right fun hwho => ?_
  constructor
  · rintro ⟨hissued, -⟩
    exact hissued
  · rintro ⟨issued, hissued, hhash⟩
    obtain ⟨row, hrow, -⟩ := Option.map_eq_some_iff.mp hwho
    exact ⟨⟨issued, hissued, hhash⟩, row, hrow, h.active _ row hrow (by simp [hissued])⟩

/-- A deployment whose hash is the text itself, for runs on fixed texts. -/
def plainBackend : Backend := ⟨id, fun name other => name = other⟩

def keyText : String := "cak_0123456789abcdef0123456789abcdef"

def firstToken : String := "cah_0123456789abcdef0123456789abcdef01234567"

def secondToken : String := "cah_0123456789abcdef0123456789abcdef76543210"

def webRequest : EnrollRequest := ⟨keyText, "web", none, "1.2"⟩

/-- A host enrols twice with one key. -/
def twoEnrolments : List CredentialEvent :=
  [.createKey none 1 2 24 keyText (some 0), .enroll webRequest firstToken (.enrolled 0 0), .wait 60,
    .enroll webRequest secondToken (.enrolled 0 0)]

theorem authenticates_second : ∃ s,
    Steps (Takes (Credentials.step plainBackend)) (.empty [1] true 0) twoEnrolments.reverse s ∧
      s.authenticateAgent plainBackend secondToken = some ⟨0, 1, "web", none, 1⟩ := by
  obtain ⟨s, run, -, hs⟩ := exists_play (Credentials.step plainBackend) (.empty [1] true 0)
    twoEnrolments (fun s => s.enabled && s.identity 0 = some ⟨0, 1, "web", none, 1⟩)
    (by decide +kernel)
  obtain ⟨henabled, hwho⟩ := Bool.and_eq_true_iff.mp hs
  exact ⟨s, run, (authenticates_iff run _ _).mpr
    ⟨henabled, by decide +kernel, of_decide_eq_true hwho, secondToken, rfl, rfl⟩⟩

end MonitoringHub.Ingest
