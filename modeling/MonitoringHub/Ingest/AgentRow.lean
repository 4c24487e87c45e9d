import Mathlib.Data.Nat.Basic

/-! A row of `host_agents` and what an ingest request does to it. Claims, heartbeats and
touches all set `last_seen_at`; a sequence number that is not higher than the last one is
accepted again only when the agent has not been heard of for the length of the window. -/

namespace MonitoringHub.Ingest

/-- `DUP_WINDOW_SECONDS` -/
def dupWindowSeconds : ℕ := 600

inductive AgentStatus
  | active
  | revoked
  deriving DecidableEq

structure AgentRow where
  awsAccountId : ℕ
  hostname : String
  status : AgentStatus
  lastSeq : ℕ
  lastSeenAt : Option ℕ
  agentVersion : String
  resourceId : Option String
  instanceId : Option String
  deriving DecidableEq

/-- A row as enrolment leaves it. -/
def freshAgent : AgentRow := ⟨1, "web", .active, 0, none, "1.2", none, none⟩

namespace AgentRow

/-- `last_seen_at IS NULL OR last_seen_at < UTC_TIMESTAMP() - INTERVAL 600 SECOND` -/
def unheard (row : AgentRow) (now : ℕ) : Bool :=
  match row.lastSeenAt with
  | none => true
  | some seen => seen + dupWindowSeconds < now

/-- `SQL_HEARTBEAT`; `last_seq` is assigned first, from the old `last_seen_at`. -/
def heartbeat (now seq : ℕ) (version : String) (row : AgentRow) : AgentRow :=
  if row.status = .active then
    { row with
      lastSeq := if row.lastSeq < seq ∨ row.unheard now then seq else row.lastSeq
      lastSeenAt := some now
      agentVersion := version }
  else row

/-- `SQL_CLAIM_SEQ`; `none` where it matches no row. -/
def claimSeq (now seq : ℕ) (version : String) (row : AgentRow) : Option AgentRow :=
  if row.status = .active ∧ (row.lastSeq < seq ∨ row.unheard now) then
    some { row with lastSeq := seq, lastSeenAt := some now, agentVersion := version }
  else none

/-- `SQL_TOUCH` -/
def touch (now : ℕ) (version : String) (row : AgentRow) : AgentRow :=
  if row.status = .active then { row with lastSeenAt := some now, agentVersion := version }
  else row

end AgentRow

/-- What `validate_payload` leaves of a payload. -/
structure Clean (S : Type) where
  seq : ℕ
  agentVersion : String
  samples : List S

/-- `_transact`, on the agent's row: the row after it and the samples it writes. The claim
runs at `now`, the touch of a duplicate at `later`. -/
def transact {S : Type} (now later : ℕ) (clean : Clean S) (row : AgentRow) : AgentRow × List S :=
  match clean.samples with
  | [] => (row.heartbeat now clean.seq clean.agentVersion, [])
  | samples =>
    match row.claimSeq now clean.seq clean.agentVersion with
    | none => (row.touch later clean.agentVersion, [])
    | some claimed => (claimed, samples)

section Transact
variable {S : Type}

/-- The request is taken: its number is new, or the agent has not been heard of. -/
def AgentRow.accepts (row : AgentRow) (now seq : ℕ) : Bool := row.lastSeq < seq || row.unheard now

/-- What an active agent's request leaves: taken, or a duplicate. -/
inductive Transacted (now later : ℕ) (clean : Clean S) (row row' : AgentRow) (wrote : List S) : Prop
  | taken (haccepts : row.accepts now clean.seq = true) (hseq : row'.lastSeq = clean.seq)
      (hseen : row'.lastSeenAt = some now) (hstatus : row'.status = .active)
      (hwrote : wrote = clean.samples)
  | duplicate (haccepts : row.accepts now clean.seq = false) (hseq : row'.lastSeq = row.lastSeq)
      (hseen : row'.lastSeenAt = some now ∨ row'.lastSeenAt = some later)
      (hstatus : row'.status = .active) (hwrote : wrote = [])

theorem transact_cases (now later : ℕ) (clean : Clean S) {row : AgentRow}
    (hactive : row.status = .active) : Transacted now later clean row
      (transact now later clean row).1 (transact now later clean row).2 := by
  have haccepts : (row.lastSeq < clean.seq ∨ row.unheard now = true) ↔
      row.accepts now clean.seq = true := by
    rw [AgentRow.accepts, Bool.or_eq_true, decide_eq_true_eq]
  unfold transact
  split
  · rename_i hnone
    rw [AgentRow.heartbeat, if_pos hactive]
    by_cases h : row.accepts now clean.seq = true
    · exact .taken h (if_pos (haccepts.mpr h)) rfl hactive hnone.symm
    · exact .duplicate (Bool.not_eq_true _ ▸ h) (if_neg fun hyes => h (haccepts.mp hyes))
        (.inl rfl) hactive rfl
  · unfold AgentRow.claimSeq
    split
    · rename_i hclaim
      split at hclaim
      · cases hclaim
      · rename_i hno
        rw [AgentRow.touch, if_pos hactive]
        refine .duplicate (Bool.not_eq_true _ ▸ fun h => hno ⟨hactive, haccepts.mpr h⟩) rfl
          (.inr rfl) hactive rfl
    · rename_i hclaim
      split at hclaim
      · rename_i hyes
        obtain rfl := Option.some.inj hclaim
        exact .taken (haccepts.mp hyes.2) rfl rfl hactive rfl
      · cases hclaim

/-- A request leaves the status and the resource, and writes samples for an active agent only. -/
theorem transact_frame (now later : ℕ) (clean : Clean S) (row : AgentRow) :
    (transact now later clean row).1.status = row.status ∧
      (transact now later clean row).1.awsAccountId = row.awsAccountId ∧
      (transact now later clean row).1.resourceId = row.resourceId ∧
      ((transact now later clean row).2 ≠ [] → row.status = .active) := by
  unfold transact
  split
  · unfold AgentRow.heartbeat
    split <;> exact ⟨rfl, rfl, rfl, fun h => absurd rfl h⟩
  · unfold AgentRow.claimSeq AgentRow.touch
    split
    · split <;> exact ⟨rfl, rfl, rfl, fun h => absurd rfl h⟩
    · rename_i hclaim
      split at hclaim
      · rename_i hyes
        obtain rfl := Option.some.inj hclaim
        exact ⟨rfl, rfl, rfl, fun _ => hyes.1⟩
      · cases hclaim

end Transact

end MonitoringHub.Ingest
