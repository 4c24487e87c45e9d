import MonitoringHub.Sessions.SessionCheck

/-! Role changes, deletions, deactivations and activations of users. A request is authorised,
then reads its target and counts the other active admins, and writes at last; other requests
write between these steps. -/

namespace MonitoringHub.Administration
open Lib Lib.KeyedStore Lib.RowTable Sessions

inductive AccountOp
  | updateRole (role : String)
  | delete
  | deactivate
  | activate
  deriving DecidableEq

inductive RequestStage
  | authorised
  | checked
  | finished
  deriving DecidableEq

/-- A request past `require_permission`, with the role that its caller had there. -/
structure AccountRequest where
  caller : ℕ
  callerRole : String
  target : ℕ
  op : AccountOp
  stage : RequestStage

/-- `users`, by id, and the requests so far. -/
structure Accounts where
  users : List (ℕ × UserRow)
  distinct : Distinct users
  requests : List AccountRequest

inductive AccountAct
  | authorise (caller target : ℕ) (op : AccountOp)
  | check (request : ℕ)
  | commit (request : ℕ)

/-- `role = 'admin' AND (active = 1 OR active IS NULL)` -/
def activeAdmin (row : UserRow) : Bool := row.role = "admin" && row.active ≠ some false

/-- `active_admin_count` -/
def activeAdminCount (users : List (ℕ × UserRow)) (exclude : Option ℕ) : ℕ :=
  (users.filter fun e => activeAdmin e.2 && exclude.all fun id => e.1 ≠ id).length

/-- `_ROLE_RANK.get(role, 0)` -/
def roleRank (role : String) : ℕ := if role = "admin" then 2 else if role = "editor" then 1 else 0

namespace AccountOp

/-- The body's checks, before the database is asked. -/
def wellFormed : AccountOp → Bool
  | updateRole role => ["admin", "editor", "viewer"].contains role
  | _ => true

/-- The row after the statement; `none` where it is deleted. -/
def effect (row : UserRow) : AccountOp → Option UserRow
  | updateRole role => some { row with role := role }
  | delete => none
  | deactivate => some { row with active := some false, tokenVersion := row.tokenVersion + 1 }
  | activate => some { row with active := some true }

/-- The statement, on the row as it is when it runs. -/
def apply (op : AccountOp) (target : ℕ) (users : List (ℕ × UserRow)) : List (ℕ × UserRow) :=
  match find target users with
  | none => users
  | some row =>
    match op.effect row with
    | some row' => write target row' users
    | none => dropWhere (fun id => id = target) users

/-- The operation takes an active admin away. -/
def removes : AccountOp → Bool
  | updateRole role => role ≠ "admin"
  | delete => true
  | deactivate => true
  | activate => false

theorem distinct_apply (op : AccountOp) (target : ℕ) {users : List (ℕ × UserRow)}
    (h : Distinct users) : Distinct (op.apply target users) := by
  unfold apply
  split
  · exact h
  · split
    · exact h.write _ _
    · exact h.dropWhere _

end AccountOp

namespace Accounts

/-- What the database holds besides: which roles have the permission of an operation, and whose
scopes are within whose. -/
structure Policy where
  permits : String → AccountOp → Bool
  within : ℕ → ℕ → Bool

variable (policy : Policy)

/-- `_user_manageable_by` -/
def manageable (r : AccountRequest) (row : UserRow) : Bool :=
  r.callerRole = "admin" ||
    r.callerRole = "editor" && row.role = "viewer" && policy.within r.caller r.target

/-- The target as it is read, and the count of the other active admins. -/
def checks (users : List (ℕ × UserRow)) (r : AccountRequest) : Bool :=
  match find r.target users with
  | none => false
  | some row =>
    let others := 1 ≤ activeAdminCount users (some r.target)
    match r.op with
    | .updateRole role =>
      (r.callerRole = "admin" ||
        roleRank role ≤ roleRank r.callerRole && roleRank row.role ≤ roleRank r.callerRole) &&
      (row.role ≠ "admin" || role = "admin" || others)
    | .delete => manageable policy r row && (row.role ≠ "admin" || others)
    | .deactivate =>
      manageable policy r row && row.active ≠ some false && (row.role ≠ "admin" || others)
    | .activate => manageable policy r row && row.active = some false

def setStage (s : Accounts) (i : ℕ) (stage : RequestStage) : List AccountRequest :=
  modifyAt i (fun r => { r with stage := stage }) s.requests

def step (s : Accounts) : AccountAct → Option Accounts
  | .authorise caller target op =>
    match find caller s.users with
    | some row =>
      if row.active = some true ∧ (row.role = "admin" ∨ policy.permits row.role op = true) ∧
          op.wellFormed = true ∧ caller ≠ target then
        some { s with requests := s.requests ++ [⟨caller, row.role, target, op, .authorised⟩] }
      else none
    | none => none
  | .check i =>
    match s.requests[i]? with
    | some r =>
      if r.stage = .authorised then
        some { s with
          requests := s.setStage i (if checks policy s.users r then .checked else .finished) }
      else none
    | none => none
  | .commit i =>
    match s.requests[i]? with
    | some r =>
      if r.stage = .checked then
        some {
          users := r.op.apply r.target s.users
          distinct := r.op.distinct_apply r.target s.distinct
          requests := s.setStage i .finished }
      else none
    | none => none

/-- There is an administrator. -/
def HasAdmin (s : Accounts) : Prop := 1 ≤ activeAdminCount s.users none

/-- When a statement takes an active admin away, there is another one. -/
def Recounted (s : Accounts) : AccountAct → Prop
  | .commit i => ∀ r ∈ s.requests[i]?, r.op.removes = true →
      ∀ row ∈ find r.target s.users, activeAdmin row = true →
        1 ≤ activeAdminCount s.users (some r.target)
  | _ => True

instance (s : Accounts) : Decidable s.HasAdmin := inferInstanceAs (Decidable (1 ≤ _))

instance (s : Accounts) : ∀ act, Decidable (s.Recounted act)
  | .commit i => inferInstanceAs (Decidable (∀ r ∈ s.requests[i]?, _))
  | .authorise _ _ _ | .check _ => inferInstanceAs (Decidable True)

end Accounts

section Count
variable {users : List (ℕ × UserRow)} {exclude : Option ℕ} {target : ℕ} {row : UserRow}

theorem activeAdminCount_pos (h : Distinct users) : 1 ≤ activeAdminCount users exclude ↔
    ∃ id row, find id users = some row ∧ activeAdmin row = true ∧ exclude ≠ some id := by
  rw [activeAdminCount, Nat.one_le_iff_ne_zero, Nat.ne_zero_iff_zero_lt, List.length_pos_iff_exists_mem]
  simp only [List.mem_filter, Prod.exists, h.mem_iff, Bool.and_eq_true, Option.all_eq_true,
    decide_eq_true_eq]
  refine exists_congr fun id => exists_congr fun row => and_congr_right fun _ => and_congr_right
    fun _ => ⟨?_, ?_⟩
  · rintro hne rfl
    exact hne id rfl rfl
  · rintro hne id' rfl rfl
    exact hne rfl

theorem find_apply (op : AccountOp) (k : ℕ) : find k (op.apply target users) =
    if k = target then (find target users).bind op.effect else find k users := by
  unfold AccountOp.apply
  split
  · rename_i hnone
    by_cases hk : k = target
    · rw [if_pos hk, hk, hnone]
      rfl
    · rw [if_neg hk]
  · rename_i row hrow
    rw [hrow, Option.bind_some]
    split
    · rename_i row' heffect
      rw [find_write, heffect]
    · rename_i heffect
      rw [find_dropWhere, heffect]
      by_cases hk : k = target
      · rw [if_pos hk, decide_eq_true hk, if_pos rfl]
      · rw [if_neg hk, decide_eq_false hk, if_neg Bool.false_ne_true]

/-- An operation that removes leaves no active admin; another one keeps one. -/
theorem activeAdmin_effect (op : AccountOp) (row : UserRow) :
    (op.removes = true → ∀ row' ∈ op.effect row, activeAdmin row' = false) ∧
      (op.removes = false → activeAdmin row = true → ∃ row' ∈ op.effect row,
        activeAdmin row' = true) := by
  cases op with
  | updateRole role =>
    refine ⟨fun hremoves row' hrow' => ?_, fun hkeeps hactive => ⟨_, rfl, ?_⟩⟩
    · obtain rfl := Option.some.inj hrow'
      have hrole : role ≠ "admin" := of_decide_eq_true hremoves
      simp [activeAdmin, hrole]
    · have hrole : role = "admin" := by simpa [AccountOp.removes] using hkeeps
      simp only [activeAdmin, Bool.and_eq_true, decide_eq_true_eq] at hactive ⊢
      exact ⟨hrole, hactive.2⟩
  | delete => exact ⟨fun _ row' hrow' => (Option.not_mem_none row' hrow').elim, fun h => nomatch h⟩
  | deactivate =>
    refine ⟨fun _ row' hrow' => ?_, fun h => nomatch h⟩
    obtain rfl := Option.some.inj hrow'
    simp [activeAdmin]
  | activate =>
    refine ⟨(fun h => nomatch h), fun _ hactive => ⟨_, rfl, ?_⟩⟩
    simp only [activeAdmin, Bool.and_eq_true, decide_eq_true_eq] at hactive ⊢
    exact ⟨hactive.1, by simp⟩

end Count

namespace Accounts
variable {policy : Policy} {s t : Accounts} {act : AccountAct}

theorem hasAdmin_iff : s.HasAdmin ↔ ∃ id row, find id s.users = some row ∧ activeAdmin row = true := by
  rw [HasAdmin, activeAdminCount_pos s.distinct]
  simp

/-- What a committed statement leaves, by what it found. -/
theorem hasAdmin_apply {users : List (ℕ × UserRow)} (h : Distinct users) (op : AccountOp)
    (target : ℕ) : 1 ≤ activeAdminCount (op.apply target users) none ↔
      1 ≤ activeAdminCount users (some target) ∨
        ∃ row ∈ find target users, ∃ row' ∈ op.effect row, activeAdmin row' = true := by
  rw [activeAdminCount_pos (op.distinct_apply target h), activeAdminCount_pos h]
  constructor
  · rintro ⟨id, row, hrow, hactive, -⟩
    rw [find_apply] at hrow
    split at hrow
    · obtain ⟨old, hold, heffect⟩ := Option.bind_eq_some_iff.mp hrow
      exact .inr ⟨old, hold, row, heffect, hactive⟩
    · rename_i hne
      exact .inl ⟨id, row, hrow, hactive, fun heq => hne (Option.some.inj heq).symm⟩
  · rintro (⟨id, row, hrow, hactive, hne⟩ | ⟨row, hrow, row', heffect, hactive⟩)
    · refine ⟨id, row, ?_, hactive, Option.some_ne_none _ ∘ Eq.symm⟩
      rw [find_apply, if_neg fun heq => hne (congrArg some heq.symm)]
      exact hrow
    · refine ⟨target, row', ?_, hactive, Option.some_ne_none _ ∘ Eq.symm⟩
      rw [find_apply, if_pos rfl, Option.mem_def.mp hrow]
      exact heffect

/-- The users change only where a checked request commits. -/
theorem step_cases (hstep : s.step policy act = some t) :
    (t.users = s.users ∧ ∀ i, act ≠ .commit i) ∨
      ∃ (i : ℕ) (r : AccountRequest), act = .commit i ∧ s.requests[i]? = some r ∧
        r.stage = .checked ∧ t.users = r.op.apply r.target s.users := by
  cases act <;> simp only [Accounts.step] at hstep
  case authorise =>
    split at hstep
    · obtain ⟨-, hstep⟩ := Option.ite_none_right_eq_some.mp hstep
      obtain rfl := Option.some.inj hstep
      exact .inl ⟨rfl, fun _ heq => nomatch heq⟩
    · cases hstep
  case check =>
    split at hstep
    · obtain ⟨-, hstep⟩ := Option.ite_none_right_eq_some.mp hstep
      obtain rfl := Option.some.inj hstep
      exact .inl ⟨rfl, fun _ heq => nomatch heq⟩
    · cases hstep
  case commit i =>
    split at hstep
    · rename_i r hr
      obtain ⟨hstage, hstep⟩ := Option.ite_none_right_eq_some.mp hstep
      obtain rfl := Option.some.inj hstep
      exact .inr ⟨i, r, rfl, hr, hstage, rfl⟩
    · cases hstep

/-- An administrator is left exactly if the count taken again would have allowed the
statement. -/
theorem hasAdmin_step (h : s.HasAdmin) (hstep : s.step policy act = some t) :
    t.HasAdmin ↔ s.Recounted act := by
  rcases step_cases hstep with ⟨hsame, hother⟩ | ⟨i, r, rfl, hr, -, hcommit⟩
  · have hadmin : t.HasAdmin := by rwa [HasAdmin, hsame]
    refine iff_of_true hadmin ?_
    cases act with
    | commit i => exact absurd rfl (hother i)
    | _ => trivial
  · rw [HasAdmin, hcommit, hasAdmin_apply s.distinct]
    constructor
    · rintro (hothers | ⟨row, hrow, row', heffect, hactive⟩) r' hr' hremoves row₀ hrow₀ hactive₀
      · obtain rfl := Option.some.inj (hr.symm.trans hr')
        exact hothers
      · obtain rfl := Option.some.inj (hr.symm.trans hr')
        rw [(activeAdmin_effect r.op row).1 hremoves row' heffect] at hactive
        cases hactive
    · intro hrecounted
      obtain ⟨id, row, hrow, hactive⟩ := hasAdmin_iff.mp h
      by_cases hid : id = r.target
      · subst hid
        by_cases hremoves : r.op.removes = true
        · exact .inl (hrecounted r hr hremoves row hrow hactive)
        · obtain ⟨row', heffect, hactive'⟩ :=
            (activeAdmin_effect r.op row).2 (Bool.not_eq_true _ ▸ hremoves) hactive
          exact .inr ⟨row, hrow, row', heffect, hactive'⟩
      · refine .inl ((activeAdminCount_pos s.distinct).mpr ⟨id, row, hrow, hactive, fun heq => ?_⟩)
        exact hid (Option.some.inj heq).symm

/-- A request that is checked and committed in one go is counted right. -/
theorem recounted_of_checks {i : ℕ} (h : ∀ r ∈ s.requests[i]?, checks policy s.users r = true) :
    s.Recounted (.commit i) := by
  intro r hr hremoves row hrow hactive
  have hchecks := h r hr
  have hadmin : row.role = "admin" := by
    simp only [activeAdmin, Bool.and_eq_true, decide_eq_true_eq] at hactive
    exact hactive.1
  unfold checks at hchecks
  rw [Option.mem_def.mp hrow] at hchecks
  cases hop : r.op with
  | updateRole role =>
    have hrole : role ≠ "admin" := by simpa [hop, AccountOp.removes] using hremoves
    simp [hop, hadmin, hrole] at hchecks
    omega
  | delete =>
    simp [hop, hadmin] at hchecks
    omega
  | deactivate =>
    simp [hop, hadmin] at hchecks
    omega
  | activate => simp [hop, AccountOp.removes] at hremoves

/-- Two admins and an editor. -/
def twoAdmins : Accounts where
  users := [(1, ⟨"admin", some true, 0⟩), (2, ⟨"admin", none, 0⟩), (3, ⟨"editor", some true, 0⟩)]
  distinct := by
    unfold Distinct
    decide
  requests := []

def openPolicy : Policy := ⟨fun _ _ => true, fun _ _ => true⟩

/-- Three admins: each of three requests counts another admin, and each takes one away. -/
def threeAdmins : Accounts where
  users := [(1, ⟨"admin", some true, 0⟩), (2, ⟨"admin", some true, 0⟩), (3, ⟨"admin", some true, 0⟩)]
  distinct := by
    unfold Distinct
    decide
  requests := []

end Accounts

end MonitoringHub.Administration
