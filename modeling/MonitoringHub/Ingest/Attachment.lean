import Mathlib.Data.List.Basic
import MonitoringHub.Ingest.AgentRow
import MonitoringHub.Lib.RowTable
import MonitoringHub.Lib.StepRun
import MonitoringHub.Lib.Text

/-! Which agent writes into which resource. A transaction reads what is committed, keeps its
agent's row locked, and commits that row; enrolment and revocation change the status of a row
and leave the resource it names. -/

namespace MonitoringHub.Ingest
open Lib Lib.RowTable

/-- `HOST_RESOURCE_PREFIX` -/
def hostHead : String := "host:"

def hostNamed (rid : String) : Bool := Text.startsWith rid hostHead

/-- An active agent that writes into the resource. -/
def AgentRow.attachedTo (account : ℕ) (rid : String) (row : AgentRow) : Bool :=
  row.status = .active && row.awsAccountId = account && row.resourceId = some rid

/-- `ON DUPLICATE KEY UPDATE` of an enrolment. -/
def AgentRow.reEnrolled (instanceId : Option String) (agentVersion : String) (row : AgentRow) :
    AgentRow :=
  { row with
    instanceId := instanceId
    agentVersion := agentVersion
    status := .active
    lastSeq := 0 }

/-- A request past its authentication has what `authenticate_agent` read of the agent's row. In
its transaction it has the row that it will commit. -/
inductive CallStage
  | authenticated
  | looked (row : AgentRow)
  | closed
  deriving DecidableEq

def CallStage.row : CallStage → Option AgentRow
  | .looked row => some row
  | _ => none

structure IngestCall (S : Type) where
  agentId : ℕ
  agent : AgentRow
  clean : Clean S
  instanceId : Option String
  stage : CallStage

/-- `host_agents` by id, the EC2 rows of `resources`, and the requests so far. -/
structure Fleet (S : Type) where
  agents : List AgentRow
  resources : List (ℕ × String)
  calls : List (IngestCall S)

inductive FleetAct (S : Type)
  | enroll (account : ℕ) (hostname : String) (instanceId : Option String) (agentVersion : String)
  | revoke (agentId : ℕ)
  | discover (account : ℕ) (iid : String)
  | forget (account : ℕ) (iid : String)
  | authenticate (agentId : ℕ) (clean : Clean S) (instanceId : Option String)
  | look (call now later : ℕ)
  | commit (call : ℕ)
  | rollback (call : ℕ)

namespace Fleet
variable {S : Type}

def empty : Fleet S := ⟨[], [], []⟩

/-- `_find_ec2` -/
def findEc2 (s : Fleet S) (account : ℕ) (iid : String) : Bool :=
  decide ((account, iid) ∈ s.resources)

/-- `SELECT 1 FROM host_agents WHERE .. AND id <> %s AND status = 'active'` -/
def heldByOther (s : Fleet S) (agentId account : ℕ) (rid : String) : Bool :=
  s.agents.zipIdx.any fun entry => entry.2 ≠ agentId && entry.1.attachedTo account rid

/-- `host_rid`: the resource of type `host` that the agent falls back to. -/
def hostRid (agent : AgentRow) : String :=
  let rid := match agent.resourceId with
    | some current => if hostNamed current then current else hostHead ++ agent.hostname
    | none => hostHead ++ agent.hostname
  String.ofList (rid.toList.take 512)

def hostResource (agent row : AgentRow) : AgentRow :=
  if agent.resourceId = some (hostRid agent) then row
  else { row with resourceId := some (hostRid agent) }

/-- `_resolve_resource`, as far as it changes the agent's row. -/
def resolveResource (s : Fleet S) (agentId : ℕ) (agent : AgentRow) (instanceId : Option String)
    (row : AgentRow) : AgentRow :=
  if agent.resourceId.any fun current =>
      current ≠ "" && !hostNamed current && s.findEc2 agent.awsAccountId current then row
  else
    match instanceId with
    | some iid =>
      if s.findEc2 agent.awsAccountId iid && !s.heldByOther agentId agent.awsAccountId iid then
        { row with resourceId := some iid, instanceId := row.instanceId.or (some iid) }
      else hostResource agent row
    | none => hostResource agent row

/-- A transaction has written the agent's row and not ended. -/
def locked (s : Fleet S) (agentId : ℕ) : Bool :=
  s.calls.any fun c => c.agentId = agentId && match c.stage with
    | .looked _ => true
    | _ => false

def setStage (s : Fleet S) (call : ℕ) (stage : CallStage) : Fleet S :=
  { s with calls := modifyAt call (fun c => { c with stage := stage }) s.calls }

/-- The row of an account's host, by the unique key. -/
def findAgent (s : Fleet S) (account : ℕ) (hostname : String) : Option ℕ :=
  s.agents.findIdx? fun a => a.awsAccountId = account && a.hostname = hostname

/-- `enroll`: the upsert of `host_agents`. -/
def enroll (s : Fleet S) (account : ℕ) (hostname : String) (instanceId : Option String)
    (agentVersion : String) : Option (Fleet S) :=
  match s.findAgent account hostname with
  | some i =>
    if s.locked i then none
    else some { s with agents := modifyAt i (AgentRow.reEnrolled instanceId agentVersion) s.agents }
  | none =>
    some { s with agents := s.agents ++
      [⟨account, hostname, .active, 0, none, agentVersion, none, instanceId⟩] }

/-- `_transact` up to its commit: the row as the transaction leaves it. -/
def look (s : Fleet S) (c : IngestCall S) (now later : ℕ) (row : AgentRow) : AgentRow :=
  match transact now later c.clean row with
  | (row, []) => row
  | (row, _) => s.resolveResource c.agentId c.agent c.instanceId row

def step (s : Fleet S) : FleetAct S → Option (Fleet S)
  | .enroll account hostname instanceId agentVersion =>
    s.enroll account hostname instanceId agentVersion
  | .revoke i =>
    if s.locked i then none
    else some { s with agents := modifyAt i (fun a => { a with status := .revoked }) s.agents }
  | .discover account iid =>
    -- an EC2 instance id
    if Text.startsWith iid "i-" then
      some { s with resources := (account, iid) :: s.resources }
    else none
  | .forget account iid =>
    some { s with resources := s.resources.filter (· ≠ (account, iid)) }
  | .authenticate i clean instanceId =>
    match s.agents[i]? with
    | some agent =>
      if agent.status = .active then
        some { s with calls := s.calls ++ [⟨i, agent, clean, instanceId, .authenticated⟩] }
      else none
    | none => none
  | .look k now later =>
    match s.calls[k]? with
    | some c =>
      match c.stage, s.agents[c.agentId]? with
      | .authenticated, some row =>
        if s.locked c.agentId then none
        else some (s.setStage k (.looked (s.look c now later row)))
      | _, _ => none
    | none => none
  | .commit k =>
    match s.calls[k]? with
    | some c =>
      match c.stage with
      | .looked row =>
        some { s.setStage k .closed with agents := modifyAt c.agentId (fun _ => row) s.agents }
      | _ => none
    | none => none
  | .rollback k =>
    match s.calls[k]? with
    | some c =>
      match c.stage with
      | .looked _ => some (s.setStage k .authenticated)
      | _ => none
    | none => none

/-- No agent is re-activated, and no attachment committed, while another active agent is attached
to the resource. -/
def Unheld (s : Fleet S) : FleetAct S → Prop
  | .enroll account hostname _ _ => ∀ i ∈ s.findAgent account hostname, ∀ a ∈ s.agents[i]?,
      ∀ rid ∈ a.resourceId, hostNamed rid = false → s.heldByOther i account rid = false
  | .commit k => ∀ c ∈ s.calls[k]?, ∀ row ∈ c.stage.row, ∀ a ∈ s.agents[c.agentId]?,
      ∀ rid ∈ row.resourceId, a.resourceId ≠ some rid → hostNamed rid = false →
        s.heldByOther c.agentId row.awsAccountId rid = false
  | _ => True

instance : ∀ (s : Fleet S) (act : FleetAct S), Decidable (s.Unheld act)
  | _, .enroll .. => inferInstanceAs (Decidable (∀ _ ∈ _, ∀ _ ∈ _, ∀ _ ∈ _, _))
  | _, .commit _ => inferInstanceAs (Decidable (∀ _ ∈ _, ∀ _ ∈ _, ∀ _ ∈ _, ∀ _ ∈ _, _))
  | _, .revoke _ | _, .discover .. | _, .forget .. | _, .authenticate .. | _, .look ..
  | _, .rollback _ => inferInstanceAs (Decidable True)

end Fleet

/-- What each step needs and makes. -/
inductive FleetStep {S : Type} (s : Fleet S) : FleetAct S → Fleet S → Prop
  | reEnroll {account i : ℕ} {hostname : String} (instanceId : Option String)
    (agentVersion : String) (hfound : s.findAgent account hostname = some i)
    (hfree : s.locked i = false) : FleetStep s (.enroll account hostname instanceId agentVersion)
      { s with agents := modifyAt i (AgentRow.reEnrolled instanceId agentVersion) s.agents }
  | enroll {account : ℕ} {hostname : String} (instanceId : Option String) (agentVersion : String)
    (hnew : s.findAgent account hostname = none) :
    FleetStep s (.enroll account hostname instanceId agentVersion) { s with agents := s.agents ++
      [⟨account, hostname, .active, 0, none, agentVersion, none, instanceId⟩] }
  | revoke {i : ℕ} (hfree : s.locked i = false) : FleetStep s (.revoke i)
      { s with agents := modifyAt i (fun a => { a with status := .revoked }) s.agents }
  | discover (account : ℕ) {iid : String} (hec2 : Text.startsWith iid "i-" = true) :
    FleetStep s (.discover account iid) { s with resources := (account, iid) :: s.resources }
  | forget (account : ℕ) (iid : String) : FleetStep s (.forget account iid)
      { s with resources := s.resources.filter (· ≠ (account, iid)) }
  | authenticate {i : ℕ} {agent : AgentRow} (clean : Clean S) (instanceId : Option String)
    (hagent : s.agents[i]? = some agent) : FleetStep s (.authenticate i clean instanceId)
      { s with calls := s.calls ++ [⟨i, agent, clean, instanceId, .authenticated⟩] }
  | look {k : ℕ} {c : IngestCall S} {row : AgentRow} (now later : ℕ)
    (hc : s.calls[k]? = some c) (hrow : s.agents[c.agentId]? = some row) :
    FleetStep s (.look k now later) (s.setStage k (.looked (s.look c now later row)))
  | commit {k : ℕ} {c : IngestCall S} {row : AgentRow} (hc : s.calls[k]? = some c)
    (hstage : c.stage = .looked row) : FleetStep s (.commit k)
      { s.setStage k .closed with agents := modifyAt c.agentId (fun _ => row) s.agents }
  | rollback {k : ℕ} {c : IngestCall S} (hc : s.calls[k]? = some c) :
    FleetStep s (.rollback k) (s.setStage k .authenticated)

section Attach
variable {S : Type} {s t : Fleet S} {a b row : AgentRow} {i j account : ℕ} {rid : String}

theorem fleetStep_of_step {act : FleetAct S} (hstep : s.step act = some t) :
    FleetStep s act t := by
  cases act <;> simp only [Fleet.step] at hstep
  case enroll account hostname iid agentVersion =>
    unfold Fleet.enroll at hstep
    split at hstep
    · rename_i i hfound
      obtain ⟨hfree, hstep⟩ := Option.ite_none_left_eq_some.mp hstep
      obtain rfl := Option.some.inj hstep
      exact .reEnroll iid agentVersion hfound (Bool.not_eq_true _ ▸ hfree)
    · rename_i hnew
      obtain rfl := Option.some.inj hstep
      exact .enroll iid agentVersion hnew
  case revoke =>
    obtain ⟨hfree, hstep⟩ := Option.ite_none_left_eq_some.mp hstep
    obtain rfl := Option.some.inj hstep
    exact .revoke (Bool.not_eq_true _ ▸ hfree)
  case discover account iid =>
    obtain ⟨hec2, hstep⟩ := Option.ite_none_right_eq_some.mp hstep
    obtain rfl := Option.some.inj hstep
    exact .discover account hec2
  case forget account iid =>
    obtain rfl := Option.some.inj hstep
    exact .forget account iid
  case authenticate i clean iid =>
    split at hstep
    · rename_i agent hagent
      obtain ⟨-, hstep⟩ := Option.ite_none_right_eq_some.mp hstep
      obtain rfl := Option.some.inj hstep
      exact .authenticate clean iid hagent
    · cases hstep
  case look k now later =>
    split at hstep
    · rename_i c hc
      split at hstep
      · rename_i row hstage hrow
        obtain ⟨-, hstep⟩ := Option.ite_none_left_eq_some.mp hstep
        obtain rfl := Option.some.inj hstep
        exact .look now later hc hrow
      · cases hstep
    · cases hstep
  case commit k =>
    split at hstep
    · rename_i c hc
      split at hstep
      · rename_i row hstage
        obtain rfl := Option.some.inj hstep
        exact .commit hc hstage
      · cases hstep
    · cases hstep
  case rollback k =>
    split at hstep
    · rename_i c hc
      split at hstep
      · obtain rfl := Option.some.inj hstep
        exact .rollback hc
      · cases hstep
    · cases hstep

theorem attachedTo_iff : a.attachedTo account rid = true ↔
    a.status = .active ∧ a.awsAccountId = account ∧ a.resourceId = some rid := by
  simp [AgentRow.attachedTo, and_assoc]

theorem heldByOther_of (hb : s.agents[j]? = some b) (hji : j ≠ i)
    (hattached : b.attachedTo account rid = true) : s.heldByOther i account rid = true := by
  refine List.any_eq_true.mpr ⟨(b, j), List.mem_zipIdx_iff_getElem?.mpr hb, ?_⟩
  rw [Bool.and_eq_true, decide_eq_true_eq]
  exact ⟨hji, hattached⟩

theorem heldByOther_some (h : s.heldByOther i account rid = true) :
    ∃ (j : ℕ) (b : AgentRow), s.agents[j]? = some b ∧ j ≠ i ∧ b.attachedTo account rid = true := by
  obtain ⟨⟨b, j⟩, hmem, hother⟩ := List.any_eq_true.mp h
  rw [Bool.and_eq_true, decide_eq_true_eq] at hother
  exact ⟨j, b, List.mem_zipIdx_iff_getElem?.mp hmem, hother.1, hother.2⟩

theorem hostNamed_ec2 (h : Text.startsWith rid "i-" = true) : hostNamed rid = false := by
  obtain ⟨rest, hrest⟩ := of_decide_eq_true h
  refine decide_eq_false fun hhost => ?_
  obtain ⟨rest', hrest'⟩ := hhost
  have := (List.cons.inj (hrest.trans hrest'.symm)).1
  cases this

theorem hostNamed_take (h : hostHead.toList <+: rid.toList) :
    hostNamed (String.ofList (rid.toList.take 512)) = true := by
  refine decide_eq_true ?_
  rw [String.toList_ofList]
  exact List.prefix_take_iff.mpr ⟨h, by decide⟩

theorem hostNamed_hostRid (agent : AgentRow) : hostNamed (Fleet.hostRid agent) = true := by
  have hhead : hostHead.toList <+: (hostHead ++ agent.hostname).toList := by
    rw [String.toList_append]
    exact List.prefix_append _ _
  refine hostNamed_take ?_
  split
  · split
    · rename_i hnamed
      exact of_decide_eq_true hnamed
    · exact hhead
  · exact hhead

/-- What a transaction makes of its agent's row: it may name another resource, when active. -/
structure Rewrites (row row' : AgentRow) : Prop where
  status : row'.status = row.status
  account : row'.awsAccountId = row.awsAccountId
  resource : row'.resourceId = row.resourceId ∨ row'.status = .active

theorem hostResource_rewrites (agent : AgentRow) (hactive : row.status = .active) :
    Rewrites row (Fleet.hostResource agent row) := by
  unfold Fleet.hostResource
  split
  · exact ⟨rfl, rfl, .inl rfl⟩
  · exact ⟨rfl, rfl, .inr hactive⟩

theorem resolveResource_rewrites (s : Fleet S) (i : ℕ) (agent : AgentRow) (iid : Option String)
    (hactive : row.status = .active) : Rewrites row (s.resolveResource i agent iid row) := by
  unfold Fleet.resolveResource
  split
  · exact ⟨rfl, rfl, .inl rfl⟩
  · split
    · split
      · exact ⟨rfl, rfl, .inr hactive⟩
      · exact hostResource_rewrites agent hactive
    · exact hostResource_rewrites agent hactive

theorem look_rewrites (s : Fleet S) (c : IngestCall S) (now later : ℕ) (row : AgentRow) :
    Rewrites row (s.look c now later row) := by
  obtain ⟨hstatus, haccount, hresource, hactive⟩ := transact_frame now later c.clean row
  unfold Fleet.look
  split
  · rename_i row' hdone
    rw [hdone] at hstatus haccount hresource
    exact ⟨hstatus, haccount, .inl hresource⟩
  · rename_i row' wrote hwrote hdone
    rw [hdone] at hstatus haccount hresource hactive
    have hactive := hactive hwrote
    have hrewrites := resolveResource_rewrites s c.agentId c.agent c.instanceId
      (hstatus.trans hactive)
    refine ⟨hrewrites.status.trans hstatus, hrewrites.account.trans haccount, ?_⟩
    exact hrewrites.resource.imp_left fun hsame => hsame.trans hresource

/-- What holds in every run: the discovered resources are no fallback's, and a transaction is
about to commit a rewrite of the row that is there. -/
structure Pending (s : Fleet S) : Prop where
  discovered : ∀ account rid, (account, rid) ∈ s.resources → hostNamed rid = false
  row : ∀ (k : ℕ) (c : IngestCall S) (row : AgentRow), s.calls[k]? = some c →
    c.stage = .looked row → ∃ a, s.agents[c.agentId]? = some a ∧ Rewrites a row

theorem locked_of {k : ℕ} {c : IngestCall S} (hc : s.calls[k]? = some c)
    (hstage : c.stage = .looked row) : s.locked c.agentId = true := by
  refine List.any_eq_true.mpr ⟨c, List.mem_of_getElem? hc, ?_⟩
  rw [hstage, Bool.and_true]
  exact decide_eq_true rfl

/-- An unlocked row may be changed. -/
theorem Pending.modify (h : Pending s) (hfree : s.locked i = false) (f : AgentRow → AgentRow) :
    Pending { s with agents := modifyAt i f s.agents } := by
  refine ⟨h.discovered, fun k c row hc hstage => ?_⟩
  obtain ⟨a, ha, hrewrites⟩ := h.row k c row hc hstage
  refine ⟨a, ?_, hrewrites⟩
  rw [modifyAt_getElem?, if_neg]
  · exact ha
  · rintro rfl
    cases hfree.symm.trans (locked_of hc hstage)

theorem Pending.setStage (h : Pending s) {k : ℕ} {c : IngestCall S} (hc : s.calls[k]? = some c)
    {stage : CallStage} (hstage : ∀ row, stage = .looked row →
      ∃ a, s.agents[c.agentId]? = some a ∧ Rewrites a row) : Pending (s.setStage k stage) := by
  refine ⟨h.discovered, fun k' c' row hc' hlooked => ?_⟩
  rw [Fleet.setStage, modifyAt_found hc] at hc'
  split at hc'
  · obtain rfl := Option.some.inj hc'
    exact hstage row hlooked
  · exact h.row k' c' row hc' hlooked

/-- Of two rewrites of a row, one is a rewrite of the other. -/
theorem Rewrites.other {row' : AgentRow} (h : Rewrites a row) (h' : Rewrites a row') :
    Rewrites row row' := by
  refine ⟨h'.status.trans h.status.symm, h'.account.trans h.account.symm, ?_⟩
  rcases h.resource with hsame | hactive
  · exact h'.resource.imp_left fun hsame' => hsame'.trans hsame.symm
  · exact .inr (h'.status.trans (h.status.symm.trans hactive))

theorem Pending.commit (h : Pending s) {k : ℕ} {c : IngestCall S} (hc : s.calls[k]? = some c)
    (hstage : c.stage = .looked row) : Pending { s.setStage k .closed with
      agents := modifyAt c.agentId (fun _ => row) s.agents } := by
  have hset : Pending (s.setStage k .closed) := h.setStage hc fun row hno => by cases hno
  obtain ⟨a, ha, hrewrites⟩ := h.row k c row hc hstage
  refine ⟨h.discovered, fun k' c' row' hc' hlooked => ?_⟩
  obtain ⟨b, hb, hrewrites'⟩ := hset.row k' c' row' hc' hlooked
  change ∃ a, (modifyAt c.agentId (fun _ => row) s.agents)[c'.agentId]? = some a ∧ Rewrites a row'
  rw [modifyAt_found ha]
  split
  · rename_i heq
    have hb : s.agents[c'.agentId]? = some b := hb
    rw [heq, ha] at hb
    obtain rfl := Option.some.inj hb
    exact ⟨row, rfl, hrewrites.other hrewrites'⟩
  · exact ⟨b, hb, hrewrites'⟩

theorem Pending.step (h : Pending s) {act : FleetAct S} (hstep : s.step act = some t) :
    Pending t := by
  cases fleetStep_of_step hstep with
  | reEnroll iid agentVersion hfound hfree => exact h.modify hfree _
  | enroll =>
    refine ⟨h.discovered, fun k c row hc hstage => ?_⟩
    obtain ⟨a, ha, hrewrites⟩ := h.row k c row hc hstage
    exact ⟨a, List.getElem?_append_left (List.getElem?_eq_some_iff.mp ha).1 ▸ ha, hrewrites⟩
  | revoke hfree => exact h.modify hfree _
  | discover account hec2 =>
    refine ⟨fun account' rid hrid => ?_, h.row⟩
    rcases List.mem_cons.mp hrid with heq | hrid
    · obtain ⟨-, rfl⟩ := Prod.mk.inj heq
      exact hostNamed_ec2 hec2
    · exact h.discovered account' rid hrid
  | forget =>
    exact ⟨fun account rid hrid => h.discovered account rid (List.mem_filter.mp hrid).1, h.row⟩
  | authenticate =>
    refine ⟨h.discovered, fun k c row hc hstage => ?_⟩
    rcases found_append hc with hc | ⟨-, rfl⟩
    · exact h.row k c row hc hstage
    · cases hstage
  | @look k c row now later hc hrow =>
    refine h.setStage hc fun row' hlooked => ⟨row, hrow, ?_⟩
    obtain rfl := CallStage.looked.inj hlooked
    exact look_rewrites s c now later row
  | commit hc hstage => exact h.commit hc hstage
  | rollback hc => exact h.setStage hc fun row hno => by cases hno

/-- No resource but a fallback's has two active agents attached to it. -/
def Single (s : Fleet S) : Prop :=
  ∀ account rid, hostNamed rid = false → AtMostOne (AgentRow.attachedTo account rid) s.agents

/-- A changed row is attached to what it was, or to what nobody else is attached to. -/
theorem Single.modify (h : Single s) (ha : s.agents[i]? = some a) (f : AgentRow → AgentRow)
    (hf : ∀ account rid, hostNamed rid = false → (f a).attachedTo account rid = true →
      a.attachedTo account rid = true ∨ s.heldByOther i account rid = false) :
    Single { s with agents := modifyAt i f s.agents } := by
  intro account rid hrid j k b c hb hc hattached hattached'
  have hagents (n : ℕ) : (modifyAt i f s.agents)[n]? = if n = i then some (f a) else s.agents[n]? :=
    modifyAt_found ha f n
  -- the changed row, against any other
  have hother {n : ℕ} {d : AgentRow} (hn : n ≠ i) (hd : s.agents[n]? = some d)
      (hchanged : (f a).attachedTo account rid = true) (hd' : d.attachedTo account rid = true) :
      i = n := by
    rcases hf account rid hrid hchanged with hsame | hfree
    · exact h account rid hrid i n a d ha hd hsame hd'
    · cases hfree.symm.trans (heldByOther_of hd hn hd')
  rw [hagents] at hb hc
  split at hb
  · rename_i hj
    obtain rfl := Option.some.inj hb
    split at hc
    · rename_i hk
      rw [hj, hk]
    · rename_i hk
      rw [hj]
      exact hother hk hc hattached hattached'
  · rename_i hj
    split at hc
    · rename_i hk
      obtain rfl := Option.some.inj hc
      rw [hk]
      exact (hother hj hb hattached' hattached).symm
    · exact h account rid hrid j k b c hb hc hattached hattached'

theorem findAgent_some {hostname : String} (h : s.findAgent account hostname = some i) :
    ∃ a, s.agents[i]? = some a ∧ a.awsAccountId = account := by
  obtain ⟨hi, hfound, -⟩ := List.findIdx?_eq_some_iff_getElem.mp h
  rw [Bool.and_eq_true, decide_eq_true_eq] at hfound
  exact ⟨_, List.getElem?_eq_getElem hi, hfound.1⟩

theorem Single.step (h : Single s) (hpending : Pending s) {act : FleetAct S}
    (hstep : s.step act = some t) (hunheld : s.Unheld act) : Single t := by
  cases fleetStep_of_step hstep with
  | @reEnroll account i hostname iid agentVersion hfound hfree =>
    obtain ⟨a, ha, haccount⟩ := findAgent_some hfound
    refine h.modify ha _ fun account' rid hrid hattached => .inr ?_
    obtain ⟨-, haccount', hresource⟩ := attachedTo_iff.mp hattached
    obtain rfl : account = account' := haccount.symm.trans haccount'
    exact hunheld i hfound a ha rid hresource hrid
  | enroll =>
    intro account' rid hrid
    refine AtMostOne.of_pointwise (h account' rid hrid) fun n b hb hattached => ?_
    rcases found_append hb with hb | ⟨-, rfl⟩
    · exact ⟨b, hb, hattached⟩
    · cases (attachedTo_iff.mp hattached).2.2
  | revoke =>
    intro account rid hrid
    refine AtMostOne.of_pointwise (h account rid hrid) fun n b hb hattached => ?_
    rw [modifyAt_getElem?] at hb
    split at hb
    · obtain ⟨a, -, rfl⟩ := Option.map_eq_some_iff.mp hb
      cases (attachedTo_iff.mp hattached).1
    · exact ⟨b, hb, hattached⟩
  | @commit k c row hc hstage =>
    obtain ⟨a, ha, hrewrites⟩ := hpending.row k c row hc hstage
    refine h.modify (s := s.setStage k .closed) ha _ fun account rid hrid hattached => ?_
    obtain ⟨hactive, haccount, hresource⟩ := attachedTo_iff.mp hattached
    by_cases hsame : a.resourceId = some rid
    · exact .inl (attachedTo_iff.mpr
        ⟨hrewrites.status.symm.trans hactive, hrewrites.account.symm.trans haccount, hsame⟩)
    · exact .inr (haccount ▸ hunheld c hc row (hstage ▸ rfl) a ha rid hresource hsame hrid)
  | discover | forget | authenticate | look | rollback => exact h

/-- Nobody else is attached to what a changed row is attached to. -/
theorem Single.heldByOther {f : AgentRow → AgentRow}
    (h : Single { s with agents := modifyAt i f s.agents }) (ha : s.agents[i]? = some a)
    (hattached : (f a).attachedTo account rid = true) (hrid : hostNamed rid = false) :
    s.heldByOther i account rid = false := by
  by_contra hheld
  obtain ⟨j, b, hb, hji, hattached'⟩ := heldByOther_some (Bool.not_eq_false _ ▸ hheld)
  refine hji (h account rid hrid i j (f a) b ?_ ?_ hattached hattached').symm
  · exact (modifyAt_found ha f i).trans (if_pos rfl)
  · exact (modifyAt_found ha f j).trans ((if_neg hji).trans hb)

/-- The condition is the weakest one: a step that leaves no resource with two agents meets it. -/
theorem unheld_of_single (hpending : Pending s) {act : FleetAct S} (hstep : s.step act = some t)
    (hsingle : Single t) : s.Unheld act := by
  cases fleetStep_of_step hstep with
  | @reEnroll account i hostname iid agentVersion hfound hfree =>
    intro i' hfound' a ha rid hresource hrid
    obtain rfl : i = i' := Option.some.inj (hfound.symm.trans hfound')
    obtain ⟨a', ha', haccount⟩ := findAgent_some hfound
    obtain rfl := Option.some.inj (ha.symm.trans ha')
    exact hsingle.heldByOther ha (attachedTo_iff.mpr ⟨rfl, haccount, hresource⟩) hrid
  | enroll iid agentVersion hnew =>
    intro i hfound
    cases hnew.symm.trans hfound
  | @commit k c row hc hstage =>
    intro c' hc' row' hrow a ha rid hresource hne hrid
    obtain rfl : c = c' := Option.some.inj (hc.symm.trans hc')
    rw [hstage] at hrow
    obtain rfl : row = row' := Option.some.inj hrow
    obtain ⟨a', ha', hrewrites⟩ := hpending.row k c row hc hstage
    obtain rfl := Option.some.inj (ha.symm.trans ha')
    have hactive : row.status = .active :=
      hrewrites.resource.resolve_left fun hsame => hne (hsame.symm.trans hresource)
    have hfree := hsingle.heldByOther (s := s.setStage k .closed) ha
      (attachedTo_iff.mpr ⟨hactive, rfl, hresource⟩) hrid
    exact hfree
  | revoke | discover | forget | authenticate | look | rollback => trivial

end Attach

section Example

def ec2Payload (seq : ℕ) : Clean Unit := ⟨seq, "1.0", [()]⟩

/-- One agent of the instance reports, is revoked, a second one takes its place. -/
def takenOver : List (FleetAct Unit) :=
  [.discover 1 "i-0a1", .enroll 1 "web-1" (some "i-0a1") "1.0",
    .authenticate 0 (ec2Payload 1) (some "i-0a1"), .look 0 60 60, .commit 0, .revoke 0,
    .enroll 1 "web-2" (some "i-0a1") "1.0", .authenticate 1 (ec2Payload 1) (some "i-0a1"),
    .look 1 120 120, .commit 1]

def attachedAgents (s : Fleet Unit) (rid : String) : List Bool :=
  s.agents.map (AgentRow.attachedTo 1 rid)

theorem not_atMostOne {s : Fleet Unit} {rid : String} (h : attachedAgents s rid = [true, true]) :
    ¬ AtMostOne (AgentRow.attachedTo 1 rid) s.agents := by
  intro hone
  obtain ⟨a, rest, hlist, ha, hrest⟩ := List.map_eq_cons_iff.mp h
  obtain ⟨b, rest, rfl, hb, -⟩ := List.map_eq_cons_iff.mp hrest
  exact absurd (hone 0 1 a b (hlist ▸ rfl) (hlist ▸ rfl) ha hb) (by decide)

end Example

end MonitoringHub.Ingest
