import MonitoringHub.Ingest.Attachment

/-! Where the samples of a payload go. The resource that the agent's row named when the request
was authenticated comes first, as long as it is still there; only then the instance that the
payload reports. -/

namespace MonitoringHub.Ingest
open Lib Lib.RowTable

/-- A row of `resources`, by its type and `resource_id`. -/
inductive SampleTarget
  | ec2 (rid : String)
  | host (rid : String)
  deriving DecidableEq

namespace Fleet
variable {S : Type}

/-- The resource that `_resolve_resource` returns. -/
def sampleTarget (s : Fleet S) (agentId : ℕ) (agent : AgentRow) (instanceId : Option String) :
    SampleTarget :=
  match agent.resourceId.filter fun current =>
      current ≠ "" && !hostNamed current && s.findEc2 agent.awsAccountId current with
  | some current => .ec2 current
  | none =>
    match instanceId with
    | some iid =>
      if s.findEc2 agent.awsAccountId iid && !s.heldByOther agentId agent.awsAccountId iid then
        .ec2 iid
      else .host (hostRid agent)
    | none => .host (hostRid agent)

end Fleet

/-- The samples of one request as its transaction writes them; `found` is what it read. -/
structure SampleWrite (S : Type) where
  call : IngestCall S
  found : Fleet S
  samples : List S
  target : SampleTarget

/-- `_write_samples` of a transaction, if it comes to it. -/
def Fleet.sampleWrites {S : Type} (s : Fleet S) : FleetAct S → List (SampleWrite S)
  | .look k now later =>
    match s.calls[k]?, (s.calls[k]?).bind fun c => s.agents[c.agentId]? with
    | some c, some row =>
      match transact now later c.clean row with
      | (_, []) => []
      | (_, samples) =>
        [⟨c, s, samples, s.sampleTarget c.agentId c.agent c.instanceId⟩]
    | _, _ => []
  | _ => []

/-- The fleet and, newest first, the writes of all transactions. -/
structure Landed (S : Type) where
  fleet : Fleet S
  writes : List (SampleWrite S)

namespace Landed
variable {S : Type}

def empty : Landed S := ⟨.empty, []⟩

def step (s : Landed S) (act : FleetAct S) : Option (Landed S) :=
  (s.fleet.step act).map fun fleet => ⟨fleet, s.fleet.sampleWrites act ++ s.writes⟩

end Landed

namespace SampleWrite
variable {S : Type}

/-- The reported instance is an EC2 resource of the agent's account that no other active agent
is attached to. -/
def Matches (w : SampleWrite S) (iid : String) : Prop :=
  w.call.instanceId = some iid ∧ w.found.findEc2 w.call.agent.awsAccountId iid = true ∧
    w.found.heldByOther w.call.agentId w.call.agent.awsAccountId iid = false

/-- The row that was authenticated names another EC2 resource, and it is still there. -/
def Elsewhere (w : SampleWrite S) (iid : String) : Prop :=
  ∃ rid, rid ≠ iid ∧ rid ≠ "" ∧ hostNamed rid = false ∧ w.call.agent.resourceId = some rid ∧
    w.found.findEc2 w.call.agent.awsAccountId rid = true

/-- The agent reported the instance and its samples went there. -/
def LandedAt (w : SampleWrite S) (agentId : ℕ) (rid : String) : Prop :=
  w.call.agentId = agentId ∧ w.call.instanceId = some rid ∧ w.target = .ec2 rid

end SampleWrite

section Landing
variable {S : Type} {s t : Fleet S} {agent row : AgentRow} {i : ℕ} {iid rid : String}
  {w : SampleWrite S}

/-- The attachment comes first, then the reported instance. -/
theorem sampleTarget_iff (hfound : s.findEc2 agent.awsAccountId iid = true)
    (hfree : s.heldByOther i agent.awsAccountId iid = false) :
    s.sampleTarget i agent (some iid) = .ec2 iid ↔
      ¬ ∃ rid, rid ≠ iid ∧ rid ≠ "" ∧ hostNamed rid = false ∧ agent.resourceId = some rid ∧
        s.findEc2 agent.awsAccountId rid = true := by
  unfold Fleet.sampleTarget
  split
  · rename_i current hcurrent
    rw [Option.filter_eq_some_iff] at hcurrent
    simp only [Bool.and_eq_true, decide_eq_true_eq, Bool.not_eq_true'] at hcurrent
    obtain ⟨hresource, ⟨hne, hhost⟩, hthere⟩ := hcurrent
    constructor
    · rintro heq ⟨rid, hrid, -, -, hresource', -⟩
      obtain rfl := Option.some.inj (hresource.symm.trans hresource')
      exact hrid (SampleTarget.ec2.inj heq)
    · intro hnone
      by_contra hother
      exact hnone ⟨current, fun heq => hother (heq ▸ rfl), hne, hhost, hresource, hthere⟩
  · rename_i hcurrent
    dsimp only
    rw [hfound, hfree]
    refine iff_of_true rfl ?_
    rintro ⟨rid, -, hne, hhost, hresource, hthere⟩
    rw [Option.filter_eq_none_iff] at hcurrent
    refine hcurrent rid hresource ?_
    simp [hne, hhost, hthere]

/-- Samples are written as `_resolve_resource` says. -/
theorem sampleWrites_some {act : FleetAct S} (hw : w ∈ s.sampleWrites act) :
    ∃ (k now later : ℕ) (row : AgentRow), act = .look k now later ∧ s.calls[k]? = some w.call ∧
      s.agents[w.call.agentId]? = some row ∧ w.found = s ∧
      (transact now later w.call.clean row).2 = w.samples ∧ w.samples ≠ [] ∧
      w.target = s.sampleTarget w.call.agentId w.call.agent w.call.instanceId := by
  cases act with
  | look k now later =>
    simp only [Fleet.sampleWrites] at hw
    split at hw
    · rename_i c row hc hrow
      rw [hc, Option.bind_some] at hrow
      split at hw
      · cases hw
      · rename_i row' samples hsamples hdone
        obtain rfl := List.mem_singleton.mp hw
        refine ⟨k, now, later, row, rfl, hc, hrow, rfl, ?_, hsamples, rfl⟩
        rw [hdone]
    · cases hw
  | _ => cases hw

/-- What the row of an agent names, it has reported and landed on before. -/
def Reported (writes : List (SampleWrite S)) (i : ℕ) (row : AgentRow) : Prop :=
  ∀ rid, row.resourceId = some rid → hostNamed rid = false → ∃ w ∈ writes, w.LandedAt i rid

/-- All rows of agents, read, pending or committed, name what was landed on; and what was
written went where it had to. -/
structure Landed.Traced (s : Landed S) : Prop where
  agents : ∀ (i : ℕ) (row : AgentRow), s.fleet.agents[i]? = some row → Reported s.writes i row
  calls : ∀ (k : ℕ) (c : IngestCall S), s.fleet.calls[k]? = some c →
    Reported s.writes c.agentId c.agent ∧
      ∀ row, c.stage = .looked row → Reported s.writes c.agentId row
  writes : ∀ w ∈ s.writes, Reported s.writes w.call.agentId w.call.agent ∧
    w.target = w.found.sampleTarget w.call.agentId w.call.agent w.call.instanceId

/-- A transaction's row names what it named before, a fallback, or what the samples landed on. -/
theorem resolveResource_names (s : Fleet S) (i : ℕ) (agent : AgentRow) (instanceId : Option String)
    (row : AgentRow) :
    (s.resolveResource i agent instanceId row).resourceId = row.resourceId ∨
      (∃ rid, (s.resolveResource i agent instanceId row).resourceId = some rid ∧
        hostNamed rid = true) ∨
      ∃ iid, instanceId = some iid ∧
        (s.resolveResource i agent instanceId row).resourceId = some iid ∧
        s.sampleTarget i agent instanceId = .ec2 iid := by
  have hfallback : (Fleet.hostResource agent row).resourceId = row.resourceId ∨
      ∃ rid, (Fleet.hostResource agent row).resourceId = some rid ∧ hostNamed rid = true := by
    unfold Fleet.hostResource
    split
    · exact .inl rfl
    · exact .inr ⟨_, rfl, hostNamed_hostRid agent⟩
  unfold Fleet.resolveResource
  split
  · exact .inl rfl
  · rename_i hnone
    split
    · rename_i iid
      split
      · rename_i hmatch
        refine .inr (.inr ⟨iid, rfl, rfl, ?_⟩)
        unfold Fleet.sampleTarget
        split
        · rename_i current hcurrent
          obtain ⟨hresource, hthere⟩ := Option.filter_eq_some_iff.mp hcurrent
          exact absurd (Option.any_eq_true_iff_get _ _ |>.mpr ⟨by rw [hresource]; rfl, by
            simpa [hresource] using hthere⟩) hnone
        · exact if_pos hmatch
      · exact hfallback.imp_right .inl
    · exact hfallback.imp_right .inl

theorem Reported.mono {writes writes' : List (SampleWrite S)} (h : Reported writes i row)
    (hsub : ∀ w ∈ writes, w ∈ writes') : Reported writes' i row := by
  intro rid hresource hhost
  obtain ⟨w, hw, hlanded⟩ := h rid hresource hhost
  exact ⟨w, hsub w hw, hlanded⟩

theorem Reported.congr {writes : List (SampleWrite S)} {row' : AgentRow} (h : Reported writes i row)
    (hresource : row'.resourceId = row.resourceId) : Reported writes i row' :=
  fun rid hrid => h rid (hresource ▸ hrid)

/-- The row a transaction is about to commit. -/
theorem reported_look {writes : List (SampleWrite S)} {k now later : ℕ} {c : IngestCall S}
    (hc : s.calls[k]? = some c) (hrow : s.agents[c.agentId]? = some row)
    (h : Reported writes c.agentId row) :
    Reported (s.sampleWrites (.look k now later) ++ writes) c.agentId (s.look c now later row) := by
  obtain ⟨-, -, hresource, -⟩ := transact_frame now later c.clean row
  have hold : Reported (s.sampleWrites (.look k now later) ++ writes) c.agentId row :=
    h.mono fun _ => List.mem_append_right _
  unfold Fleet.look
  split
  · rename_i row' hdone
    rw [hdone] at hresource
    exact hold.congr hresource
  · rename_i row' samples hsamples hdone
    rw [hdone] at hresource
    rcases resolveResource_names s c.agentId c.agent c.instanceId row' with
      hsame | ⟨rid, hrid, hhost⟩ | ⟨iid, hiid, hrid, htarget⟩
    · exact hold.congr (hsame.trans hresource)
    · intro rid' hrid' hother
      obtain rfl := Option.some.inj (hrid.symm.trans hrid')
      cases hhost.symm.trans hother
    · intro rid' hrid' _
      obtain rfl := Option.some.inj (hrid.symm.trans hrid')
      refine ⟨⟨c, s, samples, .ec2 iid⟩, List.mem_append_left _ ?_, rfl, hiid, rfl⟩
      have hbind : ((some c).bind fun c => s.agents[c.agentId]?) = some row := hrow
      simp only [Fleet.sampleWrites, hc, hbind, hdone]
      rw [← htarget]
      exact List.mem_singleton_self _

/-- Where the rows of a fleet come from: kept as to their resource, new, or committed. -/
theorem step_agents {act : FleetAct S} (hstep : s.step act = some t) (hrow : t.agents[i]? = some row) :
    row.resourceId = none ∨ (∃ row', s.agents[i]? = some row' ∧ row.resourceId = row'.resourceId) ∨
      ∃ (k : ℕ) (c : IngestCall S), s.calls[k]? = some c ∧ c.agentId = i ∧ c.stage = .looked row := by
  have hsame (f : AgentRow → AgentRow) {n : ℕ} (hf : ∀ a, (f a).resourceId = a.resourceId)
      (hrow : (modifyAt n f s.agents)[i]? = some row) :
      ∃ row', s.agents[i]? = some row' ∧ row.resourceId = row'.resourceId := by
    rw [modifyAt_getElem?] at hrow
    split at hrow
    · obtain ⟨a, ha, rfl⟩ := Option.map_eq_some_iff.mp hrow
      exact ⟨a, ha, hf a⟩
    · exact ⟨row, hrow, rfl⟩
  cases fleetStep_of_step hstep with
  | reEnroll iid agentVersion =>
    exact .inr (.inl (hsame (AgentRow.reEnrolled iid agentVersion) (fun _ => rfl) hrow))
  | enroll =>
    rcases found_append hrow with hrow | ⟨-, rfl⟩
    · exact .inr (.inl ⟨row, hrow, rfl⟩)
    · exact .inl rfl
  | revoke =>
    exact .inr (.inl (hsame (fun a => { a with status := .revoked }) (fun _ => rfl) hrow))
  | @commit k c row' hc hstage =>
    change (modifyAt c.agentId (fun _ => row') s.agents)[i]? = some row at hrow
    rw [modifyAt_getElem?] at hrow
    split at hrow
    · rename_i hi
      obtain ⟨a, -, rfl⟩ := Option.map_eq_some_iff.mp hrow
      exact .inr (.inr ⟨k, c, hc, hi, hstage⟩)
    · exact .inr (.inl ⟨row, hrow, rfl⟩)
  | discover | forget | authenticate | look | rollback => exact .inr (.inl ⟨row, hrow, rfl⟩)

/-- Where requests come from: as they were but for their stage, or just authenticated; a row
that is pending was pending or has just been looked at. -/
theorem step_calls {act : FleetAct S} {n : ℕ} {d : IngestCall S} (hstep : s.step act = some t)
    (hd : t.calls[n]? = some d) :
    (s.agents[d.agentId]? = some d.agent ∧ d.stage = .authenticated) ∨
      ∃ c, s.calls[n]? = some c ∧ d.agentId = c.agentId ∧ d.agent = c.agent ∧
        ∀ row, d.stage = .looked row → c.stage = .looked row ∨
          ∃ now later row', act = .look n now later ∧ s.agents[c.agentId]? = some row' ∧
            row = s.look c now later row' := by
  have hset {k : ℕ} {c : IngestCall S} {stage : CallStage} (hc : s.calls[k]? = some c)
      (hd : (s.setStage k stage).calls[n]? = some d) :
      (n = k ∧ d = { c with stage := stage }) ∨ s.calls[n]? = some d := by
    rw [Fleet.setStage, modifyAt_found hc] at hd
    split at hd
    · rename_i hn
      exact .inl ⟨hn, (Option.some.inj hd).symm⟩
    · exact .inr hd
  have hkept (hd : s.calls[n]? = some d) : ∃ c, s.calls[n]? = some c ∧ d.agentId = c.agentId ∧
      d.agent = c.agent ∧ ∀ row, d.stage = .looked row → c.stage = .looked row ∨
        ∃ now later row', act = .look n now later ∧ s.agents[c.agentId]? = some row' ∧
          row = s.look c now later row' :=
    ⟨d, hd, rfl, rfl, fun _ hlooked => .inl hlooked⟩
  cases fleetStep_of_step hstep with
  | authenticate clean iid hagent =>
    rcases found_append hd with hd | ⟨-, rfl⟩
    · exact .inr (hkept hd)
    · exact .inl ⟨hagent, rfl⟩
  | @look k c row' now later hc hrow =>
    rcases hset hc hd with ⟨rfl, rfl⟩ | hd
    · refine .inr ⟨c, hc, rfl, rfl, fun row hlooked => .inr ⟨now, later, row', rfl, hrow, ?_⟩⟩
      exact (CallStage.looked.inj hlooked).symm
    · exact .inr (hkept hd)
  | @commit k c row' hc | @rollback k c hc =>
    rcases hset hc hd with ⟨rfl, rfl⟩ | hd
    · exact .inr ⟨c, hc, rfl, rfl, fun row hlooked => by cases hlooked⟩
    · exact .inr (hkept hd)
  | reEnroll | enroll | revoke | discover | forget => exact .inr (hkept hd)

theorem Landed.Traced.step {s t : Landed S} (h : s.Traced) {act : FleetAct S}
    (hstep : s.step act = some t) : t.Traced := by
  obtain ⟨fleet, hfleet, rfl⟩ := Option.map_eq_some_iff.mp hstep
  have hsub : ∀ w ∈ s.writes, w ∈ s.fleet.sampleWrites act ++ s.writes :=
    fun _ => List.mem_append_right _
  refine ⟨fun i row hrow => ?_, fun n d hd => ?_, fun w hw => ?_⟩
  · rcases step_agents hfleet hrow with hnone | ⟨row', hrow', hsame⟩ | ⟨k, c, hc, rfl, hlooked⟩
    · intro rid hrid
      cases hnone.symm.trans hrid
    · exact ((h.agents i row' hrow').congr hsame).mono hsub
    · exact ((h.calls k c hc).2 row hlooked).mono hsub
  · rcases step_calls hfleet hd with ⟨hagent, hstage⟩ | ⟨c, hc, hid, hagent, hlooked⟩
    · refine ⟨(h.agents _ _ hagent).mono hsub, fun row hrow => ?_⟩
      cases hstage.symm.trans hrow
    · refine ⟨hid ▸ hagent ▸ (h.calls n c hc).1.mono hsub, fun row hrow => hid ▸ ?_⟩
      rcases hlooked row hrow with hold | ⟨now, later, row', rfl, hrow', rfl⟩
      · exact ((h.calls n c hc).2 row hold).mono hsub
      · exact reported_look hc hrow' (h.agents _ row' hrow')
  · rcases List.mem_append.mp hw with hnew | hold
    · obtain ⟨k, -, -, -, -, hc, -, hfound, -, -, htarget⟩ := sampleWrites_some hnew
      exact ⟨(h.calls k _ hc).1.mono hsub, hfound ▸ htarget⟩
    · exact ⟨(h.writes w hold).1.mono hsub, (h.writes w hold).2⟩

theorem Landed.Traced.of_run {s : Landed S} {tr : List (FleetAct S)}
    (run : Steps (Takes Landed.step) .empty tr s) : s.Traced := by
  refine run.stable ⟨fun i row hrow => ?_, fun k c hc => ?_, fun w hw => ?_⟩
    fun s act t h hstep => h.step hstep
  · exact (Option.some_ne_none _ hrow.symm).elim
  · exact (Option.some_ne_none _ hc.symm).elim
  · cases hw

/-- Samples that match an instance are written to it unless the agent's row named another
instance that is still there; and on that instance the agent's samples landed earlier. -/
theorem samples_land (tr : List (FleetAct S)) (s : Landed S)
    (run : Steps (Takes Landed.step) .empty tr s) (w : SampleWrite S) (hw : w ∈ s.writes)
    (iid : String) (hmatch : w.Matches iid) :
    (w.target = .ec2 iid ↔ ¬ w.Elsewhere iid) ∧
      (w.Elsewhere iid → ∃ rid, rid ≠ iid ∧ w.target = .ec2 rid ∧
        ∃ w' ∈ s.writes, w'.LandedAt w.call.agentId rid) := by
  obtain ⟨hreported, htarget⟩ := (Landed.Traced.of_run run).writes w hw
  obtain ⟨hiid, hfound, hfree⟩ := hmatch
  rw [hiid] at htarget
  refine ⟨?_, ?_⟩
  · rw [htarget]
    exact sampleTarget_iff hfound hfree
  · rintro ⟨rid, hne, hnonempty, hhost, hresource, hthere⟩
    refine ⟨rid, hne, ?_, hreported rid hresource hhost⟩
    have hfilter : w.call.agent.resourceId.filter (fun current => current ≠ "" &&
        !hostNamed current && w.found.findEc2 w.call.agent.awsAccountId current) = some rid := by
      rw [Option.filter_eq_some_iff]
      simp [hresource, hnonempty, hhost, hthere]
    rw [htarget, Fleet.sampleTarget, hfilter]

/-- A host reports from its first instance. -/
theorem samples_land_attached : ∃ (s : Landed Unit) (w : SampleWrite Unit), w ∈ s.writes ∧
    w.Matches "i-0a1" ∧ (w.target = .ec2 "i-0a1" ↔ ¬ w.Elsewhere "i-0a1") := by
  obtain ⟨s, run, -, hp⟩ := exists_play Landed.step .empty
    [.discover 1 "i-0a1", .enroll 1 "web-1" (some "i-0a1") "1.0",
      .authenticate 0 (ec2Payload 1) (some "i-0a1"), .look 0 60 60, .commit 0]
    (fun s => s.writes.any fun w => w.call.instanceId = some "i-0a1" &&
      w.found.findEc2 w.call.agent.awsAccountId "i-0a1" &&
      !w.found.heldByOther w.call.agentId w.call.agent.awsAccountId "i-0a1")
    (by decide +kernel)
  obtain ⟨w, hw, hp⟩ := List.any_eq_true.mp hp
  simp only [Bool.and_eq_true, decide_eq_true_eq, Bool.not_eq_true'] at hp
  have hmatch : w.Matches "i-0a1" := ⟨hp.1.1, hp.1.2, hp.2⟩
  exact ⟨s, w, hw, hmatch, (samples_land _ s run w hw "i-0a1" hmatch).1⟩

/-- The host comes back under its name on a new instance while the old one is still listed. -/
theorem samples_stay_behind : ∃ (s : Landed Unit) (tr : List (FleetAct Unit))
    (w : SampleWrite Unit), Steps (Takes Landed.step) .empty tr s ∧ w ∈ s.writes ∧
      w.Matches "i-0b2" ∧ w.target = .ec2 "i-0a1" := by
  obtain ⟨s, run, -, hp⟩ := exists_play Landed.step .empty
    [.discover 1 "i-0a1", .discover 1 "i-0b2", .enroll 1 "web-1" (some "i-0a1") "1.0",
      .authenticate 0 (ec2Payload 1) (some "i-0a1"), .look 0 60 60, .commit 0,
      .enroll 1 "web-1" (some "i-0b2") "1.0",
      .authenticate 0 (ec2Payload 1) (some "i-0b2"), .look 1 120 120, .commit 1]
    (fun s => s.writes.any fun w => w.call.instanceId = some "i-0b2" &&
      w.found.findEc2 w.call.agent.awsAccountId "i-0b2" &&
      !w.found.heldByOther w.call.agentId w.call.agent.awsAccountId "i-0b2" &&
      w.target = .ec2 "i-0a1")
    (by decide +kernel)
  obtain ⟨w, hw, hp⟩ := List.any_eq_true.mp hp
  simp only [Bool.and_eq_true, decide_eq_true_eq, Bool.not_eq_true'] at hp
  exact ⟨s, _, w, run, hw, ⟨hp.1.1.1, hp.1.1.2, hp.1.2⟩, hp.2⟩

end Landing

end MonitoringHub.Ingest
