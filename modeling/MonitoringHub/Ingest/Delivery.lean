import Mathlib.Order.Lattice
import MonitoringHub.Ingest.AgentRow
import MonitoringHub.Lib.StepRun
import MonitoringHub.Lib.RowTable

/-! The host agent and the ingest endpoint. The agent sends one payload at a time, straight
away or from its queue on disk, and forgets it when the hub answers 200. A request the agent
has given up on may still commit. -/

namespace MonitoringHub.Ingest
open Lib Lib.RowTable

structure Payload (S : Type) where
  seq : ℕ
  agentVersion : String
  samples : List S
  deriving DecidableEq

inductive Stage
  | pending
  | committed
  | failed
  deriving DecidableEq

structure Request (S : Type) where
  payload : Payload S
  sentAt : ℕ
  stage : Stage
  deriving DecidableEq

/-- What the agent's process is at. -/
inductive Pc (S : Type)
  | down
  | idle
  | made (p : Payload S)
  | sending (p : Payload S) (request : ℕ) (queued : Bool)
  | buffering (p : Payload S)
  deriving DecidableEq

/-- A committed transaction; `before` is the agent's row as its claim found it. -/
structure Commit (S : Type) where
  payload : Payload S
  time : ℕ
  before : AgentRow
  wrote : List S
  deriving DecidableEq

/-- The agent and the hub. `counter` and `queue` are what the agent has on disk; `commits` are
the hub's transactions, newest first, and `acked` the payloads the agent dropped because of a
200. -/
structure Link (S : Type) where
  now : ℕ
  counter : ℕ
  queue : List (Payload S)
  pc : Pc S
  row : AgentRow
  requests : List (Request S)
  commits : List (Commit S)
  acked : List (Payload S)
  deriving DecidableEq

/-- The row as `enroll` writes it, and the agent before its first start. -/
def Link.enrolled {S : Type} (counter : ℕ) (row : AgentRow) : Link S where
  now := 0
  counter := counter
  queue := []
  pc := .down
  row := { row with status := .active, lastSeq := 0 }
  requests := []
  commits := []
  acked := []

/-- `sender.Kind`, and the answer that is none. -/
inductive Answer
  | ok
  | drop
  | retry
  | unauthorized
  deriving DecidableEq

inductive LinkAct (S : Type)
  | wait (seconds : ℕ)
  | crash
  | start (evicted : ℕ)
  | collect (agentVersion : String) (samples : List S)
  | send
  | buffer
  | push (evicted : ℕ)
  | pushFails
  | replay (discarded : ℕ)
  | answer (a : Answer)
  | commit (request validated claimed touched : ℕ)
  | fail (request : ℕ)
  deriving DecidableEq

/-- `queue.MaxSeq` -/
def maxSeq {S : Type} (queue : List (Payload S)) : ℕ :=
  match queue.getLast? with
  | none => 0
  | some p => p.seq

def insertSeq {S : Type} (p : Payload S) : List (Payload S) → List (Payload S)
  | [] => [p]
  | q :: queue => if p.seq < q.seq then p :: q :: queue else q :: insertSeq p queue

/-- `removeSeqLocked` -/
def removeSeq {S : Type} (seq : ℕ) (queue : List (Payload S)) : List (Payload S) :=
  queue.eraseP (·.seq = seq)

/-- `queue.Push`, when the budget makes it drop the oldest `evicted` entries. -/
def pushSeq {S : Type} (p : Payload S) (evicted : ℕ) (queue : List (Payload S)) : List (Payload S) :=
  insertSeq p ((removeSeq p.seq queue).drop evicted)

namespace Link
variable {S : Type}

/-- One POST of a payload. -/
def post (s : Link S) (p : Payload S) (queued : Bool) : Link S :=
  { s with
    pc := .sending p s.requests.length queued
    requests := s.requests ++ [⟨p, s.now, .pending⟩] }

/-- The payload is sent, or dropped, for good. -/
def ack (s : Link S) (p : Payload S) (queued : Bool) : Link S :=
  { s with
    pc := .idle
    queue := if queued then removeSeq p.seq s.queue else s.queue }

def answered (s : Link S) (p : Payload S) (request : ℕ) (queued : Bool) : Answer → Option (Link S)
  | .ok =>
    if s.requests[request]?.map Request.stage = some .committed then
      some { s.ack p queued with acked := p :: s.acked }
    else none
  | .drop => some (s.ack p queued)
  | .retry => some { s with pc := if queued then .idle else .buffering p }
  | .unauthorized => some { s with pc := .down }

def setStage (s : Link S) (request : ℕ) (stage : Stage) : Link S :=
  { s with requests := modifyAt request (fun r => { r with stage := stage }) s.requests }

/-- The hub's side of the request, from its validation to its commit. `clean` is what
`validate_payload` keeps of a payload's samples, by the hub's clock. -/
def commit (clean : ℕ → List S → List S) (s : Link S) (request : ℕ) (r : Request S)
    (validated claimed touched : ℕ) : Option (Link S) :=
  if r.stage = .pending ∧ r.sentAt ≤ validated ∧ validated ≤ claimed ∧ claimed ≤ touched ∧
      touched ≤ s.now then
    let p := r.payload
    let done := transact claimed touched ⟨p.seq, p.agentVersion, clean validated p.samples⟩ s.row
    some { s.setStage request .committed with
      row := done.1
      commits := ⟨p, claimed, s.row, done.2⟩ :: s.commits }
  else none

def step (clean : ℕ → List S → List S) (s : Link S) : LinkAct S → Option (Link S)
  | .wait seconds => some { s with now := s.now + seconds }
  | .crash => some { s with pc := .down }
  | .start evicted =>
    match s.pc with
    | .down =>
      let queue := s.queue.drop evicted
      some { s with queue := queue, counter := max s.counter (maxSeq queue), pc := .idle }
    | _ => none
  | .collect agentVersion samples =>
    match s.pc with
    | .idle =>
      let seq := s.counter + 1
      some { s with counter := seq, pc := .made ⟨seq, agentVersion, samples⟩ }
    | _ => none
  | .send =>
    match s.pc, s.queue with
    | .made p, [] => some (s.post p false)
    | _, _ => none
  | .buffer =>
    match s.pc with
    | .made p => some { s with pc := .buffering p }
    | _ => none
  | .push evicted =>
    match s.pc with
    | .buffering p => some { s with queue := pushSeq p evicted s.queue, pc := .idle }
    | _ => none
  | .pushFails =>
    match s.pc with
    | .buffering _ => some { s with pc := .idle }
    | _ => none
  | .replay discarded =>
    match s.pc with
    | .idle =>
      match s.queue.drop discarded with
      | [] => some { s with queue := [] }
      | p :: rest => some ({ s with queue := p :: rest }.post p true)
    | _ => none
  | .answer a =>
    match s.pc with
    | .sending p request queued => s.answered p request queued a
    | _ => none
  | .commit request validated claimed touched =>
    s.requests[request]?.bind fun r => s.commit clean request r validated claimed touched
  | .fail request =>
    (s.requests[request]?.filter fun r => r.stage = .pending).map fun _ =>
      s.setStage request .failed

end Link

/-- A payload in the agent's memory that is not in its queue. -/
def Pc.carried {S : Type} : Pc S → Option (Payload S)
  | .made p | .buffering p | .sending p _ false => some p
  | _ => none

def Link.Holds {S : Type} (s : Link S) (p : Payload S) : Prop :=
  p ∈ s.queue ∨ s.pc.carried = some p

/-- Held by the agent, or sent. -/
def Link.Knows {S : Type} (s : Link S) (p : Payload S) : Prop :=
  s.Holds p ∨ p ∈ s.requests.map Request.payload

section Agent
variable {S : Type} {clean : ℕ → List S → List S} {s t : Link S} {p q : Payload S}
  {queue queue' : List (Payload S)} {a : LinkAct S}

theorem insertSeq_last (h : ∀ q ∈ queue, q.seq < p.seq) : insertSeq p queue = queue ++ [p] := by
  induction queue with
  | nil => rfl
  | cons q queue ih =>
    rw [insertSeq, if_neg (h q List.mem_cons_self).asymm,
      ih fun q hq => h q (List.mem_cons_of_mem _ hq)]
    rfl

/-- A new payload goes to the end of what is left of the queue. -/
theorem pushSeq_last (h : ∀ q ∈ queue, q.seq < p.seq) (evicted : ℕ) :
    ∃ left : List (Payload S), left.Sublist queue ∧ pushSeq p evicted queue = left ++ [p] := by
  have hsub : ((removeSeq p.seq queue).drop evicted).Sublist queue :=
    (List.drop_sublist _ _).trans List.eraseP_sublist
  exact ⟨_, hsub, insertSeq_last fun q hq => h q (hsub.subset hq)⟩

/-- What the agent relies on: its queue is in order, what it carries is newer than the queue,
and no payload newer than one it holds has been sent. -/
structure Sequenced (s : Link S) : Prop where
  ascending : s.queue.Pairwise fun p q => p.seq < q.seq
  newest : ∀ p, s.pc.carried = some p → ∀ q ∈ s.queue, q.seq < p.seq
  replaying : ∀ p request, s.pc = .sending p request true → ∃ rest, s.queue = p :: rest
  outstanding : ∀ p request queued, s.pc = .sending p request queued →
    ∃ r, s.requests[request]? = some r ∧ r.payload = p
  known : ∀ p, s.Knows p → 0 < p.seq ∧ p.seq ≤ s.counter
  unique : ∀ p q, s.Knows p → s.Knows q → p.seq = q.seq → p = q
  order : ∀ p, s.Holds p → ∀ q ∈ s.requests.map Request.payload, q.seq ≤ p.seq

theorem enrolled_sequenced (counter : ℕ) (row : AgentRow) :
    Sequenced (.enrolled counter row : Link S) := by
  have hno (p : Payload S) : ¬ (Link.enrolled counter row).Knows p := by
    rintro ((h | h) | h) <;> cases h
  exact ⟨.nil, (fun p h => by cases h), (fun p r h => by cases h), (fun p r b h => by cases h),
    fun p h => (hno p h).elim, fun p q h => (hno p h).elim, fun p h => (hno p (.inl h)).elim⟩

/-- The agent forgets something, or nothing, and sends nothing. -/
theorem Sequenced.shrink (h : Sequenced s) (hqueue : t.queue.Sublist s.queue)
    (hpc : ∀ p, t.pc.carried = some p → s.pc.carried = some p)
    (hrequests : t.requests.map Request.payload = s.requests.map Request.payload)
    (hcounter : s.counter ≤ t.counter)
    (hsending : ∀ p r b, t.pc = .sending p r b → s.pc = .sending p r b ∧ t.queue = s.queue) :
    Sequenced t := by
  have hholds (p) (hp : t.Holds p) : s.Holds p := hp.imp (fun hp => hqueue.subset hp) (hpc p)
  have hknows (p) (hp : t.Knows p) : s.Knows p := hp.imp (hholds p) fun hp => hrequests ▸ hp
  refine ⟨h.ascending.sublist hqueue, fun p hp q hq => h.newest p (hpc p hp) q (hqueue.subset hq),
    fun p r hp => ?_, fun p r b hp => ?_, fun p hp => ?_, fun p q hp hq => h.unique p q (hknows p hp)
    (hknows q hq), fun p hp q hq => h.order p (hholds p hp) q (hrequests ▸ hq)⟩
  · obtain ⟨hpc, hsame⟩ := hsending p r true hp
    exact hsame ▸ h.replaying p r hpc
  · obtain ⟨req, hreq, hpayload⟩ := h.outstanding p r b (hsending p r b hp).1
    have hget : (t.requests.map Request.payload)[r]? = some p := by
      rw [hrequests, List.getElem?_map, hreq, ← hpayload]
      rfl
    rw [List.getElem?_map] at hget
    exact Option.map_eq_some_iff.mp hget
  · obtain ⟨hpos, hle⟩ := h.known p (hknows p hp)
    exact ⟨hpos, hle.trans hcounter⟩

theorem setStage_payloads (s : Link S) (request : ℕ) (stage : Stage) :
    (s.setStage request stage).requests.map Request.payload = s.requests.map Request.payload := by
  refine List.ext_getElem? fun n => ?_
  rw [List.getElem?_map, List.getElem?_map, Link.setStage, modifyAt_getElem?]
  split
  · cases s.requests[n]? <;> rfl
  · rfl

theorem post_payloads (s : Link S) (p : Payload S) (queued : Bool) :
    (s.post p queued).requests.map Request.payload = s.requests.map Request.payload ++ [p] :=
  List.map_append

theorem Sequenced.post (h : Sequenced s) {queued : Bool} (hholds : s.Holds p)
    (hleast : ∀ q, s.Holds q → p.seq ≤ q.seq) (hpc : s.pc.carried = some p ∧ queued = false ∧
      s.queue = [] ∨ s.pc = .idle ∧ queued = true ∧ ∃ rest, s.queue = p :: rest) :
    Sequenced (s.post p queued) := by
  have hrequests := post_payloads s p queued
  have hheld (q) (hq : (s.post p queued).Holds q) : s.Holds q := by
    rcases hq with hq | hq
    · exact .inl hq
    · rcases hpc with ⟨hcarried, rfl, -⟩ | ⟨-, rfl, -⟩
      · exact .inr (hcarried.trans hq)
      · cases hq
  have hknows (q) (hq : (s.post p queued).Knows q) : s.Knows q := by
    rcases hq with hq | hq
    · exact .inl (hheld q hq)
    · rw [hrequests, List.mem_append, List.mem_singleton] at hq
      rcases hq with hq | rfl
      · exact .inr hq
      · exact .inl hholds
  refine ⟨h.ascending, fun q hq q' hq' => ?_, fun q r hq => ?_, fun q r b hq => ?_,
    fun q hq => h.known q (hknows q hq), fun q q' hq hq' => h.unique q q' (hknows q hq) (hknows q' hq'),
    fun q hq q' hq' => ?_⟩
  · rcases hpc with ⟨-, -, hempty⟩ | ⟨-, rfl, -⟩
    · have hq' : q' ∈ s.queue := hq'
      rw [hempty] at hq'
      cases hq'
    · cases hq
  · obtain ⟨rfl, -, rfl⟩ := Pc.sending.inj hq
    rcases hpc with ⟨-, hno, -⟩ | ⟨-, -, hrest⟩
    · cases hno
    · exact hrest
  · obtain ⟨rfl, rfl, -⟩ := Pc.sending.inj hq
    exact ⟨⟨p, s.now, .pending⟩, List.getElem?_concat_length, rfl⟩
  · rw [hrequests, List.mem_append, List.mem_singleton] at hq'
    rcases hq' with hq' | rfl
    · exact h.order q (hheld q hq) q' hq'
    · exact hleast q (hheld q hq)

theorem Sequenced.collect (h : Sequenced s) (agentVersion : String)
    (samples : List S) : Sequenced { s with
      counter := s.counter + 1, pc := .made ⟨s.counter + 1, agentVersion, samples⟩ } := by
  have hknows (q : Payload S) (hq : Link.Knows { s with
      counter := s.counter + 1, pc := .made ⟨s.counter + 1, agentVersion, samples⟩ } q) :
      s.Knows q ∨ q = ⟨s.counter + 1, agentVersion, samples⟩ := by
    rcases hq with (hq | hq) | hq
    · exact .inl (.inl (.inl hq))
    · exact .inr (Option.some.inj hq).symm
    · exact .inl (.inr hq)
  refine ⟨h.ascending, fun q hq q' hq' => ?_, (fun q r hq => by cases hq),
    (fun q r b hq => by cases hq), fun q hq => ?_, fun q q' hq hq' hseq => ?_, fun q hq q' hq' => ?_⟩
  · obtain rfl := Option.some.inj hq
    exact Nat.lt_succ_of_le (h.known q' (.inl (.inl hq'))).2
  · rcases hknows q hq with hq | rfl
    · exact ⟨(h.known q hq).1, (h.known q hq).2.trans (Nat.le_succ _)⟩
    · exact ⟨Nat.succ_pos _, le_rfl⟩
  · rcases hknows q hq with hq | rfl
    · rcases hknows q' hq' with hq' | rfl
      · exact h.unique q q' hq hq' hseq
      · have := (h.known q hq).2
        rw [hseq] at this
        exact absurd this (Nat.not_succ_le_self _)
    · rcases hknows q' hq' with hq' | rfl
      · have := (h.known q' hq').2
        rw [← hseq] at this
        exact absurd this (Nat.not_succ_le_self _)
      · rfl
  · rcases hq with hq | hq
    · exact h.order q (.inl hq) q' hq'
    · obtain rfl := Option.some.inj hq
      exact (h.known q' (.inr hq')).2.trans (Nat.le_succ _)

theorem Sequenced.push (h : Sequenced s) (hpc : s.pc = .buffering p) (evicted : ℕ) :
    Sequenced { s with queue := pushSeq p evicted s.queue, pc := .idle } := by
  have hcarried : s.pc.carried = some p := by rw [hpc]; rfl
  have hnewest := h.newest p hcarried
  obtain ⟨left, hleft, hpush⟩ := pushSeq_last hnewest evicted
  rw [hpush]
  have hheld (q : Payload S) (hq : Link.Holds { s with queue := left ++ [p], pc := .idle } q) :
      s.Holds q := by
    rcases hq with hq | hq
    · rcases List.mem_append.mp hq with hq | hq
      · exact .inl (hleft.subset hq)
      · exact .inr (List.mem_singleton.mp hq ▸ hcarried)
    · cases hq
  have hknows (q : Payload S) (hq : Link.Knows { s with queue := left ++ [p], pc := .idle } q) :
      s.Knows q := hq.imp (hheld q) id
  refine ⟨?_, (fun q hq => by cases hq), (fun q r hq => by cases hq), (fun q r b hq => by cases hq),
    fun q hq => h.known q (hknows q hq), fun q q' hq hq' => h.unique q q' (hknows q hq) (hknows q' hq'),
    fun q hq => h.order q (hheld q hq)⟩
  refine List.pairwise_append.mpr ⟨h.ascending.sublist hleft, List.pairwise_singleton _ _,
    fun q hq q' hq' => ?_⟩
  rw [List.mem_singleton.mp hq']
  exact hnewest q (hleft.subset hq)

theorem Sequenced.replay (h : Sequenced s) (hidle : s.pc = .idle) {discarded : ℕ}
    {rest : List (Payload S)} (hdrop : s.queue.drop discarded = p :: rest) :
    Sequenced (({ s with queue := p :: rest } : Link S).post p true) := by
  have hsub : (p :: rest).Sublist s.queue := hdrop ▸ List.drop_sublist _ _
  have hleft : Sequenced { s with queue := p :: rest } :=
    h.shrink hsub (fun _ hq => hq) rfl le_rfl fun q r b hq => by
      cases hidle.symm.trans hq
  refine hleft.post (.inl List.mem_cons_self) (fun q hq => ?_) (.inr ⟨hidle, rfl, rest, rfl⟩)
  rcases hq with hq | hq
  · rcases List.mem_cons.mp hq with rfl | hq
    · exact le_rfl
    · exact (List.rel_of_pairwise_cons hleft.ascending hq).le
  · have hq : s.pc.carried = some q := hq
    rw [hidle] at hq
    cases hq

theorem Sequenced.start (h : Sequenced s) (evicted : ℕ) : Sequenced { s with
    queue := s.queue.drop evicted
    counter := max s.counter (maxSeq (s.queue.drop evicted))
    pc := .idle } :=
  h.shrink (List.drop_sublist _ _) (fun p hp => by cases hp) rfl (le_max_left _ _)
    fun p r b hp => by cases hp

theorem Sequenced.ack (h : Sequenced s) (p : Payload S) (queued : Bool) : Sequenced (s.ack p queued) := by
  refine h.shrink ?_ (fun p hp => by cases hp) rfl le_rfl fun p r b hp => by cases hp
  cases queued
  · exact List.Sublist.refl _
  · exact List.eraseP_sublist

theorem Sequenced.answered (h : Sequenced s) {request : ℕ} {queued : Bool}
    (hpc : s.pc = .sending p request queued) {answer : Answer}
    (hanswer : s.answered p request queued answer = some t) : Sequenced t := by
  cases answer with
  | ok =>
    obtain ⟨-, hok⟩ := Option.ite_none_right_eq_some.mp hanswer
    obtain rfl := Option.some.inj hok
    have hack := h.ack p queued
    exact ⟨hack.ascending, hack.newest, hack.replaying, hack.outstanding, hack.known, hack.unique,
      hack.order⟩
  | drop =>
    obtain rfl := Option.some.inj hanswer
    exact h.ack p queued
  | retry =>
    obtain rfl := Option.some.inj hanswer
    refine h.shrink (List.Sublist.refl _) (fun q hq => ?_) rfl le_rfl fun q r b hq => ?_
    · cases queued
      · rw [hpc]
        exact hq
      · cases hq
    · cases queued <;> cases hq
  | unauthorized =>
    obtain rfl := Option.some.inj hanswer
    exact h.shrink (List.Sublist.refl _) (fun q hq => by cases hq) rfl le_rfl
      fun q r b hq => by cases hq

theorem Sequenced.step (h : Sequenced s) (hstep : s.step clean a = some t) : Sequenced t := by
  cases a <;> simp only [Link.step] at hstep
  case wait =>
    obtain rfl := Option.some.inj hstep
    exact h.shrink (List.Sublist.refl _) (fun _ hp => hp) rfl le_rfl fun p r b hp => ⟨hp, rfl⟩
  case crash =>
    obtain rfl := Option.some.inj hstep
    exact h.shrink (List.Sublist.refl _) (fun p hp => by cases hp) rfl le_rfl
      fun p r b hp => by cases hp
  case start evicted =>
    split at hstep
    · obtain rfl := Option.some.inj hstep
      exact h.start evicted
    · cases hstep
  case collect agentVersion samples =>
    split at hstep
    · obtain rfl := Option.some.inj hstep
      exact h.collect agentVersion samples
    · cases hstep
  case send =>
    split at hstep
    · rename_i p hpc hqueue
      obtain rfl := Option.some.inj hstep
      have hcarried : s.pc.carried = some p := by rw [hpc]; rfl
      refine h.post (.inr hcarried) (fun q hq => ?_) (.inl ⟨hcarried, rfl, hqueue⟩)
      rcases hq with hq | hq
      · rw [hqueue] at hq
        cases hq
      · rw [Option.some.inj (hcarried.symm.trans hq)]
    · cases hstep
  case buffer =>
    split at hstep
    · rename_i p hpc
      obtain rfl := Option.some.inj hstep
      exact h.shrink (List.Sublist.refl _) (fun q hq => by rw [hpc]; exact hq) rfl le_rfl
        fun q r b hq => by cases hq
    · cases hstep
  case push evicted =>
    split at hstep
    · rename_i p hpc
      obtain rfl := Option.some.inj hstep
      exact h.push hpc evicted
    · cases hstep
  case pushFails =>
    split at hstep
    · obtain rfl := Option.some.inj hstep
      exact h.shrink (List.Sublist.refl _) (fun q hq => by cases hq) rfl le_rfl
        fun q r b hq => by cases hq
    · cases hstep
  case replay discarded =>
    split at hstep
    · rename_i hpc
      split at hstep
      · obtain rfl := Option.some.inj hstep
        refine h.shrink (List.nil_sublist _) (fun _ hq => hq) rfl le_rfl fun q r b hq => ?_
        cases hpc.symm.trans hq
      · rename_i p rest hdrop
        obtain rfl := Option.some.inj hstep
        exact h.replay hpc hdrop
    · cases hstep
  case answer =>
    split at hstep
    · rename_i p request queued hpc
      exact h.answered hpc hstep
    · cases hstep
  case commit request validated claimed touched =>
    obtain ⟨r, -, hcommit⟩ := Option.bind_eq_some_iff.mp hstep
    obtain ⟨-, hdone⟩ := Option.ite_none_right_eq_some.mp hcommit
    obtain rfl := Option.some.inj hdone
    exact h.shrink (List.Sublist.refl _) (fun _ hq => hq) (setStage_payloads s request _) le_rfl
      fun q r b hq => ⟨hq, rfl⟩
  case fail request =>
    obtain ⟨r, -, rfl⟩ := Option.map_eq_some_iff.mp hstep
    exact h.shrink (List.Sublist.refl _) (fun _ hq => hq) (setStage_payloads s request _) le_rfl
      fun q r b hq => ⟨hq, rfl⟩

end Agent

/-- Between the commit `e` and the last one, a request found the agent unheard of. -/
def Reopened {S : Type} (commits : List (Commit S)) (e : Commit S) : Prop :=
  ∃ d since, (d :: since) <:+ commits ∧ e ∈ since ∧ d.before.unheard d.time = true

section Hub
variable {S : Type} {clean : ℕ → List S → List S} {s t : Link S} {p q : Payload S} {a : LinkAct S}
  {commits : List (Commit S)} {c e : Commit S}

theorem Reopened.cons (h : Reopened commits e) (c : Commit S) : Reopened (c :: commits) e := by
  obtain ⟨d, since, hsuffix, he, hunheard⟩ := h
  exact ⟨d, since, hsuffix.trans (List.suffix_cons c commits), he, hunheard⟩

/-- What the hub's transactions say of the row and of each other. -/
structure Ingested (clean : ℕ → List S → List S) (s : Link S) : Prop where
  active : s.row.status = .active
  source : ∀ c ∈ s.commits, c.payload ∈ s.requests.map Request.payload
  answered : ∀ r ∈ s.requests, r.stage = .committed → ∃ c ∈ s.commits, c.payload = r.payload
  acked : ∀ p ∈ s.acked, ∃ c ∈ s.commits, c.payload = p
  last : s.row.lastSeq = 0 ∨ ∃ c ∈ s.commits, c.payload.seq = s.row.lastSeq
  reached : ∀ e ∈ s.commits, e.payload.seq ≤ s.row.lastSeq ∨ Reopened s.commits e
  inOrder : ∀ c earlier, (c :: earlier) <:+ s.commits →
    (∀ e ∈ earlier, e.payload.seq < c.payload.seq) → ∃ v, c.wrote = clean v c.payload.samples
  kept : ∀ c earlier, (c :: earlier) <:+ s.commits →
    (∀ e ∈ earlier, e.payload.seq ≠ c.payload.seq) → c.payload ∈ s.acked ∨ s.Holds c.payload →
    ∀ e ∈ earlier, e.payload.seq < c.payload.seq
  late : ∀ c earlier, (c :: earlier) <:+ s.commits → c.wrote ≠ [] →
    ∀ e ∈ earlier, c.payload.seq < e.payload.seq → Reopened (c :: earlier) e

/-- The agent's steps, and the hub's requests that do not commit. -/
structure AgentOnly (s t : Link S) : Prop where
  row : t.row = s.row
  commits : t.commits = s.commits
  sent : ∀ p ∈ s.requests.map Request.payload, p ∈ t.requests.map Request.payload
  committed : ∀ r ∈ t.requests, r.stage = .committed →
    ∃ r' ∈ s.requests, r'.stage = .committed ∧ r'.payload = r.payload
  holds : ∀ p, t.Holds p → s.Holds p ∨ s.counter < p.seq
  acked : ∀ p ∈ t.acked, p ∈ s.acked ∨
    s.Holds p ∧ ∃ r ∈ s.requests, r.stage = .committed ∧ r.payload = p

theorem Ingested.agentOnly (h : Ingested clean s) (hseq : Sequenced s) (hframe : AgentOnly s t) :
    Ingested clean t := by
  obtain ⟨hrow, hcommits, hsent, hcommitted, hholds, hacked⟩ := hframe
  refine ⟨hrow ▸ h.active, fun c hc => hsent _ (h.source c (hcommits ▸ hc)), fun r hr hstage => ?_,
    fun p hp => ?_, by rw [hrow, hcommits]; exact h.last, by rw [hrow, hcommits]; exact h.reached,
    hcommits ▸ h.inOrder, fun c earlier hsuffix hfirst hp => ?_, hcommits ▸ h.late⟩
  · obtain ⟨r', hr', hstage', hpayload⟩ := hcommitted r hr hstage
    rw [hcommits, ← hpayload]
    exact h.answered r' hr' hstage'
  · rw [hcommits]
    rcases hacked p hp with hp | ⟨-, r, hr, hstage, rfl⟩
    · exact h.acked p hp
    · exact h.answered r hr hstage
  · rw [hcommits] at hsuffix
    refine h.kept c earlier hsuffix hfirst ?_
    rcases hp with hp | hp
    · exact (hacked _ hp).imp_right And.left
    · refine .inr ((hholds _ hp).resolve_right fun hnew => ?_)
      have hc : c ∈ s.commits := hsuffix.subset List.mem_cons_self
      exact absurd (hseq.known _ (.inr (h.source c hc))).2 (Nat.not_le_of_lt hnew)

/-- The agent forgets, or moves on, and the hub's table stays as it is. -/
theorem AgentOnly.forget (hrow : t.row = s.row) (hcommits : t.commits = s.commits)
    (hrequests : t.requests = s.requests) (hacked : t.acked = s.acked)
    (hqueue : t.queue.Sublist s.queue) (hpc : ∀ p, t.pc.carried = some p → s.pc.carried = some p) :
    AgentOnly s t :=
  ⟨hrow, hcommits, fun _ hp => hrequests ▸ hp,
    fun r hr hstage => ⟨r, hrequests ▸ hr, hstage, rfl⟩,
    fun p hp => .inl (hp.imp (fun hp => hqueue.subset hp) (hpc p)), fun _ hp => .inl (hacked ▸ hp)⟩

theorem mem_post {r : Request S} {queued : Bool} (h : r ∈ (s.post p queued).requests) :
    r ∈ s.requests ∨ r.stage = .pending := by
  rcases List.mem_append.mp h with h | h
  · exact .inl h
  · exact .inr (List.mem_singleton.mp h ▸ rfl)

theorem AgentOnly.post {queue : List (Payload S)} {queued : Bool} (hqueue : queue.Sublist s.queue)
    (hpc : queued = false → s.pc.carried = some p) :
    AgentOnly s (({ s with queue := queue } : Link S).post p queued) := by
  refine ⟨rfl, rfl, fun q hq => ?_, fun r hr hstage => ?_, fun q hq => .inl ?_, fun _ hq => .inl hq⟩
  · exact post_payloads { s with queue := queue } p queued ▸ List.mem_append_left [p] hq
  · rcases mem_post hr with hr | hpending
    · exact ⟨r, hr, hstage, rfl⟩
    · cases hpending.symm.trans hstage
  · rcases hq with hq | hq
    · exact .inl (hqueue.subset hq)
    · cases queued
      · exact .inr ((hpc rfl).trans hq)
      · cases hq

theorem AgentOnly.answered (hseq : Sequenced s) {request : ℕ} {queued : Bool}
    (hpc : s.pc = .sending p request queued) {answer : Answer}
    (hanswer : s.answered p request queued answer = some t) : AgentOnly s t := by
  have hqueue : (s.ack p queued).queue.Sublist s.queue := by
    cases queued
    · exact List.Sublist.refl _
    · exact List.eraseP_sublist
  cases answer with
  | ok =>
    obtain ⟨hcommitted, hok⟩ := Option.ite_none_right_eq_some.mp hanswer
    obtain rfl := Option.some.inj hok
    obtain ⟨r, hr, hpayload⟩ := hseq.outstanding p request queued hpc
    rw [hr] at hcommitted
    have hheld : s.Holds p := by
      cases queued
      · exact .inr (by rw [hpc]; rfl)
      · obtain ⟨rest, hrest⟩ := hseq.replaying p request hpc
        exact .inl (hrest ▸ List.mem_cons_self)
    refine ⟨rfl, rfl, fun _ hq => hq, fun r hr hstage => ⟨r, hr, hstage, rfl⟩, fun q hq => .inl ?_,
      fun q hq => ?_⟩
    · rcases hq with hq | hq
      · exact .inl (hqueue.subset hq)
      · cases hq
    · rcases List.mem_cons.mp hq with rfl | hq
      · exact .inr ⟨hheld, r, List.mem_of_getElem? hr, Option.some.inj hcommitted, hpayload⟩
      · exact .inl hq
  | drop =>
    obtain rfl := Option.some.inj hanswer
    exact .forget rfl rfl rfl rfl hqueue fun q hq => by cases hq
  | retry =>
    obtain rfl := Option.some.inj hanswer
    refine .forget rfl rfl rfl rfl (List.Sublist.refl _) fun q hq => ?_
    cases queued
    · rw [hpc]
      exact hq
    · cases hq
  | unauthorized =>
    obtain rfl := Option.some.inj hanswer
    exact .forget rfl rfl rfl rfl (List.Sublist.refl _) fun q hq => by cases hq

/-- A step is the agent's, or the commit of a request. -/
theorem agentOnly_or_commit (hseq : Sequenced s) (hstep : s.step clean a = some t) :
    AgentOnly s t ∨ ∃ request r validated claimed touched, s.requests[request]? = some r ∧
      s.commit clean request r validated claimed touched = some t := by
  cases a <;> simp only [Link.step] at hstep
  case wait =>
    obtain rfl := Option.some.inj hstep
    exact .inl (.forget rfl rfl rfl rfl (List.Sublist.refl _) fun _ hq => hq)
  case crash =>
    obtain rfl := Option.some.inj hstep
    exact .inl (.forget rfl rfl rfl rfl (List.Sublist.refl _) fun q hq => by cases hq)
  case start evicted =>
    split at hstep
    · obtain rfl := Option.some.inj hstep
      exact .inl (.forget rfl rfl rfl rfl (List.drop_sublist _ _) fun q hq => by cases hq)
    · cases hstep
  case collect agentVersion samples =>
    split at hstep
    · obtain rfl := Option.some.inj hstep
      refine .inl ⟨rfl, rfl, fun _ hq => hq, fun r hr hstage => ⟨r, hr, hstage, rfl⟩, fun q hq => ?_,
        fun _ hq => .inl hq⟩
      rcases hq with hq | hq
      · exact .inl (.inl hq)
      · obtain rfl := Option.some.inj hq
        exact .inr (Nat.lt_succ_self _)
    · cases hstep
  case send =>
    split at hstep
    · rename_i p hpc hqueue
      obtain rfl := Option.some.inj hstep
      exact .inl (.post (List.Sublist.refl _) fun _ => by rw [hpc]; rfl)
    · cases hstep
  case buffer =>
    split at hstep
    · rename_i p hpc
      obtain rfl := Option.some.inj hstep
      exact .inl (.forget rfl rfl rfl rfl (List.Sublist.refl _) fun q hq => by rw [hpc]; exact hq)
    · cases hstep
  case push evicted =>
    split at hstep
    · rename_i p hpc
      obtain rfl := Option.some.inj hstep
      have hcarried : s.pc.carried = some p := by rw [hpc]; rfl
      obtain ⟨left, hleft, hpush⟩ := pushSeq_last (hseq.newest p hcarried) evicted
      refine .inl ⟨rfl, rfl, fun _ hq => hq, fun r hr hstage => ⟨r, hr, hstage, rfl⟩,
        fun q hq => .inl ?_, fun _ hq => .inl hq⟩
      rcases hq with hq | hq
      · have hq : q ∈ pushSeq p evicted s.queue := hq
        rw [hpush] at hq
        rcases List.mem_append.mp hq with hq | hq
        · exact .inl (hleft.subset hq)
        · exact .inr (List.mem_singleton.mp hq ▸ hcarried)
      · cases hq
    · cases hstep
  case pushFails =>
    split at hstep
    · obtain rfl := Option.some.inj hstep
      exact .inl (.forget rfl rfl rfl rfl (List.Sublist.refl _) fun q hq => by cases hq)
    · cases hstep
  case replay discarded =>
    split at hstep
    · split at hstep
      · obtain rfl := Option.some.inj hstep
        exact .inl (.forget rfl rfl rfl rfl (List.nil_sublist _) fun _ hq => hq)
      · rename_i p rest hdrop
        obtain rfl := Option.some.inj hstep
        have hsub : (p :: rest).Sublist s.queue := hdrop ▸ List.drop_sublist _ _
        exact .inl (.post hsub fun hno => by cases hno)
    · cases hstep
  case answer =>
    split at hstep
    · rename_i p request queued hpc
      exact .inl (.answered hseq hpc hstep)
    · cases hstep
  case commit request validated claimed touched =>
    obtain ⟨r, hr, hcommit⟩ := Option.bind_eq_some_iff.mp hstep
    exact .inr ⟨request, r, validated, claimed, touched, hr, hcommit⟩
  case fail request =>
    obtain ⟨r, -, rfl⟩ := Option.map_eq_some_iff.mp hstep
    refine .inl ⟨rfl, rfl, fun q hq => ?_, fun r hr hstage => ?_, fun _ hq => .inl hq,
      fun _ hq => .inl hq⟩
    · rwa [setStage_payloads]
    · obtain ⟨n, hn⟩ := List.mem_iff_getElem?.mp hr
      rw [Link.setStage, modifyAt_getElem?] at hn
      split at hn
      · obtain ⟨r', -, rfl⟩ := Option.map_eq_some_iff.mp hn
        cases hstage
      · exact ⟨r, List.mem_of_getElem? hn, hstage, rfl⟩

/-- A property of every commit and those before it, when one is added. -/
theorem suffix_cases {P : Commit S → List (Commit S) → Prop} (hnew : P c commits)
    (hold : ∀ d earlier, (d :: earlier) <:+ commits → P d earlier) :
    ∀ d earlier, (d :: earlier) <:+ c :: commits → P d earlier := by
  intro d earlier hsuffix
  rcases List.suffix_cons_iff.mp hsuffix with heq | hsuffix
  · obtain ⟨rfl, rfl⟩ := List.cons.inj heq
    exact hnew
  · exact hold d earlier hsuffix

theorem not_accepted_le {row : AgentRow} {now seq : ℕ} (h : row.accepts now seq = false) :
    seq ≤ row.lastSeq ∧ row.unheard now = false := by
  obtain ⟨hle, hheard⟩ := Bool.or_eq_false_iff.mp h
  exact ⟨Nat.le_of_not_lt (of_decide_eq_false hle), hheard⟩

theorem accepted_lt {row : AgentRow} {now seq : ℕ} (h : row.accepts now seq = true)
    (hheard : row.unheard now = false) : row.lastSeq < seq := by
  rcases Bool.or_eq_true _ _ |>.mp h with h | h
  · exact of_decide_eq_true h
  · cases hheard.symm.trans h

/-- The row has reached every number that was committed, up to a reopening. -/
theorem Ingested.reached_commit (h : Ingested clean s) {time later : ℕ} {kept : Clean S}
    {row : AgentRow} {wrote : List S} (hdone : Transacted time later kept s.row row wrote)
    (hseq : kept.seq = p.seq) :
    ∀ e ∈ (⟨p, time, s.row, wrote⟩ :: s.commits : List (Commit S)),
      e.payload.seq ≤ row.lastSeq ∨ Reopened (⟨p, time, s.row, wrote⟩ :: s.commits) e := by
  intro e he
  rcases List.mem_cons.mp he with rfl | he
  · left
    cases hdone with
    | taken _ hlast => rw [hlast, hseq]
    | duplicate haccepts hlast =>
      rw [hlast, ← hseq]
      exact (not_accepted_le haccepts).1
  · by_cases hunheard : s.row.unheard time = true
    · exact .inr ⟨_, s.commits, List.suffix_refl _, he, hunheard⟩
    · have hheard := Bool.not_eq_true _ ▸ hunheard
      rcases h.reached e he with hle | hopen
      · left
        cases hdone with
        | taken haccepts hlast =>
          rw [hlast]
          exact hle.trans (accepted_lt haccepts hheard).le
        | duplicate _ hlast => rwa [hlast]
      · exact .inr (hopen.cons _)

theorem Ingested.commit (h : Ingested clean s) (hs : Sequenced s) {request : ℕ} {r : Request S}
    {validated claimed touched : ℕ} (hr : s.requests[request]? = some r)
    (hcommit : s.commit clean request r validated claimed touched = some t) : Ingested clean t := by
  obtain ⟨-, hdone⟩ := Option.ite_none_right_eq_some.mp hcommit
  obtain rfl := Option.some.inj hdone
  have hdone := transact_cases claimed touched
    ⟨r.payload.seq, r.payload.agentVersion, clean validated r.payload.samples⟩ h.active
  have hmem : r.payload ∈ s.requests.map Request.payload :=
    List.mem_map_of_mem (List.mem_of_getElem? hr)
  have hholds (p) (hp : Link.Holds _ p) : s.Holds p := hp
  refine ⟨?_, fun c hc => ?_, fun r' hr' hstage => ?_, fun p hp => ?_, ?_, h.reached_commit hdone rfl,
    suffix_cases (fun hlow => ?_) h.inOrder, suffix_cases (fun hfirst hp e he => ?_) h.kept,
    suffix_cases (fun hwrote e he hlt => ?_) h.late⟩
  · cases hdone <;> assumption
  · rw [setStage_payloads]
    rcases List.mem_cons.mp hc with rfl | hc
    · exact hmem
    · exact h.source c hc
  · obtain ⟨n, hn⟩ := List.mem_iff_getElem?.mp hr'
    rw [Link.setStage, modifyAt_getElem?] at hn
    split at hn
    · rename_i heq
      subst heq
      rw [hr] at hn
      obtain rfl := Option.some.inj hn
      exact ⟨_, List.mem_cons_self, rfl⟩
    · obtain ⟨c, hc, hpayload⟩ := h.answered r' (List.mem_of_getElem? hn) hstage
      exact ⟨c, List.mem_cons_of_mem _ hc, hpayload⟩
  · obtain ⟨c, hc, hpayload⟩ := h.acked p hp
    exact ⟨c, List.mem_cons_of_mem _ hc, hpayload⟩
  · cases hdone with
    | taken _ hseq => exact .inr ⟨_, List.mem_cons_self, hseq.symm⟩
    | duplicate _ hseq =>
      rcases h.last with hzero | ⟨c, hc, hlast⟩
      · exact .inl (hseq.trans hzero)
      · exact .inr ⟨c, List.mem_cons_of_mem _ hc, hlast.trans hseq.symm⟩
  · -- the row's number is one of those before it, all lower
    cases hdone with
    | taken _ _ _ _ hwrote => exact ⟨validated, hwrote⟩
    | duplicate haccepts =>
      have hle : r.payload.seq ≤ s.row.lastSeq := (not_accepted_le haccepts).1
      rcases h.last with hzero | ⟨c, hc, hlast⟩
      · have := (hs.known _ (.inr hmem)).1
        omega
      · have := hlow c hc
        exact absurd (hlast ▸ hle) (Nat.not_le_of_lt this)
  · have hle : e.payload.seq ≤ r.payload.seq := by
      refine hs.order r.payload (hp.resolve_left fun hacked => ?_) _ (h.source e he)
      obtain ⟨c, hc, hpayload⟩ := h.acked _ hacked
      exact hfirst c hc (congrArg Payload.seq hpayload)
    exact lt_of_le_of_ne hle (hfirst e he)
  · by_cases hunheard : s.row.unheard claimed = true
    · exact ⟨_, s.commits, List.suffix_refl _, he, hunheard⟩
    · cases hdone with
      | taken haccepts =>
        have hlast := accepted_lt haccepts (Bool.not_eq_true _ ▸ hunheard)
        refine Reopened.cons ((h.reached e he).resolve_left fun hle => ?_) _
        exact absurd (hle.trans_lt hlast) (Nat.lt_asymm hlt)
      | duplicate _ _ _ _ hnone => exact absurd hnone hwrote

theorem run_ingested {counter : ℕ} {row : AgentRow} {tr : List (LinkAct S)}
    (run : Steps (Takes (Link.step clean)) (.enrolled counter row) tr s) :
    Sequenced s ∧ Ingested clean s := by
  refine run.stable (P := fun s => Sequenced s ∧ Ingested clean s)
    ⟨enrolled_sequenced counter row, ?_⟩ fun s a t h hstep => ⟨h.1.step hstep, ?_⟩
  · have hno (c : Commit S) (earlier : List (Commit S)) : ¬ (c :: earlier) <:+ [] := by
      intro h
      cases List.suffix_nil.mp h
    exact ⟨rfl, (fun c hc => by cases hc), (fun r hr => by cases hr), (fun p hp => by cases hp),
      .inl rfl, (fun e he => by cases he), fun c l h => (hno c l h).elim, fun c l h => (hno c l h).elim,
      fun c l h => (hno c l h).elim⟩
  · rcases agentOnly_or_commit h.1 hstep with hframe | ⟨request, r, v, c, d, hr, hcommit⟩
    · exact h.2.agentOnly h.1 hframe
    · exact h.2.commit h.1 hr hcommit

theorem exists_first {P : Commit S → Prop} (h : ∃ c ∈ commits, P c) :
    ∃ c earlier, (c :: earlier) <:+ commits ∧ P c ∧ ∀ e ∈ earlier, ¬ P e := by
  induction commits with
  | nil =>
    obtain ⟨c, hc, -⟩ := h
    cases hc
  | cons d commits ih =>
    by_cases hrest : ∃ c ∈ commits, P c
    · obtain ⟨c, earlier, hsuffix, hc⟩ := ih hrest
      exact ⟨c, earlier, hsuffix.trans (List.suffix_cons d commits), hc⟩
    · obtain ⟨c, hc, hP⟩ := h
      rcases List.mem_cons.mp hc with rfl | hc
      · exact ⟨c, commits, List.suffix_refl _, hP, fun e he hPe => hrest ⟨e, he, hPe⟩⟩
      · exact absurd ⟨c, hc, hP⟩ hrest

/-- A payload the agent dropped because of a 200 was first committed after lower numbers only,
and that commit wrote what the hub made of its samples. A payload first committed after a
higher number is one the agent has lost; its samples are written only if, since that higher
number, a request found the agent unheard of for the length of the window. -/
theorem delivery (clean : ℕ → List S → List S) (counter : ℕ) (row : AgentRow)
    (tr : List (LinkAct S)) (s : Link S)
    (run : Steps (Takes (Link.step clean)) (.enrolled counter row) tr s) :
    (∀ p ∈ s.acked, ∃ c earlier, (c :: earlier) <:+ s.commits ∧ c.payload = p ∧
      (∀ e ∈ earlier, e.payload.seq < p.seq) ∧ ∃ v, c.wrote = clean v p.samples) ∧
    ∀ c earlier, (c :: earlier) <:+ s.commits → (∀ e ∈ earlier, e.payload.seq ≠ c.payload.seq) →
      ∀ e ∈ earlier, c.payload.seq < e.payload.seq → c.payload ∉ s.acked ∧ ¬ s.Holds c.payload ∧
        (c.wrote ≠ [] → Reopened (c :: earlier) e) := by
  obtain ⟨hs, h⟩ := run_ingested run
  constructor
  · intro p hp
    obtain ⟨d, hd, hpayload⟩ := h.acked p hp
    obtain ⟨c, earlier, hsuffix, hseq, hfirst⟩ :=
      exists_first (P := fun c => c.payload.seq = p.seq) ⟨d, hd, congrArg Payload.seq hpayload⟩
    have hc := h.source c (hsuffix.subset List.mem_cons_self)
    obtain rfl := hs.unique c.payload p (.inr hc) (.inr (hpayload ▸ h.source d hd)) hseq
    have hlow := h.kept c earlier hsuffix hfirst (.inl hp)
    exact ⟨c, earlier, hsuffix, rfl, hlow, h.inOrder c earlier hsuffix hlow⟩
  · intro c earlier hsuffix hfirst e he hlt
    have hlost := h.kept c earlier hsuffix hfirst
    refine ⟨fun hp => ?_, fun hp => ?_, fun hwrote => h.late c earlier hsuffix hwrote e he hlt⟩
    · exact absurd (hlost (.inl hp) e he) (Nat.lt_asymm hlt)
    · exact absurd (hlost (.inr hp) e he) (Nat.lt_asymm hlt)

end Hub

section Example

/-- `MAX_AGE_SECONDS`, `FUTURE_SKEW_SECONDS`: what the hub's clock says of a sample's. -/
def onTime (now : ℕ) (samples : List ℕ) : List ℕ :=
  samples.filter fun ts => now ≤ ts + 24 * 3600 && ts ≤ now + 10 * 60

def webServer : AgentRow := ⟨1, "web-1", .active, 0, none, "", none, none⟩

/-- The first request stalls, the agent restarts, and after a silence the request goes on. -/
def stalledRequest : List (LinkAct ℕ) :=
  [.start 0, .collect "1.0" [0], .send, .crash, .start 0, .wait 60, .collect "1.0" [60], .send,
    .commit 1 60 60 60, .answer .ok, .wait 700, .commit 0 0 760 760]

theorem delivery_stalled : ∃ (s : Link ℕ) (p : Payload ℕ) (c : Commit ℕ), p ∈ s.acked ∧
    c.payload = p ∧ (∃ v, c.wrote = onTime v p.samples) ∧
    ∃ d ∈ s.commits, d.payload.seq < p.seq ∧ d.payload ∉ s.acked := by
  obtain ⟨s, run, -, hp⟩ := exists_play (Link.step onTime) (.enrolled 0 webServer) stalledRequest
    (fun s => s.acked = [⟨2, "1.0", [60]⟩] && s.commits.map Commit.payload =
      [⟨1, "1.0", [0]⟩, ⟨2, "1.0", [60]⟩]) (by decide +kernel)
  rw [Bool.and_eq_true, decide_eq_true_eq, decide_eq_true_eq] at hp
  obtain ⟨hacked, hcommits⟩ := hp
  obtain ⟨hkept, hlost⟩ := delivery onTime 0 webServer _ s run
  have hp : (⟨2, "1.0", [60]⟩ : Payload ℕ) ∈ s.acked := hacked ▸ List.mem_singleton_self _
  obtain ⟨c, -, -, hpayload, -, hwrote⟩ := hkept _ hp
  obtain ⟨d, rest, hlist, hd, hrest⟩ := List.map_eq_cons_iff.mp hcommits
  obtain ⟨e, rest, rfl, he, hnil⟩ := List.map_eq_cons_iff.mp hrest
  obtain rfl := List.map_eq_nil_iff.mp hnil
  have hlost := (hlost d [e] (hlist ▸ List.suffix_refl _) (fun e' he' => by
    rw [List.mem_singleton.mp he', he, hd]
    decide) e List.mem_cons_self (by rw [hd, he]; decide)).1
  exact ⟨s, _, c, hp, hpayload, hwrote, d, hlist ▸ List.mem_cons_self, by rw [hd]; decide, hlost⟩

/-- A request the agent gave up on commits its samples after those of a higher number. And a
payload whose samples are too new for the hub's clock is taken as a heartbeat; sent again
because the answer was lost, it is answered 200 as a duplicate, and its samples, by then
accepted, are not written. -/
theorem delivery_out_of_order : (∃ (s : Link ℕ) (tr : List (LinkAct ℕ)) (c d : Commit ℕ),
      Steps (Takes (Link.step onTime)) (.enrolled 0 webServer) tr s ∧ s.commits = [c, d] ∧
      c.payload.seq < d.payload.seq ∧ c.wrote ≠ [] ∧ d.wrote ≠ []) ∧
    ∃ (s : Link ℕ) (tr : List (LinkAct ℕ)) (p : Payload ℕ),
      Steps (Takes (Link.step onTime)) (.enrolled 0 webServer) tr s ∧ s.acked = [p] ∧
      p.samples ≠ [] ∧ onTime s.now p.samples = p.samples ∧ ∀ c ∈ s.commits, c.wrote = [] := by
  constructor
  · obtain ⟨s, run, -, hp⟩ := exists_play (Link.step onTime) (.enrolled 0 webServer) stalledRequest
      (fun s => s.commits = [⟨⟨1, "1.0", [0]⟩, 760, { webServer with
          lastSeq := 2, lastSeenAt := some 60, agentVersion := "1.0" }, [0]⟩,
        ⟨⟨2, "1.0", [60]⟩, 60, webServer, [60]⟩]) (by decide +kernel)
    rw [decide_eq_true_eq] at hp
    exact ⟨s, _, _, _, run, hp, by decide, by decide, by decide⟩
  · obtain ⟨s, run, -, hp⟩ := exists_play (Link.step onTime) (.enrolled 0 webServer)
      [.start 0, .collect "1.0" [700], .send, .commit 0 0 0 0, .answer .retry, .push 0, .wait 200,
        .replay 0, .commit 1 200 200 200, .answer .ok]
      (fun s => s.acked = [⟨1, "1.0", [700]⟩] && s.now = 200 &&
        s.commits.all fun c => c.wrote = []) (by decide +kernel)
    rw [Bool.and_eq_true, Bool.and_eq_true, decide_eq_true_eq, decide_eq_true_eq,
      List.all_eq_true] at hp
    obtain ⟨⟨hacked, hnow⟩, hwrote⟩ := hp
    exact ⟨s, _, _, run, hacked, by decide, by rw [hnow]; decide,
      fun c hc => of_decide_eq_true (hwrote c hc)⟩

end Example

end MonitoringHub.Ingest
