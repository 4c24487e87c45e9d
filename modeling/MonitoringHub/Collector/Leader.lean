import MonitoringHub.Lib.RowTable
import MonitoringHub.Lib.StepRun
import Mathlib.Logic.Function.Basic

/-! Which worker process runs the collector. Every worker repeats the body of `_loop`, one call
a step; the database keeps the named lock for a session until the session ends or is reset,
which no worker need notice. -/

namespace MonitoringHub.Collector
open Lib RowTable

/-- Between two calls of the loop: before the next turn, after `GET_LOCK` answered 1, in
`start_fn`, or with an error caught and the connection still to be closed. -/
inductive LoopStage
  | resting | acquired | starting | closing
  deriving DecidableEq

/-- The variables of `_loop`, and the flag of every event it has made, oldest first. -/
structure Worker where
  stage : LoopStage
  conn : Option ℕ
  started : Bool
  leaderEvent : Option ℕ
  myConnectionId : Option ℕ
  events : List Bool

structure Cluster where
  live : ℕ → Bool
  holder : Option ℕ
  workers : List Worker

/-- A query is answered, is answered NULL, or fails before or after the database has run it. -/
inductive Reply
  | answered | null | unsent | unanswered
  deriving DecidableEq

inductive LeaderAct
  | sessionEnds (c : ℕ)
  | sessionReset (c : ℕ)
  | connect (k : ℕ) (c : Option ℕ)
  | tryAcquire (k : ℕ) (reply : Reply)
  | readConnectionId (k : ℕ) (ok : Bool)
  | startReturns (k : ℕ) (ok : Bool)
  | lockHolder (k : ℕ) (reply : Reply)
  | close (k : ℕ)

namespace Worker

/-- Some event of the worker is set. -/
def Signals (w : Worker) : Prop := true ∈ w.events

instance (w : Worker) : Decidable w.Signals := inferInstanceAs (Decidable (true ∈ w.events))

def clear (w : Worker) : List Bool :=
  match w.leaderEvent with
  | some i => w.events.set i false
  | none => w.events

/-- The `except` branch, up to the closing of the connection. -/
def caught (w : Worker) : Worker :=
  { w with stage := .closing, events := w.clear, leaderEvent := none }

/-- The rest of the branch; what becomes of the session is the database's step. -/
def closed (w : Worker) : Worker :=
  { w with stage := .resting, conn := none, started := false, myConnectionId := none }

/-- A new event, which is set. -/
def start (w : Worker) : Worker :=
  { w with
    stage := .starting, myConnectionId := w.conn,
    leaderEvent := some w.events.length, events := w.events ++ [true] }

end Worker

namespace Cluster

def fresh (n : ℕ) : Cluster :=
  ⟨fun _ => false, none, List.replicate n ⟨.resting, none, false, none, none, []⟩⟩

def release (s : Cluster) (c : ℕ) : Option ℕ := if s.holder = some c then none else s.holder

def setWorker (s : Cluster) (k : ℕ) (w : Worker) : Cluster :=
  { s with workers := modifyAt k (fun _ => w) s.workers }

def InUse (s : Cluster) (c : ℕ) : Prop := ∃ w ∈ s.workers, w.conn = some c

instance (s : Cluster) (c : ℕ) : Decidable (s.InUse c) :=
  inferInstanceAs (Decidable (∃ w ∈ s.workers, w.conn = some c))

/-- The worker's own connection holds the lock. -/
def HoldsLock (s : Cluster) (w : Worker) : Prop := w.conn.isSome = true ∧ s.holder = w.conn

/-- `GET_LOCK` with a timeout of 0, on session `c`. -/
def tryAcquire (s : Cluster) (k : ℕ) (w : Worker) (c : ℕ) (reply : Reply) : Cluster :=
  if s.live c = false then s.setWorker k w.caught
  else if s.holder = none ∨ s.holder = some c then
    match reply with
    | .answered => { s with holder := some c }.setWorker k
        { w with stage := .acquired, started := true }
    | .null => s
    | .unsent => s.setWorker k w.caught
    | .unanswered => { s with holder := some c }.setWorker k w.caught
  else
    match reply with
    | .answered => s
    | .null => s
    | .unsent => s.setWorker k w.caught
    | .unanswered => s.setWorker k w.caught

/-- The answer of `IS_USED_LOCK` on session `c`, if one comes. -/
def lockHolder (s : Cluster) (c : ℕ) : Reply → Option (Option ℕ)
  | .answered => if s.live c then some s.holder else none
  | .null => if s.live c then some none else none
  | .unsent => none
  | .unanswered => none

def step (s : Cluster) : LeaderAct → Option Cluster
  | .sessionEnds c =>
    some { s with live := Function.update s.live c false, holder := s.release c }
  | .sessionReset c => if s.InUse c then none else some { s with holder := s.release c }
  | .connect k c => s.workers[k]?.bind fun w =>
    if w.stage = .resting ∧ w.conn = none then
      match c with
      | some c =>
        if s.InUse c then none
        else some ({ s with live := Function.update s.live c true }.setWorker k
          { w with conn := some c })
      | none => some (s.setWorker k w.caught)
    else none
  | .tryAcquire k reply => s.workers[k]?.bind fun w =>
    if w.stage = .resting ∧ w.started = false then
      w.conn.map fun c => s.tryAcquire k w c reply
    else none
  | .readConnectionId k ok => s.workers[k]?.bind fun w =>
    if w.stage = .acquired then
      some (s.setWorker k (if ok then w.start else w.caught))
    else none
  | .startReturns k ok => s.workers[k]?.bind fun w =>
    if w.stage = .starting then
      some (s.setWorker k (if ok then { w with stage := .resting } else w.caught))
    else none
  | .lockHolder k reply => s.workers[k]?.bind fun w =>
    if w.stage = .resting ∧ w.started = true then
      w.conn.map fun c =>
        if s.lockHolder c reply = some w.myConnectionId then s else s.setWorker k w.caught
    else none
  | .close k => s.workers[k]?.bind fun w =>
    if w.stage = .closing then some (s.setWorker k w.closed) else none

end Cluster

/-- An event that is set is the one the worker holds, and its connection is the one it acquired
the lock on. -/
structure Worker.Sound (w : Worker) : Prop where
  acquired : w.stage = .acquired → w.conn.isSome = true ∧ w.started = true
  signals : ∀ i, w.events[i]? = some true → w.leaderEvent = some i ∧ w.started = true ∧
    w.conn.isSome = true ∧ w.myConnectionId = w.conn ∧
    (w.stage = .resting ∨ w.stage = .starting)

/-- No two workers share a connection. -/
structure WorkersSound (workers : List Worker) : Prop where
  each : ∀ w ∈ workers, w.Sound
  apart : ∀ c, AtMostOne (fun w => decide (w.conn = some c)) workers

section Workers
variable {s s' : Cluster} {w w' : Worker} {act : LeaderAct} {i : ℕ}

theorem Worker.Sound.clear (h : w.Sound) (i : ℕ) : w.clear[i]? ≠ some true := by
  intro htrue
  unfold Worker.clear at htrue
  split at htrue
  · rename_i j hj
    rw [List.getElem?_set] at htrue
    split at htrue
    · rename_i hji
      split at htrue <;> simp at htrue
    · rename_i hji
      have := (h.signals i htrue).1
      rw [hj] at this
      exact hji (Option.some.inj this)
  · rename_i hnone
    have := (h.signals i htrue).1
    rw [hnone] at this
    cases this

theorem Worker.clear_cleared (h : w.events[i]? = some false) : w.clear[i]? = some false := by
  unfold Worker.clear
  split
  · rw [List.getElem?_set]
    split
    · rename_i hji
      subst hji
      rw [if_pos (List.getElem?_eq_some_iff.mp h).1]
    · exact h
  · exact h

/-- What one call does to the worker that makes it. -/
inductive Worker.Turn (s : Cluster) (w : Worker) : Worker → Prop
  | connect (c : ℕ) (hstage : w.stage = .resting) (hconn : w.conn = none) (hfree : ¬ s.InUse c) :
    Turn s w { w with conn := some c }
  | caught : Turn s w w.caught
  | acquire (hconn : w.conn.isSome = true) (hstarted : w.started = false) :
    Turn s w { w with stage := .acquired, started := true }
  | start (hstage : w.stage = .acquired) : Turn s w w.start
  | started (hstage : w.stage = .starting) : Turn s w { w with stage := .resting }
  | closed (hstage : w.stage = .closing) : Turn s w w.closed

theorem Worker.Turn.sound (h : w.Sound) (hturn : w.Turn s w') : w'.Sound := by
  cases hturn with
  | connect c hstage hconn hfree =>
    refine ⟨fun hacquired => absurd (hstage.symm.trans hacquired) (by decide), fun i hi => ?_⟩
    have := (h.signals i hi).2.2.1
    rw [hconn] at this
    cases this
  | caught => exact ⟨nofun, fun i hi => absurd hi (h.clear i)⟩
  | acquire hconn hstarted =>
    refine ⟨fun _ => ⟨hconn, rfl⟩, fun i hi => ?_⟩
    have := (h.signals i hi).2.1
    rw [hstarted] at this
    cases this
  | start hstage =>
    obtain ⟨hconn, hstarted⟩ := h.acquired hstage
    refine ⟨nofun, fun i hi => ?_⟩
    have hlast : i = w.events.length := by
      cases found_append hi with
      | inl hold =>
        have := (h.signals i hold).2.2.2.2
        rw [hstage] at this
        simp at this
      | inr hnew => exact hnew.1
    exact ⟨congrArg some hlast.symm, hstarted, hconn, rfl, .inr rfl⟩
  | started hstage =>
    refine ⟨nofun, fun i hi => ?_⟩
    obtain ⟨hevent, hstarted, hconn, hid, -⟩ := h.signals i hi
    exact ⟨hevent, hstarted, hconn, hid, .inl rfl⟩
  | closed hstage =>
    refine ⟨nofun, fun i hi => ?_⟩
    have := (h.signals i hi).2.2.2.2
    rw [hstage] at this
    simp at this

/-- A cleared event stays cleared: an event is set only as it is made. -/
theorem Worker.Turn.cleared (hturn : w.Turn s w') (h : w.events[i]? = some false) :
    w'.events[i]? = some false := by
  cases hturn with
  | caught => exact Worker.clear_cleared h
  | start =>
    have hlt := (List.getElem?_eq_some_iff.mp h).1
    exact (List.getElem?_append_left hlt).trans h
  | connect => exact h
  | acquire => exact h
  | started => exact h
  | closed => exact h

theorem Worker.Turn.conn (hturn : w.Turn s w') {c : ℕ} (h : w'.conn = some c) :
    w.conn = some c ∨ ¬ s.InUse c := by
  cases hturn with
  | connect c' hstage hconn hfree =>
    obtain rfl := Option.some.inj h
    exact .inr hfree
  | caught => exact .inl h
  | acquire => exact .inl h
  | start => exact .inl h
  | started => exact .inl h
  | closed => cases h

theorem tryAcquire_workers (s : Cluster) (k : ℕ) {c : ℕ} (reply : Reply)
    (hconn : w.conn = some c) (hstarted : w.started = false) :
    (s.tryAcquire k w c reply).workers = s.workers ∨
      ∃ w', w.Turn s w' ∧ (s.tryAcquire k w c reply).workers = (s.setWorker k w').workers := by
  unfold Cluster.tryAcquire
  split
  · exact .inr ⟨_, .caught, rfl⟩
  · split
    · cases reply with
      | answered => exact .inr ⟨_, .acquire (by rw [hconn]; rfl) hstarted, rfl⟩
      | null => exact .inl rfl
      | unsent => exact .inr ⟨_, .caught, rfl⟩
      | unanswered => exact .inr ⟨_, .caught, rfl⟩
    · cases reply with
      | answered => exact .inl rfl
      | null => exact .inl rfl
      | unsent => exact .inr ⟨_, .caught, rfl⟩
      | unanswered => exact .inr ⟨_, .caught, rfl⟩

/-- A step changes no worker, or one by one turn. -/
theorem step_workers (h : s.step act = some s') :
    s'.workers = s.workers ∨ ∃ k w w', s.workers[k]? = some w ∧ w.Turn s w' ∧
      s'.workers = modifyAt k (fun _ => w') s.workers := by
  cases act with
  | sessionEnds c =>
    obtain rfl := Option.some.inj h
    exact .inl rfl
  | sessionReset c =>
    obtain ⟨-, hs⟩ := Option.ite_none_left_eq_some.mp h
    obtain rfl := Option.some.inj hs
    exact .inl rfl
  | connect k c =>
    obtain ⟨w, hk, hw⟩ := Option.bind_eq_some_iff.mp h
    obtain ⟨⟨hstage, hconn⟩, hs⟩ := Option.ite_none_right_eq_some.mp hw
    cases c with
    | none =>
      obtain rfl := Option.some.inj hs
      exact .inr ⟨k, w, _, hk, .caught, rfl⟩
    | some c =>
      obtain ⟨hfree, hs⟩ := Option.ite_none_left_eq_some.mp hs
      obtain rfl := Option.some.inj hs
      exact .inr ⟨k, w, _, hk, .connect c hstage hconn hfree, rfl⟩
  | tryAcquire k reply =>
    obtain ⟨w, hk, hw⟩ := Option.bind_eq_some_iff.mp h
    obtain ⟨⟨-, hstarted⟩, hs⟩ := Option.ite_none_right_eq_some.mp hw
    obtain ⟨c, hconn, rfl⟩ := Option.map_eq_some_iff.mp hs
    cases tryAcquire_workers s k reply hconn hstarted with
    | inl hsame => exact .inl hsame
    | inr hturn =>
      obtain ⟨w', hturn, hworkers⟩ := hturn
      exact .inr ⟨k, w, w', hk, hturn, hworkers⟩
  | readConnectionId k ok =>
    obtain ⟨w, hk, hw⟩ := Option.bind_eq_some_iff.mp h
    obtain ⟨hstage, hs⟩ := Option.ite_none_right_eq_some.mp hw
    obtain rfl := Option.some.inj hs
    cases ok with
    | true => exact .inr ⟨k, w, _, hk, .start hstage, rfl⟩
    | false => exact .inr ⟨k, w, _, hk, .caught, rfl⟩
  | startReturns k ok =>
    obtain ⟨w, hk, hw⟩ := Option.bind_eq_some_iff.mp h
    obtain ⟨hstage, hs⟩ := Option.ite_none_right_eq_some.mp hw
    obtain rfl := Option.some.inj hs
    cases ok with
    | true => exact .inr ⟨k, w, _, hk, .started hstage, rfl⟩
    | false => exact .inr ⟨k, w, _, hk, .caught, rfl⟩
  | lockHolder k reply =>
    obtain ⟨w, hk, hw⟩ := Option.bind_eq_some_iff.mp h
    obtain ⟨-, hs⟩ := Option.ite_none_right_eq_some.mp hw
    obtain ⟨c, -, rfl⟩ := Option.map_eq_some_iff.mp hs
    split
    · exact .inl rfl
    · exact .inr ⟨k, w, _, hk, .caught, rfl⟩
  | close k =>
    obtain ⟨w, hk, hw⟩ := Option.bind_eq_some_iff.mp h
    obtain ⟨hstage, hs⟩ := Option.ite_none_right_eq_some.mp hw
    obtain rfl := Option.some.inj hs
    exact .inr ⟨k, w, _, hk, .closed hstage, rfl⟩

theorem WorkersSound.step (h : WorkersSound s.workers) (hstep : s.step act = some s') :
    WorkersSound s'.workers := by
  cases step_workers hstep with
  | inl hsame => rwa [hsame]
  | inr hturn =>
    obtain ⟨k, w, w', hk, hturn, hworkers⟩ := hturn
    rw [hworkers]
    refine ⟨fun v hv => ?_, fun c i j a b ha hb hac hbc => ?_⟩
    · cases mem_modifyAt hv with
      | inl hmem => exact h.each v hmem
      | inr hnew =>
        obtain ⟨a, ha, rfl⟩ := hnew
        exact hturn.sound (h.each w (List.mem_of_getElem? hk))
    -- the worker that moved has the connection it had, or one that no worker had
    · rw [modifyAt_found hk] at ha hb
      have hback : ∀ v n, (if n = k then some w' else s.workers[n]?) = some v →
          decide (v.conn = some c) = true → s.InUse c →
          ∃ u, s.workers[n]? = some u ∧ decide (u.conn = some c) = true := by
        intro v n hv hvc huse
        split at hv
        · rename_i hnk
          obtain rfl := Option.some.inj hv
          refine ⟨w, hnk ▸ hk, ?_⟩
          cases hturn.conn (of_decide_eq_true hvc) with
          | inl hconn => exact decide_eq_true hconn
          | inr hfree => exact absurd huse hfree
        · exact ⟨v, hv, hvc⟩
      by_cases huse : s.InUse c
      · obtain ⟨u, hu, huc⟩ := hback a i ha hac huse
        obtain ⟨v, hv, hvc⟩ := hback b j hb hbc huse
        exact h.apart c i j u v hu hv huc hvc
      · have hself : ∀ v n, (if n = k then some w' else s.workers[n]?) = some v →
            decide (v.conn = some c) = true → n = k := by
          intro v n hv hvc
          by_contra hnk
          rw [if_neg hnk] at hv
          exact huse ⟨v, List.mem_of_getElem? hv, of_decide_eq_true hvc⟩
        rw [hself a i ha hac, hself b j hb hbc]

theorem workersSound_fresh (n : ℕ) : WorkersSound (Cluster.fresh n).workers := by
  refine ⟨fun w hw => ?_, fun c i j a b ha hb hac hbc => ?_⟩
  · obtain ⟨-, rfl⟩ := List.mem_replicate.mp hw
    exact ⟨nofun, nofun⟩
  · obtain ⟨-, rfl⟩ := List.mem_replicate.mp (List.mem_of_getElem? ha)
    cases of_decide_eq_true hac

/-- The connection is looked up on the session the worker thinks of: a check that finds another
holder, or none, or gets no answer, ends with every event of the worker cleared. -/
theorem lockHolder_clears {k : ℕ} {reply : Reply} (h : WorkersSound s.workers)
    (hk : s.workers[k]? = some w) (hsignals : w.Signals) (hlost : ¬ s.HoldsLock w)
    (hstep : s.step (.lockHolder k reply) = some s') :
    ∃ w', s'.workers[k]? = some w' ∧ ¬ w'.Signals := by
  have hsound := h.each w (List.mem_of_getElem? hk)
  obtain ⟨i, hi⟩ := List.mem_iff_getElem?.mp hsignals
  obtain ⟨-, -, hconn, hid, -⟩ := hsound.signals i hi
  obtain ⟨v, hv, hw⟩ := Option.bind_eq_some_iff.mp hstep
  obtain rfl := Option.some.inj (hk.symm.trans hv)
  obtain ⟨-, hs⟩ := Option.ite_none_right_eq_some.mp hw
  obtain ⟨c, hc, rfl⟩ := Option.map_eq_some_iff.mp hs
  have hholder : s.lockHolder c reply ≠ some w.myConnectionId := by
    intro heq
    unfold Cluster.lockHolder at heq
    rw [hid] at heq
    split at heq
    · obtain ⟨-, hsame⟩ := Option.ite_none_right_eq_some.mp heq
      exact hlost ⟨hconn, Option.some.inj hsame⟩
    · obtain ⟨-, hnone⟩ := Option.ite_none_right_eq_some.mp heq
      rw [← Option.some.inj hnone] at hconn
      cases hconn
    · cases heq
    · cases heq
  rw [if_neg hholder]
  refine ⟨w.caught, ?_, fun hstill => ?_⟩
  · rw [Cluster.setWorker, modifyAt_found hk, if_pos rfl]
  · obtain ⟨j, hj⟩ := List.mem_iff_getElem?.mp hstill
    exact hsound.clear j hj

theorem cleared_step {k : ℕ} (hk : s.workers[k]? = some w) (hi : w.events[i]? = some false)
    (hstep : s.step act = some s') :
    ∃ w', s'.workers[k]? = some w' ∧ w'.events[i]? = some false := by
  cases step_workers hstep with
  | inl hsame => exact ⟨w, by rw [hsame, hk], hi⟩
  | inr hturn =>
    obtain ⟨j, v, v', hj, hturn, hworkers⟩ := hturn
    rw [hworkers, modifyAt_found hj]
    split
    · rename_i hkj
      subst hkj
      obtain rfl := Option.some.inj (hk.symm.trans hj)
      exact ⟨v', rfl, hturn.cleared hi⟩
    · exact ⟨w, hk, hi⟩

/-- In every run: two workers that hold the lock with an event set are one; a worker with an
event set and the lock lost clears it at its next check; a cleared event stays cleared. -/
theorem one_collector_leader {n : ℕ} {tr : List LeaderAct}
    (run : Steps (Takes Cluster.step) (.fresh n) tr s) :
    (∀ (k l : ℕ) (v w : Worker), s.workers[k]? = some v → s.workers[l]? = some w →
      v.Signals → w.Signals → s.HoldsLock v → s.HoldsLock w → k = l) ∧
    (∀ (k : ℕ) (w : Worker) reply s', s.workers[k]? = some w → w.Signals → ¬ s.HoldsLock w →
      s.step (.lockHolder k reply) = some s' →
      ∃ w' : Worker, s'.workers[k]? = some w' ∧ ¬ w'.Signals) ∧
    ∀ tr' s', Steps (Takes Cluster.step) s tr' s' → ∀ (k i : ℕ) (w : Worker),
      s.workers[k]? = some w → w.events[i]? = some false →
      ∃ w' : Worker, s'.workers[k]? = some w' ∧ w'.events[i]? = some false := by
  have hsound := run.stable (P := fun s => WorkersSound s.workers) (workersSound_fresh n)
    fun _ _ _ hP hstep => hP.step hstep
  refine ⟨?_, ?_, ?_⟩
  · intro k l v w hv hw _ _ hvlock hwlock
    obtain ⟨c, hc⟩ := Option.isSome_iff_exists.mp hvlock.1
    have hwc : w.conn = some c := by rw [← hwlock.2, hvlock.2, hc]
    exact hsound.apart c k l v w hv hw (decide_eq_true hc) (decide_eq_true hwc)
  · intro k w reply s' hk hsignals hlost hstep
    exact lockHolder_clears hsound hk hsignals hlost hstep
  · intro tr' s' run' k i w hk hi
    exact run'.stable (P := fun s => ∃ w : Worker, s.workers[k]? = some w ∧
      w.events[i]? = some false) ⟨w, hk, hi⟩
      fun _ _ _ hP hstep => by
        obtain ⟨v, hv, hvi⟩ := hP
        exact cleared_step hv hvi hstep

end Workers

/-- A session that ends unnoticed: the other worker leads at once, and the first one stops at
its next check. -/
theorem one_collector_leader_two : ∃ tr s, Steps (Takes Cluster.step) (.fresh 2) tr s ∧
    (∃ v w, s.workers[0]? = some v ∧ s.workers[1]? = some w ∧ v.Signals ∧ w.Signals ∧
      ¬ s.HoldsLock v ∧ s.HoldsLock w) ∧
    ∀ s', s.step (.lockHolder 0 .answered) = some s' →
      ∃ v, s'.workers[0]? = some v ∧ ¬ v.Signals := by
  obtain ⟨s, run, -, hp⟩ := exists_play Cluster.step (.fresh 2)
    [.connect 0 (some 5), .connect 1 (some 6), .tryAcquire 0 .answered, .tryAcquire 1 .answered,
      .readConnectionId 0 true, .startReturns 0 true, .sessionEnds 5, .tryAcquire 1 .answered,
      .readConnectionId 1 true]
    (fun (s : Cluster) => s.workers[0]?.any (fun v : Worker => v.Signals ∧ v.conn = some 5) &&
      (s.workers[1]?.any (fun w : Worker => w.Signals ∧ w.conn = some 6) &&
        decide (s.holder = some 6))) (by decide)
  obtain ⟨hfirst, hrest⟩ := Bool.and_eq_true_iff.mp hp
  obtain ⟨hsecond, hholder⟩ := Bool.and_eq_true_iff.mp hrest
  obtain ⟨v, hv, hvp⟩ := (Option.any_eq_true _ _).mp hfirst
  obtain ⟨w, hw, hwp⟩ := (Option.any_eq_true _ _).mp hsecond
  obtain ⟨hvs, hvc⟩ := of_decide_eq_true hvp
  obtain ⟨hws, hwc⟩ := of_decide_eq_true hwp
  have hsix := of_decide_eq_true hholder
  have hlost : ¬ s.HoldsLock v := by
    rintro ⟨-, hsame⟩
    rw [hsix, hvc] at hsame
    cases hsame
  refine ⟨_, s, run, ⟨v, w, hv, hw, hvs, hws, hlost, ?_, ?_⟩, fun s' hstep => ?_⟩
  · rw [hwc]
    rfl
  · rw [hsix, hwc]
  · exact (one_collector_leader run).2.1 0 v .answered s' hv hvs hlost hstep

end MonitoringHub.Collector
