import MonitoringHub.Lib.ExpiringCounter
import MonitoringHub.Lib.RowTable
import MonitoringHub.Lib.StepRun

/-! The fixed-window limiter on one key. Any number of executions of
`check_rate_limit` interleave, each Redis command one step, and an execution may
die between two of them; every command answers. The lifetimes of the key are
numbered, and a call is marked with the one its INCR fell into and the one its
last command fell into; nothing in the code reads either. -/

namespace MonitoringHub.Login
open Lib Lib.RowTable Lib.Counter

/-- The two limits a caller passes. -/
structure Limit where
  maxAttempts : ℤ
  windowSeconds : ℤ

structure HTTPException where
  statusCode : ℕ
  detail : String
  headers : List (String × String)
  deriving DecidableEq, Repr

/-- What is decided once the commands have answered. -/
def Limit.verdict (limit : Limit) (count : ℕ) (ttl : ℤ) : Option HTTPException :=
  if limit.maxAttempts < count then
    let retryAfter := if 0 < ttl then ttl else limit.windowSeconds
    some ⟨429, s!"Too many attempts. Try again in {retryAfter} seconds.",
      [("Retry-After", toString retryAfter)]⟩
  else none

theorem Limit.verdict_eq_none {limit : Limit} {count : ℕ} {ttl : ℤ} :
    limit.verdict count ttl = none ↔ (count : ℤ) ≤ limit.maxAttempts := by
  rw [verdict]
  split
  · rename_i hlt
    simpa using hlt
  · rename_i hle
    simpa using hle

/-- After its INCR; after a TTL that found no deadline; after its last command. -/
inductive Stage
  | counted
  | unexpiring
  | answered (ttl : ℤ) (lifetime : Option ℕ)
  | dead
  deriving DecidableEq, Repr

structure Call where
  lifetime : ℕ
  count : ℕ
  stage : Stage
  deriving DecidableEq, Repr

namespace Call

/-- The next command is an EXPIRE. -/
def expires (call : Call) : Bool :=
  call.stage == .unexpiring || call.stage == .counted && call.count == 1

/-- The next command is a TTL. -/
def asks (call : Call) : Bool := call.stage == .counted && call.count != 1

def answered (call : Call) : Bool :=
  match call.stage with
  | .answered _ _ => true
  | _ => false

def accepted (limit : Limit) (call : Call) : Bool :=
  match call.stage with
  | .answered ttl _ => limit.verdict call.count ttl == none
  | _ => false

/-- The lifetime of the key in which the call had its answer. -/
def answeredIn (call : Call) : Option ℕ :=
  match call.stage with
  | .answered _ lifetime => lifetime
  | _ => none

/-- What the INCR of a call fixes. -/
def reply (call : Call) : ℕ × ℕ := (call.lifetime, call.count)

theorem accepted_count {limit : Limit} {call : Call} (h : call.accepted limit = true) :
    (call.count : ℤ) ≤ limit.maxAttempts := by
  unfold accepted at h
  split at h
  · exact Limit.verdict_eq_none.mp (by simpa using h)
  · cases h

end Call

/-- The key, the number of its lifetimes so far, and every call that has counted itself. -/
structure KeyState where
  now : ℤ
  key : Option Counter
  lifetimes : ℕ
  calls : List Call
  deriving DecidableEq, Repr

inductive RateAct
  | elapse (milliseconds : ℕ)
  | incr
  | expire (i : ℕ)
  | ttl (i : ℕ)
  | die (i : ℕ)

namespace KeyState

def fresh (now : ℤ) : KeyState := ⟨now, none, 0, []⟩

def lifetime (s : KeyState) : Option ℕ := s.key.map fun _ => s.lifetimes

def setStage (s : KeyState) (i : ℕ) (stage : Stage) : KeyState :=
  { s with calls := modifyAt i (fun call => { call with stage := stage }) s.calls }

def incr (s : KeyState) : KeyState :=
  let entry := Counter.incr s.key
  let lifetimes := if s.key.isNone then s.lifetimes + 1 else s.lifetimes
  { s with
    key := some entry
    lifetimes := lifetimes
    calls := s.calls ++ [⟨lifetimes, entry.count, .counted⟩] }

/-- EXPIRE: the call has its answer with the whole window left. -/
def expire (limit : Limit) (s : KeyState) (i : ℕ) : KeyState :=
  let t := { s with key := Counter.expire s.now limit.windowSeconds s.key }
  t.setStage i (.answered limit.windowSeconds t.lifetime)

/-- TTL: a key without a deadline has to be repaired first. -/
def ttl (s : KeyState) (i : ℕ) : KeyState :=
  let seconds := Counter.ttl s.now s.key
  s.setStage i (if seconds = -1 then .unexpiring else .answered seconds s.lifetime)

def step (limit : Limit) (s : KeyState) : RateAct → Option KeyState
  | .elapse milliseconds =>
    let now := s.now + milliseconds
    some { s with now := now, key := settle now s.key }
  | .incr => some s.incr
  | .expire i => (s.calls[i]?).bind fun call => if call.expires then s.expire limit i else none
  | .ttl i => (s.calls[i]?).bind fun call => if call.asks then s.ttl i else none
  | .die i => (s.calls[i]?).bind fun call =>
      if call.expires || call.asks then s.setStage i .dead else none

end KeyState

/-- What one step can do. -/
inductive RateStep (limit : Limit) (s : KeyState) : RateAct → KeyState → Prop
  | elapse (milliseconds : ℕ) : RateStep limit s (.elapse milliseconds)
      { s with
        now := s.now + milliseconds
        key := settle (s.now + milliseconds) s.key }
  | incr : RateStep limit s .incr s.incr
  | expire {i : ℕ} {call : Call} (hcall : s.calls[i]? = some call) (hexp : call.expires = true) :
      RateStep limit s (.expire i) (s.expire limit i)
  | ttl {i : ℕ} {call : Call} (hcall : s.calls[i]? = some call) (hasks : call.asks = true) :
      RateStep limit s (.ttl i) (s.ttl i)
  | die {i : ℕ} : RateStep limit s (.die i) (s.setStage i .dead)

theorem rateStep_of_step {limit : Limit} {s t : KeyState} {a : RateAct}
    (h : s.step limit a = some t) : RateStep limit s a t := by
  cases a with
  | elapse milliseconds =>
    obtain rfl := Option.some.inj h
    exact .elapse milliseconds
  | incr =>
    obtain rfl := Option.some.inj h
    exact .incr
  | expire i =>
    obtain ⟨call, hcall, h⟩ := Option.bind_eq_some_iff.mp h
    obtain ⟨hexp, h⟩ := Option.ite_none_right_eq_some.mp h
    obtain rfl := Option.some.inj h
    exact .expire hcall hexp
  | ttl i =>
    obtain ⟨call, hcall, h⟩ := Option.bind_eq_some_iff.mp h
    obtain ⟨hasks, h⟩ := Option.ite_none_right_eq_some.mp h
    obtain rfl := Option.some.inj h
    exact .ttl hcall hasks
  | die i =>
    obtain ⟨call, -, h⟩ := Option.bind_eq_some_iff.mp h
    obtain ⟨-, h⟩ := Option.ite_none_right_eq_some.mp h
    obtain rfl := Option.some.inj h
    exact .die

namespace KeyState

theorem setStage_replies (s : KeyState) (i : ℕ) (stage : Stage) :
    (s.setStage i stage).calls.map Call.reply = s.calls.map Call.reply := by
  refine List.ext_getElem? fun j => ?_
  simp only [setStage, List.getElem?_map, modifyAt_getElem?]
  split
  · cases s.calls[j]? <;> rfl
  · rfl

theorem incr_found (s : KeyState) : s.incr.calls[s.calls.length]? =
    some ⟨s.incr.lifetimes, (Counter.incr s.key).count, .counted⟩ := by
  simp [incr]

theorem setStage_found {s : KeyState} {i : ℕ} {call : Call} (h : s.calls[i]? = some call)
    (stage : Stage) : (s.setStage i stage).calls[i]? = some { call with stage := stage } := by
  rw [setStage, modifyAt_found h, if_pos rfl]

theorem incr_replies (s : KeyState) : s.incr.calls.map Call.reply =
    s.calls.map Call.reply ++ [(s.incr.lifetimes, (Counter.incr s.key).count)] := by
  simp [incr, Call.reply]

end KeyState

/-- The replies of one lifetime are different, and none exceeds the counter of a key that
still is in it. -/
structure Replies (s : KeyState) : Prop where
  distinct : (s.calls.map Call.reply).Nodup
  positive : ∀ r ∈ s.calls.map Call.reply, 1 ≤ r.2
  begun : ∀ r ∈ s.calls.map Call.reply, r.1 ≤ s.lifetimes
  counted : ∀ c, s.key = some c → ∀ r ∈ s.calls.map Call.reply, r.1 = s.lifetimes → r.2 ≤ c.count

namespace Replies
variable {s t : KeyState}

/-- What leaves the replies alone and raises no deadline from a key that was gone. -/
theorem frame (h : Replies s) (hreplies : t.calls.map Call.reply = s.calls.map Call.reply)
    (hlife : t.lifetimes = s.lifetimes)
    (hkey : ∀ c, t.key = some c → ∃ c', s.key = some c' ∧ c'.count = c.count) : Replies t := by
  refine ⟨?_, ?_, ?_, ?_⟩
  · rw [hreplies]
    exact h.distinct
  · rw [hreplies]
    exact h.positive
  · rw [hreplies, hlife]
    exact h.begun
  · intro c hc
    obtain ⟨c', hc', hcount⟩ := hkey c hc
    rw [hreplies, hlife, ← hcount]
    exact h.counted c' hc'

theorem setStage (h : Replies s) (i : ℕ) (stage : Stage) : Replies (s.setStage i stage) :=
  h.frame (s.setStage_replies i stage) rfl fun c hc => ⟨c, hc, rfl⟩

theorem incr (h : Replies s) : Replies s.incr := by
  -- A missing key opens a lifetime no reply is from; a present one counts past every reply.
  have hnew : ∀ r ∈ s.calls.map Call.reply,
      r.1 < s.incr.lifetimes ∨ r.1 = s.incr.lifetimes ∧ r.2 < (Counter.incr s.key).count := by
    intro r hr
    have hbegun := h.begun r hr
    cases hkey : s.key with
    | none =>
      left
      simpa [KeyState.incr, hkey] using Nat.lt_succ_of_le hbegun
    | some c =>
      have hcounted := h.counted c hkey r hr
      simp only [KeyState.incr, hkey, Option.isNone_some, Bool.false_eq_true, if_false,
        Counter.incr]
      omega
  refine ⟨?_, ?_, ?_, ?_⟩
  · rw [KeyState.incr_replies]
    refine List.nodup_append.mpr ⟨h.distinct, List.nodup_singleton _, ?_⟩
    rintro r hr r' hr' rfl
    obtain rfl := List.mem_singleton.mp hr'
    rcases hnew _ hr with hlt | ⟨-, hlt⟩ <;> omega
  · intro r hr
    rw [KeyState.incr_replies, List.mem_append, List.mem_singleton] at hr
    rcases hr with hr | rfl
    · exact h.positive r hr
    · cases hkey : s.key <;> simp [Counter.incr]
  · intro r hr
    rw [KeyState.incr_replies, List.mem_append, List.mem_singleton] at hr
    rcases hr with hr | rfl
    · rcases hnew r hr with hlt | ⟨heq, -⟩
      · exact hlt.le
      · exact heq.le
    · exact Nat.le_refl _
  · intro c hc r hr hlife
    obtain rfl := Option.some.inj hc
    rw [KeyState.incr_replies, List.mem_append, List.mem_singleton] at hr
    rcases hr with hr | rfl
    · rcases hnew r hr with hlt | ⟨-, hlt⟩
      · omega
      · exact hlt.le
    · exact Nat.le_refl _

theorem step {limit : Limit} {a : RateAct} (h : Replies s) (hstep : RateStep limit s a t) :
    Replies t := by
  cases hstep with
  | elapse milliseconds =>
    exact h.frame rfl rfl fun c hc => ⟨c, settle_some hc, rfl⟩
  | incr => exact h.incr
  | expire hcall hexp =>
    refine h.frame (s.setStage_replies _ _) rfl fun c hc => ?_
    obtain ⟨old, hold, rfl⟩ := expire_some hc
    exact ⟨old, hold, rfl⟩
  | ttl hcall hasks => exact h.setStage _ _
  | die => exact h.setStage _ _

end Replies

/-- No deadline lies further ahead than a window. -/
def WithinWindow (limit : Limit) (s : KeyState) : Prop :=
  EndsBy (s.now + 1000 * limit.windowSeconds) s.key

theorem WithinWindow.step {limit : Limit} {s t : KeyState} {a : RateAct}
    (h : WithinWindow limit s) (hstep : RateStep limit s a t) : WithinWindow limit t := by
  intro c d hc hd
  cases hstep with
  | elapse milliseconds =>
    have := h c d (settle_some hc) hd
    dsimp only
    omega
  | incr =>
    obtain rfl := Option.some.inj hc
    cases hkey : s.key with
    | none => simp [hkey, Counter.incr] at hd
    | some old => exact h old d hkey (by simpa [hkey, Counter.incr] using hd)
  | expire hcall hexp =>
    obtain ⟨old, -, rfl⟩ := expire_some hc
    obtain rfl := Option.some.inj hd
    exact le_rfl
  | ttl hcall hasks => exact h c d hc hd
  | die => exact h c d hc hd

/-- A call that has had its last command leaves a key that will end, if it leaves one. -/
theorem hasDeadline_of_answered {limit : Limit} {s t : KeyState} {a : RateAct} {i : ℕ} {call : Call}
    (hstep : RateStep limit s a t) (ha : a = .expire i ∨ a = .ttl i)
    (hcall : t.calls[i]? = some call) (hans : call.answered = true) : HasDeadline t.key := by
  intro c hc
  cases hstep with
  | elapse => simp at ha
  | incr => simp at ha
  | die => simp at ha
  | expire hfound hexp =>
    obtain ⟨old, -, rfl⟩ := expire_some hc
    rfl
  | @ttl j found hfound hasks =>
    obtain rfl : j = i := by simpa using ha
    by_contra hnone
    have hseconds : Counter.ttl s.now s.key = -1 :=
      ttl_eq_neg_one.mpr ⟨c, hc, by simpa using hnone⟩
    simp only [KeyState.ttl, hseconds, if_true, KeyState.setStage,
      modifyAt_getElem?, hfound, Option.map_some, Option.some.injEq] at hcall
    simp [← hcall, Call.answered] at hans

section Runs
variable {limit : Limit} {now : ℤ} {s t : KeyState} {tr : List RateAct}

theorem replies_run (run : Steps (Takes (KeyState.step limit)) (.fresh now) tr s) : Replies s :=
  run.stable ⟨List.nodup_nil, by simp [KeyState.fresh], by simp [KeyState.fresh],
    by simp [KeyState.fresh]⟩ fun _ _ _ h hstep => h.step (rateStep_of_step hstep)

theorem withinWindow_run (run : Steps (Takes (KeyState.step limit)) (.fresh now) tr s) :
    WithinWindow limit s :=
  run.stable (by simp [WithinWindow, EndsBy, KeyState.fresh])
    fun _ _ _ h hstep => h.step (rateStep_of_step hstep)

theorem accepted_le (run : Steps (Takes (KeyState.step limit)) (.fresh now) tr s) (n : ℕ) :
    (s.calls.filter fun call => call.lifetime = n ∧ call.accepted limit).length ≤
      limit.maxAttempts.toNat := by
  have h := replies_run run
  set calls := s.calls.filter fun call => call.lifetime = n ∧ call.accepted limit with hcalls
  have hmem : ∀ call ∈ calls, call ∈ s.calls ∧ call.lifetime = n ∧ call.accepted limit = true := by
    intro call hcall
    simpa [hcalls] using hcall
  -- Within one lifetime the replies differ in their counts.
  have hdistinct : (calls.map Call.count).Nodup := by
    have hpairs : (calls.map Call.reply).Nodup :=
      h.distinct.sublist (List.filter_sublist.map Call.reply)
    rw [List.nodup_map_iff_inj_on hpairs.of_map]
    intro x hx y hy hxy
    refine List.inj_on_of_nodup_map hpairs hx hy (Prod.ext ?_ hxy)
    exact (hmem x hx).2.1.trans (hmem y hy).2.1.symm
  rw [← List.length_map (f := Call.count)]
  refine replies_le hdistinct fun r hr => ?_
  obtain ⟨call, hcall, rfl⟩ := List.mem_map.mp hr
  obtain ⟨hin, -, hacc⟩ := hmem call hcall
  have hle := Call.accepted_count hacc
  exact ⟨h.positive _ (List.mem_map_of_mem hin), by omega⟩

/-- The limiter neither leaks nor sticks. Of the calls counted in one lifetime of the key no more
than the limit are accepted; a call that has had its last command leaves no key, or one that is
gone a window later. -/
theorem rate_limiter (run : Steps (Takes (KeyState.step limit)) (.fresh now) tr s) :
    (∀ n, (s.calls.filter fun call => call.lifetime = n ∧ call.accepted limit).length ≤
      limit.maxAttempts.toNat) ∧
    ∀ (a : RateAct) (i : ℕ) (t : KeyState) (call : Call), (a = .expire i ∨ a = .ttl i) →
      s.step limit a = some t → t.calls[i]? = some call → call.answered = true →
      HasDeadline t.key ∧
      ∀ (milliseconds : ℕ) (u : KeyState), 1000 * limit.windowSeconds < milliseconds →
        t.step limit (.elapse milliseconds) = some u → u.key = none := by
  refine ⟨accepted_le run, fun a i t call ha hstep hcall hans => ?_⟩
  have hdeadline := hasDeadline_of_answered (rateStep_of_step hstep) ha hcall hans
  refine ⟨hdeadline, fun milliseconds u hlong hu => ?_⟩
  obtain rfl := Option.some.inj hu
  exact hdeadline.settle (withinWindow_run (run.snoc hstep)) (by omega)

end Runs

/-- The same bound for the calls that have their answer while the key is in one lifetime. -/
def AnswersBounded (limit : Limit) : Prop :=
  ∀ (now : ℤ) (tr : List RateAct) (s : KeyState),
    Steps (Takes (KeyState.step limit)) (.fresh now) tr s →
    ∀ n, (s.calls.filter fun call => call.answeredIn = some n ∧ call.accepted limit).length ≤
      limit.maxAttempts.toNat

/-- The first call counts itself and waits; the second repairs the deadline, and the key ends.
The third opens a lifetime, in which the first is answered too. -/
def lateAnswer : List RateAct :=
  [.incr, .incr, .ttl 1, .expire 1, .elapse 1001, .incr, .expire 2, .expire 0, .elapse 1001]

theorem answers_unbounded : ¬ ∀ limit, AnswersBounded limit := by
  intro h
  obtain ⟨s, run, -, hp⟩ := exists_play (KeyState.step ⟨1, 1⟩) (.fresh 0) lateAnswer
    (fun s => decide (1 < (s.calls.filter fun call =>
      call.answeredIn = some 2 ∧ call.accepted ⟨1, 1⟩).length)) (by decide +kernel)
  have hbound := h ⟨1, 1⟩ 0 _ s run 2
  have hmore := of_decide_eq_true hp
  exact absurd hbound (by simpa using hmore)

/-- One of the two calls of a lifetime is accepted, and the key it leaves ends. -/
theorem rate_limiter_two : ∃ s : KeyState, s.calls.length = 2 ∧
    (s.calls.filter fun call => call.lifetime = 1 ∧ call.accepted ⟨1, 60⟩).length ≤ 1 ∧
    ∃ t : KeyState, s.step ⟨1, 60⟩ (.ttl 1) = some t ∧ HasDeadline t.key := by
  obtain ⟨s, t, run, hstep, hp⟩ := exists_play_last (KeyState.step ⟨1, 60⟩) (.fresh 0)
    [.incr, .expire 0, .incr] (.ttl 1)
    (fun s t => s.calls.length = 2 ∧ ((t.calls[1]?).any Call.answered)) (by decide +kernel)
  obtain ⟨hlen, hans⟩ := of_decide_eq_true hp
  obtain ⟨call, hcall, hans⟩ := (Option.any_eq_true _ _).mp hans
  obtain ⟨hcount, hrest⟩ := rate_limiter run
  exact ⟨s, hlen, hcount 1, t, hstep, (hrest _ 1 t call (.inr rfl) hstep hcall hans).1⟩

end MonitoringHub.Login
