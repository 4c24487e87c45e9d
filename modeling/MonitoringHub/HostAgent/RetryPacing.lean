import MonitoringHub.Environments.EnvTiers
import MonitoringHub.Lib.StepRun
import MonitoringHub.Lib.Trim

/-! How the agent spaces its requests: the Retry-After header of an answer, the exponential
back-off with jitter, and the main loop, in which a time stamp and a timer hold the next
request back. Times are nanoseconds of the monotonic clock. -/

namespace MonitoringHub.HostAgent
open Lib

/-- `time.Second` -/
def second : ℕ := 1000000000

def maxRetryAfter : ℕ := 3600 * second

/-- `unicode.IsSpace` -/
def goSpace (c : Char) : Bool := Environments.isSpace c && !(28 ≤ c.toNat && c.toNat ≤ 31)

/-- The number a text of digits writes. -/
def digitsValue (s : List Char) : Option ℕ :=
  if s.isEmpty || !s.all Char.isDigit then none
  else some (s.foldl (fun v c => 10 * v + (c.toNat - '0'.toNat)) 0)

/-- `strconv.Atoi`, into 64 bits. -/
def atoi (s : List Char) : Option ℤ :=
  let value : Option ℤ := match s with
    | '-' :: digits => (digitsValue digits).map fun n => -Int.ofNat n
    | '+' :: digits => (digitsValue digits).map Int.ofNat
    | digits => (digitsValue digits).map Int.ofNat
  value.bind fun n => if -9223372036854775808 ≤ n ∧ n ≤ 9223372036854775807 then some n else none

/-- `ParseRetryAfter`; the product is one of 64-bit durations. -/
def parseRetryAfter (parseTime : List Char → Option ℤ) (v : List Char) (now : ℤ) : ℕ :=
  let v := trim goSpace v
  if v = [] then 0
  else
    let d : ℤ := match atoi v with
      | some n => (n * second).bmod (2 ^ 64)
      | none => ((parseTime v).map fun t => t - now).getD 0
    if d < 0 then 0 else if maxRetryAfter < d then maxRetryAfter else d.toNat

/-- `time.Duration(Rand() * float64(x))`: some whole number up to `x`. -/
abbrev Draw := { f : ℕ → ℕ // ∀ x, f x ≤ x }

structure Backoff where
  base : ℕ
  max : ℕ
  n : ℕ
  ordered : base ≤ max

/-- `NewBackoff` -/
def newBackoff : Backoff := ⟨2 * second, 300 * second, 0, by decide⟩

/-- The delay doubles once a failure, until it reaches the maximum. -/
def doubled (max : ℕ) : ℕ → ℕ → ℕ
  | 0, d => d
  | n + 1, d => if d < max then doubled max n (d * 2) else d

namespace Backoff

def next (draw draw' : Draw) (retryAfter : ℕ) (b : Backoff) : ℕ × Backoff :=
  let d := doubled b.max b.n b.base
  let d := if b.max < d then b.max else d
  let delay := d / 2 + draw.1 (d / 2)
  let delay := if delay < retryAfter then retryAfter + draw'.1 (retryAfter / 10) else delay
  (delay, { b with n := if b.n < 30 then b.n + 1 else b.n })

def reset (b : Backoff) : Backoff := { b with n := 0 }

end Backoff

/-- What an attempt comes to. -/
inductive Answer
  | sent
  | dropped
  | unauthorized
  | retry (retryAfter : List Char)
  deriving DecidableEq, Repr

inductive LoopEvent
  | request (time : ℕ)
  | answer (time : ℕ) (a : Answer)
  deriving DecidableEq, Repr

inductive RetryTimer
  | stopped
  | armed (due : ℕ)
  | fired
  deriving DecidableEq, Repr

/-- Where the loop is: between two cases of its `select`, before a payload of a tick, in the
request of one, before an entry of a drain, in the request of one, or out of it. -/
inductive Pc
  | idle
  | tick (left : ℕ)
  | direct (left : ℕ)
  | drain (left start n : ℕ)
  | replay (left start n : ℕ)
  | out
  deriving DecidableEq, Repr

structure Runner where
  clock : ℕ
  pc : Pc
  retryAt : Option ℕ
  timer : RetryTimer
  backoff : Backoff
  queued : ℕ
  log : List LoopEvent
  delays : List ℕ

/-- `now` and `later` are readings of the clock, `queued` the length of the queue afterwards. -/
inductive RunnerAct
  | tick (now payloads : ℕ)
  | expire (now : ℕ)
  | retry (now : ℕ)
  | submit (now later queued : ℕ)
  | peek (now queued : ℕ)
  | answer (now later : ℕ) (a : Answer) (wall : ℤ) (draw draw' : Draw) (queued : ℕ)

def drainMaxEntries : ℕ := 500
def drainMaxTime : ℕ := 20 * second

def Pc.resume (left : ℕ) : Pc := if left = 0 then .idle else .tick left

namespace Runner
variable (parseTime : List Char → Option ℤ)

def start (clock queued : ℕ) : Runner :=
  ⟨clock, .idle, none, .stopped, newBackoff, queued, [], []⟩

def backingOff (s : Runner) (now : ℕ) : Bool := s.retryAt.any fun at_ => now < at_

/-- The timer is stopped, a fire that nobody has read is drained, and it is set anew. -/
def setRetry (s : Runner) (now d : ℕ) : Runner :=
  { s with
    retryAt := some (now + d)
    timer := .armed (now + d) }

def onSuccess (s : Runner) : Runner :=
  { s with
    backoff := s.backoff.reset
    retryAt := none
    timer := .stopped }

/-- The end of `attempt` for a failure that may pass. -/
def failed (s : Runner) (later : ℕ) (retryAfter : List Char) (wall : ℤ) (draw draw' : Draw) :
    Runner :=
  let next := s.backoff.next draw draw' (parseRetryAfter parseTime retryAfter wall)
  { s with
    backoff := next.2
    delays := next.1 :: s.delays }.setRetry later next.1

/-- A payload of the queue is done with: `drain` goes on, or pauses if it has taken long. -/
def drained (s : Runner) (later left start n : ℕ) : Runner :=
  if drainMaxEntries ≤ n ∨ drainMaxTime < later - start then
    { (if 0 < s.queued then s.setRetry later (second / 2) else s) with pc := .resume left }
  else { s with pc := .drain left start n }

/-- What follows the answer to a request of `submit`. -/
def settleDirect (s : Runner) (later left : ℕ) (a : Answer) (wall : ℤ) (draw draw' : Draw)
    (queued : ℕ) : Runner :=
  match a with
  | .sent => { s.onSuccess with pc := .resume left }
  | .dropped => { s with pc := .resume left }
  | .unauthorized => { s with pc := .out }
  | .retry retryAfter =>
    { s.failed parseTime later retryAfter wall draw draw' with
      pc := .resume left
      queued := queued }

/-- What follows the answer to a request of `drain`. -/
def settleReplay (s : Runner) (later left start n : ℕ) (a : Answer) (wall : ℤ)
    (draw draw' : Draw) (queued : ℕ) : Runner :=
  match a with
  | .sent => { s.onSuccess with queued := queued }.drained later left start (n + 1)
  | .dropped => { s with queued := queued }.drained later left start (n + 1)
  | .unauthorized => { s with pc := .out }
  | .retry retryAfter =>
    { s.failed parseTime later retryAfter wall draw draw' with pc := .resume left }

def step (s : Runner) : RunnerAct → Option Runner
  | .tick now payloads =>
    if s.pc = .idle ∧ s.clock ≤ now then some { s with clock := now, pc := .resume payloads }
    else none
  | .expire now =>
    match s.timer with
    | .armed due =>
      if due ≤ now ∧ s.clock ≤ now then some { s with clock := now, timer := .fired } else none
    | _ => none
  | .retry now =>
    if s.pc = .idle ∧ s.timer = .fired ∧ s.clock ≤ now then
      some { s with
        clock := now
        retryAt := none
        timer := .stopped
        pc := if s.queued = 0 then .idle else .drain 0 now 0 }
    else none
  | .submit now later queued =>
    match s.pc with
    | .tick (left + 1) =>
      if s.clock ≤ now ∧ now ≤ later ∧ queued ≤ s.queued + 1 then
        if s.queued = 0 ∧ s.backingOff now = false then
          some { s with clock := later, pc := .direct left, log := .request later :: s.log }
        else
          let t := { s with clock := later, queued := queued }
          if t.backingOff later then some { t with pc := .resume left }
          else some { t with pc := .drain left later 0 }
      else none
    | _ => none
  | .peek now queued =>
    match s.pc with
    | .drain left start n =>
      if s.clock ≤ now ∧ queued ≤ s.queued then
        let t := { s with clock := now, queued := queued }
        if queued = 0 then some { t with pc := .resume left }
        else some { t with pc := .replay left start n, log := .request now :: s.log }
      else none
    | _ => none
  | .answer now later a wall draw draw' queued =>
    if s.clock ≤ now ∧ now ≤ later ∧ queued ≤ s.queued + 1 then
      let t := { s with clock := later, log := .answer now a :: s.log }
      match s.pc with
      | .direct left => some (t.settleDirect parseTime later left a wall draw draw' queued)
      | .replay left start n =>
        some (t.settleReplay parseTime later left start n a wall draw draw' queued)
      | _ => none
    else none

end Runner

/-! What the header and the back-off come to. -/

/-- The longest Retry-After that fits a duration, in seconds. -/
def maxDeltaSeconds : ℕ := 9223372036

/-- How long a Retry-After of `n` seconds holds the next request back. -/
def holdFor (n : ℕ) : ℕ := min n 3600 * second

theorem digits_of_value {v : List Char} {n : ℕ} (h : digitsValue v = some n) :
    v ≠ [] ∧ ∀ c ∈ v, c.isDigit = true := by
  unfold digitsValue at h
  split at h
  · cases h
  · rename_i hdigits
    simpa using hdigits

theorem atoi_digits {v : List Char} {n : ℕ} (h : digitsValue v = some n)
    (hn : n ≤ 9223372036854775807) : atoi v = some (n : ℤ) := by
  obtain ⟨hne, hdigits⟩ := digits_of_value h
  obtain ⟨c, rest, rfl⟩ := List.exists_cons_of_ne_nil hne
  have hc := hdigits c List.mem_cons_self
  have hminus : c ≠ '-' := by
    rintro rfl
    exact absurd hc (by decide)
  have hplus : c ≠ '+' := by
    rintro rfl
    exact absurd hc (by decide)
  have hbounds : -9223372036854775808 ≤ (n : ℤ) ∧ (n : ℤ) ≤ 9223372036854775807 := by omega
  unfold atoi
  split
  · rename_i heq
    exact absurd (List.cons.inj heq).1 hminus
  · rename_i heq
    exact absurd (List.cons.inj heq).1 hplus
  · simp only [h, Option.map_some, Option.bind_some, Int.ofNat_eq_natCast, hbounds, and_self,
      if_true]

theorem goSpace_digit {c : Char} (h : c.isDigit = true) : goSpace c = false := by
  have hall : Environments.spaces.all (fun c => !c.isDigit) = true := by decide
  have hspace : Environments.isSpace c = false := by
    refine Bool.eq_false_iff.mpr fun hs => ?_
    have hnot := List.all_eq_true.mp hall c (List.contains_iff_mem.mp hs)
    simp [h] at hnot
  rw [goSpace, hspace, Bool.false_and]

/-- A delta-seconds that fits a duration is taken at its value, up to the hour. -/
theorem parse_deltaSeconds {v : List Char} {n : ℕ} (h : digitsValue v = some n)
    (hn : n ≤ maxDeltaSeconds) (parseTime : List Char → Option ℤ) (now : ℤ) :
    parseRetryAfter parseTime v now = holdFor n := by
  obtain ⟨hne, hdigits⟩ := digits_of_value h
  have hends : trim goSpace v = v := trim_of_ends
    (fun c hc => goSpace_digit (hdigits c (List.mem_of_mem_head? hc)))
    fun c hc => goSpace_digit (hdigits c (List.mem_of_mem_getLast? hc))
  have hfits : ((n : ℤ) * second).bmod (2 ^ 64) = n * second := by
    refine Int.bmod_eq_of_le ?_ ?_ <;> simp only [second, maxDeltaSeconds] at * <;> omega
  have hsmall : n ≤ 9223372036854775807 := by
    simp only [maxDeltaSeconds] at hn
    omega
  rw [parseRetryAfter, hends, if_neg hne, atoi_digits h hsmall]
  dsimp only
  rw [hfits, holdFor, maxRetryAfter, second]
  split_ifs with hneg hlong
  · omega
  · omega
  · omega

theorem parse_le (parseTime : List Char → Option ℤ) (v : List Char) (now : ℤ) :
    parseRetryAfter parseTime v now ≤ maxRetryAfter := by
  unfold parseRetryAfter
  dsimp only
  split_ifs <;> omega

theorem le_doubled (max n d : ℕ) : d ≤ doubled max n d := by
  induction n generalizing d with
  | zero => exact Nat.le_refl _
  | succ n ih =>
    rw [doubled]
    split
    · exact Nat.le_trans (by omega) (ih (d * 2))
    · exact Nat.le_refl _

/-- What one failure makes of the back-off: a delay that respects the hint, within bounds. -/
theorem Backoff.next_spec (b : Backoff) (draw draw' : Draw) (retryAfter : ℕ) :
    retryAfter ≤ (b.next draw draw' retryAfter).1 ∧
      b.base / 2 ≤ (b.next draw draw' retryAfter).1 ∧
      10 * (b.next draw draw' retryAfter).1 ≤ 11 * Max.max retryAfter b.max ∧
      (b.next draw draw' retryAfter).2.base = b.base ∧
      (b.next draw draw' retryAfter).2.max = b.max := by
  have hgrown := le_doubled b.max b.n b.base
  have hord := b.ordered
  unfold next
  generalize doubled b.max b.n b.base = grown at hgrown
  dsimp only
  generalize hd : (if b.max < grown then b.max else grown) = d
  have hrange : b.base ≤ d ∧ d ≤ b.max := by
    rw [← hd]
    split <;> omega
  have hdraw := draw.2 (d / 2)
  have hdraw' := draw'.2 (retryAfter / 10)
  refine ⟨?_, ?_, ?_, rfl, rfl⟩
  · split <;> omega
  · split <;> omega
  · split <;> omega

namespace Runner
variable {parseTime : List Char → Option ℤ} {s t : Runner} {a : RunnerAct} {u : ℕ}

/-- The loop is between two requests, where only the time stamp and the timer hold it back. -/
def Between (s : Runner) : Prop := s.pc = .idle ∨ ∃ left, s.pc = .tick left

/-- No request leaves before `u`. -/
def Waits (s : Runner) (u : ℕ) : Prop :=
  u ≤ s.clock ∨ s.Between ∧ (∃ r ∈ s.retryAt, u ≤ r) ∧ ∃ due, s.timer = .armed due ∧ u ≤ due

/-- What one step can do. -/
inductive Moves (parseTime : List Char → Option ℤ) (s : Runner) : RunnerAct → Runner → Prop
  | tick {now payloads : ℕ} (hnow : s.clock ≤ now) (hpc : s.pc = .idle) :
      Moves parseTime s (.tick now payloads) { s with clock := now, pc := .resume payloads }
  | expire {now due : ℕ} (hnow : s.clock ≤ now) (htimer : s.timer = .armed due) (hdue : due ≤ now) :
      Moves parseTime s (.expire now) { s with clock := now, timer := .fired }
  | retry {now : ℕ} (hnow : s.clock ≤ now) (hpc : s.pc = .idle) (htimer : s.timer = .fired) :
      Moves parseTime s (.retry now)
        { s with
          clock := now
          retryAt := none
          timer := .stopped
          pc := if s.queued = 0 then .idle else .drain 0 now 0 }
  | send {now later queued left : ℕ} (hnow : s.clock ≤ now) (hlater : now ≤ later)
      (hpc : s.pc = .tick (left + 1)) (hfree : s.backingOff now = false) :
      Moves parseTime s (.submit now later queued)
        { s with clock := later, pc := .direct left, log := .request later :: s.log }
  | enqueue {now later queued left : ℕ} (hnow : s.clock ≤ now) (hlater : now ≤ later)
      (hpc : s.pc = .tick (left + 1)) :
      Moves parseTime s (.submit now later queued)
        { s with clock := later, queued := queued, pc := .resume left }
  | drain {now later queued left : ℕ} (hnow : s.clock ≤ now) (hlater : now ≤ later)
      (hpc : s.pc = .tick (left + 1)) (hfree : s.backingOff later = false) :
      Moves parseTime s (.submit now later queued)
        { s with clock := later, queued := queued, pc := .drain left later 0 }
  | empty {now queued left start n : ℕ} (hnow : s.clock ≤ now) (hpc : s.pc = .drain left start n) :
      Moves parseTime s (.peek now queued)
        { s with clock := now, queued := queued, pc := .resume left }
  | replay {now queued left start n : ℕ} (hnow : s.clock ≤ now) (hpc : s.pc = .drain left start n) :
      Moves parseTime s (.peek now queued)
        { s with
          clock := now
          queued := queued
          pc := .replay left start n
          log := .request now :: s.log }
  | direct {now later left queued : ℕ} {a : Answer} {wall : ℤ} {draw draw' : Draw}
      (hnow : s.clock ≤ now) (hlater : now ≤ later) (hpc : s.pc = .direct left) :
      Moves parseTime s (.answer now later a wall draw draw' queued)
        ({ s with clock := later, log := .answer now a :: s.log }.settleDirect parseTime later left
          a wall draw draw' queued)
  | settle {now later left start n queued : ℕ} {a : Answer} {wall : ℤ} {draw draw' : Draw}
      (hnow : s.clock ≤ now) (hlater : now ≤ later) (hpc : s.pc = .replay left start n) :
      Moves parseTime s (.answer now later a wall draw draw' queued)
        ({ s with clock := later, log := .answer now a :: s.log }.settleReplay parseTime later left
          start n a wall draw draw' queued)

theorem moves_of_step (h : s.step parseTime a = some t) : Moves parseTime s a t := by
  cases a with
  | tick now payloads =>
    obtain ⟨⟨hpc, hnow⟩, h⟩ := Option.ite_none_right_eq_some.mp h
    exact Option.some.inj h ▸ .tick hnow hpc
  | expire now =>
    simp only [step] at h
    split at h
    · rename_i due htimer
      obtain ⟨⟨hdue, hnow⟩, h⟩ := Option.ite_none_right_eq_some.mp h
      exact Option.some.inj h ▸ .expire hnow htimer hdue
    · cases h
  | retry now =>
    obtain ⟨⟨hpc, htimer, hnow⟩, h⟩ := Option.ite_none_right_eq_some.mp h
    exact Option.some.inj h ▸ .retry hnow hpc htimer
  | submit now later queued =>
    simp only [step] at h
    split at h
    · rename_i left hpc
      obtain ⟨⟨hnow, hlater, -⟩, h⟩ := Option.ite_none_right_eq_some.mp h
      split_ifs at h with hdirect hback
      · exact Option.some.inj h ▸ .send hnow hlater hpc hdirect.2
      · exact Option.some.inj h ▸ .enqueue hnow hlater hpc
      · exact Option.some.inj h ▸ .drain hnow hlater hpc (Bool.eq_false_iff.mpr hback)
    · cases h
  | peek now queued =>
    simp only [step] at h
    split at h
    · rename_i left start n hpc
      obtain ⟨⟨hnow, -⟩, h⟩ := Option.ite_none_right_eq_some.mp h
      split_ifs at h
      · exact Option.some.inj h ▸ .empty hnow hpc
      · exact Option.some.inj h ▸ .replay hnow hpc
    · cases h
  | answer now later a wall draw draw' queued =>
    obtain ⟨⟨hnow, hlater, -⟩, h⟩ := Option.ite_none_right_eq_some.mp h
    split at h
    · rename_i left hpc
      exact Option.some.inj h ▸ .direct hnow hlater hpc
    · rename_i left start n hpc
      exact Option.some.inj h ▸ .settle hnow hlater hpc
    · cases h

theorem resume_between {left : ℕ} (h : s.pc = .resume left) : s.Between := by
  unfold Pc.resume at h
  split at h
  · exact .inl h
  · exact .inr ⟨left, h⟩

theorem not_between (h : ∀ left, s.pc ≠ .tick left) (hidle : s.pc ≠ .idle) (hw : s.Waits u) :
    u ≤ s.clock := by
  rcases hw with hw | ⟨hidle' | ⟨left, htick⟩, -⟩
  · exact hw
  · exact absurd hidle' hidle
  · exact absurd htick (h left)

/-- Nothing holds a request back that does not hold back the clock. -/
theorem Waits.free {now : ℕ} (hw : s.Waits u) (hnow : s.clock ≤ now)
    (hfree : s.backingOff now = false) : u ≤ now := by
  rcases hw with hw | ⟨-, ⟨r, hr, hu⟩, -⟩
  · omega
  · rw [backingOff, Option.mem_def.mp hr, Option.any_some, decide_eq_false_iff_not] at hfree
    omega

@[simp] theorem drained_clock (s : Runner) (later left start n : ℕ) :
    (s.drained later left start n).clock = s.clock := by
  unfold drained
  split_ifs <;> rfl

@[simp] theorem drained_log (s : Runner) (later left start n : ℕ) :
    (s.drained later left start n).log = s.log := by
  unfold drained
  split_ifs <;> rfl

@[simp] theorem drained_delays (s : Runner) (later left start n : ℕ) :
    (s.drained later left start n).delays = s.delays := by
  unfold drained
  split_ifs <;> rfl

/-- What answering adds: the clock has moved on, and the answer is on record. -/
theorem settle_same (s : Runner) (later left start n queued : ℕ) (a : Answer) (wall : ℤ)
    (draw draw' : Draw) :
    ((s.settleDirect parseTime later left a wall draw draw' queued).clock = s.clock ∧
      (s.settleDirect parseTime later left a wall draw draw' queued).log = s.log) ∧
    (s.settleReplay parseTime later left start n a wall draw draw' queued).clock = s.clock ∧
      (s.settleReplay parseTime later left start n a wall draw draw' queued).log = s.log := by
  cases a with
  | sent | dropped => simp [settleDirect, settleReplay, onSuccess]
  | unauthorized => exact ⟨⟨rfl, rfl⟩, rfl, rfl⟩
  | retry retryAfter => exact ⟨⟨rfl, rfl⟩, rfl, rfl⟩

theorem Moves.clock (h : Moves parseTime s a t) : s.clock ≤ t.clock := by
  cases h with
  | tick hnow | expire hnow | retry hnow | empty hnow | replay hnow => exact hnow
  | send hnow hlater | enqueue hnow hlater | drain hnow hlater => exact Nat.le_trans hnow hlater
  | direct hnow hlater =>
    rw [(settle_same _ _ _ 0 0 _ _ _ _ _).1.1]
    exact Nat.le_trans hnow hlater
  | settle hnow hlater =>
    rw [(settle_same _ _ _ _ _ _ _ _ _ _).2.1]
    exact Nat.le_trans hnow hlater

/-- A step lets go of a hold only once it is over. -/
theorem Waits.step (h : Moves parseTime s a t) (hw : s.Waits u) : t.Waits u := by
  by_cases hu : u ≤ t.clock
  · exact .inl hu
  · have hclock := h.clock
    obtain ⟨hbetween, hretryAt, due, htimer, hdue⟩ := hw.resolve_left (by omega)
    have hpc : ∀ {pc : Pc}, s.pc = pc → (∀ left, pc ≠ .tick left) → pc ≠ .idle → False := by
      rintro pc rfl htick hidle
      exact hbetween.elim hidle fun ⟨left, h⟩ => htick left h
    cases h with
    | tick hnow hidle => exact .inr ⟨resume_between rfl, hretryAt, due, htimer, hdue⟩
    | expire hnow htimer' hdue' =>
      rw [htimer] at htimer'
      obtain rfl := RetryTimer.armed.inj htimer'
      exact absurd (Nat.le_trans hdue hdue') hu
    | retry hnow hidle htimer' =>
      rw [htimer] at htimer'
      cases htimer'
    | send hnow hlater htick hfree =>
      exact absurd (Nat.le_trans (hw.free hnow hfree) hlater) hu
    | enqueue hnow hlater htick => exact .inr ⟨resume_between rfl, hretryAt, due, htimer, hdue⟩
    | drain hnow hlater htick hfree =>
      exact absurd (hw.free (Nat.le_trans hnow hlater) hfree) hu
    | empty hnow hdrain | replay hnow hdrain =>
      exact (hpc hdrain (fun _ => Pc.noConfusion) Pc.noConfusion).elim
    | direct hnow hlater hdirect =>
      exact (hpc hdirect (fun _ => Pc.noConfusion) Pc.noConfusion).elim
    | settle hnow hlater hreplay =>
      exact (hpc hreplay (fun _ => Pc.noConfusion) Pc.noConfusion).elim

/-- The delay that a retryable answer with a hint sets covers the hint. -/
theorem failed_waits (s : Runner) {later n : ℕ} {v : List Char} (hv : digitsValue v = some n)
    (hn : n ≤ maxDeltaSeconds) (wall : ℤ) (draw draw' : Draw) {t : Runner} {left now : ℕ}
    (hnow : now ≤ later) (hpc : t.pc = .resume left)
    (hretryAt : t.retryAt = (s.failed parseTime later v wall draw draw').retryAt)
    (htimer : t.timer = (s.failed parseTime later v wall draw draw').timer) :
    t.Waits (now + holdFor n) := by
  have hspec := (s.backoff.next_spec draw draw' (parseRetryAfter parseTime v wall)).1
  rw [parse_deltaSeconds hv hn] at hspec
  refine .inr ⟨resume_between hpc, ⟨_, hretryAt, ?_⟩, _, htimer, ?_⟩ <;>
    · rw [parse_deltaSeconds hv hn]
      omega

/-- The condition on a step: a hint in seconds fits a duration. -/
def Fits : RunnerAct → Prop
  | .answer _ _ (.retry v) _ _ _ _ => ∀ n ∈ digitsValue v, n ≤ maxDeltaSeconds
  | _ => True

/-- What a step adds to the log: a request that nothing holds back, or an answer whose hint
holds the next one back. -/
theorem Moves.log (h : Moves parseTime s a t) (hfits : Fits a) : t.log = s.log ∨
    (∃ time, t.log = .request time :: s.log ∧ ∀ u, s.Waits u → u ≤ time) ∨
    ∃ time b, t.log = .answer time b :: s.log ∧
      ∀ v n, b = .retry v → digitsValue v = some n → t.Waits (time + holdFor n) := by
  cases h with
  | tick | expire | retry | enqueue | drain | empty => exact .inl rfl
  | send hnow hlater htick hfree =>
    exact .inr (.inl ⟨_, rfl, fun u hw => Nat.le_trans (hw.free hnow hfree) hlater⟩)
  | replay hnow hdrain =>
    refine .inr (.inl ⟨_, rfl, fun u hw => Nat.le_trans (not_between ?_ ?_ hw) hnow⟩)
    · exact fun _ h => by rw [hdrain] at h; cases h
    · exact fun h => by rw [hdrain] at h; cases h
  | direct hnow hlater hdirect =>
    refine .inr (.inr ⟨_, _, (settle_same _ _ _ 0 0 _ _ _ _ _).1.2, ?_⟩)
    rintro v n rfl hv
    exact failed_waits _ hv (hfits n hv) _ _ _ hlater rfl rfl rfl
  | settle hnow hlater hreplay =>
    refine .inr (.inr ⟨_, _, (settle_same _ _ _ _ _ _ _ _ _ _).2.2, ?_⟩)
    rintro v n rfl hv
    exact failed_waits _ hv (hfits n hv) _ _ _ hlater rfl rfl rfl

/-- A step may draw one delay, within the bounds of the back-off, which it leaves alone. -/
theorem Moves.delays (h : Moves parseTime s a t) :
    (t.delays = s.delays ∨ ∃ d, t.delays = d :: s.delays ∧ s.backoff.base / 2 ≤ d ∧
      10 * d ≤ 11 * Max.max maxRetryAfter s.backoff.max) ∧
    t.backoff.base = s.backoff.base ∧ t.backoff.max = s.backoff.max := by
  have hdrawn : ∀ (r : Runner) (v : List Char) (wall : ℤ) (draw draw' : Draw),
      let next := r.backoff.next draw draw' (parseRetryAfter parseTime v wall)
      (r.backoff.base / 2 ≤ next.1 ∧ 10 * next.1 ≤ 11 * Max.max maxRetryAfter r.backoff.max) ∧
        next.2.base = r.backoff.base ∧ next.2.max = r.backoff.max := by
    intro r v wall draw draw'
    have hspec := r.backoff.next_spec draw draw' (parseRetryAfter parseTime v wall)
    have hle := parse_le parseTime v wall
    exact ⟨⟨hspec.2.1, by omega⟩, hspec.2.2.2⟩
  have hpause : ∀ (r : Runner) (later left start n : ℕ),
      (r.drained later left start n).backoff = r.backoff := by
    intro r later left start n
    unfold drained
    split_ifs <;> rfl
  cases h with
  | tick | expire | retry | send | enqueue | drain | empty | replay =>
    exact ⟨.inl rfl, rfl, rfl⟩
  | @direct now later left queued b wall draw draw' =>
    cases b with
    | sent | dropped | unauthorized => exact ⟨.inl rfl, rfl, rfl⟩
    | retry v =>
      obtain ⟨hbounds, hsame⟩ := hdrawn s v wall draw draw'
      exact ⟨.inr ⟨_, rfl, hbounds⟩, hsame⟩
  | @settle now later left start n queued b wall draw draw' =>
    cases b with
    | sent | dropped =>
      rw [settleReplay, drained_delays, hpause]
      exact ⟨.inl rfl, rfl, rfl⟩
    | unauthorized => exact ⟨.inl rfl, rfl, rfl⟩
    | retry v =>
      obtain ⟨hbounds, hsame⟩ := hdrawn s v wall draw draw'
      exact ⟨.inr ⟨_, rfl, hbounds⟩, hsame⟩

end Runner

/-- A request does not come before the end of what an earlier answer asks for. -/
def LoopEvent.Apart (later earlier : LoopEvent) : Prop :=
  ∀ t' t v n, later = .request t' → earlier = .answer t (.retry v) → digitsValue v = some n →
    t + holdFor n ≤ t'

namespace Runner
variable {parseTime : List Char → Option ℤ} {s t : Runner} {a : RunnerAct}

structure Paced (s : Runner) : Prop where
  apart : s.log.Pairwise LoopEvent.Apart
  waits : ∀ time v n, .answer time (.retry v) ∈ s.log → digitsValue v = some n →
    s.Waits (time + holdFor n)
  bounded : ∀ d ∈ s.delays, newBackoff.base / 2 ≤ d ∧
    10 * d ≤ 11 * Max.max maxRetryAfter newBackoff.max
  base : s.backoff.base = newBackoff.base
  max : s.backoff.max = newBackoff.max

theorem Paced.step (hs : s.Paced) (h : Moves parseTime s a t) (hfits : Fits a) : t.Paced := by
  have hwaits : ∀ time v n, .answer time (.retry v) ∈ s.log → digitsValue v = some n →
      t.Waits (time + holdFor n) := fun time v n hmem hv => (hs.waits time v n hmem hv).step h
  obtain ⟨hdelays, hbase, hmax⟩ := h.delays
  have hbounded : ∀ d ∈ t.delays, newBackoff.base / 2 ≤ d ∧
      10 * d ≤ 11 * Max.max maxRetryAfter newBackoff.max := by
    rw [← hs.base, ← hs.max]
    rcases hdelays with hsame | ⟨d, hd, hbounds⟩
    · rw [hsame, hs.base, hs.max]
      exact hs.bounded
    · rw [hd]
      refine List.forall_mem_cons.mpr ⟨hbounds, ?_⟩
      rw [hs.base, hs.max]
      exact hs.bounded
  have hfixed := And.intro (hbase.trans hs.base) (hmax.trans hs.max)
  rcases h.log hfits with hsame | ⟨time, hlog, hfree⟩ | ⟨time, b, hlog, hhold⟩
  · exact ⟨hsame ▸ hs.apart, hsame ▸ hwaits, hbounded, hfixed.1, hfixed.2⟩
  · refine ⟨?_, ?_, hbounded, hfixed.1, hfixed.2⟩
    · rw [hlog]
      refine List.pairwise_cons.mpr ⟨?_, hs.apart⟩
      rintro e he t' t v n hlater rfl hv
      obtain rfl := LoopEvent.request.inj hlater
      exact hfree _ (hs.waits t v n he hv)
    · intro time' v n hmem hv
      rw [hlog] at hmem
      exact hwaits time' v n ((List.mem_cons.mp hmem).resolve_left LoopEvent.noConfusion) hv
  · refine ⟨?_, ?_, hbounded, hfixed.1, hfixed.2⟩
    · rw [hlog]
      refine List.pairwise_cons.mpr ⟨?_, hs.apart⟩
      rintro e he t' t v n hlater
      cases hlater
    · intro time' v n hmem hv
      rw [hlog] at hmem
      rcases List.mem_cons.mp hmem with heq | hmem
      · obtain ⟨rfl, rfl⟩ := LoopEvent.answer.inj heq
        exact hhold v n rfl hv
      · exact hwaits time' v n hmem hv

/-- In every run whose hints in seconds fit a duration, no request comes before the end of
what an answer before it asks for, and every delay is within the bounds of the back-off. -/
theorem retry_after_obeyed (parseTime : List Char → Option ℤ) {clock queued : ℕ}
    {tr : List RunnerAct}
    (run : Steps (Guarded (Takes (step parseTime)) fun _ => Fits) (start clock queued) tr s) :
    s.log.Pairwise LoopEvent.Apart ∧ ∀ d ∈ s.delays, newBackoff.base / 2 ≤ d ∧
      10 * d ≤ 11 * Max.max maxRetryAfter newBackoff.max := by
  have hpaced : s.Paced := by
    refine run.stable (P := Paced) ⟨.nil, ?_, ?_, rfl, rfl⟩ fun t a u ht hstep =>
      ht.step (moves_of_step hstep.2) hstep.1
    · rintro time v n ⟨⟩
    · rintro d ⟨⟩
  exact ⟨hpaced.apart, hpaced.bounded⟩

end Runner

def noDraw : Draw := ⟨fun _ => 0, fun _ => Nat.zero_le _⟩

/-- One payload is answered 429 with a hint; the timer is read at `resumed`. -/
def throttledRun (hint : List Char) (resumed : ℕ) : List RunnerAct :=
  [.tick 0 1, .submit 0 0 0, .answer second second (.retry hint) 0 noDraw noDraw 1,
    .expire resumed, .retry resumed, .peek resumed 1]

instance : DecidablePred Runner.Fits
  | .answer _ _ (.retry v) _ _ _ _ =>
    inferInstanceAs (Decidable (∀ n ∈ digitsValue v, n ≤ maxDeltaSeconds))
  | .answer _ _ .sent _ _ _ _ | .answer _ _ .dropped _ _ _ _ | .answer _ _ .unauthorized _ _ _ _
  | .tick _ _ | .expire _ | .retry _ | .submit _ _ _ | .peek _ _ => .isTrue trivial

/-- A hint of two minutes is kept. -/
theorem retry_after_obeyed_twoMinutes : ∃ s : Runner,
    s.log = [.request (121 * second), .answer second (.retry "120".toList), .request 0] ∧
      s.log.Pairwise LoopEvent.Apart := by
  obtain ⟨s, run, -, hlog⟩ := exists_play
    (gated (Runner.step fun _ => none) fun _ => Runner.Fits) (.start 0 0)
    (throttledRun "120".toList (121 * second))
    (fun s => s.log = [.request (121 * second), .answer second (.retry "120".toList), .request 0])
    (by decide +kernel)
  exact ⟨s, of_decide_eq_true hlog,
    (Runner.retry_after_obeyed _ (run.mono fun _ _ _ h => gated_guarded h)).1⟩

/-- A hint of 9223372037 seconds overflows the duration and is taken for none: the next
request comes a second after the answer. -/
theorem overflown_hint_ignored : ∃ s : Runner,
    Steps (Takes (Runner.step fun _ => none)) (.start 0 0)
      (throttledRun "9223372037".toList (2 * second)).reverse s ∧
      s.log = [.request (2 * second), .answer second (.retry "9223372037".toList), .request 0] ∧
      ¬ s.log.Pairwise LoopEvent.Apart := by
  obtain ⟨s, run, -, hlog⟩ := exists_play (Runner.step fun _ => none) (.start 0 0)
    (throttledRun "9223372037".toList (2 * second))
    (fun s => s.log =
      [.request (2 * second), .answer second (.retry "9223372037".toList), .request 0])
    (by decide +kernel)
  have heq := of_decide_eq_true hlog
  refine ⟨s, run, heq, fun hapart => ?_⟩
  rw [heq] at hapart
  have hnear := (List.pairwise_cons.mp hapart).1 _ List.mem_cons_self _ _ _ 9223372037 rfl rfl
    (by decide +kernel)
  exact absurd hnear (by decide)

end MonitoringHub.HostAgent
