import Mathlib.Data.Finset.Card
import Mathlib.Order.Interval.Finset.Nat

/-! A counter under one key of a store that lets keys expire, in the words of
Redis. Times are milliseconds, the seconds of a command are rounded as the
store rounds them. A key whose deadline lies before the clock is gone. -/

namespace MonitoringHub.Lib

structure Counter where
  count : ℕ
  deadline : Option ℤ
  deriving DecidableEq, Repr

namespace Counter

/-- What is left of a key at this time. -/
def settle (now : ℤ) (key : Option Counter) : Option Counter :=
  key.filter fun c => c.deadline.all fun d => decide (now ≤ d)

/-- `INCR`: a missing key starts without a deadline, a deadline is kept. -/
def incr : Option Counter → Counter
  | none => ⟨1, none⟩
  | some c => { c with count := c.count + 1 }

/-- `EXPIRE`: a time that is not in the future deletes the key. -/
def expire (now seconds : ℤ) (key : Option Counter) : Option Counter :=
  if seconds ≤ 0 then none
  else key.map fun c => { c with deadline := some (now + 1000 * seconds) }

/-- `TTL`: -2 without the key, -1 without a deadline. -/
def ttl (now : ℤ) : Option Counter → ℤ
  | none => -2
  | some ⟨_, none⟩ => -1
  | some ⟨_, some d⟩ => (max 0 (d - now) + 500) / 1000

@[simp] theorem settle_none (now : ℤ) : settle now none = none := rfl

theorem settle_some {now : ℤ} {key : Option Counter} {c : Counter}
    (h : settle now key = some c) : key = some c :=
  (Option.filter_eq_some_iff.mp h).1

/-- A key with a deadline does not outlive it. -/
theorem settle_expired {now d : ℤ} {c : Counter} (hd : c.deadline = some d) (h : d < now) :
    settle now (some c) = none := by
  rw [settle, Option.filter_eq_none_iff]
  intro c' hc'
  obtain rfl := Option.some.inj hc'
  simpa [hd] using h

theorem expire_some {now seconds : ℤ} {key : Option Counter} {c : Counter}
    (h : expire now seconds key = some c) :
    ∃ old, key = some old ∧ c = { old with deadline := some (now + 1000 * seconds) } := by
  unfold expire at h
  split at h
  · cases h
  · obtain ⟨old, hold, hc⟩ := Option.map_eq_some_iff.mp h
    exact ⟨old, hold, hc.symm⟩

theorem ttl_eq_neg_one {now : ℤ} {key : Option Counter} :
    ttl now key = -1 ↔ ∃ c, key = some c ∧ c.deadline = none := by
  rcases key with _ | ⟨count, _ | d⟩
  · simp [ttl]
  · simp [ttl]
  · simp only [ttl, Option.some.injEq, exists_eq_left', reduceCtorEq, iff_false]
    omega

/-- A key has no deadline that ends later than this. -/
def EndsBy (limit : ℤ) (key : Option Counter) : Prop :=
  ∀ c d, key = some c → c.deadline = some d → d ≤ limit

def HasDeadline (key : Option Counter) : Prop :=
  ∀ c, key = some c → c.deadline.isSome

/-- With a deadline a key is gone once the clock has passed all the deadlines there can be. -/
theorem HasDeadline.settle {limit now : ℤ} {key : Option Counter} (h : HasDeadline key)
    (hends : EndsBy limit key) (hnow : limit < now) : settle now key = none := by
  cases key with
  | none => rfl
  | some c =>
    obtain ⟨d, hd⟩ := Option.isSome_iff_exists.mp (h c rfl)
    exact settle_expired hd (lt_of_le_of_lt (hends c d rfl hd) hnow)

end Counter

/-- Different replies of one counter, none above a bound, are no more than the bound. -/
theorem replies_le {replies : List ℕ} {bound : ℕ} (hdistinct : replies.Nodup)
    (hreplies : ∀ r ∈ replies, 1 ≤ r ∧ r ≤ bound) : replies.length ≤ bound := by
  rw [← List.toFinset_card_of_nodup hdistinct]
  have hsub : replies.toFinset ⊆ Finset.Icc 1 bound := fun r hr =>
    Finset.mem_Icc.mpr (hreplies r (List.mem_toFinset.mp hr))
  simpa using Finset.card_le_card hsub

end MonitoringHub.Lib
