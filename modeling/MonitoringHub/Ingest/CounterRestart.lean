import Mathlib.Data.List.Chain
import Mathlib.Order.Lattice
import MonitoringHub.Ingest.AgentRow

/-! An agent whose counter starts again. Its payloads are duplicates until the counter has
caught up or the agent has not been heard of for the length of the window; and a duplicate
is heard. -/

namespace MonitoringHub.Ingest

/-- `MinInterval`, `MaxInterval` and `RequestTimeout`, in seconds. -/
def minInterval : ℕ := 15
def maxInterval : ℕ := 300
def requestTimeout : ℕ := 10

/-- A payload with samples that is answered 200, and when the hub's claim and touch ran. -/
structure Answered (S : Type) where
  sentAt : ℕ
  claimedAt : ℕ
  touchedAt : ℕ
  seq : ℕ
  agentVersion : String
  samples : List S
  deriving DecidableEq

section Restart
variable {S : Type} {row : AgentRow} {m n : Answered S} {sent : List (Answered S)} {seen : ℕ}

/-- What a payload leaves of the agent's row, and the samples the hub writes. -/
def ingest (row : AgentRow) (m : Answered S) : AgentRow × List S :=
  transact m.claimedAt m.touchedAt ⟨m.seq, m.agentVersion, m.samples⟩ row

/-- The payloads in the order they are sent, each with what the hub writes of it. -/
def outcomes (row : AgentRow) : List (Answered S) → List (Answered S × List S)
  | [] => []
  | m :: sent => (m, (ingest row m).2) :: outcomes (ingest row m).1 sent

/-- An agent that keeps sending: new numbers, at any interval it may be set to, each answered
before the client gives up. -/
structure KeepsSending (sent : List (Answered S)) : Prop where
  spaced : sent.IsChain fun m n =>
    m.sentAt + minInterval ≤ n.sentAt ∧ n.sentAt ≤ m.sentAt + maxInterval
  rising : sent.Pairwise fun m n => m.seq < n.seq
  answered : ∀ m ∈ sent, m.sentAt ≤ m.claimedAt ∧ m.claimedAt ≤ m.touchedAt ∧
    m.touchedAt ≤ m.sentAt + requestTimeout
  samples : ∀ m ∈ sent, m.samples ≠ []

theorem KeepsSending.rest (h : KeepsSending (m :: sent)) : KeepsSending sent :=
  ⟨h.spaced.tail, h.rising.tail, fun n hn => h.answered n (List.mem_cons_of_mem _ hn),
    fun n hn => h.samples n (List.mem_cons_of_mem _ hn)⟩

theorem mem_outcomes {e : Answered S × List S} (h : e ∈ outcomes row sent) : e.1 ∈ sent := by
  induction sent generalizing row with
  | nil => cases h
  | cons m sent ih =>
    rcases List.mem_cons.mp h with rfl | h
    · exact List.mem_cons_self
    · exact List.mem_cons_of_mem _ (ih h)

/-- The agent has been heard of when the first of these payloads comes. -/
def HeardAt (row : AgentRow) (sent : List (Answered S)) : Prop :=
  ∀ m ∈ sent.head?, row.unheard m.claimedAt = false

/-- A payload is heard, taken or not: the next one comes within the window. -/
theorem KeepsSending.heard (h : KeepsSending (m :: sent)) (hseen : row.lastSeenAt = some seen)
    (hle : m.sentAt ≤ seen) : HeardAt row sent := by
  intro n hn
  obtain ⟨rest, rfl⟩ := List.head?_eq_some_iff.mp hn
  obtain ⟨-, hgap⟩ := (List.isChain_cons_cons.mp h.spaced).1
  obtain ⟨-, hclaimed, htouched⟩ := h.answered n (List.mem_cons_of_mem _ List.mem_cons_self)
  have hwindow : ¬ seen + dupWindowSeconds < n.claimedAt := by
    simp only [maxInterval, requestTimeout, dupWindowSeconds] at *
    omega
  rw [AgentRow.unheard, hseen]
  exact decide_eq_false hwindow

theorem ingest_cases (hactive : row.status = .active) (m : Answered S) :
    Transacted m.claimedAt m.touchedAt ⟨m.seq, m.agentVersion, m.samples⟩ row (ingest row m).1
      (ingest row m).2 :=
  transact_cases _ _ _ hactive

/-- Heard of from the first payload on, the hub writes those above the number it had. -/
theorem stored_iff_of_heard (hactive : row.status = .active) (h : KeepsSending sent)
    (hheard : HeardAt row sent) :
    ∀ e ∈ outcomes row sent, e.2 = e.1.samples ↔ row.lastSeq < e.1.seq := by
  induction sent generalizing row with
  | nil => exact fun e he => by cases he
  | cons m sent ih =>
    have hm := hheard m rfl
    obtain ⟨hsent, hclaimed, -⟩ := h.answered m List.mem_cons_self
    intro e he
    rcases ingest_cases hactive m with ⟨haccepts, hseq, hseen, hstatus, hwrote⟩ |
      ⟨haccepts, hseq, hseen, hstatus, hwrote⟩
    · -- taken: those that follow have higher numbers
      have hlast : row.lastSeq < m.seq := by
        rw [AgentRow.accepts, hm, Bool.or_false] at haccepts
        exact of_decide_eq_true haccepts
      rcases List.mem_cons.mp he with rfl | he
      · exact iff_of_true hwrote hlast
      · have hrising := List.rel_of_pairwise_cons h.rising (mem_outcomes he)
        refine (ih hstatus h.rest (h.heard hseen hsent) e he).trans ?_
        rw [hseq]
        exact iff_of_true hrising (hlast.trans hrising)
    · -- a duplicate leaves the number, and is heard
      have hlast : ¬ row.lastSeq < m.seq := by
        rw [AgentRow.accepts, hm, Bool.or_false] at haccepts
        exact of_decide_eq_false haccepts
      rcases List.mem_cons.mp he with rfl | he
      · refine iff_of_false (fun hall => ?_) hlast
        exact h.samples m List.mem_cons_self (hall.symm.trans hwrote)
      · have hnext : HeardAt (ingest row m).1 sent := by
          rcases hseen with hseen | hseen
          · exact h.heard hseen hsent
          · exact h.heard hseen (hsent.trans hclaimed)
        have := ih hstatus h.rest hnext e he
        rwa [hseq] at this

/-- The first payload of an agent not heard of is taken, and with it all that follow. -/
theorem stored_of_unheard (hactive : row.status = .active) (h : KeepsSending (m :: sent))
    (hunheard : row.unheard m.claimedAt = true) :
    ∀ e ∈ outcomes row (m :: sent), e.2 = e.1.samples := by
  intro e he
  obtain ⟨hsent, -, -⟩ := h.answered m List.mem_cons_self
  have haccepts : row.accepts m.claimedAt m.seq = true := by
    rw [AgentRow.accepts, hunheard, Bool.or_true]
  rcases ingest_cases hactive m with ⟨-, hseq, hseen, hstatus, hwrote⟩ | ⟨hno, -, -, -, -⟩
  · rcases List.mem_cons.mp he with rfl | he
    · exact hwrote
    · refine (stored_iff_of_heard hstatus h.rest (h.heard hseen hsent) e he).mpr ?_
      rw [hseq]
      exact List.rel_of_pairwise_cons h.rising (mem_outcomes he)
  · cases hno.symm.trans haccepts

theorem outcomes_exists (row : AgentRow) (hm : m ∈ sent) : ∃ wrote, (m, wrote) ∈ outcomes row sent := by
  induction sent generalizing row with
  | nil => cases hm
  | cons n sent ih =>
    rcases List.mem_cons.mp hm with rfl | hm
    · exact ⟨_, List.mem_cons_self⟩
    · obtain ⟨wrote, hwrote⟩ := ih _ hm
      exact ⟨wrote, List.mem_cons_of_mem _ hwrote⟩

/-- After a restart of the counter the hub writes every payload sent when the window has
passed, exactly if the first one finds the agent unheard of for that long, or if by then the
counter has caught up. -/
theorem counter_restart_recovers (row : AgentRow) (hactive : row.status = .active) (restart : ℕ)
    (sent : List (Answered S)) (h : KeepsSending sent) :
    (∀ e ∈ outcomes row sent, restart + dupWindowSeconds < e.1.sentAt → e.2 = e.1.samples) ↔
      (∀ m ∈ sent.head?, row.unheard m.claimedAt = true) ∨
        ∀ m ∈ sent, restart + dupWindowSeconds < m.sentAt → row.lastSeq < m.seq := by
  cases sent with
  | nil => exact iff_of_true (fun e he => by cases he) (.inl fun m hm => by cases hm)
  | cons m sent =>
    by_cases hunheard : row.unheard m.claimedAt = true
    · refine iff_of_true (fun e he _ => stored_of_unheard hactive h hunheard e he) (.inl ?_)
      intro n hn
      obtain rfl := Option.some.inj hn
      exact hunheard
    · have hheard : HeardAt row (m :: sent) := by
        intro n hn
        obtain rfl := Option.some.inj hn
        exact Bool.not_eq_true _ ▸ hunheard
      have hstored := stored_iff_of_heard hactive h hheard
      constructor
      · intro hall
        refine .inr fun n hn hlate => ?_
        obtain ⟨wrote, hwrote⟩ := outcomes_exists row hn
        exact (hstored _ hwrote).mp (hall _ hwrote hlate)
      · rintro (hfirst | hcaught) e he hlate
        · exact absurd (hfirst m rfl) hunheard
        · exact (hstored e he).mpr (hcaught e.1 (mem_outcomes he) hlate)

end Restart

section Example

/-- One payload a minute from the moment 60 on, numbered from 1. -/
def everyMinute (count : ℕ) : List (Answered Unit) :=
  (List.range count).map fun k => ⟨60 * k + 60, 60 * k + 60, 60 * k + 60, k + 1, "1.0", [()]⟩

def seenRow (lastSeq lastSeenAt : ℕ) : AgentRow :=
  ⟨1, "web-1", .active, lastSeq, some lastSeenAt, "1.0", none, none⟩

theorem everyMinute_keepsSending : KeepsSending (everyMinute 15) :=
  ⟨by decide, by decide, by decide, by decide⟩

theorem counter_restart_recovers_caught_up : KeepsSending (everyMinute 15) ∧
    ∀ e ∈ outcomes (seenRow 5 0) (everyMinute 15), 60 + dupWindowSeconds < e.1.sentAt →
      e.2 = e.1.samples := by
  refine ⟨everyMinute_keepsSending, ?_⟩
  exact (counter_restart_recovers (seenRow 5 0) rfl 60 (everyMinute 15)
    everyMinute_keepsSending).mpr (.inr (by decide))

/-- A counter that starts again at 1 when the hub has seen 1000: the payloads sent after the
window has passed are answered and not written. -/
theorem counter_restart_discards : KeepsSending (everyMinute 15) ∧
    ∃ e ∈ outcomes (seenRow 1000 0) (everyMinute 15), 60 + dupWindowSeconds < e.1.sentAt ∧
      e.1.samples ≠ [] ∧ e.2 = [] := by
  refine ⟨everyMinute_keepsSending, ?_⟩
  exact ⟨(⟨720, 720, 720, 12, "1.0", [()]⟩, []), by decide, by decide, by decide, rfl⟩

end Example

end MonitoringHub.Ingest
