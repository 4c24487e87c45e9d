import Mathlib.Algebra.BigOperators.Group.Finset.Basic
import MonitoringHub.Lib.GatedCounter

/-! Gated counters fed by samples. A job reads the sample that is current when it
begins and is counted when it is done; jobs take turns and counted ones are `gap`
apart. A sample that stays current for `width` is then counted a bounded number of
times, so many counts mean many samples. -/

namespace MonitoringHub.Lib
variable {α δ : Type*} {begun done : α → ℕ}

/-- Jobs one after the other, newest first. -/
structure InTurn (begun done : α → ℕ) (jobs : List α) : Prop where
  ends : ∀ e ∈ jobs, begun e ≤ done e
  turns : jobs.Pairwise fun later earlier => done earlier ≤ begun later

namespace InTurn
variable {jobs : List α}

theorem nil : InTurn begun done [] := ⟨by simp, List.Pairwise.nil⟩

theorem cons {e : α} (h : InTurn begun done jobs) (hend : begun e ≤ done e)
    (hturn : ∀ e' ∈ jobs, done e' ≤ begun e) : InTurn begun done (e :: jobs) := by
  refine ⟨fun e' he' => ?_, h.turns.cons hturn⟩
  rcases List.mem_cons.mp he' with rfl | he'
  · exact hend
  · exact h.ends e' he'

theorem sublist {jobs' : List α} (h : InTurn begun done jobs) (hs : jobs'.Sublist jobs) :
    InTurn begun done jobs' :=
  ⟨fun e he => h.ends e (hs.subset he), h.turns.sublist hs⟩

/-- Jobs that begin inside a window are done inside it, the newest apart. -/
theorem length_le_of_window {gap lo width : ℕ} (h : InTurn begun done jobs)
    (hspaced : Spaced gap (jobs.map done)) (hwidth : 0 < width)
    (hin : ∀ e ∈ jobs, lo ≤ begun e ∧ begun e < lo + width) :
    gap * (jobs.length - 2) < width := by
  cases jobs with
  | nil => simpa using hwidth
  | cons newest older =>
    have hdone : ∀ t ∈ older.map done, lo ≤ t ∧ t < lo + width := by
      intro t ht
      obtain ⟨e, he, rfl⟩ := List.mem_map.mp ht
      have hbegun := (hin e (List.mem_cons_of_mem _ he)).1
      have hend := h.ends e (List.mem_cons_of_mem _ he)
      have hturn := (List.pairwise_cons.mp h.turns).1 e he
      have hlast := (hin newest List.mem_cons_self).2
      omega
    have hcount := Spaced.length_le_of_window (List.IsChain.tail hspaced) hwidth hdone
    simpa using hcount

end InTurn

/-- How often one sample can be counted. -/
def countsPerSample (gap width : ℕ) : ℕ := (width + gap - 1) / gap + 1

theorem countsPerSample_pos (gap width : ℕ) : 0 < countsPerSample gap width := Nat.succ_pos _

theorem length_le_mul_samples [DecidableEq δ] (sample : α → δ) (jobs : List α) {n : ℕ}
    (h : ∀ d, (jobs.filter fun e => sample e = d).length ≤ n) :
    jobs.length ≤ n * (jobs.map sample).toFinset.card := by
  have hcount : ∀ d, (jobs.map sample).count d ≤ n := by
    intro d
    have hfilter : (jobs.map sample).count d = (jobs.filter fun e => sample e = d).length := by
      rw [List.count, List.countP_map, List.countP_eq_length_filter]
      rfl
    exact hfilter ▸ h d
  calc jobs.length = (jobs.map sample).length := (List.length_map _).symm
    _ = ∑ d ∈ (jobs.map sample).toFinset, (jobs.map sample).count d :=
        (List.sum_toFinset_count_eq_length _).symm
    _ ≤ (jobs.map sample).toFinset.card • n := Finset.sum_le_card_nsmul _ _ _ fun d _ => hcount d
    _ = n * (jobs.map sample).toFinset.card := Nat.mul_comm _ _

/-- Counted jobs whose samples each stay current for `width` read this many samples. -/
theorem InTurn.length_le_samples [DecidableEq δ] {gap width : ℕ} {jobs : List α}
    (h : InTurn begun done jobs) (hspaced : Spaced gap (jobs.map done)) (hgap : 0 < gap)
    (hwidth : 0 < width) (sample : α → δ)
    (hcurrent : ∀ d, ∃ lo, ∀ e ∈ jobs, sample e = d → lo ≤ begun e ∧ begun e < lo + width) :
    jobs.length ≤ countsPerSample gap width * (jobs.map sample).toFinset.card := by
  refine length_le_mul_samples sample jobs fun d => ?_
  obtain ⟨lo, hlo⟩ := hcurrent d
  have hsub : (jobs.filter fun e => sample e = d).Sublist jobs := List.filter_sublist
  have hwindow := (h.sublist hsub).length_le_of_window (hspaced.sublist (hsub.map done)) hwidth
    fun e he => hlo e (hsub.subset he) (by simpa using (List.mem_filter.mp he).2)
  set len := (jobs.filter fun e => sample e = d).length
  rcases Nat.lt_or_ge len 2 with hshort | hlong
  · unfold countsPerSample
    have : 0 < (width + gap - 1) / gap := Nat.div_pos (by omega) hgap
    omega
  · obtain ⟨k, hk⟩ := Nat.exists_eq_add_of_le hlong
    have hmul : (k + 1) * gap ≤ width + gap - 1 := by
      rw [hk, Nat.add_sub_cancel_left, Nat.mul_comm] at hwindow
      rw [Nat.add_one_mul]
      omega
    have := (Nat.le_div_iff_mul_le hgap).mpr hmul
    unfold countsPerSample
    omega

end MonitoringHub.Lib
