import MonitoringHub.Lib.SampledCounter
import MonitoringHub.Alerts.Debounce

/-! Passes follow one another. A pass reads its rows when it begins and evaluates each
key at most once, so on one key every evaluation began, and read its datum, after the
one before it had ended. -/

namespace MonitoringHub.Alerts
open Lib

theorem passRows_nodup (kind : PassKind) (M : PollingModel) (S : PollSettings)
    (fetched : List EvalRow) : ((passRows kind M S fetched).map chosenKey).Nodup := by
  have hsub : (passRows kind M S fetched).Sublist (selectThresholdRows fetched) :=
    List.filter_sublist.trans List.filter_sublist
  exact (selectThresholdRows_nodup fetched).sublist (hsub.map chosenKey)

/-- Rows of one key compete for one place in a pass. -/
theorem chosenKey_of_key {row row' : EvalRow} (h : row.key = row'.key) :
    chosenKey row = chosenKey row' := by
  injection h with haccount hresource hmetric
  simp only [chosenKey, haccount, hresource, hmetric]

structure Paced (tr : List Event) (s : Evaluator) : Prop where
  began_le : s.began ≤ s.clock
  distinct : (s.todo.map chosenKey).Nodup
  waiting : ∀ row ∈ s.todo, ∀ e ∈ keyTrace row.key tr, e.now ≤ s.began
  turns : ∀ k, InTurn Evaluation.began Evaluation.now (keyTrace k tr)

section Step
variable {tr : List Event} {s t : Evaluator} {e : Event}

theorem Paced.step (h : Paced tr s) (hstep : s.step e = some t)
    (hclock : ∀ k, ∀ e ∈ keyTrace k tr, e.now ≤ s.clock) : Paced (e :: tr) t := by
  cases Evaluator.step_effect hstep with
  | beginPass hnow =>
    exact ⟨le_rfl, passRows_nodup _ _ _ _, fun row _ e he => (hclock row.key e he).trans hnow,
      h.turns⟩
  | rowFailed hnow =>
    exact ⟨h.began_le.trans hnow, h.distinct.sublist ((List.tail_sublist _).map _),
      fun row hrow => h.waiting row (List.mem_of_mem_tail hrow), h.turns⟩
  | human hnow => exact ⟨h.began_le.trans hnow, h.distinct, h.waiting, h.turns⟩
  | evaluated hnow htodo heff =>
    rename_i now r o rest db
    have hdistinct := h.distinct
    rw [htodo, List.map_cons, List.nodup_cons] at hdistinct
    refine ⟨h.began_le.trans hnow, hdistinct.2, fun row hrow => ?_, fun k => ?_⟩
    · have hne : r.key ≠ row.key := fun hkey =>
        hdistinct.1 (chosenKey_of_key hkey ▸ List.mem_map_of_mem hrow)
      rw [keyTrace_evaluated, if_neg hne]
      exact h.waiting row (htodo ▸ List.mem_cons_of_mem _ hrow)
    · rw [keyTrace_evaluated]
      split
      · rename_i hk
        subst hk
        exact (h.turns r.key).cons (h.began_le.trans hnow)
          (h.waiting r.row (htodo ▸ List.mem_cons_self))
      · exact h.turns k

end Step

theorem Evaluator.run_paced {t : Evaluator} {tr : List Event}
    (run : Steps (Takes Evaluator.step) (.start emptyDb) tr t) : Paced tr t := by
  induction run with
  | refl =>
    refine ⟨le_rfl, List.nodup_nil, fun row hrow => ?_, fun _ => .nil⟩
    cases hrow
  | snoc run hstep ih => exact ih.step hstep (keyTrace_le_clock run)

end MonitoringHub.Alerts
