import MonitoringHub.Lib.StepRun

/-! The labels of a run by the time they were taken. A run keeps its labels newest first,
so the label taken at time `t` has `t` labels behind it. -/

namespace MonitoringHub.Lib

def At {ε : Type*} (tr : List ε) (t : ℕ) (e : ε) : Prop := tr.reverse[t]? = some e

section At
variable {ε : Type*} {tr : List ε} {t : ℕ} {e e' : ε}

theorem not_at_nil : ¬ At ([] : List ε) t e := fun h => by
  cases (List.getElem?_nil (i := t)).symm.trans h

theorem At.lt (h : At tr t e) : t < tr.length := by
  have := (List.getElem?_eq_some_iff.mp h).1
  rwa [List.length_reverse] at this

theorem At.unique (h : At tr t e) (h' : At tr t e') : e = e' :=
  Option.some.inj (h.symm.trans h')

theorem At.mem (h : At tr t e) : e ∈ tr := List.mem_reverse.mp (List.mem_of_getElem? h)

theorem at_cons : At (e' :: tr) t e ↔ At tr t e ∨ t = tr.length ∧ e = e' := by
  unfold At
  rw [List.reverse_cons]
  by_cases ht : t < tr.reverse.length
  · rw [List.getElem?_append_left ht]
    refine ⟨.inl, fun h => h.elim id fun hlast => ?_⟩
    rw [hlast.1, List.length_reverse] at ht
    exact absurd ht (Nat.lt_irrefl _)
  · rw [List.getElem?_append_right (Nat.le_of_not_lt ht), List.getElem?_eq_none (Nat.le_of_not_lt ht)]
    rw [List.length_reverse] at ht ⊢
    refine ⟨fun h => .inr ?_, fun h => h.elim (fun hno => by cases hno) fun hlast => ?_⟩
    · have hzero : t - tr.length = 0 := by
        have := (List.getElem?_eq_some_iff.mp h).1
        rw [List.length_singleton] at this
        omega
      rw [hzero] at h
      exact ⟨by omega, (Option.some.inj h).symm⟩
    · rw [hlast.1, Nat.sub_self, hlast.2]
      rfl

theorem At.cons (h : At tr t e) (e' : ε) : At (e' :: tr) t e := at_cons.mpr (.inl h)

theorem at_last (tr : List ε) (e : ε) : At (e :: tr) tr.length e := at_cons.mpr (.inr ⟨rfl, rfl⟩)

/-- A label other than the last one was taken before it. -/
theorem At.of_cons (h : At (e' :: tr) t e) (hne : e ≠ e') : At tr t e :=
  (at_cons.mp h).resolve_right fun hlast => hne hlast.2

end At

end MonitoringHub.Lib
