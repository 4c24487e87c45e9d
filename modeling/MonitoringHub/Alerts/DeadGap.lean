import MonitoringHub.Alerts.Debounce

/-! Dead gaps. The expiry of candidates runs at the start of a full pass only and reads
`last_seen_at`, while every pass may count another breach on what is still there. A
promotion spans no dead gap when no breach is counted on a candidate whose cycle clock
is already older than the expiry. -/

namespace MonitoringHub.Alerts
open Lib

/-- Where a reading breaches and the gate is open, the candidate is not stale: an expiry
that read its cycle clock at this moment would keep it. -/
def CountsOnFresh (st : KeyState) (now : ℕ) (r : RowInput) : Prop :=
  ∀ p, st = .suspected p → r.verdict.breaching = true → p.clock + minCycleSeconds ≤ now →
    now ≤ p.clock + pendingExpirySeconds

instance (st : KeyState) (now : ℕ) (r : RowInput) : Decidable (CountsOnFresh st now r) :=
  match st with
  | .suspected p =>
    decidable_of_iff (r.verdict.breaching = true → p.clock + minCycleSeconds ≤ now →
      now ≤ p.clock + pendingExpirySeconds)
      ⟨fun h q hq => KeyState.suspected.inj hq ▸ h, fun h => h p rfl⟩
  | .quiet => .isTrue fun _ hp => (by cases hp)
  | .raised _ => .isTrue fun _ hp => (by cases hp)

def NoGap (tr : List Evaluation) (st : KeyState) : Prop :=
  ∀ p, st = .suspected p → Within pendingExpirySeconds (countRun tr)

section Gap
variable {tr : List Evaluation} {st : KeyState} {began now : ℕ} {r : RowInput}

theorem NoGap.touch (hgap : NoGap tr st) (h : Debounced tr st) (hguard : CountsOnFresh st now r)
    (hbreach : r.verdict.breaching = true) {o : Outcome}
    (ho : o = .pended (r.touch now st.candidate).1 ∨ o = .promoted (r.touch now st.candidate).1) :
    Within pendingExpirySeconds (countRun (⟨began, now, r, o⟩ :: tr)) := by
  cases hst : st.candidate with
  | none =>
    rw [hst, (r.touch_none now).1] at ho
    have hrun : countRun (⟨began, now, r, o⟩ :: tr) = [now] := by
      rcases ho with rfl | rfl <;> rfl
    rw [hrun]
    exact List.isChain_singleton now
  | some p =>
    obtain rfl := KeyState.candidate_some hst
    by_cases hdue : p.clock + minCycleSeconds ≤ now
    · rw [hst, (r.touch_due hdue).1] at ho
      have hrun : countRun (⟨began, now, r, o⟩ :: tr) = now :: countRun tr := by
        rcases ho with rfl | rfl <;> rfl
      rw [hrun]
      exact (hgap p rfl).cons (h.pending p rfl).head_eq (hguard p rfl hbreach hdue)
    · rw [hst, (r.touch_waits hdue).1] at ho
      have hrun : countRun (⟨began, now, r, o⟩ :: tr) = countRun tr := by
        rcases ho with rfl | rfl <;> rfl
      rw [hrun]
      exact hgap p rfl

theorem NoGap.evaluate {st' : KeyState} {o : Outcome} (hgap : NoGap tr st) (h : Debounced tr st)
    (hguard : CountsOnFresh st now r) (he : KeyState.Evaluates now r st o st') :
    NoGap (⟨began, now, r, o⟩ :: tr) st' := by
  have hconfirm : ∀ {value : ℚ}, r.verdict.breaching = true →
      NoGap (⟨began, now, r, (KeyState.confirm now value r st.candidate).1⟩ :: tr)
        (KeyState.confirm now value r st.candidate).2 := by
    intro value hbreach p hp
    unfold KeyState.confirm at hp ⊢
    simp only at hp ⊢
    split at hp
    · rename_i hcycles
      rw [if_pos hcycles]
      exact hgap.touch h hguard hbreach (.inl rfl)
    · cases hp
  cases he with
  | quietHealthy | suspectedHealthy | raisedBreach =>
    intro p hp
    cases hp
  | quietBreach hvalue hbreach => exact hconfirm hbreach
  | suspectedBreach hvalue hbreach => exact hconfirm hbreach
  | raisedHealthy =>
    intro p hp
    unfold KeyState.recover at hp
    simp only at hp
    split at hp <;> cases hp

end Gap

theorem KeyRun.noGap {tr : List Evaluation} {st : KeyState} (run : KeyRun CountsOnFresh tr st) :
    NoGap tr st := by
  refine (run.invariant (I := fun tr st => Debounced tr st ∧ NoGap tr st) ?_ ?_ ?_).2
  · refine ⟨.of_quiet (List.Sublist.refl _) (List.Sublist.refl _), fun p hp => ?_⟩
    cases hp
  · intro tr st st' ⟨h, hgap⟩ hy
    refine ⟨h.yield hy, fun p hp => ?_⟩
    cases hy with
    | same => exact hgap p hp
    | expired | closed | handled => cases hp
  · intro tr st st' began now r o ⟨h, hgap⟩ hguard he
    exact ⟨h.evaluate he, hgap.evaluate h hguard he⟩

namespace Evaluator

end Evaluator

end MonitoringHub.Alerts
