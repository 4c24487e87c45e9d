import Mathlib.Data.List.Basic

/-! Labelled step relations and their finite runs. A run keeps its labels
newest first, so a predicate over a run can read the history of the state it
ends in. The invariant rule carries that history along; the guarded relation
restricts every step by a condition on the state before it. -/

namespace MonitoringHub.Lib

abbrev StepRel (σ ε : Type*) := σ → ε → σ → Prop

inductive Steps {σ ε : Type*} (R : StepRel σ ε) (s : σ) : List ε → σ → Prop
  | refl : Steps R s [] s
  | snoc {tr : List ε} {t u : σ} {e : ε} :
      Steps R s tr t → R t e u → Steps R s (e :: tr) u

namespace Steps
variable {σ ε : Type*} {R : StepRel σ ε} {s t u : σ} {tr tr' : List ε}

theorem trans (first : Steps R s tr t) (second : Steps R t tr' u) :
    Steps R s (tr' ++ tr) u := by
  induction second with
  | refl => exact first
  | snoc _ hstep ih => exact ih.snoc hstep

/-- A run goes nowhere, or its first step is taken from where it starts. -/
theorem eq_or_first (run : Steps R s tr t) : t = s ∨ ∃ e u, R s e u := by
  induction run with
  | refl => exact .inl rfl
  | snoc _ hlast ih =>
    rcases ih with rfl | hfirst
    · exact .inr ⟨_, _, hlast⟩
    · exact .inr hfirst

/-- The invariant rule: `I` may read the labels already taken. -/
theorem invariant {I : List ε → σ → Prop} (run : Steps R s tr t) (hstart : I [] s)
    (hstep : ∀ tr t e u, I tr t → R t e u → I (e :: tr) u) : I tr t := by
  induction run with
  | refl => exact hstart
  | snoc _ hlast ih => exact hstep _ _ _ _ ih hlast

/-- A property of states that every step keeps holds from there on. -/
theorem stable {P : σ → Prop} (run : Steps R s tr t) (hstart : P s)
    (hstep : ∀ t e u, P t → R t e u → P u) : P t :=
  run.invariant (I := fun _ => P) hstart fun _ t e u hP hR => hstep t e u hP hR

theorem mono {R' : StepRel σ ε} (hsub : ∀ s e t, R s e t → R' s e t)
    (run : Steps R s tr t) : Steps R' s tr t := by
  induction run with
  | refl => exact .refl
  | snoc _ hlast ih => exact ih.snoc (hsub _ _ _ hlast)

end Steps

/-- `R` with every step taken only where `G` holds of the state before it. -/
def Guarded {σ ε : Type*} (R : StepRel σ ε) (G : σ → ε → Prop) : StepRel σ ε :=
  fun s e t => G s e ∧ R s e t

theorem Guarded.run {σ ε : Type*} {R : StepRel σ ε} {G : σ → ε → Prop} {s t : σ} {tr : List ε}
    (run : Steps (Guarded R G) s tr t) : Steps R s tr t :=
  run.mono fun _ _ _ h => h.2

/-- The step relation of a partial function: `none` where the label is not enabled. -/
def Takes {σ ε : Type*} (step : σ → ε → Option σ) : StepRel σ ε :=
  fun s e t => step s e = some t

theorem Steps.deterministic {σ ε : Type*} {step : σ → ε → Option σ} {s t t' : σ} {tr : List ε}
    (run : Steps (Takes step) s tr t) (run' : Steps (Takes step) s tr t') : t = t' := by
  induction run generalizing t' with
  | refl =>
    cases run'
    rfl
  | snoc _ hlast ih =>
    cases run' with
    | snoc run' hlast' =>
      obtain rfl := ih run'
      exact Option.some.inj (hlast.symm.trans hlast')

/-- `R` with every step taken only to a state in `P`. -/
def Keeping {σ ε : Type*} (R : StepRel σ ε) (P : σ → Prop) : StepRel σ ε :=
  fun s e t => R s e t ∧ P t

/-- Where, under an invariant, a step from a state in `P` that meets its condition leads to one in
`P`, and one that does not meet it leads out of the weaker `Q`, the runs that stay in `Q` are those
whose every step meets its condition. -/
theorem Steps.keeping_iff_of_stronger {σ ε : Type*} {R : StepRel σ ε} {G : σ → ε → Prop}
    {I P Q : σ → Prop} {s t : σ} {tr : List ε} (hI : I s) (hP : P s) (hweaker : ∀ t, P t → Q t)
    (hkeep : ∀ t e u, I t → R t e u → I u) (hmeets : ∀ t e u, I t → P t → G t e → R t e u → P u)
    (hleads : ∀ t e u, I t → P t → R t e u → Q u → G t e) :
    Steps (Keeping R Q) s tr t ↔ Steps (Guarded R G) s tr t := by
  have hguarded {tr : List ε} {t : σ} (run : Steps (Guarded R G) s tr t) : I t ∧ P t :=
    run.stable (P := fun t => I t ∧ P t) ⟨hI, hP⟩
      fun t e u hIP hR => ⟨hkeep t e u hIP.1 hR.2, hmeets t e u hIP.1 hIP.2 hR.1 hR.2⟩
  constructor
  · intro run
    induction run with
    | refl => exact .refl
    | @snoc tr t u e run hlast ih =>
      obtain ⟨hIt, hPt⟩ := hguarded ih
      exact ih.snoc ⟨hleads t e u hIt hPt hlast.1 hlast.2, hlast.1⟩
  · intro run
    induction run with
    | refl => exact .refl
    | @snoc tr t u e run hlast ih =>
      obtain ⟨hIt, hPt⟩ := hguarded run
      exact ih.snoc ⟨hlast.2, hweaker u (hmeets t e u hIt hPt hlast.1 hlast.2)⟩

/-- Where, under an invariant, a step from a state in `P` leads to one in `P` exactly if it meets
its condition, the runs that stay in `P` are those whose every step meets its condition. -/
theorem Steps.keeping_iff {σ ε : Type*} {R : StepRel σ ε} {G : σ → ε → Prop} {I P : σ → Prop}
    {s t : σ} {tr : List ε} (hI : I s) (hP : P s) (hkeep : ∀ t e u, I t → R t e u → I u)
    (hstep : ∀ t e u, I t → P t → R t e u → (P u ↔ G t e)) :
    Steps (Keeping R P) s tr t ↔ Steps (Guarded R G) s tr t :=
  Steps.keeping_iff_of_stronger hI hP (fun _ h => h) hkeep
    (fun t e u hIt hPt hG hR => (hstep t e u hIt hPt hR).mpr hG)
    fun t e u hIt hPt hR hPu => (hstep t e u hIt hPt hR).mp hPu

/-- Take the labels in order. -/
def play {σ ε : Type*} (step : σ → ε → Option σ) : σ → List ε → Option σ
  | s, [] => some s
  | s, e :: es => (step s e).bind fun t => play step t es

theorem play_steps {σ ε : Type*} {step : σ → ε → Option σ} {es : List ε} {s t : σ}
    (h : play step s es = some t) : Steps (Takes step) s es.reverse t := by
  induction es generalizing s with
  | nil =>
    obtain rfl := Option.some.inj h
    exact .refl
  | cons e es ih =>
    obtain ⟨u, hu, hrest⟩ := Option.bind_eq_some_iff.mp h
    rw [List.reverse_cons]
    exact (Steps.refl.snoc hu).trans (ih hrest)

theorem exists_play {σ ε : Type*} (step : σ → ε → Option σ) (s : σ) (es : List ε) (p : σ → Bool)
    (h : (play step s es).any p = true) :
    ∃ t, Steps (Takes step) s es.reverse t ∧ play step s es = some t ∧ p t = true := by
  cases hplay : play step s es with
  | none => simp [hplay] at h
  | some t => exact ⟨t, play_steps hplay, rfl, by simpa [hplay] using h⟩

theorem play_append {σ ε : Type*} {step : σ → ε → Option σ} {es fs : List ε} {s t : σ}
    (h : play step s es = some t) : play step s (es ++ fs) = play step t fs := by
  induction es generalizing s with
  | nil =>
    obtain rfl := Option.some.inj h
    rfl
  | cons e es ih =>
    obtain ⟨u, hu, hrest⟩ := Option.bind_eq_some_iff.mp h
    rw [List.cons_append, play, hu]
    exact ih hrest

/-- The last label of a played list, as one step from the state before it. -/
theorem exists_play_last {σ ε : Type*} (step : σ → ε → Option σ) (s : σ) (es : List ε) (e : ε)
    (p : σ → σ → Bool)
    (h : ((play step s es).any fun t => (step t e).any fun u => p t u) = true) :
    ∃ t u, Steps (Takes step) s es.reverse t ∧ step t e = some u ∧ p t u = true := by
  obtain ⟨t, run, -, ht⟩ := exists_play step s es _ h
  cases hu : step t e with
  | none => simp [hu] at ht
  | some u => exact ⟨t, u, run, hu, by simpa [hu] using ht⟩

/-- The steps at which a decidable condition holds. -/
def gated {σ ε : Type*} (step : σ → ε → Option σ) (G : σ → ε → Prop) [∀ s e, Decidable (G s e)]
    (s : σ) (e : ε) : Option σ :=
  if G s e then step s e else none

theorem gated_guarded {σ ε : Type*} {step : σ → ε → Option σ} {G : σ → ε → Prop}
    [∀ s e, Decidable (G s e)] {s t : σ} {e : ε} (h : Takes (gated step G) s e t) :
    Guarded (Takes step) G s e t := by
  unfold Takes gated at h
  split at h
  · rename_i hG
    exact ⟨hG, h⟩
  · cases h

/-- A run is cut where its labels are. -/
theorem Steps.split {σ ε : Type*} {R : StepRel σ ε} {s t : σ} {tr tr' : List ε}
    (run : Steps R s (tr' ++ tr) t) : ∃ u, Steps R s tr u ∧ Steps R u tr' t := by
  induction tr' generalizing t with
  | nil => exact ⟨t, run, .refl⟩
  | cons e tr' ih =>
    cases run with
    | snoc run hlast =>
      obtain ⟨u, hfirst, hrest⟩ := ih run
      exact ⟨u, hfirst, hrest.snoc hlast⟩

/-- The steps that a relation between states does not see can be left out of a run whose labels
meet `P`: the rest of the labels is a run too, and it ends where the relation holds. -/
theorem Steps.erase {σ ε : Type*} {R : StepRel σ ε} {s t : σ} {tr : List ε} (run : Steps R s tr t)
    (hidden : ε → Bool) (P : List ε → Prop) (Sim : σ → σ → Prop) (hstart : Sim s s)
    (hP : ∀ e tr, P (e :: tr) → P tr)
    (hhide : ∀ t t' e u, hidden e = true → Sim t t' → R t e u → Sim u t')
    (hshow : ∀ tr t t' e u, P (e :: tr) → hidden e = false → Steps R s tr t →
      Steps R s (tr.filter fun e => !hidden e) t' → Sim t t' → R t e u →
      ∃ u', R t' e u' ∧ Sim u u') (htr : P tr) :
    ∃ t', Steps R s (tr.filter fun e => !hidden e) t' ∧ Sim t t' := by
  induction run with
  | refl => exact ⟨s, .refl, hstart⟩
  | @snoc tr t u e run hlast ih =>
    obtain ⟨t', run', hsim⟩ := ih (hP e tr htr)
    by_cases he : hidden e = true
    · rw [List.filter_cons_of_neg (by simp [he])]
      exact ⟨t', run', hhide t t' e u he hsim hlast⟩
    · have he' : hidden e = false := Bool.not_eq_true _ ▸ he
      obtain ⟨u', hlast', hsim'⟩ := hshow tr t t' e u htr he' run run' hsim hlast
      rw [List.filter_cons_of_pos (by simp [he'])]
      exact ⟨u', run'.snoc hlast', hsim'⟩

end MonitoringHub.Lib
