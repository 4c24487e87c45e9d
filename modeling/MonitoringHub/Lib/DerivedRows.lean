import Mathlib.Logic.Function.Basic
import MonitoringHub.Lib.StepRun

/-! Columns derived from inputs that people edit. A pass reads the inputs, plans a write for every
row that does not show its value, and then writes row by row, each write under the condition that
the row's own input is as it was read. An edit owes a pass over the rows it reaches. A row then
shows its value, is owed a pass, or has a write planned that its own input still allows; this
lasts as long as the other inputs of a row are as they were read whenever it is written. -/

namespace MonitoringHub.Lib

/-- How rows `ι` are derived from inputs `χ`: the value `ω` of a row follows from its own input and
those it depends on; a pass asked for by `ρ` plans the writes of the rows it covers; an edit
reaches only the rows that its request covers. `Row` are the rows that passes look after. -/
structure Derivation (χ ι ω ν ρ ε κ δ : Type*) where
  Row : ι → Prop
  value : χ → ι → ω
  own : χ → ι → κ
  dep : χ → ι → δ
  shows : ν → ω → Prop
  put : ω → ν
  covers : ρ → ι → Prop
  plan : ρ → χ → (ι → ν) → List (ι × ω)
  edit : ε → χ → χ
  request : ε → ρ
  value_congr : ∀ {x x' i}, own x i = own x' i → dep x i = dep x' i → value x i = value x' i
  shows_put : ∀ v, shows (put v) v
  mem_plan : ∀ {r x stored i v}, (i, v) ∈ plan r x stored → v = value x i
  planned : ∀ {r x stored i}, covers r i → ¬shows (stored i) (value x i) →
    ∃ v, (i, v) ∈ plan r x stored
  reach : ∀ {e x i}, Row i → ¬covers (request e) i →
    own (edit e x) i = own x i ∧ dep (edit e x) i = dep x i

namespace Derivation
variable {χ ι ω ν ρ ε κ δ : Type*}

/-- What a pass has read, and the writes it has left. -/
structure Pass (χ ι ω : Type*) where
  read : χ
  pending : List (ι × ω)

structure State (χ ι ω ν ρ : Type*) where
  input : χ
  stored : ι → ν
  owed : List ρ
  passes : List (Pass χ ι ω)

inductive Act (ρ ε : Type*)
  | edit (e : ε)
  | read (r : ρ)
  | write (k : ℕ)
  deriving DecidableEq, Repr

namespace State

def start (input : χ) (stored : ι → ν) : State χ ι ω ν ρ := ⟨input, stored, [], []⟩

/-- No pass is owed and none has a write left. -/
def Finished (s : State χ ι ω ν ρ) : Prop := s.owed = [] ∧ ∀ p ∈ s.passes, p.pending = []

/-- What the next write of a pass goes by: what it has read, the row, its value and the writes
after it. -/
def nextWrite (s : State χ ι ω ν ρ) (k : ℕ) : Option (χ × ι × ω × List (ι × ω)) :=
  match s.passes[k]? with
  | some ⟨read, (i, v) :: rest⟩ => some (read, i, v, rest)
  | _ => none

theorem nextWrite_some {s : State χ ι ω ν ρ} {k : ℕ} {read : χ} {i : ι} {v : ω}
    {rest : List (ι × ω)} (h : s.nextWrite k = some (read, i, v, rest)) :
    s.passes[k]? = some ⟨read, (i, v) :: rest⟩ := by
  unfold nextWrite at h
  split at h
  · rename_i hpass
    obtain ⟨rfl, rfl, rfl, rfl⟩ : _ ∧ _ ∧ _ ∧ _ := by simpa using h
    exact hpass
  · cases h

end State

variable (D : Derivation χ ι ω ν ρ ε κ δ)

section Step
variable [DecidableEq ι] [DecidableEq ρ] [DecidableEq κ]

/-- An edit is committed, a pass reads everything at once, or one writes its next row. -/
def step (s : State χ ι ω ν ρ) : Act ρ ε → Option (State χ ι ω ν ρ)
  | .edit e => some { s with input := D.edit e s.input, owed := D.request e :: s.owed }
  | .read r => some { s with
      owed := s.owed.erase r
      passes := s.passes ++ [⟨s.input, D.plan r s.input s.stored⟩] }
  | .write k =>
    match s.nextWrite k with
    | some (read, i, v, rest) => some { s with
        stored := if D.own s.input i = D.own read i then Function.update s.stored i (D.put v)
          else s.stored
        passes := s.passes.set k ⟨read, rest⟩ }
    | none => none

end Step

/-- A row is written only while the inputs it depends on are as the pass read them. -/
def Fresh (s : State χ ι ω ν ρ) : Act ρ ε → Prop
  | .edit _ => True
  | .read _ => True
  | .write k => ∀ w ∈ s.nextWrite k, D.dep s.input w.2.1 = D.dep w.1 w.2.1

instance [DecidableEq δ] (s : State χ ι ω ν ρ) : ∀ act : Act ρ ε, Decidable (D.Fresh s act)
  | .edit _ => .isTrue trivial
  | .read _ => .isTrue trivial
  | .write k => inferInstanceAs (Decidable (∀ w ∈ s.nextWrite k, _))

/-- Every planned write is the value of what its pass has read. -/
def Planned (s : State χ ι ω ν ρ) : Prop :=
  ∀ p ∈ s.passes, ∀ w ∈ p.pending, w.2 = D.value p.read w.1

/-- The row shows its value, or something is under way that will see to it. -/
def Tracked (s : State χ ι ω ν ρ) (i : ι) : Prop :=
  D.shows (s.stored i) (D.value s.input i) ∨ (∃ r ∈ s.owed, D.covers r i) ∨
    ∃ p ∈ s.passes, (∃ v, (i, v) ∈ p.pending) ∧ D.own p.read i = D.own s.input i

variable {D} in
theorem Tracked.finished {s : State χ ι ω ν ρ} {i : ι} (htracked : D.Tracked s i)
    (hfinished : s.Finished) : D.shows (s.stored i) (D.value s.input i) := by
  rcases htracked with hshows | ⟨r, hr, -⟩ | ⟨p, hp, ⟨v, hv⟩, -⟩
  · exact hshows
  · rw [hfinished.1] at hr
    cases hr
  · rw [hfinished.2 p hp] at hv
    cases hv

section Invariant
variable {D} [DecidableEq ι] [DecidableEq ρ] [DecidableEq κ] {s t : State χ ι ω ν ρ}
  {act : Act ρ ε} {i : ι}

/-- What a step is, taken apart. -/
inductive DerivationStep (D : Derivation χ ι ω ν ρ ε κ δ) (s : State χ ι ω ν ρ) :
    Act ρ ε → State χ ι ω ν ρ → Prop
  | edit (e : ε) : DerivationStep D s (.edit e)
      { s with input := D.edit e s.input, owed := D.request e :: s.owed }
  | read (r : ρ) : DerivationStep D s (.read r)
      { s with
        owed := s.owed.erase r
        passes := s.passes ++ [⟨s.input, D.plan r s.input s.stored⟩] }
  | write (k : ℕ) (read : χ) (i : ι) (v : ω) (rest : List (ι × ω))
      (hnext : s.nextWrite k = some (read, i, v, rest)) : DerivationStep D s (.write k)
      { s with
        stored := if D.own s.input i = D.own read i then Function.update s.stored i (D.put v)
          else s.stored
        passes := s.passes.set k ⟨read, rest⟩ }

theorem derivationStep_of_step (h : D.step s act = some t) : DerivationStep D s act t := by
  cases act with
  | edit e =>
    obtain rfl := Option.some.inj h
    exact .edit e
  | read r =>
    obtain rfl := Option.some.inj h
    exact .read r
  | write k =>
    simp only [step] at h
    split at h
    · rename_i read i v rest hnext
      obtain rfl := Option.some.inj h
      exact .write k read i v rest hnext
    · cases h

theorem Planned.step (hplanned : D.Planned s) (h : DerivationStep D s act t) : D.Planned t := by
  cases h with
  | edit e => exact hplanned
  | read r =>
    intro p hp w hw
    rcases List.mem_append.mp hp with hp | hp
    · exact hplanned p hp w hw
    · rw [List.mem_singleton.mp hp] at hw ⊢
      exact D.mem_plan hw
  | write k read i v rest hnext =>
    have hpass := State.nextWrite_some hnext
    intro p hp w hw
    rcases List.mem_or_eq_of_mem_set hp with hp | rfl
    · exact hplanned p hp w hw
    · exact hplanned _ (List.mem_of_getElem? hpass) w (List.mem_cons_of_mem _ hw)

/-- A row that a pass covers is tracked from its read on. -/
theorem tracked_of_read {r : ρ} (hcovers : D.covers r i)
    (h : DerivationStep D s (.read r) t) : D.Tracked t i := by
  cases h
  by_cases hshows : D.shows (s.stored i) (D.value s.input i)
  · exact .inl hshows
  · exact .inr (.inr ⟨_, List.mem_append_right _ (List.mem_singleton_self _),
      D.planned hcovers hshows, rfl⟩)

theorem Tracked.edit {e : ε} (hrow : D.Row i) (htracked : D.Tracked s i)
    (h : DerivationStep D s (.edit e) t) : D.Tracked t i := by
  cases h
  by_cases hcovers : D.covers (D.request e) i
  · exact .inr (.inl ⟨_, List.mem_cons_self, hcovers⟩)
  · obtain ⟨hown, hdep⟩ := D.reach hrow hcovers
    have hvalue : D.value (D.edit e s.input) i = D.value s.input i := D.value_congr hown hdep
    rcases htracked with hshows | ⟨r, hr, hrcovers⟩ | ⟨p, hp, hpending, hread⟩
    · left
      dsimp only
      rwa [hvalue]
    · exact .inr (.inl ⟨r, List.mem_cons_of_mem _ hr, hrcovers⟩)
    · exact .inr (.inr ⟨p, hp, hpending, hread.trans hown.symm⟩)

theorem Tracked.read {r : ρ} (htracked : D.Tracked s i)
    (h : DerivationStep D s (.read r) t) : D.Tracked t i := by
  by_cases hcovers : D.covers r i
  · exact tracked_of_read hcovers h
  · cases h
    rcases htracked with hshows | ⟨r', hr', hrcovers⟩ | ⟨p, hp, hrest⟩
    · exact .inl hshows
    · have hne : r' ≠ r := fun heq => hcovers (heq ▸ hrcovers)
      exact .inr (.inl ⟨r', (List.mem_erase_of_ne hne).mpr hr', hrcovers⟩)
    · exact .inr (.inr ⟨p, List.mem_append_left _ hp, hrest⟩)

/-- A write under `Fresh` leaves the row with its value, or its own input has changed and the
write did nothing. -/
theorem Tracked.write {k : ℕ} (htracked : D.Tracked s i) (hplanned : D.Planned s)
    (hfresh : D.Fresh s (.write k : Act ρ ε)) (h : DerivationStep D s (.write k) t) :
    D.Tracked t i := by
  cases h with
  | write _ read i₀ v rest hnext =>
    have hpass := State.nextWrite_some hnext
    have hdep : D.dep s.input i₀ = D.dep read i₀ := hfresh _ hnext
    have hv : v = D.value read i₀ :=
      hplanned _ (List.mem_of_getElem? hpass) (i₀, v) List.mem_cons_self
    by_cases hwritten : i = i₀ ∧ D.own s.input i₀ = D.own read i₀
    · obtain ⟨rfl, hown⟩ := hwritten
      left
      dsimp only
      rw [if_pos hown, Function.update_self, D.value_congr hown hdep, hv]
      exact D.shows_put _
    · have hstored : (if D.own s.input i₀ = D.own read i₀ then
          Function.update s.stored i₀ (D.put v) else s.stored) i = s.stored i := by
        split
        · rename_i hown
          exact Function.update_of_ne (fun heq => hwritten ⟨heq, hown⟩) _ _
        · rfl
      rcases htracked with hshows | howed | ⟨p, hp, ⟨w, hw⟩, hread⟩
      · left
        dsimp only
        rwa [hstored]
      · exact .inr (.inl howed)
      · refine .inr (.inr ?_)
        obtain ⟨j, hj⟩ := List.mem_iff_getElem?.mp hp
        by_cases hjk : j = k
        · subst hjk
          obtain rfl := Option.some.inj (hj.symm.trans hpass)
          -- The write at hand is not the one of this row, for its own input is as it was read.
          have hrest : (i, w) ∈ rest := by
            rcases List.mem_cons.mp hw with heq | hw
            · obtain ⟨rfl, rfl⟩ := Prod.mk.inj heq
              exact absurd ⟨rfl, hread.symm⟩ hwritten
            · exact hw
          have hlt : j < s.passes.length := (List.getElem?_eq_some_iff.mp hpass).1
          exact ⟨⟨read, rest⟩, List.mem_set hlt _, ⟨w, hrest⟩, hread⟩
        · refine ⟨p, ?_, ⟨w, hw⟩, hread⟩
          exact List.mem_iff_getElem?.mpr ⟨j, by rw [List.getElem?_set_ne (Ne.symm hjk)]; exact hj⟩

theorem Tracked.step (hrow : D.Row i) (htracked : D.Tracked s i) (hplanned : D.Planned s)
    (hfresh : D.Fresh s act) (h : DerivationStep D s act t) : D.Tracked t i := by
  cases act with
  | edit e => exact htracked.edit hrow h
  | read r => exact htracked.read h
  | write k => exact htracked.write hplanned hfresh h

/-- A row is tracked if it showed its value at the start or a pass has covered it. -/
theorem tracked_run (hrow : D.Row i) {input : χ} {stored : ι → ν} {tr : List (Act ρ ε)}
    (run : Steps (Guarded (Takes D.step) D.Fresh) (State.start input stored) tr s)
    (hi : D.shows (stored i) (D.value input i) ∨ ∃ r, .read r ∈ tr ∧ D.covers r i) :
    D.Tracked s i := by
  let I : List (Act ρ ε) → State χ ι ω ν ρ → Prop := fun tr s => D.Planned s ∧
    (D.shows (stored i) (D.value input i) ∨ (∃ r, .read r ∈ tr ∧ D.covers r i) → D.Tracked s i)
  suffices hI : I tr s from hI.2 hi
  refine run.invariant ⟨nofun, ?_⟩ ?_
  · rintro (hshows | ⟨r, hr, -⟩)
    · exact .inl hshows
    · cases hr
  · rintro tr t act u ⟨hplanned, htracked⟩ ⟨hfresh, hstep⟩
    have h := derivationStep_of_step hstep
    refine ⟨hplanned.step h, fun hcause => ?_⟩
    rcases hcause with hshows | ⟨r, hr, hcovers⟩
    · exact (htracked (.inl hshows)).step hrow hplanned hfresh h
    · rcases List.mem_cons.mp hr with rfl | hr
      · exact tracked_of_read hcovers h
      · exact (htracked (.inr ⟨r, hr, hcovers⟩)).step hrow hplanned hfresh h

end Invariant

end Derivation

end MonitoringHub.Lib
