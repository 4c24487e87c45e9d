import Mathlib.Algebra.Order.Floor.Ring
import Mathlib.Data.Rat.Floor
import Mathlib.Data.List.Pairwise
import Mathlib.Tactic.Linarith
import MonitoringHub.Lib.StepRun

/-! The standard tier of the collector loop, which keeps to a phase grid: it is due at the first
point of the grid that is far enough from the previous run. Times are seconds since the epoch;
the loop reads the clock to see whether the tier is due and again when it starts. -/

namespace MonitoringHub.Collector
open Lib

def standardInterval : ℚ := 300
def standardPhaseSeconds : ℚ := 190
def standardMinGapSeconds : ℚ := 150

/-- The `while` of `_standard_due_at`. -/
def raiseTo (earliest t : ℚ) : ℚ :=
  if t < earliest then raiseTo earliest (t + standardInterval) else t
termination_by ⌈(earliest - t) / standardInterval⌉.toNat
decreasing_by
  rename_i hlt
  have hpos : 0 < (earliest - t) / standardInterval := by
    unfold standardInterval
    linarith
  have hnext : (earliest - (t + standardInterval)) / standardInterval =
      (earliest - t) / standardInterval - 1 := by
    unfold standardInterval
    ring
  rw [hnext, Int.ceil_sub_one]
  have := Int.ceil_pos.mpr hpos
  omega

def standardDueAt (last : ℚ) : ℚ :=
  if last = 0 then 0
  else
    let earliest := last + standardMinGapSeconds
    raiseTo earliest
      (⌊earliest / standardInterval⌋ * standardInterval + standardPhaseSeconds)

/-- The slots of the grid, and where each begins. -/
def phaseSlot (t : ℚ) : ℤ := ⌊(t - standardPhaseSeconds) / standardInterval⌋

def slotStart (k : ℤ) : ℚ := k * standardInterval + standardPhaseSeconds

/-- The clock as last read, `last_standard`, the starts of the tier, and the times at which the
loop asked whether it was due; both newest first. -/
structure StandardTier where
  clock : ℚ
  lastStandard : ℚ
  starts : List ℚ
  asked : List ℚ

/-- A turn of the loop up to the standard tier: asked at `checked` it is not due, or it is and
starts at `started`. -/
inductive Turn
  | early (checked : ℚ)
  | run (checked started : ℚ)

namespace StandardTier

/-- As `_load_last_run_times` leaves it: a run on record counts as a start. -/
def seeded (clock lastStandard : ℚ) : StandardTier :=
  ⟨clock, lastStandard, if lastStandard = 0 then [] else [lastStandard], []⟩

def step (tier : StandardTier) : Turn → Option StandardTier
  | .early checked =>
    if tier.clock ≤ checked ∧ checked < standardDueAt tier.lastStandard then
      some { tier with clock := checked, asked := checked :: tier.asked }
    else none
  | .run checked started =>
    if tier.clock ≤ checked ∧ standardDueAt tier.lastStandard ≤ checked ∧ checked ≤ started then
      some ⟨started, started, started :: tier.starts, checked :: tier.asked⟩
    else none

/-- Starts keep the gap, no slot has two, and none is without one in which the loop asked. -/
structure OneRunPerSlot (tier : StandardTier) : Prop where
  gap : tier.starts.IsChain fun newer older => older + standardMinGapSeconds ≤ newer
  once : (tier.starts.map phaseSlot).Nodup
  covered : ∀ checked ∈ tier.asked, ∃ s ∈ tier.starts, phaseSlot s = phaseSlot checked

/-- Where it is not due, the previous run did not start within the gap before the slot; where it
is, it starts in the slot in which it was found due. -/
def OnTime (tier : StandardTier) : Turn → Prop
  | .early checked =>
    ¬ (slotStart (phaseSlot checked) - standardMinGapSeconds < tier.lastStandard ∧
      tier.lastStandard < slotStart (phaseSlot checked))
  | .run checked started => phaseSlot started = phaseSlot checked

end StandardTier

section Grid
variable {t last earliest : ℚ} {k : ℤ}

theorem le_phaseSlot : k ≤ phaseSlot t ↔ slotStart k ≤ t := by
  unfold phaseSlot slotStart standardInterval standardPhaseSeconds
  rw [Int.le_floor, le_div_iff₀ (by norm_num)]
  constructor <;> intro h <;> linarith

theorem phaseSlot_lt : phaseSlot t < k ↔ t < slotStart k := by
  rw [← not_le, le_phaseSlot, not_le]

theorem phaseSlot_mono {t' : ℚ} (h : t ≤ t') : phaseSlot t ≤ phaseSlot t' :=
  le_phaseSlot.mpr ((le_phaseSlot.mp le_rfl).trans h)

theorem slotStart_succ : slotStart (k + 1) = slotStart k + standardInterval := by
  unfold slotStart
  push_cast
  ring

/-- The loop ends at the first point of the grid that is not before `earliest`. -/
theorem raiseTo_grid (ht : t = slotStart k) (hbelow : t - standardInterval < earliest) :
    ∃ j, raiseTo earliest t = slotStart j ∧ earliest ≤ slotStart j ∧
      slotStart j - standardInterval < earliest := by
  fun_induction raiseTo earliest t generalizing k with
  | case1 t hlt ih =>
    refine ih (k := k + 1) ?_ ?_
    · rw [ht, slotStart_succ]
    · linarith
  | case2 t hge =>
    subst ht
    exact ⟨k, rfl, not_lt.mp hge, hbelow⟩

theorem standardDueAt_zero : standardDueAt 0 = 0 := by rw [standardDueAt, if_pos rfl]

theorem standardDueAt_grid (h : last ≠ 0) : ∃ k, standardDueAt last = slotStart k ∧
    last + standardMinGapSeconds ≤ slotStart k ∧
    slotStart k - standardInterval < last + standardMinGapSeconds := by
  rw [standardDueAt, if_neg h]
  refine raiseTo_grid (k := ⌊(last + standardMinGapSeconds) / standardInterval⌋) rfl ?_
  have hfloor := Int.floor_le ((last + standardMinGapSeconds) / standardInterval)
  rw [le_div_iff₀ (by unfold standardInterval; norm_num)] at hfloor
  have hphase : standardPhaseSeconds < standardInterval := by
    unfold standardPhaseSeconds standardInterval
    norm_num
  linarith

/-- A point of the grid that is far enough from the last run is not before the due time. -/
theorem standardDueAt_le (h : last ≠ 0) (hk : last + standardMinGapSeconds ≤ slotStart k) :
    standardDueAt last ≤ slotStart k := by
  obtain ⟨j, hdue, -, hfirst⟩ := standardDueAt_grid h
  rw [hdue]
  by_contra hlt
  have hslot : k + 1 ≤ j := by
    have hj : phaseSlot (slotStart k) < j := phaseSlot_lt.mpr (not_le.mp hlt)
    have hk' : k ≤ phaseSlot (slotStart k) := le_phaseSlot.mpr le_rfl
    omega
  have hnext : slotStart (k + 1) ≤ slotStart j :=
    le_phaseSlot.mp (hslot.trans (le_phaseSlot.mpr le_rfl))
  rw [slotStart_succ] at hnext
  linarith

theorem standardDueAt_eq (h : last ≠ 0) (hk : last + standardMinGapSeconds ≤ slotStart k)
    (hfirst : slotStart k - standardInterval < last + standardMinGapSeconds) :
    standardDueAt last = slotStart k := by
  obtain ⟨j, hdue, hgap, -⟩ := standardDueAt_grid h
  refine le_antisymm (standardDueAt_le h hk) ?_
  have hbefore : slotStart (k - 1) < slotStart j := by
    have hsucc := slotStart_succ (k := k - 1)
    rw [sub_add_cancel] at hsucc
    linarith
  have hj : k ≤ j := by
    by_contra hlt
    have hle : slotStart j ≤ slotStart (k - 1) :=
      le_phaseSlot.mp ((by omega : j ≤ k - 1).trans (le_phaseSlot.mpr le_rfl))
    linarith
  rw [hdue]
  exact le_phaseSlot.mp (hj.trans (le_phaseSlot.mpr le_rfl))

/-- From the due time on the slot is a later one than the last run's. -/
theorem phaseSlot_due (h : last ≠ 0) (hdue : standardDueAt last ≤ t) :
    phaseSlot last < phaseSlot t := by
  obtain ⟨k, hgrid, hgap, -⟩ := standardDueAt_grid h
  rw [hgrid] at hdue
  have hlast : phaseSlot last < k := by
    refine phaseSlot_lt.mpr (lt_of_lt_of_le ?_ hgap)
    unfold standardMinGapSeconds
    linarith
  exact hlast.trans_le (le_phaseSlot.mpr hdue)

theorem gap_le_due (h : last ≠ 0) : last + standardMinGapSeconds ≤ standardDueAt last := by
  obtain ⟨k, hgrid, hgap, -⟩ := standardDueAt_grid h
  rwa [hgrid]

/-- Before the due time the last run is of the same slot, unless it came within the gap before. -/
theorem phaseSlot_early (h : last ≠ 0) (hle : last ≤ t) (hearly : t < standardDueAt last) :
    phaseSlot last = phaseSlot t ↔ ¬ (slotStart (phaseSlot t) - standardMinGapSeconds < last ∧
      last < slotStart (phaseSlot t)) := by
  have hin : slotStart (phaseSlot t) ≤ t := le_phaseSlot.mp le_rfl
  constructor
  · rintro hsame ⟨-, hbefore⟩
    have := phaseSlot_lt.mpr hbefore
    omega
  · intro hgap
    refine le_antisymm (phaseSlot_mono hle) (le_phaseSlot.mpr ?_)
    by_contra hbefore
    refine hgap ⟨?_, not_le.mp hbefore⟩
    by_contra hfar
    have := standardDueAt_le h (k := phaseSlot t) (by linarith)
    linarith

end Grid

namespace StandardTier

/-- What holds of every tier the loop can be in. -/
structure Sound (tier : StandardTier) : Prop where
  clock_pos : 0 < tier.clock
  newest : tier.starts.head?.getD 0 = tier.lastStandard
  started : ∀ s ∈ tier.starts, 0 < s ∧ s ≤ tier.clock
  spaced : tier.starts.IsChain fun newer older => older + standardMinGapSeconds ≤ newer
  slots : tier.starts.Pairwise fun newer older => phaseSlot older < phaseSlot newer

variable {tier tier' : StandardTier} {turn : Turn} {clock lastStandard t : ℚ}

theorem seeded_sound (hclock : 0 < clock) (hlast : 0 ≤ lastStandard)
    (hpast : lastStandard ≤ clock) :
    (seeded clock lastStandard).Sound := by
  unfold seeded
  split
  · rename_i hzero
    exact ⟨hclock, hzero.symm, by simp, List.IsChain.nil, List.Pairwise.nil⟩
  · rename_i hsome
    have hpos : 0 < lastStandard := lt_of_le_of_ne hlast (Ne.symm hsome)
    exact ⟨hclock, rfl, by simpa using ⟨hpos, hpast⟩, List.IsChain.singleton _,
      List.pairwise_singleton _ _⟩

/-- The tier has never run, or its newest start is `last_standard` and the others are of earlier
slots. -/
theorem Sound.starts_cases (h : tier.Sound) : tier.lastStandard = 0 ∧ tier.starts = [] ∨
    tier.lastStandard ≠ 0 ∧ tier.lastStandard ≤ tier.clock ∧
      ∃ older, tier.starts = tier.lastStandard :: older ∧
        ∀ s ∈ older, phaseSlot s < phaseSlot tier.lastStandard := by
  have hnewest := h.newest
  cases hstarts : tier.starts with
  | nil =>
    rw [hstarts] at hnewest
    exact Or.inl ⟨hnewest.symm, rfl⟩
  | cons s older =>
    rw [hstarts] at hnewest
    have hlast : s = tier.lastStandard := hnewest
    subst hlast
    obtain ⟨hpos, hpast⟩ := h.started _ (hstarts ▸ List.mem_cons_self)
    have hslots := h.slots
    rw [hstarts] at hslots
    exact Or.inr ⟨hpos.ne', hpast, older, rfl, (List.pairwise_cons.mp hslots).1⟩

theorem Sound.step (h : tier.Sound) (hstep : tier.step turn = some tier') : tier'.Sound := by
  cases turn with
  | early checked =>
    simp only [StandardTier.step, Option.ite_none_right_eq_some, Option.some.injEq] at hstep
    obtain ⟨⟨hclock, -⟩, rfl⟩ := hstep
    refine ⟨h.clock_pos.trans_le hclock, h.newest, ?_, h.spaced, h.slots⟩
    intro s hs
    exact ⟨(h.started s hs).1, (h.started s hs).2.trans hclock⟩
  | run checked started =>
    simp only [StandardTier.step, Option.ite_none_right_eq_some, Option.some.injEq] at hstep
    obtain ⟨⟨hclock, hdue, hdelay⟩, rfl⟩ := hstep
    have hlater : tier.clock ≤ started := hclock.trans hdelay
    refine ⟨h.clock_pos.trans_le hlater, rfl, ?_, ?_, ?_⟩
    · intro s hs
      rcases List.mem_cons.mp hs with rfl | hs
      · exact ⟨h.clock_pos.trans_le hlater, le_rfl⟩
      · exact ⟨(h.started s hs).1, (h.started s hs).2.trans hlater⟩
    · rcases h.starts_cases with ⟨-, hnone⟩ | ⟨hlast, -, older, hstarts, -⟩
      · rw [hnone]
        exact List.IsChain.singleton _
      · have hspaced := h.spaced
        rw [hstarts] at hspaced ⊢
        exact List.IsChain.cons_cons ((gap_le_due hlast).trans (hdue.trans hdelay)) hspaced
    · refine List.pairwise_cons.mpr ⟨?_, h.slots⟩
      rcases h.starts_cases with ⟨-, hnone⟩ | ⟨hlast, -, older, hstarts, hbefore⟩
      · simp [hnone]
      · have hnewest := phaseSlot_due hlast (hdue.trans hdelay)
        intro s hs
        rw [hstarts] at hs
        rcases List.mem_cons.mp hs with rfl | hs
        · exact hnewest
        · exact (hbefore s hs).trans hnewest

/-- A slot that is not over has a start exactly if the last one is in it. -/
theorem Sound.start_in_slot (h : tier.Sound) (hclock : tier.clock ≤ t) :
    (∃ s ∈ tier.starts, phaseSlot s = phaseSlot t) ↔
      tier.lastStandard ≠ 0 ∧ phaseSlot tier.lastStandard = phaseSlot t := by
  rcases h.starts_cases with ⟨hzero, hnone⟩ | ⟨hlast, hpast, older, hstarts, hbefore⟩
  · simp [hzero, hnone]
  · rw [hstarts]
    constructor
    · rintro ⟨s, hs, hsame⟩
      rcases List.mem_cons.mp hs with rfl | hs
      · exact ⟨hlast, hsame⟩
      · have hlt := hbefore s hs
        have hle := phaseSlot_mono (hpast.trans hclock)
        omega
    · rintro ⟨-, hsame⟩
      exact ⟨_, List.mem_cons_self, hsame⟩

theorem Sound.once (h : tier.Sound) : (tier.starts.map phaseSlot).Nodup := by
  rw [List.nodup_iff_pairwise_ne, List.pairwise_map]
  exact h.slots.imp fun hlt => hlt.ne'

/-- A turn leaves no slot without a run exactly if it is on time. -/
theorem Sound.oneRunPerSlot_step (h : tier.Sound) (hone : tier.OneRunPerSlot)
    (hstep : tier.step turn = some tier') : tier'.OneRunPerSlot ↔ tier.OnTime turn := by
  have hsound := h.step hstep
  cases turn with
  | early checked =>
    simp only [StandardTier.step, Option.ite_none_right_eq_some, Option.some.injEq] at hstep
    obtain ⟨⟨hclock, hearly⟩, rfl⟩ := hstep
    have hcovered : (∃ s ∈ tier.starts, phaseSlot s = phaseSlot checked) ↔
        tier.OnTime (.early checked) := by
      rw [h.start_in_slot hclock]
      rcases h.starts_cases with ⟨hzero, -⟩ | ⟨hlast, hpast, -⟩
      · rw [hzero, standardDueAt_zero] at hearly
        have := h.clock_pos
        linarith
      · exact (and_iff_right hlast).trans (phaseSlot_early hlast (hpast.trans hclock) hearly)
    constructor
    · intro hone'
      exact hcovered.mp (hone'.covered checked List.mem_cons_self)
    · intro hontime
      refine ⟨hsound.spaced, hsound.once, fun c hc => ?_⟩
      rcases List.mem_cons.mp hc with rfl | hc
      · exact hcovered.mpr hontime
      · exact hone.covered c hc
  | run checked started =>
    simp only [StandardTier.step, Option.ite_none_right_eq_some, Option.some.injEq] at hstep
    obtain ⟨⟨hclock, hdue, hdelay⟩, rfl⟩ := hstep
    constructor
    · intro hone'
      obtain ⟨s, hs, hsame⟩ := hone'.covered checked List.mem_cons_self
      rcases List.mem_cons.mp hs with rfl | hs
      · exact hsame
      · -- the starts before are of earlier slots than the one that is due
        obtain ⟨hlast, hsame'⟩ := (h.start_in_slot hclock).mp ⟨s, hs, hsame⟩
        exact absurd hsame' (phaseSlot_due hlast hdue).ne
    · intro hontime
      refine ⟨hsound.spaced, hsound.once, fun c hc => ?_⟩
      rcases List.mem_cons.mp hc with rfl | hc
      · exact ⟨started, List.mem_cons_self, hontime⟩
      · obtain ⟨s, hs, hsame⟩ := hone.covered c hc
        exact ⟨s, List.mem_cons_of_mem _ hs, hsame⟩

/-- The gap and the single start hold of every run; every slot asked about has its start in the
runs whose every turn is on time. -/
theorem oneRunPerSlot_iff_onTime {tr : List Turn} (clock lastStandard : ℚ) (hclock : 0 < clock)
    (hlast : 0 ≤ lastStandard) (hpast : lastStandard ≤ clock) :
    Steps (Keeping (Takes step) OneRunPerSlot) (seeded clock lastStandard) tr tier ↔
      Steps (Guarded (Takes step) OnTime) (seeded clock lastStandard) tr tier := by
  have hstart := seeded_sound hclock hlast hpast
  refine Steps.keeping_iff (I := Sound) hstart ⟨hstart.spaced, hstart.once, ?_⟩
    (fun _ _ _ h hstep => h.step hstep) fun _ _ _ h hone hstep => h.oneRunPerSlot_step hone hstep
  simp [seeded]

/-- Late or not, starts keep the gap and no slot has two. -/
theorem starts_apart {tr : List Turn} (hclock : 0 < clock) (hlast : 0 ≤ lastStandard)
    (hpast : lastStandard ≤ clock) (run : Steps (Takes step) (seeded clock lastStandard) tr tier) :
    (tier.starts.IsChain fun newer older => older + standardMinGapSeconds ≤ newer) ∧
      (tier.starts.map phaseSlot).Nodup := by
  have hsound : tier.Sound :=
    run.stable (seeded_sound hclock hlast hpast) fun _ _ _ h hstep => h.step hstep
  exact ⟨hsound.spaced, hsound.once⟩

/-- The first run ever and the one after it, a second late to start. -/
theorem oneRunPerSlot_iff_onTime_twoRuns :
    Steps (Keeping (Takes step) OneRunPerSlot) (seeded 780 0) [.run 1090 1091, .run 790 790]
      ⟨1091, 1091, [1091, 790], [1090, 790]⟩ := by
  have hdue : standardDueAt 790 = 1090 := by
    rw [standardDueAt_eq (k := 3)] <;>
      norm_num [slotStart, standardInterval, standardPhaseSeconds, standardMinGapSeconds]
  have hsame : phaseSlot 1091 = phaseSlot 1090 := by decide +kernel
  have first : Takes step (seeded 780 0) (.run 790 790) ⟨790, 790, [790], [790]⟩ := by
    simp [Takes, step, seeded, standardDueAt_zero]
    norm_num
  have second : Takes step ⟨790, 790, [790], [790]⟩ (.run 1090 1091)
      ⟨1091, 1091, [1091, 790], [1090, 790]⟩ := by
    simp [Takes, step, hdue]
    norm_num
  exact (oneRunPerSlot_iff_onTime 780 0 (by norm_num) le_rfl (by norm_num)).mpr
    ((Steps.refl.snoc ⟨rfl, first⟩).snoc ⟨hsame, second⟩)

/-- A run 200 seconds into its slot leaves the next slot without one: asked at 1100, the tier is
due at 1390. -/
theorem lateRun_skips_slot : ∃ tier : StandardTier,
    Steps (Takes step) (seeded 980 0) [.run 1390 1390, .early 1100, .run 990 990] tier ∧
      1100 ∈ tier.asked ∧ (∀ s ∈ tier.starts, phaseSlot s ≠ phaseSlot 1100) ∧
      ¬ tier.OneRunPerSlot := by
  have hdue : standardDueAt 990 = 1390 := by
    rw [standardDueAt_eq (k := 4)] <;>
      norm_num [slotStart, standardInterval, standardPhaseSeconds, standardMinGapSeconds]
  have hskipped : ∀ s ∈ ([1390, 990] : List ℚ), phaseSlot s ≠ phaseSlot 1100 := by
    decide +kernel
  have first : Takes step (seeded 980 0) (.run 990 990) ⟨990, 990, [990], [990]⟩ := by
    simp [Takes, step, seeded, standardDueAt_zero]
    norm_num
  have second : Takes step ⟨990, 990, [990], [990]⟩ (.early 1100)
      ⟨1100, 990, [990], [1100, 990]⟩ := by
    simp [Takes, step, hdue]
    norm_num
  have third : Takes step ⟨1100, 990, [990], [1100, 990]⟩ (.run 1390 1390)
      ⟨1390, 1390, [1390, 990], [1390, 1100, 990]⟩ := by
    simp [Takes, step, hdue]
    norm_num
  refine ⟨⟨1390, 1390, [1390, 990], [1390, 1100, 990]⟩,
    ((Steps.refl.snoc first).snoc second).snoc third, by simp, hskipped, ?_⟩
  intro hone
  obtain ⟨s, hs, hsame⟩ := hone.covered 1100 (by simp)
  exact hskipped s hs hsame

end StandardTier

end MonitoringHub.Collector
