import Mathlib.Algebra.Order.Field.Rat
import Mathlib.Order.Interval.Set.Defs
import Mathlib.Tactic.Linarith

/-! The tiers of the collector loop that run by an anchor: a tier is due an interval after its
anchor, and a run moves the anchor on by one interval, or to the present where that would leave
it an interval behind. Times are seconds since the epoch. -/

namespace MonitoringHub.Collector

def extendedInterval : ℚ := 3600
def slowExtendedInterval : ℚ := 86400

/-- `_next_anchor` -/
def nextAnchor (last now interval : ℚ) : ℚ :=
  let nxt := last + interval
  if now - nxt < interval then nxt else now

/-- The anchor of a tier, and the loop times at which it ran, newest first. -/
structure AnchoredTier where
  last : ℚ
  runs : List ℚ
  deriving DecidableEq

namespace AnchoredTier

def due (interval : ℚ) (tier : AnchoredTier) (now : ℚ) : Prop := now - tier.last ≥ interval

instance (interval : ℚ) (tier : AnchoredTier) (now : ℚ) : Decidable (tier.due interval now) :=
  inferInstanceAs (Decidable (now - tier.last ≥ interval))

/-- What one turn of the loop, begun at `now`, does for the tier. -/
def visit (interval : ℚ) (tier : AnchoredTier) (now : ℚ) : AnchoredTier :=
  if tier.due interval now then ⟨nextAnchor tier.last now interval, now :: tier.runs⟩ else tier

def loop (interval seed : ℚ) (times : List ℚ) : AnchoredTier :=
  times.foldl (visit interval) ⟨seed, []⟩

/-- The runs from `x` on, up to `y`. -/
def runsWithin (tier : AnchoredTier) (x y : ℚ) : List ℚ := tier.runs.filter fun r => x ≤ r ∧ r ≤ y

end AnchoredTier

/-- The turns of `run_loop`, for its two anchored tiers. -/
def anchoredTiers (lastExtended lastSlowExtended : ℚ) (times : List ℚ) :
    AnchoredTier × AnchoredTier :=
  (.loop extendedInterval lastExtended times, .loop slowExtendedInterval lastSlowExtended times)

namespace AnchoredTier
variable {interval now x y : ℚ} {tier : AnchoredTier}

/-- The anchor of a tier that is due ends up within the last interval, at least one further on. -/
theorem nextAnchor_bounds (hpos : 0 < interval) (hdue : tier.due interval now) :
    now - interval < nextAnchor tier.last now interval ∧
      nextAnchor tier.last now interval ≤ now ∧
      tier.last + interval ≤ nextAnchor tier.last now interval := by
  unfold due at hdue
  unfold nextAnchor
  dsimp only
  split
  · refine ⟨?_, ?_, le_rfl⟩ <;> linarith
  · refine ⟨?_, le_rfl, ?_⟩ <;> linarith

/-- The runs are pairwise later than the older ones and less than an interval after the anchor;
those from any time on have moved the anchor on by an interval each, and no window holds more
than its length allows. -/
structure Paced (interval : ℚ) (tier : AnchoredTier) : Prop where
  past : ∀ r ∈ tier.runs, r < tier.last + interval
  ordered : tier.runs.Pairwise (· > ·)
  moved : ∀ x, 0 < (tier.runs.filter (x ≤ ·)).length →
    (tier.runs.filter (x ≤ ·)).length * interval < tier.last - x + 2 * interval
  window : ∀ x y, x ≤ y → (tier.runsWithin x y).length * interval < y - x + 2 * interval

theorem Paced.visit (h : tier.Paced interval) (hpos : 0 < interval) :
    (tier.visit interval now).Paced interval := by
  unfold AnchoredTier.visit
  split
  · rename_i hdue
    obtain ⟨hnear, hpast, hstep⟩ := nextAnchor_bounds hpos hdue
    have hlater : ∀ r ∈ tier.runs, r < now := by
      intro r hr
      have := h.past r hr
      linarith
    have hmoved : ∀ x, 0 < ((now :: tier.runs).filter (x ≤ ·)).length →
        ((now :: tier.runs).filter (x ≤ ·)).length * interval <
          nextAnchor tier.last now interval - x + 2 * interval := by
      intro x hsome
      by_cases hx : x ≤ now
      · rw [List.filter_cons_of_pos (by simpa using hx), List.length_cons]
        push_cast
        by_cases hold : 0 < (tier.runs.filter (x ≤ ·)).length
        · have := h.moved x hold
          linarith
        · have hnone : (tier.runs.filter (x ≤ ·)).length = 0 := by omega
          rw [hnone]
          push_cast
          linarith
      · obtain ⟨r, hr⟩ := List.exists_mem_of_length_pos hsome
        obtain ⟨hmem, hxr⟩ := List.mem_filter.mp hr
        have hxr : x ≤ r := by simpa using hxr
        rcases List.mem_cons.mp hmem with rfl | hmem
        · exact absurd hxr hx
        · have := hlater r hmem
          linarith
    refine ⟨?_, List.pairwise_cons.mpr ⟨hlater, h.ordered⟩, hmoved, ?_⟩
    · intro r hr
      rcases List.mem_cons.mp hr with rfl | hr
      · linarith
      · have := hlater r hr
        linarith
    · intro x y hxy
      by_cases hin : x ≤ now ∧ now ≤ y
      · -- every run is over by `now`, so the window's end cuts none off
        have hall : (now :: tier.runs).filter (fun r => x ≤ r ∧ r ≤ y) =
            (now :: tier.runs).filter (x ≤ ·) := by
          refine List.filter_congr fun r hr => ?_
          have hry : r ≤ y := by
            rcases List.mem_cons.mp hr with rfl | hr
            · exact hin.2
            · exact (hlater r hr).le.trans hin.2
          simp [hry]
        have hsome : 0 < ((now :: tier.runs).filter (x ≤ ·)).length := by
          rw [List.filter_cons_of_pos (by simpa using hin.1), List.length_cons]
          omega
        have := hmoved x hsome
        rw [runsWithin, hall]
        linarith [hin.2]
      · have := h.window x y hxy
        rwa [runsWithin, List.filter_cons_of_neg (by simpa using hin)]
  · exact h

theorem loop_paced (hpos : 0 < interval) (seed : ℚ) (times : List ℚ) :
    (loop interval seed times).Paced interval := by
  refine List.foldlRecOn times _ ?_ fun _ h _ _ => h.visit hpos
  refine ⟨by simp, List.Pairwise.nil, by simp, fun x y hxy => ?_⟩
  have hnone : ((⟨seed, []⟩ : AnchoredTier).runsWithin x y).length = 0 := rfl
  rw [hnone]
  push_cast
  linarith

end AnchoredTier

/-- Whatever the anchor it starts from, a tier keeps its anchor within an interval of its last
run, never runs twice at one time, and keeps its budget in every window. -/
theorem anchored_budget (interval seed : ℚ) (times : List ℚ) (hpos : 0 < interval) :
    let tier := AnchoredTier.loop interval seed times
    (∀ now, tier.due interval now →
      (tier.visit interval now).last ∈ Set.Ioc (now - interval) now) ∧
      tier.runs.Pairwise (· > ·) ∧
      ∀ x T, 0 ≤ T → (tier.runsWithin x (x + T)).length < T / interval + 2 := by
  have hpaced := AnchoredTier.loop_paced hpos seed times
  refine ⟨fun now hdue => ?_, hpaced.ordered, fun x T hT => ?_⟩
  · obtain ⟨hnear, hpast, -⟩ := AnchoredTier.nextAnchor_bounds hpos hdue
    rw [AnchoredTier.visit, if_pos hdue]
    exact ⟨hnear, hpast⟩
  · have hwindow := hpaced.window x (x + T) (by linarith)
    have hdiv : T / interval * interval = T := div_mul_cancel₀ T hpos.ne'
    refine lt_of_mul_lt_mul_right ?_ hpos.le
    rw [add_mul, hdiv]
    linarith

/-- The extended tier after a restart at 7200: a run 500 seconds late, and a stall. -/
theorem anchored_budget_stalled :
    let tier := (anchoredTiers 7200 0 [7200, 10800, 14900, 18000, 28800]).1
    tier.runs = [28800, 18000, 14900, 10800] ∧ tier.last = 28800 ∧
      (tier.runsWithin 10800 (10800 + 7200)).length < (7200 / extendedInterval + 2 : ℚ) := by
  refine ⟨by decide +kernel, by decide +kernel, ?_⟩
  exact (anchored_budget extendedInterval 7200 [7200, 10800, 14900, 18000, 28800]
    (by decide +kernel)).2.2 10800 7200 (by norm_num)

end MonitoringHub.Collector
