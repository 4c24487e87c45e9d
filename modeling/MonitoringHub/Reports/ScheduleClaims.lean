import MonitoringHub.Reports.Schedules
import MonitoringHub.Lib.StepRun
import Mathlib.Data.List.DropRight
import Mathlib.Data.List.Nodup

/-! Ticks of the report scheduler at one schedule. Any number of ticks interleave: a tick reads
the row, then reads the clock and asks `due`, and claims a period only if the row still holds
the `last_period_end` it read. -/

namespace MonitoringHub.Reports
open Lib

/-- A claim that changed the row: the clock its tick had read, and what was due. -/
structure Claim where
  now : ℤ
  period : Due
  deriving DecidableEq

/-- A tick has read the row, after `seen` claims; or it found a period due and is to claim it;
or it is through with the schedule. -/
inductive Tick
  | rowRead (previous : Option ℤ) (seen : ℕ)
  | claiming (previous : Option ℤ) (seen : ℕ) (now : ℤ) (period : Due)
  | finished (now : ℤ)
  deriving DecidableEq

/-- The row's `last_period_end`, and the claims newest first. -/
structure ScheduleRun where
  clock : ℤ
  lastPeriodEnd : Option ℤ
  claims : List Claim
  ticks : List Tick

inductive TickAct
  | elapse (microseconds : ℕ)
  | readRow
  | askDue (k : ℕ)
  | claim (k : ℕ)

/-- A schedule as it is created. -/
def ScheduleRun.fresh (clock : ℤ) : ScheduleRun := ⟨clock, none, [], []⟩

def ScheduleRun.setTick (r : ScheduleRun) (k : ℕ) (tick : Tick) : ScheduleRun :=
  { r with ticks := r.ticks.set k tick }

/-- `_claim` -/
def ScheduleRun.claim (r : ScheduleRun) (previous : Option ℤ) (c : Claim) : ScheduleRun :=
  if r.lastPeriodEnd = previous then
    { r with lastPeriodEnd := some c.period.periodEnd, claims := c :: r.claims }
  else r

namespace Schedule
variable (s : Schedule) (z : Zone)

/-- An error ends the tick's work on the schedule. -/
def asked (now : ℤ) (previous : Option ℤ) (seen : ℕ) : Tick :=
  match s.due z now s.createdAt previous with
  | .ok (some period) => .claiming previous seen now period
  | .ok none => .finished now
  | .error _ => .finished now

def step (r : ScheduleRun) : TickAct → Option ScheduleRun
  | .elapse microseconds => some { r with clock := r.clock + microseconds }
  | .readRow =>
    if s.enabled then
      some { r with ticks := r.ticks ++ [.rowRead r.lastPeriodEnd r.claims.length] }
    else none
  | .askDue k =>
    match r.ticks[k]? with
    | some (.rowRead previous seen) => some (r.setTick k (s.asked z r.clock previous seen))
    | _ => none
  | .claim k =>
    match r.ticks[k]? with
    | some (.claiming previous _ now period) =>
      some ((r.claim previous ⟨now, period⟩).setTick k (.finished now))
    | _ => none

end Schedule

/-- No occurrence is claimed twice. -/
def ScheduleRun.ClaimedOnce (r : ScheduleRun) : Prop :=
  (r.claims.map (·.period.occurrence)).Nodup

/-- Every occurrence that a tick was owed is claimed. -/
def ScheduleRun.Covered (s : Schedule) (z : Zone) (r : ScheduleRun) : Prop :=
  ∀ now, Tick.finished now ∈ r.ticks → ∀ occ, Owed s z now occ →
    ∃ c ∈ r.claims, c.period.occurrence = occ

/-- Since the tick read the row no claim has landed, or one of the tick's own occurrence. -/
def Tick.Uncontested (claims : List Claim) : Tick → Prop
  | claiming _ seen _ period => claims.rdrop seen = [] ∨
      ∃ c ∈ claims.rdrop seen, c.period.occurrence = period.occurrence
  | rowRead _ _ => True
  | finished _ => True

/-- The condition on a step: a claim is uncontested. -/
def Uncontested (r : ScheduleRun) : TickAct → Prop
  | .claim k => ∀ tick ∈ r.ticks[k]?, tick.Uncontested r.claims
  | _ => True

instance (claims : List Claim) (tick : Tick) : Decidable (tick.Uncontested claims) :=
  match tick with
  | .claiming _ seen _ period => inferInstanceAs (Decidable (claims.rdrop seen = [] ∨
      ∃ c ∈ claims.rdrop seen, c.period.occurrence = period.occurrence))
  | .rowRead _ _ => .isTrue trivial
  | .finished _ => .isTrue trivial

instance (r : ScheduleRun) (act : TickAct) : Decidable (Uncontested r act) :=
  match act with
  | .claim k => inferInstanceAs (Decidable (∀ tick ∈ r.ticks[k]?, tick.Uncontested r.claims))
  | .elapse _ => .isTrue trivial
  | .readRow => .isTrue trivial
  | .askDue _ => .isTrue trivial

/-- The last period end that a list of claims leaves in the row. -/
def lastEnd (claims : List Claim) : Option ℤ := claims.head?.map (·.period.periodEnd)

/-- What a tick has read is what the first `seen` claims left. -/
def ReadAfter (claims : List Claim) (previous : Option ℤ) (seen : ℕ) : Prop :=
  seen ≤ claims.length ∧ previous = lastEnd (claims.rtake seen)

def Tick.Sound (s : Schedule) (z : Zone) (claims : List Claim) : Tick → Prop
  | rowRead previous seen => ReadAfter claims previous seen
  | claiming previous seen now period =>
    ReadAfter claims previous seen ∧ s.due z now s.createdAt previous = .ok (some period)
  | finished _ => True

/-- What a claim of the past says: its run was owed at a time the clock has passed. -/
structure Claim.Sound (s : Schedule) (z : Zone) (clock : ℤ) (c : Claim) : Prop where
  past : c.now ≤ clock
  owed : Owed s z c.now c.period.occurrence
  periodEnd : c.period.periodEnd = (s.periodFor z c.period.occurrence).2

structure ScheduleRun.Sound (s : Schedule) (z : Zone) (r : ScheduleRun) : Prop where
  row : r.lastPeriodEnd = lastEnd r.claims
  ends : (r.claims.map (·.period.periodEnd)).Pairwise (· > ·)
  claims : ∀ c ∈ r.claims, c.Sound s z r.clock
  ticks : ∀ tick ∈ r.ticks, tick.Sound s z r.claims
  clocks : ∀ previous seen now period, Tick.claiming previous seen now period ∈ r.ticks →
    now ≤ r.clock

section Readings
variable {s : Schedule} {z : Zone} {claims : List Claim} {c : Claim} {previous : Option ℤ}
  {seen : ℕ} {now occ e : ℤ} {period : Due} {tick : Tick}

theorem ReadAfter.cons (h : ReadAfter claims previous seen) :
    ReadAfter (c :: claims) previous seen := by
  refine ⟨h.1.trans (Nat.le_succ _), ?_⟩
  rw [List.rtake, List.length_cons, Nat.succ_sub h.1, List.drop_succ_cons]
  exact h.2

theorem Tick.Sound.cons (h : tick.Sound s z claims) : tick.Sound s z (c :: claims) := by
  cases tick with
  | rowRead previous seen => exact ReadAfter.cons h
  | claiming previous seen now period => exact ⟨h.1.cons, h.2⟩
  | finished now => trivial

theorem mem_of_lastEnd (h : e ∈ lastEnd claims) : ∃ c ∈ claims, c.period.periodEnd = e := by
  obtain ⟨c, hc, rfl⟩ := Option.map_eq_some_iff.mp h
  exact ⟨c, List.mem_of_head? hc, rfl⟩

theorem ReadAfter.mem (h : ReadAfter claims previous seen) (he : e ∈ previous) :
    ∃ c ∈ claims, c.period.periodEnd = e := by
  rw [h.2] at he
  obtain ⟨c, hc, hend⟩ := mem_of_lastEnd he
  exact ⟨c, List.mem_of_mem_drop hc, hend⟩

/-- The last period end is the greatest one. -/
theorem le_lastEnd (hends : (claims.map (·.period.periodEnd)).Pairwise (· > ·))
    (hc : c ∈ claims) : ∃ e ∈ lastEnd claims, c.period.periodEnd ≤ e := by
  cases claims with
  | nil => cases hc
  | cons first rest =>
    refine ⟨_, rfl, ?_⟩
    cases List.mem_cons.mp hc with
    | inl heq => rw [heq]
    | inr hrest =>
      exact (List.rel_of_pairwise_cons hends (List.mem_map.mpr ⟨c, hrest, rfl⟩)).le

/-- A tick that has asked is to claim what it was owed, or its period was taken. -/
theorem asked_cases (s : Schedule) (z : Zone) (now : ℤ) (previous : Option ℤ) (seen : ℕ) :
    (∃ period, s.due z now s.createdAt previous = .ok (some period) ∧
      s.asked z now previous seen = .claiming previous seen now period) ∨
    (∀ period, s.due z now s.createdAt previous ≠ .ok (some period)) ∧
      s.asked z now previous seen = .finished now := by
  unfold Schedule.asked
  split
  · rename_i period hdue
    exact .inl ⟨period, hdue, rfl⟩
  · rename_i hdue
    exact .inr ⟨fun period => by simp [hdue], rfl⟩
  · rename_i hdue
    exact .inr ⟨fun period => by simp [hdue], rfl⟩

end Readings

section Steps
variable {s : Schedule} {z : Zone} {r r' : ScheduleRun} {act : TickAct} {claims : List Claim}

/-- What one step does. -/
inductive TickStep (s : Schedule) (z : Zone) (r : ScheduleRun) : TickAct → ScheduleRun → Prop
  | elapse (microseconds : ℕ) :
    TickStep s z r (.elapse microseconds) { r with clock := r.clock + microseconds }
  | readRow (henabled : s.enabled = true) : TickStep s z r .readRow
      { r with ticks := r.ticks ++ [.rowRead r.lastPeriodEnd r.claims.length] }
  | askDue (k : ℕ) (previous : Option ℤ) (seen : ℕ)
      (htick : .rowRead previous seen ∈ r.ticks[k]?) :
    TickStep s z r (.askDue k) (r.setTick k (s.asked z r.clock previous seen))
  | claimed (k : ℕ) (previous : Option ℤ) (seen : ℕ) (now : ℤ) (period : Due)
      (htick : .claiming previous seen now period ∈ r.ticks[k]?)
      (hrow : r.lastPeriodEnd = previous) :
    TickStep s z r (.claim k) (ScheduleRun.setTick
      { r with lastPeriodEnd := some period.periodEnd, claims := ⟨now, period⟩ :: r.claims }
      k (.finished now))
  | lost (k : ℕ) (previous : Option ℤ) (seen : ℕ) (now : ℤ) (period : Due)
      (htick : .claiming previous seen now period ∈ r.ticks[k]?)
      (hrow : r.lastPeriodEnd ≠ previous) :
    TickStep s z r (.claim k) (r.setTick k (.finished now))

theorem tickStep_of_step (h : s.step z r act = some r') : TickStep s z r act r' := by
  cases act with
  | elapse microseconds =>
    obtain rfl := Option.some.inj h
    exact .elapse microseconds
  | readRow =>
    obtain ⟨henabled, hr'⟩ := Option.ite_none_right_eq_some.mp h
    obtain rfl := Option.some.inj hr'
    exact .readRow henabled
  | askDue k =>
    simp only [Schedule.step] at h
    split at h
    · rename_i previous seen htick
      obtain rfl := Option.some.inj h
      exact .askDue k previous seen htick
    · cases h
  | claim k =>
    simp only [Schedule.step] at h
    split at h
    · rename_i previous seen now period htick
      obtain rfl := Option.some.inj h
      by_cases hrow : r.lastPeriodEnd = previous
      · rw [ScheduleRun.claim, if_pos hrow]
        exact .claimed k previous seen now period htick hrow
      · rw [ScheduleRun.claim, if_neg hrow]
        exact .lost k previous seen now period htick hrow
    · cases h

theorem mem_setTick {k : ℕ} {tick other : Tick} (h : other ∈ (r.setTick k tick).ticks) :
    other ∈ r.ticks ∨ other = tick :=
  List.mem_or_eq_of_mem_set h

theorem Claim.Sound.mono {clock clock' : ℤ} {c : Claim} (h : c.Sound s z clock)
    (hclock : clock ≤ clock') : c.Sound s z clock' :=
  ⟨h.past.trans hclock, h.owed, h.periodEnd⟩

/-- A claim that lands is owed, and its period ends after every period claimed before. -/
theorem ScheduleRun.Sound.claimed {k seen : ℕ} {now : ℤ} {period : Due} (h : r.Sound s z)
    (htick : .claiming r.lastPeriodEnd seen now period ∈ r.ticks[k]?) :
    ({ r with lastPeriodEnd := some period.periodEnd,
              claims := ⟨now, period⟩ :: r.claims } : ScheduleRun).Sound s z := by
  have hmem := List.mem_of_getElem? htick
  obtain ⟨-, hdue⟩ := h.ticks _ hmem
  obtain ⟨howed, hend, hlater⟩ := owed_of_due hdue
  refine ⟨rfl, ?_, ?_, fun tick ht => (h.ticks tick ht).cons, h.clocks⟩
  · refine List.pairwise_cons.mpr ⟨fun e he => ?_, h.ends⟩
    obtain ⟨c, hc, rfl⟩ := List.mem_map.mp he
    obtain ⟨last, hlast, hle⟩ := le_lastEnd h.ends hc
    exact hle.trans_lt (hlater last (h.row ▸ hlast))
  · intro c hc
    cases List.mem_cons.mp hc with
    | inl heq =>
      subst heq
      exact ⟨h.clocks _ _ _ _ hmem, howed, hend⟩
    | inr hc => exact h.claims c hc

theorem ScheduleRun.Sound.setTick {k : ℕ} {tick : Tick} (h : r.Sound s z)
    (htick : tick.Sound s z r.claims)
    (hclock : ∀ previous seen now period, tick = .claiming previous seen now period →
      now ≤ r.clock) : (r.setTick k tick).Sound s z := by
  refine ⟨h.row, h.ends, h.claims, ?_, ?_⟩
  · intro other hother
    cases mem_setTick hother with
    | inl hmem => exact h.ticks other hmem
    | inr heq =>
      subst heq
      exact htick
  · intro previous seen now period hmem
    cases mem_setTick hmem with
    | inl hmem => exact h.clocks previous seen now period hmem
    | inr heq => exact hclock previous seen now period heq.symm

theorem ScheduleRun.sound_step (h : r.Sound s z) (hstep : s.step z r act = some r') : r'.Sound s z := by
  cases tickStep_of_step hstep with
  | elapse microseconds =>
    have hclock : r.clock ≤ r.clock + microseconds := by omega
    exact ⟨h.row, h.ends, fun c hc => (h.claims c hc).mono hclock, h.ticks,
      fun _ _ _ _ hmem => (h.clocks _ _ _ _ hmem).trans hclock⟩
  | readRow henabled =>
    refine ⟨h.row, h.ends, h.claims, ?_, ?_⟩
    · intro tick htick
      cases List.mem_append.mp htick with
      | inl hmem => exact h.ticks tick hmem
      | inr hnew =>
        obtain rfl := List.mem_singleton.mp hnew
        refine ⟨le_rfl, ?_⟩
        rw [List.rtake, Nat.sub_self, List.drop_zero]
        exact h.row
    · intro previous seen now period htick
      cases List.mem_append.mp htick with
      | inl hmem => exact h.clocks previous seen now period hmem
      | inr hnew => cases List.mem_singleton.mp hnew
  | askDue k previous seen htick =>
    have hread := h.ticks _ (List.mem_of_getElem? htick)
    cases asked_cases s z r.clock previous seen with
    | inl hdue =>
      obtain ⟨period, hdue, hasked⟩ := hdue
      rw [hasked]
      refine h.setTick ⟨hread, hdue⟩ ?_
      rintro _ _ _ _ ⟨⟩
      exact le_rfl
    | inr hnone =>
      rw [hnone.2]
      exact h.setTick trivial nofun
  | claimed k previous seen now period htick hrow =>
    subst hrow
    exact (h.claimed htick).setTick trivial nofun
  | lost k previous seen now period htick hrow => exact h.setTick trivial nofun

/-- The periods end at different times, so the occurrences are different. -/
theorem ScheduleRun.Sound.claimedOnce (h : r.Sound s z) : r.ClaimedOnce := by
  have hends : r.claims.map (·.period.periodEnd) =
      (r.claims.map (·.period.occurrence)).map fun occ => (s.periodFor z occ).2 := by
    rw [List.map_map]
    exact List.map_congr_left fun c hc => (h.claims c hc).periodEnd
  have hnodup : (r.claims.map (·.period.periodEnd)).Nodup := h.ends.imp fun hlt => ne_of_gt hlt
  rw [hends] at hnodup
  exact List.Nodup.of_map _ hnodup

/-- A tick that is owed a run and finds none due reads the claim of that run in the row. -/
theorem ScheduleRun.Sound.taken {previous : Option ℤ} {seen : ℕ} {occ : ℤ} (h : r.Sound s z)
    (henabled : s.enabled = true) (hread : ReadAfter r.claims previous seen)
    (howed : Owed s z r.clock occ)
    (hnone : ∀ period, s.due z r.clock s.createdAt previous ≠ .ok (some period)) :
    ∃ c ∈ r.claims, c.period.occurrence = occ := by
  rw [due_of_owed henabled howed] at hnone
  have hany : previous.any ((s.periodFor z occ).2 ≤ ·) = true := by
    by_contra hany
    rw [if_neg hany] at hnone
    exact hnone _ rfl
  obtain ⟨e, he, hle⟩ := (Option.any_eq_true _ _).mp hany
  obtain ⟨c, hc, hend⟩ := hread.mem he
  have hsound := h.claims c hc
  refine ⟨c, hc, howed.same hsound.owed hsound.past ?_⟩
  rw [← hsound.periodEnd, hend]
  exact of_decide_eq_true hle

/-- The row holds what a tick read just if no claim has landed since. -/
theorem ScheduleRun.Sound.row_iff {previous : Option ℤ} {seen : ℕ} (h : r.Sound s z)
    (hread : ReadAfter r.claims previous seen) :
    r.lastPeriodEnd = previous ↔ r.claims.rdrop seen = [] := by
  have hsplit : r.claims.rdrop seen ++ r.claims.rtake seen = r.claims :=
    List.take_append_drop _ _
  rw [h.row, hread.2]
  cases hsince : r.claims.rdrop seen with
  | nil =>
    rw [hsince, List.nil_append] at hsplit
    rw [hsplit]
    simp
  | cons c rest =>
    rw [hsince] at hsplit
    refine iff_of_false (fun heq => ?_) (List.cons_ne_nil _ _)
    have hlast : c.period.periodEnd ∈ lastEnd (r.claims.rtake seen) := by
      rw [← heq, ← hsplit]
      rfl
    obtain ⟨c', hc', hend⟩ := mem_of_lastEnd hlast
    have hends := h.ends
    rw [← hsplit, List.cons_append, List.map_cons] at hends
    have hlt := List.rel_of_pairwise_cons hends
      (List.mem_map.mpr ⟨c', List.mem_append_right _ hc', rfl⟩)
    omega

/-- A tick's claim leaves its occurrence claimed exactly if it is uncontested. -/
theorem claim_step_iff {k seen : ℕ} {previous : Option ℤ} {now : ℤ} {period : Due}
    (h : r.Sound s z) (htick : .claiming previous seen now period ∈ r.ticks[k]?)
    (hstep : s.step z r (.claim k) = some r') :
    (∃ c ∈ r'.claims, c.period.occurrence = period.occurrence) ↔ Uncontested r (.claim k) := by
  obtain ⟨hread, hdue⟩ := h.ticks _ (List.mem_of_getElem? htick)
  have hguard : Uncontested r (.claim k) ↔ r.claims.rdrop seen = [] ∨
      ∃ c ∈ r.claims.rdrop seen, c.period.occurrence = period.occurrence := by
    rw [Uncontested, htick]
    simp [Tick.Uncontested]
  rw [hguard, ← h.row_iff hread]
  cases tickStep_of_step hstep with
  | claimed _ _ _ _ _ htick' hrow =>
    cases Option.mem_unique htick htick'
    exact iff_of_true ⟨_, List.mem_cons_self, rfl⟩ (.inl hrow)
  | lost _ _ _ _ _ htick' hrow =>
    cases Option.mem_unique htick htick'
    rw [or_iff_right hrow]
    constructor
    · rintro ⟨c, hc, hocc⟩
      have hc : c ∈ r.claims := hc
      refine ⟨c, ?_, hocc⟩
      rw [← List.take_append_drop (r.claims.length - seen) r.claims] at hc
      cases List.mem_append.mp hc with
      | inl hsince => exact hsince
      | inr hbefore =>
        have hends := h.ends.sublist
          ((List.drop_sublist (r.claims.length - seen) r.claims).map (·.period.periodEnd))
        obtain ⟨e, he, hle⟩ := le_lastEnd hends hbefore
        obtain ⟨-, hend, hlater⟩ := owed_of_due hdue
        have hlt := hlater e (hread.2 ▸ he)
        rw [hend, ← hocc, ← (h.claims c (List.mem_of_mem_drop hbefore)).periodEnd] at hlt
        omega
    · rintro ⟨c, hc, hocc⟩
      exact ⟨c, List.mem_of_mem_take hc, hocc⟩

theorem claims_step {c : Claim} (hstep : s.step z r act = some r') (hc : c ∈ r.claims) :
    c ∈ r'.claims := by
  cases tickStep_of_step hstep with
  | claimed => exact List.mem_cons_of_mem _ hc
  | elapse => exact hc
  | readRow => exact hc
  | askDue => exact hc
  | lost => exact hc

theorem covered_step (henabled : s.enabled = true) (h : r.Sound s z) (hcovered : r.Covered s z)
    (hguard : Uncontested r act) (hstep : s.step z r act = some r') : r'.Covered s z := by
  intro now hfinished occ howed
  have hold : Tick.finished now ∈ r.ticks → ∃ c ∈ r'.claims, c.period.occurrence = occ := by
    intro hmem
    obtain ⟨c, hc, hocc⟩ := hcovered now hmem occ howed
    exact ⟨c, claims_step hstep hc, hocc⟩
  have hclaim : ∀ k previous seen now' period, act = .claim k →
      .claiming previous seen now' period ∈ r.ticks[k]? →
      Tick.finished now ∈ (r.setTick k (.finished now')).ticks →
      ∃ c ∈ r'.claims, c.period.occurrence = occ := by
    rintro k previous seen now' period rfl htick hmem
    cases mem_setTick hmem with
    | inl hmem => exact hold hmem
    | inr heq =>
      cases heq
      obtain ⟨-, hdue⟩ := h.ticks _ (List.mem_of_getElem? htick)
      rw [howed.latest.unique (owed_of_due hdue).1.latest]
      exact (claim_step_iff h htick hstep).mpr hguard
  cases tickStep_of_step hstep with
  | elapse => exact hold hfinished
  | readRow =>
    cases List.mem_append.mp hfinished with
    | inl hmem => exact hold hmem
    | inr hnew => cases List.mem_singleton.mp hnew
  | askDue k previous seen htick =>
    cases mem_setTick hfinished with
    | inl hmem => exact hold hmem
    | inr hasked =>
      cases asked_cases s z r.clock previous seen with
      | inl hdue =>
        obtain ⟨period, -, hclaiming⟩ := hdue
        cases hclaiming.symm.trans hasked.symm
      | inr hnone =>
        obtain ⟨hnone, hnow⟩ := hnone
        cases hnow.symm.trans hasked.symm
        exact h.taken henabled (h.ticks _ (List.mem_of_getElem? htick)) howed hnone
  | claimed k previous seen now' period htick =>
    exact hclaim k previous seen now' period rfl htick hfinished
  | lost k previous seen now' period htick =>
    exact hclaim k previous seen now' period rfl htick hfinished

theorem ScheduleRun.sound_fresh (clock : ℤ) : (ScheduleRun.fresh clock).Sound s z :=
  ⟨rfl, .nil, nofun, nofun, nofun⟩

/-- In every run no occurrence is claimed twice; and in a run whose claims are uncontested,
every occurrence a tick was owed is claimed. -/
theorem claimed_once {clock : ℤ} {tr : List TickAct} (henabled : s.enabled = true)
    (run : Steps (Takes (s.step z)) (.fresh clock) tr r) :
    r.ClaimedOnce ∧
      (Steps (Guarded (Takes (s.step z)) Uncontested) (.fresh clock) tr r → r.Covered s z) := by
  have hsound := run.stable (P := (·.Sound s z)) (ScheduleRun.sound_fresh clock)
    fun _ _ _ hI hstep => ScheduleRun.sound_step hI hstep
  refine ⟨hsound.claimedOnce, fun guarded => ?_⟩
  have hboth := guarded.stable (P := fun r => r.Sound s z ∧ r.Covered s z)
    ⟨ScheduleRun.sound_fresh clock, nofun⟩ fun _ _ _ hI hstep =>
      ⟨ScheduleRun.sound_step hI.1 hstep.2, covered_step henabled hI.1 hI.2 hstep.1 hstep.2⟩
  exact hboth.2

end Steps

def utc : Zone := ⟨fun _ => 0, fun _ => 0, fun _ => by decide, fun _ => by decide⟩

/-- Mondays at 08:00, created on day 700. -/
def mondays : Schedule :=
  ⟨true, .weekly ⟨0, by decide⟩, ⟨8, by decide⟩, ⟨0, by decide⟩, some (700 * day)⟩

def nineOClock (d : ℤ) : ℤ := d * day + 9 * 3600 * second

def week : ℕ := 7 * 86400000000

theorem claimed_once_mondays : ∃ tr r,
    Steps (Guarded (Takes (mondays.step utc)) Uncontested) (.fresh (nineOClock 701)) tr r ∧
      r.claims.length = 2 ∧ r.ClaimedOnce ∧ r.Covered mondays utc := by
  obtain ⟨r, run, -, hp⟩ := exists_play (gated (mondays.step utc) Uncontested)
    (.fresh (nineOClock 701))
    [.readRow, .askDue 0, .claim 0, .elapse week, .readRow, .askDue 1, .claim 1]
    (fun r => decide (r.claims.length = 2)) (by decide +kernel)
  have guarded := run.mono fun _ _ _ => gated_guarded
  obtain ⟨honce, hcovered⟩ := claimed_once (s := mondays) rfl (Guarded.run guarded)
  exact ⟨_, r, guarded, of_decide_eq_true hp, honce, hcovered guarded⟩

/-- A tick holds the claim of one Monday for a week. It lands between the next Monday's reading
of the row and its claim, which is lost. -/
theorem stale_claim_wins : ∃ tr r,
    Steps (Takes (mondays.step utc)) (.fresh (nineOClock 701)) tr r ∧
      ¬ r.Covered mondays utc := by
  obtain ⟨r, run, -, hp⟩ := exists_play (mondays.step utc) (.fresh (nineOClock 701))
    [.readRow, .askDue 0, .elapse week, .readRow, .askDue 1, .claim 0, .claim 1]
    (fun r => decide (.finished (nineOClock 708) ∈ r.ticks ∧
      ∀ c ∈ r.claims, c.period.occurrence ≠ mondays.atDate 708)) (by decide +kernel)
  obtain ⟨hfinished, hclaims⟩ := of_decide_eq_true hp
  refine ⟨_, r, run, fun hcovered => ?_⟩
  have howed : Owed mondays utc (nineOClock 708) (mondays.atDate 708) :=
    ⟨latestOccurrence_eq.mp (by decide +kernel), by decide +kernel, by decide +kernel⟩
  obtain ⟨c, hc, hocc⟩ := hcovered _ hfinished _ howed
  exact hclaims c hc hocc

end MonitoringHub.Reports
