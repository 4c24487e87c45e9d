import Mathlib.Data.Rat.Floor
import Mathlib.Tactic.Linarith
import MonitoringHub.Alerts.FreshnessWindow

/-! Which of a collector's resources are due on a tick. A slowed resource is collected
on fewer ticks, and the tick that does collect it looks back further. When a resource was last
collected is kept under its id, the tier and the class of its metrics. Times are exact
seconds. -/

namespace MonitoringHub.Collector
open Lib Alerts Environments

structure PolledResource where
  id : ℕ
  resourceType : String
  envResolved : Option String
  deriving DecidableEq

def PolledResource.env (r : PolledResource) : Tier := toTier r.envResolved

abbrev PollKey := ℕ × PollTier × Bool

/-- `PollState` -/
abbrev PollState := List (PollKey × ℚ)

/-- `round` of a quotient: a tie goes to the even neighbour. -/
def roundQuotient (n d : ℕ) : ℕ :=
  if 2 * (n % d) < d then n / d
  else if d < 2 * (n % d) then n / d + 1
  else if n / d % 2 = 0 then n / d else n / d + 1

def isDue (effective : Option ℕ) (base : ℕ) (last : Option ℚ) (now : ℚ) : Bool :=
  match effective with
  | none => false
  | some effective =>
    match last with
    | none => true
    | some last =>
      if effective ≤ base then true
      else decide ((effective : ℚ) - min ((base : ℚ) / 2) 150 ≤ now - last)

def staggerSeconds (keyNumber effective base : ℕ) : ℕ :=
  keyNumber % max 1 (roundQuotient effective base) * base

/-- The look-back minutes a slowed resource is collected with: on first sight the whole
interval, later the time since it was last collected, at most two intervals. -/
def extraMinutes (effective base : ℕ) (last : Option ℚ) (now : ℚ) : ℕ :=
  match last with
  | none => ceilMinutes (effective - base)
  | some last => ⌈(min (now - last) (effective * 2) - base) / 60⌉.toNat

/-- What is kept as the last collection: on first sight a time that spreads the resources
over the interval. -/
def newLast (keyNumber effective base : ℕ) (last : Option ℚ) (now : ℚ) : ℚ :=
  match last with
  | none => now - staggerSeconds keyNumber effective base
  | some _ => now

/-- A resource answered as due; `extra` is `_poll_extra_min`, absent on the normal cadence. -/
structure DueResource where
  resource : PolledResource
  extra : Option ℕ
  deriving DecidableEq

structure Selection where
  due : List DueResource
  skipped : ℕ
  polls : PollState

structure Tick where
  settings : PollSettings
  tier : PollTier
  critical : Bool
  now : ℚ

def Tick.base (tick : Tick) : ℕ := tick.tier.seconds

def Tick.key (tick : Tick) (r : PolledResource) : PollKey := (r.id, tick.tier, tick.critical)

def Tick.effective (tick : Tick) (r : PolledResource) : Option ℕ :=
  effectiveInterval tick.settings r.env tick.base tick.critical r.resourceType

/-- The loop of `select_due`, with the flag on. -/
def selectFrom (tick : Tick) (record : Bool) : List PolledResource → PollState → Selection
  | [], polls => ⟨[], 0, polls⟩
  | r :: rest, polls =>
    match tick.effective r with
    | none =>
      let later := selectFrom tick record rest polls
      ⟨later.due, later.skipped + 1, later.polls⟩
    | some eff =>
      if eff ≤ tick.base then
        let later := selectFrom tick record rest polls
        ⟨⟨r, none⟩ :: later.due, later.skipped, later.polls⟩
      else
        let last := KeyedStore.find (tick.key r) polls
        if isDue (some eff) tick.base last tick.now then
          let later := selectFrom tick record rest
            (if record then
              KeyedStore.write (tick.key r) (newLast r.id eff tick.base last tick.now) polls
            else polls)
          ⟨⟨r, some (extraMinutes eff tick.base last tick.now)⟩ :: later.due, later.skipped,
            later.polls⟩
        else
          let later := selectFrom tick record rest polls
          ⟨later.due, later.skipped + 1, later.polls⟩

def selectDue (tick : Tick) (record : Bool) (resources : List PolledResource)
    (polls : PollState) : Selection :=
  if tick.settings.enabled then selectFrom tick record resources polls
  else ⟨resources.map fun r => ⟨r, none⟩, 0, polls⟩

/-- `round_extra`: extensions are grouped in steps of five minutes. -/
def roundExtra (extra : ℕ) : ℕ := (extra + 4) / 5 * 5

theorem le_roundExtra (extra : ℕ) : extra ≤ roundExtra extra := by
  unfold roundExtra
  omega

theorem production_effective {tick : Tick} {r : PolledResource} (h : r.env = .prod) :
    tick.effective r = some tick.base := by
  unfold Tick.effective effectiveInterval
  rw [h]
  split <;> rfl

def DueResource.production (d : DueResource) : Bool := d.resource.env = .prod

theorem selectFrom_production (tick : Tick) (record : Bool) (resources : List PolledResource)
    (polls : PollState) :
    (selectFrom tick record resources polls).due.filter DueResource.production =
      (resources.filter fun r => r.env = .prod).map fun r => ⟨r, none⟩ := by
  induction resources generalizing polls with
  | nil => rfl
  | cons r rest ih =>
    by_cases hr : r.env = .prod
    · rw [selectFrom, production_effective hr]
      simp only [le_refl, if_true]
      rw [List.filter_cons_of_pos (by simpa [DueResource.production] using hr),
        List.filter_cons_of_pos (by simpa using hr), List.map_cons, ih]
    · rw [List.filter_cons_of_neg (by simpa using hr)]
      have hdrop : ∀ (extra : Option ℕ) (due : List DueResource),
          (⟨r, extra⟩ :: due).filter DueResource.production =
            due.filter DueResource.production := fun extra due =>
        List.filter_cons_of_neg (by simpa [DueResource.production] using hr)
      unfold selectFrom
      split
      · exact ih _
      · split
        · rw [hdrop, ih]
        · simp only
          split
          · rw [hdrop, ih]
          · exact ih _

theorem selectFrom_sublist (tick : Tick) (record : Bool) (resources : List PolledResource)
    (polls : PollState) :
    List.Sublist ((selectFrom tick record resources polls).due.map DueResource.resource)
      resources := by
  induction resources generalizing polls with
  | nil => exact .slnil
  | cons r rest ih =>
    unfold selectFrom
    split
    · exact (ih _).cons r
    · split
      · exact (ih _).cons_cons r
      · simp only
        split
        · exact (ih _).cons_cons r
        · exact (ih _).cons r

/-- Production resources pass every tick unchanged, and what is due keeps its order. -/
theorem selectDue_production (tick : Tick) (record : Bool) (resources : List PolledResource)
    (polls : PollState) :
    (selectDue tick record resources polls).due.filter DueResource.production =
        ((resources.filter fun r => r.env = .prod).map fun r => ⟨r, none⟩) ∧
      List.Sublist ((selectDue tick record resources polls).due.map DueResource.resource)
        resources := by
  unfold selectDue
  split
  · exact ⟨selectFrom_production tick record resources polls,
      selectFrom_sublist tick record resources polls⟩
  · refine ⟨?_, ?_⟩
    · rw [List.filter_map]
      rfl
    · rw [List.map_map]
      exact (List.map_id resources).symm ▸ List.Sublist.refl _

end MonitoringHub.Collector
