import Mathlib.Data.List.Chain
import Mathlib.Order.Lattice
import Mathlib.Order.Monotone.Defs

/-! Windows on a line, newest first. When every window opens no later than the one
before it closed, together they leave no hole between any of them and the newest. Windows that
open where the one before closes hold each point once. -/

namespace MonitoringHub.Lib

structure Window (α : Type*) [LE α] where
  opens : α
  closes : α
  opens_le_closes : opens ≤ closes

namespace Window
variable {α : Type*} [LinearOrder α]

def Holds (w : Window α) (t : α) : Prop := w.opens ≤ t ∧ t ≤ w.closes

/-- The newer window opens no later than the older one closes. -/
def Reaches (newer older : Window α) : Prop := newer.opens ≤ older.closes

theorem exists_holds {newest w : Window α} {older : List (Window α)} {t : α}
    (hchain : (newest :: older).IsChain Reaches) (hw : w ∈ newest :: older)
    (hfirst : w.closes ≤ t) (hlast : t ≤ newest.closes) : ∃ v ∈ newest :: older, v.Holds t := by
  induction older generalizing newest with
  | nil =>
    obtain rfl := List.mem_singleton.mp hw
    exact ⟨w, hw, w.opens_le_closes.trans hfirst, hlast⟩
  | cons next older ih =>
    obtain ⟨hreach, hrest⟩ := List.isChain_cons_cons.mp hchain
    by_cases hin : next.closes ≤ t
    · exact ⟨newest, List.mem_cons_self, hreach.trans hin, hlast⟩
    · rcases List.mem_cons.mp hw with rfl | hw
      · exact ⟨w, List.mem_cons_self, w.opens_le_closes.trans hfirst, hlast⟩
      · obtain ⟨v, hv, hold⟩ := ih hrest hw (le_of_not_ge hin)
        exact ⟨v, List.mem_cons_of_mem _ hv, hold⟩

end Window

/-- The windows between consecutive bounds hold each point in just one of them. -/
theorem existsUnique_between {α : Type*} [LinearOrder α] {f : ℕ → α} {x : α} {n : ℕ}
    (hf : Monotone f) (hfirst : f 0 ≤ x) (hlast : x < f n) :
    ∃! k, k < n ∧ f k ≤ x ∧ x < f (k + 1) := by
  have hexists : ∃ k < n, f k ≤ x ∧ x < f (k + 1) := by
    induction n with
    | zero => exact absurd hfirst hlast.not_ge
    | succ n ih =>
      rcases lt_or_ge x (f n) with hbefore | hin
      · obtain ⟨k, hk, hbetween⟩ := ih hbefore
        exact ⟨k, hk.trans n.lt_succ_self, hbetween⟩
      · exact ⟨n, n.lt_succ_self, hin, hlast⟩
  obtain ⟨k, hk, hopens, hcloses⟩ := hexists
  refine ⟨k, ⟨hk, hopens, hcloses⟩, ?_⟩
  rintro j ⟨-, hopens', hcloses'⟩
  rcases lt_trichotomy j k with hlt | rfl | hgt
  · exact absurd (hcloses'.trans_le (hf hlt)) hopens.not_gt
  · rfl
  · exact absurd (hcloses.trans_le (hf hgt)) hopens'.not_gt

end MonitoringHub.Lib
