import MonitoringHub.Environments.EnvSync

/-! What the stored environments are once every pass and edit is done. An update checks the
override of its row and nothing else it was computed from: while the account default and the
parents are as they were read, the stored columns end up at the classifier's result, and a default
edited twice can leave the first one behind. -/

namespace MonitoringHub.Environments
open Alerts Lib Lib.Derivation

/-- The passes and edits of an inventory. -/
abbrev SyncState := State Inputs ResourceRow Outcome Stored Request

abbrev SyncAct := Derivation.Act Request Edit

namespace Inventory
variable (inv : Inventory)

def step : SyncState → SyncAct → Option SyncState := inv.derivation.step

/-- The classifier's result for a row, on the current inputs. -/
def classified (x : Inputs) (r : ResourceRow) : Resolution :=
  (inv.classifyRow (inv.load none) (inv.loadEdges none) x r).resolution

/-- The stored environment and its source are the classifier's. -/
def Classified (s : SyncState) (r : ResourceRow) : Prop :=
  (s.stored r).env = some (inv.classified s.input r).env ∧
    (s.stored r).source = some (inv.classified s.input r).source

instance (s : SyncState) (r : ResourceRow) : Decidable (inv.Classified s r) :=
  inferInstanceAs (Decidable (_ ∧ _))

/-- A row is written only while its account's default and what its parents are judged by are as
the pass read them. -/
def InheritedAsRead : SyncState → SyncAct → Prop := inv.derivation.Fresh

instance (s : SyncState) (act : SyncAct) : Decidable (inv.InheritedAsRead s act) :=
  inferInstanceAs (Decidable (inv.derivation.Fresh s act))

/-- Nothing to write in a row, on the current inputs. -/
def Settled (x : Inputs) (stored : ResourceRow → Stored) (r : ResourceRow) : Prop :=
  (stored r).Same (inv.outcome (inv.load none) (inv.loadEdges none) x r)

variable {inv} {x : Inputs} {stored : ResourceRow → Stored} {tr : List SyncAct} {s : SyncState}
  {r : ResourceRow}

/-- In a run whose writes find the inherited inputs as they were read, once every pass and edit is
done, every row that was settled at the start or covered by a pass has the classifier's result. -/
theorem classification_converges
    (run : Steps (Guarded (Takes inv.step) inv.InheritedAsRead) (State.start x stored) tr s)
    (hfinished : s.Finished) (hr : r ∈ inv.load none)
    (hseen : inv.Settled x stored r ∨ ∃ req, .read req ∈ tr ∧ inv.Covers req r) :
    inv.Classified s r := by
  have htracked : inv.derivation.Tracked s r := tracked_run (D := inv.derivation) hr run hseen
  obtain ⟨henv, hsource, -⟩ := htracked.finished hfinished
  exact ⟨henv, hsource⟩

end Inventory

def bareInstance : ResourceRow := ⟨1, 1, "i-0a", "ec2", none, [], none, "aws", true⟩

/-- An instance that nothing but the default of its account can place. -/
def oneInstance : Inventory where
  repr word := "'" ++ word ++ "'"
  tagSync := false
  feedsEnvironment := false
  rows := [bareInstance]
  ids := by decide
  edges := []

def noInputs : Inputs := ⟨fun _ => none, fun _ => none⟩

/-- What a pass has stored before. -/
def unplaced (r : ResourceRow) : Stored :=
  (oneInstance.outcome (oneInstance.load none) (oneInstance.loadEdges none) noInputs r).stored

/-- The default is set, and set again before the pass of the first edit has written. -/
def defaultTwice : List SyncAct :=
  [.edit (.setAccountDefault 1 (some .nonprod)), .read (.account 1),
    .edit (.setAccountDefault 1 (some .prod)), .read (.account 1), .write 1, .write 0]

/-- The default is set once. -/
def defaultOnce : List SyncAct :=
  [.edit (.setAccountDefault 1 (some .nonprod)), .read (.account 1), .write 0]

def done (s : SyncState) : Bool := s.owed.isEmpty && s.passes.all fun p => p.pending.isEmpty

theorem finished_of_done {s : SyncState} (h : done s = true) : s.Finished := by
  obtain ⟨howed, hpasses⟩ := Bool.and_eq_true_iff.mp h
  exact ⟨List.isEmpty_iff.mp howed, fun p hp =>
    List.isEmpty_iff.mp (List.all_eq_true.mp hpasses p hp)⟩

/-- The late write of the first pass puts the old default's environment back. -/
theorem old_default_put_back : ¬∀ (inv : Inventory) (x : Inputs) (stored : ResourceRow → Stored)
    (tr : List SyncAct) (s : SyncState), (∀ r ∈ inv.load none, inv.Settled x stored r) →
      Steps (Takes inv.step) (State.start x stored) tr s → s.Finished →
      ∀ r ∈ inv.load none, inv.Classified s r := by
  intro h
  obtain ⟨s, run, -, hp⟩ := exists_play oneInstance.step (State.start noInputs unplaced)
    defaultTwice (fun s => done s && !decide (oneInstance.Classified s bareInstance))
    (by decide +kernel)
  obtain ⟨hdone, hnot⟩ := Bool.and_eq_true_iff.mp hp
  have hclassified := h oneInstance noInputs unplaced _ s
    (fun r _ => Outcome.stored_same _) run (finished_of_done hdone) bareInstance (by decide)
  rw [decide_eq_true hclassified] at hnot
  cases hnot

/-- A default set once reaches the instance. -/
theorem classification_converges_default : ∃ s : SyncState,
    (s.stored bareInstance).env = some .nonprod ∧
      (s.stored bareInstance).source = some .account := by
  obtain ⟨s, run, -, hp⟩ := exists_play (gated oneInstance.step oneInstance.InheritedAsRead)
    (State.start noInputs unplaced) defaultOnce
    (fun s => done s && decide (oneInstance.classified s.input bareInstance = ⟨.nonprod, .account⟩))
    (by decide +kernel)
  obtain ⟨hdone, hresult⟩ := Bool.and_eq_true_iff.mp hp
  obtain ⟨henv, hsource⟩ := Inventory.classification_converges
    (run.mono fun _ _ _ => gated_guarded) (finished_of_done hdone) (r := bareInstance) (by decide)
    (.inl (Outcome.stored_same _))
  rw [of_decide_eq_true hresult] at henv hsource
  exact ⟨s, henv, hsource⟩

end MonitoringHub.Environments
