import MonitoringHub.Alerts.RowVerdict
import MonitoringHub.Lib.LeastByKey

/-! Which rule row a reading is judged by. The join pairs a reading with every rule of its metric,
for a load balancer with those of the other family too; of the rules that may speak, the one with
the least id is taken, whatever the order of the rows. Metric names are compared in lower case, and
how letters are lowered is left open. -/

namespace MonitoringHub.Alerts
open Lib

/-- The key of a row, under a way to lower metric names. -/
def keyUnder (lower : String → String) (row : EvalRow) : ℕ × String × String :=
  (row.awsAccountId, row.awsResourceId, lower row.metricName)

/-- `_select_threshold_rows`, under a way to lower metric names. -/
def selectUnder (lower : String → String) (rows : List EvalRow) : List EvalRow :=
  LeastByKey.select (fun row => !wrongService row) (keyUnder lower) EvalRow.thresholdId rows

theorem chooseRow_eq : chooseRow =
    LeastByKey.choose (fun row => !wrongService row) (keyUnder Text.lower) EvalRow.thresholdId := by
  funext chosen row
  unfold chooseRow LeastByKey.choose
  by_cases hwrong : wrongService row = true
  · rw [if_pos hwrong, if_neg (by simp [hwrong])]
  · rw [if_neg hwrong, if_pos (by simpa using hwrong)]
    have hkey : keyUnder Text.lower = chosenKey := rfl
    rw [hkey]
    cases chosen.find? fun prev => chosenKey prev = chosenKey row <;> rfl

theorem selectThresholdRows_eq (rows : List EvalRow) :
    selectThresholdRows rows = selectUnder Text.lower rows := by
  rw [selectThresholdRows, chooseRow_eq]
  rfl

/-- The id of the rule chosen for a key. -/
def chosenId (lower : String → String) (rows : List EvalRow) (key : ℕ × String × String) :
    Option ℕ :=
  ((selectUnder lower rows).find? fun row => keyUnder lower row = key).map EvalRow.thresholdId

/-- The row competes for the key: it is not the rule of the other load-balancer family. -/
def Competes (lower : String → String) (rows : List EvalRow) (key : ℕ × String × String)
    (row : EvalRow) : Prop :=
  row ∈ rows ∧ wrongService row = false ∧ keyUnder lower row = key

/-- One row for each key that a row competes for, with the least id of those that do, and the same
id in every order of the rows. -/
structure OneRowPerKey (lower : String → String) (rows : List EvalRow) : Prop where
  one : ∀ key, (∃ row, Competes lower rows key row) →
    ∃! row, row ∈ selectUnder lower rows ∧ keyUnder lower row = key
  once : ((selectUnder lower rows).map (keyUnder lower)).Nodup
  least : ∀ row ∈ selectUnder lower rows, Competes lower rows (keyUnder lower row) row ∧
    ∀ other, Competes lower rows (keyUnder lower row) other → row.thresholdId ≤ other.thresholdId
  stable : ∀ rows', rows'.Perm rows → ∀ key, chosenId lower rows' key = chosenId lower rows key

section Choice
variable {lower : String → String} {rows : List EvalRow} {key : ℕ × String × String}
  {row other : EvalRow}

theorem competes_iff : Competes lower rows key row ↔
    row ∈ LeastByKey.candidates (fun row => !wrongService row) (keyUnder lower) rows key := by
  rw [Competes, LeastByKey.mem_candidates, Bool.not_eq_true']

theorem exists_chosen (h : Competes lower rows key row) :
    ∃ chosen ∈ selectUnder lower rows, keyUnder lower chosen = key := by
  have hne : LeastByKey.candidates (fun row => !wrongService row) (keyUnder lower) rows key ≠ [] :=
    List.ne_nil_of_mem (competes_iff.mp h)
  obtain ⟨chosen, hchosen⟩ := Option.ne_none_iff_exists'.mp
    (mt (List.argmin_eq_none (f := EvalRow.thresholdId)).mp hne)
  obtain ⟨-, -, hkey⟩ := competes_iff.mpr (List.argmin_mem hchosen)
  subst hkey
  exact ⟨chosen, LeastByKey.mem_select.mpr hchosen, rfl⟩

theorem chosen_least (h : row ∈ selectUnder lower rows) :
    Competes lower rows (keyUnder lower row) row ∧
      ∀ other, Competes lower rows (keyUnder lower row) other →
        row.thresholdId ≤ other.thresholdId := by
  have hleast := LeastByKey.mem_select.mp h
  exact ⟨competes_iff.mpr (List.argmin_mem hleast), fun other hother =>
    List.le_of_mem_argmin (competes_iff.mp hother) hleast⟩

theorem selectUnder_oneRowPerKey (lower : String → String) (rows : List EvalRow) :
    OneRowPerKey lower rows where
  one key hcompetes := by
    obtain ⟨row, hrow⟩ := hcompetes
    obtain ⟨chosen, hchosen, hkey⟩ := exists_chosen hrow
    refine ⟨chosen, ⟨hchosen, hkey⟩, ?_⟩
    rintro other ⟨hother, hkey'⟩
    exact List.inj_on_of_nodup_map LeastByKey.select_nodup hother hchosen (hkey'.trans hkey.symm)
  once := LeastByKey.select_nodup
  least _ := chosen_least
  stable _ hperm _ := LeastByKey.rank_select_perm hperm

end Choice

end MonitoringHub.Alerts
