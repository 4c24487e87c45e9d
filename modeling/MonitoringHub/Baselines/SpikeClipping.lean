import Mathlib.Analysis.Real.Sqrt
import MonitoringHub.Baselines.RecomputeBaselines

/-! One reading far off among bounded ones. It raises the deviation that clips it, and among ten
readings or fewer nothing is ever clipped; from eleven on what is kept is bounded by the others. -/

namespace MonitoringHub.Baselines
open Lib.Calendar Lib.KeyedStore Lib.SampleMoments

section Clip
variable {readings rest : List ℚ} {v x bound : ℚ}

/-- A flat group needs no exception: its readings are its mean. -/
theorem sq_sub_mean_le_of_kept (h : v ∈ kept readings) :
    (v - mean readings) ^ 2 ≤ clipSigma ^ 2 * variance readings := by
  obtain ⟨hv, hzero | hle⟩ := mem_kept.mp h
  · rw [eq_mean_of_variance_eq_zero hv hzero, hzero]
    norm_num
  · exact hle

theorem kept_of_length_le (h : readings.length ≤ 10) : kept readings = readings := by
  refine List.filter_eq_self.mpr fun v hv => ?_
  have hpos : (0 : ℚ) < readings.length := by
    exact_mod_cast List.length_pos_of_mem hv
  have hten : (readings.length : ℚ) ≤ 10 := by
    exact_mod_cast h
  rcases Nat.lt_or_ge readings.length 2 with hone | htwo
  · have hlen : readings.length = 1 := by
      have := List.length_pos_of_mem hv
      omega
    have hzero : variance readings = 0 := by rw [variance, hlen, Nat.cast_one, sub_self, div_zero]
    simp [keeps, hzero]
  · have hsub : (0 : ℚ) < readings.length - 1 := by
      have : (2 : ℚ) ≤ readings.length := by exact_mod_cast htwo
      linarith
    have hsquares : squares readings = (readings.length - 1) * variance readings := by
      rw [variance, mul_div_cancel₀ _ hsub.ne']
    have hle := length_mul_sq_sub_mean_le hv
    rw [hsquares] at hle
    have hcount : ((readings.length : ℚ) - 1) * (readings.length - 1) ≤ 9 * readings.length := by
      nlinarith
    have hscaled : readings.length * (v - mean readings) ^ 2 ≤
        readings.length * (clipSigma ^ 2 * variance readings) := by
      calc readings.length * (v - mean readings) ^ 2
          ≤ (readings.length - 1) * (readings.length - 1) * variance readings := by
            rw [mul_assoc]
            exact hle
        _ ≤ 9 * readings.length * variance readings :=
            mul_le_mul_of_nonneg_right hcount (variance_nonneg _)
        _ = readings.length * (clipSigma ^ 2 * variance readings) := by
            unfold clipSigma
            ring
    simp [keeps, le_of_mul_le_mul_left hscaled hpos]

/-- Among ten others or more, a reading that is kept is near them. -/
theorem abs_sub_mean_le (hlen : 10 ≤ rest.length) (hrest : ∀ w ∈ rest, |w| ≤ bound)
    (h : x ∈ kept (x :: rest)) : |x - mean rest| ≤ 33 * bound := by
  have hne : rest ≠ [] := by
    rintro rfl
    simp at hlen
  have hm : (10 : ℚ) ≤ rest.length := by
    exact_mod_cast hlen
  have hlimit := (sq_sub_mean_le_iff hne).mp (sq_sub_mean_le_of_kept h)
  have hsquares : squares rest ≤ rest.length * bound ^ 2 := squares_le hrest
  have hbound : 0 ≤ bound := (abs_nonneg _).trans (abs_mean_le hne hrest)
  set m : ℚ := (rest.length : ℚ)
  set d : ℚ := x - mean rest
  have hclip : clipSigma ^ 2 = 9 := by norm_num [clipSigma]
  rw [hclip] at hlimit
  -- equality at ten others: the root of `m ^ 2 - 9 * (m + 1)` is just below
  have hgap : (m + 1) ^ 2 ≤ 121 * (m ^ 2 - 9 * (m + 1)) := by nlinarith
  have hscaled : m * (m + 1) ^ 2 * d ^ 2 ≤ m * (m + 1) ^ 2 * (33 * bound) ^ 2 := by
    calc m * (m + 1) ^ 2 * d ^ 2 = m * d ^ 2 * (m + 1) ^ 2 := by ring
      _ ≤ m * d ^ 2 * (121 * (m ^ 2 - 9 * (m + 1))) :=
          mul_le_mul_of_nonneg_left hgap (by positivity)
      _ = 121 * (m * d ^ 2 * (m ^ 2 - 9 * (m + 1))) := by ring
      _ ≤ 121 * (9 * (m + 1) ^ 2 * squares rest) := by linarith
      _ ≤ 121 * (9 * (m + 1) ^ 2 * (m * bound ^ 2)) := by
          have hnonneg : 0 ≤ 9 * (m + 1) ^ 2 := by positivity
          linarith [mul_le_mul_of_nonneg_left hsquares hnonneg]
      _ = m * (m + 1) ^ 2 * (33 * bound) ^ 2 := by ring
  have hsq := le_of_mul_le_mul_left hscaled (by positivity)
  exact abs_le_of_sq_le_sq hsq (by linarith)

theorem kept_perm {readings' : List ℚ} (h : readings.Perm readings') :
    (kept readings).Perm (kept readings') := by
  have hkeeps : keeps readings = keeps readings' := by
    funext v
    rw [keeps, keeps, mean_perm h, variance_perm h]
  rw [kept, kept, hkeeps]
  exact h.filter _

end Clip

/-- The column as the table stores it. -/
noncomputable def BaselineRow.stddevValue (row : BaselineRow) : ℝ := Real.sqrt row.variance

/-- One of `n` readings is anything, the others lie within a bound and differ; `n` is one of
`sizes`. What is written for the bucket is bounded by a function of the bound of the others. -/
def SpikeBounded (sizes : Set ℕ) (limit : ℚ → ℝ) : Prop :=
  ∀ (db : Database) (now : ℤ) (table : Table) (group : Resource × Slot) (row : BaselineRow)
    (before after : List ℚ) (x bound : ℚ),
    group ∈ db.slots now → db.readings now group.2 = before ++ x :: after →
    (before ++ x :: after).length ∈ sizes →
    (∀ v ∈ before ++ after, |v| ≤ bound) → (∃ v ∈ before ++ after, ∃ w ∈ before ++ after, v ≠ w) →
    minSamplesPerBucket ≤ (db.bucket now group).sampleCount →
    find (db.bucket now group).key (upsert table (db.bucket now group)) = some row →
    |(row.meanValue : ℝ)| ≤ limit bound ∧ row.stddevValue ≤ limit bound

section Bounded
variable {db : Database} {now : ℤ} {group : Resource × Slot} {table : Table} {row : BaselineRow}
variable {before after : List ℚ} {x v bound : ℚ}

theorem abs_le_of_kept (hlen : 11 ≤ (before ++ x :: after).length)
    (hothers : ∀ w ∈ before ++ after, |w| ≤ bound) (h : v ∈ kept (before ++ x :: after)) :
    |v| ≤ 34 * bound := by
  have hperm : (before ++ x :: after).Perm (x :: (before ++ after)) := List.perm_middle
  have hten : 10 ≤ (before ++ after).length := by
    have := hperm.length_eq
    rw [List.length_cons] at this
    omega
  have hne : before ++ after ≠ [] := List.ne_nil_of_length_pos (by omega)
  have hmean := abs_mean_le hne hothers
  have hbound : 0 ≤ bound := (abs_nonneg _).trans hmean
  have hkept : v ∈ kept (x :: (before ++ after)) := (kept_perm hperm).mem_iff.mp h
  rcases List.mem_cons.mp (mem_kept.mp hkept).1 with rfl | hv
  · have hnear := abs_sub_mean_le hten hothers hkept
    calc |v| = |v - mean (before ++ after) + mean (before ++ after)| := by rw [sub_add_cancel]
      _ ≤ |v - mean (before ++ after)| + |mean (before ++ after)| := abs_add_le _ _
      _ ≤ 33 * bound + bound := add_le_add hnear hmean
      _ = 34 * bound := by ring
  · linarith [hothers v hv]

theorem row_of_upsert {b : Bucket} (h : find b.key (upsert table b) = some row) :
    row.meanValue = b.meanValue ∧ row.variance = b.variance := by
  rw [find_upsert, if_pos rfl] at h
  obtain rfl := Option.some.inj h
  exact ⟨rfl, rfl⟩

theorem written_le (hlen : 11 ≤ (before ++ x :: after).length)
    (hreadings : db.readings now group.2 = before ++ x :: after)
    (hothers : ∀ w ∈ before ++ after, |w| ≤ bound)
    (hcount : minSamplesPerBucket ≤ (db.bucket now group).sampleCount)
    (hrow : find (db.bucket now group).key (upsert table (db.bucket now group)) = some row) :
    |(row.meanValue : ℝ)| ≤ 51 * bound ∧ row.stddevValue ≤ 51 * bound := by
  obtain ⟨hmean, hvar⟩ := row_of_upsert hrow
  simp only [Database.bucket, hreadings] at hmean hvar hcount
  have hkept : ∀ v ∈ kept (before ++ x :: after), |v| ≤ 34 * bound :=
    fun v => abs_le_of_kept hlen hothers
  have htwo : 2 ≤ (kept (before ++ x :: after)).length := le_trans (by decide) hcount
  have hmeanLe := abs_mean_le (List.ne_nil_of_length_pos (by omega)) hkept
  have hvarLe := variance_le htwo hkept
  rw [← hmean] at hmeanLe
  rw [← hvar] at hvarLe
  have hbound : 0 ≤ bound := by linarith [abs_nonneg row.meanValue]
  have hsq : row.variance ≤ (51 * bound) ^ 2 := by nlinarith [sq_nonneg bound]
  constructor
  · have hle : |row.meanValue| ≤ 51 * bound := by linarith
    exact_mod_cast hle
  · refine Real.sqrt_le_iff.mpr ⟨?_, ?_⟩
    · have : (0 : ℚ) ≤ 51 * bound := by linarith
      exact_mod_cast this
    · exact_mod_cast hsq

end Bounded

/-! ### Histories of a short bucket -/

/-- One resource, one reading a second from the first Monday's midnight. -/
def secondly (values : List ℚ) : Database where
  resources := [⟨1, 1, "ec2", "i-1"⟩]
  history := values.zipIdx.map fun e => ⟨1, "CPUUtilization", some e.1, e.2⟩
  ids_nodup := List.nodup_singleton _
  identities_nodup := List.nodup_singleton _
  readings_nodup := by
    rw [List.map_map]
    refine List.Nodup.of_map (fun reading => reading.2.2) ?_
    rw [List.map_map]
    have hseconds : values.zipIdx.map (fun e => (e.2 : ℤ)) =
        (values.zipIdx.map Prod.snd).map Nat.cast := by rw [List.map_map]; rfl
    refine (congrArg List.Nodup hseconds).mpr ?_
    rw [List.zipIdx_map_snd]
    exact (List.nodup_range').map Nat.cast_injective

def firstSlot : Resource × Slot := (⟨1, 1, "ec2", "i-1"⟩, ⟨1, "CPUUtilization", 0, 0⟩)

section Secondly
variable {values : List ℚ}

theorem slot_secondly (hlen : values.length ≤ 3600) {e : ℚ × ℕ} (he : e ∈ values.zipIdx) :
    (⟨1, "CPUUtilization", some e.1, e.2⟩ : HistoryRow).slot = firstSlot.2 := by
  have hlt : e.2 < values.length := by
    have hsnd := List.mem_map_of_mem (f := Prod.snd) he
    rw [List.zipIdx_map_snd, List.mem_range'_1] at hsnd
    omega
  have hhour : hourOfDay (e.2 : ℤ) = 0 := by
    unfold hourOfDay
    omega
  have hday : dayOfWeek (e.2 : ℤ) = 0 := by
    unfold dayOfWeek weekday
    omega
  rw [HistoryRow.slot, hhour, hday]
  rfl

theorem recent_secondly : (secondly values).recent 0 lookbackDays = (secondly values).history := by
  refine List.filter_eq_self.mpr fun h hh => ?_
  obtain ⟨e, -, rfl⟩ := List.mem_map.mp hh
  simp [lookbackDays]

theorem readings_secondly (hlen : values.length ≤ 3600) :
    (secondly values).readings 0 firstSlot.2 = values := by
  have hall : (secondly values).history.filter (fun h => h.slot = firstSlot.2) =
      (secondly values).history := by
    refine List.filter_eq_self.mpr fun h hh => ?_
    obtain ⟨e, he, rfl⟩ := List.mem_map.mp hh
    exact decide_eq_true (slot_secondly hlen he)
  rw [Database.readings, recent_secondly, hall]
  simp only [secondly, List.filterMap_map, Function.comp_def]
  exact (List.filterMap_eq_map (f := Prod.fst) ▸ List.zipIdx_map_fst 0 values)

theorem firstSlot_mem (hlen : values.length ≤ 3600) (hne : values ≠ []) :
    firstSlot ∈ (secondly values).slots 0 := by
  obtain ⟨v, rest, rfl⟩ := List.exists_cons_of_ne_nil hne
  have hfirst : (v, 0) ∈ (v :: rest).zipIdx := List.mem_cons_self
  refine List.mem_dedup.mpr (List.mem_flatMap.mpr ⟨⟨1, "CPUUtilization", some v, 0⟩, ?_, ?_⟩)
  · rw [recent_secondly]
    exact List.mem_map.mpr ⟨(v, 0), hfirst, rfl⟩
  · refine List.mem_map.mpr ⟨firstSlot.1, by simp [secondly, firstSlot], ?_⟩
    exact Prod.ext rfl (slot_secondly hlen hfirst)

end Secondly

/-- A spike, one other reading of 1 and zeros. -/
def spiked (x : ℚ) (zeros : ℕ) : List ℚ := x :: 1 :: List.replicate zeros 0

theorem mean_spiked (x : ℚ) (zeros : ℕ) : mean (spiked x zeros) = (x + 1) / (zeros + 2) := by
  have hsum : (spiked x zeros).sum = x + 1 := by simp [spiked]
  have hlen : ((spiked x zeros).length : ℚ) = zeros + 2 := by
    simp only [spiked, List.length_cons, List.length_replicate]
    push_cast
    ring
  rw [mean, hsum, hlen]

theorem not_spikeBounded {sizes : Set ℕ} {n : ℕ} (hn : n ∈ sizes) (hlow : 3 ≤ n) (hhigh : n ≤ 10)
    (limit : ℚ → ℝ) : ¬ SpikeBounded sizes limit := by
  intro hbounded
  obtain ⟨zeros, rfl⟩ : ∃ zeros, n = zeros + 1 + 2 := ⟨n - 3, by omega⟩
  obtain ⟨x, hx⟩ := exists_rat_gt ((zeros + 3) * limit 1)
  have hlen : (spiked x (zeros + 1)).length = zeros + 1 + 2 := by simp [spiked]
  have hshort : (spiked x (zeros + 1)).length ≤ 3600 := by omega
  have hreadings : (secondly (spiked x (zeros + 1))).readings 0 firstSlot.2 =
      spiked x (zeros + 1) := readings_secondly hshort
  have hkept : kept (spiked x (zeros + 1)) = spiked x (zeros + 1) :=
    kept_of_length_le (by omega)
  have hmean : ((secondly (spiked x (zeros + 1))).bucket 0 firstSlot).meanValue =
      (x + 1) / (zeros + 3) := by
    simp only [Database.bucket, hreadings, hkept, mean_spiked]
    push_cast
    ring
  have hcount : minSamplesPerBucket ≤
      ((secondly (spiked x (zeros + 1))).bucket 0 firstSlot).sampleCount := by
    simp only [Database.bucket, hreadings, hkept, hlen]
    exact hlow
  have hothers : ∀ v ∈ (1 : ℚ) :: List.replicate (zeros + 1) 0, |v| ≤ 1 := by
    intro v hv
    rcases List.mem_cons.mp hv with rfl | hv
    · rw [abs_one]
    · rw [List.eq_of_mem_replicate hv, abs_zero]
      exact zero_le_one
  have hdiffer : ∃ v ∈ (1 : ℚ) :: List.replicate (zeros + 1) 0,
      ∃ w ∈ (1 : ℚ) :: List.replicate (zeros + 1) 0, v ≠ w :=
    ⟨1, List.mem_cons_self, 0, by simp, one_ne_zero⟩
  have hwritten := find_upsert [] ((secondly (spiked x (zeros + 1))).bucket 0 firstSlot)
    ((secondly (spiked x (zeros + 1))).bucket 0 firstSlot).key
  rw [if_pos rfl] at hwritten
  have hle := (hbounded _ 0 [] firstSlot _ [] _ x 1
    (firstSlot_mem hshort (List.cons_ne_nil _ _)) hreadings (hlen ▸ hn) hothers hdiffer hcount
    hwritten).1
  have hmeanLe : ((x : ℝ) + 1) / (zeros + 3) ≤ limit 1 := by
    refine le_trans (le_abs_self _) ?_
    rw [hmean] at hle
    exact_mod_cast hle
  have hpos : (0 : ℝ) < zeros + 3 := by positivity
  rw [div_le_iff₀ hpos, mul_comm] at hmeanLe
  linarith

/-- Whatever the size, the spike is bounded only where it can be clipped: never among ten readings
or fewer, always among more. -/
theorem spikeBounded_iff (sizes : Set ℕ) : (∃ limit, SpikeBounded sizes limit) ↔
    ∀ n ∈ sizes, n < minSamplesPerBucket ∨ 11 ≤ n := by
  constructor
  · rintro ⟨limit, hbounded⟩ n hn
    by_contra hshort
    obtain ⟨hlow, hhigh⟩ := not_or.mp hshort
    exact not_spikeBounded hn (Nat.le_of_not_lt hlow) (by omega) limit hbounded
  · intro hsizes
    refine ⟨fun bound => 51 * bound, ?_⟩
    intro db now table group row before after x bound _ hreadings hsize hothers _ hcount hrow
    have hkept : (db.bucket now group).sampleCount ≤ (before ++ x :: after).length := by
      simp only [Database.bucket, hreadings]
      exact List.length_filter_le _ _
    rcases hsizes _ hsize with hfew | hmany
    · exact absurd (hcount.trans hkept) (Nat.not_le_of_lt hfew)
    · exact written_le hmany hreadings hothers hcount hrow

/-- Ten readings, nine of them 0 or 1: no number bounds what the tenth makes of the band. -/
theorem spike_widens_band : ¬ ∃ limit, SpikeBounded Set.univ limit := by
  rintro ⟨limit, hbounded⟩
  exact not_spikeBounded (n := 10) (Set.mem_univ _) (by decide) (by decide) limit hbounded

end MonitoringHub.Baselines
