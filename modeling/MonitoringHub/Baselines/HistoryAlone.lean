import MonitoringHub.Baselines.UpgradeBaselines

/-! What a nightly run leaves in `metric_baseline` against what the history alone calls for. Rows
that no group of the window has stay as they were, a marker of an earlier pass stays unless this
pass writes its own, and two groups under one key leave one row. -/

namespace MonitoringHub.Baselines
open Lib Lib.KeyedStore Lib.SampleMoments

/-! ### The pass as one list of updates -/

def Night.fits (night : Night) (fitted : List Series) : List (BucketKey × Fit) :=
  fitted.flatMap fun s => (night.fit s).getD []

section Fits
variable {night : Night} {fitted fitted' : List Series}

theorem fits_distinct (h : fitted.Nodup) : Distinct (night.fits fitted) := by
  have hbuckets : ∀ s, Distinct ((night.fit s).getD []) ∧
      ∀ e ∈ (night.fit s).getD [], e.1.series = s := by
    intro s
    cases hfit : night.fit s with
    | none => exact ⟨List.nodup_nil, fun e he => absurd he List.not_mem_nil⟩
    | some buckets => exact fit_distinct hfit
  rw [Distinct, keys, Night.fits, List.map_flatMap, List.nodup_flatMap]
  refine ⟨fun s _ => (hbuckets s).1, h.imp fun {s s'} hne => ?_⟩
  intro k hk hk'
  obtain ⟨e, he, hek⟩ := List.mem_map.mp hk
  obtain ⟨e', he', hek'⟩ := List.mem_map.mp hk'
  refine hne ?_
  rw [← (hbuckets s).2 e he, ← (hbuckets s').2 e' he', hek, hek']

theorem find_fits_congr (h : fitted.Nodup) (h' : fitted'.Nodup)
    (hsame : ∀ s, s ∈ fitted ↔ s ∈ fitted') (k : BucketKey) :
    find k (night.fits fitted) = find k (night.fits fitted') := by
  have hperm : fitted.Perm fitted' := (List.perm_ext_iff_of_nodup h h').mpr hsame
  exact (perm_iff_find (fits_distinct h) (fits_distinct h')).mp (hperm.flatMap_right _) k

theorem foldl_upgradeSeries (processed : List Series) (table : Table) :
    processed.foldl night.upgradeSeries table =
      (night.fits (processed.filter fun s => (night.fit s).isSome)).foldl applyFit table := by
  induction processed generalizing table with
  | nil => rfl
  | cons s processed ih =>
    rw [List.foldl_cons, ih, Night.upgradeSeries, List.filter_cons]
    cases hfit : night.fit s with
    | none => rfl
    | some buckets =>
      have hfits : ∀ rest, night.fits (s :: rest) = buckets ++ night.fits rest := by
        intro rest
        rw [Night.fits, List.flatMap_cons, hfit, Option.getD_some, Night.fits]
      rw [Option.isSome_some, if_pos rfl, hfits, List.foldl_append]

end Fits

namespace NightlyRun
variable {night : Night} (run : NightlyRun night)

theorem fitted_nodup : run.fitted.Nodup := by
  unfold fitted
  split
  · have hshuffled : run.shuffled.Nodup := run.shuffled_perm.nodup_iff.mpr (List.nodup_dedup _)
    exact (hshuffled.sublist (List.take_sublist _ _)).filter _
  · exact List.nodup_nil

theorem final_eq : run.final = (night.fits run.fitted).foldl applyFit run.recomputed := by
  unfold final fitted Night.upgradeBaselines
  split
  · exact foldl_upgradeSeries _ _
  · rfl

theorem find_final (k : BucketKey) : find k run.final =
    (find k (night.fits run.fitted)).elim (find k run.recomputed)
      fun f => (find k run.recomputed).map f.overwrite := by
  rw [final_eq]
  exact find_foldl_steps (fun f => Option.map f.overwrite) find_applyFit
    (fits_distinct run.fitted_nodup) _ _

theorem final_distinct : Distinct run.final := by
  rw [final_eq]
  exact List.foldlRecOn _ _ (recompute_distinct run.earlier_distinct)
    fun _ h e _ => applyFit_distinct h e

end NightlyRun

/-! ### What the history calls for -/

def Night.buckets (night : Night) : List Bucket := night.db.buckets night.now

/-- The fit that passes the clamp for the bucket. -/
def Night.replaces (night : Night) (fitted : List Series) (b : Bucket) : Option Fit :=
  (find b.key (night.fits fitted)).filter fun f => !clamped b.variance f.variance

def Night.rowFor (night : Night) (fitted : List Series) (b : Bucket) (kept : Method) :
    BaselineRow :=
  match night.replaces fitted b with
  | some f => ⟨f.meanValue, f.variance, b.sampleCount, .stl⟩
  | none => b.row kept

/-- One row for each bucket with enough samples, marked `stl` where the pass overwrites it. -/
def Night.expected (night : Night) (fitted : List Series) : Table :=
  night.buckets.map fun b => (b.key, night.rowFor fitted b .sigmaClip)

/-- Every earlier row is of a bucket that is written again, and a marker is only there where this
pass sets it too. -/
def NightlyRun.Clean {night : Night} (run : NightlyRun night) : Prop :=
  ∀ e ∈ run.earlier, ∃ b ∈ night.buckets, b.key = e.1 ∧
    (e.2.computedBy = .stl → (night.replaces run.fitted b).isSome = true)

section Expected
variable {night : Night} (run : NightlyRun night) {b : Bucket} {k : BucketKey}

theorem keys_expected (fitted : List Series) :
    keys (night.expected fitted) = night.buckets.map Bucket.key := by
  rw [keys, Night.expected, List.map_map]
  rfl

theorem overwrite_row (f : Fit) (b : Bucket) (kept : Method) : f.overwrite (b.row kept) =
    if clamped b.variance f.variance then b.row kept
    else ⟨f.meanValue, f.variance, b.sampleCount, .stl⟩ := rfl

theorem filter_key_singleton (hkeys : (night.buckets.map Bucket.key).Nodup) (hb : b ∈ night.buckets)
    {fetched : List Bucket} (hperm : fetched.Perm night.buckets) :
    fetched.filter (fun b' => b'.key = b.key) = [b] := by
  have hsingle : night.buckets.filter (fun b' => b'.key = b.key) = [b] := by
    have hinj := List.inj_on_of_nodup_map hkeys
    have hnodup : night.buckets.Nodup := List.Nodup.of_map _ hkeys
    refine List.perm_singleton.mp ?_
    refine (List.perm_ext_iff_of_nodup (hnodup.filter _) (List.nodup_singleton b)).mpr fun b' => ?_
    rw [List.mem_filter, List.mem_singleton, decide_eq_true_iff]
    constructor
    · rintro ⟨hb', heq⟩
      exact hinj hb' hb heq
    · rintro rfl
      exact ⟨hb, rfl⟩
  exact List.perm_singleton.mp (hsingle ▸ hperm.filter _)

theorem find_final_bucket (hkeys : (night.buckets.map Bucket.key).Nodup)
    (hb : b ∈ night.buckets) : find b.key run.final =
      some (night.rowFor run.fitted b (marker run.earlier b.key)) := by
  have hrow : find b.key run.recomputed = some (b.row (marker run.earlier b.key)) := by
    rw [NightlyRun.recomputed, find_recompute, filter_key_singleton hkeys hb run.fetched_perm]
    rfl
  rw [run.find_final, hrow, Night.rowFor, Night.replaces]
  cases find b.key (night.fits run.fitted) with
  | none => rfl
  | some f =>
    rw [Option.elim_some, Option.map_some, overwrite_row]
    by_cases hclamp : clamped b.variance f.variance = true <;> simp [hclamp, Option.filter]

/-- A row that no bucket of the window has is neither removed nor added. -/
theorem find_final_stale (hk : ∀ b ∈ night.buckets, b.key ≠ k) :
    (find k run.final).isSome = (find k run.earlier).isSome := by
  have hrow : find k run.recomputed = find k run.earlier := by
    have hnone : run.fetched.filter (fun b => b.key = k) = [] := by
      refine List.filter_eq_nil_iff.mpr fun b hb heq => ?_
      exact hk b (run.fetched_perm.mem_iff.mp hb) (of_decide_eq_true heq)
    rw [NightlyRun.recomputed, find_recompute, hnone]
    rfl
  rw [run.find_final, hrow]
  cases find k (night.fits run.fitted) with
  | none => rfl
  | some f => rw [Option.elim_some, Option.isSome_map]

theorem find_expected_bucket (hkeys : (night.buckets.map Bucket.key).Nodup)
    (hb : b ∈ night.buckets) (fitted : List Series) :
    find b.key (night.expected fitted) = some (night.rowFor fitted b .sigmaClip) := by
  have hdistinct : Distinct (night.expected fitted) := by rwa [Distinct, keys_expected]
  exact hdistinct.mem_iff.mp (List.mem_map.mpr ⟨b, hb, rfl⟩)

theorem rowFor_computedBy (night : Night) (fitted : List Series) (b : Bucket) (kept : Method) :
    (night.rowFor fitted b kept).computedBy = .stl ↔
      (night.replaces fitted b).isSome = true ∨ kept = .stl := by
  unfold Night.rowFor
  cases night.replaces fitted b with
  | none => simp [Bucket.row]
  | some f => simp

theorem rowFor_marker (hkeep : marker run.earlier b.key = .stl →
    (night.replaces run.fitted b).isSome = true) :
    night.rowFor run.fitted b (marker run.earlier b.key) =
      night.rowFor run.fitted b .sigmaClip := by
  unfold Night.rowFor
  cases hreplaces : night.replaces run.fitted b with
  | none =>
    cases hmarker : marker run.earlier b.key with
    | sigmaClip => rfl
    | stl =>
      have hsome := hkeep hmarker
      rw [hreplaces] at hsome
      cases hsome
  | some f => rfl

theorem final_perm_expected_iff (hkeys : (night.buckets.map Bucket.key).Nodup) :
    run.final.Perm (night.expected run.fitted) ↔ run.Clean := by
  have hdistinct : Distinct (night.expected run.fitted) := by rwa [Distinct, keys_expected]
  rw [perm_iff_find run.final_distinct hdistinct]
  constructor
  · rintro hfind ⟨k, row⟩ he
    have hearlier : find k run.earlier = some row := run.earlier_distinct.mem_iff.mp he
    by_cases hfresh : ∃ b ∈ night.buckets, b.key = k
    · obtain ⟨b, hb, rfl⟩ := hfresh
      refine ⟨b, hb, rfl, fun hstl => ?_⟩
      have hrows := hfind b.key
      rw [find_final_bucket run hkeys hb, find_expected_bucket hkeys hb] at hrows
      have hmarker : marker run.earlier b.key = .stl := by rw [marker, hearlier]; exact hstl
      have hmarked := (rowFor_computedBy night run.fitted b _).mpr (.inr hmarker)
      rw [Option.some.inj hrows, rowFor_computedBy] at hmarked
      exact hmarked.resolve_right (by decide)
    · have hstale := find_final_stale run fun b hb heq => hfresh ⟨b, hb, heq⟩
      rw [hfind k, hearlier, Option.isSome_some, find_isSome_iff, keys_expected] at hstale
      obtain ⟨b, hb, heq⟩ := List.mem_map.mp hstale
      exact absurd ⟨b, hb, heq⟩ hfresh
  · intro hclean k
    by_cases hfresh : ∃ b ∈ night.buckets, b.key = k
    · obtain ⟨b, hb, rfl⟩ := hfresh
      rw [find_final_bucket run hkeys hb, find_expected_bucket hkeys hb]
      refine congrArg some (rowFor_marker run fun hmarker => ?_)
      cases hearlier : find b.key run.earlier with
      | none =>
        rw [marker, hearlier] at hmarker
        cases hmarker
      | some row =>
        rw [marker, hearlier] at hmarker
        obtain ⟨b', hb', hkey, hstl⟩ := hclean _ (mem_of_find hearlier)
        obtain rfl := List.inj_on_of_nodup_map hkeys hb' hb hkey
        exact hstl hmarker
    · have hstale := find_final_stale run fun b hb heq => hfresh ⟨b, hb, heq⟩
      have hearlier : find k run.earlier = none := by
        cases hrow : find k run.earlier with
        | none => rfl
        | some row =>
          obtain ⟨b, hb, hkey, -⟩ := hclean _ (mem_of_find hrow)
          exact absurd ⟨b, hb, hkey⟩ hfresh
      rw [hearlier, Option.isSome_none, Option.isSome_eq_false_iff, Option.isNone_iff_eq_none]
        at hstale
      rw [hstale, eq_comm, ← Option.not_isSome_iff_eq_none, find_isSome_iff, keys_expected]
      exact fun hmem => hfresh (List.mem_map.mp hmem)

end Expected

/-- The two runs leave the same rows, and these are what the history calls for. -/
def HistoryAlone {night : Night} (run₁ run₂ : NightlyRun night) : Prop :=
  run₁.final.Perm run₂.final ∧ run₁.final.Perm (night.expected run₁.fitted)

section HistoryAlone
variable {night : Night} {fitted fitted' : List Series}

theorem expected_congr (h : fitted.Nodup) (h' : fitted'.Nodup)
    (hsame : ∀ s, s ∈ fitted ↔ s ∈ fitted') :
    night.expected fitted = night.expected fitted' := by
  have hrow : ∀ b kept, night.rowFor fitted b kept = night.rowFor fitted' b kept := by
    intro b kept
    rw [Night.rowFor, Night.rowFor, Night.replaces, Night.replaces, find_fits_congr h h' hsame]
  simp only [Night.expected, hrow]

theorem keys_nodup_of_perm (run : NightlyRun night)
    (h : run.final.Perm (night.expected fitted)) : (night.buckets.map Bucket.key).Nodup := by
  have hkeys : (keys run.final).Perm (keys (night.expected fitted)) := h.map Prod.fst
  rw [keys_expected] at hkeys
  exact hkeys.nodup_iff.mp run.final_distinct

end HistoryAlone

/-- Two runs that fit the same series agree on the table of the history just when no two groups
share a key and neither found a row or a marker that it does not write itself. -/
theorem historyAlone_iff {night : Night} (run₁ run₂ : NightlyRun night)
    (hsame : ∀ s, s ∈ run₁.fitted ↔ s ∈ run₂.fitted) :
    HistoryAlone run₁ run₂ ↔
      (night.buckets.map Bucket.key).Nodup ∧ run₁.Clean ∧ run₂.Clean := by
  have hexpected : night.expected run₁.fitted = night.expected run₂.fitted :=
    expected_congr run₁.fitted_nodup run₂.fitted_nodup hsame
  constructor
  · rintro ⟨hagree, hcalled⟩
    have hkeys := keys_nodup_of_perm run₁ hcalled
    have hcalled₂ : run₂.final.Perm (night.expected run₂.fitted) :=
      hexpected ▸ hagree.symm.trans hcalled
    exact ⟨hkeys, (final_perm_expected_iff run₁ hkeys).mp hcalled,
      (final_perm_expected_iff run₂ hkeys).mp hcalled₂⟩
  · rintro ⟨hkeys, hclean₁, hclean₂⟩
    have hcalled₁ := (final_perm_expected_iff run₁ hkeys).mpr hclean₁
    have hcalled₂ := (final_perm_expected_iff run₂ hkeys).mpr hclean₂
    exact ⟨hcalled₁.trans (hexpected ▸ hcalled₂.symm), hcalled₁⟩

/-! ### A marker that stays -/

/-- Three readings of one resource, on a host where statsmodels cannot be imported. -/
def quietNight : Night where
  db :=
    { resources := [⟨1, 1, "ec2", "i-1"⟩]
      history := [⟨1, "CPUUtilization", some 0, 0⟩, ⟨1, "CPUUtilization", some 1, 1⟩,
        ⟨1, "CPUUtilization", some 2, 2⟩]
      ids_nodup := by decide
      identities_nodup := by decide
      readings_nodup := by decide }
  now := 600
  stlNow := 600
  packages := ⟨false, id, fun _ => none⟩
  choice := fun _ => 0

def quietBucket : Bucket := ⟨⟨1, "i-1", "CPUUtilization", 0, 0⟩, 1, 1, 3, 3⟩

theorem buckets_quietNight : quietNight.buckets = [quietBucket] := by decide +kernel

/-- The run that finds no row for the bucket, or one. -/
def quietRun (before : Option BaselineRow) : NightlyRun quietNight where
  earlier := before.toList.map fun row => (quietBucket.key, row)
  earlier_distinct := by
    cases before with
    | none => exact List.nodup_nil
    | some row => exact List.nodup_singleton _
  fetched := [quietBucket]
  fetched_perm := .of_eq buckets_quietNight.symm
  shuffled := [⟨1, "i-1", "CPUUtilization"⟩]
  shuffled_perm := by
    refine .of_eq ?_
    cases before <;> rfl
  beforeDeadline := 1

theorem historyAlone_iff_quiet :
    HistoryAlone (quietRun none) (quietRun (some ⟨5, 4, 9, .sigmaClip⟩)) ↔
      (quietNight.buckets.map Bucket.key).Nodup ∧ (quietRun none).Clean ∧
        (quietRun (some ⟨5, 4, 9, .sigmaClip⟩)).Clean :=
  historyAlone_iff _ _ fun _ => Iff.rfl

/-- Nothing is fitted, and the row of an earlier fit is still marked `stl`. -/
theorem marker_stays : ¬ ∀ (night : Night) (run₁ run₂ : NightlyRun night),
    (∀ s, s ∈ run₁.fitted ↔ s ∈ run₂.fitted) → HistoryAlone run₁ run₂ := by
  intro h
  have hagree := (h quietNight (quietRun none) (quietRun (some ⟨5, 4, 9, .stl⟩))
    fun _ => Iff.rfl).1
  exact absurd hagree (by decide +kernel)

end MonitoringHub.Baselines
