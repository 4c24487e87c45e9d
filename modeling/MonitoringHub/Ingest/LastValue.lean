import Mathlib.Algebra.Order.BigOperators.Group.List
import Mathlib.Data.Prod.Lex
import Mathlib.Data.Rat.Floor
import Mathlib.Data.String.Basic
import MonitoringHub.Ingest.AgentRow
import MonitoringHub.Lib.GroupTally
import MonitoringHub.Lib.StepRun
import MonitoringHub.Lib.Upserts

/-! The samples of a payload in the two tables. `metric_history` keeps every sample under its
own time; `metrics` keeps one row a series, overwritten by every payload and stamped with the
hub's clock. -/

namespace MonitoringHub.Ingest
open Lib Lib.KeyedStore Lib.GroupTally

/-- `FUTURE_SKEW_SECONDS` -/
def futureSkewSeconds : ℕ := 600
/-- `MAX_AGE_SECONDS` -/
def maxAgeSeconds : ℕ := 86400

/-- A sample under its stored name, at its epoch second. -/
structure Sample where
  series : String
  value : ℚ
  ts : ℕ
  deriving DecidableEq

/-- `round(v, 6)`; a tie goes to the even neighbour. -/
def round6 (value : ℚ) : ℚ :=
  let scaled := value * 1000000
  let below := scaled.floor
  let up := 1 / 2 < scaled - below ∨ scaled - below = 1 / 2 ∧ below % 2 = 1
  (if up then below + 1 else below) / 1000000

/-- `newest_per_series`; of two samples of one second the later in the payload. -/
def newestPerSeries (samples : List Sample) : List (String × (ℚ × ℕ)) :=
  tally Sample.series (fun s => (s.value, s.ts))
    (fun cur s => if cur.2 ≤ s.ts then (s.value, s.ts) else cur) samples

abbrev SeriesKey := ℕ × String

/-- `metrics` by resource and name, and `metric_history` by resource, name and time. -/
structure MetricTables where
  metrics : List (SeriesKey × (ℚ × ℕ))
  history : List ((SeriesKey × ℕ) × ℚ)

/-- `_write_samples`, with the rows in the order of the unique keys. -/
def writeSamples (written rid : ℕ) (samples : List Sample) (tables : MetricTables) :
    MetricTables where
  metrics := upserts (fun row => (rid, row.1)) (fun row => (round6 row.2.1, written))
    ((newestPerSeries samples).mergeSort fun a b => decide (a.1 ≤ b.1)) tables.metrics
  history := upserts (fun s : Sample => ((rid, s.series), s.ts)) (fun s => round6 s.value)
    (samples.mergeSort fun a b => decide (toLex (a.series, a.ts) ≤ toLex (b.series, b.ts)))
    tables.history

/-- A host's row and the two tables. -/
structure HostMetrics where
  agent : AgentRow
  tables : MetricTables

/-- A request: what validation accepted at `received`, the resource its samples go to, and the
times of its statements. -/
structure SampleIngest where
  clean : Clean Sample
  received : ℕ
  rid : ℕ
  now : ℕ
  later : ℕ
  written : ℕ
  inWindow : ∀ s ∈ clean.samples, received ≤ s.ts + maxAgeSeconds ∧
    s.ts ≤ received + futureSkewSeconds

namespace HostMetrics

def start (agent : AgentRow) : HostMetrics := ⟨agent, ⟨[], []⟩⟩

/-- The samples the request writes, if it is taken. -/
def wrote (s : HostMetrics) (a : SampleIngest) : List Sample :=
  (transact a.now a.later a.clean s.agent).2

def step (s : HostMetrics) (a : SampleIngest) : Option HostMetrics :=
  some ⟨(transact a.now a.later a.clean s.agent).1,
    writeSamples a.written a.rid (s.wrote a) s.tables⟩

end HostMetrics

namespace MetricTables

/-- The newest sample stored for the series. -/
def Newest (t : MetricTables) (k : SeriesKey) (ts : ℕ) (value : ℚ) : Prop :=
  find (k, ts) t.history = some value ∧
    ∀ ts' value', find (k, ts') t.history = some value' → ts' ≤ ts

/-- Every series with samples has a row with the value of its newest one, stamped no later
than that sample's own time and the skew. -/
def Honest (t : MetricTables) : Prop :=
  ∀ k ts value, t.Newest k ts value →
    ∃ stamp, find k t.metrics = some (value, stamp) ∧ stamp ≤ ts + futureSkewSeconds

end MetricTables

/-- The sample is the newest of its series among these, the last of them if two are as new. -/
def Latest (samples : List Sample) (r : Sample) : Prop :=
  (∀ s ∈ samples, s.series = r.series → s.ts ≤ r.ts) ∧
    (samples.filter fun s => s.series = r.series && s.ts = r.ts).getLast? = some r

/-- The newest sample that the request writes of a series is as new as all that are stored, or
brings the value of a newer one; and the newest is no older than the skew when it is written. -/
def HostMetrics.Current (s : HostMetrics) (a : SampleIngest) : Prop :=
  ∀ r, Latest (s.wrote a) r →
    ((∀ ts value, find ((a.rid, r.series), ts) s.tables.history = some value → ts ≤ r.ts) ∧
      a.written ≤ r.ts + futureSkewSeconds) ∨
    ∃ newest, r.ts ≤ newest ∧ s.tables.Newest (a.rid, r.series) newest (round6 r.value) ∧
      a.written ≤ newest + futureSkewSeconds

section Newest
variable {samples : List Sample} {name : String} {value : ℚ} {ts : ℕ}

/-- The newest of the samples of one series: no other is later, and it is the last of its second. -/
theorem groupOf_newest (rows : List Sample)
    (h : groupOf (fun s : Sample => (s.value, s.ts))
      (fun cur s => if cur.2 ≤ s.ts then (s.value, s.ts) else cur) rows = some (value, ts)) :
    (∀ s ∈ rows, s.ts ≤ ts) ∧
      ((rows.filter fun s => s.ts = ts).getLast?).map Sample.value = some value := by
  induction rows using List.reverseRecOn generalizing value ts with
  | nil => cases h
  | append_singleton rows row ih =>
    rw [groupOf_concat] at h
    have h := Option.some.inj h
    cases hgroup : groupOf (fun s : Sample => (s.value, s.ts))
        (fun cur s => if cur.2 ≤ s.ts then (s.value, s.ts) else cur) rows with
    | none =>
      have hnil : rows = [] := by
        cases rows with
        | nil => rfl
        | cons => cases hgroup
      subst hnil
      rw [hgroup, Option.getD_none] at h
      simp only [le_refl, if_true, Prod.mk.injEq] at h
      obtain ⟨rfl, rfl⟩ := h
      simp
    | some cur =>
      obtain ⟨v, t⟩ := cur
      obtain ⟨hmax, hlast⟩ := ih hgroup
      rw [hgroup, Option.getD_some] at h
      split at h
      · rename_i hlater
        obtain ⟨rfl, rfl⟩ := Prod.mk.inj h
        refine ⟨fun s hs => ?_, ?_⟩
        · rcases List.mem_append.mp hs with hold | hnew
          · exact (hmax s hold).trans hlater
          · rw [List.mem_singleton.mp hnew]
        · rw [List.filter_append, List.filter_singleton, decide_eq_true rfl, cond_true,
            List.getLast?_concat]
          rfl
      · rename_i hearlier
        obtain ⟨rfl, rfl⟩ := Prod.mk.inj h
        refine ⟨fun s hs => ?_, ?_⟩
        · rcases List.mem_append.mp hs with hold | hnew
          · exact hmax s hold
          · rw [List.mem_singleton.mp hnew]
            exact (Nat.lt_of_not_le hearlier).le
        · have hne : ¬ row.ts = t := fun heq => hearlier heq.ge
          rw [List.filter_append, List.filter_singleton, decide_eq_false hne, cond_false,
            List.append_nil]
          exact hlast

theorem newestPerSeries_latest (h : find name (newestPerSeries samples) = some (value, ts)) :
    Latest samples ⟨name, value, ts⟩ := by
  rw [newestPerSeries, find_tally] at h
  obtain ⟨hmax, hlast⟩ := groupOf_newest _ h
  refine ⟨fun s hs hname => hmax s (List.mem_filter.mpr ⟨hs, decide_eq_true hname⟩), ?_⟩
  rw [List.filter_filter] at hlast
  have hlast : ((samples.filter fun s => s.series = name && s.ts = ts).getLast?).map Sample.value =
      some value := by simpa only [Bool.and_comm] using hlast
  obtain ⟨r, hr, rfl⟩ := Option.map_eq_some_iff.mp hlast
  have hmem := (List.mem_filter.mp (List.mem_of_getLast? hr)).2
  rw [Bool.and_eq_true, decide_eq_true_eq, decide_eq_true_eq] at hmem
  obtain ⟨rfl, rfl⟩ := hmem
  exact hr

theorem newestPerSeries_none (h : find name (newestPerSeries samples) = none) :
    ∀ s ∈ samples, s.series ≠ name := by
  rintro s hs rfl
  obtain ⟨b, hb⟩ := exists_mem_tally Sample.series (fun s => (s.value, s.ts))
    (fun cur s => if cur.2 ≤ s.ts then (s.value, s.ts) else cur) hs
  rw [(distinct_tally _ _ _ _).mem_iff] at hb
  cases h.symm.trans hb

theorem newestPerSeries_iff :
    find name (newestPerSeries samples) = some (value, ts) ↔ Latest samples ⟨name, value, ts⟩ := by
  refine ⟨newestPerSeries_latest, fun h => ?_⟩
  obtain ⟨hmem, -⟩ := List.mem_filter.mp (List.mem_of_getLast? h.2)
  cases hfind : find name (newestPerSeries samples) with
  | none => exact absurd rfl (newestPerSeries_none hfind _ hmem)
  | some latest =>
    have h' := newestPerSeries_latest hfind
    obtain ⟨hmem', -⟩ := List.mem_filter.mp (List.mem_of_getLast? h'.2)
    have hts : ts = latest.2 := Nat.le_antisymm (h'.1 _ hmem rfl) (h.1 _ hmem' rfl)
    subst hts
    have heq := Option.some.inj (h.2.symm.trans h'.2)
    rw [(Sample.mk.inj heq).2.1]

theorem distinct_newestPerSeries (samples : List Sample) : Distinct (newestPerSeries samples) :=
  distinct_tally _ _ _ _

end Newest

section Tables
variable {written rid rid' : ℕ} {samples : List Sample} {tables : MetricTables} {name : String}
  {ts stamp : ℕ} {value : ℚ}

/-- The row of a series after a payload. -/
theorem find_metrics : find (rid', name) (writeSamples written rid samples tables).metrics =
    (if rid' = rid then (find name (newestPerSeries samples)).map fun v => (round6 v.1, written)
      else none).or (find (rid', name) tables.metrics) := by
  have hsort : ((newestPerSeries samples).mergeSort fun a b => decide (a.1 ≤ b.1)).filter
      (fun row => ((rid, row.1) : SeriesKey) = (rid', name)) =
        (newestPerSeries samples).filter fun row => ((rid, row.1) : SeriesKey) = (rid', name) := by
    refine filter_mergeSort (fun a b c hab hbc => ?_) (fun a b => ?_) (fun a b ha hb => ?_) _
    · exact decide_eq_true ((of_decide_eq_true hab).trans (of_decide_eq_true hbc))
    · simpa using le_total a.1 b.1
    · have ha := (Prod.mk.inj (of_decide_eq_true ha)).2
      have hb := (Prod.mk.inj (of_decide_eq_true hb)).2
      exact decide_eq_true (ha.trans hb.symm).le
  rw [writeSamples, find_upserts, hsort]
  congr 1
  by_cases hrid : rid' = rid
  · subst hrid
    rw [if_pos rfl, ← getLast?_filter_key (distinct_newestPerSeries samples) name]
    simp only [Prod.mk.injEq, true_and, Option.map_map, Function.comp_def]
  · have hnone : (newestPerSeries samples).filter
        (fun row => ((rid, row.1) : SeriesKey) = (rid', name)) = [] := by
      refine List.filter_eq_nil_iff.mpr fun row _ heq => hrid ?_
      exact (Prod.mk.inj (of_decide_eq_true heq)).1.symm
    rw [if_neg hrid, hnone]
    rfl

/-- A sample of the history after a payload. -/
theorem find_history : find ((rid', name), ts) (writeSamples written rid samples tables).history =
    (if rid' = rid then ((samples.filter fun s => s.series = name && s.ts = ts).getLast?).map
        fun s => round6 s.value
      else none).or (find ((rid', name), ts) tables.history) := by
  have hsort : (samples.mergeSort fun a b =>
      decide (toLex (a.series, a.ts) ≤ toLex (b.series, b.ts))).filter
        (fun s : Sample => (((rid, s.series), s.ts) : SeriesKey × ℕ) = ((rid', name), ts)) =
      samples.filter fun s => (((rid, s.series), s.ts) : SeriesKey × ℕ) = ((rid', name), ts) := by
    refine filter_mergeSort (fun a b c hab hbc => ?_) (fun a b => ?_) (fun a b ha hb => ?_) _
    · exact decide_eq_true ((of_decide_eq_true hab).trans (of_decide_eq_true hbc))
    · simpa using le_total (toLex (a.series, a.ts)) (toLex (b.series, b.ts))
    · obtain ⟨ha, ha'⟩ := Prod.mk.inj (of_decide_eq_true ha)
      obtain ⟨hb, hb'⟩ := Prod.mk.inj (of_decide_eq_true hb)
      rw [(Prod.mk.inj ha).2, (Prod.mk.inj hb).2, ha', hb']
      exact decide_eq_true le_rfl
  rw [writeSamples, find_upserts, hsort]
  congr 1
  by_cases hrid : rid' = rid
  · subst hrid
    rw [if_pos rfl]
    simp only [Prod.mk.injEq, true_and, Bool.decide_and]
  · have hnone : samples.filter
        (fun s => (((rid, s.series), s.ts) : SeriesKey × ℕ) = ((rid', name), ts)) = [] := by
      refine List.filter_eq_nil_iff.mpr fun row _ heq => hrid ?_
      exact (Prod.mk.inj (Prod.mk.inj (of_decide_eq_true heq)).1).1.symm
    rw [if_neg hrid, hnone]
    rfl

/-- Every sample after a payload was there or came with it. -/
theorem history_time (h : find ((rid', name), ts) (writeSamples written rid samples tables).history =
    some value) : (rid' = rid ∧ ∃ s ∈ samples, s.series = name ∧ s.ts = ts) ∨
      find ((rid', name), ts) tables.history = some value := by
  rw [find_history] at h
  split at h
  · rename_i hrid
    cases hlast : (samples.filter fun s => s.series = name && s.ts = ts).getLast? with
    | none =>
      rw [hlast] at h
      exact .inr h
    | some s =>
      obtain ⟨hs, hname⟩ := List.mem_filter.mp (List.mem_of_getLast? hlast)
      simp only [Bool.and_eq_true, decide_eq_true_eq] at hname
      exact .inl ⟨hrid, s, hs, hname⟩
  · exact .inr h

theorem history_kept (written rid : ℕ) (samples : List Sample)
    (h : find ((rid', name), ts) tables.history = some value) :
    ∃ value', find ((rid', name), ts) (writeSamples written rid samples tables).history =
      some value' := by
  rw [find_history, h]
  cases (if rid' = rid then ((samples.filter fun s => s.series = name && s.ts = ts).getLast?).map
    fun s => round6 s.value else none) <;> exact ⟨_, rfl⟩

/-- Where no sample of the payload is of that second, the history has what it had. -/
theorem history_old (h : ∀ s ∈ samples, s.series = name → s.ts ≠ ts) :
    find ((rid', name), ts) (writeSamples written rid samples tables).history =
      find ((rid', name), ts) tables.history := by
  have hnil : samples.filter (fun s => s.series = name && s.ts = ts) = [] := by
    refine List.filter_eq_nil_iff.mpr fun s hs hname => ?_
    rw [Bool.and_eq_true, decide_eq_true_eq, decide_eq_true_eq] at hname
    exact h s hs hname.1 hname.2
  rw [find_history, hnil]
  split <;> rfl

theorem history_latest (written rid : ℕ) (tables : MetricTables) {r : Sample}
    (h : Latest samples r) :
    find ((rid, r.series), r.ts) (writeSamples written rid samples tables).history =
      some (round6 r.value) := by
  rw [find_history, if_pos rfl, h.2]
  rfl

/-- The row of a series the payload has, under the hub's clock. -/
theorem metrics_latest {r : Sample} (h : Latest samples r) :
    find (rid, r.series) (writeSamples written rid samples tables).metrics =
      some (round6 r.value, written) := by
  rw [find_metrics, if_pos rfl, newestPerSeries_iff.mpr h]
  rfl

/-- A series with samples has a newest one. -/
theorem exists_newest {k : SeriesKey} (h : find (k, ts) tables.history = some value) :
    ∃ newest value', tables.Newest k newest value' := by
  let stored := fun n => (find (k, n) tables.history).isSome = true
  let bound := (tables.history.map fun entry => entry.1.2).sum
  have hbound (n : ℕ) (hn : stored n) : n ≤ bound := by
    obtain ⟨value', hvalue'⟩ := Option.isSome_iff_exists.mp hn
    exact List.le_sum_of_mem (List.mem_map.mpr ⟨_, mem_of_find hvalue', rfl⟩)
  have hts : stored ts := Option.isSome_iff_exists.mpr ⟨value, h⟩
  obtain ⟨value', hvalue'⟩ := Option.isSome_iff_exists.mp
    (Nat.findGreatest_spec (P := stored) (hbound ts hts) hts)
  refine ⟨_, value', hvalue', fun n v hn => ?_⟩
  have hn : stored n := Option.isSome_iff_exists.mpr ⟨v, hn⟩
  exact Nat.le_findGreatest (hbound n hn) hn

theorem MetricTables.Newest.unique {k : SeriesKey} {ts' : ℕ} {value' : ℚ}
    (h : tables.Newest k ts value) (h' : tables.Newest k ts' value') : ts = ts' ∧ value = value' := by
  obtain rfl : ts = ts' := Nat.le_antisymm (h'.2 _ _ h.1) (h.2 _ _ h'.1)
  exact ⟨rfl, Option.some.inj (h.1.symm.trans h'.1)⟩

end Tables

section Runs
variable {s t : HostMetrics} {a : SampleIngest}

/-- What a current request leaves of a series it writes is still not too old. -/
theorem newest_of_current {r : Sample} (hlatest : Latest (s.wrote a) r) (h : s.Current a) :
    ∃ newest, (writeSamples a.written a.rid (s.wrote a) s.tables).Newest (a.rid, r.series) newest
      (round6 r.value) ∧ a.written ≤ newest + futureSkewSeconds := by
  have hwrote := history_latest a.written a.rid s.tables hlatest
  rcases h r hlatest with ⟨hstored, hwritten⟩ | ⟨newest, hts, hnewest, hwritten⟩
  · refine ⟨r.ts, ⟨hwrote, fun ts' value' hfound => ?_⟩, hwritten⟩
    rcases history_time hfound with ⟨-, r', hr', hname, rfl⟩ | hold
    · exact hlatest.1 r' hr' hname
    · exact hstored ts' value' hold
  · refine ⟨newest, ⟨?_, fun ts' value' hfound => ?_⟩, hwritten⟩
    · by_cases heq : newest = r.ts
      · rw [heq]
        exact hwrote
      · rw [history_old fun r' hr' hname hrts => heq ?_]
        · exact hnewest.1
        · exact Nat.le_antisymm (hrts ▸ hlatest.1 r' hr' hname) hts
    · rcases history_time hfound with ⟨-, r', hr', hname, rfl⟩ | hold
      · exact (hlatest.1 r' hr' hname).trans hts
      · exact hnewest.2 ts' value' hold

theorem Honest.step (h : s.tables.Honest) (hcurrent : s.Current a) (hstep : s.step a = some t) :
    t.tables.Honest := by
  obtain rfl := Option.some.inj hstep
  rintro ⟨rid, name⟩ ts value hnewest
  have huntouched (hno : ∀ r ∈ s.wrote a, rid = a.rid → r.series ≠ name)
      (hrow : find (rid, name) (writeSamples a.written a.rid (s.wrote a) s.tables).metrics =
        find (rid, name) s.tables.metrics) :
      ∃ stamp, find (rid, name) (writeSamples a.written a.rid (s.wrote a) s.tables).metrics =
        some (value, stamp) ∧ stamp ≤ ts + futureSkewSeconds := by
    rw [hrow]
    refine h (rid, name) ts value ⟨?_, fun ts' value' hstored => ?_⟩
    · rcases history_time hnewest.1 with ⟨hrid, r, hr, hname, -⟩ | hold
      · exact absurd hname (hno r hr hrid)
      · exact hold
    · obtain ⟨value'', hkept⟩ := history_kept a.written a.rid (s.wrote a) hstored
      exact hnewest.2 ts' value'' hkept
  by_cases hrid : rid = a.rid
  · subst hrid
    cases hlatest : find name (newestPerSeries (s.wrote a)) with
    | none =>
      refine huntouched (fun r hr _ => newestPerSeries_none hlatest r hr) ?_
      rw [find_metrics, if_pos rfl, hlatest]
      rfl
    | some latest =>
      have hlatest := newestPerSeries_iff.mp hlatest
      obtain ⟨newest, hnew, hwritten⟩ := newest_of_current hlatest hcurrent
      obtain ⟨rfl, rfl⟩ := hnewest.unique hnew
      exact ⟨a.written, metrics_latest hlatest, hwritten⟩
  · refine huntouched (fun r _ heq => absurd heq hrid) ?_
    rw [find_metrics, if_neg hrid]
    rfl

/-- The condition is the weakest one: a request that leaves honest rows meets it. -/
theorem current_of_honest (hstep : s.step a = some t) (honest : t.tables.Honest) : s.Current a := by
  obtain rfl := Option.some.inj hstep
  intro r hlatest
  have hwrote := history_latest a.written a.rid s.tables hlatest
  obtain ⟨newest, value', hnewest⟩ := exists_newest hwrote
  obtain ⟨stamp, hrow, hstamp⟩ := honest (a.rid, r.series) newest value' hnewest
  have hsame := hrow.symm.trans (metrics_latest hlatest)
  obtain ⟨rfl, rfl⟩ := Prod.mk.inj (Option.some.inj hsame)
  have hmax (ts' : ℕ) (v : ℚ)
      (hstored : find ((a.rid, r.series), ts') s.tables.history = some v) : ts' ≤ newest := by
    obtain ⟨v', hkept⟩ := history_kept a.written a.rid (s.wrote a) hstored
    exact hnewest.2 ts' v' hkept
  have hts : r.ts ≤ newest := hnewest.2 r.ts _ hwrote
  rcases history_time hnewest.1 with ⟨-, r', hr', hname, rfl⟩ | hold
  · have heq : r'.ts = r.ts := Nat.le_antisymm (hlatest.1 r' hr' hname) hts
    exact .inl ⟨fun ts' v hstored => heq ▸ hmax ts' v hstored, heq ▸ hstamp⟩
  · exact .inr ⟨newest, hts, ⟨hold, hmax⟩, hstamp⟩

/-- In every run of current requests every row shows the newest sample of its series, and is
stamped with no more than the skew after it. -/
theorem last_value_honest (agent : AgentRow) (tr : List SampleIngest) (s : HostMetrics)
    (run : Steps (Guarded (Takes HostMetrics.step) HostMetrics.Current) (.start agent) tr s) :
    s.tables.Honest := by
  refine run.stable (P := fun s => s.tables.Honest) (fun k ts value h => ?_)
    fun s a t h hstep => Honest.step h hstep.1 hstep.2
  cases h.1

end Runs

section Reports

/-- One sample, taken at `ts` and written at `received`. -/
def report (seq ts received : ℕ) (value : ℚ)
    (h : received ≤ ts + maxAgeSeconds ∧ ts ≤ received + futureSkewSeconds) : SampleIngest where
  clean := ⟨seq, "1.2", [⟨"cpu", value, ts⟩]⟩
  received := received
  rid := 5
  now := received
  later := received
  written := received
  inWindow := by
    intro s hs
    obtain rfl := List.mem_singleton.mp hs
    exact h

variable {seq ts received : ℕ} {value : ℚ}
  {h : received ≤ ts + maxAgeSeconds ∧ ts ≤ received + futureSkewSeconds}

theorem latest_singleton {r r' : Sample} : Latest [r] r' ↔ r' = r := by
  refine ⟨fun hlatest => ?_, ?_⟩
  · exact List.mem_singleton.mp (List.mem_filter.mp (List.mem_of_getLast? hlatest.2)).1
  · rintro rfl
    refine ⟨fun s hs _ => ?_, ?_⟩
    · rw [List.mem_singleton.mp hs]
    · simp

/-- Two live reports. -/
theorem last_value_honest_live : ∃ s, Steps (Guarded (Takes HostMetrics.step) HostMetrics.Current)
    (.start freshAgent) [report 2 1060 1061 7 (by decide), report 1 1000 1001 3 (by decide)] s ∧
      s.tables.Honest := by
  have hfirst : (HostMetrics.start freshAgent).Current (report 1 1000 1001 3 (by decide)) := by
    intro r hr
    obtain rfl := (latest_singleton (r := ⟨"cpu", 3, 1000⟩)).mp hr
    refine .inl ⟨fun ts value hfound => ?_, by decide⟩
    cases hfound
  have hsecond (s : HostMetrics)
      (hs : (HostMetrics.start freshAgent).step (report 1 1000 1001 3 (by decide)) = some s) :
      s.Current (report 2 1060 1061 7 (by decide)) := by
    obtain rfl := Option.some.inj hs
    intro r hr
    obtain rfl := (latest_singleton (r := ⟨"cpu", 7, 1060⟩)).mp hr
    refine .inl ⟨fun ts value hfound => ?_, by decide⟩
    rcases history_time hfound with ⟨-, r, hr, -, rfl⟩ | hold
    · obtain rfl : r = ⟨"cpu", 3, 1000⟩ := List.mem_singleton.mp hr
      decide
    · cases hold
  have run : Steps (Guarded (Takes HostMetrics.step) HostMetrics.Current) (.start freshAgent)
      [report 2 1060 1061 7 (by decide), report 1 1000 1001 3 (by decide)] _ :=
    (Steps.refl.snoc ⟨hfirst, rfl⟩).snoc ⟨hsecond _ rfl, rfl⟩
  exact ⟨_, run, last_value_honest _ _ _ run⟩

/-- A queued report of two hours ago becomes the present value of its series; and a reading
that an agent takes after its clock was set back replaces a newer one. -/
theorem last_value_stale :
    (∃ s, Steps (Takes HostMetrics.step) (.start freshAgent) [report 1 1000 8200 3 (by decide)] s ∧
      find (5, "cpu") s.tables.metrics = some (3, 8200) ∧ s.tables.Newest (5, "cpu") 1000 3 ∧
      ¬ s.tables.Honest) ∧
    ∃ s, Steps (Takes HostMetrics.step) (.start freshAgent)
        [report 2 900 1061 7 (by decide), report 1 1000 1001 3 (by decide)] s ∧
      find (5, "cpu") s.tables.metrics = some (7, 1061) ∧ s.tables.Newest (5, "cpu") 1000 3 ∧
      ¬ s.tables.Honest := by
  have hthree : round6 3 = 3 := by decide +kernel
  have hseven : round6 7 = 7 := by decide +kernel
  have hlatest (value : ℚ) (ts : ℕ) : Latest [⟨"cpu", value, ts⟩] ⟨"cpu", value, ts⟩ :=
    latest_singleton.mpr rfl
  have hnewest (tables : MetricTables) (written : ℕ) (hempty : tables.history = []) :
      (writeSamples written 5 [⟨"cpu", 3, 1000⟩] tables).Newest (5, "cpu") 1000 3 := by
    refine ⟨(history_latest written 5 tables (hlatest 3 1000)).trans ?_, fun ts v hfound => ?_⟩
    · rw [hthree]
    · rcases history_time hfound with ⟨-, r, hr, -, rfl⟩ | hold
      · rw [List.mem_singleton.mp hr]
      · rw [hempty] at hold
        cases hold
  constructor
  · have hrow : find (5, "cpu") (writeSamples 8200 5 [⟨"cpu", 3, 1000⟩] ⟨[], []⟩).metrics =
        some (3, 8200) := by rw [metrics_latest (hlatest 3 1000), hthree]
    refine ⟨_, .snoc .refl rfl, hrow, hnewest ⟨[], []⟩ 8200 rfl, fun honest => ?_⟩
    obtain ⟨stamp, hstored, hstamp⟩ := honest _ _ _ (hnewest ⟨[], []⟩ 8200 rfl)
    obtain ⟨-, rfl⟩ := Prod.mk.inj (Option.some.inj (hrow.symm.trans hstored))
    exact absurd hstamp (by decide)
  · let first := writeSamples 1001 5 [⟨"cpu", 3, 1000⟩] ⟨[], []⟩
    have hrow : find (5, "cpu") (writeSamples 1061 5 [⟨"cpu", 7, 900⟩] first).metrics =
        some (7, 1061) := by rw [metrics_latest (hlatest 7 900), hseven]
    have hkept : (writeSamples 1061 5 [⟨"cpu", 7, 900⟩] first).Newest (5, "cpu") 1000 3 := by
      obtain ⟨hstored, hmax⟩ := hnewest ⟨[], []⟩ 1001 rfl
      refine ⟨?_, fun ts v hfound => ?_⟩
      · rw [history_old fun r hr _ => by rw [List.mem_singleton.mp hr]; decide]
        exact hstored
      · rcases history_time hfound with ⟨-, r, hr, -, rfl⟩ | hold
        · rw [List.mem_singleton.mp hr]
          decide
        · exact hmax ts v hold
    refine ⟨_, .snoc (.snoc .refl rfl) rfl, hrow, hkept, fun honest => ?_⟩
    obtain ⟨stamp, hstored, -⟩ := honest _ _ _ hkept
    obtain ⟨heq, -⟩ := Prod.mk.inj (Option.some.inj (hrow.symm.trans hstored))
    exact absurd heq (by decide)

end Reports

end MonitoringHub.Ingest
