import MonitoringHub.Alerts.Rollup

/-! Whether the levels of the roll-up add up. An account's counts and those of its services
are taken from the same rows; a resource's counts are too, but they stand under the service
its first row had. -/

namespace MonitoringHub.Alerts
open Lib Lib.KeyedStore Lib.GroupTally

/-- A count of the roll-up: one of the six, or the firing total. -/
inductive Column
  | of (b : CountKey)
  | firing
  deriving DecidableEq, Repr

def Column.covers : Column → Option CountKey → Bool
  | .of b, b' => b' == some b
  | .firing, b' => b' == some .critical || b' == some .warning || b' == some .info

def Column.counts (c : Column) (row : AlertRow) : Bool := c.covers (countKey row)

def Counts.column (n : Counts) : Column → ℕ
  | .of b => n.get b
  | .firing => n.critical + n.warning + n.info

def Summary.column (s : Summary) : Column → ℕ
  | .of b => s.counts.get b
  | .firing => s.firing

def ResourceSummary.column (r : ResourceSummary) : Column → ℕ
  | .of b => r.counts.get b
  | .firing => r.total

@[simp] theorem Counts.column_zero (c : Column) : ({} : Counts).column c = 0 := by
  rcases c with b | -
  · cases b <;> rfl
  · rfl

theorem Counts.column_bump (n : Counts) (b : CountKey) (c : Column) :
    (n.bump b).column c = n.column c + if c.covers (some b) then 1 else 0 := by
  rcases c with b' | -
  · cases b <;> cases b' <;> rfl
  · cases b <;> simp [bump, column, Column.covers] <;> omega

@[simp] theorem Tallies.column_finish (t : Tallies) (c : Column) :
    t.finish.column c = t.counts.column c := by cases c <;> rfl

@[simp] theorem ResourceCounts.column_finish (r : ResourceCounts) (c : Column) :
    r.finish.column c = r.counts.column c := by cases c <;> rfl

theorem Column.covers_none (c : Column) : c.covers none = false := by cases c <;> rfl

theorem Tallies.column_add (t : Tallies) (row : AlertRow) (c : Column) :
    (t.add row).counts.column c = t.counts.column c + if c.counts row then 1 else 0 := by
  unfold Tallies.add Column.counts
  split
  · rename_i h
    simp [h, Column.covers_none]
  all_goals
    rename_i h
    rw [h]
    exact Counts.column_bump _ _ c

theorem ResourceCounts.column_add (r : ResourceCounts) (row : AlertRow) (c : Column) :
    (r.add row).counts.column c = r.counts.column c + if c.counts row then 1 else 0 := by
  unfold ResourceCounts.add Column.counts
  split
  · rename_i h
    simp [h, Column.covers_none]
  · rename_i h
    rw [h]
    exact Counts.column_bump _ _ c

@[simp] theorem ResourceCounts.service_add (r : ResourceCounts) (row : AlertRow) :
    (r.add row).service = r.service := by
  unfold ResourceCounts.add
  split <;> rfl

theorem column_group {rows : List AlertRow} {t : Tallies}
    (h : groupOf (fun _ => {}) Tallies.add rows = some t) (c : Column) :
    t.counts.column c = rows.countP c.counts := by
  have hfold : ∀ (rows : List AlertRow) (t : Tallies),
      (rows.foldl Tallies.add t).counts.column c = t.counts.column c + rows.countP c.counts := by
    intro rows
    induction rows with
    | nil => exact fun t => rfl
    | cons row rows ih =>
      intro t
      rw [List.foldl_cons, ih, Tallies.column_add, List.countP_cons]
      omega
  cases rows with
  | nil => cases h
  | cons row rows =>
    rw [← Option.some.inj h, hfold, Counts.column_zero, Nat.zero_add]

/-- The service under which the resource's counts stand. -/
def filedUnder (rows : List AlertRow) (k : ℕ × String) : Option String :=
  (rows.find? fun row => row.resourceKey = k).map svcKey

theorem service_resource {rows : List AlertRow} {k : ℕ × String} {r : ResourceCounts}
    (h : (k, r) ∈ resourceTally rows) : filedUnder rows k = some r.service := by
  have hfold : ∀ (rows : List AlertRow) (r : ResourceCounts),
      (rows.foldl ResourceCounts.add r).service = r.service := by
    intro rows
    induction rows with
    | nil => exact fun r => rfl
    | cons row rows ih =>
      intro r
      rw [List.foldl_cons, ih, ResourceCounts.service_add]
  have hgroup := mem_tally.mp h
  cases hrows : rows.filter fun row => row.resourceKey = k with
  | nil =>
    rw [hrows] at hgroup
    cases hgroup
  | cons row rest =>
    rw [hrows] at hgroup
    rw [filedUnder, ← List.head?_filter, hrows, ← Option.some.inj hgroup, hfold]
    rfl

def accountRows (c : Column) (acct : ℕ) (row : AlertRow) : Bool := row.accountId = acct && c.counts row

theorem account_column {rows : List AlertRow} {e : ℕ × AccountSummary}
    (h : e ∈ (rollup rows).accounts) (c : Column) :
    e.2.summary.column c = rows.countP (accountRows c e.1) := by
  obtain ⟨⟨acct, t⟩, ht, rfl⟩ := List.mem_map.mp h
  rw [Tallies.column_finish, column_group (mem_tally.mp ht), List.countP_filter]
  exact List.countP_congr fun row _ => by simp [accountRows, and_comm]

theorem service_column {rows : List AlertRow} {acct : ℕ} {s : String × Summary}
    (h : s ∈ servicesOf (serviceTally rows) acct) (c : Column) :
    s.2.column c = rows.countP fun row => accountRows c acct row && svcKey row = s.1 := by
  obtain ⟨⟨⟨acct', svc⟩, t⟩, ht, rfl⟩ := List.mem_map.mp h
  obtain ⟨hmem, hacct⟩ := List.mem_filter.mp ht
  obtain rfl : acct' = acct := by simpa using hacct
  rw [Tallies.column_finish, column_group (mem_tally.mp hmem), List.countP_filter]
  refine List.countP_congr fun row _ => ?_
  simp only [accountRows, Bool.and_eq_true, decide_eq_true_eq, Prod.mk.injEq]
  tauto

theorem servicesOf_sum (rows : List AlertRow) (acct : ℕ) (c : Column) :
    ((servicesOf (serviceTally rows) acct).map fun s => s.2.column c).sum =
      rows.countP (accountRows c acct) := by
  have htotal := total_tally (fun row => (row.accountId, svcKey row)) (fun _ => {}) Tallies.add
    (fun k t => if k.1 = acct then t.counts.column c else 0)
    (fun row => if accountRows c acct row then 1 else 0) (by simp)
    (fun t row => by
      by_cases hacct : row.accountId = acct <;> simp [Tallies.column_add, accountRows, hacct]) rows
  rw [sum_indicator] at htotal
  rw [← htotal, servicesOf, List.map_map, serviceTally]
  have hfilter := total_filter (fun (k : ℕ × String) (_ : Tallies) => decide (k.1 = acct))
    (fun _ t => t.counts.column c) (serviceTally rows)
  simpa [total, Function.comp_def, serviceTally] using hfilter

/-- Over the resources of which `p` holds of key and service. -/
def resourceSum (R : Rollup) (p : ℕ × String → String → Bool) (c : Column) : ℕ :=
  ((R.resources.filter fun r => p r.1 r.2.service).map fun r => r.2.column c).sum

theorem resourceSum_eq (rows : List AlertRow) (p : ℕ × String → String → Bool) (c : Column) :
    resourceSum (rollup rows) p c = rows.countP fun row =>
      c.counts row && (filedUnder rows row.resourceKey).any (p row.resourceKey) := by
  let m := fun (k : ℕ × String) (r : ResourceCounts) =>
    if (filedUnder rows k).any (p k) then r.counts.column c else 0
  have htotal := total_tally AlertRow.resourceKey (fun row => { service := svcKey row })
    ResourceCounts.add m
    (fun row => if c.counts row && (filedUnder rows row.resourceKey).any (p row.resourceKey)
      then 1 else 0) (by simp [m])
    (fun r row => by
      by_cases hp : (filedUnder rows row.resourceKey).any (p row.resourceKey) = true <;>
        simp [m, ResourceCounts.column_add, hp]) rows
  rw [sum_indicator] at htotal
  rw [← htotal, resourceSum, rollup, List.filter_map, List.map_map]
  have hfilter := total_filter (fun k (r : ResourceCounts) => p k r.service)
    (fun _ r => r.counts.column c) (resourceTally rows)
  refine Eq.trans ?_ (hfilter.trans ?_)
  · simp [total, Function.comp_def, ResourceCounts.finish, ResourceSummary.column,
      Counts.column]
  · refine congrArg List.sum (List.map_congr_left fun e he => ?_)
    have hservice := service_resource (k := e.1) (r := e.2) he
    simp [m, hservice]

def Severity.rank : Severity → ℕ
  | .info => 0
  | .warning => 1
  | .critical => 2

def Severity.countKey : Severity → CountKey
  | .info => .info
  | .warning => .warning
  | .critical => .critical

/-- The most severe level with a count, or none when no level has one. -/
def IsWorst (n : Counts) : Option Severity → Prop
  | none => ∀ s : Severity, n.get s.countKey = 0
  | some s => n.get s.countKey ≠ 0 ∧ ∀ s' : Severity, s.rank < s'.rank → n.get s'.countKey = 0

/-- What the screens rely on. -/
structure AddsUp (R : Rollup) : Prop where
  accountServices : ∀ a ∈ R.accounts, ∀ c,
    a.2.summary.column c = (a.2.services.map fun s => s.2.column c).sum
  accountResources : ∀ a ∈ R.accounts, ∀ c,
    a.2.summary.column c = resourceSum R (fun k _ => k.1 = a.1) c
  serviceResources : ∀ a ∈ R.accounts, ∀ s ∈ a.2.services, ∀ c,
    s.2.column c = resourceSum R (fun k svc => k.1 = a.1 && svc = s.1) c
  accountFiring : ∀ a ∈ R.accounts, a.2.summary.firing =
    a.2.summary.counts.critical + a.2.summary.counts.warning + a.2.summary.counts.info
  serviceFiring : ∀ a ∈ R.accounts, ∀ s ∈ a.2.services,
    s.2.firing = s.2.counts.critical + s.2.counts.warning + s.2.counts.info
  resourceFiring : ∀ r ∈ R.resources,
    r.2.total = r.2.counts.critical + r.2.counts.warning + r.2.counts.info
  worst : ∀ r ∈ R.resources, IsWorst r.2.counts r.2.worst

theorem rollup_firing (rows : List AlertRow) :
    (∀ a ∈ (rollup rows).accounts, a.2.summary.firing =
      a.2.summary.counts.critical + a.2.summary.counts.warning + a.2.summary.counts.info) ∧
    (∀ a ∈ (rollup rows).accounts, ∀ s ∈ a.2.services,
      s.2.firing = s.2.counts.critical + s.2.counts.warning + s.2.counts.info) ∧
    ∀ r ∈ (rollup rows).resources,
      r.2.total = r.2.counts.critical + r.2.counts.warning + r.2.counts.info := by
  refine ⟨fun a ha => ?_, fun a ha s hs => ?_, fun r hr => ?_⟩
  · obtain ⟨e, -, rfl⟩ := List.mem_map.mp ha
    rfl
  · obtain ⟨e, -, rfl⟩ := List.mem_map.mp ha
    obtain ⟨e', -, rfl⟩ := List.mem_map.mp hs
    rfl
  · obtain ⟨e, -, rfl⟩ := List.mem_map.mp hr
    rfl

theorem ResourceCounts.worst_finish (r : ResourceCounts) : IsWorst r.finish.counts r.finish.worst := by
  unfold ResourceCounts.finish
  dsimp only
  split
  · rename_i hcritical
    refine ⟨hcritical, fun s hs => ?_⟩
    cases s <;> simp [Severity.rank] at hs
  · rename_i hcritical
    split
    · rename_i hwarning
      refine ⟨hwarning, fun s hs => ?_⟩
      cases s <;> simp [Severity.rank] at hs
      simpa [Severity.countKey, Counts.get] using hcritical
    · rename_i hwarning
      split
      · rename_i hinfo
        refine ⟨hinfo, fun s hs => ?_⟩
        cases s <;> simp_all [Severity.rank, Severity.countKey, Counts.get]
      · intro s
        cases s <;> simp_all [Severity.countKey, Counts.get]

/-- In every count, the rows of a service that stand under another service's resource are as
many as the rows of other services that stand under a resource of this one. -/
def Balanced (rows : List AlertRow) : Prop :=
  ∀ acct svc c,
    (rows.countP fun row => accountRows c acct row &&
      (svcKey row = svc && filedUnder rows row.resourceKey ≠ some svc)) =
    rows.countP fun row => accountRows c acct row &&
      (svcKey row ≠ svc && filedUnder rows row.resourceKey = some svc)

/-- The same counts with the rows that stand where they belong. -/
def Level (rows : List AlertRow) : Prop :=
  ∀ acct svc c,
    (rows.countP fun row => accountRows c acct row && svcKey row = svc) =
    rows.countP fun row => accountRows c acct row && filedUnder rows row.resourceKey = some svc

theorem countP_split {α : Type*} (p q : α → Bool) (l : List α) :
    l.countP p = l.countP (fun x => p x && q x) + l.countP fun x => p x && !q x := by
  induction l with
  | nil => rfl
  | cons x l ih =>
    rw [List.countP_cons, List.countP_cons, List.countP_cons, ih]
    by_cases hp : p x = true <;> by_cases hq : q x = true <;> simp [hp, hq] <;> omega

theorem balanced_iff (rows : List AlertRow) : Balanced rows ↔ Level rows := by
  refine forall_congr' fun acct => forall_congr' fun svc => forall_congr' fun c => ?_
  have hsvc := countP_split (fun row => accountRows c acct row && decide (svcKey row = svc))
    (fun row => decide (filedUnder rows row.resourceKey = some svc)) rows
  have hfiled := countP_split
    (fun row => accountRows c acct row && decide (filedUnder rows row.resourceKey = some svc))
    (fun row => decide (svcKey row = svc)) rows
  simp only [Bool.and_assoc, ← decide_not] at hsvc hfiled
  have hboth : (rows.countP fun row => accountRows c acct row &&
        (decide (filedUnder rows row.resourceKey = some svc) && decide (svcKey row = svc))) =
      rows.countP fun row => accountRows c acct row &&
        (decide (svcKey row = svc) && decide (filedUnder rows row.resourceKey = some svc)) :=
    List.countP_congr fun row _ => by simp only [Bool.and_comm (decide (svcKey row = svc))]
  have hother : (rows.countP fun row => accountRows c acct row &&
        (decide (filedUnder rows row.resourceKey = some svc) && decide (¬ svcKey row = svc))) =
      rows.countP fun row => accountRows c acct row &&
        (decide (¬ svcKey row = svc) && decide (filedUnder rows row.resourceKey = some svc)) :=
    List.countP_congr fun row _ => by simp only [Bool.and_comm (decide (¬ svcKey row = svc))]
  rw [hboth, hother] at hfiled
  rw [hsvc, hfiled]
  constructor
  · intro h
    exact congrArg _ h
  · intro h
    exact Nat.add_left_cancel h

theorem filedUnder_isSome {rows : List AlertRow} {row : AlertRow} (h : row ∈ rows) :
    (filedUnder rows row.resourceKey).isSome = true := by
  rw [filedUnder, Option.isSome_map, List.find?_isSome]
  exact ⟨row, h, by simp⟩

theorem exists_of_filedUnder {rows : List AlertRow} {k : ℕ × String} {svc : String}
    (h : filedUnder rows k = some svc) : ∃ row ∈ rows, row.resourceKey = k ∧ svcKey row = svc := by
  obtain ⟨row, hrow, hsvc⟩ := Option.map_eq_some_iff.mp h
  exact ⟨row, List.mem_of_find?_eq_some hrow, by simpa using List.find?_some hrow, hsvc⟩

theorem account_resources (rows : List AlertRow) (acct : ℕ) (c : Column) :
    resourceSum (rollup rows) (fun k _ => k.1 = acct) c = rows.countP (accountRows c acct) := by
  rw [resourceSum_eq]
  refine List.countP_congr fun row hrow => ?_
  obtain ⟨svc, hsvc⟩ := Option.isSome_iff_exists.mp (filedUnder_isSome hrow)
  rw [hsvc, Option.any_some, Bool.and_comm]
  exact Iff.rfl

theorem service_resources (rows : List AlertRow) (acct : ℕ) (svc : String) (c : Column) :
    resourceSum (rollup rows) (fun k svc' => k.1 = acct && svc' = svc) c =
      rows.countP fun row =>
        accountRows c acct row && filedUnder rows row.resourceKey = some svc := by
  rw [resourceSum_eq]
  refine List.countP_congr fun row hrow => ?_
  obtain ⟨svc', hsvc⟩ := Option.isSome_iff_exists.mp (filedUnder_isSome hrow)
  rw [hsvc, Option.any_some, ← Bool.and_assoc, Bool.and_comm (c.counts row)]
  simp only [Option.some.injEq]
  exact Iff.rfl

theorem exists_service {rows : List AlertRow} {row : AlertRow} (h : row ∈ rows) :
    ∃ a ∈ (rollup rows).accounts, a.1 = row.accountId ∧ a.2.services =
      servicesOf (serviceTally rows) row.accountId ∧ ∃ s ∈ a.2.services, s.1 = svcKey row := by
  obtain ⟨t, ht⟩ := exists_mem_tally AlertRow.accountId (fun _ => {}) Tallies.add h
  obtain ⟨t', ht'⟩ := exists_mem_tally (fun row => (row.accountId, svcKey row)) (fun _ => {})
    Tallies.add h
  refine ⟨_, List.mem_map_of_mem ht, rfl, rfl, (svcKey row, t'.finish), ?_, rfl⟩
  exact List.mem_map.mpr ⟨_, List.mem_filter.mpr ⟨ht', by simp⟩, rfl⟩

/-- The levels of the roll-up add up exactly when the rows are balanced. -/
theorem addsUp_iff (rows : List AlertRow) : AddsUp (rollup rows) ↔ Balanced rows := by
  rw [balanced_iff]
  constructor
  · intro h acct svc c
    by_cases hrow : ∃ row ∈ rows, row.accountId = acct ∧ svcKey row = svc
    · obtain ⟨row, hmem, rfl, rfl⟩ := hrow
      obtain ⟨a, ha, hacct, hservices, s, hs, hsvc⟩ := exists_service hmem
      have hsum := h.serviceResources a ha s hs c
      rw [hservices] at hs
      rwa [service_column hs, hacct, hsvc, service_resources] at hsum
    · -- no row of the service: none of its own, and no resource is filed under it
      rw [List.countP_eq_zero.mpr, List.countP_eq_zero.mpr]
      · intro row hmem hcount
        obtain ⟨hacct, hfiled⟩ : row.accountId = acct ∧
            filedUnder rows row.resourceKey = some svc := by
          simp only [accountRows, Bool.and_eq_true, decide_eq_true_eq] at hcount
          exact ⟨hcount.1.1, hcount.2⟩
        obtain ⟨first, hfirst, hkey, hsvc⟩ := exists_of_filedUnder hfiled
        exact hrow ⟨first, hfirst, (Prod.mk.inj hkey).1.trans hacct, hsvc⟩
      · intro row hmem hcount
        simp only [accountRows, Bool.and_eq_true, decide_eq_true_eq] at hcount
        exact hrow ⟨row, hmem, hcount.1.1, hcount.2⟩
  · intro h
    obtain ⟨hfirst, hsecond, hthird⟩ := rollup_firing rows
    refine ⟨fun a ha c => ?_, fun a ha c => ?_, fun a ha s hs c => ?_, hfirst, hsecond, hthird,
      fun r hr => ?_⟩
    · rw [account_column ha]
      obtain ⟨e, -, rfl⟩ := List.mem_map.mp ha
      exact (servicesOf_sum rows e.1 c).symm
    · rw [account_column ha, account_resources]
    · obtain ⟨e, -, rfl⟩ := List.mem_map.mp ha
      rw [service_column hs, service_resources]
      exact h e.1 s.1 c
    · obtain ⟨e, -, rfl⟩ := List.mem_map.mp hr
      exact e.2.worst_finish

/-- The rows of a resource with a counted row all have one service. -/
def OneService (rows : List AlertRow) : Prop :=
  ∀ r ∈ rows, ∀ r' ∈ rows, r.resourceKey = r'.resourceKey → countKey r ≠ none → svcKey r = svcKey r'

theorem OneService.perm {rows rows' : List AlertRow} (h : OneService rows)
    (hperm : rows'.Perm rows) : OneService rows' :=
  fun r hr r' hr' => h r (hperm.subset hr) r' (hperm.subset hr')

theorem Column.counts_ne_none {c : Column} {row : AlertRow} (h : c.counts row = true) :
    countKey row ≠ none := by
  intro hnone
  rw [Column.counts, hnone, Column.covers_none] at h
  cases h

theorem OneService.balanced {rows : List AlertRow} (h : OneService rows) : Balanced rows := by
  have hfiled : ∀ row ∈ rows, countKey row ≠ none →
      filedUnder rows row.resourceKey = some (svcKey row) := by
    intro row hrow hcounted
    obtain ⟨svc, hsvc⟩ := Option.isSome_iff_exists.mp (filedUnder_isSome hrow)
    obtain ⟨first, hfirst, hkey, rfl⟩ := exists_of_filedUnder hsvc
    rw [hsvc, h row hrow first hfirst hkey.symm hcounted]
  intro acct svc c
  rw [List.countP_eq_zero.mpr, List.countP_eq_zero.mpr]
  all_goals
    intro row hrow hcount
    simp only [accountRows, Bool.and_eq_true, decide_eq_true_eq] at hcount
    obtain ⟨⟨-, hcounted⟩, hleft, hright⟩ := hcount
    simp only [hfiled row hrow (Column.counts_ne_none hcounted), ne_eq, Option.some.injEq] at hright
    first | exact hright hleft | exact hleft hright

theorem filedUnder_cons (row : AlertRow) (rows : List AlertRow) (k : ℕ × String) :
    filedUnder (row :: rows) k =
      if row.resourceKey = k then some (svcKey row) else filedUnder rows k := by
  by_cases hk : row.resourceKey = k <;> simp [filedUnder, hk]

/-- Two rows of one resource with two services: whichever comes first, one order of the rows
puts too many of them under its service. -/
theorem not_level_of_clash {r r' : AlertRow} {rest : List AlertRow}
    (hkey : r.resourceKey = r'.resourceKey) (hsvc : svcKey r ≠ svcKey r')
    (hcounted : countKey r ≠ none) : ¬ (Level (r :: r' :: rest) ∧ Level (r' :: r :: rest)) := by
  rintro ⟨hl, hl'⟩
  obtain ⟨b, hb⟩ := Option.ne_none_iff_exists'.mp hcounted
  have hperm : (r :: r' :: rest).Perm (r' :: r :: rest) := .swap r' r rest
  have heq := hl r.accountId (svcKey r) (.of b)
  have heq' := hl' r.accountId (svcKey r) (.of b)
  rw [hperm.countP_eq] at heq
  have hsame := heq.symm.trans heq'
  rw [← hperm.countP_eq] at hsame
  -- the rows counted with `r'` first are counted with `r` first, and `r` only there
  have hle : ∀ row : AlertRow,
      filedUnder (r' :: r :: rest) row.resourceKey = some (svcKey r) →
        filedUnder (r :: r' :: rest) row.resourceKey = some (svcKey r) := by
    intro row h
    rw [filedUnder_cons] at h ⊢
    by_cases hrow : r.resourceKey = row.resourceKey
    · rw [if_pos hrow]
    · rw [if_neg (hkey ▸ hrow), filedUnder_cons, if_neg hrow] at h
      rw [if_neg hrow, filedUnder_cons, if_neg (hkey ▸ hrow), h]
  have hcounts : (Column.of b).counts r = true := by simp [Column.counts, Column.covers, hb]
  have hin : filedUnder (r :: r' :: rest) r.resourceKey = some (svcKey r) := by
    rw [filedUnder_cons, if_pos rfl]
  have hout : filedUnder (r' :: r :: rest) r.resourceKey ≠ some (svcKey r) := by
    rw [filedUnder_cons, if_pos hkey.symm]
    exact fun h => hsvc (Option.some.inj h).symm
  have hmono := List.countP_mono_left (l := r' :: rest)
    (p := fun row => accountRows (.of b) r.accountId row &&
      decide (filedUnder (r' :: r :: rest) row.resourceKey = some (svcKey r)))
    (q := fun row => accountRows (.of b) r.accountId row &&
      decide (filedUnder (r :: r' :: rest) row.resourceKey = some (svcKey r)))
    (fun row _ h => by
      simp only [Bool.and_eq_true, decide_eq_true_eq] at h ⊢
      exact ⟨h.1, hle row h.2⟩)
  rw [List.countP_cons (l := r' :: rest), List.countP_cons (l := r' :: rest)] at hsame
  simp only [accountRows, hcounts, hin, hout, decide_true, decide_false, Bool.and_true,
    Bool.and_false, ↓reduceIte, Bool.false_eq_true] at hsame hmono
  omega

/-- Whatever the order in which the database returns the rows, the levels add up exactly when
no resource with a counted alert has two services. -/
theorem addsUp_any_order (rows : List AlertRow) :
    (∀ rows', rows'.Perm rows → AddsUp (rollup rows')) ↔ OneService rows := by
  constructor
  · intro h r hr r' hr' hkey hcounted
    by_contra hsvc
    have hne : r' ≠ r := fun heq => hsvc (heq ▸ rfl)
    have hr₁ : r' ∈ rows.erase r := (List.mem_erase_of_ne hne).mpr hr'
    have hperm : (r :: r' :: (rows.erase r).erase r').Perm rows :=
      ((List.perm_cons_erase hr₁).symm.cons r).trans (List.perm_cons_erase hr).symm
    have hlevel : ∀ rows', rows'.Perm rows → Level rows' := fun rows' hp =>
      (balanced_iff rows').mp ((addsUp_iff rows').mp (h rows' hp))
    exact not_level_of_clash hkey hsvc hcounted
      ⟨hlevel _ hperm, hlevel _ ((List.Perm.swap r r' _).trans hperm)⟩
  · intro h rows' hperm
    exact (addsUp_iff rows').mpr (h.perm hperm).balanced

/-- The roll-up of a list of rows adds up exactly when they are balanced; it does so in every
order of them exactly when no resource with a counted alert has two services. -/
theorem rollup_addsUp (rows : List AlertRow) : (AddsUp (rollup rows) ↔ Balanced rows) ∧
    ((∀ rows', rows'.Perm rows → AddsUp (rollup rows')) ↔ OneService rows) :=
  ⟨addsUp_iff rows, addsUp_any_order rows⟩

/-- A queue and a table of one name in one account, and one open alert. -/
def sharedName : OpenAlerts where
  activeAccounts := [1]
  resources := [⟨1, "orders", "sqs"⟩, ⟨1, "orders", "dynamodb"⟩]
  alerts := [⟨7, 1, "orders", "approximateageofoldestmessage", some "critical", .active, false, none,
    none, 100⟩]

theorem sharedName_not_addsUp :
    ¬ AddsUp (rollup (fetchOpenAlertRows 160 (fun _ _ => 20) sharedName none)) := by
  intro h
  have hsum : ∃ a ∈ (rollup (fetchOpenAlertRows 160 (fun _ _ => 20) sharedName none)).accounts,
      ∃ s ∈ a.2.services, s.2.column (.of .critical) ≠ resourceSum
        (rollup (fetchOpenAlertRows 160 (fun _ _ => 20) sharedName none))
        (fun k svc => k.1 = a.1 && svc = s.1) (.of .critical) := by decide +kernel
  obtain ⟨a, ha, s, hs, hne⟩ := hsum
  exact hne (h.serviceResources a ha s hs _)

/-- With one service for each account and resource id, the fetched rows add up in any order. -/
theorem fetched_oneService {now : ℕ} {staleMinutes : ResourceRow → StoredAlert → ℕ} {db : OpenAlerts}
    {accountIds : Option (List ℕ)}
    (h : ∀ r ∈ db.resources, ∀ r' ∈ db.resources, r.accountId = r'.accountId →
      r.resourceId = r'.resourceId →
      normalizeServiceKey r.resourceType r.resourceId =
        normalizeServiceKey r'.resourceType r'.resourceId) :
    OneService (fetchOpenAlertRows now staleMinutes db accountIds) := by
  have hrow : ∀ row ∈ fetchOpenAlertRows now staleMinutes db accountIds, ∃ r ∈ db.resources,
      r.accountId = row.accountId ∧ r.resourceId = row.resourceId ∧
        r.resourceType = row.resourceType := by
    intro row hrow
    obtain ⟨a, -, hrow⟩ := List.mem_flatMap.mp hrow
    split at hrow
    · obtain ⟨r, hr, rfl⟩ := List.mem_map.mp hrow
      obtain ⟨hr, hon⟩ := List.mem_filter.mp hr
      simp only [Bool.and_eq_true, decide_eq_true_eq] at hon
      exact ⟨r, hr, hon.2, hon.1, rfl⟩
    · cases hrow
  intro row hmem row' hmem' hkey _
  obtain ⟨r, hr, hacct, hid, htype⟩ := hrow row hmem
  obtain ⟨r', hr', hacct', hid', htype'⟩ := hrow row' hmem'
  obtain ⟨hkacct, hkid⟩ := Prod.mk.inj hkey
  have hsame := h r hr r' hr' (hacct.trans (hkacct.trans hacct'.symm))
    (hid.trans (hkid.trans hid'.symm))
  rwa [htype, hid, htype', hid'] at hsame

/-- The ring shows every service once. -/
theorem serviceRing_total {services : List (String × Summary)} (active : List String)
    (h : (services.map Prod.fst).Nodup) :
    (serviceRing active services).critical + (serviceRing active services).warning +
      (serviceRing active services).healthy = (serviceRing active services).total := by
  have hpart : (criticalServices services ++ warningServices services).Nodup := by
    refine List.nodup_append.mpr ⟨?_, ?_, ?_⟩
    · exact (List.filter_sublist.map Prod.fst).nodup h
    · exact (List.filter_sublist.map Prod.fst).nodup h
    · intro svc hcrit svc' hwarn heq
      subst heq
      obtain ⟨s, hs, rfl⟩ := List.mem_map.mp hcrit
      obtain ⟨s', hs', hsvc⟩ := List.mem_map.mp hwarn
      obtain ⟨hs, hon⟩ := List.mem_filter.mp hs
      obtain ⟨hs', hon'⟩ := List.mem_filter.mp hs'
      obtain rfl := List.inj_on_of_nodup_map h hs' hs hsvc
      simp only [decide_eq_true_eq, Bool.and_eq_true] at hon hon'
      omega
  have hsub : criticalServices services ++ warningServices services ⊆
      (active ++ criticalServices services ++ warningServices services).dedup := by
    intro svc hsvc
    rw [List.mem_dedup, List.append_assoc]
    exact List.mem_append_right _ hsvc
  have hlen := (List.subperm_of_subset hpart hsub).length_le
  rw [List.length_append] at hlen
  simp only [serviceRing]
  omega

end MonitoringHub.Alerts
