import MonitoringHub.TagSync.TagPlan

/-! What stands behind a decision of `plan_account`. The lookups of the plan are first read as
facts about rows and items; a decision is then traced back to its row, and from there to the
sweeps. -/

namespace MonitoringHub.TagSync
open Lib Lib.KeyedStore Lib.GroupTally

section Evidence
variable {py : TextMethods} {accountNumber : String} {rows : List ResourceRow}
  {sweeps : List Sweep} {k : Key}

theorem mem_entries {e : Entry} : e ∈ entries py accountNumber sweeps ↔
    ∃ sw ∈ sweeps, sw.ok = true ∧ ∃ it ∈ sw.items,
      itemFate py accountNumber sw it = .indexed e := by
  simp only [entries, fates, List.mem_filterMap, List.mem_flatMap, List.mem_filter, List.mem_map]
  constructor
  · rintro ⟨fate, ⟨sw, ⟨hsw, hok⟩, it, hit, rfl⟩, hfate⟩
    refine ⟨sw, hsw, hok, it, hit, ?_⟩
    split at hfate
    · rename_i e' heq
      rw [heq, Option.some.inj hfate]
    · cases hfate
  · rintro ⟨sw, hsw, hok, it, hit, heq⟩
    exact ⟨_, ⟨sw, ⟨hsw, hok⟩, it, hit, rfl⟩, by rw [heq]⟩

/-- What is indexed is what an item says, in what its sweep may speak for. -/
theorem itemFate_indexed {sw : Sweep} {it : Item} {e : Entry} :
    itemFate py accountNumber sw it = .indexed e ↔
      arnKey py it.arn = some (e.key, e.aclId) ∧ sw.speaksFor e.key.rtype = true ∧
        (e.key.rtype = "s3" ∨ e.key.account = accountNumber) ∧
        e.arn = it.arn ∧ e.tags = cleanTags py it.tags ∧ e.region = sw.region := by
  unfold itemFate
  split
  · rename_i hnone
    simp [hnone]
  · rename_i key aclId hkey
    obtain ⟨ekey, earn, etags, eacl, eregion⟩ := e
    rw [hkey]
    split
    · rename_i hscope
      simp only [reduceCtorEq, Option.some.injEq, Prod.mk.injEq, false_iff]
      rintro ⟨⟨rfl, -⟩, hspeaks, -⟩
      simp [hspeaks] at hscope
    · rename_i hscope
      split
      · rename_i hforeign
        simp only [reduceCtorEq, Option.some.injEq, Prod.mk.injEq, false_iff]
        rintro ⟨⟨rfl, -⟩, -, hours, -⟩
        exact hours.elim hforeign.1 hforeign.2
      · rename_i hours
        simp only [ItemFate.indexed.injEq, Entry.mk.injEq, Option.some.injEq, Prod.mk.injEq]
        constructor
        · rintro ⟨rfl, rfl, rfl, rfl, rfl⟩
          exact ⟨⟨rfl, rfl⟩, by simpa using hscope, by tauto, rfl, rfl, rfl⟩
        · rintro ⟨⟨rfl, rfl⟩, -, -, rfl, rfl, rfl⟩
          exact ⟨rfl, rfl, rfl, rfl, rfl⟩

theorem arnIndex_get : (find k (evidence py accountNumber rows sweeps).arnIndex).getD [] =
    (entries py accountNumber sweeps).filter fun e => e.key = k :=
  (find_collect Entry.key id (entries py accountNumber sweeps) k).trans (List.map_id _)

theorem byKey_length : ((find k (evidence py accountNumber rows sweeps).byKey).getD []).length =
    (rows.filter fun r => rowKey py r accountNumber = some k).length := by
  rw [evidence, find_collect, List.length_map, keyedRows]
  induction rows with
  | nil => rfl
  | cons r rows ih =>
    rw [List.filterMap_cons]
    cases hkey : rowKey py r accountNumber with
    | none => simpa [hkey, List.filter_cons] using ih
    | some k' =>
      by_cases hk : k' = k
      · simpa [hkey, hk, List.filter_cons] using ih
      · simpa [hkey, hk, List.filter_cons] using ih

/-- A region has an entry if a completed sweep was of it, and counts what its sweeps returned. -/
theorem okRegions_find {region : String} :
    find region (evidence py accountNumber rows sweeps).okRegions =
      groupOf (fun _ => 0) (fun n sw => n + sw.items.length)
        ((sweeps.filter Sweep.completed).filter fun sw => sw.region = region) :=
  find_tally _ _ _ _ _

theorem foldl_lengths (n : ℕ) (group : List Sweep) :
    group.foldl (fun n sw => n + sw.items.length) n =
      n + (group.map fun sw => sw.items.length).sum := by
  induction group generalizing n with
  | nil => rfl
  | cons sw group ih => rw [List.foldl_cons, ih, List.map_cons, List.sum_cons, Nat.add_assoc]

theorem groupOf_lengths (group : List Sweep) :
    groupOf (fun _ => 0) (fun n sw => n + sw.items.length) group =
      if group = [] then none else some (group.map fun sw => sw.items.length).sum := by
  cases group with
  | nil => rfl
  | cons sw group => simp [groupOf, foldl_lengths]

theorem completed_sweep {region : String} {count : ℕ}
    (h : find region (evidence py accountNumber rows sweeps).okRegions = some count)
    (hcount : count ≠ 0) :
    ∃ sw ∈ sweeps, sw.completed = true ∧ sw.region = region ∧ sw.items ≠ [] := by
  rw [okRegions_find, groupOf_lengths] at h
  obtain ⟨-, hsum⟩ := Option.ite_none_left_eq_some.mp h
  obtain rfl := Option.some.inj hsum
  by_contra hnone
  refine hcount (List.sum_eq_zero fun n hn => ?_)
  obtain ⟨sw, hsw, rfl⟩ := List.mem_map.mp hn
  obtain ⟨hin, hregion⟩ := List.mem_filter.mp hsw
  obtain ⟨hmem, hcompleted⟩ := List.mem_filter.mp hin
  by_contra hlen
  exact hnone ⟨sw, hmem, hcompleted, by simpa using hregion, fun hnil => hlen (by simp [hnil])⟩

end Evidence

section Verdicts
variable {py : TextMethods} {loads : String → Option StoredTags} {accountNumber : String}
  {ev : Evidence} {r : ResourceRow} {k : Key}

theorem verdict_tagged {e : Entry} (h : verdict py loads accountNumber ev r = .tagged k e) :
    rowKey py r accountNumber = some k ∧ e ∈ (find k ev.arnIndex).getD [] := by
  unfold verdict at h
  split at h
  · cases h
  · split at h
    · cases h
    · rename_i k' hkey
      simp only at h
      split at h
      · cases h
      · split at h
        · cases h
        · rename_i first rest hentries
          split at h
          · cases h
          · split at h
            · cases h
            · obtain ⟨rfl, rfl⟩ := Verdict.tagged.inj h
              exact ⟨hkey, hentries ▸ List.mem_cons_self⟩

theorem verdict_pending (h : verdict py loads accountNumber ev r = .pending k) :
    rowKey py r accountNumber = some k ∧ ((find k ev.byKey).getD []).length ≤ 1 ∧
      (find k ev.arnIndex).getD [] = [] := by
  unfold verdict at h
  split at h
  · cases h
  · split at h
    · cases h
    · rename_i k' hkey
      simp only at h
      split at h
      · cases h
      · rename_i hshared
        split at h
        · rename_i hentries
          obtain rfl := Verdict.pending.inj h
          exact ⟨hkey, Nat.le_of_not_lt hshared, hentries⟩
        · split at h
          · cases h
          · split at h <;> cases h

theorem taggedDecision_eq_some {d : Decision} :
    taggedDecision py loads accountNumber ev r = some d ↔
      ∃ k e, verdict py loads accountNumber ev r = .tagged k e ∧
        d = ⟨.tagged, e.tags, "matched " ++ e.arn.getD ""⟩ := by
  unfold taggedDecision
  split
  · rename_i k e hv
    simp only [hv, Option.some.injEq, Verdict.tagged.injEq]
    constructor
    · rintro rfl
      exact ⟨k, e, ⟨rfl, rfl⟩, rfl⟩
    · rintro ⟨k', e', ⟨rfl, rfl⟩, rfl⟩
      rfl
  · rename_i hno
    simp only [reduceCtorEq, false_iff]
    rintro ⟨k, e, hv, -⟩
    exact hno k e hv

theorem absentDecision_eq_some {absenceTypes : List String}
    {matched : List ((String × String) × ℕ)} {d : Decision} :
    absentDecision py loads accountNumber absenceTypes ev matched r = some d ↔
      ∃ k, verdict py loads accountNumber ev r = .pending k ∧
        absenceBlocker absenceTypes ev matched k = none ∧
        d = ⟨.absent, [], s!"not in a completed sweep of {k.region}"⟩ := by
  unfold absentDecision
  split
  · rename_i k hv
    simp only [Option.ite_none_right_eq_some, Option.isNone_iff_eq_none, hv, Verdict.pending.injEq,
      Option.some.injEq]
    constructor
    · rintro ⟨hblock, rfl⟩
      exact ⟨k, rfl, hblock, rfl⟩
    · rintro ⟨k', rfl, hblock, rfl⟩
      exact ⟨hblock, rfl⟩
  · rename_i hno
    simp only [reduceCtorEq, false_iff]
    rintro ⟨k, hv, -⟩
    exact hno k hv

theorem absenceBlocker_eq_none {absenceTypes : List String}
    {matched : List ((String × String) × ℕ)} :
    absenceBlocker absenceTypes ev matched k = none ↔
      k.rtype ∈ absenceTypes ∧ k.rtype ∉ globalTypes ∧
      ∃ count, find k.region ev.okRegions = some count ∧ count ≠ 0 ∧
        ¬(0 < (find (k.rtype, k.region) ev.arnsPerTypeRegion).getD 0 ∧
          (find (k.rtype, k.region) matched).getD 0 = 0) := by
  unfold absenceBlocker
  simp only
  split
  · rename_i htype
    simp [htype]
  · rename_i htype
    split
    · rename_i hglobal
      simp [hglobal]
    · rename_i hglobal
      split
      · rename_i hfound
        simp [hfound]
      · rename_i count hfound
        split
        · rename_i hcount
          simp [hfound, hcount]
        · rename_i hcount
          split
          · rename_i hsuspect
            simp [hfound, hsuspect]
          · rename_i hsuspect
            simp only [true_iff]
            exact ⟨by simpa using htype, hglobal, count, hfound, hcount, hsuspect⟩

end Verdicts

section Decisions
variable {py : TextMethods} {loads : String → Option StoredTags} {rows : Rows}
  {sweeps : List Sweep} {accountNumber : String} {absenceTypes : List String} {i : ℕ}
  {d : Decision}

/-- What a row is decided to be, by one of the two loops. -/
def rowDecision (py : TextMethods) (loads : String → Option StoredTags) (rows : Rows)
    (sweeps : List Sweep) (accountNumber : String) (absenceTypes : List String)
    (r : ResourceRow) : Option Decision :=
  let ev := evidence py accountNumber rows.rows sweeps
  let allowed := absenceTypes.filter fun t => absenceVerifiedTypes.contains t
  (taggedDecision py loads accountNumber ev r).or
    (absentDecision py loads accountNumber allowed ev
      (matchedPerTypeRegion py loads accountNumber ev rows.rows) r)

/-- A row is not decided twice. -/
theorem taggedDecision_none {ev : Evidence} {matched : List ((String × String) × ℕ)}
    {r : ResourceRow} (h : absentDecision py loads accountNumber absenceTypes ev matched r = some d) :
    taggedDecision py loads accountNumber ev r = none := by
  obtain ⟨k, hv, -⟩ := absentDecision_eq_some.mp h
  rw [taggedDecision, hv]

theorem mem_decided : (i, d) ∈ decided py loads accountNumber
      (absenceTypes.filter fun t => absenceVerifiedTypes.contains t)
      (evidence py accountNumber rows.rows sweeps) rows.rows ↔
    ∃ r ∈ rows.rows, r.id = i ∧
      rowDecision py loads rows sweeps accountNumber absenceTypes r = some d := by
  simp only [decided, List.mem_append, List.mem_filterMap, Option.map_eq_some_iff, Prod.mk.injEq,
    rowDecision, Option.or_eq_some_iff]
  constructor
  · rintro (⟨r, hr, d', hd', rfl, rfl⟩ | ⟨r, hr, d', hd', rfl, rfl⟩)
    · exact ⟨r, hr, rfl, .inl hd'⟩
    · exact ⟨r, hr, rfl, .inr ⟨taggedDecision_none hd', hd'⟩⟩
  · rintro ⟨r, hr, rfl, hd | ⟨-, hd⟩⟩
    · exact .inl ⟨r, hr, d, hd, rfl, rfl⟩
    · exact .inr ⟨r, hr, d, hd, rfl, rfl⟩

theorem Rows.eq_of_id (rows : Rows) {r r' : ResourceRow} (hr : r ∈ rows.rows)
    (hr' : r' ∈ rows.rows) (h : r.id = r'.id) : r = r' :=
  List.inj_on_of_nodup_map rows.ids hr hr' h

/-- The plan holds the decision of the row with the id. -/
theorem planAccount_find :
    find i (planAccount py loads rows sweeps accountNumber absenceTypes).decisions = some d ↔
      ∃ r ∈ rows.rows, r.id = i ∧
        rowDecision py loads rows sweeps accountNumber absenceTypes r = some d := by
  rw [← mem_decided]
  constructor
  · intro h
    rcases mem_of_find_foldl_write h with hmem | hfound
    · exact hmem
    · cases hfound
  · intro h
    refine find_foldl_write (fun d' hd' => ?_) (.inl h)
    obtain ⟨r, hr, hid, hd⟩ := mem_decided.mp h
    obtain ⟨r', hr', hid', hd'⟩ := mem_decided.mp hd'
    obtain rfl := rows.eq_of_id hr hr' (hid.trans hid'.symm)
    exact Option.some.inj (hd'.symm.trans hd)

/-- No sweep that succeeded, in what it may speak for, has an ARN with this key. -/
def Unseen (py : TextMethods) (sweeps : List Sweep) (k : Key) : Prop :=
  ∀ sw ∈ sweeps, sw.ok = true → sw.speaksFor k.rtype = true → ∀ it ∈ sw.items, ∀ aclId,
    arnKey py it.arn ≠ some (k, aclId)

theorem unseen_of_pending {r : ResourceRow} {k : Key} (hkey : rowKey py r accountNumber = some k)
    (hs3 : k.rtype ≠ "s3") (h : (find k
      (evidence py accountNumber rows.rows sweeps).arnIndex).getD [] = []) :
    Unseen py sweeps k := by
  intro sw hsw hok hspeaks it hit aclId harn
  rw [arnIndex_get, List.filter_eq_nil_iff] at h
  have hindexed : itemFate py accountNumber sw it =
      .indexed ⟨k, it.arn, cleanTags py it.tags, aclId, sw.region⟩ :=
    itemFate_indexed.mpr ⟨harn, hspeaks, .inr ((rowKey_some hkey).2.resolve_left hs3), rfl, rfl, rfl⟩
  exact h _ (mem_entries.mpr ⟨sw, hsw, hok, it, hit, hindexed⟩) (by simp)

/-- A row whose key no other row has. -/
theorem alone_of_length {r : ResourceRow} {k : Key} (hr : r ∈ rows.rows)
    (hkey : rowKey py r accountNumber = some k)
    (h : ((find k (evidence py accountNumber rows.rows sweeps).byKey).getD []).length ≤ 1) :
    ∀ r' ∈ rows.rows, rowKey py r' accountNumber = some k → r' = r := by
  rw [byKey_length] at h
  intro r' hr' hkey'
  have hmem : r ∈ rows.rows.filter fun r => rowKey py r accountNumber = some k :=
    List.mem_filter.mpr ⟨hr, by simp [hkey]⟩
  have hmem' : r' ∈ rows.rows.filter fun r => rowKey py r accountNumber = some k :=
    List.mem_filter.mpr ⟨hr', by simp [hkey']⟩
  obtain ⟨only, honly⟩ := List.length_eq_one_iff.mp
    (Nat.le_antisymm h (List.length_pos_of_mem hmem))
  rw [honly] at hmem hmem'
  rw [List.mem_singleton.mp hmem, List.mem_singleton.mp hmem']

/-- A row is called absent only on the word of a completed, non-empty sweep of the region of its
key, for a verified type, with a key of its own that no sweep has seen; and tagged only with the
tags of an ARN of its key. -/
theorem absence_sound
    (h : find i (planAccount py loads rows sweeps accountNumber absenceTypes).decisions = some d) :
    ∃ r ∈ rows.rows, r.id = i ∧ ∃ k, rowKey py r accountNumber = some k ∧
      (d.status = .absent →
        (∃ sw ∈ sweeps, sw.completed = true ∧ sw.region = k.region ∧ sw.items ≠ []) ∧
        k.rtype ∈ absenceVerifiedTypes ∧
        (∀ r' ∈ rows.rows, rowKey py r' accountNumber = some k → r' = r) ∧
        Unseen py sweeps k) ∧
      (d.status = .tagged → ∃ sw ∈ sweeps, sw.ok = true ∧ ∃ it ∈ sw.items, ∃ aclId,
        arnKey py it.arn = some (k, aclId) ∧ d.tags = cleanTags py it.tags) := by
  obtain ⟨r, hr, hid, hd⟩ := planAccount_find.mp h
  rcases Option.or_eq_some_iff.mp hd with htagged | ⟨-, habsent⟩
  · obtain ⟨k, e, hv, rfl⟩ := taggedDecision_eq_some.mp htagged
    obtain ⟨hkey, he⟩ := verdict_tagged hv
    refine ⟨r, hr, hid, k, hkey, nofun, fun _ => ?_⟩
    rw [arnIndex_get] at he
    obtain ⟨hmem, hek⟩ := List.mem_filter.mp he
    obtain rfl : e.key = k := by simpa using hek
    obtain ⟨sw, hsw, hok, it, hit, hfate⟩ := mem_entries.mp hmem
    obtain ⟨harn, -, -, -, htags, -⟩ := itemFate_indexed.mp hfate
    exact ⟨sw, hsw, hok, it, hit, e.aclId, harn, htags⟩
  · obtain ⟨k, hv, hblock, rfl⟩ := absentDecision_eq_some.mp habsent
    obtain ⟨hkey, hlen, hunseen⟩ := verdict_pending hv
    obtain ⟨htype, -, count, hfound, hcount, -⟩ := absenceBlocker_eq_none.mp hblock
    have hverified : k.rtype ∈ absenceVerifiedTypes := by
      simpa using (List.mem_filter.mp htype).2
    have hs3 : k.rtype ≠ "s3" := fun hs3 => by
      rw [hs3] at hverified
      exact absurd hverified (by decide)
    exact ⟨r, hr, hid, k, hkey, fun _ => ⟨completed_sweep hfound hcount, hverified,
      alone_of_length hr hkey hlen, unseen_of_pending hkey hs3 hunseen⟩, nofun⟩

end Decisions

/-- The rows and sweeps of an account, on ASCII texts and without JSON texts in them. -/
def examplePlan (rows : Rows) (sweeps : List Sweep) : Plan :=
  planAccount ⟨Text.strip, Text.lower⟩ (fun _ => none) rows sweeps "123456789012"
    absenceVerifiedTypes

def queue (id : ℕ) (name : String) : ResourceRow :=
  ⟨id, some "sqs", some name, some "ap-south-1", .object none⟩

def queueArn (name : String) : Item :=
  ⟨some s!"arn:aws:sqs:ap-south-1:123456789012:{name}", [(some "env", some "prod")]⟩

def queues : Rows := ⟨[queue 1 "orders", queue 2 "billing"], by decide⟩

/-- A sweep that returned one of the queues, and one that failed after the other. -/
def halfRead : List Sweep :=
  [⟨"ap-south-1", true, [queueArn "orders"], none⟩,
    ⟨"ap-south-1", false, [queueArn "billing"], none⟩]

theorem absent_though_seen : ¬∀ (rows : Rows) (sweeps : List Sweep) (i : ℕ) (d : Decision),
    find i (examplePlan rows sweeps).decisions = some d → d.status = .absent →
    ∀ r ∈ rows.rows, r.id = i → ∀ k, rowKey ⟨Text.strip, Text.lower⟩ r "123456789012" = some k →
      ∀ sw ∈ sweeps, ∀ it ∈ sw.items, ∀ aclId,
        arnKey ⟨Text.strip, Text.lower⟩ it.arn ≠ some (k, aclId) := by
  intro h
  refine h queues halfRead 2 ⟨.absent, [], "not in a completed sweep of ap-south-1"⟩ ?_ rfl
    (queue 2 "billing") ?_ rfl ⟨"sqs", "123456789012", "ap-south-1", "billing"⟩ ?_
    ⟨"ap-south-1", false, [queueArn "billing"], none⟩ ?_ (queueArn "billing") ?_ none ?_
  · decide +kernel
  · decide +kernel
  · decide +kernel
  · exact List.mem_cons_of_mem _ List.mem_cons_self
  · exact List.mem_cons_self
  · decide +kernel

/-- The queue that no sweep has seen is called absent, with the evidence for it. -/
theorem absence_sound_queue : Unseen ⟨Text.strip, Text.lower⟩
    [⟨"ap-south-1", true, [queueArn "orders"], none⟩]
    ⟨"sqs", "123456789012", "ap-south-1", "billing"⟩ := by
  have hfound : find 2 (examplePlan queues
      [⟨"ap-south-1", true, [queueArn "orders"], none⟩]).decisions =
      some ⟨.absent, [], "not in a completed sweep of ap-south-1"⟩ := by decide +kernel
  obtain ⟨r, hr, hid, k, hkey, habsent, -⟩ := absence_sound hfound
  obtain ⟨-, -, -, hunseen⟩ := habsent rfl
  obtain rfl : r = queue 2 "billing" := queues.eq_of_id hr (by decide +kernel) hid
  have hk : rowKey ⟨Text.strip, Text.lower⟩ (queue 2 "billing") "123456789012" =
      some ⟨"sqs", "123456789012", "ap-south-1", "billing"⟩ := by decide +kernel
  rwa [← Option.some.inj (hkey.symm.trans hk)]

end MonitoringHub.TagSync
