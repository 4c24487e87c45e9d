import MonitoringHub.TagSync.AbsenceEvidence

/-! The order of rows, sweeps and ARNs does not matter to a decision. The loops read the
evidence through lookups only; what a lookup finds is the same up to the order of the entries of
a key, and entries that differ are refused, so the first of them stands for all. -/

namespace MonitoringHub.TagSync
open Lib Lib.KeyedStore Lib.GroupTally

/-- The items of a sweep in another order. -/
def SameSweep (sw sw' : Sweep) : Prop :=
  sw.region = sw'.region ∧ sw.ok = sw'.ok ∧ sw.scope = sw'.scope ∧ sw.items.Perm sw'.items

/-- The sweeps in another order, and the items of each. -/
def Reordered (sweeps sweeps' : List Sweep) : Prop :=
  ∃ between, sweeps.Perm between ∧ List.Forall₂ SameSweep between sweeps'

/-- The status, and the tags as a dictionary is compared. -/
def Decision.outcome (d : Decision) : DecisionStatus × List (String × String) :=
  (d.status, TagDict.sortedItems d.tags)

section Sweeps
variable {py : TextMethods} {accountNumber : String} {sweeps sweeps' : List Sweep}
  {sw sw' : Sweep}

theorem SameSweep.scopeWord (h : SameSweep sw sw') : sw.scopeWord = sw'.scopeWord := by
  rw [Sweep.scopeWord, Sweep.scopeWord, h.2.2.1]

theorem SameSweep.completed (h : SameSweep sw sw') : sw.completed = sw'.completed := by
  rw [Sweep.completed, Sweep.completed, h.scopeWord, h.2.1]

theorem SameSweep.itemFate (h : SameSweep sw sw') (it : Item) :
    TagSync.itemFate py accountNumber sw it = TagSync.itemFate py accountNumber sw' it := by
  have hspeaks : ∀ rtype, sw.speaksFor rtype = sw'.speaksFor rtype := fun rtype => by
    simp only [Sweep.speaksFor, h.scopeWord]
  simp only [TagSync.itemFate, hspeaks, h.1]

theorem fates_forall₂ (h : List.Forall₂ SameSweep sweeps sweeps') :
    (fates py accountNumber sweeps).Perm (fates py accountNumber sweeps') := by
  unfold fates
  induction h with
  | nil => exact .refl _
  | @cons sw sw' rest rest' hsame hrest ih =>
    by_cases hok : sw.ok = true
    · have hok' : sw'.ok = true := hsame.2.1 ▸ hok
      rw [List.filter_cons_of_pos hok, List.filter_cons_of_pos hok', List.flatMap_cons,
        List.flatMap_cons]
      refine .append ?_ ih
      rw [List.map_congr_left fun it _ => hsame.itemFate it]
      exact hsame.2.2.2.map _
    · have hok' : ¬sw'.ok = true := hsame.2.1 ▸ hok
      rw [List.filter_cons_of_neg hok, List.filter_cons_of_neg hok']
      exact ih

theorem Reordered.entries (h : Reordered sweeps sweeps') :
    (TagSync.entries py accountNumber sweeps).Perm (TagSync.entries py accountNumber sweeps') := by
  obtain ⟨between, hperm, hsame⟩ := h
  refine List.Perm.filterMap _ (.trans ?_ (fates_forall₂ hsame))
  exact (hperm.filter _).flatMap_right _

/-- How many completed sweeps were of a region, and what they returned. -/
theorem Reordered.lengths (h : Reordered sweeps sweeps') (region : String) :
    (((sweeps.filter Sweep.completed).filter fun sw => sw.region = region).map
        fun sw => sw.items.length).Perm
      (((sweeps'.filter Sweep.completed).filter fun sw => sw.region = region).map
        fun sw => sw.items.length) := by
  obtain ⟨between, hperm, hsame⟩ := h
  refine (((hperm.filter _).filter _).map _).trans ?_
  clear hperm
  induction hsame with
  | nil => exact .refl _
  | @cons sw sw' rest rest' hsame hrest ih =>
    have hcompleted := hsame.completed
    obtain ⟨hregion, -, -, hitems⟩ := hsame
    by_cases hc : sw'.completed = true
    · rw [List.filter_cons_of_pos (hcompleted.trans hc), List.filter_cons_of_pos hc]
      by_cases hr : sw'.region = region
      · rw [List.filter_cons_of_pos (by simpa [hregion] using hr),
          List.filter_cons_of_pos (by simpa using hr), List.map_cons, List.map_cons,
          hitems.length_eq]
        exact ih.cons _
      · rw [List.filter_cons_of_neg (by simpa [hregion] using hr),
          List.filter_cons_of_neg (by simpa using hr)]
        exact ih
    · rw [List.filter_cons_of_neg (by rwa [hcompleted]), List.filter_cons_of_neg hc]
      exact ih

end Sweeps

/-- The evidence of two orders: a key has the same entries in some order, as many rows, and the
sweeps of a region count the same. -/
structure SameEvidence (ev ev' : Evidence) : Prop where
  entries : ∀ k, ((find k ev.arnIndex).getD []).Perm ((find k ev'.arnIndex).getD [])
  sharing : ∀ k, ((find k ev.byKey).getD []).length = ((find k ev'.byKey).getD []).length
  regions : ∀ region, find region ev.okRegions = find region ev'.okRegions
  arns : ∀ tr, 0 < (find tr ev.arnsPerTypeRegion).getD 0 ↔ 0 < (find tr ev'.arnsPerTypeRegion).getD 0

theorem SameEvidence.symm {ev ev' : Evidence} (h : SameEvidence ev ev') : SameEvidence ev' ev :=
  ⟨fun k => (h.entries k).symm, fun k => (h.sharing k).symm, fun region => (h.regions region).symm,
    fun tr => (h.arns tr).symm⟩

section Reordering
variable {py : TextMethods} {loads : String → Option StoredTags} {accountNumber : String}
  {rows rows' : List ResourceRow} {sweeps sweeps' : List Sweep}

/-- A type has ARNs in a region if the sweeps have an entry of it. -/
theorem arnsPerTypeRegion_pos {tr : String × String} :
    0 < (find tr (evidence py accountNumber rows sweeps).arnsPerTypeRegion).getD 0 ↔
      ∃ e ∈ entries py accountNumber sweeps, (e.key.rtype, e.key.region) = tr := by
  rw [evidence, find_count, List.length_pos_iff_exists_mem]
  constructor
  · rintro ⟨⟨k, es⟩, hmem⟩
    obtain ⟨hin, htr⟩ := List.mem_filter.mp hmem
    obtain ⟨e, he, rfl⟩ := key_of_mem_tally hin
    exact ⟨e, he, by simpa using htr⟩
  · rintro ⟨e, he, rfl⟩
    obtain ⟨es, hes⟩ := exists_mem_tally Entry.key (fun _ => []) (fun es e => es ++ [e]) he
    exact ⟨(e.key, es), List.mem_filter.mpr ⟨hes, by simp⟩⟩

theorem sameEvidence (hrows : rows.Perm rows') (hsweeps : Reordered sweeps sweeps') :
    SameEvidence (evidence py accountNumber rows sweeps)
      (evidence py accountNumber rows' sweeps') := by
  have hentries : (entries py accountNumber sweeps).Perm (entries py accountNumber sweeps') :=
    hsweeps.entries
  refine ⟨fun k => ?_, fun k => ?_, fun region => ?_, fun tr => ?_⟩
  · rw [arnIndex_get, arnIndex_get]
    exact hentries.filter _
  · rw [byKey_length, byKey_length]
    exact (hrows.filter _).length_eq
  · have hlengths := hsweeps.lengths region
    rw [okRegions_find, okRegions_find, groupOf_lengths, groupOf_lengths, hlengths.sum_eq]
    have hnil : ((sweeps.filter Sweep.completed).filter fun sw => sw.region = region) = [] ↔
        ((sweeps'.filter Sweep.completed).filter fun sw => sw.region = region) = [] := by
      have hlen := hlengths.length_eq
      rw [List.length_map, List.length_map] at hlen
      rw [← List.length_eq_zero_iff, ← List.length_eq_zero_iff, hlen]
    simp only [hnil]
  · rw [arnsPerTypeRegion_pos, arnsPerTypeRegion_pos]
    simp only [hentries.mem_iff]

/-- What a verdict says of a row, apart from which of several equal entries it names. -/
def Verdict.finding : Verdict → Option (Key × Option (List (String × String) × Option String))
  | .tagged k e => some (k, some e.signature)
  | .pending k => some (k, none)
  | _ => none

/-- Whether the entries after the first differ from it. -/
theorem any_differs_iff {first : Entry} {rest : List Entry} :
    (rest.any fun e => e.signature ≠ first.signature) = true ↔
      ∃ e ∈ first :: rest, ∃ e' ∈ first :: rest, e.signature ≠ e'.signature := by
  simp only [List.any_eq_true, decide_eq_true_eq]
  constructor
  · rintro ⟨e, he, hne⟩
    exact ⟨e, List.mem_cons_of_mem _ he, first, List.mem_cons_self, hne⟩
  · rintro ⟨e, he, e', he', hne⟩
    by_contra hall
    have hsame : ∀ x ∈ first :: rest, x.signature = first.signature := by
      intro x hx
      rcases List.mem_cons.mp hx with rfl | hx
      · rfl
      · by_contra hx'
        exact hall ⟨x, hx, hx'⟩
    exact hne ((hsame e he).trans (hsame e' he').symm)

variable {ev ev' : Evidence} {r : ResourceRow}

theorem verdict_finding (h : SameEvidence ev ev') :
    (verdict py loads accountNumber ev r).finding =
      (verdict py loads accountNumber ev' r).finding := by
  unfold verdict
  split
  · rfl
  · split
    · rfl
    · rename_i k hkey
      simp only [h.sharing k]
      split
      · rfl
      · have hperm := h.entries k
        generalize (find k ev.arnIndex).getD [] = es at hperm
        generalize (find k ev'.arnIndex).getD [] = es' at hperm
        cases es with
        | nil => rw [hperm.nil_eq]
        | cons first rest =>
          cases es' with
          | nil => exact absurd hperm.length_eq (by simp)
          | cons first' rest' =>
            have hdiffers : (rest.any fun e => e.signature ≠ first.signature) =
                rest'.any fun e => e.signature ≠ first'.signature := by
              rw [Bool.eq_iff_iff, any_differs_iff, any_differs_iff]
              simp only [hperm.mem_iff]
            simp only [hdiffers]
            split
            · rfl
            · rename_i hsame
              -- Entries that do not differ have one signature, whichever comes first.
              have hsig : first.signature = first'.signature := by
                by_contra hne
                exact hsame (any_differs_iff.mpr
                  ⟨first, hperm.subset List.mem_cons_self, first', List.mem_cons_self, hne⟩)
              have hacl : first.aclId = first'.aclId := congrArg Prod.snd hsig
              simp only [hacl]
              split
              · rfl
              · simp only [Verdict.finding, hsig]

/-- The parts of a finding that the second loop counts. -/
theorem taggedKey_eq : taggedKey py loads accountNumber ev r =
    (verdict py loads accountNumber ev r).finding.bind fun f =>
      f.2.map fun _ => (r.rtype py, f.1.region) := by
  unfold taggedKey
  cases verdict py loads accountNumber ev r <;> rfl

theorem taggedDecision_outcome : (taggedDecision py loads accountNumber ev r).map
      Decision.outcome = (verdict py loads accountNumber ev r).finding.bind fun f =>
        f.2.map fun signature => (.tagged, signature.1) := by
  unfold taggedDecision
  cases verdict py loads accountNumber ev r <;> rfl

theorem absentDecision_outcome {absenceTypes : List String}
    {matched : List ((String × String) × ℕ)} :
    (absentDecision py loads accountNumber absenceTypes ev matched r).map Decision.outcome =
      (verdict py loads accountNumber ev r).finding.bind fun f =>
        if f.2.isNone ∧ (absenceBlocker absenceTypes ev matched f.1).isNone then
          some (.absent, TagDict.sortedItems [])
        else none := by
  unfold absentDecision
  cases verdict py loads accountNumber ev r with
  | pending k =>
    cases hblock : absenceBlocker absenceTypes ev matched k with
    | none => simp [Verdict.finding, hblock, Decision.outcome]
    | some why => simp [Verdict.finding, hblock]
  | tagged k e => simp [Verdict.finding]
  | _ => rfl

theorem absenceBlocker_same (h : SameEvidence ev ev') {absenceTypes : List String}
    {matched matched' : List ((String × String) × ℕ)}
    (hmatched : ∀ tr, (find tr matched).getD 0 = (find tr matched').getD 0) (k : Key) :
    (absenceBlocker absenceTypes ev matched k).isNone =
      (absenceBlocker absenceTypes ev' matched' k).isNone := by
  rw [Bool.eq_iff_iff, Option.isNone_iff_eq_none, Option.isNone_iff_eq_none,
    absenceBlocker_eq_none, absenceBlocker_eq_none, h.regions, h.arns, hmatched]

theorem matched_same (hrows : rows.Perm rows') (h : SameEvidence ev ev') (tr : String × String) :
    (find tr (matchedPerTypeRegion py loads accountNumber ev rows)).getD 0 =
      (find tr (matchedPerTypeRegion py loads accountNumber ev' rows')).getD 0 := by
  have hkeys : taggedKey py loads accountNumber ev = taggedKey py loads accountNumber ev' := by
    funext r
    rw [taggedKey_eq, taggedKey_eq, verdict_finding h]
  rw [matchedPerTypeRegion, matchedPerTypeRegion, find_count, find_count, hkeys]
  exact ((hrows.filterMap _).filter _).length_eq

end Reordering

section Plans
variable {py : TextMethods} {loads : String → Option StoredTags} {accountNumber : String}
  {absenceTypes : List String} {rows rows' : Rows} {sweeps sweeps' : List Sweep} {i : ℕ}
  {d : Decision}

theorem rowDecision_same (hrows : rows.rows.Perm rows'.rows)
    (h : SameEvidence (evidence py accountNumber rows.rows sweeps)
      (evidence py accountNumber rows'.rows sweeps')) (r : ResourceRow) :
    (rowDecision py loads rows sweeps accountNumber absenceTypes r).map Decision.outcome =
      (rowDecision py loads rows' sweeps' accountNumber absenceTypes r).map Decision.outcome := by
  simp only [rowDecision, Option.map_or, taggedDecision_outcome, absentDecision_outcome,
    verdict_finding h, absenceBlocker_same h (matched_same hrows h)]

/-- A decision of one order is the decision of the other. -/
theorem find_same (hrows : rows.rows.Perm rows'.rows)
    (h : SameEvidence (evidence py accountNumber rows.rows sweeps)
      (evidence py accountNumber rows'.rows sweeps'))
    (hd : find i (planAccount py loads rows sweeps accountNumber absenceTypes).decisions = some d) :
    (find i (planAccount py loads rows' sweeps' accountNumber absenceTypes).decisions).map
      Decision.outcome = some d.outcome := by
  obtain ⟨r, hr, hid, hrow⟩ := planAccount_find.mp hd
  have hsame : (rowDecision py loads rows sweeps accountNumber absenceTypes r).map
        Decision.outcome =
      (rowDecision py loads rows' sweeps' accountNumber absenceTypes r).map Decision.outcome :=
    rowDecision_same hrows h r
  rw [hrow, Option.map_some] at hsame
  obtain ⟨d', hd', hout⟩ := Option.map_eq_some_iff.mp hsame.symm
  rw [planAccount_find.mpr ⟨r, hrows.subset hr, hid, hd'⟩, Option.map_some, hout]

/-- Reordering the rows, the sweeps and the ARNs inside a sweep changes no decision: neither its
status nor its tags. -/
theorem order_independent (hrows : rows.rows.Perm rows'.rows)
    (hsweeps : Reordered sweeps sweeps') (i : ℕ) :
    (find i (planAccount py loads rows sweeps accountNumber absenceTypes).decisions).map
        Decision.outcome =
      (find i (planAccount py loads rows' sweeps' accountNumber absenceTypes).decisions).map
        Decision.outcome := by
  have h : SameEvidence (evidence py accountNumber rows.rows sweeps)
      (evidence py accountNumber rows'.rows sweeps') := sameEvidence hrows hsweeps
  cases hd : find i (planAccount py loads rows sweeps accountNumber absenceTypes).decisions with
  | some d => rw [find_same hrows h hd, Option.map_some]
  | none =>
    cases hd' : find i
        (planAccount py loads rows' sweeps' accountNumber absenceTypes).decisions with
    | none => rfl
    | some d' =>
      have hback := find_same hrows.symm h.symm hd'
      rw [hd] at hback
      cases hback

end Plans

def queuesSwapped : Rows := ⟨[queue 2 "billing", queue 1 "orders"], by decide⟩

/-- The queue that no sweep has seen is absent in both orders. -/
theorem order_independent_queues :
    (find 2 (examplePlan queuesSwapped
      [⟨"eu-west-1", true, [], none⟩,
        ⟨"ap-south-1", true, [queueArn "returns", queueArn "orders"], none⟩]).decisions).map
      Decision.outcome = some (.absent, []) := by
  have hsweeps : Reordered
      [⟨"ap-south-1", true, [queueArn "orders", queueArn "returns"], none⟩,
        ⟨"eu-west-1", true, [], none⟩]
      [⟨"eu-west-1", true, [], none⟩,
        ⟨"ap-south-1", true, [queueArn "returns", queueArn "orders"], none⟩] := by
    refine ⟨_, List.Perm.swap _ _ _, .cons ⟨rfl, rfl, rfl, .refl _⟩ (.cons ?_ .nil)⟩
    exact ⟨rfl, rfl, rfl, List.Perm.swap _ _ _⟩
  have hrows : queues.rows.Perm queuesSwapped.rows := List.Perm.swap _ _ _
  refine (order_independent hrows hsweeps 2).symm.trans ?_
  decide +kernel

end MonitoringHub.TagSync
