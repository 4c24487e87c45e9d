import MonitoringHub.Collector.GmdRequests

/-! A list of queries that its caller cuts before the requests are formed. A cut loses a pair
exactly if it falls in one, and the queries that `_run_gmd` cuts have no hidden inputs. -/

namespace MonitoringHub.Gmd
open Lib Lib.Text

section Cuts
variable {queries left : List Query} {lists : List (List Query)}

/-- A cut between a hidden input and the query after it. -/
def CutInside (lists : List (List Query)) : Prop :=
  ∃ list ∈ lists, ∃ q, list.getLast? = some q ∧ q.returned = false

theorem hidden_of_paired (h : Paired queries) {q : Query} (hq : q ∈ queries)
    (hhidden : q.returned = false) : ∃ next, (q, next) ∈ inputPairs queries := by
  obtain ⟨front, rest, rfl⟩ := List.append_of_mem hq
  cases rest with
  | nil =>
    have hlast := h.2 q List.getLast?_concat
    exact absurd (hhidden.symm.trans hlast) Bool.false_ne_true
  | cons next rest =>
    refine ⟨next, ?_⟩
    have hsplit : front ++ q :: next :: rest = (front ++ [q]) ++ next :: rest := by simp
    rw [hsplit, inputPairs_append_hidden List.getLast?_concat hhidden]
    exact List.mem_append_right _ List.mem_cons_self

theorem inputPairs_infix {left middle right : List Query} {pair : Query × Query}
    (h : pair ∈ inputPairs middle) : pair ∈ inputPairs (left ++ (middle ++ right)) := by
  have hright : pair ∈ inputPairs (middle ++ right) := by
    induction middle with
    | nil => cases h
    | cons q middle ih =>
      rw [inputPairs_cons] at h
      rw [List.cons_append, inputPairs_cons]
      rcases List.mem_append.mp h with hhead | htail
      · refine List.mem_append_left _ ?_
        cases middle with
        | nil => simp at hhead
        | cons next middle => exact hhead
      · exact List.mem_append_right _ (ih htail)
  induction left with
  | nil => exact hright
  | cons q left ih =>
    rw [List.cons_append, inputPairs_cons]
    exact List.mem_append_right _ ih

/-- A cut loses the pair it falls in and makes none. -/
theorem length_inputPairs_append (left right : List Query) :
    (inputPairs left).length + (inputPairs right).length ≤ (inputPairs (left ++ right)).length := by
  by_cases hlast : ∀ q, left.getLast? = some q → q.returned = true
  · rw [inputPairs_append hlast, List.length_append]
  · push Not at hlast
    obtain ⟨q, hq, hhidden⟩ := hlast
    cases right with
    | nil => simp [inputPairs]
    | cons next right =>
      rw [inputPairs_append_hidden hq (by simpa using hhidden), List.length_append,
        List.length_cons]
      omega

theorem length_flatMap_inputPairs (lists : List (List Query)) :
    (lists.flatMap inputPairs).length ≤ (inputPairs lists.flatten).length := by
  induction lists with
  | nil => exact le_rfl
  | cons list lists ih =>
    rw [List.flatMap_cons, List.flatten_cons, List.length_append]
    exact (Nat.add_le_add_left ih _).trans (length_inputPairs_append list lists.flatten)

theorem flatMap_inputPairs (h : ¬ CutInside lists) :
    lists.flatMap inputPairs = inputPairs lists.flatten := by
  induction lists with
  | nil => rfl
  | cons list lists ih =>
    have hlast : ∀ q, list.getLast? = some q → q.returned = true := by
      intro q hq
      by_contra hhidden
      exact h ⟨list, List.mem_cons_self, q, hq, by simpa using hhidden⟩
    have hrest : ¬ CutInside lists := by
      rintro ⟨list', hlist', hcut⟩
      exact h ⟨list', List.mem_cons_of_mem _ hlist', hcut⟩
    rw [List.flatMap_cons, List.flatten_cons, inputPairs_append hlast, ih hrest]

theorem length_lt_of_cutInside (hne : ∀ list ∈ lists, list ≠ [])
    (hlast : ∀ q, lists.flatten.getLast? = some q → q.returned = true) (h : CutInside lists) :
    (lists.flatMap inputPairs).length < (inputPairs lists.flatten).length := by
  induction lists with
  | nil =>
    obtain ⟨list, hlist, -⟩ := h
    cases hlist
  | cons list lists ih =>
    obtain ⟨list', hlist', q, hq, hhidden⟩ := h
    rw [List.flatten_cons] at hlast ⊢
    rw [List.flatMap_cons, List.length_append]
    rcases List.mem_cons.mp hlist' with rfl | hmem
    · cases hrest : lists.flatten with
      | nil =>
        rw [hrest, List.append_nil] at hlast
        exact absurd (hhidden.symm.trans (hlast q hq)) Bool.false_ne_true
      | cons next rest =>
        have hle := length_flatMap_inputPairs lists
        rw [hrest] at hle
        rw [inputPairs_append_hidden hq hhidden, List.length_append, List.length_cons]
        omega
    · have hrest : lists.flatten ≠ [] := fun hnil =>
        hne list' (List.mem_cons_of_mem _ hmem) (List.flatten_eq_nil_iff.mp hnil list' hmem)
      have hlt := ih (fun l hl => hne l (List.mem_cons_of_mem _ hl))
        (fun q' hq' => hlast q' (by rw [List.getLast?_append_of_ne_nil _ hrest, hq']))
        ⟨list', hmem, q, hq, hhidden⟩
      exact (Nat.add_lt_add_left hlt _).trans_le (length_inputPairs_append list lists.flatten)

/-- Cutting a list loses a pair exactly if a cut falls in one. -/
theorem flatMap_inputPairs_perm_iff (hne : ∀ list ∈ lists, list ≠ [])
    (hlast : ∀ q, lists.flatten.getLast? = some q → q.returned = true) :
    (lists.flatMap inputPairs).Perm (inputPairs lists.flatten) ↔ ¬ CutInside lists := by
  constructor
  · intro hperm hcut
    exact absurd hperm.length_eq (length_lt_of_cutInside hne hlast hcut).ne
  · intro hno
    rw [flatMap_inputPairs hno]

/-- The requests of the pieces of a list hold the pairs that the pieces hold. -/
theorem inputPairs_cutRequests (hpaired : Paired queries) (hsearch : SearchApart queries)
    {size : ℕ} (hsize : 0 < size) :
    (cutRequests size queries).flatMap inputPairs = (slices size queries).flatMap inputPairs := by
  have halternating : ∀ pair ∈ inputPairs queries, pair.2.returned = true :=
    alternating_iff.mp hpaired.1
  have hpiece : ∀ list ∈ slices size queries,
      (requestChunks list).flatMap inputPairs = inputPairs list := by
    intro list hlist
    obtain ⟨front, rest, hsplit⟩ := List.infix_of_mem_flatten hlist
    rw [flatten_slices hsize, List.append_assoc] at hsplit
    refine inputPairs_requestChunks (fun q hq hhidden => ?_) fun pair hpair => ?_
    · have hmem : q ∈ queries := by
        rw [← hsplit]
        exact List.mem_append_right _ (List.mem_append_left _ hq)
      obtain ⟨next, hnext⟩ := hidden_of_paired hpaired hmem hhidden
      exact (hsearch _ hnext).1
    · have hmem : pair ∈ inputPairs queries := hsplit ▸ inputPairs_infix hpair
      exact ⟨(hsearch pair hmem).2, halternating pair hmem⟩
  rw [cutRequests, List.flatMap_assoc]
  exact List.flatMap_congr hpiece

theorem covers_cutRequests {size : ℕ} (hsize : 0 < size) (queries : List Query) :
    Covers queries (cutRequests size queries) := by
  have hcovers := Covers.flatMap (slices size queries)
  rwa [flatten_slices hsize] at hcovers

theorem together_cutRequests (hpaired : Paired queries) (hsearch : SearchApart queries)
    {size : ℕ} (hsize : 0 < size) :
    Together queries (cutRequests size queries) ↔ ¬ CutInside (slices size queries) := by
  have hne : ∀ list ∈ slices size queries, list ≠ [] := fun list hlist =>
    List.ne_nil_of_length_pos (length_slice hlist).1
  have hflatten := flatten_slices hsize queries
  have hiff := flatMap_inputPairs_perm_iff hne (hflatten.symm ▸ hpaired.2)
  rw [Together, inputPairs_cutRequests hpaired hsearch hsize]
  rwa [hflatten] at hiff

end Cuts

/-- The queries built for resources all return their data, and none of them is a SEARCH. -/
theorem buildQueries_returned (resources : List MetricResource) (defs : List MetricDef) :
    ∀ built ∈ buildQueries resources defs, built.1.returned = true := by
  have hdefs : ∀ (r : MetricResource) (built : List (Query × SeriesEntry)),
      (∀ b ∈ built, b.1.returned = true) → ∀ b ∈ defs.foldl (addQuery r) built,
        b.1.returned = true := by
    intro r built hbuilt
    refine List.foldlRecOn (motive := fun built : List (Query × SeriesEntry) =>
      ∀ b ∈ built, b.1.returned = true) defs _ hbuilt fun built hbuilt d _ => ?_
    exact List.forall_mem_append.mpr ⟨hbuilt, by simp [Query.returned]⟩
  refine List.foldlRecOn (motive := fun built : List (Query × SeriesEntry) =>
    ∀ b ∈ built, b.1.returned = true) resources _ (List.forall_mem_nil _) fun built hbuilt r _ => ?_
  split
  · exact hbuilt
  · exact hdefs r built hbuilt

/-- The requests of a list whose pairs hold no SEARCH are complete, in order, within the limits
and self-contained; a caller's cut parts a pair exactly if it falls in one, and those of
`_run_gmd` fall in none. -/
theorem requests_selfContained {queries : List Query} (hpaired : Paired queries)
    (hsearch : SearchApart queries) {chunkSize : ℕ} (hsize : 0 < chunkSize)
    (resources : List MetricResource) (defs : List MetricDef) :
    (Covers queries (requestChunks queries) ∧ Together queries (requestChunks queries)) ∧
    (Covers queries (cutRequests chunkSize queries) ∧
      (Together queries (cutRequests chunkSize queries) ↔
        ¬ CutInside (slices chunkSize queries))) ∧
    Covers ((buildQueries resources defs).map Prod.fst)
      (runGmdRequests chunkSize resources defs) ∧
    Together ((buildQueries resources defs).map Prod.fst)
      (runGmdRequests chunkSize resources defs) := by
  have hpieces := together_cutRequests hpaired hsearch hsize
  refine ⟨⟨covers_requestChunks queries, ?_⟩, ⟨covers_cutRequests hsize queries, hpieces⟩,
    covers_cutRequests hsize _, ?_⟩
  · have halternating := alternating_iff.mp hpaired.1
    rw [Together, inputPairs_requestChunks]
    · intro q hq hhidden
      obtain ⟨next, hnext⟩ := hidden_of_paired hpaired hq hhidden
      exact (hsearch _ hnext).1
    · exact fun pair hpair => ⟨(hsearch pair hpair).2, halternating pair hpair⟩
  · have hreturned : ∀ q ∈ (buildQueries resources defs).map Prod.fst, q.returned = true := by
      intro q hq
      obtain ⟨built, hbuilt, rfl⟩ := List.mem_map.mp hq
      exact buildQueries_returned resources defs built hbuilt
    have hnil := inputPairs_returned hreturned
    have hlists : Paired ((buildQueries resources defs).map Prod.fst) := by
      refine ⟨alternating_iff.mpr (by simp [hnil]), fun q hq => ?_⟩
      exact hreturned q (List.mem_of_getLast? hq)
    refine (together_cutRequests hlists (by simp [SearchApart, hnil]) hsize).mpr ?_
    rintro ⟨list, hlist, q, hq, hhidden⟩
    have hmem := (mem_slices hsize).mp ⟨list, hlist, List.mem_of_getLast? hq⟩
    exact Bool.false_ne_true (hhidden.symm.trans (hreturned q hmem))

/-- The free space of a Windows disk, and the used space made of it. -/
def diskPair : List Query :=
  [⟨"cwdisk499raw", some ⟨"CWAgent", "LogicalDisk % Free Space", [("InstanceId", "i-1")], 60,
    "Average"⟩, none, some false⟩, ⟨"cwdisk499", none, some "100 - cwdisk499raw", some true⟩]

theorem diskPair_paired : Paired diskPair ∧ SearchApart diskPair := by
  refine ⟨⟨by simp [diskPair, Query.returned], by simp [diskPair, Query.returned]⟩, ?_⟩
  have hpairs : inputPairs diskPair = [(⟨"cwdisk499raw", some ⟨"CWAgent",
      "LogicalDisk % Free Space", [("InstanceId", "i-1")], 60, "Average"⟩, none, some false⟩,
    ⟨"cwdisk499", none, some "100 - cwdisk499raw", some true⟩)] := rfl
  rw [SearchApart, hpairs, List.forall_mem_singleton]
  exact ⟨by decide, by decide⟩

theorem diskPair_selfContained : Together diskPair (requestChunks diskPair) ∧
    Together diskPair (cutRequests 2 diskPair) :=
  have h := requests_selfContained diskPair_paired.1 diskPair_paired.2 (Nat.succ_pos 1) [] []
  ⟨h.1.2, h.2.1.2.mpr (by
    rintro ⟨list, hlist, q, hq, hhidden⟩
    have hslices : slices 2 diskPair = [diskPair] := rfl
    rw [hslices, List.mem_singleton] at hlist
    subst hlist
    obtain rfl := Option.some.inj hq
    cases hhidden)⟩

/-- A hidden SEARCH, and its maximum. -/
def searchPair : List Query :=
  [⟨"s", none, some "SEARCH('AWS/EC2', 'Maximum')", some false⟩,
    ⟨"m", none, some "MAX(s)", some true⟩]

/-- 499 metrics before a pair. -/
def longList : List Query :=
  (List.range 499).map (fun i => ⟨"q" ++ toString i, none, none, some true⟩) ++ diskPair

/-- A SEARCH goes into a request without the expression that needs it, and a cut at 500 queries
parts a pair. -/
theorem requests_parted :
    (Paired searchPair ∧ ¬ Together searchPair (requestChunks searchPair)) ∧
      Paired longList ∧ SearchApart longList ∧
        ¬ Together longList (cutRequests gmdMaxQueries longList) := by
  have hpairs : inputPairs longList = inputPairs diskPair := by
    rw [longList, inputPairs_append, inputPairs_returned, List.nil_append]
    · intro q hq
      obtain ⟨i, -, rfl⟩ := List.mem_map.mp hq
      rfl
    · intro q hq
      obtain ⟨i, -, rfl⟩ := List.mem_map.mp (List.mem_of_getLast? hq)
      rfl
  have hpaired : Paired longList := by
    refine ⟨alternating_iff.mpr ?_, fun q hq => ?_⟩
    · rw [hpairs]
      exact alternating_iff.mp diskPair_paired.1.1
    · rw [longList, List.getLast?_append_of_ne_nil _ (by simp [diskPair])] at hq
      exact diskPair_paired.1.2 q hq
  have hsearch : SearchApart longList := by
    rw [SearchApart, hpairs]
    exact diskPair_paired.2
  refine ⟨⟨⟨by simp [searchPair, Query.returned], by simp [searchPair, Query.returned]⟩, ?_⟩,
    hpaired, hsearch, ?_⟩
  · intro htogether
    have hlength := htogether.length_eq
    have hparted : requestChunks searchPair = [[⟨"m", none, some "MAX(s)", some true⟩],
      [⟨"s", none, some "SEARCH('AWS/EC2', 'Maximum')", some false⟩]] := by decide
    rw [hparted] at hlength
    exact absurd hlength (by decide)
  · rw [together_cutRequests hpaired hsearch (by decide), not_not]
    have hlength : longList.length = 501 := by simp [longList, diskPair]
    refine ⟨longList.take 500, ?_, ⟨"cwdisk499raw", some ⟨"CWAgent", "LogicalDisk % Free Space",
      [("InstanceId", "i-1")], 60, "Average"⟩, none, some false⟩, ?_, rfl⟩
    · refine List.mem_map.mpr ⟨0, ?_, rfl⟩
      rw [hlength]
      exact List.mem_range'.mpr ⟨0, by decide, rfl⟩
    · have hsplit : longList = ((List.range 499).map (fun i =>
          (⟨"q" ++ toString i, none, none, some true⟩ : Query)) ++ diskPair.take 1) ++
            diskPair.drop 1 := by
        rw [List.append_assoc, List.take_append_drop]
        rfl
      rw [hsplit, List.take_left' (by simp [diskPair])]
      exact List.getLast?_concat

end MonitoringHub.Gmd
