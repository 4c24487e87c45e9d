import Mathlib.Data.List.Chain
import MonitoringHub.Lib.QueryRows
import MonitoringHub.Lib.Text

/-! The GetMetricData requests of a list of queries. SEARCH expressions stand in requests of their
own; among the others a query whose data is not returned feeds the expression after it, and
both go into one request. -/

namespace MonitoringHub.Gmd
open Lib Lib.Text

structure MetricStat where
  metricNamespace : String
  metricName : String
  dimensions : List (String × String)
  period : ℕ
  stat : String
  deriving DecidableEq

structure Query where
  id : String
  metricStat : Option MetricStat
  expression : Option String
  returnData : Option Bool
  deriving DecidableEq

namespace Query

/-- `q.get("ReturnData", True)` -/
def returned (q : Query) : Bool := q.returnData.getD true

/-- `_is_search` -/
def isSearch (q : Query) : Bool := contains (q.expression.getD "") "SEARCH("

end Query

/-- `GMD_MAX_QUERIES` -/
def gmdMaxQueries : ℕ := 500
/-- `GMD_MAX_SEARCH_PER_REQUEST` -/
def gmdMaxSearchPerRequest : ℕ := 5

/-- The loop of `_chunk_gmd_queries`, with the chunk that is being filled. -/
def chunkFrom (size : ℕ) : List Query → List Query → List (List Query)
  | current, [] => if current = [] then [] else [current]
  | current, q :: queries =>
    if size ≤ (current ++ [q]).length then
      -- a hidden input does not end a chunk: it opens the next one
      if q.returned then (current ++ [q]) :: chunkFrom size [] queries
      else current :: chunkFrom size [q] queries
    else chunkFrom size (current ++ [q]) queries

/-- `_chunk_gmd_queries` -/
def chunkGmdQueries (queries : List Query) : List (List Query) :=
  chunkFrom gmdMaxQueries [] queries

def plainQueries (queries : List Query) : List Query := queries.filter fun q => !q.isSearch
def searchQueries (queries : List Query) : List Query := queries.filter Query.isSearch

/-- `_request_chunks` -/
def requestChunks (queries : List Query) : List (List Query) :=
  (if plainQueries queries = [] then [] else chunkGmdQueries (plainQueries queries)) ++
    slices gmdMaxSearchPerRequest (searchQueries queries)

/-- A row of `resources`, as far as a query needs it. -/
structure MetricResource where
  id : ℕ
  resourceType : String
  resourceId : String
  name : Option String

/-- `s.split(stem)[-1]` -/
def afterLast (stem s : String) : String :=
  match (s.toList.tails.filter fun t => stem.toList <+: t).getLast? with
  | none => s
  | some t => String.ofList (t.drop stem.toList.length)

/-- `_resource_dim_value` -/
def resourceDimValue (r : MetricResource) : String :=
  if r.resourceType = "elb" then afterLast "loadbalancer/" r.resourceId
  else if r.resourceType = "lambda" then
    match r.name with
    | none => r.resourceId
    | some name => if name = "" then r.resourceId else name
  else r.resourceId

/-- `_DIM_NAME` -/
def dimName (resourceType : String) : String :=
  if resourceType = "ebs" then "VolumeId"
  else if resourceType = "rds" then "DBInstanceIdentifier"
  else if resourceType = "elb" then "LoadBalancer"
  else if resourceType = "lambda" then "FunctionName"
  else "InstanceId"

structure MetricDef where
  cwName : String
  dbName : String
  stat : String
  metricNamespace : String
  periodSec : ℕ

/-- An entry of `id_map`. -/
structure SeriesEntry where
  resourceDbId : Option ℕ
  dbName : String
  stat : Option String
  deriving DecidableEq

/-- The query and the entry that one metric of one resource adds. -/
def addQuery (r : MetricResource) (built : List (Query × SeriesEntry)) (d : MetricDef) :
    List (Query × SeriesEntry) :=
  built ++ [(⟨"q" ++ toString built.length,
    some ⟨d.metricNamespace, d.cwName, [(dimName r.resourceType, resourceDimValue r)], d.periodSec,
      d.stat⟩, none, some true⟩, ⟨some r.id, d.dbName, some d.stat⟩)]

/-- `_build_queries`: the queries, each with its entry of `id_map`. -/
def buildQueries (resources : List MetricResource) (defs : List MetricDef) :
    List (Query × SeriesEntry) :=
  resources.foldl (fun built r =>
    if resourceDimValue r = "" then built else defs.foldl (addQuery r) built) []

/-- The requests of a list that its caller cuts first. -/
def cutRequests (chunkSize : ℕ) (queries : List Query) : List (List Query) :=
  (slices chunkSize queries).flatMap requestChunks

/-- The requests of `_run_gmd` -/
def runGmdRequests (chunkSize : ℕ) (resources : List MetricResource) (defs : List MetricDef) :
    List (List Query) := cutRequests chunkSize ((buildQueries resources defs).map Prod.fst)

/-- The hidden inputs of a list, each with the query after it. -/
def inputPairs (queries : List Query) : List (Query × Query) :=
  (queries.zip queries.tail).filter fun pair => !pair.1.returned

/-- Every hidden input is directly followed by a query that is returned. -/
def Paired (queries : List Query) : Prop :=
  queries.IsChain (fun a b => a.returned = false → b.returned = true) ∧
    ∀ q, queries.getLast? = some q → q.returned = true

/-- No hidden input is a SEARCH expression, nor the query after it. -/
def SearchApart (queries : List Query) : Prop :=
  ∀ pair ∈ inputPairs queries, pair.1.isSearch = false ∧ pair.2.isSearch = false

/-- What the requests of a list of queries have to be, apart from the hidden inputs. -/
structure Covers (queries : List Query) (requests : List (List Query)) : Prop where
  nonempty : ∀ request ∈ requests, request ≠ []
  once : requests.flatten.Perm queries
  plainOrder : plainQueries requests.flatten = plainQueries queries
  searchOrder : searchQueries requests.flatten = searchQueries queries
  size : ∀ request ∈ requests,
    (∀ q ∈ request, q.isSearch = false) ∧ request.length ≤ gmdMaxQueries ∨
      (∀ q ∈ request, q.isSearch = true) ∧ request.length ≤ gmdMaxSearchPerRequest

/-- No expression is separated from its hidden input. -/
def Together (queries : List Query) (requests : List (List Query)) : Prop :=
  (requests.flatMap inputPairs).Perm (inputPairs queries)

section Chunks
variable {size : ℕ} {current queries chunk : List Query}

theorem flatten_chunkFrom (size : ℕ) (current queries : List Query) :
    (chunkFrom size current queries).flatten = current ++ queries := by
  induction queries generalizing current with
  | nil =>
    rw [chunkFrom, List.append_nil]
    split
    · rename_i hnil
      exact hnil.symm
    · exact List.flatten_singleton
  | cons q queries ih =>
    rw [chunkFrom]
    split
    · split
      · rw [List.flatten_cons, ih]
        simp
      · rw [List.flatten_cons, ih]
        rfl
    · rw [ih]
      simp

theorem chunkFrom_bounds (hsize : 2 ≤ size) (hcurrent : current.length < size)
    (h : chunk ∈ chunkFrom size current queries) : chunk ≠ [] ∧ chunk.length ≤ size := by
  induction queries generalizing current with
  | nil =>
    rw [chunkFrom] at h
    split at h
    · cases h
    · rename_i hne
      rw [List.mem_singleton.mp h]
      exact ⟨hne, hcurrent.le⟩
  | cons q queries ih =>
    have hlength : (current ++ [q]).length = current.length + 1 := List.length_append
    rw [chunkFrom] at h
    split at h
    · rename_i hfull
      split at h
      · rcases List.mem_cons.mp h with rfl | h
        · exact ⟨List.append_ne_nil_of_right_ne_nil _ (List.cons_ne_nil q []),
            hlength.trans_le hcurrent⟩
        · exact ih (by simp; omega) h
      · rcases List.mem_cons.mp h with rfl | h
        · refine ⟨?_, hcurrent.le⟩
          rintro rfl
          rw [hlength, List.length_nil] at hfull
          omega
        · exact ih (by simp; omega) h
    · rename_i hroom
      exact ih (Nat.lt_of_not_le hroom) h

theorem inputPairs_cons (q : Query) (queries : List Query) :
    inputPairs (q :: queries) =
      (if q.returned then [] else queries.head?.toList.map fun next => (q, next)) ++
        inputPairs queries := by
  cases queries with
  | nil => cases hq : q.returned <;> simp [inputPairs]
  | cons next queries =>
    cases hq : q.returned <;> simp [inputPairs, hq]

/-- A cut after a query that is returned parts no pair. -/
theorem inputPairs_append {left right : List Query}
    (hlast : ∀ q, left.getLast? = some q → q.returned = true) :
    inputPairs (left ++ right) = inputPairs left ++ inputPairs right := by
  induction left with
  | nil => rfl
  | cons q left ih =>
    cases left with
    | nil =>
      have hq : q.returned = true := hlast q rfl
      rw [List.singleton_append, inputPairs_cons, inputPairs_cons q [], if_pos hq, if_pos hq]
      rfl
    | cons next left =>
      have hrest := ih fun q' hq' => hlast q' (by rw [List.getLast?_cons_cons]; exact hq')
      rw [List.cons_append, inputPairs_cons, hrest, inputPairs_cons q (next :: left),
        List.append_assoc]
      rfl

/-- A cut after a hidden input parts it from the query that follows. -/
theorem inputPairs_append_hidden {left right : List Query} {q next : Query}
    (hlast : left.getLast? = some q) (hq : q.returned = false) :
    inputPairs (left ++ next :: right) =
      inputPairs left ++ (q, next) :: inputPairs (next :: right) := by
  obtain ⟨front, rfl⟩ := List.getLast?_eq_some_iff.mp hlast
  induction front with
  | nil =>
    rw [List.nil_append, List.singleton_append, inputPairs_cons, hq]
    simp [inputPairs_cons q [], inputPairs, hq]
  | cons first front ih =>
    have hrest := ih (by simp)
    cases front with
    | nil =>
      rw [List.cons_append, List.cons_append, inputPairs_cons, hrest, inputPairs_cons first]
      simp
    | cons second front =>
      rw [List.cons_append, List.cons_append, inputPairs_cons, hrest, inputPairs_cons first]
      simp

/-- No two hidden inputs in a row. -/
def Alternating (queries : List Query) : Prop :=
  queries.IsChain fun a b => a.returned = false → b.returned = true

theorem alternating_iff :
    Alternating queries ↔ ∀ pair ∈ inputPairs queries, pair.2.returned = true := by
  induction queries with
  | nil => simp [Alternating, inputPairs]
  | cons q queries ih =>
    rw [Alternating, List.isChain_cons, inputPairs_cons]
    simp only [List.forall_mem_append]
    refine and_congr ?_ ih
    cases hq : q.returned with
    | true => simp
    | false => simp

/-- The chunker closes no chunk between a hidden input and the query after it. -/
theorem inputPairs_chunkFrom (size : ℕ) (h : Alternating (current ++ queries)) :
    (chunkFrom size current queries).flatMap inputPairs = inputPairs (current ++ queries) := by
  induction queries generalizing current with
  | nil =>
    rw [chunkFrom, List.append_nil]
    split
    · rename_i hnil
      rw [hnil]
      rfl
    · exact List.flatMap_singleton _ _
  | cons q queries ih =>
    have hassoc : current ++ q :: queries = (current ++ [q]) ++ queries := by simp
    rw [chunkFrom]
    split
    · split
      · rename_i hreturned
        have hright : Alternating ([] ++ queries) := by
          rw [hassoc] at h
          exact (List.isChain_append.mp h).2.1
        have hlast : ∀ q', (current ++ [q]).getLast? = some q' → q'.returned = true := by
          intro q' hq'
          rw [List.getLast?_concat, Option.some.injEq] at hq'
          exact hq' ▸ hreturned
        rw [List.flatMap_cons, ih hright, hassoc, inputPairs_append hlast, List.nil_append]
      · rename_i hhidden
        have hparts := List.isChain_append.mp h
        have hlast : ∀ last, current.getLast? = some last → last.returned = true := by
          intro last hlast
          by_contra hlast'
          exact hhidden (hparts.2.2 last hlast q rfl (by simpa using hlast'))
        have hrest : Alternating ([q] ++ queries) := hparts.2.1
        rw [List.flatMap_cons, ih hrest, inputPairs_append hlast, List.singleton_append]
    · rw [ih (hassoc ▸ h), hassoc]

end Chunks

section Requests
variable {queries request : List Query}

theorem requestChunks_eq (queries : List Query) : requestChunks queries =
    chunkGmdQueries (plainQueries queries) ++
      slices gmdMaxSearchPerRequest (searchQueries queries) := by
  rw [requestChunks]
  split
  · rename_i hnil
    rw [hnil]
    rfl
  · rfl

theorem flatten_requestChunks (queries : List Query) :
    (requestChunks queries).flatten = plainQueries queries ++ searchQueries queries := by
  rw [requestChunks_eq, List.flatten_append, flatten_slices (by decide), chunkGmdQueries,
    flatten_chunkFrom, List.nil_append]

theorem plainQueries_append (left right : List Query) :
    plainQueries (left ++ right) = plainQueries left ++ plainQueries right := List.filter_append ..

theorem searchQueries_append (left right : List Query) :
    searchQueries (left ++ right) = searchQueries left ++ searchQueries right :=
  List.filter_append ..

theorem covers_requestChunks (queries : List Query) : Covers queries (requestChunks queries) where
  nonempty request hrequest := by
    rw [requestChunks_eq] at hrequest
    rcases List.mem_append.mp hrequest with hplain | hsearch
    · exact (chunkFrom_bounds (by decide) (by decide) hplain).1
    · exact List.ne_nil_of_length_pos (length_slice hsearch).1
  once := by
    rw [flatten_requestChunks]
    exact List.perm_append_comm.trans (List.filter_append_perm Query.isSearch queries)
  plainOrder := by
    rw [flatten_requestChunks, plainQueries_append]
    simp [plainQueries, searchQueries, List.filter_filter]
  searchOrder := by
    rw [flatten_requestChunks, searchQueries_append]
    simp [plainQueries, searchQueries, List.filter_filter]
  size request hrequest := by
    have hmem : ∀ {q : Query} {requests : List (List Query)}, q ∈ request → request ∈ requests →
        q ∈ requests.flatten := fun hq hreq => List.mem_flatten.mpr ⟨request, hreq, hq⟩
    rw [requestChunks_eq] at hrequest
    rcases List.mem_append.mp hrequest with hplain | hsearch
    · refine .inl ⟨fun q hq => ?_, (chunkFrom_bounds (by decide) (by decide) hplain).2⟩
      have hflat := hmem hq hplain
      rw [chunkGmdQueries, flatten_chunkFrom, List.nil_append, plainQueries,
        List.mem_filter] at hflat
      simpa using hflat.2
    · refine .inr ⟨fun q hq => ?_, (length_slice hsearch).2⟩
      have hflat := hmem hq hsearch
      rw [flatten_slices (by decide), searchQueries, List.mem_filter] at hflat
      exact hflat.2

/-- The requests of several lists cover the lists in a row. -/
theorem Covers.flatMap (lists : List (List Query)) :
    Covers lists.flatten (lists.flatMap requestChunks) := by
  induction lists with
  | nil => exact ⟨by simp, .nil, rfl, rfl, by simp⟩
  | cons queries lists ih =>
    have hfirst := covers_requestChunks queries
    rw [List.flatten_cons, List.flatMap_cons]
    constructor
    · exact List.forall_mem_append.mpr ⟨hfirst.nonempty, ih.nonempty⟩
    · rw [List.flatten_append]
      exact hfirst.once.append ih.once
    · rw [List.flatten_append, plainQueries_append, plainQueries_append, hfirst.plainOrder,
        ih.plainOrder]
    · rw [List.flatten_append, searchQueries_append, searchQueries_append, hfirst.searchOrder,
        ih.searchOrder]
    · exact List.forall_mem_append.mpr ⟨hfirst.size, ih.size⟩

theorem inputPairs_returned (h : ∀ q ∈ queries, q.returned = true) : inputPairs queries = [] := by
  refine List.filter_eq_nil_iff.mpr fun pair hpair => ?_
  simp [h pair.1 (List.of_mem_zip hpair).1]

/-- Taking the SEARCH expressions out parts no pair without one. -/
theorem inputPairs_plainQueries (hhidden : ∀ q ∈ queries, q.returned = false → q.isSearch = false)
    (hpairs : ∀ pair ∈ inputPairs queries, pair.2.isSearch = false) :
    inputPairs (plainQueries queries) = inputPairs queries := by
  induction queries with
  | nil => rfl
  | cons q queries ih =>
    rw [inputPairs_cons] at hpairs
    have hrest := ih (fun q' hq' => hhidden q' (List.mem_cons_of_mem _ hq')) fun pair hpair =>
      hpairs pair (List.mem_append_right _ hpair)
    cases hq : q.returned with
    | true =>
      have hcons : ∀ l, inputPairs (q :: l) = inputPairs l := fun l => by
        rw [inputPairs_cons, if_pos hq, List.nil_append]
      rw [hcons, ← hrest, plainQueries, List.filter_cons]
      split
      · exact hcons _
      · rfl
    | false =>
      have hplain := hhidden q List.mem_cons_self hq
      have hkeep : plainQueries (q :: queries) = q :: plainQueries queries :=
        List.filter_cons_of_pos (by simp [hplain])
      rw [hkeep, inputPairs_cons, inputPairs_cons, hrest]
      cases queries with
      | nil => rfl
      | cons next queries =>
        have hnext : next.isSearch = false := hpairs (q, next) (by simp [hq])
        have hkept : plainQueries (next :: queries) = next :: plainQueries queries :=
          List.filter_cons_of_pos (by simp [hnext])
        rw [hkept]
        rfl

/-- The requests of one list keep its pairs. -/
theorem inputPairs_requestChunks
    (hhidden : ∀ q ∈ queries, q.returned = false → q.isSearch = false)
    (hpairs : ∀ pair ∈ inputPairs queries, pair.2.isSearch = false ∧ pair.2.returned = true) :
    (requestChunks queries).flatMap inputPairs = inputPairs queries := by
  have hplain := inputPairs_plainQueries hhidden fun pair hpair => (hpairs pair hpair).1
  have halternating : Alternating ([] ++ plainQueries queries) := by
    rw [List.nil_append, alternating_iff, hplain]
    exact fun pair hpair => (hpairs pair hpair).2
  have hsearch : (slices gmdMaxSearchPerRequest (searchQueries queries)).flatMap inputPairs =
      [] := by
    refine List.flatMap_eq_nil_iff.mpr fun slice hslice => inputPairs_returned fun q hq => ?_
    have hmem := (mem_slices (by decide)).mp ⟨slice, hslice, hq⟩
    rw [searchQueries, List.mem_filter] at hmem
    by_contra hreturned
    have hfalse := hhidden q hmem.1 (by simpa using hreturned)
    exact Bool.false_ne_true (hfalse.symm.trans hmem.2)
  rw [requestChunks_eq, List.flatMap_append, hsearch, List.append_nil, chunkGmdQueries,
    inputPairs_chunkFrom _ halternating, List.nil_append, hplain]

end Requests

end MonitoringHub.Gmd
