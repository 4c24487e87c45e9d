import MonitoringHub.Collector.MetricsWriter
import MonitoringHub.Lib.GroupTally

/-! `poll_alb_target_health`: the healthy and the unhealthy targets of a load balancer, summed over
its target groups. The list call returns pages and the poll reads the first; a group whose own
call fails is skipped, and what the other groups of its balancer have is written. -/

namespace MonitoringHub.TargetHealth
open Lib Lib.KeyedStore Lib.GroupTally Ingest MetricsWriter

/-- A target group, and what `describe_target_health` returns of it: the states of its targets, or
nothing where the call fails. -/
structure TargetGroup where
  arn : String
  loadBalancerArns : Option (List String)
  targetHealth : Option (List (Option String))
  arnsNodup : (loadBalancerArns.getD []).Nodup

namespace TargetGroup

def arns (tg : TargetGroup) : List String := tg.loadBalancerArns.getD []

def healthy (tg : TargetGroup) : ℕ :=
  (tg.targetHealth.getD []).countP fun state => state = some "healthy"

def unhealthy (tg : TargetGroup) : ℕ := (tg.targetHealth.getD []).length - tg.healthy

/-- The groups of one load balancer. -/
def ofBalancer (lb : String) (groups : List TargetGroup) : List TargetGroup :=
  groups.filter fun tg => lb ∈ tg.arns

end TargetGroup

/-- The calls of one account: the pages of its target groups if the list call succeeds, the session
of the poll, and the clock at its end. -/
structure AccountPoll where
  pages : List (List TargetGroup)
  listed : Bool
  session : Bool
  now : ℕ

namespace AccountPoll

/-- `tg_pairs`: the groups of the first page. -/
def asked (p : AccountPoll) : List TargetGroup :=
  if p.listed && p.session then p.pages.headD [] else []

/-- The groups on the pages that follow. -/
def unread (p : AccountPoll) : List TargetGroup := p.pages.tail.flatten

def answered (p : AccountPoll) : List TargetGroup := p.asked.filter (·.targetHealth.isSome)

/-- What the groups that answered add to their load balancers. -/
def counts (p : AccountPoll) : List (String × ℕ × ℕ) :=
  p.answered.flatMap fun tg => tg.arns.map fun lb => (lb, tg.healthy, tg.unhealthy)

/-- `lb_totals` -/
def lbTotals (p : AccountPoll) : List (String × ℕ × ℕ) :=
  tally Prod.fst (fun _ => (0, 0)) (fun acc row => (acc.1 + row.2.1, acc.2 + row.2.2)) p.counts

/-- The number of target groups polled. -/
def total (p : AccountPoll) : ℕ := p.answered.length

/-- Every group of the load balancer answered in the poll. -/
def AllAnswered (p : AccountPoll) (lb : String) : Prop :=
  (∀ tg ∈ p.asked, lb ∈ tg.arns → tg.targetHealth.isSome = true) ∧ ∀ tg ∈ p.unread, lb ∉ tg.arns

end AccountPoll

/-- A load balancer's row of `resources`. -/
structure BalancerRow where
  id : ℕ
  account : ℕ
  resourceId : String
  deriving DecidableEq

/-- The rows of type `elb`, with the keys of the table. -/
structure Balancers where
  rows : List BalancerRow
  idKey : ∀ r ∈ rows, ∀ r' ∈ rows, r.id = r'.id → r = r'
  resourceKey : ∀ r ∈ rows, ∀ r' ∈ rows, r.account = r'.account → r.resourceId = r'.resourceId →
    r = r'

namespace Balancers

/-- `_elb_resource_db_ids_by_arn` -/
def idsByArn (b : Balancers) (account : ℕ) : List (String × ℕ) :=
  (b.rows.filter fun r => r.account = account).foldl
    (fun ids r => assign r.resourceId r.id ids) []

end Balancers

/-- The two rows of a load balancer. -/
def hostRows (rid : ℕ) (sums : ℕ × ℕ) : List (SeriesKey × ℚ) :=
  [((rid, "healthyhosts_describe"), sums.1), ((rid, "unhealthyhosts_describe"), sums.2)]

/-- `local_rows` of one account -/
def localRows (b : Balancers) (account : ℕ) (p : AccountPoll) : List (SeriesKey × ℚ) :=
  p.lbTotals.flatMap fun e =>
    match find e.1 (b.idsByArn account) with
    | none => []
    | some rid => hostRows rid e.2

/-- The two batches of an account: the same rows, in the history at the clock's time. -/
def writeRows (now : ℕ) (rows : List (SeriesKey × ℚ)) (tables : MetricTables) : MetricTables :=
  writeBatches now false rows (rows.map fun row => ((row.1, now), row.2)) tables

/-- A round over the active accounts, one poll an account. -/
structure Round where
  polls : List (ℕ × AccountPoll)
  distinct : Distinct polls

namespace Round

/-- The rows the round hands to the two batches. -/
def written (b : Balancers) (round : Round) : List (SeriesKey × ℚ) :=
  round.polls.flatMap fun e => localRows b e.1 e.2

/-- `poll_alb_target_health` -/
def pollAlbTargetHealth (b : Balancers) (round : Round) (tables : MetricTables) :
    ℕ × MetricTables :=
  ((round.polls.map fun e => e.2.total).sum,
    round.polls.foldl (fun tables e => writeRows e.2.now (localRows b e.1 e.2) tables) tables)

end Round

section Counts
variable {p : AccountPoll} {lb : String} {groups : List TargetGroup}

/-- The sums of the targets over the groups of a load balancer. -/
def balancerSums (lb : String) (groups : List TargetGroup) : ℕ × ℕ :=
  (((TargetGroup.ofBalancer lb groups).map TargetGroup.healthy).sum,
    ((TargetGroup.ofBalancer lb groups).map TargetGroup.unhealthy).sum)

theorem balancerSums_append (lb : String) (groups groups' : List TargetGroup) :
    balancerSums lb (groups ++ groups') = balancerSums lb groups + balancerSums lb groups' := by
  simp [balancerSums, TargetGroup.ofBalancer, List.filter_append]

theorem ofBalancer_eq_nil :
    TargetGroup.ofBalancer lb groups = [] ↔ ∀ tg ∈ groups, lb ∉ tg.arns := by
  simp [TargetGroup.ofBalancer, List.filter_eq_nil_iff]

/-- A group counts once for each of its load balancers. -/
theorem counts_filter (p : AccountPoll) (lb : String) :
    (p.counts.filter fun row => row.1 = lb) =
      (TargetGroup.ofBalancer lb p.answered).map fun tg => (lb, tg.healthy, tg.unhealthy) := by
  have hone : ∀ tg : TargetGroup, ((tg.arns.map fun lb' => (lb', tg.healthy, tg.unhealthy)).filter
      fun row => row.1 = lb) = if lb ∈ tg.arns then [(lb, tg.healthy, tg.unhealthy)] else [] := by
    intro tg
    have hnodup : tg.arns.Nodup := tg.arnsNodup
    have hself : (tg.arns.filter fun lb' => lb' = lb) = if lb ∈ tg.arns then [lb] else [] := by
      rw [List.filter_eq, hnodup.count]
      split <;> rfl
    rw [List.filter_map]
    have hcomp : (fun row : String × ℕ × ℕ => decide (row.1 = lb)) ∘
        (fun lb' => (lb', tg.healthy, tg.unhealthy)) = fun lb' => decide (lb' = lb) := rfl
    rw [hcomp, hself]
    split <;> rfl
  rw [AccountPoll.counts, List.filter_flatMap]
  induction p.answered with
  | nil => rfl
  | cons tg tgs ih =>
    unfold TargetGroup.ofBalancer at ih ⊢
    rw [List.flatMap_cons, ih, hone, List.filter_cons]
    by_cases hlb : lb ∈ tg.arns <;> simp [hlb]

theorem foldl_sums (rows : List (String × ℕ × ℕ)) (acc : ℕ × ℕ) :
    rows.foldl (fun acc row => (acc.1 + row.2.1, acc.2 + row.2.2)) acc =
      (acc.1 + (rows.map fun row => row.2.1).sum, acc.2 + (rows.map fun row => row.2.2).sum) := by
  induction rows generalizing acc with
  | nil => simp
  | cons row rows ih => simp [ih, Nat.add_assoc]

/-- What the poll holds for a load balancer: the sums over its groups that answered. -/
theorem find_lbTotals (p : AccountPoll) (lb : String) : find lb p.lbTotals =
    if TargetGroup.ofBalancer lb p.answered = [] then none
      else some (balancerSums lb p.answered) := by
  rw [AccountPoll.lbTotals, find_tally, counts_filter, balancerSums]
  cases TargetGroup.ofBalancer lb p.answered with
  | nil => rfl
  | cons tg tgs =>
    rw [List.map_cons, groupOf, foldl_sums, if_neg (List.cons_ne_nil tg tgs)]
    simp [Function.comp_def]

/-- Where every group answered, the groups that answered are all there are. -/
theorem answered_of_allAnswered (hall : p.AllAnswered lb)
    (hsome : ∃ tg ∈ p.answered, lb ∈ tg.arns) :
    balancerSums lb p.answered = balancerSums lb p.pages.flatten := by
  obtain ⟨hasked, hunread⟩ := hall
  obtain ⟨tg, htg, -⟩ := hsome
  have hopen : (p.listed && p.session) = true := by
    by_contra hclosed
    simp [AccountPoll.answered, AccountPoll.asked, hclosed] at htg
  have hown : TargetGroup.ofBalancer lb p.answered = TargetGroup.ofBalancer lb p.asked := by
    rw [TargetGroup.ofBalancer, AccountPoll.answered, List.filter_filter]
    refine List.filter_congr fun tg' htg' => ?_
    by_cases hlb : lb ∈ tg'.arns
    · simp [hlb, hasked tg' htg' hlb]
    · simp [hlb]
  have hpages : p.pages.flatten = p.asked ++ p.unread := by
    rw [AccountPoll.asked, if_pos hopen, AccountPoll.unread]
    cases p.pages <;> rfl
  have hnone : balancerSums lb p.unread = 0 := by
    rw [balancerSums, ofBalancer_eq_nil.mpr hunread]
    rfl
  rw [hpages, balancerSums_append, hnone, balancerSums, hown]
  rfl

end Counts

section Rows
variable {b : Balancers} {r : BalancerRow} {account : ℕ} {p : AccountPoll}

theorem find_idsByArn {lb : String} {rid : ℕ} : find lb (b.idsByArn account) = some rid ↔
    ∃ r ∈ b.rows, r.account = account ∧ r.resourceId = lb ∧ r.id = rid := by
  rw [Balancers.idsByArn, find_foldl_assign, find_upserts, find, Option.or_none,
    Option.map_eq_some_iff]
  constructor
  · rintro ⟨r, hlast, rfl⟩
    have hr := List.mem_of_getLast? hlast
    simp only [List.mem_filter, decide_eq_true_eq] at hr
    exact ⟨r, hr.1.1, hr.1.2, hr.2, rfl⟩
  · rintro ⟨r, hr, haccount, hlb, rfl⟩
    have hmem : r ∈ (b.rows.filter fun r => r.account = account).filter
        fun r => r.resourceId = lb := by
      simp only [List.mem_filter, decide_eq_true_eq]
      exact ⟨⟨hr, haccount⟩, hlb⟩
    obtain ⟨last, hlast⟩ := Option.isSome_iff_exists.mp
      (List.getLast?_isSome.mpr (List.ne_nil_of_mem hmem))
    have hlast' := List.mem_of_getLast? hlast
    simp only [List.mem_filter, decide_eq_true_eq] at hlast'
    have heq := b.resourceKey last hlast'.1.1 r hr (hlast'.1.2.trans haccount.symm)
      (hlast'.2.trans hlb.symm)
    exact ⟨last, hlast, congrArg BalancerRow.id heq⟩

/-- The rows that an account's poll has for a load balancer, its own or another account's. -/
theorem localRows_filter (hr : r ∈ b.rows) (account : ℕ) (p : AccountPoll) :
    (localRows b account p).filter (fun row => row.1.1 = r.id) =
      if account = r.account then (find r.resourceId p.lbTotals).elim [] (hostRows r.id)
        else [] := by
  have hentry : ∀ e : String × ℕ × ℕ, ((match find e.1 (b.idsByArn account) with
      | none => []
      | some rid => hostRows rid e.2).filter fun row => row.1.1 = r.id) =
      if account = r.account then if e.1 = r.resourceId then hostRows r.id e.2 else [] else [] := by
    intro e
    cases hfind : find e.1 (b.idsByArn account) with
    | none =>
      have hother : ¬ (account = r.account ∧ e.1 = r.resourceId) := by
        rintro ⟨haccount, hlb⟩
        have := find_idsByArn.mpr ⟨r, hr, haccount.symm, hlb.symm, rfl⟩
        cases hfind.symm.trans this
      split_ifs with haccount hlb
      · exact absurd ⟨haccount, hlb⟩ hother
      · rfl
      · rfl
    | some rid =>
      obtain ⟨r', hr', haccount', hlb', hid'⟩ := find_idsByArn.mp hfind
      by_cases hid : rid = r.id
      · obtain rfl : r' = r := b.idKey r' hr' r hr (hid'.trans hid)
        subst hid
        simp [hostRows, haccount', hlb']
      · have hother : ¬ (account = r.account ∧ e.1 = r.resourceId) := by
          rintro ⟨haccount, hlb⟩
          have heq := b.resourceKey r' hr' r hr (haccount'.trans haccount) (hlb'.trans hlb)
          exact hid (hid'.symm.trans (congrArg BalancerRow.id heq))
        have hnil : (hostRows rid e.2).filter (fun row => row.1.1 = r.id) = [] := by
          simp [hostRows, hid]
        dsimp only
        rw [hnil]
        split_ifs with haccount hlb
        · exact absurd ⟨haccount, hlb⟩ hother
        · rfl
        · rfl
  rw [localRows, List.filter_flatMap]
  simp only [hentry]
  split
  · exact flatMap_key (distinct_tally _ _ _ _) r.resourceId (hostRows r.id)
  · simp

/-- The rows of a round for a load balancer are those of its own account's poll. -/
theorem written_filter (hr : r ∈ b.rows) (round : Round) :
    (round.written b).filter (fun row => row.1.1 = r.id) =
      (find r.account round.polls).elim [] fun p =>
        (find r.resourceId p.lbTotals).elim [] (hostRows r.id) := by
  rw [Round.written, List.filter_flatMap]
  simp only [localRows_filter hr]
  exact flatMap_key round.distinct r.account fun p =>
    (find r.resourceId p.lbTotals).elim [] (hostRows r.id)

end Rows

section Tables
variable {b : Balancers} {r : BalancerRow} {rows : List (SeriesKey × ℚ)} {tables : MetricTables}
  {rid : ℕ}

/-- What the tables have of a resource is the same. -/
def SameResource (rid : ℕ) (tables tables' : MetricTables) : Prop :=
  ∀ name, SameSeries (rid, name) tables tables'

theorem writeRows_same (now : ℕ) (tables : MetricTables)
    (h : rows.filter (fun row => row.1.1 = rid) = []) :
    SameResource rid tables (writeRows now rows tables) := by
  have hnone : ∀ row ∈ rows, row.1.1 ≠ rid := by
    simpa [List.filter_eq_nil_iff] using h
  refine fun name => writeBatches_same now false tables (fun row hrow heq => ?_)
    fun row hrow heq => ?_
  · exact hnone row hrow (Prod.mk.inj heq).1
  · obtain ⟨row', hrow', rfl⟩ := List.mem_map.mp hrow
    exact hnone row' hrow' (Prod.mk.inj heq).1

/-- A round leaves the resources alone that it has no rows for. -/
theorem poll_same {polls : List (ℕ × AccountPoll)}
    (h : ∀ e ∈ polls, (localRows b e.1 e.2).filter (fun row => row.1.1 = rid) = []) :
    SameResource rid tables
      (polls.foldl (fun tables e => writeRows e.2.now (localRows b e.1 e.2) tables) tables) := by
  induction polls generalizing tables with
  | nil => exact fun name => ⟨rfl, fun _ => rfl⟩
  | cons e polls ih =>
    have hstep := writeRows_same e.2.now tables (h e List.mem_cons_self)
    have hrest : SameResource rid (writeRows e.2.now (localRows b e.1 e.2) tables) _ :=
      ih fun e' he' => h e' (List.mem_cons_of_mem _ he')
    exact fun name => (hstep name).trans (hrest name)

end Tables

section Round
variable {b : Balancers} {r : BalancerRow} {p : AccountPoll} {round : Round}
  {tables : MetricTables}

/-- The last values of a load balancer after the round are those of its own account's poll. -/
theorem find_metrics_poll (hr : r ∈ b.rows) (hfind : find r.account round.polls = some p)
    (name : String) : find (r.id, name) (round.pollAlbTargetHealth b tables).2.metrics =
      find (r.id, name) (writeRows p.now (localRows b r.account p) tables).metrics := by
  obtain ⟨polls, hdistinct⟩ := round
  dsimp only [Round.pollAlbTargetHealth] at hfind ⊢
  induction polls generalizing tables with
  | nil => cases hfind
  | cons e polls ih =>
    obtain ⟨hnew, hrest⟩ := List.nodup_cons.mp hdistinct
    rw [List.foldl_cons]
    by_cases haccount : e.1 = r.account
    · rw [find, if_pos haccount, Option.some.injEq] at hfind
      subst hfind
      rw [← haccount]
      refine (poll_same (fun e' he' => ?_) name).1
      rw [localRows_filter hr, if_neg]
      rintro heq
      exact hnew (List.mem_map.mpr ⟨e', he', heq.trans haccount.symm⟩)
    · rw [find, if_neg haccount] at hfind
      have hsame : SameResource r.id tables (writeRows e.2.now (localRows b e.1 e.2) tables) := by
        refine writeRows_same _ _ ?_
        rw [localRows_filter hr, if_neg haccount]
      have hwrite : ∀ tables, find (r.id, name)
          (writeRows p.now (localRows b r.account p) tables).metrics = _ := fun tables =>
        find_writeMetricsBatch p.now (localRows b r.account p) tables.metrics (r.id, name)
      rw [ih hrest hfind, hwrite, (hsame name).1, hwrite]

/-- The last values of a load balancer that the round has rows for. -/
theorem lastValues_written (hr : r ∈ b.rows) (hfind : find r.account round.polls = some p)
    {sums : ℕ × ℕ} (hsums : find r.resourceId p.lbTotals = some sums) :
    ∀ row ∈ hostRows r.id sums,
      find row.1 (round.pollAlbTargetHealth b tables).2.metrics = some (row.2, p.now) := by
  have hrows : (localRows b r.account p).filter (fun row => row.1.1 = r.id) =
      hostRows r.id sums := by
    rw [localRows_filter hr, if_pos rfl, hsums, Option.elim_some]
  have hlast : ∀ (n : ℕ) (name : String), (hostRows r.id sums).filter
      (fun row => row.1 = (r.id, name)) = [((r.id, name), (n : ℚ))] →
      find (r.id, name) (round.pollAlbTargetHealth b tables).2.metrics = some ((n : ℚ), p.now) := by
    intro n name hone
    have hkey : (localRows b r.account p).filter (fun row => row.1 = (r.id, name)) =
        [((r.id, name), (n : ℚ))] := by
      rw [← hone, ← hrows, List.filter_filter]
      refine List.filter_congr fun row _ => ?_
      rw [← Bool.decide_and, decide_eq_decide]
      exact ⟨fun heq => ⟨heq, congrArg Prod.fst heq⟩, And.left⟩
    rw [find_metrics_poll hr hfind, writeRows, writeBatches, find_writeMetricsBatch, hkey]
    simp [round6_natCast]
  intro row hrow
  rcases List.mem_pair.mp hrow with rfl | rfl
  · exact hlast _ _ (by simp [hostRows])
  · exact hlast _ _ (by simp [hostRows])

/-- The round writes the two counts of a load balancer if every one of its groups answered, as the
sums over exactly these; of any other its last values and history stay as they were. -/
def Round.CountsWhole (b : Balancers) (round : Round) (tables : MetricTables) : Prop :=
  ∀ r ∈ b.rows,
    (∃ p, find r.account round.polls = some p ∧ p.AllAnswered r.resourceId ∧
      (round.written b).filter (fun row => row.1.1 = r.id) =
        hostRows r.id (balancerSums r.resourceId p.pages.flatten) ∧
      ∀ row ∈ hostRows r.id (balancerSums r.resourceId p.pages.flatten),
        find row.1 (round.pollAlbTargetHealth b tables).2.metrics = some (row.2, p.now)) ∨
    (round.written b).filter (fun row => row.1.1 = r.id) = [] ∧
      SameResource r.id tables (round.pollAlbTargetHealth b tables).2

/-- A load balancer of which one group answered has no group that did not. -/
def Round.NoneMissing (b : Balancers) (round : Round) : Prop :=
  ∀ r ∈ b.rows, ∀ p, find r.account round.polls = some p →
    (∃ tg ∈ p.answered, r.resourceId ∈ tg.arns) → p.AllAnswered r.resourceId

theorem countsWhole_iff (b : Balancers) (round : Round) (tables : MetricTables) :
    round.CountsWhole b tables ↔ round.NoneMissing b := by
  refine forall₂_congr fun r hr => ?_
  have hwritten := written_filter hr round
  constructor
  · rintro (⟨p, hfind, hall, -⟩ | ⟨hnone, -⟩) p' hfind' hsome
    · obtain rfl := Option.some.inj (hfind.symm.trans hfind')
      exact hall
    · rw [hwritten, hfind', Option.elim_some, find_lbTotals, if_neg] at hnone
      · cases hnone
      · rw [ofBalancer_eq_nil]
        obtain ⟨tg, htg, hlb⟩ := hsome
        exact fun hno => hno tg htg hlb
  · intro hmissing
    by_cases hsome : ∃ p, find r.account round.polls = some p ∧
        ∃ tg ∈ p.answered, r.resourceId ∈ tg.arns
    · obtain ⟨p, hfind, hanswered⟩ := hsome
      have hall := hmissing p hfind hanswered
      have htotals : find r.resourceId p.lbTotals =
          some (balancerSums r.resourceId p.pages.flatten) := by
        rw [find_lbTotals, if_neg, answered_of_allAnswered hall hanswered]
        rw [ofBalancer_eq_nil]
        obtain ⟨tg, htg, hlb⟩ := hanswered
        exact fun hno => hno tg htg hlb
      refine .inl ⟨p, hfind, hall, ?_, lastValues_written hr hfind htotals⟩
      rw [hwritten, hfind, Option.elim_some, htotals, Option.elim_some]
    · have hnil : ∀ p, find r.account round.polls = some p →
          find r.resourceId p.lbTotals = none := by
        intro p hfind
        rw [find_lbTotals, if_pos]
        exact ofBalancer_eq_nil.mpr fun tg htg hlb => hsome ⟨p, hfind, tg, htg, hlb⟩
      refine .inr ⟨?_, poll_same fun e he => ?_⟩
      · rw [hwritten]
        cases hfind : find r.account round.polls with
        | none => rfl
        | some p => rw [Option.elim_some, hnil p hfind, Option.elim_none]
      · rw [localRows_filter hr]
        split
        · rename_i haccount
          rw [hnil e.2 (haccount ▸ round.distinct.mem_iff.mp he), Option.elim_none]
        · rfl

end Round

/-- One load balancer with two target groups, the second of which does not answer. -/
def halfAnswered : Balancers × Round where
  fst := ⟨[⟨7, 1, "lb"⟩], by simp, by simp⟩
  snd := ⟨[(1, ⟨[[⟨"a", some ["lb"], some [some "healthy"], by decide⟩,
    ⟨"b", some ["lb"], none, by decide⟩]], true, true, 60⟩)], by simp [Distinct, keys]⟩

/-- The count of the first group is written as the balancer's. -/
theorem halfAnswered_partial :
    halfAnswered.2.written halfAnswered.1 = hostRows 7 (1, 0) ∧
      ∀ tables, ¬ halfAnswered.2.CountsWhole halfAnswered.1 tables := by
  have hwritten : halfAnswered.2.written halfAnswered.1 = hostRows 7 (1, 0) := by decide
  refine ⟨hwritten, fun tables hwhole => ?_⟩
  rcases hwhole ⟨7, 1, "lb"⟩ (by decide) with ⟨p, hfind, hall, -⟩ | ⟨hnone, -⟩
  · obtain rfl := Option.some.inj hfind
    have := hall.1 ⟨"b", some ["lb"], none, by decide⟩ (List.mem_cons_of_mem _ List.mem_cons_self)
      (by decide)
    cases this
  · rw [hwritten] at hnone
    cases hnone

end MonitoringHub.TargetHealth
