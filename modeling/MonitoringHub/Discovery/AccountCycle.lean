import Mathlib.Data.List.Basic
import Mathlib.Logic.Function.Basic
import Mathlib.Data.List.Range

/-! One account's discovery cycle. Every discoverer ends with its own first error and none of
them ends the cycle; all of them write in one transaction, which the database drops as a whole
on a deadlock or a lock timeout, while the statements after it start the next one. -/

namespace MonitoringHub.Discovery

inductive DbError
  | deadlock | lockTimeout | other
  deriving DecidableEq

def DbError.rollsBack : DbError → Bool
  | .deadlock => true
  | .lockTimeout => true
  | .other => false

structure ResourceKey where
  resourceType : String
  resourceId : String
  deriving DecidableEq

inductive Write
  | upsertResource (key : ResourceKey)
  | setInstanceState (instanceId : String)
  deriving DecidableEq

structure Instance where
  instanceId : String
  volumes : List String
  networkInterfaces : List String

/-- `attached` is an in-use volume with attachments. -/
structure Volume where
  volumeId : String
  attached : Bool

/-- The pages each discoverer is answered, `none` for a call that fails. Of the discoverers after
the second only the resources they write are told. -/
structure CloudAnswers where
  instances : List (Option (List Instance))
  volumes : List (Option (List Volume))
  others : List (List (Option (List ResourceKey)))

def Instance.writes (i : Instance) : List Write :=
  [.upsertResource ⟨"ec2", i.instanceId⟩, .setInstanceState i.instanceId] ++
    i.volumes.map (fun v => .upsertResource ⟨"ebs", v⟩) ++
    i.networkInterfaces.map fun n => .upsertResource ⟨"eni", n⟩

/-- The statements a discoverer makes of each call, `none` for a call that fails. -/
abbrev Discoverer := List (Option (List Write))

def discoverEc2 (pages : List (Option (List Instance))) : Discoverer :=
  pages.map fun page => page.map fun instances => instances.flatMap Instance.writes

def discoverEbs (pages : List (Option (List Volume))) : Discoverer :=
  pages.map fun page => page.map fun volumes =>
    (volumes.filter fun v => !v.attached).map fun v => .upsertResource ⟨"ebs", v.volumeId⟩

def discoverOther (pages : List (Option (List ResourceKey))) : Discoverer :=
  pages.map fun page => page.map fun keys => keys.map .upsertResource

def CloudAnswers.discoverers (a : CloudAnswers) : List Discoverer :=
  discoverEc2 a.instances :: discoverEbs a.volumes :: a.others.map discoverOther

/-- What became of a statement. -/
inductive Executed
  | wrote (key : ResourceKey)
  | updated
  | failed (e : DbError)
  deriving DecidableEq

def Executed.rollsBack : Executed → Bool
  | .failed e => e.rollsBack
  | _ => false

abbrev LastSeen := ResourceKey → Option ℕ

/-- `rows` is what a commit would store. The statements, newest first, and the calls whose
statements all succeeded are for the statements of the theorems. -/
structure Transaction where
  now : ℕ
  count : ℕ
  rows : LastSeen
  trace : List Executed
  completed : List (List Write)

namespace Transaction

def writes (t : Transaction) : Write → LastSeen
  | .upsertResource key => Function.update t.rows key (some t.now)
  | .setInstanceState _ => t.rows

def Write.executed : Write → Executed
  | .upsertResource key => .wrote key
  | .setInstanceState _ => .updated

/-- One statement; an error is raised with what it leaves. -/
def execute (stored : LastSeen) (errors : ℕ → Option DbError) (t : Transaction) (w : Write) :
    Except Transaction Transaction :=
  match errors t.count with
  | none => .ok { t with
      count := t.count + 1, rows := t.writes w, trace := Write.executed w :: t.trace }
  | some e => .error { t with
      count := t.count + 1, rows := if e.rollsBack then stored else t.rows,
      trace := .failed e :: t.trace }

def executeAll (stored : LastSeen) (errors : ℕ → Option DbError) :
    List Write → Transaction → Except Transaction Transaction
  | [], t => .ok t
  | w :: ws, t =>
    match execute stored errors t w with
    | .ok t' => executeAll stored errors ws t'
    | .error t' => .error t'

/-- The body of a discoverer's `try`; its `except` ends it where it is. -/
def discover (stored : LastSeen) (errors : ℕ → Option DbError) :
    Discoverer → Transaction → Transaction
  | [], t => t
  | none :: _, t => t
  | some ws :: rest, t =>
    match executeAll stored errors ws t with
    | .ok t' => discover stored errors rest { t' with completed := ws :: t'.completed }
    | .error t' => t'

end Transaction

/-- `finalError` is of the update of `last_discovered_at`, or of the commit. -/
structure Attempt where
  now : ℕ
  answers : CloudAnswers
  errors : ℕ → Option DbError
  finalError : Option DbError

def Attempt.run (a : Attempt) (stored : LastSeen) : Transaction :=
  a.answers.discoverers.foldl (fun t d => t.discover stored a.errors d) ⟨a.now, 0, stored, [], []⟩

structure DiscoveryDb where
  lastSeen : LastSeen
  lastDiscoveredAt : Option ℕ

inductive CycleEnd
  | committed | failureRecorded
  deriving DecidableEq

/-- The attempts made, in order. -/
structure CycleResult where
  db : DiscoveryDb
  ran : List Transaction
  ending : CycleEnd

def CycleResult.after (r : CycleResult) (t : Transaction) : CycleResult :=
  { r with ran := t :: r.ran }

/-- The cycle after its last attempt. -/
def settle (db : DiscoveryDb) (a : Attempt) : CycleResult :=
  let t := a.run db.lastSeen
  match a.finalError with
  | none => ⟨⟨t.rows, some a.now⟩, [t], .committed⟩
  | some _ => ⟨db, [t], .failureRecorded⟩

def discoverFrom (db : DiscoveryDb) (attempts : ℕ → Attempt) : ℕ → ℕ → CycleResult
  | 0, k => settle db (attempts k)
  | left + 1, k =>
    if (attempts k).finalError = some .deadlock then
      (discoverFrom db attempts left (k + 1)).after ((attempts k).run db.lastSeen)
    else settle db (attempts k)

def maxRetries : ℕ := 3

/-- What the cycle meets; it starts after everything stored was seen. -/
structure Cycle where
  db : DiscoveryDb
  attempts : ℕ → Attempt
  later : ∀ k key t, db.lastSeen key = some t → t < (attempts k).now

def Cycle.discoverAccount (c : Cycle) : CycleResult :=
  discoverFrom c.db c.attempts (maxRetries - 1) 0

def Transaction.Deadlocked (t : Transaction) : Prop := .failed .deadlock ∈ t.trace

/-- A committed cycle stored every resource of every call whose statements all succeeded, and a
deadlock inside a discoverer was followed by another attempt or by a recorded failure. -/
structure Cycle.Complete (c : Cycle) : Prop where
  stored : c.discoverAccount.ending = .committed →
    ∀ t, c.discoverAccount.ran.getLast? = some t → ∀ ws ∈ t.completed, ∀ key,
      .upsertResource key ∈ ws → c.discoverAccount.db.lastSeen key = some t.now
  answered : ∀ i t, c.discoverAccount.ran[i]? = some t → t.Deadlocked →
    i + 1 < c.discoverAccount.ran.length ∨ c.discoverAccount.ending = .failureRecorded

/-- The keys written since the last statement that was rolled back. -/
def writtenSince (trace : List Executed) : List ResourceKey :=
  (trace.takeWhile fun x => !x.rollsBack).filterMap fun
    | .wrote key => some key
    | _ => none

/-- No statement meets a deadlock, and what the completed calls wrote is written after the last
lock timeout. -/
def Transaction.Undisturbed (t : Transaction) : Prop :=
  ¬ t.Deadlocked ∧ ∀ ws ∈ t.completed, ∀ key, .upsertResource key ∈ ws →
    key ∈ writtenSince t.trace

/-- The attempt that nothing stops after its discoverers, all before it stopped by a deadlock. -/
def Committing (attempts : ℕ → Attempt) (k : ℕ) : Prop :=
  k < maxRetries ∧ (attempts k).finalError = none ∧
    ∀ j < k, (attempts j).finalError = some .deadlock

/-- A commit would store the keys written since the last rollback, and else what was stored. -/
def Transaction.Accounted (stored : LastSeen) (now : ℕ) (t : Transaction) : Prop :=
  t.now = now ∧ ∀ key, t.rows key = if key ∈ writtenSince t.trace then some now else stored key

theorem writtenSince_failed (e : DbError) (trace : List Executed) :
    writtenSince (.failed e :: trace) = if e.rollsBack then [] else writtenSince trace := by
  cases e <;> rfl

section Transaction
variable {stored : LastSeen} {now : ℕ} {t : Transaction}

namespace Transaction

/-- What a statement leaves, raised or not. -/
def left : Except Transaction Transaction → Transaction
  | .ok t => t
  | .error t => t

theorem Accounted.execute (h : t.Accounted stored now) (errors : ℕ → Option DbError) (w : Write) :
    (left (t.execute stored errors w)).Accounted stored now := by
  obtain ⟨rfl, hrows⟩ := h
  unfold Transaction.execute
  cases errors t.count with
  | none =>
    refine ⟨rfl, fun key => ?_⟩
    cases w with
    | upsertResource k =>
      change Function.update t.rows k (some t.now) key =
        if key ∈ k :: writtenSince t.trace then some t.now else stored key
      by_cases hk : key = k
      · subst hk
        rw [Function.update_self, if_pos List.mem_cons_self]
      · rw [Function.update_of_ne hk, hrows]
        simp only [List.mem_cons, hk, false_or]
    | setInstanceState i => exact hrows key
  | some e =>
    refine ⟨rfl, fun key => ?_⟩
    change (if e.rollsBack then stored else t.rows) key =
      if key ∈ writtenSince (.failed e :: t.trace) then some t.now else stored key
    rw [writtenSince_failed]
    cases e.rollsBack with
    | true => simp
    | false => exact hrows key

theorem Accounted.executeAll (h : t.Accounted stored now) (errors : ℕ → Option DbError)
    (ws : List Write) : (left (t.executeAll stored errors ws)).Accounted stored now := by
  induction ws generalizing t with
  | nil => exact h
  | cons w ws ih =>
    have hone := h.execute errors w
    unfold Transaction.executeAll
    split
    · rename_i t' hok
      rw [hok] at hone
      exact ih hone
    · rename_i t' herr
      rw [herr] at hone
      exact hone

theorem Accounted.discover (h : t.Accounted stored now) (errors : ℕ → Option DbError)
    (d : Discoverer) : (t.discover stored errors d).Accounted stored now := by
  induction d generalizing t with
  | nil => exact h
  | cons call rest ih =>
    cases call with
    | none => exact h
    | some ws =>
      have hall := h.executeAll errors ws
      unfold Transaction.discover
      split
      · rename_i t' hok
        rw [hok] at hall
        exact ih hall
      · rename_i t' herr
        rw [herr] at hall
        exact hall

end Transaction

theorem Attempt.run_accounted (a : Attempt) (stored : LastSeen) :
    (a.run stored).Accounted stored a.now :=
  List.foldlRecOn _ _ ⟨rfl, fun key => rfl⟩ fun _ h d _ => h.discover a.errors d

end Transaction

section Cycle
variable {c : Cycle} {db : DiscoveryDb} {attempts : ℕ → Attempt} {left k : ℕ}

/-- The attempts made are those up to the first that no deadlock after its discoverers ends. -/
structure EndsAt (db : DiscoveryDb) (attempts : ℕ → Attempt) (left k m : ℕ) (r : CycleResult) :
    Prop where
  le : m ≤ left
  retried : ∀ j < m, (attempts (k + j)).finalError = some .deadlock
  ran : r.ran = (List.range (m + 1)).map fun j => (attempts (k + j)).run db.lastSeen
  ended : (attempts (k + m)).finalError = none ∧ r.ending = .committed ∧
      r.db = ⟨((attempts (k + m)).run db.lastSeen).rows, some (attempts (k + m)).now⟩ ∨
    r.ending = .failureRecorded ∧ ∃ e, (attempts (k + m)).finalError = some e ∧
      (e = .deadlock → m = left)

theorem settle_endsAt (h : (attempts k).finalError = some .deadlock → left = 0) :
    EndsAt db attempts left k 0 (settle db (attempts k)) := by
  unfold settle
  cases hfinal : (attempts k).finalError with
  | none => exact ⟨Nat.zero_le _, nofun, rfl, .inl ⟨hfinal, rfl, rfl⟩⟩
  | some e =>
    refine ⟨Nat.zero_le _, nofun, rfl, .inr ⟨rfl, e, hfinal, fun he => ?_⟩⟩
    exact (h (by rw [hfinal, he])).symm

theorem discoverFrom_endsAt (db : DiscoveryDb) (attempts : ℕ → Attempt) (left k : ℕ) :
    ∃ m, EndsAt db attempts left k m (discoverFrom db attempts left k) := by
  induction left generalizing k with
  | zero => exact ⟨0, settle_endsAt fun _ => rfl⟩
  | succ left ih =>
    unfold discoverFrom
    split
    · rename_i hdeadlock
      obtain ⟨m, hm⟩ := ih (k + 1)
      have hshift : ∀ j, k + 1 + j = k + (j + 1) := fun j => by omega
      refine ⟨m + 1, Nat.succ_le_succ hm.le, fun j hj => ?_, ?_, ?_⟩
      · cases j with
        | zero => exact hdeadlock
        | succ j => exact hshift j ▸ hm.retried j (Nat.lt_of_succ_lt_succ hj)
      · rw [List.range_succ_eq_map, List.map_cons, List.map_map, CycleResult.after, hm.ran]
        simp only [hshift]
        rfl
      · rw [← hshift m]
        rcases hm.ended with hdone | ⟨hfail, e, he, hleft⟩
        · exact .inl hdone
        · exact .inr ⟨hfail, e, he, fun hdead => congrArg Nat.succ (hleft hdead)⟩
    · rename_i hother
      exact ⟨0, settle_endsAt fun hdead => absurd hdead hother⟩

/-- The attempt a cycle commits is the committing one. -/
theorem EndsAt.committing_iff {m : ℕ} {r : CycleResult}
    (h : EndsAt db attempts (maxRetries - 1) 0 m r) :
    Committing attempts k ↔ r.ending = .committed ∧ k = m := by
  have hle := h.le
  have hretried : ∀ j < m, (attempts j).finalError = some .deadlock := fun j hj =>
    Nat.zero_add j ▸ h.retried j hj
  have hended := h.ended
  rw [Nat.zero_add] at hended
  unfold Committing
  rcases hended with ⟨hnone, hcommitted, -⟩ | ⟨hfailed, e, hsome, hlast⟩
  · constructor
    · rintro ⟨-, hk, hbefore⟩
      refine ⟨hcommitted, Nat.le_antisymm (Nat.le_of_not_lt fun hlt => ?_)
        (Nat.le_of_not_lt fun hlt => ?_)⟩
      · cases hnone.symm.trans (hbefore m hlt)
      · cases hk.symm.trans (hretried k hlt)
    · rintro ⟨-, rfl⟩
      exact ⟨Nat.lt_of_le_of_lt hle (by decide), hnone, hretried⟩
  · constructor
    · rintro ⟨hk, hnone, hbefore⟩
      exfalso
      rcases Nat.lt_trichotomy k m with hlt | rfl | hgt
      · cases hnone.symm.trans (hretried k hlt)
      · cases hnone.symm.trans hsome
      · have hdead := Option.some.inj (hsome.symm.trans (hbefore m hgt))
        have := hlast hdead
        omega
    · rintro ⟨hcommitted, -⟩
      cases hfailed.symm.trans hcommitted

/-- What the committing attempt stored. -/
theorem lastSeen_iff (hlater : ∀ key t, db.lastSeen key = some t → t < (attempts k).now)
    (key : ResourceKey) :
    ((attempts k).run db.lastSeen).rows key = some ((attempts k).run db.lastSeen).now ↔
      key ∈ writtenSince ((attempts k).run db.lastSeen).trace := by
  obtain ⟨hnow, hrows⟩ := (attempts k).run_accounted db.lastSeen
  rw [hrows, hnow]
  split
  · rename_i hmem
    exact iff_of_true rfl hmem
  · rename_i hnot
    refine iff_of_false (fun hseen => ?_) hnot
    exact absurd (hlater key _ hseen) (Nat.lt_irrefl _)

/-- A cycle is complete exactly if the attempt it commits went undisturbed. -/
theorem discovery_complete_iff (c : Cycle) :
    c.Complete ↔ ∀ k, Committing c.attempts k →
      ((c.attempts k).run c.db.lastSeen).Undisturbed := by
  obtain ⟨m, hm⟩ := discoverFrom_endsAt c.db c.attempts (maxRetries - 1) 0
  have hran : c.discoverAccount.ran =
      (List.range (m + 1)).map fun j => (c.attempts j).run c.db.lastSeen := by
    have hrange := hm.ran
    simp only [Nat.zero_add] at hrange
    exact hrange
  have hlength : c.discoverAccount.ran.length = m + 1 := by rw [hran]; simp
  have hlast : c.discoverAccount.ran.getLast? = some ((c.attempts m).run c.db.lastSeen) := by
    rw [hran, List.range_succ, List.map_append, List.map_singleton, List.getLast?_concat]
  have hstored : c.discoverAccount.ending = .committed →
      c.discoverAccount.db.lastSeen = ((c.attempts m).run c.db.lastSeen).rows := by
    intro hcommitted
    rcases hm.ended with ⟨-, -, hdb⟩ | ⟨hfailed, -⟩
    · rw [Nat.zero_add] at hdb
      exact congrArg DiscoveryDb.lastSeen hdb
    · cases hfailed.symm.trans hcommitted
  constructor
  · intro hcomplete k hk
    obtain ⟨hcommitted, rfl⟩ := hm.committing_iff.mp hk
    constructor
    · intro hdead
      have hat : c.discoverAccount.ran[k]? = some ((c.attempts k).run c.db.lastSeen) := by
        rw [hran]
        simp
      rcases hcomplete.answered k _ hat hdead with hmore | hfailed
      · omega
      · cases hfailed.symm.trans hcommitted
    · intro ws hws key hkey
      have hseen := hcomplete.stored hcommitted _ hlast ws hws key hkey
      rw [hstored hcommitted] at hseen
      exact (lastSeen_iff (c.later k) key).mp hseen
  · intro hall
    constructor
    · intro hcommitted t ht ws hws key hkey
      obtain rfl := Option.some.inj (hlast.symm.trans ht)
      rw [hstored hcommitted]
      have hcommitting := hm.committing_iff.mpr ⟨hcommitted, rfl⟩
      exact (lastSeen_iff (c.later m) key).mpr ((hall m hcommitting).2 ws hws key hkey)
    · intro i t hi hdead
      by_cases hcommitted : c.discoverAccount.ending = .committed
      · refine .inl ?_
        by_contra hlate
        have him : i = m := by
          have := (List.getElem?_eq_some_iff.mp hi).1
          omega
        subst him
        rw [hran] at hi
        have hself : (c.attempts i).run c.db.lastSeen = t := by simpa using hi
        exact (hall i (hm.committing_iff.mpr ⟨hcommitted, rfl⟩)).1 (hself ▸ hdead)
      · refine .inr ?_
        cases hending : c.discoverAccount.ending with
        | committed => exact absurd hending hcommitted
        | failureRecorded => rfl

end Cycle

/-- The second discoverer of the account meets a deadlock as it writes its first volume. -/
def deadlockedCycle : Cycle where
  db := ⟨fun _ => none, none⟩
  attempts _ :=
    { now := 1
      answers := ⟨[some [⟨"i-1", [], []⟩]], [some [⟨"vol-9", false⟩]], []⟩
      errors := fun n => if n = 2 then some .deadlock else none
      finalError := none }
  later := nofun

/-- The instance that was written before is lost, and the cycle is committed all the same. -/
theorem deadlock_commits_incomplete : deadlockedCycle.discoverAccount.ending = .committed ∧
    deadlockedCycle.discoverAccount.db.lastDiscoveredAt = some 1 ∧
    deadlockedCycle.discoverAccount.db.lastSeen ⟨"ec2", "i-1"⟩ = none ∧
    ¬ deadlockedCycle.Complete := by
  refine ⟨rfl, rfl, rfl, fun hcomplete => ?_⟩
  have hseen := hcomplete.stored rfl _ rfl _ List.mem_cons_self ⟨"ec2", "i-1"⟩ List.mem_cons_self
  cases hseen

end MonitoringHub.Discovery
