import Mathlib.Data.List.Sort
import MonitoringHub.HostAgent.DiskQueue
import MonitoringHub.HostAgent.RetryPacing
import MonitoringHub.Lib.Text

/-! The buffer across restarts. The index is in memory and the payloads are in files, so what an
agent finds when it starts is what the names of the files say. It may be killed between any two
calls of the operating system; the calls themselves succeed. -/

namespace MonitoringHub.HostAgent
open Lib

abbrev Directory := List (String × Body)

/-- What `Peek` hands out. -/
structure Entry where
  seq : ℤ
  sentAt : ℤ
  body : Body
  deriving DecidableEq, Repr

structure AgedQueue extends Queue where
  maxAge : ℕ
  expired : ℕ

/-- `sort.Slice` by the number; entries of one number come in some order. -/
abbrev SeqSort := { sort : List Item → List Item //
  ∀ items, (sort items).Perm items ∧ ((sort items).map (·.seq)).Pairwise (· ≤ ·) }

def defaultMaxBytes : ℕ := 20 <<< 20
def defaultMaxAge : ℕ := 23 * 3600 * second

def isTemporary (name : String) : Bool := Text.startsWith name ".tmp-"

/-- The name is cut at its first underscore, without its tail. -/
def parseName (name : String) : Option (ℤ × ℤ) :=
  if ".q".toList <:+ name.toList then
    let base := name.toList.take (name.toList.length - 2)
    match base.dropWhile (· ≠ '_') with
    | [] => none
    | _ :: rest =>
      (atoi (base.takeWhile (· ≠ '_'))).bind fun seq => (atoi rest).map fun sentAt => (seq, sentAt)
  else none

/-- The entry that `Open` makes of a file; it asks for the size. -/
def indexed (reads : String → Bool) (file : String × Body) : Option Item :=
  if isTemporary file.1 then none
  else
    (parseName file.1).bind fun id =>
      if reads file.1 then some ⟨file.1, id.1, id.2, file.2.length⟩ else none

/-- What is left of a directory once its first `listed` files were looked at. -/
def sweepTemporary (removes : String → Bool) (listed : ℕ) (files : Directory) : Directory :=
  ((files.take listed).filter fun file => !(isTemporary file.1 && removes file.1)) ++
    files.drop listed

/-- `Open`, before it drops what the budget has no room for. -/
def Queue.listed (sort : SeqSort) (removes reads : String → Bool) (maxBytes : ℤ)
    (files : Directory) : Queue where
  maxBytes := if maxBytes ≤ 0 then defaultMaxBytes else maxBytes.toNat
  items := sort.1 (files.filterMap (indexed reads))
  total := ((sort.1 (files.filterMap (indexed reads))).map (·.size)).sum
  dropped := 0
  files := sweepTemporary removes files.length files
  accounted := rfl
  ascending := (sort.2 _).2

namespace AgedQueue

/-- `Open` -/
def opened (sort : SeqSort) (removes reads : String → Bool) (maxBytes maxAge : ℤ)
    (files : Directory) : AgedQueue where
  toQueue := (Queue.listed sort removes reads maxBytes files).evict removes 0
  maxAge := if maxAge ≤ 0 then defaultMaxAge else maxAge.toNat
  expired := 0

def readFile (reads : String → Bool) (name : String) (files : Directory) : Option Body :=
  if reads name then KeyedStore.find name files else none

/-- The loop of `Peek`; no more rounds than entries are needed. -/
def peekRounds (removes reads : String → Bool) (cutoff : ℤ) :
    ℕ → AgedQueue → Option Entry × AgedQueue
  | 0, q => (none, q)
  | n + 1, q =>
    match q.items with
    | [] => (none, q)
    | it :: _ =>
      if it.sentAt < cutoff then
        peekRounds removes reads cutoff n ⟨q.removeAt removes 0, q.maxAge, q.expired + 1⟩
      else
        match readFile reads it.name q.files with
        | none | some [] =>
          peekRounds removes reads cutoff n ⟨q.dropOldest removes, q.maxAge, q.expired⟩
        | some (b :: body) => (some ⟨it.seq, it.sentAt, b :: body⟩, q)

/-- `now().Add(-maxAge).Unix()` -/
def cutoff (now : ℤ) (q : AgedQueue) : ℤ := (now - q.maxAge) / second

def peek (removes reads : String → Bool) (now : ℤ) (q : AgedQueue) : Option Entry × AgedQueue :=
  peekRounds removes reads (q.cutoff now) q.items.length q

end AgedQueue

/-- A call of the operating system on a disk that has nothing wrong with it. -/
def succeeds : String → Bool := fun _ => true

/-- Where a kill finds the agent: between two calls, after some rounds of a loop, or with a
temporary file of which some bytes are written. -/
inductive KillPoint
  | idle
  | making (seq : ℤ) (size rounds : ℕ)
  | writing (seq : ℤ) (size : ℕ) (temporary : String) (content : Body)
  | peeking (now : ℤ) (rounds : ℕ)
  deriving DecidableEq

inductive SpoolEvent
  | start (maxBytes maxAge : ℤ)
  | sweepKilled (listed : ℕ)
  | startKilled (maxBytes : ℤ) (rounds : ℕ)
  | push (seq sentAt : ℤ) (body : Body)
  | peek (now : ℤ)
  | ack (seq : ℤ)
  | kill (point : KillPoint)
  deriving DecidableEq

/-- The agent's buffer: the directory alone, or with the process that has indexed it. -/
inductive Spool
  | down (files : Directory)
  | up (q : AgedQueue)

namespace Spool

def files : Spool → Directory
  | down files => files
  | up q => q.files

def isInt64 (n : ℤ) : Bool := -9223372036854775808 ≤ n && n ≤ 9223372036854775807

/-- The queue in memory when the kill comes. -/
def inMemory (q : AgedQueue) : KillPoint → Queue
  | .idle => q.toQueue
  | .making seq size rounds => (q.removeSeq succeeds seq).evictRounds succeeds size rounds
  | .writing seq size _ _ => (q.removeSeq succeeds seq).evict succeeds size
  | .peeking now rounds => (q.peekRounds succeeds succeeds (q.cutoff now) rounds).2.toQueue

/-- The directory that a killed agent leaves. -/
def leftBy (q : AgedQueue) (point : KillPoint) : Option Directory :=
  let files := (inMemory q point).files
  match point with
  | .idle | .peeking .. => some files
  | .making _ size _ => if size ≤ q.maxBytes then some files else none
  | .writing _ size temporary content =>
    if size ≤ q.maxBytes ∧ isTemporary temporary ∧ KeyedStore.find temporary files = none then
      some (KeyedStore.write temporary content files)
    else none

def step (sort : SeqSort) : Spool → SpoolEvent → Option Spool
  | down files, .start maxBytes maxAge =>
    some (up (AgedQueue.opened sort succeeds succeeds maxBytes maxAge files))
  | down files, .sweepKilled listed => some (down (sweepTemporary succeeds listed files))
  | down files, .startKilled maxBytes rounds =>
    some (down ((Queue.listed sort succeeds succeeds maxBytes files).evictRounds
      succeeds 0 rounds).files)
  | up q, .push seq sentAt body =>
    if isInt64 seq && isInt64 sentAt then
      some (up ⟨(q.toQueue.push healthyDisk seq sentAt body).2, q.maxAge, q.expired⟩)
    else none
  | up q, .peek now => some (up (q.peek succeeds succeeds now).2)
  | up q, .ack seq => some (up ⟨q.toQueue.removeSeq succeeds seq, q.maxAge, q.expired⟩)
  | up q, .kill point => (leftBy q point).map down
  | _, _ => none

end Spool

section Names
variable {seq sentAt n : ℤ} {width : ℕ} {cs : List Char}

theorem isDigit_leftpad {m : ℕ} {c : Char} (h : c ∈ List.leftpad width '0' (Nat.toDigits 10 m)) :
    c.isDigit = true := by
  rcases List.mem_append.mp h with hzero | h
  · rw [List.eq_of_mem_replicate hzero]
    rfl
  · exact Nat.isDigit_of_mem_toDigits (by decide) (by decide) h

theorem digitsValue_leftpad (width m : ℕ) :
    digitsValue (List.leftpad width '0' (Nat.toDigits 10 m)) = some m := by
  have hfull : (List.leftpad width '0' (Nat.toDigits 10 m)).isEmpty = false :=
    List.isEmpty_eq_false_iff.mpr (List.append_ne_nil_of_right_ne_nil _ Nat.toDigits_ne_nil)
  have hvalue : Nat.ofDigitChars 10 (List.leftpad width '0' (Nat.toDigits 10 m)) 0 = m := by
    rw [List.leftpad, Nat.ofDigitChars_append, Nat.ofDigitChars_replicate_zero, Nat.mul_zero,
      Nat.ofDigitChars_ten_toDigits]
  rw [digitsValue, hfull, List.all_eq_true.mpr fun c => isDigit_leftpad]
  exact congrArg some hvalue

theorem leftpad_ne_cons {m : ℕ} {c : Char} (hc : c.isDigit = false) (rest : List Char) :
    List.leftpad width '0' (Nat.toDigits 10 m) ≠ c :: rest := by
  intro heq
  have hdigit : c.isDigit = true := isDigit_leftpad (heq ▸ List.mem_cons_self)
  rw [hc] at hdigit
  cases hdigit

/-- `%0*d` is read back. -/
theorem atoi_zeroPadded (width : ℕ) (h : Spool.isInt64 n = true) :
    atoi (zeroPadded width n).toList = some n := by
  obtain ⟨hlow, hhigh⟩ : -9223372036854775808 ≤ n ∧ n ≤ 9223372036854775807 := by
    simpa [Spool.isInt64] using h
  unfold zeroPadded
  split
  · rename_i hneg
    have hvalue : -Int.ofNat n.natAbs = n := by
      rw [Int.ofNat_eq_natCast]
      omega
    rw [String.toList_ofList, atoi, digitsValue_leftpad, Option.map_some, Option.bind_some, hvalue,
      if_pos ⟨hlow, hhigh⟩]
  · rename_i hpos
    have hvalue : Int.ofNat n.natAbs = n := by
      rw [Int.ofNat_eq_natCast]
      omega
    rw [String.toList_ofList]
    unfold atoi
    split
    · exact absurd ‹_› (leftpad_ne_cons (by decide) _)
    · exact absurd ‹_› (leftpad_ne_cons (by decide) _)
    · rw [digitsValue_leftpad, Option.map_some, Option.bind_some, hvalue, if_pos ⟨hlow, hhigh⟩]

theorem mem_zeroPadded {c : Char} (h : c ∈ (zeroPadded width n).toList) :
    c = '-' ∨ c.isDigit = true := by
  unfold zeroPadded at h
  split at h
  · rw [String.toList_ofList] at h
    exact (List.mem_cons.mp h).imp_right isDigit_leftpad
  · rw [String.toList_ofList] at h
    exact .inr (isDigit_leftpad h)

theorem zeroPadded_ne_nil (width : ℕ) (n : ℤ) : (zeroPadded width n).toList ≠ [] := by
  unfold zeroPadded
  split
  · rw [String.toList_ofList]
    exact List.cons_ne_nil _ _
  · rw [String.toList_ofList]
    exact List.append_ne_nil_of_right_ne_nil _ Nat.toDigits_ne_nil

theorem fileName_toList (seq sentAt : ℤ) : (fileName seq sentAt).toList =
    (zeroPadded 20 seq).toList ++ '_' :: ((zeroPadded 12 sentAt).toList ++ ['.', 'q']) := by
  simp [fileName, String.toList_append]

/-- A name gives its numbers back. -/
theorem parseName_fileName (hseq : Spool.isInt64 seq = true) (hsent : Spool.isInt64 sentAt = true) :
    parseName (fileName seq sentAt) = some (seq, sentAt) := by
  have hsplit : (fileName seq sentAt).toList =
      ((zeroPadded 20 seq).toList ++ '_' :: (zeroPadded 12 sentAt).toList) ++ ".q".toList := by
    rw [fileName_toList]
    simp
  have hbase : (fileName seq sentAt).toList.take ((fileName seq sentAt).toList.length - 2) =
      (zeroPadded 20 seq).toList ++ '_' :: (zeroPadded 12 sentAt).toList := by
    rw [hsplit, List.length_append]
    exact List.take_left' rfl
  have hplain : ∀ c ∈ (zeroPadded 20 seq).toList, decide (c ≠ '_') = true := by
    refine fun c hc => decide_eq_true fun heq => ?_
    rcases mem_zeroPadded (heq ▸ hc) with h | h <;> cases h
  rw [parseName, if_pos ⟨_, hsplit.symm⟩]
  simp only [hbase, List.dropWhile_append_of_pos hplain, List.takeWhile_append_of_pos hplain]
  simp [atoi_zeroPadded 20 hseq, atoi_zeroPadded 12 hsent]

theorem isTemporary_fileName (seq sentAt : ℤ) : isTemporary (fileName seq sentAt) = false := by
  refine decide_eq_false fun ⟨rest, hrest⟩ => ?_
  obtain ⟨d, ds, hd⟩ := List.exists_cons_of_ne_nil (zeroPadded_ne_nil 20 seq)
  rw [fileName_toList, hd] at hrest
  have hdot : '.' = d := (List.cons.inj hrest).1
  have hmem : '.' ∈ (zeroPadded 20 seq).toList := by
    rw [hd, hdot]
    exact List.mem_cons_self
  rcases mem_zeroPadded hmem with h | h <;> cases h

end Names

section Index
variable {files : Directory} {items : List Item} {it : Item} {i : ℕ} {name : String} {body : Body}

theorem indexed_name {file : String × Body} (h : indexed succeeds file = some it) :
    it.name = file.1 ∧ isTemporary file.1 = false ∧
      parseName file.1 = some (it.seq, it.sentAt) := by
  unfold indexed at h
  split at h
  · cases h
  · rename_i hplain
    obtain ⟨id, hid, h⟩ := Option.bind_eq_some_iff.mp h
    obtain rfl := Option.some.inj h
    exact ⟨rfl, Bool.not_eq_true _ ▸ hplain, hid⟩

/-- The index says what the directory says, and no two entries share a number. -/
structure Indexed (files : Directory) (items : List Item) : Prop where
  names : KeyedStore.Distinct files
  listed : (files.filterMap (indexed succeeds)).Perm items
  numbers : (items.map (·.seq)).Nodup

theorem Indexed.item_names (h : Indexed files items) : (items.map (·.name)).Nodup := by
  have hkeys : ((files.filterMap (indexed succeeds)).map (·.name)).Sublist
      (KeyedStore.keys files) := by
    clear h
    induction files with
    | nil => exact .slnil
    | cons file files ih =>
      rw [List.filterMap_cons]
      split
      · exact ih.cons _
      · rename_i it hit
        rw [List.map_cons, (indexed_name hit).1]
        exact ih.cons₂ _
  exact (h.listed.map _).nodup_iff.mp (h.names.sublist hkeys)

/-- A file goes away with its entry. -/
theorem Indexed.erase (h : Indexed files items) (hi : items[i]? = some it) :
    Indexed (KeyedStore.dropWhere (· = it.name) files) (items.eraseIdx i) := by
  obtain ⟨hlt, rfl⟩ := List.getElem?_eq_some_iff.mp hi
  have hperm : (items[i] :: items.eraseIdx i).Perm items := List.getElem_cons_eraseIdx_perm hlt
  have hother : ∀ other ∈ items.eraseIdx i, other.name ≠ items[i].name := by
    have hnames := (hperm.map (·.name)).nodup_iff.mpr h.item_names
    exact fun other hmem heq => (List.nodup_cons.mp hnames).1 (List.mem_map.mpr ⟨other, hmem, heq⟩)
  have hfilter : (KeyedStore.dropWhere (· = items[i].name) files).filterMap (indexed succeeds) =
      (files.filterMap (indexed succeeds)).filter
        fun other => !decide (other.name = items[i].name) := by
    rw [KeyedStore.dropWhere, List.filterMap_filter, List.filter_filterMap]
    refine List.filterMap_congr fun file _ => ?_
    cases hfile : indexed succeeds file with
    | none => split <;> rfl
    | some other =>
      rw [Option.filter_some, (indexed_name hfile).1]
  refine ⟨h.names.dropWhere _, ?_, ?_⟩
  · rw [hfilter]
    refine ((h.listed.trans hperm.symm).filter _).trans ?_
    rw [List.filter_cons_of_neg (by simp), List.filter_eq_self.mpr fun other hmem => by
      simpa using hother other hmem]
  · exact h.numbers.sublist ((List.eraseIdx_sublist items i).map _)

/-- A file comes with its entry. -/
theorem Indexed.write (h : Indexed files items) {seq sentAt : ℤ} {items' : List Item}
    (hparse : parseName name = some (seq, sentAt)) (hplain : isTemporary name = false)
    (hnew : seq ∉ items.map (·.seq))
    (hperm : items'.Perm (⟨name, seq, sentAt, body.length⟩ :: items)) :
    Indexed (KeyedStore.write name body files) items' := by
  have hfile (body : Body) : indexed succeeds (name, body) =
      some ⟨name, seq, sentAt, body.length⟩ := by
    rw [indexed, hplain, hparse]
    rfl
  have habsent : KeyedStore.dropWhere (· = name) files = files := by
    refine List.filter_eq_self.mpr fun file hmem => ?_
    simp only [Bool.not_eq_true', decide_eq_false_iff_not]
    rintro rfl
    exact hnew (List.mem_map.mpr
      ⟨_, h.listed.mem_iff.mp (List.mem_filterMap.mpr ⟨file, hmem, hfile file.2⟩), rfl⟩)
  refine ⟨h.names.write _ _, ?_,
    (hperm.map _).nodup_iff.mpr (List.nodup_cons.mpr ⟨hnew, h.numbers⟩)⟩
  rw [KeyedStore.write, habsent, List.filterMap_cons_some (hfile body)]
  exact (h.listed.cons _).trans hperm.symm

/-- Temporary files do not count. -/
theorem Indexed.write_temporary (h : Indexed files items) (htemp : isTemporary name = true) :
    Indexed (KeyedStore.write name body files) items := by
  have hnone (body : Body) : indexed succeeds (name, body) = none := if_pos htemp
  have hkept : (KeyedStore.dropWhere (· = name) files).filterMap (indexed succeeds) =
      files.filterMap (indexed succeeds) := by
    rw [KeyedStore.dropWhere, List.filterMap_filter]
    refine List.filterMap_congr fun file _ => ?_
    by_cases hname : file.1 = name
    · rw [if_neg (by simp [hname])]
      exact (hname ▸ hnone file.2).symm
    · rw [if_pos (by simp [hname])]
  refine ⟨h.names.write _ _, ?_, h.numbers⟩
  rw [KeyedStore.write, List.filterMap_cons_none (hnone body), hkept]
  exact h.listed

theorem sweep_sublist (n : ℕ) (files : Directory) :
    (sweepTemporary succeeds n files).Sublist files := by
  have hsub := (List.filter_sublist (p := fun file : String × Body =>
    !(isTemporary file.1 && succeeds file.1)) (l := files.take n)).append_right (files.drop n)
  rwa [List.take_append_drop] at hsub

theorem Indexed.sweep (h : Indexed files items) (n : ℕ) :
    Indexed (sweepTemporary succeeds n files) items := by
  have hkept (l : Directory) :
      (l.filter fun file => !(isTemporary file.1 && succeeds file.1)).filterMap
      (indexed succeeds) = l.filterMap (indexed succeeds) := by
    rw [List.filterMap_filter]
    refine List.filterMap_congr fun file _ => ?_
    cases htemp : isTemporary file.1 with
    | false => rfl
    | true => exact (if_pos htemp).symm
  refine ⟨h.names.sublist ((sweep_sublist n files).map _), ?_, h.numbers⟩
  rw [sweepTemporary, List.filterMap_append, hkept, ← List.filterMap_append,
    List.take_append_drop]
  exact h.listed

/-- Only one list in ascending order is an index of a directory. -/
theorem Indexed.unique {items' : List Item} (h : Indexed files items)
    (hsorted : (items.map (·.seq)).Pairwise (· ≤ ·)) (hperm : items'.Perm items)
    (hsorted' : (items'.map (·.seq)).Pairwise (· ≤ ·)) : items' = items := by
  refine hperm.eq_of_pairwise (fun a b ha hb hab hba => ?_) (List.pairwise_map.mp hsorted')
    (List.pairwise_map.mp hsorted)
  exact List.inj_on_of_nodup_map h.numbers (hperm.mem_iff.mp ha) hb (Int.le_antisymm hab hba)

end Index

/-- What calls that only remove entries leave. -/
structure Shrunk (q q' : Queue) : Prop where
  budget : q'.maxBytes = q.maxBytes
  total : q'.total ≤ q.total
  items : q'.items.Sublist q.items
  files : q'.files.Sublist q.files
  index : Indexed q.files q.items → Indexed q'.files q'.items

theorem Shrunk.refl (q : Queue) : Shrunk q q := ⟨rfl, Nat.le_refl _, .refl _, .refl _, id⟩

theorem Shrunk.trans {q q' q'' : Queue} (h : Shrunk q q') (h' : Shrunk q' q'') : Shrunk q q'' :=
  ⟨h'.budget.trans h.budget, h'.total.trans h.total, h'.items.trans h.items, h'.files.trans h.files,
    h'.index ∘ h.index⟩

namespace Queue
variable {q : Queue} {seq sentAt : ℤ} {body : Body}

theorem removeAt_shrunk (q : Queue) (i : ℕ) : Shrunk q (q.removeAt succeeds i) := by
  unfold removeAt
  split
  · exact .refl q
  · rename_i it hit
    exact ⟨rfl, Nat.sub_le _ _, List.eraseIdx_sublist _ _, List.filter_sublist,
      fun h => h.erase hit⟩

theorem dropOldest_shrunk (q : Queue) : Shrunk q (q.dropOldest succeeds) :=
  let h := q.removeAt_shrunk 0
  ⟨h.budget, h.total, h.items, h.files, h.index⟩

theorem removeSeq_shrunk (q : Queue) (seq : ℤ) : Shrunk q (q.removeSeq succeeds seq) := by
  unfold removeSeq
  split
  · exact .refl q
  · exact q.removeAt_shrunk _

theorem evictRounds_shrunk (incoming n : ℕ) (q : Queue) :
    Shrunk q (q.evictRounds succeeds incoming n) := by
  induction n generalizing q with
  | zero => exact .refl q
  | succ n ih =>
    rw [evictRounds]
    split
    · exact q.dropOldest_shrunk.trans (ih _)
    · exact .refl q

theorem not_mem_removeSeq (h : Indexed q.files q.items) (seq : ℤ) :
    seq ∉ (q.removeSeq succeeds seq).items.map (·.seq) := by
  unfold removeSeq
  split
  · rename_i hnone
    intro hmem
    obtain ⟨it, hit, hseq⟩ := List.mem_map.mp hmem
    simpa [hseq] using List.findIdx?_eq_none_iff.mp hnone it hit
  · rename_i i hfound
    obtain ⟨hlt, hseq, -⟩ := List.findIdx?_eq_some_iff_getElem.mp hfound
    have hperm := (List.getElem_cons_eraseIdx_perm hlt).map (·.seq)
    have hnew : q.items[i].seq ∉ (q.items.eraseIdx i).map (·.seq) :=
      (List.nodup_cons.mp (hperm.nodup_iff.mpr h.numbers)).1
    rw [of_decide_eq_true hseq] at hnew
    have hitems : (q.removeAt succeeds i).items = q.items.eraseIdx i := by
      unfold removeAt
      split
      · rename_i hnone
        exact absurd hlt (by simpa using hnone)
      · rfl
    rwa [hitems]

/-- Rounds enough for every entry make room for what fits at all. -/
theorem evictRounds_room {incoming n : ℕ} (hfits : incoming ≤ q.maxBytes)
    (hn : q.items.length ≤ n) :
    (q.evictRounds succeeds incoming n).total + incoming ≤ q.maxBytes := by
  induction n generalizing q with
  | zero =>
    have htotal : q.total = 0 := by
      rw [q.accounted, List.length_eq_zero_iff.mp (Nat.le_zero.mp hn)]
      rfl
    simpa [evictRounds, htotal] using hfits
  | succ n ih =>
    rw [evictRounds]
    split
    · rename_i hover
      have hone : (q.dropOldest succeeds).items.length + 1 = q.items.length :=
        dropOldest_length hover.1
      have hbudget : (q.dropOldest succeeds).maxBytes = q.maxBytes := q.dropOldest_shrunk.budget
      rw [← hbudget]
      exact ih (hbudget ▸ hfits) (by omega)
    · rename_i hstop
      by_cases hempty : q.items = []
      · have htotal : q.total = 0 := by
          rw [q.accounted, hempty]
          rfl
        omega
      · exact Nat.le_of_not_lt fun hover => hstop ⟨hempty, hover⟩

/-- A push on a healthy disk: refused, or room is made and the payload takes its place. -/
theorem push_healthy (q : Queue) (seq sentAt : ℤ) (body : Body) :
    (q.push healthyDisk seq sentAt body).2 =
      if q.maxBytes < body.length then q
      else ((q.removeSeq succeeds seq).evict succeeds body.length).insert
        ⟨fileName seq sentAt, seq, sentAt, body.length⟩ body := by
  unfold push
  split <;> rfl

theorem push_indexed (h : Indexed q.files q.items) (hseq : Spool.isInt64 seq = true)
    (hsent : Spool.isInt64 sentAt = true) :
    Indexed (q.push healthyDisk seq sentAt body).2.files
      (q.push healthyDisk seq sentAt body).2.items := by
  rw [push_healthy]
  split
  · exact h
  · have hroom := (removeSeq_shrunk q seq).trans (evictRounds_shrunk body.length
      (q.removeSeq succeeds seq).items.length (q.removeSeq succeeds seq))
    have hnew : seq ∉ ((q.removeSeq succeeds seq).evict succeeds body.length).items.map (·.seq) :=
      fun hmem => not_mem_removeSeq h seq
        (((evictRounds_shrunk _ _ _).items.map _).subset hmem)
    refine (hroom.index h).write (parseName_fileName hseq hsent) (isTemporary_fileName _ _) hnew ?_
    refine List.perm_middle.trans (.cons _ ?_)
    rw [List.takeWhile_append_dropWhile]
    exact .refl _

end Queue

namespace AgedQueue
variable {q q' : AgedQueue} {now limit : ℤ} {n : ℕ} {e : Entry}

theorem peekRounds_shrunk (limit : ℤ) (n : ℕ) (q : AgedQueue) :
    Shrunk q.toQueue (q.peekRounds succeeds succeeds limit n).2.toQueue := by
  induction n generalizing q with
  | zero => exact .refl _
  | succ n ih =>
    rw [peekRounds]
    split
    · exact .refl _
    · split
      · exact (q.removeAt_shrunk 0).trans (ih ⟨_, _, _⟩)
      · split
        · exact q.dropOldest_shrunk.trans (ih ⟨_, _, _⟩)
        · exact q.dropOldest_shrunk.trans (ih ⟨_, _, _⟩)
        · exact .refl _

/-- An entry that `Peek` passes over: too old, or there is nothing in its file. -/
def Skipped (files : Directory) (limit : ℤ) (it : Item) : Prop :=
  it.sentAt < limit ∨ ∀ body, KeyedStore.find it.name files = some body → body = []

/-- What one round removes is the first entry, and the other files stay. -/
theorem removeAt_zero {q : Queue} {it : Item} {rest : List Item} (h : Indexed q.files q.items)
    (hitems : q.items = it :: rest) : (q.removeAt succeeds 0).items = rest ∧
      ∀ other ∈ rest, KeyedStore.find other.name (q.removeAt succeeds 0).files =
        KeyedStore.find other.name q.files := by
  have hget : q.items[0]? = some it := by rw [hitems, List.getElem?_cons_zero]
  have hremove : (q.removeAt succeeds 0).items = rest ∧
      (q.removeAt succeeds 0).files = KeyedStore.dropWhere (· = it.name) q.files := by
    unfold Queue.removeAt
    split
    · rename_i hnone
      rw [hget] at hnone
      cases hnone
    · rename_i other hother
      obtain rfl := Option.some.inj (hother.symm.trans hget)
      exact ⟨congrArg (List.eraseIdx · 0) hitems, rfl⟩
  refine ⟨hremove.1, fun other hmem => ?_⟩
  have hnames := h.item_names
  rw [hitems] at hnames
  have hne : other.name ≠ it.name := fun heq =>
    (List.nodup_cons.mp hnames).1 (List.mem_map.mpr ⟨other, hmem, heq⟩)
  rw [hremove.2, KeyedStore.find_dropWhere, if_neg (by simpa using hne)]

theorem readFile_succeeds (name : String) (files : Directory) :
    readFile succeeds name files = KeyedStore.find name files := if_pos rfl

theorem peekRounds_some (h : Indexed q.files q.items)
    (hpeek : q.peekRounds succeeds succeeds limit n = (some e, q')) :
    ∃ skipped it rest, q.items = skipped ++ it :: rest ∧ q'.items = it :: rest ∧
      (∀ it ∈ skipped, Skipped q.files limit it) ∧ e.seq = it.seq ∧ e.sentAt = it.sentAt ∧
      limit ≤ it.sentAt ∧ KeyedStore.find it.name q.files = some e.body := by
  induction n generalizing q with
  | zero => cases hpeek
  | succ n ih =>
    rw [peekRounds] at hpeek
    cases hitems : q.items with
    | nil =>
      rw [hitems] at hpeek
      cases hpeek
    | cons it rest =>
      rw [hitems] at hpeek
      obtain ⟨hrest, hfiles⟩ := removeAt_zero h hitems
      -- a round that passes over the first entry
      have hround {q₁ : AgedQueue} (hq₁ : q₁.items = rest)
          (hsame : q₁.files = (q.toQueue.removeAt succeeds 0).files)
          (hskip : Skipped q.files limit it)
          (hpeek : q₁.peekRounds succeeds succeeds limit n = (some e, q')) :
          ∃ skipped it' rest', it :: rest = skipped ++ it' :: rest' ∧ q'.items = it' :: rest' ∧
            (∀ it ∈ skipped, Skipped q.files limit it) ∧ e.seq = it'.seq ∧ e.sentAt = it'.sentAt ∧
            limit ≤ it'.sentAt ∧ KeyedStore.find it'.name q.files = some e.body := by
        have hindex : Indexed q₁.files q₁.items := by
          rw [hsame, hq₁, ← hrest]
          exact (q.removeAt_shrunk 0).index h
        obtain ⟨skipped, it', rest', hsplit, hq', hskipped, hseq, hsent, hlimit, hfind⟩ :=
          ih hindex hpeek
        rw [hq₁] at hsplit
        have hmem : it' ∈ rest := hsplit ▸ List.mem_append_right _ List.mem_cons_self
        refine ⟨it :: skipped, it', rest', by rw [hsplit, List.cons_append], hq', ?_, hseq, hsent,
          hlimit, by rw [← hfiles it' hmem, ← hsame, hfind]⟩
        intro other hother
        rcases List.mem_cons.mp hother with rfl | hother
        · exact hskip
        · have hother' : other ∈ rest := hsplit ▸ List.mem_append_left _ hother
          refine (hskipped other hother).imp_right fun hempty body hbody => hempty body ?_
          rw [hsame, hfiles other hother', hbody]
      dsimp only at hpeek
      split at hpeek
      · rename_i hold
        exact hround hrest rfl (.inl hold) hpeek
      · rename_i hyoung
        split at hpeek
        · rename_i hread
          exact hround hrest rfl (.inr fun body hbody => by
            rw [readFile_succeeds, hbody] at hread
            cases hread) hpeek
        · rename_i hread
          exact hround hrest rfl (.inr fun body hbody => by
            rw [readFile_succeeds, hbody] at hread
            exact Option.some.inj hread) hpeek
        · rename_i b body hread
          obtain ⟨he, rfl⟩ := Prod.mk.inj hpeek
          obtain rfl := Option.some.inj he
          rw [readFile_succeeds] at hread
          exact ⟨[], it, rest, rfl, hitems, (fun _ h => absurd h List.not_mem_nil), rfl, rfl,
            Int.not_lt.mp hyoung, hread⟩

end AgedQueue

/-- A file that a push wrote. -/
def Pushed (tr : List SpoolEvent) (file : String × Body) : Prop :=
  ∃ seq sentAt, Spool.isInt64 seq = true ∧ Spool.isInt64 sentAt = true ∧
    file.1 = fileName seq sentAt ∧ .push seq sentAt file.2 ∈ tr

/-- What a run keeps. A process has no temporary file in its directory, and is within its budget. -/
inductive Sound (tr : List SpoolEvent) : Spool → Prop
  | down {files : Directory} (items : List Item) (index : Indexed files items)
    (written : ∀ file ∈ files, isTemporary file.1 = true ∨ Pushed tr file) : Sound tr (.down files)
  | up {q : AgedQueue} (index : Indexed q.files q.items)
    (written : ∀ file ∈ q.files, Pushed tr file) (budget : 0 < q.maxBytes)
    (within : q.total ≤ q.maxBytes) : Sound tr (.up q)

def byNumber : SeqSort :=
  ⟨List.insertionSort fun a b => a.seq ≤ b.seq, fun items =>
    have : Std.Total fun a b : Item => a.seq ≤ b.seq := ⟨fun a b => Int.le_total a.seq b.seq⟩
    have : IsTrans Item fun a b => a.seq ≤ b.seq := ⟨fun _ _ _ h h' => Int.le_trans h h'⟩
    ⟨List.perm_insertionSort _ items, List.pairwise_map.mpr (List.pairwise_insertionSort _ items)⟩⟩

def twoPushes : List SpoolEvent :=
  [.start 100 0, .push 1 1760000000 [1, 2], .push 2 1760000060 [3]]

def restarted : List SpoolEvent := twoPushes ++ [.kill .idle, .start 100 0]

section Runs
variable {sort : SeqSort} {tr : List SpoolEvent} {s t : Spool} {e : SpoolEvent} {q : AgedQueue}
  {files : Directory} {items : List Item} {maxBytes : ℤ} {point : KillPoint}

theorem Pushed.mono {file : String × Body} (h : Pushed tr file) (e : SpoolEvent) :
    Pushed (e :: tr) file := by
  obtain ⟨seq, sentAt, hseq, hsent, hname, hpush⟩ := h
  exact ⟨seq, sentAt, hseq, hsent, hname, List.mem_cons_of_mem _ hpush⟩

theorem Pushed.plain {file : String × Body} (h : Pushed tr file) : isTemporary file.1 = false := by
  obtain ⟨seq, sentAt, -, -, hname, -⟩ := h
  exact hname ▸ isTemporary_fileName seq sentAt

theorem sweep_plain {file : String × Body}
    (h : file ∈ sweepTemporary succeeds files.length files) : isTemporary file.1 = false := by
  rw [sweepTemporary, List.take_length, List.drop_length, List.append_nil] at h
  simpa [succeeds] using (List.mem_filter.mp h).2

theorem listed_indexed (sort : SeqSort) (maxBytes : ℤ) (h : Indexed files items) :
    Indexed (Queue.listed sort succeeds succeeds maxBytes files).files
      (Queue.listed sort succeeds succeeds maxBytes files).items := by
  have hswept := h.sweep files.length
  have hperm : ((Queue.listed sort succeeds succeeds maxBytes files).items).Perm items :=
    (sort.2 _).1.trans h.listed
  exact ⟨hswept.names, hswept.listed.trans hperm.symm, (hperm.map _).nodup_iff.mpr h.numbers⟩

theorem listed_budget (sort : SeqSort) (maxBytes : ℤ) (files : Directory) :
    0 < (Queue.listed sort succeeds succeeds maxBytes files).maxBytes := by
  dsimp only [Queue.listed]
  split
  · decide
  · omega

theorem opened_shrunk (sort : SeqSort) (maxBytes maxAge : ℤ) (files : Directory) :
    Shrunk (Queue.listed sort succeeds succeeds maxBytes files)
      (AgedQueue.opened sort succeeds succeeds maxBytes maxAge files).toQueue :=
  Queue.evictRounds_shrunk _ _ _

theorem inMemory_shrunk (q : AgedQueue) (point : KillPoint) :
    Shrunk q.toQueue (Spool.inMemory q point) := by
  cases point with
  | idle => exact .refl _
  | making seq size rounds => exact (q.removeSeq_shrunk seq).trans (Queue.evictRounds_shrunk _ _ _)
  | writing seq size => exact (q.removeSeq_shrunk seq).trans (Queue.evictRounds_shrunk _ _ _)
  | peeking now rounds => exact AgedQueue.peekRounds_shrunk _ _ _

/-- A kill leaves the files of the queue in memory, and perhaps a temporary one. -/
theorem leftBy_files (h : Spool.leftBy q point = some files) :
    files = (Spool.inMemory q point).files ∨ ∃ temporary content, isTemporary temporary = true ∧
      files = KeyedStore.write temporary content (Spool.inMemory q point).files := by
  cases point with
  | idle => exact .inl (Option.some.inj h).symm
  | peeking now rounds => exact .inl (Option.some.inj h).symm
  | making seq size rounds =>
    obtain ⟨-, h⟩ := Option.ite_none_right_eq_some.mp h
    exact .inl (Option.some.inj h).symm
  | writing seq size temporary content =>
    obtain ⟨hguard, h⟩ := Option.ite_none_right_eq_some.mp h
    exact .inr ⟨temporary, content, hguard.2.1, (Option.some.inj h).symm⟩

theorem Sound.shrunk {q' : AgedQueue} (index : Indexed q.files q.items)
    (written : ∀ file ∈ q.files, Pushed tr file) (budget : 0 < q.maxBytes)
    (within : q.total ≤ q.maxBytes) (h : Shrunk q.toQueue q'.toQueue) (e : SpoolEvent) :
    Sound (e :: tr) (.up q') :=
  .up (h.index index) (fun file hfile => (written file (h.files.subset hfile)).mono e)
    (h.budget ▸ budget) (h.total.trans (h.budget ▸ within))

theorem Sound.push (index : Indexed q.files q.items) (written : ∀ file ∈ q.files, Pushed tr file)
    (budget : 0 < q.maxBytes) (within : q.total ≤ q.maxBytes) {seq sentAt : ℤ} {body : Body}
    (hseq : Spool.isInt64 seq = true) (hsent : Spool.isInt64 sentAt = true) :
    Sound (.push seq sentAt body :: tr)
      (.up ⟨(q.toQueue.push healthyDisk seq sentAt body).2, q.maxAge, q.expired⟩) := by
  have hindexed : Indexed (q.toQueue.push healthyDisk seq sentAt body).2.files
      (q.toQueue.push healthyDisk seq sentAt body).2.items :=
    Queue.push_indexed index hseq hsent
  have hmade := (q.removeSeq_shrunk seq).trans (Queue.evictRounds_shrunk body.length
    (q.removeSeq succeeds seq).items.length (q.removeSeq succeeds seq))
  have hpush := Queue.push_healthy q.toQueue seq sentAt body
  by_cases hlarge : q.maxBytes < body.length
  · rw [if_pos hlarge] at hpush
    rw [hpush]
    exact .up index (fun file hfile => (written file hfile).mono _) budget within
  · rw [if_neg hlarge] at hpush
    have hfits : body.length ≤ (q.removeSeq succeeds seq).maxBytes := by
      rw [(q.removeSeq_shrunk seq).budget]
      exact Nat.le_of_not_lt hlarge
    have hroom := Queue.evictRounds_room hfits (Nat.le_refl _)
    rw [← (Queue.evictRounds_shrunk body.length _ (q.removeSeq succeeds seq)).budget] at hroom
    rw [hpush] at hindexed ⊢
    refine .up hindexed (fun file hfile => ?_) (hmade.budget ▸ budget) hroom
    rcases List.mem_cons.mp hfile with rfl | hfile
    · exact ⟨seq, sentAt, hseq, hsent, rfl, List.mem_cons_self⟩
    · exact (written file (hmade.files.subset (List.mem_filter.mp hfile).1)).mono _

theorem Sound.step (h : Sound tr s) (hstep : Spool.step sort s e = some t) : Sound (e :: tr) t := by
  cases h with
  | @down files items index written =>
    cases e with
    | start maxBytes maxAge =>
      obtain rfl := Option.some.inj hstep
      have hlisted := listed_indexed sort maxBytes index
      have hopened := opened_shrunk sort maxBytes maxAge files
      refine .up (hopened.index hlisted) (fun file hfile => ?_)
        (hopened.budget ▸ listed_budget sort maxBytes files) ?_
      · have hswept := hopened.files.subset hfile
        rcases written file ((sweep_sublist _ _).subset hswept) with htemp | hpushed
        · rw [sweep_plain hswept] at htemp
          cases htemp
        · exact hpushed.mono _
      · rw [hopened.budget]
        exact Queue.evictRounds_room (Nat.zero_le _) (Nat.le_refl _)
    | sweepKilled listed =>
      obtain rfl := Option.some.inj hstep
      exact .down items (index.sweep listed) fun file hfile =>
        (written file ((sweep_sublist listed _).subset hfile)).imp_right fun h => h.mono _
    | startKilled maxBytes rounds =>
      obtain rfl := Option.some.inj hstep
      have hrounds := Queue.evictRounds_shrunk 0 rounds
        (Queue.listed sort succeeds succeeds maxBytes files)
      exact .down _ (hrounds.index (listed_indexed sort maxBytes index)) fun file hfile =>
        (written file ((sweep_sublist _ _).subset (hrounds.files.subset hfile))).imp_right
          fun h => h.mono _
    | push | peek | ack | kill => cases hstep
  | @up q index written budget within =>
    cases e with
    | push seq sentAt body =>
      obtain ⟨hrange, hstep⟩ := Option.ite_none_right_eq_some.mp hstep
      obtain rfl := Option.some.inj hstep
      obtain ⟨hseq, hsent⟩ := Bool.and_eq_true_iff.mp hrange
      exact .push index written budget within hseq hsent
    | peek now =>
      obtain rfl := Option.some.inj hstep
      exact .shrunk index written budget within (AgedQueue.peekRounds_shrunk _ _ _) _
    | ack seq =>
      obtain rfl := Option.some.inj hstep
      exact .shrunk index written budget within (Queue.removeSeq_shrunk _ _) _
    | kill point =>
      obtain ⟨files, hleft, rfl⟩ := Option.map_eq_some_iff.mp hstep
      have hshrunk := inMemory_shrunk q point
      have hkept : ∀ file ∈ (Spool.inMemory q point).files, Pushed (.kill point :: tr) file :=
        fun file hfile => (written file (hshrunk.files.subset hfile)).mono _
      rcases leftBy_files hleft with rfl | ⟨temporary, content, htemp, rfl⟩
      · exact .down _ (hshrunk.index index) fun file hfile => .inr (hkept file hfile)
      · refine .down _ ((hshrunk.index index).write_temporary htemp) fun file hfile => ?_
        rcases List.mem_cons.mp hfile with rfl | hfile
        · exact .inl htemp
        · exact .inr (hkept file (List.mem_filter.mp hfile).1)
    | start | sweepKilled | startKilled => cases hstep

theorem spool_sound_of_run (run : Steps (Takes (Spool.step sort)) (.down []) tr s) : Sound tr s :=
  run.invariant (I := Sound) (.down [] ⟨.nil, .refl _, .nil⟩ fun _ h => absurd h List.not_mem_nil)
    fun _ _ _ _ h hstep => h.step hstep

/-- A directory without temporary files is listed as it is. -/
theorem sweep_self (h : ∀ file ∈ files, isTemporary file.1 = false) (n : ℕ) :
    sweepTemporary succeeds n files = files := by
  have htake : (files.take n).filter (fun file => !(isTemporary file.1 && succeeds file.1)) =
      files.take n :=
    List.filter_eq_self.mpr fun file hfile => by simp [h file (List.mem_of_mem_take hfile)]
  rw [sweepTemporary, htake, List.take_append_drop]

/-- A queue whose directory has nothing but its entries, in memory and as it is listed again. -/
theorem listed_self (q : Queue) (index : Indexed files q.items) (budget : 0 < q.maxBytes)
    (hfiles : sweepTemporary succeeds files.length files = q.files) :
    Queue.listed sort succeeds succeeds q.maxBytes files = { q with dropped := 0 } := by
  have hitems : sort.1 (files.filterMap (indexed succeeds)) = q.items :=
    index.unique q.ascending ((sort.2 _).1.trans index.listed) (sort.2 _).2
  have hbudget : (if (q.maxBytes : ℤ) ≤ 0 then defaultMaxBytes else (q.maxBytes : ℤ).toNat) =
      q.maxBytes := by
    rw [if_neg (by omega), Int.toNat_natCast]
  obtain ⟨maxBytes, items, total, dropped, listedFiles, rfl, ascending⟩ := q
  simp only [Queue.listed, hitems, hbudget, hfiles]

/-- Whenever an agent is killed, the next one starts with the queue that was in memory: the
entries, their files and the bytes they take. Only the counters begin again. -/
theorem restart_finds (run : Steps (Takes (Spool.step sort)) (.down []) tr (.up q))
    (hleft : Spool.leftBy q point = some files) (maxAge : ℤ) :
    (AgedQueue.opened sort succeeds succeeds q.maxBytes maxAge files).toQueue =
      { Spool.inMemory q point with dropped := 0 } := by
  obtain ⟨⟩ | ⟨index, written, budget, within⟩ := spool_sound_of_run run
  have hshrunk := inMemory_shrunk q point
  have hplain : ∀ file ∈ (Spool.inMemory q point).files, isTemporary file.1 = false :=
    fun file hfile => (written file (hshrunk.files.subset hfile)).plain
  have hleftFiles : Indexed files (Spool.inMemory q point).items ∧
      sweepTemporary succeeds files.length files = (Spool.inMemory q point).files := by
    rcases leftBy_files hleft with rfl | ⟨temporary, content, htemp, rfl⟩
    · exact ⟨hshrunk.index index, sweep_self hplain _⟩
    · refine ⟨(hshrunk.index index).write_temporary htemp, ?_⟩
      have hother : KeyedStore.dropWhere (· = temporary) (Spool.inMemory q point).files =
          (Spool.inMemory q point).files := by
        refine List.filter_eq_self.mpr fun file hfile => ?_
        simp only [Bool.not_eq_true', decide_eq_false_iff_not]
        rintro rfl
        rw [hplain file hfile] at htemp
        cases htemp
      rw [KeyedStore.write, hother, sweepTemporary, List.take_length, List.drop_length,
        List.append_nil, List.filter_cons_of_neg (by simp [htemp, succeeds])]
      exact List.filter_eq_self.mpr fun file hfile => by simp [hplain file hfile]
  have hlisted : Queue.listed sort succeeds succeeds q.maxBytes files =
      { Spool.inMemory q point with dropped := 0 } := by
    rw [← hshrunk.budget]
    exact listed_self _ hleftFiles.1 (hshrunk.budget ▸ budget) hleftFiles.2
  have hroom : (Spool.inMemory q point).total + 0 ≤ (Spool.inMemory q point).maxBytes :=
    hshrunk.total.trans (hshrunk.budget ▸ within)
  rw [AgedQueue.opened, hlisted]
  exact Queue.evictRounds_fits hroom

/-- Two payloads are buffered, and the agent is killed while it writes a third one's file. -/
theorem restart_finds_two : ∃ (q : AgedQueue) (files : Directory),
    Steps (Takes (Spool.step byNumber)) (.down []) twoPushes.reverse (.up q) ∧
      Spool.leftBy q (.writing 3 1 ".tmp-7" [4]) = some files ∧ q.items.map (·.seq) = [1, 2] ∧
      (AgedQueue.opened byNumber succeeds succeeds q.maxBytes 0 files).toQueue =
        { Spool.inMemory q (.writing 3 1 ".tmp-7" [4]) with dropped := 0 } := by
  obtain ⟨s, run, -, hs⟩ := exists_play (Spool.step byNumber) (.down []) twoPushes
    (fun s => match s with
      | .down _ => false
      | .up q => q.items.map (·.seq) = [1, 2] &&
        (Spool.leftBy q (.writing 3 1 ".tmp-7" [4])).isSome) (by decide +kernel)
  cases s with
  | down files => cases hs
  | up q =>
    obtain ⟨hseqs, hleft⟩ := Bool.and_eq_true_iff.mp hs
    obtain ⟨files, hfiles⟩ := Option.isSome_iff_exists.mp hleft
    exact ⟨q, files, run, hfiles, of_decide_eq_true hseqs, restart_finds run hfiles 0⟩

/-- What `Peek` hands out is, byte for byte, what was pushed under its number, before whatever
kills and restarts; only entries too old, or without bytes, stood before it. -/
theorem peek_pushed (run : Steps (Takes (Spool.step sort)) (.down []) tr (.up q)) {now : ℤ}
    {entry : Entry} {q' : AgedQueue} (hpeek : q.peek succeeds succeeds now = (some entry, q')) :
    .push entry.seq entry.sentAt entry.body ∈ tr ∧ q.cutoff now ≤ entry.sentAt ∧
      (∀ it ∈ q.items, it.seq < entry.seq → AgedQueue.Skipped q.files (q.cutoff now) it) ∧
      ∀ it ∈ q'.items, entry.seq ≤ it.seq := by
  obtain ⟨⟩ | ⟨index, written, budget, within⟩ := spool_sound_of_run run
  obtain ⟨skipped, it, rest, hitems, hitems', hskipped, hseq, hsent, hlimit, hfind⟩ :=
    AgedQueue.peekRounds_some index hpeek
  have hascending := q.ascending
  rw [hitems, List.map_append, List.map_cons] at hascending
  have hafter := (List.pairwise_cons.mp (List.pairwise_append.mp hascending).2.1).1
  refine ⟨?_, hsent ▸ hlimit, fun other hother hless => ?_, fun other hother => ?_⟩
  · have hfile := KeyedStore.mem_of_find hfind
    obtain ⟨seq, sentAt, hrange, hrange', hname, hpush⟩ := written _ hfile
    have hit : it ∈ q.items := hitems ▸ List.mem_append_right _ List.mem_cons_self
    obtain ⟨file, hmem, hindexed⟩ := List.mem_filterMap.mp (index.listed.mem_iff.mpr hit)
    obtain ⟨hfileName, -, hparse⟩ := indexed_name hindexed
    rw [← hfileName, show it.name = fileName seq sentAt from hname,
      parseName_fileName hrange hrange'] at hparse
    obtain ⟨rfl, rfl⟩ := Prod.mk.inj (Option.some.inj hparse)
    rw [hseq, hsent]
    exact hpush
  · rw [hitems] at hother
    rcases List.mem_append.mp hother with hother | hother
    · exact hskipped other hother
    · have hle : it.seq ≤ other.seq := by
        rcases List.mem_cons.mp hother with rfl | hother
        · exact Int.le_refl _
        · exact hafter _ (List.mem_map_of_mem hother)
      omega
  · rw [hitems'] at hother
    rw [hseq]
    rcases List.mem_cons.mp hother with rfl | hother
    · exact Int.le_refl _
    · exact hafter _ (List.mem_map_of_mem hother)

/-- After a kill and a restart the first payload is handed out. -/
theorem peek_pushed_first : ∃ (q q' : AgedQueue) (entry : Entry),
    Steps (Takes (Spool.step byNumber)) (.down []) restarted.reverse (.up q) ∧
      q.peek succeeds succeeds 1760000100000000000 = (some entry, q') ∧ entry.body = [1, 2] ∧
      SpoolEvent.push entry.seq entry.sentAt entry.body ∈ restarted.reverse := by
  obtain ⟨s, run, -, hs⟩ := exists_play (Spool.step byNumber) (.down []) restarted
    (fun s => match s with
      | .down _ => false
      | .up q => (q.peek succeeds succeeds 1760000100000000000).1.any fun e => e.body = [1, 2])
    (by decide +kernel)
  cases s with
  | down files => cases hs
  | up q =>
    obtain ⟨entry, hentry, hbody⟩ := (Option.any_eq_true _ _).mp hs
    have hpeek : q.peek succeeds succeeds 1760000100000000000 =
        (some entry, (q.peek succeeds succeeds 1760000100000000000).2) := Prod.ext hentry rfl
    exact ⟨q, _, entry, run, hpeek, of_decide_eq_true hbody, (peek_pushed run hpeek).1⟩

end Runs

end MonitoringHub.HostAgent
