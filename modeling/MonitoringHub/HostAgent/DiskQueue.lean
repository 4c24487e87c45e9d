import Mathlib.Algebra.BigOperators.Group.List.Basic
import Mathlib.Algebra.GroupWithZero.Nat
import Mathlib.Data.List.TakeWhile
import MonitoringHub.Lib.KeyedStore

/-! The agent's buffer on disk while the hub is away: one file a payload, an index in
ascending order of the sequence numbers, and a budget in bytes that costs the oldest entries.
Every call of the operating system may fail. -/

namespace MonitoringHub.HostAgent
open Lib

abbrev Body := List UInt8

structure Item where
  name : String
  seq : ℤ
  sentAt : ℤ
  size : ℕ
  deriving DecidableEq, Repr

structure Queue where
  maxBytes : ℕ
  items : List Item
  total : ℕ
  dropped : ℕ
  files : List (String × Body)
  accounted : total = (items.map (·.size)).sum
  ascending : (items.map (·.seq)).Pairwise (· ≤ ·)

/-- What becomes of the calls one `Push` makes: a failed write leaves some bytes behind, and a
file may not go away. -/
structure DiskOutcome where
  createTemp : Bool
  chmod : Bool
  write : Option ℕ
  close : Bool
  rename : Bool
  removes : String → Bool

inductive PushError
  | tooLarge
  | createTemp
  | close
  | rename
  deriving DecidableEq, Repr

/-- `%0*d` -/
def zeroPadded (width : ℕ) (n : ℤ) : String :=
  if n < 0 then String.ofList ('-' :: List.leftpad (width - 1) '0' (Nat.toDigits 10 n.natAbs))
  else String.ofList (List.leftpad width '0' (Nat.toDigits 10 n.natAbs))

def fileName (seq sentAt : ℤ) : String := zeroPadded 20 seq ++ "_" ++ zeroPadded 12 sentAt ++ ".q"

/-- What is in the temporary file when it is closed. -/
def DiskOutcome.content (d : DiskOutcome) (body : Body) : Body :=
  if d.chmod then
    match d.write with
    | none => body
    | some n => body.take n
  else []

theorem sum_eraseIdx_size {items : List Item} {i : ℕ} {it : Item} (h : items[i]? = some it) :
    ((items.eraseIdx i).map (·.size)).sum + it.size = (items.map (·.size)).sum := by
  obtain ⟨hi, rfl⟩ := List.getElem?_eq_some_iff.mp h
  rw [← ((List.getElem_cons_eraseIdx_perm hi).map (·.size)).sum_eq, List.map_cons, List.sum_cons,
    Nat.add_comm]

/-- In ascending order, what follows the entries up to a number lies beyond it. -/
theorem lt_of_mem_dropWhile {items : List Item} (h : (items.map (·.seq)).Pairwise (· ≤ ·))
    (seq : ℤ) : ∀ it ∈ items.dropWhile (·.seq ≤ seq), seq < it.seq := by
  intro it hit
  have hrest : (items.dropWhile (·.seq ≤ seq)).Pairwise fun a b => a.seq ≤ b.seq :=
    (List.pairwise_map.mp h).sublist (List.dropWhile_sublist _)
  have hhead := List.head?_dropWhile_not (fun a : Item => decide (a.seq ≤ seq)) items
  cases hd : items.dropWhile (·.seq ≤ seq) with
  | nil =>
    rw [hd] at hit
    cases hit
  | cons first rest =>
    rw [hd] at hit hrest hhead
    have hfirst : seq < first.seq := by simpa using hhead
    rcases List.mem_cons.mp hit with rfl | hit
    · exact hfirst
    · exact Int.lt_of_lt_of_le hfirst ((List.pairwise_cons.mp hrest).1 it hit)

namespace Queue

/-- `removeLocked` -/
def removeAt (removes : String → Bool) (q : Queue) (i : ℕ) : Queue :=
  match h : q.items[i]? with
  | none => q
  | some it =>
    { q with
      items := q.items.eraseIdx i
      total := q.total - it.size
      files := if removes it.name then KeyedStore.dropWhere (· = it.name) q.files else q.files
      accounted := by
        rw [q.accounted, ← sum_eraseIdx_size h, Nat.add_sub_cancel]
      ascending := q.ascending.sublist ((List.eraseIdx_sublist q.items i).map (·.seq)) }

/-- `removeSeqLocked` -/
def removeSeq (removes : String → Bool) (seq : ℤ) (q : Queue) : Queue :=
  match q.items.findIdx? (·.seq = seq) with
  | none => q
  | some i => q.removeAt removes i

def dropOldest (removes : String → Bool) (q : Queue) : Queue :=
  { q.removeAt removes 0 with dropped := q.dropped + 1 }

/-- The loop of `evictLocked`; no more rounds than entries are needed. -/
def evictRounds (removes : String → Bool) (incoming : ℕ) : ℕ → Queue → Queue
  | 0, q => q
  | n + 1, q =>
    if q.items ≠ [] ∧ q.maxBytes < q.total + incoming then
      evictRounds removes incoming n (q.dropOldest removes)
    else q

/-- `evictLocked` -/
def evict (removes : String → Bool) (incoming : ℕ) (q : Queue) : Queue :=
  evictRounds removes incoming q.items.length q

/-- The payload takes its place: after the entries whose number is not greater. -/
def insert (it : Item) (content : Body) (q : Queue) : Queue :=
  { q with
    items := q.items.takeWhile (·.seq ≤ it.seq) ++ it :: q.items.dropWhile (·.seq ≤ it.seq)
    total := q.total + it.size
    files := KeyedStore.write it.name content q.files
    accounted := by
      have hsum := congrArg (fun l : List Item => (l.map (·.size)).sum)
        (List.takeWhile_append_dropWhile (p := fun a : Item => decide (a.seq ≤ it.seq))
          (l := q.items))
      simp only [List.map_append, List.sum_append, List.map_cons, List.sum_cons] at hsum ⊢
      rw [q.accounted, ← hsum]
      omega
    ascending := by
      have hpairs := List.pairwise_map.mp q.ascending
      have hafter := lt_of_mem_dropWhile q.ascending it.seq
      refine List.pairwise_map.mpr (List.pairwise_append.mpr
        ⟨hpairs.sublist (List.takeWhile_sublist _), List.pairwise_cons.mpr
          ⟨fun b hb => Int.le_of_lt (hafter b hb), hpairs.sublist (List.dropWhile_sublist _)⟩, ?_⟩)
      intro a ha b hb
      have hle : a.seq ≤ it.seq := by simpa using List.mem_takeWhile_imp ha
      rcases List.mem_cons.mp hb with rfl | hb
      · exact hle
      · exact Int.le_trans hle (Int.le_of_lt (hafter b hb)) }

/-- `Push`: the error it returns, and the queue it leaves. -/
def push (d : DiskOutcome) (seq sentAt : ℤ) (body : Body) (q : Queue) : Option PushError × Queue :=
  if q.maxBytes < body.length then (some .tooLarge, q)
  else
    let q := (q.removeSeq d.removes seq).evict d.removes body.length
    if !d.createTemp then (some .createTemp, q)
    -- an error of Chmod or Write is assigned to a variable of the inner scope and is lost
    else if !d.close then (some .close, q)
    else if !d.rename then (some .rename, q)
    else
      let name := fileName seq sentAt
      (none, q.insert ⟨name, seq, sentAt, body.length⟩ (d.content body))

/-- What a failed push must leave: the entries and what their files hold, and the counts. -/
def KeepsAll (q q' : Queue) : Prop :=
  q'.items = q.items ∧ q'.total = q.total ∧ q'.dropped = q.dropped ∧
    ∀ it ∈ q.items, KeyedStore.find it.name q'.files = KeyedStore.find it.name q.files

variable {removes : String → Bool} {q : Queue} {seq : ℤ} {i n incoming : ℕ}

theorem removeAt_length (h : i < q.items.length) :
    (q.removeAt removes i).items.length + 1 = q.items.length := by
  unfold removeAt
  split
  · rename_i hnone
    exact absurd (List.getElem?_eq_none_iff.mp hnone) (by omega)
  · rw [List.length_eraseIdx_of_lt h]
    omega

theorem dropOldest_length (h : q.items ≠ []) :
    (q.dropOldest removes).items.length + 1 = q.items.length :=
  removeAt_length (List.length_pos_iff.mpr h)

theorem removeSeq_absent (h : ∀ it ∈ q.items, it.seq ≠ seq) : q.removeSeq removes seq = q := by
  rw [removeSeq, List.findIdx?_eq_none_iff.mpr fun it hit => decide_eq_false (h it hit)]

theorem removeSeq_present (h : ∃ it ∈ q.items, it.seq = seq) :
    (q.removeSeq removes seq).items.length < q.items.length := by
  obtain ⟨it, hit, hseq⟩ := h
  rw [removeSeq]
  cases hfind : q.items.findIdx? (·.seq = seq) with
  | none => exact absurd (List.findIdx?_eq_none_iff.mp hfind it hit) (by simp [hseq])
  | some i =>
    have hlt := (List.findIdx?_eq_some_iff_findIdx_eq.mp hfind).1
    have hlength : (q.removeAt removes i).items.length + 1 = q.items.length := removeAt_length hlt
    dsimp only
    omega

theorem evictRounds_fits (h : q.total + incoming ≤ q.maxBytes) :
    q.evictRounds removes incoming n = q := by
  cases n with
  | zero => rfl
  | succ n => rw [evictRounds, if_neg fun hover => absurd hover.2 (by omega)]

theorem evictRounds_length (q : Queue) :
    (q.evictRounds removes incoming n).items.length ≤ q.items.length := by
  induction n generalizing q with
  | zero => exact Nat.le_refl _
  | succ n ih =>
    rw [evictRounds]
    split
    · rename_i hover
      have hone : (q.dropOldest removes).items.length + 1 = q.items.length :=
        dropOldest_length hover.1
      have hrest := ih (q.dropOldest removes)
      omega
    · exact Nat.le_refl _

theorem evict_over (hne : q.items ≠ []) (hover : q.maxBytes < q.total + incoming) :
    (q.evict removes incoming).items.length < q.items.length := by
  have hone : (q.dropOldest removes).items.length + 1 = q.items.length := dropOldest_length hne
  rw [evict, ← hone, evictRounds, if_pos ⟨hne, hover⟩]
  exact Nat.lt_succ_of_le (evictRounds_length _)

/-- A successful push stores what was written, which is the payload only if the permissions
were set and nothing failed on the way. -/
theorem push_file {d : DiskOutcome} {sentAt : ℤ} {body : Body}
    (h : (q.push d seq sentAt body).1 = none) :
    KeyedStore.find (fileName seq sentAt) (q.push d seq sentAt body).2.files =
      some (d.content body) := by
  unfold push at h ⊢
  split_ifs at h ⊢
  exact (KeyedStore.find_write _ _ _ _).trans (if_pos rfl)

/-- A failed push keeps the queue as it was exactly if nothing had to make way for the
payload, unless it is refused at once. -/
theorem failed_push_keeps_iff (q : Queue) (d : DiskOutcome) (seq sentAt : ℤ) (body : Body) :
    ((q.push d seq sentAt body).1 ≠ none → KeepsAll q (q.push d seq sentAt body).2) ↔
      q.maxBytes < body.length ∨
        (d.createTemp = true ∧ d.close = true ∧ d.rename = true) ∨
        (∀ it ∈ q.items, it.seq ≠ seq) ∧ q.total + body.length ≤ q.maxBytes := by
  by_cases hlarge : q.maxBytes < body.length
  · have hpush : q.push d seq sentAt body = (some .tooLarge, q) := if_pos hlarge
    rw [hpush]
    exact iff_of_true (fun _ => ⟨rfl, rfl, rfl, fun _ _ => rfl⟩) (.inl hlarge)
  · by_cases hfine : d.createTemp = true ∧ d.close = true ∧ d.rename = true
    · have hpush : (q.push d seq sentAt body).1 = none := by
        simp [push, hlarge, hfine.1, hfine.2.1, hfine.2.2]
      exact iff_of_true (fun h => absurd hpush h) (.inr (.inl hfine))
    · have hfails : (q.push d seq sentAt body).1 ≠ none ∧ (q.push d seq sentAt body).2 =
          (q.removeSeq d.removes seq).evict d.removes body.length := by
        rw [push, if_neg hlarge]
        dsimp only
        split_ifs with h1 h2 h3
        · simp
        · simp
        · simp
        · simp only [Bool.not_eq_true, Bool.not_eq_false'] at h1 h2 h3
          exact absurd ⟨h1, h2, h3⟩ hfine
      rw [hfails.2]
      simp only [hfails.1, ne_eq, not_false_eq_true, forall_const, hlarge, hfine, false_or]
      constructor
      · rintro ⟨hitems, -⟩
        have hlength := congrArg List.length hitems
        have habsent : ∀ it ∈ q.items, it.seq ≠ seq := by
          intro it hit hseq
          have hone : (q.removeSeq d.removes seq).items.length < q.items.length :=
            removeSeq_present ⟨it, hit, hseq⟩
          have hrest : ((q.removeSeq d.removes seq).evict d.removes body.length).items.length ≤ _ :=
            evictRounds_length _
          omega
        refine ⟨habsent, Nat.le_of_not_lt fun hover => ?_⟩
        rw [removeSeq_absent habsent] at hlength
        -- over budget although the payload alone fits: something is queued
        have hne : q.items ≠ [] := by
          intro hnil
          have htotal := q.accounted
          rw [hnil, List.map_nil, List.sum_nil] at htotal
          omega
        have hone : (q.evict d.removes body.length).items.length < q.items.length :=
          evict_over hne hover
        omega
      · rintro ⟨habsent, hfits⟩
        rw [removeSeq_absent habsent, evict, evictRounds_fits hfits]
        exact ⟨rfl, rfl, rfl, fun _ _ => rfl⟩

end Queue

def emptyQueue (maxBytes : ℕ) : Queue := ⟨maxBytes, [], 0, 0, [], rfl, .nil⟩

/-- A disk on which every call succeeds. -/
def healthyDisk : DiskOutcome := ⟨true, true, none, true, true, fun _ => true⟩

/-- Two bytes are buffered, the budget is three, and there is no temporary file for the next
two: the error comes after the buffered entry is gone. -/
theorem failed_push_evicts :
    let q := ((emptyQueue 3).push healthyDisk 1 1760000000 [1, 2]).2
    let after := q.push { healthyDisk with createTemp := false } 2 1760000060 [3, 4]
    q.items.map (·.seq) = [1] ∧ after.1 = some .createTemp ∧ after.2.items = [] ∧
      after.2.total = 0 ∧ after.2.dropped = 1 := by
  decide +kernel

end MonitoringHub.HostAgent
