import Mathlib.Data.Rat.Floor
import MonitoringHub.Cache.SharedCache
import MonitoringHub.Lib.Glob

/-! The two backends, as one process calls them, one call after another. With Redis the process
keeps its in-process copy up to date as well, and reads Redis alone. -/

namespace MonitoringHub.Cache
open Lib Lib.KeyedStore

/-- `L1_MAX_ENTRIES` -/
def l1MaxEntries : ℕ := 5000

/-- What is stored of a value, and when that expires. -/
structure Envelope (V : Type) where
  expires : ℚ
  value : V
  ts : ℚ

/-- What a call of `get_or_load_ex` comes to, with `shared` left out, and what `put` answers. -/
inductive Returned (V : Type)
  | result (value : V) (hit : Bool) (ageS ts : ℚ)
  | raised
  | stored
  deriving DecidableEq

/-- `_l1` in the order of its insertions, Redis, and what the calls have returned. -/
structure OneProcess (V : Type) where
  now : ℚ
  l1 : List (String × Envelope V)
  redis : List (String × Envelope V)
  returned : List (Returned V)

/-- A loader's outcome; a value that is not to be stored has no TTL. -/
inductive Loaded (V : Type)
  | raised
  | value (value : V) (ttl : Option ℚ)

inductive CacheOp (V : Type)
  | elapse (seconds : {d : ℚ // 0 ≤ d})
  | put (key : String) (value : V) (ttl : ℚ)
  | getOrLoad (key : String) (bypass : Bool) (validate : V → Bool) (seconds : {d : ℚ // 0 ≤ d})
      (loaded : Loaded V)
  | invalidate (key : String)
  | invalidatePrefix (start : String)

section Evict
variable {V : Type}

/-- The keys that `_write` takes out of `_l1` when there are too many. -/
def evicted (l1 : List (String × Envelope V)) : List String :=
  if l1MaxEntries < l1.length then
    ((l1.mergeSort fun a b => a.2.expires ≤ b.2.expires).take
      (l1.length - l1MaxEntries + 100)).map Prod.fst
  else []

def evict (l1 : List (String × Envelope V)) : List (String × Envelope V) :=
  dropWhere (fun key => key ∈ evicted l1) l1

end Evict

namespace OneProcess
variable {V : Type}

def start (now : ℚ) : OneProcess V := ⟨now, [], [], []⟩

def elapse (s : OneProcess V) (seconds : {d : ℚ // 0 ≤ d}) : OneProcess V :=
  { s with now := s.now + seconds }

def answer (s : OneProcess V) (r : Returned V) : OneProcess V :=
  { s with returned := r :: s.returned }

/-- `_read` -/
def read (B : Backend) (s : OneProcess V) (key : String) : Option (Envelope V) :=
  let found := match B with
    | .memory => find key s.l1
    | .redis R => find (R.rk key) s.redis
  found.filter fun entry => s.now < entry.expires

def envelope (s : OneProcess V) (value : V) (ttl : ℚ) : Envelope V :=
  ⟨s.now + max 1 ⌈ttl⌉, value, s.now⟩

/-- `_write` -/
def write (B : Backend) (s : OneProcess V) (key : String) (value : V) (ttl : ℚ) : OneProcess V :=
  { s with
    l1 := evict (assign key (s.envelope value ttl) s.l1)
    redis := match B with
      | .memory => s.redis
      | .redis R => KeyedStore.write (R.rk key) (s.envelope value ttl) s.redis }

/-- The entry that a call of `get_or_load_ex` takes. -/
def usable (B : Backend) (s : OneProcess V) (key : String) (bypass : Bool) (validate : V → Bool) :
    Option (Envelope V) :=
  if bypass then none else (s.read B key).filter fun entry => validate entry.value

/-- `_load`, for as long as the loader runs. -/
def load (B : Backend) (s : OneProcess V) (key : String) (seconds : {d : ℚ // 0 ≤ d}) :
    Loaded V → OneProcess V
  | .raised => (s.elapse seconds).answer .raised
  | .value value ttl =>
    let s := s.elapse seconds
    (match ttl with
      | some ttl => s.write B key value ttl
      | none => s).answer (.result value false 0 s.now)

/-- `get_or_load_ex` -/
def getOrLoad (B : Backend) (s : OneProcess V) (key : String) (bypass : Bool) (validate : V → Bool)
    (seconds : {d : ℚ // 0 ≤ d}) (loaded : Loaded V) : OneProcess V :=
  match s.usable B key bypass validate with
  | some entry => s.answer (.result entry.value true (max 0 (s.now - entry.ts)) entry.ts)
  | none => s.load B key seconds loaded

def invalidate (B : Backend) (s : OneProcess V) (key : String) : OneProcess V :=
  { s with
    l1 := dropWhere (· = key) s.l1
    redis := match B with
      | .memory => s.redis
      | .redis R => dropWhere (· = R.rk key) s.redis }

/-- `invalidate_prefix`, and how many keys it removes in Redis. -/
def invalidatePrefix (B : Backend) (s : OneProcess V) (start : String) : OneProcess V × ℕ :=
  let s := { s with l1 := dropWhere (fun key => Text.startsWith key start) s.l1 }
  match B with
  | .memory => (s, 0)
  | .redis R =>
    let scanned := (keys (s.redis.filter fun entry => s.now < entry.2.expires)).filter fun slot =>
      R.globMatch (R.rk start ++ "*") slot
    ({ s with redis := dropWhere (fun slot => slot ∈ scanned) s.redis }, scanned.length)

def step (B : Backend) (s : OneProcess V) : CacheOp V → Option (OneProcess V)
  | .elapse seconds => some (s.elapse seconds)
  | .put key value ttl => some ((s.write B key value ttl).answer .stored)
  | .getOrLoad key bypass validate seconds loaded =>
    some (s.getOrLoad B key bypass validate seconds loaded)
  | .invalidate key => some (s.invalidate B key)
  | .invalidatePrefix start => some (s.invalidatePrefix B start).1

/-- No other entry that has not expired has the Redis key of this one. -/
def Apart (R : RedisServer) (s : OneProcess V) (key : String) : Prop :=
  ∀ entry ∈ s.l1, s.now < entry.2.expires → R.rk entry.1 = R.rk key → entry.1 = key

/-- The write is to a Redis key of its own, and of the in-process copy it takes out only what has
expired. -/
def WriteFits (R : RedisServer) (s : OneProcess V) (key : String) (value : V) (ttl : ℚ) : Prop :=
  s.Apart R key ∧
    ∀ key' ∈ evicted (assign key (s.envelope value ttl) s.l1),
      ∀ entry ∈ find key' (assign key (s.envelope value ttl) s.l1), entry.expires ≤ s.now

/-- The pattern of a prefix matches the Redis keys of just the entries it is to remove. -/
def Selects (R : RedisServer) (s : OneProcess V) (start : String) : Prop :=
  ∀ entry ∈ s.l1, s.now < entry.2.expires →
    R.globMatch (R.rk start ++ "*") (R.rk entry.1) = Text.startsWith entry.1 start

def LoadFits (R : RedisServer) (s : OneProcess V) (key : String)
    (seconds : {d : ℚ // 0 ≤ d}) : Option (Envelope V) → Loaded V → Prop
  | none, .value value (some ttl) => (s.elapse seconds).WriteFits R key value ttl
  | _, _ => True

/-- The condition on a call, over the in-process copy. -/
def Fits (R : RedisServer) (s : OneProcess V) : CacheOp V → Prop
  | .elapse _ => True
  | .put key value ttl => s.WriteFits R key value ttl
  | .getOrLoad key bypass validate seconds loaded =>
    (bypass = false → s.Apart R key) ∧
      s.LoadFits R key seconds (s.usable .memory key bypass validate) loaded
  | .invalidate key => s.Apart R key
  | .invalidatePrefix start => s.Selects R start

section Decide
variable (R : RedisServer) (s : OneProcess V)

instance (key : String) : Decidable (s.Apart R key) :=
  inferInstanceAs (Decidable (∀ entry ∈ s.l1, _))

instance (key : String) (value : V) (ttl : ℚ) : Decidable (s.WriteFits R key value ttl) :=
  inferInstanceAs (Decidable (_ ∧ ∀ key' ∈ evicted _, ∀ entry ∈ find key' _, _))

instance (start : String) : Decidable (s.Selects R start) :=
  inferInstanceAs (Decidable (∀ entry ∈ s.l1, _))

instance (key : String) (seconds : {d : ℚ // 0 ≤ d}) :
    ∀ found loaded, Decidable (s.LoadFits R key seconds found loaded)
  | none, .value value (some ttl) =>
    inferInstanceAs (Decidable ((s.elapse seconds).WriteFits R key value ttl))
  | none, .value _ none | none, .raised | some _, _ => inferInstanceAs (Decidable True)

instance : ∀ op, Decidable (s.Fits R op)
  | .elapse _ => inferInstanceAs (Decidable True)
  | .put key value ttl => inferInstanceAs (Decidable (s.WriteFits R key value ttl))
  | .getOrLoad key bypass _ seconds _ =>
    inferInstanceAs (Decidable ((bypass = false → s.Apart R key) ∧ s.LoadFits R key seconds _ _))
  | .invalidate key => inferInstanceAs (Decidable (s.Apart R key))
  | .invalidatePrefix start => inferInstanceAs (Decidable (s.Selects R start))

end Decide

/-- The process with Redis beside the one without: they hold the same, in Redis under other keys
and as far as it has not expired. -/
structure Alike (R : RedisServer) (s t : OneProcess V) : Prop where
  now : t.now = s.now
  l1 : t.l1 = s.l1
  returned : t.returned = s.returned
  held : ∀ key entry, find key s.l1 = some entry → s.now < entry.expires →
    find (R.rk key) t.redis = some entry
  named : ∀ slot entry, find slot t.redis = some entry → s.now < entry.expires →
    ∃ key, R.rk key = slot ∧ find key s.l1 = some entry

variable {R : RedisServer} {s t u : OneProcess V} {key : String} {value : V} {ttl : ℚ}
  {seconds : {d : ℚ // 0 ≤ d}} {op : CacheOp V}

theorem Apart.of_find (h : s.Apart R key) {key' : String} {entry : Envelope V}
    (hfound : find key' s.l1 = some entry) (hlive : s.now < entry.expires)
    (hslot : R.rk key' = R.rk key) : key' = key :=
  h (key', entry) (mem_of_find hfound) hlive hslot

/-- A key that shares no Redis key is read alike. -/
theorem Alike.read (h : Alike R s t) (hapart : s.Apart R key) :
    t.read (.redis R) key = s.read .memory key := by
  refine Option.ext fun entry => ?_
  unfold OneProcess.read
  simp only [Option.filter_eq_some_iff, decide_eq_true_eq, h.now]
  constructor
  · rintro ⟨hfound, hlive⟩
    obtain ⟨key', hslot, hfound'⟩ := h.named _ entry hfound hlive
    obtain rfl := hapart.of_find hfound' hlive hslot
    exact ⟨hfound', hlive⟩
  · rintro ⟨hfound, hlive⟩
    exact ⟨h.held key entry hfound hlive, hlive⟩

theorem Alike.elapse (h : Alike R s t) : Alike R (s.elapse seconds) (t.elapse seconds) where
  now := congrArg (· + seconds.1) h.now
  l1 := h.l1
  returned := h.returned
  held key entry hfound hlive :=
    h.held key entry hfound ((le_add_of_nonneg_right seconds.2).trans_lt hlive)
  named slot entry hfound hlive :=
    h.named slot entry hfound ((le_add_of_nonneg_right seconds.2).trans_lt hlive)

theorem Alike.answer (h : Alike R s t) (r : Returned V) : Alike R (s.answer r) (t.answer r) :=
  ⟨h.now, h.l1, congrArg (r :: ·) h.returned, h.held, h.named⟩

/-- What has not expired stays in the copy. -/
theorem WriteFits.find (h : s.WriteFits R key value ttl) {key' : String} {entry : Envelope V}
    (hlive : s.now < entry.expires) :
    find key' (s.write .memory key value ttl).l1 = some entry ↔
      find key' (assign key (s.envelope value ttl) s.l1) = some entry := by
  simp only [OneProcess.write, evict]
  refine ⟨fun hfound => (find_dropWhere_some hfound).2, fun hfound => ?_⟩
  have hkept : key' ∉ evicted (assign key (s.envelope value ttl) s.l1) := fun hout =>
    absurd (h.2 key' hout entry hfound) (not_le.mpr hlive)
  rw [find_dropWhere, if_neg (by simpa using hkept)]
  exact hfound

theorem Alike.write (h : Alike R s t) (hfits : s.WriteFits R key value ttl) :
    Alike R (s.write .memory key value ttl) (t.write (.redis R) key value ttl) := by
  have henvelope : t.envelope value ttl = s.envelope value ttl := by
    rw [envelope, envelope, h.now]
  refine ⟨h.now, ?_, h.returned, fun key' entry hfound hlive => ?_,
    fun slot entry hfound hlive => ?_⟩
  · rw [OneProcess.write, OneProcess.write, henvelope, h.l1]
  · rw [hfits.find hlive, find_assign] at hfound
    simp only [OneProcess.write, henvelope, find_write]
    split at hfound
    · rename_i heq
      rw [if_pos (congrArg R.rk heq)]
      exact hfound
    · rename_i hne
      rw [if_neg fun hslot => hne (hfits.1.of_find hfound hlive hslot)]
      exact h.held key' entry hfound hlive
  · simp only [OneProcess.write, henvelope, find_write] at hfound
    split at hfound
    · rename_i heq
      refine ⟨key, heq.symm, (hfits.find hlive).mpr ?_⟩
      rw [find_assign, if_pos rfl]
      exact hfound
    · rename_i hne
      obtain ⟨key', hslot, hfound'⟩ := h.named slot entry hfound hlive
      refine ⟨key', hslot, (hfits.find hlive).mpr ?_⟩
      rw [find_assign, if_neg fun heq => hne (hslot.symm.trans (congrArg R.rk heq))]
      exact hfound'

theorem Alike.invalidate (h : Alike R s t) (hapart : s.Apart R key) :
    Alike R (s.invalidate .memory key) (t.invalidate (.redis R) key) := by
  refine ⟨h.now, ?_, h.returned, fun key' entry hfound hlive => ?_,
    fun slot entry hfound hlive => ?_⟩
  · rw [OneProcess.invalidate, OneProcess.invalidate, h.l1]
  · simp only [OneProcess.invalidate] at hfound ⊢
    obtain ⟨hne, hfound⟩ := find_dropWhere_some hfound
    rw [find_dropWhere, if_neg]
    · exact h.held key' entry hfound hlive
    · intro hslot
      obtain rfl := hapart.of_find hfound hlive (of_decide_eq_true hslot)
      simp at hne
  · simp only [OneProcess.invalidate] at hfound ⊢
    obtain ⟨hne, hfound⟩ := find_dropWhere_some hfound
    obtain ⟨key', hslot, hfound'⟩ := h.named slot entry hfound hlive
    refine ⟨key', hslot, ?_⟩
    rw [find_dropWhere, if_neg]
    · exact hfound'
    · intro heq
      obtain rfl := of_decide_eq_true heq
      simp [hslot] at hne

theorem Selects.of_find {stem : String} (h : s.Selects R stem) {key' : String}
    {entry : Envelope V} (hfound : find key' s.l1 = some entry) (hlive : s.now < entry.expires) :
    R.globMatch (R.rk stem ++ "*") (R.rk key') = Text.startsWith key' stem :=
  h (key', entry) (mem_of_find hfound) hlive

/-- The scan has the keys that match of the entries that have not expired. -/
theorem mem_scanned {slot : String} {entry : Envelope V} (hfound : find slot t.redis = some entry)
    (hlive : t.now < entry.expires) (pattern : String) :
    slot ∈ (keys (t.redis.filter fun entry => t.now < entry.2.expires)).filter
      (fun slot => R.globMatch pattern slot) ↔ R.globMatch pattern slot = true := by
  rw [List.mem_filter]
  refine and_iff_right (List.mem_map.mpr ⟨(slot, entry), List.mem_filter.mpr ⟨?_, ?_⟩, rfl⟩)
  · exact mem_of_find hfound
  · exact decide_eq_true hlive

theorem Alike.invalidatePrefix (h : Alike R s t) {stem : String} (hselects : s.Selects R stem) :
    Alike R (s.invalidatePrefix .memory stem).1 (t.invalidatePrefix (.redis R) stem).1 := by
  refine ⟨h.now, ?_, h.returned, fun key' entry hfound hlive => ?_,
    fun slot entry hfound hlive => ?_⟩
  · simp only [OneProcess.invalidatePrefix, h.l1]
  · simp only [OneProcess.invalidatePrefix] at hfound hlive ⊢
    obtain ⟨hother, hfound⟩ := find_dropWhere_some hfound
    have hheld := h.held key' entry hfound hlive
    rw [find_dropWhere, if_neg]
    · exact hheld
    · rw [decide_eq_true_eq, mem_scanned hheld (h.now ▸ hlive), hselects.of_find hfound hlive,
        hother]
      exact Bool.false_ne_true
  · simp only [OneProcess.invalidatePrefix] at hfound hlive ⊢
    obtain ⟨hout, hfound⟩ := find_dropWhere_some hfound
    obtain ⟨key', rfl, hfound'⟩ := h.named slot entry hfound hlive
    refine ⟨key', rfl, ?_⟩
    rw [decide_eq_false_iff_not, mem_scanned hfound (h.now ▸ hlive),
      hselects.of_find hfound' hlive] at hout
    rw [find_dropWhere, if_neg hout]
    exact hfound'

theorem Alike.load (h : Alike R s t) {loaded : Loaded V}
    (hfits : ∀ value ttl, loaded = .value value (some ttl) →
      (s.elapse seconds).WriteFits R key value ttl) :
    Alike R (s.load .memory key seconds loaded) (t.load (.redis R) key seconds loaded) := by
  have helapse : Alike R (s.elapse seconds) (t.elapse seconds) := h.elapse
  cases loaded with
  | raised => exact helapse.answer _
  | value value ttl =>
    simp only [OneProcess.load, helapse.now]
    cases ttl with
    | none => exact helapse.answer _
    | some ttl => exact (helapse.write (hfits value ttl rfl)).answer _

theorem Alike.getOrLoad (h : Alike R s t) {bypass : Bool} {validate : V → Bool} {loaded : Loaded V}
    (hfits : s.Fits R (.getOrLoad key bypass validate seconds loaded)) :
    Alike R (s.getOrLoad .memory key bypass validate seconds loaded)
      (t.getOrLoad (.redis R) key bypass validate seconds loaded) := by
  obtain ⟨hapart, hwrite⟩ := hfits
  have husable :
      t.usable (.redis R) key bypass validate = s.usable .memory key bypass validate := by
    unfold usable
    cases bypass with
    | true => rfl
    | false => rw [h.read (hapart rfl)]
  unfold OneProcess.getOrLoad
  rw [husable, h.now]
  cases hfound : s.usable .memory key bypass validate with
  | some entry => exact h.answer _
  | none =>
    refine h.load fun value ttl hloaded => ?_
    rw [hfound, hloaded] at hwrite
    exact hwrite

theorem Alike.step (h : Alike R s t) (hfits : s.Fits R op) (hstep : s.step .memory op = some u) :
    ∃ v, t.step (.redis R) op = some v ∧ Alike R u v := by
  cases op <;> obtain rfl := Option.some.inj hstep
  case elapse => exact ⟨_, rfl, h.elapse⟩
  case put => exact ⟨_, rfl, (h.write hfits).answer _⟩
  case getOrLoad => exact ⟨_, rfl, h.getOrLoad hfits⟩
  case invalidate => exact ⟨_, rfl, h.invalidate hfits⟩
  case invalidatePrefix => exact ⟨_, rfl, h.invalidatePrefix hfits⟩

theorem alike_run (R : RedisServer) {now : ℚ} {ops : List (CacheOp V)}
    (run : Steps (Guarded (Takes (OneProcess.step .memory)) (Fits R)) (start now) ops s) :
    ∃ t, Steps (Takes (OneProcess.step (.redis R))) (start now) ops t ∧ Alike R s t := by
  induction run with
  | refl => exact ⟨_, .refl, rfl, rfl, rfl, nofun, nofun⟩
  | snoc _ hlast ih =>
    obtain ⟨t, run, halike⟩ := ih
    obtain ⟨v, hstep, halike⟩ := halike.step hlast.1 hlast.2
    exact ⟨v, run.snoc hstep, halike⟩

/-- What a prefix leaves of the in-process copy. -/
theorem read_invalidatePrefix (s : OneProcess V) (stem key : String) :
    (s.invalidatePrefix .memory stem).1.read .memory key =
      if Text.startsWith key stem then none else s.read .memory key := by
  simp only [OneProcess.invalidatePrefix, OneProcess.read, find_dropWhere]
  split <;> rfl

/-- Calls that fit return the same with Redis as without, and a prefix that fits removes just the
entries whose keys start with it. -/
theorem backends_alike (R : RedisServer) (now : ℚ) (ops : List (CacheOp V)) (s : OneProcess V)
    (run : Steps (Guarded (Takes (OneProcess.step .memory)) (Fits R)) (start now) ops s) :
    ∃ t, Steps (Takes (OneProcess.step (.redis R))) (start now) ops t ∧ t.returned = s.returned ∧
      ∀ stem, s.Selects R stem → ∀ key, s.Apart R key →
        (t.invalidatePrefix (.redis R) stem).1.read (.redis R) key =
          if Text.startsWith key stem then none else t.read (.redis R) key := by
  obtain ⟨t, run', halike⟩ := alike_run R run
  refine ⟨t, run', halike.returned, fun stem hselects key hapart => ?_⟩
  have hafter : (s.invalidatePrefix .memory stem).1.Apart R key := fun entry hentry =>
    hapart entry (List.mem_of_mem_filter hentry)
  rw [(halike.invalidatePrefix hselects).read hafter, read_invalidatePrefix, halike.read hapart]

/-- The start of a Redis key is that of the entry's key, as far as `_rk` leaves it. -/
theorem startsWith_rk {stem : String} (hlength : stem.length ≤ maxKeyLen - 41) :
    Text.startsWith (R.rk key) (keyHead ++ stem) = Text.startsWith key stem := by
  unfold Text.startsWith RedisServer.rk
  rw [String.toList_append, String.toList_append]
  refine decide_eq_decide.mpr ((List.prefix_append_right_inj _).trans ?_)
  split
  · rename_i hlong
    rw [String.toList_append, String.toList_append, takeChars, String.toList_ofList]
    have hcut : stem.toList.length ≤ (key.toList.take (maxKeyLen - 41)).length := by
      rw [List.length_take, String.length_toList, String.length_toList]
      omega
    constructor
    · intro h
      have hleft := List.prefix_of_prefix_length_le h
        ((List.prefix_append _ _).trans (List.prefix_append _ _)) hcut
      exact hleft.trans (List.take_prefix _ _)
    · intro h
      have hleft := List.prefix_of_prefix_length_le h (List.take_prefix _ _) hcut
      exact hleft.trans ((List.prefix_append _ _).trans (List.prefix_append _ _))
  · exact Iff.rfl

/-- A plain prefix that is not longer than what `_rk` leaves of a key selects its keys. -/
theorem selects_plain (hglob : ∀ pattern text, (∀ c ∈ pattern.toList, Glob.plain c = true) →
      R.globMatch (pattern ++ "*") text = Text.startsWith text pattern)
    (s : OneProcess V) {stem : String} (hplain : ∀ c ∈ stem.toList, Glob.plain c = true)
    (hlength : stem.length ≤ maxKeyLen - 41) : s.Selects R stem := by
  intro entry _ _
  have hstem : R.rk stem = keyHead ++ stem := by
    rw [RedisServer.rk, if_neg (by unfold maxKeyLen at *; omega)]
  have hhead : ∀ c ∈ (keyHead ++ stem).toList, Glob.plain c = true := by
    rw [String.toList_append]
    exact List.forall_mem_append.mpr ⟨List.all_eq_true.mp (by decide), hplain⟩
  rw [hstem, hglob _ _ hhead]
  exact startsWith_rk hlength

/-- A server on which no key is long enough to be hashed. -/
def globServer : RedisServer := ⟨id, Glob.globMatch⟩

example (s : OneProcess V) : s.Selects globServer "web:" :=
  selects_plain (fun _ _ h => Glob.globMatch_star h) s (List.all_eq_true.mp (by decide))
    (by decide)

/-- A prefix with a question mark removes another key with it, and a call of that one loads. -/
theorem glob_removes_other : ∃ (ops : List (CacheOp ℕ)) (s t : OneProcess ℕ),
    Steps (Takes (OneProcess.step .memory)) (start 0) ops s ∧
      Steps (Takes (OneProcess.step (.redis globServer))) (start 0) ops t ∧
      s.returned = [.result 1 true 0 0, .stored] ∧
      t.returned = [.result 2 false 0 0, .stored] := by
  let ops : List (CacheOp ℕ) := [.put "web1:cpu" 1 60, .invalidatePrefix "web?",
    .getOrLoad "web1:cpu" false (fun _ => true) ⟨0, le_rfl⟩ (.value 2 (some 60))]
  obtain ⟨s, run, -, hs⟩ := exists_play (OneProcess.step .memory) (start 0) ops
    (fun s => s.returned = [.result 1 true 0 0, .stored]) (by decide +kernel)
  obtain ⟨t, run', -, ht⟩ := exists_play (OneProcess.step (.redis globServer)) (start 0) ops
    (fun t => t.returned = [.result 2 false 0 0, .stored]) (by decide +kernel)
  exact ⟨_, s, t, run, run', of_decide_eq_true hs, of_decide_eq_true ht⟩

theorem backends_alike_web : ∃ t : OneProcess ℕ,
    (∃ ops, Steps (Takes (OneProcess.step (.redis globServer))) (start 0) ops t) ∧
      t.returned = [.result 2 true 0 0, .result 3 false 0 0, .stored, .stored] := by
  obtain ⟨s, run, -, hs⟩ := exists_play
    (gated (OneProcess.step .memory) (Fits globServer)) (start 0)
    [.put "web1:cpu" 1 60, .put "db1:cpu" 2 60, .invalidatePrefix "web",
      .getOrLoad "web1:cpu" false (fun _ => true) ⟨0, le_rfl⟩ (.value 3 (some 60)),
      .getOrLoad "db1:cpu" false (fun _ => true) ⟨0, le_rfl⟩ (.value 4 (some 60))]
    (fun s => s.returned = [.result 2 true 0 0, .result 3 false 0 0, .stored, .stored])
    (by decide +kernel)
  obtain ⟨t, run', hreturned, -⟩ :=
    backends_alike globServer 0 _ s (run.mono fun _ _ _ h => gated_guarded h)
  exact ⟨t, ⟨_, run'⟩, hreturned.trans (of_decide_eq_true hs)⟩

end OneProcess

end MonitoringHub.Cache
