import MonitoringHub.Lib.PercentQuote
import MonitoringHub.Lib.Text
import MonitoringHub.Lib.Trim

/-! Where a reference leads from a page of an http origin, by the URL standard. A reference with no
scheme and no host of its own stays in the origin; its path is walked segment by segment, and what
comes first in the result is told by the segments that are not taken back. -/

namespace MonitoringHub.Lib.UrlPath
open PercentQuote

/-! ### Segments -/

abbrev Segment := List Char

def hexValue (c : Char) : Option ℕ :=
  if c.isDigit then some (c.toNat - 48)
  else if 'A' ≤ c ∧ c ≤ 'F' then some (c.toNat - 55)
  else if 'a' ≤ c ∧ c ≤ 'f' then some (c.toNat - 87)
  else none

def escaped (a b : Char) : Option ℕ := do
  return (← hexValue a) * 16 + (← hexValue b)

/-- The text character by character, each as it is or as an escape. -/
def spells : List Char → Segment → Bool
  | [], s => s.isEmpty
  | _ :: _, [] => false
  | c :: w, d :: s =>
    if d = '%' then
      match s with
      | a :: b :: t => escaped a b = some c.toNat && spells w t
      | _ => false
    else c = d && spells w s

/-- `.` or `%2e`, in either case. -/
def isDot (s : Segment) : Bool := spells ['.'] s

def isDotDot (s : Segment) : Bool := spells ['.', '.'] s

/-- The path percent-encode set. -/
def inPathSet (c : Char) : Bool :=
  c.toNat ≤ 0x20 || 0x7E < c.toNat || "\"#<>?^`\x7b\x7d".toList.contains c

def encodeChar (c : Char) : List Char :=
  if inPathSet c then (String.utf8EncodeChar c).flatMap quoteByte else [c]

def encode (s : Segment) : Segment := s.flatMap encodeChar

/-- The escapes of unreserved characters are undone; an escape has three characters. -/
def decodeUnreserved : Segment → Segment
  | c :: a :: b :: s =>
    if c = '%' then
      match (escaped a b).filter fun n => unreserved (Char.ofNat n) with
      | some n => Char.ofNat n :: decodeUnreserved s
      | none => c :: decodeUnreserved (a :: b :: s)
    else c :: decodeUnreserved (a :: b :: s)
  | s => s

def slash (c : Char) : Bool := c = '/' || c = '\\'

def segments (s : List Char) : List Segment :=
  (s.takeWhile fun c => c ≠ '?' && c ≠ '#').splitOnP slash

/-! ### The path state -/

/-- A segment with a slash behind it. -/
def step (path : List Segment) (s : Segment) : List Segment :=
  if isDotDot s then path.dropLast else if isDot s then path else path ++ [encode s]

/-- A dot segment at the end leaves an empty segment. -/
def walk (path : List Segment) : List Segment → List Segment
  | [] => path
  | [s] =>
    if isDotDot s then path.dropLast ++ [[]]
    else if isDot s then path ++ [[]]
    else path ++ [encode s]
  | s :: rest => walk (step path s) rest

inductive Target
  | within (path : List Segment)
  | named

def hasScheme : List Char → Bool
  | [] => false
  | c :: s => c.isAlpha &&
    (s.dropWhile fun d => d.isAlphanum || d = '+' || d = '-' || d = '.').head? = some ':'

/-- The reference from a page with the given path: within its origin, or with a scheme or a host
that the reference names. -/
def resolve (base : List Segment) (reference : List Char) : Target :=
  let s := (trim (fun c => c.toNat ≤ 0x20) reference).filter fun c =>
    c ≠ '\t' && c ≠ '\n' && c ≠ '\r'
  if hasScheme s then .named
  else match s with
    | [] => .within base
    | c :: rest =>
      if slash c then
        if rest.head?.any slash then .named else .within (walk [] (segments rest))
      else if c = '?' || c = '#' then .within base
      else .within (walk base.dropLast (segments s))

/-- A path from the root stays in the origin. -/
theorem resolve_of_rooted {base : List Segment} {rest : List Char}
    (hcontrol : ∀ c ∈ '/' :: rest, 0x20 ≤ c.toNat) (hlast : ∀ c ∈ ('/' :: rest).getLast?, c ≠ ' ')
    (hnext : rest.head?.any slash = false) :
    resolve base ('/' :: rest) = .within (walk [] (segments rest)) := by
  have htrim : trim (fun c : Char => decide (c.toNat ≤ 0x20)) ('/' :: rest) = '/' :: rest := by
    refine trim_of_ends (fun c hc => ?_) fun c hc => decide_eq_false fun hle => hlast c hc ?_
    · obtain rfl := Option.some_inj.mp hc
      decide
    · have heq := le_antisymm hle (hcontrol c (List.mem_of_getLast? hc))
      rw [← Char.ofNat_toNat c, heq]
  have hfilter : ('/' :: rest).filter (fun c => c ≠ '\t' && c ≠ '\n' && c ≠ '\r') =
      '/' :: rest := by
    refine List.filter_eq_self.mpr fun c hc => ?_
    have hge := hcontrol c hc
    have hne : ∀ d : Char, d.toNat < 0x20 → decide (c ≠ d) = true := fun d hd =>
      decide_eq_true fun heq => absurd hge (by rw [heq]; omega)
    rw [hne _ (by decide), hne _ (by decide), hne _ (by decide)]
    rfl
  rw [resolve, htrim, hfilter]
  simp only [hnext]
  rfl

/-! ### Spelling -/

section Spelling
variable {w s t : List Char} {c : Char} {a b : Char} {n : ℕ}

theorem ascii_of_unreserved (h : unreserved c = true) : ∃ i : Fin 128, c = Char.ofNat i := by
  simp only [unreserved, Bool.or_eq_true, beq_iff_eq] at h
  rcases h with (((halphanum | rfl) | rfl) | rfl) | rfl
  · exact Text.ascii_of_isAlphanum halphanum
  · exact ⟨95, rfl⟩
  · exact ⟨46, rfl⟩
  · exact ⟨45, rfl⟩
  · exact ⟨126, rfl⟩

/-- What is decided byte by byte. -/
theorem byte_facts : ∀ i : Fin 256,
    (unreserved (Char.ofNat i) = true → inPathSet (Char.ofNat i) = false ∧ i.val < 128) ∧
    (∀ n ∈ hexValue (Char.ofNat i), n < 16) ∧
    (i.val < 16 → hexValue (hexDigit i) = some i.val) := by
  decide +kernel

theorem not_inPathSet (h : unreserved c = true) : inPathSet c = false := by
  obtain ⟨i, rfl⟩ := ascii_of_unreserved h
  exact ((byte_facts ⟨i, by omega⟩).1 h).1

theorem unreserved_of_hexValue (h : (hexValue c).isSome = true) : unreserved c = true := by
  have halphanum : c.isAlphanum = true := by
    unfold hexValue at h
    split at h
    · rename_i hdigit
      rw [Text.isAlphanum_eq, hdigit, Bool.or_true]
    split at h
    · rename_i hupper
      have hle : c.isUpper = true :=
        decide_eq_true ⟨hupper.1, UInt32.le_trans hupper.2 (by decide)⟩
      rw [Text.isAlphanum_eq, hle, Bool.true_or, Bool.true_or]
    split at h
    · rename_i hlower
      have hle : c.isLower = true := Bool.and_eq_true_iff.mpr
        ⟨decide_eq_true hlower.1, decide_eq_true (UInt32.le_trans hlower.2 (by decide))⟩
      rw [Text.isAlphanum_eq, hle, Bool.or_true, Bool.true_or]
    · cases h
  rw [unreserved, halphanum]
  rfl

theorem hexValue_hexDigit {n : ℕ} (h : n < 16) : hexValue (hexDigit n) = some n :=
  (byte_facts ⟨n, by omega⟩).2.2 h

/-- The first byte of a character is the character or no character at all. -/
theorem head_utf8EncodeChar (c : Char) : ∃ b bs, String.utf8EncodeChar c = b :: bs ∧
    (b.toNat = c.toNat ∨ 128 ≤ b.toNat) := by
  have hor : ∀ x y : UInt8, 128 ≤ y.toNat → 128 ≤ (x ||| y).toNat := fun x y hy => by
    rw [UInt8.toNat_or]
    exact hy.trans Nat.right_le_or
  rcases c.utf8Size_eq with h | h | h | h
  · refine ⟨_, _, String.utf8EncodeChar_eq_singleton h, .inl ?_⟩
    have hlt : c.toNat ≤ 127 := Char.utf8Size_eq_one_iff.mp h
    exact Nat.mod_eq_of_lt (by omega : c.toNat < 256)
  · exact ⟨_, _, String.utf8EncodeChar_eq_cons_cons h, .inr (hor _ _ (by decide))⟩
  · exact ⟨_, _, String.utf8EncodeChar_eq_cons_cons_cons h, .inr (hor _ _ (by decide))⟩
  · exact ⟨_, _, String.utf8EncodeChar_eq_cons_cons_cons_cons h, .inr (hor _ _ (by decide))⟩

theorem decodeUnreserved_percent (s : List Char) :
    (∃ a b t n, s = a :: b :: t ∧ escaped a b = some n ∧ unreserved (Char.ofNat n) = true ∧
      decodeUnreserved ('%' :: s) = Char.ofNat n :: decodeUnreserved t) ∨
    ∃ t, decodeUnreserved ('%' :: s) = '%' :: t := by
  rcases s with _ | ⟨a, _ | ⟨b, t⟩⟩
  · exact .inr ⟨_, rfl⟩
  · exact .inr ⟨_, rfl⟩
  · cases hn : (escaped a b).filter fun n => unreserved (Char.ofNat n) with
    | none =>
      refine .inr ⟨decodeUnreserved (a :: b :: t), (if_pos rfl).trans ?_⟩
      rw [hn]
    | some n =>
      obtain ⟨hsome, hplain⟩ := Option.filter_eq_some_iff.mp hn
      refine .inl ⟨a, b, t, n, rfl, hsome, hplain, (if_pos rfl).trans ?_⟩
      rw [hn]

theorem decodeUnreserved_escape (hn : escaped a b = some n)
    (hplain : unreserved (Char.ofNat n) = true) :
    decodeUnreserved ('%' :: a :: b :: s) = Char.ofNat n :: decodeUnreserved s := by
  have hkept : (some n).filter (fun n => unreserved (Char.ofNat n)) = some n :=
    Option.filter_some_pos hplain
  refine (if_pos rfl).trans ?_
  rw [hn, hkept]

theorem decodeUnreserved_cons (h : c ≠ '%') :
    decodeUnreserved (c :: s) = c :: decodeUnreserved s := by
  rcases s with _ | ⟨a, _ | ⟨b, t⟩⟩
  · rfl
  · rfl
  · exact if_neg h

/-- What is encoded comes back as no unreserved character. -/
theorem decodeUnreserved_encodeChar (h : inPathSet c = true) (s : List Char) :
    ∃ t, decodeUnreserved (encodeChar c ++ s) = '%' :: t := by
  obtain ⟨b, bs, hbytes, hb⟩ := head_utf8EncodeChar c
  have hbyte : b.toNat < 256 := b.toNat_lt
  have hescaped : escaped (hexDigit (b.toNat / 16)) (hexDigit (b.toNat % 16)) = some b.toNat := by
    rw [escaped, hexValue_hexDigit (by omega), hexValue_hexDigit (by omega)]
    exact congrArg some (by omega)
  have hkept : unreserved (Char.ofNat b.toNat) = false := by
    rcases hb with heq | hge
    · rw [heq, Char.ofNat_toNat]
      cases hplain : unreserved c with
      | false => rfl
      | true => exact absurd h (by rw [not_inPathSet hplain]; decide)
    · refine Bool.eq_false_iff.mpr fun hplain => ?_
      exact absurd ((byte_facts ⟨b.toNat, hbyte⟩).1 hplain).2 (not_lt.mpr hge)
  have hshape : encodeChar c ++ s = '%' :: hexDigit (b.toNat / 16) :: hexDigit (b.toNat % 16) ::
      (bs.flatMap quoteByte ++ s) := by
    rw [encodeChar, if_pos h, hbytes]
    rfl
  rw [hshape]
  refine (decodeUnreserved_percent _).resolve_left ?_
  rintro ⟨a, b', t, n, heq, hn, hplain, -⟩
  obtain ⟨rfl, htail⟩ := List.cons.inj heq
  obtain ⟨rfl, -⟩ := List.cons.inj htail
  rw [hescaped, Option.some_inj] at hn
  rw [← hn, hkept] at hplain
  cases hplain

theorem encode_eq_cons (h : encode s = a :: t) (ha : a ≠ '%') :
    ∃ s', s = a :: s' ∧ t = encode s' := by
  cases s with
  | nil => cases h
  | cons c s =>
    rw [encode, List.flatMap_cons, encodeChar] at h
    split at h
    · obtain ⟨b, bs, hbytes, -⟩ := head_utf8EncodeChar c
      rw [hbytes, List.flatMap_cons, quoteByte] at h
      exact absurd (List.cons.inj h).1.symm ha
    · obtain ⟨rfl, rfl⟩ := List.cons.inj h
      exact ⟨s, rfl, rfl⟩

theorem hexValue_lt (h : hexValue c = some n) : n < 16 := by
  obtain ⟨i, rfl⟩ := ascii_of_unreserved (unreserved_of_hexValue (by rw [h]; rfl))
  exact (byte_facts ⟨i, by omega⟩).2.1 n h

theorem escaped_digits (h : escaped a b = some n) :
    unreserved a = true ∧ unreserved b = true ∧ n < 256 := by
  simp only [escaped, Option.bind_eq_bind, Option.bind_eq_some_iff, Option.pure_def,
    Option.some_inj] at h
  obtain ⟨x, hx, y, hy, rfl⟩ := h
  have hx16 := hexValue_lt hx
  have hy16 := hexValue_lt hy
  exact ⟨unreserved_of_hexValue (by rw [hx]; rfl), unreserved_of_hexValue (by rw [hy]; rfl),
    by omega⟩

theorem ne_percent (h : unreserved c = true) : c ≠ '%' := by
  rintro rfl
  exact absurd h (by decide)

theorem encode_cons (h : inPathSet c = false) : encode (c :: s) = c :: encode s := by
  rw [encode, List.flatMap_cons, encodeChar, if_neg (by rw [h]; decide)]
  rfl

theorem decodeUnreserved_encode_percent (s : List Char) :
    (∃ a b t n, s = a :: b :: t ∧ escaped a b = some n ∧ unreserved (Char.ofNat n) = true ∧
      decodeUnreserved (encode ('%' :: s)) = Char.ofNat n :: decodeUnreserved (encode t)) ∨
    ∃ t, decodeUnreserved (encode ('%' :: s)) = '%' :: t := by
  rw [encode_cons (by decide)]
  refine (decodeUnreserved_percent (encode s)).imp_left ?_
  rintro ⟨a, b, t, n, hs, hn, hplain, hdecoded⟩
  obtain ⟨ha, hb, -⟩ := escaped_digits hn
  obtain ⟨s, rfl, htail⟩ := encode_eq_cons hs (ne_percent ha)
  obtain ⟨t, rfl, rfl⟩ := encode_eq_cons htail.symm (ne_percent hb)
  exact ⟨a, b, t, n, rfl, hn, hplain, hdecoded⟩

theorem spells_escape : spells (c :: w) ('%' :: a :: b :: s) =
    (escaped a b = some c.toNat && spells w s) := if_pos rfl

theorem spells_percent (h : ¬∃ a b t, s = a :: b :: t ∧ escaped a b = some c.toNat) :
    spells (c :: w) ('%' :: s) = false := by
  rcases s with _ | ⟨a, _ | ⟨b, t⟩⟩
  · exact if_pos rfl
  · exact if_pos rfl
  · have hescaped : escaped a b ≠ some c.toNat := fun heq => h ⟨a, b, t, rfl, heq⟩
    rw [spells_escape, decide_eq_false hescaped, Bool.false_and]

theorem spells_cons (h : c ≠ '%') : spells (a :: w) (c :: s) = (a = c && spells w s) := if_neg h

/-- A segment stands for a text of unreserved characters when it spells it. -/
theorem decodeUnreserved_encode_iff (hw : ∀ c ∈ w, unreserved c = true) :
    decodeUnreserved (encode s) = w ↔ spells w s = true := by
  induction w generalizing s with
  | nil =>
    cases s with
    | nil => exact iff_of_true rfl rfl
    | cons d s =>
      refine iff_of_false (fun hnil => ?_) Bool.false_ne_true
      by_cases hd : d = '%'
      · subst hd
        rcases decodeUnreserved_encode_percent s with ⟨a, b, t, n, -, -, -, heq⟩ | ⟨t, heq⟩ <;>
          exact absurd (heq.symm.trans hnil) (List.cons_ne_nil _ _)
      cases hset : inPathSet d with
      | true =>
        obtain ⟨t, heq⟩ := decodeUnreserved_encodeChar hset (encode s)
        exact absurd (heq.symm.trans hnil) (List.cons_ne_nil _ _)
      | false =>
        rw [encode_cons hset, decodeUnreserved_cons hd] at hnil
        cases hnil
  | cons c w ih =>
    obtain ⟨hc, hw⟩ := List.forall_mem_cons.mp hw
    cases s with
    | nil => exact iff_of_false (List.cons_ne_nil _ _).symm Bool.false_ne_true
    | cons d s =>
      by_cases hd : d = '%'
      · subst hd
        by_cases hesc : ∃ a b t, s = a :: b :: t ∧ escaped a b = some c.toNat
        · obtain ⟨a, b, t, rfl, hn⟩ := hesc
          obtain ⟨ha, hb, -⟩ := escaped_digits hn
          have hplain : unreserved (Char.ofNat c.toNat) = true := by rwa [Char.ofNat_toNat]
          rw [encode_cons (by decide), encode_cons (not_inPathSet ha), encode_cons (not_inPathSet hb),
            decodeUnreserved_escape hn hplain, spells_escape, decide_eq_true hn, Bool.true_and,
            Char.ofNat_toNat, List.cons.injEq, ← ih hw]
          exact and_iff_right rfl
        · rw [spells_percent hesc]
          refine iff_of_false (fun heq => ?_) Bool.false_ne_true
          rcases decodeUnreserved_encode_percent s with ⟨a, b, t, n, hs, hn, -, hdecoded⟩ | ⟨t, ht⟩
          · have hsame := (List.cons.inj (hdecoded.symm.trans heq)).1
            refine hesc ⟨a, b, t, hs, ?_⟩
            have hbyte := (escaped_digits hn).2.2
            rw [hn, ← hsame, Char.ofNat, dif_pos (.inl (by omega))]
            rfl
          · exact ne_percent hc (List.cons.inj (ht.symm.trans heq)).1.symm
      rw [spells_cons hd, Bool.and_eq_true, decide_eq_true_iff]
      cases hset : inPathSet d with
      | true =>
        obtain ⟨t, ht⟩ := decodeUnreserved_encodeChar hset (encode s)
        refine iff_of_false (fun heq => ne_percent hc (List.cons.inj (ht.symm.trans heq)).1.symm) ?_
        rintro ⟨rfl, -⟩
        rw [not_inPathSet hc] at hset
        cases hset
      | false =>
        rw [encode_cons hset, decodeUnreserved_cons hd, List.cons.injEq, ih hw, eq_comm]

end Spelling

/-! ### What comes first -/

def isName (s : Segment) : Bool := !isDot s && !isDotDot s

def names (ss : List Segment) : ℕ := ss.countP isName
def backs (ss : List Segment) : ℕ := ss.countP isDotDot

def depth (ss : List Segment) : ℕ :=
  ss.foldl (fun n s => if isDotDot s then n - 1 else if isDot s then n else n + 1) 0

/-- The segment `s` spells `w`, what stands before it is taken back and it is not. -/
structure Stands (w : List Char) (before : List Segment) (s : Segment) (after : List Segment) :
    Prop where
  spelled : spells w s = true
  taken : depth before = 0
  kept : ∀ p, p <+: after → backs p ≤ names p

section Walk
variable {w : List Char} {ss before after t : List Segment} {s y : Segment}

theorem segment_cases (s : Segment) :
    (isDotDot s = true ∧ isName s = false ∧ ∀ path, step path s = path.dropLast) ∨
    (isDotDot s = false ∧ isName s = false ∧ ∀ path, step path s = path) ∨
    (isDotDot s = false ∧ isName s = true ∧ ∀ path, step path s = path ++ [encode s]) := by
  unfold isName step
  cases isDotDot s <;> cases isDot s <;> simp

theorem length_foldl_step (ss : List Segment) : (ss.foldl step []).length = depth ss := by
  induction ss using List.reverseRecOn with
  | nil => rfl
  | append_singleton ss s ih =>
    rw [depth, List.foldl_append, List.foldl_append, ← depth, ← ih, List.foldl_cons, List.foldl_nil,
      List.foldl_cons, List.foldl_nil, step]
    split
    · rw [List.length_dropLast]
    · split
      · rfl
      · rw [List.length_append, List.length_singleton]

theorem walk_eq (path : List Segment) (ss : List Segment) (s : Segment) :
    walk path (ss ++ [s]) =
      (ss ++ [s]).foldl step path ++ if isName s = true then [] else [[]] := by
  induction ss generalizing path with
  | nil =>
    simp only [List.nil_append, walk, List.foldl_cons, List.foldl_nil, step, isName]
    by_cases hback : isDotDot s = true <;> by_cases hdot : isDot s = true <;> simp [hback, hdot]
  | cons a ss ih =>
    rw [List.cons_append, List.foldl_cons, ← ih]
    cases hrest : ss ++ [s] with
    | nil => simp at hrest
    | cons b rest =>
      rw [walk]
      exact List.cons_ne_nil b rest

theorem kept_append (h : ∀ p, p <+: after → backs p ≤ names p)
    (hall : backs (after ++ [s]) ≤ names (after ++ [s])) :
    ∀ p, p <+: after ++ [s] → backs p ≤ names p := by
  intro p hp
  rcases List.prefix_concat_iff.mp hp with rfl | hp
  · exact hall
  · exact h p hp

theorem backs_append (after : List Segment) (s : Segment) :
    backs (after ++ [s]) = backs after + if isDotDot s = true then 1 else 0 := by
  rw [backs, backs, List.countP_append, List.countP_singleton]

theorem names_append (after : List Segment) (s : Segment) :
    names (after ++ [s]) = names after + if isName s = true then 1 else 0 := by
  rw [names, names, List.countP_append, List.countP_singleton]

/-- The first segment of the result comes from one that stands. -/
theorem exists_stands (h : ss.foldl step [] = y :: t) :
    ∃ before s after, ss = before ++ s :: after ∧ isName s = true ∧ encode s = y ∧
      depth before = 0 ∧ (∀ p, p <+: after → backs p ≤ names p) ∧
      t.length + backs after = names after := by
  induction ss using List.reverseRecOn generalizing t with
  | nil => cases h
  | append_singleton ss a ih =>
    rw [List.foldl_append, List.foldl_cons, List.foldl_nil] at h
    -- A name may be the first itself; anything else lengthens what follows the first.
    have hlonger : ∀ t', ss.foldl step [] = y :: t' →
        (t.length + (if isDotDot a = true then 1 else 0) =
          t'.length + if isName a = true then 1 else 0) →
        ∃ before s after, ss ++ [a] = before ++ s :: after ∧ isName s = true ∧ encode s = y ∧
          depth before = 0 ∧ (∀ p, p <+: after → backs p ≤ names p) ∧
          t.length + backs after = names after := by
      intro t' ht' hlen
      obtain ⟨before, s, after, rfl, hname, hy, hdepth, hkept, hcount⟩ := ih ht'
      have hcount' : t.length + backs (after ++ [a]) = names (after ++ [a]) := by
        rw [backs_append, names_append]
        omega
      exact ⟨before, s, after ++ [a], by simp, hname, hy, hdepth,
        kept_append hkept (by omega), hcount'⟩
    rcases segment_cases a with ⟨hback, hname, hstep⟩ | ⟨hback, hname, hstep⟩ | ⟨hback, hname, hstep⟩
    · rw [hstep] at h
      have hne : ss.foldl step [] ≠ [] := by
        intro hnil
        rw [hnil] at h
        cases h
      refine hlonger (t ++ [(ss.foldl step []).getLast hne]) ?_ (by simp [hback, hname])
      rw [← List.cons_append, ← h, List.dropLast_append_getLast]
    · rw [hstep] at h
      exact hlonger t h (by simp [hback, hname])
    · rw [hstep] at h
      cases hss : ss.foldl step [] with
      | nil =>
        rw [hss] at h
        obtain ⟨rfl, rfl⟩ := List.cons.inj h
        refine ⟨ss, a, [], rfl, hname, rfl, ?_, ?_, rfl⟩
        · rw [← length_foldl_step, hss, List.length_nil]
        · intro p hp
          rw [List.prefix_nil.mp hp]
          exact le_rfl
      | cons y' t' =>
        rw [hss] at h
        obtain ⟨rfl, rfl⟩ := List.cons.inj h
        exact hlonger t' hss (by simp [hback, hname])

theorem foldl_step_kept (h : ∀ p, p <+: after → backs p ≤ names p) :
    ∃ t, after.foldl step [y] = y :: t ∧ t.length + backs after = names after := by
  induction after using List.reverseRecOn with
  | nil => exact ⟨[], rfl, rfl⟩
  | append_singleton after a ih =>
    obtain ⟨t, ht, hcount⟩ := ih fun p hp => h p (hp.trans (List.prefix_append _ _))
    have hall := h _ (List.prefix_refl _)
    rw [backs_append, names_append] at hall ⊢
    rw [List.foldl_append, ht, List.foldl_cons, List.foldl_nil]
    rcases segment_cases a with ⟨hback, hname, hstep⟩ | ⟨hback, hname, hstep⟩ | ⟨hback, hname, hstep⟩
    · rw [hstep, if_pos hback, if_neg (by rw [hname]; decide)] at *
      have hne : t ≠ [] := by
        rintro rfl
        rw [List.length_nil] at hcount
        omega
      refine ⟨t.dropLast, ?_, ?_⟩
      · rw [List.dropLast_cons_of_ne_nil hne]
      · have hpos := List.length_pos_iff.mpr hne
        rw [List.length_dropLast]
        omega
    · exact ⟨t, hstep _, by simp [hback, hname, hcount]⟩
    · refine ⟨t ++ [encode a], hstep _, ?_⟩
      simp only [hback, hname, List.length_append, List.length_singleton, if_true,
        Bool.false_eq_true, if_false]
      omega

theorem foldl_step_stands (hname : isName s = true) (htaken : depth before = 0)
    (hkept : ∀ p, p <+: after → backs p ≤ names p) :
    ∃ t, (before ++ s :: after).foldl step [] = encode s :: t ∧
      t.length + backs after = names after := by
  have hnil : before.foldl step [] = [] := List.eq_nil_of_length_eq_zero
    ((length_foldl_step before).trans htaken)
  have hfirst : step [] s = [encode s] := by
    simp only [isName, Bool.and_eq_true, Bool.not_eq_true'] at hname
    rw [step, if_neg (by rw [hname.2]; decide), if_neg (by rw [hname.1]; decide), List.nil_append]
  rw [List.foldl_append, hnil, List.foldl_cons, hfirst]
  exact foldl_step_kept hkept

theorem isName_of_spells (hw : ∀ c ∈ w, unreserved c = true) (hdot : w ≠ ['.'])
    (hback : w ≠ ['.', '.']) (h : spells w s = true) : isName s = true := by
  have hdecoded := (decodeUnreserved_encode_iff hw).mpr h
  have hother : ∀ w', (∀ c ∈ w', unreserved c = true) → w ≠ w' → spells w' s = false := by
    intro w' hw' hne
    cases hspells : spells w' s with
    | false => rfl
    | true => exact absurd (hdecoded.symm.trans ((decodeUnreserved_encode_iff hw').mpr hspells)) hne
  have hdotted : ∀ c ∈ ['.', '.'], unreserved c = true := List.all_eq_true.mp rfl
  rw [isName, isDot, isDotDot, hother _ hdotted hback,
    hother _ (fun c hc => hdotted c (List.mem_cons_of_mem _ hc)) hdot]
  rfl

section Named
variable (hw : ∀ c ∈ w, unreserved c = true) (hdot : w ≠ ['.']) (hback : w ≠ ['.', '.'])
  (hne : w ≠ [])
include hw hdot hback hne

/-- The walked path begins with `w` when a segment stands that spells it. -/
theorem head_walk_iff : ((walk [] ss).map decodeUnreserved).head? = some w ↔
    ∃ before s after, ss = before ++ s :: after ∧ Stands w before s after := by
  rcases List.eq_nil_or_concat ss with rfl | ⟨init, last, rfl⟩
  · refine iff_of_false (by simp [walk]) ?_
    rintro ⟨before, s, after, hss, -⟩
    simp at hss
  rw [List.concat_eq_append, walk_eq]
  constructor
  · intro h
    cases hpath : (init ++ [last]).foldl step [] with
    | nil =>
      rw [hpath] at h
      split at h
      · cases h
      · exact absurd (Option.some_inj.mp h).symm hne
    | cons y t =>
      rw [hpath] at h
      obtain ⟨before, s, after, hss, -, rfl, htaken, hkept, -⟩ := exists_stands hpath
      exact ⟨before, s, after, hss, (decodeUnreserved_encode_iff hw).mp (Option.some_inj.mp h),
        htaken, hkept⟩
  · rintro ⟨before, s, after, hss, hstands⟩
    obtain ⟨t, ht, -⟩ := foldl_step_stands (isName_of_spells hw hdot hback hstands.spelled)
      hstands.taken hstands.kept
    rw [hss, ht, List.cons_append, List.map_cons, List.head?_cons,
      (decodeUnreserved_encode_iff hw).mpr hstands.spelled]

/-- It is `w` alone when that segment is the last. -/
theorem walk_eq_singleton_iff : (walk [] ss).map decodeUnreserved = [w] ↔
    ∃ before s, ss = before ++ [s] ∧ Stands w before s [] := by
  constructor
  · intro h
    have hhead : ((walk [] ss).map decodeUnreserved).head? = some w := by rw [h, List.head?_cons]
    obtain ⟨before, s, after, rfl, hstands⟩ := (head_walk_iff hw hdot hback hne).mp hhead
    obtain ⟨t, ht, hcount⟩ := foldl_step_stands (isName_of_spells hw hdot hback hstands.spelled)
      hstands.taken hstands.kept
    rcases List.eq_nil_or_concat after with rfl | ⟨init, last, rfl⟩
    · exact ⟨before, s, rfl, hstands⟩
    -- A last segment leaves something behind the first.
    exfalso
    rw [List.concat_eq_append] at *
    have hlen := congrArg List.length h
    rw [← List.cons_append, ← List.append_assoc, walk_eq, List.append_assoc, List.cons_append, ht,
      List.length_map, List.length_append, List.length_cons, List.length_singleton] at hlen
    rw [backs_append, names_append] at hcount
    have hkept := hstands.kept init (List.prefix_append _ _)
    rcases segment_cases last with ⟨hb, hn, -⟩ | ⟨hb, hn, -⟩ | ⟨hb, hn, -⟩ <;>
      simp only [hb, hn, Bool.false_eq_true, if_true, if_false, List.length_nil,
        List.length_singleton] at hlen hcount <;> omega
  · rintro ⟨before, s, rfl, hstands⟩
    have hname := isName_of_spells hw hdot hback hstands.spelled
    obtain ⟨t, ht, hcount⟩ := foldl_step_stands hname hstands.taken hstands.kept
    have hnil : t = [] := List.eq_nil_of_length_eq_zero (by simpa [backs, names] using hcount)
    rw [walk_eq, ht, hnil, if_pos hname, List.append_nil, List.map_singleton,
      (decodeUnreserved_encode_iff hw).mpr hstands.spelled]

end Named

end Walk

end MonitoringHub.Lib.UrlPath
