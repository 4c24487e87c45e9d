import Mathlib.Data.List.Infix

/-! Backtracking patterns over text: one-character classes, greedy runs and options, and
tests of the character before and the characters after. `run` lists every way to match at
a position in the order in which a backtracking matcher tries them, so its head is the
match such a matcher reports; `sub` replaces the leftmost matches one after the other.
`Match` is what a pattern means without the order. -/

namespace MonitoringHub.Lib

inductive Pattern
  | one (p : Char → Bool)
  | many (p : Char → Bool)
  | seq (first second : Pattern)
  | opt (inner : Pattern)
  | after (p : Char → Bool)
  | notAfter (p : Char → Bool)
  | before (ps : List (Char → Bool))
  | notBefore (p : Char → Bool)

namespace Pattern

/-- The character before what follows `taken`. -/
def lastOf (prev : Option Char) (taken : List Char) : Option Char := taken.getLast?.or prev

/-- A text starts with one character of each class. -/
def leads : List (Char → Bool) → List Char → Bool
  | [], _ => true
  | _ :: _, [] => false
  | p :: ps, c :: s => p c && leads ps s

def manyRuns (p : Char → Bool) : List Char → List (List Char × List Char)
  | [] => [([], [])]
  | c :: s =>
    if p c then (manyRuns p s).map (fun m => (c :: m.1, m.2)) ++ [([], c :: s)]
    else [([], c :: s)]

/-- The matches at a position, as text taken and text left, best first. -/
def run : Pattern → Option Char → List Char → List (List Char × List Char)
  | one p, _, s =>
    match s with
    | [] => []
    | c :: rest => if p c then [([c], rest)] else []
  | many p, _, s => manyRuns p s
  | seq a b, prev, s =>
    (run a prev s).flatMap fun m =>
      (run b (lastOf prev m.1) m.2).map fun n => (m.1 ++ n.1, n.2)
  | opt a, prev, s => run a prev s ++ [([], s)]
  | after p, prev, s => if prev.any p then [([], s)] else []
  | notAfter p, prev, s => if prev.any p then [] else [([], s)]
  | before ps, _, s => if leads ps s then [([], s)] else []
  | notBefore p, _, s => if s.head?.any p then [] else [([], s)]

/-- The text a pattern takes after `prev` when `rest` is left. -/
inductive Match : Pattern → Option Char → List Char → List Char → Prop
  | one {p : Char → Bool} {prev : Option Char} {c : Char} {rest : List Char} (h : p c = true) :
    Match (.one p) prev [c] rest
  | many {p : Char → Bool} {prev : Option Char} {taken rest : List Char}
    (h : ∀ c ∈ taken, p c = true) : Match (.many p) prev taken rest
  | seq {a b : Pattern} {prev : Option Char} {t u rest : List Char} (ha : Match a prev t (u ++ rest))
    (hb : Match b (lastOf prev t) u rest) : Match (.seq a b) prev (t ++ u) rest
  | some {a : Pattern} {prev : Option Char} {t rest : List Char} (h : Match a prev t rest) :
    Match (.opt a) prev t rest
  | none {a : Pattern} {prev : Option Char} {rest : List Char} : Match (.opt a) prev [] rest
  | after {p : Char → Bool} {prev : Option Char} {rest : List Char} (h : prev.any p = true) :
    Match (.after p) prev [] rest
  | notAfter {p : Char → Bool} {prev : Option Char} {rest : List Char} (h : prev.any p = false) :
    Match (.notAfter p) prev [] rest
  | before {ps : List (Char → Bool)} {prev : Option Char} {rest : List Char}
    (h : leads ps rest = true) : Match (.before ps) prev [] rest
  | notBefore {p : Char → Bool} {prev : Option Char} {rest : List Char}
    (h : rest.head?.any p = false) : Match (.notBefore p) prev [] rest

theorem mem_manyRuns {p : Char → Bool} {s taken rest : List Char}
    (h : (taken, rest) ∈ manyRuns p s) : s = taken ++ rest ∧ ∀ c ∈ taken, p c = true := by
  induction s generalizing taken with
  | nil =>
    obtain ⟨rfl, rfl⟩ := Prod.mk.inj (List.mem_singleton.mp h)
    simp
  | cons c s ih =>
    rw [manyRuns] at h
    split at h
    · rename_i hc
      rcases List.mem_append.mp h with h | h
      · obtain ⟨m, hm, heq⟩ := List.mem_map.mp h
        obtain ⟨rfl, rfl⟩ := Prod.mk.inj heq
        obtain ⟨hs, hall⟩ := ih hm
        refine ⟨by rw [hs, List.cons_append], ?_⟩
        simpa [hc] using hall
      · obtain ⟨rfl, rfl⟩ := Prod.mk.inj (List.mem_singleton.mp h)
        simp
    · obtain ⟨rfl, rfl⟩ := Prod.mk.inj (List.mem_singleton.mp h)
      simp

theorem mem_run {r : Pattern} {prev : Option Char} {s taken rest : List Char}
    (h : (taken, rest) ∈ run r prev s) : s = taken ++ rest ∧ Match r prev taken rest := by
  induction r generalizing prev s taken rest with
  | one p =>
    cases s with
    | nil => cases h
    | cons c s =>
      simp only [run] at h
      split at h
      · rename_i hc
        obtain ⟨rfl, rfl⟩ := Prod.mk.inj (List.mem_singleton.mp h)
        exact ⟨rfl, .one hc⟩
      · cases h
  | many p => exact (mem_manyRuns h).imp id .many
  | seq a b iha ihb =>
    obtain ⟨m, hm, h⟩ := List.mem_flatMap.mp h
    obtain ⟨n, hn, heq⟩ := List.mem_map.mp h
    obtain ⟨rfl, rfl⟩ := Prod.mk.inj heq
    obtain ⟨hs, hma⟩ := iha hm
    obtain ⟨hs', hmb⟩ := ihb hn
    rw [hs'] at hs hma
    exact ⟨by rw [hs, List.append_assoc], .seq hma hmb⟩
  | opt a ih =>
    rcases List.mem_append.mp h with h | h
    · exact (ih h).imp id .some
    · obtain ⟨rfl, rfl⟩ := Prod.mk.inj (List.mem_singleton.mp h)
      exact ⟨rfl, .none⟩
  | after p | notAfter p | before ps | notBefore p =>
    simp only [run] at h
    split at h
    all_goals first
      | cases h; done
      | obtain ⟨rfl, rfl⟩ := Prod.mk.inj (List.mem_singleton.mp h)
        exact ⟨rfl, by constructor; simp_all⟩

/-- What the matcher takes at a position. -/
def matchAt (r : Pattern) (prev : Option Char) (s : List Char) : Option (List Char) :=
  ((run r prev s).head?).map Prod.fst

theorem matchAt_some {r : Pattern} {prev : Option Char} {s taken : List Char}
    (h : matchAt r prev s = some taken) : ∃ rest, s = taken ++ rest ∧ Match r prev taken rest := by
  obtain ⟨m, hm, rfl⟩ := Option.map_eq_some_iff.mp h
  exact ⟨m.2, mem_run (List.mem_of_mem_head? hm)⟩

/-- `skip` characters of the match reported last are still to be passed over. -/
def subFrom (r : Pattern) (repl : List Char) : ℕ → Option Char → List Char → List Char
  | skip, prev, [] => if skip = 0 ∧ (matchAt r prev []).isSome then repl else []
  | 0, prev, c :: s =>
    match matchAt r prev (c :: s) with
    | none => c :: subFrom r repl 0 (some c) s
    | some [] => repl ++ c :: subFrom r repl 0 (some c) s
    | some (_ :: taken) => repl ++ subFrom r repl taken.length (some c) s
  | skip + 1, _, c :: s => subFrom r repl skip (some c) s

def sub (r : Pattern) (repl s : List Char) : List Char := subFrom r repl 0 none s

/-- The matches, leftmost first, none overlapping the one before. -/
def findFrom (r : Pattern) : ℕ → Option Char → List Char → List (List Char)
  | skip, prev, [] => if skip = 0 then (matchAt r prev []).toList else []
  | 0, prev, c :: s =>
    match matchAt r prev (c :: s) with
    | none => findFrom r 0 (some c) s
    | some [] => [] :: findFrom r 0 (some c) s
    | some (d :: taken) => (d :: taken) :: findFrom r taken.length (some c) s
  | skip + 1, _, c :: s => findFrom r skip (some c) s

def findAll (r : Pattern) (s : List Char) : List (List Char) := findFrom r 0 none s

@[simp] theorem lastOf_nil (prev : Option Char) : lastOf prev [] = prev := rfl

theorem lastOf_append (prev : Option Char) (t u : List Char) :
    lastOf prev (t ++ u) = lastOf (lastOf prev t) u := by
  cases u with
  | nil => simp
  | cons c u => simp [lastOf, List.getLast?_append, Option.or_assoc]

theorem lastOf_cons (prev : Option Char) (c : Char) (t : List Char) :
    lastOf prev (c :: t) = lastOf (some c) t := lastOf_append prev [c] t

theorem mem_findFrom {r : Pattern} {skip : ℕ} {prev : Option Char} {s m : List Char}
    (h : m ∈ findFrom r skip prev s) :
    ∃ a b, s = a ++ m ++ b ∧ Match r (lastOf prev a) m b := by
  induction s generalizing skip prev with
  | nil =>
    simp only [findFrom] at h
    split at h
    · obtain ⟨rest, hs, hm⟩ := matchAt_some (Option.mem_toList.mp h)
      exact ⟨[], rest, hs, hm⟩
    · cases h
  | cons c s ih =>
    have hlater : ∀ {k}, m ∈ findFrom r k (some c) s →
        ∃ a b, c :: s = a ++ m ++ b ∧ Match r (lastOf prev a) m b := by
      intro k hk
      obtain ⟨a, b, rfl, hm⟩ := ih hk
      exact ⟨c :: a, b, rfl, by rwa [lastOf_cons]⟩
    cases skip with
    | zero =>
      have hhere : ∀ {t}, matchAt r prev (c :: s) = some t → m = t →
          ∃ a b, c :: s = a ++ m ++ b ∧ Match r (lastOf prev a) m b := by
        rintro t ht rfl
        obtain ⟨rest, hs, hm⟩ := matchAt_some ht
        exact ⟨[], rest, hs, hm⟩
      rw [findFrom] at h
      split at h
      · exact hlater h
      · rename_i ht
        exact (List.mem_cons.mp h).elim (hhere ht) hlater
      · rename_i ht
        exact (List.mem_cons.mp h).elim (hhere ht) hlater
    | succ skip => exact hlater h

theorem findAll_eq_nil {r : Pattern} {s : List Char}
    (h : ∀ a m b, s = a ++ m ++ b → ¬ Match r (lastOf none a) m b) : findAll r s = [] := by
  refine List.eq_nil_iff_forall_not_mem.mpr fun m hm => ?_
  obtain ⟨a, b, hs, hmatch⟩ := mem_findFrom hm
  exact h a m b hs hmatch

theorem subFrom_of_findFrom {r : Pattern} {repl : List Char} {prev : Option Char} {s : List Char}
    (h : findFrom r 0 prev s = []) : subFrom r repl 0 prev s = s := by
  induction s generalizing prev with
  | nil =>
    simp only [findFrom, ↓reduceIte, Option.toList_eq_nil_iff] at h
    simp [subFrom, h]
  | cons c s ih =>
    rw [findFrom] at h
    rw [subFrom]
    split at h
    · exact congrArg (c :: ·) (ih h)
    · cases h
    · cases h

theorem sub_of_findAll {r : Pattern} {repl s : List Char} (h : findAll r s = []) :
    sub r repl s = s := subFrom_of_findFrom h

theorem subFrom_skip (r : Pattern) (repl : List Char) (prev : Option Char) (t s : List Char) :
    subFrom r repl t.length prev (t ++ s) = subFrom r repl 0 (lastOf prev t) s := by
  induction t generalizing prev with
  | nil => rfl
  | cons c t ih => rw [List.cons_append, List.length_cons, subFrom, ih, lastOf_cons]

theorem findFrom_skip (r : Pattern) (prev : Option Char) (t s : List Char) :
    findFrom r t.length prev (t ++ s) = findFrom r 0 (lastOf prev t) s := by
  induction t generalizing prev with
  | nil => rfl
  | cons c t ih => rw [List.cons_append, List.length_cons, findFrom, ih, lastOf_cons]

/-- A pattern that never takes the empty text. -/
def Solid (r : Pattern) : Prop := ∀ prev rest, ¬ Match r prev [] rest

/-- The first match cuts the text in three; what follows it is treated on its own. -/
theorem findFrom_cons {r : Pattern} (hr : r.Solid) (repl : List Char) {prev : Option Char}
    {s m : List Char} {ms : List (List Char)} (h : findFrom r 0 prev s = m :: ms) :
    ∃ a b, s = a ++ m ++ b ∧ Match r (lastOf prev a) m b ∧
      ms = findFrom r 0 (lastOf prev (a ++ m)) b ∧
      subFrom r repl 0 prev s = a ++ repl ++ subFrom r repl 0 (lastOf prev (a ++ m)) b := by
  induction s generalizing prev with
  | nil =>
    simp only [findFrom, ↓reduceIte] at h
    obtain ⟨rest, hs, hm⟩ := matchAt_some (s := [])
      (Option.mem_toList.mp (h ▸ List.mem_cons_self : m ∈ (matchAt r prev []).toList))
    obtain ⟨rfl, rfl⟩ := List.append_eq_nil_iff.mp hs.symm
    exact absurd hm (hr _ _)
  | cons c s ih =>
    rw [findFrom] at h
    rw [subFrom]
    split at h
    · obtain ⟨a, b, rfl, hm, hms, hsub⟩ := ih h
      refine ⟨c :: a, b, rfl, by rwa [lastOf_cons], by rwa [List.cons_append, lastOf_cons], ?_⟩
      rw [hsub, List.cons_append, List.cons_append, List.cons_append, lastOf_cons]
    · rename_i hempty
      obtain ⟨rest, -, hm⟩ := matchAt_some hempty
      exact absurd hm (hr _ _)
    · rename_i d taken htaken
      obtain ⟨rfl, rfl⟩ := List.cons.inj h
      obtain ⟨rest, hs, hm⟩ := matchAt_some htaken
      rw [List.cons_append] at hs
      obtain ⟨rfl, rfl⟩ := List.cons.inj hs
      refine ⟨[], rest, rfl, hm, ?_, ?_⟩
      · rw [findFrom_skip, List.nil_append, lastOf_cons]
      · rw [subFrom_skip, List.nil_append, List.nil_append, lastOf_cons]

/-- A pattern that takes no text, only tests its surroundings. -/
def Bare (r : Pattern) : Prop := ∀ prev t rest, Match r prev t rest → t = []

/-- Inserting at the places a bare pattern matches adds the inserted text and moves nothing. -/
theorem subFrom_bare {β : Type*} {r : Pattern} (hr : r.Bare) {repl : List Char}
    {f : Char → Option β} (hrepl : repl.filterMap f = []) (prev : Option Char) (s : List Char) :
    (subFrom r repl 0 prev s).filterMap f = s.filterMap f := by
  induction s generalizing prev with
  | nil =>
    rw [subFrom]
    split
    · exact hrepl
    · rfl
  | cons c s ih =>
    rw [subFrom]
    split
    · rw [List.filterMap_cons, ih, List.filterMap_cons]
    · rw [List.filterMap_append, hrepl, List.nil_append, List.filterMap_cons, ih,
        List.filterMap_cons]
    · rename_i d taken htaken
      obtain ⟨rest, -, hm⟩ := matchAt_some htaken
      cases hr _ _ _ hm

theorem sub_bare {β : Type*} {r : Pattern} (hr : r.Bare) {repl : List Char} {f : Char → Option β}
    (hrepl : repl.filterMap f = []) (s : List Char) : (sub r repl s).filterMap f = s.filterMap f :=
  subFrom_bare hr hrepl none s

/-- The maximal runs of characters of a class, `current` being the run read so far, reversed. -/
def piecesFrom (p : Char → Bool) : List Char → List Char → List (List Char)
  | current, [] => if current = [] then [] else [current.reverse]
  | current, c :: s =>
    if p c then piecesFrom p (c :: current) s
    else if current = [] then piecesFrom p [] s
    else current.reverse :: piecesFrom p [] s

/-- `re.split` on the runs of characters outside the class, empty strings left out. -/
def pieces (p : Char → Bool) (s : List Char) : List (List Char) := piecesFrom p [] s

theorem piecesFrom_cons {p : Char → Bool} {current s t : List Char} {ts : List (List Char)}
    (hcur : ∀ c ∈ current, p c = true) (h : piecesFrom p current s = t :: ts) :
    t ≠ [] ∧ (∀ c ∈ t, p c = true) ∧ ∃ a b, current.reverse ++ s = a ++ t ++ b ∧
      (∀ c ∈ a, p c = false) ∧ ts = pieces p b := by
  induction s generalizing current with
  | nil =>
    rw [piecesFrom] at h
    split at h
    · cases h
    · rename_i hne
      obtain ⟨rfl, rfl⟩ := List.cons.inj h
      exact ⟨by simpa using hne, by simpa using hcur, [], [], by simp, by simp, rfl⟩
  | cons c s ih =>
    rw [piecesFrom] at h
    split at h
    · rename_i hc
      obtain ⟨hne, hall, a, b, heq, hrest⟩ := ih (by simpa [hc] using hcur) h
      exact ⟨hne, hall, a, b, by simpa using heq, hrest⟩
    · rename_i hc
      have hc' : p c = false := by simpa using hc
      split at h
      · rename_i hempty
        obtain ⟨hne, hall, a, b, heq, ha, hts⟩ := ih (by simp) h
        refine ⟨hne, hall, c :: a, b, ?_, by simpa [hc'] using ha, hts⟩
        simpa [hempty] using heq
      · rename_i hne
        obtain ⟨rfl, rfl⟩ := List.cons.inj h
        refine ⟨by simpa using hne, by simpa using hcur, [], c :: s, by simp, by simp, ?_⟩
        rw [pieces, piecesFrom, if_neg hc, if_pos rfl]

theorem pieces_cons {p : Char → Bool} {s t : List Char} {ts : List (List Char)}
    (h : pieces p s = t :: ts) : t ≠ [] ∧ (∀ c ∈ t, p c = true) ∧
      ∃ a b, s = a ++ t ++ b ∧ (∀ c ∈ a, p c = false) ∧ ts = pieces p b :=
  piecesFrom_cons (by simp) h

/-- A piece is a run of the text. -/
theorem infix_of_mem_pieces {p : Char → Bool} {s t : List Char} (h : t ∈ pieces p s) :
    (∀ c ∈ t, p c = true) ∧ t <:+: s := by
  generalize hts : pieces p s = ts at h
  induction ts generalizing s with
  | nil => cases h
  | cons t' ts ih =>
    obtain ⟨-, hall, a, b, rfl, -, hrest⟩ := pieces_cons hts
    rcases List.mem_cons.mp h with rfl | h
    · exact ⟨hall, a, b, rfl⟩
    · exact (ih hrest.symm h).imp id fun hin => hin.trans (List.suffix_append _ _).isInfix

end Pattern
end MonitoringHub.Lib
