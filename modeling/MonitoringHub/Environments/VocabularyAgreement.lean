import Mathlib.Data.List.TakeWhile
import MonitoringHub.Environments.EnvironmentClassifier
import MonitoringHub.Lib.Text

/-! When the name scanner reads a label as the vocabulary does. The letters of a label are
the same for both; the scanner also looks at where the label is cut. -/

namespace MonitoringHub.Environments
open Alerts Lib Lib.Pattern

def alnums (s : List Char) : List Char := s.filterMap letter

@[simp] theorem alnums_nil : alnums [] = [] := rfl

@[simp] theorem alnums_append (s t : List Char) : alnums (s ++ t) = alnums s ++ alnums t :=
  List.filterMap_append

theorem alnums_infixed {s t : List Char} (h : s <:+: t) : alnums s <:+: alnums t := by
  obtain ⟨a, b, rfl⟩ := h
  exact ⟨alnums a, alnums b, by rw [alnums_append, alnums_append]⟩

/-! Trailing digits. -/

def Digits (s : List Char) : Prop := ∀ c ∈ s, c.isDigit = true

theorem dropTrailingDigits_starts (s : List Char) : dropTrailingDigits s <+: s := by
  have h := List.reverse_prefix.mpr (List.dropWhile_suffix Char.isDigit (l := s.reverse))
  rwa [List.reverse_reverse] at h

theorem dropTrailingDigits_append (s : List Char) {ds : List Char} (h : Digits ds) :
    dropTrailingDigits (s ++ ds) = dropTrailingDigits s := by
  rw [dropTrailingDigits, List.reverse_append,
    List.dropWhile_append_of_pos (fun c hc => h c (List.mem_reverse.mp hc))]
  rfl

theorem dropTrailingDigits_digits {ds : List Char} (h : Digits ds) : dropTrailingDigits ds = [] := by
  simpa [dropTrailingDigits] using dropTrailingDigits_append [] h

theorem exists_digits (s : List Char) : ∃ ds, s = dropTrailingDigits s ++ ds ∧ Digits ds := by
  refine ⟨(s.reverse.takeWhile Char.isDigit).reverse, ?_, fun c hc => ?_⟩
  · rw [dropTrailingDigits, ← List.reverse_append, List.takeWhile_append_dropWhile,
      List.reverse_reverse]
  · exact List.mem_takeWhile_imp (List.mem_reverse.mp hc)

/-- What a run of `y ++ ds` is without its trailing digits is a run of `y`. -/
theorem infix_of_digits {u y ds : List Char} (hds : Digits ds) (h : u <:+: y ++ ds) :
    dropTrailingDigits u <:+: y := by
  rcases List.infix_append_iff.mp h with h | h | ⟨y', ds', rfl, hy, hd⟩
  · exact (dropTrailingDigits_starts u).isInfix.trans h
  · rw [dropTrailingDigits_digits fun c hc => hds c (h.subset hc)]
    exact List.nil_infix
  · rw [dropTrailingDigits_append _ fun c hc => hds c (hd.subset hc)]
    exact (dropTrailingDigits_starts y').isInfix.trans hy.isInfix

theorem prefix_of_digits {u y ds : List Char} (hds : Digits ds) (h : u <+: y ++ ds) :
    dropTrailingDigits u <+: y := by
  obtain ⟨v, hv⟩ := h
  rcases List.append_eq_append_iff.mp hv with ⟨y', rfl, -⟩ | ⟨ds', rfl, hd⟩
  · exact (dropTrailingDigits_starts u).trans (List.prefix_append _ _)
  · rw [dropTrailingDigits_append _ fun c hc => hds c (hd ▸ List.mem_append_left _ hc)]
    exact dropTrailingDigits_starts y

/-! The vocabulary. Each fact is a finite check over its words. -/

def vocabulary : List (List Char) := prodWords ++ nonprodWords

theorem wordTier_isSome {w : List Char} : (wordTier w).isSome = true ↔ w ∈ vocabulary := by
  rw [vocabulary, List.mem_append, wordTier, ← List.contains_iff_mem, ← List.contains_iff_mem]
  split
  · simp_all
  · split <;> simp_all

theorem mem_vocabulary {w : List Char} {t : Tier} (h : wordTier w = some t) : w ∈ vocabulary :=
  wordTier_isSome.mp (h ▸ rfl)

def stems : List (List Char) := ["pre", "non"].map String.toList

/-- The words are read once for all that is checked of them. -/
theorem vocabulary_checks :
    (∀ w ∈ vocabulary, ∀ x ∈ vocabulary, x <+: w →
      wordTier x = wordTier w ∧ ∀ z ∈ vocabulary, ¬ z <:+: w.drop x.length) ∧
    (∀ w ∈ vocabulary, ∀ z ∈ vocabulary, z <:+: w.drop 1 → wordTier z ≠ wordTier w) ∧
    (∀ stem ∈ stems, ∀ w ∈ vocabulary, stem ++ "prod".toList <:+: w →
      wordTier w = some .nonprod ∧ stem ++ "prod".toList <+: w ∧
        ¬ stem ++ "prod".toList <:+: w.drop 1 ∧
        (∀ z ∈ vocabulary, ¬ z <:+: w.drop 7) ∧
        ∀ stem' ∈ stems, ¬ stem' ++ "prod".toList <:+: w.drop 7) ∧
    (∀ w ∈ vocabulary, ∀ mid ∈ [[], "sec".toList, "ec".toList],
      ¬ "dev".toList ++ mid ++ "op".toList <:+: w) ∧
    (∀ w ∈ vocabulary, w.head?.any (fun c => c ≠ 'i' && c ≠ 'k') = true) ∧
    (∀ stem ∈ stems, (stem ++ "prod".toList).length = 7 ∧
      dropTrailingDigits (stem ++ "prod".toList) = stem ++ "prod".toList) ∧
    ∀ mid ∈ [[], "sec".toList, "ec".toList],
      dropTrailingDigits ("dev".toList ++ mid ++ "op".toList) =
        "dev".toList ++ mid ++ "op".toList := by decide +kernel

/-- A word that starts another names the same tier, and nothing after it is a word. -/
theorem word_start : ∀ w ∈ vocabulary, ∀ x ∈ vocabulary, x <+: w →
    wordTier x = wordTier w ∧ ∀ z ∈ vocabulary, ¬ z <:+: w.drop x.length := vocabulary_checks.1

/-- A word inside another names the other tier. -/
theorem word_inside : ∀ w ∈ vocabulary, ∀ z ∈ vocabulary, z <:+: w.drop 1 →
    wordTier z ≠ wordTier w := vocabulary_checks.2.1

/-- A phrase only starts a non-production word, and nothing after it is a word or a phrase. -/
theorem phrase_start : ∀ stem ∈ stems, ∀ w ∈ vocabulary, stem ++ "prod".toList <:+: w →
    wordTier w = some .nonprod ∧ stem ++ "prod".toList <+: w ∧
      ¬ stem ++ "prod".toList <:+: w.drop 1 ∧
      (∀ z ∈ vocabulary, ¬ z <:+: w.drop 7) ∧
      ∀ stem' ∈ stems, ¬ stem' ++ "prod".toList <:+: w.drop 7 := vocabulary_checks.2.2.1

theorem no_devOps : ∀ w ∈ vocabulary, ∀ mid ∈ [[], "sec".toList, "ec".toList],
    ¬ "dev".toList ++ mid ++ "op".toList <:+: w := vocabulary_checks.2.2.2.1

theorem word_head {w : List Char} (hw : w ∈ vocabulary) : ∃ c ∈ w.head?, c ≠ 'i' ∧ c ≠ 'k' := by
  obtain ⟨c, hc, hne⟩ := Option.any_eq_true _ _ |>.mp (vocabulary_checks.2.2.2.2.1 w hw)
  exact ⟨c, hc, by simpa using hne⟩

theorem nil_not_word : [] ∉ vocabulary := by
  intro h
  obtain ⟨c, hc, -⟩ := word_head h
  cases hc

theorem phrase_length (stem : List Char) (h : stem ∈ stems) :
    (stem ++ "prod".toList).length = 7 := (vocabulary_checks.2.2.2.2.2.1 stem h).1

theorem phrase_letters (stem : List Char) (h : stem ∈ stems) :
    dropTrailingDigits (stem ++ "prod".toList) = stem ++ "prod".toList :=
  (vocabulary_checks.2.2.2.2.2.1 stem h).2

theorem devOps_letters : ∀ mid ∈ [[], "sec".toList, "ec".toList],
    dropTrailingDigits ("dev".toList ++ mid ++ "op".toList) =
      "dev".toList ++ mid ++ "op".toList := vocabulary_checks.2.2.2.2.2.2

/-! Characters and matches: which letters a match takes. -/

theorem ascii_letter : ∀ n : Fin 128, (Char.ofNat n).isAlphanum = true →
    letter (Char.ofNat n) = some (Char.ofNat n).toLower := by decide +kernel

theorem letter_alphanum {c : Char} (h : c.isAlphanum = true) : letter c = some c.toLower := by
  obtain ⟨i, rfl⟩ := Text.ascii_of_isAlphanum h
  exact ascii_letter i h

theorem alnums_token {t : List Char} (h : ∀ c ∈ t, c.isAlphanum = true) :
    alnums t = t.map Char.toLower := by
  induction t with
  | nil => rfl
  | cons c t ih =>
    rw [alnums, List.filterMap_cons, letter_alphanum (h c List.mem_cons_self)]
    exact congrArg (c.toLower :: ·) (ih fun d hd => h d (List.mem_cons_of_mem _ hd))

theorem letter_sep {c : Char} (h : isSep c = true) : letter c = none := by
  rcases Bool.or_eq_true _ _ |>.mp h with h | h
  · exact letter_space h
  · have hall : ['_', '-', '.', '/', ':'].all (fun c => (letter c).isNone) = true := by decide
    exact Option.isNone_iff_eq_none.mp (List.all_eq_true.mp hall c (List.contains_iff_mem.mp h))

theorem alnums_seps {t : List Char} (h : ∀ c ∈ t, isSep c = true) : alnums t = [] :=
  List.filterMap_eq_nil_iff.mpr fun c hc => letter_sep (h c hc)

/-- A pattern letter takes that letter, except that the scanner's `s` also takes a long s,
which folding drops. -/
theorem letter_same {c d : Char} (hc : c.isLower = true) (hi : c ≠ 'i') (hk : c ≠ 'k')
    (h : sameLetter c d = true) : letter d = some c ∨ (c = 's' ∧ letter d = none) := by
  simp only [sameLetter, Bool.or_eq_true, beq_iff_eq, Bool.and_eq_true, hi, hk, false_and,
    or_false] at h
  rcases h with h | ⟨rfl, rfl⟩
  · left
    have h0 : d ≠ '\u0130' := by
      rintro rfl
      rw [← h] at hc
      exact absurd hc (by decide)
    have h1 : d ≠ '\u212a' := by
      rintro rfl
      rw [← h] at hc
      exact absurd hc (by decide)
    rw [letter, if_neg h0, if_neg h1, h, if_pos (by simp [lowerAlnum, hc])]
  · exact .inr ⟨rfl, by decide⟩

theorem match_text_cons {c : Char} {cs : List Char} {prev : Option Char} {t rest : List Char}
    (h : Match (text (c :: cs)) prev t rest) : ∃ d t' prev', t = d :: t' ∧ sameLetter c d = true ∧
      Match (text cs) prev' t' rest := by
  cases h with
  | seq ha hb =>
    cases ha with
    | one hd => exact ⟨_, _, _, rfl, hd, hb⟩

theorem match_text_nil {prev : Option Char} {t rest : List Char} (h : Match (text []) prev t rest) :
    t = [] := by
  cases h
  rfl

theorem alnums_cons_some {c d : Char} {t : List Char} (h : letter d = some c) :
    alnums (d :: t) = c :: alnums t := by rw [alnums, List.filterMap_cons, h]; rfl

theorem alnums_cons_none {d : Char} {t : List Char} (h : letter d = none) :
    alnums (d :: t) = alnums t := by rw [alnums, List.filterMap_cons, h]; rfl

/-- No other character folds into such a letter. -/
def plainLetter (c : Char) : Bool := c.isLower && c ≠ 'i' && c ≠ 'k' && c ≠ 's'

/-- A word without i, k and s is taken letter by letter. -/
theorem alnums_text {cs : List Char} (hcs : cs.all plainLetter = true) {prev : Option Char}
    {t rest : List Char} (h : Match (text cs) prev t rest) : alnums t = cs := by
  induction cs generalizing prev t with
  | nil => rw [match_text_nil h, alnums_nil]
  | cons c cs ih =>
    obtain ⟨d, t', prev', rfl, hd, h'⟩ := match_text_cons h
    obtain ⟨hc, hrest⟩ := Bool.and_eq_true _ _ |>.mp (List.all_cons.symm.trans hcs)
    obtain ⟨⟨⟨hlow, hi⟩, hk⟩, hs⟩ :
        ((c.isLower = true ∧ c ≠ 'i') ∧ c ≠ 'k') ∧ c ≠ 's' := by simpa [plainLetter] using hc
    rcases letter_same hlow hi hk hd with hd | ⟨hc, -⟩
    · rw [alnums_cons_some hd, ih hrest h']
    · exact absurd hc hs

theorem alnums_seq {a b : Pattern} {prev : Option Char} {t rest : List Char}
    (h : Match (.seq a b) prev t rest) : ∃ u v prev', t = u ++ v ∧ alnums t = alnums u ++ alnums v ∧
      Match a prev u (v ++ rest) ∧ Match b prev' v rest := by
  cases h with
  | seq ha hb => exact ⟨_, _, _, rfl, alnums_append _ _, ha, hb⟩

theorem alnums_many {prev : Option Char} {t rest : List Char}
    (h : Match (.many isSep) prev t rest) : alnums t = [] := by
  cases h with
  | many hall => exact alnums_seps hall

theorem stem_letters : ∀ stem ∈ stems, stem.all plainLetter = true := by decide

theorem prod_letters : "prod".toList.all plainLetter = true := by decide

/-- A phrase takes the letters of its stem and of "prod" first. -/
theorem alnums_phrase {stem : String} (hstem : stem.toList ∈ stems) {prev : Option Char}
    {m rest : List Char} (h : Match (prodPhrase stem) prev m rest) :
    ∃ z, alnums m = stem.toList ++ "prod".toList ++ z := by
  obtain ⟨u₀, v₀, _, -, h₀, hbare, h⟩ := alnums_seq h
  obtain ⟨u₁, v₁, _, -, h₁, htext, h⟩ := alnums_seq h
  obtain ⟨u₂, v₂, _, -, h₂, hsep, h⟩ := alnums_seq h
  obtain ⟨u₃, v₃, _, -, h₃, hprod, h⟩ := alnums_seq h
  have hu₀ : u₀ = [] := by
    cases hbare
    rfl
  refine ⟨alnums v₃, ?_⟩
  rw [h₀, h₁, h₂, h₃, hu₀, alnums_text (stem_letters _ hstem) htext, alnums_many hsep,
    alnums_text prod_letters hprod, alnums_nil, List.nil_append, List.nil_append, List.append_assoc]

theorem prodPhrase_solid {stem : String} (hstem : stem.toList ∈ stems) :
    (prodPhrase stem).Solid := by
  intro prev rest h
  obtain ⟨z, hz⟩ := alnums_phrase hstem h
  have hprod : "prod".toList = ['p', 'r', 'o', 'd'] := rfl
  simp [hprod] at hz

theorem alnums_sec {prev : Option Char} {m rest : List Char} (h : Match secPart prev m rest) :
    alnums m ∈ [[], "sec".toList, "ec".toList] := by
  cases h with
  | none => exact List.mem_cons_self
  | some h =>
    obtain ⟨u, v, _, -, hm, hsec, hsep⟩ := alnums_seq h
    have hsec' : Match (text ['s', 'e', 'c']) prev u (v ++ rest) := hsec
    obtain ⟨d, t', _, rfl, hd, hec⟩ := match_text_cons hsec'
    have hec' := alnums_text (by decide) hec
    rw [hm, alnums_many hsep, List.append_nil]
    rcases letter_same (by decide) (by decide) (by decide) hd with hd | ⟨-, hd⟩
    · rw [alnums_cons_some hd, hec']
      decide
    · rw [alnums_cons_none hd, hec']
      decide

theorem alnums_devOps {prev : Option Char} {m rest : List Char} (h : Match devOps prev m rest) :
    ∃ mid ∈ [[], "sec".toList, "ec".toList], "dev".toList ++ mid ++ "op".toList <:+: alnums m := by
  obtain ⟨u₀, v₀, _, -, h₀, -, h⟩ := alnums_seq h
  obtain ⟨u₁, v₁, _, -, h₁, -, h⟩ := alnums_seq h
  obtain ⟨u₂, v₂, _, -, h₂, hdev, h⟩ := alnums_seq h
  obtain ⟨u₃, v₃, _, -, h₃, hsep, h⟩ := alnums_seq h
  obtain ⟨u₄, v₄, _, -, h₄, hsec, h⟩ := alnums_seq h
  obtain ⟨u₅, v₅, _, -, h₅, hops, -⟩ := alnums_seq h
  have hops' : Match (text ['o', 'p', 's']) _ u₅ (v₅ ++ rest) := hops
  obtain ⟨o, t₁, _, rfl, ho, hps⟩ := match_text_cons hops'
  obtain ⟨p, t₂, _, rfl, hp, -⟩ := match_text_cons hps
  have ho' := (letter_same (by decide) (by decide) (by decide) ho).resolve_right
    fun hs => absurd hs.1 (by decide)
  have hp' := (letter_same (by decide) (by decide) (by decide) hp).resolve_right
    fun hs => absurd hs.1 (by decide)
  refine ⟨alnums u₄, alnums_sec hsec, alnums u₀ ++ alnums u₁, alnums t₂ ++ alnums v₅, ?_⟩
  rw [h₀, h₁, h₂, h₃, h₄, h₅, alnums_text (by decide) hdev, alnums_many hsep,
    alnums_cons_some ho', alnums_cons_some hp']
  have hop : "op".toList = ['o', 'p'] := rfl
  simp [hop]

/-! The rest of the scan, over a text whose letters are a run of `y` and digits. -/

theorem devOps_none {s y ds w : List Char} (hds : Digits ds) (hs : alnums s <:+: y ++ ds)
    (hw : w ∈ vocabulary) (hy : y <:+: w) : findAll devOps s = [] := by
  refine findAll_eq_nil fun a m b hsplit hm => ?_
  obtain ⟨mid, hmid, hin⟩ := alnums_devOps hm
  have hms : alnums m <:+: y ++ ds := (alnums_infixed ⟨a, b, hsplit.symm⟩).trans hs
  have hword := infix_of_digits hds (hin.trans hms)
  rw [devOps_letters mid hmid] at hword
  exact no_devOps w hw mid hmid (hword.trans hy)

theorem phrase_run {stem : String} (hstem : stem.toList ∈ stems) {prev : Option Char}
    {m rest y ds : List Char} (hds : Digits ds) (hm : Match (prodPhrase stem) prev m rest)
    (hs : alnums m <:+: y ++ ds) : stem.toList ++ "prod".toList <:+: y := by
  obtain ⟨z, hz⟩ := alnums_phrase hstem hm
  have hin := infix_of_digits hds ((List.prefix_append _ z).isInfix.trans (hz ▸ hs))
  rwa [phrase_letters _ hstem] at hin

theorem phrase_none {stem : String} (hstem : stem.toList ∈ stems) {prev : Option Char}
    {s y ds : List Char} (hds : Digits ds) (hs : alnums s <:+: y ++ ds)
    (hy : ¬ stem.toList ++ "prod".toList <:+: y) : findFrom (prodPhrase stem) 0 prev s = [] := by
  refine List.eq_nil_iff_forall_not_mem.mpr fun m hm => ?_
  obtain ⟨a, b, hsplit, hmatch⟩ := mem_findFrom hm
  exact hy (phrase_run hstem hds hmatch ((alnums_infixed ⟨a, b, hsplit.symm⟩).trans hs))

theorem mem_tokens {s t : List Char} (h : t ∈ tokens s) : t.map Char.toLower <:+: alnums s := by
  obtain ⟨hall, hin⟩ := infix_of_mem_pieces h
  rw [← alnums_token hall]
  exact alnums_infixed hin

theorem tokens_none {s y ds : List Char} (hds : Digits ds) (hs : alnums s <:+: y ++ ds)
    (hy : ∀ z ∈ vocabulary, ¬ z <:+: y) : (tokens s).filterMap tokenTier = [] := by
  refine List.filterMap_eq_nil_iff.mpr fun t ht => Option.eq_none_iff_forall_ne_some.mpr ?_
  intro tier htier
  exact hy _ (mem_vocabulary htier) (infix_of_digits hds ((mem_tokens ht).trans hs))

theorem alnums_camelCut (s : List Char) : alnums (camelCut s) = alnums s := by
  have hbare : ∀ p ps, (Pattern.seq (.after p) (.before ps)).Bare := by
    intro p ps prev t rest h
    obtain ⟨u, v, _, rfl, -, hu, hv⟩ := alnums_seq h
    cases hu
    cases hv
    rfl
  exact (sub_bare (hbare _ _) (by decide) _).trans (sub_bare (hbare _ _) (by decide) _)

/-- A phrase that is found is the start of a non-production word, and takes its letters. -/
theorem phrase_found {stem : String} (hstem : stem.toList ∈ stems) {w ds s m : List Char}
    {ms : List (List Char)} (hw : w ∈ vocabulary) (hds : Digits ds) (hs : alnums s = w ++ ds)
    (h : findAll (prodPhrase stem) s = m :: ms) : wordTier w = some .nonprod ∧ ms = [] ∧
      alnums (sub (prodPhrase stem) [' '] s) <:+: w.drop 7 ++ ds := by
  obtain ⟨a, b, rfl, hm, hms, hsub⟩ := findFrom_cons (prodPhrase_solid hstem) [' '] h
  obtain ⟨z, hz⟩ := alnums_phrase hstem hm
  have hrun : stem.toList ++ "prod".toList <:+: w :=
    phrase_run hstem hds hm (hs ▸ alnums_infixed ⟨a, b, rfl⟩)
  obtain ⟨htier, hpre, hlater, -, hnext⟩ := phrase_start _ hstem w hw hrun
  obtain ⟨y, hy⟩ := hpre
  have hlen := phrase_length _ hstem
  have hdrop : w.drop 7 = y := by rw [← hy, ← hlen, List.drop_left]
  rw [alnums_append, alnums_append, hz] at hs
  have ha : alnums a = [] := by
    cases ha : alnums a with
    | nil => rfl
    | cons c as =>
      refine absurd ?_ hlater
      cases w with
      | nil => exact absurd hw nil_not_word
      | cons d w =>
        rw [ha, List.cons_append, List.cons_append, List.cons_append] at hs
        obtain ⟨-, htail⟩ := List.cons.inj hs
        have hlate : stem.toList ++ "prod".toList <:+: w ++ ds := by
          refine ⟨as, z ++ alnums b, ?_⟩
          rw [← htail]
          simp only [List.append_assoc]
        have hin := infix_of_digits hds hlate
        rwa [phrase_letters _ hstem] at hin
  have hrest : z ++ alnums b = y ++ ds := by
    rw [ha, ← hy, List.nil_append] at hs
    simp only [List.append_assoc] at hs
    exact List.append_cancel_left (List.append_cancel_left hs)
  have hb : alnums b <:+: y ++ ds := hrest ▸ (List.suffix_append z _).isInfix
  have hfree : findFrom (prodPhrase stem) 0 (lastOf none (a ++ m)) b = [] :=
    phrase_none hstem hds hb (hdrop ▸ hnext _ hstem)
  refine ⟨htier, hms.trans hfree, ?_⟩
  rw [sub, hsub, subFrom_of_findFrom hfree, alnums_append, alnums_append, ha, hdrop]
  exact hb

/-- The tiers of the tokens once the phrases are out. -/
def tokenScan (s : List Char) : List Tier :=
  (tokens (sub devOps [' '] (camelCut s))).filterMap tokenTier

theorem tokenScan_none {s y ds w : List Char} (hds : Digits ds) (hs : alnums s <:+: y ++ ds)
    (hw : w ∈ vocabulary) (hy : y <:+: w) (hnone : ∀ z ∈ vocabulary, ¬ z <:+: y) :
    tokenScan s = [] := by
  have hcut : alnums (camelCut s) <:+: y ++ ds := by rwa [alnums_camelCut]
  rw [tokenScan, sub_of_findAll (devOps_none hds hcut hw hy)]
  exact tokens_none hds hcut hnone

/-- The first piece of a label: what stands before its first cut. -/
def firstPiece (value : String) : Option (List Char) := (tokens (camelCut value.toList)).head?

/-- The spellings the scanner can read: a phrase in its own separators, or a first piece that
is a vocabulary word. -/
def Spelled (value : String) : Prop :=
  findAll preProd value.toList ≠ [] ∨ findAll nonProd value.toList ≠ [] ∨
    (firstPiece value).any (fun piece => (tokenTier piece).isSome) = true

instance (value : String) : Decidable (Spelled value) :=
  inferInstanceAs (Decidable (findAll preProd value.toList ≠ [] ∨
    findAll nonProd value.toList ≠ [] ∨
    (firstPiece value).any (fun piece => (tokenTier piece).isSome) = true))

theorem scan_eq (value : String) : scan value =
    (findAll preProd value.toList ++ findAll nonProd (sub preProd [' '] value.toList)).map
        (fun _ => Tier.nonprod) ++
      tokenScan (sub nonProd [' '] (sub preProd [' '] value.toList)) := rfl

theorem oneTier_mem {tiers : List Tier} {t : Tier} (h : oneTier tiers = some t) : t ∈ tiers := by
  cases tiers with
  | nil => cases h
  | cons t' ts =>
    simp only [oneTier] at h
    split at h
    · exact Option.some.inj h ▸ List.mem_cons_self
    · cases h

theorem pre_stem : "pre".toList ∈ stems := by decide

theorem non_stem : "non".toList ∈ stems := by decide

/-- What is left of a recognised label once its phrase is out. -/
theorem phrase_facts {value stem : String} (hstem : stem.toList ∈ stems) {w ds : List Char}
    (hw : w ∈ vocabulary) (hds : Digits ds) (hs : alnums value.toList = w ++ ds)
    (hne : findAll (prodPhrase stem) value.toList ≠ []) : wordTier w = some .nonprod ∧
      (∃ m, findAll (prodPhrase stem) value.toList = [m]) ∧
      alnums (sub (prodPhrase stem) [' '] value.toList) <:+: w.drop 7 ++ ds ∧
      (∀ z ∈ vocabulary, ¬ z <:+: w.drop 7) ∧
      ∀ stem' ∈ stems, ¬ stem' ++ "prod".toList <:+: w.drop 7 := by
  obtain ⟨m, ms, hfind⟩ := List.exists_cons_of_ne_nil hne
  obtain ⟨htier, rfl, hsub⟩ := phrase_found hstem hw hds hs hfind
  obtain ⟨a, b, hsplit, hm⟩ := mem_findFrom (hfind ▸ List.mem_cons_self : m ∈ findAll _ _)
  have hrun := phrase_run hstem hds hm (hs ▸ alnums_infixed ⟨a, b, hsplit.symm⟩)
  obtain ⟨-, -, -, hwords, hphrases⟩ := phrase_start _ hstem w hw hrun
  exact ⟨htier, ⟨m, hfind⟩, hsub, hwords, hphrases⟩

/-- A recognised label with a phrase is scanned as that one phrase. -/
theorem scan_phrase {value : String} {w ds : List Char} (hw : w ∈ vocabulary) (hds : Digits ds)
    (hs : alnums value.toList = w ++ ds)
    (h : findAll preProd value.toList ≠ [] ∨ findAll nonProd value.toList ≠ []) :
    wordTier w = some .nonprod ∧ scan value = [.nonprod] := by
  have hsuffix : w.drop 7 <:+: w := (List.drop_suffix 7 w).isInfix
  by_cases hpre : findAll preProd value.toList = []
  · have hnon := h.resolve_left (fun hne => hne hpre)
    obtain ⟨htier, ⟨m, hm⟩, hsub, hwords, -⟩ := phrase_facts non_stem hw hds hs hnon
    have hm' : findAll nonProd value.toList = [m] := hm
    have hrest : tokenScan (sub nonProd [' '] value.toList) = [] :=
      tokenScan_none hds hsub hw hsuffix hwords
    refine ⟨htier, ?_⟩
    rw [scan_eq, sub_of_findAll hpre, hpre, hm', hrest]
    rfl
  · obtain ⟨htier, ⟨m, hm⟩, hsub, hwords, hphrases⟩ := phrase_facts pre_stem hw hds hs hpre
    have hm' : findAll preProd value.toList = [m] := hm
    have hnon : findAll nonProd (sub preProd [' '] value.toList) = [] :=
      phrase_none non_stem hds hsub (hphrases _ non_stem)
    have hrest : tokenScan (sub preProd [' '] value.toList) = [] :=
      tokenScan_none hds hsub hw hsuffix hwords
    refine ⟨htier, ?_⟩
    rw [scan_eq, hm', hnon, sub_of_findAll hnon, hrest]
    rfl

theorem letter_not_alphanum {c x : Char} (h : c.isAlphanum = false) (hx : letter c = some x) :
    x = 'i' ∨ x = 'k' := by
  unfold letter at hx
  split at hx
  · exact .inl (Option.some.inj hx).symm
  · split at hx
    · exact .inr (Option.some.inj hx).symm
    · split at hx
      · rename_i hlow
        rw [Text.toLower_of_not_isAlphanum h, lowerAlnum, Bool.or_eq_true] at hlow
        refine absurd ?_ (Bool.not_eq_true _ ▸ h)
        rcases hlow with hlow | hlow <;> simp [Text.isAlphanum_eq, hlow]
      · cases hx

/-- The first piece carries the first letters of a recognised label. -/
theorem firstPiece_letters {s w ds t : List Char} {ts : List (List Char)} (hw : w ∈ vocabulary)
    (hs : alnums s = w ++ ds) (h : tokens s = t :: ts) : t ≠ [] ∧
      ∃ b, w ++ ds = t.map Char.toLower ++ alnums b ∧ ts = tokens b := by
  obtain ⟨hne, hall, a, b, rfl, ha, hts⟩ := pieces_cons h
  refine ⟨hne, b, ?_, hts⟩
  rw [← hs, alnums_append, alnums_append, alnums_token hall]
  suffices alnums a = [] by rw [this, List.nil_append]
  cases hcs : alnums a with
  | nil => rfl
  | cons x xs =>
    have hx : x ∈ alnums a := hcs ▸ List.mem_cons_self
    obtain ⟨c, hc, hcx⟩ := List.mem_filterMap.mp hx
    obtain ⟨y, hy, hyi, hyk⟩ := word_head hw
    rw [alnums_append, alnums_append, hcs, List.cons_append, List.cons_append] at hs
    cases w with
    | nil => cases hy
    | cons d w =>
      obtain rfl := Option.some.inj hy
      rw [List.cons_append] at hs
      obtain ⟨rfl, -⟩ := List.cons.inj hs
      rcases letter_not_alphanum (ha c hc) hcx with hi | hk
      · exact absurd hi hyi
      · exact absurd hk hyk

/-- Without a phrase, the scan agrees with the vocabulary when the first piece is a word. -/
theorem scan_tokens {value : String} {w ds : List Char} {t : Tier} (hw : wordTier w = some t)
    (hds : Digits ds) (hs : alnums value.toList = w ++ ds)
    (hpre : findAll preProd value.toList = []) (hnon : findAll nonProd value.toList = []) :
    normalizeTier value = some t ↔
      (firstPiece value).any (fun piece => (tokenTier piece).isSome) = true := by
  have hmem := mem_vocabulary hw
  have hcut : alnums (camelCut value.toList) = w ++ ds := by rw [alnums_camelCut, hs]
  have hdev : findAll devOps (camelCut value.toList) = [] :=
    devOps_none hds (hcut ▸ List.infix_rfl) hmem List.infix_rfl
  have hscan : scan value = (tokens (camelCut value.toList)).filterMap tokenTier := by
    rw [scan_eq, sub_of_findAll hpre, hpre, hnon, sub_of_findAll hnon, tokenScan,
      sub_of_findAll hdev]
    rfl
  rw [normalizeTier, hscan, firstPiece]
  cases htok : tokens (camelCut value.toList) with
  | nil => simp [oneTier]
  | cons piece ts =>
    obtain ⟨hne, b, heq, rfl⟩ := firstPiece_letters hmem hcut htok
    rw [List.head?_cons, Option.any_some]
    have hlater : alnums b <:+: w.drop 1 ++ ds := by
      obtain ⟨c, cs, hcs⟩ := List.exists_cons_of_ne_nil hne
      cases w with
      | nil => exact absurd hmem nil_not_word
      | cons d w =>
        rw [hcs, List.map_cons, List.cons_append, List.cons_append] at heq
        exact (List.cons.inj heq).2 ▸ (List.suffix_append _ _).isInfix
    cases hpiece : tokenTier piece with
    | none =>
      rw [List.filterMap_cons_none hpiece]
      refine iff_of_false (fun hone => ?_) (by simp)
      -- a later token can only be a word inside `w`, which names the other tier
      obtain ⟨u, hu, hut⟩ := List.mem_filterMap.mp (oneTier_mem hone)
      have hin := infix_of_digits hds ((mem_tokens hu).trans hlater)
      exact word_inside w hmem _ (mem_vocabulary hut) hin (hut.trans hw.symm)
    | some t' =>
      have hx : dropTrailingDigits (piece.map Char.toLower) <+: w := by
        have hpref : piece.map Char.toLower <+: w ++ ds := ⟨alnums b, heq.symm⟩
        exact prefix_of_digits hds hpref
      obtain ⟨htier, hwords⟩ := word_start w hmem _ (mem_vocabulary hpiece) hx
      have ht : t' = t := Option.some.inj (hpiece.symm.trans (htier.trans hw))
      obtain ⟨ds', hpds, -⟩ := exists_digits (piece.map Char.toLower)
      obtain ⟨y, hy⟩ := hx
      have hrest : alnums b <:+: y ++ ds := by
        rw [hpds, ← hy, List.append_assoc, List.append_assoc] at heq
        have htail := List.append_cancel_left heq
        exact htail ▸ (List.suffix_append _ _).isInfix
      have hnone : (tokens b).filterMap tokenTier = [] := by
        refine tokens_none hds hrest fun z hz hin => hwords z hz ?_
        rwa [← hy, List.drop_left]
      rw [List.filterMap_cons_some hpiece, hnone, ht]
      simp [oneTier]

/-- The spellings on which the scanner reads a recognised label as the vocabulary does. -/
theorem normalizeTier_iff {value : String} {t : Tier} (h : recognizedTier (some value) = some t) :
    normalizeTier value = some t ↔ Spelled value := by
  have hw : wordTier (fold value) = some t := by rwa [recognizedTier_some] at h
  obtain ⟨ds, hs, hds⟩ := exists_digits (alnums value.toList)
  have hfold : alnums value.toList = fold value ++ ds := by
    rw [fold_eq]
    exact hs
  by_cases hphrase : findAll preProd value.toList ≠ [] ∨ findAll nonProd value.toList ≠ []
  · obtain ⟨htier, hscan⟩ := scan_phrase (mem_vocabulary hw) hds hfold hphrase
    refine iff_of_true ?_ (hphrase.imp id .inl)
    rw [normalizeTier, hscan, ← hw, htier]
    rfl
  · push Not at hphrase
    rw [scan_tokens hw hds hfold hphrase.1 hphrase.2, Spelled]
    simp [hphrase]

/-! The readers. -/

theorem findSome?_key {α : Type*} (k : List Char) (r : Option α) (ks : List (List Char)) :
    (ks.findSome? fun k' => if k = k' then r else none) = if k ∈ ks then r else none := by
  induction ks with
  | nil => rfl
  | cons k' ks ih =>
    rw [List.findSome?_cons, ih]
    by_cases hk : k = k'
    · subst hk
      cases r <;> simp
    · simp [hk]

theorem fromTags_single {key : String} (hkey : foldKey key ∈ tagKeys) (value : String) :
    fromTags [(key, value)] = (normalizeTier value).map fun t => ⟨t, .tag⟩ := by
  have hstep : (fun k' => ((KeyedStore.find k' ([(key, value)].foldl foldTag [])).bind
      normalizeTier).map fun t => (⟨t, .tag⟩ : Resolution)) =
      fun k' => if foldKey key = k' then (normalizeTier value).map fun t => ⟨t, .tag⟩ else none := by
    funext k'
    by_cases hk : foldKey key = k' <;> simp [foldTag, KeyedStore.setDefault, KeyedStore.find, hk]
  rw [fromTags]
  exact (congrArg (fun f => List.findSome? f tagKeys) hstep).trans
    ((findSome?_key _ _ _).trans (if_pos hkey))

/-- Every reader of environment names takes the value for the tier. -/
structure Agrees (value : String) (t : Tier) : Prop where
  normalize : normalizeTier value = some t
  tag : ∀ key, foldKey key ∈ tagKeys → fromTags [(key, value)] = some ⟨t, .tag⟩
  name : fromName (some value) none = some ⟨t, .name⟩
  resourceId : fromName none (some value) = some ⟨t, .name⟩
  evaluator : environmentFromTags [("environment", value)] = t ∧
    environmentFromTags [("Environment", value)] = t

theorem agrees_iff {value : String} {t : Tier} (h : recognizedTier (some value) = some t) :
    Agrees value t ↔ normalizeTier value = some t := by
  refine ⟨Agrees.normalize, fun hn => ⟨hn, fun key hkey => ?_, ?_, ?_, ?_⟩⟩
  · rw [fromTags_single hkey, hn]
    rfl
  · simp [fromName, hn]
  · simp [fromName, hn]
  · constructor <;> simp [environmentFromTags, KeyedStore.find, toTier, h]

/-- The vocabulary and the readers agree on a label exactly when it is spelled as the scanner
can read it. -/
theorem readers_agree_iff (value : String) :
    (∀ t, recognizedTier (some value) = some t → Agrees value t) ↔
      recognizedTier (some value) = none ∨ Spelled value := by
  cases h : recognizedTier (some value) with
  | none => simp
  | some t =>
    simp only [Option.some.injEq, forall_eq', reduceCtorEq, false_or]
    rw [agrees_iff h, normalizeTier_iff h]

/-- A non-production label whose environment tag reads as production. -/
theorem nonPrd_reads_prod : recognizedTier (some "Non-Prd") = some .nonprod ∧
    fromTags [("Environment", "Non-Prd")] = some ⟨.prod, .tag⟩ ∧
    environmentFromTags [("Environment", "Non-Prd")] = .nonprod ∧
    ¬ ∀ value t, recognizedTier (some value) = some t → Agrees value t := by
  have hrec : recognizedTier (some "Non-Prd") = some .nonprod := by decide +kernel
  have htag : fromTags [("Environment", "Non-Prd")] = some ⟨.prod, .tag⟩ := by decide +kernel
  have heval : environmentFromTags [("Environment", "Non-Prd")] = .nonprod := by decide +kernel
  have hkey : foldKey "Environment" ∈ tagKeys := by decide +kernel
  refine ⟨hrec, htag, heval, fun hall => ?_⟩
  have hagree := (hall _ _ hrec).tag "Environment" hkey
  rw [htag] at hagree
  exact absurd hagree (by decide)

example : Spelled "pre-prod 2" ∧ Spelled "DEV01" ∧ ¬ Spelled "SandBox" := by decide +kernel

end MonitoringHub.Environments
