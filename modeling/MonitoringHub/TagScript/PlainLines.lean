import MonitoringHub.Lib.Pieces
import MonitoringHub.TagScript.BuildTagPlan

/-! Which lines of the script stay one line. A text that passes its strict pattern in full has no
newline, nor has a cleaned name or a number; what is written from them is then as many lines as
the code appends. Types that the script does not cover go into a comment as they are. -/

namespace MonitoringHub.TagScript
open Lib KeyedStore Alerts Environments

/-- One line: no newline inside. -/
def Plain (s : Text) : Prop := '\n' ∉ s

instance (s : Text) : Decidable (Plain s) := inferInstanceAs (Decidable ('\n' ∉ s))

theorem plain_append {s t : Text} : Plain (s ++ t) ↔ Plain s ∧ Plain t := by
  simp only [Plain, List.mem_append, not_or]

theorem plain_cons {c : Char} {s : Text} : Plain (c :: s) ↔ c ≠ '\n' ∧ Plain s := by
  simp only [Plain, List.mem_cons, not_or, ne_comm, ne_eq]

theorem plain_nil : Plain [] := List.not_mem_nil

theorem not_mem_of_forall {p : Char → Bool} {s : Text} {c : Char} (h : ∀ c ∈ s, p c = true)
    (hc : p c = false) : c ∉ s :=
  fun hmem => absurd (h c hmem) (by rw [hc]; exact Bool.false_ne_true)

theorem plain_of_forall {p : Char → Bool} {s : Text} (h : ∀ c ∈ s, p c = true)
    (hp : p '\n' = false) : Plain s := not_mem_of_forall h hp

theorem plain_intercalate {sep : Text} {ls : List Text} (hsep : Plain sep)
    (h : ∀ l ∈ ls, Plain l) : Plain (List.intercalate sep ls) :=
  fun hmem => (of_mem_intercalate hmem).elim hsep fun ⟨l, hl, hc⟩ => h l hl hc

theorem Plain.splitOn {s : Text} (h : Plain s) : s.splitOn '\n' = [s] := List.splitOn_eq_singleton h

/-! The characters of what is checked or cleaned. -/

theorem isDigit_of_mem_number {n : ℕ} {c : Char} (h : c ∈ number n) : c.isDigit = true :=
  Nat.isDigit_of_mem_toDigits (by decide) (by decide) h

def idChar (c : Char) : Bool := c.isLower || c.isDigit || c == '-'

def regionChar (c : Char) : Bool := c.isLower || isDecimal c || c == '-'

theorem idChar_of_isHex {c : Char} (h : isHex c = true) : idChar c = true := by
  simp only [isHex, Bool.or_eq_true, List.contains_iff_mem] at h
  rcases h with h | h
  · simp [idChar, h]
  · exact List.all_eq_true.mp (show (lit "abcdef").all idChar = true by decide) c h

theorem hexTail_chars {s : Text} (h : hexTail s = true) {c : Char} (hc : c ∈ s) :
    idChar c = true := by
  simp only [hexTail, Bool.and_eq_true] at h
  exact idChar_of_isHex (List.all_eq_true.mp h.2 c hc)

/-- A strict id is one of the two stems and its hexadecimal digits. -/
theorem strictId_cases {s : Text} (h : strictId s = true) :
    ∃ stem tail, (stem = lit "i-" ∨ stem = lit "vol-") ∧ hexTail tail = true ∧
      s = stem ++ tail := by
  unfold strictId at h
  split at h
  · rename_i tail
    exact ⟨_, tail, .inl rfl, h, rfl⟩
  · rename_i tail
    exact ⟨_, tail, .inr rfl, h, rfl⟩
  · cases h

theorem strictId_chars {s : Text} (h : strictId s = true) : ∀ c ∈ s, idChar c = true := by
  obtain ⟨stem, tail, hstem, htail, rfl⟩ := strictId_cases h
  intro c hc
  rcases List.mem_append.mp hc with hc | hc
  · rcases hstem with rfl | rfl <;> exact List.all_eq_true.mp (by decide) c hc
  · exact hexTail_chars htail hc

theorem strictRegion_chars {s : Text} (h : strictRegion s = true) :
    ∀ c ∈ s, regionChar c = true := by
  intro c hc
  unfold strictRegion at h
  split at h
  · rename_i head parts hs
    simp only [Bool.and_eq_true, List.all_eq_true] at h
    obtain ⟨⟨⟨⟨-, hhead⟩, -⟩, hmid⟩, hlast⟩ := h
    rcases of_mem_splitOn hs hc with rfl | hin | ⟨part, hpart, hin⟩ | ⟨part, hpart, hin⟩
    · simp [regionChar]
    · simp [regionChar, hhead c hin]
    · have hlow := hmid part hpart
      simp only [decide_eq_true_eq] at hlow
      simp [regionChar, hlow.2 c hin]
    · rw [hpart, Option.any_some, Bool.and_eq_true, List.all_eq_true] at hlast
      simp [regionChar, hlast.2 c hin]
  · cases h

theorem strictAccount_chars {s : Text} (h : strictAccount s = true) :
    ∀ c ∈ s, isDecimal c = true := by
  simp only [strictAccount, Bool.and_eq_true] at h
  exact List.all_eq_true.mp h.2

theorem clean_chars (text : Text) (limit : ℕ) : ∀ c ∈ clean text limit, nameChar c = true :=
  fun _ hc => (List.mem_filter.mp (List.mem_of_mem_take ((trim_sublist _ _).subset hc))).2

theorem plain_strictId {s : Text} (h : strictId s = true) : Plain s :=
  plain_of_forall (strictId_chars h) (by decide)

theorem plain_strictRegion {s : Text} (h : strictRegion s = true) : Plain s :=
  plain_of_forall (strictRegion_chars h) (by decide)

theorem plain_strictAccount {s : Text} (h : strictAccount s = true) : Plain s :=
  plain_of_forall (strictAccount_chars h) (by decide)

theorem plain_clean (text : Text) (limit : ℕ) : Plain (clean text limit) :=
  plain_of_forall (clean_chars text limit) (by decide)

theorem plain_number (n : ℕ) : Plain (number n) :=
  plain_of_forall (fun _ => isDigit_of_mem_number) (by decide)

theorem plain_tierText (t : Tier) : Plain (tierText t) := by
  cases t <;> decide

/-! The lines, from their parts. -/

theorem plain_commaSep {ls : List Text} (h : ∀ l ∈ ls, Plain l) : Plain (commaSep ls) :=
  plain_intercalate (by decide) h

theorem plain_headerLine {aid : Text} (h : Plain aid) : Plain (headerLine aid) :=
  plain_append.mpr ⟨plain_append.mpr ⟨of_lit (by decide), h⟩, of_lit (by decide)⟩

theorem plain_titleLine {name aid : Text} (hname : Plain name) (haid : Plain aid) :
    Plain (titleLine name aid) := by
  simp only [titleLine, plain_append, hname, haid, and_true]
  and_intros <;> exact of_lit (by decide)

theorem plain_caseLine {aid name : Text} (haid : Plain aid) (hname : Plain name) :
    Plain (caseLine aid name) := by
  simp only [caseLine, plain_append, hname, haid, and_true]
  and_intros <;> exact of_lit (by decide)

theorem plain_otherwiseLine {aids : List Text} (h : ∀ aid ∈ aids, Plain aid) :
    Plain (otherwiseLine aids) := by
  simp only [otherwiseLine, plain_append, plain_commaSep h, and_true]
  and_intros <;> exact of_lit (by decide)

theorem plain_commandLine {region tier : Text} {ids : List Text} (hregion : Plain region)
    (hids : ∀ id ∈ ids, Plain id) (htier : Plain tier) : Plain (commandLine region ids tier) := by
  have hjoined : Plain (List.intercalate [' '] ids) := plain_intercalate (by decide) hids
  simp only [commandLine, plain_append, hregion, hjoined, htier, and_true]
  and_intros <;> exact of_lit (by decide)

theorem plain_groupLine {g : Group} (h : Plain g.region) : Plain (groupLine g) := by
  simp only [groupLine, plain_append, h, plain_tierText, plain_number, and_true]
  and_intros <;> exact of_lit (by decide)

theorem plain_resourceLine {r : TagRow} (h : Plain r.resourceId) : Plain (resourceLine r) := by
  simp only [resourceLine, plain_append]
  refine ⟨⟨of_lit (by decide), h⟩, ?_⟩
  split
  · exact plain_append.mpr ⟨of_lit (by decide), plain_clean _ _⟩
  · exact plain_nil

theorem plain_padded (width n : ℕ) : Plain (padded width n) :=
  plain_append.mpr ⟨fun h => absurd (List.eq_of_mem_replicate h) (by decide), plain_number n⟩

theorem plain_generatedLine (now : Stamp) : Plain (generatedLine now) := by
  simp only [generatedLine, Stamp.text, plain_append, plain_cons]
  simp only [plain_padded]
  decide

theorem plain_summaryLine (counts : List (Tier × ℕ)) (total accts : ℕ) :
    Plain (summaryLine counts total accts) := by
  have hcounts :
      Plain (if counts = [] then lit "nothing to tag" else commaSep (envCounts counts)) := by
    split
    · exact of_lit (by decide)
    · refine plain_commaSep fun l hl => ?_
      obtain ⟨e, -, rfl⟩ := List.mem_map.mp hl
      exact plain_append.mpr ⟨plain_tierText _, plain_cons.mpr ⟨by decide, plain_number _⟩⟩
  simp only [summaryLine, plain_append, hcounts, plain_number, and_true]
  and_intros <;> exact of_lit (by decide)

theorem plain_accountLine {entry : (Text × Text) × List Summary} (hname : Plain entry.1.1)
    (haid : Plain entry.1.2) (h : ∀ g ∈ entry.2, Plain g.region) : Plain (accountLine entry) := by
  have hgroups : Plain (commaSep (entry.2.map Summary.text)) := by
    refine plain_commaSep fun l hl => ?_
    obtain ⟨g, hg, rfl⟩ := List.mem_map.mp hl
    simp only [Summary.text, plain_append, plain_cons]
    exact ⟨⟨h g hg, by decide, plain_tierText _⟩, by decide, plain_number _⟩
  simp only [accountLine, plain_append, hname, haid, hgroups, and_true]
  and_intros <;> exact of_lit (by decide)

/-! Groups and accounts. -/

/-- What a group is made of: the rows exported under its key. -/
structure Group.From (exports : List Export) (g : Group) : Prop where
  rows_ne : g.rows ≠ []
  exported : ∀ r ∈ g.rows, ∃ e ∈ exports, e.row = r ∧ e.groupKey = (g.acct, g.region, g.tier)

theorem Group.from_of_mem_ordered {exports : List Export} {g : Group} (h : g ∈ ordered exports) :
    g.From exports := by
  obtain ⟨⟨key, rows⟩, hentry, rfl⟩ := List.mem_map.mp ((List.mem_insertionSort _).mp h)
  obtain ⟨hne, hrows⟩ := mem_foldl_appendAt hentry
  refine ⟨hne, fun r hr => ?_⟩
  obtain ⟨e, he, hkey, hrow⟩ := hrows r hr
  exact ⟨e, he, hrow, hkey⟩

/-- Every exported row is in a group. -/
theorem exists_group {exports : List Export} {e : Export} (he : e ∈ exports) :
    ∃ g ∈ ordered exports, (g.acct, g.region, g.tier) = e.groupKey ∧ e.row ∈ g.rows := by
  have hlists : Lists (grouped exports) e.groupKey e.row :=
    lists_foldl_appendAt.mpr (.inr ⟨e, he, rfl, rfl⟩)
  obtain ⟨rows, hentry, hrow⟩ := hlists
  exact ⟨Group.ofEntry (e.groupKey, rows),
    (List.mem_insertionSort _).mpr (List.mem_map.mpr ⟨_, hentry, rfl⟩), rfl, hrow⟩

theorem Group.accountId_eq {g : Group} (h : g.rows ≠ []) :
    ∃ r ∈ g.rows, g.accountId = r.accountId := by
  obtain ⟨r, rest, hrows⟩ := List.exists_cons_of_ne_nil h
  exact ⟨r, hrows ▸ List.mem_cons_self, by rw [Group.accountId, hrows]; rfl⟩

/-- An account is written as its first group has it. -/
theorem exists_group_of_mem_accountsFrom {last : Option ℕ} {groups : List Group} {a : Account}
    (h : a ∈ accountsFrom last groups) : ∃ g ∈ groups, a.acct = g.acct ∧
      a.number = g.accountId ∧ a.name = clean g.accountName 40 := by
  induction groups generalizing last with
  | nil => cases h
  | cons g gs ih =>
    have hrest : ∀ last', a ∈ accountsFrom last' gs → ∃ g' ∈ g :: gs, a.acct = g'.acct ∧
        a.number = g'.accountId ∧ a.name = clean g'.accountName 40 := fun _ ha =>
      (ih ha).imp fun _ h' => ⟨List.mem_cons_of_mem _ h'.1, h'.2⟩
    rw [accountsFrom] at h
    split at h
    · exact hrest _ h
    · rcases List.mem_cons.mp h with rfl | h
      · exact ⟨g, List.mem_cons_self, rfl, rfl, rfl⟩
      · exact hrest _ h

theorem exists_account_of_mem {last : Option ℕ} {groups : List Group} {g : Group}
    (hg : g ∈ groups) (hlast : last ≠ some g.acct) :
    ∃ a ∈ accountsFrom last groups, a.acct = g.acct := by
  induction groups generalizing last with
  | nil => cases hg
  | cons g' gs ih =>
    rw [accountsFrom]
    by_cases hsame : g'.acct = g.acct
    · rw [if_neg fun h => hlast (h.trans (congrArg some hsame))]
      exact ⟨_, List.mem_cons_self, hsame⟩
    have hin : g ∈ gs := (List.mem_cons.mp hg).resolve_left fun heq => hsame (heq ▸ rfl)
    split
    · exact ih hin hlast
    · have hnew : some g'.acct ≠ some g.acct := fun h => hsame (Option.some.inj h)
      obtain ⟨a, ha, hacct⟩ := ih hin hnew
      exact ⟨a, List.mem_cons_of_mem _ ha, hacct⟩

/-! The blocks. -/

theorem mem_blockLines {accts : List Account} {last : Option ℕ} {groups : List Group} {l : Text}
    (h : l ∈ blockLines accts last groups) : l = closeLine ∨ l = blankLine ∨
      (∃ a ∈ accts, l = titleLine a.name a.number ∨ l = headerLine a.number) ∨
      ∃ g ∈ groups, l ∈ groupLines g := by
  induction groups generalizing last with
  | nil => cases h
  | cons g gs ih =>
    rw [blockLines, List.mem_append, List.mem_append] at h
    rcases h with (h | h) | h
    · split at h
      · cases h
      rcases List.mem_append.mp h with h | h
      · split at h
        · cases h
        · simp only [List.mem_cons, List.not_mem_nil, or_false] at h
          exact h.imp_right .inl
      · split at h
        · rename_i a ha
          simp only [List.mem_cons, List.not_mem_nil, or_false] at h
          exact .inr (.inr (.inl ⟨a, List.mem_of_find?_eq_some ha, h⟩))
        · cases h
    · exact .inr (.inr (.inr ⟨g, List.mem_cons_self, h⟩))
    · rcases ih h with h | h | h | ⟨g', hg', hl⟩
      · exact .inl h
      · exact .inr (.inl h)
      · exact .inr (.inr (.inl h))
      · exact .inr (.inr (.inr ⟨g', List.mem_cons_of_mem _ hg', hl⟩))

theorem mem_blockLines_of_group {accts : List Account} {last : Option ℕ} {groups : List Group}
    {g : Group} {l : Text} (hg : g ∈ groups) (hl : l ∈ groupLines g) :
    l ∈ blockLines accts last groups := by
  induction groups generalizing last with
  | nil => cases hg
  | cons g' gs ih =>
    rw [blockLines, List.mem_append, List.mem_append]
    rcases List.mem_cons.mp hg with rfl | hg
    · exact .inl (.inr hl)
    · exact .inr (ih hg)

/-! The ids of a group, cut into commands. -/

theorem mem_sortedRows {g : Group} {r : TagRow} : r ∈ g.sortedRows ↔ r ∈ g.rows :=
  List.mem_insertionSort _

theorem chunks_flatten (g : Group) :
    g.chunks.flatten = g.sortedRows.map TagRow.resourceId :=
  flatten_slices (by decide) _

theorem chunk_length {g : Group} {chunk : List Text} (h : chunk ∈ g.chunks) :
    0 < chunk.length ∧ chunk.length ≤ batch := length_slice h

theorem mem_of_mem_chunk {g : Group} {chunk : List Text} (h : chunk ∈ g.chunks) {id : Text}
    (hid : id ∈ chunk) : ∃ r ∈ g.rows, r.resourceId = id := by
  have hin : id ∈ g.chunks.flatten := List.mem_flatten.mpr ⟨chunk, h, hid⟩
  rw [chunks_flatten] at hin
  obtain ⟨r, hr, hrid⟩ := List.mem_map.mp hin
  exact ⟨r, mem_sortedRows.mp hr, hrid⟩

theorem exists_chunk {g : Group} {r : TagRow} (hr : r ∈ g.rows) :
    ∃ chunk ∈ g.chunks, r.resourceId ∈ chunk := by
  have hin : r.resourceId ∈ g.chunks.flatten := by
    rw [chunks_flatten]
    exact List.mem_map.mpr ⟨r, mem_sortedRows.mpr hr, rfl⟩
  exact List.mem_flatten.mp hin

/-! The kinds of lines. -/

def fixedComments : List Text := lit "#!/usr/bin/env bash" :: usageLines ++ [nothingLine]

def fixedLines : List Text := [blankLine, closeLine] ++ runLines ++ caseLines ++ doneLines

theorem plain_fixedComments : ∀ l ∈ fixedComments, Plain l := by
  simp only [fixedComments, usageLines, nothingLine, List.cons_append, List.nil_append,
    List.forall_mem_cons, plain_append]
  and_intros
  all_goals first | exact of_lit (by decide) | exact fun _ h => absurd h List.not_mem_nil

theorem plain_fixedLines : ∀ l ∈ fixedLines, Plain l := by
  simp only [fixedLines, runLines, caseLines, doneLines, List.cons_append, List.nil_append,
    List.forall_mem_cons, plain_append]
  and_intros
  all_goals first | exact of_lit (by decide) | exact fun _ h => absurd h List.not_mem_nil | decide

/-- A line of the script, from what it is written. The line about what is not covered is not
among them. -/
inductive Written (groups : List Group) (now : Stamp) : Text → Prop
  | comment {l : Text} (h : l ∈ fixedComments) : Written groups now l
  | generated : Written groups now (generatedLine now)
  | summary (counts : List (Tier × ℕ)) (total accts : ℕ) :
      Written groups now (summaryLine counts total accts)
  | perAccount {entry : (Text × Text) × List Summary} {g : Group} (hg : g ∈ groups)
      (hname : entry.1.1 = clean g.accountName 60) (haid : entry.1.2 = g.accountId)
      (h : ∀ s ∈ entry.2, ∃ g' ∈ groups, s.region = g'.region) :
      Written groups now (accountLine entry)
  | fixed {l : Text} (h : l ∈ fixedLines) : Written groups now l
  | title {a : Account} (h : a ∈ accounts groups) : Written groups now (titleLine a.name a.number)
  | header {a : Account} (h : a ∈ accounts groups) : Written groups now (headerLine a.number)
  | group {g : Group} (h : g ∈ groups) : Written groups now (groupLine g)
  | resource {g : Group} {r : TagRow} (h : g ∈ groups) (hr : r ∈ g.rows) :
      Written groups now (resourceLine r)
  | command {g : Group} {ids : List Text} (h : g ∈ groups) (hids : ids ∈ g.chunks) :
      Written groups now (commandLine g.region ids (tierText g.tier))
  | branch {a : Account} (h : a ∈ accounts groups) : Written groups now (caseLine a.number a.name)
  | otherwise : Written groups now (otherwiseLine ((accounts groups).map Account.number))

theorem Written.of_groupLines {groups : List Group} {now : Stamp} {g : Group} {l : Text}
    (hg : g ∈ groups) (hl : l ∈ groupLines g) : Written groups now l := by
  simp only [groupLines, List.cons_append, List.mem_cons, List.mem_append, List.mem_map,
    commandLines, List.not_mem_nil, or_false] at hl
  rcases hl with rfl | (⟨r, hr, rfl⟩ | ⟨ids, hids, rfl⟩) | rfl
  · exact .group hg
  · exact .resource hg (mem_sortedRows.mp hr)
  · exact .command hg hids
  · exact .fixed List.mem_cons_self

theorem Written.of_accountLines {groups : List Group} {now : Stamp} {l : Text}
    (hl : l ∈ accountLines groups) : Written groups now l := by
  obtain ⟨⟨key, gs⟩, hentry, rfl⟩ := List.mem_map.mp hl
  obtain ⟨hne, hfrom⟩ := mem_foldl_appendAt hentry
  obtain ⟨s, hs⟩ := List.exists_mem_of_ne_nil gs hne
  obtain ⟨s', hs', hkey, rfl⟩ := hfrom s hs
  obtain ⟨g, hg, rfl⟩ := List.mem_map.mp hs'
  refine .perAccount hg (congrArg Prod.fst hkey).symm (congrArg Prod.snd hkey).symm fun t ht => ?_
  obtain ⟨t', ht', -, rfl⟩ := hfrom t ht
  obtain ⟨g', hg', rfl⟩ := List.mem_map.mp ht'
  exact ⟨g', hg', rfl⟩

theorem mem_fixedLines {l : Text} (h : l ∈ [closeLine, blankLine] ∨ l ∈ caseLines ∨ l ∈ doneLines) :
    l ∈ fixedLines := by
  simp only [fixedLines, List.mem_append, List.mem_cons, List.not_mem_nil, or_false] at h ⊢
  tauto

theorem Written.of_dispatchLines {groups : List Group} {now : Stamp} {l : Text}
    (hl : l ∈ dispatchLines (accounts groups)) : Written groups now l := by
  simp only [dispatchLines, List.mem_append, or_assoc] at hl
  rcases hl with hl | hl | hl | hl | hl | hl
  · exact .fixed (mem_fixedLines (.inl hl))
  · exact .fixed (mem_fixedLines (.inr (.inl hl)))
  · obtain ⟨a, ha, rfl⟩ := List.mem_map.mp hl
    exact .branch ha
  · exact List.mem_singleton.mp hl ▸ .otherwise
  · exact .fixed (mem_fixedLines (.inr (.inr hl)))
  · exact .fixed (List.mem_singleton.mp hl ▸ List.mem_cons_self)

theorem Written.of_blockLines {groups : List Group} {now : Stamp} {l : Text}
    (hl : l ∈ blockLines (accounts groups) none groups) : Written groups now l := by
  rcases mem_blockLines hl with rfl | rfl | ⟨a, ha, rfl | rfl⟩ | ⟨g, hg, hl⟩
  · exact .fixed (List.mem_cons_of_mem _ List.mem_cons_self)
  · exact .fixed List.mem_cons_self
  · exact .title ha
  · exact .header ha
  · exact .of_groupLines hg hl

theorem written_of_mem {groups : List Group} {now : Stamp} {l : Text}
    (h : l ∈ coveredLines groups now) : Written groups now l := by
  have hblank : Written groups now blankLine := .fixed List.mem_cons_self
  simp only [coveredLines, List.cons_append, List.mem_cons, List.mem_append, List.not_mem_nil,
    or_false, or_assoc] at h
  rcases h with rfl | rfl | h | rfl | h | rfl | h | rfl | h | h
  · exact .comment List.mem_cons_self
  · exact .generated
  · exact .comment (List.mem_cons_of_mem _ (List.mem_append_left _ h))
  · exact .summary _ _ _
  · exact .of_accountLines h
  · exact hblank
  · exact .fixed (List.mem_append_left _ (List.mem_append_left _ (List.mem_append_right _ h)))
  · exact hblank
  · exact .of_blockLines h
  · split at h
    · rw [List.mem_singleton.mp h]
      exact .comment (List.mem_append_right _ List.mem_cons_self)
    · exact .of_dispatchLines h

/-- What a group needs for its lines to stay what they are. -/
structure Group.Strict (g : Group) : Prop where
  region : strictRegion g.region = true
  account : strictAccount g.accountId = true
  ids : ∀ r ∈ g.rows, strictId r.resourceId = true

theorem strict_account_of_mem {groups : List Group} (h : ∀ g ∈ groups, g.Strict) {a : Account}
    (ha : a ∈ accounts groups) : strictAccount a.number = true ∧ ∀ c ∈ a.name, nameChar c := by
  obtain ⟨g, hg, -, hnumber, hname⟩ := exists_group_of_mem_accountsFrom ha
  exact ⟨hnumber ▸ (h g hg).account, hname ▸ clean_chars _ _⟩

theorem Written.plain {groups : List Group} {now : Stamp} {l : Text} (h : ∀ g ∈ groups, g.Strict)
    (hl : Written groups now l) : Plain l := by
  have haccount : ∀ a ∈ accounts groups, Plain a.number ∧ Plain a.name := fun a ha =>
    (strict_account_of_mem h ha).imp plain_strictAccount fun hn => plain_of_forall hn (by decide)
  have hid : ∀ g ∈ groups, ∀ r ∈ g.rows, Plain r.resourceId :=
    fun g hg r hr => plain_strictId ((h g hg).ids r hr)
  have hregion : ∀ g ∈ groups, Plain g.region := fun g hg => plain_strictRegion (h g hg).region
  cases hl with
  | comment hl =>
    exact plain_fixedComments l hl
  | generated => exact plain_generatedLine now
  | summary => exact plain_summaryLine _ _ _
  | perAccount hg hname haid hs =>
    refine plain_accountLine (hname ▸ plain_clean _ _) (haid ▸ plain_strictAccount (h _ hg).account)
      fun s hs' => ?_
    obtain ⟨g', hg', heq⟩ := hs s hs'
    exact heq ▸ hregion g' hg'
  | fixed hl =>
    exact plain_fixedLines l hl
  | title ha => exact plain_titleLine (haccount _ ha).2 (haccount _ ha).1
  | header ha => exact plain_headerLine (haccount _ ha).1
  | group hg => exact plain_groupLine (hregion _ hg)
  | resource hg hr => exact plain_resourceLine (hid _ hg _ hr)
  | command hg hids =>
    refine plain_commandLine (hregion _ hg) (fun id hin => ?_) (plain_tierText _)
    obtain ⟨r, hr, hrid⟩ := mem_of_mem_chunk hids hin
    exact hrid ▸ hid _ hg r hr
  | branch ha => exact plain_caseLine (haccount _ ha).1 (haccount _ ha).2
  | otherwise =>
    refine plain_otherwiseLine fun aid haid => ?_
    obtain ⟨a, ha, rfl⟩ := List.mem_map.mp haid
    exact (haccount a ha).1

/-! What is exported, and what is counted only. -/

theorem mem_of_find_byKey {rows : List TagRow} {key : RowKey} {r : TagRow}
    (h : find key (byKey rows) = some r) : r ∈ rows ∧ r.key = key := by
  have hrun : ∀ r, find key (byKey rows) = some r → r ∈ rows ∧ r.key = key := by
    refine List.foldlRecOn (motive := fun store => ∀ r, find key store = some r →
      r ∈ rows ∧ r.key = key) rows _ (by simp [find]) fun store ih r' hr' r h => ?_
    rw [find_assign] at h
    split at h
    · rename_i hkey
      obtain rfl := Option.some.inj h
      exact ⟨hr', hkey.symm⟩
    · exact ih r h
  exact hrun r h

theorem row_mem_of_exported {f : Filters} {rows : List TagRow} {e : Export}
    (h : e ∈ exported f rows) : e.row ∈ rows ∧ e.valid = true := by
  obtain ⟨hchosen, hvalid⟩ := List.mem_filter.mp h
  obtain ⟨c, -, hc⟩ := List.mem_filterMap.mp (List.mem_filter.mp hchosen).1
  obtain ⟨r, hr, rfl⟩ := Option.map_eq_some_iff.mp hc
  exact ⟨(mem_of_find_byKey hr).1, hvalid⟩

theorem mem_keys_notCovered {sources : List Source} {rows : List TagRow} {t : Text} :
    t ∈ keys (notCovered sources rows) ↔
      ∃ r ∈ rows, uncovered sources r = true ∧ r.resourceType = t := by
  have hrun : ∀ (rs : List TagRow) (store : List (Text × ℕ)),
      t ∈ keys (rs.foldl countType store) ↔ t ∈ keys store ∨ ∃ r ∈ rs, r.resourceType = t := by
    intro rs
    induction rs with
    | nil => simp
    | cons r rs ih =>
      intro store
      rw [List.foldl_cons, ih, countType, ← find_isSome_iff, find_assign, ← find_isSome_iff]
      split
      · rename_i heq
        simp [heq]
      · rename_i hne
        simp [Ne.symm hne]
  rw [notCovered, hrun]
  simp [keys, and_assoc]

/-! The comment about what is not covered. -/

/-- The lines of a text after its first. -/
def laterLines (s : Text) : List Text := (s.splitOn '\n').tail

/-- What may follow the count of a type: nothing, or the next type. -/
def Continues (rest : Text) : Prop := rest = [] ∨ ∃ tail, rest = ',' :: tail

/-- The later lines of a type as they stand in the comment: the last of them goes on. -/
def Harmless (Good Ends : Text → Prop) (t : Text) : Prop :=
  (∀ p ∈ (laterLines t).dropLast, Good p) ∧ ∀ p ∈ (laterLines t).getLast?, Ends p

theorem plain_typeSuffix (n : ℕ) : Plain (lit " x" ++ number n) :=
  plain_append.mpr ⟨of_lit (by decide), plain_number n⟩

theorem splitOn_typeSuffix (n : ℕ) (entries : List (Text × ℕ)) :
    ∃ rest, Continues rest ∧
      (lit " x" ++ number n ++ if entries = [] then [] else
        lit ", " ++ commaSep (entries.map typeText)).splitOn '\n' =
        (lit " x" ++ number n ++ rest) :: laterLines (commaSep (entries.map typeText)) := by
  rw [splitOn_append_of_not_mem (plain_typeSuffix n)]
  split
  · rename_i hnil
    subst hnil
    exact ⟨[], .inl rfl, rfl⟩
  · have hcomma : '\n' ∉ lit ", " := of_lit (P := fun s => '\n' ∉ s) (by decide)
    obtain ⟨p, ps, hps⟩ := List.exists_cons_of_ne_nil
      (List.splitOn_ne_nil '\n' (commaSep (entries.map typeText)))
    refine ⟨lit ", " ++ p, .inr ⟨' ' :: p, rfl⟩, ?_⟩
    rw [splitOn_append_of_not_mem hcomma, laterLines, hps]
    rfl

theorem commaSep_cons (e : Text × ℕ) (entries : List (Text × ℕ)) :
    commaSep ((e :: entries).map typeText) =
      e.1 ++ (lit " x" ++ number e.2 ++ if entries = [] then [] else
        lit ", " ++ commaSep (entries.map typeText)) := by
  cases entries with
  | nil => simp [commaSep, typeText]
  | cons e' entries =>
    rw [if_neg (List.cons_ne_nil _ _), List.map_cons, commaSep, List.map_cons,
      List.intercalate_cons_cons, typeText]
    simp only [List.append_assoc]

/-- The later lines of the comment are good if those of each type are. -/
theorem laterLines_commaSep {Good Ends : Text → Prop}
    (hends : ∀ p n rest, Continues rest → (Good (p ++ (lit " x" ++ number n ++ rest)) ↔ Ends p))
    (entries : List (Text × ℕ)) :
    (∀ p ∈ laterLines (commaSep (entries.map typeText)), Good p) ↔
      ∀ e ∈ entries, Harmless Good Ends e.1 := by
  induction entries with
  | nil =>
    exact iff_of_true (fun _ h => absurd h List.not_mem_nil) fun _ h => absurd h List.not_mem_nil
  | cons e entries ih =>
    obtain ⟨front, last, hfront⟩ := (List.eq_nil_or_concat' (e.1.splitOn '\n')).resolve_left
      (List.splitOn_ne_nil _ _)
    obtain ⟨rest, hrest, hsuffix⟩ := splitOn_typeSuffix e.2 entries
    rw [List.forall_mem_cons, ← ih, commaSep_cons, laterLines, splitOn_append hfront hsuffix]
    cases front with
    | nil =>
      have hnone : laterLines e.1 = [] := by rw [laterLines, hfront]; rfl
      rw [Harmless, hnone]
      simp
    | cons f front =>
      have hlater : laterLines e.1 = front ++ [last] := by rw [laterLines, hfront]; rfl
      rw [Harmless, hlater, List.dropLast_concat, List.getLast?_concat, List.cons_append,
        List.tail_cons, List.forall_mem_append, List.forall_mem_cons, hends last e.2 rest hrest]
      simp [and_assoc]

theorem splitOn_notCoveredLine (counts : List (Text × ℕ)) : ∃ p,
    (notCoveredLine counts).splitOn '\n' = (notCoveredStem ++ p) :: laterLines (commaSep
      ((counts.insertionSort fun a b => (compareText a.1 b.1).isLE).map typeText)) := by
  have hplain : Plain notCoveredStem := of_lit (P := Plain) (by decide)
  obtain ⟨p, ps, hps⟩ := List.exists_cons_of_ne_nil (List.splitOn_ne_nil '\n'
    (commaSep ((counts.insertionSort fun a b => (compareText a.1 b.1).isLE).map typeText)))
  exact ⟨p, by rw [notCoveredLine, splitOn_append_of_not_mem hplain, laterLines, hps]; rfl⟩

end MonitoringHub.TagScript
