import MonitoringHub.TagScript.PlainLines

/-! No line of the tagging script is anything but a comment, a fixed line, or one built from
strict texts and cleaned names. Two things break this: the dollar of the strict patterns lets a
newline through at the end of an id, a region or an account number, and the types that are not
covered are written as they are. -/

namespace MonitoringHub.TagScript
open Lib KeyedStore Alerts Environments

def isComment (s : Text) : Bool := (s.dropWhile (· == ' ')).head? == some '#'

/-- The lines that may stand in a script. -/
inductive Allowed : Text → Prop
  | comment {s : Text} (h : isComment s = true) : Allowed s
  | fixed {s : Text} (h : s ∈ fixedLines) : Allowed s
  | header {aid : Text} (h : strictAccount aid = true) : Allowed (headerLine aid)
  | branch {aid name : Text} (h : strictAccount aid = true)
      (hname : ∀ c ∈ name, nameChar c = true) : Allowed (caseLine aid name)
  | otherwise {aids : List Text} (h : ∀ aid ∈ aids, strictAccount aid = true) :
      Allowed (otherwiseLine aids)
  | command {region : Text} {ids : List Text} (t : Tier) (hregion : strictRegion region = true)
      (hne : ids ≠ []) (hids : ∀ id ∈ ids, strictId id = true) :
      Allowed (commandLine region ids (tierText t))

/-- What the code appends as one line gives allowed lines only. -/
def Sound (s : Text) : Prop := ∀ p ∈ s.splitOn '\n', Allowed p

theorem Plain.sound {s : Text} (h : Plain s) (hs : Allowed s) : Sound s := by
  intro p hp
  rw [h.splitOn, List.mem_singleton] at hp
  exact hp ▸ hs

theorem isComment_append {s : Text} (h : isComment s = true) (t : Text) :
    isComment (s ++ t) = true := by
  rw [isComment, beq_iff_eq] at h ⊢
  rw [List.dropWhile_append]
  split
  · rename_i hnil
    rw [List.isEmpty_iff.mp hnil] at h
    cases h
  · rw [List.head?_append, h]
    rfl

theorem lit_comment {l : List Char} (h : isComment l = true) (t : Text) :
    isComment (lit (String.ofList l) ++ t) = true :=
  of_lit (P := fun s => isComment (s ++ t) = true) (isComment_append h t)

theorem comment_fixedComments : ∀ l ∈ fixedComments, isComment l = true := by
  have hlit : ∀ l : List Char, isComment l = true → isComment (lit (String.ofList l)) = true :=
    fun _ h => of_lit (P := fun s => isComment s = true) h
  simp only [fixedComments, usageLines, nothingLine, List.cons_append, List.nil_append,
    List.forall_mem_cons]
  exact ⟨hlit _ rfl, hlit _ rfl, hlit _ rfl, lit_comment rfl _, lit_comment rfl _, hlit _ rfl,
    hlit _ rfl, lit_comment rfl _, lit_comment rfl _, hlit _ rfl, lit_comment rfl _,
    lit_comment rfl _, hlit _ rfl, hlit _ rfl, hlit _ rfl, lit_comment rfl _,
    fun _ h => absurd h List.not_mem_nil⟩

/-- With strict groups every written line is allowed. -/
theorem Written.allowed {groups : List Group} {now : Stamp} {l : Text}
    (h : ∀ g ∈ groups, g.Strict) (hl : Written groups now l) : Allowed l := by
  cases hl with
  | comment hl => exact .comment (comment_fixedComments l hl)
  | generated => exact .comment (lit_comment (by decide) _)
  | summary =>
    simp only [summaryLine, List.append_assoc]
    exact .comment (lit_comment (by decide) _)
  | perAccount =>
    simp only [accountLine, List.append_assoc]
    exact .comment (lit_comment (by decide) _)
  | fixed hl => exact .fixed hl
  | title =>
    simp only [titleLine, List.append_assoc]
    exact .comment (lit_comment (by decide) _)
  | header ha => exact .header (strict_account_of_mem h ha).1
  | group =>
    simp only [groupLine, List.append_assoc]
    exact .comment (lit_comment (by decide) _)
  | resource =>
    simp only [resourceLine, List.append_assoc]
    exact .comment (lit_comment (by decide) _)
  | command hg hids =>
    have hne := List.ne_nil_of_length_pos (chunk_length hids).1
    refine .command _ (h _ hg).region hne fun id hin => ?_
    obtain ⟨r, hr, hrid⟩ := mem_of_mem_chunk hids hin
    exact hrid ▸ (h _ hg).ids r hr
  | branch ha => exact .branch (strict_account_of_mem h ha).1 (strict_account_of_mem h ha).2
  | otherwise =>
    refine .otherwise fun aid haid => ?_
    obtain ⟨a, ha, rfl⟩ := List.mem_map.mp haid
    exact (strict_account_of_mem h ha).1

/-! What no allowed line starts with. -/

/-- A parenthesis, or one blank before something that is no comment. -/
def badStart : Text → Bool
  | '(' :: _ => true
  | ')' :: _ => true
  | ' ' :: c :: _ => c ≠ ' ' && c ≠ '#'
  | _ => false

theorem badStart_fixedLines : ∀ l ∈ fixedLines, badStart l = false := by
  have hlit : ∀ l : List Char, badStart l = false → badStart (lit (String.ofList l)) = false :=
    fun _ h => of_lit (P := fun s => badStart s = false) h
  simp only [fixedLines, runLines, caseLines, doneLines, List.cons_append, List.nil_append,
    List.forall_mem_cons]
  exact ⟨rfl, rfl, hlit _ rfl, hlit _ rfl, hlit _ rfl, hlit _ rfl, hlit _ rfl, hlit _ rfl,
    of_lit (P := fun s => badStart (s ++ _) = false) rfl, fun _ h => absurd h List.not_mem_nil⟩

theorem badStart_comment {s : Text} (h : isComment s = true) : badStart s = false := by
  unfold badStart
  split
  · cases h
  · cases h
  · rename_i c rest
    by_cases hc : c = ' '
    · simp [hc]
    · have hdrop : (' ' :: c :: rest).dropWhile (· == ' ') = c :: rest := by simp [hc]
      rw [isComment, hdrop] at h
      simpa [hc] using h
  · rfl

theorem Allowed.badStart {s : Text} (h : Allowed s) : badStart s = false := by
  cases h with
  | comment h => exact badStart_comment h
  | fixed h => exact badStart_fixedLines s h
  | header =>
    simp only [headerLine, List.append_assoc]
    exact of_lit (P := fun s => TagScript.badStart (s ++ _) = false) rfl
  | branch =>
    simp only [caseLine, List.append_assoc]
    exact of_lit (P := fun s => TagScript.badStart (s ++ _) = false) rfl
  | otherwise =>
    simp only [otherwiseLine, List.append_assoc]
    exact of_lit (P := fun s => TagScript.badStart (s ++ _) = false) rfl
  | command =>
    simp only [commandLine, List.append_assoc]
    exact of_lit (P := fun s => TagScript.badStart (s ++ _) = false) rfl

/-! A newline at the end of a checked text breaks a line where nothing allowed can start. -/

theorem not_sound {pre start rest : Text} (hplain : Plain start)
    (hbad : ∀ more, badStart (start ++ more) = true) :
    ¬ Sound (pre ++ '\n' :: (start ++ rest)) := by
  intro h
  obtain ⟨more, hmore⟩ := exists_piece_append hplain rest
  have hin : start ++ more ∈ (pre ++ '\n' :: (start ++ rest)).splitOn '\n' := by
    rw [List.splitOn_append_cons_self]
    exact List.mem_append_right _ hmore
  exact absurd (hbad more) (by rw [(h _ hin).badStart]; exact Bool.false_ne_true)

theorem endsInNewline_split {s : Text} (h : endsInNewline s = true) : ∃ b, s = b ++ ['\n'] :=
  List.getLast?_eq_some_iff.mp (beq_iff_eq.mp h)

theorem strict_of_anchored {strict : Text → Bool} {s : Text} (h : anchored strict s = true)
    (hend : endsInNewline s = false) : strict s = true := by
  simpa [anchored, hend] using h

theorem not_sound_caseLine {aid : Text} (h : endsInNewline aid = true) (name : Text) :
    ¬ Sound (caseLine aid name) := by
  obtain ⟨b, rfl⟩ := endsInNewline_split h
  simp only [caseLine, List.append_assoc, List.singleton_append]
  rw [← List.append_assoc (lit "  ") b]
  exact not_sound (of_lit (by decide)) fun _ => of_lit (P := fun s => badStart (s ++ _) = true) rfl

theorem not_sound_region {region : Text} (h : endsInNewline region = true) (ids : List Text)
    (tier : Text) : ¬ Sound (commandLine region ids tier) := by
  obtain ⟨b, rfl⟩ := endsInNewline_split h
  simp only [commandLine, List.append_assoc, List.singleton_append]
  rw [← List.append_assoc _ b]
  exact not_sound (of_lit (by decide)) fun _ => of_lit (P := fun s => badStart (s ++ _) = true) rfl

/-- What passes the pattern of ids starts with a letter. -/
theorem exists_letter {id : Text} (h : anchored strictId id = true) :
    ∃ c tail, id = c :: tail ∧ (c = 'i' ∨ c = 'v') := by
  have hstrict : ∀ s : Text, strictId s = true → ∃ c tail, s = c :: tail ∧ (c = 'i' ∨ c = 'v') := by
    intro s hs
    obtain ⟨stem, tail, rfl | rfl, -, rfl⟩ := strictId_cases hs
    · exact ⟨'i', '-' :: tail, rfl, .inl rfl⟩
    · exact ⟨'v', 'o' :: 'l' :: '-' :: tail, rfl, .inr rfl⟩
  simp only [anchored, Bool.or_eq_true, Bool.and_eq_true] at h
  rcases h with h | ⟨hend, h⟩
  · exact hstrict _ h
  · obtain ⟨b, rfl⟩ := endsInNewline_split hend
    rw [List.dropLast_concat] at h
    obtain ⟨c, tail, rfl, hc⟩ := hstrict _ h
    exact ⟨c, tail ++ ['\n'], rfl, hc⟩

theorem not_sound_id {ids : List Text} {id : Text} (hid : id ∈ ids) (h : endsInNewline id = true)
    (hids : ∀ id' ∈ ids, anchored strictId id' = true) (region tier : Text) :
    ¬ Sound (commandLine region ids tier) := by
  obtain ⟨b, rfl⟩ := endsInNewline_split h
  obtain ⟨pre, post, hsplit, hpost⟩ := exists_intercalate_split [' '] hid
  have hline : commandLine region ids tier =
      (lit "  run aws ec2 create-tags --region " ++ region ++ lit " --resources " ++ pre ++ b) ++
        '\n' :: (post ++ (lit " --tags Key=Environment,Value=" ++ tier)) := by
    simp only [commandLine, hsplit, List.append_assoc, List.cons_append, List.nil_append]
  rw [hline]
  rcases hpost with rfl | ⟨id', hid', rest, rfl⟩
  · rw [List.nil_append]
    exact not_sound (of_lit (by decide)) fun _ =>
      of_lit (P := fun s => badStart (s ++ _) = true) rfl
  · obtain ⟨c, tail, rfl, hc⟩ := exists_letter (hids id' hid')
    have hplain : Plain [' ', c] := by rcases hc with rfl | rfl <;> decide
    have hbad : ∀ more, badStart ([' ', c] ++ more) = true := by
      intro more
      rcases hc with rfl | rfl <;> rfl
    show ¬ Sound (_ ++ '\n' :: ([' ', c] ++ (tail ++ rest ++ _)))
    exact not_sound hplain hbad

/-! The comment about what is not covered: a later line of a type goes on with its count, so it
is allowed only if it is a comment. -/

theorem exists_last_digit (n : ℕ) : ∃ front d, number n = front ++ [d] ∧ d.isDigit = true := by
  obtain ⟨front, d, h⟩ := (List.eq_nil_or_concat' (number n)).resolve_left Nat.toDigits_ne_nil
  exact ⟨front, d, h, isDigit_of_mem_number (h ▸ List.mem_append_right _ List.mem_cons_self)⟩

theorem exists_first_digit (n : ℕ) : ∃ d rest, number n = d :: rest ∧ d.isDigit = true := by
  obtain ⟨d, rest, h⟩ := List.exists_cons_of_ne_nil (l := number n) Nat.toDigits_ne_nil
  exact ⟨d, rest, h, isDigit_of_mem_number (h ▸ List.mem_cons_self)⟩

theorem isComment_of_goes_on {p rest : Text} (h : isComment (p ++ (lit " x" ++ rest)) = true) :
    isComment p = true := by
  rw [isComment, List.dropWhile_append] at h
  split at h
  · cases h
  · rename_i hne
    obtain ⟨c, s, hcs⟩ := List.exists_cons_of_ne_nil fun hnil => hne (List.isEmpty_iff.mpr hnil)
    rw [hcs] at h
    rw [isComment, hcs]
    exact h

theorem last_append (s : Text) {l : List Char} (h : l.getLast?.map Char.isDigit = some false) :
    (s ++ lit (String.ofList l)).getLast?.any Char.isDigit = false := by
  obtain ⟨c, hc, hdigit⟩ := Option.map_eq_some_iff.mp h
  rw [lit, String.toList_ofList, List.getLast?_append, hc, Option.some_or, Option.any_some, hdigit]

theorem last_fixedLines : ∀ l ∈ fixedLines, l.getLast?.any Char.isDigit = false := by
  have hlit : ∀ l : List Char, l.getLast?.any Char.isDigit = false →
      (lit (String.ofList l)).getLast?.any Char.isDigit = false :=
    fun _ h => of_lit (P := fun s => s.getLast?.any Char.isDigit = false) h
  simp only [fixedLines, runLines, caseLines, doneLines, List.cons_append, List.nil_append,
    List.forall_mem_cons]
  exact ⟨rfl, rfl, hlit _ rfl, hlit _ rfl, hlit _ rfl, hlit _ rfl, hlit _ rfl, hlit _ rfl,
    last_append _ rfl, fun _ h => absurd h List.not_mem_nil⟩

/-- No line of the script but a comment ends in a digit. -/
theorem Allowed.last_not_digit {s : Text} (h : Allowed s) (hs : isComment s = false) :
    s.getLast?.any Char.isDigit = false := by
  cases h with
  | comment h => exact absurd h (by rw [hs]; exact Bool.false_ne_true)
  | fixed h =>
    exact last_fixedLines s h
  | header => exact last_append _ rfl
  | branch => exact last_append _ rfl
  | otherwise => exact last_append _ rfl
  | command t => cases t <;> exact last_append _ rfl

/-- A comma behind a digit. -/
def digitComma : Text → Bool
  | a :: b :: s => (a.isDigit && b == ',') || digitComma (b :: s)
  | _ => false

theorem digitComma_of_split (p rest : Text) {d : Char} (hd : d.isDigit = true) :
    digitComma (p ++ d :: ',' :: rest) = true := by
  induction p with
  | nil => simp [digitComma, hd]
  | cons a p ih =>
    obtain ⟨b, s, hbs⟩ : ∃ b s, p ++ d :: ',' :: rest = b :: s := by
      cases p <;> exact ⟨_, _, rfl⟩
    rw [List.cons_append, hbs, digitComma, ← hbs, ih, Bool.or_true]

theorem digitComma_fixedLines : ∀ l ∈ fixedLines, digitComma l = false := by
  have hlit : ∀ l : List Char, digitComma l = false → digitComma (lit (String.ofList l)) = false :=
    fun _ h => of_lit (P := fun s => digitComma s = false) h
  simp only [fixedLines, runLines, caseLines, doneLines, List.cons_append, List.nil_append,
    List.forall_mem_cons]
  exact ⟨rfl, rfl, hlit _ rfl, hlit _ rfl, hlit _ rfl, hlit _ rfl, hlit _ rfl, hlit _ rfl,
    of_lit (P := fun s => digitComma (s ++ _) = false)
      (of_lit (P := fun s => digitComma (_ ++ s) = false) rfl),
    fun _ h => absurd h List.not_mem_nil⟩

/-- The only comma of a command stands behind a letter. -/
theorem commandLine_ne {region : Text} {ids : List Text} {t : Tier} {p rest : Text} {d : Char}
    (hregion : strictRegion region = true) (hids : ∀ id ∈ ids, strictId id = true)
    (hd : d.isDigit = true) :
    commandLine region ids (tierText t) ≠ p ++ d :: ',' :: rest := by
  intro h
  have hkey : lit " --tags Key=Environment,Value=" =
      lit " --tags Key=Environment" ++ ',' :: lit "Value=" := lit_split rfl
  have hline : commandLine region ids (tierText t) =
      (lit "  run aws ec2 create-tags --region " ++ region ++ lit " --resources " ++
        List.intercalate [' '] ids ++ lit " --tags Key=Environment") ++
        ',' :: (lit "Value=" ++ tierText t) := by
    simp only [commandLine, hkey, List.append_assoc, List.cons_append]
  have hjoined : ',' ∉ List.intercalate [' '] ids := by
    intro hc
    rcases of_mem_intercalate hc with hc | ⟨id, hid, hin⟩
    · exact absurd hc (by decide)
    · exact not_mem_of_forall (strictId_chars (hids id hid)) (by decide) hin
  have hfront : ',' ∉ lit "  run aws ec2 create-tags --region " ++ region ++
      lit " --resources " ++ List.intercalate [' '] ids ++ lit " --tags Key=Environment" := by
    simp only [List.mem_append, not_or]
    exact ⟨⟨⟨⟨of_lit (P := fun s => ',' ∉ s) (by decide),
      not_mem_of_forall (strictRegion_chars hregion) (by decide)⟩,
      of_lit (P := fun s => ',' ∉ s) (by decide)⟩, hjoined⟩,
      of_lit (P := fun s => ',' ∉ s) (by decide)⟩
  have hback : ',' ∉ lit "Value=" ++ tierText t := by cases t <;> decide
  have hsplit : p ++ d :: ',' :: rest = (p ++ [d]) ++ ',' :: rest := by simp
  rw [hline, hsplit, List.append_cons_inj_of_notMem hfront hback] at h
  have hlast := congrArg List.getLast? h.1
  rw [List.getLast?_concat, List.getLast?_append] at hlast
  have ht : some 't' = some d :=
    of_lit (P := fun s => s.getLast?.or _ = some d → some 't' = some d) id hlast
  rw [← Option.some.inj ht] at hd
  exact absurd hd (by decide)

/-- No `x` of the last branch stands before a digit. -/
theorem otherwiseLine_ne {aids : List Text} {p rest : Text} {d : Char}
    (haids : ∀ aid ∈ aids, strictAccount aid = true) (hd : d.isDigit = true) :
    otherwiseLine aids ≠ p ++ 'x' :: d :: rest := by
  intro h
  have hline : otherwiseLine aids =
      (lit "  *) echo \"These credentials are for account $CURRENT_ACCOUNT, " ++
        lit "which has no block in this script. E") ++
        'x' :: ((lit "pected one of: " ++ commaSep aids ++ lit "\"; e") ++
          'x' :: lit "it 1 ;;") := by
    have hfront : lit "which has no block in this script. Expected one of: " =
        lit "which has no block in this script. E" ++ 'x' :: lit "pected one of: " := lit_split rfl
    have hback : lit "\"; exit 1 ;;" = lit "\"; e" ++ 'x' :: lit "it 1 ;;" := lit_split rfl
    simp only [otherwiseLine, hfront, hback, List.append_assoc, List.cons_append]
  have hx : 'x' ∉ lit "pected one of: " ++ commaSep aids ++ lit "\"; e" := by
    simp only [List.mem_append, not_or]
    refine ⟨⟨of_lit (P := fun s => 'x' ∉ s) (by decide), fun hc => ?_⟩,
      of_lit (P := fun s => 'x' ∉ s) (by decide)⟩
    rcases of_mem_intercalate hc with hc | ⟨aid, haid, hin⟩
    · exact of_lit (P := fun s => 'x' ∉ s) (by decide) hc
    · exact not_mem_of_forall (strictAccount_chars (haids aid haid)) (by decide) hin
  have hpieces : (otherwiseLine aids).splitOn 'x' =
      [lit "  *) echo \"These credentials are for account $CURRENT_ACCOUNT, " ++
          lit "which has no block in this script. E",
        lit "pected one of: " ++ commaSep aids ++ lit "\"; e", lit "it 1 ;;"] := by
    have hfirst : 'x' ∉ lit "  *) echo \"These credentials are for account $CURRENT_ACCOUNT, " ++
        lit "which has no block in this script. E" :=
      fun hc => (List.mem_append.mp hc).elim (of_lit (P := fun s => 'x' ∉ s) (by decide))
        (of_lit (P := fun s => 'x' ∉ s) (by decide))
    rw [hline, List.splitOn_append_cons_self, List.splitOn_append_cons_self,
      List.splitOn_eq_singleton hx, List.splitOn_eq_singleton hfirst,
      List.splitOn_eq_singleton (of_lit (P := fun s => 'x' ∉ s) (by decide))]
    rfl
  have hdx : 'x' ∉ [d] := fun hc => absurd hd (by rw [← List.mem_singleton.mp hc]; decide)
  obtain ⟨more, hmore⟩ := exists_piece_append hdx rest
  have hlater : [d] ++ more ∈ ((otherwiseLine aids).splitOn 'x').tail := by
    rw [h, List.splitOn_append_cons_self, List.tail_append_of_ne_nil (List.splitOn_ne_nil _ _)]
    exact List.mem_append_right _ hmore
  rw [hpieces, List.tail_cons, List.mem_cons, List.mem_singleton, List.append_assoc] at hlater
  rcases hlater with heq | heq
  · have hp : some d = some 'p' := (congrArg List.head? heq).trans
      (of_lit (P := fun s => (s ++ _).head? = some 'p') rfl)
    rw [Option.some.inj hp] at hd
    exact absurd hd (by decide)
  · have hi : some d = some 'i' := (congrArg List.head? heq).trans
      (of_lit (P := fun s => s.head? = some 'i') rfl)
    rw [Option.some.inj hi] at hd
    exact absurd hd (by decide)

/-- A line that goes on with a count is allowed if it is a comment up to there. -/
theorem allowed_goes_on (p : Text) (n : ℕ) (rest : Text) (hrest : Continues rest) :
    Allowed (p ++ (lit " x" ++ number n ++ rest)) ↔ isComment p = true := by
  refine ⟨fun h => ?_, fun h => .comment (isComment_append h _)⟩
  by_contra hp
  have hnot : isComment (p ++ (lit " x" ++ number n ++ rest)) = false := by
    rw [← Bool.not_eq_true]
    intro hc
    rw [List.append_assoc] at hc
    exact hp (isComment_of_goes_on hc)
  obtain ⟨front, d, hfront, hd⟩ := exists_last_digit n
  rcases hrest with rfl | ⟨tail, rfl⟩
  · have hlast := h.last_not_digit hnot
    rw [List.append_nil, hfront, ← List.append_assoc, ← List.append_assoc, List.getLast?_concat,
      Option.any_some, hd] at hlast
    cases hlast
  obtain ⟨d', digits, hdigits, hd'⟩ := exists_first_digit n
  have hcomma : p ++ (lit " x" ++ number n ++ ',' :: tail) =
      (p ++ lit " x" ++ front) ++ d :: ',' :: tail := by
    simp only [hfront, List.append_assoc, List.singleton_append]
  have hx : p ++ (lit " x" ++ number n ++ ',' :: tail) =
      (p ++ [' ']) ++ 'x' :: d' :: (digits ++ ',' :: tail) := by
    have hlit : lit " x" = [' ', 'x'] := by rfl
    simp only [hdigits, hlit, List.append_assoc, List.cons_append, List.nil_append]
  have hfree : ∀ s, p ++ (lit " x" ++ number n ++ ',' :: tail) = s → ',' ∈ s := by
    rintro s rfl
    exact hcomma ▸ List.mem_append_right _ (by simp)
  generalize hs : p ++ (lit " x" ++ number n ++ ',' :: tail) = s at h hnot
  cases h with
  | comment h => exact absurd h (by rw [hnot]; exact Bool.false_ne_true)
  | fixed h =>
    have hfixed := digitComma_fixedLines s h
    rw [← hs, hcomma, digitComma_of_split _ _ hd] at hfixed
    cases hfixed
  | header h =>
    have hin := hfree _ hs
    simp only [headerLine, List.mem_append, or_assoc] at hin
    rcases hin with hin | hin | hin
    · exact of_lit (P := fun s => ',' ∉ s) (by decide) hin
    · exact not_mem_of_forall (strictAccount_chars h) (by decide) hin
    · exact of_lit (P := fun s => ',' ∉ s) (by decide) hin
  | @branch aid name h hname =>
    have haid : ',' ∉ aid := not_mem_of_forall (strictAccount_chars h) (by decide)
    have hin := hfree _ hs
    simp only [caseLine, List.mem_append, haid, not_mem_of_forall hname (c := ',') (by decide),
      or_false] at hin
    obtain (((hin | hin) | hin) | hin) | hin := hin
    all_goals exact of_lit (P := fun s => ',' ∉ s) (by decide) hin
  | otherwise haids => exact otherwiseLine_ne haids hd' (hs.symm.trans hx)
  | command t hregion _ hids => exact commandLine_ne hregion hids hd (hs.symm.trans hcomma)

/-- A type that stays in its comment: each later line of it is allowed, the last as a comment. -/
def Contained (t : Text) : Prop := Harmless Allowed (fun p => isComment p = true) t

theorem sound_notCoveredLine (counts : List (Text × ℕ)) :
    Sound (notCoveredLine counts) ↔ ∀ t ∈ keys counts, Contained t := by
  obtain ⟨p, hp⟩ := splitOn_notCoveredLine counts
  have hfirst : Allowed (notCoveredStem ++ p) := .comment (lit_comment rfl p)
  rw [Sound, hp, List.forall_mem_cons, and_iff_right hfirst, laterLines_commaSep allowed_goes_on]
  simp only [List.mem_insertionSort, keys, List.forall_mem_map]
  rfl

/-! The script as a whole. -/

/-- The rows come with their account: its number is the same in all of them. -/
def OneNumber (rows : List TagRow) : Prop :=
  ∀ r ∈ rows, ∀ s ∈ rows, r.awsAccountId = s.awsAccountId → r.accountId = s.accountId

/-- None of the checked texts of an exported resource ends in a newline. -/
def Export.Whole (e : Export) : Prop :=
  endsInNewline e.row.resourceId = false ∧ endsInNewline e.row.region = false ∧
    endsInNewline e.row.accountId = false

theorem Group.strict_of_whole {exports : List Export}
    (h : ∀ e ∈ exports, e.valid = true ∧ e.Whole) {g : Group} (hg : g ∈ ordered exports) :
    g.Strict := by
  have hfrom := Group.from_of_mem_ordered hg
  have hrow : ∀ r ∈ g.rows, strictId r.resourceId = true ∧ strictRegion g.region = true ∧
      strictAccount r.accountId = true := by
    intro r hr
    obtain ⟨e, he, rfl, hkey⟩ := hfrom.exported r hr
    obtain ⟨hvalid, hid, hregion, haccount⟩ := h e he
    have hreg : e.row.region = g.region := congrArg (·.2.1) hkey
    simp only [Export.valid, Bool.and_eq_true] at hvalid
    exact ⟨strict_of_anchored hvalid.1.1 hid, hreg ▸ strict_of_anchored hvalid.1.2 hregion,
      strict_of_anchored hvalid.2 haccount⟩
  obtain ⟨r, hr, hnumber⟩ := Group.accountId_eq hfrom.rows_ne
  exact ⟨(hrow r hr).2.1, hnumber ▸ (hrow r hr).2.2, fun s hs => (hrow s hs).1⟩

theorem mem_coveredLines_of_group {groups : List Group} {now : Stamp} {g : Group} {l : Text}
    (hg : g ∈ groups) (hl : l ∈ groupLines g) : l ∈ coveredLines groups now := by
  have hblock : l ∈ blockLines (accounts groups) none groups := mem_blockLines_of_group hg hl
  simp only [coveredLines, List.cons_append, List.mem_cons, List.mem_append]
  tauto

theorem mem_coveredLines_of_account {groups : List Group} {now : Stamp} {a : Account}
    (ha : a ∈ accounts groups) : caseLine a.number a.name ∈ coveredLines groups now := by
  have hne : groups ≠ [] := by
    rintro rfl
    cases ha
  have hin : caseLine a.number a.name ∈ dispatchLines (accounts groups) := by
    simp only [dispatchLines, List.mem_append]
    exact .inl (.inl (.inl (.inr (List.mem_map.mpr ⟨a, ha, rfl⟩))))
  simp only [coveredLines, if_neg hne, List.cons_append, List.mem_cons, List.mem_append]
  tauto

theorem commandLine_mem {g : Group} {ids : List Text} (h : ids ∈ g.chunks) :
    commandLine g.region ids (tierText g.tier) ∈ groupLines g := by
  have hin : commandLine g.region ids (tierText g.tier) ∈ commandLines g :=
    List.mem_map.mpr ⟨ids, h, rfl⟩
  simp [groupLines, hin]

/-- A resource whose line is sound is whole. -/
theorem whole_of_sound {exports : List Export} {now : Stamp}
    (hvalid : ∀ e ∈ exports, e.valid = true)
    (hnumber : ∀ e ∈ exports, ∀ e' ∈ exports, e.row.awsAccountId = e'.row.awsAccountId →
      e.row.accountId = e'.row.accountId)
    (h : ∀ l ∈ coveredLines (ordered exports) now, Sound l) : ∀ e ∈ exports, e.Whole := by
  intro e he
  obtain ⟨g, hg, hkey, hrow⟩ := exists_group he
  have hfrom := Group.from_of_mem_ordered hg
  have hregion : g.region = e.row.region := congrArg (·.2.1) hkey
  have hanchored : ∀ ids ∈ g.chunks, ∀ id ∈ ids, anchored strictId id = true := by
    intro ids hids id hid
    obtain ⟨r, hr, rfl⟩ := mem_of_mem_chunk hids hid
    obtain ⟨e', he', rfl, -⟩ := hfrom.exported r hr
    have hv := hvalid e' he'
    simp only [Export.valid, Bool.and_eq_true] at hv
    exact hv.1.1
  obtain ⟨ids, hids, hid⟩ := exists_chunk hrow
  have hcommand := h _ (mem_coveredLines_of_group hg (commandLine_mem hids))
  have hstart : (none : Option ℕ) ≠ some g.acct := nofun
  obtain ⟨a, ha, hacct⟩ := exists_account_of_mem hg hstart
  obtain ⟨g', hg', hacct', hnum, -⟩ := exists_group_of_mem_accountsFrom ha
  have hbranch := h _ (mem_coveredLines_of_account ha)
  have hfrom' := Group.from_of_mem_ordered hg'
  obtain ⟨r', hr', hrnum⟩ := Group.accountId_eq hfrom'.rows_ne
  obtain ⟨e', he', rfl, hkey'⟩ := hfrom'.exported r' hr'
  have hsame : e'.row.accountId = e.row.accountId := hnumber e' he' e he <|
    (congrArg (·.1) hkey').trans (hacct'.symm.trans (hacct.trans (congrArg (·.1) hkey)))
  refine ⟨?_, ?_, ?_⟩ <;> rw [← Bool.not_eq_true] <;> intro hend
  · exact not_sound_id hid hend (hanchored ids hids) _ _ hcommand
  · exact not_sound_region (hregion ▸ hend) _ _ hcommand
  · exact not_sound_caseLine (hnum.trans (hrnum.trans hsame) ▸ hend) _ hbranch

theorem script_splitOn (f : Filters) (rows : List TagRow) (now : Stamp) :
    (buildTagPlan f rows now).script.splitOn '\n' =
      (scriptLines f rows now).flatMap (fun l => l.splitOn '\n') ++ [[]] := by
  have hne : scriptLines f rows now ≠ [] := by
    simp only [scriptLines, coveredLines, List.cons_append]
    exact List.cons_ne_nil _ _
  rw [buildTagPlan, List.splitOn_append_cons_self, splitOn_intercalate_flatMap hne,
    List.splitOn_nil]

theorem allowed_script_iff (f : Filters) (rows : List TagRow) (now : Stamp) :
    (∀ line ∈ (buildTagPlan f rows now).script.splitOn '\n', Allowed line) ↔
      ∀ l ∈ scriptLines f rows now, Sound l := by
  have hblank : Allowed [] := .fixed List.mem_cons_self
  rw [script_splitOn]
  simp only [List.mem_append, List.mem_flatMap, List.mem_singleton]
  exact ⟨fun h l hl p hp => h p (.inl ⟨l, hl, hp⟩),
    fun h p hp => hp.elim (fun ⟨l, hl, hp⟩ => h l hl p hp) fun heq => heq ▸ hblank⟩

theorem sound_coveredLines_iff {f : Filters} {rows : List TagRow} {now : Stamp}
    (hnumber : OneNumber rows) :
    (∀ l ∈ coveredLines (ordered (exported f rows)) now, Sound l) ↔
      ∀ e ∈ exported f rows, e.Whole := by
  have hvalid : ∀ e ∈ exported f rows, e.valid = true := fun e he => (row_mem_of_exported he).2
  refine ⟨whole_of_sound hvalid fun e he e' he' => hnumber _ (row_mem_of_exported he).1 _
    (row_mem_of_exported he').1, fun h l hl => ?_⟩
  have hstrict : ∀ g ∈ ordered (exported f rows), g.Strict := fun g hg =>
    Group.strict_of_whole (fun e he => ⟨hvalid e he, h e he⟩) hg
  have hwritten := written_of_mem hl
  exact (hwritten.plain hstrict).sound (hwritten.allowed hstrict)

theorem sound_notCovered_iff (sources : List Source) (rows : List TagRow) :
    (∀ l ∈ if notCovered sources rows = [] then [] else
      [notCoveredLine (notCovered sources rows)], Sound l) ↔
      ∀ r ∈ rows, uncovered sources r = true → Contained r.resourceType := by
  have hkeys : (∀ t ∈ keys (notCovered sources rows), Contained t) ↔
      ∀ r ∈ rows, uncovered sources r = true → Contained r.resourceType := by
    simp only [mem_keys_notCovered]
    exact ⟨fun h r hr hu => h _ ⟨r, hr, hu, rfl⟩, fun h t ⟨r, hr, hu, ht⟩ => ht ▸ h r hr hu⟩
  rw [← hkeys]
  split
  · rename_i hnil
    simp [hnil, keys]
  · rw [← sound_notCoveredLine]
    simp

/-- Every line of the script is allowed exactly if no checked text of an exported resource ends in
a newline and the types that are not covered stay in their comment. -/
theorem scriptLines_allowed_iff (f : Filters) (rows : List TagRow) (now : Stamp)
    (hnumber : OneNumber rows) :
    (∀ line ∈ (buildTagPlan f rows now).script.splitOn '\n', Allowed line) ↔
      (∀ e ∈ exported f rows, e.Whole) ∧
        ∀ r ∈ rows, uncovered f.sources r = true → Contained r.resourceType := by
  rw [allowed_script_iff, scriptLines, List.forall_mem_append, sound_coveredLines_iff hnumber,
    sound_notCovered_iff]

/-- An instance that a person classified and that has no tag. -/
def classified (id name : String) : TagRow where
  awsAccountId := 1
  accountId := lit "123456789012"
  accountName := lit "Shop"
  resourceType := lit "ec2"
  resourceId := lit id
  name := lit name
  region := lit "eu-west-1"
  tags := []
  envResolved := some .prod
  envSource := some .manual
  tagState := some .missing

def unfiltered : Filters := ⟨defaultSources, [], [], []⟩

def noon : Stamp := ⟨2026, 9, 30, 12, 0⟩

theorem scriptLines_allowed_iff_plain :
    exported unfiltered [classified "i-01234567" "web"] =
        [⟨classified "i-01234567" "web", .prod⟩] ∧
      ∀ line ∈ (buildTagPlan unfiltered [classified "i-01234567" "web"] noon).script.splitOn '\n',
        Allowed line := by
  have hone : OneNumber [classified "i-01234567" "web"] := by
    intro r hr s hs _
    rw [List.mem_singleton.mp hr, List.mem_singleton.mp hs]
  have hexported : exported unfiltered [classified "i-01234567" "web"] =
      [⟨classified "i-01234567" "web", .prod⟩] := by rfl
  refine ⟨hexported, (scriptLines_allowed_iff _ _ _ hone).mpr
    ⟨fun e he => ?_, fun r hr hu => ?_⟩⟩
  · rw [hexported] at he
    rw [List.mem_singleton.mp he]
    exact ⟨by decide, by decide, by decide⟩
  · rw [List.mem_singleton.mp hr] at hu
    exact absurd hu (by decide)

/-- An id that ends in a newline passes the pattern, and the name behind it becomes a command. -/
theorem name_becomes_command :
    lit "  rm -rf x" ∈
      (buildTagPlan unfiltered [classified "i-01234567\n" "rm -rf x"] noon).script.splitOn '\n' ∧
    ¬ ∀ line ∈
      (buildTagPlan unfiltered [classified "i-01234567\n" "rm -rf x"] noon).script.splitOn '\n',
      Allowed line := by
  have hexported : exported unfiltered [classified "i-01234567\n" "rm -rf x"] =
      [⟨classified "i-01234567\n" "rm -rf x", .prod⟩] := by rfl
  have hin : (⟨classified "i-01234567\n" "rm -rf x", .prod⟩ : Export) ∈
      exported unfiltered [classified "i-01234567\n" "rm -rf x"] :=
    hexported ▸ List.mem_cons_self
  constructor
  · obtain ⟨g, hg, -, hrow⟩ := exists_group hin
    have hline : resourceLine (classified "i-01234567\n" "rm -rf x") ∈ groupLines g := by
      simp only [groupLines, List.cons_append, List.mem_cons, List.mem_append, List.mem_map]
      exact .inr (.inl (.inl ⟨_, mem_sortedRows.mpr hrow, rfl⟩))
    rw [script_splitOn]
    refine List.mem_append_left _ (List.mem_flatMap.mpr ⟨_, List.mem_append_left _
      (mem_coveredLines_of_group hg hline), by decide +kernel⟩)
  · intro h
    rw [allowed_script_iff, scriptLines, List.forall_mem_append] at h
    have hone : OneNumber [classified "i-01234567\n" "rm -rf x"] := by
      intro r hr s hs _
      rw [List.mem_singleton.mp hr, List.mem_singleton.mp hs]
    exact absurd ((sound_coveredLines_iff hone).mp h.1 _ hin).1 (by decide)

end MonitoringHub.TagScript
