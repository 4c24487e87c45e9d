import Mathlib.Algebra.Order.BigOperators.Group.List
import Mathlib.Data.List.Infix
import MonitoringHub.TagScript.Decisions
import MonitoringHub.TagScript.ScriptLines

/-! What the commands of the tagging script cover. The script is read back line by line: which
function a command stands in, its region, its resources and its tag. The commands hold each
exported resource once, unless a newline breaks one of them or brings another in. -/

namespace MonitoringHub.TagScript
open Lib KeyedStore Alerts Environments

/-- A command as its line reads. -/
structure TagCommand where
  function : Option Text
  region : Text
  ids : List Text
  tag : Text
  line : Text

/-- A line that runs `create-tags`. -/
def isCommand (line : Text) : Bool :=
  let s := line.dropWhile (· == ' ')
  decide (lit "run aws ec2 create-tags" <+: s) || decide (lit "aws ec2 create-tags" <+: s)

/-- The account number in the name of a function. -/
def functionOf (line : Text) : Option Text :=
  if lit "tag_account_" <+: line ∧ lit "() \x7b" <:+ line then
    some ((line.drop 12).take (line.length - 16))
  else none

def argument (option : Text) (words : List Text) : List Text :=
  (words.dropWhile (· ≠ option)).tail

def TagCommand.read (function : Option Text) (line : Text) : TagCommand :=
  let words := line.splitOn ' '
  { function
    region := ((argument (lit "--region") words).head?).getD []
    ids := (argument (lit "--resources") words).takeWhile (· ≠ lit "--tags")
    tag := ((argument (lit "--tags") words).head?).getD []
    line }

/-- The line of a command that is nothing but its parts. -/
def TagCommand.text (c : TagCommand) : Text :=
  lit "  run aws ec2 create-tags --region " ++ c.region ++ lit " --resources " ++
    List.intercalate [' '] c.ids ++ lit " --tags " ++ c.tag

/-- The function that holds the next line. -/
def functionAfter (current : Option Text) (line : Text) : Option Text :=
  match functionOf line with
  | some number => some number
  | none => if line = closeLine then none else current

def commandsIn (current : Option Text) : List Text → List TagCommand
  | [] => []
  | line :: lines =>
    if isCommand line then TagCommand.read current line :: commandsIn current lines
    else commandsIn (functionAfter current line) lines

theorem exists_commandsIn_append (current : Option Text) (ls ls' : List Text) : ∃ current',
    commandsIn current (ls ++ ls') = commandsIn current ls ++ commandsIn current' ls' := by
  induction ls generalizing current with
  | nil => exact ⟨current, rfl⟩
  | cons l ls ih =>
    rw [List.cons_append, commandsIn, commandsIn]
    split
    · obtain ⟨current', h⟩ := ih current
      exact ⟨current', by rw [h, List.cons_append]⟩
    · exact ih _

theorem line_mem_of_mem_commandsIn {current : Option Text} {ls : List Text} {c : TagCommand}
    (h : c ∈ commandsIn current ls) : c.line ∈ ls ∧ isCommand c.line = true := by
  induction ls generalizing current with
  | nil => cases h
  | cons l ls ih =>
    rw [commandsIn] at h
    split at h
    · rename_i hl
      rcases List.mem_cons.mp h with rfl | h
      · exact ⟨List.mem_cons_self, hl⟩
      · exact (ih h).imp_left (List.mem_cons_of_mem _)
    · exact (ih h).imp_left (List.mem_cons_of_mem _)

theorem commandsIn_eq_nil {current : Option Text} {ls : List Text} :
    commandsIn current ls = [] ↔ ∀ l ∈ ls, isCommand l = false := by
  induction ls generalizing current with
  | nil => simp [commandsIn]
  | cons l ls ih =>
    rw [commandsIn, List.forall_mem_cons]
    split
    · rename_i hl
      simp [hl]
    · rename_i hl
      rw [ih, and_iff_right (by simpa using hl)]

/-! Which lines run a command. -/

theorem isCommand_first {l : Text} (h : isCommand l = true) :
    (l.dropWhile (· == ' ')).head? = some 'r' ∨ (l.dropWhile (· == ' ')).head? = some 'a' := by
  simp only [isCommand, Bool.or_eq_true, decide_eq_true_eq] at h
  rcases h with ⟨rest, h⟩ | ⟨rest, h⟩
  · rw [← h]
    exact .inl (of_lit (P := fun s => (s ++ rest).head? = some 'r') rfl)
  · rw [← h]
    exact .inr (of_lit (P := fun s => (s ++ rest).head? = some 'a') rfl)

theorem not_isCommand {l : Text} {c : Char} (h : (l.dropWhile (· == ' ')).head? = some c)
    (hr : c ≠ 'r') (ha : c ≠ 'a') : isCommand l = false := by
  rw [← Bool.not_eq_true]
  intro hl
  rcases isCommand_first hl with hc | hc <;> rw [h] at hc
  · exact hr (Option.some.inj hc)
  · exact ha (Option.some.inj hc)

theorem not_isCommand_of_isComment {l : Text} (h : isComment l = true) : isCommand l = false :=
  not_isCommand (beq_iff_eq.mp h) (by decide) (by decide)

theorem not_isCommand_fixedLines : ∀ l ∈ fixedLines, isCommand l = false := by
  have hlit : ∀ l : List Char, isCommand l = false → isCommand (lit (String.ofList l)) = false :=
    fun _ h => of_lit (P := fun s => isCommand s = false) h
  simp only [fixedLines, runLines, caseLines, doneLines, List.cons_append, List.nil_append,
    List.forall_mem_cons]
  exact ⟨by decide, by decide, hlit _ (by decide), hlit _ (by decide), hlit _ (by decide),
    hlit _ (by decide), hlit _ (by decide), hlit _ (by decide),
    not_isCommand (of_lit (P := fun s => ((s ++ _).dropWhile (· == ' ')).head? = some 'e') rfl)
      (by decide) (by decide), fun _ h => absurd h List.not_mem_nil⟩

theorem isCommand_append {s : Text} (h : isCommand s = true) (t : Text) :
    isCommand (s ++ t) = true := by
  have hdrop : (s ++ t).dropWhile (· == ' ') = s.dropWhile (· == ' ') ++ t := by
    rw [List.dropWhile_append, if_neg]
    intro hnil
    rcases isCommand_first h with hc | hc <;> rw [List.isEmpty_iff.mp hnil] at hc <;> cases hc
  simp only [isCommand, hdrop, Bool.or_eq_true, decide_eq_true_eq] at h ⊢
  exact h.imp (·.trans (List.prefix_append _ _)) (·.trans (List.prefix_append _ _))

theorem isCommand_commandLine (region : Text) (ids : List Text) (tier : Text) :
    isCommand (commandLine region ids tier) = true := by
  simp only [commandLine, List.append_assoc]
  exact of_lit (P := fun s => isCommand (s ++ _) = true) (isCommand_append (by decide) _)

theorem not_isCommand_caseLine {aid : Text} (h : strictAccount aid = true) (name : Text) :
    isCommand (caseLine aid name) = false := by
  have hchars := strictAccount_chars h
  obtain ⟨c, rest, rfl⟩ : ∃ c rest, aid = c :: rest := by
    cases aid with
    | nil => cases h
    | cons c rest => exact ⟨c, rest, rfl⟩
  have hc : isDecimal c = true := hchars c List.mem_cons_self
  have hne : ∀ d, isDecimal d = false → c ≠ d := fun d hd heq => by
    rw [heq, hd] at hc
    cases hc
  have hspace : (c == ' ') = false := beq_eq_false_iff_ne.mpr (hne ' ' (by decide))
  have hfirst : ((caseLine (c :: rest) name).dropWhile (· == ' ')).head? = some c := by
    simp only [caseLine, List.append_assoc, List.cons_append]
    refine of_lit (P := fun s => ((s ++ _).dropWhile (· == ' ')).head? = some c) ?_
    simp [hspace]
  exact not_isCommand hfirst (hne 'r' (by decide)) (hne 'a' (by decide))

theorem not_isCommand_otherwiseLine (aids : List Text) :
    isCommand (otherwiseLine aids) = false := by
  simp only [otherwiseLine, List.append_assoc]
  exact not_isCommand (c := '*')
    (of_lit (P := fun s => ((s ++ _).dropWhile (· == ' ')).head? = some '*') rfl)
    (by decide) (by decide)

/-! Reading a command back. -/

def leadWords : List Text :=
  [[], [], lit "run", lit "aws", lit "ec2", lit "create-tags", lit "--region"]

/-- The words of a command. -/
def commandWords (region : Text) (ids : List Text) (tag : Text) : List Text :=
  (leadWords ++ [region]) ++ lit "--resources" :: (ids ++ [lit "--tags", tag])

def tierTag (t : Tier) : Text := lit "Key=Environment,Value=" ++ tierText t

theorem commandLine_eq_words (region : Text) {ids : List Text} (h : ids ≠ []) (t : Tier) :
    commandLine region ids (tierText t) =
      List.intercalate [' '] (commandWords region ids (tierTag t)) := by
  have hstart : lit "  run aws ec2 create-tags --region " =
      List.intercalate [' '] leadWords ++ [' '] := by decide
  have hkey : lit " --tags Key=Environment,Value=" =
      [' '] ++ lit "--tags" ++ [' '] ++ lit "Key=Environment,Value=" := by decide
  have hres : lit " --resources " = [' '] ++ lit "--resources" ++ [' '] := by decide
  have hlead : leadWords ≠ [] := List.cons_ne_nil _ _
  have htail : ids ++ [lit "--tags", lit "Key=Environment,Value=" ++ tierText t] ≠ [] := by simp
  rw [commandWords, intercalate_append_of_ne _ (by simp) (List.cons_ne_nil _ _),
    intercalate_append_of_ne _ hlead (List.cons_ne_nil _ _), tierTag,
    List.intercalate_cons_of_ne_nil htail, intercalate_append_of_ne _ h (List.cons_ne_nil _ _)]
  simp only [commandLine, hstart, hkey, hres, List.intercalate_cons_cons,
    List.intercalate_singleton, List.append_assoc]

theorem not_blank_of_strictId {id : Text} (h : strictId id = true) : ' ' ∉ id :=
  not_mem_of_forall (strictId_chars h) (by decide)

theorem commandLine_splitOn {region : Text} {ids : List Text} (t : Tier)
    (hregion : strictRegion region = true) (hne : ids ≠ [])
    (hids : ∀ id ∈ ids, strictId id = true) :
    (commandLine region ids (tierText t)).splitOn ' ' = commandWords region ids (tierTag t) := by
  have hwords : ∀ w ∈ commandWords region ids (tierTag t), ' ' ∉ w := by
    intro w hw
    have hlead : ∀ w ∈ leadWords, ' ' ∉ w := by
      have hall : (leadWords.all fun w => !w.contains ' ') = true := by decide
      intro w hw
      simpa using List.all_eq_true.mp hall w hw
    simp only [commandWords, List.mem_append, List.mem_cons, List.not_mem_nil, or_false] at hw
    rcases hw with (hw | rfl) | rfl | hw | rfl | rfl
    · exact hlead w hw
    · exact not_mem_of_forall (strictRegion_chars hregion) (by decide)
    · decide
    · exact not_blank_of_strictId (hids w hw)
    · decide
    · cases t <;> decide
  rw [commandLine_eq_words region hne, List.splitOn_intercalate _ hwords (by simp [commandWords])]

def Group.command (g : Group) (function : Option Text) (ids : List Text) : TagCommand :=
  ⟨function, g.region, ids, tierTag g.tier, commandLine g.region ids (tierText g.tier)⟩

/-- What follows an option that does not come before. -/
theorem argument_append {option : Text} {words : List Text} (h : option ∉ words)
    (rest : List Text) : argument option (words ++ option :: rest) = rest := by
  have hne : ∀ w ∈ words, decide (w ≠ option) = true := fun w hw =>
    decide_eq_true fun heq => h (heq ▸ hw)
  have hdrop : (words ++ option :: rest).dropWhile (· ≠ option) = option :: rest := by
    rw [List.dropWhile_append_of_pos hne]
    exact List.dropWhile_cons_of_neg (by simp)
  rw [argument, hdrop, List.tail_cons]

/-- A written command reads back as what it was written from. -/
theorem read_command {g : Group} (h : g.Strict) (function : Option Text) {ids : List Text}
    (hids : ids ∈ g.chunks) :
    TagCommand.read function (commandLine g.region ids (tierText g.tier)) =
      g.command function ids := by
  have hstrict : ∀ id ∈ ids, strictId id = true := by
    intro id hid
    obtain ⟨r, hr, rfl⟩ := mem_of_mem_chunk hids hid
    exact h.ids r hr
  have hne := List.ne_nil_of_length_pos (chunk_length hids).1
  have htags : lit "--tags" ∉ ids := fun hin => absurd (hstrict _ hin) (by decide)
  have hregion : ∀ w, strictRegion w = false → w ≠ g.region := fun w hw heq =>
    absurd (heq ▸ h.region) (by rw [hw]; exact Bool.false_ne_true)
  have hstem : ∀ w, strictRegion w = false → w ∉ leadWords → w ∉ leadWords ++ [g.region] :=
    fun w hw hnot hin => (List.mem_append.mp hin).elim hnot fun hr =>
      hregion w hw (List.mem_singleton.mp hr)
  have hregionWord : argument (lit "--region") (commandWords g.region ids (tierTag g.tier)) =
      g.region :: lit "--resources" :: (ids ++ [lit "--tags", tierTag g.tier]) := by
    have hlead : leadWords = leadWords.dropLast ++ [lit "--region"] := rfl
    rw [commandWords, hlead, List.append_assoc, List.append_assoc]
    exact argument_append (by decide) _
  have hresources : argument (lit "--resources") (commandWords g.region ids (tierTag g.tier)) =
      ids ++ [lit "--tags", tierTag g.tier] :=
    argument_append (hstem _ (by decide) (by decide)) _
  have htagWord : argument (lit "--tags") (commandWords g.region ids (tierTag g.tier)) =
      [tierTag g.tier] := by
    rw [commandWords, ← List.cons_append, ← List.append_assoc]
    refine argument_append (fun hin => ?_) _
    rcases List.mem_append.mp hin with hin | hin
    · exact hstem _ (by decide) (by decide) hin
    · exact (List.mem_cons.mp hin).elim (by decide) htags
  have htake : (ids ++ [lit "--tags", tierTag g.tier]).takeWhile (· ≠ lit "--tags") = ids := by
    rw [List.takeWhile_append_of_pos fun w hw => by
      simpa using fun heq : w = lit "--tags" => htags (heq ▸ hw)]
    rw [List.takeWhile_cons_of_neg (by simp), List.append_nil]
  rw [TagCommand.read, commandLine_splitOn g.tier h.region hne hstrict, Group.command]
  simp only [hregionWord, hresources, htagWord, htake, List.head?_cons, Option.getD_some]

/-! The functions of the script. -/

theorem functionOf_headerLine (aid : Text) : functionOf (headerLine aid) = some aid := by
  have hstart : lit "tag_account_" <+: headerLine aid := ⟨aid ++ lit "() \x7b", by
    rw [headerLine, List.append_assoc]⟩
  have hend : lit "() \x7b" <:+ headerLine aid := ⟨lit "tag_account_" ++ aid, rfl⟩
  have hdrop : (headerLine aid).drop 12 = aid ++ lit "() \x7b" := by
    rw [headerLine, List.append_assoc]
    exact List.drop_left' (by decide)
  have hlength : (headerLine aid).length - 16 = aid.length := by
    have hfront : (lit "tag_account_").length = 12 := by decide
    have hback : (lit "() \x7b").length = 4 := by decide
    rw [headerLine, List.length_append, List.length_append, hfront, hback]
    omega
  rw [functionOf, if_pos ⟨hstart, hend⟩, hdrop, hlength, List.take_left]

/-- A line that starts as neither a header nor the end of a block keeps the function. -/
theorem functionAfter_eq {l : Text} (ht : l.head? ≠ some 't') (hclose : l.head? ≠ some '\x7d')
    (current : Option Text) : functionAfter current l = current := by
  have hnone : functionOf l = none := by
    refine if_neg fun h => ht ?_
    obtain ⟨rest, hrest⟩ := h.1
    rw [← hrest]
    exact of_lit (P := fun s => (s ++ rest).head? = some 't') rfl
  have hne : l ≠ closeLine := fun heq => hclose (heq ▸ rfl)
  rw [functionAfter, hnone]
  exact if_neg hne

theorem commandsIn_cons {l : Text} (h : isCommand l = false) (current : Option Text)
    (ls : List Text) : commandsIn current (l :: ls) = commandsIn (functionAfter current l) ls := by
  rw [commandsIn, h]
  rfl

theorem commandsIn_resources {rows : List TagRow} (current : Option Text) (ls : List Text) :
    commandsIn current (rows.map resourceLine ++ ls) = commandsIn current ls := by
  induction rows with
  | nil => rfl
  | cons r rows ih =>
    have hquiet : isCommand (resourceLine r) = false := by
      simp only [resourceLine, List.append_assoc]
      exact not_isCommand_of_isComment (lit_comment rfl _)
    have hstart : (resourceLine r).head? = some ' ' := by
      simp only [resourceLine, List.append_assoc]
      exact of_lit (P := fun s => (s ++ _).head? = some ' ') rfl
    rw [List.map_cons, List.cons_append, commandsIn_cons hquiet,
      functionAfter_eq (by rw [hstart]; decide) (by rw [hstart]; decide), ih]

theorem commandsIn_commands {g : Group} (h : g.Strict) {chunks : List (List Text)}
    (hchunks : ∀ ids ∈ chunks, ids ∈ g.chunks) (current : Option Text) (ls : List Text) :
    commandsIn current ((chunks.map fun ids => commandLine g.region ids (tierText g.tier)) ++ ls) =
      chunks.map (g.command current) ++ commandsIn current ls := by
  induction chunks with
  | nil => rfl
  | cons ids chunks ih =>
    obtain ⟨hids, hrest⟩ := List.forall_mem_cons.mp hchunks
    rw [List.map_cons, List.cons_append, commandsIn, if_pos (isCommand_commandLine _ _ _),
      read_command h current hids, ih hrest, List.map_cons, List.cons_append]

theorem commandsIn_groupLines {g : Group} (h : g.Strict) (current : Option Text)
    (ls : List Text) : commandsIn current (groupLines g ++ ls) =
      g.chunks.map (g.command current) ++ commandsIn current ls := by
  have hquiet : isCommand (groupLine g) = false := by
    simp only [groupLine, List.append_assoc]
    exact not_isCommand_of_isComment (lit_comment rfl _)
  have hstart : (groupLine g).head? = some ' ' := by
    simp only [groupLine, List.append_assoc]
    exact of_lit (P := fun s => (s ++ _).head? = some ' ') rfl
  have hblank : commandsIn current (blankLine :: ls) = commandsIn current ls := by
    rw [commandsIn_cons (by decide), functionAfter_eq (by decide) (by decide)]
  simp only [groupLines, List.cons_append, List.append_assoc, List.nil_append]
  rw [commandsIn_cons hquiet, functionAfter_eq (by rw [hstart]; decide) (by rw [hstart]; decide),
    commandsIn_resources, commandLines, commandsIn_commands h (fun _ hids => hids), hblank]

def Group.commands (g : Group) : List TagCommand := g.chunks.map (g.command (some g.accountId))

/-- Groups of one account have one number. -/
def SameNumber (groups : List Group) : Prop :=
  ∀ g ∈ groups, ∀ g' ∈ groups, g.acct = g'.acct → g.accountId = g'.accountId

/-- A new function holds what follows, whatever was open before. -/
theorem commandsIn_opening (current : Option Text) (closes : Bool) (a : Account) (ls : List Text) :
    commandsIn current ((if closes then [closeLine, blankLine] else []) ++
      ([titleLine a.name a.number, headerLine a.number] ++ ls)) =
      commandsIn (some a.number) ls := by
  have htitle : isCommand (titleLine a.name a.number) = false := by
    simp only [titleLine, List.append_assoc]
    exact not_isCommand_of_isComment (lit_comment rfl _)
  have hheader : isCommand (headerLine a.number) = false := by
    simp only [headerLine, List.append_assoc]
    exact not_isCommand (c := 't')
      (of_lit (P := fun s => ((s ++ _).dropWhile (· == ' ')).head? = some 't') rfl)
      (by decide) (by decide)
  have hopen : ∀ current', commandsIn current' ([titleLine a.name a.number,
      headerLine a.number] ++ ls) = commandsIn (some a.number) ls := by
    intro current'
    rw [List.cons_append, List.singleton_append, commandsIn_cons htitle, commandsIn_cons hheader,
      functionAfter, functionOf_headerLine]
  cases closes with
  | true =>
    rw [if_pos rfl, List.cons_append, List.singleton_append, commandsIn_cons (by decide),
      commandsIn_cons (by decide), hopen]
  | false => exact hopen current

theorem commandsIn_blockLines {accts : List Account} {groups : List Group}
    (hstrict : ∀ g ∈ groups, g.Strict) (hsame : SameNumber groups)
    (haccts : ∀ g ∈ groups, ∃ a, accts.find? (fun a => a.acct = g.acct) = some a ∧
      a.number = g.accountId)
    {last : Option ℕ} {current : Option Text}
    (hlast : ∀ g ∈ groups, last = some g.acct → current = some g.accountId) :
    commandsIn current (blockLines accts last groups) = groups.flatMap Group.commands := by
  induction groups generalizing last current with
  | nil => rfl
  | cons g gs ih =>
    obtain ⟨a, ha, hnumber⟩ := haccts g List.mem_cons_self
    have hopen : commandsIn current (blockLines accts last (g :: gs)) =
        commandsIn (some g.accountId) (groupLines g ++ blockLines accts (some g.acct) gs) := by
      rw [blockLines, List.append_assoc, ha]
      split
      · rename_i heq
        rw [List.nil_append, hlast g List.mem_cons_self heq]
      · have hbody := commandsIn_opening current (!decide (last = none)) a
          (groupLines g ++ blockLines accts (some g.acct) gs)
        rw [hnumber] at hbody
        refine Eq.trans ?_ hbody
        by_cases hnone : last = none <;> simp [hnone, hnumber]
    have hsame' : SameNumber gs := fun g₁ h₁ g₂ h₂ =>
      hsame g₁ (List.mem_cons_of_mem _ h₁) g₂ (List.mem_cons_of_mem _ h₂)
    have hlast' : ∀ g' ∈ gs, some g.acct = some g'.acct →
        some g.accountId = some g'.accountId := by
      intro g' hg' heq
      have hin := List.mem_cons_of_mem g hg'
      exact congrArg some (hsame g List.mem_cons_self g' hin (Option.some.inj heq))
    obtain ⟨hg, hgs⟩ := List.forall_mem_cons.mp hstrict
    rw [hopen, commandsIn_groupLines hg,
      ih hgs hsame' (fun g' hg' => haccts g' (List.mem_cons_of_mem _ hg')) hlast',
      List.flatMap_cons, Group.commands]

theorem exists_number {groups : List Group} (hsame : SameNumber groups) :
    ∀ g ∈ groups, ∃ a, (accounts groups).find? (fun a => a.acct = g.acct) = some a ∧
      a.number = g.accountId := by
  intro g hg
  have hstart : (none : Option ℕ) ≠ some g.acct := nofun
  obtain ⟨a, ha, hacct⟩ := exists_account_of_mem hg hstart
  obtain ⟨a', ha'⟩ := Option.isSome_iff_exists.mp
    ((List.find?_isSome (p := fun a => decide (a.acct = g.acct))).mpr
      ⟨a, ha, decide_eq_true hacct⟩)
  have hacct' : a'.acct = g.acct := by simpa using List.find?_some ha'
  obtain ⟨g', hg', hfirst, hnumber, -⟩ :=
    exists_group_of_mem_accountsFrom (List.mem_of_find?_eq_some ha')
  exact ⟨a', ha', hnumber.trans (hsame g' hg' g hg (hfirst.symm.trans hacct'))⟩

/-- The script before what is not covered holds the commands of its groups. -/
theorem commandsIn_coveredLines {groups : List Group} (hstrict : ∀ g ∈ groups, g.Strict)
    (hsame : SameNumber groups) (now : Stamp) (rest : List Text) :
    ∃ current, commandsIn none (coveredLines groups now ++ rest) =
      groups.flatMap Group.commands ++ commandsIn current rest := by
  have hfront : ∀ l ∈ lit "#!/usr/bin/env bash" :: generatedLine now :: usageLines ++
      [summaryLine (byEnv groups) ((byEnv groups).map Prod.snd).sum (accounts groups).length] ++
      accountLines groups ++ [blankLine] ++ runLines ++ [blankLine], isCommand l = false := by
    have hfixed : ∀ l ∈ fixedComments, isCommand l = false := fun l hl =>
      not_isCommand_of_isComment (comment_fixedComments l hl)
    have hblank : isCommand blankLine = false := by decide
    intro l hl
    simp only [List.cons_append, List.mem_cons, List.mem_append, List.not_mem_nil, or_false,
      or_assoc] at hl
    rcases hl with rfl | rfl | hl | rfl | hl | rfl | hl | rfl
    · exact hfixed _ (List.mem_append_left _ List.mem_cons_self)
    · exact not_isCommand_of_isComment (lit_comment rfl _)
    · exact hfixed l (List.mem_cons_of_mem _ (List.mem_append_left _ hl))
    · simp only [summaryLine, List.append_assoc]
      exact not_isCommand_of_isComment (lit_comment rfl _)
    · obtain ⟨entry, -, rfl⟩ := List.mem_map.mp hl
      simp only [accountLine, List.append_assoc]
      exact not_isCommand_of_isComment (lit_comment rfl _)
    · exact hblank
    · exact not_isCommand_fixedLines l
        (List.mem_append_left _ (List.mem_append_left _ (List.mem_append_right _ hl)))
    · exact hblank
  have hback : ∀ l ∈ if groups = [] then [nothingLine] else dispatchLines (accounts groups),
      isCommand l = false := by
    intro l hl
    split at hl
    · rw [List.mem_singleton.mp hl]
      exact not_isCommand_of_isComment
        (comment_fixedComments _ (List.mem_append_right _ List.mem_cons_self))
    · simp only [dispatchLines, List.mem_append, or_assoc] at hl
      have hfixed : l ∈ [closeLine, blankLine] ∨ l ∈ caseLines ∨ l ∈ doneLines →
          isCommand l = false := fun h => not_isCommand_fixedLines l (mem_fixedLines h)
      rcases hl with hl | hl | hl | hl | hl | hl
      · exact hfixed (.inl hl)
      · exact hfixed (.inr (.inl hl))
      · obtain ⟨a, ha, rfl⟩ := List.mem_map.mp hl
        exact not_isCommand_caseLine (strict_account_of_mem hstrict ha).1 _
      · rw [List.mem_singleton.mp hl]
        exact not_isCommand_otherwiseLine _
      · exact hfixed (.inr (.inr hl))
      · exact hfixed (.inl (by rw [List.mem_singleton.mp hl]; simp))
  have hlines : coveredLines groups now ++ rest =
      (lit "#!/usr/bin/env bash" :: generatedLine now :: usageLines ++
        [summaryLine (byEnv groups) ((byEnv groups).map Prod.snd).sum (accounts groups).length] ++
        accountLines groups ++ [blankLine] ++ runLines ++ [blankLine]) ++
      (blockLines (accounts groups) none groups ++
        ((if groups = [] then [nothingLine] else dispatchLines (accounts groups)) ++ rest)) := by
    simp only [coveredLines, List.append_assoc]
  obtain ⟨start, hstart⟩ := exists_commandsIn_append none _ (blockLines (accounts groups) none
    groups ++ ((if groups = [] then [nothingLine] else dispatchLines (accounts groups)) ++ rest))
  obtain ⟨stop, hstop⟩ := exists_commandsIn_append start (blockLines (accounts groups) none groups)
    ((if groups = [] then [nothingLine] else dispatchLines (accounts groups)) ++ rest)
  obtain ⟨last, hlast⟩ := exists_commandsIn_append stop
    (if groups = [] then [nothingLine] else dispatchLines (accounts groups)) rest
  have hnone : ∀ g ∈ groups, (none : Option ℕ) = some g.acct → start = some g.accountId := by
    intro g _ h
    cases h
  refine ⟨last, ?_⟩
  rw [hlines, hstart, commandsIn_eq_nil.mpr hfront, List.nil_append, hstop,
    commandsIn_blockLines hstrict hsame (exists_number hsame) hnone, hlast,
    commandsIn_eq_nil.mpr hback, List.nil_append]

/-! What the commands hold. -/

/-- A resource in a command: the function, the region, the id and the tag. -/
abbrev Entry := Option Text × Text × Text × Text

/-- The function and the id of an entry. -/
def Entry.resource (entry : Entry) : Option Text × Text := (entry.1, entry.2.2.1)

def TagCommand.entries (c : TagCommand) : List Entry :=
  c.ids.map fun id => (c.function, c.region, id, c.tag)

def Export.entry (e : Export) : Entry :=
  (some e.row.accountId, e.row.region, e.row.resourceId, tierTag e.tier)

theorem entries_commands (g : Group) :
    (g.commands.flatMap TagCommand.entries).Perm
      (g.rows.map fun r => (some g.accountId, g.region, r.resourceId, tierTag g.tier)) := by
  have hids : g.commands.flatMap TagCommand.entries = (g.sortedRows.map TagRow.resourceId).map
      fun id => (some g.accountId, g.region, id, tierTag g.tier) := by
    rw [← chunks_flatten, List.map_flatten]
    simp only [Group.commands, List.flatMap_def, List.map_map]
    rfl
  rw [hids, List.map_map]
  exact (List.perm_insertionSort _ g.rows).map _

/-- The rows of one account carry one number. -/
def ExportNumbers (exports : List Export) : Prop :=
  ∀ e ∈ exports, ∀ e' ∈ exports, e.row.awsAccountId = e'.row.awsAccountId →
    e.row.accountId = e'.row.accountId

theorem accountId_eq_of_mem {exports : List Export} (hnumber : ExportNumbers exports) {g : Group}
    (hg : g.From exports) {r : TagRow} (hr : r ∈ g.rows) : g.accountId = r.accountId := by
  obtain ⟨r', hr', hfirst⟩ := Group.accountId_eq hg.rows_ne
  obtain ⟨e, he, rfl, hkey⟩ := hg.exported r hr
  obtain ⟨e', he', rfl, hkey'⟩ := hg.exported r' hr'
  exact hfirst.trans (hnumber e' he' e he ((congrArg (·.1) hkey').trans (congrArg (·.1) hkey).symm))

theorem sameNumber_ordered {exports : List Export} (hnumber : ExportNumbers exports) :
    SameNumber (ordered exports) := by
  intro g hg g' hg' hacct
  obtain ⟨r, hr, hfirst⟩ := Group.accountId_eq (Group.from_of_mem_ordered hg).rows_ne
  obtain ⟨r', hr', hfirst'⟩ := Group.accountId_eq (Group.from_of_mem_ordered hg').rows_ne
  obtain ⟨e, he, rfl, hkey⟩ := (Group.from_of_mem_ordered hg).exported r hr
  obtain ⟨e', he', rfl, hkey'⟩ := (Group.from_of_mem_ordered hg').exported r' hr'
  have hsame : e.row.awsAccountId = e'.row.awsAccountId :=
    (congrArg (·.1) hkey).trans (hacct.trans (congrArg (·.1) hkey').symm)
  rw [hfirst, hfirst', hnumber e he e' he' hsame]

/-- The commands of all groups hold each exported resource once. -/
theorem entries_ordered {exports : List Export} (hnumber : ExportNumbers exports) :
    (((ordered exports).flatMap Group.commands).flatMap TagCommand.entries).Perm
      (exports.map Export.entry) := by
  let entryOf : GroupKey × TagRow → Entry := fun e =>
    (some e.2.accountId, e.1.2.1, e.2.resourceId, tierTag e.1.2.2)
  have hgroup : ∀ g ∈ ordered exports, (g.commands.flatMap TagCommand.entries).Perm
      ((g.rows.map (Prod.mk (g.acct, g.region, g.tier))).map entryOf) := by
    intro g hg
    refine (entries_commands g).trans (List.Perm.of_eq ?_)
    rw [List.map_map]
    refine List.map_congr_left fun r hr => ?_
    rw [accountId_eq_of_mem hnumber (Group.from_of_mem_ordered hg) hr]
    rfl
  have hentries : ((ordered exports).flatMap fun g =>
      (g.rows.map (Prod.mk (g.acct, g.region, g.tier))).map entryOf).Perm
      ((entries (grouped exports)).map entryOf) := by
    refine ((List.perm_insertionSort _ _).flatMap_right _).trans (List.Perm.of_eq ?_)
    rw [entries, List.map_flatMap, List.flatMap_map]
    rfl
  rw [List.flatMap_assoc]
  refine (List.Perm.flatMap_left _ hgroup).trans (hentries.trans ?_)
  refine ((entries_foldl_appendAt _ _ exports []).map entryOf).trans (List.Perm.of_eq ?_)
  simp only [entries, List.flatMap_nil, List.append_nil, List.map_map]
  rfl

theorem sum_assign (t : Tier) (n : ℕ) (counts : List (Tier × ℕ)) :
    ((assign t ((find t counts).getD 0 + n) counts).map Prod.snd).sum =
      (counts.map Prod.snd).sum + n := by
  induction counts with
  | nil => simp [assign, find]
  | cons c counts ih =>
    obtain ⟨t', m⟩ := c
    rw [assign, find]
    split
    · simp only [Option.getD_some, List.map_cons, List.sum_cons]
      omega
    · simp only [List.map_cons, List.sum_cons, ih]
      omega

theorem sum_byEnv (groups : List Group) :
    ((byEnv groups).map Prod.snd).sum = (groups.map fun g => g.rows.length).sum := by
  have hrun : ∀ counts : List (Tier × ℕ), ((groups.foldl (fun d g =>
      assign g.tier ((find g.tier d).getD 0 + g.rows.length) d) counts).map Prod.snd).sum =
      (counts.map Prod.snd).sum + (groups.map fun g => g.rows.length).sum := by
    induction groups with
    | nil => simp
    | cons g groups ih =>
      intro counts
      rw [List.foldl_cons, ih, sum_assign, List.map_cons, List.sum_cons, Nat.add_assoc]
  rw [byEnv, hrun []]
  simp

/-! Commands that an uncovered type brings in. -/

/-- What goes on with a blank and an `x` starts with a stem only if it did so before. -/
theorem stem_goes_on {stem p rest : Text}
    (hstem : ∀ s ∈ stem.tails, s ≠ [' '] ∧ ¬ [' ', 'x'] <+: s) :
    stem <+: p ++ ' ' :: 'x' :: rest ↔ stem <+: p := by
  induction p generalizing stem with
  | nil =>
    rw [List.nil_append, List.prefix_nil]
    refine ⟨fun h => ?_, fun h => h ▸ List.nil_prefix⟩
    obtain ⟨hblank, hx⟩ := hstem stem (by simp)
    match stem with
    | [] => rfl
    | [c] => exact absurd (by rw [(List.cons_prefix_cons.mp h).1]) hblank
    | c :: d :: s =>
      obtain ⟨hc, h⟩ := List.cons_prefix_cons.mp h
      obtain ⟨hd, -⟩ := List.cons_prefix_cons.mp h
      exact absurd ⟨s, by rw [hc, hd]; rfl⟩ hx
  | cons a p ih =>
    match stem with
    | [] => simp
    | c :: s =>
      have hrest : ∀ s' ∈ s.tails, s' ≠ [' '] ∧ ¬ [' ', 'x'] <+: s' := by
        intro s' hs'
        have hsuffix := ((List.mem_tails _ _).mp hs').trans (List.suffix_cons c s)
        exact hstem s' ((List.mem_tails _ _).mpr hsuffix)
      rw [List.cons_append, List.cons_prefix_cons, List.cons_prefix_cons, ih hrest]

theorem isCommand_goes_on (p : Text) (n : ℕ) (rest : Text) :
    isCommand (p ++ (lit " x" ++ number n ++ rest)) = false ↔ isCommand p = false := by
  have hx : lit " x" ++ number n ++ rest = ' ' :: 'x' :: (number n ++ rest) := by rfl
  rw [hx, ← Bool.not_eq_true, ← Bool.not_eq_true, not_iff_not]
  by_cases hblank : p.dropWhile (· == ' ') = []
  · have hp : isCommand p ≠ true := by
      intro h
      rcases isCommand_first h with hc | hc <;> rw [hblank] at hc <;> cases hc
    refine iff_of_false ?_ hp
    rw [Bool.not_eq_true]
    refine not_isCommand (c := 'x') ?_ (by decide) (by decide)
    rw [List.dropWhile_append, hblank]
    rfl
  · have hdrop : (p ++ ' ' :: 'x' :: (number n ++ rest)).dropWhile (· == ' ') =
        p.dropWhile (· == ' ') ++ ' ' :: 'x' :: (number n ++ rest) := by
      rw [List.dropWhile_append, if_neg (by simpa using hblank)]
    simp only [isCommand, hdrop, Bool.or_eq_true, decide_eq_true_eq]
    rw [stem_goes_on (by decide), stem_goes_on (by decide)]

/-- No later line of a type is a command. -/
def NoCommand (t : Text) : Prop := ∀ p ∈ laterLines t, isCommand p = false

theorem harmless_iff_noCommand (t : Text) :
    Harmless (fun p => isCommand p = false) (fun p => isCommand p = false) t ↔ NoCommand t := by
  rw [Harmless, NoCommand]
  rcases List.eq_nil_or_concat' (laterLines t) with h | ⟨front, last, h⟩
  · simp [h]
  · rw [h, List.dropLast_concat, List.getLast?_concat, List.forall_mem_append]
    simp

theorem notCoveredLine_commands (counts : List (Text × ℕ)) :
    (∀ p ∈ (notCoveredLine counts).splitOn '\n', isCommand p = false) ↔
      ∀ t ∈ keys counts, NoCommand t := by
  obtain ⟨p, hp⟩ := splitOn_notCoveredLine counts
  have hfirst : isCommand (notCoveredStem ++ p) = false :=
    not_isCommand_of_isComment (lit_comment rfl p)
  rw [hp, List.forall_mem_cons, and_iff_right hfirst,
    @laterLines_commaSep (fun p => isCommand p = false) (fun p => isCommand p = false)
      (fun p n rest _ => isCommand_goes_on p n rest)]
  simp only [List.mem_insertionSort, harmless_iff_noCommand, keys, List.forall_mem_map]

/-! The script covers each decision once. -/

/-- The commands of a script. -/
def planCommands (f : Filters) (rows : List TagRow) (now : Stamp) : List TagCommand :=
  commandsIn none ((buildTagPlan f rows now).script.splitOn '\n')

/-- One row a key, and one strict number an account, which no other account has. -/
structure OwnNumbers (rows : List TagRow) : Prop where
  keys : (rows.map TagRow.key).Nodup
  strict : ∀ r ∈ rows, strictAccount r.accountId = true
  one : OneNumber rows
  own : ∀ r ∈ rows, ∀ s ∈ rows, r.accountId = s.accountId → r.awsAccountId = s.awsAccountId

/-- Each exported resource is in one command, with its account, its region and its decision, and
the commands hold nothing else. -/
structure CoversOnce (f : Filters) (rows : List TagRow) (now : Stamp) : Prop where
  text : ∀ c ∈ planCommands f rows now, c.line = c.text
  size : ∀ c ∈ planCommands f rows now, 0 < c.ids.length ∧ c.ids.length ≤ batch
  covered : ((planCommands f rows now).flatMap TagCommand.entries).Perm
    ((exported f rows).map Export.entry)
  once : (((planCommands f rows now).flatMap TagCommand.entries).map Entry.resource).Nodup
  decided : ∀ e ∈ exported f rows, Decided f.sources rows e.row e.tier
  complete : ∀ r ∈ rows, ∀ t, Settled f.sources rows r t → f.keeps ⟨r, t⟩ = true →
    (⟨r, t⟩ : Export).valid = true → ⟨r, t⟩ ∈ exported f rows
  resources : (buildTagPlan f rows now).resources =
    ((planCommands f rows now).map fun c => c.ids.length).sum

theorem buildTagPlan_resources (f : Filters) (rows : List TagRow) (now : Stamp) :
    (buildTagPlan f rows now).resources =
      ((byEnv (ordered (exported f rows))).map Prod.snd).sum := rfl

theorem Group.command_text (g : Group) (function : Option Text) (ids : List Text) :
    (g.command function ids).line = (g.command function ids).text := by
  have hkey : lit " --tags Key=Environment,Value=" =
      lit " --tags " ++ lit "Key=Environment,Value=" := by decide
  simp only [Group.command, TagCommand.text, commandLine, hkey, tierTag, List.append_assoc]

theorem length_entries (commands : List TagCommand) :
    (commands.flatMap TagCommand.entries).length = (commands.map fun c => c.ids.length).sum := by
  rw [List.length_flatMap]
  simp only [TagCommand.entries, List.length_map]

theorem length_commands (groups : List Group) :
    ((groups.flatMap Group.commands).map fun c => c.ids.length).sum =
      (groups.map fun g => g.rows.length).sum := by
  rw [← length_entries, List.flatMap_assoc, List.length_flatMap]
  refine congrArg List.sum (List.map_congr_left fun g _ => ?_)
  rw [(entries_commands g).length_eq, List.length_map]

theorem exportNumbers_of_one {rows : List TagRow} (h : OneNumber rows) (f : Filters) :
    ExportNumbers (exported f rows) := fun _ he _ he' =>
  h _ (row_mem_of_exported he).1 _ (row_mem_of_exported he').1

/-- Each id stands once under its account number. -/
theorem once_of_covered {f : Filters} {rows : List TagRow} (h : OwnNumbers rows)
    {entries : List Entry} (hcovered : entries.Perm ((exported f rows).map Export.entry)) :
    (entries.map Entry.resource).Nodup := by
  rw [(hcovered.map _).nodup_iff, List.map_map]
  have hkeys := exported_keys_nodup f rows
  refine hkeys.of_map.map_on fun e he e' he' heq => ?_
  obtain ⟨hnumber, hid⟩ := Prod.mk.inj heq
  have hacct := h.own _ (row_mem_of_exported he).1 _ (row_mem_of_exported he').1
    (Option.some.inj hnumber)
  exact List.inj_on_of_nodup_map hkeys he he' (Prod.ext hacct hid)

/-- With strict groups the script reads back as the commands of its groups, and whatever the
uncovered types bring in. -/
theorem planCommands_eq {f : Filters} {rows : List TagRow} (now : Stamp) (hone : OneNumber rows)
    (hstrict : ∀ g ∈ ordered (exported f rows), g.Strict) :
    ∃ current, planCommands f rows now =
      (ordered (exported f rows)).flatMap Group.commands ++ commandsIn current
        ((if notCovered f.sources rows = [] then [] else
          (notCoveredLine (notCovered f.sources rows)).splitOn '\n') ++ [[]]) := by
  have hplain : (coveredLines (ordered (exported f rows)) now).flatMap (fun l => l.splitOn '\n') =
      coveredLines (ordered (exported f rows)) now := by
    have hlines : ∀ l ∈ coveredLines (ordered (exported f rows)) now,
        (fun l : Text => l.splitOn '\n') l = [l] := fun l hl =>
      ((written_of_mem hl).plain hstrict).splitOn
    rw [List.flatMap_congr hlines, List.flatMap_singleton']
  obtain ⟨current, h⟩ := commandsIn_coveredLines hstrict
    (sameNumber_ordered (exportNumbers_of_one hone f)) now
    ((if notCovered f.sources rows = [] then [] else
      (notCoveredLine (notCovered f.sources rows)).splitOn '\n') ++ [[]])
  refine ⟨current, ?_⟩
  rw [← h, planCommands, script_splitOn, scriptLines, List.flatMap_append, hplain,
    List.append_assoc]
  split <;> simp

theorem Group.strict_of_own {f : Filters} {rows : List TagRow} (h : OwnNumbers rows)
    (hwhole : ∀ e ∈ exported f rows,
      endsInNewline e.row.resourceId = false ∧ endsInNewline e.row.region = false) :
    ∀ g ∈ ordered (exported f rows), g.Strict := by
  intro g hg
  refine Group.strict_of_whole (fun e he => ?_) hg
  obtain ⟨hmem, hvalid⟩ := row_mem_of_exported he
  have hplain := plain_strictAccount (h.strict _ hmem)
  refine ⟨hvalid, (hwhole e he).1, (hwhole e he).2, ?_⟩
  rw [← Bool.not_eq_true]
  intro hend
  obtain ⟨b, hb⟩ := endsInNewline_split hend
  exact hplain (hb ▸ List.mem_append_right _ List.mem_cons_self)

theorem no_commands_iff (f : Filters) (rows : List TagRow) :
    (∀ l ∈ (if notCovered f.sources rows = [] then [] else
      (notCoveredLine (notCovered f.sources rows)).splitOn '\n') ++ [[]], isCommand l = false) ↔
      ∀ r ∈ rows, uncovered f.sources r = true → NoCommand r.resourceType := by
  have hkeys : (∀ t ∈ keys (notCovered f.sources rows), NoCommand t) ↔
      ∀ r ∈ rows, uncovered f.sources r = true → NoCommand r.resourceType := by
    simp only [mem_keys_notCovered]
    exact ⟨fun h r hr hu => h _ ⟨r, hr, hu, rfl⟩, fun h t ⟨r, hr, hu, ht⟩ => ht ▸ h r hr hu⟩
  have hblank : isCommand [] = false := by decide
  rw [← hkeys, List.forall_mem_append, List.forall_mem_singleton, and_iff_left hblank]
  split
  · rename_i hnil
    simp [hnil, keys]
  · exact notCoveredLine_commands _

/-- What a command holds has no newline, for the line of a command has none. -/
theorem whole_of_coversOnce {f : Filters} {rows : List TagRow} {now : Stamp}
    (h : CoversOnce f rows now) : ∀ e ∈ exported f rows,
      endsInNewline e.row.resourceId = false ∧ endsInNewline e.row.region = false := by
  intro e he
  have hin : e.entry ∈ (planCommands f rows now).flatMap TagCommand.entries :=
    h.covered.mem_iff.mpr (List.mem_map_of_mem he)
  obtain ⟨c, hc, hentry⟩ := List.mem_flatMap.mp hin
  obtain ⟨id, hid, heq⟩ := List.mem_map.mp hentry
  have hregion : c.region = e.row.region := congrArg (·.2.1) heq
  have hresource : id = e.row.resourceId := congrArg (·.2.2.1) heq
  have hplain : '\n' ∉ c.text := h.text c hc ▸
    not_mem_of_mem_splitOn (line_mem_of_mem_commandsIn hc).1
  obtain ⟨pre, post, hsplit, -⟩ := exists_intercalate_split [' '] hid
  simp only [TagCommand.text, hsplit, List.mem_append, not_or] at hplain
  refine ⟨?_, ?_⟩ <;> rw [← Bool.not_eq_true] <;> intro hend <;>
    obtain ⟨b, hb⟩ := endsInNewline_split hend
  · exact hplain.1.1.2.2.1 (hresource ▸ hb ▸ List.mem_append_right _ List.mem_cons_self)
  · exact hplain.1.1.1.1.2 (hregion ▸ hb ▸ List.mem_append_right _ List.mem_cons_self)

/-- The script covers each decision once exactly if no id and no region of an exported resource
ends in a newline and no type that is not covered brings in a command. -/
theorem coversOnce_iff (f : Filters) (rows : List TagRow) (now : Stamp) (h : OwnNumbers rows) :
    CoversOnce f rows now ↔
      (∀ e ∈ exported f rows,
        endsInNewline e.row.resourceId = false ∧ endsInNewline e.row.region = false) ∧
      ∀ r ∈ rows, uncovered f.sources r = true → NoCommand r.resourceType := by
  have hnumber := exportNumbers_of_one h.one f
  constructor
  · intro hcovers
    have hwhole := whole_of_coversOnce hcovers
    refine ⟨hwhole, ?_⟩
    obtain ⟨current, hplan⟩ := planCommands_eq now h.one (Group.strict_of_own h hwhole)
    rw [← no_commands_iff, ← @commandsIn_eq_nil current]
    -- A further command would hold a resource that is not exported.
    have hlength := hcovers.covered.length_eq
    rw [hplan, List.flatMap_append, List.length_append, (entries_ordered hnumber).length_eq,
      length_entries] at hlength
    refine List.eq_nil_iff_forall_not_mem.mpr fun c hc => ?_
    have hpos := (hcovers.size c (hplan ▸ List.mem_append_right _ hc)).1
    have hle := List.single_le_sum (fun _ _ => Nat.zero_le _) _
      (List.mem_map_of_mem (f := fun c : TagCommand => c.ids.length) hc)
    omega
  · rintro ⟨hwhole, hnone⟩
    obtain ⟨current, hplan⟩ := planCommands_eq now h.one (Group.strict_of_own h hwhole)
    rw [commandsIn_eq_nil.mpr ((no_commands_iff f rows).mpr hnone), List.append_nil] at hplan
    have hcommand : ∀ c ∈ planCommands f rows now, ∃ g : Group, ∃ ids ∈ g.chunks,
        c = g.command (some g.accountId) ids := by
      intro c hc
      rw [hplan] at hc
      obtain ⟨g, -, hc⟩ := List.mem_flatMap.mp hc
      obtain ⟨ids, hids, rfl⟩ := List.mem_map.mp hc
      exact ⟨g, ids, hids, rfl⟩
    have hcovered : ((planCommands f rows now).flatMap TagCommand.entries).Perm
        ((exported f rows).map Export.entry) := by
      rw [hplan]
      exact entries_ordered hnumber
    exact
      { text := fun c hc => by
          obtain ⟨g, ids, -, rfl⟩ := hcommand c hc
          exact g.command_text _ _
        size := fun c hc => by
          obtain ⟨g, ids, hids, rfl⟩ := hcommand c hc
          exact chunk_length hids
        covered := hcovered
        once := once_of_covered h hcovered
        decided := fun e he => decided_of_exported h.keys he
        complete := fun r hr t => exported_of_settled h.keys hr
        resources := by
          rw [hplan, length_commands, ← sum_byEnv, buildTagPlan_resources] }

/-- A volume attached to the instance, known by its account's default only. -/
def attachedVolume : TagRow :=
  { classified "vol-01234567" "data" with
    resourceType := lit "ebs"
    tags := [("parent_ec2", .text "i-01234567")]
    envSource := some .account }

theorem coversOnce_iff_volume :
    CoversOnce unfiltered [classified "i-01234567" "web", attachedVolume] noon := by
  have hnumber : ∀ r ∈ [classified "i-01234567" "web", attachedVolume],
      r.accountId = lit "123456789012" ∧ r.awsAccountId = 1 := by
    simp [classified, attachedVolume]
  have hown : OwnNumbers [classified "i-01234567" "web", attachedVolume] :=
    { keys := by decide
      strict := fun r hr => (hnumber r hr).1 ▸ by decide
      one := fun r hr s hs _ => (hnumber r hr).1.trans (hnumber s hs).1.symm
      own := fun r hr s hs _ => (hnumber r hr).2.trans (hnumber s hs).2.symm }
  have hexported : exported unfiltered [classified "i-01234567" "web", attachedVolume] =
      [⟨classified "i-01234567" "web", .prod⟩, ⟨attachedVolume, .prod⟩] := by rfl
  refine (coversOnce_iff _ _ _ hown).mpr ⟨fun e he => ?_, fun r hr hu => ?_⟩
  · rw [hexported] at he
    rcases List.mem_cons.mp he with rfl | he
    · exact ⟨by decide, by decide⟩
    · rw [List.mem_singleton.mp he]
      exact ⟨by decide, by decide⟩
  · rcases List.mem_cons.mp hr with rfl | hr
    · exact absurd hu (by decide)
    · rw [List.mem_singleton.mp hr] at hu
      exact absurd hu (by decide)

/-- The command of an id that ends in a newline loses its tag. -/
theorem command_broken : OwnNumbers [classified "i-01234567\n" "web"] ∧
    ¬ CoversOnce unfiltered [classified "i-01234567\n" "web"] noon := by
  have hmem : ∀ r ∈ [classified "i-01234567\n" "web"], r = classified "i-01234567\n" "web" :=
    fun r hr => List.mem_singleton.mp hr
  have hexported : exported unfiltered [classified "i-01234567\n" "web"] =
      [⟨classified "i-01234567\n" "web", .prod⟩] := by rfl
  refine ⟨⟨by decide, fun r hr => hmem r hr ▸ by decide, fun r hr s hs _ => ?_,
    fun r hr s hs _ => ?_⟩, fun h => ?_⟩
  · rw [hmem r hr, hmem s hs]
  · rw [hmem r hr, hmem s hs]
  · have hwhole := whole_of_coversOnce h _ (hexported ▸ List.mem_cons_self)
    exact absurd hwhole.1 (by decide)

end MonitoringHub.TagScript
