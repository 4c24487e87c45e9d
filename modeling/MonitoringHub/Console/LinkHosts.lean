import MonitoringHub.Lib.Pieces
import MonitoringHub.Lib.Text
import MonitoringHub.Console.ConsoleLinks

/-! Where the links lead. A link stays on AWS when its host is one of the console's and nothing the
caller gave can end the path, the query or the fragment it stands in. The pattern behind the region
lets a newline at the end and any decimal digit through, and the link that guesses from the id puts
the id in as it is. -/

namespace MonitoringHub.Console
open Lib KeyedStore PercentQuote Environments
open TagScript (Text lit lit_split isDecimal anchored endsInNewline)

inductive AwsHost : Text → Prop
  | console : AwsHost (lit "console.aws.amazon.com")
  | s3 : AwsHost (lit "s3.console.aws.amazon.com")
  | region {r : Text} (h : regionName Char.isDigit r = true) :
    AwsHost (r ++ lit ".console.aws.amazon.com")

/-- Control characters, the space and what parts an address. -/
def breaking (c : Char) : Bool :=
  c.toNat < 32 || (127 ≤ c.toNat && c.toNat < 160) || (lit " #?&").contains c

def clean (t : Text) : Bool := t.all fun c => !breaking c

structure Url.OnAws (u : Url) : Prop where
  host : ∃ host rest, AwsHost host ∧ u.text = lit "https://" ++ (host ++ '/' :: rest)
  clean : ∀ t, Piece.given t ∈ u → clean t = true

/-- The host is made from the region. -/
def LinkRequest.Regional (r : LinkRequest) : Prop := find (lower r.service) globalPages = none

/-- The text of the id that the guess from its shape puts into the link. -/
def guessedText (resource : Text) : Option Text :=
  if lit "i-" <+: resource ∨ lit "vol-" <+: resource then some resource
  else if lit "lambda" <:+: resource then some ((resource.splitOn ':').getLastD [])
  else none

theorem breaking_of_quoted {c : Char} (h : quoted c = true) : breaking c = false := by
  simp only [quoted, unreserved, Bool.or_eq_true, beq_iff_eq] at h
  rcases h with ((((h | rfl) | rfl) | rfl) | rfl) | rfl
  · obtain ⟨i, rfl⟩ := Lib.Text.ascii_of_isAlphanum h
    have hall : ∀ i : Fin 128, (Char.ofNat i).isAlphanum = true →
        breaking (Char.ofNat i) = false := by decide +kernel
    exact hall i h
  all_goals decide

theorem clean_of_quoted {s : Text} (h : ∀ c ∈ s, quoted c = true) : clean s = true := by
  refine List.all_eq_true.mpr fun c hc => ?_
  rw [breaking_of_quoted (h c hc), Bool.not_false]

theorem clean_quote (s : Text) : clean (quote s) = true :=
  clean_of_quoted fun _ hc => quoted_of_mem_quote hc

theorem clean_named (r : LinkRequest) : clean r.named = true := by
  unfold LinkRequest.named
  split <;> exact clean_quote _

/-- A region that the pattern lets through and that makes the host is a region's name, and what the
guess puts in is clean. -/
def LinkRequest.Plain (r : LinkRequest) : Prop :=
  (r.Regional → validRegionRe r.region = true → regionName Char.isDigit r.region = true) ∧
    (r.service = [] → ∀ t ∈ guessedText r.resourceId, clean t = true)

section Region
variable {digit : Char → Bool} {s : Text} {region : Piece}

theorem regionName_chars (h : regionName digit s = true) :
    ∀ c ∈ s, (c.isLower || digit c || c == '-') = true := by
  intro c hc
  unfold regionName at h
  split at h
  · rename_i head parts hs
    simp only [Bool.and_eq_true, List.all_eq_true] at h
    obtain ⟨⟨⟨⟨-, hhead⟩, -⟩, hmid⟩, hlast⟩ := h
    rcases of_mem_splitOn hs hc with rfl | hin | ⟨part, hpart, hin⟩ | ⟨part, hpart, hin⟩
    · simp
    · simp [hhead c hin]
    · have hlow := hmid part hpart
      simp only [decide_eq_true_eq] at hlow
      simp [hlow.2 c hin]
    · rw [hpart, Option.any_some, Bool.and_eq_true, List.all_eq_true] at hlast
      simp [hlast.2 c hin]
  · cases h

theorem slash_not_mem_regionName (hdigit : digit '/' = false) (h : regionName digit s = true) :
    '/' ∉ s := by
  intro hmem
  have hchar := regionName_chars h '/' hmem
  rw [hdigit] at hchar
  revert hchar
  decide

theorem slash_not_mem_validRegion (h : validRegionRe s = true) : '/' ∉ s := by
  simp only [validRegionRe, anchored, Bool.or_eq_true, Bool.and_eq_true] at h
  rcases h with h | ⟨hnewline, h⟩
  · exact slash_not_mem_regionName (by decide) h
  · simp only [endsInNewline, beq_iff_eq] at hnewline
    rw [← List.dropLast_append_getLast? _ hnewline]
    intro hmem
    rcases List.mem_append.mp hmem with hmem | hmem
    · exact slash_not_mem_regionName (by decide) h hmem
    · exact absurd (List.mem_singleton.mp hmem) (by decide)

theorem clean_of_regionName (h : regionName Char.isDigit s = true) : clean s = true := by
  refine clean_of_quoted fun c hc => ?_
  have hchar := regionName_chars h c hc
  simp only [Bool.or_eq_true, beq_iff_eq] at hchar
  rcases hchar with (hlower | hdigit) | rfl
  · simp [quoted, unreserved, Lib.Text.isAlphanum_eq, hlower]
  · simp [quoted, unreserved, Lib.Text.isAlphanum_eq, hdigit]
  · decide

theorem safeRegion_valid : validRegionRe (safeRegion region).text = true := by
  unfold safeRegion
  split
  · rename_i h
    exact h.2
  · decide

theorem validRegion_ne_nil (h : validRegionRe s = true) : s ≠ [] := by
  rintro rfl
  revert h
  decide

theorem safeRegion_of_valid (h : validRegionRe region.text = true) : safeRegion region = region :=
  if_pos ⟨validRegion_ne_nil h, h⟩

theorem safeRegion_safeRegion : safeRegion (safeRegion region) = safeRegion region :=
  safeRegion_of_valid safeRegion_valid

theorem safeRegion_name_iff : regionName Char.isDigit (safeRegion region).text = true ↔
    (validRegionRe region.text = true → regionName Char.isDigit region.text = true) := by
  by_cases h : validRegionRe region.text = true
  · rw [safeRegion_of_valid h, imp_iff_right h]
  · rw [safeRegion, if_neg fun hall => h hall.2]
    refine iff_of_true ?_ fun hvalid => absurd hvalid h
    decide

end Region

section Shapes
variable {region : Piece} {path : String} {rest : Url}

theorem AwsHost.slash_not_mem {host : Text} (h : AwsHost host) : '/' ∉ host := by
  cases h with
  | console => exact TagScript.of_lit (P := fun s => '/' ∉ s) (by decide)
  | s3 => exact TagScript.of_lit (P := fun s => '/' ∉ s) (by decide)
  | region h =>
    refine fun hmem => (List.mem_append.mp hmem).elim (slash_not_mem_regionName (by decide) h) ?_
    exact TagScript.of_lit (P := fun s => '/' ∉ s) (by decide)

theorem regional_text : (regional region path rest).text = lit "https://" ++
    (region.text ++ lit ".console.aws.amazon.com" ++ '/' :: (lit path ++ Url.text rest)) := by
  have hdomain : lit ".console.aws.amazon.com/" = lit ".console.aws.amazon.com" ++ '/' :: lit "" :=
    lit_split (by decide)
  simp only [regional, Url.text, List.flatMap_cons, Piece.text]
  change lit "https://" ++ (region.text ++ (lit ".console.aws.amazon.com/" ++ _)) = _
  rw [hdomain, List.append_assoc (lit _)]
  simp only [lit, List.append_assoc, List.cons_append, String.toList_empty, List.nil_append]
  rfl

/-- Up to the first slash two readings of an address agree. -/
theorem host_unique {host host' tail tail' : Text} (h : '/' ∉ host) (h' : '/' ∉ host')
    (heq : host ++ '/' :: tail = host' ++ '/' :: tail') : host = host' := by
  have hpieces := congrArg (fun s => (s.splitOn '/').head?) heq
  simpa [List.splitOn_append_cons_self, List.splitOn_eq_singleton h,
    List.splitOn_eq_singleton h'] using hpieces

theorem regional_host_iff (hvalid : validRegionRe region.text = true) :
    (∃ host tail, AwsHost host ∧
      (regional region path rest).text = lit "https://" ++ (host ++ '/' :: tail)) ↔
      regionName Char.isDigit region.text = true := by
  constructor
  · rintro ⟨host, tail, hhost, heq⟩
    rw [regional_text] at heq
    have hslash : '/' ∉ region.text ++ lit ".console.aws.amazon.com" := by
      refine fun hmem => (List.mem_append.mp hmem).elim (slash_not_mem_validRegion hvalid) ?_
      exact TagScript.of_lit (P := fun s => '/' ∉ s) (by decide)
    have hsame := host_unique hslash hhost.slash_not_mem (List.append_cancel_left heq)
    cases hhost with
    | console =>
      have hlength := congrArg List.length hsame
      have hlonger : (lit "console.aws.amazon.com").length <
          (lit ".console.aws.amazon.com").length := by decide
      rw [List.length_append] at hlength
      omega
    | s3 =>
      have hdomain : lit "s3.console.aws.amazon.com" =
          lit "s3" ++ lit ".console.aws.amazon.com" := by decide
      rw [hdomain] at hsame
      rw [List.append_cancel_right hsame] at hvalid
      exact absurd hvalid (by decide)
    | region hname => rwa [List.append_cancel_right hsame]
  · intro hname
    exact ⟨_, _, .region hname, regional_text⟩

theorem regional_onAws_iff (hvalid : validRegionRe region.text = true) :
    (regional region path rest).OnAws ↔ regionName Char.isDigit region.text = true ∧
      ∀ t, Piece.given t ∈ rest → clean t = true := by
  constructor
  · rintro ⟨hhost, hclean⟩
    refine ⟨(regional_host_iff hvalid).mp hhost, fun t ht => hclean t ?_⟩
    simp [regional, ht]
  · rintro ⟨hname, hclean⟩
    refine ⟨(regional_host_iff hvalid).mpr hname, fun t ht => ?_⟩
    simp only [regional, List.mem_cons, reduceCtorEq, false_or] at ht
    rcases ht with rfl | ht
    · exact clean_of_regionName hname
    · exact hclean t ht

/-- A page whose rest is the source's, the region or encoded is on AWS if the region's name is. -/
theorem regional_tame_iff (hvalid : validRegionRe region.text = true)
    (hrest : ∀ p ∈ rest, p = region ∨ ∀ t, p = .given t → clean t = true) :
    (regional region path rest).OnAws ↔ regionName Char.isDigit region.text = true := by
  rw [regional_onAws_iff hvalid, and_iff_left_iff_imp]
  intro hname t ht
  rcases hrest _ ht with rfl | hclean
  · exact clean_of_regionName hname
  · exact hclean t rfl

/-- A page with one text put in as it is needs that text clean. -/
theorem regional_insert_iff (hvalid : validRegionRe region.text = true) {hash : String}
    {t : Text} : (regional region path [region, .own hash, .given t]).OnAws ↔
      regionName Char.isDigit region.text = true ∧ clean t = true := by
  rw [regional_onAws_iff hvalid]
  refine and_congr_right fun hname => ⟨fun h => h t (by simp), fun hclean t' ht' => ?_⟩
  simp only [List.mem_cons, reduceCtorEq, false_or, Piece.given.injEq, List.not_mem_nil,
    or_false] at ht'
  rcases ht' with rfl | rfl
  · exact clean_of_regionName hname
  · exact hclean

end Shapes

section Services
variable {s : Text} {region : Piece}

theorem lower_lower (s : Text) : lower (lower s) = lower s := by
  rw [lower, lower, List.flatMap_assoc]
  refine List.flatMap_congr fun c _ => ?_
  by_cases hletter : c.isAlphanum = true
  · obtain ⟨i, rfl⟩ := Lib.Text.ascii_of_isAlphanum hletter
    have hall : ∀ i : Fin 128, (lowerChar (Char.ofNat i)).flatMap lowerChar =
        lowerChar (Char.ofNat i) := by decide +kernel
    exact hall i
  · unfold lowerChar
    rw [Lib.Text.toLower_of_not_isAlphanum (by simpa using hletter)]
    split_ifs with hdotted hkelvin
    · decide
    · decide
    · simp [hdotted, hkelvin, Lib.Text.toLower_of_not_isAlphanum (by simpa using hletter)]

theorem lower_eq_nil : lower s = [] ↔ s = [] := by
  cases s with
  | nil => simp [lower]
  | cons c s =>
    refine iff_of_false (fun h => ?_) (List.cons_ne_nil c s)
    have hchar := (List.append_eq_nil_iff.mp h).1
    unfold lowerChar at hchar
    split_ifs at hchar

theorem globalPage_onAws {page : GlobalPage} {rest : Url} (hhost : AwsHost (lit page.host))
    (hclean : ∀ t, Piece.given t ∈ rest → clean t = true) : (page.url rest).OnAws where
  host := by
    refine ⟨_, lit page.path ++ Url.text rest, hhost, ?_⟩
    have hslash : "/".toList = ['/'] := by decide
    simp [GlobalPage.url, Url.text, Piece.text, lit, hslash]
  clean t ht := hclean t (by simpa [GlobalPage.url] using ht)

theorem globalPages_host : ∀ e ∈ globalPages, AwsHost (lit e.2.host) := by
  have hregion : lit "us-west-2.console.aws.amazon.com" =
      lit "us-west-2" ++ lit ".console.aws.amazon.com" := by decide
  have hwest : AwsHost (lit "us-west-2.console.aws.amazon.com") := by
    rw [hregion]
    exact .region (by decide)
  simp only [globalPages, List.forall_mem_cons]
  exact ⟨.s3, .console, .console, hwest, List.forall_mem_nil _⟩

theorem serviceConsoleListUrl_onAws_iff : (serviceConsoleListUrl s region).OnAws ↔
    (find (lower s) globalPages = none →
      regionName Char.isDigit (safeRegion region).text = true) := by
  unfold serviceConsoleListUrl
  split
  · rename_i page hpage
    rw [hpage]
    exact iff_of_true (globalPage_onAws (globalPages_host _ (mem_of_find hpage)) (by simp))
      fun h => absurd h (Option.some_ne_none page)
  · rename_i hnone
    rw [imp_iff_right hnone]
    cases (find (lower s) listPages).getD (.home "console/home" "") with
    | home path hash => exact regional_tame_iff safeRegion_valid (by simp)
    | bare path => exact regional_tame_iff safeRegion_valid (by simp)

theorem lambdaNamed_iff : lit "lambda" <:+: s ∨ lit "arn:aws:lambda" <+: s ↔ lit "lambda" <:+: s := by
  refine or_iff_left_of_imp ?_
  rintro ⟨rest, rfl⟩
  have hsplit : lit "arn:aws:lambda" = lit "arn:aws:" ++ lit "lambda" := by decide
  exact ⟨lit "arn:aws:", rest, by rw [hsplit]⟩

theorem guessedText_none (hinstance : ¬ lit "i-" <+: s) (hvolume : ¬ lit "vol-" <+: s)
    (hlambda : ¬ (lit "lambda" <:+: s ∨ lit "arn:aws:lambda" <+: s)) : guessedText s = none := by
  rw [guessedText, if_neg (by simp [hinstance, hvolume]), if_neg fun h => hlambda (.inl h)]

theorem legacyPrefixGuessDestination_onAws_iff : (legacyPrefixGuessDestination s region).OnAws ↔
    regionName Char.isDigit (safeRegion region).text = true ∧
      ∀ t ∈ guessedText s, clean t = true := by
  have hvalid : validRegionRe (safeRegion region).text = true := safeRegion_valid
  unfold legacyPrefixGuessDestination
  dsimp only
  split_ifs with hnil hinstance hvolume hlambda hdb
  · have hnone : guessedText s = none := by rw [hnil]; decide
    rw [hnone]
    simpa using regional_tame_iff hvalid (by simp)
  · rw [regional_insert_iff hvalid, guessedText, if_pos (.inl hinstance)]
    simp
  · rw [regional_insert_iff hvalid, guessedText, if_pos (.inr hvolume)]
    simp
  · rw [regional_insert_iff hvalid, guessedText, if_neg (by simp [hinstance, hvolume]),
      if_pos (lambdaNamed_iff.mp hlambda)]
    simp
  · have hnone : guessedText s = none := guessedText_none hinstance hvolume hlambda
    rw [hnone]
    simpa using regional_tame_iff hvalid (by simp)
  · have hnone : guessedText s = none := guessedText_none hinstance hvolume hlambda
    rw [hnone]
    simpa using regional_tame_iff hvalid (by simp)

end Services

section Requests
variable {r : LinkRequest}

theorem LinkRequest.plain_iff (h : r.resourceId = [] ∨ r.service ≠ []) : r.Plain ↔
    (r.Regional → regionName Char.isDigit (safeRegion (.given r.region)).text = true) := by
  have hguess : r.service = [] → ∀ t ∈ guessedText r.resourceId, clean t = true := by
    intro hservice t ht
    rcases h with hnil | hne
    · have hnone : guessedText r.resourceId = none := by rw [hnil]; decide
      rw [hnone] at ht
      cases ht
    · exact absurd hservice hne
  rw [safeRegion_name_iff]
  exact and_iff_left hguess

/-- A link to one resource of a service whose host is made from the region. -/
theorem regional_plain_iff {svc : Text} {path : String} {rest : Url} (hsvc : lower r.service = svc)
    (hne : svc ≠ []) (hregional : find svc globalPages = none)
    (hrest : ∀ p ∈ rest, p = safeRegion (.given r.region) ∨
      ∀ t, p = .given t → clean t = true) :
    (regional (safeRegion (.given r.region)) path rest).OnAws ↔ r.Plain := by
  subst hsvc
  rw [regional_tame_iff safeRegion_valid hrest,
    LinkRequest.plain_iff (.inr fun h => hne (lower_eq_nil.mpr h))]
  exact (imp_iff_right hregional).symm

theorem listed_plain_iff (h : r.resourceId = [] ∨ r.service ≠ []) {svc : Text}
    (hsvc : lower svc = lower r.service) :
    (serviceConsoleListUrl svc (safeRegion (.given r.region))).OnAws ↔ r.Plain := by
  rw [serviceConsoleListUrl_onAws_iff, hsvc, safeRegion_safeRegion, LinkRequest.plain_iff h]
  rfl

theorem bucket_plain_iff (hs3 : lower r.service = lit "s3") :
    (GlobalPage.url ⟨"s3.console.aws.amazon.com", "s3/buckets/"⟩
      [.given (quote r.resourceId)]).OnAws ↔ r.Plain := by
  have hservice : r.service ≠ [] := by
    intro hnil
    rw [hnil] at hs3
    revert hs3
    decide
  refine iff_of_true (globalPage_onAws .s3 (by simp [clean_quote])) ?_
  refine (LinkRequest.plain_iff (.inr hservice)).mpr fun hregional => ?_
  rw [LinkRequest.Regional, hs3] at hregional
  exact absurd hregional (by decide)

theorem onAws_ite {p : Prop} [Decidable p] {u u' : Url} (h : p → (u.OnAws ↔ r.Plain))
    (h' : ¬ p → (u'.OnAws ↔ r.Plain)) : (if p then u else u').OnAws ↔ r.Plain := by
  split
  · exact h ‹_›
  · exact h' ‹_›

/-- Every link is on AWS exactly when a region that the pattern lets through is a region's name,
wherever it makes the host, and what the guess from the id puts in is clean. -/
theorem resourceConsoleDestination_onAws_iff (r : LinkRequest) :
    (resourceConsoleDestination r).OnAws ↔ r.Plain := by
  have hquote := fun s => clean_quote s
  have hnamed := clean_named r
  refine onAws_ite (fun hid => listed_plain_iff (.inl hid) rfl) fun _ => ?_
  refine onAws_ite (fun hsvc => ?_) fun _ => onAws_ite (fun hsvc => ?_) fun _ =>
    onAws_ite (fun hsvc => ?_) fun _ => onAws_ite (fun hsvc => ?_) fun _ =>
    onAws_ite (fun hs3 => ?_) fun _ => onAws_ite (fun hsvc => ?_) fun _ =>
    onAws_ite (fun hsvc => onAws_ite (fun _ => ?_) fun _ => ?_) fun _ =>
    onAws_ite (fun hsvc => ?_) fun _ => onAws_ite (fun hsvc => ?_) fun _ =>
    onAws_ite (fun hsvc => ?_) fun _ => onAws_ite (fun hsvc => ?_) fun _ =>
    onAws_ite (fun hlisted => ?_) fun hnone => ?_
  · exact regional_plain_iff hsvc (by decide) (by decide) (by simp [hquote])
  · exact regional_plain_iff hsvc (by decide) (by decide) (by simp [hquote])
  · exact regional_plain_iff hsvc (by decide) (by decide) (by simp [hquote])
  · exact regional_plain_iff hsvc (by decide) (by decide) (by simp [hquote])
  · exact bucket_plain_iff hs3
  · exact regional_plain_iff hsvc (by decide) (by decide) (by simp [hnamed])
  · exact regional_plain_iff hsvc (by decide) (by decide) (by simp [hnamed])
  · exact regional_plain_iff hsvc (by decide) (by decide) (by simp [hquote, hnamed])
  · exact regional_plain_iff hsvc (by decide) (by decide) (by simp [hquote])
  · exact regional_plain_iff hsvc (by decide) (by decide) (by simp [hnamed])
  · exact regional_plain_iff hsvc (by decide) (by decide) (by simp [hquote])
  · exact regional_plain_iff hsvc (by decide) (by decide) (by simp [hquote])
  · exact listed_plain_iff (.inr fun h => hlisted (lower_eq_nil.mpr h)) (lower_lower _)
  · have hservice : r.service = [] := lower_eq_nil.mp (not_not.mp hnone)
    have hregional : r.Regional := by
      rw [LinkRequest.Regional, hservice]
      decide
    rw [legacyPrefixGuessDestination_onAws_iff, safeRegion_safeRegion, safeRegion_name_iff,
      LinkRequest.Plain, imp_iff_right hregional, imp_iff_right hservice]
    rfl

/-- A region with a newline behind it is put into the host, and an id that no service is given for
brings its own fragment sign. -/
theorem newlineAndHash_off :
    ¬ (resourceConsoleDestination ⟨lit "ec2", lit "i-1", lit "us-east-1\n", [], []⟩).OnAws ∧
      ¬ (resourceConsoleDestination ⟨[], lit "i-1#x", lit "us-east-1", [], []⟩).OnAws := by
  constructor
  · intro h
    have hgiven := h.clean (lit "us-east-1\n") (by decide)
    exact absurd hgiven (by decide)
  · intro h
    have hgiven := h.clean (lit "i-1#x") (by decide)
    exact absurd hgiven (by decide)

end Requests

end MonitoringHub.Console
