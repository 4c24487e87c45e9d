import MonitoringHub.Cost.PageReads

/-! When a read of billed cost leaves pages behind, and whether the fetch log says so. AWS's read
knows that its limit cut it off. Azure's does not, and it looks for the link of the next page in the
properties only, where the rows are read from an answer without properties too. -/

namespace MonitoringHub.Cost
open TagScript (Text)

/-- The link of the next page, where the rows of the page are read from. -/
def AzurePayload.announced (data : AzurePayload) : Text := data.props.nextLink

/-- Every page that the last page read announces has been read. -/
def AzureCloud.readAll (c : AzureCloud) : Bool :=
  match c.pages with
  | .error _ => false
  | .ok (pages, _) => pages.getLast?.all fun data => data.announced = []

def CeCloud.readAll (c : CeCloud) (window : ℕ) : Bool :=
  match c.pages (if window = refreshDays then maxPages else maxPagesBackfill) with
  | .error _ => false
  | .ok (pages, _, _) => pages.getLast?.all fun page => page.nextPageToken = []

def CostCloud.readAll (cloud : CostCloud) (window : ℕ) : Bool :=
  match cloud with
  | .aws c => c.readAll window
  | .azure c => c.readAll

/-- The row does not pass for a complete read, nor does the account count as backfilled by it. -/
structure CostLogRow.Owns (r : CostLogRow) (log : List CostLogRow) : Prop where
  status : r.status ≠ .ok
  error : r.error ≠ none
  window : r.windowDays = none
  backfilled : ∀ read, backfilled (r :: log) read = backfilled log read

/-- A read that leaves pages behind is logged as such, or not logged. -/
def CostCloud.Owned (cloud : CostCloud) (read : Bool) (save : SaveEnd) (log : List CostLogRow) :
    Prop :=
  cloud.readAll (windowFor log read) = false → ∀ row, cloud.refreshAccount read save log = row :: log →
    row.Owns log

/-! Pages left behind, by what the requests are answered. -/

section Answers
variable (answers : AzureAnswers)

/-- Throttled answers from request `made` on and then this one, which may be throttled itself if no
try is left. -/
inductive Answered (resp : AzureResponse) (made' : ℕ) : ℕ → ℕ → Prop
  | busy {tries made : ℕ} {busy : AzureResponse} (hanswer : answers made = .ok busy)
    (hbusy : busy.statusCode = 429) (hrest : Answered resp made' (tries + 1) (made + 1)) :
    Answered resp made' (tries + 2) made
  | final {tries made : ℕ} (hanswer : answers made = .ok resp)
    (hfinal : resp.statusCode = 429 → tries = 0) (hmade : made' = made + 1) :
    Answered resp made' (tries + 1) made

/-- A page in answer to request `made`. -/
def PageAt (made : ℕ) (data : AzurePayload) (made' : ℕ) : Prop :=
  ∃ resp, Answered answers resp made' attempts made ∧ resp.statusCode = 200 ∧ resp.body = .ok data

/-- Pages, and then the column is rejected. -/
inductive Rejected : ℕ → ℕ → ℕ → Prop
  | now {left made made' : ℕ} {resp : AzureResponse}
    (h : Answered answers resp made' attempts made) (hrejected : resp.statusCode = 400) :
    Rejected (left + 1) made made'
  | later {left made made' made'' : ℕ} {data : AzurePayload} (h : PageAt answers made data made')
    (hlink : data.nextUrl ≠ []) (hrest : Rejected left made' made'') :
    Rejected (left + 1) made made''

/-- Pages whose rows are read, up to the last that the limit allows or to one without properties,
and that one has a link. -/
inductive PagesLeft : ℕ → ℕ → Prop
  | limit {made made' : ℕ} {data : AzurePayload} {rows : List Reported}
    (h : PageAt answers made data made') (hrows : reportedRows data = .ok rows)
    (hlink : data.nextUrl ≠ []) : PagesLeft 1 made
  | bare {left made made' : ℕ} {data : AzurePayload} {rows : List Reported}
    (h : PageAt answers made data made') (hrows : reportedRows data = .ok rows)
    (hproperties : data.properties = none) (hlink : data.bare.nextLink ≠ []) :
    PagesLeft (left + 1) made
  | next {left made made' : ℕ} {data : AzurePayload} {rows : List Reported}
    (h : PageAt answers made data made') (hrows : reportedRows data = .ok rows)
    (hlink : data.nextUrl ≠ []) (hrest : PagesLeft left made') : PagesLeft (left + 1) made

/-- Rejected columns, and then one that leaves pages behind. -/
inductive ColumnsLeft : List String → ℕ → Prop
  | accepted {column : String} {columns : List String} {made : ℕ}
    (h : PagesLeft answers azureMaxPages made) : ColumnsLeft (column :: columns) made
  | rejected {column : String} {columns : List String} {made made' : ℕ}
    (h : Rejected answers azureMaxPages made made') (hrest : ColumnsLeft columns made') :
    ColumnsLeft (column :: columns) made

end Answers

/-- A subscription that can be asked, and whose pages go on behind the last one that is read. -/
structure AzureCloud.Cut (c : AzureCloud) : Prop where
  credential : c.credential = .ok true
  subscription : c.subscriptionId ≠ []
  token : c.token = .ok ()
  left : ColumnsLeft c.answers costColumns 0

def CostCloud.Cut : CostCloud → Prop
  | .aws _ => False
  | .azure c => c.Cut

section Requests
variable {answers : AzureAnswers} {made made' : ℕ} {resp : AzureResponse} {data : AzurePayload}

theorem postPage_iff {tries : ℕ} :
    postPage answers tries made = .ok (resp, made') ↔ Answered answers resp made' tries made := by
  induction tries generalizing made with
  | zero => exact iff_of_false (fun h => by cases h) fun h => by cases h
  | succ tries ih =>
    rw [postPage]
    constructor
    · intro h
      split at h
      · cases h
      rename_i first hfirst
      split at h
      · rename_i hagain
        obtain ⟨more, rfl⟩ := Nat.exists_eq_succ_of_ne_zero hagain.2
        exact .busy hfirst hagain.1 (ih.mp h)
      · rename_i hfinal
        cases h
        exact .final hfirst (fun hbusy => by_contra fun hmore => hfinal ⟨hbusy, hmore⟩) rfl
    · intro h
      cases h with
      | busy hanswer hbusy hrest =>
        rw [hanswer]
        dsimp only
        rw [if_pos ⟨hbusy, Nat.succ_ne_zero _⟩]
        exact ih.mpr hrest
      | final hanswer hfinal hmade =>
        rw [hanswer]
        dsimp only
        rw [if_neg fun h => h.2 (hfinal h.1), hmade]

/-- A page read, by the request for it. -/
theorem readPages_page (h : PageAt answers made data made') (left : ℕ) :
    readPages answers (left + 1) made =
      if data.nextUrl = [] then .ok (some [data], made')
      else (readPages answers left made').map fun r => (r.1.map (data :: ·), r.2) := by
  obtain ⟨resp, hanswered, hstatus, hbody⟩ := h
  rw [readPages, postPage_iff.mpr hanswered]
  simp only [hstatus, hbody]
  rfl

theorem readPages_rejected (h : Answered answers resp made' attempts made)
    (hrejected : resp.statusCode = 400) (left : ℕ) :
    readPages answers (left + 1) made = .ok (none, made') := by
  rw [readPages, postPage_iff.mpr h]
  simp [hrejected]

/-- A read of a page or more begins with a page or with the column's rejection. -/
theorem readPages_cases {left : ℕ} {r : Option (List AzurePayload) × ℕ}
    (h : readPages answers (left + 1) made = .ok r) :
    (∃ data made', PageAt answers made data made') ∨
      ∃ resp made', Answered answers resp made' attempts made ∧ resp.statusCode = 400 := by
  rw [readPages] at h
  split at h
  · cases h
  rename_i resp made' hpost
  have hanswered := postPage_iff.mp hpost
  split_ifs at h with hdenied hrejected hother
  · exact .inr ⟨resp, made', hanswered, hrejected⟩
  · split at h
    · cases h
    rename_i data hbody
    exact .inl ⟨data, made', resp, hanswered, not_not.mp hother, hbody⟩

theorem readPages_none_iff {left : ℕ} :
    readPages answers left made = .ok (none, made') ↔ Rejected answers left made made' := by
  constructor
  · intro h
    induction left generalizing made with
    | zero => cases h
    | succ left ih =>
      rcases readPages_cases h with ⟨data, made₁, hpage⟩ | ⟨resp, made₁, hanswered, hrejected⟩
      · rw [readPages_page hpage] at h
        split at h
        · cases h
        · rename_i hlink
          cases hrest : readPages answers left made₁ with
          | error e => rw [hrest] at h; cases h
          | ok r =>
            obtain ⟨pages, made₂⟩ := r
            cases pages with
            | some pages => rw [hrest] at h; cases h
            | none =>
              rw [hrest] at h
              cases h
              exact .later hpage hlink (ih hrest)
      · rw [readPages_rejected hanswered hrejected] at h
        cases h
        exact .now hanswered hrejected
  · intro h
    induction h with
    | now hanswered hrejected => exact readPages_rejected hanswered hrejected _
    | later hpage hlink _ ih => rw [readPages_page hpage, if_neg hlink, ih]; rfl

/-- The rows of every page could be read. -/
def Readable (pages : List AzurePayload) : Prop :=
  ∀ data ∈ pages, ∃ rows, reportedRows data = .ok rows

/-- The last page read has a link to another. -/
def GoesOn (pages : List AzurePayload) : Prop := ∃ data ∈ pages.getLast?, data.announced ≠ []

theorem announced_of_properties {props : AzureProps} (h : data.properties = some props) :
    data.announced = data.nextUrl := by
  simp only [AzurePayload.announced, AzurePayload.props, AzurePayload.nextUrl, h, Option.getD_some,
    Option.map_some]

theorem announced_of_nextUrl (h : data.nextUrl ≠ []) : data.announced ≠ [] := by
  cases hprops : data.properties with
  | some props => rwa [announced_of_properties hprops]
  | none =>
    rw [AzurePayload.nextUrl, hprops] at h
    exact absurd rfl h

theorem goesOn_cons {pages : List AzurePayload} (hne : pages ≠ []) :
    GoesOn (data :: pages) ↔ GoesOn pages := by
  obtain ⟨front, last, rfl⟩ := (List.eq_nil_or_concat' pages).resolve_left hne
  rw [GoesOn, GoesOn, ← List.cons_append, List.getLast?_concat, List.getLast?_concat]

theorem goesOn_singleton : GoesOn [data] ↔ data.announced ≠ [] := by
  simp [GoesOn]

/-- A page that was the last or is followed by those of the next requests. -/
theorem readPages_some_iff {left made'' : ℕ} {pages : List AzurePayload}
    (h : PageAt answers made data made') :
    readPages answers (left + 1) made = .ok (some pages, made'') ↔
      (data.nextUrl = [] ∧ pages = [data] ∧ made'' = made') ∨
      (data.nextUrl ≠ [] ∧ ∃ rest, readPages answers left made' = .ok (some rest, made'') ∧
        pages = data :: rest) := by
  rw [readPages_page h]
  by_cases hlink : data.nextUrl = []
  · rw [if_pos hlink]
    constructor
    · intro heq
      cases heq
      exact .inl ⟨hlink, rfl, rfl⟩
    · rintro (⟨-, rfl, rfl⟩ | ⟨hne, -⟩)
      · rfl
      · exact absurd hlink hne
  · rw [if_neg hlink]
    constructor
    · intro heq
      cases hrest : readPages answers left made' with
      | error e => rw [hrest] at heq; cases heq
      | ok r =>
        obtain ⟨rest, made₂⟩ := r
        cases rest with
        | none => rw [hrest] at heq; cases heq
        | some rest =>
          rw [hrest] at heq
          cases heq
          exact .inr ⟨hlink, rest, rfl, rfl⟩
    · rintro (⟨heq, -⟩ | ⟨-, rest, hrest, rfl⟩)
      · exact absurd heq hlink
      · rw [hrest]
        rfl

theorem readPages_ne_nil {left made' : ℕ} :
    readPages answers (left + 1) made ≠ .ok (some [], made') := by
  intro h
  rcases readPages_cases h with ⟨data, made₁, hpage⟩ | ⟨resp, made₁, hanswered, hrejected⟩
  · rcases (readPages_some_iff hpage).mp h with ⟨-, hnil, -⟩ | ⟨-, rest, -, hnil⟩ <;> cases hnil
  · rw [readPages_rejected hanswered hrejected] at h
    cases h

theorem pagesLeft_iff {left : ℕ} : PagesLeft answers left made ↔
    ∃ pages made', readPages answers left made = .ok (some pages, made') ∧ Readable pages ∧
      GoesOn pages := by
  constructor
  · intro h
    induction h with
    | @limit made made' data rows hpage hrows hlink =>
      refine ⟨[data], made', (readPages_some_iff hpage).mpr (.inr ⟨hlink, [], rfl, rfl⟩), ?_,
        goesOn_singleton.mpr (announced_of_nextUrl hlink)⟩
      exact List.forall_mem_singleton.mpr ⟨rows, hrows⟩
    | @bare left made made' data rows hpage hrows hproperties hlink =>
      have hnil : data.nextUrl = [] := by rw [AzurePayload.nextUrl, hproperties]; rfl
      have hannounced : data.announced = data.bare.nextLink := by
        rw [AzurePayload.announced, AzurePayload.props, hproperties]
        rfl
      refine ⟨[data], made', (readPages_some_iff hpage).mpr (.inl ⟨hnil, rfl, rfl⟩), ?_,
        goesOn_singleton.mpr (hannounced ▸ hlink)⟩
      exact List.forall_mem_singleton.mpr ⟨rows, hrows⟩
    | @next left made made' data rows hpage hrows hlink _ ih =>
      obtain ⟨pages, made'', hread, hreadable, hgoes⟩ := ih
      have hne : pages ≠ [] := by
        rintro rfl
        obtain ⟨last, hlast, -⟩ := hgoes
        cases hlast
      exact ⟨data :: pages, made'', (readPages_some_iff hpage).mpr (.inr ⟨hlink, pages, hread, rfl⟩),
        List.forall_mem_cons.mpr ⟨⟨rows, hrows⟩, hreadable⟩, (goesOn_cons hne).mpr hgoes⟩
  · rintro ⟨pages, made', hread, hreadable, hgoes⟩
    induction left generalizing made pages with
    | zero =>
      cases hread
      obtain ⟨last, hlast, -⟩ := hgoes
      cases hlast
    | succ left ih =>
      rcases readPages_cases hread with ⟨data, made₁, hpage⟩ | ⟨resp, made₁, hanswered, hrejected⟩
      · rcases (readPages_some_iff hpage).mp hread with ⟨hnil, rfl, -⟩ | ⟨hlink, rest, hrest, rfl⟩
        · obtain ⟨rows, hrows⟩ := hreadable data List.mem_cons_self
          have hannounced := goesOn_singleton.mp hgoes
          cases hprops : data.properties with
          | some props =>
            rw [announced_of_properties hprops] at hannounced
            exact absurd hnil hannounced
          | none =>
            rw [AzurePayload.announced, AzurePayload.props, hprops] at hannounced
            exact .bare hpage hrows hprops hannounced
        · obtain ⟨⟨rows, hrows⟩, hrestReadable⟩ := List.forall_mem_cons.mp hreadable
          cases left with
          | zero => exact .limit hpage hrows hlink
          | succ left =>
            have hne : rest ≠ [] := fun hnil => readPages_ne_nil (hnil ▸ hrest)
            exact .next hpage hrows hlink (ih rest hrest hrestReadable ((goesOn_cons hne).mp hgoes))
      · rw [readPages_rejected hanswered hrejected] at hread
        cases hread

theorem columnsLeft_cons {column : String} {columns : List String} :
    ColumnsLeft answers (column :: columns) made ↔ PagesLeft answers azureMaxPages made ∨
      ∃ made', Rejected answers azureMaxPages made made' ∧ ColumnsLeft answers columns made' := by
  constructor
  · intro h
    cases h with
    | accepted h => exact .inl h
    | rejected h hrest => exact .inr ⟨_, h, hrest⟩
  · rintro (h | ⟨made', h, hrest⟩)
    · exact .accepted h
    · exact .rejected h hrest

theorem columnsLeft_iff {columns : List String} : ColumnsLeft answers columns made ↔
    ∃ pages made', readColumns answers columns made = .ok (pages, made') ∧ Readable pages ∧
      GoesOn pages := by
  induction columns generalizing made with
  | nil =>
    refine iff_of_false (fun h => by cases h) ?_
    rintro ⟨pages, made', h, -⟩
    cases h
  | cons column columns ih =>
    rw [columnsLeft_cons, pagesLeft_iff, readColumns]
    simp only [← readPages_none_iff, ih]
    cases readPages answers azureMaxPages made with
    | error e => simp
    | ok r =>
      obtain ⟨pages, made₁⟩ := r
      cases pages with
      | none => simp
      | some pages => simp

theorem parseAzureQuery_ok_iff (sub : Text) :
    (∃ rows, parseAzureQuery data sub = .ok rows) ↔ ∃ rows, reportedRows data = .ok rows := by
  rw [parseAzureQuery]
  cases reportedRows data <;> simp [Except.map]

theorem parsePages_ok_iff (sub : Text) {pages : List AzurePayload} :
    (∃ rows, parsePages sub pages = .ok rows) ↔ Readable pages := by
  induction pages with
  | nil => exact iff_of_true ⟨_, rfl⟩ fun data h => by cases h
  | cons data pages ih =>
    rw [Readable, List.forall_mem_cons, ← parseAzureQuery_ok_iff sub, parsePages]
    change _ ↔ _ ∧ Readable pages
    rw [← ih]
    cases parseAzureQuery data sub with
    | error e => simp [bind, Except.bind]
    | ok rows => cases parsePages sub pages <;> simp [bind, Except.bind, pure, Except.pure]

end Requests

section Refresh
variable {log : List CostLogRow} {row : CostLogRow} {window : ℕ} {read : Bool}

theorem FetchError.status_ne_ok (e : FetchError) : e.status ≠ .ok := by
  cases e with
  | raised name =>
    rw [FetchError.status]
    split_ifs <;> decide
  | _ => simp [FetchError.status]

theorem ceStatus_ne_ok (code : String) : ceStatus code ≠ .ok := by
  rw [ceStatus]
  split_ifs <;> decide

theorem CostLogRow.owns_of (hstatus : row.status ≠ .ok) (herror : row.error ≠ none)
    (hwindow : row.windowDays = none) (log : List CostLogRow) : row.Owns log where
  status := hstatus
  error := herror
  window := hwindow
  backfilled read := by
    rw [Cost.backfilled, Cost.backfilled, List.filter_cons_of_neg (by simpa using hstatus)]

/-- A read that no limit cut off ends with a page that has no token. -/
theorem readCePages_last {answers : ℕ → Except String CePage} {left made requests : ℕ}
    {pages : List CePage} (h : readCePages answers left made = .ok (pages, requests, false)) :
    ∃ page ∈ pages.getLast?, page.nextPageToken = [] := by
  induction left generalizing made pages with
  | zero => cases h
  | succ left ih =>
    rw [readCePages] at h
    split at h
    · cases h
    rename_i page hpage
    split at h
    · rename_i hlast
      cases h
      exact ⟨page, rfl, hlast⟩
    · cases hrest : readCePages answers left (made + 1) with
      | error code => rw [hrest] at h; cases h
      | ok r =>
        obtain ⟨rest, requests', truncated⟩ := r
        rw [hrest] at h
        cases h
        obtain ⟨last, hlast, htoken⟩ := ih hrest
        refine ⟨last, ?_, htoken⟩
        rw [List.getLast?_cons, hlast]
        rfl

theorem CeCloud.owned (c : CeCloud) (h : c.readAll window = false) (log : List CostLogRow) :
    (c.refreshAccount window).Owns log := by
  rw [CeCloud.readAll] at h
  rw [CeCloud.refreshAccount, CeCloud.fetch]
  cases hpages : c.pages (if window = refreshDays then maxPages else maxPagesBackfill) with
  | error code =>
    exact CostLogRow.owns_of (ceStatus_ne_ok code) (Option.some_ne_none _) rfl log
  | ok r =>
    obtain ⟨pages, requests, truncated⟩ := r
    cases truncated with
    | true =>
      have herror : CostStatus.error ≠ .ok := by decide
      exact CostLogRow.owns_of herror (Option.some_ne_none _) rfl log
    | false =>
      rw [hpages] at h
      rw [CeCloud.pages] at hpages
      split at hpages
      · cases hpages
      · obtain ⟨page, hlast, htoken⟩ := readCePages_last hpages
        change (pages.getLast?.all fun page => page.nextPageToken = []) = false at h
        rw [Option.mem_def.mp hlast, Option.all_some, htoken] at h
        cases h

theorem AzureCloud.cut_iff (c : AzureCloud) : c.Cut ↔
    ∃ pages made, c.pages = .ok (pages, made) ∧ Readable pages ∧ GoesOn pages := by
  rw [AzureCloud.pages]
  constructor
  · rintro ⟨hcredential, hsub, htoken, hleft⟩
    rw [hcredential, if_neg hsub, htoken]
    exact columnsLeft_iff.mp hleft
  · rintro ⟨pages, made, h, hrest⟩
    split at h
    · cases h
    · cases h
    rename_i hcredential
    split at h
    · cases h
    rename_i hsub
    split at h
    · cases h
    rename_i htoken
    exact ⟨hcredential, hsub, htoken, columnsLeft_iff.mpr ⟨pages, made, h, hrest⟩⟩

theorem AzureCloud.fetch_of_pages {c : AzureCloud} {pages : List AzurePayload} {made : ℕ}
    (h : c.pages = .ok (pages, made)) :
    c.fetch = (parsePages c.subscriptionId pages).map fun rows => (rows, made) := by
  rw [AzureCloud.fetch, h]
  cases hparse : parsePages c.subscriptionId pages <;>
    simp [bind, Except.bind, pure, Except.pure, Except.map, hparse]

theorem AzureCloud.owns_of_raised {c : AzureCloud} {e : FetchError} (h : c.fetch = .error e)
    (window : ℕ) (log : List CostLogRow) : (c.refreshAccount window).Owns log := by
  rw [AzureCloud.refreshAccount, h]
  exact CostLogRow.owns_of e.status_ne_ok (Option.some_ne_none _) rfl log

theorem AzureCloud.readAll_of_pages {c : AzureCloud} {pages : List AzurePayload} {made : ℕ}
    (h : c.pages = .ok (pages, made)) : c.readAll = false ↔ GoesOn pages := by
  rw [AzureCloud.readAll, h]
  change (pages.getLast?.all fun data => data.announced = []) = false ↔ _
  rw [GoesOn]
  cases pages.getLast? with
  | none => simp
  | some last => simp

theorem AzureCloud.fetch_owned_iff (c : AzureCloud) (window : ℕ) (log : List CostLogRow) :
    (c.readAll = false → (c.refreshAccount window).Owns log) ↔ ¬ c.Cut := by
  rw [AzureCloud.cut_iff]
  cases hpages : c.pages with
  | error e =>
    have hraised : c.fetch = .error e := by
      rw [AzureCloud.fetch, hpages]
      rfl
    exact iff_of_true (fun _ => AzureCloud.owns_of_raised hraised window log) (by simp)
  | ok r =>
    obtain ⟨pages, made⟩ := r
    rw [AzureCloud.readAll_of_pages hpages]
    cases hparse : parsePages c.subscriptionId pages with
    | error e =>
      have hraised : c.fetch = .error e := by
        rw [AzureCloud.fetch_of_pages hpages, hparse]
        rfl
      refine iff_of_true (fun _ => AzureCloud.owns_of_raised hraised window log) ?_
      rintro ⟨pages', made', heq, hreadable, -⟩
      cases heq
      obtain ⟨rows, hrows⟩ := (parsePages_ok_iff c.subscriptionId).mpr hreadable
      rw [hparse] at hrows
      cases hrows
    | ok rows =>
      have hok : (c.refreshAccount window).status = .ok := by
        rw [AzureCloud.refreshAccount, AzureCloud.fetch_of_pages hpages, hparse]
        rfl
      have hreadable := (parsePages_ok_iff c.subscriptionId).mp ⟨rows, hparse⟩
      constructor
      · rintro howns ⟨pages', made', heq, -, hgoes⟩
        cases heq
        exact (howns hgoes).status hok
      · intro hcut hgoes
        exact absurd ⟨pages, made, rfl, hreadable, hgoes⟩ hcut

/-- A read that leaves pages behind is logged as such exactly when it is AWS's, or is not stored, or
when no page is left behind by the answers' own count. -/
theorem CostCloud.owned_iff (cloud : CostCloud) (read : Bool) (save : SaveEnd)
    (log : List CostLogRow) : cloud.Owned read save log ↔ ¬ (cloud.Cut ∧ save = .stored) := by
  have hskip : ∀ row, log ≠ row :: log := fun row h => by simpa using congrArg List.length h
  cases cloud with
  | aws c =>
    refine iff_of_true (fun hleft row hrow => ?_) fun h => h.1
    cases save with
    | failed => exact absurd hrow (hskip row)
    | stored =>
      obtain rfl := (List.cons.inj hrow).1
      exact c.owned hleft log
    | withoutWindow =>
      obtain rfl := (List.cons.inj hrow).1
      have howns := c.owned hleft log
      refine CostLogRow.owns_of ?_ ?_ rfl log
      · exact howns.status
      · exact howns.error
  | azure c =>
    cases save with
    | failed => exact iff_of_true (fun _ row hrow => absurd hrow (hskip row)) fun h => by cases h.2
    | withoutWindow =>
      exact iff_of_true (fun _ row hrow => absurd hrow (hskip row)) fun h => by cases h.2
    | stored =>
      change _ ↔ ¬ (c.Cut ∧ _)
      rw [and_iff_left rfl, ← c.fetch_owned_iff (windowFor log read) log]
      refine imp_congr_right fun _ => ⟨fun h => h _ rfl, fun howns row hrow => ?_⟩
      obtain rfl := (List.cons.inj hrow).1
      exact howns

/-- A subscription whose every page has a link. -/
def endless : AzureCloud where
  credential := .ok true
  subscriptionId := ['s']
  token := .ok ()
  answers := fun _ => .ok
    { statusCode := 200
      body := .ok
        { properties := some
            { columns := [TagScript.lit "CostUSD", TagScript.lit "UsageDate"], rows := []
              nextLink := ['n'] }
          bare := ⟨[], [], []⟩ } }

/-- The twelfth page announces another, and the row says that the read was fine. -/
theorem endless_notOwned : ¬ (CostCloud.azure endless).Owned true .stored [] := by
  intro h
  have howns := h (by decide) _ rfl
  exact howns.status (by decide)

end Refresh

end MonitoringHub.Cost
