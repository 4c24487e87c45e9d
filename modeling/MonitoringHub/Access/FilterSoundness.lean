import Mathlib.Data.Fintype.EquivFin
import MonitoringHub.Lib.Text
import MonitoringHub.Access.FilterViews

/-! The list filter against the decision on one row. A grant is spread over the filter
by dimension, so rows come through that no grant covers; a denial is taken out of the
lists text by text, so it is lost where the database has two texts for one region. -/

namespace MonitoringHub.Access

/-- Only cloud, account, region and service decide. -/
def Scope.plain (s : Scope) : Bool :=
  !(restricts s.resourceGroups || restricts s.resourceIds || restricts s.tagSelector)

section Rows
variable {s : Scope} {a : Account} {row : Row}

theorem Scope.plain_iff : s.plain = true ↔ restricts s.resourceGroups = false ∧
    restricts s.resourceIds = false ∧ restricts s.tagSelector = false := by
  simp [plain, and_assoc]

theorem Scope.touches_iff : s.touches a = true ↔
    (∀ id, s.accountRefId = some id → a.id = id) ∧
      ∀ cloud, s.cloud = some cloud → a.provider = cloud := by
  simp [touches, Option.all_eq_true]

/-- A scope over a row: the account, the two listed columns, and the other dimensions. -/
theorem Scope.covers_row (hrow : row.accountId = a.id) :
    s.covers (row.target a.provider) = true ↔ s.touches a = true ∧
      dimCovers s.regions row.region = true ∧ dimCovers s.services (some row.resourceType) = true ∧
      dimCovers s.resourceGroups row.resourceGroup = true ∧
      dimCovers s.resourceIds (some row.resourceId) = true ∧
      tagsCover s.tagSelector (row.target a.provider) = true := by
  rw [covers_iff, touches_iff]
  simp only [Row.target, Option.some.injEq, hrow]
  tauto

theorem Scope.covers_of_plain (hrow : row.accountId = a.id) (hplain : s.plain = true) :
    s.covers (row.target a.provider) = true ↔ s.touches a = true ∧
      dimCovers s.regions row.region = true ∧
      dimCovers s.services (some row.resourceType) = true := by
  obtain ⟨hgroups, hids, htags⟩ := plain_iff.mp hplain
  rw [covers_row hrow]
  simp [dimCovers_none hgroups, dimCovers_none hids, tagsCover_none htags]

/-- A region list restricted to regions covers by region alone. -/
theorem Scope.covers_of_regionOnly (hrow : row.accountId = a.id) (honly : s.regionOnly = true) :
    s.covers (row.target a.provider) = true ↔ s.touches a = true ∧
      ∃ region ∈ s.regions.getD [], row.region = some region := by
  simp only [regionOnly, precise, Bool.and_eq_true, Bool.not_eq_true', Bool.or_eq_false_iff] at honly
  obtain ⟨⟨⟨⟨hservices, hgroups⟩, hids⟩, htags⟩, hregions⟩ := honly
  obtain ⟨listed, hlisted⟩ := Option.isSome_iff_exists.mp hregions
  have hplain : s.plain = true := plain_iff.mpr ⟨hgroups, hids, htags⟩
  rw [covers_of_plain hrow hplain, dimCovers_some hlisted, dimCovers_none hservices,
    (restriction_some.mp hlisted).1]
  simp

end Rows

section Grants
variable {collate : String → String} {accounts : Accounts} {bindings : List Binding}
  {permission : String} {a : Account}

/-- Whatever region one grant opens on an account and whatever service another one names,
some grant covers that region and that service there, with no other restriction. -/
def CombinationsGranted (collate : String → String) (accounts : Accounts) (bindings : List Binding)
    (permission : String) : Prop :=
  ∀ a ∈ accounts.rows, ∀ b₁ ∈ bindings, ∀ b₂ ∈ bindings,
    permission ∈ b₁.permissions → permission ∈ b₂.permissions → b₁.scope.reaches a = true →
    ∀ region service, dimShown collate b₁.scope.regions region = true →
      dimShown collate b₂.scope.services (some service) = true →
      ∃ b ∈ bindings, permission ∈ b.permissions ∧ b.scope.plain = true ∧
        b.scope.touches a = true ∧ dimCovers b.scope.regions region = true ∧
        dimCovers b.scope.services (some service) = true

theorem mem_relevantScopes {s : Scope} {denials : List Denial} :
    s ∈ relevantScopes ⟨bindings, denials⟩ (some permission) ↔
      ∃ b ∈ bindings, permission ∈ b.permissions ∧ b.scope = s := by
  simp [relevantScopes, and_assoc]

/-- Without denials a row is shown when one grant opens its region on its account and one
names its service. -/
theorem shown_by_grants (ha : a ∈ accounts.rows) {row : Row} (hrow : row.accountId = a.id) :
    (accessibleFilter accounts ⟨bindings, []⟩ (some permission)).admits collate row ↔
      (∃ b ∈ bindings, permission ∈ b.permissions ∧ b.scope.reaches a = true ∧
        dimShown collate b.scope.regions row.region = true) ∧
      ∃ b ∈ bindings, permission ∈ b.permissions ∧
        dimShown collate b.scope.services (some row.resourceType) = true := by
  have hview : accountView (relevantScopes ⟨bindings, []⟩ (some permission)) [] a =
      grantedView (relevantScopes ⟨bindings, []⟩ (some permission)) a := rfl
  rw [accessibleFilter_admits ha hrow]
  simp only [applicableDenials, List.filter_nil, List.filterMap_nil, List.not_mem_nil,
    false_implies, implies_true, true_and, hview, regionShown_granted, serviceShown_merged,
    mem_relevantScopes]
  constructor
  · rintro ⟨⟨s₁, ⟨b₁, hb₁, hp₁, rfl⟩, hopen⟩, s₂, ⟨b₂, hb₂, hp₂, rfl⟩, hnamed⟩
    exact ⟨⟨b₁, hb₁, hp₁, hopen⟩, b₂, hb₂, hp₂, hnamed⟩
  · rintro ⟨⟨b₁, hb₁, hp₁, hopen⟩, b₂, hb₂, hp₂, hnamed⟩
    exact ⟨⟨_, ⟨b₁, hb₁, hp₁, rfl⟩, hopen⟩, _, ⟨b₂, hb₂, hp₂, rfl⟩, hnamed⟩

/-- A row of which nothing is known but its account, region and type: no resource group,
and one text for its id and all its tags. -/
def strangerRow (a : Account) (region : Option String) (service text : String)
    (keys : List String) : Row where
  accountId := a.id
  region := region
  resourceType := service
  resourceId := text
  resourceGroup := none
  tags := some (keys.map fun key => (key, some text))

theorem strangerRow_tag {region : Option String} {service text key : String} {keys : List String}
    {provider : Cloud} (hkey : key ∈ keys) :
    ((strangerRow a region service text keys).target provider).tag key = some text := by
  rw [Target.tag_of_keys (f := fun _ => some text) rfl, if_pos hkey]

/-- Only a plain scope covers a row whose id and tags it does not name. -/
theorem Scope.covers_stranger {s : Scope} {region : Option String} {service text : String}
    {keys : List String} {provider : Cloud} (hnew : text ∉ s.named)
    (hkeys : ∀ key ∈ s.tagKeys, key ∈ keys)
    (hcovers : s.covers ((strangerRow a region service text keys).target provider) = true) :
    s.plain = true := by
  obtain ⟨-, -, -, -, hgroups, hids, htags⟩ := covers_iff.mp hcovers
  refine plain_iff.mpr ⟨?_, ?_, ?_⟩
  · rw [restricts_false]
    cases hdim : restriction s.resourceGroups with
    | none => rfl
    | some listed =>
      obtain ⟨v, -, hv⟩ := (dimCovers_some hdim).mp hgroups
      cases hv
  · rw [restricts_false]
    cases hdim : restriction s.resourceIds with
    | none => rfl
    | some listed =>
      obtain ⟨v, hmem, hv⟩ := (dimCovers_some hdim).mp hids
      obtain rfl : text = v := Option.some.inj hv
      exact absurd (by simp [named, (restriction_some.mp hdim).1, hmem]) hnew
  · rw [restricts_false]
    cases hdim : restriction s.tagSelector with
    | none => rfl
    | some selector =>
      obtain ⟨hselector, hne⟩ := restriction_some.mp hdim
      obtain ⟨⟨key, allowed⟩, rest, rfl⟩ := List.exists_cons_of_ne_nil hne
      have hkey : key ∈ keys := hkeys key (by simp [tagKeys, hselector])
      have hallowed : some text ∈ allowed.list := by
        have hfirst := (tagsCover_some hdim).mp htags (key, allowed) List.mem_cons_self
        rwa [strangerRow_tag hkey] at hfirst
      exact absurd (by simp [named, hselector, hallowed]) hnew

/-- Every row the filter shows is granted exactly if the grants are closed under mixing. -/
theorem shown_rows_granted_iff (collate : String → String) (accounts : Accounts)
    (bindings : List Binding) (permission : String) :
    (∀ a ∈ accounts.rows, ∀ row : Row, row.accountId = a.id →
      (accessibleFilter accounts ⟨bindings, []⟩ (some permission)).admits collate row →
      can ⟨bindings, []⟩ permission (row.target a.provider) = true) ↔
    CombinationsGranted collate accounts bindings permission := by
  constructor
  · intro hshown a ha b₁ hb₁ b₂ hb₂ hp₁ hp₂ hreach region service hregion hservice
    -- a text that no grant mentions
    obtain ⟨text, hnew⟩ :=
      Infinite.exists_notMem_finset (bindings.flatMap fun b => b.scope.named).toFinset
    rw [List.mem_toFinset] at hnew
    let row := strangerRow a region service text (bindings.flatMap fun b => b.scope.tagKeys)
    have hadmits : (accessibleFilter accounts ⟨bindings, []⟩ (some permission)).admits collate row :=
      (shown_by_grants ha rfl).mpr ⟨⟨b₁, hb₁, hp₁, hreach, hregion⟩, b₂, hb₂, hp₂, hservice⟩
    obtain ⟨b, hb, hp, hcovers⟩ := can_of_no_denials.mp (hshown a ha row rfl hadmits)
    have hplain : b.scope.plain = true := by
      refine Scope.covers_stranger (fun hmem => hnew ?_) (fun key hkey => ?_) hcovers
      · exact List.mem_flatMap.mpr ⟨b, hb, hmem⟩
      · exact List.mem_flatMap.mpr ⟨b, hb, hkey⟩
    exact ⟨b, hb, hp, hplain, (Scope.covers_of_plain rfl hplain).mp hcovers⟩
  · intro hclosed a ha row hrow hadmits
    obtain ⟨⟨b₁, hb₁, hp₁, hreach, hregion⟩, b₂, hb₂, hp₂, hservice⟩ :=
      (shown_by_grants ha hrow).mp hadmits
    obtain ⟨b, hb, hp, hplain, hcovers⟩ :=
      hclosed a ha b₁ hb₁ b₂ hb₂ hp₁ hp₂ hreach _ _ hregion hservice
    exact can_of_no_denials.mpr
      ⟨b, hb, hp, (Scope.covers_of_plain hrow hplain).mpr hcovers⟩

/-- RDS on one account and EC2 on another: the filter shows the EC2 rows of both. -/
theorem ungranted_row_shown :
    let accounts : Accounts := ⟨[⟨1, .aws⟩, ⟨2, .aws⟩], by decide⟩
    let bindings : List Binding :=
      [⟨["alerts.view"], ⟨none, some 1, none, some ["rds"], none, none, none⟩⟩,
        ⟨["alerts.view"], ⟨none, some 2, none, some ["ec2"], none, none, none⟩⟩]
    let row : Row := ⟨1, some "ap-south-1", "ec2", "i-1", none, none⟩
    (accessibleFilter accounts ⟨bindings, []⟩ (some "alerts.view")).admits id row ∧
      can ⟨bindings, []⟩ "alerts.view" (row.target .aws) = false := by
  decide +kernel

end Grants

section Denials
variable {collate : String → String} {scopes denied : List Scope} {a : Account}

/-- The account is seen through region lists: every grant on it lists regions, and every
denial on it names regions and nothing else. -/
structure SeenByRegion (scopes denied : List Scope) (a : Account) : Prop where
  granted : ∀ s ∈ scopes, s.reaches a = true → restricts s.regions = true
  denied : ∀ d ∈ denied, d.touches a = true → d.regionOnly = true

/-- A region text that a grant lists on the account and no denial names there. -/
def LeftOn (scopes denied : List Scope) (a : Account) (region : String) : Prop :=
  (∃ s ∈ scopes, s.reaches a = true ∧ region ∈ s.regions.getD []) ∧
    ∀ d ∈ denied, d.touches a = true → region ∉ d.regions.getD []

theorem foldl_widen_listed (ss : List Scope) (h : ∀ s ∈ ss, restricts s.regions = true)
    (listed : List String) : ∃ regions, ss.foldl widen (some (some listed)) = some (some regions) ∧
      ∀ region, region ∈ regions ↔ region ∈ listed ∨ ∃ s ∈ ss, region ∈ s.regions.getD [] := by
  induction ss generalizing listed with
  | nil => exact ⟨listed, rfl, by simp⟩
  | cons s ss ih =>
    obtain ⟨new, hnew⟩ := Option.isSome_iff_exists.mp (h s List.mem_cons_self)
    obtain ⟨regions, hfold, hmem⟩ :=
      ih (fun s' hs' => h s' (List.mem_cons_of_mem _ hs')) (listed ++ new)
    have hstep : widen (some (some listed)) s = some (some (listed ++ new)) := by
      simp only [widen, hnew]
    refine ⟨regions, by rw [List.foldl_cons, hstep, hfold], fun region => ?_⟩
    rw [hmem, List.mem_append, or_assoc, List.exists_mem_cons_iff, (restriction_some.mp hnew).1,
      Option.getD_some]

/-- An account whose grants all list regions holds the regions they list. -/
theorem grantedView_listed (hgranted : ∀ s ∈ scopes, s.reaches a = true → restricts s.regions = true)
    (hreach : ∃ s ∈ scopes, s.reaches a = true) : ∃ regions,
      grantedView scopes a = some (some regions) ∧
      ∀ region, region ∈ regions ↔ ∃ s ∈ scopes, s.reaches a = true ∧ region ∈ s.regions.getD [] := by
  have hmem : ∀ s, s ∈ scopes.filter (fun s => s.reaches a) ↔ s ∈ scopes ∧ s.reaches a = true :=
    fun s => List.mem_filter
  rw [grantedView]
  cases hfilter : scopes.filter (fun s => s.reaches a) with
  | nil =>
    obtain ⟨s, hs, hsr⟩ := hreach
    have := (hmem s).mpr ⟨hs, hsr⟩
    rw [hfilter] at this
    cases this
  | cons s ss =>
    rw [hfilter] at hmem
    have hrestricts : ∀ s' ∈ s :: ss, restricts s'.regions = true := fun s' hs' =>
      hgranted s' ((hmem s').mp hs').1 ((hmem s').mp hs').2
    obtain ⟨new, hnew⟩ := Option.isSome_iff_exists.mp (hrestricts s List.mem_cons_self)
    obtain ⟨regions, hfold, hregions⟩ :=
      foldl_widen_listed ss (fun s' hs' => hrestricts s' (List.mem_cons_of_mem _ hs')) new
    have hstep : widen none s = some (some new) := by simp only [widen, hnew]
    refine ⟨regions, by rw [List.foldl_cons, hstep, hfold], fun region => ?_⟩
    have hfirst : new = s.regions.getD [] := by rw [(restriction_some.mp hnew).1, Option.getD_some]
    rw [hregions, hfirst]
    calc (region ∈ s.regions.getD [] ∨ ∃ s' ∈ ss, region ∈ s'.regions.getD []) ↔
        ∃ s' ∈ s :: ss, region ∈ s'.regions.getD [] :=
          (List.exists_mem_cons_iff (fun s' : Scope => region ∈ s'.regions.getD []) s ss).symm
      _ ↔ ∃ s' ∈ scopes, s'.reaches a = true ∧ region ∈ s'.regions.getD [] := by
        simp only [hmem, and_assoc]

theorem foldl_narrow_none (ss : List Scope) : ss.foldl narrow none = none := by
  induction ss with
  | nil => rfl
  | cons s ss ih => rw [List.foldl_cons, show narrow none s = none by simp [narrow], ih]

/-- Taking denials out of a list leaves the texts that none of them names. -/
theorem regionShown_narrowed (ss : List Scope) (listed : List String) (region : Option String) :
    regionShown collate (ss.foldl narrow (some (some listed))) region = true ↔
      (∀ d ∈ ss, d.regionOnly = true) ∧ ∃ left ∈ listed, (∀ d ∈ ss, left ∉ d.regions.getD []) ∧
        ∃ text, region = some text ∧ collate left = collate text := by
  induction ss generalizing listed with
  | nil => cases region <;> simp [regionShown, listedIn]
  | cons d ss ih =>
    rw [List.foldl_cons]
    by_cases honly : d.regionOnly = true
    · have hmem : ∀ left, left ∈ remainingRegions d listed ↔
          left ∈ listed ∧ left ∉ d.regions.getD [] := by
        intro left
        simp [remainingRegions]
      have hstep : regionShown collate (ss.foldl narrow (narrow (some (some listed)) d)) region =
          regionShown collate (ss.foldl narrow (some (some (remainingRegions d listed)))) region := by
        cases hleft : remainingRegions d listed with
        | cons left rest => simp only [narrow, if_pos honly, Option.join_some, hleft]
        | nil =>
          have hgone : narrow (some (some listed)) d = none := by
            simp only [narrow, if_pos honly, Option.join_some, hleft]
          rw [hgone, foldl_narrow_none, Bool.eq_iff_iff, ih]
          simp [regionShown]
      rw [hstep, ih]
      simp only [hmem, List.forall_mem_cons, honly, true_and, and_assoc]
    · have hgone : narrow (some (some listed)) d = none := by rw [narrow, if_neg honly]
      rw [hgone, foldl_narrow_none]
      simp [regionShown, honly]

/-- Where a denial is about the account, the view shows the regions left on it, up to the
collation, and nothing unless the account is seen by region. -/
theorem regionShown_accountView (hdenied : ∃ d ∈ denied, d.touches a = true)
    (region : Option String) : regionShown collate (accountView scopes denied a) region = true ↔
      SeenByRegion scopes denied a ∧ ∃ left, LeftOn scopes denied a left ∧
        ∃ text, region = some text ∧ collate left = collate text := by
  obtain ⟨d₀, hd₀, htouch⟩ := hdenied
  have hmem : ∀ d, d ∈ denied.filter (fun d => d.touches a) ↔ d ∈ denied ∧ d.touches a = true :=
    fun d => List.mem_filter
  by_cases hgranted : ∀ s ∈ scopes, s.reaches a = true → restricts s.regions = true
  · by_cases hreach : ∃ s ∈ scopes, s.reaches a = true
    · obtain ⟨regions, hview, hregions⟩ := grantedView_listed hgranted hreach
      rw [accountView, hview, regionShown_narrowed]
      simp only [hmem, hregions, and_imp]
      constructor
      · rintro ⟨honly, left, hleft, hunnamed, hsame⟩
        exact ⟨⟨hgranted, honly⟩, left, ⟨hleft, hunnamed⟩, hsame⟩
      · rintro ⟨hseen, left, ⟨hleft, hunnamed⟩, hsame⟩
        exact ⟨hseen.denied, left, hleft, hunnamed, hsame⟩
    · have hview : grantedView scopes a = none := by
        rw [grantedView, List.filter_eq_nil_iff.mpr fun s hs hsr => hreach ⟨s, hs, hsr⟩]
        rfl
      rw [accountView, hview, foldl_narrow_none]
      refine iff_of_false (by simp [regionShown]) ?_
      rintro ⟨-, left, ⟨⟨s, hs, hsr, -⟩, -⟩, -⟩
      exact hreach ⟨s, hs, hsr⟩
  · -- some grant opens every region, and no denial leaves a list of that
    have hview : grantedView scopes a = some none := by
      obtain ⟨s, hs, hsr, hopen⟩ :
          ∃ s ∈ scopes, s.reaches a = true ∧ restricts s.regions = false := by
        simpa using hgranted
      exact foldl_widen_all _ _ (.inr ⟨s, List.mem_filter.mpr ⟨hs, hsr⟩, hopen⟩)
    refine iff_of_false ?_ fun h => hgranted h.1.granted
    rw [accountView, hview]
    cases hfilter : denied.filter (fun d => d.touches a) with
    | nil =>
      have := (hmem d₀).mpr ⟨hd₀, htouch⟩
      rw [hfilter] at this
      cases this
    | cons d ds =>
      rw [List.foldl_cons, show narrow (some none) d = none by simp [narrow], foldl_narrow_none]
      simp [regionShown]

/-- A region left on the account that the database takes for a denied one. -/
def Lookalike (collate : String → String) (scopes denied : List Scope) (a : Account) : Prop :=
  SeenByRegion scopes denied a ∧ ∃ left, LeftOn scopes denied a left ∧
    ∃ d ∈ denied, d.touches a = true ∧ ∃ text ∈ d.regions.getD [], collate left = collate text

/-- If equal sort keys mean equal texts, as in a binary collation, nothing looks alike. -/
theorem not_lookalike (hcollate : ∀ x y, collate x = collate y → x = y) :
    ¬ Lookalike collate scopes denied a := by
  rintro ⟨-, left, ⟨-, hunnamed⟩, d, hd, htouch, text, htext, hsame⟩
  obtain rfl := hcollate left text hsame
  exact hunnamed d hd htouch htext

/-- A granted service type: some row type passes the merged services. -/
theorem exists_service_shown (collate : String → String) (hscopes : scopes ≠ []) :
    ∃ service, serviceShown collate (serviceView scopes) service = true := by
  obtain ⟨s, rest, rfl⟩ := List.exists_cons_of_ne_nil hscopes
  cases hdim : restriction s.services with
  | none =>
    refine ⟨"", (serviceShown_merged _ _).mpr ⟨s, List.mem_cons_self, ?_⟩⟩
    rw [dimShown, hdim]
  | some listed =>
    obtain ⟨service, names, rfl⟩ := List.exists_cons_of_ne_nil (restriction_some.mp hdim).2
    refine ⟨service, (serviceShown_merged _ _).mpr ⟨s, List.mem_cons_self, ?_⟩⟩
    simp [dimShown, hdim, listedIn]

theorem mem_applicableDenials {access : ResolvedAccess} {permission : String} {d : Denial} :
    d ∈ applicableDenials access (some permission) ↔
      d ∈ access.denials ∧ d.permissionCode = permission := by
  simp [applicableDenials]

/-- No denied row is shown exactly if, unless a denial covers everything, no account has a
region left on it that the database takes for a denied one. -/
theorem no_denied_row_shown_iff (collate : String → String) (accounts : Accounts)
    (access : ResolvedAccess) (permission : String) :
    (∀ a ∈ accounts.rows, ∀ row : Row, row.accountId = a.id →
      (accessibleFilter accounts access (some permission)).admits collate row →
      ∀ d ∈ access.denials, d.applies permission (row.target a.provider) = false) ↔
    ((∀ d ∈ applicableDenials access (some permission), d.scope ≠ none) →
      ∀ a ∈ accounts.rows, ¬ Lookalike collate (relevantScopes access (some permission))
        ((applicableDenials access (some permission)).filterMap Denial.scope) a) := by
  constructor
  · rintro hshown hscoped a ha ⟨hseen, left, hleft, s, hs, htouch, text, htext, hsame⟩
    obtain ⟨d, hd, hscope⟩ := List.mem_filterMap.mp hs
    obtain ⟨hrecorded, hcode⟩ := mem_applicableDenials.mp hd
    have hgrants : relevantScopes access (some permission) ≠ [] := by
      obtain ⟨⟨g, hg, -⟩, -⟩ := hleft
      exact List.ne_nil_of_mem hg
    obtain ⟨service, hservice⟩ := exists_service_shown collate hgrants
    let row := strangerRow a (some text) service "" []
    have hadmits : (accessibleFilter accounts access (some permission)).admits collate row :=
      (accessibleFilter_admits ha rfl).mpr ⟨hscoped, (regionShown_accountView
        ⟨s, hs, htouch⟩ _).mpr ⟨hseen, left, hleft, text, rfl, hsame⟩, hservice⟩
    have hcovers : s.covers (row.target a.provider) = true :=
      (Scope.covers_of_regionOnly rfl (hseen.denied s hs htouch)).mpr ⟨htouch, text, htext, rfl⟩
    have hnot := hshown a ha row rfl hadmits d hrecorded
    simp [Denial.applies, hcode, hscope, hcovers] at hnot
  · intro hclear a ha row hrow hadmits d hrecorded
    obtain ⟨hscoped, hregion, -⟩ := (accessibleFilter_admits ha hrow).mp hadmits
    by_contra happlies
    simp only [Denial.applies, Bool.not_eq_false, Bool.and_eq_true, decide_eq_true_eq] at happlies
    obtain ⟨hcode, hall⟩ := happlies
    have hd := mem_applicableDenials.mpr ⟨hrecorded, hcode⟩
    obtain ⟨s, hscope⟩ := Option.ne_none_iff_exists'.mp (hscoped d hd)
    have hs : s ∈ (applicableDenials access (some permission)).filterMap Denial.scope :=
      List.mem_filterMap.mpr ⟨d, hd, hscope⟩
    have hcovers : s.covers (row.target a.provider) = true := by simpa [hscope] using hall
    have htouch : s.touches a = true := ((Scope.covers_row hrow).mp hcovers).1
    obtain ⟨hseen, left, hleft, text, hregion, hsame⟩ :=
      (regionShown_accountView ⟨s, hs, htouch⟩ _).mp hregion
    obtain ⟨-, text', htext, hregion'⟩ :=
      (Scope.covers_of_regionOnly hrow (hseen.denied s hs htouch)).mp hcovers
    obtain rfl := Option.some.inj (hregion.symm.trans hregion')
    exact hclear hscoped a ha ⟨hseen, left, hleft, s, hs, htouch, text, htext, hsame⟩

/-- A grant that spells the region in capitals outlives the denial of it. -/
theorem denied_row_shown :
    let accounts : Accounts := ⟨[⟨1, .aws⟩], by decide⟩
    let grant : Scope := ⟨none, none, some ["AP-SOUTH-1"], none, none, none, none⟩
    let denial : Denial :=
      ⟨"alerts.view", some ⟨none, none, some ["ap-south-1"], none, none, none, none⟩⟩
    let access : ResolvedAccess := ⟨[⟨["alerts.view"], grant⟩], [denial]⟩
    let row : Row := ⟨1, some "ap-south-1", "ec2", "i-1", none, none⟩
    (accessibleFilter accounts access (some "alerts.view")).admits Lib.Text.lower row ∧
      denial.applies "alerts.view" (row.target .aws) = true := by
  decide +kernel

end Denials

section Allowed
variable {collate : String → String} {s : Scope} {a : Account}

/-- What a dimension covers it shows, whatever texts the database takes for equal. -/
theorem dimShown_of_covers {dim : Option (List String)} {value : Option String}
    (h : dimCovers dim value = true) : dimShown collate dim value = true := by
  cases hdim : restriction dim with
  | none => simp only [dimShown, hdim]
  | some listed =>
    obtain ⟨text, hmem, rfl⟩ := (dimCovers_some hdim).mp h
    simp only [dimShown, hdim, Option.any_some, listedIn, List.any_eq_true, decide_eq_true_eq]
    exact ⟨text, hmem, rfl⟩

theorem Scope.reaches_of_touches (h : s.touches a = true) : s.reaches a = true := by
  obtain ⟨hpinned, hcloud⟩ := touches_iff.mp h
  unfold reaches
  split
  · rename_i id hid
    exact decide_eq_true (hpinned id hid)
  · exact Option.all_eq_true _ _ |>.mpr fun cloud hc => decide_eq_true (hcloud cloud hc)

/-- The grant that covers a row opens its region and its type, and the merge of all grants
only ever opens more. -/
theorem allowed_rows_shown (collate : String → String) (accounts : Accounts)
    (access : ResolvedAccess) (permission : String)
    (hdenials : applicableDenials access (some permission) = []) (a : Account)
    (ha : a ∈ accounts.rows) (row : Row) (hrow : row.accountId = a.id)
    (hcan : can access permission (row.target a.provider) = true) :
    (accessibleFilter accounts access (some permission)).admits collate row := by
  have hdecided : ∃ b ∈ access.bindings, permission ∈ b.permissions ∧
      b.scope.covers (row.target a.provider) = true := by
    unfold can at hcan
    split at hcan
    · cases hcan
    · simpa only [List.any_eq_true, Bool.and_eq_true, List.contains_iff_mem] using hcan
  obtain ⟨b, hb, hp, hcovers⟩ := hdecided
  have hscope : b.scope ∈ relevantScopes access (some permission) :=
    mem_relevantScopes.mpr ⟨b, hb, hp, rfl⟩
  obtain ⟨htouch, hregion, hservice, -⟩ := (Scope.covers_row hrow).mp hcovers
  rw [accessibleFilter_admits ha hrow, hdenials]
  refine ⟨fun d hd => absurd hd List.not_mem_nil, ?_, ?_⟩
  · exact (regionShown_granted _ a row.region).mpr
      ⟨b.scope, hscope, Scope.reaches_of_touches htouch, dimShown_of_covers hregion⟩
  · exact (serviceShown_merged _ row.resourceType).mpr
      ⟨b.scope, hscope, dimShown_of_covers hservice⟩

/-- A grant on one region and one on every region of the same account, with a denial of
another permission. -/
theorem allowed_rows_shown_twice :
    (accessibleFilter ⟨[⟨1, .aws⟩, ⟨2, .gcp⟩], by decide⟩
      ⟨[⟨["alerts.view"], ⟨some .aws, none, some ["ap-south-1"], some ["ec2"], none, none, none⟩⟩,
          ⟨["alerts.view"], ⟨none, some 1, none, some ["rds"], none, some ["db-1"], none⟩⟩],
        [⟨"alerts.resolve", none⟩]⟩ (some "alerts.view")).admits id
      ⟨1, some "us-east-1", "rds", "db-1", none, none⟩ :=
  allowed_rows_shown id _ _ "alerts.view" (by decide +kernel) ⟨1, .aws⟩ (by decide) _ rfl
    (by decide +kernel)

end Allowed

end MonitoringHub.Access
