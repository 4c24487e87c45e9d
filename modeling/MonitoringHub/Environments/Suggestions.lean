import Mathlib.Data.Finset.Card
import Mathlib.Data.List.Dedup
import MonitoringHub.Environments.ResolveEnvironment

/-! Suggestions for resources that nothing could place. Siblings that rest on evidence of their
own are indexed by application, by stack and by the first tokens of their names; each basis puts
the siblings it finds to a vote, and what the votes agree on is proposed. -/

namespace MonitoringHub.Environments
open Alerts Lib Lib.Pattern KeyedStore

/-- A tag value as JSON has it: `null`, a text, or what `str` shows of another value. -/
inductive TagValue
  | null
  | text (s : String)
  | other (shown : String) (truthy : Bool)
  deriving DecidableEq

namespace TagValue

def shown : TagValue → String
  | null => "None"
  | text s => s
  | other s _ => s

def truthy : TagValue → Bool
  | null => false
  | text s => s ≠ ""
  | other _ b => b

end TagValue

abbrev TagDict := List (String × TagValue)

/-- A resource to place. -/
structure Target where
  resourceId : Option String
  name : Option String
  tags : TagDict

/-- Another resource of the account; `env` is there if it is one of the two environments. -/
structure Sibling extends Target where
  id : Option String
  env : Option Tier
  source : Source

/-- A sibling that counts, with its environment. -/
structure Evidence extends Target where
  id : Option String
  env : Tier

inductive Confidence
  | low | medium | high
  deriving DecidableEq

/-- What brought siblings together: an application, a stack, or the start of their names. -/
inductive Basis
  | application | stack | nameStart
  deriving DecidableEq

structure Suggestion where
  env : Tier
  confidence : Confidence
  basis : Basis
  reason : String
  evidence : ℕ
  deriving DecidableEq

def suggestionSources : List Source := [.manual, .tag, .name]

def applicationTagKeys : List (List Char) :=
  ["application", "app", "application_name"].map String.toList

def stackTagKeys : List (List Char) :=
  ["aws:cloudformation:stack_name", "aws:autoscaling:groupname",
    "elasticbeanstalk:environment_name"].map String.toList

def minStartChars : ℕ := 5

/-- `a or b` for texts that may be missing. -/
def orText (a b : Option String) : Option String := (a.filter (· ≠ "")).or b

/-- Leading name tokens, without the words that name an environment and bare numbers. -/
def nameTokens (text : Option String) : List (List Char) :=
  match text.filter (· ≠ "") with
  | none => []
  | some t =>
    let s := sub nonProd [' '] (sub preProd [' '] t.toList)
    let cut := sub devOps " devops ".toList (camelCut s)
    ((tokens cut).map fun token => token.map Char.toLower).filter fun low =>
      let base := dropTrailingDigits low
      !((wordTier base).isSome || base.isEmpty)

/-- `_evidence_unit`: an attached volume counts with its instance. -/
def evidenceUnit (e : Evidence) : String :=
  match (find "parent_ec2" e.tags).filter TagValue.truthy with
  | some parent => parent.shown
  | none => (orText e.resourceId e.id).getD "None"

/-- `_vote`: the one environment of the candidates, if there is one, and the evidence units. -/
def vote (candidates : List Evidence) : Option Tier × ℕ :=
  (match (candidates.map Evidence.env).dedup with
    | [env] => some env
    | _ => none,
   (candidates.map evidenceUnit).dedup.length)

def Confidence.rank : Confidence → ℕ
  | low => 0
  | medium => 1
  | high => 2

def Confidence.text : Confidence → String
  | low => "low"
  | medium => "medium"
  | high => "high"

def bump : Confidence → Confidence
  | .low => .medium
  | _ => .high

def Basis.text : Basis → String
  | application => "application"
  | stack => "stack"
  | nameStart => "prefix"

def tierWord : Tier → String
  | .prod => "prod"
  | .nonprod => "non-prod"

/-- `_shown` -/
def shownValue (value : String) : String :=
  let v := value.toList.map fun c => if c.toNat < 32 || c.toNat = 127 then ' ' else c
  if v.length ≤ 40 then String.ofList v else String.ofList (v.take 37) ++ "..."

/-- The tiers that the target's own name and id name. -/
def Target.ownTiers (target : Target) : List Tier :=
  (target.name.map scan).getD [] ++ (target.resourceId.map scan).getD []

/-- A basis with a vote that counts. -/
structure Found where
  basis : Basis
  env : Tier
  units : ℕ
  confidence : Confidence
  reason : String

/-- The sort key of what was found: the confidence, then the evidence. -/
def Found.atLeast (f g : Found) : Prop :=
  g.confidence.rank < f.confidence.rank ∨
    g.confidence.rank = f.confidence.rank ∧ g.units ≤ f.units

instance : DecidableRel Found.atLeast := fun f g =>
  inferInstanceAs (Decidable (g.confidence.rank < f.confidence.rank ∨
    g.confidence.rank = f.confidence.rank ∧ g.units ≤ f.units))

/-- The entries of an index: each item under each of its keys. -/
def indexBy {κ : Type} [DecidableEq κ] (keysOf : Evidence → List κ) (items : List Evidence) :
    List (κ × List Evidence) :=
  (items.flatMap fun e => (keysOf e).map fun k => (k, e)).foldl
    (fun store entry => appendAt entry.1 entry.2 store) []

def Sibling.counts (s : Sibling) : Option Evidence :=
  s.env.bind fun env =>
    if suggestionSources.contains s.source then some ⟨s.toTarget, s.id, env⟩ else none

/-- The starts of a name that it is indexed by. -/
def startKeys (toks : List (List Char)) : List (ℕ × List (List Char)) :=
  ([2, 3].filter (· ≤ toks.length)).map fun length => (length, toks.take length)

structure SuggestionIndex where
  byApp : List (String × List Evidence)
  byStack : List (String × List Evidence)
  byStart : List ((ℕ × List (List Char)) × List Evidence)
  size : ℕ

section Index
variable (lower : List Char → List Char)

/-- `_tag_value`; `lower` is `str.lower`. -/
def tagValue (tags : TagDict) (keys : List (List Char)) : Option String :=
  let folded := tags.foldl (fun folded tag => setDefault (foldKey tag.1) tag.2 folded) []
  keys.findSome? fun key =>
    (find key folded).bind fun v =>
      let shown := strip v.shown.toList
      if v ≠ .null ∧ shown ≠ [] then some (String.ofList (lower shown)) else none

def SuggestionIndex.build (siblings : List Sibling) : SuggestionIndex :=
  let items := siblings.filterMap Sibling.counts
  { byApp := indexBy (fun e => (tagValue lower e.tags applicationTagKeys).toList) items
    byStack := indexBy (fun e => (tagValue lower e.tags stackTagKeys).toList) items
    byStart := indexBy (fun e => startKeys (nameTokens (orText e.name e.resourceId))) items
    size := items.length }

variable (index : SuggestionIndex) (target : Target)

/-- `_others`: not the target itself. -/
def others (candidates : List Evidence) : List Evidence :=
  candidates.filter fun c => c.resourceId ≠ target.resourceId

/-- The longest start of the target's name that others share, and those others. -/
def sharedStart : Option (List (List Char) × List Evidence) :=
  let toks := nameTokens (orText target.name target.resourceId)
  ([3, 2].filter (· ≤ toks.length)).findSome? fun length =>
    let head := toks.take length
    if (head.map List.length).sum < minStartChars then none
    else
      match others target ((find (length, head) index.byStart).getD []) with
      | [] => none
      | candidates => some (head, candidates)

/-- The siblings that a basis finds. -/
def foundBy : Basis → List Evidence
  | .application =>
    ((tagValue lower target.tags applicationTagKeys).map fun v =>
      others target ((find v index.byApp).getD [])).getD []
  | .stack =>
    ((tagValue lower target.tags stackTagKeys).map fun v =>
      others target ((find v index.byStack).getD [])).getD []
  | .nameStart => ((sharedStart index target).map Prod.snd).getD []

def applicationFound : Option Found :=
  (tagValue lower target.tags applicationTagKeys).bind fun v =>
    let (env, n) := vote (others target ((find v index.byApp).getD []))
    env.map fun e => ⟨.application, e, n, if n ≥ 3 then .high else if n = 2 then .medium else .low,
      toString n ++ " other resource(s) with Application '" ++ shownValue v ++ "' are all " ++
        tierWord e⟩

def stackFound : Option Found :=
  (tagValue lower target.tags stackTagKeys).bind fun v =>
    let (env, n) := vote (others target ((find v index.byStack).getD []))
    env.map fun e => ⟨.stack, e, n, if n ≥ 2 then .high else .medium,
      toString n ++ " other resource(s) in stack or group '" ++ shownValue v ++ "' are all " ++
        tierWord e⟩

/-- The longest shared start decides; one evidence unit is not enough. -/
def startFound : Option Found :=
  (sharedStart index target).bind fun (head, candidates) =>
    let (env, n) := vote candidates
    (env.filter fun _ => n ≥ 2).map fun e => ⟨.nameStart, e, n, if n ≥ 3 then .medium else .low,
      toString n ++ " other resource(s) named '" ++ "-".intercalate (head.map String.ofList) ++
        "...' are all " ++ tierWord e⟩

def allFound : List Found :=
  (applicationFound lower index target).toList ++ (stackFound lower index target).toList ++
    (startFound index target).toList

def suggest : Option Suggestion :=
  if index.size = 0 then none
  else
    let found := allFound lower index target
    if (found.map Found.env).dedup.length > 1 then none
    else
      match (found.insertionSort Found.atLeast : List Found) with
      | [] => none
      | first :: rest =>
        let confidence := if rest = [] then first.confidence else bump first.confidence
        let reason := if rest = [] then first.reason
          else first.reason ++ "; also supported by " ++
            ", ".intercalate (rest.map fun f => f.basis.text)
        let own := target.ownTiers
        if own ≠ [] ∧ first.env ∉ own then none
        else some ⟨first.env, confidence, first.basis, clip reason, first.units⟩

/-- The siblings of a basis, and enough of them, are all of one environment. -/
def Carries (b : Basis) (env : Tier) : Prop :=
  (vote (foundBy lower index target b)).1 = some env ∧
    (b = .nameStart → 2 ≤ (vote (foundBy lower index target b)).2)

/-- Every sibling found, and every tier word of the target itself, is of the environment. -/
def Unanimous (env : Tier) : Prop :=
  (∀ b, ∀ e ∈ foundBy lower index target b, e.env = env) ∧ ∀ t ∈ target.ownTiers, t = env

/-- Some basis carries the environment, none another, and the target's own words allow it; but a
basis that carries none found the other environment, or the own words name both. -/
structure Overlooks (env : Tier) : Prop where
  carried : ∃ b, Carries lower index target b env
  unopposed : ∀ b env', Carries lower index target b env' → env' = env
  allowed : target.ownTiers = [] ∨ env ∈ target.ownTiers
  contrary : (∃ b, (∀ env', ¬ Carries lower index target b env') ∧
      ∃ e ∈ foundBy lower index target b, e.env ≠ env) ∨
    ∃ t ∈ target.ownTiers, t ≠ env

end Index

theorem dedup_length_le_one {α : Type*} [DecidableEq α] {l : List α} :
    l.dedup.length ≤ 1 ↔ ∀ a ∈ l, ∀ b ∈ l, a = b := by
  rw [← List.card_toFinset, Finset.card_le_one]
  simp only [List.mem_toFinset]

section Votes
variable {candidates : List Evidence} {env : Tier}

theorem vote_eq_some : (vote candidates).1 = some env ↔
    candidates ≠ [] ∧ ∀ e ∈ candidates, e.env = env := by
  have hdedup : (candidates.map Evidence.env).dedup = [env] ↔
      candidates ≠ [] ∧ ∀ e ∈ candidates, e.env = env := by
    constructor
    · intro h
      have hmem : ∀ t, t ∈ candidates.map Evidence.env ↔ t = env := by
        intro t
        rw [← List.mem_dedup, h, List.mem_singleton]
      refine ⟨?_, fun e he => (hmem _).mp (List.mem_map_of_mem he)⟩
      rintro rfl
      exact List.not_mem_nil ((hmem env).mpr rfl)
    · rintro ⟨hsome, hall⟩
      obtain ⟨e, he⟩ := List.exists_mem_of_ne_nil _ hsome
      refine List.Perm.singleton_eq ?_ |>.symm
      refine (List.perm_ext_iff_of_nodup (List.nodup_singleton _) (List.nodup_dedup _)).mpr ?_
      intro t
      rw [List.mem_dedup, List.mem_map, List.mem_singleton]
      constructor
      · rintro rfl
        exact ⟨e, he, hall e he⟩
      · rintro ⟨e', he', rfl⟩
        exact hall e' he'
  rw [← hdedup, vote]
  dsimp only
  split
  · rename_i e hone
    rw [hone]
    simp
  · rename_i hmany
    simp only [reduceCtorEq, false_iff]
    exact hmany env

end Votes

section Siblings
variable {lower : List Char → List Char} {siblings : List Sibling} {target : Target} {e : Evidence}

theorem mem_indexBy {κ : Type} [DecidableEq κ] {keysOf : Evidence → List κ}
    {items : List Evidence} {k : κ} :
    e ∈ (find k (indexBy keysOf items)).getD [] ↔ e ∈ items ∧ k ∈ keysOf e := by
  rw [indexBy, find_foldl_appendAt]
  simp only [find, Option.getD_none, List.nil_append, List.mem_map, List.mem_filter,
    List.mem_flatMap, decide_eq_true_eq, Prod.exists]
  constructor
  · rintro ⟨k', e', ⟨⟨a, ha, j, hj, heq⟩, rfl⟩, rfl⟩
    obtain ⟨rfl, rfl⟩ := Prod.mk.inj heq
    exact ⟨ha, hj⟩
  · rintro ⟨he, hk⟩
    exact ⟨k, e, ⟨⟨e, he, k, hk, rfl⟩, rfl⟩, rfl⟩

theorem mem_others {candidates : List Evidence} : e ∈ others target candidates ↔
    e ∈ candidates ∧ e.resourceId ≠ target.resourceId := by
  simp [others]

/-- What an index by the value of some tag finds for the target's value. -/
theorem mem_found_tagged {tagKeys : List (List Char)} {items : List Evidence} :
    e ∈ ((tagValue lower target.tags tagKeys).map fun v => others target ((find v
        (indexBy (fun e => (tagValue lower e.tags tagKeys).toList) items)).getD [])).getD [] ↔
      e ∈ items ∧ e.resourceId ≠ target.resourceId ∧
        ∃ v, tagValue lower target.tags tagKeys = some v ∧ tagValue lower e.tags tagKeys = some v := by
  cases tagValue lower target.tags tagKeys with
  | none => simp
  | some v =>
    rw [Option.map_some, Option.getD_some, mem_others, mem_indexBy]
    simp only [Option.mem_toList, Option.some.injEq, exists_eq_left']
    tauto

/-- The siblings found by application are those that count, are not the target and have its
application. -/
theorem mem_foundBy_application :
    e ∈ foundBy lower (.build lower siblings) target .application ↔
      e ∈ siblings.filterMap Sibling.counts ∧ e.resourceId ≠ target.resourceId ∧
        ∃ v, tagValue lower target.tags applicationTagKeys = some v ∧
          tagValue lower e.tags applicationTagKeys = some v :=
  mem_found_tagged

theorem mem_foundBy_stack :
    e ∈ foundBy lower (.build lower siblings) target .stack ↔
      e ∈ siblings.filterMap Sibling.counts ∧ e.resourceId ≠ target.resourceId ∧
        ∃ v, tagValue lower target.tags stackTagKeys = some v ∧
          tagValue lower e.tags stackTagKeys = some v :=
  mem_found_tagged

/-- A shared start is one of the target's, long enough, with all the others that have it. -/
theorem sharedStart_some {index : SuggestionIndex} {head : List (List Char)}
    {candidates : List Evidence} (h : sharedStart index target = some (head, candidates)) :
    ∃ length, (length, head) ∈ startKeys (nameTokens (orText target.name target.resourceId)) ∧
      minStartChars ≤ (head.map List.length).sum ∧ candidates ≠ [] ∧
      candidates = others target ((find (length, head) index.byStart).getD []) := by
  unfold sharedStart at h
  obtain ⟨length, hlength, hfound⟩ := List.exists_of_findSome?_eq_some h
  dsimp only at hfound
  split at hfound
  · cases hfound
  · rename_i hlong
    split at hfound
    · cases hfound
    · rename_i hsome
      obtain ⟨rfl, rfl⟩ := Prod.mk.inj (Option.some.inj hfound)
      refine ⟨length, ?_, not_lt.mp hlong, hsome, rfl⟩
      simp only [List.mem_filter, List.mem_cons, List.not_mem_nil, or_false,
        decide_eq_true_eq] at hlength
      simp only [startKeys, List.mem_map, List.mem_filter, List.mem_cons, List.not_mem_nil,
        or_false, decide_eq_true_eq]
      exact ⟨length, ⟨hlength.1.symm, hlength.2⟩, rfl⟩

/-- The siblings found by name share the start of the target's name that decides. -/
theorem mem_foundBy_nameStart :
    e ∈ foundBy lower (.build lower siblings) target .nameStart ↔
      ∃ head candidates length,
        sharedStart (.build lower siblings) target = some (head, candidates) ∧
        (length, head) ∈ startKeys (nameTokens (orText target.name target.resourceId)) ∧
        (length, head) ∈ startKeys (nameTokens (orText e.name e.resourceId)) ∧
        e ∈ siblings.filterMap Sibling.counts ∧ e.resourceId ≠ target.resourceId := by
  have hlength : ∀ {toks : List (List Char)} {length : ℕ} {head : List (List Char)},
      (length, head) ∈ startKeys toks → length = head.length := by
    intro toks length head h
    simp only [startKeys, List.mem_map, List.mem_filter, decide_eq_true_eq, Prod.mk.injEq] at h
    obtain ⟨j, ⟨-, hj⟩, rfl, rfl⟩ := h
    rw [List.length_take, min_eq_left hj]
  rw [foundBy]
  cases hstart : sharedStart (.build lower siblings) target with
  | none => simp
  | some found =>
    obtain ⟨head, candidates⟩ := found
    obtain ⟨length, hkey, -, -, hothers⟩ := sharedStart_some hstart
    rw [Option.map_some, Option.getD_some, hothers, mem_others, SuggestionIndex.build, mem_indexBy]
    constructor
    · rintro ⟨⟨hitem, hshared⟩, hne⟩
      exact ⟨head, _, length, rfl, hkey, hshared, hitem, hne⟩
    · rintro ⟨head', candidates', length', heq, -, hshared, hitem, hne⟩
      obtain ⟨rfl, -⟩ := Prod.mk.inj (Option.some.inj heq)
      rw [hlength hkey]
      rw [hlength hshared] at hshared
      exact ⟨⟨hitem, hshared⟩, hne⟩

theorem size_pos_of_foundBy {b : Basis} (h : foundBy lower (.build lower siblings) target b ≠ []) :
    (SuggestionIndex.build lower siblings).size ≠ 0 := by
  obtain ⟨e, he⟩ := List.exists_mem_of_ne_nil _ h
  have hitem : e ∈ siblings.filterMap Sibling.counts := by
    cases b with
    | application => exact (mem_foundBy_application.mp he).1
    | stack => exact (mem_foundBy_stack.mp he).1
    | nameStart =>
      obtain ⟨-, -, -, -, -, -, hitem, -⟩ := mem_foundBy_nameStart.mp he
      exact hitem
  exact (List.length_pos_of_mem hitem).ne'

end Siblings

section Found
variable {lower : List Char → List Char} {index : SuggestionIndex} {target : Target} {env : Tier}

theorem applicationFound_env : (applicationFound lower index target).map Found.env =
    (vote (foundBy lower index target .application)).1 := by
  unfold applicationFound foundBy
  cases tagValue lower target.tags applicationTagKeys with
  | none => rfl
  | some v =>
    rw [Option.bind_some, Option.map_map]
    exact congrFun Option.map_id _

theorem stackFound_env : (stackFound lower index target).map Found.env =
    (vote (foundBy lower index target .stack)).1 := by
  unfold stackFound foundBy
  cases tagValue lower target.tags stackTagKeys with
  | none => rfl
  | some v =>
    rw [Option.bind_some, Option.map_map]
    exact congrFun Option.map_id _

theorem startFound_env : (startFound index target).map Found.env =
    (vote (foundBy lower index target .nameStart)).1.filter fun _ =>
      (vote (foundBy lower index target .nameStart)).2 ≥ 2 := by
  unfold startFound foundBy
  cases sharedStart index target with
  | none => rfl
  | some found =>
    rw [Option.bind_some, Option.map_map]
    exact congrFun Option.map_id _

/-- What was found are the environments that the bases carry. -/
theorem exists_found_iff : (∃ f ∈ allFound lower index target, f.env = env) ↔
    ∃ b, Carries lower index target b env := by
  have hone : ∀ found : Option Found, (∃ f ∈ found.toList, f.env = env) ↔
      found.map Found.env = some env := by
    intro found
    cases found <;> simp
  have hbases : (∃ b, Carries lower index target b env) ↔
      Carries lower index target .application env ∨ Carries lower index target .stack env ∨
        Carries lower index target .nameStart env := by
    constructor
    · rintro ⟨b, hb⟩
      cases b with
      | application => exact Or.inl hb
      | stack => exact Or.inr (Or.inl hb)
      | nameStart => exact Or.inr (Or.inr hb)
    · rintro (h | h | h) <;> exact ⟨_, h⟩
  have hstart := @startFound_env lower index target
  rw [hbases]
  simp only [allFound, List.mem_append, or_and_right, exists_or, hone, applicationFound_env,
    stackFound_env, hstart, or_assoc, Carries, reduceCtorEq, IsEmpty.forall_iff, and_true,
    forall_const, Option.filter_eq_some_iff, decide_eq_true_eq, ge_iff_le]

/-- An environment is suggested if the bases that carry one carry it, and the target's own words
do not all name the other. -/
theorem exists_suggest_iff (hsize : (∃ b, Carries lower index target b env) → index.size ≠ 0) :
    (∃ s, suggest lower index target = some s ∧ s.env = env) ↔
      (∃ b, Carries lower index target b env) ∧
        (∀ b env', Carries lower index target b env' → env' = env) ∧
        (target.ownTiers = [] ∨ env ∈ target.ownTiers) := by
  have hfound (env : Tier) : (∃ f ∈ allFound lower index target, f.env = env) ↔
      ∃ b, Carries lower index target b env := exists_found_iff
  have hall : (∀ b env', Carries lower index target b env' → env' = env) ↔
      ∀ f ∈ allFound lower index target, f.env = env := by
    constructor
    · intro h f hf
      obtain ⟨b, hb⟩ := (hfound _).mp ⟨f, hf, rfl⟩
      exact h b _ hb
    · intro h b env' hb
      obtain ⟨f, hf, rfl⟩ := (hfound _).mpr ⟨b, hb⟩
      exact h f hf
  have hown : ¬ (target.ownTiers ≠ [] ∧ env ∉ target.ownTiers) ↔
      target.ownTiers = [] ∨ env ∈ target.ownTiers := by
    tauto
  rw [hall, ← hown]
  have hperm := List.perm_insertionSort Found.atLeast (allFound lower index target)
  unfold suggest
  constructor
  · rintro ⟨s, hs, rfl⟩
    split at hs
    · cases hs
    · dsimp only at hs
      split at hs
      · cases hs
      · rename_i hagree
        split at hs
        · cases hs
        · rename_i first rest hsorted
          split at hs
          · cases hs
          · rename_i hallowed
            obtain rfl := Option.some.inj hs
            have hfirst : first ∈ allFound lower index target :=
              hperm.mem_iff.mp (hsorted ▸ List.mem_cons_self)
            refine ⟨(hfound _).mp ⟨first, hfirst, rfl⟩, fun f hf => ?_, hallowed⟩
            exact dedup_length_le_one.mp (not_lt.mp hagree) _ (List.mem_map_of_mem hf) _
              (List.mem_map_of_mem hfirst)
  · rintro ⟨hcarried, hsame, hallowed⟩
    obtain ⟨f, hf, -⟩ := (hfound _).mpr hcarried
    have hagree : ¬ ((allFound lower index target).map Found.env).dedup.length > 1 := by
      rw [not_lt, dedup_length_le_one]
      simp only [List.forall_mem_map]
      exact fun f hf g hg => (hsame f hf).trans (hsame g hg).symm
    rw [if_neg (hsize hcarried)]
    dsimp only
    rw [if_neg hagree]
    split
    · rename_i hsorted
      exact absurd (hperm.mem_iff.mpr hf) (hsorted ▸ List.not_mem_nil)
    · rename_i first rest hsorted
      have hfirst : first.env = env :=
        hsame first (hperm.mem_iff.mp (hsorted ▸ List.mem_cons_self))
      rw [if_neg (hfirst ▸ hallowed)]
      exact ⟨_, rfl, hfirst⟩

end Found

/-- What is suggested is the environment of every sibling found and of every own word, exactly if
no environment is carried past a split or single sibling basis or past two own words. -/
theorem suggest_unanimous_iff (lower : List Char → List Char) (siblings : List Sibling)
    (target : Target) :
    (∀ s, suggest lower (.build lower siblings) target = some s →
      Unanimous lower (.build lower siblings) target s.env) ↔
        ∀ env, ¬ Overlooks lower (.build lower siblings) target env := by
  have hsize {env : Tier} : (∃ b, Carries lower (.build lower siblings) target b env) →
      (SuggestionIndex.build lower siblings).size ≠ 0 := by
    rintro ⟨b, hb, -⟩
    exact size_pos_of_foundBy (vote_eq_some.mp hb).1
  constructor
  · rintro hunanimous env ⟨hcarried, hunopposed, hallowed, hcontrary⟩
    obtain ⟨s, hs, rfl⟩ := (exists_suggest_iff hsize).mpr ⟨hcarried, hunopposed, hallowed⟩
    obtain ⟨hfound, hown⟩ := hunanimous s hs
    rcases hcontrary with ⟨b, -, e, he, hother⟩ | ⟨t, ht, hother⟩
    · exact hother (hfound b e he)
    · exact hother (hown t ht)
  · intro hnone s hs
    obtain ⟨hcarried, hunopposed, hallowed⟩ := (exists_suggest_iff hsize).mp ⟨s, hs, rfl⟩
    have hcontrary := fun h => hnone s.env ⟨hcarried, hunopposed, hallowed, h⟩
    constructor
    · intro b e he
      by_cases hb : ∃ env', Carries lower (.build lower siblings) target b env'
      · obtain ⟨env', hcarries⟩ := hb
        exact ((vote_eq_some.mp hcarries.1).2 e he).trans (hunopposed b env' hcarries)
      · by_contra hother
        exact hcontrary (Or.inl ⟨b, not_exists.mp hb, e, he, hother⟩)
    · intro t ht
      by_contra hother
      exact hcontrary (Or.inr ⟨t, ht, hother⟩)

/-- A sibling decided by its tag, with the tags that group it. -/
def taggedSibling (resourceId : String) (tags : List (String × String)) (env : Tier) : Sibling :=
  { resourceId := some resourceId
    name := none
    tags := tags.map fun tag => (tag.1, .text tag.2)
    id := none
    env := some env
    source := .tag }

def shopTarget : Target :=
  ⟨some "r9", none, [("Application", .text "Shop"),
    ("aws:cloudformation:stack-name", .text "web")]⟩

/-- The application is split, and the one sibling of the stack carries its environment. -/
theorem shop_split_overlooked :
    let lower := List.map Char.toLower
    let index := SuggestionIndex.build lower [
      taggedSibling "a1" [("Application", "shop")] .prod,
      taggedSibling "a2" [("Application", "shop")] .nonprod,
      taggedSibling "w1" [("aws:cloudformation:stack-name", "web")] .prod]
    (suggest lower index shopTarget).map (fun s => (s.env, s.basis)) = some (.prod, .stack) ∧
      (foundBy lower index shopTarget .application).map Evidence.env = [.prod, .nonprod] := by
  decide +kernel

end MonitoringHub.Environments
