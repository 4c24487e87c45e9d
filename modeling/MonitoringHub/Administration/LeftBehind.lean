import MonitoringHub.Administration.CreateUser

/-! What a failed request leaves of the user it was to create. The row is committed before the
scopes are looked at, and only a refusal of theirs deletes it again; every other failure from there
on leaves the row, and the scopes with it once they are committed. -/

namespace MonitoringHub.UserCreation
open Lib Access

/-- A request that does not succeed leaves no row of the user. -/
def AllOrNothing (e : Surroundings) (actor : Actor) (p : Payload) (t : UserTables) : Prop :=
  (createUser e actor p t).1 ≠ .ok () → ¬ (createUser e actor p t).2.Has t.nextId

/-- The rows of every other user are as they were. -/
def Untouched (id : ℕ) (t t' : UserTables) : Prop :=
  t'.users.filter (fun u => u.id ≠ id) = t.users.filter (fun u => u.id ≠ id) ∧
    t'.scopes.filter (fun g => g.userId ≠ id) = t.scopes.filter fun g => g.userId ≠ id

/-- The user's row is committed. -/
structure Inserted (e : Surroundings) : Prop where
  hashed : e.broken .hashPassword = false
  connected : e.broken .connect = false
  inserted : e.broken .insertUser = false
  committed : e.broken .commitUser = false

/-- A scope that the check of its shape raises on: a value with no `get`, or an account that cannot
be looked up in a set. -/
inductive Malformed : Json → Prop
  | notAnObject {j : Json} (h : ∀ fields, j ≠ .obj fields) : Malformed j
  | account {fields : Payload} {cloud : Cloud} {j : Json}
    (hcloud : cloudOf (field fields "cloud") = some cloud)
    (haccount : field fields "account_ref_id" = some j) (h : j.elem = none) :
    Malformed (.obj fields)

/-- The check of the scopes raises before it refuses one. -/
inductive ScopesRaise (e : Surroundings) (actor : Actor) (s : EffectiveScope) (scopes : Json) : Prop
  | accounts (h : e.broken .readAccounts = true)
  | notIterable (h : iterated scopes = none)
  | shape {before after : List Json} {j : Json}
    (hitems : iterated scopes = some (before ++ j :: after))
    (hbefore : ∀ k ∈ before, ∃ r, checkScope e.accounts k = .ok r) (h : Malformed j)
  | within {items : List Json} {requests : List ScopeRequest}
    (hitems : iterated scopes = some items)
    (hshape : checkScopes e.accounts items = .ok requests) (hrole : actor.role ≠ "admin")
    (h : scopeWithin requests s = none)

/-- What goes wrong behind the user's row without the row being deleted. -/
inductive LeftBehind (e : Surroundings) (actor : Actor) (u : NewUser) : Prop
  | actorScope (h : e.effectiveScope actor = none)
  | scopes {s : EffectiveScope} (hs : e.effectiveScope actor = some s)
    (htruthy : u.scopes.truthy = true) (h : ScopesRaise e actor s u.scopes)
  | cleanup {s : EffectiveScope} {r : Refusal} (hs : e.effectiveScope actor = some s)
    (htruthy : u.scopes.truthy = true) (h : validateScopes e actor s u.scopes = .error (.refused r))
    (hbroken : e.broken .deleteUser = true ∨ e.broken .commitDelete = true)
  | insert {s : EffectiveScope} {requests : List ScopeRequest}
    (hs : e.effectiveScope actor = some s) (htruthy : u.scopes.truthy = true)
    (h : validateScopes e actor s u.scopes = .ok requests)
    (hbroken : (∃ n < requests.length, e.broken (.insertScope n) = true) ∨
      e.broken .commitScopes = true)
  | token {s : EffectiveScope} (hs : e.effectiveScope actor = some s)
    (hvalid : u.scopes.truthy = true → ∃ requests, validateScopes e actor s u.scopes = .ok requests)
    (hbroken : welcome e u ≠ .ok ())

section Tables
variable {t : UserTables} {id : ℕ}

theorem has_insertUser (t : UserTables) (username role email : Text) :
    (t.insertUser username role email).Has t.nextId :=
  .inl ⟨_, List.mem_append_right _ (List.mem_singleton_self _), rfl⟩

theorem not_has_nextId (t : UserTables) : ¬ t.Has t.nextId := by
  rintro (⟨u, hu, hid⟩ | ⟨g, hg, hid⟩)
  · exact absurd hid (t.users_lt u hu).ne
  · exact absurd hid (t.scopes_lt g hg).ne

theorem has_insertScope (h : t.Has id) (userId : ℕ) (grant : ScopeRequest) (grantedBy : ℕ) :
    (t.insertScope userId grant grantedBy).Has id := by
  unfold UserTables.insertScope
  split
  · refine h.imp_right ?_
    rintro ⟨g, hg, hid⟩
    exact ⟨g, List.mem_append_left _ hg, hid⟩
  · exact h

theorem not_has_deleteUser (t : UserTables) (id : ℕ) : ¬ (t.deleteUser id).Has id := by
  rintro (⟨u, hu, hid⟩ | ⟨g, hg, hid⟩)
  · exact of_decide_eq_true (List.mem_filter.mp hu).2 hid
  · exact of_decide_eq_true (List.mem_filter.mp hg).2 hid

theorem Untouched.refl (id : ℕ) (t : UserTables) : Untouched id t t := ⟨rfl, rfl⟩

theorem Untouched.trans {t' t'' : UserTables} (h : Untouched id t t') (h' : Untouched id t' t'') :
    Untouched id t t'' :=
  ⟨h'.1.trans h.1, h'.2.trans h.2⟩

theorem untouched_insertUser (t : UserTables) (username role email : Text) :
    Untouched t.nextId t (t.insertUser username role email) := by
  refine ⟨?_, rfl⟩
  simp [UserTables.insertUser, List.filter_append]

theorem untouched_insertScope (t : UserTables) (id : ℕ) (grant : ScopeRequest) (grantedBy : ℕ) :
    Untouched id t (t.insertScope id grant grantedBy) := by
  unfold UserTables.insertScope
  split
  · refine ⟨rfl, ?_⟩
    simp [List.filter_append]
  · exact .refl id t

theorem untouched_deleteUser (t : UserTables) (id : ℕ) : Untouched id t (t.deleteUser id) := by
  constructor <;> simp [UserTables.deleteUser, List.filter_filter]

end Tables

section Checks
variable {accounts : Accounts} {items : List Json} {e : Surroundings} {actor : Actor}
  {s : EffectiveScope} {scopes : Json} {r : ScopeRequest} {requests : List ScopeRequest}

theorem checkLists_not_raised (r : ScopeRequest) : checkLists r ≠ .error .raised := by
  unfold checkLists
  split <;> simp

theorem checkScope_raised_iff {j : Json} :
    checkScope accounts j = .error .raised ↔ Malformed j := by
  constructor
  · intro h
    unfold checkScope at h
    split at h
    · split at h
      · cases h
      · rename_i cloud hcloud
        split at h
        · exact absurd h (checkLists_not_raised _)
        · rename_i k haccount
          split at h
          · rename_i hnone
            exact .account hcloud haccount (Option.map_eq_none_iff.mp hnone)
          · cases h
          · exact absurd h (checkLists_not_raised _)
    · rename_i hobj
      exact .notAnObject hobj
  · intro h
    cases h with
    | notAnObject h =>
      unfold checkScope
      split
      · exact absurd rfl (h _)
      · rfl
    | account hcloud haccount h =>
      have hlookup : ∀ ids, accountOf ids _ = none := fun ids => Option.map_eq_none_iff.mpr h
      simp only [checkScope, hcloud, haccount, hlookup]

theorem checkScopes_raised_iff : checkScopes accounts items = .error .raised ↔
    ∃ before j after, items = before ++ j :: after ∧
      (∀ k ∈ before, ∃ r, checkScope accounts k = .ok r) ∧ Malformed j := by
  induction items with
  | nil =>
    refine iff_of_false (by simp [checkScopes]) ?_
    rintro ⟨before, j, after, h, -⟩
    simp at h
  | cons s rest ih =>
    rw [checkScopes]
    cases hs : checkScope accounts s with
    | error f =>
      constructor
      · intro h
        cases h
        exact ⟨[], s, rest, rfl, by simp, checkScope_raised_iff.mp hs⟩
      · rintro ⟨before, j, after, h, hbefore, hj⟩
        cases before with
        | nil =>
          cases h
          rw [checkScope_raised_iff.mpr hj] at hs
          cases hs
          rfl
        | cons k before =>
          cases h
          obtain ⟨r, hr⟩ := hbefore _ (List.mem_cons_self ..)
          rw [hs] at hr
          cases hr
    | ok r =>
      have hrest : (checkScopes accounts rest).bind (fun rs => .ok (r :: rs)) = .error .raised ↔
          checkScopes accounts rest = .error .raised := by
        cases checkScopes accounts rest <;> simp [Except.bind]
      refine hrest.trans (ih.trans ⟨?_, ?_⟩)
      · rintro ⟨before, j, after, rfl, hbefore, hj⟩
        exact ⟨s :: before, j, after, rfl, List.forall_mem_cons.mpr ⟨⟨r, hs⟩, hbefore⟩, hj⟩
      · rintro ⟨before, j, after, h, hbefore, hj⟩
        cases before with
        | nil =>
          cases h
          rw [checkScope_raised_iff.mpr hj] at hs
          cases hs
        | cons k before =>
          cases h
          exact ⟨before, j, after, rfl, (List.forall_mem_cons.mp hbefore).2, hj⟩

section Shaped
variable (haccounts : ¬ e.broken .readAccounts = true)
  (hitems : iterated scopes = some items)
include haccounts hitems

theorem validateScopes_misshaped {f : Failure} (h : checkScopes e.accounts items = .error f) :
    validateScopes e actor s scopes = .error f := by
  rw [validateScopes, if_neg haccounts, hitems]
  dsimp only
  rw [h]
  rfl

theorem validateScopes_shaped (h : checkScopes e.accounts items = .ok requests) :
    validateScopes e actor s scopes =
      if actor.role = "admin" then .ok requests
      else match scopeWithin requests s with
        | none => .error .raised
        | some false => .error (.refused .outsideOwnScope)
        | some true => .ok requests := by
  rw [validateScopes, if_neg haccounts, hitems]
  dsimp only
  rw [h]
  rfl

end Shaped

theorem validateScopes_raised_iff :
    validateScopes e actor s scopes = .error .raised ↔ ScopesRaise e actor s scopes := by
  by_cases haccounts : e.broken .readAccounts = true
  · refine iff_of_true ?_ (.accounts haccounts)
    rw [validateScopes, if_pos haccounts]
  · cases hitems : iterated scopes with
    | none =>
      refine iff_of_true ?_ (.notIterable hitems)
      rw [validateScopes, if_neg haccounts, hitems]
    | some items =>
      constructor
      · intro h
        cases hshape : checkScopes e.accounts items with
        | error f =>
          rw [validateScopes_misshaped haccounts hitems hshape] at h
          cases h
          obtain ⟨before, j, after, rfl, hbefore, hj⟩ := checkScopes_raised_iff.mp hshape
          exact .shape hitems hbefore hj
        | ok requests =>
          rw [validateScopes_shaped haccounts hitems hshape] at h
          split at h
          · cases h
          · rename_i hrole
            split at h
            · rename_i hwithin
              exact .within hitems hshape hrole hwithin
            · cases h
            · cases h
      · intro h
        cases h with
        | accounts h => exact absurd h haccounts
        | notIterable h => rw [h] at hitems; cases hitems
        | @shape before after j h hbefore hj =>
          exact validateScopes_misshaped haccounts h
            (checkScopes_raised_iff.mpr ⟨before, j, after, rfl, hbefore, hj⟩)
        | within h hshape hrole hwithin =>
          rw [validateScopes_shaped haccounts h hshape, if_neg hrole, hwithin]

/-! What the checks let through has the shape that a handed-out scope has. -/

theorem checkLists_ok_iff {r' : ScopeRequest} : checkLists r = .ok r' ↔
    r = r' ∧ (r.fields.find? fun f => f.2.any fun j => !j.isList) = none := by
  unfold checkLists
  split
  · rename_i hfound
    simp [hfound]
  · rename_i hnone
    simp [hnone]

theorem validateScopeShape_requestOf {fields : Payload} {cloud : Cloud} {account : Option AccountId}
    (haccount : ∀ id ∈ account, id ∈ accounts.ofCloud cloud)
    (hlists : checkLists (requestOf fields cloud account) = .ok r) :
    validateScopeShape accounts r = none := by
  obtain ⟨rfl, hnone⟩ := checkLists_ok_iff.mp hlists
  have hcloud : (requestOf fields cloud account).cloud.bind Cloud.ofName = some cloud := by
    cases cloud <;> rfl
  have hknown : (requestOf fields cloud account).accountRefId.filter
      (fun id => !(accounts.ofCloud cloud).contains id) = none := by
    rw [Option.filter_eq_none_iff]
    intro id hid
    simpa using haccount id hid
  simp only [validateScopeShape, hcloud, hknown, hnone, Option.map_none]

theorem checkScope_shape {j : Json} (h : checkScope accounts j = .ok r) :
    validateScopeShape accounts r = none := by
  unfold checkScope at h
  split at h
  · split at h
    · cases h
    · split at h
      · exact validateScopeShape_requestOf (by simp) h
      · split at h
        · cases h
        · cases h
        · rename_i id hfound
          refine validateScopeShape_requestOf ?_ h
          rintro id' ⟨⟩
          obtain ⟨k, -, hk⟩ := Option.map_eq_some_iff.mp hfound
          exact List.mem_of_find?_eq_some hk
  · cases h

theorem checkScopes_shape (h : checkScopes accounts items = .ok requests) :
    ∀ r ∈ requests, validateScopeShape accounts r = none := by
  induction items generalizing requests with
  | nil =>
    cases h
    exact List.forall_mem_nil _
  | cons j rest ih =>
    rw [checkScopes] at h
    cases hj : checkScope accounts j with
    | error f => rw [hj] at h; cases h
    | ok r =>
      cases hrest : checkScopes accounts rest with
      | error f => rw [hj, hrest] at h; cases h
      | ok rs =>
        rw [hj, hrest] at h
        cases h
        exact List.forall_mem_cons.mpr ⟨checkScope_shape hj, ih hrest⟩

/-- What one who is not an admin gives a new user is what such a one may hand out. -/
theorem validateScopes_accepts (h : validateScopes e actor s scopes = .ok requests)
    (hrole : actor.role ≠ "admin") : Accepts e.accounts s requests := by
  have haccounts : ¬ e.broken .readAccounts = true := fun haccounts => by
    rw [validateScopes, if_pos haccounts] at h
    cases h
  cases hitems : iterated scopes with
  | none =>
    rw [validateScopes, if_neg haccounts, hitems] at h
    cases h
  | some items =>
    cases hshape : checkScopes e.accounts items with
    | error f =>
      rw [validateScopes_misshaped haccounts hitems hshape] at h
      cases h
    | ok found =>
      rw [validateScopes_shaped haccounts hitems hshape, if_neg hrole] at h
      split at h
      · cases h
      · cases h
      · rename_i hwithin
        cases h
        exact ⟨checkScopes_shape hshape, hwithin⟩

end Checks

section Requests
variable {e : Surroundings} {actor : Actor} {u : NewUser} {id n : ℕ} {c : Conn}
  {requests : List ScopeRequest}

theorem fails_eq_none {statement : Statement} :
    e.broken statement = false ↔ e.fails statement = none :=
  Option.isSome_eq_false_iff.trans Option.isNone_iff_eq_none

theorem insertScopes_failed_iff : (insertScopes e id actor requests n c).1 ≠ .ok () ↔
    (∃ k < requests.length, e.broken (.insertScope (n + k)) = true) ∨
      e.broken .commitScopes = true := by
  induction requests generalizing n c with
  | nil =>
    rw [insertScopes]
    split
    · rename_i hcommit
      exact iff_of_true (by simp) (.inr hcommit)
    · rename_i hcommit
      exact iff_of_false (by simp) (by simp [hcommit])
  | cons r rest ih =>
    rw [insertScopes, List.length_cons, Nat.exists_lt_succ_left]
    split
    · rename_i hfirst
      exact iff_of_true (by simp) (.inl (.inl hfirst))
    · rename_i hfirst
      have hshift : ∀ k, n + (k + 1) = n + 1 + k := fun k => by omega
      have hzero : ¬ e.broken (.insertScope (n + 0)) = true := hfirst
      rw [ih, or_assoc, or_iff_right hzero]
      refine or_congr_left (exists_congr fun k => and_congr_right fun _ => ?_)
      rw [hshift k]

theorem insertScopes_error {f : Failure}
    (h : (insertScopes e id actor requests n c).1 = .error f) : f = .raised := by
  induction requests generalizing n c with
  | nil =>
    rw [insertScopes] at h
    split at h <;> cases h
    rfl
  | cons r rest ih =>
    rw [insertScopes] at h
    split at h
    · cases h
      rfl
    · exact ih h

/-- What every insert of a scope keeps holds of what is committed behind the inserts. -/
theorem insertScopes_keeps {P : UserTables → Prop} (hkeep : ∀ t grant grantedBy, P t →
      P (t.insertScope id grant grantedBy)) (hcommitted : P c.committed) (hworking : P c.working) :
    P (insertScopes e id actor requests n c).2.committed := by
  induction requests generalizing n c with
  | nil =>
    rw [insertScopes]
    split
    · exact hcommitted
    · exact hworking
  | cons r rest ih =>
    rw [insertScopes]
    split
    · exact hcommitted
    · exact ih hcommitted (hkeep _ _ _ hworking)

theorem grantScopes_of_raised (h : e.effectiveScope actor = none) :
    grantScopes e actor u id c = (.error .raised, c) := by
  rw [grantScopes, h]

section Scope
variable {s : EffectiveScope} (hs : e.effectiveScope actor = some s)
include hs

theorem grantScopes_unscoped (htruthy : ¬ u.scopes.truthy = true) :
    grantScopes e actor u id c = (welcome e u, c) := by
  rw [grantScopes, hs]
  dsimp only
  rw [validateAndInsertScopes, if_neg htruthy]

theorem grantScopes_invalid (htruthy : u.scopes.truthy = true)
    (h : validateScopes e actor s u.scopes = .error .raised) :
    grantScopes e actor u id c = (.error .raised, c) := by
  rw [grantScopes, hs]
  dsimp only
  rw [validateAndInsertScopes, if_pos htruthy, h]

theorem grantScopes_refused {r : Refusal} (htruthy : u.scopes.truthy = true)
    (h : validateScopes e actor s u.scopes = .error (.refused r)) :
    grantScopes e actor u id c =
      if e.broken .deleteUser = true ∨ e.broken .commitDelete = true then (.error .raised, c)
      else (.error (.refused r), (c.execute fun t => t.deleteUser id).commit) := by
  rw [grantScopes, hs]
  dsimp only
  rw [validateAndInsertScopes, if_pos htruthy, h]

theorem grantScopes_valid (htruthy : u.scopes.truthy = true)
    (h : validateScopes e actor s u.scopes = .ok requests) :
    grantScopes e actor u id c =
      ((insertScopes e id actor requests 0 c).1.bind fun _ => welcome e u,
        (insertScopes e id actor requests 0 c).2) := by
  rw [grantScopes, hs]
  dsimp only
  rw [validateAndInsertScopes, if_pos htruthy, h]
  dsimp only
  cases hinsert : insertScopes e id actor requests 0 c with
  | mk res c' =>
    cases res with
    | ok => rfl
    | error f =>
      obtain rfl := insertScopes_error (congrArg Prod.fst hinsert)
      rfl

/-- The ways, once the actor's own scope is read. -/
theorem leftBehind_iff : LeftBehind e actor u ↔
    (u.scopes.truthy = true ∧
      (validateScopes e actor s u.scopes = .error .raised ∨
        (∃ r, validateScopes e actor s u.scopes = .error (.refused r) ∧
          (e.broken .deleteUser = true ∨ e.broken .commitDelete = true)) ∨
        ∃ requests, validateScopes e actor s u.scopes = .ok requests ∧
          ((∃ n < requests.length, e.broken (.insertScope n) = true) ∨
            e.broken .commitScopes = true))) ∨
    ((u.scopes.truthy = true → ∃ requests, validateScopes e actor s u.scopes = .ok requests) ∧
      welcome e u ≠ .ok ()) := by
  have hsame : ∀ {s'}, e.effectiveScope actor = some s' → s' = s := fun h =>
    Option.some.inj (h.symm.trans hs)
  constructor
  · intro h
    cases h with
    | actorScope h =>
      rw [h] at hs
      cases hs
    | scopes hs' htruthy h =>
      obtain rfl := hsame hs'
      exact .inl ⟨htruthy, .inl (validateScopes_raised_iff.mpr h)⟩
    | @cleanup _ r hs' htruthy h hbroken =>
      obtain rfl := hsame hs'
      exact .inl ⟨htruthy, .inr (.inl ⟨r, h, hbroken⟩)⟩
    | @insert _ requests hs' htruthy h hbroken =>
      obtain rfl := hsame hs'
      exact .inl ⟨htruthy, .inr (.inr ⟨requests, h, hbroken⟩)⟩
    | token hs' hvalid hbroken =>
      obtain rfl := hsame hs'
      exact .inr ⟨hvalid, hbroken⟩
  · rintro (⟨htruthy, h | ⟨r, h, hbroken⟩ | ⟨requests, h, hbroken⟩⟩ | ⟨hvalid, hbroken⟩)
    · exact .scopes hs htruthy (validateScopes_raised_iff.mp h)
    · exact .cleanup hs htruthy h hbroken
    · exact .insert hs htruthy h hbroken
    · exact .token hs hvalid hbroken

theorem leftBehind_unscoped (htruthy : ¬ u.scopes.truthy = true) :
    LeftBehind e actor u ↔ welcome e u ≠ .ok () := by
  rw [leftBehind_iff hs]
  simp [htruthy]

theorem leftBehind_refused {r : Refusal} (htruthy : u.scopes.truthy = true)
    (h : validateScopes e actor s u.scopes = .error (.refused r)) :
    LeftBehind e actor u ↔ e.broken .deleteUser = true ∨ e.broken .commitDelete = true := by
  rw [leftBehind_iff hs]
  simp [htruthy, h]

theorem leftBehind_valid (htruthy : u.scopes.truthy = true)
    (h : validateScopes e actor s u.scopes = .ok requests) : LeftBehind e actor u ↔
      ((∃ n < requests.length, e.broken (.insertScope n) = true) ∨
        e.broken .commitScopes = true) ∨ welcome e u ≠ .ok () := by
  rw [leftBehind_iff hs]
  simp [htruthy, h]

end Scope

/-- From the committed row on, the request fails and leaves a row exactly in these ways. -/
theorem grantScopes_iff (hcommitted : c.committed.Has id) (hworking : c.working.Has id) :
    ((grantScopes e actor u id c).1 ≠ .ok () ∧ (grantScopes e actor u id c).2.committed.Has id) ↔
      LeftBehind e actor u := by
  cases hs : e.effectiveScope actor with
  | none =>
    rw [grantScopes_of_raised hs]
    exact iff_of_true ⟨by simp, hcommitted⟩ (.actorScope hs)
  | some s =>
    by_cases htruthy : u.scopes.truthy = true
    · cases hvalid : validateScopes e actor s u.scopes with
      | error f =>
        cases f with
        | raised =>
          rw [grantScopes_invalid hs htruthy hvalid]
          exact iff_of_true ⟨by simp, hcommitted⟩
            (.scopes hs htruthy (validateScopes_raised_iff.mp hvalid))
        | refused r =>
          rw [grantScopes_refused hs htruthy hvalid]
          rw [leftBehind_refused hs htruthy hvalid]
          split
          · rename_i hbroken
            exact iff_of_true ⟨by simp, hcommitted⟩ hbroken
          · rename_i hdeleted
            exact iff_of_false (fun h => not_has_deleteUser _ _ h.2) hdeleted
      | ok requests =>
        have hfailed : (insertScopes e id actor requests 0 c).1 ≠ .ok () ↔ _ :=
          insertScopes_failed_iff
        simp only [Nat.zero_add] at hfailed
        rw [grantScopes_valid hs htruthy hvalid, leftBehind_valid hs htruthy hvalid, ← hfailed]
        dsimp only
        have hstays : (insertScopes e id actor requests 0 c).2.committed.Has id :=
          insertScopes_keeps (P := fun t => t.Has id) (fun _ _ _ h => has_insertScope h _ _ _)
            hcommitted hworking
        rw [and_iff_left hstays]
        cases (insertScopes e id actor requests 0 c).1 with
        | error f => exact iff_of_true (by simp [Except.bind]) (.inl (by simp))
        | ok => exact (or_iff_right (by simp)).symm
    · rw [grantScopes_unscoped hs htruthy, leftBehind_unscoped hs htruthy]
      exact and_iff_left hcommitted

theorem createUser_allOrNothing_iff (e : Surroundings) (actor : Actor) (p : Payload)
    (t : UserTables) : AllOrNothing e actor p t ↔
      ¬ ∃ u, checkPayload actor p = .ok u ∧ Inserted e ∧ LeftBehind e actor u := by
  unfold AllOrNothing createUser
  cases hchecked : checkPayload actor p with
  | error f => exact iff_of_true (fun _ => not_has_nextId t) (by simp)
  | ok u =>
    dsimp only
    split
    · rename_i hearly
      refine iff_of_true (fun _ => not_has_nextId t) ?_
      rintro ⟨-, -, hinserted, -⟩
      rcases hearly with h | h
      · rw [hinserted.hashed] at h; cases h
      · rw [hinserted.connected] at h; cases h
    · rename_i hearly
      rw [not_or, Bool.not_eq_true, Bool.not_eq_true] at hearly
      split
      · rename_i error herror
        refine iff_of_true (fun _ => not_has_nextId t) ?_
        rintro ⟨-, -, hinserted, -⟩
        have hnone : (e.fails .insertUser).or (e.fails .commitUser) = none :=
          Option.or_eq_none_iff.mpr ⟨fails_eq_none.mp hinserted.inserted,
            fails_eq_none.mp hinserted.committed⟩
        rw [hnone] at herror
        cases herror
      · rename_i hnone
        obtain ⟨hinserted, hcommitted⟩ := Option.or_eq_none_iff.mp hnone
        have hrow : Inserted e :=
          ⟨hearly.1, hearly.2, fails_eq_none.mpr hinserted, fails_eq_none.mpr hcommitted⟩
        have hhas := has_insertUser t u.username u.role u.email
        have hleft := @grantScopes_iff e actor u t.nextId
          ((Conn.start t).execute fun t => t.insertUser u.username u.role u.email).commit hhas hhas
        dsimp only
        rw [← not_and, hleft]
        refine not_congr ⟨fun h => ⟨u, rfl, hrow, h⟩, ?_⟩
        rintro ⟨u', hu', -, h⟩
        cases hu'
        exact h

/-! The rows of the other users. -/

theorem grantScopes_untouched {t : UserTables} (hcommitted : Untouched id t c.committed)
    (hworking : Untouched id t c.working) :
    Untouched id t (grantScopes e actor u id c).2.committed := by
  cases hs : e.effectiveScope actor with
  | none =>
    rw [grantScopes_of_raised hs]
    exact hcommitted
  | some s =>
    by_cases htruthy : u.scopes.truthy = true
    · cases hvalid : validateScopes e actor s u.scopes with
      | error f =>
        cases f with
        | raised =>
          rw [grantScopes_invalid hs htruthy hvalid]
          exact hcommitted
        | refused r =>
          rw [grantScopes_refused hs htruthy hvalid]
          split
          · exact hcommitted
          · exact hworking.trans (untouched_deleteUser _ _)
      | ok requests =>
        rw [grantScopes_valid hs htruthy hvalid]
        exact insertScopes_keeps (P := Untouched id t)
          (fun _ _ _ h => h.trans (untouched_insertScope _ _ _ _)) hcommitted hworking
    · rw [grantScopes_unscoped hs htruthy]
      exact hcommitted

/-- Whatever becomes of the request, no other user loses a row or gains one. -/
theorem createUser_untouched (e : Surroundings) (actor : Actor) (p : Payload) (t : UserTables) :
    Untouched t.nextId t (createUser e actor p t).2 := by
  unfold createUser
  split
  · exact .refl _ _
  · rename_i u hchecked
    split
    · exact .refl _ _
    · split
      · exact .refl _ _
      · have hrow := untouched_insertUser t u.username u.role u.email
        exact grantScopes_untouched hrow hrow

end Requests

/-- A list of names instead of objects: the row of the user stays. -/
theorem scopeWithoutGet_leavesUser :
    let t : UserTables := ⟨[], [], 1, List.forall_mem_nil _, List.forall_mem_nil _⟩
    let e : Surroundings := ⟨fun _ => none, ⟨[], List.nodup_nil⟩, some .fullAccess, false⟩
    let p : Payload := [("username", .str "bob"), ("password", .str "password1"),
      ("scopes", .arr [.str "aws"])]
    ¬ AllOrNothing e ⟨7, "admin"⟩ p t := by
  intro t e p h
  have hraised : (createUser e ⟨7, "admin"⟩ p t).1 = .error .raised := rfl
  refine h (fun hok => ?_) (.inl ⟨⟨1, "bob".toList, "viewer".toList, []⟩, ?_, rfl⟩)
  · rw [hraised] at hok
    cases hok
  · exact List.mem_singleton_self _

end MonitoringHub.UserCreation
