import MonitoringHub.Lib.StepRun
import Mathlib.Logic.Function.Basic

/-! The lists that a page keeps in the browser's storage, over the sign-ins and sign-outs of one
page. A request belongs to the user it was started under and may end at any later time. -/

namespace MonitoringHub.Browser
open Lib

def maxAgeMs : ℕ := 24 * 60 * 60 * 1000

/-- The source stores the data and the time; whose request fetched them is for the statements. -/
structure CacheEntry (α : Type) where
  data : α
  ts : ℕ
  fetchedBy : ℕ

structure DataRequest where
  key : String
  startedBy : ℕ
  pending : Bool

structure Page (α : Type) where
  storage : String → Option (CacheEntry α)
  writesBlocked : Bool
  user : Option ℕ
  requests : List DataRequest
  now : ℕ

/-- What `/api/auth/me` answers. -/
inductive SessionAnswer
  | signedIn (u : ℕ)
  | refused
  | unreachable

/-- A request ends with data, which the storage takes or not, with an error, or with a 401. -/
inductive RequestEnd (α : Type)
  | loaded (data : α) (stored : Bool)
  | failed
  | unauthorized

inductive PageAct (α : Type)
  | login (u : ℕ)
  | logout
  | sessionCheck (answer : SessionAnswer)
  | startRequest (key : String)
  | endRequest (i : ℕ) (outcome : RequestEnd α)
  | readCached (key : String)
  | elapse (ms : ℕ)

namespace Page
variable {α : Type}

def opened (storage : String → Option (CacheEntry α)) (now : ℕ) : Page α :=
  ⟨storage, false, none, [], now⟩

def Expired (s : Page α) (e : CacheEntry α) : Prop := maxAgeMs < s.now - e.ts

instance (s : Page α) (e : CacheEntry α) : Decidable (s.Expired e) :=
  inferInstanceAs (Decidable (maxAgeMs < s.now - e.ts))

def getCached (s : Page α) (key : String) : Option (CacheEntry α) :=
  match s.storage key with
  | none => none
  | some e => if s.Expired e then none else some e

/-- What `getCached` does to the storage. -/
def dropExpired (s : Page α) (key : String) : Page α :=
  match s.storage key with
  | none => s
  | some e => if s.Expired e then { s with storage := Function.update s.storage key none } else s

def setCached (s : Page α) (key : String) (data : α) (u : ℕ) : Page α :=
  if s.writesBlocked = true then s
  else { s with storage := Function.update s.storage key (some ⟨data, s.now, u⟩) }

def clearAllCached (s : Page α) : Page α := { s with storage := fun _ => none }

def signIn (s : Page α) (u : ℕ) : Page α := { s with user := some u, writesBlocked := false }

def logout (s : Page α) : Page α :=
  { { s with writesBlocked := true }.clearAllCached with user := none }

def sessionCheck (s : Page α) : SessionAnswer → Page α
  | .signedIn u => s.signIn u
  | .refused => { s with user := none }.clearAllCached
  | .unreachable => { s with user := none }

/-- A 401 clears the cache; the page is left for the sign-in page, or is that page already. -/
def received (s : Page α) (r : DataRequest) : RequestEnd α → Page α
  | .loaded data true => s.setCached r.key data r.startedBy
  | .loaded _ false => s
  | .failed => s
  | .unauthorized => s.clearAllCached

def step (s : Page α) : PageAct α → Option (Page α)
  | .login u => some (s.signIn u)
  | .logout => some s.logout
  | .sessionCheck answer => some (s.sessionCheck answer)
  | .startRequest key => s.user.map fun u =>
    { s with requests := s.requests ++ [⟨key, u, true⟩] }
  | .endRequest i outcome => s.requests[i]?.bind fun r =>
    if r.pending = true then
      some ({ s with requests := s.requests.set i { r with pending := false } }.received r outcome)
    else none
  | .readCached key => some (s.dropExpired key)
  | .elapse ms => some { s with now := s.now + ms }

/-- Whatever a signed-in user is shown was fetched by a request of that user. -/
def OwnViews (s : Page α) : Prop :=
  ∀ u key e, s.user = some u → s.getCached key = some e → e.fetchedBy = u

/-- Every entry still young enough to be shown was fetched for `u`. -/
def HoldsOnly (s : Page α) (u : ℕ) : Prop :=
  ∀ key e, s.storage key = some e → ¬ s.Expired e → e.fetchedBy = u

/-- A sign-in finds no other user's young entry, and a request that ends with data ends while
writes are blocked, while nobody is signed in, or under the user who started it. -/
def OwnWrites (s : Page α) : PageAct α → Prop
  | .login u => s.HoldsOnly u
  | .sessionCheck (.signedIn u) => s.HoldsOnly u
  | .endRequest i (.loaded _ true) => ∀ r, s.requests[i]? = some r →
    s.writesBlocked = true ∨ s.user = none ∨ s.user = some r.startedBy
  | _ => True

variable {s s' : Page α} {act : PageAct α}

theorem getCached_some {key : String} {e : CacheEntry α} :
    s.getCached key = some e ↔ s.storage key = some e ∧ ¬ s.Expired e := by
  unfold getCached
  split
  · rename_i hnone
    simp [hnone]
  · rename_i e' hsome
    rw [hsome]
    split
    · rename_i hexpired
      refine ⟨nofun, ?_⟩
      rintro ⟨hee, hnot⟩
      exact absurd (Option.some.inj hee ▸ hexpired) hnot
    · rename_i hnot
      refine ⟨?_, And.left⟩
      intro hee
      exact ⟨hee, Option.some.inj hee ▸ hnot⟩

theorem ownViews_iff {u : ℕ} (h : s.user = some u) : s.OwnViews ↔ s.HoldsOnly u := by
  constructor
  · intro hown key e he hyoung
    exact hown u key e h (getCached_some.mpr ⟨he, hyoung⟩)
  · intro hholds v key e hv he
    obtain rfl := Option.some.inj (h.symm.trans hv)
    obtain ⟨hstored, hyoung⟩ := getCached_some.mp he
    exact hholds key e hstored hyoung

theorem ownViews_signedOut (h : s.user = none) : s.OwnViews := by
  intro u key e hu
  rw [h] at hu
  cases hu

/-- Losing entries and ageing keep every view of the user its own. -/
theorem OwnViews.of_subset (h : s.OwnViews) (huser : s'.user = s.user)
    (hsub : ∀ key e, s'.storage key = some e → ¬ s'.Expired e →
      s.storage key = some e ∧ ¬ s.Expired e) : s'.OwnViews := by
  intro u key e hu he
  obtain ⟨hstored, hyoung⟩ := getCached_some.mp he
  exact h u key e (huser ▸ hu) (getCached_some.mpr (hsub key e hstored hyoung))

theorem dropExpired_sub {key k : String} {e : CacheEntry α}
    (h : (s.dropExpired key).storage k = some e) : s.storage k = some e := by
  unfold dropExpired at h
  split at h
  · exact h
  · split at h
    · by_cases hk : k = key
      · subst hk
        simp at h
      · dsimp only at h
        rwa [Function.update_of_ne hk] at h
    · exact h

theorem dropExpired_user (s : Page α) (key : String) :
    (s.dropExpired key).user = s.user ∧ (s.dropExpired key).now = s.now := by
  unfold dropExpired
  split
  · exact ⟨rfl, rfl⟩
  · split <;> exact ⟨rfl, rfl⟩

/-- A write that is not blocked shows the signed-in user the entry at once. -/
theorem ownViews_setCached (h : s.OwnViews) (key : String) (data : α) (v : ℕ) :
    (s.setCached key data v).OwnViews ↔
      s.writesBlocked = true ∨ s.user = none ∨ s.user = some v := by
  unfold setCached
  split
  · rename_i hblocked
    exact ⟨fun _ => .inl hblocked, fun _ => h⟩
  · rename_i hopen
    constructor
    · intro hown
      cases huser : s.user with
      | none => exact .inr (.inl rfl)
      | some u =>
        have hnew := hown u key ⟨data, s.now, v⟩ huser
          (getCached_some.mpr ⟨Function.update_self .., by simp [Expired]⟩)
        exact .inr (.inr (congrArg some hnew.symm))
    · intro hcase u k e hu he
      obtain ⟨hstored, hyoung⟩ := getCached_some.mp he
      dsimp only at hu hstored
      by_cases hk : k = key
      · subst hk
        rw [Function.update_self] at hstored
        obtain rfl := Option.some.inj hstored
        rcases hcase with hblocked | hnone | hsome
        · exact absurd hblocked hopen
        · rw [hnone] at hu
          cases hu
        · exact Option.some.inj (hsome.symm.trans hu)
      · rw [Function.update_of_ne hk] at hstored
        exact h u k e hu (getCached_some.mpr ⟨hstored, hyoung⟩)

theorem ownViews_step (h : s.OwnViews) (hstep : s.step act = some s') :
    s'.OwnViews ↔ s.OwnWrites act := by
  cases act with
  | login u =>
    obtain rfl := Option.some.inj hstep
    exact ownViews_iff rfl
  | logout =>
    obtain rfl := Option.some.inj hstep
    exact iff_of_true (ownViews_signedOut rfl) trivial
  | sessionCheck answer =>
    obtain rfl := Option.some.inj hstep
    cases answer with
    | signedIn u => exact ownViews_iff rfl
    | refused => exact iff_of_true (ownViews_signedOut rfl) trivial
    | unreachable => exact iff_of_true (ownViews_signedOut rfl) trivial
  | startRequest key =>
    obtain ⟨u, -, rfl⟩ := Option.map_eq_some_iff.mp hstep
    exact iff_of_true (h.of_subset rfl fun _ _ hstored hyoung => ⟨hstored, hyoung⟩) trivial
  | endRequest i outcome =>
    obtain ⟨r, hr, hs⟩ := Option.bind_eq_some_iff.mp hstep
    obtain ⟨-, hs⟩ := Option.ite_none_right_eq_some.mp hs
    obtain rfl := Option.some.inj hs
    have hsame :
        Page.OwnViews { s with requests := s.requests.set i { r with pending := false } } :=
      h.of_subset rfl fun _ _ hstored hyoung => ⟨hstored, hyoung⟩
    cases outcome with
    | loaded data stored =>
      cases stored with
      | true =>
        refine (ownViews_setCached hsame r.key data r.startedBy).trans ?_
        constructor
        · intro hcase r' hr'
          obtain rfl := Option.some.inj (hr.symm.trans hr')
          exact hcase
        · exact fun hall => hall r hr
      | false => exact iff_of_true hsame trivial
    | failed => exact iff_of_true hsame trivial
    | unauthorized => exact iff_of_true (hsame.of_subset rfl nofun) trivial
  | readCached key =>
    obtain rfl := Option.some.inj hstep
    refine iff_of_true (h.of_subset (dropExpired_user s key).1 fun k e hstored hyoung => ?_) trivial
    refine ⟨dropExpired_sub hstored, ?_⟩
    unfold Expired at hyoung ⊢
    rwa [(dropExpired_user s key).2] at hyoung
  | elapse ms =>
    obtain rfl := Option.some.inj hstep
    refine iff_of_true (h.of_subset rfl fun k e hstored hyoung => ⟨hstored, ?_⟩) trivial
    unfold Expired at hyoung ⊢
    dsimp only at hyoung
    omega

end Page

end MonitoringHub.Browser
