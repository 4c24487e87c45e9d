import Mathlib.Order.Basic
import Mathlib.Data.Nat.Basic
import MonitoringHub.Sessions.SessionCheck

/-! When a revocation takes effect. What a request learned about its session is as old as
the check it comes from, so a state read before a revocation serves no check that starts
more than the lifetime of an entry later. A logout is only known by its row: the row must
not be purged under a request that passed the test of expiry and still has to read. -/

namespace MonitoringHub.Sessions
open Lib Lib.KeyedStore Lib.RowTable

/-- The check has not learned the state of the session yet. -/
def Stage.reading : Stage → Bool
  | decoded | checking _ | missed _ => true
  | fetched .. | judged .. | accepted .. | refused _ => false

/-- The purge of a logout deletes no row of a token that such a request carries. -/
def PurgesQuietly (s : Service) : Event → Prop
  | .logout c cutoff => ∀ jti ∈ c.jti, ∀ row ∈ inserted s.revoked jti c.exp, row.2 < cutoff →
      ∀ r ∈ s.requests, r.claims.jti = some row.1 → r.stage.reading = false
  | _ => True

/-- No check that started more than `ttl` after a revocation of its token was accepted. -/
def Service.RevokedFor (ttl : ℕ) (s : Service) (counts : Revocation → Prop) : Prop :=
  ∀ r ∈ s.requests, ∀ now role, r.stage = .accepted now role →
    ∀ v ∈ s.revocations, counts v → v.claims = r.claims → now ≤ v.committed + ttl

/-- The user is gone or has a later version. -/
def Outdated (s : Service) (c : Claims) : Prop :=
  ∀ row ∈ find c.id s.users, c.tv < row.tokenVersion

/-- A state learned by a check that began at `since`. -/
def Revocation.Tells (v : Revocation) (state : Option SessionState) (since : ℕ) : Prop :=
  v.claims.passes state = false ∨ since ≤ v.committed

/-- What a request knows about the revocations of its token. -/
def RequestOk (ttl : ℕ) (counts : Revocation → Prop) (s : Service) (r : Request) : Prop :=
  match r.stage with
  | .decoded | .refused _ => True
  | .checking now | .missed now => now ≤ s.now
  | .fetched now state => now ≤ s.now ∧ ∀ v ∈ s.revocations, counts v →
      v.claims.id = r.claims.id → v.claims.jti = r.claims.jti → v.Tells state now
  | .judged now state => now ≤ s.now ∧ ∀ v ∈ s.revocations, counts v → v.claims = r.claims →
      v.claims.passes state = false ∨ now ≤ v.committed + ttl
  | .accepted now _ => now ≤ s.now ∧ ∀ v ∈ s.revocations, counts v → v.claims = r.claims →
      now ≤ v.committed + ttl

/-- What a cache entry knows. -/
def EntryOk (counts : Revocation → Prop) (s : Service)
    (e : CacheKey × ℕ × Option SessionState) : Prop :=
  e.2.1 ≤ s.now ∧ ∀ v ∈ s.revocations, counts v →
    v.claims.id = e.1.2.1 → v.claims.jti = e.1.2.2 → v.Tells e.2.2 e.2.1

/-- The invariant, for the revocations that count; for logouts that is only kept by
quiet purges. -/
structure Inv (ttl : ℕ) (logouts : Prop) (s : Service) : Prop where
  distinct : ∀ c ∈ s.issued, ∀ c' ∈ s.issued, c.jti.isSome → c.jti = c'.jti → c = c'
  carried : ∀ r ∈ s.requests, r.claims ∈ s.issued
  known : ∀ v ∈ s.revocations, v.claims ∈ s.issued ∧ v.committed ≤ s.now
  versions : ∀ c ∈ s.issued, ∀ row ∈ find c.id s.users, c.tv ≤ row.tokenVersion
  unmigrated : s.migrated = false → s.revocations = []
  rows : ∀ row ∈ s.revoked, ∃ c ∈ s.issued, c.jti = some row.1 ∧ c.exp = row.2
  outdated : ∀ v ∈ s.revocations, v.cause = .version → Outdated s v.claims
  loggedOut : ∀ v ∈ s.revocations, v.cause = .logout → ∃ jti, v.claims.jti = some jti ∧
    ((find jti s.revoked).isSome ∨ v.claims.exp < s.now)
  quiet : logouts → ∀ v ∈ s.revocations, v.cause = .logout → ∀ jti, v.claims.jti = some jti →
    (find jti s.revoked).isSome ∨ ∀ r ∈ s.requests, r.claims = v.claims → r.stage.reading = false
  cache : ∀ e ∈ s.cache, EntryOk (fun v => v.cause = .version ∨ logouts) s e
  requests : ∀ r ∈ s.requests, RequestOk ttl (fun v => v.cause = .version ∨ logouts) s r

section Invariant
variable {ttl : ℕ} {logouts : Prop} {counts : Revocation → Prop} {s t : Service} {r : Request}
  {v : Revocation} {c : Claims}

/-- Time passes, and what is revoked later is revoked no earlier than now. -/
structure Later (s t : Service) : Prop where
  now : s.now ≤ t.now
  revocations : ∀ v ∈ t.revocations, v ∈ s.revocations ∨ s.now ≤ v.committed

theorem Later.request (h : Later s t) (hr : RequestOk ttl counts s r) :
    RequestOk ttl counts t r := by
  have hnow := h.now
  unfold RequestOk at hr ⊢
  split at hr
  · trivial
  · trivial
  · exact hr.trans hnow
  · exact hr.trans hnow
  · refine ⟨hr.1.trans hnow, fun v hv hcounts hid hjti => ?_⟩
    rcases h.revocations v hv with hold | hnew
    · exact hr.2 v hold hcounts hid hjti
    · exact .inr (hr.1.trans hnew)
  · refine ⟨hr.1.trans hnow, fun v hv hcounts hclaims => ?_⟩
    rcases h.revocations v hv with hold | hnew
    · exact hr.2 v hold hcounts hclaims
    · exact .inr ((hr.1.trans hnew).trans (Nat.le_add_right _ _))
  · refine ⟨hr.1.trans hnow, fun v hv hcounts hclaims => ?_⟩
    rcases h.revocations v hv with hold | hnew
    · exact hr.2 v hold hcounts hclaims
    · exact (hr.1.trans hnew).trans (Nat.le_add_right _ _)

theorem Later.entry (h : Later s t) {e : CacheKey × ℕ × Option SessionState}
    (he : EntryOk counts s e) : EntryOk counts t e := by
  refine ⟨he.1.trans h.now, fun v hv hcounts hid hjti => ?_⟩
  rcases h.revocations v hv with hold | hnew
  · exact he.2 v hold hcounts hid hjti
  · exact .inr (he.1.trans hnew)

/-- A state with another version, of an inactive user or of a revoked session passes no
token. -/
theorem passes_iff {state : Option SessionState} : c.passes state = true ↔
    ∃ known, state = some known ∧ known.active = some true ∧ known.revoked = false ∧
      known.tokenVersion = c.tv := by
  cases state <;> simp [Claims.passes, and_assoc]

theorem Outdated.not_passes (h : Outdated s c) (c' : Claims) (hid : c'.id = c.id) :
    c.passes (s.fetchState c') = false := by
  by_contra hpass
  rw [Bool.not_eq_false, passes_iff] at hpass
  obtain ⟨known, hknown, -, -, hversion⟩ := hpass
  obtain ⟨row, hrow, rfl⟩ := Option.map_eq_some_iff.mp hknown
  have hlater := h row (hid ▸ hrow)
  simp only at hversion
  omega

theorem not_passes_of_row {jti : String} (hjti : c.jti = some jti)
    (hrow : (find jti s.revoked).isSome) (c' : Claims) (hsame : c'.jti = c.jti) :
    c.passes (s.fetchState c') = false := by
  by_contra hpass
  rw [Bool.not_eq_false, passes_iff] at hpass
  obtain ⟨known, hknown, -, hrevoked, -⟩ := hpass
  obtain ⟨row, -, rfl⟩ := Option.map_eq_some_iff.mp hknown
  simp [hsame, hjti, hrow] at hrevoked

/-- A request that still reads is told of every revocation of its session. -/
theorem Inv.fetch_tells (h : Inv ttl logouts s) (hr : r ∈ s.requests)
    (hreading : r.stage.reading = true) (hv : v ∈ s.revocations)
    (hcounts : v.cause = .version ∨ logouts) (hid : v.claims.id = r.claims.id)
    (hjti : v.claims.jti = r.claims.jti) :
    v.claims.passes (s.fetchState r.claims) = false := by
  cases hcause : v.cause with
  | version => exact (h.outdated v hv hcause).not_passes r.claims hid.symm
  | logout =>
    have hlogouts : logouts := hcounts.resolve_left (by simp [hcause])
    obtain ⟨jti, hsome, -⟩ := h.loggedOut v hv hcause
    rcases h.quiet hlogouts v hv hcause jti hsome with hrow | hquiet
    · exact not_passes_of_row hsome hrow r.claims hjti.symm
    · have hsame : v.claims = r.claims :=
        h.distinct _ (h.known v hv).1 _ (h.carried r hr) (by simp [hsome]) hjti
      rw [hquiet r hr hsame.symm] at hreading
      cases hreading

theorem Inv.tick (h : Inv ttl logouts s) (d : ℕ) :
    Inv ttl logouts { s with now := s.now + d } := by
  have hlater : Later s { s with now := s.now + d } := ⟨Nat.le_add_right _ _, fun v hv => .inl hv⟩
  refine { h with
    known := fun v hv => ⟨(h.known v hv).1, (h.known v hv).2.trans hlater.now⟩
    loggedOut := fun v hv hcause => ?_
    cache := fun e he => hlater.entry (h.cache e he)
    requests := fun r hr => hlater.request (h.requests r hr) }
  obtain ⟨jti, hjti, hrow | hexp⟩ := h.loggedOut v hv hcause
  · exact ⟨jti, hjti, .inl hrow⟩
  · exact ⟨jti, hjti, .inr (hexp.trans_le hlater.now)⟩

theorem Inv.issue (h : Inv ttl logouts s) (hfresh : ∀ c' ∈ s.issued, c'.jti ≠ c.jti)
    (hversion : ∀ row ∈ find c.id s.users, c.tv ≤ row.tokenVersion) :
    Inv ttl logouts { s with issued := c :: s.issued } where
  distinct c₁ h₁ c₂ h₂ hsome hsame := by
    rcases List.mem_cons.mp h₁ with heq₁ | h₁ <;> rcases List.mem_cons.mp h₂ with heq₂ | h₂
    · rw [heq₁, heq₂]
    · exact absurd (heq₁ ▸ hsame.symm) (hfresh c₂ h₂)
    · exact absurd (heq₂ ▸ hsame) (hfresh c₁ h₁)
    · exact h.distinct c₁ h₁ c₂ h₂ hsome hsame
  carried r hr := List.mem_cons_of_mem _ (h.carried r hr)
  known v hv := ⟨List.mem_cons_of_mem _ (h.known v hv).1, (h.known v hv).2⟩
  versions c' hc' := by
    rcases List.mem_cons.mp hc' with rfl | hc'
    · exact hversion
    · exact h.versions c' hc'
  unmigrated := h.unmigrated
  rows row hrow := by
    obtain ⟨c', hc', hjti, hexp⟩ := h.rows row hrow
    exact ⟨c', List.mem_cons_of_mem _ hc', hjti, hexp⟩
  outdated := h.outdated
  loggedOut := h.loggedOut
  quiet := h.quiet
  cache := h.cache
  requests := h.requests

/-- A token that still decodes was not purged yet. -/
theorem Inv.arrive (h : Inv ttl logouts s) (worker : ℕ) (hissued : c ∈ s.issued)
    (hexp : s.now < c.exp) :
    Inv ttl logouts { s with requests := s.requests ++ [⟨worker, c, .decoded⟩] } := by
  refine { h with
    carried := fun r hr => ?_
    quiet := fun hlogouts v hv hcause jti hjti => ?_
    requests := fun r hr => ?_ }
  · rcases List.mem_append.mp hr with hr | hr
    · exact h.carried r hr
    · obtain rfl := List.mem_singleton.mp hr
      exact hissued
  · obtain ⟨jti', hjti', hrow | hpast⟩ := h.loggedOut v hv hcause
    · obtain rfl : jti' = jti := Option.some.inj (hjti'.symm.trans hjti)
      exact .inl hrow
    · refine (h.quiet hlogouts v hv hcause jti hjti).imp_right fun hquiet r hr hclaims => ?_
      rcases List.mem_append.mp hr with hr | hr
      · exact hquiet r hr hclaims
      · obtain rfl := List.mem_singleton.mp hr
        simp only at hclaims
        subst hclaims
        omega
  · rcases List.mem_append.mp hr with hr | hr
    · exact h.requests r hr
    · obtain rfl := List.mem_singleton.mp hr
      trivial

theorem mem_setStage {i : ℕ} {stage : Stage} {r' : Request} (hr : s.requests[i]? = some r)
    (h : r' ∈ (s.setStage i stage).requests) : r' ∈ s.requests ∨ r' = { r with stage := stage } := by
  obtain ⟨n, hn⟩ := List.mem_iff_getElem?.mp h
  rw [Service.setStage, modifyAt_found hr] at hn
  split at hn
  · exact .inr (Option.some.inj hn).symm
  · exact .inl (List.mem_iff_getElem?.mpr ⟨n, hn⟩)

/-- A request that moves on learned what it has to know; only one that reads goes on to read. -/
theorem Inv.setStage (h : Inv ttl logouts s) {i : ℕ} {stage : Stage}
    (hr : s.requests[i]? = some r) (hreading : stage.reading = true → r.stage.reading = true)
    (hok : RequestOk ttl (fun v => v.cause = .version ∨ logouts) s { r with stage := stage }) :
    Inv ttl logouts (s.setStage i stage) := by
  have hmem : r ∈ s.requests := List.mem_of_getElem? hr
  refine { h with
    carried := fun r' hr' => ?_
    quiet := fun hlogouts v hv hcause jti hjti => ?_
    requests := fun r' hr' => ?_ }
  · rcases mem_setStage hr hr' with hold | rfl
    · exact h.carried r' hold
    · exact h.carried r hmem
  · refine (h.quiet hlogouts v hv hcause jti hjti).imp_right fun hquiet r' hr' hclaims => ?_
    rcases mem_setStage hr hr' with hold | rfl
    · exact hquiet r' hold hclaims
    · have hread := hquiet r hmem hclaims
      cases hstage : stage.reading with
      | false => rfl
      | true => rw [hreading hstage] at hread; cases hread
  · rcases mem_setStage hr hr' with hold | rfl
    · exact h.requests r' hold
    · exact hok

/-- Filling drops entries and adds the new one. -/
theorem mem_fillCache {cache : List (CacheKey × ℕ × Option SessionState)} {key : CacheKey}
    {now : ℕ} {state : Option SessionState} {e : CacheKey × ℕ × Option SessionState}
    (h : e ∈ fillCache ttl cache key now state) : e = (key, now, state) ∨ e ∈ cache := by
  rcases List.mem_cons.mp h with rfl | hkept
  · exact .inl rfl
  · have hkept := (List.mem_filter.mp hkept).1
    refine .inr ?_
    split at hkept
    · dsimp only at hkept
      split at hkept
      · exact (List.mem_filter.mp (List.mem_filter.mp hkept).1).1
      · exact (List.mem_filter.mp hkept).1
    · exact hkept

theorem Inv.lookup (h : Inv ttl logouts s) {i now : ℕ} (hr : s.requests[i]? = some r)
    (hstage : r.stage = .checking now) {hit : ℕ × Option SessionState}
    (hhit : find (r.claims.key r.worker) s.cache = some hit) (hyoung : now < hit.1 + ttl) :
    Inv ttl logouts (s.setStage i (.judged now hit.2)) := by
  have hok := h.requests r (List.mem_of_getElem? hr)
  rw [RequestOk, hstage] at hok
  refine h.setStage hr nofun ⟨hok, fun v hv hcounts hclaims => ?_⟩
  have hentry := (h.cache _ (mem_of_find hhit)).2 v hv hcounts
  rcases hentry (by rw [hclaims]; rfl) (by rw [hclaims]; rfl) with hfails | hold
  · exact .inl hfails
  · refine .inr ?_
    simp only at hold
    omega

theorem Inv.fetch (h : Inv ttl logouts s) {i now : ℕ} (hr : s.requests[i]? = some r)
    (hstage : r.stage = .missed now) :
    Inv ttl logouts (s.setStage i (.fetched now (s.fetchState r.claims))) := by
  have hmem := List.mem_of_getElem? hr
  have hok := h.requests r hmem
  rw [RequestOk, hstage] at hok
  refine h.setStage hr nofun ⟨hok, fun v hv hcounts hid hjti => .inl ?_⟩
  exact h.fetch_tells hmem (by rw [hstage]; rfl) hv hcounts hid hjti

/-- Without the migration nothing can be revoked. -/
theorem Inv.fetchUnmigrated (h : Inv ttl logouts s) {i now : ℕ} (hr : s.requests[i]? = some r)
    (hstage : r.stage = .missed now) (hmigrated : s.migrated = false) (role : String) :
    Inv ttl logouts (s.setStage i (.accepted now role)) := by
  have hok := h.requests r (List.mem_of_getElem? hr)
  rw [RequestOk, hstage] at hok
  refine h.setStage hr nofun ⟨hok, fun v hv => ?_⟩
  rw [h.unmigrated hmigrated] at hv
  cases hv

theorem Inv.store (h : Inv ttl logouts s) {i now : ℕ} {state : Option SessionState}
    (hr : s.requests[i]? = some r) (hstage : r.stage = .fetched now state) :
    Inv ttl logouts { s.setStage i (.judged now state) with
      cache := fillCache ttl s.cache (r.claims.key r.worker) now state } := by
  have hok := h.requests r (List.mem_of_getElem? hr)
  rw [RequestOk, hstage] at hok
  have hset : Inv ttl logouts (s.setStage i (.judged now state)) := by
    refine h.setStage hr nofun ⟨hok.1, fun v hv hcounts hclaims => ?_⟩
    refine (hok.2 v hv hcounts (by rw [hclaims]) (by rw [hclaims])).imp_right fun hold => ?_
    exact Nat.le_add_right_of_le hold
  refine { hset with cache := fun e he => ?_ }
  rcases mem_fillCache he with rfl | hold
  · exact ⟨hok.1, fun v hv hcounts hid hjti => hok.2 v hv hcounts hid hjti⟩
  · exact h.cache e hold

theorem Inv.decide (h : Inv ttl logouts s) {i now : ℕ} {state : Option SessionState}
    {known : SessionState} (hr : s.requests[i]? = some r) (hstage : r.stage = .judged now state)
    (hknown : state = some known) (hpasses : r.claims.passes (some known) = true) :
    Inv ttl logouts (s.setStage i (.accepted now known.role)) := by
  have hok := h.requests r (List.mem_of_getElem? hr)
  rw [RequestOk, hstage] at hok
  refine h.setStage hr nofun ⟨hok.1, fun v hv hcounts hclaims => ?_⟩
  refine (hok.2 v hv hcounts hclaims).resolve_left fun hfails => ?_
  rw [hclaims, hknown, hpasses] at hfails
  cases hfails

theorem Inv.advance (h : Inv ttl logouts s) {i : ℕ} {m : Move} (hr : s.requests[i]? = some r)
    (hstep : s.advance ttl i r m = some t) : Inv ttl logouts t := by
  have hok := h.requests r (List.mem_of_getElem? hr)
  cases m <;> simp only [Service.advance] at hstep
  case start =>
    split at hstep
    · rename_i hstage
      cases hstep
      exact h.setStage hr (fun _ => by rw [hstage]; rfl) le_rfl
    · cases hstep
  case lookup =>
    split at hstep
    · rename_i now hstage
      rw [RequestOk, hstage] at hok
      split at hstep <;> cases hstep
      · rename_i hit hhit
        obtain ⟨hfound, hyoung⟩ := Option.filter_eq_some_iff.mp hhit
        exact h.lookup hr hstage hfound (of_decide_eq_true hyoung)
      · exact h.setStage hr (fun _ => by rw [hstage]; rfl) hok
    · cases hstep
  case fetch =>
    split at hstep
    · rename_i now hstage
      split at hstep <;> cases hstep
      · exact h.fetch hr hstage
      · rename_i hmigrated
        exact h.fetchUnmigrated hr hstage (by simpa using hmigrated) _
    · cases hstep
  case fetchFails =>
    split at hstep
    · cases hstep
      exact h.setStage hr (fun hnever => by cases hnever) trivial
    · cases hstep
  case store =>
    split at hstep
    · rename_i hstage
      cases hstep
      exact h.store hr hstage
    · cases hstep
  case decide =>
    split at hstep
    · rename_i hstage
      split at hstep <;> cases hstep
      · rename_i known hknown
        obtain ⟨hstate, hpasses⟩ := Option.filter_eq_some_iff.mp hknown
        exact h.decide hr hstage hstate hpasses
      · exact h.setStage hr (fun hnever => by cases hnever) trivial
    · cases hstep

theorem mem_outdate {id : ℕ} {row : UserRow} (h : v ∈ (s.outdate id row).revocations) :
    (∃ c ∈ s.issued, c.id = id ∧ v = ⟨.version, c, s.now⟩) ∨ v ∈ s.revocations := by
  rcases List.mem_append.mp h with hnew | hold
  · obtain ⟨c, hc, rfl⟩ := List.mem_map.mp hnew
    obtain ⟨hissued, hid⟩ := List.mem_filter.mp hc
    exact .inl ⟨c, hissued, of_decide_eq_true hid, rfl⟩
  · exact .inr hold

theorem Inv.outdate (h : Inv ttl logouts s) {id : ℕ} {row row' : UserRow}
    (hrow : find id s.users = some row) (hversion : row'.tokenVersion = row.tokenVersion)
    (hmigrated : s.migrated = true) : Inv ttl logouts (s.outdate id row') := by
  have hlater : Later s (s.outdate id row') := by
    refine ⟨le_rfl, fun v hv => ?_⟩
    rcases mem_outdate hv with ⟨c, -, -, rfl⟩ | hold
    · exact .inr le_rfl
    · exact .inl hold
  -- the version only grows, and past every token issued so far
  have hgrows : ∀ c ∈ s.issued, ∀ found ∈ find c.id (s.outdate id row').users,
      if c.id = id then c.tv < found.tokenVersion else found ∈ find c.id s.users := by
    intro c hc found hfound
    rw [Service.outdate, find_write] at hfound
    split at hfound
    · rename_i hid
      have hle := h.versions c hc row (hid ▸ hrow)
      cases hfound
      rw [if_pos hid]
      simp only
      omega
    · rename_i hid
      rw [if_neg hid]
      exact hfound
  exact {
    distinct := h.distinct
    carried := h.carried
    known := fun v hv => by
      rcases mem_outdate hv with ⟨c, hc, -, rfl⟩ | hold
      · exact ⟨hc, le_rfl⟩
      · exact h.known v hold
    versions := fun c hc found hfound => by
      have hfound' := hgrows c hc found hfound
      split at hfound'
      · exact hfound'.le
      · exact h.versions c hc found hfound'
    unmigrated := fun hfalse => by
      have hkeep : s.migrated = false := hfalse
      rw [hmigrated] at hkeep
      cases hkeep
    rows := h.rows
    outdated := fun v hv hcause found hfound => by
      rcases mem_outdate hv with ⟨c, hc, hid, rfl⟩ | hold
      · have hfound' := hgrows c hc found hfound
        rwa [if_pos hid] at hfound'
      · have hfound' := hgrows v.claims (h.known v hold).1 found hfound
        split at hfound'
        · exact hfound'
        · exact h.outdated v hold hcause found hfound'
    loggedOut := fun v hv hcause => by
      rcases mem_outdate hv with ⟨c, -, -, rfl⟩ | hold
      · cases hcause
      · exact h.loggedOut v hold hcause
    quiet := fun hlogouts v hv hcause => by
      rcases mem_outdate hv with ⟨c, -, -, rfl⟩ | hold
      · cases hcause
      · exact h.quiet hlogouts v hold hcause
    cache := fun e he => hlater.entry (h.cache e he)
    requests := fun r hr => hlater.request (h.requests r hr) }

/-- Changes of the users that take no version back. -/
theorem Inv.users (h : Inv ttl logouts s) {users : List (ℕ × UserRow)}
    (hkeep : ∀ id, ∀ row ∈ find id users, ∃ row' ∈ find id s.users,
      row'.tokenVersion = row.tokenVersion) :
    Inv ttl logouts { s with users := users } := by
  refine { h with
    versions := fun c hc row hrow => ?_
    outdated := fun v hv hcause row hrow => ?_ }
  · obtain ⟨row', hrow', hversion⟩ := hkeep c.id row hrow
    exact hversion ▸ h.versions c hc row' hrow'
  · obtain ⟨row', hrow', hversion⟩ := hkeep v.claims.id row hrow
    exact hversion ▸ h.outdated v hv hcause row' hrow'

theorem Inv.writeUser (h : Inv ttl logouts s) {id : ℕ} {row row' : UserRow}
    (hrow : find id s.users = some row) (hversion : row'.tokenVersion = row.tokenVersion) :
    Inv ttl logouts { s with users := write id row' s.users } := by
  refine h.users fun id' found hfound => ?_
  rw [find_write] at hfound
  split at hfound
  · rename_i hid
    cases hfound
    exact ⟨row, hid ▸ hrow, hversion.symm⟩
  · exact ⟨found, hfound, rfl⟩

theorem find_inserted {revoked : List (String × ℕ)} {jti jti' : String} {exp : ℕ}
    (h : (find jti revoked).isSome ∨ jti = jti') : (find jti (inserted revoked jti' exp)).isSome := by
  unfold inserted
  split
  · rename_i hpresent
    rcases h with hrow | rfl
    · exact hrow
    · exact hpresent
  · rw [find_write]
    split
    · rfl
    · rename_i hne
      exact h.resolve_right hne

theorem mem_inserted {revoked : List (String × ℕ)} {jti : String} {exp : ℕ} {row : String × ℕ}
    (h : row ∈ inserted revoked jti exp) : row ∈ revoked ∨ row = (jti, exp) := by
  unfold inserted at h
  split at h
  · exact .inl h
  · rcases List.mem_cons.mp h with heq | hold
    · exact .inr heq
    · exact .inl (List.mem_filter.mp hold).1

/-- A row that is there is kept by the purge or was past its cutoff. -/
theorem find_purged {revoked : List (String × ℕ)} {jti : String} {cutoff : ℕ}
    (h : (find jti revoked).isSome) :
    (find jti (purged revoked cutoff)).isSome ∨ ∃ exp, (jti, exp) ∈ revoked ∧ exp < cutoff := by
  induction revoked with
  | nil => cases h
  | cons row rows ih =>
    obtain ⟨jti', exp⟩ := row
    by_cases hpast : exp < cutoff
    · by_cases hjti : jti' = jti
      · subst hjti
        exact .inr ⟨exp, List.mem_cons_self, hpast⟩
      · rw [find, if_neg hjti] at h
        refine (ih h).imp (fun hrow => ?_) fun hold => ?_
        · simpa [purged, hpast] using hrow
        · exact hold.imp fun e he => ⟨List.mem_cons_of_mem _ he.1, he.2⟩
    · have hkept : purged ((jti', exp) :: rows) cutoff = (jti', exp) :: purged rows cutoff := by
        simp [purged, hpast]
      rw [hkept, find]
      rw [find] at h
      split
      · exact .inl rfl
      · rename_i hjti
        rw [if_neg hjti] at h
        exact (ih h).imp_right fun hold =>
          hold.imp fun e he => ⟨List.mem_cons_of_mem _ he.1, he.2⟩

/-- Every row belongs to an issued token, the one a logout adds too. -/
theorem Inv.rows_inserted (h : Inv ttl logouts s) {jti : String} (hc : c ∈ s.issued)
    (hjti : c.jti = some jti) : ∀ row ∈ inserted s.revoked jti c.exp, ∃ c' ∈ s.issued,
      c'.jti = some row.1 ∧ c'.exp = row.2 := by
  intro row hrow
  rcases mem_inserted hrow with hold | rfl
  · exact h.rows row hold
  · exact ⟨c, hc, hjti, rfl⟩

/-- A token that has a row before the purge has one after it, or is past the cutoff. -/
theorem Inv.kept_or_past (h : Inv ttl logouts s) {c' : Claims} {jti jti' : String} {cutoff : ℕ}
    (hc : c ∈ s.issued) (hjti : c.jti = some jti) (hc' : c' ∈ s.issued)
    (hjti' : c'.jti = some jti') (hrow : (find jti' (inserted s.revoked jti c.exp)).isSome) :
    (find jti' (purged (inserted s.revoked jti c.exp) cutoff)).isSome ∨
      c'.exp < cutoff ∧ (jti', c'.exp) ∈ inserted s.revoked jti c.exp := by
  refine (find_purged hrow).imp_right fun hgone => ?_
  obtain ⟨exp, hmem, hpast⟩ := hgone
  obtain ⟨c'', hc'', hsame, hexp⟩ := h.rows_inserted hc hjti _ hmem
  have heq : c' = c'' := h.distinct c' hc' c'' hc'' (by simp [hjti']) (by rw [hjti', hsame])
  simp only at hexp
  rw [heq, hexp]
  exact ⟨hpast, hmem⟩

/-- Of the row of an issued token, the purge knows the expiry. -/
theorem Inv.logout (h : Inv ttl logouts s) {cutoff : ℕ} {jti : String} (hc : c ∈ s.issued)
    (hjti : c.jti = some jti) (hmigrated : s.migrated = true) (hcutoff : cutoff ≤ s.now)
    (hquiet : logouts → PurgesQuietly s (.logout c cutoff)) :
    Inv ttl logouts { s with
      revoked := purged (inserted s.revoked jti c.exp) cutoff
      revocations := ⟨.logout, c, s.now⟩ :: s.revocations } := by
  set t : Service := { s with
      revoked := purged (inserted s.revoked jti c.exp) cutoff
      revocations := ⟨.logout, c, s.now⟩ :: s.revocations }
  have hlater : Later s t := by
    refine ⟨le_rfl, fun v hv => ?_⟩
    rcases List.mem_cons.mp hv with rfl | hold
    · exact .inr le_rfl
    · exact .inl hold
  have hrows := h.rows_inserted hc hjti
  have hrow : ∀ v ∈ t.revocations, v.cause = .logout → v.claims ∈ s.issued ∧
      ∃ jti', v.claims.jti = some jti' ∧
        ((find jti' (inserted s.revoked jti c.exp)).isSome ∨ v ∈ s.revocations ∧
          (find jti' s.revoked).isSome = false) := by
    intro v hv hcause
    rcases List.mem_cons.mp hv with rfl | hold
    · exact ⟨hc, jti, hjti, .inl (find_inserted (.inr rfl))⟩
    · obtain ⟨jti', hjti', -⟩ := h.loggedOut v hold hcause
      refine ⟨(h.known v hold).1, jti', hjti', ?_⟩
      cases hfound : (find jti' s.revoked).isSome with
      | true => exact .inl (find_inserted (.inl hfound))
      | false => exact .inr ⟨hold, rfl⟩
  exact {
    distinct := h.distinct
    carried := h.carried
    known := fun v hv => by
      rcases List.mem_cons.mp hv with rfl | hold
      · exact ⟨hc, le_rfl⟩
      · exact h.known v hold
    versions := h.versions
    unmigrated := fun hfalse => by
      have hkeep : s.migrated = false := hfalse
      rw [hmigrated] at hkeep
      cases hkeep
    rows := fun row hmem => hrows row (List.mem_filter.mp hmem).1
    outdated := fun v hv hcause => by
      rcases List.mem_cons.mp hv with rfl | hold
      · cases hcause
      · exact h.outdated v hold hcause
    loggedOut := fun v hv hcause => by
      obtain ⟨hissued, jti', hjti', hpresent | ⟨hold, habsent⟩⟩ := hrow v hv hcause
      · refine ⟨jti', hjti', (h.kept_or_past hc hjti hissued hjti' hpresent).imp_right fun hpast => ?_⟩
        exact hpast.1.trans_le hcutoff
      · obtain ⟨jti'', hsame, hpresent | hpast⟩ := h.loggedOut v hold hcause
        · obtain rfl : jti'' = jti' := Option.some.inj (hsame.symm.trans hjti')
          rw [habsent] at hpresent
          cases hpresent
        · exact ⟨jti', hjti', .inr hpast⟩
    quiet := fun hlogouts v hv hcause jti' hjti' => by
      obtain ⟨hissued, jti'', hsame, hcase⟩ := hrow v hv hcause
      obtain rfl : jti'' = jti' := Option.some.inj (hsame.symm.trans hjti')
      rcases hcase with hpresent | ⟨hold, habsent⟩
      · refine (h.kept_or_past hc hjti hissued hjti' hpresent).imp_right fun hpast r hr hclaims => ?_
        exact hquiet hlogouts jti hjti _ hpast.2 hpast.1 r hr (by rw [hclaims, hjti'])
      · refine .inr ((h.quiet hlogouts v hold hcause jti'' hjti').resolve_left ?_)
        rw [habsent]
        exact Bool.false_ne_true
    cache := fun e he => hlater.entry (h.cache e he)
    requests := fun r hr => hlater.request (h.requests r hr) }

theorem Inv.step (h : Inv ttl logouts s) {e : Event} (hstep : s.step ttl e = some t)
    (hquiet : logouts → PurgesQuietly s e) : Inv ttl logouts t := by
  cases e <;> simp only [Service.step] at hstep
  case tick d =>
    cases hstep
    exact h.tick d
  case migrate =>
    cases hstep
    exact { h with unmigrated := fun hnever => by cases hnever }
  case issue c =>
    split at hstep
    · rename_i hnew
      cases hstep
      exact h.issue hnew.2.2.2.1 hnew.2.2.2.2
    · cases hstep
  case arrive worker c =>
    split at hstep
    · rename_i hdecodes
      cases hstep
      exact h.arrive worker hdecodes.1 hdecodes.2
    · cases hstep
  case move i m =>
    obtain ⟨r, hr, hadvance⟩ := Option.bind_eq_some_iff.mp hstep
    exact h.advance hr hadvance
  case logout c cutoff =>
    split at hstep
    · rename_i hopen
      obtain ⟨jti, hjti, rfl⟩ := Option.map_eq_some_iff.mp hstep
      exact h.logout hopen.1 (Option.eq_some_of_filter_eq_some hjti) hopen.2.1 hopen.2.2 hquiet
    · cases hstep
  case forget worker id =>
    cases hstep
    exact { h with cache := fun e he => h.cache e (List.mem_filter.mp he).1 }
  case bump id =>
    split at hstep
    · rename_i hmigrated
      obtain ⟨row, hrow, rfl⟩ := Option.map_eq_some_iff.mp hstep
      exact h.outdate hrow rfl hmigrated
    · cases hstep
  case deactivate id =>
    split at hstep
    · rename_i hmigrated
      obtain ⟨row, hrow, rfl⟩ := Option.map_eq_some_iff.mp hstep
      exact h.outdate (Option.eq_some_of_filter_eq_some hrow) rfl hmigrated
    · cases hstep
  case activate id =>
    obtain ⟨row, hrow, rfl⟩ := Option.map_eq_some_iff.mp hstep
    exact h.writeUser (Option.eq_some_of_filter_eq_some hrow) rfl
  case setRole id role =>
    obtain ⟨row, hrow, rfl⟩ := Option.map_eq_some_iff.mp hstep
    exact h.writeUser hrow rfl
  case deleteUser id =>
    cases hstep
    exact h.users fun id' row hrow => ⟨row, (find_dropWhere_some hrow).2, rfl⟩

theorem Deployment.inv (d : Deployment) : Inv ttl logouts d.start where
  distinct := d.distinct
  carried r hr := by cases hr
  known v hv := by cases hv
  versions := d.versions
  unmigrated _ := rfl
  rows row hrow := by cases hrow
  outdated v hv := by cases hv
  loggedOut v hv := by cases hv
  quiet _ v hv := by cases hv
  cache e he := by cases he
  requests r hr := by cases hr

variable {d : Deployment} {tr : List Event}

theorem inv_of_run (run : Steps (Takes (Service.step ttl)) d.start tr s) : Inv ttl False s :=
  run.stable d.inv fun _ _ _ h hstep => h.step hstep False.elim

theorem inv_of_quiet_run
    (run : Steps (Guarded (Takes (Service.step ttl)) PurgesQuietly) d.start tr s) :
    Inv ttl True s :=
  run.stable d.inv fun _ _ _ h hstep => h.step hstep.2 fun _ => hstep.1

theorem Inv.revokedFor (h : Inv ttl logouts s) :
    s.RevokedFor ttl fun v => v.cause = .version ∨ logouts := by
  intro r hr now role hstage v hv hcounts hclaims
  have hok := h.requests r hr
  rw [RequestOk, hstage] at hok
  exact hok.2 v hv hcounts hclaims

/-- Up to its expiry a revoked token is refused by every state read from the database. -/
theorem Inv.refuses_unexpired (h : Inv ttl logouts s) (hv : v ∈ s.revocations)
    (hexp : s.now ≤ v.claims.exp) : v.claims.passes (s.fetchState v.claims) = false := by
  cases hcause : v.cause with
  | version => exact (h.outdated v hv hcause).not_passes v.claims rfl
  | logout =>
    obtain ⟨jti, hjti, hrow | hpast⟩ := h.loggedOut v hv hcause
    · exact not_passes_of_row hjti hrow v.claims rfl
    · omega

end Invariant

/-- Where no purge deletes a row under a request that still reads, every revocation takes
effect within the lifetime of a cache entry. In every run a new version takes effect so,
and the purge takes no row of an unexpired token. -/
theorem revocation_takes_effect (ttl : ℕ) (d : Deployment) :
    (∀ tr s, Steps (Guarded (Takes (Service.step ttl)) PurgesQuietly) d.start tr s →
      s.RevokedFor ttl fun _ => True) ∧
    ∀ tr s, Steps (Takes (Service.step ttl)) d.start tr s →
      s.RevokedFor ttl (fun v => v.cause = .version) ∧
      ∀ v ∈ s.revocations, s.now ≤ v.claims.exp →
        v.claims.passes (s.fetchState v.claims) = false := by
  refine ⟨fun tr s run => ?_, fun tr s run => ⟨?_, fun v hv hexp => ?_⟩⟩
  · intro r hr now role hstage v hv _ hclaims
    exact (inv_of_quiet_run run).revokedFor r hr now role hstage v hv (.inr trivial) hclaims
  · intro r hr now role hstage v hv hcause hclaims
    exact (inv_of_run run).revokedFor r hr now role hstage v hv (.inl hcause) hclaims
  · exact (inv_of_run run).refuses_unexpired hv hexp

section Example

/-- Two sessions of one user. -/
def twoSessions : Deployment where
  migrated := true
  users := [(1, ⟨"viewer", some true, 0⟩)]
  issued := [⟨1, "viewer", some "a", 0, 100⟩, ⟨1, "viewer", some "b", 0, 1000⟩]
  distinct := by decide
  versions := by decide

instance (s : Service) (e : Event) : Decidable (PurgesQuietly s e) :=
  match e with
  | .logout c cutoff => inferInstanceAs (Decidable (∀ jti ∈ c.jti,
      ∀ row ∈ inserted s.revoked jti c.exp, row.2 < cutoff → ∀ r ∈ s.requests,
        r.claims.jti = some row.1 → r.stage.reading = false))
  | .tick _ | .migrate | .issue _ | .arrive .. | .move .. | .forget .. | .bump _ | .deactivate _
  | .activate _ | .setRole .. | .deleteUser _ => .isTrue trivial

/-- A request is served from the cache within the lifetime of its entry; the database
would refuse it. -/
theorem revocation_takes_effect_logout :
    ∃ (s : Service) (r : Request) (v : Revocation), r ∈ s.requests ∧
      r.stage = .accepted 10 "viewer" ∧ v ∈ s.revocations ∧ v.claims = r.claims ∧
      v.cause = .logout ∧ 10 ≤ v.committed + 15 ∧
      v.claims.passes (s.fetchState v.claims) = false := by
  obtain ⟨s, run, -, hp⟩ := exists_play (gated (Service.step 15) PurgesQuietly) twoSessions.start
    [.arrive 0 ⟨1, "viewer", some "a", 0, 100⟩, .move 0 .start, .move 0 .lookup, .move 0 .fetch,
      .move 0 .store, .logout ⟨1, "viewer", some "a", 0, 100⟩ 0, .tick 10,
      .arrive 0 ⟨1, "viewer", some "a", 0, 100⟩, .move 1 .start, .move 1 .lookup, .move 1 .decide]
    (fun s => s.requests[1]? = some ⟨0, ⟨1, "viewer", some "a", 0, 100⟩, .accepted 10 "viewer"⟩ &&
      s.revocations = [⟨.logout, ⟨1, "viewer", some "a", 0, 100⟩, 0⟩] && s.now = 10)
    (by decide +kernel)
  simp only [Bool.and_eq_true, decide_eq_true_eq] at hp
  obtain ⟨⟨hr, hrev⟩, hnow⟩ := hp
  have hmem := List.mem_of_getElem? hr
  have hv : ⟨.logout, ⟨1, "viewer", some "a", 0, 100⟩, 0⟩ ∈ s.revocations :=
    hrev ▸ List.mem_singleton.mpr rfl
  have hquiet := run.mono fun _ _ _ => gated_guarded
  refine ⟨s, _, _, hmem, rfl, hv, rfl, rfl, ?_, ?_⟩
  · exact (revocation_takes_effect 15 twoSessions).1 _ s hquiet _ hmem 10 "viewer" rfl _ hv trivial rfl
  · refine ((revocation_takes_effect 15 twoSessions).2 _ s (Guarded.run hquiet)).2 _ hv ?_
    rw [hnow]
    decide

/-- The token decodes a second before its expiry; before the request reads, another logout
purges its row, and a check that began 99 seconds after the logout is accepted. -/
theorem logged_out_accepted :
    ∃ (s : Service) (tr : List Event) (r : Request) (v : Revocation),
      Steps (Takes (Service.step 15)) twoSessions.start tr s ∧ r ∈ s.requests ∧
      r.stage = .accepted 99 "viewer" ∧ v ∈ s.revocations ∧ v.claims = r.claims ∧
      v.cause = .logout ∧ v.committed + 15 < 99 := by
  obtain ⟨s, run, -, hp⟩ := exists_play (Service.step 15) twoSessions.start
    [.logout ⟨1, "viewer", some "a", 0, 100⟩ 0, .tick 99,
      .arrive 0 ⟨1, "viewer", some "a", 0, 100⟩, .move 0 .start, .move 0 .lookup, .tick 2,
      .logout ⟨1, "viewer", some "b", 0, 1000⟩ 101, .move 0 .fetch, .move 0 .store,
      .move 0 .decide]
    (fun s => s.requests[0]? = some ⟨0, ⟨1, "viewer", some "a", 0, 100⟩, .accepted 99 "viewer"⟩ &&
      s.revocations = [⟨.logout, ⟨1, "viewer", some "b", 0, 1000⟩, 101⟩,
        ⟨.logout, ⟨1, "viewer", some "a", 0, 100⟩, 0⟩]) (by decide +kernel)
  rw [Bool.and_eq_true, decide_eq_true_eq, decide_eq_true_eq] at hp
  obtain ⟨hr, hrev⟩ := hp
  exact ⟨s, _, _, ⟨.logout, ⟨1, "viewer", some "a", 0, 100⟩, 0⟩, run, List.mem_of_getElem? hr,
    rfl, hrev ▸ List.mem_cons_of_mem _ (List.mem_singleton.mpr rfl), rfl, rfl, by decide⟩

end Example

end MonitoringHub.Sessions
