import Mathlib.Data.List.Basic
import MonitoringHub.Ingest.Credentials

/-! What the daily retention of credentials changes: nothing that an agent can see. A dead token
and a spent key answer like a missing one, so a run and the same run without its deletions agree on
all that is still of use. -/

namespace MonitoringHub.Ingest
open Lib

/-- What is dropped from a list stays dropped under a function that revives nothing. -/
theorem filter_map_revives_none {α β : Type*} {p : α → Bool} {q : β → Bool} {f : α → β}
    (h : ∀ a, p a = false → q (f a) = false) (rows : List α) :
    (rows.map f).filter q = ((rows.filter p).map f).filter q := by
  induction rows with
  | nil => rfl
  | cons a rows ih =>
    by_cases ha : p a = true
    · rw [List.filter_cons_of_pos ha, List.map_cons, List.map_cons, List.filter_cons,
        List.filter_cons, ih]
    · have ha' : p a = false := Bool.not_eq_true _ ▸ ha
      rw [List.filter_cons_of_neg ha, List.map_cons, List.filter_cons_of_neg (by simp [h a ha']),
        ih]

theorem EnrollmentKey.valid_antitone {k : EnrollmentKey} {now later : ℕ} (hle : now ≤ later)
    (h : k.valid now = false) : k.valid later = false := by
  rw [Bool.eq_false_iff] at h ⊢
  refine fun hvalid => h ?_
  simp only [EnrollmentKey.valid, Bool.and_eq_true, Option.all_eq_true, decide_eq_true_eq]
    at hvalid ⊢
  exact ⟨hvalid.1, fun e he => hle.trans_lt (hvalid.2 e he)⟩

theorem EnrollmentKey.not_spent {k : EnrollmentKey} {now : ℕ} (h : k.valid now = true) :
    (k.revoked || k.maxUses ≤ k.usedCount || k.expiresAt.any fun e => e < now) = false := by
  simp only [EnrollmentKey.valid, Bool.and_eq_true, Bool.not_eq_true', decide_eq_true_eq] at h
  obtain ⟨⟨hrevoked, hleft⟩, hexpiry⟩ := h
  rw [hrevoked, decide_eq_false (not_le.mpr hleft), Bool.false_or, Bool.false_or]
  cases hexp : k.expiresAt with
  | none => rfl
  | some e =>
    have hlt : now < e := by simpa [hexp] using hexpiry
    exact decide_eq_false (not_lt.mpr hlt.le)

namespace Credentials
variable {b : Backend} {s t : Credentials} {tr : List CredentialEvent}

/-- The credentials that are still of use: the live tokens and the valid keys. -/
def standing (s : Credentials) : Credentials :=
  { s with
    keys := s.keys.filter (EnrollmentKey.valid s.now)
    tokens := s.tokens.filter AgentToken.live }

theorem standing_eq_of {s t : Credentials}
    (hkeys : s.keys.filter (EnrollmentKey.valid s.now) =
      t.keys.filter (EnrollmentKey.valid t.now))
    (htokens : s.tokens.filter AgentToken.live = t.tokens.filter AgentToken.live)
    (hrest : { s with keys := [], tokens := [] } = { t with keys := [], tokens := [] }) :
    s.standing = t.standing := by
  cases s
  cases t
  simp_all [standing]

theorem valid_standing : s.keys.filter (EnrollmentKey.valid s.now) =
    s.standing.keys.filter (EnrollmentKey.valid s.now) := by
  simp [standing]

theorem live_standing :
    s.tokens.filter AgentToken.live = s.standing.tokens.filter AgentToken.live := by
  simp [standing]

/-- `UPDATE`s of the keys read the valid ones, and revive none. -/
theorem keys_standing {f : EnrollmentKey → EnrollmentKey} {now : ℕ}
    (hf : ∀ k, k.valid s.now = false → (f k).valid now = false) :
    (s.keys.map f).filter (EnrollmentKey.valid now) =
      (s.standing.keys.map f).filter (EnrollmentKey.valid now) :=
  filter_map_revives_none hf s.keys

theorem tokens_standing (host now : ℕ) :
    (s.tokens.map (AgentToken.revoke host now)).filter AgentToken.live =
      (s.standing.tokens.map (AgentToken.revoke host now)).filter AgentToken.live := by
  refine filter_map_revives_none (fun u hu => ?_) s.tokens
  rw [AgentToken.revoke_live, hu]
  rfl

theorem opens_filter (req : EnrollRequest) :
    s.keys.filter (opens b s.now req) = s.standing.keys.filter (opens b s.now req) := by
  unfold standing opens
  rw [List.filter_filter]
  refine List.filter_congr fun k _ => ?_
  cases k.valid s.now <;> simp

/-- The hashes that the two tables hold. -/
def hashes (s : Credentials) : List String :=
  s.tokens.map AgentToken.tokenHash ++ s.keys.map EnrollmentKey.keyHash

theorem standing_hashes : s.standing.hashes ⊆ s.hashes := by
  refine List.append_subset.mpr ⟨?_, ?_⟩
  · exact fun _ h => List.mem_append_left _ ((List.filter_sublist.map _).subset h)
  · exact fun _ h => List.mem_append_right _ ((List.filter_sublist.map _).subset h)

theorem standing_standing : s.standing.standing = s.standing :=
  standing_eq_of (by simp [standing]) (by simp [standing]) rfl

theorem answered_congr {α : Type} [DecidableEq α] {reply : α} {out out' : Credentials × α}
    (hreply : out.2 = out'.2) (hstate : out.1.standing = out'.1.standing) :
    (answered reply out).map standing = (answered reply out').map standing := by
  unfold answered
  rw [hreply]
  split
  · exact congrArg some hstate
  · rfl

theorem gate_congr {out out' : Option Credentials} (henabled : s.enabled = t.enabled)
    (h : out.map standing = out'.map standing) :
    (s.gate out).map standing = (t.gate out').map standing := by
  unfold gate
  rw [henabled]
  split
  · exact h
  · rfl

theorem unseen_tokens {hash : String} (h : hash ∉ s.hashes) :
    (s.tokens.any fun u => u.tokenHash = hash) = false := by
  rw [List.any_eq_false]
  intro u hu heq
  exact h (List.mem_append_left _ (List.mem_map.mpr ⟨u, hu, of_decide_eq_true heq⟩))

theorem unseen_keys {hash : String} (h : hash ∉ s.hashes) :
    (s.keys.any fun k => k.keyHash = hash) = false := by
  rw [List.any_eq_false]
  intro k hk heq
  exact h (List.mem_append_right _ (List.mem_map.mpr ⟨k, hk, of_decide_eq_true heq⟩))

theorem enroll_standing {req : EnrollRequest} {token : String}
    (hnew : b.hashSecret token ∉ s.hashes) :
    (s.enroll b req token).2 = (s.standing.enroll b req token).2 ∧
      (s.enroll b req token).1.standing = (s.standing.enroll b req token).1.standing := by
  have hopens : s.standing.keys.filter (opens b s.standing.now req) =
      s.keys.filter (opens b s.now req) := (opens_filter (s := s) req).symm
  unfold enroll
  rw [hopens, unseen_tokens hnew, unseen_tokens fun h => hnew (standing_hashes h)]
  rw [show s.standing.enabled = s.enabled from rfl]
  split
  · exact ⟨rfl, standing_standing.symm⟩
  · split
    · exact ⟨rfl, standing_standing.symm⟩
    · split
      · rename_i key _
        rw [show s.standing.accounts = s.accounts from rfl]
        split
        · exact ⟨rfl, standing_standing.symm⟩
        · refine ⟨rfl, standing_eq_of (keys_standing fun k hk => ?_) ?_ rfl⟩
          · have hclosed : opens b s.now req k = false := by rw [opens, hk, Bool.false_and]
            rw [hclosed]
            exact hk
          · simp only [Bool.false_eq_true, if_false]
            rw [List.filter_append, List.filter_append, tokens_standing]
            rfl
      · exact ⟨rfl, standing_standing.symm⟩

theorem createKey_standing {accessible : Option (List ℕ)} {account maxUses hours : ℕ}
    {key : String} (hnew : b.hashSecret key ∉ s.hashes) :
    (s.createKey b accessible account maxUses hours key).2 =
        (s.standing.createKey b accessible account maxUses hours key).2 ∧
      (s.createKey b accessible account maxUses hours key).1.standing =
        (s.standing.createKey b accessible account maxUses hours key).1.standing := by
  unfold createKey
  rw [unseen_keys hnew, unseen_keys fun h => hnew (standing_hashes h)]
  rw [show s.standing.accounts = s.accounts from rfl]
  split
  · exact ⟨rfl, standing_standing.symm⟩
  · refine ⟨rfl, standing_eq_of ?_ live_standing rfl⟩
    rw [List.filter_append, List.filter_append]
    exact congrArg (· ++ _) (valid_standing (s := s))

theorem revokeHost_standing (accessible : Option (List ℕ)) (host : ℕ) :
    (s.revokeHost accessible host).2 = (s.standing.revokeHost accessible host).2 ∧
      (s.revokeHost accessible host).1.standing =
        (s.standing.revokeHost accessible host).1.standing := by
  unfold revokeHost
  rw [show s.standing.hosts = s.hosts from rfl]
  split
  · exact ⟨rfl, standing_standing.symm⟩
  · split
    · exact ⟨rfl, standing_standing.symm⟩
    · refine ⟨congrArg some ?_, standing_eq_of ?_ (tokens_standing _ _) rfl⟩
      · unfold standing
        rw [List.countP_filter]
        exact List.countP_congr fun u _ => by simp
      · exact valid_standing

theorem revokeKey_standing (accessible : Option (List ℕ)) (key : ℕ) :
    (s.revokeKey accessible key).standing = (s.standing.revokeKey accessible key).standing := by
  refine standing_eq_of (keys_standing fun k hk => ?_) live_standing rfl
  split
  · rfl
  · exact hk

theorem hostChanged_standing (host : ℕ) (row : HostRow) :
    (s.hostChanged host row).map standing = (s.standing.hostChanged host row).map standing := by
  unfold hostChanged
  rw [show s.standing.hosts = s.hosts from rfl]
  cases s.hosts[host]? with
  | none => rfl
  | some old =>
    simp only [Option.bind_some]
    split
    · exact congrArg some (standing_eq_of valid_standing live_standing rfl)
    · rfl

theorem wait_standing (seconds : ℕ) :
    { s with now := s.now + seconds }.standing =
      { s.standing with now := s.standing.now + seconds }.standing := by
  refine standing_eq_of ?_ live_standing rfl
  have hdead := filter_map_revives_none (p := EnrollmentKey.valid s.now)
    (q := EnrollmentKey.valid (s.now + seconds)) (f := id)
    (fun k hk => EnrollmentKey.valid_antitone (Nat.le_add_right _ _) hk) s.keys
  rw [List.map_id, List.map_id] at hdead
  exact hdead

theorem authenticateAgent_standing (hunique : (s.tokens.map AgentToken.tokenHash).Nodup)
    (token : String) : s.authenticateAgent b token = s.standing.authenticateAgent b token := by
  have hunique' : (s.standing.tokens.map AgentToken.tokenHash).Nodup :=
    hunique.sublist (List.filter_sublist.map _)
  refine Option.ext fun who => ?_
  rw [authenticateAgent_eq_some hunique, authenticateAgent_eq_some hunique']
  have hmem : ⟨who.hostAgentId, b.hashSecret token, none⟩ ∈ s.standing.tokens ↔
      ⟨who.hostAgentId, b.hashSecret token, none⟩ ∈ s.tokens :=
    List.mem_filter.trans (and_iff_left rfl)
  rw [hmem]
  rfl

end Credentials

/-- The hash of what the server draws at a request. -/
def drawn (b : Backend) : CredentialEvent → List String
  | .createKey _ _ _ _ key _ => [b.hashSecret key]
  | .enroll _ token _ => [b.hashSecret token]
  | _ => []

/-- The daily deletions. -/
def CredentialEvent.prunes : CredentialEvent → Bool
  | .pruneTokens .. | .pruneKeys .. => true
  | _ => false

namespace Credentials
variable {b : Backend} {s t : Credentials} {tr : List CredentialEvent}

/-- A deletion drops nothing that is still of use. -/
theorem prune_standing {e : CredentialEvent} (he : e.prunes = true)
    (hstep : s.step b e = some t) : t.standing = s.standing := by
  cases e <;> try cases he
  case pruneTokens days batch =>
    obtain rfl := Option.some.inj hstep
    unfold pruneTokens
    split
    · rfl
    · refine standing_eq_of rfl ?_ rfl
      rw [List.filter_filter]
      refine List.filter_congr fun u _ => ?_
      cases hr : u.revokedAt <;> simp [AgentToken.live, hr]
  case pruneKeys days batch =>
    obtain rfl := Option.some.inj hstep
    unfold pruneKeys
    split
    · rfl
    · refine standing_eq_of ?_ rfl rfl
      rw [List.filter_filter]
      refine List.filter_congr fun k _ => ?_
      by_cases hk : k.valid s.now = true
      · rw [EnrollmentKey.not_spent hk, Bool.and_false, Bool.not_false, Bool.and_true]
      · simp [hk]

/-- Any other request sees, and leaves, only what is still of use. -/
theorem step_standing {e : CredentialEvent} (he : e.prunes = false)
    (hunique : (s.tokens.map AgentToken.tokenHash).Nodup) (hnew : ∀ h ∈ drawn b e, h ∉ s.hashes) :
    (s.step b e).map standing = (s.standing.step b e).map standing := by
  cases e with
  | wait seconds => exact congrArg some (wait_standing seconds)
  | accountsChanged | switched =>
    exact congrArg some (standing_eq_of valid_standing live_standing rfl)
  | hostChanged host row => exact hostChanged_standing host row
  | createKey accessible account maxUses hours key reply =>
    obtain ⟨hreply, hstate⟩ := createKey_standing (hnew _ (List.mem_singleton_self _))
    exact gate_congr rfl (answered_congr hreply hstate)
  | revokeKey accessible key => exact gate_congr rfl (congrArg some (revokeKey_standing _ _))
  | enroll req token reply =>
    obtain ⟨hreply, hstate⟩ := enroll_standing (hnew _ (List.mem_singleton_self _))
    exact answered_congr hreply hstate
  | revokeHost accessible host reply =>
    obtain ⟨hreply, hstate⟩ := revokeHost_standing (s := s) accessible host
    exact gate_congr rfl (answered_congr hreply hstate)
  | authenticate token reply =>
    exact answered_congr (authenticateAgent_standing hunique token) standing_standing.symm
  | pruneTokens | pruneKeys => cases he

theorem hash_kept {h : String} (hh : h ∈ t.hashes)
    (htokens : ∀ u ∈ t.tokens, u.tokenHash ∈ s.hashes)
    (hkeys : ∀ k ∈ t.keys, k.keyHash ∈ s.hashes) : h ∈ s.hashes := by
  rcases List.mem_append.mp hh with hh | hh
  · obtain ⟨u, hu, rfl⟩ := List.mem_map.mp hh
    exact htokens u hu
  · obtain ⟨k, hk, rfl⟩ := List.mem_map.mp hh
    exact hkeys k hk

theorem tokenHash_mem {u : AgentToken} (hu : u ∈ s.tokens) : u.tokenHash ∈ s.hashes :=
  List.mem_append_left _ (List.mem_map_of_mem hu)

theorem keyHash_mem {k : EnrollmentKey} (hk : k ∈ s.keys) : k.keyHash ∈ s.hashes :=
  List.mem_append_right _ (List.mem_map_of_mem hk)

theorem revoked_hash_mem {host now : ℕ} {u : AgentToken}
    (hu : u ∈ s.tokens.map (AgentToken.revoke host now)) : u.tokenHash ∈ s.hashes := by
  obtain ⟨v, hv, rfl⟩ := List.mem_map.mp hu
  rw [AgentToken.revoke_tokenHash]
  exact tokenHash_mem hv

theorem updated_hash_mem {f : EnrollmentKey → EnrollmentKey} (hf : ∀ k, (f k).keyHash = k.keyHash)
    {k : EnrollmentKey} (hk : k ∈ s.keys.map f) : k.keyHash ∈ s.hashes := by
  obtain ⟨k', hk', rfl⟩ := List.mem_map.mp hk
  rw [hf]
  exact keyHash_mem hk'

theorem enroll_hashes {req : EnrollRequest} {token : String} {reply : EnrollReply}
    (hstep : s.enroll b req token = (t, reply)) :
    ∀ h ∈ t.hashes, h ∈ s.hashes ∨ h = b.hashSecret token := by
  intro h hh
  cases reply with
  | enrolled keyId host =>
    obtain ⟨key, -, -, -, -, rfl⟩ := enroll_enrolled hstep
    rcases List.mem_append.mp hh with hh | hh
    · obtain ⟨u, hu, rfl⟩ := List.mem_map.mp hh
      rcases List.mem_append.mp hu with hu | hu
      · exact .inl (revoked_hash_mem hu)
      · rw [List.mem_singleton.mp hu]
        exact .inr rfl
    · obtain ⟨k, hk, rfl⟩ := List.mem_map.mp hh
      refine .inl (updated_hash_mem (fun k => ?_) hk)
      split <;> rfl
  | notFound | invalidKey | serverError =>
    obtain rfl := enroll_refused hstep fun _ _ hne => EnrollReply.noConfusion hne
    exact .inl hh

theorem createKey_hashes {accessible : Option (List ℕ)} {account maxUses hours : ℕ}
    {key : String} {reply : Option ℕ}
    (hstep : s.createKey b accessible account maxUses hours key = (t, reply)) :
    ∀ h ∈ t.hashes, h ∈ s.hashes ∨ h = b.hashSecret key := by
  intro h hh
  unfold createKey at hstep
  split at hstep
  · obtain rfl := (Prod.mk.inj hstep).1
    exact .inl hh
  · obtain rfl := (Prod.mk.inj hstep).1
    rcases List.mem_append.mp hh with hh | hh
    · exact .inl (List.mem_append_left _ hh)
    · rw [List.map_append, List.mem_append] at hh
      rcases hh with hh | hh
      · exact .inl (List.mem_append_right _ hh)
      · exact .inr (List.mem_singleton.mp hh)

/-- A request adds the hash of what is drawn at it, and no other. -/
theorem step_hashes {e : CredentialEvent} (hstep : s.step b e = some t) :
    ∀ h ∈ t.hashes, h ∈ s.hashes ∨ h ∈ drawn b e := by
  intro h hh
  cases e with
  | wait | accountsChanged | switched =>
    obtain rfl := Option.some.inj hstep
    exact .inl hh
  | hostChanged host row =>
    obtain ⟨old, -, hstep⟩ := Option.bind_eq_some_iff.mp hstep
    split at hstep
    · obtain rfl := Option.some.inj hstep
      exact .inl hh
    · cases hstep
  | createKey accessible account maxUses hours key reply =>
    exact (createKey_hashes (answered_some (gate_some hstep)) h hh).imp_right
      List.mem_singleton.mpr
  | revokeKey accessible key =>
    obtain rfl := Option.some.inj (gate_some hstep)
    refine .inl (hash_kept hh (fun u hu => tokenHash_mem hu) fun k hk =>
      updated_hash_mem (fun k => ?_) hk)
    split <;> rfl
  | enroll req token reply =>
    exact (enroll_hashes (answered_some hstep) h hh).imp_right List.mem_singleton.mpr
  | revokeHost accessible host reply =>
    cases reply with
    | none =>
      obtain rfl := revokeHost_none (answered_some (gate_some hstep))
      exact .inl hh
    | some n =>
      obtain rfl := revokeHost_some (answered_some (gate_some hstep))
      exact .inl (hash_kept hh (fun u hu => revoked_hash_mem hu) fun k hk => keyHash_mem hk)
  | authenticate token reply =>
    obtain rfl := (Prod.mk.inj (answered_some hstep)).1
    exact .inl hh
  | pruneTokens days batch =>
    obtain rfl := Option.some.inj hstep
    unfold pruneTokens at hh
    split at hh
    · exact .inl hh
    · exact .inl (hash_kept hh (fun u hu => tokenHash_mem (List.mem_of_mem_filter hu))
        fun k hk => keyHash_mem hk)
  | pruneKeys days batch =>
    obtain rfl := Option.some.inj hstep
    unfold pruneKeys at hh
    split at hh
    · exact .inl hh
    · exact .inl (hash_kept hh (fun u hu => tokenHash_mem hu)
        fun k hk => keyHash_mem (List.mem_of_mem_filter hk))

theorem hashes_of_run {accounts : List ℕ} {enabled : Bool} {now : ℕ}
    (run : Steps (Takes (step b)) (empty accounts enabled now) tr s) :
    ∀ h ∈ s.hashes, h ∈ tr.flatMap (drawn b) := by
  refine run.invariant (I := fun tr s => ∀ h ∈ s.hashes, h ∈ tr.flatMap (drawn b))
    (fun h hh => by cases hh) fun tr t e u hI hR h hh => ?_
  rw [List.flatMap_cons, List.mem_append]
  rcases step_hashes hR h hh with hold | hdrawn
  · exact .inr (hI h hold)
  · exact .inl hdrawn

end Credentials

/-- Where no two secrets that the server draws have one hash, its daily deletions change nothing
that an agent can see: without them every request is answered as it was, and what is still of use
in the end is the same. -/
theorem pruning_unseen {b : Backend} {accounts : List ℕ} {enabled : Bool} {now : ℕ}
    {tr : List CredentialEvent} {s : Credentials}
    (run : Steps (Takes (Credentials.step b)) (.empty accounts enabled now) tr s)
    (hdrawn : (tr.flatMap (drawn b)).Nodup) :
    ∃ t, Steps (Takes (Credentials.step b)) (.empty accounts enabled now)
        (tr.filter fun e => !e.prunes) t ∧
      t.standing = s.standing ∧
      ∀ token, t.authenticateAgent b token = s.authenticateAgent b token := by
  have herase := run.erase CredentialEvent.prunes (fun tr => (tr.flatMap (drawn b)).Nodup)
    (fun s t => t.standing = s.standing) rfl
    (fun e tr h => (List.nodup_append.mp (List.flatMap_cons ▸ h)).2.1)
    ?_ ?_ hdrawn
  · obtain ⟨t, run', hsim⟩ := herase
    refine ⟨t, run', hsim, fun token => ?_⟩
    rw [Credentials.authenticateAgent_standing (Credentials.witnessed_of_run run).unique,
      Credentials.authenticateAgent_standing (Credentials.witnessed_of_run run').unique, hsim]
  · intro t t' e u he hsim hR
    exact hsim.trans (Credentials.prune_standing he hR).symm
  · intro tr t t' e u hP he run run' hsim hR
    rw [List.flatMap_cons, List.nodup_append] at hP
    have hnew : ∀ h ∈ drawn b e, h ∉ t.hashes := fun h hh hin =>
      hP.2.2 h hh h (Credentials.hashes_of_run run h hin) rfl
    have hnew' : ∀ h ∈ drawn b e, h ∉ t'.hashes := by
      intro h hh hin
      obtain ⟨e', he', hh'⟩ := List.mem_flatMap.mp (Credentials.hashes_of_run run' h hin)
      exact hP.2.2 h hh h (List.mem_flatMap.mpr ⟨e', List.mem_of_mem_filter he', hh'⟩) rfl
    have hsame := Credentials.step_standing he (Credentials.witnessed_of_run run).unique hnew
    have hsame' := Credentials.step_standing he (Credentials.witnessed_of_run run').unique hnew'
    rw [← hsim, ← hsame', show t.step b e = some u from hR] at hsame
    obtain ⟨u', hu', hstate⟩ := Option.map_eq_some_iff.mp hsame.symm
    exact ⟨u', hu', hstate⟩

/-- The first token of a host, revoked, and its key, used up, are deleted. -/
def prunedEnrolments : List CredentialEvent :=
  twoEnrolments ++ [.wait 8640000, .pruneTokens 90 [firstToken], .pruneKeys 90 [0],
    .authenticate secondToken (some ⟨0, 1, "web", none, 1⟩)]

theorem pruning_unseen_two : ∃ s t,
    Steps (Takes (Credentials.step plainBackend)) (.empty [1] true 0) prunedEnrolments.reverse s ∧
      s.tokens.length = 1 ∧ s.keys = [] ∧
      Steps (Takes (Credentials.step plainBackend)) (.empty [1] true 0)
        (prunedEnrolments.reverse.filter fun e => !e.prunes) t ∧
      t.authenticateAgent plainBackend firstToken =
        s.authenticateAgent plainBackend firstToken := by
  obtain ⟨s, run, -, hs⟩ := exists_play (Credentials.step plainBackend) (.empty [1] true 0)
    prunedEnrolments (fun s => s.tokens.length = 1 && s.keys = []) (by decide +kernel)
  obtain ⟨htokens, hkeys⟩ := Bool.and_eq_true_iff.mp hs
  obtain ⟨t, run', -, hsame⟩ := pruning_unseen run (by decide +kernel)
  exact ⟨s, t, run, of_decide_eq_true htokens, of_decide_eq_true hkeys, run', hsame firstToken⟩

end MonitoringHub.Ingest
