import Mathlib.Data.List.Nodup
import MonitoringHub.Ingest.Credentials

/-! What an enrolment key lets through over its life. Its id is never given to another key, so its
row, as long as it is there, counts the enrolments since it was created. -/

namespace MonitoringHub.Ingest
open Lib

/-- The seconds that go by in an event. -/
def CredentialEvent.seconds : CredentialEvent → ℕ
  | .wait seconds => seconds
  | _ => 0

def waited : List CredentialEvent → ℕ
  | [] => 0
  | e :: older => waited older + e.seconds

/-- An enrolment that goes through on the key of this id. -/
def CredentialEvent.uses (id : ℕ) : CredentialEvent → Bool
  | .enroll _ _ (.enrolled keyId _) => keyId = id
  | _ => false

def CredentialEvent.revokes (account id : ℕ) : CredentialEvent → Bool
  | .revokeKey accessible key => key = id && inScope accessible account
  | _ => false

/-- The id of the key that an event creates. -/
def CredentialEvent.creates : CredentialEvent → Option ℕ
  | .createKey _ _ _ _ _ reply => reply
  | _ => none

namespace Credentials
variable {b : Backend} {s t : Credentials} {tr : List CredentialEvent}

/-- What a request does to the table of keys. -/
inductive KeyStep (b : Backend) (s t : Credentials) : CredentialEvent → Prop
  | quiet {e : CredentialEvent} (hcreates : e.creates = none) (huses : ∀ id, e.uses id = false)
      (hrevokes : ∀ account id, e.revokes account id = false) (hnext : t.nextKey = s.nextKey)
      (hkeys : t.keys.Sublist s.keys) : KeyStep b s t e
  | created {accessible : Option (List ℕ)} {account maxUses hours : ℕ} {key : String}
      (hnext : t.nextKey = s.nextKey + 1)
      (hkeys : t.keys = s.keys ++ [⟨s.nextKey, account, b.hashSecret key, maxUses, 0,
        some (s.now + hours * 3600), false, s.now⟩]) :
      KeyStep b s t (.createKey accessible account maxUses hours key (some s.nextKey))
  | revoked {accessible : Option (List ℕ)} {id : ℕ} (hnext : t.nextKey = s.nextKey)
      (hkeys : t.keys = s.keys.map fun k =>
        if k.id = id ∧ inScope accessible k.awsAccountId then { k with revoked := true } else k) :
      KeyStep b s t (.revokeKey accessible id)
  | used {req : EnrollRequest} {token : String} {key : EnrollmentKey} {host : ℕ}
      (hopens : s.keys.filter (opens b s.now req) = [key]) (hnext : t.nextKey = s.nextKey)
      (hkeys : t.keys = s.keys.map fun k =>
        if opens b s.now req k then { k with usedCount := k.usedCount + 1 } else k) :
      KeyStep b s t (.enroll req token (.enrolled key.id host))

theorem KeyStep.same {e : CredentialEvent} (hcreates : e.creates = none)
    (huses : ∀ id, e.uses id = false)
    (hrevokes : ∀ account id, e.revokes account id = false) (hnext : t.nextKey = s.nextKey)
    (hkeys : t.keys = s.keys) : KeyStep b s t e :=
  .quiet hcreates huses hrevokes hnext (hkeys ▸ List.Sublist.refl _)

/-- The clock and the table of keys after a request. -/
theorem step_keys {e : CredentialEvent} (hstep : s.step b e = some t) :
    t.now = s.now + e.seconds ∧ KeyStep b s t e := by
  cases e with
  | wait | accountsChanged | switched =>
    obtain rfl := Option.some.inj hstep
    exact ⟨rfl, .same rfl (fun _ => rfl) (fun _ _ => rfl) rfl rfl⟩
  | hostChanged host row =>
    obtain ⟨old, -, hstep⟩ := Option.bind_eq_some_iff.mp hstep
    split at hstep
    · obtain rfl := Option.some.inj hstep
      exact ⟨rfl, .same rfl (fun _ => rfl) (fun _ _ => rfl) rfl rfl⟩
    · cases hstep
  | createKey accessible account maxUses hours key reply =>
    have hout := answered_some (gate_some hstep)
    unfold createKey at hout
    split at hout
    · obtain ⟨rfl, rfl⟩ := Prod.mk.inj hout
      exact ⟨rfl, .same rfl (fun _ => rfl) (fun _ _ => rfl) rfl rfl⟩
    · obtain ⟨rfl, rfl⟩ := Prod.mk.inj hout
      exact ⟨rfl, .created rfl rfl⟩
  | revokeKey accessible key =>
    obtain rfl := Option.some.inj (gate_some hstep)
    exact ⟨rfl, .revoked rfl rfl⟩
  | enroll req token reply =>
    have hout := answered_some hstep
    cases reply with
    | enrolled keyId host =>
      obtain ⟨key, hopens, rfl, -, -, rfl⟩ := enroll_enrolled hout
      exact ⟨rfl, .used hopens rfl rfl⟩
    | notFound | invalidKey | serverError =>
      obtain rfl := enroll_refused hout fun _ _ hne => EnrollReply.noConfusion hne
      exact ⟨rfl, .same rfl (fun _ => rfl) (fun _ _ => rfl) rfl rfl⟩
  | revokeHost accessible host reply =>
    cases reply with
    | none =>
      obtain rfl := revokeHost_none (answered_some (gate_some hstep))
      exact ⟨rfl, .same rfl (fun _ => rfl) (fun _ _ => rfl) rfl rfl⟩
    | some n =>
      obtain rfl := revokeHost_some (answered_some (gate_some hstep))
      exact ⟨rfl, .same rfl (fun _ => rfl) (fun _ _ => rfl) rfl rfl⟩
  | authenticate token reply =>
    obtain rfl := (Prod.mk.inj (answered_some hstep)).1
    exact ⟨rfl, .same rfl (fun _ => rfl) (fun _ _ => rfl) rfl rfl⟩
  | pruneTokens days batch =>
    obtain rfl := Option.some.inj hstep
    unfold pruneTokens
    split
    all_goals exact ⟨rfl, .same rfl (fun _ => rfl) (fun _ _ => rfl) rfl rfl⟩
  | pruneKeys days batch =>
    obtain rfl := Option.some.inj hstep
    unfold pruneKeys
    split
    · exact ⟨rfl, .same rfl (fun _ => rfl) (fun _ _ => rfl) rfl rfl⟩
    · exact ⟨rfl, .quiet rfl (fun _ => rfl) (fun _ _ => rfl) rfl List.filter_sublist⟩

/-- Ids of keys are handed out in order, and never again. -/
structure Numbered (s : Credentials) : Prop where
  unique : (s.keys.map EnrollmentKey.id).Nodup
  below : ∀ k ∈ s.keys, k.id < s.nextKey

theorem map_ids {f : EnrollmentKey → EnrollmentKey} (hf : ∀ k, (f k).id = k.id)
    (keys : List EnrollmentKey) :
    (keys.map f).map EnrollmentKey.id = keys.map EnrollmentKey.id := by
  rw [List.map_map]
  exact List.map_congr_left fun k _ => hf k

theorem Numbered.mapped (h : Numbered s) {f : EnrollmentKey → EnrollmentKey}
    (hf : ∀ k, (f k).id = k.id) (hnext : t.nextKey = s.nextKey) (hkeys : t.keys = s.keys.map f) :
    Numbered t where
  unique := by
    rw [hkeys, map_ids hf]
    exact h.unique
  below k hk := by
    rw [hkeys] at hk
    obtain ⟨k', hk', rfl⟩ := List.mem_map.mp hk
    rw [hf, hnext]
    exact h.below k' hk'

theorem Numbered.step (h : Numbered s) {e : CredentialEvent} (hstep : KeyStep b s t e) :
    Numbered t := by
  cases hstep with
  | quiet _ _ _ hnext hkeys =>
    exact ⟨h.unique.sublist (hkeys.map _), fun k hk => hnext ▸ h.below k (hkeys.subset hk)⟩
  | created hnext hkeys =>
    refine ⟨?_, fun k hk => ?_⟩
    · rw [hkeys, List.map_append, List.nodup_append]
      refine ⟨h.unique, List.pairwise_singleton _ _, fun i hi j hj hij => ?_⟩
      obtain ⟨k, hk, rfl⟩ := List.mem_map.mp hi
      exact (h.below k hk).ne (hij.trans (List.mem_singleton.mp hj))
    · rw [hnext]
      rcases List.mem_append.mp (hkeys ▸ hk) with hk | hk
      · exact (h.below k hk).trans (Nat.lt_succ_self _)
      · rw [List.mem_singleton.mp hk]
        exact Nat.lt_succ_self _
  | revoked hnext hkeys => exact h.mapped (fun k => by split <;> rfl) hnext hkeys
  | used _ hnext hkeys => exact h.mapped (fun k => by split <;> rfl) hnext hkeys

/-- A key since it was created as `c`, while it is still in the table. -/
structure Kept (c : EnrollmentKey) (since : List CredentialEvent) (s : Credentials) : Prop where
  numbered : Numbered s
  issued : c.id < s.nextKey
  clock : s.now = c.createdAt + waited since
  account : ∀ k ∈ s.keys, k.id = c.id → k.awsAccountId = c.awsAccountId
  terms : ∀ k ∈ s.keys, k.id = c.id → k.maxUses = c.maxUses ∧ k.expiresAt = c.expiresAt
  used : ∀ k ∈ s.keys, k.id = c.id → k.usedCount = since.countP (CredentialEvent.uses c.id)
  unrevoked : ∀ k ∈ s.keys, k.id = c.id → k.revoked = false →
    ∀ e ∈ since, e.revokes c.awsAccountId c.id = false

/-- An update of the keys that leaves the terms on which they were created. -/
theorem Kept.mapped {c : EnrollmentKey} {since : List CredentialEvent} (h : Kept c since s)
    {e : CredentialEvent} {f : EnrollmentKey → EnrollmentKey} (hnumbered : Numbered t)
    (hclock : t.now = c.createdAt + waited (e :: since)) (hnext : t.nextKey = s.nextKey)
    (hkeys : t.keys = s.keys.map f)
    (hf : ∀ k, (f k).id = k.id ∧ (f k).awsAccountId = k.awsAccountId ∧
      (f k).maxUses = k.maxUses ∧ (f k).expiresAt = k.expiresAt)
    (hused : ∀ k ∈ s.keys, k.id = c.id →
      (f k).usedCount = (e :: since).countP (CredentialEvent.uses c.id))
    (hrevoked : ∀ k ∈ s.keys, k.id = c.id → (f k).revoked = false →
      k.revoked = false ∧ e.revokes c.awsAccountId c.id = false) : Kept c (e :: since) t := by
  have hold : ∀ k ∈ t.keys, ∃ k' ∈ s.keys, f k' = k := fun k hk => List.mem_map.mp (hkeys ▸ hk)
  refine ⟨hnumbered, hnext ▸ h.issued, hclock, fun k hk hid => ?_, fun k hk hid => ?_,
    fun k hk hid => ?_, fun k hk hid hrev e' he' => ?_⟩
  all_goals
    obtain ⟨k', hk', rfl⟩ := hold k hk
    rw [(hf k').1] at hid
  · exact (hf k').2.1.trans (h.account k' hk' hid)
  · exact ⟨(hf k').2.2.1.trans (h.terms k' hk' hid).1, (hf k').2.2.2.trans (h.terms k' hk' hid).2⟩
  · exact hused k' hk' hid
  · obtain ⟨hrev', he⟩ := hrevoked k' hk' hid hrev
    rcases List.mem_cons.mp he' with rfl | he'
    · exact he
    · exact h.unrevoked k' hk' hid hrev' e' he'

theorem Kept.step {c : EnrollmentKey} {since : List CredentialEvent} (h : Kept c since s)
    {e : CredentialEvent} (hstep : s.step b e = some t) : Kept c (e :: since) t := by
  obtain ⟨hnow, hstep⟩ := step_keys hstep
  have hclock : t.now = c.createdAt + waited (e :: since) := by
    rw [hnow, h.clock, waited, Nat.add_assoc]
  have hnumbered := h.numbered.step hstep
  cases hstep with
  | quiet _ huses hrevokes hnext hkeys =>
    refine ⟨hnumbered, hnext ▸ h.issued, hclock, fun k hk => h.account k (hkeys.subset hk),
      fun k hk => h.terms k (hkeys.subset hk), fun k hk hid => ?_, fun k hk hid hrev e' he' => ?_⟩
    · rw [List.countP_cons_of_neg (by simp [huses])]
      exact h.used k (hkeys.subset hk) hid
    · rcases List.mem_cons.mp he' with rfl | he'
      · exact hrevokes _ _
      · exact h.unrevoked k (hkeys.subset hk) hid hrev e' he'
  | @created accessible account maxUses hours key hnext hkeys =>
    have hold : ∀ k ∈ t.keys, k.id = c.id → k ∈ s.keys := by
      intro k hk hid
      rcases List.mem_append.mp (hkeys ▸ hk) with hk | hk
      · exact hk
      · rw [List.mem_singleton.mp hk] at hid
        exact absurd hid.symm h.issued.ne
    refine ⟨hnumbered, hnext ▸ h.issued.trans (Nat.lt_succ_self _), hclock,
      fun k hk hid => h.account k (hold k hk hid) hid,
      fun k hk hid => h.terms k (hold k hk hid) hid, fun k hk hid => ?_,
      fun k hk hid hrev e' he' => ?_⟩
    · rw [List.countP_cons_of_neg (by simp [CredentialEvent.uses])]
      exact h.used k (hold k hk hid) hid
    · rcases List.mem_cons.mp he' with rfl | he'
      · rfl
      · exact h.unrevoked k (hold k hk hid) hid hrev e' he'
  | @revoked accessible id hnext hkeys =>
    refine h.mapped hnumbered hclock hnext hkeys (fun k => by split <;> exact ⟨rfl, rfl, rfl, rfl⟩)
      (fun k hk hid => ?_) fun k hk hid hrev => ?_
    · rw [List.countP_cons_of_neg (by simp [CredentialEvent.uses]), ← h.used k hk hid]
      split <;> rfl
    · split at hrev
      · cases hrev
      · rename_i hmiss
        refine ⟨hrev, ?_⟩
        rw [h.account k hk hid, hid] at hmiss
        simp only [CredentialEvent.revokes, Bool.and_eq_false_iff, decide_eq_false_iff_not]
        by_cases hsame : id = c.id
        · exact .inr (Bool.eq_false_iff.mpr fun hin => hmiss ⟨hsame.symm, hin⟩)
        · exact .inl hsame
  | @used req token key host hopens hnext hkeys =>
    have hkey : key ∈ s.keys.filter (opens b s.now req) := hopens ▸ List.mem_singleton_self _
    -- the ids are distinct, so the row that the update takes is the one it then reads
    have hopen : ∀ k ∈ s.keys, k.id = c.id → (opens b s.now req k = true ↔ key.id = c.id) := by
      intro k hk hid
      constructor
      · intro hk'
        have hin : k ∈ s.keys.filter (opens b s.now req) := List.mem_filter.mpr ⟨hk, hk'⟩
        rw [hopens, List.mem_singleton] at hin
        exact hin ▸ hid
      · intro hid'
        have hsame : k = key := List.inj_on_of_nodup_map h.numbered.unique hk
          (List.mem_of_mem_filter hkey) (hid.trans hid'.symm)
        exact hsame ▸ (List.mem_filter.mp hkey).2
    refine h.mapped hnumbered hclock hnext hkeys (fun k => by split <;> exact ⟨rfl, rfl, rfl, rfl⟩)
      (fun k hk hid => ?_) fun k hk hid hrev => ⟨?_, rfl⟩
    · rw [List.countP_cons, ← h.used k hk hid]
      by_cases hid' : key.id = c.id
      · rw [if_pos ((hopen k hk hid).mpr hid'), if_pos (by simp [CredentialEvent.uses, hid'])]
      · rw [if_neg fun hyes => hid' ((hopen k hk hid).mp hyes),
          if_neg (by simp [CredentialEvent.uses, hid'])]
        rfl
    · split at hrev
      all_goals exact hrev

theorem numbered_of_run {accounts : List ℕ} {enabled : Bool} {now : ℕ}
    (run : Steps (Takes (step b)) (empty accounts enabled now) tr s) : Numbered s :=
  run.stable ⟨List.nodup_nil, fun k hk => by cases hk⟩ fun _ _ _ h hR => h.step (step_keys hR).2

/-- A key that has just been created. -/
theorem kept_of_created {accessible : Option (List ℕ)} {account maxUses hours id : ℕ}
    {key : String} (h : Numbered s)
    (hstep : s.step b (.createKey accessible account maxUses hours key (some id)) = some t) :
    Kept ⟨id, account, b.hashSecret key, maxUses, 0, some (s.now + hours * 3600), false, s.now⟩
      [] t := by
  obtain ⟨hnow, hkeys⟩ := step_keys hstep
  have hnumbered := h.step hkeys
  cases hkeys with
  | created hnext hkeys =>
    have hnew : ∀ k ∈ t.keys, k.id = s.nextKey →
        k = ⟨s.nextKey, account, b.hashSecret key, maxUses, 0, some (s.now + hours * 3600), false,
          s.now⟩ := by
      intro k hk hid
      rcases List.mem_append.mp (hkeys ▸ hk) with hk | hk
      · exact absurd hid (h.below k hk).ne
      · exact List.mem_singleton.mp hk
    refine ⟨hnumbered, hnext ▸ Nat.lt_succ_self _, hnow, fun k hk hid => ?_, fun k hk hid => ?_,
      fun k hk hid => ?_, fun _ _ _ _ e he => by cases he⟩
    all_goals rw [hnew k hk hid]
    · exact ⟨rfl, rfl⟩
    · rfl
  | quiet hcreates => cases hcreates

end Credentials

/-- An enrolment goes through on a key less than its hours after the key was created, on one of
its uses that is left, and not after it has been revoked. -/
theorem enrolled_within {b : Backend} {accounts : List ℕ} {enabled : Bool} {now : ℕ}
    {s : Credentials} {accessible : Option (List ℕ)} {account maxUses hours keyId host : ℕ}
    {key token : String} {req : EnrollRequest} {newer since older : List CredentialEvent}
    (run : Steps (Takes (Credentials.step b)) (.empty accounts enabled now)
      (newer ++ .enroll req token (.enrolled keyId host) ::
        (since ++ .createKey accessible account maxUses hours key (some keyId) :: older)) s) :
    since.countP (CredentialEvent.uses keyId) < maxUses ∧ waited since < hours * 3600 ∧
      ∀ e ∈ since, e.revokes account keyId = false := by
  obtain ⟨u, hrun, -⟩ := run.split
  cases hrun with
  | snoc hrun henroll =>
    obtain ⟨t, hcreated, hsince⟩ := hrun.split
    cases hcreated with
    | snoc hrun hcreate =>
      have hkept := hsince.invariant
        (Credentials.kept_of_created (Credentials.numbered_of_run hrun) hcreate)
        fun _ _ _ _ h hR => h.step hR
      obtain ⟨key', hopens, hid, -⟩ :=
        Credentials.enroll_enrolled (Credentials.answered_some henroll)
      obtain ⟨hmem, hopen⟩ := List.mem_filter.mp (hopens ▸ List.mem_singleton_self key')
      obtain ⟨hmax, hexpires⟩ := hkept.terms key' hmem hid
      simp only [Credentials.opens, EnrollmentKey.valid, Bool.and_eq_true, Bool.not_eq_true',
        decide_eq_true_eq] at hopen
      obtain ⟨⟨⟨hrevoked, hleft⟩, hexpiry⟩, -⟩ := hopen
      refine ⟨?_, ?_, hkept.unrevoked key' hmem hid hrevoked⟩
      · rw [hkept.used key' hmem hid, hmax] at hleft
        exact hleft
      · rw [hexpires, hkept.clock] at hexpiry
        exact Nat.lt_of_add_lt_add_left (of_decide_eq_true hexpiry)

/-- The second enrolment takes the second use of the key. -/
theorem enrolled_within_second :
    [.wait 60, .enroll webRequest firstToken (.enrolled 0 0)].countP (CredentialEvent.uses 0) < 2 ∧
      waited [.wait 60, .enroll webRequest firstToken (.enrolled 0 0)] < 24 * 3600 ∧
      ∀ e ∈ [.wait 60, .enroll webRequest firstToken (.enrolled 0 0)],
        CredentialEvent.revokes 1 0 e = false := by
  obtain ⟨s, run, -, -⟩ := exists_play (Credentials.step plainBackend) (.empty [1] true 0)
    twoEnrolments (fun s => s.enabled) (by decide +kernel)
  exact @enrolled_within plainBackend [1] true 0 s none 1 2 24 0 0 keyText secondToken webRequest []
    [.wait 60, .enroll webRequest firstToken (.enrolled 0 0)] [] run

end MonitoringHub.Ingest
