import MonitoringHub.EmailRules.RuleDispatch

/-! What the dispatches of a whole run promise to a person: one mail for an event of an
object, and none about the same resource and event inside the throttle window. The table
answers the first for all rules; `_recent_sends` answers the second for one rule and one hour. -/

namespace MonitoringHub.EmailRules
open Lib

/-- The same person, resource and event. -/
def SameSubject (m e : Mail) : Prop :=
  m.person = e.person ∧ m.event = e.event ∧ m.resource = e.resource ∧ m.resource.isSome

instance (m e : Mail) : Decidable (SameSubject m e) :=
  inferInstanceAs (Decidable (_ ∧ _ ∧ _ ∧ _))

/-- The mails of a run, newest first, each after the window of every earlier one. -/
def Throttled (history : List Mail) : List Mail → Prop
  | [] => True
  | m :: mails =>
    (∀ e ∈ mails ++ history, SameSubject m e → e.sentAt + m.throttle ≤ m.sentAt) ∧
      Throttled history mails

/-- No person has two mails for the same event of the same object. -/
def OncePerEvent (mails : List Mail) : Prop := (mails.map Mail.key).Nodup

theorem decideMail_ok {now throttle cap : ℤ} {recent : List RecentSend} {resKey : Option String}
    {alreadySent : Bool} (h : (decideMail now recent resKey throttle cap alreadySent).1 = true) :
    alreadySent = false ∧
      ∀ key r, resKey = some key → r ∈ recent → r.resourceKey = some key →
        r.sentAt + throttle ≤ now := by
  unfold decideMail at h
  split at h
  · cases h
  · rename_i hsent
    split at h
    · cases h
    · split at h
      · cases h
      · rename_i hthrottle
        refine ⟨by simpa using hsent, fun key r hkey hr hres => ?_⟩
        subst hkey
        by_contra hlate
        refine hthrottle (Bool.and_eq_true_iff.mpr ⟨rfl, List.any_eq_true.mpr ⟨r, hr, ?_⟩⟩)
        simp only [hres, BEq.rfl, Bool.true_and, decide_eq_true_eq]
        omega

section Offers
variable {py : TextMethods} {history : List Mail} {d : Dispatch} {s : MailState}
  {o : Rule × String}

/-- The table holds a row for every mail, and no other. -/
def Logged (py : TextMethods) (history : List Mail) (s : MailState) : Prop :=
  s.sends = (s.mails ++ history).map py.row

/-- Whether the mail goes out. -/
def Mails (py : TextMethods) (d : Dispatch) (s : MailState) (o : Rule × String) : Prop :=
  (s.wait (d.pause o.1.id o.2)).allowed py d o = true ∧ d.delivered o.1.id o.2 = true

/-- The mail this offer would send. -/
def mailAt (py : TextMethods) (d : Dispatch) (s : MailState) (o : Rule × String) : Mail :=
  (s.wait (d.pause o.1.id o.2)).mailFor py d o

theorem row_key_of_key {m e : Mail} (h : m.key = e.key) : (py.row m).key = (py.row e).key := by
  simp only [Mail.key, Prod.mk.injEq] at h
  simp [TextMethods.row, SendRow.key, h]

theorem not_sent_of_allowed (hallowed : s.allowed py d o = true) :
    s.alreadySent (py.row (s.mailFor py d o)).key = false :=
  (decideMail_ok hallowed).1

theorem offer_sent (h : Mails py d s o) :
    (s.offer py d o).mails = mailAt py d s o :: s.mails ∧
      (s.offer py d o).sends = py.row (mailAt py d s o) :: s.sends := by
  have hnew := not_sent_of_allowed h.1
  rw [MailState.offer, if_pos (Bool.and_eq_true_iff.mpr h), MailState.recordSend,
    if_neg (by simp [hnew])]
  exact ⟨rfl, rfl⟩

theorem offer_not_sent (h : ¬Mails py d s o) :
    (s.offer py d o).mails = s.mails ∧ (s.offer py d o).sends = s.sends := by
  rw [MailState.offer, if_neg fun hand => h (Bool.and_eq_true_iff.mp hand)]
  exact ⟨rfl, rfl⟩

theorem Logged.offer (h : Logged py history s) (d : Dispatch) (o : Rule × String) :
    Logged py history (s.offer py d o) := by
  by_cases hsend : Mails py d s o
  · obtain ⟨hmails, hsends⟩ := offer_sent hsend
    rw [Logged, hmails, hsends, h]
    rfl
  · obtain ⟨hmails, hsends⟩ := offer_not_sent hsend
    rw [Logged, hmails, hsends, h]

/-- The key of the table keeps a second mail about an event back, whatever rule it is from. -/
theorem OncePerEvent.offer (h : OncePerEvent (s.mails ++ history)) (hlog : Logged py history s)
    (d : Dispatch) (o : Rule × String) : OncePerEvent ((s.offer py d o).mails ++ history) := by
  by_cases hsend : Mails py d s o
  · rw [(offer_sent hsend).1]
    refine List.nodup_cons.mpr ⟨fun hmem => ?_, h⟩
    obtain ⟨e, he, hkey⟩ := List.mem_map.mp hmem
    have hfound : (s.wait (d.pause o.1.id o.2)).alreadySent
        (py.row (mailAt py d s o)).key = true := by
      have hrow : py.row e ∈ s.sends := by
        rw [hlog]
        exact List.mem_map_of_mem he
      exact List.any_eq_true.mpr ⟨py.row e, hrow, beq_iff_eq.mpr (row_key_of_key hkey)⟩
    have hnew := not_sent_of_allowed hsend.1
    exact absurd (hfound.symm.trans hnew) (by decide)
  · rw [(offer_not_sent hsend).1]
    exact h

/-- What `_recent_sends` reads covers the window: an earlier mail to the person about the
resource and event that the throttle still counts is of the same rule and of the last hour. -/
def Covered (py : TextMethods) (history : List Mail) (d : Dispatch) (s : MailState)
    (o : Rule × String) : Prop :=
  ∀ e ∈ s.mails ++ history, SameSubject (mailAt py d s o) e →
    (mailAt py d s o).sentAt < e.sentAt + d.throttle →
    e.ruleId = o.1.id ∧ (mailAt py d s o).sentAt < e.sentAt + 3600

/-- An earlier mail that is read is after its window when the next one is let through. -/
theorem apart_of_allowed {e : Mail} (hlog : Logged py history s)
    (hallowed : s.allowed py d o = true) (he : e ∈ s.mails ++ history)
    (hsame : SameSubject (s.mailFor py d o) e) (hrule : e.ruleId = o.1.id)
    (hhour : s.now < e.sentAt + 3600) : e.sentAt + d.throttle ≤ s.now := by
  obtain ⟨hperson, hevent, hresource, hsome⟩ := hsame
  obtain ⟨r, hr⟩ := Option.isSome_iff_exists.mp hsome
  have hr' : d.resource = some r := hr
  refine (decideMail_ok hallowed).2 (py.resourceKey d.event r) ⟨e.sentAt, (py.row e).resourceKey⟩
    ?_ ?_ ?_
  · simp [TextMethods.row, MailState.mailFor, hr']
  · refine List.mem_map.mpr ⟨py.row e, List.mem_filter.mpr ⟨?_, ?_⟩, rfl⟩
    · rw [hlog]
      exact List.mem_map_of_mem he
    · refine decide_eq_true ⟨hrule, ?_, ?_⟩
      · exact congrArg py.sha1 hperson.symm
      · change s.now - 3600 < e.sentAt
        omega
  · simp [TextMethods.row, ← hresource, ← hevent, hr', MailState.mailFor]

theorem Throttled.offer (h : Throttled history s.mails) (hlog : Logged py history s)
    (hcovered : Covered py history d s o) : Throttled history (s.offer py d o).mails := by
  by_cases hsend : Mails py d s o
  · rw [(offer_sent hsend).1]
    refine ⟨fun e he hsame => ?_, h⟩
    by_contra hlate
    obtain ⟨hrule, hhour⟩ := hcovered e he hsame (Int.not_le.mp hlate)
    exact hlate (apart_of_allowed (s := s.wait (d.pause o.1.id o.2)) hlog hsend.1 he hsame hrule
      hhour)
  · rw [(offer_not_sent hsend).1]
    exact h

/-- A mail that goes out where the window is not covered breaks the throttle. -/
theorem not_throttled_of_uncovered (hsend : Mails py d s o) (h : ¬Covered py history d s o) :
    ¬Throttled history (s.offer py d o).mails := by
  rw [(offer_sent hsend).1]
  rintro ⟨hapart, -⟩
  refine h fun e he hsame hwindow => ?_
  exact absurd (hapart e he hsame) (Int.not_le.mpr hwindow)

/-- A window of an hour at most, and no mail about this from another rule. -/
theorem covered_of_own_rule (hhour : d.throttle ≤ 3600)
    (hrule : ∀ e ∈ s.mails ++ history, SameSubject (mailAt py d s o) e → e.ruleId = o.1.id) :
    Covered py history d s o :=
  fun e he hsame hwindow => ⟨hrule e he hsame, by omega⟩

end Offers

section Runs
variable (py : TextMethods) (history : List Mail)

/-- The person has had the mails of the history, and the table has a row for each. -/
def MailState.start (now : ℤ) : MailState := ⟨now, history.map py.row, []⟩

/-- Each address in turn meets the condition in the state it is looked at. -/
def CoveredFrom (d : Dispatch) : MailState → List (Rule × String) → Prop
  | _, [] => True
  | s, o :: offers => Covered py history d s o ∧ CoveredFrom d (s.offer py d o) offers

def DispatchCovered (s : MailState) : MailAct → Prop
  | .elapse _ => True
  | .dispatch d => CoveredFrom py history d s (d.offers py)

instance (d : Dispatch) (s : MailState) (o : Rule × String) :
    Decidable (Covered py history d s o) :=
  inferInstanceAs (Decidable (∀ e ∈ s.mails ++ history, _ → _ → _ ∧ _))

instance decidableCoveredFrom (d : Dispatch) :
    ∀ s offers, Decidable (CoveredFrom py history d s offers)
  | _, [] => .isTrue trivial
  | s, o :: offers =>
    have := decidableCoveredFrom d (s.offer py d o) offers
    inferInstanceAs (Decidable (_ ∧ _))

instance (s : MailState) (a : MailAct) : Decidable (DispatchCovered py history s a) :=
  match a with
  | .elapse _ => .isTrue trivial
  | .dispatch d => decidableCoveredFrom py history d s (d.offers py)

variable {py history} {s t : MailState} {a : MailAct} {now : ℤ} {tr : List MailAct}

/-- What every offer keeps, whatever the rule, a dispatch keeps. -/
theorem dispatchOne_keeps {I : MailState → Prop} (d : Dispatch) (h : I s)
    (hoffer : ∀ s o, I s → I (s.offer py d o)) : I (s.dispatchOne py d) :=
  List.foldlRecOn _ _ h fun s h o _ => hoffer s o h

/-- The table and what it keeps back. -/
def Delivered (py : TextMethods) (history : List Mail) (s : MailState) : Prop :=
  Logged py history s ∧ OncePerEvent (s.mails ++ history)

theorem Delivered.step (h : Delivered py history s) (hstep : s.step py a = some t) :
    Delivered py history t := by
  cases a with
  | elapse seconds =>
    obtain rfl := Option.some.inj hstep
    exact h
  | dispatch d =>
    obtain rfl := Option.some.inj hstep
    exact dispatchOne_keeps d h fun s o h => ⟨h.1.offer d o, h.2.offer h.1 d o⟩

theorem Throttled.dispatch {d : Dispatch} {offers : List (Rule × String)}
    (h : Throttled history s.mails) (hlog : Logged py history s)
    (hcovered : CoveredFrom py history d s offers) :
    Throttled history (offers.foldl (MailState.offer py d) s).mails := by
  induction offers generalizing s with
  | nil => exact h
  | cons o offers ih => exact ih (h.offer hlog hcovered.1) (hlog.offer d o) hcovered.2

theorem delivered_run (honce : OncePerEvent history)
    (run : Steps (Takes (MailState.step py)) (.start py history now) tr s) :
    Delivered py history s :=
  run.stable ⟨rfl, honce⟩ fun _ _ _ h hstep => h.step hstep

theorem throttled_run (honce : OncePerEvent history)
    (run : Steps (Guarded (Takes (MailState.step py)) (DispatchCovered py history))
      (.start py history now) tr s) : Throttled history s.mails := by
  refine (run.stable (P := fun s => Delivered py history s ∧ Throttled history s.mails)
    ⟨⟨rfl, honce⟩, trivial⟩ ?_).2
  rintro t a u ⟨hdelivered, hthrottled⟩ ⟨hcovered, hstep⟩
  refine ⟨hdelivered.step hstep, ?_⟩
  cases a with
  | elapse seconds =>
    obtain rfl := Option.some.inj hstep
    exact hthrottled
  | dispatch d =>
    obtain rfl := Option.some.inj hstep
    exact hthrottled.dispatch hdelivered.1 hcovered

/-- A person has at most one mail for an event of an object, whichever rules there are. Where the
window is covered at every address a run looks at, nobody has two mails about the same resource and
event inside the throttle window; a mail that goes out where it is not covered is such a second
mail. -/
theorem rule_mails (honce : OncePerEvent history)
    (run : Steps (Takes (MailState.step py)) (.start py history now) tr s) :
    OncePerEvent (s.mails ++ history) ∧
    (Steps (Guarded (Takes (MailState.step py)) (DispatchCovered py history))
      (.start py history now) tr s → Throttled history s.mails) ∧
    ∀ (d : Dispatch) (o : Rule × String), Mails py d s o → ¬Covered py history d s o →
      ¬Throttled history (s.offer py d o).mails :=
  ⟨(delivered_run honce run).2, throttled_run honce, fun _ _ => not_throttled_of_uncovered⟩

end Runs

/-- Two mails, the later one inside the window of the earlier. -/
def closeMails (s : MailState) : Bool :=
  match s.mails with
  | [m, e] => decide ((m.person = e.person ∧ m.event = e.event ∧ m.resource = e.resource ∧
      m.resource.isSome) ∧ m.sentAt < e.sentAt + m.throttle)
  | _ => false

theorem not_throttled_of_closeMails {s : MailState} (h : closeMails s = true) :
    ¬Throttled [] s.mails := by
  unfold closeMails at h
  split at h
  · rename_i m e heq
    obtain ⟨hsame, hclose⟩ := of_decide_eq_true h
    rw [heq]
    intro hthrottled
    exact absurd (hthrottled.1 e (by simp) hsame) (Int.not_le.mpr hclose)
  · cases h

/-- ASCII texts; a key is compared only with keys, so the text stands for its hash. -/
def plainTexts : TextMethods := ⟨fun s => Text.lower (Text.strip s), Text.lower, fun s => s⟩

/-- An alert of one resource, for the rules with these ids, which share a recipient. -/
def alertOpened (objectId : ℕ) (ruleIds : List ℕ) (throttle : ℤ) : Dispatch where
  event := .alertOpened
  ctx := ⟨.alert, objectId, some 7, some "i-0abc", some "CRITICAL", false⟩
  rules := ruleIds.map fun id => ⟨id, true, "alert_opened", some "WARNING", none⟩
  excluded := some []
  addresses := fun _ => some ["ops@example.com"]
  pause := fun _ _ => 0
  delivered := fun _ _ => true
  throttle := throttle
  cap := 20

/-- Two rules and two alerts within ten minutes; and one rule with a window of two hours. -/
theorem throttle_misses :
    ¬(∀ tr s, Steps (Takes (MailState.step plainTexts)) (.start plainTexts [] 0) tr s →
      Throttled [] s.mails) ∧
    ∃ tr s, Steps (Takes (MailState.step plainTexts)) (.start plainTexts [] 0) tr s ∧
      ¬Throttled [] s.mails ∧ ∀ d, .dispatch d ∈ tr → d.rules.length = 1 := by
  constructor
  · intro h
    obtain ⟨s, run, -, hp⟩ := exists_play (MailState.step plainTexts) (.start plainTexts [] 0)
      [.dispatch (alertOpened 1 [1, 2] 1800), .elapse 600,
        .dispatch (alertOpened 2 [1, 2] 1800)] closeMails (by decide +kernel)
    exact not_throttled_of_closeMails hp (h _ s run)
  · obtain ⟨s, run, -, hp⟩ := exists_play (MailState.step plainTexts) (.start plainTexts [] 0)
      [.dispatch (alertOpened 1 [1] 7200), .elapse 4000,
        .dispatch (alertOpened 2 [1] 7200)] closeMails (by decide +kernel)
    refine ⟨_, s, run, not_throttled_of_closeMails hp, fun d hd => ?_⟩
    simp only [List.reverse_cons, List.reverse_nil, List.nil_append, List.cons_append,
      List.mem_cons, MailAct.dispatch.injEq, reduceCtorEq, false_or, List.not_mem_nil,
      or_false] at hd
    rcases hd with rfl | rfl <;> rfl

/-- One rule and a window that has passed: the person has both mails. -/
theorem rule_mails_twice : ∃ s : MailState, s.mails.length = 2 ∧ OncePerEvent (s.mails ++ []) ∧
    Throttled [] s.mails := by
  obtain ⟨s, run, -, hp⟩ := exists_play
    (gated (MailState.step plainTexts) (DispatchCovered plainTexts [])) (.start plainTexts [] 0)
    [.dispatch (alertOpened 1 [1] 1800), .elapse 2400, .dispatch (alertOpened 2 [1] 1800)]
    (fun s => s.mails.length == 2) (by decide +kernel)
  have hguarded := run.mono fun _ _ _ => gated_guarded
  have hnone : OncePerEvent [] := List.nodup_nil
  obtain ⟨honce, hthrottled, -⟩ := rule_mails hnone (Guarded.run hguarded)
  exact ⟨s, by simpa using hp, honce, hthrottled hguarded⟩

end MonitoringHub.EmailRules
