import MonitoringHub.Login.RateLimit
import MonitoringHub.Lib.Text

/-! Login attempts, one after the other, against the limits of `app/auth/rate_limit.py`.
The buckets and the marks of known addresses live under composed texts in one store. -/

namespace MonitoringHub.Login
open Lib Lib.Counter

/-- `check_rate_limit` without other calls on its key. -/
def checkRateLimit (limit : Limit) (now : ℤ) (key : Option Counter) :
    Option Counter × Option HTTPException :=
  let entry := Counter.incr (settle now key)
  let repaired := Counter.expire now limit.windowSeconds (some entry)
  if entry.count = 1 then (repaired, limit.verdict entry.count limit.windowSeconds)
  else
    let ttl := Counter.ttl now (some entry)
    if ttl = -1 then (repaired, limit.verdict entry.count limit.windowSeconds)
    else (some entry, limit.verdict entry.count ttl)

/-- A call that has the key to itself is the whole function. -/
theorem checkRateLimit_alone (limit : Limit) (s : KeyState) (hkey : settle s.now s.key = s.key) :
    ∃ acts t call ttl lifetime, play (KeyState.step limit) s acts = some t ∧
      t.calls[s.calls.length]? = some call ∧ call.stage = .answered ttl lifetime ∧
      checkRateLimit limit s.now s.key = (t.key, limit.verdict call.count ttl) := by
  have hfound := s.incr_found
  set i := s.calls.length
  set entry := Counter.incr s.key with hentry
  by_cases hfirst : entry.count = 1
  · have hexp : Call.expires ⟨s.incr.lifetimes, entry.count, .counted⟩ = true := by
      simp [Call.expires, hfirst]
    refine ⟨[.incr, .expire i], s.incr.expire limit i, _, _, _, ?_,
      KeyState.setStage_found hfound _, rfl, ?_⟩
    · simp [play, KeyState.step, hfound, hexp]
    · simp only [checkRateLimit, hkey, ← hentry, if_pos hfirst]
      rfl
  · have hasks : Call.asks ⟨s.incr.lifetimes, entry.count, .counted⟩ = true := by
      simp [Call.asks, hfirst]
    by_cases hnone : Counter.ttl s.now (some entry) = -1
    · have hrepair := KeyState.setStage_found hfound .unexpiring
      have httl : s.incr.ttl i = s.incr.setStage i .unexpiring := by
        have : Counter.ttl s.incr.now s.incr.key = -1 := hnone
        simp [KeyState.ttl, this]
      refine ⟨[.incr, .ttl i, .expire i], (s.incr.setStage i .unexpiring).expire limit i, _, _, _,
        ?_, KeyState.setStage_found hrepair _, rfl, ?_⟩
      · simp [play, KeyState.step, hfound, hasks, httl, hrepair, Call.expires]
      · simp only [checkRateLimit, hkey, ← hentry, if_neg hfirst, if_pos hnone]
        rfl
    · have httl : s.incr.ttl i = s.incr.setStage i
          (.answered (Counter.ttl s.now (some entry)) s.incr.lifetime) := by
        have : ¬Counter.ttl s.incr.now s.incr.key = -1 := hnone
        simp only [KeyState.ttl, if_neg this]
        rfl
      refine ⟨[.incr, .ttl i], _, _, _, _, ?_, KeyState.setStage_found hfound
        (.answered (Counter.ttl s.now (some entry)) s.incr.lifetime), rfl, ?_⟩
      · simp [play, KeyState.step, hfound, hasks, httl]
      · simp only [checkRateLimit, hkey, ← hentry, if_neg hfirst, if_neg hnone]
        rfl
abbrev Store := String → Option Counter

/-- Python's `str.strip` and `str.lower`. -/
structure TextMethods where
  strip : String → String
  lower : String → String

structure LoginLimits where
  perIp : Limit
  perUsername : Limit
  knownIpDays : ℤ

/-- The defaults of the environment variables. -/
def defaultLimits : LoginLimits := ⟨⟨20, 300⟩, ⟨10, 300⟩, 30⟩

def ipKey (ip : String) : String := "ratelimit:login:ip:" ++ ip

def userKey (uname : String) : String := "ratelimit:login:user:" ++ uname

/-- What the two keys of a pair end in. -/
def pairText (uname ip : String) : String := uname ++ (":" ++ ip)

def userIpKey (uname ip : String) : String := "ratelimit:login:userip:" ++ pairText uname ip

def knownIpKey (uname ip : String) : String := "login:known:" ++ pairText uname ip

/-- A request to `/login`, and whether the password is the user's. -/
structure Attempt where
  time : ℤ
  ip : String
  username : String
  password : String
  verified : Bool

namespace Store

def check (s : Store) (key : String) (limit : Limit) (now : ℤ) : Store × Option HTTPException :=
  let result := checkRateLimit limit now (s key)
  (Function.update s key result.1, result.2)

def isKnownLoginIp (s : Store) (uname ip : String) (now : ℤ) : Bool :=
  (settle now (s (knownIpKey uname ip))).isSome

end Store

section Attempts
variable (py : TextMethods) (c : LoginLimits)

def Attempt.uname (x : Attempt) : String := py.strip (py.lower (py.strip x.username))

def Store.enforceLoginRateLimit (s : Store) (ip username : String) (now : ℤ) :
    Store × Option HTTPException :=
  match s.check (ipKey ip) c.perIp now with
  | (s, some refusal) => (s, some refusal)
  | (s, none) =>
    if username = "" then (s, none)
    else
      let uname := py.strip (py.lower username)
      if s.isKnownLoginIp uname ip now then s.check (userIpKey uname ip) c.perUsername now
      else s.check (userKey uname) c.perUsername now

/-- SET refuses a time that is not positive, and then nothing is deleted either. -/
def Store.recordLoginSuccess (s : Store) (ip username : String) (now : ℤ) : Store :=
  if username = "" ∨ c.knownIpDays ≤ 0 then s
  else
    let uname := py.strip (py.lower username)
    let mark : Counter := ⟨1, some (now + 1000 * (c.knownIpDays * 86400))⟩
    Function.update (Function.update s (knownIpKey uname ip) (some mark)) (userKey uname) none

/-- The answer, `none` where a session begins. -/
def Store.login (s : Store) (x : Attempt) : Store × Option HTTPException :=
  let username := py.strip x.username
  if username = "" ∨ py.strip x.password = "" then
    (s, some ⟨400, "username and password required", []⟩)
  else
    match s.enforceLoginRateLimit py c x.ip username x.time with
    | (s, some refusal) => (s, some refusal)
    | (s, none) =>
      if x.verified then (s.recordLoginSuccess py c x.ip username x.time, none)
      else (s, some ⟨401, "Invalid credentials", []⟩)

def Store.after (s : Store) (history : List Attempt) : Store :=
  history.foldl (fun s x => (s.login py c x).1) s

/-- Whether a limit refuses the next attempt. -/
def Store.refuses (s : Store) (x : Attempt) : Bool :=
  (s.login py c x).2.any fun answer => answer.statusCode == 429

end Attempts

section Keys
variable {u v a b : String}

@[simp] theorem ipKey_inj : ipKey a = ipKey b ↔ a = b := String.append_right_inj _

@[simp] theorem userKey_inj : userKey u = userKey v ↔ u = v := String.append_right_inj _

@[simp] theorem userIpKey_inj : userIpKey u a = userIpKey v b ↔ pairText u a = pairText v b :=
  String.append_right_inj _

@[simp] theorem knownIpKey_inj : knownIpKey u a = knownIpKey v b ↔ pairText u a = pairText v b :=
  String.append_right_inj _

/-- Texts that begin differently differ. -/
theorem append_ne {p q x y : String} (h : (p.toList.zip q.toList).any fun c => c.1 ≠ c.2) :
    p ++ x ≠ q ++ y := by
  intro heq
  have hlists := congrArg String.toList heq
  rw [String.toList_append, String.toList_append] at hlists
  generalize p.toList = cs at *
  generalize q.toList = ds at *
  induction cs generalizing ds with
  | nil => simp at h
  | cons c cs ih =>
    cases ds with
    | nil => simp at h
    | cons d ds =>
      rw [List.cons_append, List.cons_append, List.cons.injEq] at hlists
      refine ih ds ?_ hlists.2
      simpa [hlists.1] using h

@[simp] theorem ipKey_ne_userKey : ipKey a ≠ userKey u := append_ne (by decide)
@[simp] theorem ipKey_ne_userIpKey : ipKey a ≠ userIpKey u b := append_ne (by decide)
@[simp] theorem ipKey_ne_knownIpKey : ipKey a ≠ knownIpKey u b := append_ne (by decide)
@[simp] theorem userKey_ne_userIpKey : userKey u ≠ userIpKey v b := append_ne (by decide)
@[simp] theorem userKey_ne_knownIpKey : userKey u ≠ knownIpKey v b := append_ne (by decide)
@[simp] theorem userIpKey_ne_knownIpKey : userIpKey u a ≠ knownIpKey v b := append_ne (by decide)

/-- Two lists agree up to the first separator and after it. -/
theorem separated_inj {sep : Char} {ps qs us vs : List Char} (hp : sep ∉ ps) (hq : sep ∉ qs)
    (h : ps ++ sep :: us = qs ++ sep :: vs) : ps = qs ∧ us = vs := by
  induction ps generalizing qs with
  | nil =>
    cases qs with
    | nil => exact ⟨rfl, (List.cons.inj h).2⟩
    | cons d qs => exact absurd (List.cons.inj h).1 fun heq => hq (by simp [heq])
  | cons d ps ih =>
    cases qs with
    | nil => exact absurd (List.cons.inj h).1 fun heq => hp (by simp [heq])
    | cons d' qs =>
      obtain ⟨rfl, hrest⟩ := List.cons.inj h
      obtain ⟨rfl, rfl⟩ := ih (fun hmem => hp (List.mem_cons_of_mem _ hmem))
        (fun hmem => hq (List.mem_cons_of_mem _ hmem)) hrest
      exact ⟨rfl, rfl⟩

/-- Addresses without a colon keep the pairs apart. -/
theorem pairText_inj (ha : ':' ∉ a.toList) (hb : ':' ∉ b.toList) :
    pairText u a = pairText v b ↔ u = v ∧ a = b := by
  constructor
  · intro h
    -- Read from the end, the address stands before the first colon.
    have hcolon : ":".toList = [':'] := rfl
    have hlists := congrArg (fun s : String => s.toList.reverse) h
    simp only [pairText, String.toList_append, hcolon, List.singleton_append,
      List.reverse_append, List.reverse_cons, List.append_assoc] at hlists
    obtain ⟨hip, huname⟩ := separated_inj (by simpa using ha) (by simpa using hb) hlists
    exact ⟨String.toList_inj.mp (List.reverse_injective huname),
      String.toList_inj.mp (List.reverse_injective hip)⟩
  · rintro ⟨rfl, rfl⟩
    rfl

end Keys

/-- Two stores agree on the keys with this property. -/
def Agree (P : String → Prop) (s s' : Store) : Prop := ∀ k, P k → s k = s' k

namespace Agree
variable {P : String → Prop} {s s' : Store}

theorem update (h : Agree P s s') (k : String) (v : Option Counter) :
    Agree P (Function.update s k v) (Function.update s' k v) := by
  intro k' hk'
  by_cases heq : k' = k
  · rw [heq, Function.update_self, Function.update_self]
  · rw [Function.update_of_ne heq, Function.update_of_ne heq]
    exact h k' hk'

theorem check (h : Agree P s s') {key : String} (hkey : P key) (limit : Limit) (now : ℤ) :
    Agree P (s.check key limit now).1 (s'.check key limit now).1 ∧
      (s.check key limit now).2 = (s'.check key limit now).2 := by
  unfold Store.check
  rw [h key hkey]
  exact ⟨h.update key _, rfl⟩

end Agree

/-- The keys that decide about `u` from one of the addresses. -/
def Relevant (u : String) (ips : List String) (k : String) : Prop :=
  k = userKey u ∨ ∃ b ∈ ips, k = ipKey b ∨ k = userIpKey u b ∨ k = knownIpKey u b

section Noninterference
variable {py : TextMethods} {c : LoginLimits} {s s' : Store} {x : Attempt} {ips : List String}

theorem Store.check_frame {key k : String} (hk : k ≠ key) (limit : Limit) (now : ℤ) :
    (s.check key limit now).1 k = s k :=
  Function.update_of_ne hk _ _

/-- Of the keys of a name only its bucket or the bucket of the pair is counted. -/
theorem Store.enforce_frame {ip username k : String} {now : ℤ}
    (huser : k ≠ userKey (py.strip (py.lower username)))
    (hpair : k ≠ userIpKey (py.strip (py.lower username)) ip) :
    (s.enforceLoginRateLimit py c ip username now).1 k =
      (s.check (ipKey ip) c.perIp now).1 k := by
  unfold enforceLoginRateLimit
  split
  · rename_i heq
    rw [heq]
  · rename_i heq
    rw [heq]
    split
    · rfl
    · dsimp only
      split
      · exact check_frame hpair _ _
      · exact check_frame huser _ _

theorem Store.recordLoginSuccess_frame {ip username k : String} {now : ℤ}
    (huser : k ≠ userKey (py.strip (py.lower username)))
    (hknown : k ≠ knownIpKey (py.strip (py.lower username)) ip) :
    s.recordLoginSuccess py c ip username now k = s k := by
  unfold recordLoginSuccess
  split
  · rfl
  · rw [Function.update_of_ne huser, Function.update_of_ne hknown]

/-- Outside the keys of its name an attempt counts for its address, and does nothing else. -/
theorem Store.login_ip {k : String} (huser : k ≠ userKey (x.uname py))
    (hpair : k ≠ userIpKey (x.uname py) x.ip) (hknown : k ≠ knownIpKey (x.uname py) x.ip) :
    (s.login py c x).1 k =
      if py.strip x.username = "" ∨ py.strip x.password = "" then s k
      else (s.check (ipKey x.ip) c.perIp x.time).1 k := by
  have henforce : (s.enforceLoginRateLimit py c x.ip (py.strip x.username) x.time).1 k =
      (s.check (ipKey x.ip) c.perIp x.time).1 k := enforce_frame huser hpair
  unfold login
  dsimp only
  split
  · rfl
  · split
    · rename_i heq
      rwa [heq] at henforce
    · rename_i heq
      rw [heq] at henforce
      split
      · exact (recordLoginSuccess_frame huser hknown).trans henforce
      · exact henforce

/-- The keys an attempt can write. -/
theorem Store.login_frame {k : String} (huser : k ≠ userKey (x.uname py))
    (hpair : k ≠ userIpKey (x.uname py) x.ip) (hknown : k ≠ knownIpKey (x.uname py) x.ip)
    (hip : k ≠ ipKey x.ip) : (s.login py c x).1 k = s k := by
  rw [login_ip huser hpair hknown]
  split
  · rfl
  · exact check_frame hip _ _

/-- Both stores keep agreeing on everything the answer reads. -/
theorem Agree.enforce {P : String → Prop} (h : Agree P s s') {ip username : String} (now : ℤ)
    (hip : P (ipKey ip)) (huser : P (userKey (py.strip (py.lower username))))
    (hpair : P (userIpKey (py.strip (py.lower username)) ip))
    (hknown : P (knownIpKey (py.strip (py.lower username)) ip)) :
    Agree P (s.enforceLoginRateLimit py c ip username now).1
        (s'.enforceLoginRateLimit py c ip username now).1 ∧
      (s.enforceLoginRateLimit py c ip username now).2 =
        (s'.enforceLoginRateLimit py c ip username now).2 := by
  obtain ⟨hagree, hanswer⟩ := h.check hip c.perIp now
  unfold Store.enforceLoginRateLimit
  generalize s.check (ipKey ip) c.perIp now = r at hagree hanswer
  generalize s'.check (ipKey ip) c.perIp now = r' at hagree hanswer
  obtain ⟨t, answer⟩ := r
  obtain ⟨t', answer'⟩ := r'
  obtain rfl : answer = answer' := hanswer
  cases answer with
  | some refusal => exact ⟨hagree, rfl⟩
  | none =>
    dsimp only
    have hmark : t.isKnownLoginIp (py.strip (py.lower username)) ip now =
        t'.isKnownLoginIp (py.strip (py.lower username)) ip now := by
      exact congrArg (fun mark => (settle now mark).isSome) (hagree _ hknown)
    rw [hmark]
    split
    · exact ⟨hagree, rfl⟩
    · split
      · exact hagree.check hpair _ _
      · exact hagree.check huser _ _

theorem Agree.recordLoginSuccess {P : String → Prop} (h : Agree P s s') (ip username : String)
    (now : ℤ) : Agree P (s.recordLoginSuccess py c ip username now)
      (s'.recordLoginSuccess py c ip username now) := by
  unfold Store.recordLoginSuccess
  split
  · exact h
  · exact (h.update _ _).update _ _

/-- The answer to an attempt reads the keys of its pair, and what it writes follows from them. -/
theorem Agree.login {P : String → Prop} (h : Agree P s s') (hip : P (ipKey x.ip))
    (huser : P (userKey (x.uname py))) (hpair : P (userIpKey (x.uname py) x.ip))
    (hknown : P (knownIpKey (x.uname py) x.ip)) :
    Agree P (s.login py c x).1 (s'.login py c x).1 ∧
      (s.login py c x).2 = (s'.login py c x).2 := by
  have henforce : Agree P
        (s.enforceLoginRateLimit py c x.ip (py.strip x.username) x.time).1
        (s'.enforceLoginRateLimit py c x.ip (py.strip x.username) x.time).1 ∧
      (s.enforceLoginRateLimit py c x.ip (py.strip x.username) x.time).2 =
        (s'.enforceLoginRateLimit py c x.ip (py.strip x.username) x.time).2 :=
    h.enforce x.time hip huser hpair hknown
  obtain ⟨hagree, hanswer⟩ := henforce
  unfold Store.login
  dsimp only
  generalize s.enforceLoginRateLimit py c x.ip (py.strip x.username) x.time = r at hagree hanswer
  generalize s'.enforceLoginRateLimit py c x.ip (py.strip x.username) x.time = r' at hagree hanswer
  obtain ⟨t, answer⟩ := r
  obtain ⟨t', answer'⟩ := r'
  obtain rfl : answer = answer' := hanswer
  split
  · exact ⟨h, rfl⟩
  · cases answer with
    | some refusal => exact ⟨hagree, rfl⟩
    | none =>
      dsimp only
      split
      · exact ⟨hagree.recordLoginSuccess _ _ _, rfl⟩
      · exact ⟨hagree, rfl⟩

/-- An attempt whose name has no key among those that matter. -/
theorem Agree.login_apart {P : String → Prop} (h : Agree P s s') (hip : P (ipKey x.ip))
    (huser : ¬P (userKey (x.uname py))) (hpair : ¬P (userIpKey (x.uname py) x.ip))
    (hknown : ¬P (knownIpKey (x.uname py) x.ip)) :
    Agree P (s.login py c x).1 (s'.login py c x).1 := by
  intro k hk
  have huser' : k ≠ userKey (x.uname py) := fun heq => huser (heq ▸ hk)
  have hpair' : k ≠ userIpKey (x.uname py) x.ip := fun heq => hpair (heq ▸ hk)
  have hknown' : k ≠ knownIpKey (x.uname py) x.ip := fun heq => hknown (heq ▸ hk)
  rw [Store.login_ip huser' hpair' hknown', Store.login_ip huser' hpair' hknown']
  split
  · exact h k hk
  · exact (h.check hip _ _).1 k hk

theorem Agree.login_foreign {P : String → Prop} (h : Agree P s s') (hip : ¬P (ipKey x.ip))
    (huser : ¬P (userKey (x.uname py))) (hpair : ¬P (userIpKey (x.uname py) x.ip))
    (hknown : ¬P (knownIpKey (x.uname py) x.ip)) : Agree P (s.login py c x).1 s' := by
  intro k hk
  rw [Store.login_frame (fun heq => huser (heq ▸ hk)) (fun heq => hpair (heq ▸ hk))
    (fun heq => hknown (heq ▸ hk)) (fun heq => hip (heq ▸ hk))]
  exact h k hk

/-- No address of `u` makes another name's pair read like one of `u`. -/
def Unmixed (py : TextMethods) (u : String) (ips : List String) (x : Attempt) : Prop :=
  x.uname py ≠ u → ∀ b ∈ ips, pairText (x.uname py) x.ip ≠ pairText u b

theorem unmixed_of_no_colon {u : String} (hip : ':' ∉ x.ip.toList)
    (hips : ∀ b ∈ ips, ':' ∉ b.toList) : Unmixed py u ips x :=
  fun hname b hb h => hname ((pairText_inj hip (hips b hb)).mp h).1

theorem not_relevant {u : String} (hname : x.uname py ≠ u) (hunmixed : Unmixed py u ips x) :
    ¬Relevant u ips (userKey (x.uname py)) ∧ ¬Relevant u ips (userIpKey (x.uname py) x.ip) ∧
      ¬Relevant u ips (knownIpKey (x.uname py) x.ip) := by
  have hpairs := hunmixed hname
  refine ⟨?_, ?_, ?_⟩
  · rintro (h | ⟨b, -, h | h | h⟩)
    · exact hname (userKey_inj.mp h)
    · exact ipKey_ne_userKey h.symm
    · exact userKey_ne_userIpKey h
    · exact userKey_ne_knownIpKey h
  · rintro (h | ⟨b, hb, h | h | h⟩)
    · exact userKey_ne_userIpKey h.symm
    · exact ipKey_ne_userIpKey h.symm
    · exact hpairs b hb (userIpKey_inj.mp h)
    · exact userIpKey_ne_knownIpKey h
  · rintro (h | ⟨b, hb, h | h | h⟩)
    · exact userKey_ne_knownIpKey h.symm
    · exact ipKey_ne_knownIpKey h.symm
    · exact userIpKey_ne_knownIpKey h.symm
    · exact hpairs b hb (knownIpKey_inj.mp h)

theorem relevant_ipKey {u b : String} : Relevant u ips (ipKey b) ↔ b ∈ ips := by
  constructor
  · rintro (h | ⟨b', hb', h | h | h⟩)
    · exact absurd h ipKey_ne_userKey
    · rwa [ipKey_inj.mp h]
    · exact absurd h ipKey_ne_userIpKey
    · exact absurd h ipKey_ne_knownIpKey
  · exact fun h => .inr ⟨b, h, .inl rfl⟩

/-- The attempts that stay: those for `u`, and all from an address of `u`. -/
def stays (py : TextMethods) (u : String) (ips : List String) (x : Attempt) : Bool :=
  x.uname py == u || ips.contains x.ip

/-- One attempt, taken in both runs if it stays and in the first one only otherwise. -/
theorem Agree.attempt {u : String} (h : Agree (Relevant u ips) s s')
    (hown : x.uname py = u → x.ip ∈ ips) (hunmixed : Unmixed py u ips x) :
    Agree (Relevant u ips) (s.login py c x).1
      (if stays py u ips x then (s'.login py c x).1 else s') := by
  by_cases hname : x.uname py = u
  · subst hname
    have hmem := hown rfl
    rw [if_pos (by simp [stays])]
    exact (h.login (.inr ⟨_, hmem, .inl rfl⟩) (.inl rfl) (.inr ⟨_, hmem, .inr (.inl rfl)⟩)
      (.inr ⟨_, hmem, .inr (.inr rfl)⟩)).1
  · obtain ⟨huser, hpair, hknown⟩ := not_relevant hname hunmixed
    by_cases hip : x.ip ∈ ips
    · rw [if_pos (by simp [stays, hip])]
      exact h.login_apart (relevant_ipKey.mpr hip) huser hpair hknown
    · rw [if_neg (by simp [stays, hname, hip])]
      exact h.login_foreign (fun hrel => hip (relevant_ipKey.mp hrel)) huser hpair hknown

theorem Agree.after {u : String} (h : Agree (Relevant u ips) s s') (history : List Attempt)
    (hown : ∀ y ∈ history, y.uname py = u → y.ip ∈ ips)
    (hunmixed : ∀ y ∈ history, Unmixed py u ips y) :
    Agree (Relevant u ips) (s.after py c history)
      (s'.after py c (history.filter (stays py u ips))) := by
  induction history generalizing s s' with
  | nil => exact h
  | cons y history ih =>
    have hstep := h.attempt (c := c) (hown y List.mem_cons_self) (hunmixed y List.mem_cons_self)
    have hrest := ih hstep (fun z hz => hown z (List.mem_cons_of_mem _ hz))
      (fun z hz => hunmixed z (List.mem_cons_of_mem _ hz))
    rw [List.filter_cons]
    split at hrest
    · rename_i hstay
      rw [if_pos hstay]
      exact hrest
    · rename_i hstay
      rw [if_neg hstay]
      exact hrest

end Noninterference

/-- The addresses an attempt and the history use for its name. -/
def addresses (py : TextMethods) (history : List Attempt) (x : Attempt) : List String :=
  x.ip :: (history.filter fun y => y.uname py == x.uname py).map Attempt.ip

/-- A lockout is a matter of the name and of the addresses it is used from. Attempts under other
names from other addresses do not change the next answer, unless their name and address read
like those of the name; nor do they write a key of the pair. -/
theorem lockouts_apart (py : TextMethods) (c : LoginLimits) (s : Store) (history : List Attempt)
    (x : Attempt)
    (hunmixed : ∀ y ∈ history, Unmixed py (x.uname py) (addresses py history x) y) :
    ((s.after py c history).login py c x).2 =
      ((s.after py c (history.filter (stays py (x.uname py) (addresses py history x)))).login
        py c x).2 ∧
    ∀ y ∈ history, y.uname py ≠ x.uname py → y.ip ≠ x.ip → ∀ s' : Store,
      (s'.login py c y).1 (userIpKey (x.uname py) x.ip) = s' (userIpKey (x.uname py) x.ip) ∧
      (s'.login py c y).1 (knownIpKey (x.uname py) x.ip) = s' (knownIpKey (x.uname py) x.ip) := by
  constructor
  · have hagree : Agree (Relevant (x.uname py) (addresses py history x)) (s.after py c history)
        (s.after py c (history.filter (stays py (x.uname py) (addresses py history x)))) := by
      refine Agree.after (fun _ _ => rfl) history (fun y hy hname => ?_) hunmixed
      exact List.mem_cons_of_mem _ (List.mem_map_of_mem (List.mem_filter.mpr ⟨hy, by simp [hname]⟩))
    have hmem : x.ip ∈ addresses py history x := List.mem_cons_self
    exact (hagree.login (.inr ⟨_, hmem, .inl rfl⟩) (.inl rfl) (.inr ⟨_, hmem, .inr (.inl rfl)⟩)
      (.inr ⟨_, hmem, .inr (.inr rfl)⟩)).2
  · intro y hy hname hip s'
    have hpair := hunmixed y hy hname x.ip List.mem_cons_self
    constructor
    · exact Store.login_frame userKey_ne_userIpKey.symm (fun h => hpair (userIpKey_inj.mp h).symm)
        userIpKey_ne_knownIpKey ipKey_ne_userIpKey.symm
    · exact Store.login_frame userKey_ne_knownIpKey.symm userIpKey_ne_knownIpKey.symm
        (fun h => hpair (knownIpKey_inj.mp h).symm) ipKey_ne_knownIpKey.symm

/-- Without the attempts that share neither name nor address the next one has another fate. -/
def Differs (py : TextMethods) (c : LoginLimits) (history : List Attempt) (x : Attempt) : Prop :=
  Store.refuses py c (Store.after py c (fun _ => none) history) x ≠
    Store.refuses py c (Store.after py c (fun _ => none)
      (history.filter fun y => y.uname py = x.uname py ∨ y.ip = x.ip)) x

instance (py : TextMethods) (c : LoginLimits) (history : List Attempt) (x : Attempt) :
    Decidable (Differs py c history x) :=
  inferInstanceAs (Decidable (_ ≠ _))

/-- On ASCII texts. -/
def ascii : TextMethods := ⟨Text.strip, Text.lower⟩

/-- Others use up the limit of an address before ten attempts for `ops` from there. -/
def crowd : List Attempt :=
  List.replicate 20 ⟨0, "192.0.2.1", "guest", "pw", false⟩ ++
    List.replicate 10 ⟨0, "192.0.2.1", "ops", "pw", false⟩

/-- A login of `ops`, then ten attempts for `ops:2001` from another address. -/
def lookalike : List Attempt :=
  ⟨0, "2001:db8::1", "ops", "pw", true⟩ ::
    List.replicate 10 ⟨0, "db8::1", "ops:2001", "pw", false⟩

theorem lockouts_leak :
    ¬(∀ (history : List Attempt) (x : Attempt), ¬Differs ascii defaultLimits history x) ∧
    Differs ascii defaultLimits lookalike ⟨0, "2001:db8::1", "ops", "pw", false⟩ := by
  refine ⟨fun h => h crowd ⟨0, "192.0.2.2", "ops", "pw", false⟩ ?_, ?_⟩
  · decide +kernel
  · decide +kernel

def visitor : Attempt := ⟨0, "192.0.2.2", "visitor", "pw", true⟩

/-- A visitor from another address is answered as if the crowd had never been. -/
theorem lockouts_apart_crowd :
    ((Store.after ascii defaultLimits (fun _ => none) crowd).login ascii defaultLimits visitor).2 =
      ((Store.after ascii defaultLimits (fun _ => none) []).login ascii defaultLimits visitor).2 := by
  have hfilter : crowd.filter
      (stays ascii (visitor.uname ascii) (addresses ascii crowd visitor)) = [] := by
    decide +kernel
  have hcolon : ∀ y ∈ crowd, ':' ∉ y.ip.toList := by decide +kernel
  have hips : ∀ b ∈ addresses ascii crowd visitor, ':' ∉ b.toList := by decide +kernel
  have h := (lockouts_apart ascii defaultLimits (fun _ => none) crowd visitor
    fun y hy => unmixed_of_no_colon (hcolon y hy) hips).1
  rwa [hfilter] at h

end MonitoringHub.Login
