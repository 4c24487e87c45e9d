import MonitoringHub.Cache.CallSteps

/-! Single flight. Who leads a key's flight holds its entry of the table until the result is
published; whoever misses the store and finds no flight leads the next one. The history of
a run says who loaded what, when it was stored and when each call last looked. -/

namespace MonitoringHub.Cache
open Lib Lib.KeyedStore Lib.RowTable

section Flights
variable {V : Type} {B : Backend} {s t : SharedCache V} {c d : Call V} {m : Move V}
  {tr : List (Act V)} {a : Act V}

/-- The moment the load now running, or about to store its value, began. -/
def Pc.running : Pc V → Option ℕ
  | .loading _ began => some began
  | .writeL1 _ x | .writeRedis _ x => x.loaderBegan
  | _ => none

def Pc.done : Pc V → Bool
  | .returned _ => true
  | _ => false

/-- The call is past the point where its value would have been stored. -/
def Pc.stored (B : Backend) : Pc V → Bool
  | .release _ | .publish _ | .unregister _ | .returned _ => true
  | .writeRedis _ _ => match B with
    | .memory => true
    | .redis _ => false
  | _ => false

/-- The call may still come to load. -/
def Pc.searching : Pc V → Bool
  | .read | .enter | .wait _ | .lock | .poll | .recheck | .load _ => true
  | _ => false

/-- Only leaders go through the lock and publish; a load is its leader's, or that of a
follower that gave up. -/
def Pc.Led (gaveUp : Prop) (leads : Bool) : Pc V → Prop
  | .read | .enter | .wait _ => leads = false
  | .lock | .poll | .recheck | .publish _ | .unregister _ => leads = true
  | .load _ | .loading _ _ => leads = true ∨ gaveUp
  | .writeL1 _ x | .writeRedis _ x => x.loaderBegan = none ∨ leads = true ∨ gaveUp
  | .release _ | .returned _ => True

theorem Pc.Led.imp {gaveUp gaveUp' : Prop} {leads : Bool} {pc : Pc V} (h : pc.Led gaveUp leads)
    (himp : gaveUp → gaveUp') : pc.Led gaveUp' leads := by
  cases pc with
  | load | loading => exact Or.imp_right himp h
  | writeL1 | writeRedis => exact Or.imp_right (Or.imp_right himp) h
  | _ => exact h

theorem Call.settle_led {gaveUp : Prop} (c : Call V) (token : Bool) (res : Result V) :
    (c.settle token res).Led gaveUp c.leads := by
  unfold Call.settle
  split
  · trivial
  · split
    · rename_i hleads
      exact hleads
    · trivial

theorem Call.settle_running (c : Call V) (token : Bool) (res : Result V) :
    (c.settle token res).running = none := by
  unfold Call.settle
  split
  · rfl
  · split <;> rfl

theorem Call.settle_stored (c : Call V) (token : Bool) (res : Result V) :
    (c.settle token res).stored B = true := by
  unfold Call.settle
  split
  · rfl
  · split <;> rfl

theorem Call.settle_searching (c : Call V) (token : Bool) (res : Result V) :
    (c.settle token res).searching = false := by
  unfold Call.settle
  split
  · rfl
  · split <;> rfl

/-- A leader is done only when it has unregistered. -/
theorem Call.settle_done (c : Call V) (token : Bool) (res : Result V) (h : c.leads = true) :
    (c.settle token res).done = false := by
  unfold Call.settle
  split
  · rfl
  · rfl

theorem Goes.leads_of (h : Goes B s c m d) (hleads : c.leads = true) : d.leads = true := by
  cases h <;> first | rfl | exact hleads

theorem Goes.led {gaveUp : Prop} (h : Goes B s c m d) (hc : c.pc.Led gaveUp c.leads)
    (hgave : m = .gaveUp → gaveUp) : d.pc.Led gaveUp d.leads := by
  cases h with
  | hit => trivial
  | missed h' | follows h' | lockHeld h' | locked h' | published h' =>
    rw [h'] at hc
    exact hc
  | leads _ _ hnew =>
    rcases hnew with ⟨rfl, -⟩ | ⟨rfl, -⟩
    · exact .inl rfl
    · rfl
  | joined => trivial
  | gaveUp => exact .inr (hgave rfl)
  | pollHit => exact c.settle_led false _
  | pollMissed => exact hc
  | stopPolling h' | recheckMissed h' =>
    rw [h'] at hc
    exact .inl hc
  | recheckHit => trivial
  | begin h' =>
    rw [h'] at hc
    exact hc
  | stores h' =>
    rw [h'] at hc
    exact .inr hc
  | uncached | raised | wroteL1 | wroteRedis => exact c.settle_led _ _
  | released => exact c.settle_led false _
  | wroteCopy h' =>
    rw [h'] at hc
    exact hc
  | unregistered => trivial

/-- Who leads and is not done was on the way, or has just entered a slot without a flight. -/
theorem Goes.leading (h : Goes B s c m d) (hleads : d.leads = true) (hdone : d.pc.done = false) :
    c.leads = true ∧ c.pc.done = false ∨ m = .enter ∧ find c.slot s.flights = none := by
  cases h with
  | hit | joined | unregistered => cases hdone
  | leads _ hflight => exact .inr ⟨rfl, hflight⟩
  | missed h' | follows h' | gaveUp h' | lockHeld h' | locked h' | pollHit h' | pollMissed h'
  | stopPolling h' | recheckHit h' | recheckMissed h' | begin h' | stores h' | uncached h'
  | raised h' | wroteL1 h' | wroteCopy h' | wroteRedis h' | released h' | published h' =>
    exact .inl ⟨hleads, by rw [h']; rfl⟩

theorem Goes.running (h : Goes B s c m d) {began : ℕ} (hd : d.pc.running = some began) :
    c.pc.running = some began ∨ m = .begin ∧ began = s.now := by
  cases h with
  | begin => exact .inr ⟨rfl, (Option.some.inj hd).symm⟩
  | stores h' | wroteCopy h' => exact .inl (by rw [h']; exact hd)
  | pollMissed => exact .inl hd
  | leads _ _ hnew => rcases hnew with ⟨rfl, -⟩ | ⟨rfl, -⟩ <;> cases hd
  | uncached | raised | wroteL1 | wroteRedis => cases (c.settle_running _ _).symm.trans hd
  | pollHit | released => cases (c.settle_running false _).symm.trans hd
  | _ => cases hd

theorem Goes.stored (h : Goes B s c m d) (hd : d.pc.stored B = false) :
    c.pc.stored B = false ∧ m ≠ B.storing := by
  cases h with
  | hit | joined | recheckHit | published | unregistered => cases hd
  | uncached | raised | wroteL1 | wroteRedis => cases (c.settle_stored _ _).symm.trans hd
  | pollHit | released => cases (c.settle_stored false _).symm.trans hd
  | wroteCopy h' hB =>
    subst hB
    exact ⟨by rw [h']; rfl, fun hm => by cases hm⟩
  | missed h' | follows h' | leads h' | gaveUp h' | lockHeld h' | locked h' | pollMissed h'
  | stopPolling h' | recheckMissed h' | begin h' | stores h' =>
    exact ⟨by rw [h']; rfl, fun hm => by cases B <;> cases hm⟩

theorem Goes.searching (h : Goes B s c m d) (hd : d.pc.searching = true) :
    c.pc.searching = true := by
  cases h with
  | uncached | raised | wroteL1 | wroteRedis => cases (c.settle_searching _ _).symm.trans hd
  | pollHit | released => cases (c.settle_searching false _).symm.trans hd
  | missed h' | follows h' | leads h' | gaveUp h' | lockHeld h' | locked h' | pollMissed h'
  | stopPolling h' | recheckMissed h' => rw [h']; rfl
  | _ => cases hd

/-- A call that waits has found its leader in the table of flights; one that is to load with
the lock has looked under it. -/
theorem Goes.searches (h : Goes B s c m d) (hd : d.pc.searching = true) :
    (∀ leader, d.pc = .wait leader →
        m = .enter ∧ find (c.process, c.key) s.flights = some leader) ∧
      (d.pc = .load true → ∃ valid, m = .recheck valid) := by
  cases h with
  | follows _ hflight => exact ⟨fun leader hpc => ⟨rfl, Pc.wait.inj hpc ▸ hflight⟩, nofun⟩
  | recheckMissed => exact ⟨nofun, fun _ => ⟨_, rfl⟩⟩
  | pollMissed hpoll =>
    exact ⟨fun _ hpc => (by cases hpoll.symm.trans hpc), fun hpc => by cases hpoll.symm.trans hpc⟩
  | leads _ _ hnew => rcases hnew with ⟨rfl, -⟩ | ⟨rfl, -⟩ <;> exact ⟨nofun, nofun⟩
  | uncached | raised | wroteL1 | wroteRedis => cases (c.settle_searching _ _).symm.trans hd
  | pollHit | released => cases (c.settle_searching false _).symm.trans hd
  | missed | gaveUp | lockHeld | locked | stopPolling => exact ⟨nofun, nofun⟩
  | _ => cases hd

/-- A look at the store that takes whatever it finds there. -/
def Move.looks (bypass : Bool) : Move V → Bool
  | .read valid => valid
  | .poll valid | .recheck valid => valid && !bypass
  | _ => false

/-- A call that looked and still comes to load has found nothing. -/
theorem Goes.looked (h : Goes B s c m d) (hd : d.pc.searching = true)
    (hlooks : m.looks c.bypass = true) : s.read B c.process c.key = none := by
  cases h with
  | missed _ hmiss => exact hmiss hlooks
  | pollMissed _ hmiss | recheckMissed _ hmiss =>
    obtain ⟨hvalid, hno⟩ := Bool.and_eq_true _ _ |>.mp hlooks
    exact hmiss hvalid (Bool.not_eq_true' _ |>.mp hno)
  | pollHit => cases (c.settle_searching false _).symm.trans hd
  | hit | recheckHit => cases hd
  | _ => cases hlooks

/-- The call `j` loaded the value `x` and stored it at `when_`. -/
structure StoredBy (B : Backend) (tr : List (Act V)) (j : ℕ) (x : Stored V) (when_ : ℕ) :
    Prop where
  loaded : ∃ began, x.loaderBegan = some began ∧ At tr began (.move j .begin)
  stored : At tr when_ (.move j B.storing)

/-- What the history of a run says of the calls and of the table of flights. -/
structure Traced (B : Backend) (tr : List (Act V)) (s : SharedCache V) : Prop where
  clock : s.now = tr.length
  party : ∀ r i m, At tr r (.move i m) → i < s.calls.length
  led : ∀ (i : ℕ) (c : Call V), s.calls[i]? = some c →
    c.pc.Led (.move i .gaveUp ∈ tr) c.leads
  held : ∀ (i : ℕ) (c : Call V), s.calls[i]? = some c → c.leads = true → c.pc.done = false →
    find c.slot s.flights = some i
  began : ∀ (i : ℕ) (c : Call V), s.calls[i]? = some c → ∀ b, c.pc.running = some b →
    At tr b (.move i .begin)
  unstored : ∀ (i : ℕ) (c : Call V), s.calls[i]? = some c → c.pc.stored B = false →
    ∀ w, ¬ At tr w (.move i B.storing)

theorem at_move_of_other {n r : ℕ} (h : At (a :: tr) r (.move n m))
    (hother : ∀ m, a ≠ .move n m) : At tr r (.move n m) :=
  h.of_cons fun heq => hother m heq.symm

theorem Begins.led {gaveUp : Prop} (h : Begins s a c) : c.pc.Led gaveUp c.leads := by
  cases h with
  | called hpc => rcases hpc with ⟨rfl, -⟩ | ⟨rfl, -⟩ <;> rfl
  | put => exact .inl rfl

theorem Begins.running (h : Begins s a c) : c.pc.running = none := by
  cases h with
  | called hpc => rcases hpc with ⟨rfl, -⟩ | ⟨rfl, -⟩ <;> rfl
  | put => rfl

theorem Begins.leads (h : Begins s a c) : c.leads = false := by cases h <;> rfl

theorem Begins.not_move (h : Begins s a c) (i : ℕ) (m : Move V) : a ≠ .move i m := by
  cases h <;> intro heq <;> cases heq

theorem Traced.party_cons (h : Traced B tr s) (hstep : s.step B a = some t) :
    ∀ r i m, At (a :: tr) r (.move i m) → i < t.calls.length := by
  intro r i m hat
  have hfound : ∃ c : Call V, s.calls[i]? = some c := by
    rcases at_cons.mp hat with hold | ⟨-, rfl⟩
    · exact ⟨_, List.getElem?_eq_getElem (h.party r i m hold)⟩
    · obtain ⟨t₀, hmove, -⟩ := Option.map_eq_some_iff.mp hstep
      obtain ⟨c, hc, -⟩ := Option.bind_eq_some_iff.mp hmove
      exact ⟨c, hc⟩
  obtain ⟨c, hc⟩ := hfound
  obtain ⟨d, hd, -⟩ := step_target hstep hc
  exact (List.getElem?_eq_some_iff.mp hd).1

theorem step_leads {n : ℕ} (h : s.step B (.move n .enter) = some t) (hc : s.calls[n]? = some c)
    (hnone : find c.slot s.flights = none) : find c.slot t.flights = some n := by
  obtain ⟨t₀, hmove, rfl⟩ := Option.map_eq_some_iff.mp h
  obtain ⟨c', hc', hadvance⟩ := Option.bind_eq_some_iff.mp hmove
  obtain rfl := Option.some.inj (hc'.symm.trans hc)
  cases advance_effect hadvance with
  | follows _ hflight => cases hflight.symm.trans hnone
  | leads =>
    change find c'.slot (write c'.slot n s.flights) = some n
    rw [find_write, if_pos rfl]

/-- A call that leads and is not done keeps its flight while others move. -/
theorem Traced.held_stays (h : Traced B tr s) (hstep : s.step B a = some t) {n : ℕ}
    (hc : s.calls[n]? = some c) (hleads : c.leads = true) (hdone : c.pc.done = false)
    (hstays : ∀ m, a = .move n m → m ≠ .unregister) : find c.slot t.flights = some n := by
  have hfind := h.held n c hc hleads hdone
  rcases step_flight_stays hstep hfind with hfind | ⟨i, d, res, ha, hd, hpc, hslot⟩
  · exact hfind
  · -- whoever unregisters a slot leads it, and there is one leader of a slot
    have hled : d.leads = true := by
      have := h.led i d hd
      rw [hpc] at this
      exact this
    have hheld := h.held i d hd hled (by rw [hpc]; rfl)
    have hslot' : d.slot = c.slot := hslot
    rw [hslot'] at hheld
    obtain rfl := Option.some.inj (hheld.symm.trans hfind)
    exact absurd rfl (hstays _ ha)

theorem Traced.step (h : Traced B tr s) (hstep : s.step B a = some t) : Traced B (a :: tr) t := by
  refine ⟨by rw [step_now hstep, h.clock, List.length_cons], h.party_cons hstep,
    fun n d hd => ?_, fun n d hd hleads hdone => ?_, fun n d hd b hb => ?_,
    fun n d hd hstored w hat => ?_⟩
  · rcases step_source hstep hd with ⟨hd, -⟩ | ⟨ha, hc, hgoes⟩ | ⟨-, hbegins⟩
    · exact (h.led n d hd).imp (List.mem_cons_of_mem a)
    · refine hgoes.led ((h.led n _ hc).imp (List.mem_cons_of_mem a)) fun hm => ?_
      rw [ha, hm]
      exact List.mem_cons_self
    · exact hbegins.led
  · rcases step_source hstep hd with ⟨hd, hother⟩ | ⟨ha, hc, hgoes⟩ | ⟨-, hbegins⟩
    · exact h.held_stays hstep hd hleads hdone fun m ha => absurd ha (hother m)
    · rw [hgoes.slot]
      rcases hgoes.leading hleads hdone with ⟨hleads', hdone'⟩ | ⟨rfl, hnone⟩
      · refine h.held_stays hstep hc hleads' hdone' fun m' ha' hm' => ?_
        obtain rfl := (Act.move.inj (ha.symm.trans ha')).2
        rw [hm'] at hgoes
        cases hgoes
        cases hdone
      · exact step_leads (ha ▸ hstep) hc hnone
    · cases hbegins.leads.symm.trans hleads
  · rcases step_source hstep hd with ⟨hd, -⟩ | ⟨ha, hc, hgoes⟩ | ⟨-, hbegins⟩
    · exact (h.began n d hd b hb).cons a
    · rcases hgoes.running hb with hold | ⟨rfl, rfl⟩
      · exact (h.began n _ hc b hold).cons a
      · rw [h.clock, ha]
        exact at_last tr _
    · cases hbegins.running.symm.trans hb
  · rcases step_source hstep hd with ⟨hd, hother⟩ | ⟨ha, hc, hgoes⟩ | ⟨hn, hbegins⟩
    · exact h.unstored n d hd hstored w (at_move_of_other hat hother)
    · obtain ⟨hstored', hm⟩ := hgoes.stored hstored
      refine h.unstored n _ hc hstored' w (hat.of_cons fun heq => hm ?_)
      exact (Act.move.inj (heq.trans ha)).2.symm
    · have := h.party w n _ (at_move_of_other hat fun m => hbegins.not_move n m)
      omega

/-- There is one leader of a slot at a time. -/
theorem Traced.one_leader (h : Traced B tr s) {i j : ℕ} (hc : s.calls[i]? = some c)
    (hd : s.calls[j]? = some d) (hslot : d.slot = c.slot) (hleads : c.leads = true)
    (hdone : c.pc.done = false) (hleads' : d.leads = true) (hdone' : d.pc.done = false) : j = i := by
  have hheld := h.held j d hd hleads' hdone'
  rw [hslot, h.held i c hc hleads hdone] at hheld
  exact (Option.some.inj hheld).symm

theorem Traced.load_alone (h : Traced B tr s) {i j : ℕ} {token : Bool} (hc : s.calls[i]? = some c)
    (hpc : c.pc = .load token) (hd : s.calls[j]? = some d) (hji : j ≠ i) (hslot : d.slot = c.slot)
    {b : ℕ} (hrunning : d.pc.running = some b) :
    .move i .gaveUp ∈ tr ∨ .move j .gaveUp ∈ tr := by
  have hled := h.led i c hc
  rw [hpc] at hled
  have hled' : d.leads = true ∨ .move j .gaveUp ∈ tr := by
    have := h.led j d hd
    cases hd' : d.pc with
    | loading => rwa [hd'] at this
    | writeL1 | writeRedis =>
      rw [hd'] at this hrunning
      exact this.resolve_left fun hnone => by cases hnone.symm.trans hrunning
    | _ =>
      rw [hd'] at hrunning
      cases hrunning
  rcases hled with hleads | hgave
  · rcases hled' with hleads' | hgave'
    · have hdone : d.pc.done = false := by
        cases hd' : d.pc with
        | returned =>
          rw [hd'] at hrunning
          cases hrunning
        | _ => rfl
      exact absurd (h.one_leader hc hd hslot hleads (by rw [hpc]; rfl) hleads' hdone) hji
    · exact .inr hgave'
  · exact .inl hgave

theorem Goes.not_done (h : Goes B s c m d) : c.pc.done = false := by
  cases h with
  | hit h' | missed h' | follows h' | leads h' | joined h' | gaveUp h' | lockHeld h' | locked h'
  | pollHit h' | pollMissed h' | stopPolling h' | recheckHit h' | recheckMissed h' | begin h'
  | stores h' | uncached h' | raised h' | wroteL1 h' | wroteCopy h' | wroteRedis h' | released h'
  | published h' | unregistered h' => rw [h']; rfl

/-- What the last look of a call found, and who led its flight before it. -/
structure Searched (B : Backend) (tr : List (Act V)) (s : SharedCache V) : Prop where
  looked : ∀ (i : ℕ) (c : Call V), s.calls[i]? = some c → c.pc.searching = true →
    ∀ r m, At tr r (.move i m) → m.looks c.bypass = true →
    ∀ j x w, StoredBy B tr j x w → w < r → s.read B c.process c.key ≠ some x
  checked : ∀ (i : ℕ) (c : Call V), s.calls[i]? = some c → c.leads = false →
    ∀ r valid, ¬ At tr r (.move i (.recheck valid))
  turns : ∀ (i : ℕ) (c : Call V), s.calls[i]? = some c → c.leads = true → c.pc.done = false →
    ∀ r valid, At tr r (.move i (.recheck valid)) → ∀ (j : ℕ) (d : Call V),
    s.calls[j]? = some d → d.leads = true → d.slot = c.slot → j ≠ i →
    ∀ w m, At tr w (.move j m) → w < r
  locked : ∀ (i : ℕ) (c : Call V), s.calls[i]? = some c → c.pc = .load true →
    ∃ r valid, At tr r (.move i (.recheck valid))

/-- The writer of a value is who loaded it, and it writes once. -/
theorem Traced.storing_once (h : Traced B tr s) {i j w : ℕ} {x : Stored V}
    (hc : s.calls[i]? = some c) (hstore : B.toStore c.pc = some x) (hx : StoredBy B tr j x w) :
    False := by
  obtain ⟨⟨b, hb, hbegin⟩, hw⟩ := hx
  have hrunning : c.pc.running = some b ∧ c.pc.stored B = false := by
    cases hpc : c.pc <;> cases B <;> rw [hpc] at hstore <;> cases hstore <;> exact ⟨hb, rfl⟩
  obtain ⟨rfl, -⟩ := Act.move.inj ((h.began i c hc b hrunning.1).unique hbegin)
  exact h.unstored i c hc hrunning.2 w hw

theorem at_of_cons_lt {r : ℕ} {e : Act V} (h : At (a :: tr) r e) (hlt : r < tr.length) : At tr r e :=
  (at_cons.mp h).resolve_right fun hlast => absurd hlast.1 hlt.ne

/-- A value stored before the step was loaded before it. -/
theorem Traced.storedBy_of_cons (h : Traced B tr s) (hstep : s.step B a = some t) {j w : ℕ}
    {x : Stored V} (hx : StoredBy B (a :: tr) j x w) (hw : w < tr.length) : StoredBy B tr j x w := by
  obtain ⟨⟨b, hb, hbegin⟩, hlast⟩ := hx
  have hstored := at_of_cons_lt hlast hw
  refine ⟨⟨b, hb, ?_⟩, hstored⟩
  rcases at_cons.mp hbegin with hold | ⟨-, rfl⟩
  · exact hold
  · obtain ⟨t₀, hmove, -⟩ := Option.map_eq_some_iff.mp hstep
    obtain ⟨c, hc, hadvance⟩ := Option.bind_eq_some_iff.mp hmove
    cases advance_effect hadvance with
    | begin hpc => exact absurd hstored (h.unstored j c hc (by rw [hpc]; rfl) w)

theorem Searched.looked_step (hs : Searched B tr s) (h : Traced B tr s)
    (hstep : s.step B a = some t) {n : ℕ} (hd : t.calls[n]? = some d)
    (hsearching : d.pc.searching = true) {r : ℕ} (hat : At (a :: tr) r (.move n m))
    (hlooks : m.looks d.bypass = true) {j w : ℕ} {x : Stored V}
    (hx : StoredBy B (a :: tr) j x w) (hw : w < r) : t.read B d.process d.key ≠ some x := by
  intro hread
  have hr := hat.lt
  rw [List.length_cons] at hr
  have hx := h.storedBy_of_cons hstep hx (by omega)
  rcases step_read hstep hread with hold | ⟨i, c, ha, hc, hstore⟩
  · rcases step_source hstep hd with ⟨hd, hother⟩ | @⟨c, m₀, ha, hc, hgoes⟩ | ⟨hn, hbegins⟩
    · exact hs.looked n d hd hsearching r m (at_move_of_other hat hother) hlooks j x w hx hw hold
    · have hbypass : d.bypass = c.bypass := hgoes.bypass
      have hslot : d.slot = c.slot := hgoes.slot
      rw [show d.process = c.process from congrArg Prod.fst hslot,
        show d.key = c.key from congrArg Prod.snd hslot] at hold
      rw [hbypass] at hlooks
      rcases at_cons.mp hat with hat | ⟨-, heq⟩
      · exact hs.looked n c hc (hgoes.searching hsearching) r m hat hlooks j x w hx hw hold
      · obtain ⟨-, rfl⟩ := Act.move.inj (heq.trans ha)
        cases (hgoes.looked hsearching hlooks).symm.trans hold
    · have := h.party r n m (at_move_of_other hat fun m => hbegins.not_move n m)
      omega
  · exact h.storing_once hc hstore hx

/-- Only a leader rechecks, and who begins to lead has not rechecked before. -/
theorem Searched.checked_step (hs : Searched B tr s) (h : Traced B tr s)
    (hstep : s.step B a = some t) {n : ℕ} (hd : t.calls[n]? = some d) (hleads : d.leads = false)
    {r : ℕ} {valid : Bool} : ¬ At (a :: tr) r (.move n (.recheck valid)) := by
  intro hat
  rcases step_source hstep hd with ⟨hd, hother⟩ | @⟨c, m, ha, hc, hgoes⟩ | ⟨hn, hbegins⟩
  · exact hs.checked n d hd hleads r valid (at_move_of_other hat hother)
  · have hno : c.leads = false := by
      by_contra hyes
      rw [Bool.not_eq_false] at hyes
      cases hleads.symm.trans (hgoes.leads_of hyes)
    rcases at_cons.mp hat with hat | ⟨-, heq⟩
    · exact hs.checked n c hc hno r valid hat
    · obtain ⟨-, rfl⟩ := Act.move.inj (heq.trans ha)
      have hled := h.led n c hc
      cases hgoes with
      | recheckHit hpc | recheckMissed hpc =>
        rw [hpc] at hled
        cases hno.symm.trans hled
  · have := h.party r n _ (at_move_of_other hat fun m => hbegins.not_move n m)
    omega

theorem Goes.leads_from (h : Goes B s c m d) (hleads : d.leads = true) :
    c.leads = true ∨ m = .enter ∧ find c.slot s.flights = none := by
  cases h with
  | leads _ hflight => exact .inr ⟨rfl, hflight⟩
  | _ => exact .inl hleads

/-- While a call leads a slot, no other leader of that slot moves. -/
theorem Traced.others_rest (h : Traced B tr s) (hstep : s.step B a = some t) {i j : ℕ}
    (hc : s.calls[i]? = some c) (hleads : c.leads = true) (hdone : c.pc.done = false)
    (hd : t.calls[j]? = some d) (hleads' : d.leads = true) (hslot : d.slot = c.slot)
    (hji : j ≠ i) : s.calls[j]? = some d ∧ ∀ m, a ≠ .move j m := by
  rcases step_source hstep hd with ⟨hd, hother⟩ | @⟨e, m, ha, he, hgoes⟩ | ⟨-, hbegins⟩
  · exact ⟨hd, hother⟩
  · have hslot' : e.slot = c.slot := hgoes.slot ▸ hslot
    rcases hgoes.leads_from hleads' with hlead | ⟨-, hnone⟩
    · exact absurd (h.one_leader hc he hslot' hleads hdone hlead hgoes.not_done) hji
    · rw [hslot', h.held i c hc hleads hdone] at hnone
      cases hnone
  · cases hbegins.leads.symm.trans hleads'

theorem Searched.turns_step (hs : Searched B tr s) (h : Traced B tr s)
    (hstep : s.step B a = some t) {i : ℕ} (hc : t.calls[i]? = some c) (hleads : c.leads = true)
    (hdone : c.pc.done = false) {r : ℕ} {valid : Bool}
    (hat : At (a :: tr) r (.move i (.recheck valid))) {j : ℕ} (hd : t.calls[j]? = some d)
    (hleads' : d.leads = true) (hslot : d.slot = c.slot) (hji : j ≠ i) {w : ℕ}
    (hw : At (a :: tr) w (.move j m)) : w < r := by
  -- the call led its slot, unfinished, before the step too
  obtain ⟨e, he, hleade, hdonee, hslote⟩ : ∃ e : Call V, s.calls[i]? = some e ∧ e.leads = true ∧
      e.pc.done = false ∧ c.slot = e.slot := by
    rcases step_source hstep hc with ⟨hc, -⟩ | @⟨e, m', ha, he, hgoes⟩ | ⟨-, hbegins⟩
    · exact ⟨c, hc, hleads, hdone, rfl⟩
    · rcases hgoes.leading hleads hdone with ⟨hleade, hdonee⟩ | ⟨rfl, -⟩
      · exact ⟨e, he, hleade, hdonee, hgoes.slot⟩
      · -- a call that enters has not rechecked yet
        have hno : e.leads = false := by
          have hled := h.led i e he
          cases hgoes with
          | follows hpc | leads hpc =>
            rw [hpc] at hled
            exact hled
        refine absurd (hat.of_cons fun heq => ?_) (hs.checked i e he hno r valid)
        cases (Act.move.inj (heq.trans ha)).2
    · cases hbegins.leads.symm.trans hleads
  obtain ⟨hd, hother⟩ := h.others_rest hstep he hleade hdonee hd hleads' (hslot.trans hslote) hji
  have hw := at_move_of_other hw hother
  rcases at_cons.mp hat with hat | ⟨rfl, -⟩
  · exact hs.turns i e he hleade hdonee r valid hat j d hd hleads' (hslot.trans hslote) hji w m hw
  · exact hw.lt

theorem Searched.step (hs : Searched B tr s) (h : Traced B tr s) (hstep : s.step B a = some t) :
    Searched B (a :: tr) t := by
  refine ⟨fun n d hd hsearching r m hat hlooks j x w hx hw =>
      hs.looked_step h hstep hd hsearching hat hlooks hx hw,
    fun n d hd hleads r valid => hs.checked_step h hstep hd hleads,
    fun i c hc hleads hdone r valid hat j d hd hleads' hslot hji w m hw =>
      hs.turns_step h hstep hc hleads hdone hat hd hleads' hslot hji hw,
    fun n d hd hpc => ?_⟩
  rcases step_source hstep hd with ⟨hd, -⟩ | @⟨c, m, ha, hc, hgoes⟩ | ⟨-, hbegins⟩
  · obtain ⟨r, valid, hat⟩ := hs.locked n d hd hpc
    exact ⟨r, valid, hat.cons a⟩
  · subst ha
    obtain ⟨valid, rfl⟩ := (hgoes.searches (by rw [hpc]; rfl)).2 hpc
    exact ⟨_, valid, at_last tr _⟩
  · cases hbegins with
    | called hpc' => rcases hpc' with ⟨rfl, -⟩ | ⟨rfl, -⟩ <;> cases hpc
    | put => cases hpc

theorem run_traced {redis : List (String × Stored V)}
    (run : Steps (Takes (SharedCache.step B)) (.start redis) tr s) :
    Traced B tr s ∧ Searched B tr s := by
  refine run.invariant (I := fun tr s => Traced B tr s ∧ Searched B tr s) ⟨?_, ?_⟩
    fun tr s a t h hstep => ⟨h.1.step hstep, h.2.step h.1 hstep⟩
  · exact ⟨rfl, fun r i m h => (not_at_nil h).elim, fun i c h => (Option.some_ne_none _ h.symm).elim,
      fun i c h => (Option.some_ne_none _ h.symm).elim,
      fun i c h => (Option.some_ne_none _ h.symm).elim,
      fun i c h => (Option.some_ne_none _ h.symm).elim⟩
  · exact ⟨fun i c h => (Option.some_ne_none _ h.symm).elim,
      fun i c h => (Option.some_ne_none _ h.symm).elim,
      fun i c h => (Option.some_ne_none _ h.symm).elim,
      fun i c h => (Option.some_ne_none _ h.symm).elim⟩

/-- Who stands in the table of flights, and when its followers came. -/
structure Registered (tr : List (Act V)) (s : SharedCache V) : Prop where
  begun : ∀ (i : ℕ) (c : Call V), s.calls[i]? = some c → c.began ≤ s.now
  entry : ∀ slot l, find slot s.flights = some l → ∃ c : Call V, s.calls[l]? = some c ∧
    c.leads = true ∧ c.slot = slot ∧ c.pc.done = false
  gone : ∀ (i : ℕ) (c : Call V), s.calls[i]? = some c → ∀ u, At tr u (.move i .unregister) →
    c.pc.done = true
  waits : ∀ (i : ℕ) (c : Call V), s.calls[i]? = some c → ∀ l, c.pc = .wait l →
    ∀ u, At tr u (.move l .unregister) → c.began ≤ u

theorem step_unregister {n : ℕ} (h : s.step B (.move n .unregister) = some t)
    (hc : s.calls[n]? = some c) : find c.slot t.flights = none := by
  obtain ⟨t₀, hmove, rfl⟩ := Option.map_eq_some_iff.mp h
  obtain ⟨c', hc', hadvance⟩ := Option.bind_eq_some_iff.mp hmove
  obtain rfl := Option.some.inj (hc'.symm.trans hc)
  cases advance_effect hadvance with
  | unregistered =>
    change find c'.slot (dropWhere (· = c'.slot) s.flights) = none
    rw [find_dropWhere, if_pos (by simp)]

/-- A leader is done only when it unregisters. -/
theorem Goes.finishes (h : Goes B s c m d) {gaveUp : Prop} (hled : c.pc.Led gaveUp c.leads)
    (hleads : c.leads = true) (hdone : d.pc.done = true) : m = .unregister := by
  cases h with
  | unregistered => rfl
  | hit hpc | joined hpc =>
    rw [hpc] at hled
    cases hled.symm.trans hleads
  | pollMissed hpc =>
    rw [hpc] at hdone
    cases hdone
  | leads _ _ hnew => rcases hnew with ⟨rfl, -⟩ | ⟨rfl, -⟩ <;> cases hdone
  | uncached | raised | wroteL1 | wroteRedis =>
    cases (c.settle_done _ _ hleads).symm.trans hdone
  | pollHit | released => cases (c.settle_done false _ hleads).symm.trans hdone
  | _ => cases hdone

theorem Registered.entry_step (hs : Registered tr s) (h : Traced B tr s)
    (hstep : s.step B a = some t) {slot : ℕ × String} {l : ℕ}
    (hfind : find slot t.flights = some l) : ∃ c : Call V, t.calls[l]? = some c ∧
      c.leads = true ∧ c.slot = slot ∧ c.pc.done = false := by
  rcases step_flight hstep hfind with hold | ⟨c, hc, rfl, hpc, hslot, hnone⟩
  · obtain ⟨c, hc, hleads, hslot, hdone⟩ := hs.entry slot l hold
    obtain ⟨d, hd, ⟨rfl, -⟩ | ⟨m, rfl, hgoes⟩⟩ := step_target hstep hc
    · exact ⟨d, hd, hleads, hslot, hdone⟩
    · refine ⟨d, hd, hgoes.leads_of hleads, hgoes.slot.trans hslot, ?_⟩
      by_contra hyes
      obtain rfl := hgoes.finishes (h.led l c hc) hleads (Bool.not_eq_false _ ▸ hyes)
      have hgone := step_unregister hstep hc
      rw [hslot] at hgone
      cases hgone.symm.trans hfind
  · obtain ⟨d, hd, ⟨-, hother⟩ | ⟨m, heq, hgoes⟩⟩ := step_target hstep hc
    · exact absurd rfl (hother .enter)
    · obtain rfl := (Act.move.inj heq).2
      cases hgoes with
      | follows _ hflight =>
        rw [hslot] at hflight
        cases hflight.symm.trans hnone
      | leads _ _ hnew =>
        refine ⟨_, hd, rfl, hslot, ?_⟩
        rcases hnew with ⟨rfl, -⟩ | ⟨rfl, -⟩ <;> rfl

theorem Registered.step (hs : Registered tr s) (h : Traced B tr s) (hstep : s.step B a = some t) :
    Registered (a :: tr) t := by
  have hnow := step_now hstep
  refine ⟨fun n d hd => ?_, fun slot l hfind => hs.entry_step h hstep hfind,
    fun n d hd u hat => ?_, fun n d hd l hpc u hat => ?_⟩
  · rcases step_source hstep hd with ⟨hd, -⟩ | @⟨c, m, ha, hc, hgoes⟩ | ⟨-, hbegins⟩
    · exact (hs.begun n d hd).trans (by omega)
    · rw [hgoes.began]
      exact (hs.begun n c hc).trans (by omega)
    · cases hbegins <;> exact hnow ▸ Nat.le_succ _
  · rcases step_source hstep hd with ⟨hd, hother⟩ | @⟨c, m, ha, hc, hgoes⟩ | ⟨hn, hbegins⟩
    · exact hs.gone n d hd u (at_move_of_other hat hother)
    · rcases at_cons.mp hat with hat | ⟨-, heq⟩
      · cases hgoes.not_done.symm.trans (hs.gone n c hc u hat)
      · obtain ⟨-, rfl⟩ := Act.move.inj (heq.trans ha)
        cases hgoes
        rfl
    · have := h.party u n _ (at_move_of_other hat fun m => hbegins.not_move n m)
      omega
  · rcases step_source hstep hd with ⟨hd, -⟩ | @⟨c, m, ha, hc, hgoes⟩ | ⟨-, hbegins⟩
    · rcases at_cons.mp hat with hat | ⟨rfl, -⟩
      · exact hs.waits n d hd l hpc u hat
      · exact h.clock ▸ hs.begun n d hd
    · obtain ⟨rfl, hflight⟩ := (hgoes.searches (by rw [hpc]; rfl)).1 l hpc
      obtain ⟨e, he, -, -, hdone⟩ := hs.entry _ _ hflight
      have hat := hat.of_cons fun heq => by cases heq.trans ha
      cases hdone.symm.trans (hs.gone _ e he u hat)
    · cases hbegins with
      | called hpc' => rcases hpc' with ⟨rfl, -⟩ | ⟨rfl, -⟩ <;> cases hpc
      | put => cases hpc

/-- A call about to load: another load of its key is in flight only if one of the two gave up
waiting; nothing stored before its last look is still there to use; and one that took the
lock of its key, and did not turn down what it found there, finds nothing that another
leader of its process stored. -/
theorem single_flight (B : Backend) (redis : List (String × Stored V)) (tr : List (Act V))
    (s : SharedCache V) (run : Steps (Takes (SharedCache.step B)) (.start redis) tr s) (i : ℕ)
    (c : Call V) (token : Bool) (hc : s.calls[i]? = some c) (hpc : c.pc = .load token) :
    (∀ (j : ℕ) (d : Call V), s.calls[j]? = some d → j ≠ i → d.slot = c.slot →
      ∀ b, d.pc.running = some b → .move i .gaveUp ∈ tr ∨ .move j .gaveUp ∈ tr) ∧
    (∀ r m, At tr r (.move i m) → m.looks c.bypass = true → ∀ j x w, StoredBy B tr j x w → w < r →
      s.read B c.process c.key ≠ some x) ∧
    (token = true → c.bypass = false → .move i (.recheck false) ∉ tr →
      ∀ (j : ℕ) (d : Call V), s.calls[j]? = some d → j ≠ i → d.leads = true → d.slot = c.slot →
      ∀ x w, StoredBy B tr j x w → s.read B c.process c.key ≠ some x) := by
  obtain ⟨htraced, hsearched⟩ := run_traced run
  have hsearching : c.pc.searching = true := by rw [hpc]; rfl
  refine ⟨fun j d hd hji hslot b => htraced.load_alone hc hpc hd hji hslot,
    hsearched.looked i c hc hsearching, fun htoken hbypass haccepts j d hd hji hleads hslot x w hx => ?_⟩
  subst htoken
  obtain ⟨r, valid, hat⟩ := hsearched.locked i c hc hpc
  have hvalid : valid = true := by
    cases valid
    · exact absurd hat.mem haccepts
    · rfl
  have hlead : c.leads = true := by
    by_contra hno
    exact hsearched.checked i c hc (Bool.not_eq_true _ ▸ hno) r valid hat
  have hw := hsearched.turns i c hc hlead (by rw [hpc]; rfl) r valid hat j d hd hleads hslot hji w _
    hx.stored
  exact hsearched.looked i c hc hsearching r _ hat (by rw [hvalid, hbypass]; rfl) j x w hx hw

end Flights

section Example

/-- A server on which no key is long enough to be hashed and nothing is scanned. -/
def plainServer : RedisServer := ⟨id, fun _ _ => false⟩

def lockedLoad : List (Act ℕ) :=
  [.call 0 "inventory" false, .move 0 (.read true), .move 0 .enter, .move 0 .lock,
    .move 0 (.recheck true), .move 0 .begin, .move 0 (.loaded 7 true), .move 0 .writeL1,
    .move 0 .writeRedis, .move 0 .release, .move 0 .publish, .move 0 .unregister,
    .expireRedis "mh:sc:v1:inventory", .call 0 "inventory" false, .move 1 (.read true),
    .move 1 .enter, .move 1 .lock, .move 1 (.recheck true)]

theorem single_flight_reload : ∃ (s : SharedCache ℕ) (c : Call ℕ), s.calls[1]? = some c ∧
    c.pc = .load true ∧ StoredBy (.redis plainServer) lockedLoad.reverse 0 ⟨7, some 5⟩ 8 ∧
      s.read (.redis plainServer) c.process c.key ≠ some ⟨7, some 5⟩ := by
  obtain ⟨s, run, -, hp⟩ := exists_play (SharedCache.step (.redis plainServer)) (.start [])
    lockedLoad (fun s => s.calls[1]? = some ⟨0, "inventory", false, 13, .load true, true, none⟩ &&
      s.calls[0]? = some ⟨0, "inventory", false, 0, .returned (.value ⟨7, some 5⟩), true,
        some (.value ⟨7, some 5⟩)⟩) (by decide +kernel)
  rw [Bool.and_eq_true, decide_eq_true_eq, decide_eq_true_eq] at hp
  obtain ⟨hc, hd⟩ := hp
  have hx : StoredBy (.redis plainServer) lockedLoad.reverse 0 ⟨7, some 5⟩ 8 :=
    ⟨⟨5, rfl, rfl⟩, rfl⟩
  exact ⟨s, _, hc, rfl, hx, (single_flight (.redis plainServer) [] _ s run 1 _ true hc rfl).2.2 rfl
    rfl (by decide +kernel) 0 _ hd (by decide) rfl rfl _ 8 hx⟩

/-- A follower that gives up loads beside its leader. In memory, a call that missed before
another one loaded and stored leads the next flight, and loads again. -/
theorem second_load : (∃ (s : SharedCache ℕ) (tr : List (Act ℕ)) (c d : Call ℕ),
      Steps (Takes (SharedCache.step .memory)) (.start []) tr s ∧ s.calls[0]? = some c ∧
      s.calls[1]? = some d ∧ c.slot = d.slot ∧ c.bypass = false ∧ d.bypass = false ∧
      c.pc = .loading false 3 ∧ d.pc = .loading false 8) ∧
    ∃ (s : SharedCache ℕ) (tr : List (Act ℕ)) (c : Call ℕ) (x : Stored ℕ),
      Steps (Takes (SharedCache.step .memory)) (.start []) tr s ∧ s.calls[0]? = some c ∧
      c.bypass = false ∧ c.began = 0 ∧ c.pc = .loading false 11 ∧ StoredBy .memory tr 1 x 7 ∧
      x.loaderBegan = some 5 ∧ s.read .memory c.process c.key = some x := by
  constructor
  · obtain ⟨s, run, -, hp⟩ := exists_play (SharedCache.step .memory) (.start [])
      [.call 0 "inventory" false, .move 0 (.read true), .move 0 .enter, .move 0 .begin,
        .call 0 "inventory" false, .move 1 (.read true), .move 1 .enter, .move 1 .gaveUp,
        .move 1 .begin]
      (fun (s : SharedCache ℕ) =>
        s.calls[0]? = some ⟨0, "inventory", false, 0, .loading false 3, true, none⟩ &&
        s.calls[1]? = some ⟨0, "inventory", false, 4, .loading false 8, false, none⟩)
      (by decide +kernel)
    rw [Bool.and_eq_true, decide_eq_true_eq, decide_eq_true_eq] at hp
    exact ⟨s, _, _, _, run, hp.1, hp.2, rfl, rfl, rfl, rfl, rfl⟩
  · obtain ⟨s, run, -, hp⟩ := exists_play (SharedCache.step .memory) (.start [])
      [.call 0 "inventory" false, .move 0 (.read true), .call 0 "inventory" false,
        .move 1 (.read true), .move 1 .enter, .move 1 .begin, .move 1 (.loaded 7 true),
        .move 1 .writeL1, .move 1 .publish, .move 1 .unregister, .move 0 .enter, .move 0 .begin]
      (fun s => s.calls[0]? = some ⟨0, "inventory", false, 0, .loading false 11, true, none⟩ &&
        s.read .memory 0 "inventory" = some ⟨7, some 5⟩) (by decide +kernel)
    rw [Bool.and_eq_true, decide_eq_true_eq, decide_eq_true_eq] at hp
    exact ⟨s, _, _, ⟨7, some 5⟩, run, hp.1, rfl, rfl, rfl, ⟨⟨5, rfl, rfl⟩, rfl⟩, rfl, hp.2⟩

end Example

end MonitoringHub.Cache
