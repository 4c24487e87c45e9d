import MonitoringHub.Collector.EnvSelection
import MonitoringHub.Lib.StepRun
import MonitoringHub.Lib.Windows

/-! The runs of the two collectors through the one gate. The core collector asks for every
resource type it lists and collects five of them; the extended collector asks for its own
types, on two tiers under the same key. A run is one life of the process, which keeps the
times of the last collections in memory. -/

namespace MonitoringHub.Collector
open Lib Alerts Environments

inductive Poller
  | core | extended
  deriving DecidableEq, Repr

def coreTypes : List String := ["ec2", "ebs", "rds", "elb", "lambda"]
def ungroupedTypes : List String := ["ecs", "ecs_service", "eni"]
def extendedTypes : List String := awsExtendedCatalog.map Prod.fst

def Poller.tiers : Poller → List PollTier
  | .core => [.critical, .standard, .low]
  | .extended => [.standard, .low, .extended, .slowExtended]

/-- The resource types a collector hands to the gate. -/
def Poller.lists : Poller → String → Bool
  | .core, resourceType => !ungroupedTypes.contains resourceType
  | .extended, resourceType => extendedTypes.contains resourceType

/-- The resource types it then collects. -/
def Poller.collects : Poller → String → Bool
  | .core, resourceType => coreTypes.contains resourceType
  | .extended, resourceType => extendedTypes.contains resourceType

/-- `_tier_is_critical`; the extended collector has no critical metric. -/
def Poller.critical : Poller → PollTier → Bool
  | .core, tier => tier = .critical
  | .extended, _ => false

def cwagentMemLookback : ℕ := 10
def cwagentDiskLookback : ℕ := 20

/-- `AWS_EXTENDED_LOOKBACK_MIN`, else the default of the lookup. -/
def awsExtendedLookbackMin : PollTier → ℕ
  | .critical => 16
  | .standard => 15
  | .low => 25
  | .extended => 70
  | .slowExtended => 2900

/-- The look-back minutes of what one collection of a resource asks for. -/
def lookbacks : Poller → String → PollTier → List ℕ
  | .core, resourceType, tier =>
    ((awsCoreMetrics.filter fun m => m.resourceType = resourceType && m.tier = tier).map
        CoreMetric.lookbackMin) ++
      (if resourceType = "ec2" && cwagentMemTier = tier then [cwagentMemLookback] else []) ++
      (if resourceType = "ec2" && cwagentDiskTier = tier then [cwagentDiskLookback] else [])
  | .extended, _, tier => [awsExtendedLookbackMin tier]

theorem lookbacks_cover {poller : Poller} {resourceType : String} {tier : PollTier} {L : ℕ}
    (h : L ∈ lookbacks poller resourceType tier) : tier.seconds ≤ 60 * L := by
  cases poller with
  | core =>
    simp only [lookbacks, List.mem_append, List.mem_map, List.mem_filter] at h
    rcases h with (⟨m, ⟨-, hm⟩, rfl⟩ | h) | h
    · obtain ⟨-, rfl⟩ := Bool.and_eq_true_iff.mp hm |>.imp_right of_decide_eq_true
      exact m.covers
    · split at h
      · rename_i htier
        obtain ⟨-, rfl⟩ := Bool.and_eq_true_iff.mp htier |>.imp_right of_decide_eq_true
        obtain rfl := List.mem_singleton.mp h
        decide
      · cases h
    · split at h
      · rename_i htier
        obtain ⟨-, rfl⟩ := Bool.and_eq_true_iff.mp htier |>.imp_right of_decide_eq_true
        obtain rfl := List.mem_singleton.mp h
        decide
      · cases h
  | extended =>
    obtain rfl := List.mem_singleton.mp h
    cases tier <;> decide

/-- One collector's turn at one tier: the gate's answer, then the collection of what was due.
`failed` are the resources whose collection raised. -/
structure PollCall where
  poller : Poller
  settings : PollSettings
  tier : PollTier
  now : ℚ
  resources : List PolledResource
  failed : List ℕ
  tier_ok : tier ∈ poller.tiers
  types_ok : ∀ r ∈ resources, poller.lists r.resourceType = true
  nodup : (resources.map PolledResource.id).Nodup

def PollCall.tick (call : PollCall) : Tick :=
  ⟨call.settings, call.tier, call.poller.critical call.tier, call.now⟩

def PollCall.collects (call : PollCall) (r : PolledResource) : Bool :=
  call.poller.collects r.resourceType && !call.failed.contains r.id

/-- A collection that took place; `effective` is the interval in force at it. -/
structure Collection where
  key : PollKey
  poller : Poller
  resourceType : String
  time : ℚ
  effective : ℕ
  extra : Option ℕ

def Collection.lookbacks (c : Collection) : List ℕ :=
  Collector.lookbacks c.poller c.resourceType c.key.2.1

def PollCall.collection (call : PollCall) (d : DueResource) : Collection where
  key := call.tick.key d.resource
  poller := call.poller
  resourceType := d.resource.resourceType
  time := call.now
  effective := (call.tick.effective d.resource).getD call.tick.base
  extra := d.extra

def PollCall.collected (call : PollCall) (due : List DueResource) : List Collection :=
  (due.filter fun d => call.collects d.resource).map call.collection

/-- The kept times and, newest first, the collections so far. -/
structure CollectorState where
  polls : PollState
  collections : List Collection

def CollectorState.start : CollectorState := ⟨[], []⟩

def collectorStep (s : CollectorState) (call : PollCall) : Option CollectorState :=
  let selection := selectDue call.tick true call.resources s.polls
  some ⟨selection.polls, (call.collected selection.due).reverse ++ s.collections⟩

/-- The collections of one resource at one tier while it was slowed, newest first. -/
def slowCollections (k : PollKey) (collections : List Collection) : List Collection :=
  collections.filter fun c => c.key = k && c.extra.isSome

def Collection.start (c : Collection) (L : ℕ) : ℚ := c.time - (60 * (L + c.extra.getD 0) : ℕ)

/-- What the query asks for, the extra minutes rounded up. -/
def Collection.queryStart (c : Collection) (L : ℕ) : ℚ :=
  c.time - (60 * (L + roundExtra (c.extra.getD 0)) : ℕ)

/-- Every metric of the collection has its window over `t`. -/
def Collection.Covers (c : Collection) (t : ℚ) : Prop :=
  ∀ L ∈ c.lookbacks, c.start L ≤ t ∧ t ≤ c.time

/-- At most twice the interval in force apart. -/
def Near (newer older : Collection) : Prop := newer.time - older.time ≤ (2 * newer.effective : ℕ)

instance : DecidableRel Near := fun newer older =>
  inferInstanceAs (Decidable (newer.time - older.time ≤ (2 * newer.effective : ℕ)))

/-- The union of the windows has no hole since the first collection. -/
def CoversAll (collections : List Collection) : Prop :=
  ∀ first ∈ collections, ∀ newest, collections.head? = some newest →
    ∀ t, first.time ≤ t → t ≤ newest.time → ∃ c ∈ collections, c.Covers t

/-- The gate is handed a slowed resource that is due. -/
def FallsDue (call : PollCall) (polls : PollState) (r : PolledResource) : Prop :=
  ∃ eff, call.tick.effective r = some eff ∧ call.tick.base < eff ∧
    isDue (some eff) call.tick.base (KeyedStore.find (call.tick.key r) polls) call.now = true

/-- Whoever finds the resource due collects it. -/
def Kept (k : PollKey) (s : CollectorState) (call : PollCall) : Prop :=
  ∀ r ∈ call.resources, call.tick.key r = k → FallsDue call s.polls r → call.collects r = true

instance (call : PollCall) (polls : PollState) (r : PolledResource) :
    Decidable (FallsDue call polls r) :=
  match h : call.tick.effective r with
  | none => isFalse fun hfalls => by
      obtain ⟨eff, heff, -⟩ := hfalls
      cases h.symm.trans heff
  | some eff => decidable_of_iff (call.tick.base < eff ∧ isDue (some eff) call.tick.base
      (KeyedStore.find (call.tick.key r) polls) call.now = true)
      ⟨fun hfalls => ⟨eff, h, hfalls⟩, fun hfalls => by
        obtain ⟨eff', heff, hrest⟩ := hfalls
        obtain rfl := Option.some.inj (h.symm.trans heff)
        exact hrest⟩

/-- A window that reaches the collection before it, unless that is over two intervals ago. -/
def Linked (newer older : Collection) : Prop :=
  Near newer older → newer.time - (newer.key.2.1.seconds + 60 * newer.extra.getD 0 : ℕ) ≤ older.time

/-- What is kept for a key is no later than the newest collection under it. -/
structure Tracks (k : PollKey) (polls : PollState) (log : List Collection) : Prop where
  kept : ∀ last, KeyedStore.find k polls = some last → ∃ newest older,
    slowCollections k log = newest :: older ∧ last ≤ newest.time
  fresh : KeyedStore.find k polls = none → slowCollections k log = []
  linked : (slowCollections k log).IsChain Linked

theorem Tracks.frame {k : PollKey} {polls polls' : PollState} {log log' : List Collection}
    (h : Tracks k polls log) (hpolls : KeyedStore.find k polls' = KeyedStore.find k polls)
    (hlog : slowCollections k log' = slowCollections k log) : Tracks k polls' log' := by
  refine ⟨?_, ?_, ?_⟩
  · rw [hpolls, hlog]
    exact h.kept
  · rw [hpolls, hlog]
    exact h.fresh
  · rw [hlog]
    exact h.linked

theorem le_extraMinutes (effective base : ℕ) (last now : ℚ) :
    min (now - last) (effective * 2) ≤
      (base + 60 * extraMinutes effective base (some last) now : ℕ) := by
  have hceil := Int.le_ceil ((min (now - last) (effective * 2) - base) / 60)
  have htoNat : (⌈(min (now - last) (effective * 2) - base) / 60⌉ : ℚ) ≤
      ((extraMinutes effective base (some last) now : ℕ) : ℤ) :=
    Int.cast_le.mpr (Int.self_le_toNat _)
  rw [Int.cast_natCast] at htoNat
  push_cast
  linarith

theorem newLast_le (keyNumber effective base : ℕ) (last : Option ℚ) (now : ℚ) :
    newLast keyNumber effective base last now ≤ now := by
  cases last with
  | none => exact sub_le_self _ (Nat.cast_nonneg _)
  | some last => exact le_refl now

theorem slowCollections_cons_slow {k : PollKey} {c : Collection} (log : List Collection)
    (hk : c.key = k) (hextra : c.extra.isSome = true) :
    slowCollections k (c :: log) = c :: slowCollections k log :=
  List.filter_cons_of_pos (by simp [hk, hextra])

theorem slowCollections_cons_other {k : PollKey} {c : Collection} {log : List Collection}
    (h : c.key = k → c.extra = none) :
    slowCollections k (c :: log) = slowCollections k log := by
  refine List.filter_cons_of_neg ?_
  rw [Bool.and_eq_true, not_and]
  intro hk
  rw [h (of_decide_eq_true hk)]
  exact Bool.false_ne_true

/-- A due resource that is collected widens its window to the collection before. -/
theorem Tracks.collect {k : PollKey} {polls : PollState} {log : List Collection} {c : Collection}
    {eff : ℕ} (h : Tracks k polls log) (keyNumber : ℕ) (hk : c.key = k) (heff : c.effective = eff)
    (hextra : c.extra =
      some (extraMinutes eff k.2.1.seconds (KeyedStore.find k polls) c.time)) :
    Tracks k (KeyedStore.write k
      (newLast keyNumber eff k.2.1.seconds (KeyedStore.find k polls) c.time) polls)
      (c :: log) := by
  have hslow := slowCollections_cons_slow log hk (by rw [hextra]; rfl)
  have hfind : ∀ v : ℚ, KeyedStore.find k (KeyedStore.write k v polls) = some v := fun v => by
    rw [KeyedStore.find_write, if_pos rfl]
  refine ⟨fun last hlast => ?_, fun hnone => ?_, ?_⟩
  · rw [hfind] at hlast
    obtain rfl := Option.some.inj hlast
    exact ⟨c, _, hslow, newLast_le _ _ _ _ _⟩
  · rw [hfind] at hnone
    cases hnone
  · rw [hslow]
    cases hlast : KeyedStore.find k polls with
    | none =>
      rw [h.fresh hlast]
      exact List.isChain_singleton c
    | some last =>
      obtain ⟨newest, older, hlog, hle⟩ := h.kept last hlast
      have hchain := h.linked
      rw [hlog] at hchain ⊢
      refine List.isChain_cons_cons.mpr ⟨fun hspaced => ?_, hchain⟩
      rw [hlast] at hextra
      rw [hextra, hk, Option.getD_some]
      unfold Near at hspaced
      rw [heff] at hspaced
      push_cast at hspaced
      have hreach := le_extraMinutes eff k.2.1.seconds last c.time
      have hmin : c.time - newest.time ≤ min (c.time - last) (eff * 2) :=
        le_min (by linarith) (by linarith)
      linarith

theorem collected_cons (call : PollCall) (d : DueResource) (due : List DueResource) :
    call.collected (d :: due) = if call.collects d.resource then
      call.collection d :: call.collected due else call.collected due := by
  unfold PollCall.collected
  rw [List.filter_cons]
  split <;> rfl

/-- A resource on its normal cadence, or under another key, leaves what is kept for `k`. -/
theorem collected_cons_other {k : PollKey} (call : PollCall) {d : DueResource}
    (hd : call.tick.key d.resource = k → d.extra = none) (due : List DueResource)
    (log : List Collection) : ∃ log', slowCollections k log' = slowCollections k log ∧
      (call.collected (d :: due)).reverse ++ log = (call.collected due).reverse ++ log' := by
  rw [collected_cons]
  split
  · refine ⟨call.collection d :: log, slowCollections_cons_other hd, ?_⟩
    rw [List.reverse_cons, List.append_assoc]
    rfl
  · exact ⟨log, rfl, rfl⟩

theorem FallsDue.of_find {call : PollCall} {polls polls' : PollState} {r : PolledResource}
    (h : FallsDue call polls' r) (hfind : KeyedStore.find (call.tick.key r) polls' =
      KeyedStore.find (call.tick.key r) polls) : FallsDue call polls r := by
  obtain ⟨eff, heff, hslow, hdue⟩ := h
  exact ⟨eff, heff, hslow, hfind ▸ hdue⟩

theorem selectFrom_tracks {k : PollKey} {call : PollCall} {resources : List PolledResource}
    {polls : PollState} {log : List Collection} (h : Tracks k polls log)
    (hnodup : (resources.map PolledResource.id).Nodup)
    (hkept : ∀ r ∈ resources, call.tick.key r = k → FallsDue call polls r →
      call.collects r = true) :
    Tracks k (selectFrom call.tick true resources polls).polls
      ((call.collected (selectFrom call.tick true resources polls).due).reverse ++ log) := by
  induction resources generalizing polls log with
  | nil => exact h
  | cons r rest ih =>
    obtain ⟨hr, hrest⟩ := List.nodup_cons.mp hnodup
    have hlater := fun r' hr' => hkept r' (List.mem_cons_of_mem _ hr')
    unfold selectFrom
    split
    · exact ih h hrest hlater
    · rename_i eff heff
      split
      · simp only
        obtain ⟨log', hlog', heq⟩ := collected_cons_other (k := k) call (d := ⟨r, none⟩)
          (fun _ => rfl) (selectFrom call.tick true rest polls).due log
        rw [heq]
        exact ih (h.frame rfl hlog') hrest hlater
      · rename_i hslow
        simp only
        split
        · rename_i hdue
          simp only [if_true]
          by_cases hk : call.tick.key r = k
          · subst hk
            -- no other resource of the list has this id, so the rest asks nothing of the key
            have hother : ∀ r' ∈ rest, call.tick.key r' ≠ call.tick.key r := fun r' hr' heq =>
              hr (List.mem_map.mpr ⟨r', hr', congrArg Prod.fst heq⟩)
            have hcollects := hkept r List.mem_cons_self rfl
              ⟨eff, heff, Nat.lt_of_not_le hslow, hdue⟩
            rw [collected_cons, if_pos hcollects, List.reverse_cons, List.append_assoc]
            have heffective : (call.tick.effective r).getD call.tick.base = eff := by
              rw [heff, Option.getD_some]
            exact ih (h.collect (c := call.collection ⟨r, some (extraMinutes eff call.tick.base
              (KeyedStore.find (call.tick.key r) polls) call.tick.now)⟩) r.id rfl heffective rfl)
              hrest fun r' hr' heq => absurd heq (hother r' hr')
          · have hfind : ∀ v : ℚ, KeyedStore.find k (KeyedStore.write (call.tick.key r) v polls) =
                KeyedStore.find k polls := fun v => by
              rw [KeyedStore.find_write, if_neg fun heq => hk heq.symm]
            obtain ⟨log', hlog', heq⟩ := collected_cons_other (k := k) call (d := ⟨r, some (extraMinutes eff
              call.tick.base (KeyedStore.find (call.tick.key r) polls) call.tick.now)⟩)
              (fun h => absurd h hk) _ log
            rw [heq]
            refine ih (h.frame (hfind _) hlog') hrest fun r' hr' hk' hfalls => ?_
            refine hlater r' hr' hk' (hfalls.of_find ?_)
            rw [hk', hfind]
        · exact ih h hrest hlater

theorem collected_unslowed (k : PollKey) (call : PollCall) (resources : List PolledResource)
    (log : List Collection) : slowCollections k
      ((call.collected (resources.map fun r => ⟨r, none⟩)).reverse ++ log) =
        slowCollections k log := by
  induction resources generalizing log with
  | nil => rfl
  | cons r rest ih =>
    obtain ⟨log', hlog', heq⟩ := collected_cons_other (k := k) call (d := ⟨r, none⟩)
      (fun _ => rfl) (rest.map fun r => ⟨r, none⟩) log
    rw [List.map_cons, heq, ih, hlog']

theorem collectorStep_tracks {k : PollKey} {s s' : CollectorState} {call : PollCall}
    (h : Tracks k s.polls s.collections) (hstep : Guarded (Takes collectorStep) (Kept k) s call s') :
    Tracks k s'.polls s'.collections := by
  obtain ⟨hkept, hstep⟩ := hstep
  obtain rfl := Option.some.inj hstep
  unfold selectDue
  split
  · exact selectFrom_tracks h call.nodup hkept
  · exact h.frame rfl (collected_unslowed k call call.resources s.collections)

theorem run_tracks {k : PollKey} {tr : List PollCall} {s : CollectorState}
    (run : Steps (Guarded (Takes collectorStep) (Kept k)) .start tr s) :
    Tracks k s.polls s.collections :=
  run.stable (P := fun s => Tracks k s.polls s.collections)
    ⟨fun _ h => (Option.some_ne_none _ h.symm).elim, fun _ => rfl, List.isChain_nil⟩
    fun _ _ _ h hstep => collectorStep_tracks h hstep

/-- The window every metric of a collection has at least. -/
def Collection.window (c : Collection) : Window ℚ where
  opens := c.time - (c.key.2.1.seconds + 60 * c.extra.getD 0 : ℕ)
  closes := c.time
  opens_le_closes := sub_le_self _ (Nat.cast_nonneg _)

theorem Collection.covers_of_window {c : Collection} {t : ℚ} (h : c.window.Holds t) :
    c.Covers t := by
  intro L hL
  have hbase : (c.key.2.1.seconds + 60 * c.extra.getD 0 : ℕ) ≤ 60 * (L + c.extra.getD 0) := by
    have := lookbacks_cover hL
    omega
  exact ⟨(sub_le_sub_left (Nat.cast_le.mpr hbase) c.time).trans h.1, h.2⟩

/-- Production passes every tick unchanged and in order. Where whoever finds a slowed resource
due collects it, the windows of its collections leave no hole. -/
theorem slowPolling_covers (k : PollKey) :
    (∀ (call : PollCall) (polls : PollState),
      (selectDue call.tick true call.resources polls).due.filter DueResource.production =
          ((call.resources.filter fun r => r.env = .prod).map fun r => ⟨r, none⟩) ∧
        List.Sublist ((selectDue call.tick true call.resources polls).due.map
          DueResource.resource) call.resources) ∧
    ∀ (tr : List PollCall) (s : CollectorState),
      Steps (Guarded (Takes collectorStep) (Kept k)) .start tr s →
      (slowCollections k s.collections).IsChain Near →
        CoversAll (slowCollections k s.collections) := by
  refine ⟨fun call polls => selectDue_production call.tick true call.resources polls,
    fun tr s run hnear => ?_⟩
  have hlinked := (run_tracks run).linked
  generalize slowCollections k s.collections = collections at hnear hlinked ⊢
  intro first hfirst newest hhead t hlo hhi
  obtain ⟨older, rfl⟩ : ∃ older, collections = newest :: older := by
    cases collections with
    | nil => cases hhead
    | cons c older => exact ⟨older, by rw [Option.some.inj hhead]⟩
  have hreach : ((newest :: older).map Collection.window).IsChain Window.Reaches := by
    rw [List.isChain_map]
    exact List.isChain_iff_getElem.mpr fun i hi => hlinked.getElem i hi (hnear.getElem i hi)
  rw [List.map_cons] at hreach
  obtain ⟨w, hw, hold⟩ := Window.exists_holds hreach
    (List.map_cons ▸ List.mem_map_of_mem hfirst) hlo hhi
  obtain ⟨c, hc, rfl⟩ := List.mem_map.mp (List.map_cons ▸ hw)
  exact ⟨c, hc, Collection.covers_of_window hold⟩

instance (k : PollKey) (s : CollectorState) (call : PollCall) : Decidable (Kept k s call) :=
  inferInstanceAs (Decidable (∀ r ∈ call.resources, call.tick.key r = k →
    FallsDue call s.polls r → call.collects r = true))

def defaultSettings : PollSettings := .read true true none none .slow true

def ordersQueue : PolledResource := ⟨12, "sqs", some "nonprod"⟩

/-- One turn for the queue, at the five minute tier. -/
def queueCall (poller : Poller) (now : ℚ) : PollCall where
  poller := poller
  settings := defaultSettings
  tier := .standard
  now := now
  resources := [ordersQueue]
  failed := []
  tier_ok := by cases poller <;> decide
  types_ok := fun r hr => by
    obtain rfl := List.mem_singleton.mp hr
    cases poller <;> decide
  nodup := List.nodup_singleton _

def queueKey : PollKey := (12, .standard, false)

theorem slowPolling_covers_queue : ∃ tr s, Steps (Takes collectorStep) .start tr s ∧
    (slowCollections queueKey s.collections).length = 2 ∧
      CoversAll (slowCollections queueKey s.collections) := by
  obtain ⟨s, run, -, hs⟩ := exists_play (gated collectorStep (Kept queueKey)) .start
    [queueCall .extended 10, queueCall .extended 300, queueCall .extended 3700]
    (fun s => decide ((slowCollections queueKey s.collections).length = 2 ∧
      (slowCollections queueKey s.collections).IsChain Near)) (by decide +kernel)
  have hs := of_decide_eq_true hs
  have hguarded := run.mono fun _ _ _ h => gated_guarded h
  exact ⟨_, s, Guarded.run hguarded, hs.1, (slowPolling_covers queueKey).2 _ s hguarded hs.2⟩

theorem Collection.queryStart_le (c : Collection) (L : ℕ) : c.queryStart L ≤ c.start L := by
  refine sub_le_sub_left (Nat.cast_le.mpr ?_) c.time
  have := le_roundExtra (c.extra.getD 0)
  omega

/-- The core collector's gate answers the queue as due and nothing collects it; the window of
the next collection starts from there. Not even the rounded query reaches back. -/
theorem takenTurn_leaves_hole : ∃ tr s, Steps (Takes collectorStep) .start tr s ∧
    (slowCollections queueKey s.collections).IsChain Near ∧
    (∀ c ∈ slowCollections queueKey s.collections, ∃ L ∈ c.lookbacks,
      ¬ (c.queryStart L ≤ 5000 ∧ 5000 ≤ c.time)) ∧
    ¬ CoversAll (slowCollections queueKey s.collections) := by
  obtain ⟨s, run, -, hs⟩ := exists_play collectorStep .start
    [queueCall .core 0, queueCall .extended 10, queueCall .core 3445, queueCall .extended 3455,
      queueCall .core 6910, queueCall .extended 6920, queueCall .core 10350,
      queueCall .extended 10360]
    (fun s => decide ((slowCollections queueKey s.collections).IsChain Near ∧
      (slowCollections queueKey s.collections).map Collection.time = [10360, 3455] ∧
      ∀ c ∈ slowCollections queueKey s.collections, ∃ L ∈ c.lookbacks,
        ¬ (c.queryStart L ≤ 5000 ∧ 5000 ≤ c.time))) (by decide +kernel)
  obtain ⟨hnear, htimes, hquery⟩ := of_decide_eq_true hs
  refine ⟨_, s, run, hnear, hquery, fun hcovers => ?_⟩
  obtain ⟨newest, first, hlog, hnewest, hfirst⟩ : ∃ newest first,
      slowCollections queueKey s.collections = [newest, first] ∧ newest.time = 10360 ∧
        first.time = 3455 := by
    obtain ⟨newest, rest, hlog, hnewest, hrest⟩ := List.map_eq_cons_iff.mp htimes
    obtain ⟨first, hrest, hfirst⟩ := List.map_eq_singleton_iff.mp hrest
    exact ⟨newest, first, by rw [hlog, hrest], hnewest, hfirst⟩
  obtain ⟨c, hc, hold⟩ := hcovers first (by simp [hlog]) newest (by simp [hlog]) 5000
    (by rw [hfirst]; norm_num) (by rw [hnewest]; norm_num)
  obtain ⟨L, hL, hout⟩ := hquery c hc
  exact hout ⟨(c.queryStart_le L).trans (hold L hL).1, (hold L hL).2⟩

end MonitoringHub.Collector
