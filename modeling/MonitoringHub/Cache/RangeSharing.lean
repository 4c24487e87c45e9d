import Mathlib.Data.List.Sort
import MonitoringHub.Access.StoredScope
import MonitoringHub.Cache.BackendAgreement

/-! One entry for the ranges of one period. A page asks for its last hours; what is stored is the
longest range of the ladder that has the same period, and its series are cut to the request on
their way out. -/

namespace MonitoringHub.Cache
open Lib Lib.KeyedStore
open Access (Json)

/-- `canonical_hours` -/
def canonicalHours {P : Type} [DecidableEq P] (periodFn : ℤ → P) (ladder : List ℤ) (hours : ℤ) :
    ℤ :=
  if hours ≤ 0 then hours
  else (ladder.insertionSort (· ≤ ·)).foldl
    (fun best step => if hours ≤ step ∧ periodFn step = periodFn hours then step else best) hours

/-- A dict with the keys of a point. -/
def isPoint : Json → Bool
  | .obj fields => (find "t" fields).isSome && (find "v" fields).isSome
  | _ => false

/-- `_is_points` looks at the first one. -/
def isPoints : Json → Bool
  | .arr (p :: _) => isPoint p
  | _ => false

def isEmptyList : Json → Bool
  | .arr [] => true
  | _ => false

section Trim
variable (epoch : Json → Option ℚ) (hours : ℤ) (anchor : ℚ)

/-- `_epoch` of the point's time, where that can be read. -/
def pointTime : Json → Option ℚ
  | .obj fields => (find "t" fields).bind epoch
  | _ => none

def inWindow (p : Json) : Bool :=
  match pointTime epoch p with
  | some e => anchor - hours * 3600 ≤ e && e ≤ anchor + 1
  | none => true

/-- `trim_points` -/
def trimPoints (points : List Json) : List Json := points.filter (inWindow epoch hours anchor)

def trimList : Json → Json
  | .arr points => .arr (trimPoints epoch hours anchor points)
  | j => j

/-- A dict of series, some of them empty. -/
def isGroup (members : List (String × Json)) : Bool :=
  !members.isEmpty && members.all fun m => isPoints m.2 || isEmptyList m.2

/-- One round of the loop of `trim_series`. -/
def trimValue (v : Json) : Json :=
  if isPoints v then trimList epoch hours anchor v
  else
    match v with
    | .obj members =>
      if isGroup members then .obj (members.map fun m => (m.1, trimList epoch hours anchor m.2))
      else v
    | _ => v

/-- The key is one of those to be trimmed. -/
def trims (keys : Option (List String)) (key : String) : Bool :=
  keys.all fun keys => keys.contains key

def resetPeriod (fields : List (String × Json)) : List (String × Json) :=
  fields.map fun field => (field.1, if field.1 = "period_hours" then .num hours else field.2)

/-- `trim_series` -/
def trimSeries (keys : Option (List String)) : Json → Json
  | .obj fields => .obj (resetPeriod hours (fields.map fun field =>
      (field.1, if trims keys field.1 then trimValue epoch hours anchor field.2 else field.2)))
  | j => j

end Trim

/-- What a page calls `get_or_load_range` with, besides the hours and the loader. -/
structure RangeView (P : Type) where
  stem : String
  periodFn : ℤ → P
  ladder : List ℤ
  trimKeys : Option (List String)

namespace RangeView
variable {P : Type} [DecidableEq P] (view : RangeView P)

def canonical (hours : ℤ) : ℤ := canonicalHours view.periodFn view.ladder hours

def key (hours : ℤ) : String := view.stem ++ ":h" ++ toString (view.canonical hours)

/-- `get_or_load_range`, and the payload that it returns. -/
def getOrLoadRange (epoch : Json → Option ℚ) (B : Backend) (s : OneProcess Json) (hours : ℤ)
    (bypass : Bool) (seconds : {d : ℚ // 0 ≤ d}) (loader : ℤ → Loaded Json) :
    OneProcess Json × Option Json :=
  let canon := view.canonical hours
  let t := s.getOrLoad B (view.key hours) bypass (fun _ => true) seconds (loader canon)
  (t, match t.returned with
    | .result value _ _ ts :: _ =>
      some (if canon = hours then value else trimSeries epoch hours ts view.trimKeys value)
    | _ => none)

end RangeView

/-- Where a payload has a series: under a key, or in the dict under a key. -/
inductive SeriesPath
  | top (key : String)
  | nested (key member : String)

def field (key : String) : Json → Option Json
  | .obj fields => find key fields
  | _ => none

namespace SeriesPath

def key : SeriesPath → String
  | top key => key
  | nested key _ => key

def get (j : Json) : SeriesPath → Option Json
  | top key => field key j
  | nested key member => (field key j).bind (field member)

end SeriesPath

/-- A list of points. -/
def IsSeries (v : Json) : Prop := ∃ points, v = .arr points ∧ ∀ p ∈ points, isPoint p = true

/-- A list that begins with a point has nothing else. -/
def Tidy (v : Json) : Prop := isPoints v = true → IsSeries v

/-- The lists of the payload are tidy, and those of the dicts that are cut as well. -/
def OfSeries (payload : Json) : Prop :=
  ∀ fields, payload = .obj fields → ∀ field ∈ fields, Tidy field.2 ∧
    ∀ members, field.2 = .obj members → isGroup members = true → ∀ m ∈ members, Tidy m.2

/-- The payload has this series there. -/
structure SeriesAt (payload : Json) (path : SeriesPath) (points : List Json) : Prop where
  found : path.get payload = some (.arr points)
  series : ∀ p ∈ points, isPoint p = true
  group : ∀ key member, path = .nested key member →
    ∃ members, field key payload = some (.obj members) ∧ isGroup members = true
  data : path.key ≠ "period_hours"

section Canonical
variable {P : Type} [DecidableEq P] {periodFn : ℤ → P} {ladder : List ℤ} {hours : ℤ}

/-- The canonical range is not shorter than the request, and of its period. -/
theorem canonicalHours_spec :
    hours ≤ canonicalHours periodFn ladder hours ∧
      periodFn (canonicalHours periodFn ladder hours) = periodFn hours := by
  unfold canonicalHours
  split
  · exact ⟨le_rfl, rfl⟩
  · generalize ladder.insertionSort (· ≤ ·) = steps
    have hrun (best : ℤ) (hbest : hours ≤ best ∧ periodFn best = periodFn hours) :
        ∀ last, steps.foldl (fun best step =>
            if hours ≤ step ∧ periodFn step = periodFn hours then step else best) best = last →
          hours ≤ last ∧ periodFn last = periodFn hours := by
      induction steps generalizing best with
      | nil =>
        rintro _ rfl
        exact hbest
      | cons step steps ih =>
        rw [List.foldl_cons]
        split
        · rename_i hstep
          exact ih step hstep
        · exact ih best hbest
    exact hrun hours ⟨le_rfl, rfl⟩ _ rfl

end Canonical

section Trim
variable {epoch : Json → Option ℚ} {hours hours' : ℤ} {anchor : ℚ} {v : Json}
  {points : List Json}

theorem isSeries_shape (h : IsSeries v) : (isPoints v || isEmptyList v) = true := by
  obtain ⟨points, rfl, hpoints⟩ := h
  cases points with
  | nil => rfl
  | cons p points =>
    rw [isPoints, hpoints p List.mem_cons_self]
    rfl

theorem Tidy.isSeries (h : Tidy v) (hshape : (isPoints v || isEmptyList v) = true) :
    IsSeries v := by
  cases hpoints : isPoints v with
  | true => exact h hpoints
  | false =>
    rw [hpoints, Bool.false_or] at hshape
    unfold isEmptyList at hshape
    split at hshape
    · exact ⟨[], rfl, nofun⟩
    · cases hshape

theorem IsSeries.trimList (h : IsSeries v) : IsSeries (trimList epoch hours anchor v) := by
  obtain ⟨points, rfl, hpoints⟩ := h
  exact ⟨_, rfl, fun p hp => hpoints p (List.mem_of_mem_filter hp)⟩

theorem IsSeries.trimValue (h : IsSeries v) :
    trimValue epoch hours anchor v = Cache.trimList epoch hours anchor v := by
  obtain ⟨points, rfl, hpoints⟩ := h
  cases points with
  | nil => rfl
  | cons p points => exact if_pos (hpoints p List.mem_cons_self)

/-- A point within the shorter range is within the longer one. -/
theorem inWindow_mono {p : Json} (hle : hours ≤ hours') (h : inWindow epoch hours anchor p = true) :
    inWindow epoch hours' anchor p = true := by
  unfold inWindow at *
  split at h
  · rename_i e he
    rw [Bool.and_eq_true, decide_eq_true_eq, decide_eq_true_eq] at h ⊢
    refine ⟨(sub_le_sub_left ?_ anchor).trans h.1, h.2⟩
    exact mul_le_mul_of_nonneg_right (Int.cast_le.mpr hle) (by norm_num)
  · rename_i he
    rfl

theorem trimPoints_trimPoints (hle : hours ≤ hours') :
    trimPoints epoch hours anchor (trimPoints epoch hours' anchor points) =
      trimPoints epoch hours anchor points := by
  unfold trimPoints
  rw [List.filter_filter]
  refine List.filter_congr fun p _ => ?_
  rw [Bool.and_eq_left_iff_imp]
  exact inWindow_mono hle

theorem trimList_trimList (hle : hours ≤ hours') :
    trimList epoch hours anchor (trimList epoch hours' anchor v) =
      trimList epoch hours anchor v := by
  cases v with
  | arr points => exact congrArg Json.arr (trimPoints_trimPoints hle)
  | _ => rfl

/-- A dict of series is one after the cut. -/
theorem isGroup_trimmed {members : List (String × Json)} (hgroup : isGroup members = true)
    (htidy : ∀ m ∈ members, Tidy m.2) :
    isGroup (members.map fun m => (m.1, trimList epoch hours anchor m.2)) = true := by
  rw [isGroup, Bool.and_eq_true, List.all_eq_true] at hgroup ⊢
  refine ⟨by simpa using hgroup.1, fun m hm => ?_⟩
  obtain ⟨m', hm', rfl⟩ := List.mem_map.mp hm
  exact isSeries_shape ((htidy m' hm').isSeries (hgroup.2 m' hm')).trimList

theorem trimValue_group {members : List (String × Json)} (hgroup : isGroup members = true) :
    trimValue epoch hours anchor (.obj members) =
      .obj (members.map fun m => (m.1, trimList epoch hours anchor m.2)) :=
  (if_neg Bool.false_ne_true).trans (if_pos hgroup)

/-- What is neither a series nor a dict of series is left alone. -/
theorem trimValue_other (hpoints : ¬ isPoints v = true)
    (hgroup : ∀ members, v = .obj members → ¬ isGroup members = true) :
    trimValue epoch hours anchor v = v := by
  unfold trimValue
  rw [if_neg hpoints]
  split
  · rename_i members
    exact if_neg (hgroup members rfl)
  · rfl

theorem trimValue_trimValue (hle : hours ≤ hours') (htidy : Tidy v)
    (hmembers : ∀ members, v = .obj members → isGroup members = true → ∀ m ∈ members, Tidy m.2) :
    trimValue epoch hours anchor (trimValue epoch hours' anchor v) =
      trimValue epoch hours anchor v := by
  by_cases hpoints : isPoints v = true
  · have hseries : IsSeries v := htidy hpoints
    rw [hseries.trimValue, hseries.trimList.trimValue, trimList_trimList hle, hseries.trimValue]
  by_cases hgroup : ∃ members, v = .obj members ∧ isGroup members = true
  · obtain ⟨members, rfl, hgroup⟩ := hgroup
    have htidy := hmembers members rfl hgroup
    rw [trimValue_group hgroup, trimValue_group (isGroup_trimmed hgroup htidy),
      trimValue_group hgroup, List.map_map]
    refine congrArg Json.obj (List.map_congr_left fun m _ => ?_)
    rw [Function.comp_apply, trimList_trimList hle]
  · have hother : trimValue epoch hours' anchor v = v :=
      trimValue_other hpoints fun members hv hyes => hgroup ⟨members, hv, hyes⟩
    rw [hother]

/-- A cut to the longer range first makes no difference. -/
theorem trimSeries_trimSeries (keys : Option (List String)) (hle : hours ≤ hours')
    (h : OfSeries v) : trimSeries epoch hours anchor keys (trimSeries epoch hours' anchor keys v) =
      trimSeries epoch hours anchor keys v := by
  cases v with
  | obj fields =>
    simp only [trimSeries, resetPeriod, List.map_map]
    refine congrArg Json.obj (List.map_congr_left fun f hf => ?_)
    obtain ⟨htidy, hmembers⟩ := h fields rfl f hf
    simp only [Function.comp_apply]
    by_cases hperiod : f.1 = "period_hours"
    · simp only [hperiod, if_true]
    · by_cases hkey : trims keys f.1 = true
      · simp only [hperiod, hkey, if_true, if_false, trimValue_trimValue hle htidy hmembers]
      · simp only [hperiod, hkey, if_false, Bool.false_eq_true]
  | _ => rfl

/-- What the cut leaves of a series. -/
theorem SeriesAt.get_trimSeries {path : SeriesPath} (keys : Option (List String))
    (h : SeriesAt v path points) :
    path.get (trimSeries epoch hours anchor keys v) = some (.arr
      (if trims keys path.key then trimPoints epoch hours anchor points else points)) := by
  have hfield (key : String) (hdata : key ≠ "period_hours") (found : Json)
      (hfound : field key v = some found) : field key (trimSeries epoch hours anchor keys v) =
        some (if trims keys key then trimValue epoch hours anchor found else found) := by
    cases v with
    | obj fields =>
      simp only [field] at hfound
      simp only [field, trimSeries, resetPeriod, find_map_keyed
        (fun key value => if key = "period_hours" then Json.num hours else value),
        find_map_keyed (fun key value =>
          if trims keys key then trimValue epoch hours anchor value else value)]
      rw [hfound, Option.map_some, Option.map_some, if_neg hdata]
    | _ => cases hfound
  have hseries : IsSeries (.arr points) := ⟨points, rfl, h.series⟩
  cases path with
  | top key =>
    refine (hfield key h.data _ h.found).trans ?_
    rw [hseries.trimValue, trimList, apply_ite Json.arr]
    rfl
  | nested key member =>
    obtain ⟨members, hfound, hgroup⟩ := h.group key member rfl
    have hmember := h.found
    simp only [SeriesPath.get, hfound, Option.bind_some] at hmember
    simp only [SeriesPath.get, hfield key h.data _ hfound, Option.bind_some, SeriesPath.key]
    by_cases hkey : trims keys key = true
    · simp only [hkey, if_true, trimValue_group hgroup]
      simp only [field] at hmember ⊢
      rw [find_map, hmember]
      rfl
    · simp only [hkey, if_false, Bool.false_eq_true]
      exact hmember

end Trim

section Requests
variable {P : Type} [DecidableEq P] {epoch : Json → Option ℚ} {view : RangeView P} {B : Backend}
  {s : OneProcess Json} {hours : ℤ} {entry : Envelope Json}

/-- What a stored entry gives. -/
def RangeView.answer (view : RangeView P) (epoch : Json → Option ℚ) (hours : ℤ)
    (entry : Envelope Json) : Json :=
  if view.canonical hours = hours then entry.value
  else trimSeries epoch hours entry.ts view.trimKeys entry.value

theorem getOrLoadRange_hit (hread : s.read B (view.key hours) = some entry)
    (seconds : {d : ℚ // 0 ≤ d}) (loader : ℤ → Loaded Json) :
    (view.getOrLoadRange epoch B s hours false seconds loader).2 =
      some (view.answer epoch hours entry) := by
  have husable : s.usable B (view.key hours) false (fun _ => true) = some entry := by
    rw [OneProcess.usable, hread]
    rfl
  unfold RangeView.getOrLoadRange OneProcess.getOrLoad
  rw [husable]
  rfl

/-- The longer request, if it is not the canonical range itself, is cut already. -/
theorem trimSeries_answer {hours' : ℤ} (hle : hours ≤ hours') (hseries : OfSeries entry.value) :
    trimSeries epoch hours entry.ts view.trimKeys (view.answer epoch hours' entry) =
      trimSeries epoch hours entry.ts view.trimKeys entry.value := by
  unfold RangeView.answer
  split
  · rfl
  · exact trimSeries_trimSeries view.trimKeys hle hseries

/-- A series of the answer is that of the entry, without what is outside the window unless the
request is for the canonical range or the key is not to be trimmed. -/
theorem SeriesAt.get_answer {path : SeriesPath} {points : List Json}
    (h : SeriesAt entry.value path points) :
    path.get (view.answer epoch hours entry) = some (.arr
      (if view.canonical hours ≠ hours ∧ trims view.trimKeys path.key = true then
        trimPoints epoch hours entry.ts points else points)) := by
  unfold RangeView.answer
  by_cases hcanon : view.canonical hours = hours
  · rw [if_pos hcanon, h.found, if_neg fun hboth => hboth.1 hcanon]
  · rw [if_neg hcanon, h.get_trimSeries]
    simp only [ne_eq, hcanon, not_false_eq_true, true_and]

theorem le_of_inWindow {p : Json} {e : ℚ} {anchor : ℚ} (h : inWindow epoch hours anchor p = true)
    (he : pointTime epoch p = some e) : anchor - hours * 3600 ≤ e := by
  rw [inWindow, he] at h
  simp only [Bool.and_eq_true, decide_eq_true_eq] at h
  exact h.1

/-- Two requests that one stored entry serves. The range is long enough and of their period; the
shorter one, if not for the range itself, is the longer one cut to it, without older points in the
series that are to be trimmed; and of every series the points in the window are all there, in
their order. -/
theorem range_sharing (epoch : Json → Option ℚ) (view : RangeView P) (B : Backend)
    (s s' : OneProcess Json) (h h' : ℤ) (hle : h ≤ h')
    (hcanon : view.canonical h' = view.canonical h) (entry : Envelope Json)
    (hread : s.read B (view.key h) = some entry) (hread' : s'.read B (view.key h) = some entry)
    (hseries : OfSeries entry.value) (seconds seconds' : {d : ℚ // 0 ≤ d})
    (loader loader' : ℤ → Loaded Json) :
    h ≤ view.canonical h ∧ view.periodFn (view.canonical h) = view.periodFn h ∧
      ∃ r r', (view.getOrLoadRange epoch B s h false seconds loader).2 = some r ∧
        (view.getOrLoadRange epoch B s' h' false seconds' loader').2 = some r' ∧
        r = (if view.canonical h = h then entry.value
          else trimSeries epoch h entry.ts view.trimKeys r') ∧
        ∀ path points, SeriesAt entry.value path points →
          ∃ returned, path.get r = some (.arr returned) ∧ returned.Sublist points ∧
            returned.filter (inWindow epoch h entry.ts) =
              points.filter (inWindow epoch h entry.ts) ∧
            (view.canonical h ≠ h → trims view.trimKeys path.key = true →
              ∀ p ∈ returned, ∀ e ∈ pointTime epoch p, entry.ts - h * 3600 ≤ e) := by
  obtain ⟨hlong, hperiod⟩ : h ≤ view.canonical h ∧
      view.periodFn (view.canonical h) = view.periodFn h := canonicalHours_spec
  have hkey : view.key h' = view.key h := by rw [RangeView.key, RangeView.key, hcanon]
  rw [← hkey] at hread'
  refine ⟨hlong, hperiod, _, _, getOrLoadRange_hit hread seconds loader,
    getOrLoadRange_hit hread' seconds' loader', ?_, fun path points hpath => ?_⟩
  · rw [trimSeries_answer hle hseries]
    rfl
  · refine ⟨_, hpath.get_answer, ?_⟩
    split
    · refine ⟨List.filter_sublist, by simp [trimPoints, List.filter_filter],
        fun _ _ p hp e he => ?_⟩
      exact le_of_inWindow (List.mem_filter.mp hp).2 he
    · rename_i hno
      exact ⟨List.Sublist.refl _, rfl, fun hshort htrims => absurd ⟨hshort, htrims⟩ hno⟩

end Requests

section Example

def point (t : String) (v : ℚ) : Json := .obj [("t", .str t), ("v", .num v)]

/-- The times of the example. -/
def exampleEpoch : Json → Option ℚ
  | .str t =>
    if t = "2026-01-01T00:00:00+00:00" then some 1767225600
    else if t = "2026-01-01T20:00:00+00:00" then some 1767297600
    else none
  | _ => none

def dayPoints : List Json :=
  [point "2026-01-01T00:00:00+00:00" 1, point "2026-01-01T20:00:00+00:00" 2]

/-- A day of points, and the loader took ten seconds. -/
def dayEntry : Envelope Json :=
  ⟨1767312310, .obj [("cpu", .arr dayPoints), ("period_hours", .num 24)], 1767312010⟩

def dayProcess : OneProcess Json := ⟨1767312010, [("ec2:h24", dayEntry)], [], []⟩

def ec2View (trimKeys : Option (List String)) : RangeView ℕ :=
  ⟨"ec2", fun h => if h ≤ 24 then 60 else 420, [1, 3, 6, 24, 168, 720], trimKeys⟩

def noLoader (_ : ℤ) : Loaded Json := .raised

theorem dayProcess_read (trimKeys : Option (List String)) (hours : ℤ)
    (h : (ec2View trimKeys).canonical hours = 24) :
    dayProcess.read .memory ((ec2View trimKeys).key hours) = some dayEntry := by
  rw [RangeView.key, h]
  rfl

/-- A request for the day itself has the point from before its window, and so has one that does
not trim the key. -/
theorem stored_range_uncut :
    (∃ r, ((ec2View none).getOrLoadRange exampleEpoch .memory dayProcess 24 false ⟨0, le_rfl⟩
        noLoader).2 = some r ∧ (SeriesPath.top "cpu").get r = some (.arr dayPoints) ∧
        r ≠ trimSeries exampleEpoch 24 dayEntry.ts none r) ∧
      (∃ r, ((ec2View (some ["requests"])).getOrLoadRange exampleEpoch .memory dayProcess 6 false
        ⟨0, le_rfl⟩ noLoader).2 = some r ∧ (SeriesPath.top "cpu").get r = some (.arr dayPoints)) ∧
      ∃ p ∈ dayPoints, ∃ e ∈ pointTime exampleEpoch p, e < dayEntry.ts - 24 * 3600 := by
  refine ⟨⟨_, getOrLoadRange_hit (dayProcess_read none 24 (by decide)) _ _, rfl, fun heq => ?_⟩,
    ⟨_, getOrLoadRange_hit (dayProcess_read _ 6 (by decide)) _ _, rfl⟩,
    _, List.mem_cons_self, 1767225600, rfl, by decide +kernel⟩
  have hcut := congrArg (fun r => ((SeriesPath.top "cpu").get r).map fun
    | .arr points => points.length
    | _ => 0) heq
  exact absurd hcut (by decide +kernel)

/-- The day's entry serves twelve hours and six. -/
theorem range_sharing_sixHours : ∃ r returned,
    ((ec2View none).getOrLoadRange exampleEpoch .memory dayProcess 6 false ⟨0, le_rfl⟩ noLoader).2 =
      some r ∧ (SeriesPath.top "cpu").get r = some (.arr returned) ∧
      ∀ p ∈ returned, ∀ e ∈ pointTime exampleEpoch p, (1767290410 : ℚ) ≤ e := by
  have hpoints : ∀ p ∈ dayPoints, isPoint p = true := by decide
  have hseries : OfSeries dayEntry.value := by
    rintro _ ⟨⟩ f hf
    rcases List.mem_cons.mp hf with rfl | hf
    · exact ⟨fun _ => ⟨dayPoints, rfl, hpoints⟩, nofun⟩
    · obtain rfl := List.mem_singleton.mp hf
      exact ⟨nofun, nofun⟩
  obtain ⟨-, -, r, r', hr, -, -, hpaths⟩ := range_sharing exampleEpoch (ec2View none) .memory
    dayProcess dayProcess 6 12 (by decide) (by decide) dayEntry
    (dayProcess_read none 6 (by decide)) (dayProcess_read none 6 (by decide)) hseries
    ⟨0, le_rfl⟩ ⟨0, le_rfl⟩ noLoader noLoader
  obtain ⟨returned, hget, -, -, hbound⟩ := hpaths (.top "cpu") dayPoints
    ⟨rfl, hpoints, nofun, by decide⟩
  have hstart : dayEntry.ts - (6 : ℤ) * 3600 = 1767290410 := by decide +kernel
  exact ⟨r, returned, hr, hget, hstart ▸ hbound (by decide) rfl⟩

end Example

end MonitoringHub.Cache
