import Mathlib.Data.String.Basic
import MonitoringHub.Ingest.StoredNames

/-! The names of a host's mounts as the collector of the hub gives them to the series an
instance publishes, beside those of the agent's samples, and what each of the three parties
takes for a real mount. -/

namespace MonitoringHub.Ingest
open Lib

namespace DiskMounts

/-- `ROOT_PATHS` -/
def rootPaths : List String := ["/", "C:"]
/-- `BASE_METRIC_NAME` -/
def baseMetricName : String := "disk_used_percent"

/-- `IGNORED_FSTYPES` -/
def ignoredFstypes : List String :=
  ["squashfs", "tmpfs", "devtmpfs", "overlay", "proc", "sysfs", "cgroup", "cgroup2", "devpts",
    "mqueue", "tracefs", "debugfs", "securityfs", "pstore", "bpf", "autofs", "nsfs", "binfmt_misc",
    "hugetlbfs", "fusectl", "configfs", "efivarfs"]

/-- `IGNORED_PATH_PREFIXES` -/
def ignoredPathPrefixes : List String :=
  ["/snap/", "/var/snap/", "/run", "/dev", "/proc", "/sys", "/boot/efi"]

/-- The dimensions of a published series that naming it reads. -/
structure Dims where
  path : Option String
  inst : Option String
  device : Option String
  fstype : Option String
  deriving DecidableEq, Repr

def ignoredFstype (dims : Dims) : Bool :=
  ignoredFstypes.contains (Text.lower (dims.fstype.getD ""))

def isRealMount (path : String) (dims : Dims) : Bool :=
  if ignoredFstype dims then false
  else if ignoredPathPrefixes.any fun p => path == p || Text.startsWith path p then false
  else true

def slugifyMountPath (path : String) : String := String.ofList (orRoot (slugText path.toList))

def metricNameForMount (path : String) : String :=
  if rootPaths.contains path then baseMetricName
  else baseMetricName ++ "__" ++ slugifyMountPath path

/-- The test a mount passes to be collected. -/
def takes (path : String) (dims : Dims) : Bool :=
  !(!rootPaths.contains path && !isRealMount path dims)

/-- `a or b or ""` -/
def orElse (a b : Option String) : String :=
  if a.getD "" ≠ "" then a.getD "" else b.getD ""

def sortKey (dims : Dims) : List String :=
  [orElse dims.path dims.inst, dims.device.getD "", dims.fstype.getD ""]

/-- A mount that is collected: its dimensions, path and metric name, and whether its metric is
the free space of Windows. -/
structure MountSeries where
  dims : Dims
  path : String
  metricName : String
  invert : Bool
  deriving DecidableEq, Repr

def collect (invert : Bool) : List String → List Dims → List MountSeries
  | _, [] => []
  | seenPaths, dims :: found =>
    -- a rollup without the dimension is no mount
    match if invert then dims.inst else dims.path with
    | none => collect invert seenPaths found
    | some path =>
      if path ∈ seenPaths then collect invert seenPaths found
      else if takes path dims then
        ⟨dims, path, metricNameForMount path, invert⟩ :: collect invert (path :: seenPaths) found
      else collect invert (path :: seenPaths) found

/-- What `ListMetrics` answers for Linux and for Windows, nothing if it fails. -/
def allCwagentDiskDims (linux windows : Option (List Dims)) : List MountSeries :=
  let sorted := List.insertionSort fun a b : Dims => sortKey a ≤ sortKey b
  if linux.getD [] = [] then collect true [] (sorted (windows.getD []))
  else collect false [] (sorted (linux.getD []))

end DiskMounts

/-- `hubIgnoredMountPrefixes` -/
def hubIgnoredMountPrefixes : List String :=
  ["/snap/", "/var/snap/", "/run", "/dev", "/proc", "/sys", "/boot/efi"]

/-- The agent's own filter. -/
def hubIgnoresMount (path : String) : Bool :=
  if path = "/" then false else hubIgnoredMountPrefixes.any (Text.startsWith path)

/-! Which characters of two paths are read alike. -/

/-- A path from its first letter or digit to its last, without its colons; the root's name
where nothing is left. -/
def core (path : String) : List Char :=
  let s := trim (fun c => !c.isAlphanum) (path.toList.filter (· != ':'))
  if s = [] then "root".toList else s

def SameChar (a b : Char) : Prop :=
  a.isAlphanum = b.isAlphanum ∧ (a.isAlphanum = true → a.toLower = b.toLower)

/-- Two paths that a naming which keeps `cut` of a path's core takes for one disk. -/
def OneDisk (cut : List Char → List Char) (p q : String) : Prop :=
  p ∈ rootPaths ∧ q ∈ rootPaths ∨
    p ∉ rootPaths ∧ q ∉ rootPaths ∧ List.Forall₂ SameChar (cut (core p)) (cut (core q))

section Names
variable {path p q : String} {c c' : Contract}

def readOne (c : Char) : Option Char := if c.isAlphanum then some c.toLower else none

theorem readsAs_eq (path : String) : readsAs path.toList = (core path).map readOne := by
  have hsplit : path.toList.filterMap readChar = (path.toList.filter (· != ':')).map readOne := by
    rw [← List.filterMap_eq_map, List.filterMap_filter]
    refine List.filterMap_congr fun c _ => ?_
    by_cases hc : c = ':' <;> simp [readChar, readOne, hc]
  have hmark : Option.isNone ∘ readOne = fun c => !c.isAlphanum := by
    funext c
    cases h : c.isAlphanum <;> simp [readOne, h]
  rw [readsAs, reading, hsplit, trim_map, hmark, core]
  by_cases h : trim (fun c => !c.isAlphanum) (path.toList.filter (· != ':')) = []
  · rw [if_pos h, h]
    decide
  · rw [if_neg h, if_neg (by simpa using h)]

theorem readOne_eq (a b : Char) : readOne a = readOne b ↔ SameChar a b := by
  unfold readOne SameChar
  cases ha : a.isAlphanum <;> cases hb : b.isAlphanum <;> simp

theorem plain_readOne (l : List Char) : Plain (l.map readOne) := by
  intro o ho c hc
  obtain ⟨a, -, rfl⟩ := List.mem_map.mp ho
  cases ha : a.isAlphanum with
  | true =>
    rw [readOne, if_pos ha] at hc
    obtain rfl := Option.some.inj hc
    exact Text.toLower_of_isAlphanum ha
  | false =>
    rw [readOne, if_neg (by simp [ha])] at hc
    cases hc

theorem spelled_iff (l m : List Char) :
    String.ofList (spell (l.map readOne)) = String.ofList (spell (m.map readOne)) ↔
      List.Forall₂ SameChar l m := by
  rw [← String.toList_inj, String.toList_ofList, String.toList_ofList,
    spell_inj (plain_readOne l) (plain_readOne m), ← List.forall₂_eq_eq_eq,
    List.forall₂_map_left_iff, List.forall₂_map_right_iff]
  simp only [readOne_eq]

theorem slugify_core (path : String) :
    slugify path = String.ofList (spell (((core path).take maxSlugLen).map readOne)) := by
  rw [slugify_eq, readsAs_eq, List.map_take]

theorem slugifyMountPath_core (path : String) :
    DiskMounts.slugifyMountPath path = String.ofList (spell ((core path).map readOne)) := by
  rw [DiskMounts.slugifyMountPath, orRoot_spell, readsAs_eq]

/-- A naming by a stem and a slug gives two paths one name exactly if it takes them for one
disk. -/
theorem named_eq_iff (cut : List Char → List Char) {name : String → String} {base stem : String}
    (hbase : base.length < stem.length) (hname : ∀ path, name path = if path ∈ rootPaths then base
      else stem ++ String.ofList (spell ((cut (core path)).map readOne))) (p q : String) :
    name p = name q ↔ OneDisk cut p q := by
  have happart : ∀ slug : String, base ≠ stem ++ slug := by
    intro slug h
    have hlen := congrArg String.length h
    rw [String.length_append] at hlen
    omega
  rw [hname, hname, OneDisk]
  by_cases hp : p ∈ rootPaths <;> by_cases hq : q ∈ rootPaths
  · simp [hp, hq]
  · simp [hp, hq, happart]
  · simp [hp, hq, (happart _).symm]
  · simp only [hp, hq, if_false, not_false_eq_true, true_and, false_and, false_or]
    rw [← spelled_iff, ← String.toList_inj, String.toList_append, String.toList_append,
      List.append_cancel_left_eq, String.toList_inj]

theorem storedName_mount (h : c.labelKey = some .mount) (path : String) :
    storedName c (some path) = if path ∈ rootPaths then c.base
      else c.stem ++ String.ofList (spell (((core path).take maxSlugLen).map readOne)) := by
  rw [← slugify_core, storedName, h]
  simp

theorem metricNameForMount_eq (path : String) :
    DiskMounts.metricNameForMount path = if path ∈ rootPaths then Contract.diskUsedPercent.base
      else Contract.diskUsedPercent.stem ++ String.ofList (spell ((core path).map readOne)) := by
  rw [← slugifyMountPath_core, DiskMounts.metricNameForMount]
  simp only [List.contains_iff_mem]
  rfl

theorem storedName_contract (h : c.labelKey = some .mount) (h' : c'.labelKey = some .mount)
    (heq : storedName c (some p) = storedName c' (some q)) : c = c' := by
  have hclaims : ∀ {c : Contract} {path : String}, c.labelKey = some .mount →
      c.Claims (storedName c (some path)) := by
    intro c path hc
    rw [storedName, hc]
    by_cases hroot : path ∈ rootPaths
    · simp [hroot, Contract.Claims]
    · simp only [Option.any_some, List.contains_iff_mem, hroot, if_false, Option.getD_some]
      exact (Contract.answer_stem (by simp [hc]) (length_slugify path)).1
  exact (hclaims h).unique (heq ▸ hclaims h')

theorem collect_names (invert : Bool) (seenPaths : List String) (found : List DiskMounts.Dims) :
    (∀ s ∈ DiskMounts.collect invert seenPaths found,
      s.path ∉ seenPaths ∧ s.metricName = DiskMounts.metricNameForMount s.path) ∧
    ((DiskMounts.collect invert seenPaths found).map (·.path)).Nodup := by
  induction found generalizing seenPaths with
  | nil => simp [DiskMounts.collect]
  | cons dims found ih =>
    rw [DiskMounts.collect]
    cases (if invert then dims.inst else dims.path) with
    | none => exact ih seenPaths
    | some path =>
      by_cases hseen : path ∈ seenPaths
      · simpa only [hseen, if_true] using ih seenPaths
      · obtain ⟨hnames, hnodup⟩ := ih (path :: seenPaths)
        have hlater : ∀ s ∈ DiskMounts.collect invert (path :: seenPaths) found,
            s.path ∉ seenPaths ∧ s.metricName = DiskMounts.metricNameForMount s.path :=
          fun s hs => ⟨fun h => (hnames s hs).1 (List.mem_cons_of_mem _ h), (hnames s hs).2⟩
        simp only [hseen, if_false]
        split
        · refine ⟨List.forall_mem_cons.mpr ⟨⟨hseen, rfl⟩, hlater⟩,
            List.nodup_cons.mpr ⟨?_, hnodup⟩⟩
          intro h
          obtain ⟨s, hs, hpath⟩ := List.mem_map.mp h
          exact (hnames s hs).1 (hpath ▸ List.mem_cons_self)
        · exact ⟨hlater, hnodup⟩

theorem disk_dims_names (linux windows : Option (List DiskMounts.Dims)) :
    ((DiskMounts.allCwagentDiskDims linux windows).map (·.path)).Nodup ∧
      (DiskMounts.allCwagentDiskDims linux windows).map (·.metricName) =
        ((DiskMounts.allCwagentDiskDims linux windows).map (·.path)).map
          DiskMounts.metricNameForMount := by
  unfold DiskMounts.allCwagentDiskDims
  rw [List.map_map]
  split
  all_goals exact ⟨(collect_names _ _ _).2,
    List.map_congr_left fun s hs => ((collect_names _ _ _).1 s hs).2⟩

/-- A payload's disk series share a name exactly if they are of one metric and their paths are
read alike as far as the cap; the collector lists a path once, and its names differ exactly if
no two whole paths are read alike. -/
theorem one_series_iff (c c' : Contract) (hc : c.labelKey = some .mount)
    (hc' : c'.labelKey = some .mount) (p q : String)
    (linux windows : Option (List DiskMounts.Dims)) :
    (storedName c (some p) ≠ storedName c' (some q) ↔
      c ≠ c' ∨ ¬ OneDisk (List.take maxSlugLen) p q) ∧
    ((DiskMounts.allCwagentDiskDims linux windows).map (·.path)).Nodup ∧
    (((DiskMounts.allCwagentDiskDims linux windows).map (·.metricName)).Nodup ↔
      ((DiskMounts.allCwagentDiskDims linux windows).map (·.path)).Pairwise
        fun p q => ¬ OneDisk id p q) := by
  have hstem : ∀ c : Contract, c.base.length < c.stem.length := by
    intro c
    rw [c.length_stem]
    omega
  refine ⟨?_, ?_⟩
  · by_cases heq : c = c'
    · subst heq
      rw [ne_eq, named_eq_iff (List.take maxSlugLen) (hstem c) (storedName_mount hc)]
      simp
    · exact iff_of_true (fun h => heq (storedName_contract hc hc' h)) (.inl heq)
  · obtain ⟨hpaths, hnames⟩ := disk_dims_names linux windows
    have hsame : ∀ p q, DiskMounts.metricNameForMount p = DiskMounts.metricNameForMount q ↔
        OneDisk id p q := named_eq_iff id (hstem .diskUsedPercent) metricNameForMount_eq
    refine ⟨hpaths, ?_⟩
    rw [hnames, List.Nodup, List.pairwise_map]
    simp only [ne_eq, hsame]

/-- Two volumes whose names differ in a letter keep two series. -/
theorem one_series_dataLogs :
    storedName .diskUsedPercent (some "/data") ≠ storedName .diskUsedPercent (some "/logs") := by
  refine (one_series_iff .diskUsedPercent .diskUsedPercent rfl rfl "/data" "/logs" none none).1.mpr
    (.inr ?_)
  rintro (⟨hp, -⟩ | ⟨-, -, halike⟩)
  · exact absurd hp (by decide +kernel)
  · have hdata : (core "/data").take maxSlugLen = ['d', 'a', 't', 'a'] := by decide +kernel
    have hlogs : (core "/logs").take maxSlugLen = ['l', 'o', 'g', 's'] := by decide +kernel
    rw [hdata, hlogs, List.forall₂_cons] at halike
    exact absurd (halike.1.2 rfl) (by decide)

/-- A directory of a volume and a volume named after it: both accepted, one series. -/
theorem nested_mount_shares_series :
    (acceptsLabel .diskUsedPercent (some "/data/a") = true ∧
      acceptsLabel .diskUsedPercent (some "/data_a") = true ∧
      storedName .diskUsedPercent (some "/data/a") =
        storedName .diskUsedPercent (some "/data_a")) ∧
    (DiskMounts.allCwagentDiskDims
      (some [⟨some "/data/a", none, none, none⟩, ⟨some "/data_a", none, none, none⟩])
      none).map (·.metricName) = ["disk_used_percent__data_a", "disk_used_percent__data_a"] := by
  decide +kernel

/-! One name for a mount on both sides, and one filter on three. -/

theorem hubIgnoresMount_eq (path : String) : hubIgnoresMount path = !isRealMount path := by
  by_cases hroot : path ∈ rootPaths
  · rcases List.mem_pair.mp hroot with rfl | rfl
    · rfl
    · decide +kernel
  · have hne : path ≠ "/" := by
      rintro rfl
      exact hroot (by decide)
    have hstart : ∀ p : String, (path == p || Text.startsWith path p) = Text.startsWith path p := by
      intro p
      by_cases h : path = p
      · rw [h, beq_self_eq_true, Bool.true_or, Text.startsWith, decide_eq_true List.prefix_rfl]
      · rw [beq_eq_false_iff_ne.mpr h, Bool.false_or]
    have hcontains : rootPaths.contains path = false := by
      rwa [← Bool.not_eq_true, List.contains_iff_mem]
    rw [hubIgnoresMount, if_neg hne, isRealMount, hcontains, ignoredPath, Bool.false_or,
      Bool.not_not]
    simp only [hstart]
    rfl

theorem takes_eq (path : String) (dims : DiskMounts.Dims) : DiskMounts.takes path dims =
    (isRealMount path && (rootPaths.contains path || !DiskMounts.ignoredFstype dims)) := by
  have hreal : DiskMounts.isRealMount path dims =
      (!DiskMounts.ignoredFstype dims && !ignoredPath path) := by
    rw [DiskMounts.isRealMount, show ignoredPath path =
      DiskMounts.ignoredPathPrefixes.any fun p => path == p || Text.startsWith path p from rfl]
    cases DiskMounts.ignoredFstype dims <;>
      cases (DiskMounts.ignoredPathPrefixes.any fun p => path == p || Text.startsWith path p) <;>
        rfl
  rw [DiskMounts.takes, hreal, isRealMount, show DiskMounts.rootPaths = rootPaths from rfl]
  cases rootPaths.contains path <;> cases ignoredPath path <;>
    cases DiskMounts.ignoredFstype dims <;> rfl

theorem length_core (path : String) (h : path.length ≤ maxSlugLen) :
    (core path).length ≤ maxSlugLen := by
  unfold core
  dsimp only
  split
  · decide
  · exact ((trim_sublist _ _).length_le.trans (List.length_filter_le _ _)).trans
      (String.length_toList.trans_le h)

/-- The agent's name for a mount is the collector's, cut where the slug is capped, and the
three filters agree on the path. -/
theorem mounts_named_alike (path : String) :
    storedName .diskUsedPercent (some path) =
        String.ofList ((DiskMounts.metricNameForMount path).toList.take (19 + maxSlugLen)) ∧
      (path.length ≤ maxSlugLen →
        storedName .diskUsedPercent (some path) = DiskMounts.metricNameForMount path) ∧
      hubIgnoresMount path = !isRealMount path ∧
      ∀ dims : DiskMounts.Dims, DiskMounts.takes path dims =
        (isRealMount path && (rootPaths.contains path || !DiskMounts.ignoredFstype dims)) := by
  refine ⟨?_, fun h => ?_, hubIgnoresMount_eq path, takes_eq path⟩
  · rw [storedName_mount rfl, metricNameForMount_eq]
    split
    · decide +kernel
    · have hstem : 19 + maxSlugLen = Contract.diskUsedPercent.stem.toList.length + maxSlugLen := by
        decide +kernel
      rw [hstem, String.toList_append, List.take_length_add_append, String.toList_ofList,
        List.map_take, spell, spell, List.map_take, ← String.toList_inj, String.toList_append,
        String.toList_ofList, String.toList_ofList]
  · rw [storedName_mount rfl, metricNameForMount_eq, List.take_of_length_le (length_core path h)]

end Names

theorem mounts_named_alike_data :
    storedName .diskUsedPercent (some "/var/lib/mysql") =
      DiskMounts.metricNameForMount "/var/lib/mysql" :=
  (mounts_named_alike "/var/lib/mysql").2.1 (by decide +kernel)

/-- A mount point of sixty-two characters has a longer name with the collector. -/
theorem long_mount_two_names :
    isRealMount (String.ofList ('/' :: List.replicate 61 'd')) = true ∧
      storedName .diskUsedPercent (some (String.ofList ('/' :: List.replicate 61 'd'))) ≠
        DiskMounts.metricNameForMount (String.ofList ('/' :: List.replicate 61 'd')) := by
  decide +kernel

end MonitoringHub.Ingest
