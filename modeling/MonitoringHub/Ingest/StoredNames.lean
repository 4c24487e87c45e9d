import Mathlib.Data.List.Pairwise
import Mathlib.Data.List.Sort
import MonitoringHub.Environments.EnvTiers
import MonitoringHub.Lib.Text
import MonitoringHub.Lib.Trim

/-! The stored name of an agent's series: the base name of its metric and, where the metric
has a label, two underscores and the slug of the mount or interface. A slug spells what is
read of a label: its letters and digits, and a mark for every other character. -/

namespace MonitoringHub.Ingest
open Environments (isSpace spaces strip)
open Lib

inductive LabelKey
  | mount
  | iface
  deriving DecidableEq, Repr

/-- `METRICS`, by its keys. -/
inductive Contract
  | cpuPercent
  | load1
  | load5
  | load15
  | memUsedPercent
  | memAvailableBytes
  | swapUsedPercent
  | diskUsedPercent
  | diskInodesUsedPercent
  | diskReadBytesPerS
  | diskWriteBytesPerS
  | netRxBytesPerS
  | netTxBytesPerS
  | procCount
  | uptimeSeconds
  deriving DecidableEq, Repr

/-- `BASE_DISK_METRIC` -/
def baseDiskMetric : String := "disk_used_percent"

namespace Contract

/-- The metrics in the order of `METRICS`. -/
def all : List Contract :=
  [cpuPercent, load1, load5, load15, memUsedPercent, memAvailableBytes, swapUsedPercent,
    diskUsedPercent, diskInodesUsedPercent, diskReadBytesPerS, diskWriteBytesPerS,
    netRxBytesPerS, netTxBytesPerS, procCount, uptimeSeconds]

def base : Contract → String
  | cpuPercent => "host_cpu_percent"
  | load1 => "host_load1"
  | load5 => "host_load5"
  | load15 => "host_load15"
  | memUsedPercent => "mem_used_percent"
  | memAvailableBytes => "host_mem_available_bytes"
  | swapUsedPercent => "host_swap_used_percent"
  | diskUsedPercent => baseDiskMetric
  | diskInodesUsedPercent => "host_disk_inodes_used_percent"
  | diskReadBytesPerS => "host_disk_read_bytes_per_s"
  | diskWriteBytesPerS => "host_disk_write_bytes_per_s"
  | netRxBytesPerS => "host_net_rx_bytes_per_s"
  | netTxBytesPerS => "host_net_tx_bytes_per_s"
  | procCount => "host_proc_count"
  | uptimeSeconds => "host_uptime_seconds"

def labelKey : Contract → Option LabelKey
  | diskUsedPercent | diskInodesUsedPercent => some .mount
  | netRxBytesPerS | netTxBytesPerS => some .iface
  | _ => none

/-- `DISPLAY` -/
def display : Contract → String × String
  | cpuPercent => ("%", "CPU utilization (guest OS)")
  | load1 => ("", "Load average, 1 min")
  | load5 => ("", "Load average, 5 min")
  | load15 => ("", "Load average, 15 min")
  | memUsedPercent => ("%", "Memory used")
  | memAvailableBytes => ("bytes", "Memory available")
  | swapUsedPercent => ("%", "Swap used")
  | diskUsedPercent => ("%", "Disk used")
  | diskInodesUsedPercent => ("%", "Inodes used")
  | diskReadBytesPerS => ("bytes/s", "Disk read")
  | diskWriteBytesPerS => ("bytes/s", "Disk write")
  | netRxBytesPerS => ("bytes/s", "Network receive")
  | netTxBytesPerS => ("bytes/s", "Network transmit")
  | procCount => ("", "Processes")
  | uptimeSeconds => ("seconds", "Uptime")

/-- `_CONTRACT_ORDER` -/
def order (c : Contract) : ℕ := all.idxOf c

/-- `_BASES_LONGEST_FIRST` -/
def basesLongestFirst : List Contract :=
  all.insertionSort fun a b => b.base.length ≤ a.base.length

/-- What a slug is written after. -/
def stem (c : Contract) : String := c.base ++ "__"

theorem mem_all (c : Contract) : c ∈ all := by cases c <;> decide

end Contract

/-- `ROOT_PATHS` -/
def rootPaths : List String := ["/", "C:"]

/-- `_IGNORED_PATH_PREFIXES` -/
def ignoredPathPrefixes : List String :=
  ["/snap/", "/var/snap/", "/run", "/dev", "/proc", "/sys", "/boot/efi"]

def ignoredPath (path : String) : Bool :=
  ignoredPathPrefixes.any fun p => path == p || Text.startsWith path p

def isRealMount (path : String) : Bool := rootPaths.contains path || !ignoredPath path

/-- `MAX_SLUG_LEN` -/
def maxSlugLen : ℕ := 60
/-- `MAX_LABEL_VALUE_LEN` -/
def maxLabelValueLen : ℕ := 255

def isWord (c : Char) : Bool := c.isAlphanum || c == '_'

def orUnderscore (kept : Char → Bool) (c : Char) : Char := if kept c then c else '_'

def slugText (value : List Char) : List Char :=
  let s := (trim (· == '/') (strip value)).filter (· != ':')
  let s := (s.map (orUnderscore (· != '\\'))).map (orUnderscore (· != '/'))
  (trim (· == '_') (s.map (orUnderscore isWord))).map Char.toLower

def orRoot (s : List Char) : List Char := if s = [] then "root".toList else s

def slugify (value : String) : String :=
  String.ofList ((orRoot (slugText value.toList)).take maxSlugLen)

def storedName (c : Contract) (labelValue : Option String) : String :=
  match c.labelKey with
  | none => c.base
  | some .mount =>
    if labelValue.any rootPaths.contains then c.base else c.stem ++ slugify (labelValue.getD "")
  | some .iface => c.stem ++ slugify (labelValue.getD "")

/-- The label checks of `validate_payload` on one sample. -/
def acceptsLabel (c : Contract) (labelValue : Option String) : Bool :=
  match c.labelKey, labelValue with
  | none, label => label.isNone
  | some _, none => false
  | some key, some label =>
    label ≠ "" && label.length ≤ maxLabelValueLen && (key != .mount || isRealMount label)

structure Described where
  contract : Contract
  labelKey : Option LabelKey
  label : Option String
  unit : String
  title : String
  order : ℕ
  deriving DecidableEq, Repr

def Contract.described (c : Contract) (label : Option String) : Described :=
  ⟨c, c.labelKey, label, c.display.1, c.display.2, c.order⟩

def describeIn (stored : String) : List Contract → Option Described
  | [] => none
  | c :: rest =>
    if stored = c.base then
      if c.labelKey = some .iface then none
      else some (c.described (if c.labelKey = some .mount then some "/" else none))
    else if c.labelKey ≠ none ∧ Text.startsWith stored c.stem ∧
        c.base.length + 2 < stored.length then
      some (c.described (some (String.ofList (stored.toList.drop (c.base.length + 2)))))
    else describeIn stored rest

def describeStoredName (stored : String) : Option Described :=
  describeIn stored Contract.basesLongestFirst

/-- What is read of a character: nothing of a colon, a letter or digit without its case, and
a mark for any other. -/
def readChar (c : Char) : Option (Option Char) :=
  if c = ':' then none else some (if c.isAlphanum then some c.toLower else none)

/-- What is read of a label, the marks at its ends left out. -/
def reading (value : List Char) : List (Option Char) :=
  trim Option.isNone (value.filterMap readChar)

def rootReading : List (Option Char) := [some 'r', some 'o', some 'o', some 't']

/-- A label of which nothing is read reads as the root's. -/
def readsAs (value : List Char) : List (Option Char) :=
  if reading value = [] then rootReading else reading value

def spell (r : List (Option Char)) : List Char := r.map fun o => o.getD '_'

/-- Letters and digits without case, and marks. -/
def Plain (r : List (Option Char)) : Prop :=
  ∀ o ∈ r, ∀ c ∈ o, c.isAlphanum = true ∧ c.toLower = c

/-- What a label can read as. -/
structure Readable (r : List (Option Char)) : Prop where
  nonempty : r ≠ []
  plain : Plain r
  head : ∀ o ∈ r.head?, o.isNone = false
  last : ∀ o ∈ r.getLast?, o.isNone = false

section Slug
variable {l : List Char} {r r' : List (Option Char)} {o : Option Char}

/-- The character a slug keeps for one of the label, before case is folded. -/
def slugChar (c : Char) : Option Char := if c = ':' then none else some (orUnderscore isWord c)

theorem slugChar_eq (s : List Char) :
    (((s.filter (· != ':')).map (orUnderscore (· != '\\'))).map (orUnderscore (· != '/'))).map
      (orUnderscore isWord) = s.filterMap slugChar := by
  induction s with
  | nil => rfl
  | cons c s ih =>
    by_cases hcolon : c = ':'
    · rw [List.filter_cons_of_neg (by simp [hcolon]), ih,
        List.filterMap_cons_none (by rw [slugChar, if_pos hcolon])]
    · rw [List.filter_cons_of_pos (by simp [hcolon]), List.map_cons, List.map_cons, List.map_cons,
        ih, List.filterMap_cons_some (by rw [slugChar, if_neg hcolon])]
      by_cases hback : c = '\\'
      · rw [hback]; rfl
      · by_cases hslash : c = '/'
        · rw [hslash]; rfl
        · simp [orUnderscore, hback, hslash]

theorem slugChar_isSpace {c : Char} (h : isSpace c = true) :
    ∀ d ∈ slugChar c, (d == '_') = true := by
  have hall : spaces.all (fun c => (slugChar c).all (· == '_')) = true := by decide
  have hc := List.all_eq_true.mp hall c (List.contains_iff_mem.mp h)
  exact fun d hd => by rwa [hd] at hc

/-- The characters that trimming takes from a slug are the marks at the label's ends. -/
theorem slugChar_mark (c : Char) :
    (slugChar c).all (· == '_') = (readChar c).all Option.isNone := by
  unfold slugChar readChar
  split
  · rfl
  · cases h : c.isAlphanum with
    | true =>
      have hne : c ≠ '_' := by
        rintro rfl
        exact absurd h (by decide)
      simp [orUnderscore, isWord, h, hne]
    | false =>
      by_cases hc : c = '_'
      · simp [orUnderscore, isWord, hc]
      · simp [orUnderscore, isWord, h, hc]

theorem slugChar_spelled (c : Char) :
    (slugChar c).map Char.toLower = (readChar c).map fun o => o.getD '_' := by
  unfold slugChar readChar
  split
  · rfl
  · cases h : c.isAlphanum with
    | true => simp [orUnderscore, isWord, h]
    | false =>
      by_cases hc : c = '_'
      · rw [hc]
        rfl
      · simp [orUnderscore, isWord, h, hc]

theorem slugText_eq (l : List Char) : slugText l = spell (reading l) := by
  have hslash : ∀ c, (c == '/') = true → ∀ d ∈ slugChar c, (d == '_') = true := by
    intro c hc
    rw [beq_iff_eq] at hc
    have hmark : slugChar '/' = some '_' := by decide
    rw [hc, hmark]
    rintro d ⟨⟩
    rfl
  have hstrip : strip l = trim isSpace l := rfl
  rw [slugText, slugChar_eq, trim_filterMap slugChar hslash, hstrip,
    trim_filterMap slugChar fun c => slugChar_isSpace, ← filterMap_trim, List.map_filterMap,
    spell, reading, ← filterMap_trim, List.map_filterMap]
  simp only [slugChar_mark, slugChar_spelled]

theorem orRoot_spell (l : List Char) : orRoot (slugText l) = spell (readsAs l) := by
  rw [orRoot, readsAs, slugText_eq]
  by_cases h : reading l = []
  · rw [if_pos h, h]
    decide
  · rw [if_neg h, if_neg (by simpa [spell] using h)]

theorem slugify_eq (value : String) :
    slugify value = String.ofList (spell ((readsAs value.toList).take maxSlugLen)) := by
  rw [slugify, orRoot_spell, spell, spell, List.map_take]

theorem readChar_entry (h : ∀ c ∈ o, c.isAlphanum = true ∧ c.toLower = c) :
    readChar (o.getD '_') = some o := by
  cases o with
  | none => rfl
  | some c =>
    obtain ⟨halnum, hlow⟩ := h c rfl
    have hne : c ≠ ':' := by
      rintro rfl
      exact absurd halnum (by decide)
    rw [Option.getD_some, readChar, if_neg hne, if_pos halnum, hlow]

theorem filterMap_spell (hr : Plain r) : (spell r).filterMap readChar = r := by
  rw [spell, List.filterMap_map]
  exact (List.filterMap_congr fun o ho => readChar_entry (hr o ho)).trans List.filterMap_some

theorem spell_inj (hr : Plain r) (hr' : Plain r') : spell r = spell r' ↔ r = r' := by
  refine ⟨fun h => ?_, congrArg spell⟩
  rw [← filterMap_spell hr, h, filterMap_spell hr']

theorem plain_reading (l : List Char) : Plain (reading l) := by
  intro o ho c hc
  obtain ⟨d, -, hd⟩ := List.mem_filterMap.mp ((trim_sublist _ _).subset ho)
  unfold readChar at hd
  split at hd
  · cases hd
  · obtain rfl := Option.some.inj hd
    split at hc
    · rename_i hdigit
      obtain rfl := Option.some.inj hc
      exact Text.toLower_of_isAlphanum hdigit
    · cases hc

theorem plain_rootReading : Plain rootReading := by
  have hall : (rootReading.all fun o => o.all fun c => c.isAlphanum && c.toLower == c) = true := by
    decide
  intro o ho c hc
  have hread := List.all_eq_true.mp hall o ho
  rw [Option.mem_def.mp hc] at hread
  simpa using hread

theorem readable_readsAs (l : List Char) : Readable (readsAs l) := by
  unfold readsAs
  split
  · exact ⟨by decide, plain_rootReading, by decide, by decide⟩
  · rename_i hne
    exact ⟨hne, plain_reading l, trim_head _ _, trim_last _ _⟩

/-- What is read of a spelling is what was spelled. -/
theorem readsAs_spell (hr : Readable r) : readsAs (spell r) = r := by
  have hread : reading (spell r) = r := by
    rw [reading, filterMap_spell hr.plain, trim_of_ends hr.head hr.last]
  rw [readsAs, hread, if_neg hr.nonempty]

end Slug

section Decoding
variable {c d : Contract} {stored : String} {label : Option String} {l : List Contract}

namespace Contract

/-- The decoder stops at this metric. -/
def Claims (c : Contract) (stored : String) : Prop :=
  stored = c.base ∨ c.labelKey ≠ none ∧ Text.startsWith stored c.stem = true ∧
    c.base.length + 2 < stored.length

/-- What the decoder answers there. -/
def answer (c : Contract) (stored : String) : Option Described :=
  if stored = c.base then
    if c.labelKey = some .iface then none
    else some (c.described (if c.labelKey = some .mount then some "/" else none))
  else some (c.described (some (String.ofList (stored.toList.drop (c.base.length + 2)))))

theorem stems_apart : all.Pairwise fun c d =>
    ¬ c.stem.toList <+: d.stem.toList ∧ ¬ d.stem.toList <+: c.stem.toList := by decide +kernel

theorem eq_of_stem (h : c.stem.toList <+: d.stem.toList) : c = d := by
  by_contra hne
  have hsymm : Std.Symm fun c d : Contract =>
      ¬ c.stem.toList <+: d.stem.toList ∧ ¬ d.stem.toList <+: c.stem.toList := ⟨fun _ _ => And.symm⟩
  exact (stems_apart.forall (mem_all c) (mem_all d) hne).1 h

theorem Claims.begins (h : c.Claims stored) : c.stem.toList <+: (stored ++ "__").toList := by
  rcases h with rfl | ⟨-, h, -⟩
  · exact List.prefix_rfl
  · rw [String.toList_append]
    exact (of_decide_eq_true h).trans (List.prefix_append _ _)

/-- No two metrics claim one name: no stem begins another. -/
theorem Claims.unique (hc : c.Claims stored) (hd : d.Claims stored) : c = d :=
  (List.prefix_or_prefix_of_prefix hc.begins hd.begins).elim eq_of_stem fun h => (eq_of_stem h).symm

end Contract

theorem describeIn_cons (stored : String) (c : Contract) (l : List Contract) :
    (c.Claims stored → describeIn stored (c :: l) = c.answer stored) ∧
      (¬ c.Claims stored → describeIn stored (c :: l) = describeIn stored l) := by
  rw [describeIn, Contract.answer, Contract.Claims]
  by_cases hbase : stored = c.base
  · rw [if_pos hbase, if_pos hbase]
    exact ⟨fun _ => rfl, fun h => absurd (.inl hbase) h⟩
  · rw [if_neg hbase, if_neg hbase]
    refine ⟨fun h => if_pos (h.resolve_left hbase), fun h => if_neg fun hs => h (.inr hs)⟩

theorem describeIn_of_claims (hc : c.Claims stored) (hmem : c ∈ l) :
    describeIn stored l = c.answer stored := by
  induction l with
  | nil => cases hmem
  | cons d l ih =>
    by_cases hd : d.Claims stored
    · rw [(describeIn_cons stored d l).1 hd, hd.unique hc]
    · rw [(describeIn_cons stored d l).2 hd]
      refine ih ((List.mem_cons.mp hmem).resolve_left ?_)
      rintro rfl
      exact hd hc

theorem describeIn_some {found : Described} (h : describeIn stored l = some found) :
    ∃ c : Contract, c.Claims stored ∧ c.answer stored = some found := by
  induction l with
  | nil => cases h
  | cons c l ih =>
    by_cases hc : c.Claims stored
    · exact ⟨c, hc, (describeIn_cons stored c l).1 hc ▸ h⟩
    · exact ih ((describeIn_cons stored c l).2 hc ▸ h)

theorem describe_of_claims (h : c.Claims stored) : describeStoredName stored = c.answer stored :=
  describeIn_of_claims h ((List.mem_insertionSort _).mpr c.mem_all)

namespace Contract

/-- The label as the decoder shows it: the slug, or "/" for the root. -/
def shown (c : Contract) (label : Option String) : Option String :=
  match c.labelKey with
  | none => none
  | some .mount => label.map fun path => if rootPaths.contains path then "/" else slugify path
  | some .iface => label.map slugify

/-- A stored name with its suffix as a slug. -/
def slugNormal (c : Contract) (stored : String) : String :=
  match Text.after c.stem stored with
  | none => stored
  | some suffix => c.stem ++ slugify suffix

theorem length_stem (c : Contract) : c.stem.length = c.base.length + 2 := by
  rw [stem, String.length_append]
  rfl

theorem answer_stem (hkey : c.labelKey ≠ none) {slug : String} (hslug : 0 < slug.length) :
    c.Claims (c.stem ++ slug) ∧ c.answer (c.stem ++ slug) = some (c.described (some slug)) := by
  have hlong : c.base.length + 2 < (c.stem ++ slug).length := by
    rw [String.length_append, length_stem]
    omega
  have hne : c.stem ++ slug ≠ c.base := by
    intro h
    rw [h] at hlong
    omega
  refine ⟨.inr ⟨hkey, ?_, hlong⟩, ?_⟩
  · rw [Text.startsWith, String.toList_append]
    exact decide_eq_true (List.prefix_append _ _)
  · rw [answer, if_neg hne, String.toList_append, List.drop_left', String.ofList_toList]
    rw [String.length_toList, length_stem]

end Contract

theorem length_slugify (value : String) : 0 < (slugify value).length := by
  rw [slugify_eq, String.length_ofList, spell, List.length_map, List.length_take]
  exact lt_min (by decide) (List.length_pos_iff.mpr (readable_readsAs value.toList).nonempty)

theorem describe_storedName (h : acceptsLabel c label = true) :
    describeStoredName (storedName c label) = some (c.described (c.shown label)) := by
  have hplain : c.labelKey ≠ some .iface → c.answer c.base =
      some (c.described (if c.labelKey = some .mount then some "/" else none)) := by
    intro hkey
    rw [Contract.answer, if_pos rfl, if_neg hkey]
  have hslug : ∀ value : String, c.labelKey ≠ none →
      describeStoredName (c.stem ++ slugify value) = some (c.described (some (slugify value))) := by
    intro value hkey
    obtain ⟨hclaims, hanswer⟩ := Contract.answer_stem hkey (length_slugify value)
    rw [describe_of_claims hclaims, hanswer]
  unfold storedName Contract.shown
  cases hkey : c.labelKey with
  | none => simp [describe_of_claims (.inl rfl : c.Claims c.base), hplain, hkey]
  | some key =>
    obtain ⟨value, rfl⟩ : ∃ value, label = some value := by
      cases label with
      | none => simp [acceptsLabel, hkey] at h
      | some value => exact ⟨value, rfl⟩
    cases key with
    | iface => exact hslug value (by simp [hkey])
    | mount =>
      by_cases hroot : value ∈ rootPaths
      · simp [hroot, describe_of_claims (.inl rfl : c.Claims c.base), hplain, hkey]
      · simp [hroot, hslug, hkey]

theorem slash_of_ignored {path : String} (h : ignoredPath path = true) :
    path.toList.head? = some '/' := by
  have hall : ∀ p ∈ ignoredPathPrefixes, p.toList.head? = some '/' := by decide +kernel
  obtain ⟨p, hp, h⟩ := List.any_eq_true.mp h
  rcases Bool.or_eq_true_iff.mp h with h | h
  · rw [beq_iff_eq.mp h, hall p hp]
  · obtain ⟨rest, hrest⟩ := of_decide_eq_true h
    rw [← hrest, List.head?_append, hall p hp, Option.some_or]

theorem head_of_root {path : String} (h : path ∈ rootPaths) :
    path.toList.head? = some '/' ∨ path.toList.head? = some 'C' := by
  rcases List.mem_pair.mp h with rfl | rfl
  · exact .inl rfl
  · exact .inr rfl

/-- A spelling begins with a letter or digit in lower case. -/
theorem head_spell {r : List (Option Char)} (hr : Readable r) :
    ∃ a, (spell r).head? = some a ∧ a ≠ '/' ∧ a ≠ 'C' := by
  obtain ⟨o, r, rfl⟩ := List.exists_cons_of_ne_nil hr.nonempty
  cases o with
  | none => exact absurd (hr.head none rfl) (by decide)
  | some a =>
    obtain ⟨halnum, hlow⟩ := hr.plain _ List.mem_cons_self a rfl
    refine ⟨a, rfl, ?_, ?_⟩
    · rintro rfl
      exact absurd halnum (by decide)
    · rintro rfl
      exact absurd hlow (by decide)

/-- A spelling of moderate length is a label that is accepted, and no root. -/
theorem accepts_spell {r : List (Option Char)} (hr : Readable r) (hlen : r.length ≤ 61)
    (hkey : c.labelKey ≠ none) :
    acceptsLabel c (some (String.ofList (spell r))) = true ∧
      storedName c (some (String.ofList (spell r))) =
        c.stem ++ slugify (String.ofList (spell r)) := by
  obtain ⟨a, ha, hslash, hC⟩ := head_spell hr
  generalize hvalue : String.ofList (spell r) = value
  have hchars : value.toList = spell r := by rw [← hvalue, String.toList_ofList]
  rw [← hchars] at ha
  have hroot : value ∉ rootPaths := by
    intro h
    have hhead := head_of_root h
    rw [ha] at hhead
    exact hhead.elim (fun h => hslash (Option.some.inj h)) fun h => hC (Option.some.inj h)
  have hreal : ignoredPath value = false := by
    refine Bool.eq_false_iff.mpr fun h => ?_
    have hhead := slash_of_ignored h
    rw [ha] at hhead
    exact hslash (Option.some.inj hhead)
  have hne : value ≠ "" := by
    rintro rfl
    cases ha
  have hfits : value.length ≤ 255 := by
    rw [← String.length_toList, hchars, spell, List.length_map]
    omega
  cases hc : c.labelKey with
  | none => exact absurd hc hkey
  | some key =>
    cases key <;>
      simp [acceptsLabel, storedName, hc, hroot, hne, isRealMount, hreal, maxLabelValueLen, hfits]

/-- Every slug is the slug of a short label that a slug could be. -/
theorem exists_label (value : String) : ∃ r, Readable r ∧ r.length ≤ 61 ∧
    slugify (String.ofList (spell r)) = slugify value := by
  have hr := readable_readsAs value.toList
  generalize hvalue : readsAs value.toList = r at hr
  by_cases hshort : r.length ≤ 60
  · refine ⟨r, hr, by omega, ?_⟩
    rw [slugify_eq, slugify_eq, String.toList_ofList, readsAs_spell hr, hvalue]
  · -- a cut may end in a mark, which a longer label has to keep away from the end
    have hlong : (r.take 60).length = 60 := by
      rw [List.length_take]
      omega
    have hr' : Readable (r.take 60 ++ [some 'x']) := by
      refine ⟨by simp, ?_, ?_, ?_⟩
      · intro o ho c hc
        rcases List.mem_append.mp ho with ho | ho
        · exact hr.plain o (List.mem_of_mem_take ho) c hc
        · obtain rfl := List.mem_singleton.mp ho
          obtain rfl := Option.some.inj hc
          decide
      · intro o ho
        refine hr.head o ?_
        obtain ⟨first, rest, rfl⟩ := List.exists_cons_of_ne_nil hr.nonempty
        exact ho
      · intro o ho
        rw [List.getLast?_append, List.getLast?_singleton, Option.some_or] at ho
        obtain rfl := Option.some.inj ho
        rfl
    refine ⟨_, hr', by simp [hlong], ?_⟩
    rw [slugify_eq, slugify_eq, String.toList_ofList, readsAs_spell hr', hvalue, maxSlugLen,
      List.take_append_of_le_length hlong.ge, List.take_take, min_self]

/-- Every name the decoder knows is, its suffix taken as a slug, the name of a series. -/
theorem stored_of_describe {found : Described} (h : describeStoredName stored = some found) :
    ∃ label, acceptsLabel found.contract label = true ∧
      storedName found.contract label = found.contract.slugNormal stored := by
  obtain ⟨c, hclaims, hanswer⟩ := describeIn_some h
  have hbase : ∀ c : Contract, c.slugNormal c.base = c.base := by
    intro c
    have hlen : ¬ c.stem.toList <+: c.base.toList := by
      intro hpre
      have hle := hpre.length_le
      rw [String.length_toList, String.length_toList, c.length_stem] at hle
      omega
    rw [Contract.slugNormal, Text.after, Text.startsWith, if_neg (by simpa using hlen)]
  by_cases heq : stored = c.base
  · rw [Contract.answer, if_pos heq] at hanswer
    split at hanswer
    · cases hanswer
    · rename_i hkey
      obtain rfl := Option.some.inj hanswer
      rw [heq]
      change ∃ label, acceptsLabel c label = true ∧ storedName c label = c.slugNormal c.base
      rw [hbase]
      cases hc : c.labelKey with
      | none => exact ⟨none, by simp [acceptsLabel, hc], by simp [storedName, hc]⟩
      | some key =>
        cases key with
        | iface => exact absurd hc hkey
        | mount =>
          refine ⟨some "/", ?_, by simp [storedName, hc, rootPaths]⟩
          simp [acceptsLabel, hc, isRealMount, rootPaths, maxLabelValueLen]
          rfl
  · obtain ⟨hkey, hstem, hlong⟩ := hclaims.resolve_left heq
    rw [Contract.answer, if_neg heq] at hanswer
    obtain rfl := Option.some.inj hanswer
    change ∃ label, acceptsLabel c label = true ∧ storedName c label = c.slugNormal stored
    rw [Contract.slugNormal, Text.after, if_pos hstem]
    obtain ⟨r, hr, hlen, hslug⟩ :=
      exists_label (String.ofList (stored.toList.drop c.stem.toList.length))
    obtain ⟨haccepts, hname⟩ := accepts_spell hr hlen hkey
    exact ⟨_, haccepts, hname.trans (congrArg (c.stem ++ ·) hslug)⟩

/-- Stored names decode: to their metric, with the label's slug or "/" for the root, and no
name decodes that is not, up to the slug, the name of an accepted label. -/
theorem stored_names_decode :
    (∀ (c : Contract) (label : Option String), acceptsLabel c label = true →
      describeStoredName (storedName c label) = some (c.described (c.shown label))) ∧
    ∀ (stored : String) (found : Described), describeStoredName stored = some found →
      ∃ label, acceptsLabel found.contract label = true ∧
        storedName found.contract label = found.contract.slugNormal stored :=
  ⟨fun _ _ => describe_storedName, fun _ _ => stored_of_describe⟩

end Decoding

/-- A data volume's series decodes, and its stored name is what the decoder knows it by. -/
theorem stored_names_decode_data :
    describeStoredName (storedName .diskUsedPercent (some "/var/lib")) =
        some (Contract.diskUsedPercent.described
          (Contract.diskUsedPercent.shown (some "/var/lib"))) ∧
      ∃ label, acceptsLabel .netRxBytesPerS label = true ∧
        storedName .netRxBytesPerS label =
          Contract.netRxBytesPerS.slugNormal "host_net_rx_bytes_per_s__eth0" :=
  ⟨stored_names_decode.1 .diskUsedPercent _ (by decide +kernel),
    stored_names_decode.2 "host_net_rx_bytes_per_s__eth0"
      (Contract.netRxBytesPerS.described (some "eth0")) (by decide +kernel)⟩

/-- The root mount is shown as "/", which is not its slug. -/
theorem root_shown_bare :
    acceptsLabel .diskUsedPercent (some "/") = true ∧
      describeStoredName (storedName .diskUsedPercent (some "/")) ≠
        some (Contract.diskUsedPercent.described (some (slugify "/"))) := by decide +kernel

end MonitoringHub.Ingest
