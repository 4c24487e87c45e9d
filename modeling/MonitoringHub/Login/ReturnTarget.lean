import Mathlib.Data.Option.Basic
import MonitoringHub.Lib.UrlPath
import MonitoringHub.Lib.Utf16

/-! Where the sign-in page sends the person afterwards. A target has to be a path of the app and not
the sign-in page again. The filter reads the text as it stands, the browser walks its segments and
knows the escapes of a letter. -/

namespace MonitoringHub.Login
open Lib UrlPath Utf16

abbrev JsString := List UInt16

def js (s : String) : JsString := s.toList.flatMap units

def fallbackAfterLogin : JsString := js "/overview"

/-- The white space and line ends of `trim`. -/
def isSpace (u : UInt16) : Bool :=
  (9 ≤ u.toNat && u.toNat ≤ 13) || (0x2000 ≤ u.toNat && u.toNat ≤ 0x200A) ||
    [0x20, 0xA0, 0x1680, 0x2028, 0x2029, 0x202F, 0x205F, 0x3000, 0xFEFF].contains u.toNat

/-- Control characters and backslashes. -/
def bad (u : UInt16) : Bool := u.toNat ≤ 0x1F || u.toNat = 0x7F || u.toNat = 0x5C

/-! ### `decodeURIComponent` -/

/-- A code unit as it is, or the octet of an escape. -/
inductive Token
  | unit (u : UInt16)
  | octet (b : UInt8)

def tokens : JsString → Option (List Token)
  | [] => some []
  | u :: s =>
    if u.toNat = 0x25 then
      match s with
      | a :: b :: s => do
        let n ← escaped (single a) (single b)
        return .octet (UInt8.ofNat n) :: (← tokens s)
      | _ => none
    else do
      return .unit u :: (← tokens s)

/-- The octets of a character, told by the first of them. -/
def octetCount (b : UInt8) : ℕ :=
  if b.toNat < 0x80 then 1
  else if b.toNat < 0xC0 then 0
  else if b.toNat < 0xE0 then 2
  else if b.toNat < 0xF0 then 3
  else if b.toNat < 0xF8 then 4
  else 0

def codePoint : List UInt8 → ℕ
  | [] => 0
  | [b] => b.toNat
  | b :: bs => bs.foldl (fun n b => n * 64 + b.toNat % 64) (b.toNat % (64 >>> bs.length))

/-- Only the octets that UTF-8 has for a character. -/
def utf8Char (octets : List UInt8) : Option Char :=
  let c := Char.ofNat (codePoint octets)
  if String.utf8EncodeChar c = octets then some c else none

def assemble (pending : List UInt8) : List Token → Option JsString
  | [] => if pending = [] then some [] else none
  | .unit u :: ts => if pending = [] then do return u :: (← assemble [] ts) else none
  | .octet b :: ts =>
    let octets := pending ++ [b]
    if octets.length < octetCount (octets.headD 0) then assemble octets ts
    else do
      let c ← utf8Char octets
      return units c ++ (← assemble [] ts)

/-- No value where the source throws. -/
def decodeURIComponent (s : JsString) : Option JsString := (tokens s).bind (assemble [])

example : decodeURIComponent (js "/%E2%82%ac?%25") = some (js "/€?%") := by decide +kernel

example : decodeURIComponent (js "/%C0%AF") = none := by decide +kernel

/-! ### The filter -/

/-- `/^\/+[a-z][a-z0-9+.-]*:/i` -/
def namesScheme (s : JsString) : Bool :=
  s.head? = some 0x2F && hasScheme ((s.dropWhile fun u => u = 0x2F).map single)

/-- `s.split(/[?#]/)[0]` -/
def pathOf (s : JsString) : JsString := s.takeWhile fun u => u ≠ 0x3F && u ≠ 0x23

def SignInPath (path : JsString) : Prop :=
  path = js "/login" ∨ js "/login/" <+: path ∨ path = js "/logout"

instance : DecidablePred SignInPath := fun path =>
  inferInstanceAs (Decidable (path = js "/login" ∨ js "/login/" <+: path ∨ path = js "/logout"))

def sanitizeNext (raw : JsString) : Option JsString := do
  let s := trim isSpace raw
  guard (s ≠ [] ∧ s.length ≤ 2000)
  guard (s.any bad = false)
  let decoded ← decodeURIComponent s
  guard (decoded.any bad = false)
  guard (js "/" <+: s ∧ ¬js "//" <+: s ∧ ¬js "//" <+: decoded)
  guard (namesScheme decoded = false)
  guard ¬SignInPath (pathOf s)
  return s

/-- The target of the sign-in page: the `next` of its address, the page that sent the person here,
or the overview. -/
def returnTarget (next fromPage : Option JsString) : JsString :=
  ((next.bind sanitizeNext).or (fromPage.bind sanitizeNext)).getD fallbackAfterLogin

/-! ### The target in the browser -/

/-- The sign-in page, a path below it, or the sign-out. -/
def LeadsBack (path : List Segment) : Prop :=
  (path.map decodeUnreserved).head? = some "login".toList ∨
    path.map decodeUnreserved = ["logout".toList]

/-- From a page with the path `base`: another page of the app. -/
def InApp (base : List Segment) (s : JsString) : Prop :=
  ∃ path, resolve base (scalars s) = .within path ∧ ¬LeadsBack path

/-- What the filter asks of a text besides the sign-in paths. -/
structure Passes (s : JsString) : Prop where
  nonempty : s ≠ []
  short : s.length ≤ 2000
  clean : s.any bad = false
  rooted : js "/" <+: s ∧ ¬js "//" <+: s
  decodes : ∃ decoded, decodeURIComponent s = some decoded ∧ decoded.any bad = false ∧
    ¬js "//" <+: decoded ∧ namesScheme decoded = false

section Filter
variable {raw s : JsString}

theorem sanitizeNext_eq_some : sanitizeNext raw = some s ↔
    trim isSpace raw = s ∧ Passes s ∧ ¬SignInPath (pathOf s) := by
  simp only [sanitizeNext, Option.bind_eq_bind, Option.guard_eq_some', Option.bind_eq_some_iff,
    Option.pure_def, Option.some_inj]
  constructor
  · rintro ⟨-, ⟨hne, hshort⟩, -, hclean, decoded, hdecoded, -, hbad, -, ⟨hroot, hhost, hdhost⟩, -,
      hscheme, -, hpath, rfl⟩
    exact ⟨rfl, ⟨hne, hshort, hclean, ⟨hroot, hhost⟩, decoded, hdecoded, hbad, hdhost, hscheme⟩,
      hpath⟩
  · rintro ⟨rfl, ⟨hne, hshort, hclean, ⟨hroot, hhost⟩, decoded, hdecoded, hbad, hdhost, hscheme⟩,
      hpath⟩
    exact ⟨(), ⟨hne, hshort⟩, (), hclean, decoded, hdecoded, (), hbad, (),
      ⟨hroot, hhost, hdhost⟩, (), hscheme, (), hpath, rfl⟩

theorem exists_of_rooted (h : js "/" <+: s) : ∃ t, s = 0x2F :: t := by
  obtain ⟨t, rfl⟩ := h
  exact ⟨t, rfl⟩

/-- The path of a text that passes is walked from the root. -/
theorem resolve_of_passes (base : List Segment) (h : Passes (trim isSpace raw)) :
    resolve base (scalars (trim isSpace raw)) =
      .within (walk [] (segments (scalars (trim isSpace raw)).tail)) := by
  obtain ⟨t, ht⟩ := exists_of_rooted h.rooted.1
  have hscalars : scalars (trim isSpace raw) = '/' :: scalars t := by
    rw [ht, scalars_cons_of_ascii (by decide)]
    rfl
  have hclean : ∀ u ∈ trim isSpace raw, bad u = false := fun u hu =>
    Bool.eq_false_iff.mpr (List.any_eq_false.mp h.clean u hu)
  have hunit : ∀ c ∈ '/' :: scalars t, c.toNat < 128 → bad (UInt16.ofNat c.toNat) = false :=
    fun c hc hlt => hclean _ (mem_of_mem_scalars (hscalars ▸ hc) hlt)
  rw [hscalars, List.tail_cons]
  refine resolve_of_rooted (fun c hc => ?_) (fun c hc => ?_) ?_
  · by_contra hlt
    have hbad := hunit c hc (by omega)
    have hnat : (UInt16.ofNat c.toNat).toNat = c.toNat :=
      Nat.mod_eq_of_lt (by omega : c.toNat < 65536)
    simp only [bad, hnat, Bool.or_eq_false_iff, decide_eq_false_iff_not] at hbad
    omega
  · rintro rfl
    have hlast := getLast_of_getLast_scalars (hscalars ▸ hc) (by decide)
    exact absurd (trim_last isSpace raw _ hlast) (by decide)
  · cases hhead : (scalars t).head? with
    | none => rfl
    | some c =>
      refine Bool.eq_false_iff.mpr fun hslash => ?_
      simp only [Option.any_some, slash, Bool.or_eq_true, decide_eq_true_eq] at hslash
      rcases hslash with rfl | rfl
      · obtain ⟨rest, rfl⟩ : ∃ rest, t = 0x2F :: rest := by
          cases t with
          | nil => cases hhead
          | cons u rest =>
            have hu := head_of_head_scalars hhead (by decide)
            exact ⟨rest, by rw [Option.some_inj.mp hu]; rfl⟩
        exact h.rooted.2 (ht ▸ ⟨rest, rfl⟩)
      · exact absurd (hunit '\\' (List.mem_cons_of_mem _ (List.mem_of_head? hhead)) (by decide))
          (by decide)

theorem leadsBack_iff (ss : List Segment) : LeadsBack (walk [] ss) ↔
    ∃ before s after, ss = before ++ s :: after ∧
      (Stands "login".toList before s after ∨ after = [] ∧ Stands "logout".toList before s after) := by
  have hlogin : ∀ c ∈ "login".toList, PercentQuote.unreserved c = true :=
    List.all_eq_true.mp (by decide +kernel)
  have hlogout : ∀ c ∈ "logout".toList, PercentQuote.unreserved c = true :=
    List.all_eq_true.mp (by decide +kernel)
  rw [LeadsBack, head_walk_iff hlogin (by decide) (by decide) (by decide),
    walk_eq_singleton_iff hlogout (by decide) (by decide) (by decide)]
  constructor
  · rintro (⟨before, s, after, rfl, hstands⟩ | ⟨before, s, rfl, hstands⟩)
    · exact ⟨before, s, after, rfl, .inl hstands⟩
    · exact ⟨before, s, [], rfl, .inr ⟨rfl, hstands⟩⟩
  · rintro ⟨before, s, after, rfl, hstands | ⟨rfl, hstands⟩⟩
    · exact .inl ⟨before, s, after, rfl, hstands⟩
    · exact .inr ⟨before, s, rfl, hstands⟩

/-- A text that passes and does not begin with a sign-in path as it is written, but has a segment
that stands first in the walked path and spells it: a letter of it is escaped, or what is before it
is taken back. -/
structure Disguised (raw : JsString) : Prop where
  passes : Passes (trim isSpace raw)
  unwritten : ¬SignInPath (pathOf (trim isSpace raw))
  stands : ∃ before s after, segments (scalars (trim isSpace raw)).tail = before ++ s :: after ∧
    (Stands "login".toList before s after ∨ after = [] ∧ Stands "logout".toList before s after)

theorem resolve_sanitizeNext (base : List Segment) (h : sanitizeNext raw = some s) :
    resolve base (scalars s) = .within (walk [] (segments (scalars s).tail)) := by
  obtain ⟨rfl, hpasses, -⟩ := sanitizeNext_eq_some.mp h
  exact resolve_of_passes base hpasses

/-- The target is never another site, and the sign-in page only in disguise. -/
theorem sanitizeNext_inApp_iff (base : List Segment) (raw : JsString) :
    (∀ s, sanitizeNext raw = some s → InApp base s) ↔ ¬Disguised raw := by
  constructor
  · intro hall hdisguised
    have hsome := sanitizeNext_eq_some.mpr ⟨rfl, hdisguised.passes, hdisguised.unwritten⟩
    obtain ⟨path, hpath, haway⟩ := hall _ hsome
    rw [resolve_sanitizeNext base hsome] at hpath
    cases hpath
    exact haway ((leadsBack_iff _).mpr hdisguised.stands)
  · intro hplain s hsome
    refine ⟨_, resolve_sanitizeNext base hsome, fun hback => hplain ?_⟩
    obtain ⟨rfl, hpasses, hunwritten⟩ := sanitizeNext_eq_some.mp hsome
    exact ⟨hpasses, hunwritten, (leadsBack_iff _).mp hback⟩

/-- An escaped letter. -/
theorem escapedLogin_leadsBack : ¬∀ (base : List Segment) (raw s : JsString),
    sanitizeNext raw = some s → InApp base s := by
  intro h
  have hsome : sanitizeNext (js "/%6cogin") = some (js "/%6cogin") := by decide +kernel
  obtain ⟨path, hpath, haway⟩ := h [] _ _ hsome
  rw [resolve_sanitizeNext [] hsome] at hpath
  cases hpath
  refine haway ?_
  unfold LeadsBack
  decide +kernel

/-- Wherever the page is and whatever it is given, the person stays on the site. -/
theorem returnTarget_within (base : List Segment) (next fromPage : Option JsString) :
    ∃ path, resolve base (scalars (returnTarget next fromPage)) = .within path := by
  have hfilter : ∀ target : Option JsString, ∀ s ∈ target.bind sanitizeNext,
      ∃ path, resolve base (scalars s) = .within path := by
    intro target s hs
    obtain ⟨raw, -, hsome⟩ := Option.bind_eq_some_iff.mp hs
    exact ⟨_, resolve_sanitizeNext base hsome⟩
  unfold returnTarget
  cases hnext : next.bind sanitizeNext with
  | some s => exact hfilter next s hnext
  | none =>
    cases hfrom : fromPage.bind sanitizeNext with
    | some s => exact hfilter fromPage s hfrom
    | none =>
      have hfallback : sanitizeNext fallbackAfterLogin = some fallbackAfterLogin := by
        decide +kernel
      exact ⟨_, resolve_sanitizeNext base hfallback⟩

end Filter

end MonitoringHub.Login
