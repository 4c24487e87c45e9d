import MonitoringHub.Alerts.EnvPolling

/-! The two environments and the whole-word vocabulary that names them. A label is lowered,
stripped of everything that is no letter or digit and of its trailing digits, and looked up;
what the vocabulary does not know is production. -/

namespace MonitoringHub.Environments
open Alerts

/-- The characters `str.isspace` accepts. -/
def spaces : List Char :=
  ['\t', '\n', '\u000b', '\u000c', '\r', '\u001c', '\u001d', '\u001e', '\u001f', ' ', '\u0085',
    '\u00a0', '\u1680', '\u2000', '\u2001', '\u2002', '\u2003', '\u2004', '\u2005', '\u2006',
    '\u2007', '\u2008', '\u2009', '\u200a', '\u2028', '\u2029', '\u202f', '\u205f', '\u3000']

def isSpace (c : Char) : Bool := spaces.contains c

def strip (s : List Char) : List Char :=
  ((s.dropWhile isSpace).reverse.dropWhile isSpace).reverse

/-- `str.lower` of one character. Outside ASCII only these two have an ASCII letter in their
lower case; the others keep none, so what they become is left open here. -/
def lowerChar (c : Char) : List Char :=
  if c = '\u0130' then ['i', '\u0307'] else if c = '\u212a' then ['k'] else [c.toLower]

def lowerAlnum (c : Char) : Bool := c.isLower || c.isDigit

def dropTrailingDigits (s : List Char) : List Char := (s.reverse.dropWhile Char.isDigit).reverse

def prodWords : List (List Char) := ["prod", "production", "prd"].map String.toList

def nonprodWords : List (List Char) :=
  ["dev", "development", "test", "testing", "sit", "uat", "qa", "qas", "stage", "staging", "stg",
    "preprod", "preproduction", "nonprod", "nonproduction", "nonprd", "sandbox"].map String.toList

def wordTier (word : List Char) : Option Tier :=
  if prodWords.contains word then some .prod
  else if nonprodWords.contains word then some .nonprod
  else none

def fold (value : String) : List Char :=
  dropTrailingDigits (((strip value.toList).flatMap lowerChar).filter lowerAlnum)

def recognizedTier (value : Option String) : Option Tier := value.bind fun v => wordTier (fold v)

theorem recognizedTier_some (value : String) :
    recognizedTier (some value) = wordTier (fold value) := by
  rw [recognizedTier, Option.bind_some]

/-- The fail-safe reading: whatever is not recognised is production. -/
def toTier (value : Option String) : Tier := (recognizedTier value).getD .prod

/-- The ASCII letter or digit that folding keeps of a character. -/
def letter (c : Char) : Option Char :=
  if c = '\u0130' then some 'i' else if c = '\u212a' then some 'k'
  else if lowerAlnum c.toLower then some c.toLower else none

theorem filter_lowerChar (s : List Char) :
    (s.flatMap lowerChar).filter lowerAlnum = s.filterMap letter := by
  induction s with
  | nil => rfl
  | cons c s ih =>
    rw [List.flatMap_cons, List.filter_append, ih, List.filterMap_cons]
    unfold lowerChar letter
    by_cases h : c = '\u0130'
    · simp [h, lowerAlnum]
    · by_cases h' : c = '\u212a'
      · simp [h', lowerAlnum]
      · by_cases h'' : lowerAlnum c.toLower = true <;> simp [h, h', h'']

theorem letter_space {c : Char} (h : isSpace c = true) : letter c = none := by
  have hall : spaces.all (fun c => (letter c).isNone) = true := by decide
  exact Option.isNone_iff_eq_none.mp (List.all_eq_true.mp hall c (List.contains_iff_mem.mp h))

theorem filterMap_dropWhile_space (s : List Char) :
    (s.dropWhile isSpace).filterMap letter = s.filterMap letter := by
  induction s with
  | nil => rfl
  | cons c s ih =>
    by_cases hc : isSpace c = true
    · rw [List.dropWhile_cons_of_pos hc, ih, List.filterMap_cons, letter_space hc]
    · rw [List.dropWhile_cons_of_neg hc]

theorem fold_eq (value : String) :
    fold value = dropTrailingDigits (value.toList.filterMap letter) := by
  rw [fold, filter_lowerChar, strip, List.filterMap_reverse, filterMap_dropWhile_space,
    List.filterMap_reverse, List.reverse_reverse, filterMap_dropWhile_space]

end MonitoringHub.Environments
