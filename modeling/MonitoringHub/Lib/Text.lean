import Mathlib.Data.List.Infix

/-! ASCII text operations by their lists of characters, so that they compute in
the kernel: case folding, trimming, and the substring tests. -/

namespace MonitoringHub.Lib.Text

def lower (s : String) : String := String.ofList (s.toList.map Char.toLower)

def upper (s : String) : String := String.ofList (s.toList.map Char.toUpper)

def strip (s : String) : String :=
  String.ofList ((s.toList.dropWhile Char.isWhitespace).reverse.dropWhile Char.isWhitespace).reverse

def startsWith (s stem : String) : Bool := decide (stem.toList <+: s.toList)

def contains (s part : String) : Bool := decide (part.toList <:+: s.toList)

def split (sep : Char) (s : String) : List String := (s.toList.splitOn sep).map String.ofList

/-- `s.split(sep, n)` on the characters: at most `n` cuts. -/
def splitAtMost (sep : Char) : ℕ → List Char → List (List Char)
  | 0, cs => [cs]
  | n + 1, cs =>
    match cs.dropWhile (· ≠ sep) with
    | [] => [cs]
    | _ :: rest => cs.takeWhile (· ≠ sep) :: splitAtMost sep n rest

/-- What follows a stem, if the text begins with it. -/
def after (stem s : String) : Option String :=
  if startsWith s stem then some (String.ofList (s.toList.drop stem.toList.length)) else none

/-- The text without a tail, if it ends in it. -/
def withoutTail (tail s : String) : String :=
  if tail.toList <:+ s.toList then
    String.ofList (s.toList.take (s.toList.length - tail.toList.length))
  else s

theorem isAlphanum_eq (c : Char) : c.isAlphanum = (c.isUpper || c.isLower || c.isDigit) := rfl

theorem isUpper_eq (c : Char) : c.isUpper = decide (c.val ≥ 'A'.val ∧ c.val ≤ 'Z'.val) := rfl

theorem isLower_eq (c : Char) :
    c.isLower = (decide (c.val ≥ 'a'.val) && decide (c.val ≤ 'z'.val)) := rfl

theorem ascii_of_isAlphanum {c : Char} (h : c.isAlphanum = true) :
    ∃ i : Fin 128, c = Char.ofNat i := by
  have hlt : c.toNat < 128 := by
    simp only [isAlphanum_eq, isUpper_eq, isLower_eq, Char.isDigit,
      Bool.or_eq_true, Bool.and_eq_true, decide_eq_true_eq, ge_iff_le, UInt32.le_iff_toNat_le] at h
    have hZ : 'Z'.val.toNat = 90 := rfl
    have hz : 'z'.val.toNat = 122 := rfl
    have h9 : '9'.val.toNat = 57 := rfl
    have hval : c.toNat = c.val.toNat := rfl
    omega
  exact ⟨⟨c.toNat, hlt⟩, (Char.ofNat_toNat c).symm⟩

theorem toLower_of_isAlphanum {c : Char} (h : c.isAlphanum = true) :
    c.toLower.isAlphanum = true ∧ c.toLower.toLower = c.toLower := by
  obtain ⟨i, rfl⟩ := ascii_of_isAlphanum h
  have hall : ∀ i : Fin 128, (Char.ofNat i).isAlphanum = true →
      (Char.ofNat i).toLower.isAlphanum = true ∧
        (Char.ofNat i).toLower.toLower = (Char.ofNat i).toLower := by decide +kernel
  exact hall i h

theorem toLower_of_not_isAlphanum {c : Char} (h : c.isAlphanum = false) : c.toLower = c := by
  refine dif_neg fun hup => ?_
  have hupper : c.isUpper = true := decide_eq_true hup
  rw [isAlphanum_eq, hupper] at h
  cases h

theorem toLower_of_isWhitespace {c : Char} (h : c.isWhitespace = true) : c.toLower = c := by
  simp only [Char.isWhitespace, Bool.or_eq_true, decide_eq_true_eq] at h
  rcases h with ((rfl | rfl) | rfl) | rfl <;> rfl

/-- A text whose lower-case form has no blanks has none to strip. -/
theorem strip_of_lower {s : String} (h : ∀ c ∈ (lower s).toList, c.isWhitespace = false) :
    strip s = s := by
  have hkept : ∀ l : List Char, (∀ c ∈ l, c ∈ s.toList) → l.dropWhile Char.isWhitespace = l := by
    intro l hl
    cases l with
    | nil => rfl
    | cons c l =>
      refine List.dropWhile_cons_of_neg fun hblank => ?_
      have hlow : c ∈ (lower s).toList := by
        rw [lower, String.toList_ofList]
        exact List.mem_map.mpr ⟨c, hl c List.mem_cons_self, toLower_of_isWhitespace hblank⟩
      rw [h c hlow] at hblank
      cases hblank
  rw [strip, hkept _ fun c hc => hc, hkept _ fun c hc => List.mem_reverse.mp hc,
    List.reverse_reverse, String.ofList_toList]

end MonitoringHub.Lib.Text
