import MonitoringHub.Lib.Text

/-! Glob patterns: a star matches any text and a question mark any character. Classes and escapes
are left out. -/

namespace MonitoringHub.Lib.Glob

def accepts : List Char → List Char → Bool
  | [], s => s.isEmpty
  | c :: p, s =>
    if c = '*' then s.tails.any (accepts p)
    else
      match s with
      | [] => false
      | d :: s => (c = '?' || c = d) && accepts p s

def globMatch (pattern text : String) : Bool := accepts pattern.toList text.toList

/-- A character that patterns have for itself. -/
def plain (c : Char) : Bool := !(['*', '?', '[', '\\'].contains c)

theorem accepts_any {p s : List Char} : accepts ('*' :: p) s = s.tails.any (accepts p) := by
  cases s <;> simp only [accepts, if_true]

theorem plain_special {c : Char} (hc : plain c = true) : c ≠ '*' ∧ c ≠ '?' := by
  constructor <;> rintro rfl <;> exact absurd hc (by decide)

theorem accepts_plain_nil {c : Char} {p : List Char} (hc : plain c = true) :
    accepts (c :: p) [] = false := by
  simp only [accepts, plain_special hc, if_false]

theorem accepts_plain_cons {c d : Char} {p s : List Char} (hc : plain c = true) :
    accepts (c :: p) (d :: s) = (decide (c = d) && accepts p s) := by
  simp only [accepts, plain_special hc, if_false, decide_false, Bool.false_or]

/-- Plain text and a star match what starts with the text. -/
theorem accepts_star {p s : List Char} (hp : ∀ c ∈ p, plain c = true) :
    accepts (p ++ ['*']) s = decide (p <+: s) := by
  induction p generalizing s with
  | nil =>
    have hrest : s.tails.any (accepts []) = true :=
      List.any_eq_true.mpr ⟨[], (List.mem_tails [] s).mpr List.nil_suffix, rfl⟩
    rw [List.nil_append, accepts_any, hrest]
    exact (decide_eq_true List.nil_prefix).symm
  | cons c p ih =>
    obtain ⟨hc, hp⟩ := List.forall_mem_cons.mp hp
    rw [List.cons_append]
    cases s with
    | nil =>
      rw [accepts_plain_nil hc]
      simp
    | cons d s =>
      rw [accepts_plain_cons hc, ih hp]
      simp [List.cons_prefix_cons]

theorem globMatch_star {stem text : String} (hstem : ∀ c ∈ stem.toList, plain c = true) :
    globMatch (stem ++ "*") text = Text.startsWith text stem := by
  rw [globMatch, String.toList_append]
  exact accepts_star hstem

end MonitoringHub.Lib.Glob
