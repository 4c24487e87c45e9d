import Mathlib.Data.List.Basic
import Mathlib.Data.Nat.Basic

/-! Percent encoding with nothing kept but the unreserved characters. What is encoded has no other
characters than these, `%` and hexadecimal digits, whatever the text. -/

namespace MonitoringHub.Lib.PercentQuote

def unreserved (c : Char) : Bool :=
  c.isAlphanum || c == '_' || c == '.' || c == '-' || c == '~'

def hexDigit (n : ℕ) : Char := if n < 10 then Char.ofNat (48 + n) else Char.ofNat (55 + n)

def quoteByte (b : UInt8) : List Char := ['%', hexDigit (b.toNat / 16), hexDigit (b.toNat % 16)]

def quoteChar (c : Char) : List Char :=
  if unreserved c then [c] else (String.utf8EncodeChar c).flatMap quoteByte

def quote (s : List Char) : List Char := s.flatMap quoteChar

def quoted (c : Char) : Bool := unreserved c || c == '%'

theorem quoted_hexDigit : ∀ n < 16, quoted (hexDigit n) = true := by decide

theorem quoted_of_mem_quoteByte {b : UInt8} {c : Char} (h : c ∈ quoteByte b) :
    quoted c = true := by
  have hb : b.toNat < 256 := b.toNat_lt_size
  rcases List.mem_cons.mp h with rfl | h
  · decide
  rcases List.mem_cons.mp h with rfl | h
  · exact quoted_hexDigit _ (by omega)
  · obtain rfl := List.mem_singleton.mp h
    exact quoted_hexDigit _ (by omega)

theorem quoted_of_mem_quote {s : List Char} {c : Char} (h : c ∈ quote s) : quoted c = true := by
  obtain ⟨a, -, h⟩ := List.mem_flatMap.mp h
  rw [quoteChar] at h
  split at h
  · rename_i hkept
    obtain rfl := List.mem_singleton.mp h
    rw [quoted, hkept, Bool.true_or]
  · obtain ⟨b, -, h⟩ := List.mem_flatMap.mp h
    exact quoted_of_mem_quoteByte h

end MonitoringHub.Lib.PercentQuote
