import Mathlib.Data.List.Basic
import Mathlib.Data.Nat.Basic

/-! Texts of 16-bit code units and the characters they stand for. A pair of surrogates is one
character and a surrogate on its own the replacement character, so an ASCII character stands where
its own unit stood. -/

namespace MonitoringHub.Lib.Utf16

def isLead (u : UInt16) : Bool := 0xD800 ≤ u.toNat && u.toNat < 0xDC00
def isTrail (u : UInt16) : Bool := 0xDC00 ≤ u.toNat && u.toNat < 0xE000

def single (u : UInt16) : Char :=
  if isLead u || isTrail u then Char.ofNat 0xFFFD else Char.ofNat u.toNat

def pair (u v : UInt16) : Char :=
  Char.ofNat (0x10000 + (u.toNat - 0xD800) * 0x400 + (v.toNat - 0xDC00))

def scalars : List UInt16 → List Char
  | [] => []
  | [u] => [single u]
  | u :: v :: s =>
    if isLead u && isTrail v then pair u v :: scalars s else single u :: scalars (v :: s)

def units (c : Char) : List UInt16 :=
  if c.toNat < 0x10000 then [UInt16.ofNat c.toNat]
  else [UInt16.ofNat (0xD800 + (c.toNat - 0x10000) / 0x400),
    UInt16.ofNat (0xDC00 + (c.toNat - 0x10000) % 0x400)]

section Ascii
variable {u v : UInt16} {s : List UInt16} {c : Char}

theorem toNat_ofNat {n : ℕ} (h : n.isValidChar) : (Char.ofNat n).toNat = n := by
  rw [Char.ofNat, dif_pos h]
  rfl

section Unfolding
attribute [local simp] isLead isTrail single pair scalars units

theorem single_of_ascii (h : u.toNat < 128) : single u = Char.ofNat u.toNat := by
  have hlead : ¬0xD800 ≤ u.toNat := by omega
  have htrail : ¬0xDC00 ≤ u.toNat := by omega
  simp [hlead, htrail]

end Unfolding

theorem pair_not_ascii (hu : isLead u = true) (hv : isTrail v = true) : ¬(pair u v).toNat < 128 := by
  simp only [isLead, isTrail, Bool.and_eq_true, decide_eq_true_eq] at hu hv
  have hvalid : (0x10000 + (u.toNat - 0xD800) * 0x400 + (v.toNat - 0xDC00)).isValidChar :=
    .inr ⟨by omega, by omega⟩
  rw [pair, toNat_ofNat hvalid]
  omega

theorem eq_of_single (h : (single u).toNat < 128) : UInt16.ofNat (single u).toNat = u := by
  rw [single] at h ⊢
  split at h
  · have hvalid : (0xFFFD).isValidChar := by
      unfold Nat.isValidChar
      omega
    rw [toNat_ofNat hvalid] at h
    omega
  · rename_i hplain
    rw [if_neg hplain]
    simp only [isLead, isTrail, Bool.or_eq_true, Bool.and_eq_true, decide_eq_true_eq] at hplain
    have hbound := u.toNat_lt
    have hvalid : u.toNat.isValidChar := by
      unfold Nat.isValidChar
      omega
    rw [toNat_ofNat hvalid]
    exact UInt16.ofNat_toNat

theorem scalars_cons_of_ascii (h : u.toNat < 128) :
    scalars (u :: s) = Char.ofNat u.toNat :: scalars s := by
  have hlead : isLead u = false := by
    simp only [isLead, Bool.and_eq_false_iff, decide_eq_false_iff_not]
    omega
  cases s with
  | nil => exact congrArg ([·]) (single_of_ascii h)
  | cons v s => rw [scalars, hlead, Bool.false_and, if_neg Bool.false_ne_true, single_of_ascii h]

theorem mem_of_mem_scalars (h : c ∈ scalars s) (hc : c.toNat < 128) :
    UInt16.ofNat c.toNat ∈ s := by
  fun_induction scalars s with
  | case1 => cases h
  | case2 u =>
    obtain rfl := List.mem_singleton.mp h
    exact List.mem_singleton.mpr (eq_of_single hc)
  | case3 u v s hpair ih =>
    rcases List.mem_cons.mp h with heq | h
    · obtain ⟨hu, hv⟩ := Bool.and_eq_true_iff.mp hpair
      exact absurd (heq ▸ hc) (pair_not_ascii hu hv)
    · exact List.mem_cons_of_mem _ (List.mem_cons_of_mem _ (ih h))
  | case4 u v s hsingle ih =>
    rcases List.mem_cons.mp h with heq | h
    · rw [heq, eq_of_single (heq ▸ hc)]
      exact List.mem_cons_self
    · exact List.mem_cons_of_mem _ (ih h)

theorem head_of_head_scalars (h : c ∈ (scalars s).head?) (hc : c.toNat < 128) :
    UInt16.ofNat c.toNat ∈ s.head? := by
  fun_cases scalars s with
  | case1 => cases h
  | case2 u =>
    obtain rfl := Option.some_inj.mp h
    exact congrArg some (eq_of_single hc).symm
  | case3 u v s hpair =>
    rw [scalars, if_pos hpair] at h
    obtain ⟨hu, hv⟩ := Bool.and_eq_true_iff.mp hpair
    exact absurd (Option.some_inj.mp h ▸ hc) (pair_not_ascii hu hv)
  | case4 u v s hsingle =>
    rw [scalars, if_neg hsingle] at h
    obtain rfl := Option.some_inj.mp h
    exact congrArg some (eq_of_single hc).symm

theorem scalars_eq_nil : scalars s = [] ↔ s = [] := by
  fun_cases scalars s <;> simp

theorem getLast_of_getLast_scalars (h : c ∈ (scalars s).getLast?) (hc : c.toNat < 128) :
    UInt16.ofNat c.toNat ∈ s.getLast? := by
  fun_induction scalars s with
  | case1 => cases h
  | case2 u =>
    obtain rfl := Option.some_inj.mp h
    exact congrArg some (eq_of_single hc).symm
  | case3 u v s hpair ih =>
    rw [List.getLast?_cons, Option.mem_some_iff] at h
    cases hlast : (scalars s).getLast? with
    | none =>
      obtain ⟨hu, hv⟩ := Bool.and_eq_true_iff.mp hpair
      rw [hlast, Option.getD_none] at h
      exact absurd (h ▸ hc) (pair_not_ascii hu hv)
    | some d =>
      rw [hlast, Option.getD_some] at h
      have hunit : s.getLast? = some (UInt16.ofNat c.toNat) := ih (h ▸ hlast)
      rw [List.getLast?_cons, List.getLast?_cons, hunit]
      rfl
  | case4 u v s hsingle ih =>
    rw [List.getLast?_cons, Option.mem_some_iff] at h
    cases hlast : (scalars (v :: s)).getLast? with
    | none => exact absurd (scalars_eq_nil.mp (List.getLast?_eq_none_iff.mp hlast)) (by simp)
    | some d =>
      rw [hlast, Option.getD_some] at h
      have hunit : (v :: s).getLast? = some (UInt16.ofNat c.toNat) := ih (h ▸ hlast)
      rw [List.getLast?_cons, hunit]
      rfl

end Ascii

end MonitoringHub.Lib.Utf16
