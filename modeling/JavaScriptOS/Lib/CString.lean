import Mathlib.Algebra.Order.Ring.Nat
import Mathlib.Data.BitVec
import Mathlib.Tactic.Common

/-!
# NUL-terminated strings in memory

A string lies somewhere in a 64-bit address space, away from null. Its characters and its NUL are the only
bytes that may be read.
-/

namespace JavaScriptOS.Lib

structure CString where
  base : BitVec 64
  chars : List (BitVec 8)
  base_ne : base ≠ 0
  noNul : 0 ∉ chars
  fits : base.toNat + chars.length < 2 ^ 64

namespace CString

variable {p : CString} {i : Nat}

def bytes (p : CString) : List (BitVec 8) := p.chars ++ [0]

def addr (p : CString) (i : Nat) : BitVec 64 := p.base + BitVec.ofNat 64 i

/-- The byte at an address inside the string. -/
def read? (p : CString) (a : BitVec 64) : Option (BitVec 8) := p.bytes[(a - p.base).toNat]?

lemma read?_addr (hi : i ≤ p.chars.length) : p.read? (p.addr i) = p.bytes[i]? := by
  have hfits := p.fits
  have hoffset : (p.addr i - p.base).toNat = i := by
    rw [addr, BitVec.add_comm, BitVec.add_sub_cancel, BitVec.toNat_ofNat]
    exact Nat.mod_eq_of_lt (by omega)
  rw [read?, hoffset]

/-- A byte of the string is a character, with more of the string behind it, or the final NUL. -/
lemma read?_cases (hi : i ≤ p.chars.length) :
    ∃ c, p.read? (p.addr i) = some c ∧ (c ≠ 0 → i < p.chars.length) := by
  rw [read?_addr hi, bytes]
  rcases Nat.lt_or_eq_of_le hi with hlt | rfl
  · exact ⟨p.chars[i], by rw [List.getElem?_append_left hlt, List.getElem?_eq_getElem hlt], fun _ => hlt⟩
  · refine ⟨0, by simp, fun hc => absurd rfl hc⟩

lemma read?_null (p : CString) : p.read? 0 = none := by
  have hfits := p.fits
  have hbase : 0 < p.base.toNat := by
    apply Nat.pos_of_ne_zero
    intro hzero
    exact p.base_ne (BitVec.eq_of_toNat_eq hzero)
  have hoffset : (0 - p.base).toNat = 2 ^ 64 - p.base.toNat := by
    rw [BitVec.toNat_sub]
    exact Nat.mod_eq_of_lt (by change 2 ^ 64 - p.base.toNat + 0 < 2 ^ 64; omega)
  rw [read?, hoffset]
  apply List.getElem?_eq_none
  simp only [bytes, List.length_append, List.length_singleton]
  omega

lemma addr_ne_zero (hi : i ≤ p.chars.length) : p.addr i ≠ 0 := by
  intro hzero
  obtain ⟨c, hc, -⟩ := read?_cases hi
  rw [hzero, p.read?_null] at hc
  cases hc

lemma addr_succ (p : CString) (i : Nat) : p.addr i + 1 = p.addr (i + 1) := by
  rw [addr, addr, BitVec.ofNat_add, ← BitVec.add_assoc]
  rfl

lemma addr_add (p : CString) (i k : Nat) : p.addr i + BitVec.ofNat 64 k = p.addr (i + k) := by
  rw [addr, addr, BitVec.ofNat_add, ← BitVec.add_assoc]

end CString

end JavaScriptOS.Lib
