import Mathlib.Logic.Basic
import Mathlib.Tactic.Common

/-!
# 16-bit words in a byte memory

A memory maps addresses to bytes, read modulo 256. Words are little-endian and may start at any
address.
-/

namespace JavaScriptOS.Lib

def word16 (m : Nat → Nat) (a : Nat) : Nat := m a % 256 + 256 * (m (a + 1) % 256)

def setWord16 (m : Nat → Nat) (a v : Nat) : Nat → Nat :=
  fun x => if x = a then v % 256 else if x = a + 1 then v / 256 % 256 else m x

variable {m m' : Nat → Nat} {a b v x : Nat}

lemma word16_lt : word16 m a < 65536 := by
  unfold word16
  omega

lemma word16_congr (h0 : m a = m' a) (h1 : m (a + 1) = m' (a + 1)) : word16 m a = word16 m' a := by
  unfold word16
  rw [h0, h1]

lemma setWord16_of_ne (h0 : x ≠ a) (h1 : x ≠ a + 1) : setWord16 m a v x = m x := by
  unfold setWord16
  rw [if_neg h0, if_neg h1]

lemma word16_setWord16_self : word16 (setWord16 m a v) a = v % 65536 := by
  have h0 : setWord16 m a v a = v % 256 := if_pos rfl
  have h1 : setWord16 m a v (a + 1) = v / 256 % 256 := by
    unfold setWord16
    rw [if_neg (by omega), if_pos rfl]
  unfold word16
  rw [h0, h1]
  omega

/-- A word is read back whatever is written beside it. -/
lemma word16_setWord16_of_apart (h : a + 2 ≤ b ∨ b + 2 ≤ a) :
    word16 (setWord16 m a v) b = word16 m b := by
  apply word16_congr
  · exact setWord16_of_ne (by omega) (by omega)
  · exact setWord16_of_ne (by omega) (by omega)

/-- Two memories hold the same byte at an address. -/
def SameByte (m m' : Nat → Nat) (x : Nat) : Prop := m x % 256 = m' x % 256

lemma SameByte.word16_eq (h0 : SameByte m m' a) (h1 : SameByte m m' (a + 1)) :
    word16 m a = word16 m' a := by
  unfold SameByte at h0 h1
  unfold word16
  rw [h0, h1]

lemma sameByte_of_word16 (h : word16 m a = word16 m' a) (hx : a ≤ x) (hx' : x < a + 2) :
    SameByte m m' x := by
  unfold word16 at h
  unfold SameByte
  have hcase : x = a ∨ x = a + 1 := by omega
  rcases hcase with rfl | rfl
  · omega
  · omega

/-- The same write keeps what is the same. -/
lemma SameByte.setWord16 (h : SameByte m m' x) : SameByte (setWord16 m a v) (setWord16 m' a v) x := by
  unfold SameByte Lib.setWord16 at *
  by_cases h0 : x = a
  · rw [if_pos h0, if_pos h0]
  · by_cases h1 : x = a + 1
    · rw [if_neg h0, if_neg h0, if_pos h1, if_pos h1]
    · rw [if_neg h0, if_neg h0, if_neg h1, if_neg h1, h]

end JavaScriptOS.Lib
