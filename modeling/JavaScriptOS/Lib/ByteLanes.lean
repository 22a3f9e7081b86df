import Mathlib.Algebra.Order.Ring.Nat
import Mathlib.Data.BitVec
import Mathlib.Tactic.Common

/-!
# Byte lanes of a word

A narrow access to a wide word reads a run of its bytes, or replaces one by masking and shifting.
-/

namespace JavaScriptOS.Lib

variable {m n c : Nat}

/-- Byte `k`, from the least significant. -/
def byteAt (w : BitVec n) (k : Nat) : BitVec 8 := w.extractLsb' (8 * k) 8

/-- `v` in place of the bits of `w` from `lo` upwards. -/
def putBits (w : BitVec n) (lo : Nat) (v : BitVec m) : BitVec n :=
  (w &&& ~~~((BitVec.allOnes m).setWidth n <<< lo)) ||| (v.setWidth n <<< lo)

lemma getLsbD_putBits (w : BitVec n) (v : BitVec m) {lo : Nat} (h : lo + m ≤ n) (i : Nat) :
    (putBits w lo v).getLsbD i = if lo ≤ i ∧ i < lo + m then v.getLsbD (i - lo) else w.getLsbD i := by
  by_cases hi : i < n
  · by_cases hlo : lo ≤ i
    · by_cases hm : i < lo + m
      · simp [putBits, hi, hlo, hm, show ¬i < lo by omega, show i - lo < m by omega]
      · simp [putBits, hi, hlo, hm, show ¬i < lo by omega, show ¬i - lo < m by omega,
          BitVec.getLsbD_of_ge v (i - lo) (by omega)]
    · simp [putBits, hi, hlo, show i < lo by omega]
  · rw [if_neg (by omega), BitVec.getLsbD_of_ge _ _ (by omega), BitVec.getLsbD_of_ge _ _ (by omega)]

lemma byteAt_putBits (w : BitVec n) (v : BitVec (8 * c)) {l : Nat} (h : 8 * l + 8 * c ≤ n) (k : Nat) :
    byteAt (putBits w (8 * l) v) k = if l ≤ k ∧ k < l + c then byteAt v (k - l) else byteAt w k := by
  split
  case isTrue hin =>
    ext i hi
    simp only [byteAt, BitVec.getElem_extractLsb', getLsbD_putBits w v h]
    rw [if_pos (by omega), show 8 * k + i - 8 * l = 8 * (k - l) + i by omega]
  case isFalse hout =>
    ext i hi
    simp only [byteAt, BitVec.getElem_extractLsb', getLsbD_putBits w v h]
    rw [if_neg (by omega)]

/-- What a narrow read returns. -/
lemma byteAt_shifted (w : BitVec n) (l k : Nat) (hk : k < c) :
    byteAt ((w >>> (8 * l)).setWidth (8 * c)) k = byteAt w (l + k) := by
  ext i hi
  simp only [byteAt, BitVec.getElem_extractLsb', BitVec.getLsbD_setWidth, BitVec.getLsbD_ushiftRight]
  rw [show 8 * l + (8 * k + i) = 8 * (l + k) + i by omega]
  simp [show 8 * k + i < 8 * c by omega]

lemma eq_of_byteAt {v w : BitVec (8 * c)} (h : ∀ k, k < c → byteAt v k = byteAt w k) : v = w := by
  ext i hi
  have hbyte := congrArg (BitVec.getLsbD · (i % 8)) (h (i / 8) (by omega))
  simp only [byteAt, BitVec.getLsbD_extractLsb', show i % 8 < 8 by omega, decide_true, Bool.true_and,
    show 8 * (i / 8) + i % 8 = i by omega] at hbyte
  simpa [BitVec.getLsbD_eq_getElem hi] using hbyte

section SingleBit

variable (w : BitVec n) {k : Nat}

lemma getLsbD_or_bit (hk : k < n) (i : Nat) :
    (w ||| 1#n <<< k).getLsbD i = if i = k then true else w.getLsbD i := by
  rw [← BitVec.twoPow_eq, BitVec.getLsbD_or, BitVec.getLsbD_twoPow]
  by_cases hi : i = k
  · simp [hi, hk]
  · simp [hi, Ne.symm hi]

lemma getLsbD_and_not_bit (hk : k < n) (i : Nat) :
    (w &&& ~~~(1#n <<< k)).getLsbD i = if i = k then false else w.getLsbD i := by
  rw [← BitVec.twoPow_eq, BitVec.getLsbD_and, BitVec.getLsbD_not, BitVec.getLsbD_twoPow]
  by_cases hi : i = k
  · simp [hi, hk]
  · have hinside : w.getLsbD i = true → i < n := BitVec.lt_of_getLsbD
    simpa [hi, Ne.symm hi] using hinside

lemma shifted_and_one_ne_zero (hn : 0 < n) : w >>> k &&& 1#n ≠ 0 ↔ w.getLsbD k = true := by
  rw [BitVec.and_one_eq_setWidth_ofBool_getLsbD, BitVec.getLsbD_ushiftRight, Nat.add_zero]
  cases w.getLsbD k with
  | false => simp
  | true => simpa [← BitVec.toNat_inj] using hn.ne'

end SingleBit

section MaskedWrite

variable {mask old value : BitVec n}

/-- `value` written to a word of which only the bits in `mask` are writable. -/
def blend (mask old value : BitVec n) : BitVec n := (value &&& mask) ||| (old &&& ~~~mask)

lemma getLsbD_blend (i : Nat) :
    (blend mask old value).getLsbD i = if mask.getLsbD i then value.getLsbD i else old.getLsbD i := by
  by_cases hi : i < n
  · simp only [blend, BitVec.getLsbD_or, BitVec.getLsbD_and, BitVec.getLsbD_not, hi, decide_true, Bool.true_and]
    cases mask.getLsbD i <;> simp
  · rw [BitVec.getLsbD_of_ge _ i (by omega), BitVec.getLsbD_of_ge _ i (by omega), BitVec.getLsbD_of_ge _ i (by omega),
      BitVec.getLsbD_of_ge _ i (by omega)]
    rfl

@[simp] lemma blend_self : blend mask old old = old := by
  apply BitVec.eq_of_getLsbD_eq
  intro i _
  rw [getLsbD_blend, ite_self]

@[simp] lemma blend_blend (value' : BitVec n) : blend mask (blend mask old value) value' = blend mask old value' := by
  apply BitVec.eq_of_getLsbD_eq
  intro i _
  rw [getLsbD_blend, getLsbD_blend, getLsbD_blend]
  cases mask.getLsbD i <;> rfl

/-- Writing all ones changes nothing exactly if every writable bit is set. -/
lemma blend_allOnes_eq_iff : blend mask old (BitVec.allOnes n) = old ↔ mask &&& ~~~old = 0 := by
  rw [BitVec.eq_of_getLsbD_eq_iff, BitVec.eq_of_getLsbD_eq_iff]
  refine forall_congr' fun i => forall_congr' fun hi => ?_
  rw [getLsbD_blend, BitVec.getLsbD_and, BitVec.getLsbD_not]
  cases mask.getLsbD i <;> cases old.getLsbD i <;> simp [hi]

end MaskedWrite

end JavaScriptOS.Lib
