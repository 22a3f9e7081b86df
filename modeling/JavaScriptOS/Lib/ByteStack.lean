import Mathlib.Algebra.Order.Ring.Nat
import Mathlib.Data.BitVec
import Mathlib.Tactic.Common

/-!
# A byte stack in a 64-bit address space

Words go to memory as little-endian bytes. `Holds m a l` says that the bytes `l` lie from address `a`
upwards, with addresses taken modulo `2 ^ 64`; pushing and popping are two rules about it.
-/

namespace JavaScriptOS.Lib

abbrev Memory := BitVec 64 → BitVec 8

/-- The `k` lowest bytes of a word, least significant first. -/
def bytesOf {w : Nat} : Nat → BitVec w → List (BitVec 8)
  | 0, _ => []
  | k + 1, v => v.setWidth 8 :: bytesOf k (v >>> 8)

def wordOf (w : Nat) : List (BitVec 8) → BitVec w
  | [] => 0
  | b :: l => b.setWidth w ||| wordOf w l <<< 8

@[simp] lemma length_bytesOf {w : Nat} (k : Nat) (v : BitVec w) : (bytesOf k v).length = k := by
  induction k generalizing v with
  | zero => rfl
  | succ k ih => simp [bytesOf, ih]

lemma wordOf_bytesOf {w k : Nat} (v : BitVec w) (hv : v >>> (8 * k) = 0) : wordOf w (bytesOf k v) = v := by
  induction k generalizing v with
  | zero => simpa [bytesOf, wordOf] using hv.symm
  | succ k ih =>
    have hshift : v >>> 8 >>> (8 * k) = 0 := by
      rw [← BitVec.shiftRight_add, show 8 + 8 * k = 8 * (k + 1) by omega]
      exact hv
    rw [bytesOf, wordOf, ih _ hshift]
    ext i hi
    by_cases h8 : i < 8
    · simp [h8, hi]
    · simp [h8, hi, show 8 + (i - 8) = i by omega]

lemma wordOf_bytesOf_eight (v : BitVec 64) : wordOf 64 (bytesOf 8 v) = v :=
  wordOf_bytesOf v (BitVec.ushiftRight_eq_zero (by decide))

/-- The bytes `l` lie at `a`, `a + 1`, and so on. -/
def Holds (m : Memory) (a : BitVec 64) (l : List (BitVec 8)) : Prop :=
  ∀ i (h : i < l.length), m (a + BitVec.ofNat 64 i) = l[i]

def readBytes (m : Memory) (a : BitVec 64) (k : Nat) : List (BitVec 8) :=
  (List.range k).map fun i => m (a + BitVec.ofNat 64 i)

def writeBytes (m : Memory) (a : BitVec 64) (l : List (BitVec 8)) : Memory := fun x =>
  if h : (x - a).toNat < l.length then l[(x - a).toNat] else m x

variable {m m' : Memory} {a : BitVec 64} {l l' : List (BitVec 8)}

lemma Holds.read_append (h : Holds m a (l ++ l')) : readBytes m a l.length = l := by
  apply List.ext_getElem
  · simp [readBytes]
  · intro i h₁ h₂
    have hi := h i (by simp; omega)
    rw [List.getElem_append_left h₂] at hi
    simpa [readBytes] using hi

lemma Holds.drop_append (h : Holds m a (l ++ l')) : Holds m (a + BitVec.ofNat 64 l.length) l' := by
  intro i hi
  have hl := h (l.length + i) (by simp; omega)
  rw [List.getElem_append_right (by omega)] at hl
  rw [BitVec.add_assoc, ← BitVec.ofNat_add, hl]
  simp

lemma Holds.congr (h : Holds m a l) (heq : ∀ i, i < l.length → m' (a + BitVec.ofNat 64 i) = m (a + BitVec.ofNat 64 i)) :
    Holds m' a l := by
  intro i hi
  rw [heq i hi, h i hi]

lemma sub_toNat_ofNat (a : BitVec 64) {i : Nat} (hi : i < 2 ^ 64) : (a + BitVec.ofNat 64 i - a).toNat = i := by
  rw [BitVec.add_comm, BitVec.add_sub_cancel]
  exact Nat.mod_eq_of_lt hi

lemma Holds.append (h : Holds m a l) (h' : Holds m (a + BitVec.ofNat 64 l.length) l') : Holds m a (l ++ l') := by
  intro i hi
  rw [List.length_append] at hi
  by_cases hl : i < l.length
  · rw [List.getElem_append_left hl]
    exact h i hl
  · rw [List.getElem_append_right (by omega), ← h' (i - l.length) (by omega), BitVec.add_assoc, ← BitVec.ofNat_add,
      Nat.add_sub_cancel' (by omega)]

lemma Holds.left_of_append (h : Holds m a (l ++ l')) : Holds m a l := by
  intro i hi
  rw [h i (by simp; omega), List.getElem_append_left hi]

lemma holds_writeBytes (m : Memory) (a : BitVec 64) (hl : l.length ≤ 2 ^ 64) : Holds (writeBytes m a l) a l := by
  intro i hi
  have hidx := sub_toNat_ofNat a (i := i) (by omega)
  rw [writeBytes, dif_pos (by rw [hidx]; exact hi)]
  simp only [hidx]

/-- What is written beside them leaves bytes as they are. -/
lemma holds_writeBytes_iff {i k : Nat} (hl : k + l.length ≤ 2 ^ 64) (hl' : i + l'.length ≤ 2 ^ 64)
    (h : i + l'.length ≤ k ∨ k + l.length ≤ i) :
    Holds (writeBytes m (a + BitVec.ofNat 64 k) l) (a + BitVec.ofNat 64 i) l' ↔ Holds m (a + BitVec.ofNat 64 i) l' := by
  have hkept : ∀ j, j < l'.length → writeBytes m (a + BitVec.ofNat 64 k) l (a + BitVec.ofNat 64 i + BitVec.ofNat 64 j) =
      m (a + BitVec.ofNat 64 i + BitVec.ofNat 64 j) := by
    intro j hj
    have hoffset : a + BitVec.ofNat 64 i + BitVec.ofNat 64 j - (a + BitVec.ofNat 64 k) =
        BitVec.ofNat 64 (i + j) - BitVec.ofNat 64 k := by
      rw [BitVec.add_assoc, ← BitVec.ofNat_add, add_sub_add_left_eq_sub]
    have hfar : l.length ≤ (BitVec.ofNat 64 (i + j) - BitVec.ofNat 64 k).toNat := by
      rw [BitVec.toNat_sub, BitVec.toNat_ofNat, BitVec.toNat_ofNat]
      omega
    rw [writeBytes, dif_neg (by rw [hoffset]; omega)]
  exact ⟨fun hw => hw.congr fun j hj => (hkept j hj).symm, fun hm => hm.congr hkept⟩

/-- Pushing `l` in front of the bytes `l'` at the stack pointer. -/
theorem Holds.push (h : Holds m a l') (hlen : l.length + l'.length ≤ 2 ^ 64) :
    Holds (writeBytes m (a - BitVec.ofNat 64 l.length) l) (a - BitVec.ofNat 64 l.length) (l ++ l') := by
  intro i hi
  rw [List.length_append] at hi
  have hidx := sub_toNat_ofNat (a - BitVec.ofNat 64 l.length) (i := i) (by omega)
  unfold writeBytes
  by_cases hl : i < l.length
  · rw [dif_pos (by rw [hidx]; exact hl), List.getElem_append_left hl]
    simp only [hidx]
  · rw [dif_neg (by rw [hidx]; exact hl), List.getElem_append_right (by omega)]
    have haddr : a - BitVec.ofNat 64 l.length + BitVec.ofNat 64 i = a + BitVec.ofNat 64 (i - l.length) := by
      obtain ⟨j, rfl⟩ := Nat.exists_eq_add_of_le (Nat.le_of_not_lt hl)
      rw [BitVec.ofNat_add, ← BitVec.add_assoc, BitVec.sub_add_cancel, Nat.add_sub_cancel_left]
    rw [haddr]
    exact h _ _

/-- The stack from `base` down to `sp` holds the bytes `l`. -/
structure Stacked (m : Memory) (sp base : BitVec 64) (l : List (BitVec 8)) : Prop where
  sp_eq : sp = base - BitVec.ofNat 64 l.length
  holds : Holds m sp l
  fits : l.length ≤ 2 ^ 64

variable {sp base : BitVec 64}

lemma Stacked.empty (m : Memory) (base : BitVec 64) : Stacked m base base [] where
  sp_eq := by simp
  holds := fun i hi => by simp at hi
  fits := by simp

lemma Stacked.push (h : Stacked m sp base l') (hlen : l.length + l'.length ≤ 2 ^ 64) :
    Stacked (writeBytes m (sp - BitVec.ofNat 64 l.length) l) (sp - BitVec.ofNat 64 l.length) base (l ++ l') where
  sp_eq := by
    rw [h.sp_eq, List.length_append, BitVec.ofNat_add, BitVec.add_comm, sub_sub]
  holds := h.holds.push hlen
  fits := by simpa using hlen

lemma Stacked.pop (h : Stacked m sp base (l ++ l')) :
    readBytes m sp l.length = l ∧ Stacked m (sp + BitVec.ofNat 64 l.length) base l' := by
  refine ⟨h.holds.read_append, ?_, h.holds.drop_append, ?_⟩
  · rw [h.sp_eq, List.length_append, BitVec.ofNat_add, BitVec.add_comm (BitVec.ofNat 64 l.length),
      ← sub_sub, BitVec.sub_add_cancel]
  · have hfits := h.fits
    rw [List.length_append] at hfits
    omega

end JavaScriptOS.Lib
