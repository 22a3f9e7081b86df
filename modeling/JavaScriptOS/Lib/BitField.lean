import Mathlib.Algebra.Order.Ring.Nat
import Mathlib.Data.Nat.ModEq
import Mathlib.Tactic.Ring

/-!
# Bit-fields of a word

A word is a natural number. A field is given by its lowest bit and its width.
-/

namespace JavaScriptOS.Lib

/-- Bits `lo` to `lo + width - 1` of a word. -/
def bitField (w lo width : Nat) : Nat := w / 2 ^ lo % 2 ^ width

/-- Assignment to a field: the value is cut to the field's width. -/
def setBitField (w lo width v : Nat) : Nat :=
  w / 2 ^ (lo + width) * 2 ^ (lo + width) + v % 2 ^ width * 2 ^ lo + w % 2 ^ lo

variable {w lo width lo' width' v : Nat}

lemma bitField_lt : bitField w lo width < 2 ^ width := Nat.mod_lt _ (Nat.two_pow_pos width)

lemma setBitField_eq : setBitField w lo width v =
    w % 2 ^ lo + (w / 2 ^ (lo + width) * 2 ^ width + v % 2 ^ width) * 2 ^ lo := by
  unfold setBitField
  rw [pow_add]
  ring

lemma setBitField_div_low :
    setBitField w lo width v / 2 ^ lo = w / 2 ^ (lo + width) * 2 ^ width + v % 2 ^ width := by
  rw [setBitField_eq, Nat.add_mul_div_right _ _ (Nat.two_pow_pos lo),
    Nat.div_eq_of_lt (Nat.mod_lt _ (Nat.two_pow_pos lo)), Nat.zero_add]

lemma setBitField_div_high :
    setBitField w lo width v / 2 ^ (lo + width) = w / 2 ^ (lo + width) := by
  rw [pow_add, ← Nat.div_div_eq_div_mul, setBitField_div_low, Nat.mul_comm,
    Nat.mul_add_div (Nat.two_pow_pos width), Nat.div_eq_of_lt (Nat.mod_lt _ (Nat.two_pow_pos width)),
    Nat.add_zero, pow_add]

lemma setBitField_mod_low : setBitField w lo width v % 2 ^ lo = w % 2 ^ lo := by
  rw [setBitField_eq, Nat.add_mul_mod_self_right, Nat.mod_mod]

@[simp] lemma bitField_setBitField :
    bitField (setBitField w lo width v) lo width = v % 2 ^ width := by
  unfold bitField
  rw [setBitField_div_low, Nat.mul_comm, Nat.mul_add_mod, Nat.mod_mod]

lemma bitField_setBitField_above (h : lo + width ≤ lo') :
    bitField (setBitField w lo width v) lo' width' = bitField w lo' width' := by
  obtain ⟨k, rfl⟩ := Nat.exists_eq_add_of_le h
  unfold bitField
  rw [pow_add _ (lo + width) k, ← Nat.div_div_eq_div_mul, ← Nat.div_div_eq_div_mul,
    setBitField_div_high]

/-- A field is determined by the bits up to its highest one. -/
lemma bitField_eq_of_mod {n : Nat} (h : lo + width ≤ n) :
    bitField w lo width = w % 2 ^ n % 2 ^ (lo + width) / 2 ^ lo := by
  unfold bitField
  rw [Nat.mod_mod_of_dvd _ (pow_dvd_pow 2 h), pow_add, Nat.mod_mul_right_div_self]

lemma bitField_setBitField_below (h : lo' + width' ≤ lo) :
    bitField (setBitField w lo width v) lo' width' = bitField w lo' width' := by
  rw [bitField_eq_of_mod h, setBitField_mod_low, ← bitField_eq_of_mod h]

lemma bitField_mod {n : Nat} (h : lo + width ≤ n) : bitField (w % 2 ^ n) lo width = bitField w lo width := by
  rw [bitField_eq_of_mod h, Nat.mod_mod, ← bitField_eq_of_mod h]

section Field

/-- A named field of a register. -/
structure Field where
  lo : Nat
  width : Nat

def Field.get (f : Field) (w : Nat) : Nat := bitField w f.lo f.width

def Field.set (f : Field) (w v : Nat) : Nat := setBitField w f.lo f.width v

variable {f g : Field}

lemma Field.get_set : f.get (f.set w v) = v % 2 ^ f.width := bitField_setBitField

/-- An assignment to one field leaves the others alone. -/
lemma Field.get_set_of_apart (h : f.lo + f.width ≤ g.lo ∨ g.lo + g.width ≤ f.lo) :
    g.get (f.set w v) = g.get w :=
  h.elim bitField_setBitField_above bitField_setBitField_below

lemma Field.get_mod {n : Nat} (h : f.lo + f.width ≤ n) : f.get (w % 2 ^ n) = f.get w := bitField_mod h

lemma Field.get_zero : f.get 0 = 0 := by
  unfold Field.get bitField
  rw [Nat.zero_div, Nat.zero_mod]

end Field

end JavaScriptOS.Lib
