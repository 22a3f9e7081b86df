import JavaScriptOS.Lib.Numeral
import JavaScriptOS.Lib.Window
import JavaScriptOS.Libc.Stdio

/-!
# Numbers in a base

For the bases that `digits` has characters for, `sprintbase` writes the numeral of its number and a NUL, and
changes nothing else. The digits come out least significant first and are then reversed in place.
-/

namespace JavaScriptOS.Libc
open JavaScriptOS.Lib

def digitChar (k : Nat) : BitVec 8 := ascii k.digitChar

variable {m : Buf} {base : BitVec 8} {number : BitVec 64} {buf : Nat}

lemma getElem?_digits : ∀ k < 16, digits[k]? = some (digitChar k) := by decide

/-- The value of a digit. -/
def digitValue (c : BitVec 8) : Nat :=
  if c ≤ ascii '9' then c.toNat - (ascii '0').toNat else c.toNat - (ascii 'a').toNat + 10

lemma digitValue_digitChar : ∀ k < 16, digitValue (digitChar k) = k := by decide

lemma emitDigits_zero (base : BitVec 8) (rounds : Nat) (m : Buf) (buf len : Nat) :
    emitDigits base rounds m buf len 0 = .ok (m, buf, len) := by
  cases rounds with
  | zero => rfl
  | succ rounds => rw [emitDigits, if_pos rfl]

/-- One round for each digit of the number. -/
lemma emitDigits_eq (hlo : 2 ≤ base.toNat) (hhi : base.toNat ≤ 16) (rounds : Nat) (m : Buf) (buf len : Nat)
    (h : number.toNat < 2 ^ rounds) :
    emitDigits base rounds m buf len number =
      .ok (overwrite m buf ((Nat.digits base.toNat number.toNat).map digitChar),
        buf + (Nat.digits base.toNat number.toNat).length, len + (Nat.digits base.toNat number.toNat).length) := by
  induction rounds generalizing m buf len number with
  | zero =>
    have hzero : number = 0 := BitVec.eq_of_toNat_eq (Nat.lt_one_iff.mp h)
    subst hzero
    rw [emitDigits_zero]
    simp [overwrite_nil]
  | succ rounds ih =>
    by_cases hzero : number = 0
    · subst hzero
      rw [emitDigits_zero]
      simp [overwrite_nil]
    have hbase : base ≠ 0 := by
      rintro rfl
      exact absurd hlo (by decide)
    have hwidth : (base.setWidth 64).toNat = base.toNat := BitVec.toNat_setWidth_of_le (by decide)
    have hdigit : (number % base.setWidth 64).toNat = number.toNat % base.toNat := by rw [BitVec.toNat_umod, hwidth]
    have hquot : (number / base.setWidth 64).toNat = number.toNat / base.toNat := by rw [BitVec.toNat_udiv, hwidth]
    have hlt : number.toNat % base.toNat < 16 := (Nat.mod_lt _ (by omega)).trans_le hhi
    have hrest : (number / base.setWidth 64).toNat < 2 ^ rounds := by
      rw [hquot]
      apply Nat.div_lt_of_lt_mul
      calc number.toNat < 2 * 2 ^ rounds := by rwa [pow_succ'] at h
        _ ≤ base.toNat * 2 ^ rounds := Nat.mul_le_mul_right _ hlo
    have hpos : 0 < number.toNat := Nat.pos_of_ne_zero fun h0 => hzero (BitVec.eq_of_toNat_eq h0)
    rw [emitDigits, if_neg hzero, if_neg hbase, hdigit, getElem?_digits _ hlt]
    simp only []
    rw [ih _ _ _ hrest, hquot, Nat.digits_def' (by omega) hpos, List.map_cons, overwrite_cons, List.length_cons]
    simp only [Except.ok.injEq, Prod.mk.injEq, true_and]
    omega

/-- The reversal of the cells from `bufleft` to `buf`. -/
lemma reverse_apply (m : Buf) (bufleft buf x : Nat) :
    reverse m bufleft buf x = if bufleft ≤ x ∧ x ≤ buf then m (bufleft + buf - x) else m x := by
  induction buf generalizing m bufleft with
  | zero =>
    rw [reverse]
    split
    case isTrue h => rw [show bufleft + 0 - x = x by omega]
    case isFalse => rfl
  | succ buf ih =>
    rw [reverse]
    by_cases h : bufleft < buf + 1
    · rw [if_pos h, ih]
      -- the two ends are swapped, and the cells between them are what the rest of the loop reverses
      by_cases hl : x = bufleft
      · subst hl
        rw [if_neg (by omega), if_pos (by omega), show x + (buf + 1) - x = buf + 1 by omega, swap,
          Function.update_of_ne (by omega), Function.update_self]
      by_cases hr : x = buf + 1
      · subst hr
        rw [if_neg (by omega), if_pos (by omega), show bufleft + (buf + 1) - (buf + 1) = bufleft by omega, swap,
          Function.update_self]
      have hsame : ∀ y, y ≠ bufleft → y ≠ buf + 1 → swap m bufleft (buf + 1) y = m y := by
        intro y hy hy'
        rw [swap, Function.update_of_ne hy', Function.update_of_ne hy]
      by_cases hx : bufleft + 1 ≤ x ∧ x ≤ buf
      · rw [if_pos hx, if_pos (by omega), hsame _ (by omega) (by omega)]
        congr 1
        omega
      · rw [if_neg hx, if_neg (by omega), hsame x hl hr]
    · rw [if_neg h]
      split
      case isTrue hx => rw [show bufleft + (buf + 1) - x = x by omega]
      case isFalse => rfl

lemma reverse_overwrite (m : Buf) (a : Nat) {l : List (BitVec 8)} (hl : l ≠ []) (r : List (BitVec 8)) :
    reverse (overwrite m a (l ++ r)) a (a + l.length - 1) = overwrite m a (l.reverse ++ r) := by
  have hpos : 0 < l.length := List.length_pos_iff.mpr hl
  funext x
  rw [reverse_apply, overwrite_append, overwrite_append, List.length_reverse]
  split
  case isTrue h =>
    obtain ⟨i, rfl⟩ := Nat.exists_eq_add_of_le h.1
    rw [show a + (a + l.length - 1) - (a + i) = a + (l.length - 1 - i) by omega, overwrite_of_outside (by omega),
      overwrite_add (by omega), overwrite_of_outside (by omega), overwrite_add (by rw [List.length_reverse]; omega),
      List.getElem_reverse]
  case isFalse h =>
    apply overwrite_congr
    rw [overwrite_of_outside (by omega), overwrite_of_outside (by rw [List.length_reverse]; omega)]

/-- The NUL is written behind the digits before they are reversed. -/
lemma reverse_terminated (m : Buf) (a : Nat) {l : List (BitVec 8)} (hl : l ≠ []) :
    reverse (Function.update (overwrite m a l) (a + l.length) 0) a (a + l.length - 1) =
      overwrite m a (l.reverse ++ [0]) := by
  rw [← overwrite_singleton, ← overwrite_append, reverse_overwrite m a hl]

/-- `sprintbase` is an encoder. -/
lemma sprintbase_eq (hlo : 2 ≤ base.toNat) (hhi : base.toNat ≤ 16) (m : Buf) (buf : Nat) (number : BitVec 64) :
    sprintbase m buf number base =
      .ok (overwrite m buf (numeral digitChar base.toNat number.toNat ++ [0]),
        (numeral digitChar base.toNat number.toNat).length) := by
  by_cases hzero : number = 0
  · subst hzero
    have hnumeral : numeral digitChar base.toNat (0 : BitVec 64).toNat = [ascii '0'] := rfl
    have hterm := reverse_terminated m buf (List.cons_ne_nil (ascii '0') [])
    rw [overwrite_singleton] at hterm
    rw [sprintbase, if_pos rfl, hnumeral]
    simp only [emitDigits_zero]
    exact congrArg (fun mem => Except.ok (mem, 1)) hterm
  · have hpos : number.toNat ≠ 0 := fun h0 => hzero (BitVec.eq_of_toNat_eq h0)
    have hnumeral : numeral digitChar base.toNat number.toNat =
        ((Nat.digits base.toNat number.toNat).map digitChar).reverse := by
      rw [numeral, places, if_neg hpos, List.map_reverse]
    have hne : (Nat.digits base.toNat number.toNat).map digitChar ≠ [] := by
      simpa [Nat.digits_eq_nil_iff_eq_zero] using hpos
    have hterm := reverse_terminated m buf hne
    rw [List.length_map] at hterm
    rw [sprintbase, if_neg hzero, hnumeral, List.length_reverse, List.length_map]
    simp only [emitDigits_eq hlo hhi 64 m buf 0 number.isLt, Nat.zero_add]
    exact congrArg (fun mem => Except.ok (mem, (Nat.digits base.toNat number.toNat).length)) hterm

/-- The buffer after a number has been written to it: `len` digits of the base and a NUL. -/
structure Encoded (base : BitVec 8) (number : BitVec 64) (m : Buf) (buf : Nat) (m' : Buf) (len : Nat) : Prop where
  digit : ∀ c ∈ window m' buf len, ∃ k < base.toNat, c = digitChar k
  decoded : decode digitValue base.toNat (window m' buf len) = number.toNat
  leading : (window m' buf len).head? = some (ascii '0') → number = 0
  zero : number = 0 → window m' buf len = [ascii '0']
  terminated : m' (buf + len) = 0
  before : ∀ x < buf, m' x = m x
  beyond : ∀ x, buf + len < x → m' x = m x

theorem sprintbase_encodes (m : Buf) (buf : Nat) (number : BitVec 64) (base : BitVec 8) (hlo : 2 ≤ base.toNat)
    (hhi : base.toNat ≤ 16) :
    ∃ m' len, sprintbase m buf number base = .ok (m', len) ∧ Encoded base number m buf m' len := by
  refine ⟨_, _, sprintbase_eq hlo hhi m buf number, ?_⟩
  have hvalue : ∀ k < base.toNat, digitValue (digitChar k) = k := fun k hk => digitValue_digitChar k (by omega)
  have hwindow := window_overwrite_append m buf (numeral digitChar base.toNat number.toNat) [0]
  constructor
  case digit =>
    intro c hc
    rw [hwindow] at hc
    obtain ⟨k, hk, rfl⟩ := List.mem_map.mp hc
    exact ⟨k, lt_of_mem_places hlo hk, rfl⟩
  case decoded => rw [hwindow, decode_numeral hlo hvalue]
  case leading =>
    intro hhead
    by_contra hne
    have hpos : number.toNat ≠ 0 := fun h0 => hne (BitVec.eq_of_toNat_eq h0)
    rw [hwindow, numeral, List.head?_map] at hhead
    obtain ⟨k, hk, hdigit⟩ := Option.map_eq_some_iff.mp hhead
    have hzero : k = 0 := by
      rw [← hvalue k (lt_of_mem_places hlo (List.mem_of_mem_head? hk)), hdigit]
      rfl
    rw [hzero] at hk
    exact head_places_ne_zero _ hpos hk
  case zero =>
    rintro rfl
    rw [hwindow]
    rfl
  case terminated => rw [overwrite_append, overwrite_singleton, Function.update_self]
  case before =>
    intro x hx
    exact overwrite_of_outside (Or.inl hx)
  case beyond =>
    intro x hx
    apply overwrite_of_outside
    rw [List.length_append, List.length_singleton]
    omega

theorem sprintbase_encodes_hex : 2 ≤ (16 : BitVec 8).toNat ∧ (16 : BitVec 8).toNat ≤ 16 ∧
    ∃ m' len, sprintbase (fun _ => 0) 3 0xbeef 16 = .ok (m', len) ∧ Encoded 16 0xbeef (fun _ => 0) 3 m' len :=
  ⟨by decide, by decide, sprintbase_encodes (fun _ => 0) 3 0xbeef 16 (by decide) (by decide)⟩

end JavaScriptOS.Libc
