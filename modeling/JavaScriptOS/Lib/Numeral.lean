import Mathlib.Data.Nat.Digits.Lemmas
import Mathlib.Tactic.Common

/-!
# Positional numerals

The numeral of a number in a base, the most significant digit first and without leading zeros; zero is a
single digit. Digits are given by a map into an alphabet.
-/

namespace JavaScriptOS.Lib

variable {α : Type} {digit : Nat → α} {base n n' : Nat}

/-- The digits of a number as numbers, most significant first. -/
def places (base n : Nat) : List Nat := if n = 0 then [0] else (Nat.digits base n).reverse

def numeral (digit : Nat → α) (base n : Nat) : List α := (places base n).map digit

lemma ofDigits_places (base n : Nat) : Nat.ofDigits base (places base n).reverse = n := by
  unfold places
  split
  case isTrue h => rw [h, List.reverse_singleton, Nat.ofDigits_singleton]
  case isFalse => rw [List.reverse_reverse, Nat.ofDigits_digits]

lemma lt_of_mem_places (hbase : 1 < base) {k : Nat} (h : k ∈ places base n) : k < base := by
  unfold places at h
  split at h
  case isTrue =>
    rw [List.mem_singleton.mp h]
    omega
  case isFalse => exact Nat.digits_lt_base hbase (List.mem_reverse.mp h)

/-- A number below a power of the base has at most as many digits as the exponent says. -/
lemma length_numeral_le (digit : Nat → α) {k : Nat} (hbase : 1 < base) (hk : 0 < k) (h : n < base ^ k) :
    (numeral digit base n).length ≤ k := by
  rw [numeral, List.length_map, places]
  split
  case isTrue => exact hk
  case isFalse =>
    rw [List.length_reverse]
    exact (Nat.digits_length_le_iff hbase n).mpr h

/-- There is no leading zero, except in zero itself. -/
lemma head_places_ne_zero (base : Nat) {n : Nat} (hn : n ≠ 0) : (places base n).head? ≠ some 0 := by
  rw [places, if_neg hn, List.head?_reverse, List.getLast?_eq_some_getLast (Nat.digits_ne_nil_iff_ne_zero.mpr hn)]
  intro h
  exact Nat.getLast_digit_ne_zero base hn (Option.some.inj h)

/-- Reading a numeral from left to right. -/
def decode (value : α → Nat) (base : Nat) (s : List α) : Nat := s.foldl (fun n c => value c + base * n) 0

lemma decode_numeral {value : α → Nat} (hbase : 1 < base) (hvalue : ∀ k < base, value (digit k) = k) (n : Nat) :
    decode value base (numeral digit base n) = n := by
  have hread : ∀ (l : List Nat) (start : Nat), (∀ k ∈ l, k < base) →
      l.foldl (fun n k => value (digit k) + base * n) start = l.foldl (fun n k => k + base * n) start := by
    intro l
    induction l with
    | nil => exact fun _ _ => rfl
    | cons k l ih =>
      intro start hl
      rw [List.foldl_cons, List.foldl_cons, hvalue k (hl k List.mem_cons_self)]
      exact ih _ fun j hj => hl j (List.mem_cons_of_mem _ hj)
  have hplaces := ofDigits_places base n
  rw [Nat.ofDigits_eq_foldr, List.foldr_reverse] at hplaces
  rw [decode, numeral, List.foldl_map, hread _ _ fun k => lt_of_mem_places hbase]
  exact hplaces

/-- What can be read back is written in one way only. -/
lemma numeral_inj {value : α → Nat} (hbase : 1 < base) (hvalue : ∀ k < base, value (digit k) = k)
    (h : numeral digit base n = numeral digit base n') : n = n' := by
  rw [← decode_numeral hbase hvalue n, h, decode_numeral hbase hvalue]

end JavaScriptOS.Lib
