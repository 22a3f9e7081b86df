import Mathlib.Algebra.Order.Ring.Nat
import Mathlib.Order.CompletePartialOrder
import Mathlib.Order.Interval.Set.Disjoint
import Mathlib.Tactic.Common

/-!
# Regions taken in order

A cursor moves up through an interval and leaves regions behind it. Before it takes a region it may move up to the
next multiple of an alignment.
-/

namespace JavaScriptOS.Lib

section Padding

variable {a x y : Nat}

/-- The distance from `x` up to the next multiple of `a`. -/
def padding (a x : Nat) : Nat := if x % a = 0 then 0 else a - x % a

lemma padding_lt (ha : 0 < a) : padding a x < a := by
  rw [padding]
  split
  case isTrue => exact ha
  case isFalse h => exact Nat.sub_lt ha (Nat.pos_of_ne_zero h)

lemma dvd_add_padding (ha : 0 < a) : a ∣ x + padding a x := by
  rw [padding]
  split
  case isTrue h => exact Nat.dvd_of_mod_eq_zero h
  case isFalse h =>
    have hmod := Nat.mod_lt x ha
    have hdiv := Nat.div_add_mod x a
    have hsum : x + (a - x % a) = a * (x / a + 1) := by
      rw [Nat.mul_succ]
      omega
    exact hsum ▸ Nat.dvd_mul_right a _

/-- No multiple is skipped. -/
lemma add_padding_le (hy : a ∣ y) (hxy : x ≤ y) : x + padding a x ≤ y := by
  rw [padding]
  split
  case isTrue => exact hxy
  case isFalse h =>
    obtain ⟨k, rfl⟩ := hy
    have ha : 0 < a := Nat.pos_of_ne_zero fun hzero => h (by simp_all)
    have hdiv := Nat.div_add_mod x a
    have hmod := Nat.mod_lt x ha
    have hlt : x / a < k := by
      rw [Nat.div_lt_iff_lt_mul ha, Nat.mul_comm]
      exact Nat.lt_of_le_of_ne hxy fun heq => h (heq ▸ Nat.mul_mod_right a k)
    have hnext : a * (x / a) + a ≤ a * k := Nat.mul_le_mul_left a hlt
    omega

end Padding

structure Region where
  start : Nat
  length : Nat

def Region.span (r : Region) : Set Nat := Set.Ico r.start (r.start + r.length)

variable {stop cur : Nat} {r : Region} {rs : List Region}

/-- The regions a cursor takes on its way from `cur` to `stop` at most. -/
inductive TakenFrom (stop : Nat) : Nat → List Region → Prop
  | done {cur : Nat} (h : cur ≤ stop) : TakenFrom stop cur []
  | take {cur : Nat} {r : Region} {rs : List Region} (h : cur ≤ r.start)
      (rest : TakenFrom stop (r.start + r.length) rs) : TakenFrom stop cur (r :: rs)

lemma TakenFrom.le_stop (h : TakenFrom stop cur rs) : cur ≤ stop := by
  induction h with
  | done h => exact h
  | take h _ ih => exact h.trans (Nat.le_of_add_right_le ih)

lemma TakenFrom.span_subset (h : TakenFrom stop cur rs) (hr : r ∈ rs) : r.span ⊆ Set.Ico cur stop := by
  induction h with
  | done => cases hr
  | take h rest ih =>
    rcases List.mem_cons.mp hr with rfl | hr
    · exact Set.Ico_subset_Ico h rest.le_stop
    · exact (ih hr).trans (Set.Ico_subset_Ico_left (h.trans (Nat.le_add_right _ _)))

lemma TakenFrom.pairwise_disjoint (h : TakenFrom stop cur rs) :
    rs.Pairwise fun r r' => Disjoint r.span r'.span := by
  induction h with
  | done => exact List.Pairwise.nil
  | take _ rest ih =>
    refine List.Pairwise.cons ?_ ih
    intro r' hr'
    apply Set.disjoint_of_subset_right (rest.span_subset hr')
    exact Set.Ico_disjoint_Ico_same

end JavaScriptOS.Lib
