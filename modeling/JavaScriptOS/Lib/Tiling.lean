import Mathlib.Algebra.Order.Ring.Nat
import Mathlib.Data.List.Basic
import Mathlib.Tactic.Common

/-!
# Blocks laid end to end

A list of blocks, each with a size and a kind, stands for blocks that follow each other in memory
from some address on. `Tiled ok` says that each block satisfies `ok` where it lies and next to
its left neighbour.
-/

namespace JavaScriptOS.Lib

structure Block (K : Type) where
  size : Nat
  kind : K

variable {K : Type}

def extent (L : List (Block K)) : Nat := (L.map Block.size).sum

@[simp] lemma extent_nil : extent ([] : List (Block K)) = 0 := rfl

@[simp] lemma extent_cons (b : Block K) (L : List (Block K)) : extent (b :: L) = b.size + extent L := by
  simp [extent]

@[simp] lemma extent_append (L L' : List (Block K)) :
    extent (L ++ L') = extent L + extent L' := by
  simp [extent]

def Tiled (ok : Option (Block K) → Nat → Block K → Prop) :
    Option (Block K) → Nat → List (Block K) → Prop
  | _, _, [] => True
  | left, p, b :: L => ok left p b ∧ Tiled ok (some b) (p + b.size) L

/-- The last block of a list, or the one to the left of it. -/
def lastOr : Option (Block K) → List (Block K) → Option (Block K)
  | left, [] => left
  | _, b :: L => lastOr (some b) L

lemma lastOr_append (left : Option (Block K)) (L L' : List (Block K)) :
    lastOr left (L ++ L') = lastOr (lastOr left L) L' := by
  induction L generalizing left with
  | nil => rfl
  | cons b L ih => rw [List.cons_append, lastOr, lastOr, ih]

@[simp] lemma lastOr_concat (left : Option (Block K)) (L : List (Block K)) (b : Block K) :
    lastOr left (L ++ [b]) = some b := by
  rw [lastOr_append]
  rfl

variable {ok ok' : Option (Block K) → Nat → Block K → Prop} {left : Option (Block K)} {p : Nat}

lemma tiled_append (L L' : List (Block K)) : Tiled ok left p (L ++ L') ↔
    Tiled ok left p L ∧ Tiled ok (lastOr left L) (p + extent L) L' := by
  induction L generalizing left p with
  | nil => simp [Tiled, lastOr]
  | cons b L ih =>
    rw [List.cons_append, Tiled, Tiled, ih, lastOr, extent_cons, Nat.add_assoc, and_assoc]

lemma Tiled.at_split {pre post : List (Block K)} {b : Block K} (h : Tiled ok left p (pre ++ b :: post)) :
    ok (lastOr left pre) (p + extent pre) b := by
  rw [tiled_append] at h
  exact h.2.1

/-- Changing what is asked of a block, block by block. -/
lemma Tiled.imp {L : List (Block K)} (h : Tiled ok left p L)
    (himp : ∀ l pre b post, L = pre ++ b :: post →
      ok l (p + extent pre) b → ok' l (p + extent pre) b) :
    Tiled ok' left p L := by
  induction L generalizing left p with
  | nil => trivial
  | cons b L ih =>
    refine ⟨?_, ?_⟩
    · have := himp left [] b L rfl
      rw [extent_nil, Nat.add_zero] at this
      exact this h.1
    · apply ih h.2
      intro l pre c post hL hok
      have := himp l (b :: pre) c post (by rw [hL, List.cons_append])
      rw [extent_cons, ← Nat.add_assoc] at this
      exact this hok

/-- Every address below the end lies in a block. -/
lemma exists_block {L : List (Block K)} {x : Nat} (hx : x < extent L) :
    ∃ pre b post, L = pre ++ b :: post ∧ extent pre ≤ x ∧ x < extent pre + b.size := by
  induction L generalizing x with
  | nil => cases hx
  | cons b L ih =>
    by_cases hb : x < b.size
    · exact ⟨[], b, L, rfl, Nat.zero_le x, by rw [extent_nil, Nat.zero_add]; exact hb⟩
    · rw [extent_cons] at hx
      obtain ⟨pre, c, post, hL, hle, hlt⟩ := ih (x := x - b.size) (by omega)
      refine ⟨b :: pre, c, post, by rw [hL, List.cons_append], ?_, ?_⟩
      · rw [extent_cons]
        omega
      · rw [extent_cons]
        omega

/-- The block that an address lies in is determined. -/
lemma block_unique {pre pre' post post' : List (Block K)} {b b' : Block K} {x : Nat}
    (h : pre ++ b :: post = pre' ++ b' :: post')
    (hb : extent pre ≤ x ∧ x < extent pre + b.size)
    (hb' : extent pre' ≤ x ∧ x < extent pre' + b'.size) :
    pre = pre' ∧ b = b' ∧ post = post' := by
  induction pre generalizing pre' x with
  | nil =>
    cases pre' with
    | nil => exact ⟨rfl, (List.cons.inj h).1, (List.cons.inj h).2⟩
    | cons c pre' =>
      obtain ⟨rfl, -⟩ := List.cons.inj h
      rw [extent_nil] at hb
      rw [extent_cons] at hb'
      omega
  | cons c pre ih =>
    cases pre' with
    | nil =>
      obtain ⟨rfl, -⟩ := List.cons.inj h
      rw [extent_nil] at hb'
      rw [extent_cons] at hb
      omega
    | cons c' pre' =>
      obtain ⟨rfl, h'⟩ := List.cons.inj h
      rw [extent_cons] at hb hb'
      obtain ⟨rfl, hbb, hpost⟩ := ih (x := x - c.size) h' (by omega) (by omega)
      exact ⟨rfl, hbb, hpost⟩

/-- Two blocks of one list are the same or lie apart. -/
lemma blocks_apart {pre pre' post post' : List (Block K)} {b b' : Block K}
    (h : pre ++ b :: post = pre' ++ b' :: post') (hb : 0 < b.size) (hb' : 0 < b'.size) :
    (pre = pre' ∧ b = b' ∧ post = post') ∨ extent pre + b.size ≤ extent pre' ∨
      extent pre' + b'.size ≤ extent pre := by
  by_contra hapart
  have hx : extent pre ≤ max (extent pre) (extent pre') ∧ max (extent pre) (extent pre') < extent pre + b.size := by
    omega
  have hx' : extent pre' ≤ max (extent pre) (extent pre') ∧
      max (extent pre) (extent pre') < extent pre' + b'.size := by
    omega
  exact hapart (Or.inl (block_unique h hx hx'))

end JavaScriptOS.Lib
