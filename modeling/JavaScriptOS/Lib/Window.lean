import Mathlib.Data.List.Basic
import Mathlib.Logic.Function.Basic
import Mathlib.Tactic.Common

/-!
# Windows of a memory

`window m a n` lists the contents of the `n` cells from `a` on, and `overwrite m a l` puts a list there.
-/

namespace JavaScriptOS.Lib

variable {α : Type} {m m' : Nat → α} {a n x : Nat} {l l' : List α}

def window (m : Nat → α) (a n : Nat) : List α := (List.range n).map fun i => m (a + i)

def overwrite (m : Nat → α) (a : Nat) (l : List α) : Nat → α := fun x =>
  if h : a ≤ x ∧ x < a + l.length then l[x - a] else m x

@[simp] lemma length_window (m : Nat → α) (a n : Nat) : (window m a n).length = n := by simp [window]

lemma getElem_window {i : Nat} (h : i < (window m a n).length) : (window m a n)[i] = m (a + i) := by simp [window]

lemma window_succ (m : Nat → α) (a n : Nat) : window m a (n + 1) = m a :: window m (a + 1) n := by
  apply List.ext_getElem
  · simp
  · intro i hi hi'
    cases i with
    | zero => exact getElem_window hi
    | succ i =>
      rw [getElem_window, List.getElem_cons_succ, getElem_window]
      congr 1
      omega

lemma window_append_iff : window m a (l ++ l').length = l ++ l' ↔
    window m a l.length = l ∧ window m (a + l.length) l'.length = l' := by
  induction l generalizing a with
  | nil => exact ⟨fun h => ⟨rfl, h⟩, fun h => h.2⟩
  | cons v l ih =>
    rw [List.cons_append, List.length_cons, List.length_cons, window_succ, window_succ, List.cons.injEq,
      List.cons.injEq, ih, and_assoc, Nat.add_right_comm, Nat.add_assoc]

lemma overwrite_of_outside (h : x < a ∨ a + l.length ≤ x) : overwrite m a l x = m x :=
  dif_neg (by omega)

lemma overwrite_add {i : Nat} (h : i < l.length) : overwrite m a l (a + i) = l[i] := by
  have hin : a ≤ a + i ∧ a + i < a + l.length := by omega
  simp [overwrite, hin]

lemma window_overwrite_append (m : Nat → α) (a : Nat) (l l' : List α) :
    window (overwrite m a (l ++ l')) a l.length = l := by
  apply List.ext_getElem
  · simp
  · intro i hi hi'
    rw [getElem_window, overwrite_add (by rw [List.length_append]; omega), List.getElem_append_left hi']

lemma overwrite_congr (h : m' x = m x) : overwrite m' a l x = overwrite m a l x := by
  simp only [overwrite, h]

lemma overwrite_nil (m : Nat → α) (a : Nat) : overwrite m a [] = m := by
  funext x
  apply overwrite_of_outside
  simp only [List.length_nil]
  omega

lemma overwrite_singleton (m : Nat → α) (a : Nat) (v : α) : overwrite m a [v] = Function.update m a v := by
  funext x
  by_cases h : x = a
  · subst h
    rw [Function.update_self]
    exact overwrite_add (l := [v]) (i := 0) Nat.one_pos
  · rw [Function.update_of_ne h]
    apply overwrite_of_outside
    simp only [List.length_singleton]
    omega

lemma overwrite_append (m : Nat → α) (a : Nat) (l l' : List α) :
    overwrite m a (l ++ l') = overwrite (overwrite m a l) (a + l.length) l' := by
  funext x
  by_cases hl : a ≤ x ∧ x < a + l.length
  · obtain ⟨i, rfl⟩ := Nat.exists_eq_add_of_le hl.1
    have hi : i < l.length := by omega
    rw [overwrite_of_outside (Or.inl hl.2), overwrite_add hi, overwrite_add (by rw [List.length_append]; omega),
      List.getElem_append_left hi]
  by_cases hl' : a + l.length ≤ x ∧ x < a + l.length + l'.length
  · obtain ⟨i, rfl⟩ := Nat.exists_eq_add_of_le hl'.1
    have hi : i < l'.length := by omega
    rw [overwrite_add hi, Nat.add_assoc, overwrite_add (by rw [List.length_append]; omega),
      List.getElem_append_right (Nat.le_add_right _ _)]
    simp
  · rw [overwrite_of_outside (by rw [List.length_append]; omega), overwrite_of_outside (by omega),
      overwrite_of_outside (by omega)]

lemma overwrite_cons (m : Nat → α) (a : Nat) (v : α) (l : List α) :
    overwrite m a (v :: l) = overwrite (Function.update m a v) (a + 1) l := by
  rw [← overwrite_singleton]
  exact overwrite_append m a [v] l

/-- A list that starts at the last cell of another one replaces that cell. -/
lemma overwrite_over_last (m : Nat → α) (a : Nat) (l : List α) (v : α) (h : l' ≠ []) :
    overwrite (overwrite m a (l ++ [v])) (a + l.length) l' = overwrite m a (l ++ l') := by
  rw [overwrite_append, overwrite_append, overwrite_singleton]
  have hpos : 0 < l'.length := List.length_pos_iff.mpr h
  funext x
  by_cases hx : a + l.length ≤ x ∧ x < a + l.length + l'.length
  · simp [overwrite, hx]
  · have hne : x ≠ a + l.length := by omega
    rw [overwrite_of_outside (by omega), overwrite_of_outside (by omega), Function.update_of_ne hne]

end JavaScriptOS.Lib
