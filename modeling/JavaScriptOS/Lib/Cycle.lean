import JavaScriptOS.Lib.Lasso
import Mathlib.Dynamics.PeriodicPts.Lemmas

/-!
# Going once around a cycle

A map whose iterates lead from every point to every other one arranges a finite type in one cycle. From any
start, the points are met exactly once within as many steps as there are points, and the next step is back
at the start.
-/

namespace JavaScriptOS.Lib

variable {α : Type} {f : α → α} {a b : α} {i j k : Nat}

lemma trail_of_total {step : α → Option α} (h : ∀ a, step a = some (f a)) (k : Nat) (a : α) :
    trail step k a = some (f^[k] a) := by
  induction k generalizing a with
  | zero => rfl
  | succ k ih => rw [trail, h, Option.bind_some, ih, Function.iterate_succ_apply]

def OneOrbit (f : α → α) : Prop := ∀ a b, ∃ k, f^[k] a = b

lemma OneOrbit.mem_periodicPts (h : OneOrbit f) (a : α) : a ∈ Function.periodicPts f := by
  obtain ⟨k, hk⟩ := h (f a) a
  exact Function.mk_mem_periodicPts (Nat.succ_pos k) hk

lemma OneOrbit.exists_lt_minimalPeriod (h : OneOrbit f) (a b : α) : ∃ k < Function.minimalPeriod f a, f^[k] a = b := by
  obtain ⟨k, hk⟩ := h a b
  have hpos : 0 < Function.minimalPeriod f a := Function.minimalPeriod_pos_of_mem_periodicPts (h.mem_periodicPts a)
  exact ⟨k % Function.minimalPeriod f a, Nat.mod_lt _ hpos, by rw [Function.iterate_mod_minimalPeriod_eq, hk]⟩

variable [Fintype α]

lemma OneOrbit.minimalPeriod_eq (h : OneOrbit f) (a : α) : Function.minimalPeriod f a = Fintype.card α := by
  apply Nat.le_antisymm Function.minimalPeriod_le_card
  have hsurj : Function.Surjective fun k : Fin (Function.minimalPeriod f a) => f^[k.val] a := by
    intro b
    obtain ⟨k, hk, hb⟩ := h.exists_lt_minimalPeriod a b
    exact ⟨⟨k, hk⟩, hb⟩
  have hcard := Fintype.card_le_of_surjective _ hsurj
  rwa [Fintype.card_fin] at hcard

/-- Every point is met in the first round. -/
lemma OneOrbit.exists_lt_card (h : OneOrbit f) (a b : α) : ∃ k < Fintype.card α, f^[k] a = b := by
  rw [← h.minimalPeriod_eq a]
  exact h.exists_lt_minimalPeriod a b

/-- No point is met twice in the first round. -/
lemma OneOrbit.iterate_inj (h : OneOrbit f) (hi : i < Fintype.card α) (hj : j < Fintype.card α)
    (heq : f^[i] a = f^[j] a) : i = j := by
  rw [← h.minimalPeriod_eq a] at hi hj
  exact Function.iterate_injOn_Iio_minimalPeriod hi hj heq

lemma OneOrbit.iterate_card (h : OneOrbit f) (a : α) : f^[Fintype.card α] a = a := by
  rw [← h.minimalPeriod_eq a]
  exact Function.isPeriodicPt_minimalPeriod f a

lemma OneOrbit.iterate_eq_self_iff (h : OneOrbit f) (hk : k < Fintype.card α) :
    f^[k + 1] a = a ↔ k + 1 = Fintype.card α := by
  constructor
  · intro heq
    by_contra hne
    exact absurd (h.iterate_inj (a := a) (by omega) (by omega : 0 < Fintype.card α) heq) (Nat.succ_ne_zero k)
  · intro heq
    rw [heq, h.iterate_card]

end JavaScriptOS.Lib
