import Mathlib.Data.List.Nodup
import Mathlib.Logic.Function.Basic
import Mathlib.Tactic.Common

/-!
# Tokens held and given back

Tokens are numbered in the order they are issued. In a balanced ledger every token that was issued is with one holder
or has been given back, and never both.
-/

namespace JavaScriptOS.Lib

structure Ledger (ι : Type) where
  issued : Nat
  returned : List Nat
  held : ι → Option Nat

namespace Ledger

variable {ι : Type} {L : Ledger ι} {i j : ι} {k l : Nat}

structure Balanced (L : Ledger ι) : Prop where
  nodup : L.returned.Nodup
  issued_of_returned : ∀ k ∈ L.returned, k < L.issued
  issued_of_held : ∀ i k, L.held i = some k → k < L.issued
  not_returned_of_held : ∀ i k, L.held i = some k → k ∉ L.returned
  one_holder : ∀ i j k, L.held i = some k → L.held j = some k → i = j
  accounted : ∀ k < L.issued, k ∈ L.returned ∨ ∃ i, L.held i = some k

lemma balanced_empty : Balanced (⟨0, [], fun _ => none⟩ : Ledger ι) where
  nodup := List.nodup_nil
  issued_of_returned _ h := absurd h List.not_mem_nil
  issued_of_held _ _ h := nomatch h
  not_returned_of_held _ _ h := nomatch h
  one_holder _ _ _ h := nomatch h
  accounted _ h := absurd h (Nat.not_lt_zero _)

lemma Balanced.count_le_one (h : L.Balanced) (k : Nat) : L.returned.count k ≤ 1 :=
  List.nodup_iff_count_le_one.mp h.nodup k

/-- When nothing is held any more, everything has been given back once. -/
lemma Balanced.count_eq_one (h : L.Balanced) (hnone : ∀ i, L.held i = none) (hk : k < L.issued) :
    L.returned.count k = 1 := by
  rcases h.accounted k hk with hmem | ⟨i, hi⟩
  · exact List.count_eq_one_of_mem h.nodup hmem
  · rw [hnone i] at hi
    cases hi

variable [DecidableEq ι]

def issue (L : Ledger ι) (i : ι) : Ledger ι :=
  { L with issued := L.issued + 1, held := Function.update L.held i (some L.issued) }

def giveBack (L : Ledger ι) (i : ι) (k : Nat) : Ledger ι :=
  { L with returned := k :: L.returned, held := Function.update L.held i none }

lemma held_issue_self : (L.issue i).held i = some L.issued := Function.update_self _ _ _

lemma held_issue_of_ne (h : j ≠ i) : (L.issue i).held j = L.held j := Function.update_of_ne h _ _

lemma held_issue_cases (h : (L.issue i).held j = some k) :
    j = i ∧ k = L.issued ∨ L.held j = some k := by
  by_cases hj : j = i
  · rw [hj, held_issue_self] at h
    exact Or.inl ⟨hj, (Option.some.inj h).symm⟩
  · rw [held_issue_of_ne hj] at h
    exact Or.inr h

lemma held_giveBack_self : (L.giveBack i k).held i = none := Function.update_self _ _ _

lemma held_giveBack_of_ne (h : j ≠ i) : (L.giveBack i k).held j = L.held j := Function.update_of_ne h _ _

lemma held_giveBack_cases (h : (L.giveBack i k).held j = some l) : j ≠ i ∧ L.held j = some l := by
  have hj : j ≠ i := by
    rintro rfl
    rw [held_giveBack_self] at h
    cases h
  exact ⟨hj, by rwa [held_giveBack_of_ne hj] at h⟩

lemma Balanced.issue (h : L.Balanced) (hi : L.held i = none) : (L.issue i).Balanced where
  nodup := h.nodup
  issued_of_returned k hk := Nat.lt_succ_of_lt (h.issued_of_returned k hk)
  issued_of_held j k hj := by
    rcases held_issue_cases hj with ⟨-, rfl⟩ | hj
    · exact Nat.lt_succ_self _
    · exact Nat.lt_succ_of_lt (h.issued_of_held j k hj)
  not_returned_of_held j k hj hk := by
    rcases held_issue_cases hj with ⟨-, rfl⟩ | hj
    · exact Nat.lt_irrefl _ (h.issued_of_returned _ hk)
    · exact h.not_returned_of_held j k hj hk
  one_holder j j' k hj hj' := by
    -- a token from before has a smaller number than the new one
    have hnew : ∀ j, L.held j ≠ some L.issued := fun j hj => Nat.lt_irrefl _ (h.issued_of_held j _ hj)
    rcases held_issue_cases hj with ⟨rfl, rfl⟩ | hj
    · rcases held_issue_cases hj' with ⟨rfl, -⟩ | hj'
      · rfl
      · exact absurd hj' (hnew j')
    · rcases held_issue_cases hj' with ⟨-, rfl⟩ | hj'
      · exact absurd hj (hnew j)
      · exact h.one_holder j j' k hj hj'
  accounted k hk := by
    rcases Nat.lt_succ_iff_lt_or_eq.mp hk with hold | rfl
    · apply (h.accounted k hold).imp_right
      rintro ⟨j, hj⟩
      have hne : j ≠ i := by
        rintro rfl
        rw [hi] at hj
        cases hj
      exact ⟨j, by rw [held_issue_of_ne hne, hj]⟩
    · exact Or.inr ⟨i, held_issue_self⟩

lemma Balanced.giveBack (h : L.Balanced) (hi : L.held i = some k) : (L.giveBack i k).Balanced where
  nodup := List.nodup_cons.mpr ⟨h.not_returned_of_held i k hi, h.nodup⟩
  issued_of_returned l hl := by
    rcases List.mem_cons.mp hl with rfl | hl
    · exact h.issued_of_held i l hi
    · exact h.issued_of_returned l hl
  issued_of_held j l hj := h.issued_of_held j l (held_giveBack_cases hj).2
  not_returned_of_held j l hj hl := by
    obtain ⟨hne, hold⟩ := held_giveBack_cases hj
    rcases List.mem_cons.mp hl with rfl | hl
    · exact hne (h.one_holder j i l hold hi)
    · exact h.not_returned_of_held j l hold hl
  one_holder j j' l hj hj' := h.one_holder j j' l (held_giveBack_cases hj).2 (held_giveBack_cases hj').2
  accounted l hl := by
    rcases h.accounted l hl with hmem | ⟨j, hj⟩
    · exact Or.inl (List.mem_cons_of_mem _ hmem)
    · by_cases hne : j = i
      · rw [hne, hi] at hj
        cases hj
        exact Or.inl List.mem_cons_self
      · exact Or.inr ⟨j, by rw [held_giveBack_of_ne hne, hj]⟩

end Ledger

end JavaScriptOS.Lib
