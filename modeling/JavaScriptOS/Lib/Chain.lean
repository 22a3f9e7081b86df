import Mathlib.Data.List.Nodup
import Mathlib.Tactic.Common

/-!
# Chains through a successor map

`Chain next stop x l` says that following `next` from `x` visits exactly `l`, in order, and
then meets the stop value. It is the shape of an intrusive singly linked list.
-/

namespace JavaScriptOS.Lib

inductive Chain {α : Type} (next : α → α) (stop : α) : α → List α → Prop
  | nil : Chain next stop stop []
  | cons {x : α} {l : List α} : x ≠ stop → Chain next stop (next x) l → Chain next stop x (x :: l)

namespace Chain

variable {α : Type} {next next' : α → α} {stop x : α} {l l' : List α}

lemma inv (h : Chain next stop x l) : (x = stop ∧ l = []) ∨
    (x ≠ stop ∧ ∃ rest, l = x :: rest ∧ Chain next stop (next x) rest) := by
  cases h with
  | nil => exact Or.inl ⟨rfl, rfl⟩
  | cons hx hrest => exact Or.inr ⟨hx, _, rfl, hrest⟩

lemma ne_stop (h : Chain next stop x l) : ∀ y ∈ l, y ≠ stop := by
  induction h with
  | nil => simp
  | cons hx _ ih =>
    intro y hy
    rcases List.mem_cons.mp hy with rfl | hy
    · exact hx
    · exact ih y hy

/-- A chain only reads the links of its own members. -/
lemma frame (h : Chain next stop x l) (heq : ∀ y ∈ l, next' y = next y) :
    Chain next' stop x l := by
  induction h with
  | nil => exact Chain.nil
  | cons hx _ ih =>
    refine Chain.cons hx ?_
    rw [heq _ (by simp)]
    exact ih (fun y hy => heq y (by simp [hy]))

lemma unique (h : Chain next stop x l) (h' : Chain next stop x l') : l = l' := by
  induction h generalizing l' with
  | nil =>
    cases h' with
    | nil => rfl
    | cons hx _ => exact (hx rfl).elim
  | cons hx _ ih =>
    cases h' with
    | nil => exact (hx rfl).elim
    | cons _ h'' => rw [ih h'']

lemma eq_nil_iff (h : Chain next stop x l) : l = [] ↔ x = stop := by
  rcases h.inv with ⟨rfl, rfl⟩ | ⟨hx, rest, rfl, -⟩
  · simp
  · simp [hx]

end Chain

end JavaScriptOS.Lib
