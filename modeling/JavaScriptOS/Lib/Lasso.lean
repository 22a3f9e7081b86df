import JavaScriptOS.Lib.Chain
import Mathlib.Algebra.Order.Ring.Nat
import Mathlib.Data.Finset.Card
import Mathlib.Data.Fintype.EquivFin
import Mathlib.Tactic.Common

/-!
# Searches that may go round

A search moves from point to point by a partial step and stops where the step is undefined. Among
finitely many points it stops exactly if it never comes back to a point.
-/

namespace JavaScriptOS.Lib

variable {α : Type} {step : α → Option α} {a c : α} {i j k : Nat}

/-- The point after `k` steps, if there is one. -/
def trail (step : α → Option α) : Nat → α → Option α
  | 0, a => some a
  | k + 1, a => (step a).bind (trail step k)

def Stops (step : α → Option α) (a : α) : Prop := ∃ k, trail step k a = none

def Revisits (step : α → Option α) (a : α) : Prop :=
  ∃ i j c, i < j ∧ trail step i a = some c ∧ trail step j a = some c

lemma trail_add (j k : Nat) (a : α) : trail step (j + k) a = (trail step j a).bind (trail step k) := by
  induction j generalizing a with
  | zero => rw [Nat.zero_add, trail, Option.bind_some]
  | succ j ih =>
    rw [Nat.succ_add, trail, trail]
    cases step a with
    | none => rfl
    | some b => exact ih b

lemma trail_none_of_le (h : trail step i a = none) (hij : i ≤ j) : trail step j a = none := by
  obtain ⟨k, rfl⟩ := Nat.exists_eq_add_of_le hij
  rw [trail_add, h, Option.bind_none]

lemma trail_succ (k : Nat) (a : α) : trail step (k + 1) a = (trail step k a).bind step := by
  rw [trail_add]
  congr 1
  funext c
  exact Option.bind_fun_some (step c)

/-- What holds at the start and is kept by every step holds all along the trail. -/
lemma trail_preserves {P : α → Prop} (ha : P a) (hstep : ∀ c c', P c → step c = some c' → P c')
    (hk : trail step k a = some c) : P c := by
  induction k generalizing a with
  | zero =>
    cases hk
    exact ha
  | succ k ih =>
    rw [trail] at hk
    obtain ⟨b, hb, hrest⟩ := Option.bind_eq_some_iff.mp hk
    exact ih (hstep a b ha hb) hrest

lemma stops_step_iff (h : step a = some c) : Stops step a ↔ Stops step c := by
  have hrest : ∀ k, trail step (k + 1) a = trail step k c := fun k => by rw [trail, h, Option.bind_some]
  constructor
  · rintro ⟨k, hk⟩
    exact ⟨k, hrest k ▸ trail_none_of_le hk (Nat.le_succ k)⟩
  · rintro ⟨k, hk⟩
    exact ⟨k + 1, (hrest k).trans hk⟩

/-- A search that is another one seen through `f` stops where that one does. -/
lemma stops_map_iff {β : Type} {f : α → β} {step' : β → Option β} (h : ∀ a, step' (f a) = (step a).map f) (a : α) :
    Stops step' (f a) ↔ Stops step a := by
  have hmap : ∀ k, trail step' k (f a) = (trail step k a).map f := by
    intro k
    induction k with
    | zero => rfl
    | succ k ih =>
      rw [trail_succ, trail_succ, ih]
      cases trail step k a with
      | none => rfl
      | some c => exact h c
  exact exists_congr fun k => by rw [hmap, Option.map_eq_none_iff]

/-- After a revisit the search goes round for ever. -/
lemma Revisits.not_stops (h : Revisits step a) : ¬Stops step a := by
  obtain ⟨i, j, c, hij, hi, hj⟩ := h
  obtain ⟨d, rfl⟩ := Nat.exists_eq_add_of_lt hij
  have hloop : trail step (d + 1) c = some c := by
    rw [Nat.add_assoc, trail_add, hi, Option.bind_some] at hj
    exact hj
  have hround : ∀ m, trail step ((d + 1) * m) c = some c := by
    intro m
    induction m with
    | zero => rfl
    | succ m ih => rw [Nat.mul_succ, trail_add, ih, Option.bind_some, hloop]
  rintro ⟨k, hk⟩
  have hlong : trail step (i + (d + 1) * k) a = some c := by
    rw [trail_add, hi, Option.bind_some, hround]
  have hle : k ≤ i + (d + 1) * k := by
    have : k ≤ (d + 1) * k := Nat.le_mul_of_pos_left k (Nat.succ_pos d)
    omega
  rw [trail_none_of_le hk hle] at hlong
  cases hlong

/-- Without a revisit the search stops within as many steps as there are points. -/
lemma trail_card_eq_none (S : Finset α) (hS : ∀ k c, trail step k a = some c → c ∈ S)
    (h : ¬Revisits step a) : trail step S.card a = none := by
  by_contra hrun
  have hmaps : ∀ k ∈ Finset.range (S.card + 1), trail step k a ∈ S.map Function.Embedding.some := by
    intro k hk
    cases hc : trail step k a with
    | none => exact absurd (trail_none_of_le hc (Nat.lt_succ_iff.mp (Finset.mem_range.mp hk))) hrun
    | some c => exact Finset.mem_map_of_mem _ (hS k c hc)
  have hcard : (S.map Function.Embedding.some).card < (Finset.range (S.card + 1)).card := by
    rw [Finset.card_map, Finset.card_range]
    exact Nat.lt_succ_self _
  obtain ⟨i, hi, j, -, hne, heq⟩ := Finset.exists_ne_map_eq_of_card_lt_of_maps_to hcard hmaps
  obtain ⟨c, -, hc⟩ := Finset.mem_map.mp (hmaps i hi)
  have hci : trail step i a = some c := hc.symm
  rcases Nat.lt_or_gt_of_ne hne with hlt | hgt
  · exact h ⟨i, j, c, hlt, hci, heq ▸ hci⟩
  · exact h ⟨j, i, c, hgt, heq ▸ hci, hci⟩

lemma stops_iff (S : Finset α) (hS : ∀ k c, trail step k a = some c → c ∈ S) :
    Stops step a ↔ ¬Revisits step a :=
  ⟨fun hstop hre => hre.not_stops hstop, fun h => ⟨_, trail_card_eq_none S hS h⟩⟩

lemma stops_iff_of_finite [Finite α] : Stops step a ↔ ¬Revisits step a := by
  have := Fintype.ofFinite α
  exact stops_iff Finset.univ fun _ _ _ => Finset.mem_univ _

lemma Revisits.of_fixed (h : step a = some a) : Revisits step a :=
  ⟨0, 1, a, Nat.zero_lt_one, rfl, by rw [trail, h, Option.bind_some, trail]⟩

lemma Revisits.of_trail (h : Revisits step c) (hk : trail step k a = some c) : Revisits step a := by
  obtain ⟨i, j, d, hij, hi, hj⟩ := h
  refine ⟨k + i, k + j, d, Nat.add_lt_add_left hij k, ?_, ?_⟩
  · rw [trail_add, hk, Option.bind_some, hi]
  · rw [trail_add, hk, Option.bind_some, hj]

/-- A search along which a measure grows never comes back. -/
lemma not_revisits_of_lt (measure : α → Nat)
    (hgrow : ∀ k c c', trail step k a = some c → step c = some c' → measure c < measure c') : ¬Revisits step a := by
  have hlater : ∀ i c, trail step i a = some c → ∀ d c', trail step (i + (d + 1)) a = some c' →
      measure c < measure c' := by
    intro i c hi d
    induction d with
    | zero =>
      intro c' hj
      rw [trail_succ, hi, Option.bind_some] at hj
      exact hgrow i c c' hi hj
    | succ d ih =>
      intro c' hj
      rw [← Nat.add_assoc, trail_succ] at hj
      obtain ⟨b, hb, hrest⟩ := Option.bind_eq_some_iff.mp hj
      exact (ih b hb).trans (hgrow _ b c' hb hrest)
  rintro ⟨i, j, c, hij, hi, hj⟩
  obtain ⟨d, rfl⟩ := Nat.exists_eq_add_of_lt hij
  exact Nat.lt_irrefl _ (hlater i c hi d c hj)

section Links

variable [DecidableEq α] {next : α → α} {stop : α}

/-- Following links up to the stop value. -/
def linkStep (next : α → α) (stop a : α) : Option α := if a = stop then none else some (next a)

lemma exists_chain_of_stops (h : Stops (linkStep next stop) a) : ∃ l, Chain next stop a l := by
  obtain ⟨k, hk⟩ := h
  induction k generalizing a with
  | zero => cases hk
  | succ k ih =>
    by_cases ha : a = stop
    · subst ha
      exact ⟨[], .nil⟩
    · rw [trail, linkStep, if_neg ha, Option.bind_some] at hk
      obtain ⟨l, hl⟩ := ih hk
      exact ⟨a :: l, .cons ha hl⟩

variable {P : α → Prop} [DecidablePred P]

/-- Following links up to the stop value or to a point of the kind looked for. -/
def searchStep (P : α → Prop) [DecidablePred P] (next : α → α) (stop a : α) : Option α :=
  if a = stop ∨ P a then none else some (next a)

/-- The links lead to a point of the kind looked for. -/
def LeadsTo (P : α → Prop) (next : α → α) (stop a : α) : Prop :=
  ∃ k c, trail (linkStep next stop) k a = some c ∧ c ≠ stop ∧ P c

lemma trail_search_eq_none_iff (k : Nat) (a : α) : trail (searchStep P next stop) k a = none ↔
    trail (linkStep next stop) k a = none ∨ ∃ j < k, ∃ c, trail (linkStep next stop) j a = some c ∧ c ≠ stop ∧ P c := by
  induction k generalizing a with
  | zero =>
    refine iff_of_false (Option.some_ne_none a) ?_
    rintro (h | ⟨j, hj, -⟩)
    · exact Option.some_ne_none a h
    · exact Nat.not_lt_zero j hj
  | succ k ih =>
    by_cases ha : a = stop
    · exact iff_of_true (by rw [trail, searchStep, if_pos (Or.inl ha), Option.bind_none])
        (Or.inl (by rw [trail, linkStep, if_pos ha, Option.bind_none]))
    by_cases hP : P a
    · exact iff_of_true (by rw [trail, searchStep, if_pos (Or.inr hP), Option.bind_none])
        (Or.inr ⟨0, Nat.succ_pos k, a, rfl, ha, hP⟩)
    -- neither ends at `a`, so both go on at the next point
    have hlink : ∀ j, trail (linkStep next stop) (j + 1) a = trail (linkStep next stop) j (next a) := by
      intro j
      rw [trail, linkStep, if_neg ha, Option.bind_some]
    rw [trail, searchStep, if_neg (not_or.mpr ⟨ha, hP⟩), Option.bind_some, ih, hlink]
    refine or_congr_right ⟨?_, ?_⟩
    · rintro ⟨j, hj, c, hc, hfound⟩
      exact ⟨j + 1, Nat.succ_lt_succ hj, c, (hlink j).trans hc, hfound⟩
    · rintro ⟨j, hj, c, hc, hfound⟩
      cases j with
      | zero =>
        cases hc
        exact absurd hfound.2 hP
      | succ j => exact ⟨j, Nat.lt_of_succ_lt_succ hj, c, (hlink j).symm.trans hc, hfound⟩

/-- A search along links stops if the links do or if they lead to what it looks for. -/
lemma stops_search_iff : Stops (searchStep P next stop) a ↔ Stops (linkStep next stop) a ∨ LeadsTo P next stop a := by
  constructor
  · rintro ⟨k, hk⟩
    rcases (trail_search_eq_none_iff k a).mp hk with hends | ⟨j, -, hfound⟩
    · exact Or.inl ⟨k, hends⟩
    · exact Or.inr ⟨j, hfound⟩
  · rintro (⟨k, hends⟩ | ⟨j, hfound⟩)
    · exact ⟨k, (trail_search_eq_none_iff k a).mpr (Or.inl hends)⟩
    · exact ⟨j + 1, (trail_search_eq_none_iff _ a).mpr (Or.inr ⟨j, Nat.lt_succ_self j, hfound⟩)⟩

end Links

end JavaScriptOS.Lib
