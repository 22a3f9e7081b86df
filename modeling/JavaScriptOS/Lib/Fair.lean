import Mathlib.Order.Monotone.Basic

/-!
# Progress under fair schedules

A schedule gives the event of every point in time. A rank that no event raises comes down to zero if each state
has a helpful event that lowers the rank, the other events leave it helpful until the rank is lower, and it comes
again and again.
-/

namespace JavaScriptOS.Lib

variable {S E : Type}

/-- The state after the first `n` events of a schedule. -/
def after (step : S → E → S) (s : S) (schedule : Nat → E) : Nat → S
  | 0 => s
  | n + 1 => step (after step s schedule n) (schedule n)

/-- The event comes again and again. -/
def Recurs (schedule : Nat → E) (e : E) : Prop := ∀ n, ∃ m, n ≤ m ∧ schedule m = e

section After

variable {step : S → E → S} {Inv : S → Prop} {schedule : Nat → E} {s : S}

lemma after_invariant (hinv : ∀ s e, Inv s → Inv (step s e)) (hs : Inv s) (n : Nat) :
    Inv (after step s schedule n) := by
  induction n with
  | zero => exact hs
  | succ n ih => exact hinv _ _ ih

variable {rank : S → Nat} {helpful : S → E}

/-- What a step does to the rank and to the helpful event. -/
structure Ranked (step : S → E → S) (Inv : S → Prop) (rank : S → Nat) (helpful : S → E) : Prop where
  inv : ∀ s e, Inv s → Inv (step s e)
  waits : ∀ s e, Inv s → rank (step s e) < rank s ∨ rank (step s e) = rank s ∧ helpful (step s e) = helpful s
  helps : ∀ s, Inv s → 0 < rank s → rank (step s (helpful s)) < rank s

lemma Ranked.antitone (h : Ranked step Inv rank helpful) (hs : Inv s) :
    Antitone fun m => rank (after step s schedule m) := by
  apply antitone_nat_of_succ_le
  intro m
  rcases h.waits _ (schedule m) (after_invariant h.inv hs m) with hlt | ⟨heq, -⟩
  · exact hlt.le
  · exact heq.le

/-- Until the rank is lower, the event that helped still helps. -/
lemma Ranked.helpful_eq (h : Ranked step Inv rank helpful) (hs : Inv s) {n m : Nat} (hnm : n ≤ m)
    (hsame : rank (after step s schedule n) ≤ rank (after step s schedule m)) :
    helpful (after step s schedule m) = helpful (after step s schedule n) := by
  induction m, hnm using Nat.le_induction with
  | base => rfl
  | succ m hnm ih =>
    have hbefore : rank (after step s schedule m) ≤ rank (after step s schedule n) := h.antitone hs hnm
    rcases h.waits _ (schedule m) (after_invariant h.inv hs m) with hlt | ⟨heq, hhelp⟩
    · exact absurd (hsame.trans_lt (hlt.trans_le hbefore)) (lt_irrefl _)
    · exact hhelp.trans (ih (hsame.trans heq.le))

lemma Ranked.decreases (h : Ranked step Inv rank helpful) (hs : Inv s)
    (hfair : ∀ s, Recurs schedule (helpful s)) {n : Nat} (hpos : 0 < rank (after step s schedule n)) :
    ∃ m, n ≤ m ∧ rank (after step s schedule m) < rank (after step s schedule n) := by
  by_contra hnone
  have hsame : ∀ m, n ≤ m → rank (after step s schedule n) ≤ rank (after step s schedule m) :=
    fun m hm => not_lt.mp fun hlt => hnone ⟨m, hm, hlt⟩
  obtain ⟨m, hm, hevent⟩ := hfair (after step s schedule n) n
  have hhelp := h.helps _ (after_invariant h.inv hs m) (hpos.trans_le (hsame m hm))
  rw [h.helpful_eq hs hm (hsame m hm), ← hevent] at hhelp
  have hlow : rank (after step s schedule (m + 1)) < rank (after step s schedule n) :=
    hhelp.trans_le (h.antitone hs hm)
  exact hnone ⟨m + 1, Nat.le_succ_of_le hm, hlow⟩

/-- The rank comes down to zero and stays there. -/
lemma Ranked.settles (h : Ranked step Inv rank helpful) (hs : Inv s) (hfair : ∀ s, Recurs schedule (helpful s)) :
    ∃ n, ∀ m, n ≤ m → rank (after step s schedule m) = 0 := by
  have hzero : ∀ k n, rank (after step s schedule n) = k → ∃ m, rank (after step s schedule m) = 0 := by
    intro k
    induction k using Nat.strong_induction_on with
    | _ k ih =>
      intro n hn
      rcases Nat.eq_zero_or_pos k with rfl | hpos
      · exact ⟨n, hn⟩
      · obtain ⟨m, -, hlt⟩ := h.decreases hs hfair (hn ▸ hpos)
        exact ih _ (hn ▸ hlt) m rfl
  obtain ⟨n, hn⟩ := hzero _ 0 rfl
  exact ⟨n, fun m hm => Nat.le_zero.mp (hn ▸ h.antitone hs hm)⟩

end After

end JavaScriptOS.Lib
