import Mathlib.Tactic.Common

/-!
# Runs of a system with faults

A system takes calls, and a step may fault. `Reach start step Ok` are the states reached from a
state in `start` by calls that satisfy `Ok` in the state they are made in.
-/

namespace JavaScriptOS.Lib

variable {S C E : Type}

lemma bind_eq_ok {α β : Type} {x : Except E α} {f : α → Except E β} {r : β} :
    x >>= f = .ok r ↔ ∃ a, x = .ok a ∧ f a = .ok r := by
  cases x with
  | error e => simp [bind, Except.bind]
  | ok a => simp [bind, Except.bind]

lemma ok_bind {α β : Type} (a : α) (f : α → Except E β) : (Except.ok a >>= f) = f a := rfl

/-- The outcome of a step whose outcome is known to satisfy a test. -/
lemma ok_of_any {α : Type} {x : Except E α} {test : α → Bool} (h : x.toOption.any test = true) :
    ∃ a, x = .ok a ∧ test a = true := by
  cases x with
  | error e => cases h
  | ok a => exact ⟨a, rfl, h⟩

/-- The fault of a step, if it faults. -/
def faultOf {α : Type} : Except E α → Option E
  | .error e => some e
  | .ok _ => none

lemma faultOf_eq_some {α : Type} {x : Except E α} {e : E} : faultOf x = some e ↔ x = .error e := by
  cases x with
  | error e' => simp [faultOf]
  | ok a => simp [faultOf]

inductive Reach (start : S → Prop) (step : S → C → Except E S) (Ok : S → C → Prop) : S → Prop
  | init {s : S} : start s → Reach start step Ok s
  | step {s s' : S} (c : C) : Reach start step Ok s → Ok s c → step s c = .ok s' → Reach start step Ok s'

variable {start : S → Prop} {step : S → C → Except E S} {Ok : S → C → Prop} {P : S → Prop} {s s' : S}

/-- An invariant that every allowed call keeps unless it faults. -/
lemma Reach.preserved (hstart : ∀ s, start s → P s)
    (hstep : ∀ s c s', P s → Ok s c → step s c = .ok s' → P s') (hr : Reach start step Ok s) : P s := by
  induction hr with
  | init hs => exact hstart _ hs
  | step c _ hok hrun ih => exact hstep _ c _ ih hok hrun

/-- An invariant that makes every allowed call succeed and that such calls keep. -/
lemma Reach.invariant (hstart : ∀ s, start s → P s)
    (hstep : ∀ s c, P s → Ok s c → ∃ s', step s c = .ok s' ∧ P s') (hr : Reach start step Ok s) : P s := by
  apply hr.preserved hstart
  intro s c s' hP hok hrun
  obtain ⟨s₁, hrun', hP'⟩ := hstep s c hP hok
  rw [hrun'] at hrun
  cases hrun
  exact hP'

/-- The state after a list of calls, if each satisfies `Ok` and none faults. -/
def play (step : S → C → Except E S) (Ok : S → C → Prop) [∀ s c, Decidable (Ok s c)] : S → List C → Option S
  | s, [] => some s
  | s, c :: cs => if Ok s c then (step s c).toOption.bind (play step Ok · cs) else none

lemma Reach.play [∀ s c, Decidable (Ok s c)] {cs : List C} (hr : Reach start step Ok s)
    (hplay : play step Ok s cs = some s') : Reach start step Ok s' := by
  induction cs generalizing s with
  | nil =>
    cases hplay
    exact hr
  | cons c cs ih =>
    rw [Lib.play] at hplay
    by_cases hok : Ok s c
    · rw [if_pos hok] at hplay
      cases hrun : step s c with
      | error e =>
        rw [hrun] at hplay
        cases hplay
      | ok s1 =>
        rw [hrun] at hplay
        exact ih (.step c hr hok hrun) hplay
    · rw [if_neg hok] at hplay
      cases hplay

end JavaScriptOS.Lib
