import Mathlib.Logic.Relation
import Mathlib.Data.List.Basic

/-!
# Generators as event traces

A coroutine body is the list of events it performs, in order, together with the state it
leaves behind. `none` means that the recursion budget handed to the body ran out. The rules
below are total: a postcondition of `Gen.Yields` includes that the body finishes.
-/

namespace JavaScriptOS.Lib

def Gen (σ ε : Type) := σ → Option (List ε × σ)

namespace Gen

variable {σ ε α : Type}

def done : Gen σ ε := fun s => some ([], s)

def emit (e : ε) : Gen σ ε := fun s => some ([e], s)

def update (f : σ → σ) : Gen σ ε := fun s => some ([], f s)

def andThen (g h : Gen σ ε) : Gen σ ε := fun s =>
  match g s with
  | none => none
  | some (e, s') =>
    match h s' with
    | none => none
    | some (e', s'') => some (e ++ e', s'')

lemma andThen_assoc (g h k : Gen σ ε) : andThen (andThen g h) k = andThen g (andThen h k) := by
  funext s
  unfold andThen
  cases hg : g s with
  | none => simp only
  | some p =>
    obtain ⟨e, s'⟩ := p
    cases hh : h s' with
    | none => simp only [hh]
    | some q =>
      obtain ⟨e', s''⟩ := q
      cases hk : k s'' with
      | none => simp only [hh, hk]
      | some r => simp only [hh, hk, List.append_assoc]

/-- Continue with a body chosen by the current state. -/
def read (k : σ → Gen σ ε) : Gen σ ε := fun s => k s s

def forEach (body : α → Gen σ ε) : List α → Gen σ ε
  | [] => done
  | a :: l => andThen (body a) (forEach body l)

/-- The body finishes from `s`, and its events and final state satisfy `Q`. -/
def Yields (g : Gen σ ε) (s : σ) (Q : List ε → σ → Prop) : Prop :=
  ∃ e s', g s = some (e, s') ∧ Q e s'

lemma yields_of_eq {g : Gen σ ε} {s s' : σ} {e : List ε} {Q : List ε → σ → Prop}
    (h : g s = some (e, s')) (hq : Q e s') : Yields g s Q := ⟨e, s', h, hq⟩

lemma Yields.mono {g : Gen σ ε} {s : σ} {Q R : List ε → σ → Prop} (h : Yields g s Q)
    (hqr : ∀ e s', Q e s' → R e s') : Yields g s R := by
  obtain ⟨e, s', hg, hq⟩ := h
  exact ⟨e, s', hg, hqr e s' hq⟩

lemma Yields.read {k : σ → Gen σ ε} {s : σ} {Q : List ε → σ → Prop} (h : Yields (k s) s Q) :
    Yields (Gen.read k) s Q := h

theorem Yields.andThen {g h : Gen σ ε} {s : σ} {Q R : List ε → σ → Prop} (hg : Yields g s Q)
    (hh : ∀ e s', Q e s' → Yields h s' (fun e' s'' => R (e ++ e') s'')) :
    Yields (Gen.andThen g h) s R := by
  obtain ⟨e, s', hge, hq⟩ := hg
  obtain ⟨e', s'', hhe, hr⟩ := hh e s' hq
  refine ⟨e ++ e', s'', ?_, hr⟩
  simp only [Gen.andThen, hge, hhe]

/-- Loop rule: an invariant of the elements handled so far, the events so far and the state. -/
theorem Yields.forEach {body : α → Gen σ ε} (Inv : List α → List ε → σ → Prop) (l : List α)
    {s : σ} (hinit : Inv [] [] s)
    (hstep : ∀ before a, before ++ [a] <+: l → ∀ e s', Inv before e s' →
      Yields (body a) s' (fun e' s'' => Inv (before ++ [a]) (e ++ e') s'')) :
    Yields (Gen.forEach body l) s (Inv l) := by
  have hgen : ∀ rest before e s', before ++ rest = l → Inv before e s' →
      Yields (Gen.forEach body rest) s' (fun e' s'' => Inv l (e ++ e') s'') := by
    intro rest
    induction rest with
    | nil =>
      intro before e s' hl hinv
      have hb : before = l := by simpa using hl
      subst hb
      exact yields_of_eq (e := []) rfl (by simpa using hinv)
    | cons a rest ih =>
      intro before e s' hl hinv
      have hpre : before ++ [a] <+: l := ⟨rest, by simpa using hl⟩
      refine (hstep before a hpre e s' hinv).andThen (fun e₁ s₁ h₁ => ?_)
      have hi := ih (before ++ [a]) (e ++ e₁) s₁ (by simpa using hl) h₁
      simpa only [List.append_assoc] using hi
  simpa using hgen l [] [] s rfl hinit

/-- `h` answers everything `g` answers, in the same way. -/
def Extends (g h : Gen σ ε) : Prop := ∀ s r, g s = some r → h s = some r

lemma Extends.refl (g : Gen σ ε) : Extends g g := fun _ _ h => h

lemma Extends.andThen {g g' h h' : Gen σ ε} (hg : Extends g g') (hh : Extends h h') :
    Extends (Gen.andThen g h) (Gen.andThen g' h') := by
  intro s r hr
  unfold Gen.andThen at hr ⊢
  cases hgs : g s with
  | none => simp [hgs] at hr
  | some p =>
    obtain ⟨e, s'⟩ := p
    rw [hg s _ hgs]
    cases hhs : h s' with
    | none => simp [hgs, hhs] at hr
    | some q =>
      rw [hgs] at hr
      simp only [hhs, hh s' _ hhs] at hr ⊢
      exact hr

lemma Extends.forEach {body body' : α → Gen σ ε} (hb : ∀ a, Extends (body a) (body' a))
    (l : List α) : Extends (Gen.forEach body l) (Gen.forEach body' l) := by
  induction l with
  | nil => exact Extends.refl _
  | cons a l ih => exact (hb a).andThen ih

lemma Extends.read {k k' : σ → Gen σ ε} (hk : ∀ s, Extends (k s) (k' s)) :
    Extends (Gen.read k) (Gen.read k') := fun s r h => hk s s r h

end Gen

end JavaScriptOS.Lib
