import Mathlib.Tactic.Common

/-!
# Machines with a history

Code that acts on a machine step by step and may halt. Beside the machine the run keeps its history: the
acts so far, each with the state it left, so that a result can be about the states in between. `Ends`
describes a run through a view of the machine.
-/

namespace JavaScriptOS.Lib

structure History (σ ε : Type) where
  state : σ
  /-- The acts so far, latest first, each with the state it left. -/
  past : List (ε × σ)

abbrev HistoryM (σ ε : Type) := OptionT (StateM (History σ ε))

variable {σ τ ε α β : Type}

namespace History

def start (s : σ) : History σ ε := ⟨s, []⟩

def acted (h : History σ ε) (e : ε) (s : σ) : History σ ε := ⟨s, (e, s) :: h.past⟩

def map (view : σ → τ) (h : History σ ε) : History τ ε := ⟨view h.state, h.past.map (Prod.map id view)⟩

end History

namespace HistoryM

/-- A step that only looks. -/
def look (m : StateM σ α) : HistoryM σ ε α := fun h => (some (m h.state).1, { h with state := (m h.state).2 })

def act (e : ε) (m : StateM σ Unit) : HistoryM σ ε Unit := fun h => (some (), h.acted e (m h.state).2)

def halt : HistoryM σ ε α := fun h => (none, h)

def orHalt : Option α → HistoryM σ ε α
  | some a => pure a
  | none => halt

/-- An assertion: the run goes on only if it holds. -/
def verify (p : Prop) [Decidable p] : HistoryM σ ε Unit := if p then pure () else halt

def exec (m : HistoryM σ ε α) (s : σ) : Option α × History σ ε := m (.start s)

lemma bind_apply (m : HistoryM σ ε α) (f : α → HistoryM σ ε β) (h : History σ ε) :
    (m >>= f) h = (m h).1.elim (none, (m h).2) fun a => f a (m h).2 := by
  change (match m h with
    | (o, h') => (match o with
      | some a => f a
      | none => Pure.pure none : StateM (History σ ε) (Option β)) h') = _
  obtain ⟨o, h'⟩ := m h
  cases o <;> rfl

end HistoryM

section Ensures

variable (view : σ → τ) (m : HistoryM σ ε α) (g : History τ ε)

/-- From every history with view `g`, the result of `m` (`none` if it halts) and the view it leaves are in
`Q`. -/
def Ensures (Q : Option α → History τ ε → Prop) : Prop := ∀ h, h.map view = g → Q (m h).1 ((m h).2.map view)

abbrev Ends (o : Option α) (g' : History τ ε) : Prop := Ensures view m g fun o' g'' => o' = o ∧ g'' = g'

end Ensures

section Rules

variable {view : σ → τ} {m : HistoryM σ ε α} {f : α → HistoryM σ ε β} {g g₁ : History τ ε} {a : α}
variable {P : Option α → History τ ε → Prop} {Q : Option β → History τ ε → Prop}

lemma Ensures.exec {s : σ} (h : Ensures view m (.start (view s)) P) : P (m.exec s).1 ((m.exec s).2.map view) :=
  h _ rfl

lemma Ensures.pure (hP : P (some a) g) : Ensures view (Pure.pure a) g P := by
  rintro h rfl
  exact hP

lemma Ensures.halt (hP : P none g) : Ensures view HistoryM.halt g P := by
  rintro h rfl
  exact hP

lemma Ends.bind (hm : Ends view m g (some a) g₁) (hf : Ensures view (f a) g₁ Q) : Ensures view (m >>= f) g Q := by
  intro h hg
  obtain ⟨ha, hg₁⟩ := hm h hg
  rw [HistoryM.bind_apply, ha]
  exact hf _ hg₁

lemma Ends.bind_halted (hm : Ends view m g none g₁) (hQ : Q none g₁) : Ensures view (m >>= f) g Q := by
  intro h hg
  obtain ⟨ha, rfl⟩ := hm h hg
  rw [HistoryM.bind_apply, ha]
  exact hQ

lemma Ends.orHalt {o o' : Option α} (h : o' = o) (g : History τ ε) :
    Ends view (HistoryM.orHalt o' : HistoryM σ ε α) g o g := by
  subst h
  cases o' with
  | none => exact .halt ⟨rfl, rfl⟩
  | some a => exact .pure ⟨rfl, rfl⟩

lemma Ends.verify {p : Prop} [Decidable p] (hp : p) (g : History τ ε) :
    Ends view (HistoryM.verify p : HistoryM σ ε Unit) g (some ()) g := by
  rw [HistoryM.verify, if_pos hp]
  exact .pure ⟨rfl, rfl⟩

lemma Ends.verify_halts {p : Prop} [Decidable p] (hp : ¬p) (g : History τ ε) :
    Ends view (HistoryM.verify p : HistoryM σ ε Unit) g none g := by
  rw [HistoryM.verify, if_neg hp]
  exact .halt ⟨rfl, rfl⟩

lemma Ends.look {m : StateM σ α} (hm : ∀ s, view s = g.state → (m s).1 = a ∧ view (m s).2 = g.state) :
    Ends view (HistoryM.look m) g (some a) g := by
  rintro h rfl
  obtain ⟨ha, hs⟩ := hm h.state rfl
  refine ⟨congrArg some ha, ?_⟩
  simp only [HistoryM.look, History.map, hs]

lemma Ends.act {e : ε} {m : StateM σ Unit} {t : τ} (hm : ∀ s, view s = g.state → view (m s).2 = t) :
    Ends view (HistoryM.act e m) g (some ()) (g.acted e t) := by
  rintro h rfl
  refine ⟨rfl, ?_⟩
  simp only [HistoryM.act, History.map, History.acted, List.map_cons, Prod.map_apply, id, hm h.state rfl]

end Rules

end JavaScriptOS.Lib
