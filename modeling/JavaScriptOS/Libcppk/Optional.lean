import JavaScriptOS.Lib.Ledger
import Mathlib.Data.List.Induction

/-!
# `optional`

A program makes and uses optional objects, which are named by numbers. The storage of an object is raw or holds an
object of type `T`, with its number in the order of construction. The byte of `initialized` is tested against 0, and a
constructor finds an arbitrary byte there. To assign to, read or destroy an object of type `T` that is not there is a
fault, `none`. A moved-from object of type `T` is destroyed at once and its value is not modelled.
-/

namespace JavaScriptOS.Libcppk.Optional
open JavaScriptOS.Lib

variable {T : Type}

structure Slot (T : Type) where
  storage : Option (Nat × T)
  initialized : BitVec 8

/-- The optional objects, and how many objects of type `T` were constructed and which of them destroyed. -/
structure State (T : Type) where
  slots : Nat → Slot T
  constructed : Nat
  destroyed : List Nat

/-- What a program does with the objects. `raw` is the byte that a constructor finds for `initialized`. -/
inductive Op (T : Type) where
  | default (x : Nat) (raw : BitVec 8)
  | ofValue (x : Nat) (raw : BitVec 8) (value : T)
  | copy (x : Nat) (raw : BitVec 8) (other : Nat)
  | move (x : Nat) (raw : BitVec 8) (other : Nat)
  | assign (x : Nat) (newValue : T)
  | reset (x : Nat)
  | destroy (x : Nat)

namespace State

def hasValue (s : State T) (x : Nat) : Bool := (s.slots x).initialized ≠ 0

def value (s : State T) (x : Nat) : Option T := (s.slots x).storage.map Prod.snd

/-- The storage that a constructor is given. -/
def provide (s : State T) (x : Nat) (raw : BitVec 8) : State T :=
  { s with slots := Function.update s.slots x ⟨none, raw⟩ }

def construct (s : State T) (x : Nat) (newValue : T) : State T :=
  { slots := Function.update s.slots x ⟨some (s.constructed, newValue), 1⟩
    constructed := s.constructed + 1
    destroyed := s.destroyed }

def reset (s : State T) (x : Nat) : Option (State T) :=
  if s.hasValue x then do
    let (number, _) ← (s.slots x).storage
    return { s with slots := Function.update s.slots x ⟨none, 0⟩, destroyed := number :: s.destroyed }
  else some s

def assign (s : State T) (x : Nat) (newValue : T) : Option (State T) :=
  if s.hasValue x then do
    let (number, _) ← (s.slots x).storage
    return { s with slots := Function.update s.slots x ⟨some (number, newValue), (s.slots x).initialized⟩ }
  else some (s.construct x newValue)

def defaultConstruct (s : State T) (x : Nat) (raw : BitVec 8) : State T :=
  let s := s.provide x raw
  { s with slots := Function.update s.slots x ⟨(s.slots x).storage, 0⟩ }

def copyConstruct (s : State T) (x : Nat) (raw : BitVec 8) (other : Nat) : Option (State T) := do
  let s := s.provide x raw
  if s.hasValue other then
    let value ← s.value other
    return s.construct x value
  else return s

def moveConstruct (s : State T) (x : Nat) (raw : BitVec 8) (other : Nat) : Option (State T) := do
  let s := s.provide x raw
  if s.hasValue other then
    let value ← s.value other
    (s.construct x value).reset other
  else return s

def start : State T := ⟨fun _ => ⟨none, 0⟩, 0, []⟩

def step (s : State T) : Op T → Option (State T)
  | .default x raw => some (s.defaultConstruct x raw)
  | .ofValue x raw value => some ((s.provide x raw).construct x value)
  | .copy x raw other => s.copyConstruct x raw other
  | .move x raw other => s.moveConstruct x raw other
  | .assign x newValue => s.assign x newValue
  | .reset x => s.reset x
  | .destroy x => s.reset x

def run (prog : List (Op T)) : Option (State T) := prog.foldlM step start

end State

/-- The objects as values of type `Option T`, with `none` where there is no object. -/
abbrev Model (T : Type) := Nat → Option (Option T)

namespace Model

def start : Model T := fun _ => none

/-- A construction where there is no object yet. -/
def construct (m : Model T) (x : Nat) (value : Option T) : Option (Model T) :=
  if (m x).isNone then some (Function.update m x (some value)) else none

/-- What the program should do, unless it uses an object that does not exist or constructs one twice. -/
def step (m : Model T) : Op T → Option (Model T)
  | .default x _ => m.construct x none
  | .ofValue x _ value => m.construct x (some value)
  | .copy x _ other => do
    let value ← m other
    m.construct x value
  | .move x _ other => do
    let value ← m other
    let m ← m.construct x value
    return Function.update m other (some none)
  | .assign x newValue => do
    let _ ← m x
    return Function.update m x (some (some newValue))
  | .reset x => do
    let _ ← m x
    return Function.update m x (some none)
  | .destroy x => do
    let _ ← m x
    return Function.update m x none

def run (prog : List (Op T)) : Option (Model T) := prog.foldlM step start

end Model

/-- `has_value` and `value` of every object are those of its `Option`, no object of type `T` is destroyed twice, and
each is destroyed once all optional objects are. -/
structure Refines (s : State T) (m : Model T) : Prop where
  hasValue : ∀ x o, m x = some o → s.hasValue x = o.isSome
  value : ∀ x v, m x = some (some v) → s.value x = some v
  atMostOnce : ∀ k, s.destroyed.count k ≤ 1
  exactlyOnce : (∀ x, m x = none) → ∀ k < s.constructed, s.destroyed.count k = 1

/-- A program does, up to any point, what it should. -/
def Correct (prog : List (Op T)) : Prop :=
  ∀ pre m, pre <+: prog → Model.run pre = some m → ∃ s, State.run pre = some s ∧ Refines s m

/-- An operation that copies or moves an empty object to where the flag is not cleared. -/
def Stale (m : Model T) : Op T → Prop
  | .copy x raw other | .move x raw other => m x = none ∧ m other = some none ∧ raw ≠ 0
  | _ => False

def Clean (prog : List (Op T)) : Prop := ∀ pre op m, pre ++ [op] <+: prog → Model.run pre = some m → ¬Stale m op

def SlotMatches : Option (Option T) → Slot T → Prop
  | none, slot => slot.storage = none
  | some o, slot => (slot.initialized ≠ 0 ↔ o.isSome) ∧ slot.storage.map Prod.snd = o

def State.ledger (s : State T) : Ledger Nat :=
  ⟨s.constructed, s.destroyed, fun x => (s.slots x).storage.map Prod.fst⟩

/-- What links the two runs of a program. -/
structure Inv (s : State T) (m : Model T) : Prop where
  slots : ∀ x, SlotMatches (m x) (s.slots x)
  ledger : s.ledger.Balanced

variable {s : State T} {m m' : Model T} {slots : Nat → Slot T} {slot : Slot T} {o : Option T} {x other : Nat}
  {raw : BitVec 8} {v : T} {op : Op T} {prog pre : List (Op T)}

section Slots

lemma slots_provide_self : (s.provide x raw).slots x = ⟨none, raw⟩ := Function.update_self _ _ _

lemma slots_provide_of_ne (h : other ≠ x) : (s.provide x raw).slots other = s.slots other :=
  Function.update_of_ne h _ _

lemma hasValue_provide_of_ne (h : other ≠ x) : (s.provide x raw).hasValue other = s.hasValue other := by
  rw [State.hasValue, slots_provide_of_ne h, State.hasValue]

lemma slotMatches_update {w : Option (Option T)} (h : ∀ y, SlotMatches (m y) (slots y)) (hx : SlotMatches w slot)
    (y : Nat) : SlotMatches (Function.update m x w y) (Function.update slots x slot y) := by
  by_cases hy : y = x
  · subst hy
    rw [Function.update_self, Function.update_self]
    exact hx
  · rw [Function.update_of_ne hy, Function.update_of_ne hy]
    exact h y

lemma slotMatches_empty : SlotMatches (some none) (⟨none, 0⟩ : Slot T) :=
  ⟨iff_of_false (not_not_intro rfl) Bool.false_ne_true, rfl⟩

lemma slotMatches_value (k : Nat) (v : T) : SlotMatches (some (some v)) ⟨some (k, v), 1⟩ :=
  ⟨iff_of_true (by change (1 : BitVec 8) ≠ 0; decide) rfl, rfl⟩

lemma held_update (slots : Nat → Slot T) (x : Nat) (slot : Slot T) :
    (fun y => (Function.update slots x slot y).storage.map Prod.fst) =
      Function.update (fun y => (slots y).storage.map Prod.fst) x (slot.storage.map Prod.fst) := by
  funext y
  rw [Function.update_apply, Function.update_apply]
  split <;> rfl

lemma ledger_construct (s : State T) (x : Nat) (v : T) : (s.construct x v).ledger = s.ledger.issue x :=
  congrArg (Ledger.mk (s.constructed + 1) s.destroyed) (held_update s.slots x _)

lemma ledger_destroy (s : State T) (x k : Nat) :
    State.ledger ⟨Function.update s.slots x ⟨none, 0⟩, s.constructed, k :: s.destroyed⟩ = s.ledger.giveBack x k :=
  congrArg (Ledger.mk s.constructed (k :: s.destroyed)) (held_update s.slots x _)

/-- A slot that keeps its object of type `T`, or goes on without one, leaves the ledger alone. -/
lemma ledger_update (h : slot.storage.map Prod.fst = (s.slots x).storage.map Prod.fst) :
    State.ledger { s with slots := Function.update s.slots x slot } = s.ledger := by
  apply congrArg (Ledger.mk s.constructed s.destroyed)
  rw [held_update, h]
  exact Function.update_eq_self x _

end Slots

namespace Inv

lemma hasValue_eq (h : Inv s m) (hx : m x = some o) : s.hasValue x = o.isSome := by
  have hslot := h.slots x
  rw [hx] at hslot
  exact Bool.eq_iff_iff.mpr (decide_eq_true_iff.trans hslot.1)

lemma value_eq (h : Inv s m) (hx : m x = some o) : s.value x = o := by
  have hslot := h.slots x
  rw [hx] at hslot
  exact hslot.2

lemma storage_eq_none (h : Inv s m) (hx : m x = none ∨ m x = some none) : (s.slots x).storage = none := by
  have hslot := h.slots x
  rcases hx with hx | hx
  · rw [hx] at hslot
    exact hslot
  · rw [hx] at hslot
    exact Option.map_eq_none_iff.mp hslot.2

lemma exists_storage (h : Inv s m) (hx : m x = some (some v)) : ∃ k, (s.slots x).storage = some (k, v) := by
  obtain ⟨⟨k, w⟩, hstorage, hw⟩ := Option.map_eq_some_iff.mp (h.value_eq hx)
  cases hw
  exact ⟨k, hstorage⟩

lemma refines (h : Inv s m) : Refines s m where
  hasValue _ _ hx := h.hasValue_eq hx
  value _ _ hx := h.value_eq hx
  atMostOnce k := h.ledger.count_le_one k
  exactlyOnce hdead _ hk := by
    apply h.ledger.count_eq_one _ hk
    intro x
    exact Option.map_eq_none_iff.mpr (h.storage_eq_none (Or.inl (hdead x)))

lemma start : Inv (State.start : State T) Model.start := ⟨fun _ => rfl, Ledger.balanced_empty⟩

/-- A change of one slot that leaves the ledger alone. -/
lemma update {w : Option (Option T)} (h : Inv s m) (x : Nat) (slot : Slot T) (hx : SlotMatches w slot)
    (hheld : slot.storage.map Prod.fst = (s.slots x).storage.map Prod.fst) :
    Inv { s with slots := Function.update s.slots x slot } (Function.update m x w) := by
  refine ⟨slotMatches_update h.slots hx, ?_⟩
  rw [ledger_update hheld]
  exact h.ledger

/-- A change of the model alone. -/
lemma update_model {w : Option (Option T)} (h : Inv s m) (hx : SlotMatches w (s.slots x)) :
    Inv s (Function.update m x w) := by
  have hupdate := h.update x (s.slots x) hx rfl
  rwa [Function.update_eq_self] at hupdate

lemma provide (h : Inv s m) (hx : m x = none) (raw : BitVec 8) : Inv (s.provide x raw) m := by
  have hslot : SlotMatches (m x) (⟨none, raw⟩ : Slot T) := by
    rw [hx]
    rfl
  have hupdate := h.update x ⟨none, raw⟩ hslot (by rw [h.storage_eq_none (Or.inl hx)])
  rwa [Function.update_eq_self] at hupdate

lemma construct (h : Inv s m) (hx : (s.slots x).storage = none) (v : T) :
    Inv (s.construct x v) (Function.update m x (some (some v))) := by
  refine ⟨slotMatches_update h.slots (slotMatches_value _ v), ?_⟩
  rw [ledger_construct]
  exact h.ledger.issue (Option.map_eq_none_iff.mpr hx)

lemma reset (h : Inv s m) (hx : m x = some o) :
    ∃ s', s.reset x = some s' ∧ Inv s' (Function.update m x (some none)) := by
  cases o with
  | none =>
    refine ⟨s, ?_, ?_⟩
    · rw [State.reset, h.hasValue_eq hx]
      rfl
    · rw [← hx, Function.update_eq_self]
      exact h
  | some v =>
    obtain ⟨k, hstorage⟩ := h.exists_storage hx
    refine ⟨⟨Function.update s.slots x ⟨none, 0⟩, s.constructed, k :: s.destroyed⟩, ?_,
      slotMatches_update h.slots slotMatches_empty, ?_⟩
    · rw [State.reset, h.hasValue_eq hx, hstorage]
      rfl
    · rw [ledger_destroy]
      exact h.ledger.giveBack (congrArg (Option.map Prod.fst) hstorage)

lemma assign (h : Inv s m) (hx : m x = some o) (v : T) :
    ∃ s', s.assign x v = some s' ∧ Inv s' (Function.update m x (some (some v))) := by
  cases o with
  | none =>
    refine ⟨_, ?_, h.construct (h.storage_eq_none (Or.inr hx)) v⟩
    rw [State.assign, h.hasValue_eq hx]
    rfl
  | some w =>
    obtain ⟨k, hstorage⟩ := h.exists_storage hx
    refine ⟨_, ?_, h.update x ⟨some (k, v), (s.slots x).initialized⟩ ⟨?_, rfl⟩ ?_⟩
    · rw [State.assign, h.hasValue_eq hx, hstorage]
      rfl
    · exact decide_eq_true_iff.symm.trans (by rw [← State.hasValue, h.hasValue_eq hx]; rfl)
    · rw [hstorage]
      rfl

/-- A new object that finds its flag cleared is empty. -/
lemma empty (h : Inv s m) (hx : m x = none) (hflag : (s.slots x).initialized = 0) :
    Inv s (Function.update m x (some none)) := by
  apply h.update_model
  refine ⟨iff_of_false (not_not_intro hflag) Bool.false_ne_true, ?_⟩
  rw [h.storage_eq_none (Or.inl hx)]
  rfl

lemma defaultConstruct (h : Inv s m) (hx : m x = none) (raw : BitVec 8) :
    Inv (s.defaultConstruct x raw) (Function.update m x (some none)) := by
  have hstorage := (h.provide hx raw).storage_eq_none (Or.inl hx)
  apply (h.provide hx raw).update x
  · rw [hstorage]
    exact slotMatches_empty
  · rfl

lemma copyConstruct (h : Inv s m) (hx : m x = none) (hother : m other = some o) (hraw : o = none → raw = 0) :
    ∃ s', s.copyConstruct x raw other = some s' ∧ Inv s' (Function.update m x (some o)) := by
  have hprovide := h.provide hx raw
  rw [State.copyConstruct, hprovide.hasValue_eq hother, hprovide.value_eq hother]
  cases o with
  | none => exact ⟨_, rfl, hprovide.empty hx (by rw [slots_provide_self, hraw rfl])⟩
  | some v => exact ⟨_, rfl, hprovide.construct (hprovide.storage_eq_none (Or.inl hx)) v⟩

lemma moveConstruct (h : Inv s m) (hx : m x = none) (hother : m other = some o) (hraw : o = none → raw = 0) :
    ∃ s', s.moveConstruct x raw other = some s' ∧
      Inv s' (Function.update (Function.update m x (some o)) other (some none)) := by
  have hprovide := h.provide hx raw
  have hne : other ≠ x := by
    rintro rfl
    rw [hx] at hother
    cases hother
  rw [State.moveConstruct, hprovide.hasValue_eq hother, hprovide.value_eq hother]
  have hkept : Function.update m x (some o) other = some o := by rw [Function.update_of_ne hne, hother]
  cases o with
  | none =>
    refine ⟨_, rfl, ?_⟩
    rw [Function.update_eq_self_iff.mpr hkept.symm]
    exact hprovide.empty hx (by rw [slots_provide_self, hraw rfl])
  | some v => exact (hprovide.construct (hprovide.storage_eq_none (Or.inl hx)) v).reset hkept

end Inv

lemma Model.construct_eq_some (h : m.construct x o = some m') : m x = none ∧ m' = Function.update m x (some o) := by
  rw [Model.construct] at h
  split at h
  case isTrue hdead => exact ⟨Option.isNone_iff_eq_none.mp hdead, (Option.some.inj h).symm⟩
  case isFalse => cases h

lemma Inv.step (h : Inv s m) (hstep : m.step op = some m') (hclean : ¬Stale m op) :
    ∃ s', s.step op = some s' ∧ Inv s' m' := by
  cases op with
  | default x raw =>
    obtain ⟨hx, rfl⟩ := Model.construct_eq_some hstep
    exact ⟨_, rfl, h.defaultConstruct hx raw⟩
  | ofValue x raw v =>
    obtain ⟨hx, rfl⟩ := Model.construct_eq_some hstep
    have hprovide := h.provide hx raw
    exact ⟨_, rfl, hprovide.construct (hprovide.storage_eq_none (Or.inl hx)) v⟩
  | copy x raw other =>
    obtain ⟨o, hother, hconstruct⟩ := Option.bind_eq_some_iff.mp hstep
    obtain ⟨hx, rfl⟩ := Model.construct_eq_some hconstruct
    apply h.copyConstruct hx hother
    rintro rfl
    by_contra hraw
    exact hclean ⟨hx, hother, hraw⟩
  | move x raw other =>
    obtain ⟨o, hother, hrest⟩ := Option.bind_eq_some_iff.mp hstep
    obtain ⟨m₁, hconstruct, hreset⟩ := Option.bind_eq_some_iff.mp hrest
    obtain ⟨hx, rfl⟩ := Model.construct_eq_some hconstruct
    cases hreset
    apply h.moveConstruct hx hother
    rintro rfl
    by_contra hraw
    exact hclean ⟨hx, hother, hraw⟩
  | assign x v =>
    obtain ⟨o, hx, hrest⟩ := Option.bind_eq_some_iff.mp hstep
    cases hrest
    exact h.assign hx v
  | reset x =>
    obtain ⟨o, hx, hrest⟩ := Option.bind_eq_some_iff.mp hstep
    cases hrest
    exact h.reset hx
  | destroy x =>
    obtain ⟨o, hx, hrest⟩ := Option.bind_eq_some_iff.mp hstep
    cases hrest
    obtain ⟨s', hreset, hempty⟩ := h.reset hx
    refine ⟨s', hreset, ?_⟩
    have hdead := hempty.update_model (x := x) (w := none)
      (hempty.storage_eq_none (Or.inr (Function.update_self _ _ _)))
    rwa [Function.update_idem] at hdead

lemma State.run_concat (pre : List (Op T)) (op : Op T) :
    State.run (pre ++ [op]) = (State.run pre).bind fun s => s.step op := by
  rw [State.run, List.foldlM_append]
  simp [State.run]

lemma Model.run_concat (pre : List (Op T)) (op : Op T) :
    Model.run (pre ++ [op]) = (Model.run pre).bind fun m => m.step op := by
  rw [Model.run, List.foldlM_append]
  simp [Model.run]

/-- Up to any point of a clean program the two runs go together. -/
lemma Clean.run (hclean : Clean prog) (hpre : pre <+: prog) (hmodel : Model.run pre = some m) :
    ∃ s, State.run pre = some s ∧ Inv s m := by
  induction pre using List.reverseRecOn generalizing m with
  | nil =>
    cases hmodel
    exact ⟨_, rfl, Inv.start⟩
  | append_singleton pre op ih =>
    rw [Model.run_concat] at hmodel
    obtain ⟨m₁, hbefore, hstep⟩ := Option.bind_eq_some_iff.mp hmodel
    obtain ⟨s, hrun, hinv⟩ := ih ((List.prefix_append pre [op]).trans hpre) hbefore
    obtain ⟨s', hstep', hinv'⟩ := hinv.step hstep (hclean pre op m₁ hpre hbefore)
    exact ⟨s', by rw [State.run_concat, hrun, Option.bind_some, hstep'], hinv'⟩

lemma not_refines_provide (hraw : raw ≠ 0) (hx : m x = some none) : ¬Refines (s.provide x raw) m := by
  intro h
  have hflag := h.hasValue x none hx
  rw [State.hasValue, slots_provide_self] at hflag
  exact of_decide_eq_false hflag hraw

/-- After a stale copy or move the new object has a value that it should not have. -/
lemma Stale.not_refines (hstale : Stale m op) (hs : Refines s m) :
    ∃ m', m.step op = some m' ∧ ∀ s', s.step op = some s' → ¬Refines s' m' := by
  have hne : ∀ {x other}, m x = none → m other = some none → other ≠ x := by
    rintro x _ hx hother rfl
    rw [hx] at hother
    cases hother
  cases op with
  | copy x raw other =>
    obtain ⟨hx, hother, hraw⟩ := hstale
    refine ⟨Function.update m x (some none), ?_, ?_⟩
    · rw [Model.step, hother, Option.bind_eq_bind, Option.bind_some, Model.construct, hx]
      rfl
    · intro s' hs'
      rw [State.step, State.copyConstruct, hasValue_provide_of_ne (hne hx hother), hs.hasValue other none hother] at hs'
      cases hs'
      exact not_refines_provide hraw (Function.update_self _ _ _)
  | move x raw other =>
    obtain ⟨hx, hother, hraw⟩ := hstale
    refine ⟨Function.update (Function.update m x (some none)) other (some none), ?_, ?_⟩
    · rw [Model.step, hother, Option.bind_eq_bind, Option.bind_some, Model.construct, hx]
      rfl
    · intro s' hs'
      rw [State.step, State.moveConstruct, hasValue_provide_of_ne (hne hx hother), hs.hasValue other none hother] at hs'
      cases hs'
      apply not_refines_provide hraw
      rw [Function.update_of_ne (hne hx hother).symm, Function.update_self]
  | _ => exact hstale.elim

/-- Programs with optional objects do what they should exactly if no empty object is copied or moved to where the
byte of `initialized` is not 0. -/
theorem correct_iff_clean (prog : List (Op T)) : Correct prog ↔ Clean prog := by
  constructor
  · intro hcorrect pre op m hpre hmodel hstale
    obtain ⟨s, hrun, hrefines⟩ := hcorrect pre m ((List.prefix_append pre [op]).trans hpre) hmodel
    obtain ⟨m', hstep, hnot⟩ := hstale.not_refines hrefines
    obtain ⟨s', hrun', hrefines'⟩ := hcorrect (pre ++ [op]) m' hpre (by
      rw [Model.run_concat, hmodel, Option.bind_some, hstep])
    rw [State.run_concat, hrun, Option.bind_some] at hrun'
    exact hnot s' hrun' hrefines'
  · intro hclean pre m hpre hmodel
    obtain ⟨s, hrun, hinv⟩ := hclean.run hpre hmodel
    exact ⟨s, hrun, hinv.refines⟩

/-- An empty object is copied to where the byte of `initialized` is 1. -/
def copyOfEmpty : List (Op Nat) := [.default 0 0, .copy 1 1 0]

/-- The copy has a value, and its destructor runs on raw storage. -/
theorem copyOfEmpty_has_value :
    (State.run copyOfEmpty).map (fun s => (s.hasValue 0, s.hasValue 1)) = some (false, true) ∧
      (Model.run copyOfEmpty).map (fun m => (m 0, m 1)) = some (some none, some none) ∧
      State.run (copyOfEmpty ++ [.destroy 1]) = none ∧
      (Model.run (copyOfEmpty ++ [.destroy 1])).isSome ∧ ¬Correct copyOfEmpty := by
  refine ⟨by decide, by decide, rfl, rfl, ?_⟩
  intro hcorrect
  obtain ⟨s, hrun, hrefines⟩ := hcorrect copyOfEmpty _ (List.prefix_refl _) rfl
  cases hrun
  exact absurd (hrefines.hasValue 1 none rfl) (by decide)

end JavaScriptOS.Libcppk.Optional
