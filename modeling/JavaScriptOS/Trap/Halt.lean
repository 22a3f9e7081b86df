import JavaScriptOS.Trap.Dispatch

/-!
# When the CPU stops

A `hlt` in a handler is reached through the switch only, with interrupts disabled. A non-maskable interrupt or a
machine check ends it, but has itself no case that returns.
-/

namespace JavaScriptOS.Trap

variable {n : Nat} {reaches : Bool} {m : Machine n} {f : Activation} {fs : List Activation} {v : Vector}

/-- The vectors for which `interrupt_dispatch()` returns. -/
def served : List Vector :=
  [pageFault, apicTimerInterruptNum, apicSpuriousInterruptNum, keyboardInterruptNum, pitInterruptNum,
    syscallInterruptNum]

lemma interruptDispatch_eq_hlt : interruptDispatch v = .hlt ↔ v ∉ served := by
  revert v
  decide +kernel

lemma interruptDispatch_ne_reschedule : interruptDispatch v ≠ .reschedule := by
  revert v
  decide +kernel

section Moves

variable {o : Option Vector} {t : Option (Fin n)}

/-- What an event can make of a stack, where `o` is the vector whose case of the switch it executes. -/
inductive Moves (m : Machine n) (o : Option Vector) : Option (Fin n) → List Activation → Prop
  | stay (t : Option (Fin n)) : Moves m o t (m.kstacks t)
  | enter (v : Vector) : Moves m o m.proc (⟨v, .switch, m.interrupts⟩ :: Machine.wake m.stack)
  | switch {f : Activation} {fs : List Activation} (hstack : m.stack = f :: fs) (ho : o = some f.vector) :
    Moves m o m.proc ({ f with line := interruptDispatch f.vector } :: fs)
  | next {f : Activation} {fs : List Activation} {l : Line} (hstack : m.stack = f :: fs) (hhlt : l ≠ .hlt)
    (htimer : l = .reschedule → f.vector = apicTimerInterruptNum) : Moves m o m.proc ({ f with line := l } :: fs)
  | ret {f : Activation} {fs : List Activation} (hstack : m.stack = f :: fs) : Moves m o m.proc fs
  | resume (t : Option (Fin n)) : Moves m o t (Machine.resume (m.kstacks t))

lemma moves_update {m' : Machine n} (hm : Moves m o t fs) (h : m'.kstacks = Function.update m.kstacks t fs)
    (t' : Option (Fin n)) : Moves m o t' (m'.kstacks t') := by
  rw [h]
  by_cases ht : t' = t
  · rw [ht, Function.update_self]
    exact hm
  · rw [Function.update_of_ne ht]
    exact Moves.stay t'

lemma lapicEoi_eq (reaches : Bool) (m : Machine n) : ∃ isr, m.lapicEoi reaches = { m with isr := isr } := by
  unfold Machine.lapicEoi
  split
  · split
    · exact ⟨m.isr, rfl⟩
    · exact ⟨_, rfl⟩
  · exact ⟨m.isr, rfl⟩

lemma moves_statement (hstack : m.stack = f :: fs) (t : Option (Fin n)) :
    Moves m (m.switches .run) t ((m.statement reaches f fs).kstacks t) := by
  obtain ⟨v, line, b⟩ := f
  cases line with
  | switch =>
    have hswitches : m.switches .run = some v := by
      unfold Machine.switches
      rw [hstack]
      rfl
    exact moves_update (Moves.switch hstack hswitches) rfl t
  | pitIrqHandler =>
    have hmove : Moves m (m.switches .run) m.proc (⟨v, .lapicEoi, b⟩ :: fs) :=
      Moves.next hstack (by decide) fun h => by cases h
    exact moves_update hmove rfl t
  | lapicEoi =>
    have hmove : Moves m (m.switches .run) m.proc
        (⟨v, if v = apicTimerInterruptNum then .reschedule else .ret, b⟩ :: fs) := by
      refine Moves.next hstack ?_ fun h => ?_
      · split <;> decide
      · by_contra hv
        rw [if_neg hv] at h
        cases h
    refine moves_update hmove ?_ t
    obtain ⟨isr, heoi⟩ := lapicEoi_eq reaches m
    unfold Machine.statement
    rw [heoi]
    rfl
  | reschedule =>
    unfold Machine.statement
    dsimp only
    split
    · have hmove : Moves m (m.switches .run) m.proc (⟨v, .ret, b⟩ :: fs) :=
        Moves.next hstack (by decide) fun h => by cases h
      exact moves_update hmove rfl t
    · have hmove : Moves m (m.switches .run) m.proc (⟨v, .sched, b⟩ :: fs) :=
        Moves.next hstack (by decide) fun h => by cases h
      exact moves_update hmove rfl t
  | sched => exact Moves.stay t
  | hlt => exact Moves.stay t
  | ret => exact moves_update (Moves.ret hstack) rfl t

lemma moves_ite {p : Prop} [Decidable p] {m₁ m₂ : Machine n} (h₁ : Moves m o t (m₁.kstacks t))
    (h₂ : Moves m o t (m₂.kstacks t)) : Moves m o t ((if p then m₁ else m₂).kstacks t) := by
  split
  · exact h₁
  · exact h₂

lemma moves_step (m : Machine n) (e : Event n) (t : Option (Fin n)) :
    Moves m (m.switches e) t ((m.step reaches e).kstacks t) := by
  cases e with
  | request v => exact Moves.stay t
  | accept =>
    unfold Machine.step
    dsimp only
    split
    · rename_i v _ _
      exact moves_update (Moves.enter v) rfl t
    · exact Moves.stay t
  | spurious => exact moves_ite (moves_update (Moves.enter _) rfl t) (Moves.stay t)
  | extInt v => exact moves_ite (moves_update (Moves.enter v) rfl t) (Moves.stay t)
  | nmi => exact moves_update (Moves.enter _) rfl t
  | exception v => exact moves_ite (Moves.stay t) (moves_update (Moves.enter _) rfl t)
  | syscall => exact moves_ite (moves_update (Moves.enter _) rfl t) (Moves.stay t)
  | run =>
    rw [Machine.step]
    split
    · exact Moves.stay t
    · rename_i f fs hstack
      exact moves_statement hstack t
  | sti => exact moves_ite (Moves.stay t) (Moves.stay t)
  | acquire => exact moves_ite (Moves.stay t) (Moves.stay t)
  | swtch p => exact moves_ite (moves_update (Moves.resume _) rfl t) (Moves.stay t)

end Moves

section Alive

/-- No activation stands in a `hlt`. -/
def NoHlt (fs : List Activation) : Prop := ∀ f ∈ fs, f.line ≠ .hlt

lemma NoHlt.ret (h : NoHlt (f :: fs)) (p : Prop) [Decidable p] :
    NoHlt ((if p then { f with line := .ret } else f) :: fs) := by
  split
  · exact List.forall_mem_cons.mpr ⟨Line.noConfusion, (List.forall_mem_cons.mp h).2⟩
  · exact h

lemma NoHlt.wake (h : NoHlt fs) : NoHlt (Machine.wake fs) := by
  cases fs with
  | nil => exact h
  | cons f fs => exact h.ret _

lemma NoHlt.resume (h : NoHlt fs) : NoHlt (Machine.resume fs) := by
  cases fs with
  | nil => exact h
  | cons f fs => exact h.ret _

lemma Moves.noHlt {o : Option Vector} {t : Option (Fin n)} (h : ∀ t, NoHlt (m.kstacks t))
    (ho : ∀ v ∈ o, v ∈ served) (hmove : Moves m o t fs) : NoHlt fs := by
  have hstack : NoHlt m.stack := h m.proc
  cases hmove with
  | stay => exact h t
  | enter v => exact List.forall_mem_cons.mpr ⟨Line.noConfusion, hstack.wake⟩
  | switch heq hv =>
    rw [heq] at hstack
    refine List.forall_mem_cons.mpr ⟨fun hhlt => ?_, (List.forall_mem_cons.mp hstack).2⟩
    exact interruptDispatch_eq_hlt.mp hhlt (ho _ hv)
  | next heq hhlt =>
    rw [heq] at hstack
    exact List.forall_mem_cons.mpr ⟨hhlt, (List.forall_mem_cons.mp hstack).2⟩
  | ret heq =>
    rw [heq] at hstack
    exact (List.forall_mem_cons.mp hstack).2
  | resume => exact (h t).resume

lemma noHlt_run (m : Machine n) (es : List (Event n)) (h : ∀ t, NoHlt (m.kstacks t))
    (hes : ∀ v ∈ m.dispatched reaches es, v ∈ served) (t : Option (Fin n)) :
    NoHlt ((m.run reaches es).kstacks t) := by
  induction es generalizing m with
  | nil => exact h t
  | cons e es ih =>
    rw [Machine.dispatched, List.forall_mem_append] at hes
    obtain ⟨he, hrest⟩ := hes
    refine ih (m.step reaches e) (fun t => ?_) hrest
    exact Moves.noHlt h (fun v hv => he v (Option.mem_toList.mpr hv)) (moves_step m e t)

lemma noHlt_boot (t : Option (Fin n)) : NoHlt ((Machine.boot n).kstacks t) := by
  cases t with
  | none => exact List.forall_mem_nil _
  | some p => exact List.forall_mem_singleton.mpr Line.noConfusion

end Alive

section Flag

/-- The gate of system calls alone leaves interrupts enabled. -/
def Gate : List Activation → Prop
  | [] => True
  | f :: _ => f.vector = syscallInterruptNum

/-- The flag that an activation returns to was right below it. -/
def StackOk : List Activation → Prop
  | [] => True
  | f :: fs =>
    (f.line = .reschedule → f.vector = apicTimerInterruptNum) ∧ (f.savedIf = true → Gate fs) ∧ StackOk fs

structure Inv (m : Machine n) : Prop where
  flag : m.interrupts = true → Gate m.stack
  kstacks : ∀ t, StackOk (m.kstacks t)

lemma Gate.wake (h : Gate fs) : Gate (Machine.wake fs) := by
  cases fs with
  | nil => exact h
  | cons f fs =>
    rw [Machine.wake]
    split
    · exact h
    · exact h

lemma StackOk.ret (h : StackOk (f :: fs)) (p : Prop) [Decidable p] :
    StackOk ((if p then { f with line := .ret } else f) :: fs) := by
  split
  · exact ⟨fun hline => Line.noConfusion hline, h.2⟩
  · exact h

lemma StackOk.wake (h : StackOk fs) : StackOk (Machine.wake fs) := by
  cases fs with
  | nil => exact h
  | cons f fs => exact h.ret _

lemma StackOk.resume (h : StackOk fs) : StackOk (Machine.resume fs) := by
  cases fs with
  | nil => exact h
  | cons f fs => exact h.ret _

lemma Inv.stack (h : Inv m) : StackOk m.stack := h.kstacks m.proc

lemma Inv.moves {o : Option Vector} {t : Option (Fin n)} (h : Inv m) (hmove : Moves m o t fs) : StackOk fs := by
  have hok := h.stack
  cases hmove with
  | stay => exact h.kstacks t
  | enter v => exact ⟨fun hline => Line.noConfusion hline, fun hint => (h.flag hint).wake, hok.wake⟩
  | switch heq =>
    rw [heq] at hok
    exact ⟨fun hline => absurd hline interruptDispatch_ne_reschedule, hok.2⟩
  | next heq _ htimer =>
    rw [heq] at hok
    exact ⟨htimer, hok.2⟩
  | ret heq =>
    rw [heq] at hok
    exact hok.2.2
  | resume => exact (h.kstacks t).resume

lemma stack_enter : (m.enter v).stack = ⟨v, .switch, m.interrupts⟩ :: Machine.wake m.stack := Function.update_self ..

lemma gate_enter (h : (m.enter v).interrupts = true) : Gate (m.enter v).stack := by
  have hv : v = syscallInterruptNum := of_decide_eq_true (Bool.and_eq_true_iff.mp h).2
  rw [stack_enter]
  exact hv

lemma Inv.gate_statement (h : Inv m) (hstack : m.stack = f :: fs)
    (hint : (m.statement reaches f fs).interrupts = true) : Gate (m.statement reaches f fs).stack := by
  have hok := h.stack
  have hgate := h.flag
  rw [hstack] at hok hgate
  obtain ⟨v, line, b⟩ := f
  -- the activation stays on its stack
  have hstays : ∀ (m' : Machine n) (l : Line), m'.stack = ⟨v, l, b⟩ :: fs → m.interrupts = true → Gate m'.stack := by
    intro m' l hstack' hint'
    rw [hstack']
    exact hgate hint'
  cases line with
  | switch => exact hstays _ _ (Function.update_self ..) hint
  | pitIrqHandler => exact hstays _ .lapicEoi (Function.update_self ..) hint
  | lapicEoi =>
    obtain ⟨isr, heoi⟩ := lapicEoi_eq reaches m
    unfold Machine.statement at hint ⊢
    rw [heoi] at hint ⊢
    exact hstays _ _ (Function.update_self ..) hint
  | reschedule =>
    have hflag : m.interrupts = true := by
      rw [← hint]
      unfold Machine.statement
      dsimp only
      split <;> rfl
    -- the timer's gate has cleared the flag
    exact absurd ((hgate hflag).symm.trans (hok.1 rfl)) (by decide)
  | sched => exact hstays m _ hstack hint
  | hlt => exact hstays m _ hstack hint
  | ret =>
    have hstack' : (m.statement reaches ⟨v, .ret, b⟩ fs).stack = fs := Function.update_self ..
    rw [hstack']
    exact hok.2.1 hint

lemma scheduling_iff : m.scheduling = true ↔ m.proc = none ∧ m.stack = [] := by
  unfold Machine.scheduling
  rw [Bool.and_eq_true_iff, Option.isNone_iff_eq_none, List.isEmpty_iff]

lemma Inv.flag_step (h : Inv m) (e : Event n) (hint : (m.step reaches e).interrupts = true) :
    Gate (m.step reaches e).stack := by
  revert hint
  cases e with
  | request v => exact h.flag
  | accept =>
    unfold Machine.step
    dsimp only
    split
    · exact gate_enter
    · exact h.flag
  | spurious =>
    rw [Machine.step]
    split
    · exact gate_enter
    · exact h.flag
  | extInt v =>
    rw [Machine.step]
    split
    · exact gate_enter
    · exact h.flag
  | nmi => exact gate_enter
  | exception v =>
    rw [Machine.step]
    split
    · exact h.flag
    · exact gate_enter
  | syscall =>
    rw [Machine.step]
    split
    · exact gate_enter
    · exact h.flag
  | run =>
    rw [Machine.step]
    split
    · exact h.flag
    · rename_i f fs hstack
      exact h.gate_statement hstack
  | sti =>
    rw [Machine.step]
    split
    · rename_i hsched
      have hnil : m.stack = [] := (scheduling_iff.mp hsched).2
      intro _
      change Gate m.stack
      rw [hnil]
      trivial
    · exact h.flag
  | acquire =>
    rw [Machine.step]
    split
    · exact fun hint => absurd hint Bool.false_ne_true
    · exact h.flag
  | swtch p =>
    rw [Machine.step]
    split
    · rename_i hsched
      exact fun hint => absurd (hsched.2.symm.trans hint) Bool.false_ne_true
    · exact h.flag

lemma Inv.step (h : Inv m) (e : Event n) : Inv (m.step reaches e) :=
  ⟨h.flag_step e, fun t => h.moves (moves_step m e t)⟩

lemma inv_boot (n : Nat) : Inv (Machine.boot n) where
  flag := fun hint => absurd hint Bool.false_ne_true
  kstacks := by
    intro t
    cases t with
    | none => trivial
    | some p => exact ⟨fun hline => Line.noConfusion hline, fun _ => trivial, trivial⟩

end Flag

section Stopped

/-- A handler that has come to its `hlt` or goes there, below page faults that return to it. -/
def Stuck : List Activation → Prop
  | [] => False
  | f :: fs => f.line = .hlt ∨ (f.line = .switch ∧ f.vector.val < 32 ∧ f.vector ∉ served) ∨
    (f.vector = pageFault ∧ (f.line = .switch ∨ f.line = .ret) ∧ f.savedIf = false ∧ Stuck fs)

/-- The CPU is stuck on the stack `t`. -/
structure Stopped (t : Option (Fin n)) (m : Machine n) : Prop where
  interrupts : m.interrupts = false
  proc : m.proc = t
  stack : Stuck m.stack

variable {t : Option (Fin n)}

lemma Stuck.ne_nil (h : Stuck fs) : fs ≠ [] := by
  rintro rfl
  exact h

lemma Stopped.not_scheduling (h : Stopped t m) : m.scheduling ≠ true :=
  fun hsched => h.stack.ne_nil (scheduling_iff.mp hsched).2

lemma notMem_served (hlt : v.val < 32) (hv : v ≠ pageFault) : v ∉ served := by
  revert v
  decide +kernel

lemma wake_eq_self (h : m.halted = false) : Machine.wake m.stack = m.stack := by
  unfold Machine.halted at h
  cases hstack : m.stack with
  | nil => rfl
  | cons f fs =>
    rw [hstack] at h
    have hline : f.line ≠ .hlt := of_decide_eq_false h
    rw [Machine.wake, if_neg hline]

/-- An exception on top comes back, or stops the CPU itself. -/
lemma Stopped.enter (h : Stopped t m) (hlt : v.val < 32) (hrun : v = pageFault → m.halted = false) :
    Stopped t (m.enter v) := by
  refine ⟨?_, h.proc, ?_⟩
  · change (m.interrupts && _) = false
    rw [h.interrupts, Bool.false_and]
  · rw [stack_enter]
    by_cases hv : v = pageFault
    · rw [wake_eq_self (hrun hv)]
      exact Or.inr (Or.inr ⟨hv, Or.inl rfl, h.interrupts, h.stack⟩)
    · exact Or.inr (Or.inl ⟨rfl, hlt, notMem_served hlt hv⟩)

lemma Stopped.statement (h : Stopped t m) (hstack : m.stack = f :: fs) : Stopped t (m.statement reaches f fs) := by
  have hstuck := h.stack
  rw [hstack] at hstuck
  obtain ⟨v, line, b⟩ := f
  have hset : ∀ fs', (m.setStack fs').stack = fs' := fun fs' => Function.update_self ..
  rcases hstuck with hline | ⟨hline, -, hv⟩ | ⟨hv, hline | hline, hsaved, hrest⟩
  · obtain rfl : line = .hlt := hline
    exact h
  · obtain rfl : line = .switch := hline
    refine ⟨h.interrupts, h.proc, ?_⟩
    change Stuck (m.setStack _).stack
    rw [hset]
    exact Or.inl (interruptDispatch_eq_hlt.mpr hv)
  · obtain rfl : line = .switch := hline
    obtain rfl : v = pageFault := hv
    refine ⟨h.interrupts, h.proc, ?_⟩
    change Stuck (m.setStack _).stack
    rw [hset]
    exact Or.inr (Or.inr ⟨rfl, Or.inr rfl, hsaved, hrest⟩)
  · obtain rfl : line = .ret := hline
    refine ⟨hsaved, h.proc, ?_⟩
    change Stuck (m.setStack fs).stack
    rw [hset]
    exact hrest

lemma Stopped.step (h : Stopped t m) (e : Event n) : Stopped t (m.step reaches e) := by
  have hint : m.interrupts ≠ true := fun hint => Bool.false_ne_true (h.interrupts.symm.trans hint)
  cases e with
  | request v => exact ⟨h.interrupts, h.proc, h.stack⟩
  | accept =>
    rw [Machine.step, h.interrupts]
    exact h
  | spurious =>
    rw [Machine.step, if_neg hint]
    exact h
  | extInt v =>
    rw [Machine.step, if_neg hint]
    exact h
  | nmi => exact h.enter (by decide) fun hv => absurd hv (by decide)
  | exception v =>
    rw [Machine.step]
    split
    · exact h
    · rename_i hrun
      refine h.enter v.isLt fun hv => ?_
      cases hhalt : m.halted with
      | false => rfl
      | true =>
        refine absurd ⟨hhalt, ?_⟩ hrun
        rintro rfl
        exact absurd hv (by decide)
  | syscall =>
    rw [Machine.step, if_neg fun hcall => h.stack.ne_nil hcall.2]
    exact h
  | run =>
    rw [Machine.step]
    split
    · exact h
    · rename_i f fs hstack
      exact h.statement hstack
  | sti =>
    rw [Machine.step, if_neg h.not_scheduling]
    exact h
  | acquire =>
    rw [Machine.step, if_neg h.not_scheduling]
    exact h
  | swtch p =>
    rw [Machine.step, if_neg fun hsched => h.not_scheduling hsched.1]
    exact h

lemma switches_eq_some {e : Event n} (hv : m.switches e = some v) :
    e = .run ∧ ∃ b fs, m.stack = ⟨v, .switch, b⟩ :: fs := by
  unfold Machine.switches at hv
  split at hv
  · rename_i f fs hstack
    split at hv
    · rename_i hline
      cases hv
      exact ⟨rfl, f.savedIf, fs, hline ▸ hstack⟩
    · cases hv
  · cases hv

lemma Stopped.switches_lt (h : Stopped t m) {e : Event n} (hv : m.switches e = some v) : v.val < 32 := by
  obtain ⟨-, b, fs, hstack⟩ := switches_eq_some hv
  have hstuck := h.stack
  rw [hstack] at hstuck
  rcases hstuck with hline | ⟨-, hlt, -⟩ | ⟨hpf, -⟩
  · cases hline
  · exact hlt
  · obtain rfl : v = pageFault := hpf
    decide

lemma Stopped.run (h : Stopped t m) (es : List (Event n)) :
    Stopped t (m.run reaches es) ∧ ∀ v ∈ m.dispatched reaches es, v.val < 32 := by
  induction es generalizing m with
  | nil => exact ⟨h, List.forall_mem_nil _⟩
  | cons e es ih =>
    obtain ⟨hstopped, hrest⟩ := ih (h.step e)
    rw [Machine.dispatched, List.forall_mem_append]
    exact ⟨hstopped, fun v hv => h.switches_lt (Option.mem_toList.mp hv), hrest⟩

/-- The `hlt` of a vector that has no case is reached with interrupts disabled. -/
lemma Inv.stopped_step (h : Inv m) {e : Event n} (hv : m.switches e = some v) (hserved : v ∉ served) :
    Stopped m.proc (m.step reaches e) := by
  obtain ⟨rfl, b, fs, hstack⟩ := switches_eq_some hv
  have hint : m.interrupts = false := by
    cases hint : m.interrupts with
    | false => rfl
    | true =>
      have hgate := h.flag hint
      rw [hstack] at hgate
      obtain rfl : v = syscallInterruptNum := hgate
      exact absurd (by decide) hserved
  rw [Machine.step, hstack]
  refine ⟨hint, rfl, ?_⟩
  have hstack' : (m.statement reaches ⟨v, .switch, b⟩ fs).stack = ⟨v, interruptDispatch v, b⟩ :: fs :=
    Function.update_self ..
  rw [hstack']
  exact Or.inl (interruptDispatch_eq_hlt.mpr hserved)

lemma Inv.stopped_run (h : Inv m) {es : List (Event n)} (hes : ∃ v ∈ m.dispatched reaches es, v ∉ served) :
    ∃ t, Stopped t (m.run reaches es) := by
  induction es generalizing m with
  | nil =>
    obtain ⟨v, hv, -⟩ := hes
    cases hv
  | cons e es ih =>
    obtain ⟨v, hv, hserved⟩ := hes
    rcases List.mem_append.mp hv with hnow | hlater
    · have hstop : Stopped m.proc (m.step reaches e) := h.stopped_step (Option.mem_toList.mp hnow) hserved
      exact ⟨m.proc, (hstop.run es).1⟩
    · exact ih (h.step e) ⟨v, hlater, hserved⟩

end Stopped

/-- For every run of one CPU, whether `lapic_eoi()` works or not: it stands in a `hlt` only after
`interrupt_dispatch()` was called for a vector without a case that returns. From such a call on, interrupts stay
disabled, the handler never ends, so that neither its process nor another one runs again, and exceptions and
non-maskable interrupts alone are handled. -/
theorem cpu_stops (reaches : Bool) (n : Nat) (es : List (Event n)) :
    let m := (Machine.boot n).run reaches es
    (m.halted = true → ∃ v ∈ (Machine.boot n).dispatched reaches es, v ∉ served) ∧
      ((∃ v ∈ (Machine.boot n).dispatched reaches es, v ∉ served) → ∀ es',
        (m.run reaches es').interrupts = false ∧ (m.run reaches es').proc = m.proc ∧ (m.run reaches es').stack ≠ [] ∧
          ∀ v ∈ m.dispatched reaches es', v.val < 32) := by
  intro m
  constructor
  · intro hhalt
    by_contra hnone
    push Not at hnone
    have halive : NoHlt m.stack := noHlt_run (Machine.boot n) es noHlt_boot hnone m.proc
    obtain ⟨f, hf, hline⟩ := (Option.any_eq_true _ _).mp hhalt
    exact halive f (List.mem_of_mem_head? hf) (of_decide_eq_true hline)
  · intro hstop es'
    obtain ⟨t, hstopped⟩ := (inv_boot n).stopped_run hstop
    obtain ⟨hafter, hlt⟩ := hstopped.run es'
    exact ⟨hafter.interrupts, hafter.proc.trans hstopped.proc.symm, hafter.stack.ne_nil, hlt⟩

/-- The vector that `init_uart()` routes the serial line to. -/
def com1Vector : Vector := ⟨36, by decide⟩

/-- A byte on the serial line stops the CPU. -/
theorem cpu_stops_serial :
    let m := (Machine.boot 1).run false [.sti, .request com1Vector, .accept, .run]
    m.halted = true ∧ ∀ es', (m.run false es').interrupts = false ∧ (m.run false es').stack ≠ [] := by
  intro m
  obtain ⟨-, hafter⟩ := cpu_stops false 1 [.sti, .request com1Vector, .accept, .run]
  refine ⟨by decide +kernel, fun es' => ?_⟩
  obtain ⟨hint, -, hstack, -⟩ := hafter ⟨com1Vector, by decide +kernel, by decide⟩ es'
  exact ⟨hint, hstack⟩

end JavaScriptOS.Trap
