import JavaScriptOS.Trap.Dispatch
import JavaScriptOS.Trap.Lapic
import Mathlib.Data.List.FinRange

/-!
# Interrupts that are never ended

`init_lapic` leaves `lapic_eoi()` without a way to the local APIC, so a vector that is in service stays there, and
the CPU takes no request of its priority class any more. All IRQ lines have vectors of one class.
-/

namespace JavaScriptOS.Trap

variable {n : Nat} {m : Machine n} {f : Activation} {fs : List Activation} {v : Vector}

/-- The priority class of a vector. -/
def priorityClass (v : Vector) : Nat := v.val / 16

/-- The vectors from `IRQ_VECTOR_BASE` on, for the IRQ lines 0 to 15. -/
def isIrq (v : Vector) : Bool := priorityClass v = 2

lemma isIrq_exception (v : Fin 32) : isIrq (v.castLE (by decide)) = false := by
  refine decide_eq_false ?_
  have hlt := v.isLt
  unfold priorityClass
  rw [Fin.val_castLE]
  omega

section Accepted

lemma offered_class (h : m.offered = some v) : ∀ w ∈ m.isr, priorityClass w < priorityClass v := by
  unfold Machine.offered at h
  cases hmax : m.irr.max with
  | bot =>
    rw [hmax] at h
    cases h
  | coe w =>
    rw [hmax] at h
    change (if ∀ x ∈ m.isr, x.val / 16 < w.val / 16 then some w else none) = some v at h
    split at h
    · rename_i habove
      cases h
      exact habove
    · cases h

lemma accepts_eq_some {e : Event n} (h : m.accepts e = some v) : m.offered = some v := by
  unfold Machine.accepts at h
  split at h
  · exact h
  · cases h

lemma isr_statement : (m.statement false f fs).isr = m.isr := by
  unfold Machine.statement
  cases f.line with
  | reschedule =>
    dsimp only
    split
    · rfl
    · rfl
  | _ => rfl

lemma step_accept {reaches : Bool} (hint : m.interrupts = true) (hoffered : m.offered = some v) :
    m.step reaches .accept = Machine.enter { m with irr := m.irr.erase v, isr := insert v m.isr } v := by
  rw [Machine.step, hint, hoffered]

lemma isr_ite {p : Prop} [Decidable p] {m' : Machine n} (h : m'.isr = m.isr) :
    (if p then m' else m).isr = m.isr := by
  split
  · exact h
  · rfl

/-- A vector comes into service when it is taken, and none goes out of service. -/
lemma isr_step (e : Event n) : (m.step false e).isr = m.isr ∧ m.accepts e = none ∨
    ∃ v, m.accepts e = some v ∧ (m.step false e).isr = insert v m.isr := by
  cases e with
  | accept =>
    unfold Machine.step Machine.accepts
    cases m.interrupts with
    | false => exact Or.inl ⟨rfl, rfl⟩
    | true =>
      cases m.offered with
      | none => exact Or.inl ⟨rfl, rfl⟩
      | some v => exact Or.inr ⟨v, rfl, rfl⟩
  | run =>
    refine Or.inl ⟨?_, rfl⟩
    unfold Machine.step
    cases m.stack with
    | nil => rfl
    | cons f fs => exact isr_statement
  | request v => exact Or.inl ⟨rfl, rfl⟩
  | nmi => exact Or.inl ⟨rfl, rfl⟩
  | exception v =>
    refine Or.inl ⟨?_, rfl⟩
    rw [Machine.step]
    split
    · rfl
    · rfl
  | _ => exact Or.inl ⟨isr_ite rfl, rfl⟩

/-- The classes of the vectors that are taken rise, above those in service at the start. -/
lemma accepted_rises (m : Machine n) (es : List (Event n)) :
    (m.accepted false es).Pairwise (fun v w => priorityClass v < priorityClass w) ∧
      ∀ v ∈ m.accepted false es, ∀ w ∈ m.isr, priorityClass w < priorityClass v := by
  induction es generalizing m with
  | nil => exact ⟨List.Pairwise.nil, List.forall_mem_nil _⟩
  | cons e es ih =>
    obtain ⟨hrises, habove⟩ := ih (m.step false e)
    rw [Machine.accepted]
    rcases isr_step (m := m) e with ⟨hisr, hnone⟩ | ⟨v, hsome, hisr⟩
    · rw [hisr] at habove
      rw [hnone]
      exact ⟨hrises, habove⟩
    · rw [hisr] at habove
      rw [hsome]
      refine ⟨List.pairwise_cons.mpr ⟨fun w hw => habove w hw v (Finset.mem_insert_self v _), hrises⟩, ?_⟩
      refine List.forall_mem_cons.mpr ⟨offered_class (accepts_eq_some hsome), fun w hw x hx => ?_⟩
      exact habove w hw x (Finset.mem_insert_of_mem hx)

end Accepted

section Pending

variable {P : Activation → Bool}

/-- The stacks of a CPU. -/
def threads (n : Nat) : List (Option (Fin n)) := none :: (List.finRange n).map some

lemma nodup_threads (n : Nat) : (threads n).Nodup := by
  refine List.nodup_cons.mpr ⟨?_, (List.nodup_finRange n).map (Option.some_injective _)⟩
  intro hmem
  obtain ⟨p, -, hp⟩ := List.mem_map.mp hmem
  cases hp

lemma mem_threads (t : Option (Fin n)) : t ∈ threads n := by
  cases t with
  | none => exact List.mem_cons_self
  | some p => exact List.mem_cons_of_mem _ (List.mem_map_of_mem (List.mem_finRange p))

/-- How many activations on all stacks satisfy a test. -/
def pending (P : Activation → Bool) (m : Machine n) : Nat := ((threads n).flatMap m.kstacks).countP P

lemma countP_flatMap_update {ι : Type} [DecidableEq ι] {l : List ι} (hl : l.Nodup) {t : ι} (ht : t ∈ l)
    (k : ι → List Activation) (fs : List Activation) :
    (l.flatMap (Function.update k t fs)).countP P + (k t).countP P = (l.flatMap k).countP P + fs.countP P := by
  obtain ⟨before, after, rfl⟩ := List.append_of_mem ht
  have hsplit := List.nodup_append.mp hl
  have hsame : ∀ l' : List ι, t ∉ l' → l'.flatMap (Function.update k t fs) = l'.flatMap k := by
    intro l' hnot
    apply List.flatMap_congr
    intro x hx
    have hne : x ≠ t := fun heq => hnot (heq ▸ hx)
    exact Function.update_of_ne hne _ _
  have hbefore : t ∉ before := fun hmem => hsplit.2.2 t hmem t List.mem_cons_self rfl
  have hafter : t ∉ after := (List.nodup_cons.mp hsplit.2.1).1
  simp only [List.flatMap_append, List.flatMap_cons, List.countP_append, hsame before hbefore, hsame after hafter,
    Function.update_self]
  omega

lemma pending_update {m m' : Machine n} {t : Option (Fin n)} {fs : List Activation}
    (h : m'.kstacks = Function.update m.kstacks t fs) :
    pending P m' + (m.kstacks t).countP P = pending P m + fs.countP P := by
  unfold pending
  rw [h]
  exact countP_flatMap_update (nodup_threads n) (mem_threads t) m.kstacks fs

end Pending

section Stage

/-- A part of the way through `interrupt_dispatch()`. Only the vectors of the IRQ lines begin with it, no statement
leads into it from outside, and the statement at `exit` leads out of it. -/
structure Stage (exit : Line) (P : Activation → Bool) : Prop where
  exits : exit = .switch ∨ exit = .reschedule
  enter : ∀ v b, P ⟨v, .switch, b⟩ = true → isIrq v = true
  switch : ∀ v b, P ⟨v, interruptDispatch v, b⟩ = true → exit ≠ .switch ∧ P ⟨v, .switch, b⟩ = true
  pit : ∀ v b, P ⟨v, .lapicEoi, b⟩ = true → P ⟨v, .pitIrqHandler, b⟩ = true
  eoi : ∀ v b, P ⟨v, if v = apicTimerInterruptNum then .reschedule else .ret, b⟩ = true → P ⟨v, .lapicEoi, b⟩ = true
  ret : ∀ v b, P ⟨v, .ret, b⟩ = false
  sched : ∀ v b, P ⟨v, .sched, b⟩ = false

/-- The activations that the statement at `exit` takes out of the stage. -/
def leaves (exit : Line) (P : Activation → Bool) (f : Activation) : Bool := P f && decide (f.line = exit)

/-- The same for an event. -/
def leavesBy (exit : Line) (P : Activation → Bool) (m : Machine n) (e : Event n) : Bool :=
  match e, m.stack with
  | .run, f :: _ => leaves exit P f
  | _, _ => false

variable {exit : Line} {P : Activation → Bool}

/-- The top activation goes on, and the stage gains nothing. -/
lemma pending_advance (hstack : m.stack = f :: fs) {m' : Machine n} {g : Activation}
    (h : m'.kstacks = Function.update m.kstacks m.proc (g :: fs))
    (hg : P g = true → P f = true ∧ leaves exit P f = false) :
    pending P m' + (leaves exit P f).toNat ≤ pending P m := by
  have hupdate := pending_update (P := P) h
  have htop : m.kstacks m.proc = f :: fs := hstack
  rw [htop, List.countP_cons, List.countP_cons] at hupdate
  cases hPg : P g with
  | true =>
    obtain ⟨hPf, hleave⟩ := hg hPg
    rw [hleave]
    simp only [hPg, hPf, if_true] at hupdate
    simp only [Bool.toNat_false]
    omega
  | false =>
    have hle : (leaves exit P f).toNat ≤ if P f = true then 1 else 0 := by
      unfold leaves
      cases P f <;> cases decide (f.line = exit) <;> decide
    simp only [hPg, Bool.false_eq_true, if_false] at hupdate
    omega

lemma Stage.statement (hP : Stage exit P) (hstack : m.stack = f :: fs) :
    pending P (m.statement false f fs) + (leaves exit P f).toNat ≤ pending P m := by
  obtain ⟨v, line, b⟩ := f
  -- a line that is not the exit
  have hstay : line ≠ exit → leaves exit P ⟨v, line, b⟩ = false := by
    intro hne
    unfold leaves
    rw [decide_eq_false hne, Bool.and_false]
  have hexits := hP.exits
  cases line with
  | switch =>
    refine pending_advance (g := ⟨v, interruptDispatch v, b⟩) hstack rfl fun hg => ?_
    obtain ⟨hne, hswitch⟩ := hP.switch v b hg
    exact ⟨hswitch, hstay hne.symm⟩
  | pitIrqHandler =>
    refine pending_advance (g := ⟨v, .lapicEoi, b⟩) hstack rfl fun hg => ⟨hP.pit v b hg, hstay ?_⟩
    rcases hexits with rfl | rfl <;> decide
  | lapicEoi =>
    refine pending_advance (g := ⟨v, if v = apicTimerInterruptNum then .reschedule else .ret, b⟩) hstack rfl
      fun hg => ⟨hP.eoi v b hg, hstay ?_⟩
    rcases hexits with rfl | rfl <;> decide
  | reschedule =>
    unfold Machine.statement
    dsimp only
    split
    · refine pending_advance (g := ⟨v, .ret, b⟩) hstack rfl fun hg => ?_
      rw [hP.ret] at hg
      cases hg
    · refine pending_advance (g := ⟨v, .sched, b⟩) hstack rfl fun hg => ?_
      rw [hP.sched] at hg
      cases hg
  | sched =>
    rw [hstay (by rcases hexits with rfl | rfl <;> decide)]
    exact le_rfl
  | hlt =>
    rw [hstay (by rcases hexits with rfl | rfl <;> decide)]
    exact le_rfl
  | ret =>
    rw [hstay (by rcases hexits with rfl | rfl <;> decide)]
    have hstacks : (m.statement false ⟨v, .ret, b⟩ fs).kstacks = Function.update m.kstacks m.proc fs := rfl
    have hupdate := pending_update (P := P) hstacks
    have htop : m.kstacks m.proc = ⟨v, .ret, b⟩ :: fs := hstack
    rw [htop, List.countP_cons] at hupdate
    simp only [Bool.toNat_false]
    omega

/-- An activation that goes on to its return leaves the stage, if it was in it. -/
lemma Stage.countP_ret (hP : Stage exit P) (p : Prop) [Decidable p] (f : Activation) (fs : List Activation) :
    ((if p then { f with line := .ret } else f) :: fs).countP P ≤ (f :: fs).countP P := by
  split
  · rw [List.countP_cons, List.countP_cons, show P { f with line := .ret } = false from hP.ret _ _,
      if_neg Bool.false_ne_true]
    exact Nat.add_le_add_left (Nat.zero_le _) _
  · exact le_rfl

lemma Stage.wake (hP : Stage exit P) (fs : List Activation) : (Machine.wake fs).countP P ≤ fs.countP P := by
  cases fs with
  | nil => exact le_rfl
  | cons f fs => exact hP.countP_ret _ f fs

lemma Stage.resume (hP : Stage exit P) (fs : List Activation) : (Machine.resume fs).countP P ≤ fs.countP P := by
  cases fs with
  | nil => exact le_rfl
  | cons f fs => exact hP.countP_ret _ f fs

lemma Stage.pending_enter (hP : Stage exit P) (m : Machine n) (v : Vector) :
    pending P (m.enter v) ≤ pending P m + if isIrq v then 1 else 0 := by
  have hstacks : (m.enter v).kstacks =
    Function.update m.kstacks m.proc (⟨v, .switch, m.interrupts⟩ :: Machine.wake m.stack) := rfl
  have hupdate := pending_update (P := P) hstacks
  have hwake := hP.wake m.stack
  rw [List.countP_cons] at hupdate
  have hnew : (if P ⟨v, .switch, m.interrupts⟩ = true then 1 else 0) ≤ if isIrq v then 1 else 0 := by
    cases hg : P ⟨v, .switch, m.interrupts⟩ with
    | true => rw [hP.enter _ _ hg]
    | false => simp
  change pending P (m.enter v) + m.stack.countP P = _ at hupdate
  omega

/-- Room for one more interrupt of an IRQ line. -/
def room (m : Machine n) : Nat := if ∃ v ∈ m.isr, 2 ≤ priorityClass v then 0 else 1

lemma room_insert_le {m m' : Machine n} (h : m'.isr = insert v m.isr) : room m' ≤ room m := by
  unfold room
  rw [h]
  by_cases hfull : ∃ w ∈ m.isr, 2 ≤ priorityClass w
  · obtain ⟨w, hw, hclass⟩ := hfull
    rw [if_pos ⟨w, Finset.mem_insert_of_mem hw, hclass⟩]
    exact Nat.zero_le _
  · rw [if_neg hfull]
    split
    · exact Nat.zero_le _
    · exact le_rfl

lemma room_accept {m m' : Machine n} (hirq : isIrq v = true) (hoffered : m.offered = some v)
    (h : m'.isr = insert v m.isr) : room m' + 1 = room m := by
  have hclass : priorityClass v = 2 := of_decide_eq_true hirq
  have hbefore : ¬∃ w ∈ m.isr, 2 ≤ priorityClass w := by
    rintro ⟨w, hw, hge⟩
    have hlt := offered_class hoffered w hw
    omega
  have hafter : ∃ w ∈ m'.isr, 2 ≤ priorityClass w := by
    rw [h]
    exact ⟨v, Finset.mem_insert_self v _, hclass.ge⟩
  unfold room
  rw [if_neg hbefore, if_pos hafter]

/-- What is in the stage or may still come into it. -/
def potential (P : Activation → Bool) (m : Machine n) : Nat := pending P m + room m

lemma Stage.potential_enter (hP : Stage exit P) (hv : isIrq v = false) : potential P (m.enter v) ≤ potential P m := by
  have hle := hP.pending_enter m v
  rw [hv, if_neg Bool.false_ne_true] at hle
  exact Nat.add_le_add_right hle _

/-- The interrupt of an IRQ line comes into the stage and takes the room. -/
lemma Stage.potential_accept (hP : Stage exit P) (hoffered : m.offered = some v) :
    potential P (Machine.enter { m with irr := m.irr.erase v, isr := insert v m.isr } v) ≤ potential P m := by
  have hle := hP.pending_enter { m with irr := m.irr.erase v, isr := insert v m.isr } v
  have hsame : pending P { m with irr := m.irr.erase v, isr := insert v m.isr } = pending P m := rfl
  have hisr : (Machine.enter { m with irr := m.irr.erase v, isr := insert v m.isr } v).isr = insert v m.isr := rfl
  unfold potential
  rw [hsame] at hle
  cases hirq : isIrq v with
  | true =>
    have hroom := room_accept hirq hoffered hisr
    rw [hirq, if_pos rfl] at hle
    omega
  | false =>
    have hroom := room_insert_le hisr
    rw [hirq, if_neg Bool.false_ne_true] at hle
    omega

lemma potential_congr {m' : Machine n} (hstacks : m'.kstacks = m.kstacks) (hisr : m'.isr = m.isr) :
    potential P m' = potential P m := by
  unfold potential pending room
  rw [hstacks, hisr]

lemma Stage.potential_swtch (hP : Stage exit P) {p : Fin n} {m' : Machine n}
    (hstacks : m'.kstacks = Function.update m.kstacks (some p) (Machine.resume (m.kstacks (some p))))
    (hisr : m'.isr = m.isr) : potential P m' ≤ potential P m := by
  have hupdate := pending_update (P := P) hstacks
  have hresume := hP.resume (m.kstacks (some p))
  unfold potential room
  rw [hisr]
  omega

lemma potential_ite {p : Prop} [Decidable p] {m' : Machine n} (h : potential P m' ≤ potential P m) :
    potential P (if p then m' else m) ≤ potential P m := by
  split
  · exact h
  · exact le_rfl

/-- The 8259 has other vectors than the IRQ lines. It keeps those of the firmware, as the kernel sets none. -/
def PicApart (es : List (Event n)) : Prop := ∀ v, Event.extInt v ∈ es → isIrq v = false

/-- Only a statement takes something out of the stage, and no other event puts more into it than there is room. -/
lemma Stage.potential_step (hP : Stage exit P) (m : Machine n) {e : Event n} (hpic : PicApart [e]) (he : e ≠ .run) :
    potential P (m.step false e) ≤ potential P m := by
  cases e with
  | request v => exact (potential_congr rfl rfl).le
  | accept =>
    cases hint : m.interrupts with
    | false =>
      rw [Machine.step, hint]
    | true =>
      cases hoffered : m.offered with
      | none => rw [Machine.step, hint, hoffered]
      | some v =>
        rw [step_accept hint hoffered]
        exact hP.potential_accept hoffered
  | spurious => exact potential_ite (hP.potential_enter (by decide))
  | extInt v => exact potential_ite (hP.potential_enter (hpic v List.mem_cons_self))
  | nmi => exact hP.potential_enter (by decide)
  | exception v =>
    rw [Machine.step]
    split
    · exact le_rfl
    · exact hP.potential_enter (isIrq_exception v)
  | syscall => exact potential_ite (hP.potential_enter (by decide))
  | run => exact absurd rfl he
  | sti => exact potential_ite (potential_congr rfl rfl).le
  | acquire => exact potential_ite (potential_congr rfl rfl).le
  | swtch p => exact potential_ite (hP.potential_swtch rfl rfl)

/-- One event: what leaves the stage was in it. -/
lemma Stage.step (hP : Stage exit P) (m : Machine n) {e : Event n} (hpic : PicApart [e]) :
    potential P (m.step false e) + (leavesBy exit P m e).toNat ≤ potential P m := by
  by_cases he : e = .run
  · subst he
    unfold Machine.step leavesBy
    cases hstack : m.stack with
    | nil => exact (Nat.add_zero _).le
    | cons f fs =>
      have hle := hP.statement hstack
      unfold potential room
      rw [isr_statement]
      dsimp only
      omega
  · have hstays : leavesBy exit P m e = false := by
      unfold leavesBy
      split
      · exact absurd rfl he
      · rfl
    rw [hstays, Bool.toNat_false, Nat.add_zero]
    exact hP.potential_step m hpic he

/-- How many events of a run take an activation out of the stage. -/
def left (exit : Line) (P : Activation → Bool) (m : Machine n) : List (Event n) → Nat
  | [] => 0
  | e :: es => (leavesBy exit P m e).toNat + left exit P (m.step false e) es

lemma Stage.left_le (hP : Stage exit P) (m : Machine n) (es : List (Event n)) (hpic : PicApart es) :
    left exit P m es ≤ potential P m := by
  induction es generalizing m with
  | nil => exact Nat.zero_le _
  | cons e es ih =>
    have hone : PicApart [e] := fun v hv => hpic v (List.mem_singleton.mp hv ▸ List.mem_cons_self)
    have hstep := hP.step m hone
    have hrest := ih (m.step false e) fun v hv => hpic v (List.mem_cons_of_mem e hv)
    rw [left]
    omega

lemma Stage.left_boot (hP : Stage exit P) {es : List (Event n)} (hpic : PicApart es) :
    left exit P (Machine.boot n) es ≤ 1 := by
  have hnone : pending P (Machine.boot n) = 0 := by
    refine List.countP_eq_zero.mpr fun f hf => ?_
    obtain ⟨t, -, hmem⟩ := List.mem_flatMap.mp hf
    cases t with
    | none => cases hmem
    | some p =>
      rw [List.mem_singleton.mp hmem, hP.ret]
      exact Bool.false_ne_true
  have hle := hP.left_le (Machine.boot n) es hpic
  have hroom : room (Machine.boot n) ≤ 1 := by
    unfold room
    split <;> decide
  unfold potential at hle
  omega

end Stage

section Stages

/-- An interrupt of an IRQ line in front of the switch. -/
def unhandled (f : Activation) : Bool := isIrq f.vector && decide (f.line = .switch)

lemma stage_unhandled : Stage .switch unhandled where
  exits := Or.inl rfl
  enter := fun v b h => (Bool.and_eq_true_iff.mp h).1
  switch := by
    intro v b h
    have hline := of_decide_eq_true (Bool.and_eq_true_iff.mp h).2
    have hne : ∀ v, interruptDispatch v ≠ .switch := by decide +kernel
    exact absurd hline (hne v)
  pit := fun v b h => absurd (of_decide_eq_true (Bool.and_eq_true_iff.mp h).2) (by simp)
  eoi := by
    intro v b h
    have hline := of_decide_eq_true (Bool.and_eq_true_iff.mp h).2
    split at hline <;> cases hline
  ret := fun v b => Bool.and_false _
  sched := fun v b => Bool.and_false _

/-- An activation that may still come to `yield()`. -/
def preempting (f : Activation) : Bool :=
  decide (f.line = .reschedule ∨ f.vector = apicTimerInterruptNum ∧ f.line ∈ [Line.switch, .pitIrqHandler, .lapicEoi])

lemma stage_preempting : Stage .reschedule preempting := by
  have hcases : (∀ v b, preempting ⟨v, .switch, b⟩ = true → isIrq v = true) ∧
      (∀ v b, preempting ⟨v, interruptDispatch v, b⟩ = true → preempting ⟨v, .switch, b⟩ = true) ∧
      (∀ v b, preempting ⟨v, .lapicEoi, b⟩ = true → preempting ⟨v, .pitIrqHandler, b⟩ = true) ∧
      (∀ v b, preempting ⟨v, if v = apicTimerInterruptNum then .reschedule else .ret, b⟩ = true →
        preempting ⟨v, .lapicEoi, b⟩ = true) := by decide +kernel
  obtain ⟨henter, hswitch, hpit, heoi⟩ := hcases
  exact ⟨Or.inr rfl, henter, fun v b h => ⟨by decide, hswitch v b h⟩, hpit, heoi, fun v b => by simp [preempting],
    fun v b => by simp [preempting]⟩

lemma countP_dispatched (m : Machine n) (es : List (Event n)) :
    (m.dispatched false es).countP isIrq = left .switch unhandled m es := by
  induction es generalizing m with
  | nil => rfl
  | cons e es ih =>
    rw [Machine.dispatched, List.countP_append, ih, left]
    congr 1
    cases e with
    | run =>
      unfold Machine.switches leavesBy
      cases m.stack with
      | nil => rfl
      | cons f fs =>
        dsimp only
        unfold leaves unhandled
        by_cases hline : f.line = .switch
        · rw [if_pos hline, decide_eq_true hline, Bool.and_true, Bool.and_true, Option.toList_some,
            List.countP_singleton]
          cases isIrq f.vector <;> rfl
        · rw [if_neg hline, decide_eq_false hline, Bool.and_false]
          rfl
    | _ => rfl

lemma preemptions_le (m : Machine n) (es : List (Event n)) :
    m.preemptions false es ≤ left .reschedule preempting m es := by
  induction es generalizing m with
  | nil => exact le_rfl
  | cons e es ih =>
    rw [Machine.preemptions, left]
    refine Nat.add_le_add ?_ (ih _)
    cases e with
    | run =>
      unfold Machine.yields leavesBy
      cases m.stack with
      | nil => exact le_rfl
      | cons f fs =>
        dsimp only
        by_cases hline : f.line = .reschedule
        · have hin : leaves .reschedule preempting f = true := by simp [leaves, preempting, hline]
          rw [hin]
          exact Bool.toNat_le _
        · rw [decide_eq_false fun h => hline h.1]
          exact Nat.zero_le _
    | _ => exact le_rfl

end Stages

end JavaScriptOS.Trap
