import JavaScriptOS.Process.Scheduler

/-!
# A process runs on one CPU

`scheduler()` keeps `ptable.lock` from its scan over the dispatched process back to the end of the scan,
because nothing in between releases it. A CPU with a current process therefore holds the lock.
-/

namespace JavaScriptOS.Process
open JavaScriptOS.Lib

variable {n : Nat}

def Pc.locked : Pc n → Bool
  | .entry | .idle | .timer .idle => false
  | _ => true

/-- What holds of a CPU at each place: its current process, the loop it will return to, and the
state of that process. -/
def CpuOk (t : Ptable n) (c : Cpu n) : Prop :=
  match c.pc with
  | .entry | .idle | .scan _ | .select _ | .timer .idle => c.proc = none
  | .mark p => c.proc = some p
  | .swtch p => c.proc = some p ∧ (t p).state = .running
  | .back p => c.proc = some p ∧ (t p).state ≠ .running
  | .procstart | .user | .timer .process | .yield .process | .resumed .process _ =>
    ∃ p, c.proc = some p ∧ c.scheduler = some p ∧ (t p).state = .running
  | .sched .process => ∃ p, c.proc = some p ∧ c.scheduler = some p ∧ (t p).state ≠ .running
  | .contextSwitch .process p _ => c.proc = some p ∧ c.scheduler = some p ∧ (t p).state ≠ .running
  | .yield .idle | .sched .idle | .contextSwitch .idle _ _ | .resumed .idle _ => False

/-- No process was left in the idle window of a scheduler. -/
def ContextsOk (t : Ptable n) : Prop := ∀ p intena, (t p).context ≠ .sched .idle intena

/-- The effect of a statement on the lock agrees with the places before and after it. -/
def LockOp.Fits (before after : Bool) : LockOp → Prop
  | .keep => after = before
  | .acquire => before = false ∧ after = true
  | .release => before = true ∧ after = false

/-- One step of a CPU as the other CPUs see it. -/
structure CpuStepOk (t : Ptable n) (c : Cpu n) (op : LockOp) (t' : Ptable n) (c' : Cpu n) : Prop where
  cpu : CpuOk t' c'
  contexts : ContextsOk t'
  lock : op.Fits c.pc.locked c'.pc.locked
  frame : c.pc.locked = false → t' = t
  running : ∀ p, (t' p).state = .running → c'.proc = some p ∨ ((t p).state = .running ∧ c.proc ≠ some p)

variable {t t' : Ptable n} {c c' : Cpu n} {op : LockOp}

lemma CpuOk.of_unlocked (h : CpuOk t c) (hl : c.pc.locked = false) (t' : Ptable n) : CpuOk t' c := by
  unfold CpuOk at h ⊢
  cases hpc : c.pc with
  | entry => simpa [hpc] using h
  | idle => simpa [hpc] using h
  | timer f =>
    cases f with
    | idle => simpa [hpc] using h
    | process => simp [hpc, Pc.locked] at hl
  | _ => simp [hpc, Pc.locked] at hl

lemma CpuOk.locked_of_proc (h : CpuOk t c) {p : Fin n} (hp : c.proc = some p) : c.pc.locked = true := by
  unfold CpuOk at h
  cases hpc : c.pc with
  | entry => simp [hpc, hp] at h
  | idle => simp [hpc, hp] at h
  | timer f =>
    cases f with
    | idle => simp [hpc, hp] at h
    | process => rfl
  | _ => rfl

lemma setState_state (t : Ptable n) (p q : Fin n) (state : ProcState) :
    (setState t p state q).state = if q = p then state else (t q).state := by
  by_cases h : q = p
  · subst h
    simp [setState]
  · simp [setState, h]

lemma ContextsOk.setState (h : ContextsOk t) (p : Fin n) (state : ProcState) : ContextsOk (setState t p state) := by
  intro q intena
  by_cases hq : q = p
  · subst hq
    simpa [Process.setState] using h q intena
  · simpa [Process.setState, hq] using h q intena

lemma setContext_state (t : Ptable n) (p q : Fin n) (context : Context) :
    (setContext t p context q).state = (t q).state := by
  by_cases h : q = p
  · subst h
    simp [setContext]
  · simp [setContext, h]

/-- A step that leaves the process table alone. It may change the current process if the old one is
not running any more. -/
lemma CpuStepOk.of_same_table (hctx : ContextsOk t) (hcpu : CpuOk t c') (hlock : op.Fits c.pc.locked c'.pc.locked)
    (hproc : c'.proc = c.proc ∨ ∀ p, c.proc = some p → (t p).state ≠ .running) : CpuStepOk t c op t c' where
  cpu := hcpu
  contexts := hctx
  lock := hlock
  frame := fun _ => rfl
  running := by
    intro p hp
    by_cases h : c.proc = some p
    · rcases hproc with hsame | hnot
      · exact Or.inl (hsame.trans h)
      · exact (hnot p h hp).elim
    · exact Or.inr ⟨hp, h⟩

lemma CpuStepOk.of_setState {p : Fin n} {state : ProcState} (hctx : ContextsOk t)
    (hcpu : CpuOk (setState t p state) c') (hlock : op.Fits c.pc.locked c'.pc.locked) (hl : c.pc.locked = true)
    (hproc : c.proc = some p) (hproc' : c'.proc = some p) : CpuStepOk t c op (setState t p state) c' where
  cpu := hcpu
  contexts := hctx.setState p state
  lock := hlock
  frame := by
    intro h
    rw [hl] at h
    cases h
  running := by
    intro q hq
    by_cases hqp : q = p
    · exact Or.inl (hqp ▸ hproc')
    · rw [setState_state, if_neg hqp] at hq
      refine Or.inr ⟨hq, fun hcq => hqp ?_⟩
      rw [hproc] at hcq
      exact (Option.some.inj hcq).symm

lemma cpuTimer_ok (h : CpuOk t c) (hctx : ContextsOk t) (hrun : cpuTimer t c = .ok (op, t', c')) :
    CpuStepOk t c op t' c' := by
  unfold cpuTimer at hrun
  unfold CpuOk at h
  cases hpc : c.pc with
  | idle =>
    simp only [hpc, Except.ok.injEq, Prod.mk.injEq] at h hrun
    obtain ⟨rfl, rfl, rfl⟩ := hrun
    exact .of_same_table hctx h (by simp [LockOp.Fits, Pc.locked, hpc]) (Or.inl rfl)
  | user =>
    simp only [hpc, Except.ok.injEq, Prod.mk.injEq] at h hrun
    obtain ⟨rfl, rfl, rfl⟩ := hrun
    exact .of_same_table hctx h (by simp [LockOp.Fits, Pc.locked, hpc]) (Or.inl rfl)
  | _ => simp [hpc] at hrun

/-- The test of the timer handler: a process that is running goes on to `yield()`, the idle window is
resumed. -/
lemma timer_ok {f : Frame} (h : CpuOk t c) (hctx : ContextsOk t) (hpc : c.pc = .timer f)
    (hrun : cpuRun t c = .ok (op, t', c')) : CpuStepOk t c op t' c' := by
  unfold cpuRun at hrun
  unfold CpuOk at h
  cases f with
  | idle =>
    simp only [hpc] at h hrun
    simp only [h, Except.ok.injEq, Prod.mk.injEq] at hrun
    obtain ⟨rfl, rfl, rfl⟩ := hrun
    exact .of_same_table hctx rfl (by simp [LockOp.Fits, Pc.locked, hpc, iret]) (Or.inl h.symm)
  | process =>
    simp only [hpc] at h hrun
    obtain ⟨p, hproc, hsched, hstate⟩ := h
    simp only [hproc, if_pos hstate, Except.ok.injEq, Prod.mk.injEq] at hrun
    obtain ⟨rfl, rfl, rfl⟩ := hrun
    exact .of_same_table hctx ⟨p, rfl, hsched, hstate⟩ (by simp [LockOp.Fits, Pc.locked, hpc]) (Or.inl hproc.symm)

/-- `swtch` to a process: at its start, or back in `sched()`. -/
lemma swtch_ok {p : Fin n} (h : CpuOk t c) (hctx : ContextsOk t) (hpc : c.pc = .swtch p)
    (hrun : cpuRun t c = .ok (op, t', c')) : CpuStepOk t c op t' c' := by
  unfold cpuRun at hrun
  unfold CpuOk at h
  simp only [hpc, Except.ok.injEq, Prod.mk.injEq] at h hrun
  obtain ⟨rfl, rfl, rfl⟩ := hrun
  cases hcx : (t p).context with
  | procstart =>
    exact .of_same_table hctx ⟨p, h.1, rfl, h.2⟩ (by simp [LockOp.Fits, Pc.locked, hpc, resume]) (Or.inl rfl)
  | sched f intena =>
    cases f with
    | idle => exact (hctx p intena hcx).elim
    | process =>
      exact .of_same_table hctx ⟨p, h.1, rfl, h.2⟩ (by simp [LockOp.Fits, Pc.locked, hpc, resume]) (Or.inl rfl)

/-- The switch back: the context of the process is saved, and the loop goes on where it left off. -/
lemma contextSwitch_ok {f : Frame} {p : Fin n} {intena : Bool} (h : CpuOk t c) (hctx : ContextsOk t)
    (hpc : c.pc = .contextSwitch f p intena) (hrun : cpuRun t c = .ok (op, t', c')) :
    CpuStepOk t c op t' c' := by
  unfold cpuRun at hrun
  unfold CpuOk at h
  cases f with
  | idle => simp [hpc] at h
  | process =>
    simp only [hpc] at h hrun
    obtain ⟨hproc, hsched, hstate⟩ := h
    simp only [hsched, Except.ok.injEq, Prod.mk.injEq] at hrun
    obtain ⟨rfl, rfl, rfl⟩ := hrun
    refine ⟨⟨hproc, ?_⟩, ?_, by simp [LockOp.Fits, Pc.locked, hpc], by simp [Pc.locked, hpc], ?_⟩
    · rwa [setContext_state]
    · intro q i
      by_cases hq : q = p
      · subst hq
        simp [setContext]
      · simpa [setContext, hq] using hctx q i
    · intro q hq
      rw [setContext_state] at hq
      refine Or.inr ⟨hq, fun hcq => hstate ?_⟩
      rw [hproc] at hcq
      cases hcq
      exact hq

lemma cpuRun_ok (h : CpuOk t c) (hctx : ContextsOk t) (hrun : cpuRun t c = .ok (op, t', c')) :
    CpuStepOk t c op t' c' := by
  cases hpc : c.pc with
  | timer f => exact timer_ok h hctx hpc hrun
  | swtch p => exact swtch_ok h hctx hpc hrun
  | contextSwitch f p intena => exact contextSwitch_ok h hctx hpc hrun
  | scan p =>
    simp only [cpuRun, CpuOk, hpc] at h hrun
    split at hrun
    · split at hrun <;>
      · simp only [Except.ok.injEq, Prod.mk.injEq] at hrun
        obtain ⟨rfl, rfl, rfl⟩ := hrun
        exact .of_same_table hctx h (by simp [LockOp.Fits, Pc.locked, hpc]) (Or.inl rfl)
    · simp only [Except.ok.injEq, Prod.mk.injEq] at hrun
      obtain ⟨rfl, rfl, rfl⟩ := hrun
      exact .of_same_table hctx h (by simp [LockOp.Fits, Pc.locked, hpc]) (Or.inl rfl)
  | entry =>
    simp only [cpuRun, CpuOk, hpc, Except.ok.injEq, Prod.mk.injEq] at h hrun
    obtain ⟨rfl, rfl, rfl⟩ := hrun
    exact .of_same_table hctx rfl (by simp [LockOp.Fits, Pc.locked, hpc]) (Or.inl h.symm)
  | idle =>
    simp only [cpuRun, CpuOk, hpc, Except.ok.injEq, Prod.mk.injEq] at h hrun
    obtain ⟨rfl, rfl, rfl⟩ := hrun
    exact .of_same_table hctx h (by simp [LockOp.Fits, Pc.locked, hpc]) (Or.inl rfl)
  | select p =>
    simp only [cpuRun, CpuOk, hpc, Except.ok.injEq, Prod.mk.injEq] at h hrun
    obtain ⟨rfl, rfl, rfl⟩ := hrun
    exact .of_same_table hctx rfl (by simp [LockOp.Fits, Pc.locked, hpc]) (Or.inr fun q hq => by simp [h] at hq)
  | mark p =>
    simp only [cpuRun, CpuOk, hpc, Except.ok.injEq, Prod.mk.injEq] at h hrun
    obtain ⟨rfl, rfl, rfl⟩ := hrun
    exact .of_setState hctx ⟨h, by simp [setState_state]⟩ (by simp [LockOp.Fits, Pc.locked, hpc])
      (by simp [Pc.locked, hpc]) h h
  | back p =>
    simp only [cpuRun, CpuOk, hpc, Except.ok.injEq, Prod.mk.injEq] at h hrun
    obtain ⟨rfl, rfl, rfl⟩ := hrun
    refine .of_same_table hctx rfl (by simp [LockOp.Fits, Pc.locked, hpc]) (Or.inr fun q hq => ?_)
    rw [h.1] at hq
    cases hq
    exact h.2
  | procstart =>
    simp only [cpuRun, CpuOk, hpc, Except.ok.injEq, Prod.mk.injEq] at h hrun
    obtain ⟨rfl, rfl, rfl⟩ := hrun
    exact .of_same_table hctx h (by simp [LockOp.Fits, Pc.locked, hpc]) (Or.inl rfl)
  | user =>
    have huser : CpuOk t c := h
    simp only [cpuRun, hpc, Except.ok.injEq, Prod.mk.injEq] at hrun
    obtain ⟨rfl, rfl, rfl⟩ := hrun
    exact .of_same_table hctx huser rfl (Or.inl rfl)
  | yield f =>
    cases f with
    | idle => simp [CpuOk, hpc] at h
    | process =>
      simp only [cpuRun, CpuOk, hpc] at h hrun
      obtain ⟨p, hproc, hsched, -⟩ := h
      simp only [hproc, Except.ok.injEq, Prod.mk.injEq] at hrun
      obtain ⟨rfl, rfl, rfl⟩ := hrun
      exact .of_setState hctx ⟨p, rfl, hsched, by simp [setState_state]⟩ (by simp [LockOp.Fits, Pc.locked, hpc])
        (by simp [Pc.locked, hpc]) hproc rfl
  | sched f =>
    cases f with
    | idle => simp [CpuOk, hpc] at h
    | process =>
      simp only [cpuRun, CpuOk, hpc] at h hrun
      obtain ⟨p, hproc, hsched, hstate⟩ := h
      simp only [hproc, Except.ok.injEq, Prod.mk.injEq] at hrun
      obtain ⟨rfl, rfl, rfl⟩ := hrun
      exact .of_same_table hctx ⟨rfl, hsched, hstate⟩ (by simp [LockOp.Fits, Pc.locked, hpc]) (Or.inl hproc.symm)
  | resumed f intena =>
    cases f with
    | idle => simp [CpuOk, hpc] at h
    | process =>
      simp only [cpuRun, CpuOk, hpc, Except.ok.injEq, Prod.mk.injEq] at h hrun
      obtain ⟨rfl, rfl, rfl⟩ := hrun
      exact .of_same_table hctx h (by simp [LockOp.Fits, Pc.locked, hpc, iret]) (Or.inl rfl)

section Interleaving

variable {Id : Type}

/-- The invariant of every interleaving: who is past `acquire` holds the lock, and a running process
is the current process of some CPU. -/
structure SysInv (s : Sys Id n) : Prop where
  cpus : ∀ c, CpuOk s.ptable (s.cpus c)
  contexts : ContextsOk s.ptable
  holder : ∀ c, (s.cpus c).pc.locked = true → s.lock = some c
  running : ∀ p, (s.ptable p).state = .running → ∃ c, (s.cpus c).proc = some p

variable {s s' : Sys Id n}

lemma Sys.Booted.inv (h : s.Booted) : SysInv s where
  cpus := by
    intro c
    simp [CpuOk, (h.cpus c).1, (h.cpus c).2]
  contexts := by
    intro p intena
    simp [(h.procs p).2]
  holder := by
    intro c hc
    simp [(h.cpus c).1, Pc.locked] at hc
  running := fun p hp => ((h.procs p).1 hp).elim

lemma SysInv.unique (h : SysInv s) {c c' : Id} {p p' : Fin n} (hc : (s.cpus c).proc = some p)
    (hc' : (s.cpus c').proc = some p') : c = c' := by
  have hl := h.holder c ((h.cpus c).locked_of_proc hc)
  have hl' := h.holder c' ((h.cpus c').locked_of_proc hc')
  rw [hl] at hl'
  exact Option.some.inj hl'

variable [DecidableEq Id]

lemma SysInv.takeLock_holder {e : Id} {op : LockOp} {lock : Option Id} {cpu : Cpu n} (h : SysInv s)
    (hfits : op.Fits (s.cpus e).pc.locked cpu.pc.locked) (hlock : takeLock s.lock e op = .ok lock) (c : Id)
    (hc : (Function.update s.cpus e cpu c).pc.locked = true) : lock = some c := by
  by_cases hce : c = e
  · subst hce
    rw [Function.update_self] at hc
    cases op with
    | keep =>
      cases hlock
      exact h.holder c (hfits.symm.trans hc)
    | acquire =>
      simp only [takeLock] at hlock
      split at hlock
      · cases hlock
        rfl
      · cases hlock
    | release =>
      rw [hfits.2] at hc
      cases hc
  · rw [Function.update_of_ne hce] at hc
    have hs := h.holder c hc
    cases op with
    | keep =>
      cases hlock
      exact hs
    | acquire =>
      simp only [takeLock, hs, reduceCtorEq, if_false] at hlock
    | release =>
      -- both CPUs would hold the lock
      have he := h.holder e hfits.1
      rw [hs] at he
      exact (hce (Option.some.inj he)).elim

lemma SysInv.step {e : Event Id} (h : SysInv s) (hrun : s.step e = .ok s') : SysInv s' := by
  obtain ⟨⟨op, t', cpu⟩, hcpu, hrest⟩ := bind_eq_ok.mp hrun
  obtain ⟨lock, hlock, hpure⟩ := bind_eq_ok.mp hrest
  cases hpure
  have hok : CpuStepOk s.ptable (s.cpus e.cpu) op t' cpu := by
    cases e with
    | run c => exact cpuRun_ok (h.cpus c) h.contexts hcpu
    | timer c => exact cpuTimer_ok (h.cpus c) h.contexts hcpu
  constructor
  · intro c
    by_cases hc : c = e.cpu
    · subst hc
      simpa using hok.cpu
    · simp only [Function.update_of_ne hc]
      cases hl : (s.cpus e.cpu).pc.locked with
      | false =>
        rw [hok.frame hl]
        exact h.cpus c
      | true =>
        -- the stepping CPU holds the lock, so this one is outside it
        apply (h.cpus c).of_unlocked
        by_contra hne
        have hc' := h.holder c (by simpa using hne)
        rw [h.holder e.cpu hl] at hc'
        exact hc (Option.some.inj hc').symm
  · exact hok.contexts
  · exact h.takeLock_holder hok.lock hlock
  · intro p hp
    rcases hok.running p hp with hnew | ⟨hold, hne⟩
    · exact ⟨e.cpu, by simpa using hnew⟩
    · obtain ⟨c, hc⟩ := h.running p hold
      have hce : c ≠ e.cpu := fun heq => hne (heq ▸ hc)
      exact ⟨c, by simpa [hce] using hc⟩

lemma sysInv_of_reach (hr : SysReach s) : SysInv s := by
  refine hr.preserved (P := SysInv) ?_ ?_
  · exact fun s hs => hs.inv
  · exact fun s e s' h _ hrun => h.step hrun

/-- No process is current on two CPUs, and a running process is current on exactly one. -/
theorem scheduler_exclusive (s : Sys Id n) (hr : SysReach s) :
    (∀ c c' p, (s.cpus c).proc = some p → (s.cpus c').proc = some p → c = c') ∧
      ∀ p, (s.ptable p).state = .running → ∃! c, (s.cpus c).proc = some p := by
  have h := sysInv_of_reach hr
  constructor
  · exact fun c c' p hc hc' => h.unique hc hc'
  · intro p hp
    obtain ⟨c, hc⟩ := h.running p hp
    exact ⟨c, hc, fun c' hc' => h.unique hc' hc⟩

end Interleaving

def twoCpus : Sys (Fin 2) 2 :=
  ⟨fun _ => ⟨.runnable, .procstart⟩, none, fun _ => ⟨.entry, none, none, false⟩⟩

/-- CPU 0 runs process 0 until the timer, switches back and is about to run process 1; CPU 1 is
waiting for the lock. -/
def yieldOnce : List (Event (Fin 2)) :=
  [.run 1] ++ List.replicate 7 (.run 0) ++ [.timer 0, .timer 1] ++ List.replicate 8 (.run 0)

theorem scheduler_exclusive_yieldOnce : ∃ s : Sys (Fin 2) 2, SysReach s ∧ (s.ptable 0).state = .runnable ∧
    (s.ptable 1).state = .running ∧ ∃! c, (s.cpus c).proc = some 1 := by
  have hplay : (play Sys.step (fun _ _ => True) twoCpus yieldOnce).any
      (fun s => (s.ptable 0).state == .runnable && (s.ptable 1).state == .running) = true := by decide +kernel
  obtain ⟨s, hs, hstates⟩ := (Option.any_eq_true _ _).mp hplay
  have hboot : Sys.Booted twoCpus := ⟨rfl, fun c => ⟨rfl, rfl⟩, fun p => ⟨(nomatch ·), rfl⟩⟩
  have hr : SysReach s := Reach.play (.init hboot) hs
  simp only [Bool.and_eq_true, beq_iff_eq] at hstates
  exact ⟨s, hr, hstates.1, hstates.2, (scheduler_exclusive s hr).2 1 hstates.2⟩

end JavaScriptOS.Process
