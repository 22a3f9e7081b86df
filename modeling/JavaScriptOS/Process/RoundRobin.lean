import JavaScriptOS.Process.Turn
import Mathlib.Data.Fintype.Card

/-!
# A runnable process is dispatched in turn

Only the CPU with the lock dispatches, so the way of that CPU to the slot of a waiting process bounds
what all of them do before the process runs. No step of any CPU makes this way longer.
-/

namespace JavaScriptOS.Process
open JavaScriptOS.Lib

variable {n : Nat}

section Interleaving

variable {Id : Type} {s s' s'' : Sys Id n} {p : Fin n}

/-- Who holds the lock is past `acquire`, and every scan is inside the table. -/
structure TurnInv (s : Sys Id n) : Prop extends SysInv s where
  held : ∀ c, s.lock = some c → (s.cpus c).pc.locked = true
  scans : ∀ c, ScanOk (s.cpus c)

/-- The statements until `p` is dispatched, at most, for the CPU that has the lock or takes it next. -/
def Sys.wait (p : Fin n) (s : Sys Id n) : Nat :=
  match s.lock with
  | some c => (s.cpus c).wait p
  | none => 11 * p + 11

def Sys.advances (s : Sys Id n) : Event Id → Bool
  | .run c => (s.cpus c).pc.advances
  | .timer c => (s.cpus c).pc = .user

/-- The process to which an event switches. -/
def Sys.dispatches (s : Sys Id n) : Event Id → List (Fin n)
  | .run c => match (s.cpus c).pc with
    | .swtch q => [q]
    | _ => []
  | .timer _ => []

lemma SysInv.wait_of_locked (h : SysInv s) {c : Id} (hc : (s.cpus c).pc.locked = true) :
    s.wait p = (s.cpus c).wait p := by rw [Sys.wait, h.holder c hc]

lemma Sys.Booted.turnInv (h : s.Booted) : TurnInv s where
  toSysInv := h.inv
  held := by
    intro c hc
    rw [h.lock] at hc
    cases hc
  scans := by
    intro c q hq
    rw [(h.cpus c).1] at hq
    cases hq

variable {e : Event Id}

lemma TurnInv.wait_of_dispatch (h : TurnInv s) {q : Fin n} (hq : q ∈ s.dispatches e)
    (hp : (s.ptable p).state = .runnable) : s.dispatches e = [q] ∧ s.advances e = true ∧ q ≠ p ∧
      s.wait p = 11 * turns p q + 7 := by
  cases e with
  | timer c => cases hq
  | run c =>
    unfold Sys.dispatches at hq ⊢
    cases hpc : (s.cpus c).pc with
    | swtch r =>
      simp only [hpc, List.mem_singleton] at hq
      subst hq
      have hok := h.cpus c
      simp only [CpuOk, hpc] at hok
      refine ⟨by simp only [hpc], by simp [Sys.advances, hpc, Pc.advances], ?_, ?_⟩
      · rintro rfl
        rw [hok.2] at hp
        cases hp
      · rw [h.wait_of_locked (c := c) (by simp [hpc, Pc.locked]), wait_swtch hpc]
    | _ => simp [hpc] at hq

variable [DecidableEq Id]

/-- A step of the system, as the step of one CPU. -/
lemma SysInv.step_cpu (h : SysInv s) (hrun : s.step e = .ok s') :
    ∃ op cpu, CpuStepOk s.ptable (s.cpus e.cpu) op s'.ptable cpu ∧ takeLock s.lock e.cpu op = .ok s'.lock ∧
      s'.cpus = Function.update s.cpus e.cpu cpu ∧
      ((∃ c, e = .run c ∧ CpuMove s.ptable (s.cpus c) op s'.ptable cpu) ∨
        ∃ c, e = .timer c ∧ cpuTimer s.ptable (s.cpus c) = .ok (op, s'.ptable, cpu)) := by
  obtain ⟨⟨op, t', cpu⟩, hcpu, hrest⟩ := bind_eq_ok.mp hrun
  obtain ⟨lock, hlock, hpure⟩ := bind_eq_ok.mp hrest
  cases hpure
  cases e with
  | run c =>
    exact ⟨op, cpu, cpuRun_ok (h.cpus c) h.contexts hcpu, hlock, rfl,
      Or.inl ⟨c, rfl, cpuMove_of_run (h.cpus c) hcpu⟩⟩
  | timer c => exact ⟨op, cpu, cpuTimer_ok (h.cpus c) h.contexts hcpu, hlock, rfl, Or.inr ⟨c, rfl, hcpu⟩⟩

lemma TurnInv.step (h : TurnInv s) (hrun : s.step e = .ok s') : TurnInv s' := by
  obtain ⟨op, cpu, hok, hlock, hcpus, hmove⟩ := h.step_cpu hrun
  refine ⟨h.toSysInv.step hrun, ?_, ?_⟩
  · intro c hc
    rw [hcpus]
    by_cases hce : c = e.cpu
    · subst hce
      rw [Function.update_self]
      have hfits := hok.lock
      cases op with
      | keep =>
        rw [LockOp.Fits] at hfits
        rw [hfits]
        exact h.held _ ((Except.ok.inj hlock).trans hc)
      | acquire => exact hfits.2
      | release =>
        simp only [takeLock, Except.ok.injEq] at hlock
        rw [← hlock] at hc
        cases hc
    · rw [Function.update_of_ne hce]
      apply h.held
      cases op with
      | keep => exact (Except.ok.inj hlock).trans hc
      | acquire =>
        simp only [takeLock] at hlock
        split at hlock
        · rw [← Except.ok.inj hlock] at hc
          exact absurd (Option.some.inj hc).symm hce
        · cases hlock
      | release =>
        rw [← Except.ok.inj hlock] at hc
        cases hc
  · intro c
    rw [hcpus]
    by_cases hce : c = e.cpu
    · subst hce
      rw [Function.update_self]
      rcases hmove with ⟨c, rfl, hmove⟩ | ⟨c, rfl, htimer⟩
      · exact hmove.scanOk (h.scans c)
      · obtain ⟨-, f, hf⟩ := cpuTimer_spec htimer
        intro q hq
        rw [hf] at hq
        cases hq
    · rw [Function.update_of_ne hce]
      exact h.scans c

/-- No step of any CPU takes `p` further away from its turn. -/
lemma TurnInv.wait_le (h : TurnInv s) (hrun : s.step e = .ok s') (hp : (s.ptable p).state = .runnable) :
    s'.wait p + (s.advances e).toNat ≤ s.wait p := by
  obtain ⟨op, cpu, hok, hlock, hcpus, hmove⟩ := h.step_cpu hrun
  have hcpu : cpu.wait p + (s.advances e).toNat ≤ (s.cpus e.cpu).wait p := by
    rcases hmove with ⟨c, rfl, hmove⟩ | ⟨c, rfl, htimer⟩
    · exact hmove.wait_le (h.scans c) hp
    · have hle := cpuTimer_wait (p := p) (h.cpus c) htimer
      simp only [Sys.advances, Event.cpu]
      by_cases huser : (s.cpus c).pc = .user
      · simpa [huser] using hle
      · simpa [huser] using hle
  have hfits := hok.lock
  cases op with
  | keep =>
    rw [LockOp.Fits] at hfits
    cases hl : (s.cpus e.cpu).pc.locked with
    | true =>
      have hlock' : s'.lock = some e.cpu := (Except.ok.inj hlock).symm.trans (h.holder _ hl)
      rw [h.wait_of_locked hl, Sys.wait, hlock', hcpus]
      simpa using hcpu
    | false =>
      -- the lock is elsewhere, and this CPU stays outside of it
      rw [hl] at hfits
      rw [wait_unlocked hfits, wait_unlocked hl] at hcpu
      have hsame : s'.wait p = s.wait p := by
        rw [Sys.wait, Sys.wait, ← Except.ok.inj hlock, hcpus]
        cases hs : s.lock with
        | none => rfl
        | some c =>
          have hne : c ≠ e.cpu := by
            rintro rfl
            rw [h.held _ hs] at hl
            cases hl
          simp only [Function.update_of_ne hne]
      omega
  | acquire =>
    simp only [takeLock] at hlock
    split at hlock
    · rename_i hfree
      rw [wait_unlocked hfits.1] at hcpu
      rw [Sys.wait, Sys.wait, ← Except.ok.inj hlock, hfree, hcpus]
      simpa using hcpu
    · cases hlock
  | release =>
    rw [wait_unlocked hfits.2] at hcpu
    rw [h.wait_of_locked hfits.1, Sys.wait, ← Except.ok.inj hlock]
    exact hcpu

/-- A run during which `p` is runnable: the processes that it switches to, and the number of its steps
that lead to a switch. -/
def Sys.waits (p : Fin n) : Sys Id n → List (Event Id) → Option (List (Fin n) × Nat)
  | s, [] => if (s.ptable p).state = .runnable then some ([], 0) else none
  | s, e :: es =>
    if (s.ptable p).state = .runnable then
      (s.step e).toOption.bind fun s' =>
        (Sys.waits p s' es).map fun (ds, k) => (s.dispatches e ++ ds, (s.advances e).toNat + k)
    else none

/-- A longer run in which `p` waits is a step followed by such a run. -/
lemma Sys.waits_cons {es : List (Event Id)} {ds : List (Fin n)} {k : Nat} (hw : s.waits p (e :: es) = some (ds, k)) :
    (s.ptable p).state = .runnable ∧ ∃ s' ds' k', s.step e = .ok s' ∧ s'.waits p es = some (ds', k') ∧
      ds = s.dispatches e ++ ds' ∧ k = (s.advances e).toNat + k' := by
  rw [Sys.waits] at hw
  by_cases hp : (s.ptable p).state = .runnable
  · rw [if_pos hp] at hw
    cases hstep : s.step e with
    | error err =>
      rw [hstep] at hw
      cases hw
    | ok s' =>
      rw [hstep] at hw
      obtain ⟨⟨ds', k'⟩, hrest, heq⟩ := Option.map_eq_some_iff.mp hw
      cases heq
      exact ⟨hp, s', ds', k', rfl, hrest, rfl, rfl⟩
  · rw [if_neg hp] at hw
    cases hw

/-- Each process that is dispatched is nearer to the turn of `p` than the one before. -/
lemma TurnInv.waits {es : List (Event Id)} {ds : List (Fin n)} {k : Nat} (h : TurnInv s)
    (hw : s.waits p es = some (ds, k)) :
    k ≤ s.wait p ∧ (∀ q ∈ ds, q ≠ p ∧ 11 * turns p q + 7 ≤ s.wait p) ∧ ds.Nodup := by
  induction es generalizing s ds k with
  | nil =>
    rw [Sys.waits] at hw
    split at hw
    · cases hw
      exact ⟨Nat.zero_le _, by simp, List.nodup_nil⟩
    · cases hw
  | cons e es ih =>
    obtain ⟨hp, s', ds', k', hrun, hrest, rfl, rfl⟩ := Sys.waits_cons hw
    obtain ⟨hle, hds, hnodup⟩ := ih (h.step hrun) hrest
    have hstep := h.wait_le hrun hp
    refine ⟨by omega, ?_, ?_⟩
    · intro q hq
      rcases List.mem_append.mp hq with hnow | hlater
      · obtain ⟨-, -, hne, heq⟩ := h.wait_of_dispatch hnow hp
        exact ⟨hne, heq.ge⟩
      · exact ⟨(hds q hlater).1, (hds q hlater).2.trans (by omega)⟩
    · cases hd : s.dispatches e with
      | nil => exact hnodup
      | cons q rest =>
        obtain ⟨hone, hadv, -, heq⟩ := h.wait_of_dispatch (q := q) (hd ▸ List.mem_cons_self) hp
        rw [hd] at hone
        rw [hone]
        refine List.nodup_cons.mpr ⟨fun hmem => ?_, hnodup⟩
        have hfar := (hds q hmem).2
        rw [hadv, Bool.toNat_true] at hstep
        omega

lemma turnInv_of_reach (hr : SysReach s) : TurnInv s := by
  refine hr.preserved (P := TurnInv) ?_ ?_
  · exact fun s hs => hs.turnInv
  · exact fun s e s' h _ hrun => h.step hrun

/-- Round robin: while a process is runnable, on any number of CPUs and in any interleaving, every other
process is dispatched at most once, and there is a bound on the steps that lead to a switch. -/
theorem runnable_waits_bounded (s : Sys Id n) (p : Fin n) (es : List (Event Id)) (ds : List (Fin n)) (k : Nat)
    (hr : SysReach s) (hw : s.waits p es = some (ds, k)) :
    p ∉ ds ∧ ds.Nodup ∧ ds.length < n ∧ k ≤ 11 * n + 17 := by
  have h := turnInv_of_reach hr
  obtain ⟨hle, hds, hnodup⟩ := h.waits hw
  have hp : p ∉ ds := fun hmem => (hds p hmem).1 rfl
  refine ⟨hp, hnodup, ?_, ?_⟩
  · have hcard : (p :: ds).length ≤ Fintype.card (Fin n) := (List.nodup_cons.mpr ⟨hp, hnodup⟩).length_le_card
    rw [Fintype.card_fin] at hcard
    exact hcard
  · have hbound : s.wait p ≤ 11 * n + 17 := by
      have hp := p.isLt
      unfold Sys.wait
      split
      · exact Cpu.wait_le _ _
      · omega
    omega

/-- One step of some CPU. -/
def Sys.Steps (s s' : Sys Id n) : Prop := ∃ e, s.step e = .ok s'

/-- A CPU that holds the lock, or finds it free, is never stuck. -/
lemma TurnInv.run_ok (h : TurnInv s) {c : Id} (hc : (s.cpus c).pc.locked = true ∨ s.lock = none) :
    ∃ s', s.step (.run c) = .ok s' := by
  obtain ⟨op, t', cpu, hrun, -⟩ := cpuRun_move (h.cpus c)
  have hfits := (cpuRun_ok (h.cpus c) h.contexts hrun).lock
  have hlock : ∃ lock, takeLock s.lock c op = .ok lock := by
    cases op with
    | keep => exact ⟨_, rfl⟩
    | acquire =>
      have hfree : s.lock = none := by
        rcases hc with hl | hfree
        · rw [hfits.1] at hl
          cases hl
        · exact hfree
      exact ⟨some c, by simp only [takeLock, hfree, if_true]⟩
    | release => exact ⟨_, rfl⟩
  obtain ⟨lock, hlock⟩ := hlock
  have hstep : s.cpuStep (.run c) = .ok (op, t', cpu) := hrun
  refine ⟨⟨t', lock, Function.update s.cpus c cpu⟩, ?_⟩
  rw [Sys.step, hstep, ok_bind]
  dsimp only [Event.cpu]
  rw [hlock, ok_bind]
  rfl

lemma Sys.timer_ok {c : Id} (hpc : (s.cpus c).pc = .user) : ∃ s', s.step (.timer c) = .ok s' := by
  simp [Sys.step, Sys.cpuStep, cpuTimer, hpc, takeLock, bind, Except.bind, pure, Except.pure]

/-- With the lock free, a CPU reaches `acquire` and nothing else changes. -/
lemma TurnInv.to_acquire (h : TurnInv s) (hfree : s.lock = none) (c : Id) :
    ∃ s', Relation.ReflTransGen Sys.Steps s s' ∧ TurnInv s' ∧ s'.lock = none ∧ s'.ptable = s.ptable ∧
      (s'.cpus c).pc = .idle := by
  have hl : (s.cpus c).pc.locked = false := by
    by_contra hne
    have hheld := h.holder c (by simpa using hne)
    rw [hfree] at hheld
    cases hheld
  by_cases hidle : (s.cpus c).pc = .idle
  · exact ⟨s, .refl, h, hfree, rfl, hidle⟩
  · obtain ⟨s', hrun⟩ := h.run_ok (c := c) (Or.inr hfree)
    obtain ⟨op, cpu, hok, hlock, hcpus, hmove⟩ := h.step_cpu hrun
    have hcpu : op = .keep ∧ cpu.pc = .idle := by
      rcases hmove with ⟨c', heq, hmove⟩ | ⟨c', heq, -⟩
      · cases heq
        exact hmove.of_unlocked hl hidle
      · cases heq
    obtain ⟨rfl, hpc⟩ := hcpu
    refine ⟨s', .single ⟨_, hrun⟩, h.step hrun, (Except.ok.inj hlock).symm.trans hfree, hok.frame hl, ?_⟩
    rw [hcpus]
    exact (congrArg Cpu.pc (Function.update_self c cpu s.cpus)).trans hpc

/-- Some CPU can take a step that leads to a switch. -/
lemma TurnInv.exists_advance [Nonempty Id] (h : TurnInv s) : ∃ s₁ e s', Relation.ReflTransGen Sys.Steps s s₁ ∧
    TurnInv s₁ ∧ s₁.ptable = s.ptable ∧ s₁.wait p = s.wait p ∧ s₁.advances e = true ∧ s₁.step e = .ok s' := by
  cases hlock : s.lock with
  | some c =>
    have hl := h.held c hlock
    by_cases huser : (s.cpus c).pc = .user
    · obtain ⟨s', hrun⟩ := Sys.timer_ok huser
      exact ⟨s, .timer c, s', .refl, h, rfl, rfl, by simp [Sys.advances, huser], hrun⟩
    · obtain ⟨s', hrun⟩ := h.run_ok (Or.inl hl)
      exact ⟨s, .run c, s', .refl, h, rfl, rfl, Pc.advances_of_locked hl huser, hrun⟩
  | none =>
    obtain ⟨c⟩ := ‹Nonempty Id›
    obtain ⟨s₁, hsteps, h₁, hfree, hptable, hidle⟩ := h.to_acquire hlock c
    obtain ⟨s', hrun⟩ := h₁.run_ok (c := c) (Or.inr hfree)
    refine ⟨s₁, .run c, s', hsteps, h₁, hptable, ?_, by simp [Sys.advances, hidle, Pc.advances], hrun⟩
    rw [Sys.wait, Sys.wait, hfree, hlock]

lemma TurnInv.runnable_step (h : TurnInv s) (hrun : s.step e = .ok s') (hp : (s.ptable p).state = .runnable) :
    (s'.ptable p).state = .runnable ∨ (s'.ptable p).state = .running := by
  obtain ⟨op, cpu, -, -, -, hmove⟩ := h.step_cpu hrun
  rcases hmove with ⟨c, -, hmove⟩ | ⟨c, -, htimer⟩
  · exact hmove.runnable hp
  · rw [(cpuTimer_spec htimer).1]
    exact Or.inl hp

lemma TurnInv.reaches_running [Nonempty Id] (h : TurnInv s) (hp : (s.ptable p).state = .runnable) :
    ∃ s', Relation.ReflTransGen Sys.Steps s s' ∧ (s'.ptable p).state = .running := by
  -- by induction on the statements that are left until the turn of `p`
  induction hk : s.wait p using Nat.strong_induction_on generalizing s with
  | _ k ih =>
    subst hk
    obtain ⟨s₁, e, s₂, hsteps, h₁, hptable, hwait, hadv, hrun⟩ := h.exists_advance (p := p)
    rw [← hptable] at hp
    have hle := h₁.wait_le hrun hp
    rw [hadv, Bool.toNat_true, hwait] at hle
    have hreach : Relation.ReflTransGen Sys.Steps s s₂ := hsteps.tail ⟨e, hrun⟩
    rcases h₁.runnable_step hrun hp with hstill | hnow
    · obtain ⟨s', hrest, hrunning⟩ := ih (s₂.wait p) (by omega) (h₁.step hrun) hstill rfl
      exact ⟨s', hreach.trans hrest, hrunning⟩
    · exact ⟨s₂, hreach, hnow⟩

/-- No process starves: from every reachable state, steps of the CPUs and timer interrupts lead to a state
in which a given runnable process runs. -/
theorem runnable_reaches_running [Nonempty Id] (s : Sys Id n) (p : Fin n) (hr : SysReach s)
    (hp : (s.ptable p).state = .runnable) :
    ∃ s', Relation.ReflTransGen Sys.Steps s s' ∧ (s'.ptable p).state = .running :=
  (turnInv_of_reach hr).reaches_running hp

end Interleaving

section TwoCpus

lemma twoCpus_booted : Sys.Booted twoCpus := ⟨rfl, fun _ => ⟨rfl, rfl⟩, fun _ => ⟨(nomatch ·), rfl⟩⟩

/-- Process 1 waits while CPU 0 dispatches process 0 and its time runs out. -/
theorem runnable_waits_bounded_twoCpus : SysReach twoCpus ∧ ∃ k,
    twoCpus.waits 1 (List.replicate 7 (.run 0) ++ [.timer 0] ++ List.replicate 6 (.run 0)) = some ([0], k) ∧
    (1 : Fin 2) ∉ [(0 : Fin 2)] ∧ k ≤ 39 := by
  have hr : SysReach twoCpus := .init twoCpus_booted
  have hw : twoCpus.waits 1 (List.replicate 7 (.run 0) ++ [.timer 0] ++ List.replicate 6 (.run 0)) =
      some ([0], 13) := by decide +kernel
  obtain ⟨hnot, -, -, hk⟩ := runnable_waits_bounded twoCpus 1 _ [0] 13 hr hw
  exact ⟨hr, 13, hw, hnot, hk⟩

theorem runnable_reaches_running_twoCpus : SysReach twoCpus ∧
    ∃ s', Relation.ReflTransGen Sys.Steps twoCpus s' ∧ (s'.ptable 1).state = .running := by
  have hr : SysReach twoCpus := .init twoCpus_booted
  exact ⟨hr, runnable_reaches_running twoCpus 1 hr rfl⟩

end TwoCpus

end JavaScriptOS.Process
