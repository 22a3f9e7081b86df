import JavaScriptOS.Process.Exclusive

/-!
# One CPU on the way to the turn of a process

The scheduler goes through the process table upwards and begins again at the first slot. How far it is
from a process that waits is a number that every statement on the way to a switch makes smaller.
-/

namespace JavaScriptOS.Process
open JavaScriptOS.Lib

variable {n : Nat}

/-- The slot that the scheduler on a CPU tests next, or is about to dispatch. -/
def Cpu.slot (c : Cpu n) : Nat :=
  match c.pc with
  | .scan q => q
  | .select q | .mark q | .swtch q => q
  | .back q => q + 1
  | _ => match c.scheduler with
    | some q => q + 1
    | none => 0

/-- The statements left until the scheduler is at a new slot. -/
def Pc.phase : Pc n → Nat
  | .scan _ => 10
  | .select _ => 9
  | .mark _ => 8
  | .swtch _ => 7
  | .procstart | .resumed _ _ => 17
  | .user => 16
  | .timer _ => 15
  | .yield _ => 14
  | .sched _ => 13
  | .contextSwitch _ _ _ => 12
  | .back _ => 11
  | .entry | .idle => 0

/-- The slots from `q` to `p`, through the end of the table if `p` has been passed. -/
def turns (p : Fin n) (q : Nat) : Nat := if q ≤ p then p - q else n + 1 - q + p

/-- The statements until `p` is dispatched, at most, if the CPU has the lock or takes it next. -/
def Cpu.wait (p : Fin n) (c : Cpu n) : Nat :=
  if c.pc.locked then 11 * turns p c.slot + c.pc.phase else 11 * p + 11

/-- Statements that lead to a switch: all but the ones of the process itself and of a CPU that is idle. -/
def Pc.advances : Pc n → Bool
  | .entry | .timer .idle | .user => false
  | _ => true

lemma Pc.advances_of_locked {pc : Pc n} (hl : pc.locked = true) (huser : pc ≠ .user) : pc.advances = true := by
  cases pc with
  | entry => cases hl
  | user => exact absurd rfl huser
  | timer f =>
    cases f with
    | idle => cases hl
    | process => rfl
  | _ => rfl

lemma turns_succ {p : Fin n} {q : Nat} (hq : q < n) (hne : q ≠ p) : turns p (q + 1) + 1 = turns p q := by
  have hp := p.isLt
  unfold turns
  split <;> split <;> omega

lemma turns_end (p : Fin n) : turns p n = p + 1 := by
  have hp := p.isLt
  unfold turns
  rw [if_neg (by omega)]
  omega

lemma turns_start (p : Fin n) : turns p 0 = p := by
  unfold turns
  rw [if_pos (Nat.zero_le _), Nat.sub_zero]

lemma turns_le (p : Fin n) (q : Nat) : turns p q ≤ n := by
  have hp := p.isLt
  unfold turns
  split <;> omega

lemma phase_le (pc : Pc n) : pc.phase ≤ 17 := by cases pc <;> simp [Pc.phase]

lemma Cpu.wait_le (p : Fin n) (c : Cpu n) : c.wait p ≤ 11 * n + 17 := by
  have ht := turns_le p c.slot
  have hf := phase_le c.pc
  have hp := p.isLt
  unfold Cpu.wait
  split <;> omega

section OneCpu

variable {t t' : Ptable n} {c c' : Cpu n} {op : LockOp} {p : Fin n}

/-- The loop variable does not pass the end of the table. -/
def ScanOk (c : Cpu n) : Prop := ∀ q, c.pc = .scan q → q ≤ n

lemma wait_scan {q : Nat} (h : c.pc = .scan q) : c.wait p = 11 * turns p q + 10 := by
  simp [Cpu.wait, Cpu.slot, Pc.phase, Pc.locked, h]

lemma wait_select {q : Fin n} (h : c.pc = .select q) : c.wait p = 11 * turns p q + 9 := by
  simp [Cpu.wait, Cpu.slot, Pc.phase, Pc.locked, h]

lemma wait_mark {q : Fin n} (h : c.pc = .mark q) : c.wait p = 11 * turns p q + 8 := by
  simp [Cpu.wait, Cpu.slot, Pc.phase, Pc.locked, h]

lemma wait_swtch {q : Fin n} (h : c.pc = .swtch q) : c.wait p = 11 * turns p q + 7 := by
  simp [Cpu.wait, Cpu.slot, Pc.phase, Pc.locked, h]

lemma wait_back {q : Fin n} (h : c.pc = .back q) : c.wait p = 11 * turns p (q + 1) + 11 := by
  simp [Cpu.wait, Cpu.slot, Pc.phase, Pc.locked, h]

lemma wait_unlocked (h : c.pc.locked = false) : c.wait p = 11 * p + 11 := by simp [Cpu.wait, h]

/-- While a process runs, the scheduler will go on behind its slot. -/
lemma wait_process {q : Fin n} (hl : c.pc.locked = true) (hs : c.scheduler = some q)
    (hpc : 12 ≤ c.pc.phase) : c.wait p = 11 * turns p (q + 1) + c.pc.phase := by
  have hslot : c.slot = q + 1 := by
    unfold Cpu.slot
    cases h : c.pc <;> simp_all [Pc.phase]
  rw [Cpu.wait, if_pos hl, hslot]

/-- What one statement of a CPU does. The statements of a running process and of the kernel under it,
up to the switch back, are one case. -/
inductive CpuMove (t : Ptable n) (c : Cpu n) : LockOp → Ptable n → Cpu n → Prop
  | start (hpc : c.pc = .entry) : CpuMove t c .keep t { c with proc := none, pc := .idle }
  | acquire (hpc : c.pc = .idle) : CpuMove t c .acquire t { c with pc := .scan 0 }
  | skip {q : Nat} (hpc : c.pc = .scan q) (hq : q < n) (hstate : (t ⟨q, hq⟩).state ≠ .runnable) :
      CpuMove t c .keep t { c with pc := .scan (q + 1) }
  | found {q : Nat} (hpc : c.pc = .scan q) (hq : q < n) : CpuMove t c .keep t { c with pc := .select ⟨q, hq⟩ }
  | release {q : Nat} (hpc : c.pc = .scan q) (hq : n ≤ q) : CpuMove t c .release t { c with pc := .idle }
  | select {q : Fin n} (hpc : c.pc = .select q) : CpuMove t c .keep t { c with proc := some q, pc := .mark q }
  | mark {q : Fin n} (hpc : c.pc = .mark q) : CpuMove t c .keep (setState t q .running) { c with pc := .swtch q }
  | swtch {q : Fin n} {pc : Pc n} (hpc : c.pc = .swtch q) (hstate : (t q).state = .running)
      (hlocked : pc.locked = true) (hphase : pc.phase = 17) :
      CpuMove t c .keep t { c with scheduler := some q, pc := pc }
  | process {pc pc' : Pc n} {q : Fin n} {t' : Ptable n} {c' : Cpu n} (hpc : c.pc = pc) (hpc' : c'.pc = pc')
      (hs : c.scheduler = some q) (hs' : c'.scheduler = some q) (hlocked : pc.locked = true ∧ pc'.locked = true)
      (hadv : pc.advances = true) (hlow : 12 ≤ pc'.phase) (hphase : pc'.phase + 1 = pc.phase)
      (ht : t' = t ∨ t' = setState t q .runnable) : CpuMove t c .keep t' c'
  | switchBack {q : Fin n} {p : Fin n} {cx : Context} (hs : c.scheduler = some q) (hlocked : c.pc.locked = true)
      (hphase : c.pc.phase = 12) : CpuMove t c .keep (setContext t p cx) { c with pc := .back q }
  | back {q : Fin n} (hpc : c.pc = .back q) : CpuMove t c .keep t { c with proc := none, pc := .scan (q + 1) }
  | user (hpc : c.pc = .user) : CpuMove t c .keep t c
  | resumeIdle (hpc : c.pc = .timer .idle) : CpuMove t c .keep t { c with pc := .idle }

/-- Every place from which a CPU within the invariant can go on, and that it can. -/
lemma cpuRun_move (h : CpuOk t c) : ∃ op t' c', cpuRun t c = .ok (op, t', c') ∧ CpuMove t c op t' c' := by
  cases hpc : c.pc with
  | entry => exact ⟨_, _, _, by simp only [cpuRun, hpc], .start hpc⟩
  | idle => exact ⟨_, _, _, by simp only [cpuRun, hpc], .acquire hpc⟩
  | scan q =>
    by_cases hq : q < n
    · by_cases hstate : (t ⟨q, hq⟩).state = .runnable
      · exact ⟨_, _, _, by simp only [cpuRun, hpc, dif_pos hq, ne_eq, hstate, not_true, if_false], .found hpc hq⟩
      · exact ⟨_, _, _, by simp only [cpuRun, hpc, dif_pos hq, ne_eq, hstate, not_false_eq_true, if_true],
          .skip hpc hq hstate⟩
    · exact ⟨_, _, _, by simp only [cpuRun, hpc, dif_neg hq], .release hpc (Nat.le_of_not_lt hq)⟩
  | select q => exact ⟨_, _, _, by simp only [cpuRun, hpc], .select hpc⟩
  | mark q => exact ⟨_, _, _, by simp only [cpuRun, hpc], .mark hpc⟩
  | swtch q =>
    simp only [CpuOk, hpc] at h
    have hrun : cpuRun t c = .ok (.keep, t, { c with scheduler := some q, pc := resume (t q).context }) := by
      simp only [cpuRun, hpc]
    refine ⟨_, _, _, hrun, .swtch hpc h.2 ?_ ?_⟩
    · cases (t q).context <;> rfl
    · cases (t q).context <;> rfl
  | back q => exact ⟨_, _, _, by simp only [cpuRun, hpc], .back hpc⟩
  | procstart =>
    simp only [CpuOk, hpc] at h
    obtain ⟨q, -, hs, -⟩ := h
    have hrun : cpuRun t c = .ok (.keep, t, { c with pc := .user }) := by simp only [cpuRun, hpc]
    exact ⟨_, _, _, hrun, .process hpc rfl hs hs ⟨rfl, rfl⟩ rfl (by simp [Pc.phase]) rfl (Or.inl rfl)⟩
  | user => exact ⟨_, _, _, by simp only [cpuRun, hpc], .user hpc⟩
  | timer f =>
    cases f with
    | idle =>
      simp only [CpuOk, hpc] at h
      have hrun : cpuRun t c = .ok (.keep, t, { c with pc := .idle }) := by simp only [cpuRun, hpc, h, iret]
      exact ⟨_, _, _, hrun, .resumeIdle hpc⟩
    | process =>
      simp only [CpuOk, hpc] at h
      obtain ⟨q, hproc, hs, hstate⟩ := h
      have hrun : cpuRun t c = .ok (.keep, t, { c with pc := .yield .process }) := by
        simp only [cpuRun, hpc, hproc, if_pos hstate]
      exact ⟨_, _, _, hrun, .process hpc rfl hs hs ⟨rfl, rfl⟩ rfl (by simp [Pc.phase]) rfl (Or.inl rfl)⟩
  | yield f =>
    cases f with
    | idle => simp [CpuOk, hpc] at h
    | process =>
      simp only [CpuOk, hpc] at h
      obtain ⟨q, hproc, hs, -⟩ := h
      have hrun : cpuRun t c = .ok (.keep, setState t q .runnable, { c with pc := .sched .process }) := by
        simp only [cpuRun, hpc, hproc]
      exact ⟨_, _, _, hrun, .process hpc rfl hs hs ⟨rfl, rfl⟩ rfl (by simp [Pc.phase]) rfl (Or.inr rfl)⟩
  | sched f =>
    cases f with
    | idle => simp [CpuOk, hpc] at h
    | process =>
      simp only [CpuOk, hpc] at h
      obtain ⟨q, hproc, hs, -⟩ := h
      have hrun : cpuRun t c = .ok (.keep, t, { c with pc := .contextSwitch .process q c.savedIF }) := by
        simp only [cpuRun, hpc, hproc]
      exact ⟨_, _, _, hrun, .process hpc rfl hs hs ⟨rfl, rfl⟩ rfl (by simp [Pc.phase]) rfl (Or.inl rfl)⟩
  | contextSwitch f q intena =>
    cases f with
    | idle => simp [CpuOk, hpc] at h
    | process =>
      simp only [CpuOk, hpc] at h
      obtain ⟨-, hs, -⟩ := h
      have hrun : cpuRun t c =
          .ok (.keep, setContext t q (.sched .process intena), { c with pc := .back q }) := by
        simp only [cpuRun, hpc, hs]
      exact ⟨_, _, _, hrun, .switchBack hs (by simp [hpc, Pc.locked]) (by simp [hpc, Pc.phase])⟩
  | resumed f intena =>
    cases f with
    | idle => simp [CpuOk, hpc] at h
    | process =>
      simp only [CpuOk, hpc] at h
      obtain ⟨q, -, hs, -⟩ := h
      have hrun : cpuRun t c = .ok (.keep, t, { c with savedIF := intena, pc := .user }) := by
        simp only [cpuRun, hpc, iret]
      exact ⟨_, _, _, hrun, .process hpc rfl hs hs ⟨rfl, rfl⟩ rfl (by simp [Pc.phase]) rfl (Or.inl rfl)⟩

lemma cpuMove_of_run (h : CpuOk t c) (hrun : cpuRun t c = .ok (op, t', c')) : CpuMove t c op t' c' := by
  obtain ⟨op₁, t₁, c₁, hrun₁, hmove⟩ := cpuRun_move h
  rw [hrun] at hrun₁
  cases hrun₁
  exact hmove

lemma CpuMove.scanOk (hmove : CpuMove t c op t' c') (hscan : ScanOk c) : ScanOk c' := by
  intro q hq
  cases hmove with
  | user hpc => exact hscan q hq
  | acquire hpc =>
    cases hq
    exact Nat.zero_le n
  | skip hpc hr hstate =>
    cases hq
    exact hr
  | back hpc =>
    cases hq
    exact Fin.isLt _
  | swtch hpc hstate hlocked hphase =>
    obtain rfl := hq
    cases hphase
  | process hpc hpc' hs hs' hlocked hadv hlow hphase ht =>
    rw [← hpc', hq] at hlow
    exact absurd hlow (by simp [Pc.phase])
  | _ => cases hq

/-- The kernel makes a runnable process run, and does nothing else to it. -/
lemma CpuMove.runnable (hmove : CpuMove t c op t' c') (hp : (t p).state = .runnable) :
    (t' p).state = .runnable ∨ (t' p).state = .running := by
  cases hmove with
  | mark hpc =>
    rw [setState_state]
    split
    · exact Or.inr rfl
    · exact Or.inl hp
  | process hpc hpc' hs hs' hlocked hadv hlow hphase ht =>
    rcases ht with rfl | rfl
    · exact Or.inl hp
    · rw [setState_state]
      split
      · exact Or.inl rfl
      · exact Or.inl hp
  | switchBack hs hlocked hphase =>
    rw [setContext_state]
    exact Or.inl hp
  | _ => exact Or.inl hp

/-- A CPU outside the lock that is not at `acquire` comes to it. -/
lemma CpuMove.of_unlocked (hmove : CpuMove t c op t' c') (hl : c.pc.locked = false) (hidle : c.pc ≠ .idle) :
    op = .keep ∧ c'.pc = .idle := by
  cases hmove with
  | start hpc => exact ⟨rfl, rfl⟩
  | resumeIdle hpc => exact ⟨rfl, rfl⟩
  | acquire hpc => exact absurd hpc hidle
  | process hpc hpc' hs hs' hlocked hadv hlow hphase ht =>
    rw [hpc, hlocked.1] at hl
    cases hl
  | switchBack hs hlocked hphase =>
    rw [hlocked] at hl
    cases hl
  | _ hpc =>
    rw [hpc] at hl
    cases hl

/-- One statement of a CPU, while `p` waits: it comes nearer to the slot of `p`. -/
lemma CpuMove.wait_le (hmove : CpuMove t c op t' c') (hscan : ScanOk c) (hp : (t p).state = .runnable) :
    c'.wait p + c.pc.advances.toNat ≤ c.wait p := by
  cases hmove with
  | start hpc =>
    rw [wait_unlocked (c := c) (by simp [hpc, Pc.locked]), wait_unlocked rfl, hpc]
    exact Nat.le_refl _
  | acquire hpc =>
    rw [wait_unlocked (c := c) (by simp [hpc, Pc.locked]), wait_scan rfl, turns_start, hpc]
    exact Nat.le_refl _
  | @skip q hpc hq hstate =>
    have hne : q ≠ p := by
      rintro rfl
      exact hstate hp
    have hturns := turns_succ hq hne
    rw [wait_scan hpc, wait_scan rfl, hpc]
    simp only [Pc.advances, Bool.toNat_true]
    omega
  | found hpc hq =>
    rw [wait_scan hpc, wait_select rfl, hpc]
    exact Nat.le_refl _
  | @release q hpc hq =>
    obtain rfl : q = n := Nat.le_antisymm (hscan q hpc) hq
    rw [wait_unlocked rfl, wait_scan hpc, turns_end, hpc]
    simp only [Pc.advances, Bool.toNat_true]
    omega
  | select hpc =>
    rw [wait_select hpc, wait_mark rfl, hpc]
    exact Nat.le_refl _
  | mark hpc =>
    rw [wait_mark hpc, wait_swtch rfl, hpc]
    exact Nat.le_refl _
  | @swtch q pc hpc hstate hlocked hphase =>
    -- the process that is dispatched is running, so it is another one
    have hne : (q : Nat) ≠ p := by
      intro heq
      obtain rfl := Fin.ext heq
      rw [hstate] at hp
      cases hp
    have hturns := turns_succ q.isLt hne
    rw [wait_swtch hpc, wait_process (q := q) hlocked rfl (by simp only [hphase]; omega), hpc]
    simp only [hphase, Pc.advances, Bool.toNat_true]
    omega
  | process hpc hpc' hs hs' hlocked hadv hlow hphase ht =>
    subst hpc hpc'
    rw [wait_process hlocked.1 hs (by omega), wait_process hlocked.2 hs' hlow, hadv, Bool.toNat_true]
    omega
  | switchBack hs hlocked hphase =>
    rw [wait_back rfl, wait_process hlocked hs hphase.ge, hphase]
    have := Bool.toNat_le c.pc.advances
    omega
  | back hpc =>
    rw [wait_back hpc, wait_scan rfl, hpc]
    exact Nat.le_refl _
  | user hpc =>
    rw [hpc]
    exact Nat.le_refl _
  | resumeIdle hpc =>
    rw [wait_unlocked (c := c) (by simp [hpc, Pc.locked]), wait_unlocked rfl, hpc]
    exact Nat.le_refl _

lemma cpuTimer_spec (hrun : cpuTimer t c = .ok (op, t', c')) : t' = t ∧ ∃ f, c'.pc = .timer f := by
  unfold cpuTimer at hrun
  split at hrun
  · cases hrun
    exact ⟨rfl, .idle, rfl⟩
  · cases hrun
    exact ⟨rfl, .process, rfl⟩
  · cases hrun

lemma cpuTimer_wait (h : CpuOk t c) (hrun : cpuTimer t c = .ok (op, t', c')) :
    c'.wait p + (if c.pc = .user then 1 else 0) ≤ c.wait p := by
  unfold cpuTimer at hrun
  cases hpc : c.pc with
  | idle =>
    simp only [hpc, Except.ok.injEq, Prod.mk.injEq] at hrun
    obtain ⟨rfl, rfl, rfl⟩ := hrun
    rw [wait_unlocked (c := c) (by simp [hpc, Pc.locked]), wait_unlocked rfl]
    exact Nat.le_refl _
  | user =>
    simp only [hpc, Except.ok.injEq, Prod.mk.injEq] at hrun
    obtain ⟨rfl, rfl, rfl⟩ := hrun
    simp only [CpuOk, hpc] at h
    obtain ⟨q, -, hs, -⟩ := h
    have hbefore : c.wait p = 11 * turns p (q + 1) + c.pc.phase :=
      wait_process (by simp [hpc, Pc.locked]) hs (by simp [hpc, Pc.phase])
    have hafter : ({ c with pc := .timer .process } : Cpu n).wait p = 11 * turns p (q + 1) + 15 :=
      wait_process rfl hs (by simp [Pc.phase])
    rw [hbefore, hpc, hafter]
    exact Nat.le_refl _
  | _ => simp [hpc] at hrun

end OneCpu

end JavaScriptOS.Process
