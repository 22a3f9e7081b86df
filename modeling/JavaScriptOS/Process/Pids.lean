import JavaScriptOS.Process.KernelStack

/-!
# Process ids

`nextpid` counts the slots that `create_proc` has ever taken, modulo `2 ^ 32`. The id of a live slot says how
many had been taken with it, until the counter comes to the limits of its type. A run remembers how many
calls it has made.
-/

namespace JavaScriptOS.Process
open JavaScriptOS.Lib

structure ProcRun where
  kernel : Kernel
  calls : Nat

/-- A call of `create_proc` that gets the page from `pmm_alloc`, or a slot that goes back to `UNUSED`. -/
inductive ProcCall where
  | create (page : BitVec 64)
  | free (proc : Fin maxProc)

section Runs

variable (trapret procstart : BitVec 64) (limit : Nat)

def ProcRun.step (r : ProcRun) : ProcCall → Except TableFault ProcRun
  | .create page => do
    let (_, s) ← createProc page trapret procstart r.kernel
    pure ⟨s, r.calls + 1⟩
  | .free proc => pure ⟨r.kernel.setState proc .unused, r.calls⟩

/-- Program start. -/
structure ProcRun.Start (r : ProcRun) : Prop where
  unused : ∀ p, (r.kernel.procs p).state = .unused
  nextpid : r.kernel.nextpid = 1
  calls : r.calls = 0

def Below (r : ProcRun) : ProcCall → Prop
  | .create _ => r.calls < limit
  | .free _ => True

/-- The states of the runs with at most `limit` calls of `create_proc`. -/
def ProcReach : ProcRun → Prop := Reach ProcRun.Start (ProcRun.step trapret procstart) (Below limit)

end Runs

def Live (s : Kernel) (p : Fin maxProc) : Prop := (s.procs p).state ≠ .unused

def PidsDistinct (s : Kernel) : Prop := ∀ p q, Live s p → Live s q → (s.procs p).pid = (s.procs q).pid → p = q

/-- `pid_t` is signed. -/
def PidsPositive (s : Kernel) : Prop := ∀ p, Live s p → 0 < (s.procs p).pid.toInt

/-- `count` slots have been taken so far, and the live ones carry different numbers up to that. -/
structure Issued (r : ProcRun) (count : Nat) (serial : Fin maxProc → Nat) : Prop where
  next : r.kernel.nextpid = BitVec.ofNat 32 (count + 1)
  bounded : count ≤ r.calls
  range : ∀ p, Live r.kernel p → 1 ≤ serial p ∧ serial p ≤ count
  pid : ∀ p, Live r.kernel p → (r.kernel.procs p).pid = BitVec.ofNat 32 (serial p)
  distinct : ∀ p q, Live r.kernel p → Live r.kernel q → serial p = serial q → p = q

variable {r r' : ProcRun} {s s' : Kernel} {p q : Fin maxProc} {trapret procstart page : BitVec 64} {limit count : Nat}
variable {serial : Fin maxProc → Nat}

/-- What a call of `create_proc` does to ids: it uses one up, and the slot with that id is live if there was
a page for it. -/
structure TakesId (page : BitVec 64) (r : ProcRun) (p : Fin maxProc) (r' : ProcRun) : Prop where
  unused : (r.kernel.procs p).state = .unused
  next : r'.kernel.nextpid = r.kernel.nextpid + 1
  calls : r'.calls = r.calls + 1
  others : ∀ q, q ≠ p → r'.kernel.procs q = r.kernel.procs q
  live_iff : Live r'.kernel p ↔ page ≠ 0
  pid : (r'.kernel.procs p).pid = r.kernel.nextpid

lemma create_takesId (trapret procstart : BitVec 64) (h : FirstUnused r.kernel p) (page : BitVec 64) :
    ∃ r', r.step trapret procstart (.create page) = .ok r' ∧ TakesId page r p r' := by
  have hrun := createProc_first page trapret procstart h
  by_cases hpage : page = 0
  · rw [if_pos hpage] at hrun
    have hslot : ((occupied page r.kernel p).setState p .unused).procs p =
        { r.kernel.procs p with state := .unused, pid := r.kernel.nextpid, kstack := page } := by
      rw [Kernel.setState, Kernel.procs_setProc_self, occupied_procs_self]
    refine ⟨⟨(occupied page r.kernel p).setState p .unused, r.calls + 1⟩, ?_, h.1, rfl, rfl, ?_, ?_, ?_⟩
    · rw [ProcRun.step, hrun]
      rfl
    · intro q hq
      rw [Kernel.setState, Kernel.procs_setProc_of_ne hq, occupied_procs_of_ne hq]
    · rw [Live, hslot]
      simp [hpage]
    · rw [hslot]
  · rw [if_neg hpage] at hrun
    refine ⟨⟨setupStack trapret procstart (occupied page r.kernel p) p, r.calls + 1⟩, ?_, h.1, rfl, rfl, ?_, ?_, ?_⟩
    · rw [ProcRun.step, hrun]
      rfl
    · intro q hq
      rw [setupStack_procs_of_ne hq, occupied_procs_of_ne hq]
    · rw [Live, setupStack_procs_self, occupied_procs_self]
      exact iff_of_true (by simp) hpage
    · rw [setupStack_procs_self, occupied_procs_self]

/-- A call that does not fault has found an unused slot. -/
lemma takesId_of_step (h : r.step trapret procstart (.create page) = .ok r') : ∃ p, TakesId page r p r' := by
  rcases full_or_firstUnused r.kernel with hfull | ⟨q, hq⟩
  · rw [ProcRun.step, createProc_full hfull] at h
    cases h
  · obtain ⟨r₁, hrun, htakes⟩ := create_takesId trapret procstart hq page
    rw [hrun] at h
    cases h
    exact ⟨q, htakes⟩

lemma Issued.start (h : r.Start) : Issued r 0 fun _ => 0 where
  next := h.nextpid
  bounded := Nat.zero_le _
  range := fun p hp => absurd (h.unused p) hp
  pid := fun p hp => absurd (h.unused p) hp
  distinct := fun p _ hp => absurd (h.unused p) hp

lemma Issued.free (h : Issued r count serial) (hrun : r.step trapret procstart (.free p) = .ok r') :
    Issued r' count serial := by
  cases hrun
  have hkept : ∀ q, Live (r.kernel.setState p .unused) q → q ≠ p ∧ Live r.kernel q := by
    intro q hq
    have hne : q ≠ p := by
      rintro rfl
      rw [Live, Kernel.setState, Kernel.procs_setProc_self] at hq
      exact hq rfl
    rw [Live, Kernel.setState, Kernel.procs_setProc_of_ne hne] at hq
    exact ⟨hne, hq⟩
  refine ⟨h.next, h.bounded, fun q hq => h.range q (hkept q hq).2, fun q hq => ?_, fun q q' hq hq' => ?_⟩
  · rw [Kernel.setState, Kernel.procs_setProc_of_ne (hkept q hq).1]
    exact h.pid q (hkept q hq).2
  · exact h.distinct q q' (hkept q hq).2 (hkept q' hq').2

/-- The slot taken gets the next number, which no live slot has. -/
lemma Issued.create (h : Issued r count serial) (htakes : TakesId page r p r') :
    Issued r' (count + 1) (Function.update serial p (count + 1)) := by
  have hold : ∀ q, q ≠ p → Live r'.kernel q → Live r.kernel q := by
    intro q hq hlive
    rwa [Live, htakes.others q hq] at hlive
  have hserial : ∀ q, q ≠ p → Function.update serial p (count + 1) q = serial q := fun q hq =>
    Function.update_of_ne hq _ _
  have hself : Function.update serial p (count + 1) p = count + 1 := Function.update_self p _ _
  refine ⟨?_, ?_, ?_, ?_, ?_⟩
  · rw [htakes.next, h.next, BitVec.ofNat_add (count + 1) 1]
    rfl
  · rw [htakes.calls]
    exact Nat.succ_le_succ h.bounded
  · intro q hlive
    by_cases hq : q = p
    · rw [hq, hself]
      omega
    · rw [hserial q hq]
      have hrange := h.range q (hold q hq hlive)
      omega
  · intro q hlive
    by_cases hq : q = p
    · rw [hq, hself, htakes.pid, h.next]
    · rw [hserial q hq, htakes.others q hq]
      exact h.pid q (hold q hq hlive)
  · have hfresh : ∀ q, q ≠ p → Live r'.kernel q → serial q ≠ count + 1 := by
      intro q hq hlive
      have hrange := h.range q (hold q hq hlive)
      omega
    intro q q' hlive hlive' heq
    by_cases hq : q = p
    · by_cases hq' : q' = p
      · rw [hq, hq']
      · rw [hq, hself, hserial q' hq'] at heq
        exact absurd heq.symm (hfresh q' hq' hlive')
    · by_cases hq' : q' = p
      · rw [hq', hself, hserial q hq] at heq
        exact absurd heq (hfresh q hq hlive)
      · rw [hserial q hq, hserial q' hq'] at heq
        exact h.distinct q q' (hold q hq hlive) (hold q' hq' hlive') heq

lemma issued_of_reach (hr : ProcReach trapret procstart limit r) :
    r.calls ≤ limit ∧ ∃ count serial, Issued r count serial := by
  refine hr.preserved (P := fun r => r.calls ≤ limit ∧ ∃ count serial, Issued r count serial) ?_ ?_
  · intro r hstart
    exact ⟨by rw [hstart.calls]; exact Nat.zero_le _, _, _, .start hstart⟩
  · rintro r call r' ⟨hcalls, count, serial, h⟩ hok hrun
    cases call with
    | create page =>
      obtain ⟨p, htakes⟩ := takesId_of_step hrun
      exact ⟨by rw [htakes.calls]; exact hok, _, _, h.create htakes⟩
    | free p =>
      refine ⟨?_, count, serial, h.free hrun⟩
      cases hrun
      exact hcalls

lemma Issued.pidsDistinct (h : Issued r count serial) (hcount : count ≤ 2 ^ 32) : PidsDistinct r.kernel := by
  intro p q hp hq heq
  rw [h.pid p hp, h.pid q hq, ← BitVec.toNat_inj, BitVec.toNat_ofNat, BitVec.toNat_ofNat] at heq
  have hrange := h.range p hp
  have hrange' := h.range q hq
  exact h.distinct p q hp hq (by omega)

lemma Issued.pidsPositive (h : Issued r count serial) (hcount : count < 2 ^ 31) : PidsPositive r.kernel := by
  intro p hp
  have hrange := h.range p hp
  rw [h.pid p hp, BitVec.toInt_ofNat', Int.bmod_eq_of_le (by omega) (by omega)]
  omega

/-! ## Runs that come to the limits of the counter -/

/-- While `pmm_alloc` fails, the calls use up ids and leave every slot unused or as it is. -/
lemma exists_failed_calls (hr : ProcReach trapret procstart limit r) (hfirst : FirstUnused r.kernel p) (k : Nat)
    (hk : r.calls + k ≤ limit) :
    ∃ r', ProcReach trapret procstart limit r' ∧ r'.calls = r.calls + k ∧ FirstUnused r'.kernel p ∧
      r'.kernel.nextpid = r.kernel.nextpid + BitVec.ofNat 32 k ∧ ∀ q, q ≠ p → r'.kernel.procs q = r.kernel.procs q := by
  induction k with
  | zero => exact ⟨r, hr, rfl, hfirst, (BitVec.add_zero _).symm, fun q _ => rfl⟩
  | succ k ih =>
    obtain ⟨r₁, hr₁, hcalls, hfirst₁, hnext, hothers⟩ := ih (by omega)
    obtain ⟨r₂, hrun, htakes⟩ := create_takesId trapret procstart hfirst₁ 0
    have hok : Below limit r₁ (.create 0) := by
      change r₁.calls < limit
      omega
    have hunused : (r₂.kernel.procs p).state = .unused := by
      by_contra hlive
      exact htakes.live_iff.mp hlive rfl
    refine ⟨r₂, .step _ hr₁ hok hrun, by rw [htakes.calls, hcalls, Nat.add_assoc], ⟨hunused, fun q hq => ?_⟩, ?_, ?_⟩
    · rw [htakes.others q hq.ne]
      exact hfirst₁.2 q hq
    · rw [htakes.next, hnext, BitVec.add_assoc, BitVec.ofNat_add k 1]
      rfl
    · intro q hq
      rw [htakes.others q hq, hothers q hq]

/-- After `k` failures a call succeeds. -/
lemma exists_late_call (hr : ProcReach trapret procstart limit r) (hfirst : FirstUnused r.kernel p) (k : Nat)
    (hk : r.calls + k < limit) :
    ∃ r', ProcReach trapret procstart limit r' ∧ r'.calls = r.calls + k + 1 ∧ Live r'.kernel p ∧
      (r'.kernel.procs p).pid = r.kernel.nextpid + BitVec.ofNat 32 k ∧
      r'.kernel.nextpid = r.kernel.nextpid + BitVec.ofNat 32 k + 1 ∧
      ∀ q, q ≠ p → r'.kernel.procs q = r.kernel.procs q := by
  obtain ⟨r₁, hr₁, hcalls, hfirst₁, hnext, hothers⟩ := exists_failed_calls hr hfirst k (by omega)
  obtain ⟨r₂, hrun, htakes⟩ := create_takesId trapret procstart hfirst₁ 0x1000
  have hok : Below limit r₁ (.create 0x1000) := by
    change r₁.calls < limit
    omega
  refine ⟨r₂, .step _ hr₁ hok hrun, by rw [htakes.calls, hcalls], htakes.live_iff.mpr (by decide), ?_, ?_, ?_⟩
  · rw [htakes.pid, hnext]
  · rw [htakes.next, hnext]
  · intro q hq
    rw [htakes.others q hq, hothers q hq]

def startRun : ProcRun := ⟨emptyTable, 0⟩

lemma reach_startRun : ProcReach trapret procstart limit startRun := .init ⟨fun _ => rfl, rfl, rfl⟩

lemma firstUnused_startRun : FirstUnused startRun.kernel 0 := ⟨rfl, fun q hq => absurd hq (Fin.not_lt_zero q)⟩

/-- The call after `2 ^ 31 - 1` others gives a negative id. -/
lemma exists_negative (trapret procstart : BitVec 64) (h : 2 ^ 31 ≤ limit) :
    ∃ r, ProcReach trapret procstart limit r ∧ ¬PidsPositive r.kernel := by
  obtain ⟨r, hr, -, hlive, hpid, -⟩ := exists_late_call reach_startRun firstUnused_startRun (2 ^ 31 - 1)
    (show 0 + (2 ^ 31 - 1) < limit by omega)
  refine ⟨r, hr, fun hpos => ?_⟩
  have hzero := hpos 0 hlive
  rw [hpid] at hzero
  exact absurd hzero (by decide)

/-- A process that stays alive meets its own id again after `2 ^ 32` calls. -/
lemma exists_duplicate (trapret procstart : BitVec 64) (h : 2 ^ 32 < limit) :
    ∃ r, ProcReach trapret procstart limit r ∧ ¬PidsDistinct r.kernel := by
  obtain ⟨r, hr, hcalls, hlive, hpid, hnext, hothers⟩ := exists_late_call reach_startRun firstUnused_startRun 0
    (show 0 + 0 < limit by omega)
  have hfirst : FirstUnused r.kernel 1 := by
    constructor
    · rw [hothers 1 (by decide)]
      rfl
    · intro q hq
      obtain rfl : q = 0 := by
        ext
        exact Nat.lt_one_iff.mp hq
      exact hlive
  have hone : r.calls = 1 := hcalls
  obtain ⟨r', hr', -, hlive', hpid', -, hothers'⟩ := exists_late_call hr hfirst (2 ^ 32 - 1) (by omega)
  refine ⟨r', hr', fun hdistinct => ?_⟩
  have hsame : (r'.kernel.procs 0).pid = (r'.kernel.procs 1).pid := by
    rw [hothers' 0 (by decide), hpid, hpid', hnext]
    decide
  have hkept : Live r'.kernel 0 := by
    rw [Live, hothers' 0 (by decide)]
    exact hlive
  exact absurd (hdistinct 0 1 hkept hlive' hsame) (by decide)

/-- How many calls a run may make before ids are no longer positive, or no longer distinct. -/
theorem pids_ok_iff (trapret procstart : BitVec 64) (limit : Nat) :
    ((∀ r, ProcReach trapret procstart limit r → PidsDistinct r.kernel ∧ PidsPositive r.kernel) ↔ limit < 2 ^ 31) ∧
    ((∀ r, ProcReach trapret procstart limit r → PidsDistinct r.kernel) ↔ limit ≤ 2 ^ 32) := by
  refine ⟨⟨fun h => ?_, fun hlimit r hr => ?_⟩, ⟨fun h => ?_, fun hlimit r hr => ?_⟩⟩
  · by_contra hlimit
    obtain ⟨r, hr, hnot⟩ := exists_negative trapret procstart (Nat.le_of_not_lt hlimit)
    exact hnot (h r hr).2
  · obtain ⟨hcalls, count, serial, hissued⟩ := issued_of_reach hr
    have hbounded := hissued.bounded
    exact ⟨hissued.pidsDistinct (by omega), hissued.pidsPositive (by omega)⟩
  · by_contra hlimit
    obtain ⟨r, hr, hnot⟩ := exists_duplicate trapret procstart (Nat.lt_of_not_le hlimit)
    exact hnot (h r hr)
  · obtain ⟨hcalls, count, serial, hissued⟩ := issued_of_reach hr
    have hbounded := hissued.bounded
    exact hissued.pidsDistinct (by omega)

/-- In runs of any length both fail. -/
theorem pids_wrap : (¬∀ trapret procstart limit r, ProcReach trapret procstart limit r → PidsPositive r.kernel) ∧
    ¬∀ trapret procstart limit r, ProcReach trapret procstart limit r → PidsDistinct r.kernel := by
  constructor
  · intro h
    obtain ⟨r, hr, hnot⟩ := exists_negative 0 0 (le_refl (2 ^ 31))
    exact hnot (h _ _ _ r hr)
  · intro h
    obtain ⟨r, hr, hnot⟩ := exists_duplicate 0 0 (Nat.lt_succ_self (2 ^ 32))
    exact hnot (h _ _ _ r hr)

end JavaScriptOS.Process
