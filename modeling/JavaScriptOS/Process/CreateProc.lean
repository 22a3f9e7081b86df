import JavaScriptOS.Lib.Reach
import JavaScriptOS.Process.Scheduler
import JavaScriptOS.Trap.Alltraps
import Mathlib.Order.WellFounded

/-!
# Slots of the process table

`create_proc` over `ptable.procs`, `nextpid` and the memory that its stack page is in. The page comes from
`pmm_alloc`, is null or lies apart from the table, and is a parameter of each call. An access behind the last
slot is a fault. Fields of `proc_t` that `create_proc` leaves alone are not modelled.
-/

namespace JavaScriptOS.Process
open JavaScriptOS.Lib

/-- `MAX_PROC`. -/
abbrev maxProc : Nat := 64

instance neZeroProcs : NeZero maxProc := ⟨by decide⟩

/-- `KSTACKSIZE`. -/
def kstackSize : BitVec 64 := 4096

def sizeofTrapframe : BitVec 64 := BitVec.ofNat 64 Trap.sizeofTrapframe

/-- The members of `context` in front of `rip`. -/
def contextRegs : List Trap.Reg := [.rdi, .rsi, .rbx, .rbp]

def sizeofContext : BitVec 64 := BitVec.ofNat 64 (8 * (contextRegs.length + 1))

/-- `proc_t`, with its pointers as addresses. -/
structure ProcT where
  kstack : BitVec 64
  state : ProcState
  pid : BitVec 32
  tf : BitVec 64
  context : BitVec 64
  deriving DecidableEq

structure Kernel where
  procs : Fin maxProc → ProcT
  nextpid : BitVec 32
  mem : Memory

inductive TableFault where
  | outOfBounds (index : Nat)
  deriving DecidableEq

namespace Kernel

def setProc (s : Kernel) (proc : Fin maxProc) (v : ProcT) : Kernel :=
  { s with procs := Function.update s.procs proc v }

def setState (s : Kernel) (proc : Fin maxProc) (state : ProcState) : Kernel :=
  s.setProc proc { s.procs proc with state := state }

def write (s : Kernel) (a : BitVec 64) (bytes : List (BitVec 8)) : Kernel :=
  { s with mem := writeBytes s.mem a bytes }

end Kernel

/-- The slot that a pointer into the table points to. -/
def slot (index : Nat) : Except TableFault (Fin maxProc) :=
  if h : index < maxProc then .ok ⟨index, h⟩ else .error (.outOfBounds index)

/-- The `for` loop, with `left` slots in front of `&ptable.procs[MAX_PROC]`. -/
def findUnused (s : Kernel) : (left index : Nat) → Except TableFault Nat
  | 0, index => pure index
  | left + 1, index => do
    let proc ← slot index
    if (s.procs proc).state = .unused then pure index else findUnused s left (index + 1)

/-- `proc->state = EMBRYO; proc->pid = nextpid++`. -/
def occupy (s : Kernel) (proc : Fin maxProc) : Kernel :=
  { s.setProc proc { s.procs proc with state := .embryo, pid := s.nextpid } with nextpid := s.nextpid + 1 }

/-- The pushes onto the new stack. The return address goes through a `u8*`, so that one byte is stored. -/
def setupStack (trapret procstart : BitVec 64) (s : Kernel) (proc : Fin maxProc) : Kernel :=
  let kstack := (s.procs proc).kstack + kstackSize
  let kstack := kstack - sizeofTrapframe
  let s := s.setProc proc { s.procs proc with tf := kstack }
  let kstack := kstack - 8
  let s := s.write kstack (bytesOf 1 trapret)
  let kstack := kstack - sizeofContext
  let s := s.setProc proc { s.procs proc with context := kstack }
  let s := s.write kstack (List.replicate sizeofContext.toNat 0)
  s.write (kstack + BitVec.ofNat 64 (8 * contextRegs.length)) (bytesOf 8 procstart)

def createProc (page trapret procstart : BitVec 64) (s : Kernel) :
    Except TableFault (Option (Fin maxProc) × Kernel) := do
  let proc ← findUnused s maxProc 0
  let proc ← slot proc
  if (s.procs proc).state ≠ .unused then pure (none, s)
  else
    let s := occupy s proc
    let s := s.setProc proc { s.procs proc with kstack := page }
    if page = 0 then pure (none, s.setState proc .unused)
    else pure (some proc, setupStack trapret procstart s proc)

def FirstUnused (s : Kernel) (proc : Fin maxProc) : Prop :=
  (s.procs proc).state = .unused ∧ ∀ q < proc, (s.procs q).state ≠ .unused

/-- The outcome of a call is null, with every state as before, or the first unused slot, now `EMBRYO`, with
every other slot as before. -/
structure SlotOutcome (page : BitVec 64) (s : Kernel) (ret : Option (Fin maxProc)) (s' : Kernel) : Prop where
  null_iff : ret = none ↔ (∀ p, (s.procs p).state ≠ .unused) ∨ page = 0
  null_keeps : ret = none → ∀ p, (s'.procs p).state = (s.procs p).state
  first : ∀ p, ret = some p → FirstUnused s p ∧ (s'.procs p).state = .embryo ∧ ∀ q, q ≠ p → s'.procs q = s.procs q

/-- The call stays inside the table and has such an outcome. -/
def KeepsSlots (page trapret procstart : BitVec 64) (s : Kernel) : Prop :=
  ∃ ret s', createProc page trapret procstart s = .ok (ret, s') ∧ SlotOutcome page s ret s'

variable {s s' : Kernel} {proc q : Fin maxProc} {page trapret procstart : BitVec 64} {left index : Nat}

lemma exists_firstUnused (h : (s.procs proc).state = .unused) : ∃ p, FirstUnused s p := by
  obtain ⟨p, hp, hleast⟩ := wellFounded_lt.has_min {p | (s.procs p).state = .unused} ⟨proc, h⟩
  exact ⟨p, hp, fun q hq hunused => hleast q hunused hq⟩

lemma full_or_firstUnused (s : Kernel) : (∀ p, (s.procs p).state ≠ .unused) ∨ ∃ p, FirstUnused s p := by
  by_cases h : ∃ p, (s.procs p).state = .unused
  · obtain ⟨p, hp⟩ := h
    exact Or.inr (exists_firstUnused hp)
  · exact Or.inl fun p hp => h ⟨p, hp⟩

lemma slot_val (proc : Fin maxProc) : slot proc.val = .ok proc := dif_pos proc.isLt

lemma findUnused_first (h : FirstUnused s proc) (hindex : index ≤ proc.val) (hleft : left + index = maxProc) :
    findUnused s left index = .ok proc.val := by
  have hlt := proc.isLt
  -- on the slots left; those in front of `proc` are in use
  induction left generalizing index with
  | zero => omega
  | succ left ih =>
    have hslot : slot index = .ok ⟨index, by omega⟩ := dif_pos (by omega)
    rw [findUnused, hslot]
    by_cases heq : index = proc.val
    · subst heq
      exact if_pos h.1
    · have hused : (s.procs ⟨index, by omega⟩).state ≠ .unused := h.2 _ (Nat.lt_of_le_of_ne hindex heq)
      exact (if_neg hused).trans (ih (by omega) (by omega))

lemma findUnused_full (h : ∀ p, (s.procs p).state ≠ .unused) (hleft : left + index = maxProc) :
    findUnused s left index = .ok maxProc := by
  induction left generalizing index with
  | zero =>
    rw [findUnused, ← hleft, Nat.zero_add]
    rfl
  | succ left ih =>
    have hslot : slot index = .ok ⟨index, by omega⟩ := dif_pos (by omega)
    rw [findUnused, hslot]
    exact (if_neg (h _)).trans (ih (by omega))

/-- The test behind the loop reads the slot behind the last. -/
lemma createProc_full (h : ∀ p, (s.procs p).state ≠ .unused) :
    createProc page trapret procstart s = .error (.outOfBounds maxProc) := by
  have hfind : findUnused s maxProc 0 = .ok maxProc := findUnused_full h rfl
  have hslot : slot maxProc = .error (.outOfBounds maxProc) := rfl
  simp only [createProc, hfind, hslot, bind, Except.bind]

/-- The slot taken, with its page. -/
def occupied (page : BitVec 64) (s : Kernel) (proc : Fin maxProc) : Kernel :=
  (occupy s proc).setProc proc { (occupy s proc).procs proc with kstack := page }

lemma createProc_first (page trapret procstart : BitVec 64) (h : FirstUnused s proc) :
    createProc page trapret procstart s =
      if page = 0 then .ok (none, (occupied page s proc).setState proc .unused)
      else .ok (some proc, setupStack trapret procstart (occupied page s proc) proc) := by
  have hfind : findUnused s maxProc 0 = .ok proc.val := findUnused_first h (Nat.zero_le _) rfl
  simp only [createProc, hfind, slot_val, bind, Except.bind]
  rw [if_neg (not_not.mpr h.1)]
  rfl

section Fields

/-! Of the table, a call changes its slot only. -/

lemma Kernel.procs_setProc_self (s : Kernel) (proc : Fin maxProc) (v : ProcT) : (s.setProc proc v).procs proc = v :=
  Function.update_self ..

lemma Kernel.procs_setProc_of_ne (h : q ≠ proc) (s : Kernel) (v : ProcT) : (s.setProc proc v).procs q = s.procs q :=
  Function.update_of_ne h ..

lemma occupied_procs_self : (occupied page s proc).procs proc =
    { s.procs proc with state := .embryo, pid := s.nextpid, kstack := page } := by
  rw [occupied, Kernel.procs_setProc_self, occupy]
  dsimp only
  rw [Kernel.procs_setProc_self]

lemma occupied_procs_of_ne (h : q ≠ proc) : (occupied page s proc).procs q = s.procs q := by
  rw [occupied, Kernel.procs_setProc_of_ne h, occupy]
  dsimp only
  rw [Kernel.procs_setProc_of_ne h]

lemma setupStack_procs_of_ne (h : q ≠ proc) : (setupStack trapret procstart s proc).procs q = s.procs q := by
  simp only [setupStack, Kernel.write, Kernel.procs_setProc_of_ne h]

/-- The slot after the pushes. -/
lemma setupStack_procs_self : (setupStack trapret procstart s proc).procs proc =
    { s.procs proc with
      tf := (s.procs proc).kstack + kstackSize - sizeofTrapframe
      context := (s.procs proc).kstack + kstackSize - sizeofTrapframe - 8 - sizeofContext } := by
  simp only [setupStack, Kernel.write, Kernel.procs_setProc_self]

end Fields

lemma createProc_outcome (h : FirstUnused s proc) : KeepsSlots page trapret procstart s := by
  have hrun := createProc_first page trapret procstart h
  by_cases hpage : page = 0
  · rw [if_pos hpage] at hrun
    refine ⟨_, _, hrun, iff_of_true rfl (Or.inr hpage), ?_, ?_⟩
    · intro _ p
      by_cases hp : p = proc
      · rw [hp, Kernel.setState, Kernel.procs_setProc_self, h.1]
      · rw [Kernel.setState, Kernel.procs_setProc_of_ne hp, occupied_procs_of_ne hp]
    · intro p hp
      cases hp
  · rw [if_neg hpage] at hrun
    refine ⟨_, _, hrun, iff_of_false (Option.some_ne_none proc) ?_, ?_, ?_⟩
    · rintro (hfull | hzero)
      · exact hfull proc h.1
      · exact hpage hzero
    · intro hnone
      cases hnone
    · intro p hp
      obtain rfl : proc = p := Option.some.inj hp
      refine ⟨h, ?_, fun q hq => ?_⟩
      · rw [setupStack_procs_self, occupied_procs_self]
      · rw [setupStack_procs_of_ne hq, occupied_procs_of_ne hq]

theorem createProc_slots_iff (page trapret procstart : BitVec 64) (s : Kernel) :
    KeepsSlots page trapret procstart s ↔ ∃ p, (s.procs p).state = .unused := by
  constructor
  · rintro ⟨ret, s', hrun, -⟩
    by_contra hfull
    rw [createProc_full fun p hp => hfull ⟨p, hp⟩] at hrun
    cases hrun
  · rintro ⟨p, hp⟩
    obtain ⟨q, hq⟩ := exists_firstUnused hp
    exact createProc_outcome hq

/-- A table in which every slot is taken. -/
def fullTable : Kernel := ⟨fun p => ⟨0x1000, .runnable, BitVec.ofNat 32 (p.val + 1), 0, 0⟩, 65, fun _ => 0⟩

theorem createProc_leaves_table : createProc 0x2000 0 0 fullTable = .error (.outOfBounds 64) ∧
    ¬∀ (page trapret procstart : BitVec 64) (s : Kernel), KeepsSlots page trapret procstart s := by
  have hfault : createProc 0x2000 0 0 fullTable = .error (.outOfBounds 64) :=
    createProc_full fun p hp => by cases hp
  refine ⟨hfault, fun h => ?_⟩
  obtain ⟨ret, s', hrun, -⟩ := h 0x2000 0 0 fullTable
  rw [hfault] at hrun
  cases hrun

end JavaScriptOS.Process
