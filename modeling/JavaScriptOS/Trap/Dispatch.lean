import Mathlib.Data.Finset.Max
import Mathlib.Data.Fintype.Basic
import Mathlib.Logic.Function.Basic

/-!
# Interrupts of one CPU

The local APIC keeps the requested and the in-service vectors. A CPU whose interrupt flag is set takes the
highest request above what is in service, pushes a frame on the kernel stack in use and runs
`interrupt_dispatch()`; the timer handler may leave for `scheduler()`, which continues on another stack.
Whether the write of `lapic_eoi()` reaches the local APIC is a parameter. The writes of `disable_pic()` go to the
command ports of the 8259 and mask nothing, so that its interrupts may still come. `trap.c` takes the numbers of three of
its cases from names that `idt.h` does not declare; they are the vectors that `idt.h` gives to the same sources.

The entry code is not part of this model: an interrupt that is taken begins with the first statement of
`interrupt_dispatch()`. What is said of all runs here is that something does not happen, so it also holds for an
entry that does not get that far.
-/

namespace JavaScriptOS.Trap

abbrev Vector := Fin 256

def nmiInterrupt : Vector := ⟨2, by decide⟩
def generalProtection : Vector := ⟨13, by decide⟩
def pageFault : Vector := ⟨14, by decide⟩
def machineCheck : Fin 32 := ⟨18, by decide⟩
def apicTimerInterruptNum : Vector := ⟨32, by decide⟩
def keyboardInterruptNum : Vector := ⟨33, by decide⟩
def pitInterruptNum : Vector := ⟨34, by decide⟩
def syscallInterruptNum : Vector := ⟨0x80, by decide⟩
def apicSpuriousInterruptNum : Vector := ⟨255, by decide⟩

/-- The next statement of an activation of `interrupt_dispatch()`. -/
inductive Line where
  | switch                       -- `switch(tf->interrupt_num)`
  | pitIrqHandler                -- `pit_irq_handler()`
  | lapicEoi                     -- `lapic_eoi()`
  | reschedule                   -- the test of `myproc()`, `yield()`
  | sched                        -- inside `context_switch()`
  | hlt                          -- `asm("hlt")`
  | ret                          -- `return tf`, `iretq`
  deriving DecidableEq

/-- The case that the switch takes for a vector. -/
def interruptDispatch (v : Vector) : Line :=
  if v = pageFault then .ret
  else if v = generalProtection then .hlt
  else if v = apicTimerInterruptNum then .lapicEoi
  else if v = apicSpuriousInterruptNum then .lapicEoi
  else if v = keyboardInterruptNum then .lapicEoi
  else if v = pitInterruptNum then .pitIrqHandler
  else if v = syscallInterruptNum then .ret
  else .hlt

/-- An activation of `interrupt_dispatch()` on a kernel stack, with the interrupt flag to return to. -/
structure Activation where
  vector : Vector
  line : Line
  savedIf : Bool
  deriving DecidableEq

/-- One CPU with its local APIC. `none` is the stack of `scheduler()`, `some p` that of a process. -/
structure Machine (n : Nat) where
  irr : Finset Vector
  isr : Finset Vector
  interrupts : Bool
  proc : Option (Fin n)
  kstacks : Option (Fin n) → List Activation
  pitTicks : BitVec 32

variable {n : Nat}

namespace Machine

def stack (m : Machine n) : List Activation := m.kstacks m.proc

def setStack (m : Machine n) (fs : List Activation) : Machine n :=
  { m with kstacks := Function.update m.kstacks m.proc fs }

/-- The request that the local APIC offers: the highest one, if its class is above all in service. -/
def offered (m : Machine n) : Option Vector :=
  match m.irr.max with
  | none => none
  | some v => if ∀ w ∈ m.isr, w.val / 16 < v.val / 16 then some v else none

/-- A write that reaches the EOI register ends the highest vector in service. -/
def lapicEoi (reaches : Bool) (m : Machine n) : Machine n :=
  if reaches then
    match m.isr.max with
    | none => m
    | some v => { m with isr := m.isr.erase v }
  else m

/-- An interrupt ends a `hlt`. -/
def wake : List Activation → List Activation
  | [] => []
  | f :: fs => (if f.line = .hlt then { f with line := .ret } else f) :: fs

/-- `init_idt()` makes every gate an interrupt gate, which clears the flag, apart from that of system calls. -/
def enter (m : Machine n) (v : Vector) : Machine n :=
  { m.setStack (⟨v, .switch, m.interrupts⟩ :: wake m.stack) with
    interrupts := m.interrupts && decide (v = syscallInterruptNum) }

/-- One statement of the activation `f` on top of `fs`. -/
def statement (reaches : Bool) (m : Machine n) (f : Activation) (fs : List Activation) : Machine n :=
  match f.line with
  | .switch => m.setStack ({ f with line := interruptDispatch f.vector } :: fs)
  | .pitIrqHandler => { m.setStack ({ f with line := .lapicEoi } :: fs) with pitTicks := m.pitTicks + 1 }
  | .lapicEoi =>
    (m.lapicEoi reaches).setStack ({ f with line := if f.vector = apicTimerInterruptNum then .reschedule else .ret } :: fs)
  | .reschedule =>
    match m.proc with
    | none => m.setStack ({ f with line := .ret } :: fs)
    | some _ => { m.setStack ({ f with line := .sched } :: fs) with proc := none }
  | .sched => m
  | .hlt => m
  | .ret => { m.setStack fs with interrupts := f.savedIf }

/-- `swtch()` continues a process in its `sched()`, or at the frame that `create_proc()` made. -/
def resume : List Activation → List Activation
  | [] => []
  | f :: fs => (if f.line = .sched then { f with line := .ret } else f) :: fs

end Machine

inductive Event (n : Nat) where
  | request (v : Vector)         -- an interrupt message reaches the local APIC
  | accept                       -- the CPU takes the offered request
  | spurious                     -- the CPU takes an interrupt that is no longer offered
  | extInt (v : Vector)          -- one of the 8259, which the local APIC only passes on
  | nmi                          -- also while the CPU is halted, or still in the handler of another one
  | exception (v : Fin 32)       -- also one of a write in a handler
  | syscall
  | run                          -- the next statement of the handler
  | sti                          -- `sti()` of `scheduler()`
  | acquire                      -- `acquire()` of `scheduler()` clears the flag
  | swtch (p : Fin n)

namespace Machine

def halted (m : Machine n) : Bool := m.stack.head?.any (·.line = .hlt)

/-- `scheduler()` itself is running. -/
def scheduling (m : Machine n) : Bool := m.proc.isNone && m.stack.isEmpty

section Run

variable (reaches : Bool)

/-- One event; an event that cannot happen changes nothing. -/
def step (m : Machine n) : Event n → Machine n
  | .request v => { m with irr := insert v m.irr }
  | .accept =>
    match m.interrupts, m.offered with
    | true, some v => enter { m with irr := m.irr.erase v, isr := insert v m.isr } v
    | _, _ => m
  | .spurious => if m.interrupts then m.enter apicSpuriousInterruptNum else m
  | .extInt v => if m.interrupts then m.enter v else m
  | .nmi => m.enter nmiInterrupt
  -- a machine check ends a `hlt` as an interrupt does
  | .exception v => if m.halted ∧ v ≠ machineCheck then m else m.enter (v.castLE (by decide))
  | .syscall => if m.proc.isSome ∧ m.stack = [] then m.enter syscallInterruptNum else m
  | .run =>
    match m.stack with
    | [] => m
    | f :: fs => m.statement reaches f fs
  | .sti => if m.scheduling then { m with interrupts := true } else m
  | .acquire => if m.scheduling then { m with interrupts := false } else m
  | .swtch p =>
    if m.scheduling ∧ m.interrupts = false then
      { m with proc := some p, kstacks := Function.update m.kstacks (some p) (resume (m.kstacks (some p))) }
    else m

def run (m : Machine n) (es : List (Event n)) : Machine n := es.foldl (step reaches) m

/-- The vector that an event takes from the local APIC. -/
def accepts (m : Machine n) (e : Event n) : Option Vector :=
  match e, m.interrupts with
  | .accept, true => m.offered
  | _, _ => none

/-- The vector whose case of the switch an event executes. -/
def switches (m : Machine n) (e : Event n) : Option Vector :=
  match e, m.stack with
  | .run, f :: _ => if f.line = .switch then some f.vector else none
  | _, _ => none

/-- The event is a call of `yield()` by the timer handler. -/
def yields (m : Machine n) (e : Event n) : Bool :=
  match e, m.stack with
  | .run, f :: _ => f.line = .reschedule ∧ m.proc.isSome
  | _, _ => false

/-- The vectors taken from the local APIC along a run. -/
def accepted (m : Machine n) : List (Event n) → List Vector
  | [] => []
  | e :: es => (m.accepts e).toList ++ accepted (m.step reaches e) es

/-- The vectors that `interrupt_dispatch()` handles along a run. -/
def dispatched (m : Machine n) : List (Event n) → List Vector
  | [] => []
  | e :: es => (m.switches e).toList ++ dispatched (m.step reaches e) es

/-- How often `yield()` is called along a run. -/
def preemptions (m : Machine n) : List (Event n) → Nat
  | [] => 0
  | e :: es => (m.yields e).toNat + preemptions (m.step reaches e) es

end Run

/-- `scheduler()` is entered with interrupts disabled; a new process starts at an `iretq` that enables them. -/
def boot (n : Nat) : Machine n where
  irr := ∅
  isr := ∅
  interrupts := false
  proc := none
  kstacks := fun t => if t = none then [] else [⟨⟨0, by decide⟩, .ret, true⟩]
  pitTicks := 0

end Machine

end JavaScriptOS.Trap
