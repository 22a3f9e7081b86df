import JavaScriptOS.Lib.Reach
import Mathlib.Data.Fintype.Card
import Mathlib.Logic.Function.Basic

/-!
# The per-CPU scheduler

Each CPU runs `scheduler()`, and a process that it dispatches runs on the same CPU until the timer
handler calls `yield()`. A program counter says where a CPU is; `c->scheduler` and `p->context` are the
places at which the scheduler and the process continue after the next switch. `ptable.lock` is a
mutual-exclusion lock. The calls of `acquire` and `release` in `yield()` and `procstart()` are commented
out, so here they are absent. Address spaces (`switchuvm`, `switchkvm`) and `lapic_eoi` are not modelled.
-/

namespace JavaScriptOS.Process
open JavaScriptOS.Lib

/-- `enum procstate`. -/
inductive ProcState where
  | unused | embryo | sleeping | runnable | running | zombie
  deriving DecidableEq

/-- What the timer interrupted: the idle window of `scheduler()` or a process. -/
inductive Frame where
  | idle | process
  deriving DecidableEq

/-- `p->context`: the start of the process, or the middle of `sched()` with its local `intena`. -/
inductive Context where
  | procstart
  | sched (frame : Frame) (intena : Bool)
  deriving DecidableEq

structure Proc where
  state : ProcState
  context : Context
  deriving DecidableEq

/-- The next statement of a CPU. -/
inductive Pc (n : Nat) where
  | entry                                          -- `c->proc = 0`
  | idle                                           -- `sti()`, `acquire(&ptable.lock)`
  | scan (p : Nat)                                 -- the loop test and `p->state != RUNNABLE`
  | select (p : Fin n)                             -- `c->proc = p`
  | mark (p : Fin n)                               -- `p->state = RUNNING`
  | swtch (p : Fin n)                              -- `swtch(&(c->scheduler), p->context)`
  | back (p : Fin n)                               -- `c->proc = 0`, `p++`
  | procstart                                      -- returns to `trapret`
  | user                                           -- the process itself
  | timer (f : Frame)                              -- `if (p && p->state == RUNNING)`
  | yield (f : Frame)                              -- `myproc()->state = RUNNABLE`
  | sched (f : Frame)                              -- `p = myproc()`, `intena = mycpu()->saved_IF`
  | contextSwitch (f : Frame) (p : Fin n) (intena : Bool)
  | resumed (f : Frame) (intena : Bool)            -- `mycpu()->saved_IF = intena`
  deriving DecidableEq

/-- `struct cpu`. The saved `scheduler` context is the loop variable of the suspended loop. -/
structure Cpu (n : Nat) where
  pc : Pc n
  proc : Option (Fin n)
  scheduler : Option (Fin n)
  savedIF : Bool
  deriving DecidableEq

abbrev Ptable (n : Nat) := Fin n → Proc

inductive Stuck where
  | spinning
  | masked
  | nullPointer
  deriving DecidableEq

inductive LockOp where
  | keep | acquire | release
  deriving DecidableEq

variable {n : Nat}

def setState (t : Ptable n) (p : Fin n) (state : ProcState) : Ptable n :=
  Function.update t p { t p with state := state }

def setContext (t : Ptable n) (p : Fin n) (context : Context) : Ptable n :=
  Function.update t p { t p with context := context }

def resume : Context → Pc n
  | .procstart => .procstart
  | .sched f intena => .resumed f intena

def iret : Frame → Pc n
  | .idle => .idle
  | .process => .user

def cpuRun (t : Ptable n) (c : Cpu n) : Except Stuck (LockOp × Ptable n × Cpu n) :=
  match c.pc with
  | .entry => .ok (.keep, t, { c with proc := none, pc := .idle })
  | .idle => .ok (.acquire, t, { c with pc := .scan 0 })
  | .scan p =>
    if h : p < n then
      if (t ⟨p, h⟩).state ≠ .runnable then .ok (.keep, t, { c with pc := .scan (p + 1) })
      else .ok (.keep, t, { c with pc := .select ⟨p, h⟩ })
    else .ok (.release, t, { c with pc := .idle })
  | .select p => .ok (.keep, t, { c with proc := some p, pc := .mark p })
  | .mark p => .ok (.keep, setState t p .running, { c with pc := .swtch p })
  | .swtch p => .ok (.keep, t, { c with scheduler := some p, pc := resume (t p).context })
  | .back p => .ok (.keep, t, { c with proc := none, pc := .scan (p.val + 1) })
  | .procstart => .ok (.keep, t, { c with pc := .user })
  | .user => .ok (.keep, t, c)
  | .timer f =>
    match c.proc with
    | some p =>
      if (t p).state = .running then .ok (.keep, t, { c with pc := .yield f })
      else .ok (.keep, t, { c with pc := iret f })
    | none => .ok (.keep, t, { c with pc := iret f })
  | .yield f =>
    match c.proc with
    | some p => .ok (.keep, setState t p .runnable, { c with pc := .sched f })
    | none => .error .nullPointer
  | .sched f =>
    match c.proc with
    | some p => .ok (.keep, t, { c with pc := .contextSwitch f p c.savedIF })
    | none => .error .nullPointer
  | .contextSwitch f p intena =>
    match c.scheduler with
    | some q => .ok (.keep, setContext t p (.sched f intena), { c with pc := .back q })
    | none => .error .nullPointer
  | .resumed f intena => .ok (.keep, t, { c with savedIF := intena, pc := iret f })

/-- A timer interrupt. Interrupts are off while the kernel holds the lock or handles one. -/
def cpuTimer (t : Ptable n) (c : Cpu n) : Except Stuck (LockOp × Ptable n × Cpu n) :=
  match c.pc with
  | .idle => .ok (.keep, t, { c with pc := .timer .idle })
  | .user => .ok (.keep, t, { c with pc := .timer .process })
  | _ => .error .masked

variable {Id : Type} [DecidableEq Id]

structure Sys (Id : Type) (n : Nat) where
  ptable : Ptable n
  lock : Option Id
  cpus : Id → Cpu n

inductive Event (Id : Type) where
  | run (c : Id)
  | timer (c : Id)

def Event.cpu : Event Id → Id
  | .run c => c
  | .timer c => c

/-- `acquire` succeeds when the lock is free. -/
def takeLock (lock : Option Id) (c : Id) : LockOp → Except Stuck (Option Id)
  | .keep => .ok lock
  | .acquire => if lock = none then .ok (some c) else .error .spinning
  | .release => .ok none

def Sys.cpuStep (s : Sys Id n) : Event Id → Except Stuck (LockOp × Ptable n × Cpu n)
  | .run c => cpuRun s.ptable (s.cpus c)
  | .timer c => cpuTimer s.ptable (s.cpus c)

def Sys.step (s : Sys Id n) (e : Event Id) : Except Stuck (Sys Id n) := do
  let (op, ptable, cpu) ← s.cpuStep e
  let lock ← takeLock s.lock e.cpu op
  pure ⟨ptable, lock, Function.update s.cpus e.cpu cpu⟩

/-- Every CPU is about to enter `scheduler()`; no process has run yet. -/
structure Sys.Booted (s : Sys Id n) : Prop where
  lock : s.lock = none
  cpus : ∀ c, (s.cpus c).pc = .entry ∧ (s.cpus c).proc = none
  procs : ∀ p, (s.ptable p).state ≠ .running ∧ (s.ptable p).context = .procstart

def SysReach : Sys Id n → Prop := Reach Sys.Booted Sys.step (fun _ _ => True)

end JavaScriptOS.Process
