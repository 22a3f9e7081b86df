import JavaScriptOS.Lib.ByteStack
import Mathlib.Logic.Function.Basic

/-!
# Trap entry and exit

The instructions of `alltraps.S` and of the stubs that `vectors.py` prints, over the general-purpose
registers, the data segment registers, the stack pointer and a byte memory. The immediate pushes of a
stub are pushes of eight bytes. `trap()` is a parameter, with the call and the return around it.

An instruction that the processor does not decode raises an invalid-opcode exception, at which a run
ends. In 64-bit mode these are the pushes and pops of `%ds` and `%es`, for which the assembler has no
encoding either.
-/

namespace JavaScriptOS.Trap
open JavaScriptOS.Lib

instance neZeroVector : NeZero 256 := ⟨by decide⟩

inductive Reg where
  | rax | rbx | rcx | rdx | rbp | rsi | rdi | r8 | r9 | r10 | r11 | r12 | r13 | r14 | r15
  deriving DecidableEq

inductive Seg where
  | ds | es | fs | gs
  deriving DecidableEq

structure Cpu where
  reg : Reg → BitVec 64
  seg : Seg → BitVec 16
  rsp : BitVec 64
  mem : Memory

namespace Cpu

def push (c : Cpu) (bytes : List (BitVec 8)) : Cpu :=
  { c with
    rsp := c.rsp - BitVec.ofNat 64 bytes.length
    mem := writeBytes c.mem (c.rsp - BitVec.ofNat 64 bytes.length) bytes }

def top (c : Cpu) (k : Nat) : List (BitVec 8) := readBytes c.mem c.rsp k

def drop (c : Cpu) (k : Nat) : Cpu := { c with rsp := c.rsp + BitVec.ofNat 64 k }

def setReg (c : Cpu) (r : Reg) (v : BitVec 64) : Cpu := { c with reg := Function.update c.reg r v }

def setSeg (c : Cpu) (s : Seg) (v : BitVec 16) : Cpu := { c with seg := Function.update c.seg s v }

end Cpu

inductive Instr where
  | pushq (r : Reg)
  | popq (r : Reg)
  | pushw (s : Seg)
  | popw (s : Seg)
  | pushImm (v : BitVec 64)
  | movwImmAx (v : BitVec 16)
  | movwAx (s : Seg)
  | movqRspRdi
  | movqRaxRsp
  | cld
  | addlEsp (v : BitVec 32)

/-- What 64-bit mode decodes: of the segment registers only `%fs` and `%gs` can be pushed and popped. -/
def longMode : Instr → Bool
  | .pushw .ds | .pushw .es | .popw .ds | .popw .es => false
  | _ => true

/-- What an instruction does. An operation on `%esp` clears the upper half of `%rsp`. -/
def effect (c : Cpu) : Instr → Cpu
  | .pushq r => c.push (bytesOf 8 (c.reg r))
  | .popq r => (c.drop 8).setReg r (wordOf 64 (c.top 8))
  | .pushw s => c.push (bytesOf 2 (c.seg s))
  | .popw s => (c.drop 2).setSeg s (wordOf 16 (c.top 2))
  | .pushImm v => c.push (bytesOf 8 v)
  | .movwImmAx v => c.setReg .rax (c.reg .rax &&& ~~~0xFFFF#64 ||| v.setWidth 64)
  | .movwAx s => c.setSeg s ((c.reg .rax).setWidth 16)
  | .movqRspRdi => c.setReg .rdi c.rsp
  | .movqRaxRsp => { c with rsp := c.reg .rax }
  | .cld => c -- the direction flag is not modelled
  | .addlEsp v => { c with rsp := (c.rsp.setWidth 32 + v).setWidth 64 }

def effects (c : Cpu) (code : List Instr) : Cpu := code.foldl effect c

section Run

variable (decodes : Instr → Bool)

/-- One instruction, if the processor decodes it. -/
def exec (c : Cpu) (instr : Instr) : Option Cpu := if decodes instr then some (effect c instr) else none

def run (c : Cpu) (code : List Instr) : Option Cpu := code.foldlM (exec decodes) c

end Run

def segKdata : BitVec 16 := 0x10#16

def saveContext : List Instr :=
  [.pushw .ds, .pushw .es, .pushw .fs, .pushw .gs, .pushq .rax, .pushq .rbx, .pushq .rcx, .pushq .rdx,
    .pushq .rbp, .pushq .rsi, .pushq .rdi, .pushq .r8, .pushq .r9, .pushq .r10, .pushq .r11, .pushq .r12,
    .pushq .r13, .pushq .r14, .pushq .r15]

def restoreContext : List Instr :=
  [.popq .r15, .popq .r14, .popq .r13, .popq .r12, .popq .r11, .popq .r10, .popq .r9, .popq .r8,
    .popq .rdi, .popq .rsi, .popq .rbp, .popq .rdx, .popq .rcx, .popq .rbx, .popq .rax, .popw .gs, .popw .fs,
    .popw .es, .popw .ds]

/-- `alltraps` up to the call of `trap()`. -/
def alltraps : List Instr :=
  saveContext ++ [.movwImmAx segKdata, .movwAx .ds, .movwAx .es, .movqRspRdi, .cld]

/-- `trapret` up to its `iretq`. -/
def trapret : List Instr := .movqRaxRsp :: restoreContext ++ [.addlEsp 16]

/-- The exceptions with an error code: double fault, invalid TSS, segment not present, stack fault, general
protection, page fault and alignment check. (Control protection has one too, but only with `CR4.CET`, which
the kernel does not set.) -/
def pushesErrorCode (i : Fin 256) : Bool := i.val ∈ [8, 10, 11, 12, 13, 14, 17]

/-- The vectors for which `vectors.py` leaves out the dummy error code. -/
def skipsErrorCode (i : Fin 256) : Bool := i.val = 8 ∨ (10 ≤ i.val ∧ i.val ≤ 14) ∨ i.val = 17

def vectorStub (i : Fin 256) : List Instr :=
  (if !skipsErrorCode i then [.pushImm 0] else []) ++ [.pushImm (BitVec.ofNat 64 i.val)]

/-- What the processor pushes for an interrupt and `iretq` pops. -/
structure IretFrame where
  rip : BitVec 64
  cs : BitVec 64
  rflags : BitVec 64
  rsp : BitVec 64
  ss : BitVec 64
  deriving DecidableEq

def IretFrame.bytes (f : IretFrame) : List (BitVec 8) :=
  bytesOf 8 f.rip ++ bytesOf 8 f.cs ++ bytesOf 8 f.rflags ++ bytesOf 8 f.rsp ++ bytesOf 8 f.ss

/-- The processor aligns the kernel stack pointer to 16 bytes and pushes the frame. -/
def alignedStack (rsp : BitVec 64) : BitVec 64 := rsp &&& ~~~15#64

def iretFrameAddress (rsp : BitVec 64) : BitVec 64 := alignedStack rsp - 40

def deliver (i : Fin 256) (errorCode : BitVec 64) (f : IretFrame) (c : Cpu) : Cpu :=
  let c := { c with rsp := alignedStack c.rsp }
  let c := ((((c.push (bytesOf 8 f.ss)).push (bytesOf 8 f.rsp)).push (bytesOf 8 f.rflags)).push
    (bytesOf 8 f.cs)).push (bytesOf 8 f.rip)
  if pushesErrorCode i then c.push (bytesOf 8 errorCode) else c

def iretq (c : Cpu) : IretFrame :=
  ⟨wordOf 64 (readBytes c.mem c.rsp 8), wordOf 64 (readBytes c.mem (c.rsp + 8) 8),
    wordOf 64 (readBytes c.mem (c.rsp + 16) 8), wordOf 64 (readBytes c.mem (c.rsp + 24) 8),
    wordOf 64 (readBytes c.mem (c.rsp + 32) 8)⟩

/-- The way from the interrupt to `trap()`. -/
def atTrap (decodes : Instr → Bool) (i : Fin 256) (errorCode : BitVec 64) (f : IretFrame) (c : Cpu) : Option Cpu :=
  run decodes (deliver i errorCode f c) (vectorStub i ++ alltraps)

/-- The way from `trap()` to `iretq`. -/
def atIretq (decodes : Instr → Bool) (trap : Cpu → Cpu) (c : Cpu) : Option Cpu := run decodes (trap c) trapret

inductive Field where
  | reg (r : Reg)
  | seg (s : Seg)
  | interruptNum | errorCode | rip | cs | rflags | rsp | ss
  deriving DecidableEq

/-- `struct trapframe`, in the order of its declaration. -/
def trapframe : List Field :=
  [.reg .r15, .reg .r14, .reg .r13, .reg .r12, .reg .r11, .reg .r10, .reg .r9, .reg .r8, .reg .rdi,
    .reg .rsi, .reg .rbp, .reg .rdx, .reg .rcx, .reg .rbx, .reg .rax, .seg .gs, .seg .fs, .seg .es, .seg .ds,
    .interruptNum, .errorCode, .rip, .cs, .rflags, .rsp, .ss]

def Field.size : Field → Nat
  | .seg _ => 2
  | _ => 8

def sizeofTrapframe : Nat := (trapframe.map Field.size).sum

def offsetIn : List Field → Field → Nat
  | [], _ => 0
  | g :: l, f => if g = f then 0 else g.size + offsetIn l f

/-- The value each field should have in `trap()`. -/
def fieldBytes (i : Fin 256) (errorCode : BitVec 64) (f : IretFrame) (c : Cpu) : Field → List (BitVec 8)
  | .reg r => bytesOf 8 (c.reg r)
  | .seg s => bytesOf 2 (c.seg s)
  | .interruptNum => bytesOf 8 (BitVec.ofNat 64 i.val)
  | .errorCode => bytesOf 8 (if pushesErrorCode i then errorCode else 0)
  | .rip => bytesOf 8 f.rip
  | .cs => bytesOf 8 f.cs
  | .rflags => bytesOf 8 f.rflags
  | .rsp => bytesOf 8 f.rsp
  | .ss => bytesOf 8 f.ss

end JavaScriptOS.Trap
