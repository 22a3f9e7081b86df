import JavaScriptOS.Lib.Reach
import Mathlib.Data.BitVec
import Mathlib.Logic.Function.Basic

/-!
# Formatted output

The functions of `stdio.c`. Positions in the output buffer are offsets from `bufstart`, and the buffer is taken
to be large enough and apart from the strings that are read. A string argument is given by its characters, with
a NUL behind them. The format is given by all bytes that may be read, its NUL included, and reading on
after the last of them is a fault.
-/

namespace JavaScriptOS.Libc

abbrev Buf := Nat → BitVec 8

inductive Fault where
  | pastFormat
  | badArgument
  | nullPointer
  | divideError
  | outOfBounds
  | diverges
  deriving DecidableEq

/-- The byte of an ASCII character. -/
def ascii (c : Char) : BitVec 8 := BitVec.ofNat 8 c.toNat

/-- Copies a string and returns the position of its NUL in the copy. -/
def strcpy (m : Buf) (dst : Nat) : List (BitVec 8) → Buf × Nat
  | [] => (Function.update m dst 0, dst)
  | c :: src => if c = 0 then (Function.update m dst 0, dst) else strcpy (Function.update m dst c) (dst + 1) src

/-- The array `digits`, with the NUL of its initializer. -/
def digits : List (BitVec 8) := "0123456789abcdef".toList.map ascii ++ [0]

/-- The loop of `sprintbase` that writes the digits. A base above one leaves nothing of 64 bits after 64 rounds,
and base one never ends. -/
def emitDigits (base : BitVec 8) : Nat → Buf → Nat → Nat → BitVec 64 → Except Fault (Buf × Nat × Nat)
  | 0, m, buf, len, number => if number = 0 then .ok (m, buf, len) else .error .diverges
  | rounds + 1, m, buf, len, number =>
    if number = 0 then .ok (m, buf, len)
    else if base = 0 then .error .divideError
    else
      match digits[(number % base.setWidth 64).toNat]? with
      | none => .error .outOfBounds
      | some c => emitDigits base rounds (Function.update m buf c) (buf + 1) (len + 1) (number / base.setWidth 64)

def swap (m : Buf) (i j : Nat) : Buf := Function.update (Function.update m i (m j)) j (m i)

/-- The loop of `sprintbase` that reverses the string. -/
def reverse : Buf → Nat → Nat → Buf
  | m, _, 0 => m
  | m, bufleft, buf + 1 => if bufleft < buf + 1 then reverse (swap m bufleft (buf + 1)) (bufleft + 1) buf else m

def sprintbase (m : Buf) (buf : Nat) (number : BitVec 64) (base : BitVec 8) : Except Fault (Buf × Nat) := do
  let bufleft := buf
  let (m, buf, len) := if number = 0 then (Function.update m buf (ascii '0'), buf + 1, 1) else (m, buf, 0)
  let (m, buf, len) ← emitDigits base 64 m buf len number
  let m := Function.update m buf 0
  pure (reverse m bufleft (buf - 1), len)

inductive Arg where
  | ulong (v : BitVec 64)
  | string (chars : List (BitVec 8))
  deriving DecidableEq

structure Printer where
  mem : Buf
  buf : Nat
  args : List Arg

def Printer.put (p : Printer) (c : BitVec 8) : Printer :=
  { p with mem := Function.update p.mem p.buf c, buf := p.buf + 1 }

/-- `int number = va_arg(args, unsigned long)`, as `sprintbase` gets it. -/
def asInt (v : BitVec 64) : BitVec 64 := (v.setWidth 32).signExtend 64

def Printer.number (p : Printer) (v : BitVec 64) (base : BitVec 8) : Except Fault Printer := do
  let (mem, len) ← sprintbase p.mem p.buf (asInt v) base
  pure { p with mem := mem, buf := p.buf + len }

/-- The `switch` over the character after a `%`. -/
def directive (c : BitVec 8) (p : Printer) : Except Fault Printer :=
  if c = ascii 'u' then
    match p.args with
    | .ulong v :: args => { p with args := args }.number v 10
    | _ => .error .badArgument
  else if c = ascii 'x' then
    match p.args with
    | .ulong v :: args => (({ p with args := args }.put (ascii '0')).put (ascii 'x')).number v 16
    | _ => .error .badArgument
  else if c = ascii 's' then
    match p.args with
    | .string chars :: args => .ok ⟨(strcpy p.mem p.buf chars).1, (strcpy p.mem p.buf chars).2, args⟩
    | _ => .error .badArgument
  else .ok p

/-- The loop of `vsprintf`, with the rest of the format at which it stops. -/
def format : List (BitVec 8) → Printer → Except Fault (List (BitVec 8) × Printer)
  | [], _ => .error .pastFormat
  | c :: fmt, p =>
    if c = 0 then .ok (c :: fmt, p)
    else if c = ascii '%' then
      match fmt with
      | [] => .error .pastFormat
      | d :: fmt => do
        let p ← directive d p
        format fmt p
    else format fmt (p.put c)

def vsprintf (m : Buf) (fmt : List (BitVec 8)) (args : List Arg) : Except Fault (Buf × BitVec 32) := do
  let (_, p) ← format fmt ⟨m, 0, args⟩
  pure (Function.update p.mem p.buf 0, BitVec.ofNat 32 p.buf)

end JavaScriptOS.Libc
