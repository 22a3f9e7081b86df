import JavaScriptOS.Lib.ByteMemory
import Mathlib.Algebra.Order.Ring.Nat

/-!
# The kernel heap

`kmem` is a byte array of 65535 bytes. Pointers into it are offsets, and an access outside it
faults. Every block starts with a 2-byte header; a free block also has the links `prev` and
`next`, which are 16-bit offsets, and a copy of its header in its last two bytes.
-/

namespace JavaScriptOS.Heap
open JavaScriptOS.Lib

/-- `MAX_ALLOC`. -/
def maxAlloc : Nat := 65535

structure Kheap where
  kmem : Nat → Nat
  freelist : Option Nat
  bytesAllocated : Nat

inductive HeapFault where
  | nullDeref
  | outOfBounds
  | diverges
  deriving DecidableEq

def Kheap.read (h : Kheap) (a : Nat) : Except HeapFault Nat :=
  if a + 2 ≤ maxAlloc then .ok (word16 h.kmem a) else .error .outOfBounds

def Kheap.write (h : Kheap) (a v : Nat) : Except HeapFault Kheap :=
  if a + 2 ≤ maxAlloc then .ok { h with kmem := setWord16 h.kmem a v } else .error .outOfBounds

/-- A pointer moved down by `d` bytes. -/
def back (a d : Nat) : Except HeapFault Nat :=
  if d ≤ a then .ok (a - d) else .error .outOfBounds

section Header

/-! The fields of a `block_header`. -/

def leftAllocated (w : Nat) : Nat := w % 2

def allocated (w : Nat) : Nat := w / 2 % 2

def sizeBits (w : Nat) : Nat := w / 4 * 4

/-- `size() = v`: the proxy keeps the two flags. -/
def Kheap.setSize (h : Kheap) (b v : Nat) : Except HeapFault Kheap := do
  let w ← h.read b
  h.write b (v % 65536 / 4 * 4 + w % 4)

def Kheap.setLeftAllocated (h : Kheap) (b v : Nat) : Except HeapFault Kheap := do
  let w ← h.read b
  h.write b (w / 2 * 2 + v)

def Kheap.setAllocated (h : Kheap) (b v : Nat) : Except HeapFault Kheap := do
  let w ← h.read b
  h.write b (w / 4 * 4 + 2 * v + w % 2)

end Header

def copyHeaderToFooter (h : Kheap) (block : Nat) : Except HeapFault Kheap := do
  let w ← h.read block
  let footer ← back (block + sizeBits w) 2
  h.write footer w

def initKheap (h : Kheap) : Except HeapFault Kheap := do
  match h.freelist with
  | none => .error .nullDeref
  | some b =>
    let h ← h.setSize b maxAlloc
    let h ← h.write (b + 2) 0
    h.write (b + 4) 0

/-- `block_idx`, for `kmem` at address `addr`: the null pointer has an index too. -/
def blockIdx (addr : Nat) : Option Nat → Nat
  | none => (65536 - addr % 65536) % 65536
  | some b => b % 65536

def insertIntoFreeList (addr : Nat) (h : Kheap) (block : Nat) : Except HeapFault Kheap :=
  let previousFreelist := h.freelist
  { h with freelist := some block }.write (block + 4) (blockIdx addr previousFreelist)

def removeFromFreeList (h : Kheap) (block : Nat) : Except HeapFault Kheap := do
  let h ←
    if (← h.read (block + 2)) = 0 then
      if (← h.read (block + 4)) = 0 then
        pure { h with freelist := none }
      else
        pure { h with freelist := some (← h.read (block + 4)) }
    else
      h.write ((← h.read (block + 2)) + 4) (← h.read (block + 4))
  if (← h.read (block + 4)) ≠ 0 then
    h.write ((← h.read (block + 4)) + 2) (← h.read (block + 2))
  else
    pure h

/-- The splitting branch of `place`: the right part is allocated, the left part is a free block. -/
def splitBlock (addr : Nat) (h : Kheap) (suitableBlock size allocSize : Nat) :
    Except HeapFault (Nat × Kheap) := do
  let allocatedBlock ← back (suitableBlock + size) allocSize
  let h ← h.setSize allocatedBlock allocSize
  let h ← h.setLeftAllocated allocatedBlock 0
  let h ← h.setSize suitableBlock
    ((sizeBits (← h.read suitableBlock) + (2 ^ 64 - allocSize)) % 2 ^ 64)
  let h ← h.setAllocated suitableBlock 0
  let h ← copyHeaderToFooter h suitableBlock
  let h ← insertIntoFreeList addr h suitableBlock
  return (allocatedBlock, h)

/-- The other branch of `place`: the whole block is allocated. -/
def takeBlock (h : Kheap) (suitableBlock : Nat) : Except HeapFault (Nat × Kheap) := do
  let h ← h.setSize suitableBlock (sizeBits (← h.read suitableBlock))
  let h ← h.setLeftAllocated suitableBlock 1
  return (suitableBlock, h)

/-- The end of `place`: mark the block and tell its right neighbour. -/
def markAllocated (h : Kheap) (allocatedBlock : Nat) : Except HeapFault Kheap := do
  let h ← h.setAllocated allocatedBlock 1
  let nextBlock := allocatedBlock + sizeBits (← h.read allocatedBlock)
  let h ← h.setLeftAllocated nextBlock 1
  let size := sizeBits (← h.read allocatedBlock)
  return { h with bytesAllocated := (h.bytesAllocated + size) % 65536 }

/-- `place`: the header of the allocated block, and the heap. -/
def place (addr : Nat) (h : Kheap) (suitableBlock allocSize : Nat) : Except HeapFault (Nat × Kheap) := do
  let h ← removeFromFreeList h suitableBlock
  let size := sizeBits (← h.read suitableBlock)
  let (allocatedBlock, h) ←
    if 8 ≤ (size + (2 ^ 64 - allocSize)) % 2 ^ 64 then splitBlock addr h suitableBlock size allocSize
    else takeBlock h suitableBlock
  let h ← markAllocated h allocatedBlock
  return (allocatedBlock, h)

/-- The search loop of `kmalloc` from index `cur`: the first block that holds `need` bytes, where
index 0 ends the search after it has been looked at. Indices have 16 bits, so a search of more
than 65536 blocks does not end. -/
def findSuitable : Nat → Kheap → Nat → Nat → Except HeapFault (Option Nat)
  | 0, _, _, _ => .error .diverges
  | fuel + 1, h, need, cur => do
    if need ≤ sizeBits (← h.read cur) then
      pure (some cur)
    else if cur = 0 then
      pure none
    else
      findSuitable fuel h need (← h.read (cur + 4))

/-- The size `kmalloc` works with: rounded up to 4, and at least `sizeof(free_block)`. -/
def roundSize (n : Nat) : Nat := max ((n + 3) / 4 * 4) 6

def kmalloc (addr : Nat) (h : Kheap) (n : Nat) : Except HeapFault (Option Nat × Kheap) := do
  if n = 0 ∨ maxAlloc < n then
    return (none, h)
  match h.freelist with
  | none => .error .nullDeref
  | some head =>
    match ← findSuitable 65536 h (roundSize n + 2) (← h.read (head + 4)) with
    | none => return (none, h)
    | some block =>
      let (allocatedBlock, h) ← place addr h block (roundSize n)
      return (some (allocatedBlock + 2), h)

/-- The part of `coalesce` on the left neighbour: the merged block and its size so far. -/
def coalesceLeft (h : Kheap) (block size : Nat) : Except HeapFault (Nat × Nat × Kheap) := do
  if leftAllocated (← h.read block) = 0 then
    let leftFooter ← back block 2
    let leftSize := sizeBits (← h.read leftFooter)
    let leftBlock ← back block leftSize
    let h ← removeFromFreeList h leftBlock
    return (leftBlock, (size + leftSize) % 65536, h)
  else
    return (block, size, h)

/-- The part on the right neighbour. -/
def coalesceRight (h : Kheap) (rightBlock size : Nat) : Except HeapFault (Nat × Kheap) := do
  if allocated (← h.read rightBlock) = 0 then
    let rightSize := sizeBits (← h.read rightBlock)
    let h ← removeFromFreeList h rightBlock
    return ((size + rightSize) % 65536, h)
  else
    let h ← h.setLeftAllocated rightBlock 0
    return (size, h)

/-- The end of `coalesce`. -/
def createFreeBlock (addr : Nat) (h : Kheap) (block size : Nat) : Except HeapFault Kheap := do
  let h ← h.setSize block size
  let h ← h.setAllocated block 0
  let h ← h.setLeftAllocated block 1
  let h ← copyHeaderToFooter h block
  insertIntoFreeList addr h block

def coalesce (addr : Nat) (h : Kheap) (block : Nat) : Except HeapFault Kheap := do
  let rightBlock := block + sizeBits (← h.read block)
  let (coalescedBlock, coalescedSize, h) ← coalesceLeft h block (sizeBits (← h.read block))
  let (coalescedSize, h) ← coalesceRight h rightBlock coalescedSize
  createFreeBlock addr h coalescedBlock coalescedSize

def kfree (addr : Nat) (h : Kheap) (ptr : Option Nat) : Except HeapFault Kheap := do
  match ptr with
  | none => return h
  | some p =>
    let freedBlock ← back p 2
    let size := sizeBits (← h.read freedBlock)
    coalesce addr { h with bytesAllocated := (h.bytesAllocated + (65536 - size)) % 65536 } freedBlock

end JavaScriptOS.Heap
