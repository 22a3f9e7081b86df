import JavaScriptOS.Lib.DoublyLinked
import JavaScriptOS.Lib.Reach
import Mathlib.Algebra.Order.Ring.Nat
import Mathlib.Data.Fintype.Card
import Mathlib.Logic.Function.Basic

/-!
# `std::list`

The nodes of a list are cells of memory at 64-bit addresses, with address 0 as null. A cell is free, raw
between `allocate` and the constructor, or a node. Going through a pointer to anything but a node is a
fault, and so is deallocating a free cell. The two ends of the list are treated alike by the source, so
an operation is written once for an end and named for the front and for the back.
-/

namespace JavaScriptOS.Libcppk

abbrev Addr := BitVec 64

structure Node (T : Type) where
  data : T
  prev : Addr
  next : Addr

inductive Cell (T : Type) where
  | free
  | raw
  | node (n : Node T)

/-- The list object, the memory of its nodes and the calls made to its allocator. -/
structure StdList (T : Type) where
  head : Addr
  tail : Addr
  listSize : BitVec 64
  heap : Addr → Cell T
  allocated : List Addr
  deallocated : List Addr

inductive Fault where
  | badPointer
  | badFree
  | diverges
  deriving DecidableEq

/-- An end of the list. From the front, `prev` leads out of the list; from the back, `next` does. -/
inductive End where
  | front | back
  deriving DecidableEq

def End.other : End → End
  | .front => .back
  | .back => .front

variable {T : Type}

def Node.link (n : Node T) : End → Addr
  | .front => n.prev
  | .back => n.next

def Node.setLink (n : Node T) (e : End) (p : Addr) : Node T :=
  match e with
  | .front => { n with prev := p }
  | .back => { n with next := p }

namespace StdList

def ptr (l : StdList T) : End → Addr
  | .front => l.head
  | .back => l.tail

def setPtr (l : StdList T) (e : End) (p : Addr) : StdList T :=
  match e with
  | .front => { l with head := p }
  | .back => { l with tail := p }

def setSize (l : StdList T) (size : BitVec 64) : StdList T := { l with listSize := size }

def deref (l : StdList T) (a : Addr) : Except Fault (Node T) :=
  match l.heap a with
  | .node n => .ok n
  | _ => .error .badPointer

def setCell (l : StdList T) (a : Addr) (cell : Cell T) : StdList T :=
  { l with heap := Function.update l.heap a cell }

/-- `a->prev = p` or `a->next = p`. -/
def setLink (l : StdList T) (a : Addr) (e : End) (p : Addr) : Except Fault (StdList T) := do
  let n ← l.deref a
  pure (l.setCell a (.node (n.setLink e p)))

def allocate (l : StdList T) (a : Addr) : StdList T :=
  { l.setCell a .raw with allocated := a :: l.allocated }

def discard (l : StdList T) (a : Addr) : StdList T :=
  { l.setCell a .free with deallocated := a :: l.deallocated }

def deallocate (l : StdList T) (a : Addr) : Except Fault (StdList T) :=
  match l.heap a with
  | .free => .error .badFree
  | _ => .ok (l.discard a)

/-- From the front: `if (head) head->prev = p;`, with what the list is if there is no head. -/
def linkFirst (l : StdList T) (e : End) (p : Addr) (otherwise : StdList T) : Except Fault (StdList T) :=
  if l.ptr e ≠ 0 then l.setLink (l.ptr e) e p else pure otherwise

/-- From the front: `head = newNode; if (!tail) tail = newNode; ++list_size;`. -/
def enter (l : StdList T) (e : End) (newNode : Addr) : StdList T :=
  let l := l.setPtr e newNode
  let l := if l.ptr e.other = 0 then l.setPtr e.other newNode else l
  l.setSize (l.listSize + 1)

/-- `push_front` and `push_back`. If the copy of the value throws, the node is given back. -/
def push (e : End) (l : StdList T) (value : T) (newNode : Addr) (throws : Bool) : Except Fault (StdList T) := do
  let l := l.allocate newNode
  if throws then l.deallocate newNode
  else
    let l := l.setCell newNode (.node ⟨value, 0, 0⟩)
    let l ← l.setLink newNode e.other (l.ptr e)
    let l ← l.linkFirst e newNode l
    pure (l.enter e newNode)

def pop (e : End) (l : StdList T) : Except Fault (StdList T) :=
  if l.ptr e = 0 then pure l
  else do
    let temp := l.ptr e
    let n ← l.deref temp
    let l := l.setPtr e (n.link e.other)
    let l ← l.linkFirst e 0 (l.setPtr e.other 0)
    let l ← (l.setCell temp .raw).deallocate temp
    pure (l.setSize (l.listSize - 1))

def pushFront (l : StdList T) := push .front l
def pushBack (l : StdList T) := push .back l
def popFront (l : StdList T) := pop .front l
def popBack (l : StdList T) := pop .back l

def size (l : StdList T) : BitVec 64 := l.listSize

/-- More iterations than there are addresses: a loop over the nodes that takes longer never ends. -/
def maxSteps : Nat := 2 ^ 64

def clearLoop : Nat → StdList T → Except Fault (StdList T)
  | 0, _ => .error .diverges
  | fuel + 1, l =>
    if l.head = 0 then pure l
    else do
      let l ← l.popFront
      clearLoop fuel l

def clear (l : StdList T) : Except Fault (StdList T) := clearLoop maxSteps l

def iterateFrom (l : StdList T) : Nat → Addr → Except Fault (List T)
  | 0, _ => .error .diverges
  | fuel + 1, current =>
    if current = 0 then pure []
    else do
      let n ← l.deref current
      let rest ← l.iterateFrom fuel n.next
      pure (n.data :: rest)

/-- `for (T& x : list)`. -/
def iterate (l : StdList T) : Except Fault (List T) := l.iterateFrom maxSteps l.head

/-- A fresh list, with no cell in use. -/
def empty : StdList T := ⟨0, 0, 0, fun _ => .free, [], []⟩

end StdList

end JavaScriptOS.Libcppk
