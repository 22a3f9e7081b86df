import JavaScriptOS.Memory.Paging

/-!
# Mapping pages: `derefpte`, `getaddrpte` and `mappages`

The functions work on the kernel's memory, all of which is mapped, the page at address 0 too, and on the page
allocator. Besides that they keep a log of the pages that `mappages` visits, of what `pmm_alloc` returns and of
the tables that are indexed.
-/

namespace JavaScriptOS.Memory
open JavaScriptOS.Lib

inductive MapEvent where
  | visited (va : Nat)
  | allocated (page : Nat)
  | indexed (table i : Nat)
  deriving DecidableEq

/-- The allocator with the kernel's words, and the events, the latest first. -/
structure VmmState where
  pmm : PmmState
  log : List MapEvent

namespace VmmState

def note (s : VmmState) (e : MapEvent) : VmmState := { s with log := e :: s.log }

def setMem (s : VmmState) (m : Nat → Nat) : VmmState := { s with pmm := { s.pmm with mem := m } }

@[simp] lemma log_note (s : VmmState) (e : MapEvent) : (s.note e).log = e :: s.log := rfl

@[simp] lemma log_setMem (s : VmmState) (m : Nat → Nat) : (s.setMem m).log = s.log := rfl

end VmmState

/-- `__builtin_memset` over one page: the byte is the low byte of `c`. -/
def memsetPage (pt : Nat) (c : Int) (s : VmmState) : VmmState :=
  s.setMem (overwritePage s.pmm.mem pt fun _ => (c % 256).toNat * 0x0101010101010101)

/-- `PTE_LAYER`. -/
def pteLayerBits (x : Int) : Int := x * 512

def derefpte (pte : Nat) (alloc : Bool) (s : VmmState) : Nat × VmmState :=
  if pteP (dword s.pmm.mem pte) = 1 then (p2kv (pteAddr s.pmm.mem pte), s)
  else if !alloc then (0, s)
  else
    let pt := (pmmAlloc s.pmm).1
    let s := { s with pmm := (pmmAlloc s.pmm).2 }.note (.allocated pt)
    if pt = 0 then (0, s)
    else
      let s := memsetPage pt (pteLayerBits (pteLayer (dword s.pmm.mem pte) - 1)) s
      (pt, s.setMem (storePte s.pmm.mem pte 0 (kvaToPteAddr pt)))

/-- `&(*table)[i]`. -/
def indexTable (table i : Nat) (s : VmmState) : Nat × VmmState := (table + pteSize * i, s.note (.indexed table i))

/-- One level of `getaddrpte`: the table that an entry leads to, and the entry in it whose index is read from
the word that `va_ptr` points to. -/
def nextPte (index : Nat → Nat) (pte vaPtr : Nat) (alloc : Bool) (s : VmmState) : Nat × VmmState :=
  let pt := (derefpte pte alloc s).1
  let s := (derefpte pte alloc s).2
  indexTable pt (index (s.pmm.mem vaPtr)) s

def getaddrpte (pml4 vaPtr : Nat) (alloc : Bool) (s : VmmState) : Nat × VmmState :=
  let (pml4e, s) := indexTable pml4 (vaPml4i (s.pmm.mem vaPtr)) s
  let (pdpte, s) := nextPte vaPdpti pml4e vaPtr alloc s
  if pteLarge (dword s.pmm.mem pdpte) = 1 then (pdpte, s)
  else
    let (pde, s) := nextPte vaPdi pdpte vaPtr alloc s
    if pteLarge (dword s.pmm.mem pde) = 1 then (pde, s)
    else nextPte vaPti pde vaPtr alloc s

/-- Assignment to a bit-field that lies in the four bytes at `a`. -/
def assignField (a lo width v : Nat) (m : Nat → Nat) : Nat → Nat := setDword m a (setBitField (dword m a) lo width v)

/-- The body of the loop of `mappages` once the entry is found. -/
def fillPte (pte pa w u : Nat) (s : VmmState) : VmmState :=
  let m := assignField pte 1 1 w s.pmm.mem
  let m := assignField pte 2 1 u m
  let m := assignField (pte + 4) 0 28 (paToPteAddr pa) m
  s.setMem (assignField pte 0 1 1 m)

/-- The loop of `mappages` from `va`, for at most `fuel` tests of its condition. The result is the returned
`boolean`, which is true on failure. -/
def mappagesFrom : (fuel pml4 va lastPage pa w u : Nat) → VmmState → Option Bool × VmmState
  | 0, _, _, _, _, _, _, s => (none, s)
  | fuel + 1, pml4, va, lastPage, pa, w, u, s =>
    if va ≤ lastPage then
      let (pte, s) := getaddrpte pml4 va true (s.note (.visited va))
      if pte = 0 then (some true, s)
      else mappagesFrom fuel pml4 ((va + pgsize) % 2 ^ 64) lastPage ((pa + pgsize) % 2 ^ 64) w u (fillPte pte pa w u s)
    else (some false, s)

/-- `last_page`, in 64-bit arithmetic. -/
def lastPage (va size : Nat) : Nat := pgRoundDown ((va + size + (2 ^ 64 - 1)) % 2 ^ 64)

def mappages (fuel pml4 va size pa w u : Nat) (s : VmmState) : Option Bool × VmmState :=
  mappagesFrom fuel pml4 (pgRoundDown va) (lastPage va size) pa w u s

end JavaScriptOS.Memory
