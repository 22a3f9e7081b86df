import JavaScriptOS.Heap.Steps
import JavaScriptOS.Lib.Reach

/-!
# Runs of `kmalloc` and `kfree`

Clients allocate, free what they hold and write into it. The layout survives every call that
finds a free block when it looks for one and whose unlinking stays clear of headers and footers;
then no two live allocations overlap.
-/

namespace JavaScriptOS.Heap
open JavaScriptOS.Lib

/-- The heap, the live allocations, and what `kmalloc` has returned so far, the last result first. -/
structure HeapRun where
  heap : Kheap
  live : List Alloc
  returned : List (Option Nat)

inductive HeapCall where
  | kmalloc (n : Nat)
  | kfree (a : Alloc)
  | write (x v : Nat)

def HeapRun.step (addr : Nat) (r : HeapRun) : HeapCall → Except HeapFault HeapRun
  | .kmalloc n => do
    match ← kmalloc addr r.heap n with
    | (none, h) => return { r with heap := h, returned := none :: r.returned }
    | (some p, h) =>
      return { heap := h, live := ⟨p, sizeBits (word16 h.kmem (p - 2))⟩ :: r.live,
               returned := some p :: r.returned }
  | .kfree a => do
    let h ← kfree addr r.heap (some a.ptr)
    return { r with heap := h, live := r.live.erase a }
  | .write x v =>
    .ok { r with heap := { r.heap with kmem := fun y => if y = x then v % 256 else r.heap.kmem y } }

/-- `kmem` as the loader leaves it. -/
def zeroHeap : Kheap := ⟨fun _ => 0, some 0, 0⟩

/-- The heap that `init_kheap` makes of it. -/
def bootRun : HeapRun :=
  ⟨{ zeroHeap with kmem := setWord16 (setWord16 (setWord16 (fun _ => 0) 0 65532) 2 0) 4 0 }, [], []⟩

/-- The state after `init_kheap` on zeroed memory. -/
def Booted (r : HeapRun) : Prop :=
  initKheap zeroHeap = .ok r.heap ∧ r.live = [] ∧ r.returned = []

lemma booted_bootRun : Booted bootRun := ⟨rfl, rfl, rfl⟩

lemma Booted.eq {r : HeapRun} (hr : Booted r) : r = bootRun := by
  obtain ⟨heap, live, returned⟩ := r
  obtain ⟨hinit, rfl, rfl⟩ := hr
  cases hinit
  rfl

/-- The states reached from `init_kheap` by calls that satisfy `Ok` in the state they are made in. -/
abbrev HeapReach (addr : Nat) (Ok : HeapRun → HeapCall → Prop) : HeapRun → Prop :=
  Reach Booted (HeapRun.step addr) Ok

/-- Clients free what they hold, and do not write. -/
def Quiet (r : HeapRun) : HeapCall → Prop
  | .kmalloc _ => True
  | .kfree a => a ∈ r.live
  | .write _ _ => False

instance (r : HeapRun) (c : HeapCall) : Decidable (Quiet r c) :=
  match c with
  | .kmalloc _ => .isTrue trivial
  | .kfree a => inferInstanceAs (Decidable (a ∈ r.live))
  | .write _ _ => .isFalse id

/-- The recorded extents of two allocations do not meet. -/
def Alloc.Apart (a b : Alloc) : Prop :=
  a.ptr - 2 + a.size ≤ b.ptr - 2 ∨ b.ptr - 2 + b.size ≤ a.ptr - 2

instance (a b : Alloc) : Decidable (a.Apart b) := inferInstanceAs (Decidable (_ ∨ _))

def DisjointLive (live : List Alloc) : Prop := live.Pairwise Alloc.Apart

instance (live : List Alloc) : Decidable (DisjointLive live) :=
  inferInstanceAs (Decidable (live.Pairwise _))

section Conditions

/-- What a search for `need` bytes meets: the head of the list is free, `next` leads from a free block
to a free block or to 0, a block that is large enough can be unlinked, and block 0 is free or too
small. -/
@[mk_iff]
structure ListClosed (h : Kheap) (live : List Alloc) (need : Nat) : Prop where
  head : ∀ b ∈ h.freelist, FreeStart live b
  next : ∀ b, FreeStart live b → word16 h.kmem (b + 4) = 0 ∨ FreeStart live (word16 h.kmem (b + 4))
  prev : ∀ b e, Gap live b e → need ≤ e - b → LinkOk live (word16 h.kmem (b + 2)) 4
  zero : need ≤ sizeBits (word16 h.kmem 0) → FreeStart live 0

/-- A request that is not refused at once finds a free list, and one that is closed. -/
def KmallocOk (h : Kheap) (live : List Alloc) (n : Nat) : Prop :=
  0 < n → n ≤ maxAlloc → h.freelist ≠ none ∧ ListClosed h live (roundSize n + 2)

/-- No request of at most 4 bytes splits a block. -/
def SplitsWhole (live : List Alloc) (n : Nat) : Prop :=
  0 < n → n ≤ maxAlloc → 4 < n ∨ ∀ b e, Gap live b e → e - b < 14

/-- The freed block is not the last one, neither it nor a neighbour comes from a split for at most
4 bytes, and free neighbours can be unlinked. -/
@[mk_iff]
structure KfreeOk (m : Nat → Nat) (live : List Alloc) (a : Alloc) : Prop where
  held : a ∈ live
  large : a.size ≠ 4
  inner : a.stop ≠ 65532
  beside : ∀ c ∈ live, c.size = 4 → c.stop ≠ a.start ∧ c.start ≠ a.stop
  links : ∀ b e, Gap live b e → e = a.start ∨ b = a.stop → LinksOk m live b

/-- `x` lies in a live allocation, behind its header. -/
def InPayload (live : List Alloc) (x : Nat) : Prop := ∃ a ∈ live, a.ptr ≤ x ∧ x < a.ptr - 2 + a.size

def CallOk (r : HeapRun) : HeapCall → Prop
  | .kmalloc n => KmallocOk r.heap r.live n
  | .kfree a => KfreeOk r.heap.kmem r.live a
  | .write x _ => InPayload r.live x

instance (h : Kheap) (live : List Alloc) (need : Nat) : Decidable (ListClosed h live need) :=
  decidable_of_iff _ (listClosed_iff h live need).symm

instance (h : Kheap) (live : List Alloc) (n : Nat) : Decidable (KmallocOk h live n) :=
  inferInstanceAs (Decidable (0 < n → n ≤ maxAlloc → h.freelist ≠ none ∧ ListClosed h live (roundSize n + 2)))

instance (live : List Alloc) (n : Nat) : Decidable (SplitsWhole live n) :=
  inferInstanceAs (Decidable (0 < n → n ≤ maxAlloc → 4 < n ∨ ∀ b e, Gap live b e → e - b < 14))

instance (m : Nat → Nat) (live : List Alloc) (a : Alloc) : Decidable (KfreeOk m live a) :=
  decidable_of_iff _ (kfreeOk_iff m live a).symm

instance (live : List Alloc) (x : Nat) : Decidable (InPayload live x) :=
  inferInstanceAs (Decidable (∃ a ∈ live, a.ptr ≤ x ∧ x < a.ptr - 2 + a.size))

instance (r : HeapRun) (c : HeapCall) : Decidable (CallOk r c) :=
  match c with
  | .kmalloc n => inferInstanceAs (Decidable (KmallocOk r.heap r.live n))
  | .kfree a => inferInstanceAs (Decidable (KfreeOk r.heap.kmem r.live a))
  | .write x _ => inferInstanceAs (Decidable (InPayload r.live x))

end Conditions

variable {addr need fuel cur n : Nat} {h : Kheap} {r : HeapRun} {live : List Alloc} {L : List Region}

lemma findSuitable_zero (fuel : Nat) (h : Kheap) (need : Nat) : findSuitable (fuel + 1) h need 0 =
    .ok (if need ≤ sizeBits (word16 h.kmem 0) then some 0 else none) := by
  by_cases hfit : need ≤ sizeBits (word16 h.kmem 0)
  · rw [if_pos hfit, findSuitable_of_fit fuel (by decide) hfit]
  · rw [if_neg hfit, findSuitable_of_zero fuel hfit]

/-- A search over a closed list goes round for ever, finds nothing, or finds a free block that is
large enough. -/
lemma ListClosed.search (hc : ListClosed h live need) (hI : HeapInv h.kmem live L) (fuel : Nat)
    (hcur : cur = 0 ∨ FreeStart live cur) :
    findSuitable fuel h need cur = .error .diverges ∨ findSuitable fuel h need cur = .ok none ∨
      ∃ b, findSuitable fuel h need cur = .ok (some b) ∧ need ≤ sizeBits (word16 h.kmem b) ∧
        FreeStart live b ∧ LinksOk h.kmem live b := by
  induction fuel generalizing cur with
  | zero => exact Or.inl rfl
  | succ fuel ih =>
    have hin : cur + 8 ≤ 65532 := by
      rcases hcur with rfl | hfree
      · decide
      · exact hI.freeStart_end hfree
    by_cases hfit : need ≤ sizeBits (word16 h.kmem cur)
    · have hfree : FreeStart live cur := by
        rcases hcur with rfl | hfree
        · exact hc.zero hfit
        · exact hfree
      refine Or.inr (Or.inr ⟨cur, findSuitable_of_fit fuel (by omega) hfit, hfit, hfree, ?_, ?_⟩)
      · obtain ⟨pre, size, post, rfl, rfl⟩ := hI.freeStart_iff.mp hfree
        rw [hI.layout.free_at.header] at hfit
        exact hc.prev _ _ hI.gap_of_free (by omega)
      · exact (hc.next cur hfree).imp_right Or.inl
    · by_cases h0 : cur = 0
      · subst h0
        exact Or.inr (Or.inl (findSuitable_of_zero fuel hfit))
      · rw [findSuitable_of_link fuel (by omega) hfit h0]
        exact ih (hc.next cur (hcur.resolve_left h0))

lemma kmalloc_refused (addr : Nat) (h : Kheap) (hbad : n = 0 ∨ maxAlloc < n) :
    kmalloc addr h n = .ok (none, h) := by
  rw [kmalloc, if_pos hbad]
  rfl

lemma kmalloc_none (addr : Nat) {head : Nat} (hgood : ¬(n = 0 ∨ maxAlloc < n))
    (hhead : h.freelist = some head) (hin : head + 6 ≤ 65535)
    (hfind : findSuitable 65536 h (roundSize n + 2) (word16 h.kmem (head + 4)) = .ok none) :
    kmalloc addr h n = .ok (none, h) := by
  rw [kmalloc_of_search addr hgood hhead (read_ok (by omega)) hfind]
  rfl

lemma kmalloc_diverges (addr : Nat) {head : Nat} (hgood : ¬(n = 0 ∨ maxAlloc < n))
    (hhead : h.freelist = some head) (hin : head + 6 ≤ 65535)
    (hfind : findSuitable 65536 h (roundSize n + 2) (word16 h.kmem (head + 4)) = .error .diverges) :
    kmalloc addr h n = .error .diverges := by
  rw [kmalloc, if_neg hgood, hhead]
  dsimp only
  rw [read_ok (by omega), ok_bind, hfind]
  rfl

/-- The search has found the free region after `pre`. -/
lemma kmalloc_some (addr : Nat) {pre post : List Region} {head size : Nat}
    (hI : HeapInv h.kmem live (pre ++ ⟨size, .free⟩ :: post)) (hgood : ¬(n = 0 ∨ maxAlloc < n))
    (hhead : h.freelist = some head) (hin : head + 6 ≤ 65535)
    (hfind : findSuitable 65536 h (roundSize n + 2) (word16 h.kmem (head + 4)) = .ok (some (extent pre)))
    (hl : LinksOk h.kmem live (extent pre)) (hfit : roundSize n + 2 ≤ size) :
    ∃ a h' L', kmalloc addr h n = .ok (some (a + 2), h') ∧
      Placed addr h h' pre post size (roundSize n) a L' ∧
      h'.bytesAllocated = (h.bytesAllocated + sizeBits (word16 h'.kmem a)) % 65536 ∧
      HeapInv h'.kmem (⟨a + 2, sizeBits (word16 h'.kmem a)⟩ :: live) L' := by
  obtain ⟨a, h', L', hplace, hP, hbytes, hI'⟩ := place_step addr hI hl (roundSize_cases n) hfit
  refine ⟨a, h', L', ?_, hP, hbytes, hI'⟩
  rw [kmalloc_of_search addr hgood hhead (read_ok (by omega)) hfind, Option.elim_some, hplace]
  rfl

/-- How a request ends that meets a closed list: it goes round for ever, is refused, or is placed in
a free region. -/
inductive Served (addr : Nat) (h : Kheap) (live : List Alloc) (L : List Region) (n : Nat) :
    Except HeapFault (Option Nat × Kheap) → Prop
  | diverges : Served addr h live L n (.error .diverges)
  | refused : Served addr h live L n (.ok (none, h))
  | placed {pre post L' : List Region} {size a : Nat} {h' : Kheap} (region : L = pre ++ ⟨size, .free⟩ :: post)
      (fit : roundSize n + 2 ≤ size) (links : LinksOk h.kmem live (extent pre))
      (place : Placed addr h h' pre post size (roundSize n) a L')
      (count : h'.bytesAllocated = (h.bytesAllocated + sizeBits (word16 h'.kmem a)) % 65536)
      (inv : HeapInv h'.kmem (⟨a + 2, sizeBits (word16 h'.kmem a)⟩ :: live) L') :
      Served addr h live L n (.ok (some (a + 2), h'))

lemma kmalloc_served (addr : Nat) (hI : HeapInv h.kmem live L) (hok : KmallocOk h live n) :
    Served addr h live L n (kmalloc addr h n) := by
  by_cases hbad : n = 0 ∨ maxAlloc < n
  · rw [kmalloc_refused addr h hbad]
    exact .refused
  obtain ⟨hlisted, hc⟩ := hok (by omega) (by omega)
  obtain ⟨head, hhead⟩ := Option.ne_none_iff_exists'.mp hlisted
  have hfree := hc.head head hhead
  have hin := hI.freeStart_end hfree
  rcases hc.search hI 65536 (hc.next head hfree) with hfind | hfind | ⟨b, hfind, hfit, hstart, hl⟩
  · rw [kmalloc_diverges addr hbad hhead (by omega) hfind]
    exact .diverges
  · rw [kmalloc_none addr hbad hhead (by omega) hfind]
    exact .refused
  · obtain ⟨pre, size, post, rfl, rfl⟩ := hI.freeStart_iff.mp hstart
    rw [hI.layout.free_at.header] at hfit
    obtain ⟨a, h', L', hrun, hP, hbytes, hI'⟩ := kmalloc_some addr hI hbad hhead (by omega) hfind hl hfit
    rw [hrun]
    exact .placed rfl hfit hl hP hbytes hI'

/-- A call runs and keeps the layout, or its search goes round for ever. -/
inductive Keeps (addr : Nat) (r : HeapRun) (c : HeapCall) : Prop
  | diverges (run : r.step addr c = .error .diverges)
  | runs (r' : HeapRun) (L : List Region) (run : r.step addr c = .ok r') (inv : HeapInv r'.heap.kmem r'.live L)

lemma step_of_kmalloc_none {h' : Kheap} (hrun : kmalloc addr r.heap n = .ok (none, h')) :
    r.step addr (.kmalloc n) = .ok { r with heap := h', returned := none :: r.returned } := by
  rw [HeapRun.step, hrun]
  rfl

lemma step_of_kmalloc_some {p : Nat} {h' : Kheap} (hrun : kmalloc addr r.heap n = .ok (some p, h')) :
    r.step addr (.kmalloc n) = .ok
      ⟨h', ⟨p, sizeBits (word16 h'.kmem (p - 2))⟩ :: r.live, some p :: r.returned⟩ := by
  rw [HeapRun.step, hrun]
  rfl

lemma step_of_kmalloc_error {f : HeapFault} (hrun : kmalloc addr r.heap n = .error f) :
    r.step addr (.kmalloc n) = .error f := by
  rw [HeapRun.step, hrun]
  rfl

lemma kmalloc_keeps (addr : Nat) (hI : HeapInv r.heap.kmem r.live L) (hok : KmallocOk r.heap r.live n) :
    Keeps addr r (.kmalloc n) := by
  obtain ⟨out, hrun⟩ : ∃ out, kmalloc addr r.heap n = out := ⟨_, rfl⟩
  have hserved := kmalloc_served addr hI hok
  rw [hrun] at hserved
  cases hserved with
  | diverges => exact .diverges (step_of_kmalloc_error hrun)
  | refused => exact .runs _ L (step_of_kmalloc_none hrun) hI
  | placed _ _ _ _ _ hI' => exact .runs _ _ (step_of_kmalloc_some hrun) hI'

/-- A live allocation not recorded with size 4 is a used region. -/
lemma HeapInv.used_of_live {m : Nat → Nat} {a : Alloc} (hI : HeapInv m live L) (ha : a ∈ live)
    (h4 : a.size ≠ 4) : ∃ pre post, L = pre ++ ⟨a.size, .used⟩ :: post ∧ a.ptr = extent pre + 2 := by
  obtain ⟨pre, ⟨size, kind⟩, post, hL, hs⟩ := hI.mem_live.mp ha
  cases kind with
  | free => cases hs
  | used =>
    cases hs
    exact ⟨pre, post, hL, rfl⟩
  | small =>
    cases hs
    exact absurd rfl h4

/-- A `small` region is a live allocation recorded with size 4. -/
lemma HeapInv.live_of_small {m : Nat → Nat} {pre post : List Region} {size : Nat}
    (hI : HeapInv m live (pre ++ ⟨size, .small⟩ :: post)) :
    ∃ c ∈ live, c.size = 4 ∧ c.start = extent pre ∧ c.stop = extent pre + size := by
  have hbounds := allocOf_bounds hI.layout.at_split (a := ⟨extent pre + 4, 4⟩) rfl
  exact ⟨⟨extent pre + 4, 4⟩, hI.mem_live.mpr ⟨pre, _, post, rfl, rfl⟩, rfl, hbounds⟩

lemma Alloc.start_eq {a : Alloc} {p : Nat} (h4 : a.size ≠ 4) (hp : a.ptr = p + 2) : a.start = p := by
  unfold Alloc.start
  rw [if_neg h4]
  omega

lemma Alloc.stop_eq {a : Alloc} {p : Nat} (h4 : a.size ≠ 4) (hp : a.ptr = p + 2) :
    a.stop = p + a.size := by
  unfold Alloc.stop
  rw [if_neg h4]
  omega

/-- The region before one is not `small` if no allocation recorded with size 4 ends there. -/
lemma HeapInv.left_not_small {m : Nat → Nat} {pre post : List Region} (hI : HeapInv m live (pre ++ post))
    (hbeside : ∀ c ∈ live, c.size = 4 → c.stop ≠ extent pre) : leftKind (lastOr none pre) ≠ .small := by
  rcases List.eq_nil_or_concat pre with rfl | ⟨pre', ⟨size, kind⟩, rfl⟩
  · exact fun hk => by cases hk
  · rw [List.concat_eq_append, lastOr_concat]
    intro hk
    change kind = .small at hk
    subst hk
    rw [List.concat_eq_append, List.append_assoc, List.singleton_append] at hI
    obtain ⟨c, hc, hc4, -, hcs⟩ := hI.live_of_small
    apply hbeside c hc hc4
    rw [hcs, List.concat_eq_append, extent_append, extent_cons, extent_nil, Nat.add_zero]

/-- What may be freed is a used region with a right neighbour, away from `small` regions. -/
lemma HeapInv.kfree_split {m : Nat → Nat} {a : Alloc} (hI : HeapInv m live L) (hok : KfreeOk m live a) :
    ∃ pre s post, L = pre ++ ⟨a.size, .used⟩ :: s :: post ∧ a.ptr = extent pre + 2 ∧
      leftKind (lastOr none pre) ≠ .small ∧ s.kind ≠ .small := by
  obtain ⟨pre, post, rfl, hptr⟩ := hI.used_of_live hok.held hok.large
  have hstart := Alloc.start_eq hok.large hptr
  have hstop := Alloc.stop_eq hok.large hptr
  obtain ⟨s, post, rfl⟩ : ∃ s post', post = s :: post' := by
    apply List.exists_cons_of_ne_nil
    rintro rfl
    have := hI.layout.extent_eq
    rw [extent_append, extent_cons, extent_nil] at this
    exact hok.inner (hstop.trans this)
  refine ⟨pre, s, post, rfl, hptr, ?_, ?_⟩
  · apply hI.left_not_small
    rw [← hstart]
    exact fun c hc hc4 => (hok.beside c hc hc4).1
  · obtain ⟨size, kind⟩ := s
    rintro rfl
    rw [append_cons_eq] at hI
    obtain ⟨c, hc, hc4, hcs, -⟩ := hI.live_of_small
    apply (hok.beside c hc hc4).2
    rw [hcs, hstop, extent_append, extent_cons, extent_nil, Nat.add_zero]

lemma kfree_some (addr : Nat) {a : Alloc} {pre post : List Region} {s : Region}
    (hI : HeapInv r.heap.kmem r.live (pre ++ ⟨a.size, .used⟩ :: s :: post)) (hptr : a.ptr = extent pre + 2)
    (hleft : leftKind (lastOr none pre) ≠ .small) (hright : s.kind ≠ .small)
    (hlinks : ∀ b e, Gap r.live b e → e = a.start ∨ b = a.stop → LinksOk r.heap.kmem r.live b) :
    ∃ h0 h' pre' mid post', r.step addr (.kfree a) = .ok { r with heap := h', live := r.live.erase a } ∧
      h0.kmem = r.heap.kmem ∧ h0.freelist = r.heap.freelist ∧
      Coalesced addr h0 h' a.size pre (s :: post) pre' mid post' ∧
      HeapInv h'.kmem (r.live.erase a) (pre' ++ [⟨extent mid, .free⟩] ++ post') := by
  have h8 := hI.layout.size_ok.2
  dsimp only at h8
  have ha : a = ⟨extent pre + 2, a.size⟩ := by rw [← hptr]
  rw [Alloc.start_eq (by omega) hptr, Alloc.stop_eq (by omega) hptr] at hlinks
  obtain ⟨h0, h', pre', mid, post', hrun, -, hkmem, hhead, hC, hI'⟩ := kfree_coalesced addr hI hleft hright hlinks
  rw [← ha] at hI'
  refine ⟨h0, h', pre', mid, post', ?_, hkmem, hhead, hC, hI'⟩
  simp only [HeapRun.step, bind, Except.bind]
  rw [hptr, hrun]
  rfl

lemma kfree_step (addr : Nat) {a : Alloc} (hI : HeapInv r.heap.kmem r.live L)
    (hok : KfreeOk r.heap.kmem r.live a) :
    ∃ r' L', r.step addr (.kfree a) = .ok r' ∧ HeapInv r'.heap.kmem r'.live L' := by
  obtain ⟨pre, s, post, rfl, hptr, hleft, hright⟩ := hI.kfree_split hok
  obtain ⟨-, h', pre', mid, post', hrun, -, -, -, hI'⟩ := kfree_some addr hI hptr hleft hright hok.links
  exact ⟨_, _, hrun, hI'⟩

/-- No byte of the allocator lies in a payload. -/
lemma HeapInv.not_metaByte_of_payload {m : Nat → Nat} {x : Nat} (hI : HeapInv m live L)
    (hx : InPayload live x) : ¬MetaByte live x := by
  obtain ⟨a, ha, hlo, hhi⟩ := hx
  obtain ⟨pre, s, post, hL, hs⟩ := hI.mem_live.mp ha
  have hat := (hL ▸ hI.layout).at_split
  have hin : a.start ≤ x ∧ x < a.stop := by
    unfold Alloc.start Alloc.stop
    by_cases h4 : a.size = 4
    · rw [if_pos h4, if_pos h4]
      omega
    · rw [if_neg h4, if_neg h4]
      omega
  have hbounds := allocOf_bounds hat hs
  rintro (⟨c, hc, hc4, hcx⟩ | ⟨b, e, hg, hbx⟩)
  · obtain ⟨pre', post', hL', hptr⟩ := hI.used_of_live hc hc4
    have h8 := (hL' ▸ hI.layout).size_ok.2
    dsimp only at h8
    obtain ⟨rfl, rfl, -⟩ := block_unique (x := x) (hL.symm.trans hL') (by omega)
      ⟨by omega, by dsimp only; omega⟩
    cases hs
    dsimp only at hlo
    omega
  · obtain ⟨pre', post', hL', hpre'⟩ := hI.free_of_gap hg
    have h8 := (hL' ▸ hI.layout).size_ok.2
    have hlt := hg.lt
    dsimp only at h8
    exact hg.empty x (by omega) (by omega) ⟨a, ha, hin⟩

lemma write_step (addr v : Nat) {x : Nat} (hI : HeapInv r.heap.kmem r.live L) (hx : InPayload r.live x) :
    ∃ r', r.step addr (.write x v) = .ok r' ∧ HeapInv r'.heap.kmem r'.live L := by
  refine ⟨_, rfl, hI.layout.frame fun y hy => ?_, hI.live_perm⟩
  have hne : y ≠ x := by
    rintro rfl
    exact hI.not_metaByte_of_payload hx (hI.metaByte_of_hard hy)
  exact if_neg hne

lemma heapInv_boot : HeapInv bootRun.heap.kmem [] [⟨65532, .free⟩] := by
  refine ⟨⟨⟨⟨⟨rfl, by decide⟩, ?_⟩, trivial⟩, rfl⟩, List.Perm.refl _⟩
  exact ⟨rfl, rfl, fun hlt => absurd hlt (by decide), by decide⟩

lemma callOk_keeps (addr : Nat) (hI : HeapInv r.heap.kmem r.live L) {c : HeapCall} (hok : CallOk r c) :
    Keeps addr r c := by
  cases c with
  | kmalloc n => exact kmalloc_keeps addr hI hok
  | kfree a =>
    obtain ⟨r', L', hrun, hI'⟩ := kfree_step addr hI hok
    exact .runs r' L' hrun hI'
  | write x v =>
    obtain ⟨r', hrun, hI'⟩ := write_step addr v hI hok
    exact .runs r' L hrun hI'

lemma Keeps.inv {r' : HeapRun} {c : HeapCall} (hk : Keeps addr r c) (hrun : r.step addr c = .ok r') :
    ∃ L, HeapInv r'.heap.kmem r'.live L := by
  cases hk with
  | diverges hdiv =>
    rw [hdiv] at hrun
    cases hrun
  | runs r1 L hrun1 hI =>
    rw [hrun1] at hrun
    cases hrun
    exact ⟨L, hI⟩

lemma heapInv_of_reach (hr : HeapReach addr CallOk r) : ∃ L, HeapInv r.heap.kmem r.live L := by
  refine hr.preserved (P := fun r => ∃ L, HeapInv r.heap.kmem r.live L) (fun s hs => ?_)
    (fun s c s' hinv hok hrun => ?_)
  · rw [hs.eq]
    exact ⟨_, heapInv_boot⟩
  · obtain ⟨L, hI⟩ := hinv
    exact (callOk_keeps addr hI hok).inv hrun

/-- Regions in order have their extents in order. -/
lemma pairwise_allocsOf {m : Nat → Nat} {left : Option Region} {p : Nat}
    (hL : Tiled (RegionOk m) left p L) : (allocsOf p L).Pairwise Alloc.Apart ∧
      ∀ a ∈ allocsOf p L, p + 2 ≤ a.ptr := by
  induction L generalizing left p with
  | nil => exact ⟨List.Pairwise.nil, by simp [allocsOf]⟩
  | cons s L ih =>
    obtain ⟨⟨⟨-, h8⟩, hk⟩, hL⟩ := hL
    obtain ⟨hpair, hle⟩ := ih hL
    obtain ⟨size, kind⟩ := s
    dsimp only at h8 hk hle
    cases kind with
    | free => exact ⟨hpair, fun a ha => by have := hle a ha; omega⟩
    | used =>
      refine ⟨List.pairwise_cons.mpr ⟨fun b hb => ?_, hpair⟩, List.forall_mem_cons.mpr ⟨?_, ?_⟩⟩
      · have := hle b hb
        left
        dsimp only
        omega
      · exact Nat.le_refl _
      · intro a ha
        have := hle a ha
        omega
    | small =>
      refine ⟨List.pairwise_cons.mpr ⟨fun b hb => ?_, hpair⟩, List.forall_mem_cons.mpr ⟨?_, ?_⟩⟩
      · have := hle b hb
        left
        dsimp only
        omega
      · dsimp only
        omega
      · intro a ha
        have := hle a ha
        omega

lemma Alloc.Apart.symm {a b : Alloc} (h : a.Apart b) : b.Apart a := Or.symm h

lemma HeapInv.disjointLive {m : Nat → Nat} (hI : HeapInv m live L) : DisjointLive live :=
  (hI.live_perm.pairwise_iff Alloc.Apart.symm).mpr (pairwise_allocsOf hI.layout.tiled).1

/-- Calls that meet a closed list keep the live allocations apart, and fault nowhere; only the search
may go round for ever. -/
theorem liveAllocs_disjoint (addr : Nat) (r : HeapRun) (hr : HeapReach addr CallOk r) :
    DisjointLive r.live ∧
      ∀ c, CallOk r c → (∃ r', r.step addr c = .ok r') ∨ r.step addr c = .error .diverges := by
  obtain ⟨L, hI⟩ := heapInv_of_reach hr
  refine ⟨hI.disjointLive, fun c hok => ?_⟩
  cases callOk_keeps addr hI hok with
  | diverges hrun => exact Or.inr hrun
  | runs r' L' hrun hI' => exact Or.inl ⟨r', hrun⟩

/-- Of three blocks one is freed, then its neighbour, which is merged with the free blocks on both sides; two
more requests take from the merged block. -/
theorem liveAllocs_disjoint_merged : ∃ r, HeapReach 0x100000 CallOk r ∧
    r.live = [⟨65506, 8⟩, ⟨65514, 12⟩, ⟨65526, 8⟩] ∧ DisjointLive r.live := by
  have hplay : (play (HeapRun.step 0x100000) CallOk bootRun [.kmalloc 8, .kmalloc 24, .kmalloc 16,
      .kfree ⟨65502, 24⟩, .kfree ⟨65486, 16⟩, .kmalloc 12, .kmalloc 8]).any
      (fun r => decide (r.live = [⟨65506, 8⟩, ⟨65514, 12⟩, ⟨65526, 8⟩])) = true := by
    decide +kernel
  obtain ⟨r, hrun, hlive⟩ := (Option.any_eq_true _ _).mp hplay
  have hr := (Reach.init booted_bootRun).play hrun
  exact ⟨r, hr, of_decide_eq_true hlive, (liveAllocs_disjoint 0x100000 r hr).1⟩

/-- The third block covers the heap from its start, so a later search that ends at index 0 takes
the last 8 bytes of it. -/
theorem kmalloc_hands_out_twice :
    ∃ r, HeapReach 0x100000 Quiet r ∧ ¬DisjointLive r.live := by
  have hplay : (play (HeapRun.step 0x100000) Quiet bootRun [.kmalloc 8, .kmalloc 8, .kmalloc 65512,
      .kfree ⟨65518, 8⟩, .kmalloc 8]).any (fun r => decide (¬DisjointLive r.live)) = true := by
    decide +kernel
  obtain ⟨r, hrun, hr⟩ := (Option.any_eq_true _ _).mp hplay
  exact ⟨r, (Reach.init booted_bootRun).play hrun, of_decide_eq_true hr⟩

end JavaScriptOS.Heap
