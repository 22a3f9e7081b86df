import JavaScriptOS.Heap.Runs

/-!
# The heap used as a stack

`insert_into_free_list` leaves the `prev` of the old head alone, so a second free block puts the list out
of order. A client that frees its blocks in the reverse order of their allocation never makes a second
free block: the rest of the heap stays one free block at its start. Then the heap is right, for a `kmem`
whose address is a multiple of 65536.
-/

namespace JavaScriptOS.Heap
open JavaScriptOS.Lib

/-- The bytes that are in no live block. -/
def room (live : List Alloc) : Nat := 65532 - (live.map Alloc.size).sum

/-- The latest block is freed first and the oldest one not at all. Requests of 1 to 4 bytes are left out,
and so is a request that takes the last free bytes whole. -/
def Lifo (r : HeapRun) : HeapCall → Prop
  | .kmalloc n => n = 0 ∨ 5 ≤ n ∧ roundSize n + 4 ≠ room r.live
  | .kfree a => ∃ b rest, r.live = a :: b :: rest
  | .write x _ => InPayload r.live x

/-- The pointer a stack returns for a request. -/
def stackResult (live : List Alloc) (n : Nat) : Option Nat :=
  if n = 0 ∨ maxAlloc < n ∨ room live < roundSize n + 2 then none else some (room live - roundSize n + 2)

/-- What a call does to the live blocks of a stack. -/
def stackLive (live : List Alloc) : HeapCall → List Alloc
  | .kmalloc n => ((stackResult live n).map (Alloc.mk · (roundSize n))).toList ++ live
  | .kfree _ => live.tail
  | .write _ _ => live

def stackReturned (r : HeapRun) : HeapCall → List (Option Nat)
  | .kmalloc n => stackResult r.live n :: r.returned
  | .kfree _ => r.returned
  | .write _ _ => r.returned

lemma room_cons (a : Alloc) (live : List Alloc) : room (a :: live) = room live - a.size := by
  unfold room
  rw [List.map_cons, List.sum_cons]
  omega

section Invariant

/-- One free block at the start, and the live blocks behind it, the latest first. -/
structure StackInv (r : HeapRun) (used : List Region) : Prop where
  heap : HeapInv r.heap.kmem r.live (⟨room r.live, .free⟩ :: used)
  live_eq : r.live = allocsOf (room r.live) used
  used_kind : ∀ s ∈ used, s.kind = .used
  head : r.heap.freelist = some 0
  prev : word16 r.heap.kmem 2 = 0
  next : word16 r.heap.kmem 4 = 0
  bytes : r.heap.bytesAllocated = (r.live.map Alloc.size).sum

variable {addr n x : Nat} {r : HeapRun} {used : List Region}

lemma sum_size_allocsOf (hk : ∀ s ∈ used, s.kind = .used) (p : Nat) :
    ((allocsOf p used).map Alloc.size).sum = extent used := by
  induction used generalizing p with
  | nil => rfl
  | cons s used ih =>
    obtain ⟨size, kind⟩ := s
    have hkind : kind = .used := hk _ List.mem_cons_self
    subst hkind
    have hrest := ih (fun t ht => hk t (List.mem_cons_of_mem _ ht)) (p + size)
    simp only [allocsOf, allocOf, Option.toList_some, List.singleton_append, List.map_cons, List.sum_cons,
      extent_cons, hrest]

lemma stackInv_boot : StackInv bootRun [] where
  heap := heapInv_boot
  live_eq := rfl
  used_kind := fun s hs => by cases hs
  head := rfl
  prev := rfl
  next := rfl
  bytes := rfl

namespace StackInv

lemma layout (hS : StackInv r used) : Layout r.heap.kmem ([] ++ ⟨room r.live, .free⟩ :: used) :=
  hS.heap.layout

lemma room_size (hS : StackInv r used) : room r.live % 4 = 0 ∧ 8 ≤ room r.live := hS.layout.size_ok

lemma room_add_sum (hS : StackInv r used) : room r.live + (r.live.map Alloc.size).sum = 65532 := by
  have hext := hS.heap.layout.extent_eq
  have hsum := sum_size_allocsOf hS.used_kind (room r.live)
  rw [← hS.live_eq] at hsum
  rw [hsum]
  simpa only [extent_cons] using hext

lemma header (hS : StackInv r used) : sizeBits (word16 r.heap.kmem 0) = room r.live :=
  hS.layout.free_at.header

lemma freeStart_eq (hS : StackInv r used) {b : Nat} (hb : FreeStart r.live b) : b = 0 := by
  obtain ⟨pre, size, post, hL, rfl⟩ := hS.heap.freeStart_iff.mp hb
  cases pre with
  | nil => rfl
  | cons s pre =>
    have hmem : (⟨size, .free⟩ : Region) ∈ used := by
      rw [(List.cons.inj hL).2]
      simp
    have hkind : Kind.free = .used := hS.used_kind _ hmem
    cases hkind

lemma linksOk (hS : StackInv r used) : LinksOk r.heap.kmem r.live 0 :=
  ⟨Or.inl hS.prev, Or.inl hS.next⟩

lemma unlinkedMem_eq (hS : StackInv r used) : unlinkedMem r.heap.kmem 0 = r.heap.kmem := by
  unfold unlinkedMem
  rw [Nat.zero_add, Nat.zero_add, if_pos hS.prev, if_pos hS.next]

lemma unlinkedHead_eq (hS : StackInv r used) : unlinkedHead r.heap 0 = none := by
  unfold unlinkedHead
  rw [Nat.zero_add, Nat.zero_add, if_pos hS.prev, if_pos hS.next]

lemma ptr_ge (hS : StackInv r used) {a : Alloc} (ha : a ∈ r.live) : room r.live + 2 ≤ a.ptr := by
  rw [hS.live_eq] at ha
  have htail := hS.heap.layout.tiled.2
  rw [Nat.zero_add] at htail
  exact (pairwise_allocsOf htail).2 a ha

/-- Payloads lie behind the header of the latest block. -/
lemma payload_ge (hS : StackInv r used) (hx : InPayload r.live x) : room r.live + 2 ≤ x := by
  obtain ⟨a, ha, hlo, -⟩ := hx
  have hptr := hS.ptr_ge ha
  omega

lemma stop_le (hS : StackInv r used) {a : Alloc} (ha : a ∈ r.live) : a.ptr - 2 + a.size ≤ 65532 := by
  obtain ⟨pre, ⟨size, kind⟩, post, hL, hs⟩ := hS.heap.mem_live.mp ha
  have hend := (hL ▸ hS.heap.layout).end_le
  cases kind with
  | free => cases hs
  | used =>
    cases hs
    exact hend
  | small =>
    cases hs
    dsimp only at hend ⊢
    have h8 := (hL ▸ hS.heap.layout).size_ok.2
    dsimp only at h8
    omega

end StackInv

end Invariant

section Kmalloc

variable {addr n : Nat} {r : HeapRun} {used : List Region}

/-- The search looks at block 0 only. -/
lemma StackInv.kmalloc_eq (hS : StackInv r used) (addr : Nat) (hn : ¬(n = 0 ∨ maxAlloc < n)) :
    kmalloc addr r.heap n = if room r.live < roundSize n + 2 then .ok (none, r.heap)
      else (place addr r.heap 0 (roundSize n)).bind fun (a, h') => .ok (some (a + 2), h') := by
  have hread : r.heap.read (0 + 4) = .ok 0 := by
    rw [read_ok (by decide), Nat.zero_add, hS.next]
  have hfind := findSuitable_zero 65535 r.heap (roundSize n + 2)
  rw [hS.header] at hfind
  rw [kmalloc_of_search addr hn hS.head hread hfind]
  by_cases hfit : room r.live < roundSize n + 2
  · rw [if_pos hfit, if_neg (by omega)]
    rfl
  · rw [if_neg hfit, if_pos (by omega)]
    rfl

lemma StackInv.place_eq (hS : StackInv r used) (addr : Nat) (hidx : blockIdx addr none = 0)
    (hn : 6 ≤ n) (hfit : n + 8 ≤ room r.live) :
    ∃ h', place addr r.heap 0 n = .ok (room r.live - n, h') ∧ h'.freelist = some 0 ∧
      h'.bytesAllocated = (r.heap.bytesAllocated + n / 4 * 4) % 65536 ∧
      PlacedRight r.heap.kmem h'.kmem 0 (room r.live) n 0 := by
  have hfree : FreeStart r.live 0 := hS.heap.freeStart_iff.mpr ⟨[], _, used, rfl, rfl⟩
  have hremove := removeFromFreeList_ok (hS.heap.unlinkFits hfree hS.linksOk)
  have hkmem : (unlinked r.heap 0).kmem = r.heap.kmem := hS.unlinkedMem_eq
  have hhead : (unlinked r.heap 0).freelist = none := hS.unlinkedHead_eq
  have hsize : sizeBits (word16 (unlinked r.heap 0).kmem 0) = room r.live := by
    rw [hkmem]
    exact hS.header
  have hend : 0 + room r.live ≤ 65532 := hS.layout.end_le
  have hplace := place_split_ok addr hremove hsize hn hfit hend
  rwa [hkmem, hhead, hidx, Nat.zero_add] at hplace

lemma StackInv.kmalloc_refused (hS : StackInv r used) (addr : Nat)
    (h : n = 0 ∨ maxAlloc < n ∨ room r.live < roundSize n + 2) :
    r.step addr (.kmalloc n) = .ok { r with returned := none :: r.returned } := by
  have hrun : kmalloc addr r.heap n = .ok (none, r.heap) := by
    by_cases hbad : n = 0 ∨ maxAlloc < n
    · rw [kmalloc, if_pos hbad]
      rfl
    · rw [hS.kmalloc_eq addr hbad, if_pos (by omega)]
  rw [HeapRun.step, hrun]
  rfl

/-- A request that fits takes the bytes just before the latest block. -/
lemma StackInv.kmalloc_pushed (hS : StackInv r used) (hidx : blockIdx addr none = 0) (h5 : 5 ≤ n)
    (hn : n ≤ maxAlloc) (hfit : roundSize n + 8 ≤ room r.live) :
    ∃ h', r.step addr (.kmalloc n) = .ok ⟨h', ⟨room r.live - roundSize n + 2, roundSize n⟩ :: r.live,
        some (room r.live - roundSize n + 2) :: r.returned⟩ ∧
      StackInv ⟨h', ⟨room r.live - roundSize n + 2, roundSize n⟩ :: r.live,
        some (room r.live - roundSize n + 2) :: r.returned⟩ (⟨roundSize n, .used⟩ :: used) ∧
      ∀ x, InPayload r.live x → h'.kmem x = r.heap.kmem x := by
  have hk : roundSize n % 4 = 0 ∧ 8 ≤ roundSize n := by
    unfold roundSize
    omega
  have hdiv : roundSize n / 4 * 4 = roundSize n := by omega
  have hsum := hS.room_add_sum
  have hsize := hS.room_size
  obtain ⟨h', hplace, hhead, hbytes, hw⟩ := hS.place_eq addr hidx (by omega) hfit
  have hrun : kmalloc addr r.heap n = .ok (some (room r.live - roundSize n + 2), h') := by
    rw [hS.kmalloc_eq addr (by omega), if_neg (by omega), hplace]
    rfl
  have halloc : sizeBits (word16 h'.kmem (room r.live - roundSize n)) = roundSize n := by
    have := hw.allocated
    rw [Nat.zero_add] at this
    rw [this]
    unfold sizeBits
    omega
  have hroom := room_cons ⟨room r.live - roundSize n + 2, roundSize n⟩ r.live
  have hbehind : room r.live - roundSize n + roundSize n = room r.live := by omega
  refine ⟨h', ?_, ⟨?_, ?_, ?_, hhead, ?_, hw.next, ?_⟩, ?_⟩
  · rw [HeapRun.step, hrun, ok_bind]
    dsimp only
    rw [Nat.add_sub_cancel, halloc]
    rfl
  · have hI : HeapInv r.heap.kmem r.live ([] ++ ⟨room r.live, .free⟩ :: used) := hS.heap
    have hsplit := hI.placed_split hw hk.1 hk.2 hfit
    dsimp only
    rw [hroom]
    rw [extent_nil, Nat.zero_add] at hsplit
    exact hsplit
  · dsimp only
    rw [hroom, allocsOf]
    dsimp only
    rw [hbehind, ← hS.live_eq]
    rfl
  · exact List.forall_mem_cons.mpr ⟨rfl, hS.used_kind⟩
  · -- the link stays, since the free part keeps at least 8 bytes
    have hkeep : word16 h'.kmem 2 = word16 r.heap.kmem 2 :=
      word16_congr (hw.other 2 (by omega) (by omega) (by omega) (by omega) (by omega))
        (hw.other 3 (by omega) (by omega) (by omega) (by omega) (by omega))
    exact hkeep.trans hS.prev
  · dsimp only
    rw [hbytes, hS.bytes, hdiv, List.map_cons, List.sum_cons]
    dsimp only
    omega
  · intro x hx
    have hge := hS.payload_ge hx
    exact hw.other x (by omega) (by omega) (by omega) (by omega) (by omega)

end Kmalloc

section Kfree

variable {addr p : Nat} {r : HeapRun} {used : List Region} {a b : Alloc} {rest : List Alloc}

lemma used_of_allocsOf_cons (hk : ∀ s ∈ used, s.kind = .used) (h : allocsOf p used = a :: rest) :
    ∃ used', used = ⟨a.size, .used⟩ :: used' ∧ a.ptr = p + 2 ∧ allocsOf (p + a.size) used' = rest := by
  cases used with
  | nil => cases h
  | cons s used' =>
    obtain ⟨size, kind⟩ := s
    have hkind : kind = .used := hk _ List.mem_cons_self
    subst hkind
    have hcons : (⟨p + 2, size⟩ : Alloc) :: allocsOf (p + size) used' = a :: rest := h
    obtain ⟨rfl, hrest⟩ := List.cons.inj hcons
    exact ⟨used', rfl, rfl, hrest⟩

/-- The used region between a free one at the start of the heap and a used one: `coalesce` merges it to
the left. -/
lemma Coalesced.merged_left {h h' : Kheap} {f size rsize : Nat} {post pre' mid post' : List Region}
    (hC : Coalesced addr h h' size [⟨f, .free⟩] (⟨rsize, .used⟩ :: post) pre' mid post') :
    pre' = [] ∧ mid = [⟨f, .free⟩, ⟨size, .used⟩] ∧ post' = ⟨rsize, .used⟩ :: post ∧
      ∃ m, FreeWords m h'.kmem 0 (f + size) (blockIdx addr (unlinkedHead h 0)) ∧
        ∀ x, (x < f + size ∨ f + size + 2 ≤ x) → m x = unlinkedMem h.kmem 0 x := by
  obtain ⟨⟨mid₁, h₁, h₂, hleft, hright, hw⟩, -⟩ := hC
  obtain ⟨pre, hpre⟩ : ∃ pre, pre = [(⟨f, .free⟩ : Region)] := ⟨_, rfl⟩
  rw [← hpre] at hleft
  cases hleft with
  | keep hk =>
    rw [hpre] at hk
    cases hk
  | @merge pre lsize =>
    obtain ⟨rfl, hlast⟩ := (List.append_eq_singleton_iff.mp hpre).resolve_right (by simp)
    obtain ⟨rfl, -⟩ := Block.mk.inj (List.cons.inj hlast).1
    cases hright with
    | keep =>
      have hext : extent [(⟨lsize, .free⟩ : Region), ⟨size, .used⟩] = lsize + size := by
        simp only [extent_cons, extent_nil, Nat.add_zero]
      rw [extent_nil, hext] at hw
      refine ⟨rfl, rfl, rfl, _, hw, fun x hx => ?_⟩
      dsimp only
      rw [Nat.zero_add]
      exact setWord16_outside hx

/-- Freeing the latest block merges it into the free block before it. -/
lemma StackInv.kfree_popped (hS : StackInv r used) (hidx : blockIdx addr none = 0)
    (hl : r.live = a :: b :: rest) :
    ∃ h' used', r.step addr (.kfree a) = .ok ⟨h', b :: rest, r.returned⟩ ∧
      StackInv ⟨h', b :: rest, r.returned⟩ used' ∧
      ∀ x, InPayload (b :: rest) x → h'.kmem x = r.heap.kmem x := by
  have hlive := hS.live_eq.symm
  rw [hl] at hlive
  obtain ⟨used₁, rfl, hptr, hlive₁⟩ := used_of_allocsOf_cons hS.used_kind hlive
  obtain ⟨used₂, rfl, -, hlive₂⟩ := used_of_allocsOf_cons
    (fun s hs => hS.used_kind s (List.mem_cons_of_mem _ hs)) hlive₁
  rw [← hl] at hptr hlive₁ hlive₂
  have hsum := hS.room_add_sum
  have hsize := hS.room_size
  have hroom := room_cons a (b :: rest)
  rw [← hl] at hroom
  have hI : HeapInv r.heap.kmem r.live ([⟨room r.live, .free⟩] ++ ⟨a.size, .used⟩ :: ⟨b.size, .used⟩ :: used₂) :=
    hS.heap
  have hlinks : ∀ c e, Gap r.live c e → e = extent [(⟨room r.live, .free⟩ : Region)] ∨
      c = extent [(⟨room r.live, .free⟩ : Region)] + a.size → LinksOk r.heap.kmem r.live c := by
    intro c e hgap _
    rw [hS.freeStart_eq ⟨e, hgap⟩]
    exact hS.linksOk
  obtain ⟨h₀, h', pre', mid, post', hrun, hbytes, hkmem, hhead, hC, hI'⟩ :=
    kfree_coalesced addr hI nofun nofun hlinks
  obtain ⟨rfl, rfl, rfl, m, hw, hm⟩ := hC.merged_left
  have hunlinked : unlinkedMem h₀.kmem 0 = r.heap.kmem := by
    rw [hkmem]
    exact hS.unlinkedMem_eq
  have hnone : unlinkedHead h₀ 0 = none := by
    have := hS.unlinkedHead_eq
    unfold unlinkedHead at this ⊢
    rwa [hkmem, hhead]
  rw [hunlinked] at hm
  rw [hnone, hidx] at hw
  have hroom' : room (b :: rest) = room r.live + a.size := by omega
  have hptr' : extent [(⟨room r.live, .free⟩ : Region)] + 2 = a.ptr := by
    rw [hptr]
    simp only [extent_cons, extent_nil, Nat.add_zero]
  rw [hptr'] at hrun hI'
  have herase : r.live.erase a = b :: rest := by
    rw [hl, List.erase_cons_head]
  have hI'' : HeapInv h'.kmem (r.live.erase a) _ := hI'
  have hhead' : h'.freelist = some 0 := hC.head
  rw [herase] at hI''
  have hbytes' : h'.bytesAllocated = ((b :: rest).map Alloc.size).sum := by
    rw [hbytes, hS.bytes]
    rw [hl, List.map_cons, List.sum_cons] at hsum ⊢
    omega
  have hS' : StackInv ⟨h', b :: rest, r.returned⟩ (⟨b.size, .used⟩ :: used₂) := by
    refine ⟨?_, ?_, ?_, hhead', ?_, hw.next, hbytes'⟩
    · dsimp only
      rw [hroom']
      simp only [extent_cons, extent_nil, Nat.add_zero] at hI''
      exact hI''
    · dsimp only
      rw [hroom']
      exact hlive₁.symm
    · exact fun s hs => hS.used_kind s (List.mem_cons_of_mem _ hs)
    · -- bytes 2 and 3 lie between the header and the `next` of the merged block
      have hkeep : ∀ x, x = 2 ∨ x = 3 → h'.kmem x = r.heap.kmem x := by
        intro x hx
        rw [hw.other x (by omega) (by omega) (by omega), hm x (by omega)]
      exact (word16_congr (hkeep 2 (Or.inl rfl)) (hkeep 3 (Or.inr rfl))).trans hS.prev
  refine ⟨h', _, ?_, hS', ?_⟩
  · rw [HeapRun.step, hrun, ok_bind, herase]
    rfl
  · intro x hx
    have hge : room (b :: rest) + 2 ≤ x := hS'.payload_ge hx
    rw [hw.other x (by omega) (by omega) (by omega), hm x (by omega)]

end Kfree

section Runs

variable {addr : Nat} {r : HeapRun} {used : List Region}

lemma StackInv.write_kept (hS : StackInv r used) (v : Nat) {x : Nat} (hx : InPayload r.live x) :
    StackInv { r with heap := { r.heap with
      kmem := fun y => if y = x then v % 256 else r.heap.kmem y } } used := by
  have hge := hS.payload_ge hx
  have hsize := hS.room_size
  obtain ⟨r', hrun, hI⟩ := write_step 0 v hS.heap hx
  cases hrun
  have hkeep : ∀ y, y < 6 → (if y = x then v % 256 else r.heap.kmem y) = r.heap.kmem y :=
    fun y hy => if_neg (by omega)
  refine ⟨hI, hS.live_eq, hS.used_kind, hS.head, ?_, ?_, hS.bytes⟩
  · exact (word16_congr (hkeep 2 (by decide)) (hkeep 3 (by decide))).trans hS.prev
  · exact (word16_congr (hkeep 4 (by decide)) (hkeep 5 (by decide))).trans hS.next

/-- One call of a client that keeps to the discipline. -/
lemma StackInv.call (hS : StackInv r used) (hidx : blockIdx addr none = 0) {c : HeapCall} (hc : Lifo r c) :
    ∃ r' used', r.step addr c = .ok r' ∧ StackInv r' used' ∧ r'.live = stackLive r.live c ∧
      r'.returned = stackReturned r c ∧
      ∀ x, InPayload r.live x → InPayload r'.live x → (∀ v, c ≠ .write x v) → r'.heap.kmem x = r.heap.kmem x := by
  cases c with
  | kmalloc n =>
    by_cases hno : n = 0 ∨ maxAlloc < n ∨ room r.live < roundSize n + 2
    · have hresult : stackResult r.live n = none := if_pos hno
      refine ⟨_, used, hS.kmalloc_refused addr hno, ?_, ?_, ?_, fun _ _ _ _ => rfl⟩
      · exact ⟨hS.heap, hS.live_eq, hS.used_kind, hS.head, hS.prev, hS.next, hS.bytes⟩
      · simp only [stackLive, hresult, Option.map_none, Option.toList_none, List.nil_append]
      · simp only [stackReturned, hresult]
    · have hresult : stackResult r.live n = some (room r.live - roundSize n + 2) := if_neg hno
      obtain ⟨h5, hwhole⟩ := hc.resolve_left (fun h0 => hno (Or.inl h0))
      have hsize := hS.room_size
      have hk : roundSize n % 4 = 0 := by
        unfold roundSize
        omega
      obtain ⟨h', hrun, hS', hkeep⟩ := hS.kmalloc_pushed hidx h5 (by omega) (by omega)
      refine ⟨_, _, hrun, hS', ?_, ?_, fun x hx _ _ => hkeep x hx⟩
      · simp only [stackLive, hresult, Option.map_some, Option.toList_some, List.singleton_append]
      · simp only [stackReturned, hresult]
  | kfree a =>
    obtain ⟨b, rest, hl⟩ := hc
    obtain ⟨h', used', hrun, hS', hkeep⟩ := hS.kfree_popped hidx hl
    refine ⟨_, used', hrun, hS', ?_, rfl, fun x _ hx _ => hkeep x hx⟩
    rw [stackLive, hl, List.tail_cons]
  | write x v =>
    refine ⟨_, used, rfl, hS.write_kept v hc, rfl, rfl, fun y _ _ hne => ?_⟩
    exact if_neg fun heq => hne v (by rw [heq])

/-- Used as a stack, the heap is one: its blocks do not overlap and its byte count is right, every call
returns what a stack of blocks would return, and the payloads of the blocks that stay are kept. -/
theorem heap_is_stack (addr : Nat) (haddr : addr % 65536 = 0) (r : HeapRun) (hr : HeapReach addr Lifo r) :
    DisjointLive r.live ∧ (∀ a ∈ r.live, room r.live + 2 ≤ a.ptr ∧ a.ptr - 2 + a.size ≤ 65532) ∧
    r.heap.bytesAllocated = (r.live.map Alloc.size).sum ∧
    ∀ c, Lifo r c → ∃ r', r.step addr c = .ok r' ∧ r'.live = stackLive r.live c ∧
      r'.returned = stackReturned r c ∧
      ∀ x, InPayload r.live x → InPayload r'.live x → (∀ v, c ≠ .write x v) →
        r'.heap.kmem x = r.heap.kmem x := by
  have hidx : blockIdx addr none = 0 := by
    unfold blockIdx
    rw [haddr]
  obtain ⟨used, hS⟩ : ∃ used, StackInv r used := by
    apply hr.invariant (P := fun r => ∃ used, StackInv r used)
    · intro s hs
      rw [hs.eq]
      exact ⟨[], stackInv_boot⟩
    · rintro s c ⟨used, hS⟩ hc
      obtain ⟨s', used', hrun, hS', -⟩ := hS.call hidx hc
      exact ⟨s', hrun, used', hS'⟩
  refine ⟨hS.heap.disjointLive, ?_, hS.bytes, ?_⟩
  · exact fun a ha => ⟨hS.ptr_ge ha, hS.stop_le ha⟩
  · intro c hc
    obtain ⟨r', -, hrun, -, hrest⟩ := hS.call hidx hc
    exact ⟨r', hrun, hrest⟩

/-- Two blocks on the stack, the latest one freed. -/
theorem heap_is_stack_two : ∃ r, HeapReach 0x100000 Lifo r ∧ r.live = [⟨65526, 8⟩] ∧
    DisjointLive r.live ∧ (∀ a ∈ r.live, room r.live + 2 ≤ a.ptr ∧ a.ptr - 2 + a.size ≤ 65532) ∧
    r.heap.bytesAllocated = (r.live.map Alloc.size).sum ∧
    ∀ c, Lifo r c → ∃ r', r.step 0x100000 c = .ok r' ∧ r'.live = stackLive r.live c ∧
      r'.returned = stackReturned r c ∧
      ∀ x, InPayload r.live x → InPayload r'.live x → (∀ v, c ≠ .write x v) →
        r'.heap.kmem x = r.heap.kmem x := by
  have hidx : blockIdx 0x100000 none = 0 := rfl
  have hok₁ : Lifo bootRun (.kmalloc 8) := Or.inr ⟨by decide, by decide⟩
  obtain ⟨r₁, used₁, hrun₁, hS₁, hlive₁, -⟩ := stackInv_boot.call hidx hok₁
  have hok₂ : Lifo r₁ (.kmalloc 20) := by
    refine Or.inr ⟨by decide, ?_⟩
    rw [hlive₁]
    decide
  obtain ⟨r₂, used₂, hrun₂, hS₂, hlive₂, -⟩ := hS₁.call hidx hok₂
  rw [hlive₁] at hlive₂
  have hok₃ : Lifo r₂ (.kfree ⟨65506, 20⟩) := ⟨⟨65526, 8⟩, [], hlive₂⟩
  obtain ⟨r₃, used₃, hrun₃, -, hlive₃, -⟩ := hS₂.call hidx hok₃
  rw [hlive₂] at hlive₃
  have hreach : HeapReach 0x100000 Lifo r₃ :=
    .step _ (.step _ (.step _ (.init booted_bootRun) hok₁ hrun₁) hok₂ hrun₂) hok₃ hrun₃
  exact ⟨r₃, hreach, hlive₃, heap_is_stack 0x100000 rfl r₃ hreach⟩

end Runs

end JavaScriptOS.Heap
