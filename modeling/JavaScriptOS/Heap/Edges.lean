import JavaScriptOS.Heap.Coalesce
import JavaScriptOS.Heap.Runs

/-!
# The edges of the heap

`init_kheap` puts no block behind the last one, so freeing the last block looks at the two bytes
behind it as at the header of a free block, whose links lie outside `kmem`. And the free list is
read before it is known to hold a block. Where the free list is closed, these are the only two ways
in which a call leaves the heap.
-/

namespace JavaScriptOS.Heap
open JavaScriptOS.Lib

section Conditions

/-- Neither the freed block nor a neighbour comes from a split for at most 4 bytes, and free
neighbours can be unlinked. The block may be the last one. -/
@[mk_iff]
structure KfreeEdge (m : Nat → Nat) (live : List Alloc) (a : Alloc) : Prop where
  held : a ∈ live
  large : a.size ≠ 4
  beside : ∀ c ∈ live, c.size = 4 → c.stop ≠ a.start ∧ c.start ≠ a.stop
  links : ∀ b e, Gap live b e → e = a.start ∨ b = a.stop → LinksOk m live b

/-- Clients do not write. The free list is closed for a request, but it may be empty. -/
def CallEdge (r : HeapRun) : HeapCall → Prop
  | .kmalloc n => 0 < n → n ≤ maxAlloc → ListClosed r.heap r.live (roundSize n + 2)
  | .kfree a => KfreeEdge r.heap.kmem r.live a
  | .write _ _ => False

instance (m : Nat → Nat) (live : List Alloc) (a : Alloc) : Decidable (KfreeEdge m live a) :=
  decidable_of_iff _ (kfreeEdge_iff m live a).symm

instance (r : HeapRun) (c : HeapCall) : Decidable (CallEdge r c) :=
  match c with
  | .kmalloc n => inferInstanceAs (Decidable (0 < n → n ≤ maxAlloc →
      ListClosed r.heap r.live (roundSize n + 2)))
  | .kfree a => inferInstanceAs (Decidable (KfreeEdge r.heap.kmem r.live a))
  | .write _ _ => .isFalse id

/-- The fault of a call at an edge of the heap: the list is empty, or the last block is freed. -/
def edgeFault (r : HeapRun) : HeapCall → Option HeapFault
  | .kmalloc n => if 0 < n ∧ n ≤ maxAlloc ∧ r.heap.freelist = none then some .nullDeref else none
  | .kfree a => if a.stop = 65532 then some .outOfBounds else none
  | .write _ _ => none

end Conditions

/-- The heap is laid out, and what would be the header behind it has no allocated bit. -/
structure EdgeInv (r : HeapRun) : Prop where
  heap : ∃ L, HeapInv r.heap.kmem r.live L
  top : word16 r.heap.kmem 65532 < 2

variable {addr n size a x : Nat} {h h' : Kheap} {r : HeapRun} {m : Nat → Nat} {live : List Alloc}
  {L L' pre pre' mid rest post post' : List Region} {b : Nat}

section Top

/-- Links in order lead to bytes before the end of the last block. -/
lemma HeapInv.linksMiss_top (hI : HeapInv m live L) (hl : LinksOk m live b) (hx : 65532 ≤ x) :
    LinksMiss m x b where
  prev := by
    have := hI.linkOk_fits (Or.inr rfl) hl.prev
    omega
  next := by
    have := hI.linkOk_fits (Or.inl rfl) hl.next
    omega

lemma HeapInv.top_unlinked (hI : HeapInv m live L) (hl : LinksOk m live b) :
    word16 (unlinkedMem m b) 65532 = word16 m 65532 :=
  word16_congr (hI.linksMiss_top hl (by decide)).unlinkedMem_eq (hI.linksMiss_top hl (by decide)).unlinkedMem_eq

/-- `place` sets at most the left-allocated bit behind the last block. -/
lemma Placed.top_lt (hP : Placed addr h h' pre post size n a L')
    (hI : HeapInv h.kmem live (pre ++ ⟨size, .free⟩ :: post)) (hn : n = 6 ∨ (n % 4 = 0 ∧ 8 ≤ n))
    (hl : LinksOk h.kmem live (extent pre)) (htop : word16 h.kmem 65532 < 2) :
    word16 h'.kmem 65532 < 2 := by
  rw [← hI.top_unlinked hl] at htop
  have hpos := hI.layout.extent_mod
  obtain ⟨h4, h8⟩ := hI.layout.size_ok
  have hend := hI.layout.end_le
  dsimp only at h4 h8 hend
  cases hP with
  | split s hfit _ _ hw =>
    by_cases hright : extent pre + size - n + n / 4 * 4 = 65532
    · have hword := hw.right
      rw [hright] at hword
      omega
    · rw [word16_congr (hw.other 65532 (by omega) (by omega) (by omega) (by omega) (by omega))
        (hw.other 65533 (by omega) (by omega) (by omega) (by omega) (by omega))]
      exact htop
  | whole _ _ hw =>
    by_cases hright : extent pre + size = 65532
    · have hword := hw.right
      rw [hright] at hword
      omega
    · rw [word16_congr (hw.other 65532 (by omega) (by omega)) (hw.other 65533 (by omega) (by omega))]
      exact htop

/-- `coalesce` on a block that is not the last one writes nothing behind the blocks. -/
lemma Coalesced.top_eq (hC : Coalesced addr h h' size pre rest pre' mid post')
    (hI : HeapInv h.kmem live (pre ++ ⟨size, .used⟩ :: rest))
    (hI' : Layout h'.kmem (pre' ++ [⟨extent mid, .free⟩] ++ post'))
    (hlinks : ∀ b e, Gap live b e → e = extent pre ∨ b = extent pre + size → LinksOk h.kmem live b) :
    word16 h'.kmem 65532 = word16 h.kmem 65532 := by
  rw [List.append_assoc, List.singleton_append] at hI'
  have h8 := hI'.size_ok.2
  have hkeep : ∀ x, 65532 ≤ x → h'.kmem x = h.kmem x := by
    intro x hx
    apply hC.kmem_eq hI (fun b hg => hlinks b _ hg (Or.inl rfl))
      (fun b e hg hbe => hI.linksMiss_top (hlinks b e hg hbe) hx) h8
    have hend := hI'.extent_eq
    rw [extent_append, extent_cons] at hend
    dsimp only at hend
    cases post' with
    | nil =>
      rw [extent_nil] at hend
      exact Or.inr (Or.inr ⟨by omega, rfl⟩)
    | cons s post' =>
      rw [append_cons_eq] at hI'
      have hs := hI'.size_ok.2
      rw [extent_cons] at hend
      exact Or.inr (Or.inl (by omega))
  exact word16_congr (hkeep _ (by decide)) (hkeep _ (by decide))

/-- What lies behind the last block looks like a free block, and its links are outside `kmem`. -/
lemma coalesceRight_top (htop : word16 h.kmem 65532 < 2) (size : Nat) :
    coalesceRight h 65532 size = .error .outOfBounds := by
  have hbit : allocated (word16 h.kmem 65532) = 0 := by
    unfold allocated
    omega
  rw [coalesceRight, read_ok (by decide), ok_bind, if_pos hbit]
  rfl

end Top

section Steps

/-- A call runs and keeps the invariant, its search goes round for ever, or it is at an edge and faults. -/
inductive EdgeStep (addr : Nat) (r : HeapRun) (c : HeapCall) : Prop
  | runs (r' : HeapRun) : edgeFault r c = none → r.step addr c = .ok r' → EdgeInv r' → EdgeStep addr r c
  | diverges : edgeFault r c = none → r.step addr c = .error .diverges → EdgeStep addr r c
  | faults (f : HeapFault) : edgeFault r c = some f → r.step addr c = .error f → EdgeStep addr r c

lemma kmalloc_edge (addr : Nat) (hinv : EdgeInv r) (hok : CallEdge r (.kmalloc n)) :
    EdgeStep addr r (.kmalloc n) := by
  obtain ⟨⟨L, hI⟩, htop⟩ := hinv
  by_cases hempty : 0 < n ∧ n ≤ maxAlloc ∧ r.heap.freelist = none
  · obtain ⟨hpos, hle, hhead⟩ := hempty
    refine .faults .nullDeref (if_pos ⟨hpos, hle, hhead⟩) ?_
    simp only [HeapRun.step, kmalloc]
    rw [if_neg (by omega), hhead]
    rfl
  · have hnone : edgeFault r (.kmalloc n) = none := if_neg hempty
    have hserved := kmalloc_served addr hI (n := n) fun hpos hle =>
      ⟨fun hhead => hempty ⟨hpos, hle, hhead⟩, hok hpos hle⟩
    obtain ⟨out, hrun⟩ : ∃ out, kmalloc addr r.heap n = out := ⟨_, rfl⟩
    rw [hrun] at hserved
    cases hserved with
    | diverges => exact .diverges hnone (step_of_kmalloc_error hrun)
    | refused => exact .runs _ hnone (step_of_kmalloc_none hrun) ⟨⟨L, hI⟩, htop⟩
    | placed hL _ hl hP _ hI' =>
      rw [hL] at hI
      exact .runs _ hnone (step_of_kmalloc_some hrun) ⟨⟨_, hI'⟩, hP.top_lt hI (roundSize_cases n) hl htop⟩

/-- A live block that ends where the heap ends is the last region. -/
lemma HeapInv.last_of_live {a : Alloc} (hI : HeapInv m live L) (ha : a ∈ live) (h4 : a.size ≠ 4)
    (hlast : a.stop = 65532) : ∃ pre, L = pre ++ [⟨a.size, .used⟩] ∧ a.ptr = extent pre + 2 := by
  obtain ⟨pre, post, rfl, hptr⟩ := hI.used_of_live ha h4
  have hstop := Alloc.stop_eq h4 hptr
  have hend := hI.layout.extent_eq
  cases post with
  | nil => exact ⟨pre, rfl, hptr⟩
  | cons s post =>
    rw [append_cons_eq] at hI
    have h8 := hI.layout.size_ok.2
    rw [extent_append, extent_cons, extent_cons] at hend
    dsimp only at hend
    omega

lemma kfree_last (addr : Nat) {a : Alloc} (hI : HeapInv h.kmem live L) (htop : word16 h.kmem 65532 < 2)
    (hok : KfreeEdge h.kmem live a) (hlast : a.stop = 65532) : kfree addr h (some a.ptr) = .error .outOfBounds := by
  obtain ⟨pre, rfl, hptr⟩ := hI.last_of_live hok.held hok.large hlast
  have hstart := Alloc.start_eq hok.large hptr
  have hstop := Alloc.stop_eq hok.large hptr
  have hend : extent pre + a.size = 65532 := by omega
  have hused := hI.layout.used_at
  have h8 := hI.layout.size_ok.2
  dsimp only at h8
  have hleft := hI.left_not_small (fun c hc hc4 => by rw [← hstart]; exact (hok.beside c hc hc4).1)
  have hlinks := fun b hg => hok.links b (extent pre) hg (Or.inl hstart.symm)
  rw [hptr, kfree_ok addr (by omega), hused.header]
  obtain ⟨h0, hh0⟩ : ∃ h0 : Kheap, h0 = { h with
    bytesAllocated := (h.bytesAllocated + (65536 - a.size)) % 65536 } := ⟨_, rfl⟩
  have hkmem : h0.kmem = h.kmem := by rw [hh0]
  rw [← hkmem] at hI htop hused hlinks
  obtain ⟨pre', mid, h1, hrun, hM, -, -⟩ := coalesceLeft_step hI hleft hlinks
  have hkeep := fun x hx => hM.kmem_eq (x := x) hI (fun b hg => hI.linksMiss_top (hlinks b hg) hx)
  have htop1 : word16 h1.kmem 65532 = word16 h0.kmem 65532 :=
    word16_congr (hkeep _ (by decide)) (hkeep _ (by decide))
  rw [← hh0]
  rw [coalesce_ok addr (by omega) hused.header hrun, hend, coalesceRight_top (by omega)]
  rfl

lemma kfree_edge (addr : Nat) {a : Alloc} (hinv : EdgeInv r)
    (hok : KfreeEdge r.heap.kmem r.live a) : EdgeStep addr r (.kfree a) := by
  obtain ⟨⟨L, hI⟩, htop⟩ := hinv
  by_cases hlast : a.stop = 65532
  · refine .faults .outOfBounds (if_pos hlast) ?_
    simp only [HeapRun.step]
    rw [kfree_last addr hI htop hok hlast]
    rfl
  · have hok' : KfreeOk r.heap.kmem r.live a := ⟨hok.held, hok.large, hlast, hok.beside, hok.links⟩
    obtain ⟨pre, s, post, rfl, hptr, hleft, hright⟩ := hI.kfree_split hok'
    obtain ⟨h0, h', pre', mid, post', hrun, hkmem, -, hC, hI'⟩ :=
      kfree_some addr hI hptr hleft hright hok.links
    refine .runs _ (if_neg hlast) hrun ⟨⟨_, hI'⟩, ?_⟩
    have hlinks := hok.links
    rw [Alloc.start_eq hok.large hptr, Alloc.stop_eq hok.large hptr] at hlinks
    rw [← hkmem] at hI hlinks htop
    dsimp only
    rw [hC.top_eq hI hI'.layout hlinks]
    exact htop

lemma callEdge_step (addr : Nat) (hinv : EdgeInv r) {c : HeapCall} (hok : CallEdge r c) :
    EdgeStep addr r c := by
  cases c with
  | kmalloc n => exact kmalloc_edge addr hinv hok
  | kfree a => exact kfree_edge addr hinv hok
  | write x v => exact hok.elim

lemma edgeInv_of_reach (hr : HeapReach addr CallEdge r) : EdgeInv r := by
  refine hr.preserved (fun s hs => ?_) (fun s c s' hinv hok hrun => ?_)
  · rw [hs.eq]
    exact ⟨⟨_, heapInv_boot⟩, by decide⟩
  · cases callEdge_step addr hinv hok with
    | runs s1 _ hrun1 hinv1 =>
      rw [hrun1] at hrun
      cases hrun
      exact hinv1
    | diverges _ hdiv =>
      rw [hdiv] at hrun
      cases hrun
    | faults f _ hfault =>
      rw [hfault] at hrun
      cases hrun

end Steps

section Results

/-- Calls on a closed free list leave `kmem`, or go through a null pointer, exactly at the edges of the heap. -/
theorem heap_faults_at_edges (addr : Nat) (r : HeapRun) (hr : HeapReach addr CallEdge r) (c : HeapCall)
    (hc : CallEdge r c) (f : HeapFault) (hf : f ≠ .diverges) :
    r.step addr c = .error f ↔ edgeFault r c = some f := by
  cases callEdge_step addr (edgeInv_of_reach hr) hc with
  | runs r' hnone hrun _ => simp [hnone, hrun]
  | diverges hnone hrun =>
    rw [hnone, hrun]
    refine iff_of_false (fun heq => hf ?_) (Option.some_ne_none f).symm
    cases heq
    rfl
  | faults f' hsome hrun => simp [hsome, hrun]

/-- The first of three blocks is the last one of the heap; freeing the second before it is in order. -/
theorem heap_faults_at_edges_first : ∃ r, HeapReach 0x100000 CallEdge r ∧
    r.live = [⟨65502, 8⟩, ⟨65526, 8⟩] ∧ r.step 0x100000 (.kfree ⟨65526, 8⟩) = .error .outOfBounds ∧
    r.step 0x100000 (.kfree ⟨65502, 8⟩) ≠ .error .outOfBounds := by
  have hplay : (play (HeapRun.step 0x100000) CallEdge bootRun [.kmalloc 8, .kmalloc 16, .kmalloc 8,
      .kfree ⟨65510, 16⟩]).any (fun r => decide (r.live = [⟨65502, 8⟩, ⟨65526, 8⟩] ∧
        CallEdge r (.kfree ⟨65526, 8⟩) ∧ CallEdge r (.kfree ⟨65502, 8⟩))) = true := by
    decide +kernel
  obtain ⟨r, hrun, hr⟩ := (Option.any_eq_true _ _).mp hplay
  obtain ⟨hlive, hlast, hfirst⟩ := of_decide_eq_true hr
  have hreach := (Reach.init booted_bootRun).play hrun
  refine ⟨r, hreach, hlive, ?_, ?_⟩
  · exact (heap_faults_at_edges 0x100000 r hreach _ hlast .outOfBounds (by decide)).mpr rfl
  · intro hfault
    have hedge := (heap_faults_at_edges 0x100000 r hreach _ hfirst .outOfBounds (by decide)).mp hfault
    have hinner : edgeFault r (.kfree ⟨65502, 8⟩) = none := rfl
    rw [hinner] at hedge
    cases hedge

/-- When the whole heap is one allocation, the next request reads the free list through a null
pointer, and freeing the allocation reads outside `kmem`. -/
theorem heap_leaves_kmem : ∃ r a, HeapReach 0x100000 Quiet r ∧ a ∈ r.live ∧
    r.step 0x100000 (.kmalloc 1) = .error .nullDeref ∧ r.step 0x100000 (.kfree a) = .error .outOfBounds := by
  have hplay : (play (HeapRun.step 0x100000) Quiet bootRun [.kmalloc 65528]).any (fun r =>
      decide (⟨2, 65532⟩ ∈ r.live ∧ faultOf (r.step 0x100000 (.kmalloc 1)) = some .nullDeref ∧
        faultOf (r.step 0x100000 (.kfree ⟨2, 65532⟩)) = some .outOfBounds)) = true := by
    decide +kernel
  obtain ⟨r, hrun, hr⟩ := (Option.any_eq_true _ _).mp hplay
  obtain ⟨hlive, hnull, hout⟩ := of_decide_eq_true hr
  exact ⟨r, ⟨2, 65532⟩, (Reach.init booted_bootRun).play hrun, hlive, faultOf_eq_some.mp hnull,
    faultOf_eq_some.mp hout⟩

end Results

end JavaScriptOS.Heap
