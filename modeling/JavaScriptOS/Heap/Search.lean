import JavaScriptOS.Heap.FreeList
import JavaScriptOS.Lib.Lasso

/-!
# The search of `kmalloc`

The search starts behind the head of the free list and follows `next` until a block is large enough
or the index is 0. It does not look at the head itself, and nothing keeps the links from going
round. Where the list is in order it looks at the blocks behind the head, and then at block 0.
-/

namespace JavaScriptOS.Heap
open JavaScriptOS.Lib

/-- The index the search goes to from `cur`, unless it stops there or leaves `kmem`. -/
def searchStep (h : Kheap) (need cur : Nat) : Option Nat :=
  if cur + 6 ≤ maxAlloc ∧ sizeBits (word16 h.kmem cur) < need ∧ cur ≠ 0 then
    some (word16 h.kmem (cur + 4))
  else none

/-- The index the search of `kmalloc(n)` starts at, if there is a search. -/
def searchStart (h : Kheap) (n : Nat) : Option Nat :=
  if n = 0 ∨ maxAlloc < n then none
  else h.freelist.bind fun head => (h.read (head + 4)).toOption

/-- The search loop of `kmalloc(n)` ends: with a block, without one, or with an access outside
`kmem`. -/
def SearchEnds (h : Kheap) (n : Nat) : Prop :=
  ∀ cur ∈ searchStart h n, ∃ fuel, findSuitable fuel h (roundSize n + 2) cur ≠ .error .diverges

/-- No block with allocated bit 0 is large enough for a request of `n` bytes. -/
def NoneFits (h : Kheap) (n : Nat) : Prop := ∀ b size, (b, size) ∈ freeExtents h.kmem → size < roundSize n + 2

variable {addr need fuel cur next n c : Nat} {h h' : Kheap}

section Loop

lemma findSuitable_of_step (hs : searchStep h need cur = some next) :
    findSuitable (fuel + 1) h need cur = findSuitable fuel h need next := by
  unfold searchStep maxAlloc at hs
  split at hs
  case isTrue hpass =>
    cases hs
    exact findSuitable_of_link fuel hpass.1 (by omega) hpass.2.2
  case isFalse => cases hs

/-- Where the search stops it has found the block, has come to the end, or leaves `kmem`. -/
lemma findSuitable_of_stop (hs : searchStep h need cur = none) (fuel : Nat) :
    (findSuitable (fuel + 1) h need cur = .ok (some cur) ∧ need ≤ sizeBits (word16 h.kmem cur)) ∨
    (findSuitable (fuel + 1) h need cur = .ok none ∧ sizeBits (word16 h.kmem cur) < need) ∨
    findSuitable (fuel + 1) h need cur = .error .outOfBounds := by
  have hstop : ¬(cur + 6 ≤ 65535 ∧ sizeBits (word16 h.kmem cur) < need ∧ cur ≠ 0) := by
    unfold searchStep maxAlloc at hs
    split at hs
    case isTrue => cases hs
    case isFalse hstop => exact hstop
  by_cases hin : cur + 2 ≤ 65535
  · by_cases hfit : need ≤ sizeBits (word16 h.kmem cur)
    · exact Or.inl ⟨findSuitable_of_fit fuel hin hfit, hfit⟩
    · right
      by_cases h0 : cur = 0
      · subst h0
        exact Or.inl ⟨findSuitable_of_zero fuel hfit, Nat.lt_of_not_le hfit⟩
      · have hout : h.read (cur + 4) = .error .outOfBounds := if_neg (by unfold maxAlloc; omega)
        rw [findSuitable, read_ok hin, ok_bind, if_neg hfit, if_neg h0, hout]
        exact Or.inr rfl
  · have hout : h.read cur = .error .outOfBounds := if_neg (by unfold maxAlloc; omega)
    rw [findSuitable, hout]
    exact Or.inr (Or.inr rfl)

lemma findSuitable_diverges_iff : findSuitable fuel h need cur = .error .diverges ↔
    trail (searchStep h need) fuel cur ≠ none := by
  induction fuel generalizing cur with
  | zero => simp [findSuitable, trail]
  | succ fuel ih =>
    rw [trail]
    cases hs : searchStep h need cur with
    | some next => rw [findSuitable_of_step hs, ih, Option.bind_some]
    | none =>
      rcases findSuitable_of_stop hs fuel with ⟨hrun, -⟩ | ⟨hrun, -⟩ | hrun
      · simp [hrun]
      · simp [hrun]
      · simp [hrun]

end Loop

section Ends

lemma searchStep_lt (hs : searchStep h need cur = some next) : next < 65536 := by
  unfold searchStep at hs
  split at hs
  case isTrue =>
    cases hs
    exact word16_lt
  case isFalse => cases hs

/-- Indices have 16 bits. -/
lemma trail_lt (hcur : cur < 65536) {k : Nat} (hk : trail (searchStep h need) k cur = some c) : c < 65536 :=
  trail_preserves (P := (· < 65536)) hcur (fun _ _ _ => searchStep_lt) hk

lemma mem_searchStart : cur ∈ searchStart h n ↔ (0 < n ∧ n ≤ maxAlloc) ∧
    ∃ head, h.freelist = some head ∧ head + 6 ≤ 65535 ∧ word16 h.kmem (head + 4) = cur := by
  unfold searchStart
  by_cases hbad : n = 0 ∨ maxAlloc < n
  · rw [if_pos hbad]
    constructor
    · intro hcur
      cases hcur
    · rintro ⟨hgood, -⟩
      omega
  · rw [if_neg hbad, Option.mem_def, Option.bind_eq_some_iff]
    constructor
    · rintro ⟨head, hhead, hread⟩
      refine ⟨by omega, head, hhead, ?_⟩
      by_cases hin : head + 4 + 2 ≤ 65535
      · rw [read_ok hin] at hread
        cases hread
        exact ⟨hin, rfl⟩
      · have hout : h.read (head + 4) = .error .outOfBounds := if_neg hin
        rw [hout] at hread
        cases hread
    · rintro ⟨-, head, hhead, hin, rfl⟩
      refine ⟨head, hhead, ?_⟩
      rw [read_ok (by omega)]
      rfl

lemma findSuitable_ends_iff : (∃ fuel, findSuitable fuel h need cur ≠ .error .diverges) ↔
    Stops (searchStep h need) cur := by
  unfold Stops
  simp only [ne_eq, findSuitable_diverges_iff, not_not]

/-- A search that ends does so within the 65536 rounds that `kmalloc` is modelled with. -/
lemma findSuitable_fuel (hcur : cur < 65536)
    (hends : ∃ fuel, findSuitable fuel h need cur ≠ .error .diverges) :
    findSuitable 65536 h need cur ≠ .error .diverges := by
  have hS : ∀ k c, trail (searchStep h need) k cur = some c → c ∈ Finset.range 65536 :=
    fun k c hk => Finset.mem_range.mpr (trail_lt hcur hk)
  rw [findSuitable_ends_iff, stops_iff _ hS] at hends
  have hnone := trail_card_eq_none _ hS hends
  rw [Finset.card_range] at hnone
  rw [ne_eq, findSuitable_diverges_iff, not_not]
  exact hnone

/-- A list in order is searched from its second block, and block 0 is looked at in the end. -/
lemma ListInv.findSuitable_eq {live : List Alloc} {L : List Region} {l : List Nat} {head : Nat}
    (hl : ListInv h live l) (hI : HeapInv h.kmem live L) (hhead : h.freelist = some head) (need : Nat) :
    findSuitable 65536 h need (word16 h.kmem (head + 4)) =
      .ok ((l.tail ++ [0]).find? fun b => decide (need ≤ sizeBits (word16 h.kmem b))) := by
  have hl0 := hl.head
  have hlinked := hl.linked
  rw [hhead] at hl0
  have hzero : ∀ fuel, findSuitable (fuel + 1) h need 0 =
      .ok ([0].find? fun b => decide (need ≤ sizeBits (word16 h.kmem b))) := by
    intro fuel
    rw [findSuitable_zero, List.find?_singleton]
    by_cases hfit : need ≤ sizeBits (word16 h.kmem 0)
    · rw [if_pos hfit, decide_eq_true hfit]
      rfl
    · rw [if_neg hfit, decide_eq_false hfit]
      rfl
  rcases hl.short with rfl | ⟨x, rfl⟩ | ⟨x, hx, rfl⟩
  · cases hl0
  · cases hl0
    rw [hlinked.2.1]
    exact hzero _
  · cases hl0
    obtain ⟨-, hn0, -, hnx, -⟩ := hlinked
    have hin := hI.freeStart_end (hl.free x (List.mem_cons_of_mem _ (List.mem_singleton_self x)))
    rw [hn0, List.headD_cons, List.tail_cons, List.singleton_append, List.find?_cons]
    by_cases hfit : need ≤ sizeBits (word16 h.kmem x)
    · rw [findSuitable_of_fit _ (by omega) hfit, decide_eq_true hfit]
    · rw [findSuitable_of_link _ (by omega) hfit hx, hnx, decide_eq_false hfit]
      exact hzero _

/-- In every run that keeps the free list in order, the search ends, whatever is looked for. -/
theorem kmalloc_search_ends (addr : Nat) (r : HeapRun) (hr : HeapReach addr (CallKeeps addr) r) (n : Nat) :
    SearchEnds r.heap n := by
  obtain ⟨L, l, hinv⟩ := listedInv_of_reach hr
  intro cur hcur
  obtain ⟨-, head, hhead, -, rfl⟩ := mem_searchStart.mp hcur
  refine ⟨65536, ?_⟩
  rw [hinv.list.findSuitable_eq hinv.heap hhead]
  exact fun heq => by cases heq

/-- Two free blocks in the list, one of which was freed and merged: a request for 100 bytes ends. -/
theorem kmalloc_search_ends_two : ∃ r, HeapReach 0x100000 (CallKeeps 0x100000) r ∧
    (freeBlocks r.heap.kmem).length = 2 ∧ SearchEnds r.heap 100 := by
  have hplay : (play (HeapRun.step 0x100000) (CallKeeps 0x100000) bootRun [.kmalloc 8, .kmalloc 24, .kmalloc 16,
      .kmalloc 65480, .kfree ⟨65502, 24⟩, .kfree ⟨2, 65484⟩]).any
      (fun r => decide ((freeBlocks r.heap.kmem).length = 2)) = true := by
    decide +kernel
  obtain ⟨r, hrun, htwo⟩ := (Option.any_eq_true _ _).mp hplay
  have hr := (Reach.init booted_bootRun).play hrun
  exact ⟨r, hr, of_decide_eq_true htwo, kmalloc_search_ends 0x100000 r hr 100⟩

/-- Of three neighbours the outer two are freed first and the middle one last: when its free
neighbours are unlinked the left one ends up at the head of the list, and the merged block, which
begins at the same place, is linked to itself. -/
theorem kmalloc_search_loops : ∃ r, HeapReach 0x100000 Quiet r ∧ ¬SearchEnds r.heap 100 := by
  have hplay : (play (HeapRun.step 0x100000) Quiet bootRun [.kmalloc 16, .kmalloc 24, .kmalloc 12,
      .kmalloc 24, .kmalloc 12, .kfree ⟨65458, 24⟩, .kfree ⟨65494, 24⟩, .kfree ⟨65482, 12⟩]).any
      (fun r => decide (searchStart r.heap 100 = some 65456 ∧
        searchStep r.heap (roundSize 100 + 2) 65456 = some 65456)) = true := by
    decide +kernel
  obtain ⟨r, hrun, hr⟩ := (Option.any_eq_true _ _).mp hplay
  obtain ⟨hstart, hstep⟩ := of_decide_eq_true hr
  refine ⟨r, (Reach.init booted_bootRun).play hrun, fun hends => ?_⟩
  exact (Revisits.of_fixed hstep).not_stops (findSuitable_ends_iff.mp (hends 65456 hstart))

end Ends

section Complete

lemma size_of_mem_freeExtentsFrom {m : Nat → Nat} {p b size : Nat}
    (hb : (b, size) ∈ freeExtentsFrom m fuel p) : size = sizeBits (word16 m b) := by
  induction fuel generalizing p with
  | zero => cases hb
  | succ fuel ih =>
    rw [freeExtentsFrom] at hb
    split at hb
    case isTrue =>
      rcases List.mem_append.mp hb with hb | hb
      · split at hb
        case isTrue =>
          cases List.mem_singleton.mp hb
          rfl
        case isFalse => cases hb
      · exact ih hb
    case isFalse => cases hb

/-- The free blocks of a heap that is laid out in order, with their sizes. -/
lemma noneFits_iff {live : List Alloc} {L : List Region} (hI : HeapInv h.kmem live L) (hsmall : NoSmall L) :
    NoneFits h n ↔ ∀ b, FreeStart live b → sizeBits (word16 h.kmem b) < roundSize n + 2 := by
  constructor
  · intro hnone b hb
    obtain ⟨⟨b', size⟩, hmem, rfl⟩ := List.mem_map.mp ((hI.mem_freeBlocks hsmall).mpr hb)
    rw [← size_of_mem_freeExtentsFrom hmem]
    exact hnone b' size hmem
  · intro hall b size hmem
    rw [size_of_mem_freeExtentsFrom hmem]
    exact hall b ((hI.mem_freeBlocks hsmall).mp (List.mem_map.mpr ⟨(b, size), hmem, rfl⟩))

lemma ListedInv.noneFits_iff {r : HeapRun} {L : List Region} {l : List Nat} (hinv : ListedInv r L l) :
    NoneFits r.heap n ↔ ∀ b ∈ l, sizeBits (word16 r.heap.kmem b) < roundSize n + 2 := by
  rw [Heap.noneFits_iff hinv.heap hinv.noSmall]
  exact ⟨fun h b hb => h b (hinv.list.free b hb), fun h b hb => h b (hinv.all b hb)⟩

lemma HeapInv.freeStart_size {m : Nat → Nat} {live : List Alloc} {L : List Region} {b : Nat}
    (hI : HeapInv m live L) (hb : FreeStart live b) : 8 ≤ sizeBits (word16 m b) := by
  obtain ⟨pre, size, post, rfl, rfl⟩ := hI.freeStart_iff.mp hb
  rw [hI.layout.free_at.header]
  exact hI.layout.size_ok.2

/-- A call returns null exactly if the blocks behind the head and block 0 are too small. -/
lemma ListedInv.kmalloc_null_iff {r : HeapRun} {L : List Region} {l : List Nat} {head : Nat}
    (hinv : ListedInv r L l) (hgood : ¬(n = 0 ∨ maxAlloc < n)) (hhead : r.heap.freelist = some head) :
    (∃ h', Heap.kmalloc addr r.heap n = .ok (none, h')) ↔
      ∀ b ∈ l.tail ++ [0], sizeBits (word16 r.heap.kmem b) < roundSize n + 2 := by
  have hin := hinv.heap.freeStart_end (hinv.list.free head (List.mem_of_mem_head? (hinv.list.head ▸ hhead)))
  have hfind := hinv.list.findSuitable_eq hinv.heap hhead (roundSize n + 2)
  rw [kmalloc_of_search addr hgood hhead (read_ok (by omega)) hfind]
  cases hres : (l.tail ++ [0]).find? fun b => decide (roundSize n + 2 ≤ sizeBits (word16 r.heap.kmem b)) with
  | none =>
    refine iff_of_true ⟨_, rfl⟩ fun b hb => ?_
    have := List.find?_eq_none.mp hres b hb
    rw [decide_eq_true_eq] at this
    omega
  | some b =>
    refine iff_of_false ?_ fun hall => ?_
    · rintro ⟨h', hrun⟩
      rw [Option.elim_some] at hrun
      obtain ⟨⟨a, h1⟩, -, hrun⟩ := bind_eq_ok.mp hrun
      cases hrun
    · have hfit := List.find?_some hres
      rw [decide_eq_true_eq] at hfit
      have := hall b (List.mem_of_find?_eq_some hres)
      omega

/-- In every run that keeps the free list in order, a request is complete exactly if nothing is free, or, for
a request that is not 0, block 0 is recorded with enough bytes or the head of the list is too small. -/
theorem kmalloc_complete_iff (addr : Nat) (r : HeapRun) (hr : HeapReach addr (CallKeeps addr) r) (n : Nat) :
    ((∃ h', kmalloc addr r.heap n = .ok (none, h')) → NoneFits r.heap n) ↔
      (∀ b, ¬FreeStart r.live b) ∨ 0 < n ∧ (roundSize n + 2 ≤ sizeBits (word16 r.heap.kmem 0) ∨
        ∀ x ∈ r.heap.freelist, sizeBits (word16 r.heap.kmem x) < roundSize n + 2) := by
  obtain ⟨L, l, hinv⟩ := listedInv_of_reach hr
  have hmem : ∀ b, FreeStart r.live b ↔ b ∈ l := fun b => ⟨hinv.all b, hinv.list.free b⟩
  rw [hinv.noneFits_iff]
  simp only [hmem]
  by_cases hbad : n = 0 ∨ maxAlloc < n
  · have hnull : ∃ h', kmalloc addr r.heap n = .ok (none, h') := ⟨_, kmalloc_refused addr r.heap hbad⟩
    rw [forall_prop_of_true hnull]
    rcases hbad with rfl | hlarge
    · -- a request of 0 is refused although every free block has 8 bytes
      refine ⟨fun hall => Or.inl fun b hb => ?_, fun hor b hb => ?_⟩
      · have hsize := hinv.heap.freeStart_size (hinv.list.free b hb)
        have := hall b hb
        have h6 : roundSize 0 = 6 := rfl
        omega
      · rcases hor with hnone | ⟨hpos, -⟩
        · exact absurd hb (hnone b)
        · exact absurd hpos (Nat.lt_irrefl 0)
    · have hsmall : ∀ b, sizeBits (word16 r.heap.kmem b) < roundSize n + 2 := by
        intro b
        have := word16_lt (m := r.heap.kmem) (a := b)
        unfold sizeBits roundSize maxAlloc at *
        omega
      exact iff_of_true (fun b _ => hsmall b) (Or.inr ⟨by omega, Or.inr fun x _ => hsmall x⟩)
  · cases hhead : r.heap.freelist with
    | none =>
      have hl : l = [] := List.head?_eq_none_iff.mp (hinv.list.head ▸ hhead)
      subst hl
      exact iff_of_true (fun _ => List.forall_mem_nil _) (Or.inl fun b => List.not_mem_nil)
    | some head =>
      obtain ⟨t, rfl⟩ : ∃ t, l = head :: t := by
        have hl := hinv.list.head
        rw [hhead] at hl
        exact List.head?_eq_some_iff.mp hl.symm
      have hfree : ¬∀ b, b ∉ head :: t := fun hno => hno head List.mem_cons_self
      rw [hinv.kmalloc_null_iff hbad hhead, List.tail_cons, or_iff_right hfree, and_iff_right (by omega)]
      simp only [List.forall_mem_cons, List.forall_mem_append, Option.mem_some_iff, forall_eq']
      constructor
      · intro hcomplete
        by_cases h0 : roundSize n + 2 ≤ sizeBits (word16 r.heap.kmem 0)
        · exact Or.inl h0
        · right
          by_cases ht : ∀ b ∈ t, sizeBits (word16 r.heap.kmem b) < roundSize n + 2
          · exact (hcomplete ⟨ht, Nat.lt_of_not_le h0, List.forall_mem_nil _⟩).1
          · -- only block 0 has another block behind it
            rcases hinv.list.short with hnil | ⟨x, hx⟩ | ⟨x, -, hx⟩
            · cases hnil
            · cases hx
              exact absurd (List.forall_mem_nil _) ht
            · cases hx
              exact Nat.lt_of_not_le h0
      · rintro (h0 | hx) ⟨ht, h0', -⟩
        · omega
        · exact ⟨hx, ht⟩

/-- Two free blocks in the list: a request for 100 bytes is complete. -/
theorem kmalloc_complete_two : ∃ r, HeapReach 0x100000 (CallKeeps 0x100000) r ∧
    (freeBlocks r.heap.kmem).length = 2 ∧
    ((∃ h', kmalloc 0x100000 r.heap 100 = .ok (none, h')) → NoneFits r.heap 100) := by
  have hplay : (play (HeapRun.step 0x100000) (CallKeeps 0x100000) bootRun [.kmalloc 8, .kmalloc 24, .kmalloc 16,
      .kmalloc 65480, .kfree ⟨65502, 24⟩, .kfree ⟨2, 65484⟩]).any
      (fun r => decide ((freeBlocks r.heap.kmem).length = 2 ∧
        roundSize 100 + 2 ≤ sizeBits (word16 r.heap.kmem 0))) = true := by
    decide +kernel
  obtain ⟨r, hrun, hr⟩ := (Option.any_eq_true _ _).mp hplay
  obtain ⟨htwo, hfit⟩ := of_decide_eq_true hr
  have hreach := (Reach.init booted_bootRun).play hrun
  exact ⟨r, hreach, htwo,
    (kmalloc_complete_iff 0x100000 r hreach 100).mpr (Or.inr ⟨by decide, Or.inl hfit⟩)⟩

/-- The only free block has 65000 bytes and is the head of the list; the search looks at block 0
only, which is allocated and too small. -/
theorem kmalloc_misses_head : ∃ r, HeapReach 0x100000 Quiet r ∧
    ∃ h', kmalloc 0x100000 r.heap 1000 = .ok (none, h') ∧ ¬NoneFits r.heap 1000 := by
  have hplay : (play (HeapRun.step 0x100000) Quiet bootRun [.kmalloc 8, .kmalloc 65000, .kmalloc 520,
      .kfree ⟨526, 65000⟩]).any (fun r => decide ((524, 65000) ∈ freeExtents r.heap.kmem ∧
        (kmalloc 0x100000 r.heap 1000).toOption.any (fun p => p.1 == none))) = true := by
    decide +kernel
  obtain ⟨r, hrun, hr⟩ := (Option.any_eq_true _ _).mp hplay
  obtain ⟨hfree, hcall⟩ := of_decide_eq_true hr
  obtain ⟨⟨res, h'⟩, hcall, hres⟩ := ok_of_any hcall
  have hres : res = none := eq_of_beq hres
  subst hres
  refine ⟨r, (Reach.init booted_bootRun).play hrun, h', hcall, fun hnone => ?_⟩
  exact absurd (hnone 524 65000 hfree) (by decide)

end Complete

end JavaScriptOS.Heap
