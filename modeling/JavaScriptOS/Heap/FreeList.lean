import JavaScriptOS.Heap.Runs
import JavaScriptOS.Heap.Walk

/-!
# The free list

`insert_into_free_list` does not set the `prev` of the old head, and index 0 is both block 0 and
the end of the list. So the list stays well linked only while a block is inserted into the empty
list or is block 0, and then it never has more than one block besides block 0.
-/

namespace JavaScriptOS.Heap
open JavaScriptOS.Lib

section Linked

/-- The blocks `l` follow each other by `next` and point back by `prev`; index 0 is also 'none'. -/
def Linked (m : Nat → Nat) : Nat → List Nat → Prop
  | _, [] => True
  | prev, b :: l => word16 m (b + 2) = prev ∧ word16 m (b + 4) = l.headD 0 ∧ Linked m b l

/-- The free list holds exactly the free blocks. -/
def FreeListOk (h : Kheap) : Prop :=
  ∃ l : List Nat, h.freelist = l.head? ∧ Linked h.kmem 0 l ∧ l.Nodup ∧ ∀ b, b ∈ l ↔ b ∈ freeBlocks h.kmem

/-- With two free blocks or more, the second points back to the first. -/
lemma FreeListOk.prev_next {h : Kheap} {x b : Nat} (hok : FreeListOk h) (hx : h.freelist = some x)
    (hb : b ∈ freeBlocks h.kmem) (hne : b ≠ x) :
    word16 h.kmem (word16 h.kmem (x + 4) + 2) = x := by
  obtain ⟨l, hhead, hlinked, -, hmem⟩ := hok
  have hbl := (hmem b).mpr hb
  rw [hx] at hhead
  match l, hhead, hlinked, hbl with
  | [y], hhead, _, hbl =>
    cases hhead
    exact absurd (List.mem_singleton.mp hbl) hne
  | y :: c :: l, hhead, hlinked, _ =>
    cases hhead
    obtain ⟨-, hnext, hprev, -⟩ := hlinked
    rw [hnext]
    exact hprev

/-- A request keeps the list in order: no free block is looked at but block 0, and block 0 is free
when it is taken; what a split leaves of it goes back into a list that is not empty, or a null
pointer has index 0. -/
@[mk_iff]
structure KmallocKeeps (addr : Nat) (h : Kheap) (live : List Alloc) (n : Nat) : Prop where
  listed : h.freelist ≠ none
  others : ∀ b e, Gap live b e → b ≠ 0 → h.freelist ≠ some b → e - b < roundSize n + 2
  zero : roundSize n + 2 ≤ sizeBits (word16 h.kmem 0) → FreeStart live 0
  split : roundSize n + 8 ≤ sizeBits (word16 h.kmem 0) → 4 < n ∧
    ((∀ b, FreeStart live b → b = 0) → blockIdx addr none = 0)

/-- The block that results from freeing `a` is block 0 or the only free block; in the latter case
a null pointer has index 0. Without a free block to the left, the payload starts with a 0 word. -/
@[mk_iff]
structure KfreeKeeps (addr : Nat) (m : Nat → Nat) (live : List Alloc) (a : Alloc) : Prop where
  held : a ∈ live
  inner : a.stop ≠ 65532
  zero : ∀ b e c, Gap (live.erase a) b e → b ≤ a.start → a.start < e →
    FreeStart (live.erase a) c → c ≠ b → b = 0
  alone : (∀ b c, FreeStart (live.erase a) b → FreeStart (live.erase a) c → b = c) → blockIdx addr none = 0
  prev : (∀ b, ¬Gap live b a.start) → word16 m a.ptr = 0

def CallKeeps (addr : Nat) (r : HeapRun) : HeapCall → Prop
  | .kmalloc n => 0 < n → n ≤ maxAlloc → KmallocKeeps addr r.heap r.live n
  | .kfree a => KfreeKeeps addr r.heap.kmem r.live a
  | .write _ _ => False

instance (addr : Nat) (h : Kheap) (live : List Alloc) (n : Nat) : Decidable (KmallocKeeps addr h live n) :=
  decidable_of_iff _ (kmallocKeeps_iff addr h live n).symm

lemma kfreeKeeps_zero_iff {live : List Alloc} {x : Nat} : (∀ b e c, Gap live b e → b ≤ x → x < e →
      FreeStart live c → c ≠ b → b = 0) ↔
    ∀ b e, Gap live b e → b ≤ x → x < e → ∀ c, FreeStart live c → c ≠ b → b = 0 :=
  ⟨fun h b e hg hb he c => h b e c hg hb he, fun h b e c hg hb he => h b e hg hb he c⟩

lemma freeStart_unique_iff {live : List Alloc} : (∀ b c, FreeStart live b → FreeStart live c → b = c) ↔
    ∀ b, FreeStart live b → ∀ c, FreeStart live c → b = c :=
  ⟨fun h b hb c => h b c hb, fun h b c hb => h b hb c⟩

instance (live : List Alloc) (x : Nat) : Decidable (∀ b e c, Gap live b e → b ≤ x → x < e →
    FreeStart live c → c ≠ b → b = 0) := decidable_of_iff _ kfreeKeeps_zero_iff.symm

instance (live : List Alloc) : Decidable (∀ b c, FreeStart live b → FreeStart live c → b = c) :=
  decidable_of_iff _ freeStart_unique_iff.symm

instance (addr : Nat) (m : Nat → Nat) (live : List Alloc) (a : Alloc) : Decidable (KfreeKeeps addr m live a) :=
  decidable_of_iff _ (kfreeKeeps_iff addr m live a).symm

instance (addr : Nat) (r : HeapRun) (c : HeapCall) : Decidable (CallKeeps addr r c) :=
  match c with
  | .kmalloc n => inferInstanceAs (Decidable (0 < n → n ≤ maxAlloc → KmallocKeeps addr r.heap r.live n))
  | .kfree a => inferInstanceAs (Decidable (KfreeKeeps addr r.heap.kmem r.live a))
  | .write _ _ => .isFalse id

/-- The list `l` of the heap is in order and has at most one block besides block 0. -/
structure ListInv (h : Kheap) (live : List Alloc) (l : List Nat) : Prop where
  head : h.freelist = l.head?
  linked : Linked h.kmem 0 l
  free : ∀ b ∈ l, FreeStart live b
  short : l = [] ∨ (∃ x, l = [x]) ∨ ∃ x, x ≠ 0 ∧ l = [0, x]

variable {h h' : Kheap} {live : List Alloc} {L : List Region} {l t : List Nat} {b c : Nat}

/-- `next` of a listed block is 0 or a listed block, and `prev` is 0. -/
lemma ListInv.links (hl : ListInv h live l) (hb : b ∈ l) : word16 h.kmem (b + 2) = 0 ∧
    (word16 h.kmem (b + 4) = 0 ∨ word16 h.kmem (b + 4) ∈ l ∧ b = 0) := by
  have hlinked := hl.linked
  rcases hl.short with rfl | ⟨x, rfl⟩ | ⟨x, hx, rfl⟩
  · cases hb
  · cases List.mem_singleton.mp hb
    exact ⟨hlinked.1, Or.inl hlinked.2.1⟩
  · obtain ⟨hp0, hn0, hpx, hnx, -⟩ := hlinked
    rcases List.mem_cons.mp hb with rfl | hb
    · refine ⟨hp0, Or.inr ⟨?_, rfl⟩⟩
      rw [hn0]
      exact List.mem_cons_of_mem _ (List.mem_singleton_self x)
    · cases List.mem_singleton.mp hb
      exact ⟨hpx, Or.inl hnx⟩

lemma ListInv.linksOk (hl : ListInv h live l) (hb : b ∈ l) : LinksOk h.kmem live b := by
  obtain ⟨hprev, hnext⟩ := hl.links hb
  refine ⟨Or.inl hprev, ?_⟩
  rcases hnext with h0 | ⟨hmem, -⟩
  · exact Or.inl h0
  · exact Or.inr (Or.inl (hl.free _ hmem))

/-- The links of `c` are the same in both memories. -/
def SameLinks (m m' : Nat → Nat) (c : Nat) : Prop :=
  word16 m' (c + 2) = word16 m (c + 2) ∧ word16 m' (c + 4) = word16 m (c + 4)

lemma sameLinks_of_eq {m m' : Nat → Nat} (hkeep : ∀ x, c + 2 ≤ x → x < c + 6 → m' x = m x) :
    SameLinks m m' c :=
  ⟨word16_congr (hkeep _ (by omega) (by omega)) (hkeep _ (by omega) (by omega)),
    word16_congr (hkeep _ (by omega) (by omega)) (hkeep _ (by omega) (by omega))⟩

/-- The list survives a change of memory away from its links. -/
lemma ListInv.congr (hl : ListInv h live l) {live' : List Alloc} (hhead : h'.freelist = h.freelist)
    (hlinks : ∀ b ∈ l, SameLinks h.kmem h'.kmem b)
    (hfree : ∀ b ∈ l, FreeStart live' b) : ListInv h' live' l := by
  refine ⟨hhead.trans hl.head, ?_, hfree, hl.short⟩
  have hkeep : ∀ prev t, (∀ b ∈ t, b ∈ l) → Linked h.kmem prev t → Linked h'.kmem prev t := by
    intro prev t
    induction t generalizing prev with
    | nil => exact fun _ _ => trivial
    | cons b t ih =>
      rintro hsub ⟨hp, hn, ht⟩
      obtain ⟨hp', hn'⟩ := hlinks b (hsub b (List.mem_cons_self ..))
      exact ⟨hp'.trans hp, hn'.trans hn, ih b (fun c hc => hsub c (List.mem_cons_of_mem _ hc)) ht⟩
  exact hkeep 0 l (fun _ hb => hb) hl.linked

/-- Unlinking the head leaves the rest of the list in order. -/
lemma ListInv.unlink_head (hI : HeapInv h.kmem live L) (hl : ListInv h live (b :: t)) :
    ListInv (unlinked h b) live t := by
  have hlinks := hl.linksOk (List.mem_cons_self ..)
  obtain ⟨hp, hn, ht⟩ := hl.linked
  have hfree := fun c hc => hl.free c (List.mem_cons_of_mem _ hc)
  rcases hl.short with hnil | ⟨x, hx⟩ | ⟨x, hx0, hx⟩
  · cases hnil
  · cases hx
    refine ⟨?_, trivial, hfree, Or.inl rfl⟩
    simp only [unlinked, unlinkedHead, hp, hn, List.headD_nil, if_true, List.head?_nil]
  · cases hx
    obtain ⟨hpx, hnx, -⟩ := ht
    have hxfree := hfree x (List.mem_singleton_self x)
    refine ⟨?_, ⟨?_, ?_, trivial⟩, hfree, Or.inr (Or.inl ⟨x, rfl⟩)⟩
    · simp only [unlinked, unlinkedHead, hp, hn, List.headD_cons, hx0, if_true, if_false,
        List.head?_cons]
    · have hprev := hI.unlinked_prev hlinks hxfree
      rw [if_pos ⟨hn, hx0⟩, hp] at hprev
      exact hprev
    · have hnext := hI.unlinked_next hlinks hxfree
      rw [if_neg (by omega)] at hnext
      exact hnext.trans hnx

lemma ListInv.freeListOk (hI : HeapInv h.kmem live L) (hsmall : NoSmall L) (hl : ListInv h live l)
    (hall : ∀ b, FreeStart live b → b ∈ l) : FreeListOk h := by
  refine ⟨l, hl.head, hl.linked, ?_, fun b => ?_⟩
  · rcases hl.short with rfl | ⟨x, rfl⟩ | ⟨x, hx, rfl⟩
    · exact List.nodup_nil
    · simp
    · simp [Ne.symm hx]
  · rw [hI.mem_freeBlocks hsmall]
    exact ⟨hl.free b, hall b⟩

/-- Inserting a block into a list in order. -/
lemma ListInv.insert {addr : Nat} {live' : List Alloc} (hl : ListInv h live t) (hc : c ∉ t)
    (hlt : ∀ b ∈ t, b < 65536) (hhead : h'.freelist = some c) (hprev : word16 h'.kmem (c + 2) = 0)
    (hnext : word16 h'.kmem (c + 4) = blockIdx addr h.freelist)
    (hlinks : ∀ b ∈ t, SameLinks h.kmem h'.kmem b)
    (hfree : ∀ b ∈ c :: t, FreeStart live' b) (hnil : t = [] → blockIdx addr none = 0)
    (hcons : t ≠ [] → c = 0) : ListInv h' live' (c :: t) := by
  have hlhead := hl.head
  have hlinked := hl.linked
  rcases hl.short with rfl | ⟨x, rfl⟩ | ⟨x, -, rfl⟩
  · refine ⟨hhead, ⟨hprev, ?_, trivial⟩, hfree, Or.inr (Or.inl ⟨c, rfl⟩)⟩
    rw [hnext, hlhead]
    exact hnil rfl
  · cases hcons (List.cons_ne_nil _ _)
    obtain ⟨hpx, hnx⟩ := hlinks x (List.mem_singleton_self x)
    have hx := hlt x (List.mem_singleton_self x)
    refine ⟨hhead, ⟨hprev, ?_, hpx.trans hlinked.1, hnx.trans hlinked.2.1, trivial⟩, hfree,
      Or.inr (Or.inr ⟨x, ?_, rfl⟩)⟩
    · rw [hnext, hlhead]
      exact Nat.mod_eq_of_lt hx
    · rintro rfl
      exact hc (List.mem_singleton_self 0)
  · cases hcons (List.cons_ne_nil _ _)
    exact absurd (List.mem_cons_self ..) hc

end Linked

section Kmalloc

variable {addr need n fuel : Nat} {h : Kheap} {r : HeapRun} {live : List Alloc} {L : List Region}
  {l : List Nat}

/-- The heap is laid out as `L` and its free list, which is `l`, holds every free block. -/
structure ListedInv (r : HeapRun) (L : List Region) (l : List Nat) : Prop where
  heap : HeapInv r.heap.kmem r.live L
  noSmall : NoSmall L
  list : ListInv r.heap r.live l
  all : ∀ b, FreeStart r.live b → b ∈ l

/-- The search passes by blocks that are too small and ends at block 0. -/
lemma ListedInv.search (hinv : ListedInv r L l) (hok : KmallocKeeps addr r.heap r.live n) :
    ∃ head, r.heap.freelist = some head ∧ head + 6 ≤ 65535 ∧
      findSuitable 65536 r.heap (roundSize n + 2) (word16 r.heap.kmem (head + 4)) =
        .ok (if roundSize n + 2 ≤ sizeBits (word16 r.heap.kmem 0) then some 0 else none) := by
  obtain ⟨hI, -, hl, -⟩ := hinv
  have hin : ∀ b ∈ l, b + 8 ≤ 65532 := fun b hb => hI.freeStart_end (hl.free b hb)
  have hhead := hl.head
  have hlinked := hl.linked
  rcases hl.short with rfl | ⟨x, rfl⟩ | ⟨x, hx0, rfl⟩
  · exact absurd hhead hok.listed
  · have hx := hin x (List.mem_singleton_self x)
    refine ⟨x, hhead, by omega, ?_⟩
    rw [hlinked.2.1]
    exact findSuitable_zero ..
  · have hmem : x ∈ [0, x] := List.mem_cons_of_mem _ (List.mem_singleton_self x)
    have hx := hin x hmem
    obtain ⟨-, hn0, -, hnx, -⟩ := hlinked
    refine ⟨0, hhead, by decide, ?_⟩
    obtain ⟨e, hg⟩ := hl.free x hmem
    have hsmall := hok.others x e hg hx0 (by rw [hhead]; exact fun heq => hx0 (Option.some.inj heq).symm)
    obtain ⟨pre, post, hL, rfl⟩ := hI.free_of_gap hg
    have hsize := (hL ▸ hI.layout).free_at.header
    rw [hn0, List.headD_cons, findSuitable_of_link _ (by omega) (by omega) hx0, hnx]
    exact findSuitable_zero ..

lemma ListInv.head_of_zero (hl : ListInv h live l) (h0 : 0 ∈ l) : ∃ t, l = 0 :: t := by
  rcases hl.short with rfl | ⟨x, rfl⟩ | ⟨x, -, rfl⟩
  · cases h0
  · cases List.mem_singleton.mp h0
    exact ⟨[], rfl⟩
  · exact ⟨[x], rfl⟩

lemma ListInv.not_mem_tail {b : Nat} {t : List Nat} (hl : ListInv h live (b :: t)) : b ∉ t := by
  rcases hl.short with hnil | ⟨x, hx⟩ | ⟨x, hx0, hx⟩
  · cases hnil
  · cases hx
    exact List.not_mem_nil
  · cases hx
    simp [Ne.symm hx0]

/-- The head's `prev` stays 0 when it is unlinked. -/
lemma ListInv.unlinked_prev {b : Nat} {t : List Nat} (hI : HeapInv h.kmem live L)
    (hl : ListInv h live (b :: t)) : word16 (unlinkedMem h.kmem b) (b + 2) = 0 := by
  rw [hI.unlinked_prev (hl.linksOk (List.mem_cons_self ..)) (hl.free b (List.mem_cons_self ..)), ite_self]
  exact hl.linked.1

section Place

variable {pre post L' : List Region} {h' : Kheap} {size a : Nat} {live' : List Alloc} {t : List Nat}

lemma ListInv.outside (hI : HeapInv h.kmem live (pre ++ ⟨size, .free⟩ :: post))
    (hl : ListInv h live (extent pre :: t)) {c : Nat} (hc : c ∈ t) :
    c + 8 ≤ extent pre ∨ extent pre + size ≤ c :=
  hI.freeStart_outside (hl.free c (List.mem_cons_of_mem _ hc)) (fun heq => hl.not_mem_tail (heq ▸ hc))

/-- Splitting the head of the list, if it is block 0. -/
lemma ListedInv.placed_split (res : List (Option Nat))
    (hinv : ListedInv r (pre ++ ⟨size, .free⟩ :: post) (extent pre :: t)) (hpre : extent pre = 0)
    (hle : n + 8 ≤ size) (hn : 6 ≤ n) (hhead : h'.freelist = some (extent pre))
    (hw : PlacedRight (unlinkedMem r.heap.kmem (extent pre)) h'.kmem (extent pre) size n
      (blockIdx addr (unlinkedHead r.heap (extent pre))))
    (hI' : HeapInv h'.kmem live' (pre ++ [⟨size - n, .free⟩, ⟨n, .used⟩] ++ post))
    (hnil : t = [] → blockIdx addr none = 0) :
    ListedInv ⟨h', live', res⟩ (pre ++ [⟨size - n, .free⟩, ⟨n, .used⟩] ++ post) (extent pre :: t) := by
  obtain ⟨hI, hsmall, hl, hall⟩ := hinv
  have hlinks : ∀ c ∈ t, SameLinks (unlinkedMem r.heap.kmem (extent pre)) h'.kmem c := by
    intro c hc
    have hout := hl.outside hI hc
    exact sameLinks_of_eq fun x h1 h2 => hw.other x (by omega) (by omega) (by omega) (by omega) (by omega)
  have hprev : word16 h'.kmem (extent pre + 2) = 0 := by
    rw [← hl.unlinked_prev hI]
    exact word16_congr (hw.other _ (by omega) (by omega) (by omega) (by omega) (by omega))
      (hw.other _ (by omega) (by omega) (by omega) (by omega) (by omega))
  have hext := extent_cut (show n ≤ size by omega) .free .used .free
  have hI2 := hI
  rw [append_cons_eq] at hI2 hsmall
  have hfree : ∀ b ∈ extent pre :: t, FreeStart live' b := by
    intro b hb
    rcases hI2.freeStart_replace hI' hext (hl.free b hb) with hmid | hb'
    · rw [hI'.freeStart_iff_mem, mem_freeStarts_append, mem_freeStarts_append, Nat.zero_add]
      exact Or.inl (Or.inr hmid)
    · exact hb'
  refine ⟨hI', hsmall.replace ?_, ?_, ?_⟩
  · simp [NoSmall]
  · refine (hl.unlink_head hI).insert hl.not_mem_tail ?_ hhead hprev hw.next hlinks hfree hnil (fun _ => hpre)
    intro b hb
    have := hI.freeStart_end (hl.free b (List.mem_cons_of_mem _ hb))
    omega
  · intro b hb
    rcases hI'.freeStart_replace hI2 hext.symm hb with hmid | hb'
    · exact List.mem_cons.mpr (Or.inl (List.mem_singleton.mp hmid))
    · exact hall b hb'

/-- Taking the head of the list whole. -/
lemma ListedInv.placed_whole (res : List (Option Nat))
    (hinv : ListedInv r (pre ++ ⟨size, .free⟩ :: post) (extent pre :: t))
    (hhead : h'.freelist = unlinkedHead r.heap (extent pre))
    (hw : PlacedWhole (unlinkedMem r.heap.kmem (extent pre)) h'.kmem (extent pre) size)
    (hI' : HeapInv h'.kmem live' (pre ++ [⟨size, .used⟩] ++ post)) :
    ListedInv ⟨h', live', res⟩ (pre ++ [⟨size, .used⟩] ++ post) t := by
  obtain ⟨hI, hsmall, hl, hall⟩ := hinv
  have hlinks : ∀ c ∈ t, SameLinks (unlinkedMem r.heap.kmem (extent pre)) h'.kmem c := by
    intro c hc
    have hout := hl.outside hI hc
    exact sameLinks_of_eq fun x h1 h2 => hw.other x (by omega) (by omega)
  have hext : extent [(⟨size, .used⟩ : Region)] = extent [(⟨size, .free⟩ : Region)] := rfl
  have hI2 := hI
  rw [append_cons_eq] at hI2 hsmall
  refine ⟨hI', hsmall.replace ?_, (hl.unlink_head hI).congr hhead hlinks ?_, ?_⟩
  · simp [NoSmall]
  · intro b hb
    rcases hI2.freeStart_replace hI' hext (hl.free b (List.mem_cons_of_mem _ hb)) with hmid | hb'
    · cases List.mem_singleton.mp hmid
      exact absurd hb hl.not_mem_tail
    · exact hb'
  · intro b hb
    rcases hI'.freeStart_replace hI2 hext.symm hb with hmid | hb'
    · cases hmid
    · rcases List.mem_cons.mp (hall b hb') with rfl | hmem
      · rw [← append_cons_eq] at hI'
        exact absurd hb hI'.not_freeStart_of_used
      · exact hmem

end Place

/-- A request that keeps the list in order. -/
lemma ListedInv.kmalloc (addr : Nat) (hinv : ListedInv r L l) (hok : CallKeeps addr r (.kmalloc n)) :
    ∃ r' L' l', r.step addr (.kmalloc n) = .ok r' ∧ ListedInv r' L' l' := by
  by_cases hbad : n = 0 ∨ maxAlloc < n
  · exact ⟨_, L, l, step_of_kmalloc_none (kmalloc_refused addr r.heap hbad),
      ⟨hinv.heap, hinv.noSmall, hinv.list, hinv.all⟩⟩
  · have hok := hok (by omega) (by omega)
    obtain ⟨head, hhead, hin, hfind⟩ := hinv.search hok
    by_cases hfit : roundSize n + 2 ≤ sizeBits (word16 r.heap.kmem 0)
    · rw [if_pos hfit] at hfind
      have h0 := hok.zero hfit
      have hlinks := hinv.list.linksOk (hinv.all 0 h0)
      obtain ⟨t, rfl⟩ := hinv.list.head_of_zero (hinv.all 0 h0)
      obtain ⟨pre, size, post, rfl, hpre⟩ := hinv.heap.freeStart_iff.mp h0
      have hsize := hinv.heap.layout.free_at.header
      rw [hpre] at hsize
      rw [hsize] at hfit
      rw [← hpre] at hfind hlinks hinv
      have hround := roundSize_cases n
      obtain ⟨a, h', L', hrun, hP, -, hI'⟩ := kmalloc_some addr hinv.heap hbad hhead hin hfind hlinks hfit
      cases hP with
      | split s hle hs hhead' hw =>
        obtain ⟨hn4, hnil⟩ := hok.split (by omega)
        have hn6 : roundSize n ≠ 6 := by
          unfold roundSize
          omega
        cases hs.resolve_right (fun hc => hn6 hc.1)
        refine ⟨_, _, _, step_of_kmalloc_some hrun, hinv.placed_split _ hpre hle (by omega) hhead' hw hI' ?_⟩
        rintro rfl
        apply hnil
        intro b hb
        rw [← hpre]
        exact List.mem_singleton.mp (hinv.all b hb)
      | whole hlt hhead' hw =>
        exact ⟨_, _, t, step_of_kmalloc_some hrun, hinv.placed_whole _ hhead' hw hI'⟩
    · rw [if_neg hfit] at hfind
      exact ⟨_, L, l, step_of_kmalloc_none (kmalloc_none addr hbad hhead hin hfind),
        ⟨hinv.heap, hinv.noSmall, hinv.list, hinv.all⟩⟩

end Kmalloc

section Kfree

variable {addr size : Nat} {h h1 h2 : Kheap} {live : List Alloc} {L pre pre' mid mid' rest post' : List Region}
  {l l1 : List Nat}

/-- The free list in the middle of `coalesce`: the blocks merged so far have left it, and the
merged block, which begins at `c`, has `prev` 0. -/
structure Detached (h : Kheap) (live : List Alloc) (l l' : List Nat) (c : Nat) (merged : List Nat) : Prop where
  list : ListInv h live l'
  mem_iff : ∀ b, b ∈ l' ↔ b ∈ l ∧ b ∉ merged
  not_mem : c ∉ l'
  prev : word16 h.kmem (c + 2) = 0

lemma ListInv.mergeLeft (hI : HeapInv h.kmem live (pre ++ ⟨size, .used⟩ :: rest)) (hl : ListInv h live l)
    (hall : ∀ b, FreeStart live b → b ∈ l) (hM : MergedLeft h size pre pre' mid h1)
    (hzero : 0 ∈ l → extent pre' = 0)
    (hprev : leftKind (lastOr none pre) = .used → word16 h.kmem (extent pre + 2) = 0) :
    HeapInv h1.kmem live (pre ++ ⟨size, .used⟩ :: rest) ∧
      ∃ l1, Detached h1 live l l1 (extent pre') (freeStarts (extent pre') mid) := by
  cases hM with
  | keep hk =>
    refine ⟨hI, l, hl, fun b => ⟨fun hb => ⟨hb, List.not_mem_nil⟩, And.left⟩, ?_, hprev hk⟩
    exact fun hc => hI.not_freeStart_of_used (hl.free _ hc)
  | merge =>
    have hstart : FreeStart live (extent pre') := by
      rw [List.append_assoc, List.singleton_append] at hI
      exact ⟨_, hI.gap_of_free⟩
    have hmem := hall _ hstart
    obtain ⟨t, rfl⟩ : ∃ t, l = extent pre' :: t := by
      rcases hl.short with rfl | ⟨x, rfl⟩ | ⟨x, hx, rfl⟩
      · cases hmem
      · exact ⟨[], by rw [List.mem_singleton.mp hmem]⟩
      · exact ⟨[x], by rw [hzero (List.mem_cons_self ..)]⟩
    refine ⟨hI.unlinked (hl.linksOk hmem), t, hl.unlink_head hI, fun b => ?_, hl.not_mem_tail,
      hl.unlinked_prev hI⟩
    change b ∈ t ↔ b ∈ extent pre' :: t ∧ b ∉ [extent pre']
    rw [List.mem_cons, List.mem_singleton]
    constructor
    · intro hb
      exact ⟨Or.inr hb, fun heq => hl.not_mem_tail (heq ▸ hb)⟩
    · rintro ⟨hb | hb, hne⟩
      · exact absurd hb hne
      · exact hb

lemma Detached.mergeRight (hI : HeapInv h1.kmem live (pre' ++ mid ++ rest)) (h8 : 8 ≤ extent mid)
    (hD : Detached h1 live l l1 (extent pre') (freeStarts (extent pre') mid))
    (hall : ∀ b, FreeStart live b → b ∈ l) (hM : MergedRight h1 pre' mid rest mid' post' h2)
    (hzero : 0 ∈ l → extent pre' = 0) :
    ∃ l2, Detached h2 live l l2 (extent pre') (freeStarts (extent pre') mid') := by
  obtain ⟨hl, hmem, hnot, hprev⟩ := hD
  have hpos : extent (pre' ++ mid) = extent pre' + extent mid := extent_append pre' mid
  cases hM with
  | keep =>
    refine ⟨l1, hl.congr rfl (fun b hb => sameLinks_of_eq fun x h1 h2 => setWord16_outside ?_) hl.free,
      hmem, hnot, ?_⟩
    · -- The header to the right is no link of a free block.
      by_contra hin
      apply hI.link_not_hard (hl.free b hb) (x := x) (by omega)
      exact ⟨_, _, _, rfl, Or.inl ⟨(fun hk => by cases hk), by omega, by omega⟩⟩
    · rw [← hprev]
      exact word16_setWord16_of_apart (by omega)
  | merge =>
    have hstart : FreeStart live (extent pre' + extent mid) := hpos ▸ ⟨_, hI.gap_of_free⟩
    have hright : extent pre' + extent mid ∈ l1 := by
      refine (hmem _).mpr ⟨hall _ hstart, fun hin => ?_⟩
      have := (hI.layout.freeStarts_bounds hin).2
      omega
    have hl1 : l1 = [extent pre' + extent mid] := by
      rcases hl.short with rfl | ⟨x, rfl⟩ | ⟨x, hx, rfl⟩
      · cases hright
      · rw [List.mem_singleton.mp hright]
      · have h0 := ((hmem 0).mp (List.mem_cons_self ..)).1
        rw [hzero h0] at hnot
        exact absurd (List.mem_cons_self ..) hnot
    subst hl1
    obtain ⟨hp, hn, -⟩ := hl.linked
    refine ⟨[], hl.unlink_head hI, fun b => ?_, List.not_mem_nil, ?_⟩
    · rw [mem_freeStarts_append]
      constructor
      · exact fun hb => absurd hb List.not_mem_nil
      · rintro ⟨hb, hnot'⟩
        have := (hmem b).mpr ⟨hb, fun hin => hnot' (Or.inl hin)⟩
        exact absurd (Or.inr this) hnot'
    · rw [← hprev]
      exact word16_congr (unlinkedMem_of_outside (Or.inl hp) (Or.inl hn))
        (unlinkedMem_of_outside (Or.inl hp) (Or.inl hn))

variable {r : HeapRun} {a : Alloc}

lemma ListedInv.kfreeOk (hinv : ListedInv r L l) (hok : KfreeKeeps addr r.heap.kmem r.live a) :
    KfreeOk r.heap.kmem r.live a where
  held := hok.held
  large := hinv.heap.size_ne_four hinv.noSmall hok.held
  inner := hok.inner
  beside := fun _ hc h4 => absurd h4 (hinv.heap.size_ne_four hinv.noSmall hc)
  links := fun b e hg _ => hinv.list.linksOk (hinv.all b ⟨e, hg⟩)

/-- The end of `coalesce` puts the merged block at the head of what is left of the list. -/
lemma Detached.insert {m : Nat → Nat} {h' : Kheap} {live' : List Alloc} {l2 : List Nat}
    (hI : HeapInv m live (pre' ++ mid ++ post')) (hI' : HeapInv h'.kmem live' (pre' ++ [⟨extent mid, .free⟩] ++ post'))
    (hD : Detached h2 live l l2 (extent pre') (freeStarts (extent pre') mid))
    (hall : ∀ b, FreeStart live b → b ∈ l) (hhead : h'.freelist = some (extent pre'))
    (hw : FreeWords h2.kmem h'.kmem (extent pre') (extent mid) (blockIdx addr h2.freelist))
    (hzero : ∀ b, FreeStart live' b → b ≠ extent pre' → extent pre' = 0)
    (halone : (∀ b c, FreeStart live' b → FreeStart live' c → b = c) → blockIdx addr none = 0) :
    ListInv h' live' (extent pre' :: l2) ∧ ∀ b, FreeStart live' b → b ∈ extent pre' :: l2 := by
  obtain ⟨hl, hmem, hnot, hprev⟩ := hD
  have hext : extent [(⟨extent mid, .free⟩ : Region)] = extent mid := Nat.add_zero _
  have hI1 := hI'
  rw [← append_cons_eq] at hI1
  have h8 := hI1.layout.size_ok.2
  dsimp only at h8
  have hfree : ∀ b ∈ l2, FreeStart live' b := by
    intro b hb
    obtain ⟨hbl, hnotin⟩ := (hmem b).mp hb
    exact (hI.freeStart_replace hI' hext (hl.free b hb)).resolve_left hnotin
  have hout : ∀ b, FreeStart live' b → b ≠ extent pre' → b + 8 ≤ extent pre' ∨ extent pre' + extent mid ≤ b :=
    fun b hb hne => hI1.freeStart_outside hb hne
  have hrest : ∀ b, FreeStart live' b → b ∈ extent pre' :: l2 := by
    intro b hb
    by_cases hne : b = extent pre'
    · exact List.mem_cons.mpr (Or.inl hne)
    · apply List.mem_cons_of_mem
      have hold := (hI'.freeStart_replace hI hext.symm hb).resolve_left
        (fun hin => hne (List.mem_singleton.mp hin))
      refine (hmem b).mpr ⟨hall b hold, fun hin => ?_⟩
      have := hI.layout.freeStarts_bounds hin
      have := hout b hb hne
      omega
  refine ⟨hl.insert hnot ?_ hhead ?_ hw.next ?_ ?_ ?_ ?_, hrest⟩
  · intro b hb
    have := hI'.freeStart_end (hfree b hb)
    omega
  · rw [← hprev]
    exact word16_congr (hw.other _ (by omega) (by omega) (by omega))
      (hw.other _ (by omega) (by omega) (by omega))
  · intro b hb
    have := hout b (hfree b hb) (fun heq => hnot (heq ▸ hb))
    exact sameLinks_of_eq fun x h1 h2 => hw.other x (by omega) (by omega) (by omega)
  · intro b hb
    rcases List.mem_cons.mp hb with rfl | hb
    · exact ⟨_, hI1.gap_of_free⟩
    · exact hfree b hb
  · rintro rfl
    apply halone
    intro b c hb hc
    rw [List.mem_singleton.mp (hrest b hb), List.mem_singleton.mp (hrest c hc)]
  · intro hne
    obtain ⟨b, t, rfl⟩ := List.exists_cons_of_ne_nil hne
    exact hzero b (hfree b (List.mem_cons_self ..)) (fun heq => hnot (heq ▸ List.mem_cons_self ..))

lemma ListedInv.kfree (addr : Nat) (hinv : ListedInv r L l) (hok : KfreeKeeps addr r.heap.kmem r.live a) :
    ∃ r' L' l', r.step addr (.kfree a) = .ok r' ∧ ListedInv r' L' l' := by
  have hfreeOk := hinv.kfreeOk hok
  obtain ⟨hI, hsmall, hl, hall⟩ := hinv
  obtain ⟨pre, s, post, rfl, hptr, hleft, hright⟩ := hI.kfree_split hfreeOk
  obtain ⟨h0, h', pre', mid, post', hrun, hkmem, hfreelist, hC, hI'⟩ :=
    kfree_some addr hI hptr hleft hright hfreeOk.links
  have hL2 := hC.append_eq
  obtain ⟨⟨mid1, h1, h2, hML, hMR, hw⟩, hhead⟩ := hC
  have hl0 : ListInv h0 r.live l := hl.congr hfreelist (fun b _ => by rw [hkmem]; exact ⟨rfl, rfl⟩) hl.free
  rw [← hkmem] at hI hok
  have h8 := hI.layout.size_ok.2
  dsimp only at h8
  have hstart := Alloc.start_eq (a := a) (by omega) hptr
  have hpos := hML.extent_eq
  have hle := hML.extent_le
  have hle' := hMR.extent_le
  have hL1 : pre ++ ⟨a.size, .used⟩ :: s :: post = pre' ++ mid1 ++ s :: post := by
    rw [append_cons_eq, hML.append_eq]
  have hI2 := hI
  rw [hL2] at hI2 hsmall
  have hmerged : ∀ b, FreeStart (r.live.erase a) b → b ≠ extent pre' → extent pre' = 0 := by
    intro b hb hne
    have hI1 := hI'
    rw [← append_cons_eq] at hI1
    exact hok.zero _ _ b hI1.gap_of_free (by omega) (by omega) hb hne
  have hzero : 0 ∈ l → extent pre' = 0 := by
    intro h0
    by_contra hne
    rcases hI2.freeStart_replace hI' (Nat.add_zero _) (hl.free 0 h0) with hin | hb
    · have := (hI2.layout.freeStarts_bounds hin).1
      omega
    · exact hne (hmerged 0 hb (Ne.symm hne))
  obtain ⟨hI1, l1, hD1⟩ := hl0.mergeLeft hI hall hML hzero (fun hk => by
    rw [← hptr]
    exact hok.prev (fun b => hstart ▸ hI.not_gap_before hk))
  rw [hL1] at hI1
  obtain ⟨l2, hD2⟩ := hD1.mergeRight hI1 (by omega) hall hMR hzero
  obtain ⟨hl', hall'⟩ := hD2.insert hI2 hI' hall hhead hw hmerged hok.alone
  exact ⟨_, _, _, hrun, hI', hsmall.replace (by simp [NoSmall]), hl', hall'⟩

end Kfree

section Runs

variable {addr : Nat} {r : HeapRun}

lemma listedInv_boot : ListedInv bootRun [⟨65532, .free⟩] [0] where
  heap := heapInv_boot
  noSmall := by simp [NoSmall]
  list := by
    refine ⟨rfl, ⟨rfl, rfl, trivial⟩, fun b hb => ?_, Or.inr (Or.inl ⟨0, rfl⟩)⟩
    cases List.mem_singleton.mp hb
    exact heapInv_boot.freeStart_iff.mpr ⟨[], 65532, [], rfl, rfl⟩
  all := fun b hb => heapInv_boot.freeStart_iff_mem.mp hb

lemma ListedInv.step {L : List Region} {l : List Nat} (hinv : ListedInv r L l) {c : HeapCall}
    (hok : CallKeeps addr r c) : ∃ r' L' l', r.step addr c = .ok r' ∧ ListedInv r' L' l' := by
  cases c with
  | kmalloc n => exact hinv.kmalloc addr hok
  | kfree a => exact hinv.kfree addr hok
  | write x v => exact hok.elim

lemma listedInv_of_reach (hr : HeapReach addr (CallKeeps addr) r) : ∃ L l, ListedInv r L l := by
  refine hr.invariant (P := fun r => ∃ L l, ListedInv r L l) (fun s hs => ?_) (fun s c hinv hok => ?_)
  · rw [hs.eq]
    exact ⟨_, _, listedInv_boot⟩
  · obtain ⟨L, l, hinv⟩ := hinv
    obtain ⟨s', L', l', hrun, hinv'⟩ := hinv.step hok
    exact ⟨s', hrun, L', l', hinv'⟩

/-- Calls that keep the list in order do not fault, and leave it in order. -/
theorem freeList_ok (addr : Nat) (r : HeapRun) (hr : HeapReach addr (CallKeeps addr) r) :
    FreeListOk r.heap ∧ ∀ c, CallKeeps addr r c → ∃ r', r.step addr c = .ok r' := by
  obtain ⟨L, l, hinv⟩ := listedInv_of_reach hr
  refine ⟨hinv.list.freeListOk hinv.heap hinv.noSmall hinv.all, fun c hok => ?_⟩
  obtain ⟨r', -, -, hrun, -⟩ := hinv.step hok
  exact ⟨r', hrun⟩

/-- The latest of three blocks is merged into the free block before it, from which a further request is
served. -/
theorem freeList_ok_merged : ∃ r, HeapReach 0x100000 (CallKeeps 0x100000) r ∧
    r.live = [⟨65490, 12⟩, ⟨65502, 24⟩, ⟨65526, 8⟩] ∧ FreeListOk r.heap := by
  have hplay : (play (HeapRun.step 0x100000) (CallKeeps 0x100000) bootRun [.kmalloc 8, .kmalloc 24,
      .kmalloc 16, .kfree ⟨65486, 16⟩, .kmalloc 12]).any
      (fun r => decide (r.live = [⟨65490, 12⟩, ⟨65502, 24⟩, ⟨65526, 8⟩])) = true := by
    decide +kernel
  obtain ⟨r, hrun, hlive⟩ := (Option.any_eq_true _ _).mp hplay
  have hr := (Reach.init booted_bootRun).play hrun
  exact ⟨r, hr, of_decide_eq_true hlive, (freeList_ok 0x100000 r hr).1⟩

/-- Freeing the middle one of three blocks puts it in front of block 0, whose `prev` stays 0. -/
theorem freeList_not_linked_back :
    ∃ r, HeapReach 0x100000 Quiet r ∧ ¬FreeListOk r.heap := by
  have hplay : (play (HeapRun.step 0x100000) Quiet bootRun
      [.kmalloc 8, .kmalloc 8, .kmalloc 8, .kfree ⟨65518, 8⟩]).any
      (fun r => decide (r.heap.freelist = some 65516 ∧ 0 ∈ freeBlocks r.heap.kmem ∧
        word16 r.heap.kmem (word16 r.heap.kmem 65520 + 2) = 0)) = true := by
    decide +kernel
  obtain ⟨r, hrun, hr⟩ := (Option.any_eq_true _ _).mp hplay
  obtain ⟨hhead, hzero, hprev⟩ := of_decide_eq_true hr
  refine ⟨r, (Reach.init booted_bootRun).play hrun, fun hok => ?_⟩
  have hback := hok.prev_next hhead hzero (by decide)
  rw [hprev] at hback
  cases hback

end Runs

end JavaScriptOS.Heap
