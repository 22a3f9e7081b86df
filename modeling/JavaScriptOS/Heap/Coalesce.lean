import JavaScriptOS.Heap.Steps
import JavaScriptOS.Heap.Walk

/-!
# Coalescing

In a heap whose tags describe its blocks and whose free blocks are linked to free blocks only,
`kfree` makes one free block of the freed block and its free neighbours and leaves every other
block alone. Whether the free list is in order plays no part.
-/

namespace JavaScriptOS.Heap
open JavaScriptOS.Lib

/-- Blocks tile the heap, no two free blocks are neighbours, and sizes, allocated bits,
left-allocated bits and footers are right. The left-allocated bit of a free block at the start of
the heap is not looked at. -/
structure Tagged (m : Nat → Nat) (L : List Region) : Prop where
  layout : Layout m L
  noSmall : NoSmall L
  freeLeft : ∀ b ∈ freeStarts 0 L, b ≠ 0 → leftAllocated (word16 m b) = 1

/-- A link of the free block `b` is 0 or the start of a free block. -/
structure LinksFree (m : Nat → Nat) (live : List Alloc) (b : Nat) : Prop where
  prev : word16 m (b + 2) = 0 ∨ FreeStart live (word16 m (b + 2))
  next : word16 m (b + 4) = 0 ∨ FreeStart live (word16 m (b + 4))

/-- A heap with right tags in which the links of free blocks lead to free blocks. -/
structure WellFormed (m : Nat → Nat) (L : List Region) : Prop where
  tagged : Tagged m L
  links : ∀ b ∈ freeStarts 0 L, ∀ off ∈ [2, 4],
    word16 m (b + off) = 0 ∨ word16 m (b + off) ∈ freeStarts 0 L

/-- The size of the free block at the head of a list, and the blocks without it. -/
def takeFree : List Region → Nat × List Region
  | ⟨size, .free⟩ :: L => (size, L)
  | L => (0, L)

/-- What becomes of the blocks when one of `size` bytes between `pre` and `post` is freed: it is one
free block with its free neighbours. -/
def freed (pre : List Region) (size : Nat) (post : List Region) : List Region :=
  (takeFree pre.reverse).2.reverse ++ [⟨(takeFree pre.reverse).1 + size + (takeFree post).1, .free⟩] ++
    (takeFree post).2

/-- `x` lies behind the header of an allocated block that is not the one at `b`. -/
def OtherPayload (L : List Region) (b x : Nat) : Prop :=
  ∃ pre size post, L = pre ++ ⟨size, .used⟩ :: post ∧ extent pre ≠ b ∧
    extent pre + 2 ≤ x ∧ x < extent pre + size

/-- `x` is no byte of a link. -/
def NoLinkByte (live : List Alloc) (x : Nat) : Prop := ∀ d, FreeStart live d → x < d + 2 ∨ d + 6 ≤ x

variable {addr size : Nat} {h h' h1 h2 : Kheap} {m : Nat → Nat} {live : List Alloc} {r : Region}
  {L pre pre' mid mid' rest post post' : List Region} {b c x : Nat}

section Frame

lemma LinksFree.linksOk (hl : LinksFree m live b) : LinksOk m live b where
  prev := hl.prev.imp_right Or.inl
  next := hl.next.imp_right Or.inl

/-- Unlinking writes into links of free blocks only. -/
lemma LinksFree.linksMiss (hl : LinksFree m live b) (hx : NoLinkByte live x) : LinksMiss m x b where
  prev := by
    rcases hl.prev with h0 | hfree
    · exact Or.inl h0
    · have := hx _ hfree
      omega
  next := by
    rcases hl.next with h0 | hfree
    · exact Or.inl h0
    · have := hx _ hfree
      omega

lemma MergedLeft.kmem_eq (hM : MergedLeft h size pre pre' mid h1) (hI : HeapInv h.kmem live (pre ++ rest))
    (hmiss : ∀ b, Gap live b (extent pre) → LinksMiss h.kmem x b) : h1.kmem x = h.kmem x := by
  cases hM with
  | keep => rfl
  | @merge _ lsize =>
    rw [List.append_assoc, List.singleton_append] at hI
    have hgap := hI.gap_of_free
    have hext : extent (pre' ++ [(⟨lsize, .free⟩ : Region)]) = extent pre' + lsize := by
      rw [extent_append, extent_cons, extent_nil, Nat.add_zero]
    exact (hmiss _ (hext ▸ hgap)).unlinkedMem_eq

lemma MergedLeft.linksMiss (hM : MergedLeft h size pre pre' mid h1)
    (hI : HeapInv h.kmem live (pre ++ rest)) (hlinks : ∀ b, Gap live b (extent pre) → LinksOk h.kmem live b)
    (hmiss : ∀ b, Gap live b (extent pre) → LinksMiss h.kmem x b) (hc : FreeStart live c)
    (hmc : LinksMiss h.kmem x c) : LinksMiss h1.kmem x c := by
  cases hM with
  | keep => exact hmc
  | @merge _ lsize =>
    rw [List.append_assoc, List.singleton_append] at hI
    have hext : extent (pre' ++ [(⟨lsize, .free⟩ : Region)]) = extent pre' + lsize := by
      rw [extent_append, extent_cons, extent_nil, Nat.add_zero]
    rw [hext] at hlinks hmiss
    exact hI.linksMiss_unlinked (hlinks _ hI.gap_of_free) hc (hmiss _ hI.gap_of_free) hmc

lemma MergedRight.kmem_eq (hM : MergedRight h1 pre' mid rest mid' post' h2)
    (hI : HeapInv m live (pre' ++ mid ++ rest))
    (hmiss : FreeStart live (extent pre' + extent mid) → LinksMiss h1.kmem x (extent pre' + extent mid))
    (hout : x < extent pre' + extent mid' ∨ extent pre' + extent mid' + 2 ≤ x ∨ post' = []) :
    h2.kmem x = h1.kmem x := by
  cases hM with
  | keep => exact setWord16_outside (hout.imp_right fun h => h.resolve_right (List.cons_ne_nil _ _))
  | merge =>
    have hgap := hI.gap_of_free
    rw [extent_append] at hgap
    exact (hmiss ⟨_, hgap⟩).unlinkedMem_eq

/-- Outside the merged block and the header behind it, `coalesce` writes through the links of the free
neighbours only. -/
lemma Coalesced.kmem_eq (hC : Coalesced addr h h' size pre rest pre' mid post')
    (hI : HeapInv h.kmem live (pre ++ ⟨size, .used⟩ :: rest))
    (hlinks : ∀ b, Gap live b (extent pre) → LinksOk h.kmem live b)
    (hmiss : ∀ b e, Gap live b e → e = extent pre ∨ b = extent pre + size → LinksMiss h.kmem x b)
    (h8 : 8 ≤ extent mid)
    (hout : x < extent pre' ∨ extent pre' + extent mid + 2 ≤ x ∨
      extent pre' + extent mid ≤ x ∧ post' = []) : h'.kmem x = h.kmem x := by
  obtain ⟨⟨mid1, h1, h2, hML, hMR, hw⟩, -⟩ := hC
  have hleft := fun b hg => hmiss b (extent pre) hg (Or.inl rfl)
  have hpos := hML.extent_eq
  have hmiss1 : FreeStart live (extent pre' + extent mid1) → LinksMiss h1.kmem x (extent pre' + extent mid1) := by
    intro hc
    obtain ⟨e, hg⟩ := id hc
    exact hML.linksMiss hI hlinks hleft hc (hmiss _ e hg (Or.inr hpos.symm))
  have hI1 := hI
  rw [append_cons_eq, hML.append_eq] at hI1
  have hright : x < extent pre' + extent mid ∨ extent pre' + extent mid + 2 ≤ x ∨ post' = [] :=
    hout.imp (fun h => by omega) (fun h => h.imp_right And.right)
  have hother : x < extent pre' ∨ extent pre' + extent mid ≤ x := by omega
  rw [hw.other x (by omega) (by omega) (by omega), hMR.kmem_eq hI1 hmiss1 hright, hML.kmem_eq hI hleft]

/-- The bytes of an allocated block are no links. -/
lemma HeapInv.noLinkByte_of_used (hI : HeapInv m live (pre ++ ⟨size, .used⟩ :: post))
    (hx : extent pre ≤ x ∧ x < extent pre + size) : NoLinkByte live x := by
  intro d hd
  obtain ⟨pre1, s, post1, hL, rfl⟩ := hI.freeStart_iff.mp hd
  have h8 := (hL ▸ hI.layout).size_ok.2
  dsimp only at h8
  by_contra hin
  obtain ⟨-, heq, -⟩ := block_unique hL hx ⟨by omega, by dsimp only; omega⟩
  cases heq

/-- The header of a free block is no link. -/
lemma HeapInv.noLinkByte_of_free (hI : HeapInv m live L) (hb : FreeStart live b) (hx : b ≤ x ∧ x < b + 2) :
    NoLinkByte live x := by
  intro d hd
  have := hI.freeStart_apart hb hd
  omega

end Frame

section Spec

lemma takeFree_of_used (L : List Region) (hk : r.kind ≠ .free) : takeFree (r :: L) = (0, r :: L) := by
  obtain ⟨size, kind⟩ := r
  cases kind with
  | free => exact absurd rfl hk
  | used => rfl
  | small => rfl

lemma MergedLeft.takeFree_eq (hM : MergedLeft h size pre pre' mid h1) :
    (takeFree pre.reverse).2.reverse = pre' ∧ (takeFree pre.reverse).1 + size = extent mid := by
  cases hM with
  | keep hk =>
    rcases List.eq_nil_or_concat pre with rfl | ⟨pre1, s, rfl⟩
    · exact ⟨rfl, Nat.add_comm 0 size⟩
    · rw [List.concat_eq_append, lastOr_concat] at hk
      have hkind : s.kind = .used := hk
      rw [List.concat_eq_append, List.reverse_concat, takeFree_of_used _ (by rw [hkind]; decide)]
      simp
  | merge =>
    rw [List.reverse_concat]
    simp [takeFree]

lemma MergedRight.takeFree_eq (hM : MergedRight h1 pre' mid rest mid' post' h2) :
    (takeFree rest).2 = post' ∧ extent mid + (takeFree rest).1 = extent mid' := by
  cases hM with
  | keep => exact ⟨rfl, rfl⟩
  | merge =>
    rw [extent_append, extent_cons, extent_nil]
    exact ⟨rfl, rfl⟩

/-- The blocks that `coalesce` leaves are those the specification names. -/
lemma Coalesced.freed_eq (hC : Coalesced addr h h' size pre rest pre' mid post') :
    freed pre size rest = pre' ++ [⟨extent mid, .free⟩] ++ post' := by
  obtain ⟨⟨mid1, h1, h2, hML, hMR, -⟩, -⟩ := hC
  obtain ⟨hpre, hleft⟩ := hML.takeFree_eq
  obtain ⟨hpost, hright⟩ := hMR.takeFree_eq
  rw [freed, hpre, hpost, hleft, hright]

end Spec

section Kfree

lemma WellFormed.linksFree (hw : WellFormed m L) (hI : HeapInv m live L) (hb : FreeStart live b) :
    LinksFree m live b := by
  rw [hI.freeStart_iff_mem] at hb
  refine ⟨?_, ?_⟩
  · rw [hI.freeStart_iff_mem]
    exact hw.links b hb 2 (by decide)
  · rw [hI.freeStart_iff_mem]
    exact hw.links b hb 4 (by decide)

/-- A free block other than a free region is neither in it nor right behind it. -/
lemma HeapInv.freeStart_apart_free (hI : HeapInv m live (pre ++ ⟨size, .free⟩ :: post)) (hb : FreeStart live b)
    (hne : b ≠ extent pre) : b + 8 ≤ extent pre ∨ extent pre + size + 2 ≤ b := by
  rcases hI.freeStart_outside hb hne with hlt | hge
  · exact Or.inl hlt
  · right
    have hne' : b ≠ extent pre + size := by
      rintro rfl
      obtain ⟨e, hg⟩ := hb
      have hlt := hg.lt
      have hle := hg.le
      rcases hI.gap_of_free.right with htop | hcov
      · omega
      · exact hg.empty _ (Nat.le_refl _) hlt hcov
    obtain ⟨pre1, s, post1, hL1, rfl⟩ := hI.freeStart_iff.mp hb
    have h4 := (hL1 ▸ hI.layout).extent_mod
    have h4' := hI.layout.extent_mod
    have h4'' := hI.layout.size_ok.1
    dsimp only at h4''
    omega

/-- A free block other than the merged one was free before, and its header is kept. -/
lemma Coalesced.free_header {live' : List Alloc}
    (hC : Coalesced addr h h' size pre rest pre' mid post')
    (hI : HeapInv h.kmem live (pre ++ ⟨size, .used⟩ :: rest))
    (hI' : HeapInv h'.kmem live' (pre' ++ [⟨extent mid, .free⟩] ++ post'))
    (hlinks : ∀ b, FreeStart live b → LinksFree h.kmem live b) (hb : FreeStart live' b)
    (hne : b ≠ extent pre') : FreeStart live b ∧ word16 h'.kmem b = word16 h.kmem b := by
  have hold := hI
  rw [hC.append_eq] at hold
  have hext : extent mid = extent [(⟨extent mid, .free⟩ : Region)] := by
    rw [extent_cons, extent_nil, Nat.add_zero]
  have hfree : FreeStart live b := by
    rcases hI'.freeStart_replace hold hext hb with hmid | hfree
    · simp only [freeStarts, freeRegions, if_true, List.append_nil, List.map_cons, List.map_nil,
        List.mem_singleton] at hmid
      exact absurd hmid hne
    · exact hfree
  rw [List.append_assoc, List.singleton_append] at hI'
  have h8 := hI'.layout.size_ok.2
  have hout := hI'.freeStart_apart_free hb hne
  dsimp only at h8
  have hlinksOk : ∀ d, Gap live d (extent pre) → LinksOk h.kmem live d := fun d hg => (hlinks d ⟨_, hg⟩).linksOk
  have hmiss : ∀ x, b ≤ x ∧ x < b + 2 → ∀ d e, Gap live d e → e = extent pre ∨ d = extent pre + size →
      LinksMiss h.kmem x d := fun x hx d e hg _ =>
    (hlinks d ⟨e, hg⟩).linksMiss (hI.noLinkByte_of_free hfree hx)
  refine ⟨hfree, word16_congr ?_ ?_⟩
  · exact hC.kmem_eq hI hlinksOk (hmiss _ (by omega)) h8 (by omega)
  · exact hC.kmem_eq hI hlinksOk (hmiss _ (by omega)) h8 (by omega)

/-- The payloads of the other allocated blocks are kept. -/
lemma Coalesced.payload_eq (hC : Coalesced addr h h' size pre rest pre' mid post')
    (hI : HeapInv h.kmem live (pre ++ ⟨size, .used⟩ :: rest))
    (hI' : HeapInv h'.kmem (live.erase ⟨extent pre + 2, size⟩) (pre' ++ [⟨extent mid, .free⟩] ++ post'))
    (hlinks : ∀ b, FreeStart live b → LinksFree h.kmem live b)
    (hx : OtherPayload (pre ++ ⟨size, .used⟩ :: rest) (extent pre) x) : h'.kmem x = h.kmem x := by
  obtain ⟨pre1, size1, post1, hL1, hne, hlo, hhi⟩ := hx
  have hnolink : NoLinkByte live x := by
    rw [hL1] at hI
    exact hI.noLinkByte_of_used ⟨by omega, hhi⟩
  rw [List.append_assoc, List.singleton_append] at hI'
  have h8 := hI'.layout.size_ok.2
  apply hC.kmem_eq hI (fun d hg => (hlinks d ⟨_, hg⟩).linksOk)
    (fun d e hg _ => (hlinks d ⟨e, hg⟩).linksMiss hnolink) h8
  by_contra hin
  by_cases hmid : x < extent pre' + extent mid
  · -- the other block is still allocated, so it is not inside the merged one
    apply hI'.not_covered_of_free ⟨by omega, hmid⟩
    obtain ⟨hstart, hstop⟩ := allocOf_bounds (hL1 ▸ hI.layout).at_split
      (a := ⟨extent pre1 + 2, size1⟩) rfl
    dsimp only at hstop
    refine ⟨⟨extent pre1 + 2, size1⟩, ?_, by omega, by omega⟩
    refine (List.mem_erase_of_ne ?_).mpr (hI.mem_live.mpr ⟨pre1, _, post1, hL1, rfl⟩)
    intro heq
    have := congrArg Alloc.ptr heq
    dsimp only at this
    omega
  · -- the block behind the merged one starts with its header
    have hL := hC.append_eq
    cases post' with
    | nil =>
      have hend := (hL1 ▸ hI.layout).end_le
      have htop := (hL ▸ hI.layout).extent_eq
      rw [List.append_nil, extent_append] at htop
      dsimp only at hend
      omega
    | cons s post2 =>
      have hs := (hL ▸ hI.layout).size_ok.2
      rw [hL] at hL1
      obtain ⟨rfl, -, -⟩ := block_unique (x := x) hL1 (by rw [extent_append]; omega) (by dsimp only; omega)
      rw [extent_append] at hlo
      omega

lemma NoSmall.left (hsmall : NoSmall (pre ++ post)) : leftKind (lastOr none pre) ≠ .small := by
  rcases List.eq_nil_or_concat pre with rfl | ⟨pre1, s, rfl⟩
  · decide
  · rw [List.concat_eq_append, lastOr_concat]
    exact hsmall s (by simp)

/-- `kfree` on an allocated block of a well-formed heap that is not the last block. -/
theorem kfree_coalesces (addr : Nat) (h : Kheap) (pre post : List Region) (size : Nat) (r : Region)
    (hw : WellFormed h.kmem (pre ++ ⟨size, .used⟩ :: r :: post)) :
    ∃ h', kfree addr h (some (extent pre + 2)) = .ok h' ∧
      Tagged h'.kmem (freed pre size (r :: post)) ∧
      h'.bytesAllocated = (h.bytesAllocated + (65536 - size)) % 65536 ∧
      ∀ x, OtherPayload (pre ++ ⟨size, .used⟩ :: r :: post) (extent pre) x → h'.kmem x = h.kmem x := by
  have hsmall := hw.tagged.noSmall
  have hI : HeapInv h.kmem (allocsOf 0 (pre ++ ⟨size, .used⟩ :: r :: post))
      (pre ++ ⟨size, .used⟩ :: r :: post) := ⟨hw.tagged.layout, List.Perm.refl _⟩
  have hlinks := fun b hb => hw.linksFree hI (b := b) hb
  obtain ⟨h0, h', pre', mid, post', hrun, hbytes, hkmem, -, hC, hI'⟩ := kfree_coalesced addr hI hsmall.left
    (hsmall r (by simp)) (fun b e hg _ => (hlinks b ⟨e, hg⟩).linksOk)
  rw [← hkmem] at hI hlinks
  refine ⟨h', hrun, ?_, hbytes, fun x hx => ?_⟩
  · rw [hC.freed_eq]
    refine ⟨hI'.layout, ?_, fun b hb hb0 => ?_⟩
    · rw [hC.append_eq] at hsmall
      exact hsmall.replace (by simp [NoSmall])
    · rw [← hI'.freeStart_iff_mem] at hb
      by_cases hpos : b = extent pre'
      · obtain ⟨⟨_, _, _, -, -, hwords⟩, -⟩ := hC
        have h4 := hI'.layout
        rw [List.append_assoc, List.singleton_append] at h4
        have hmod := h4.size_ok.1
        dsimp only at hmod
        rw [hpos, hwords.header]
        unfold leftAllocated
        omega
      · obtain ⟨hfree, hsame⟩ := hC.free_header hI hI' hlinks hb hpos
        rw [hI.freeStart_iff_mem] at hfree
        rw [hsame, hkmem]
        exact hw.tagged.freeLeft b hfree hb0
  · rw [← hkmem]
    exact hC.payload_eq hI hI' hlinks hx

/-- An allocated block of 8 bytes between two free blocks. -/
def threeBlocks : Nat → Nat :=
  setWord16 (setWord16 (setWord16 (setWord16 (fun _ => 0) 0 9) 6 9) 8 10) 16 65517

lemma threeBlocks_wellFormed : WellFormed threeBlocks ([⟨8, .free⟩] ++ ⟨8, .used⟩ :: ⟨65516, .free⟩ :: []) := by
  refine ⟨⟨⟨?_, rfl⟩, by simp [NoSmall], by decide⟩, by decide⟩
  refine ⟨⟨by decide, ?_⟩, ⟨by decide, ?_⟩, ⟨by decide, ?_⟩, trivial⟩
  · exact ⟨by decide, by decide, by decide, by decide⟩
  · exact ⟨by decide, by decide, by decide, by decide⟩
  · exact ⟨by decide, by decide, by decide, by decide⟩

theorem kfree_coalesces_three :
    ∃ h', kfree 0 { kmem := threeBlocks, freelist := some 0, bytesAllocated := 8 } (some 10) = .ok h' ∧
      Tagged h'.kmem [⟨65532, .free⟩] ∧ h'.bytesAllocated = 0 := by
  obtain ⟨h', hrun, htagged, hbytes, -⟩ := kfree_coalesces 0
    { kmem := threeBlocks, freelist := some 0, bytesAllocated := 8 } _ _ _ _ threeBlocks_wellFormed
  exact ⟨h', hrun, htagged, hbytes⟩

end Kfree

end JavaScriptOS.Heap
