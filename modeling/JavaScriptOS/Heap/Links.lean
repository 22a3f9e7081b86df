import JavaScriptOS.Heap.Layout

/-!
# Links of free blocks

`remove_from_free_list` writes through the links of the block it removes. As long as a link is 0,
leads to a free block, or leads to bytes of the heap that are not the allocator's, the layout
survives. These conditions are about finitely many stretches between live blocks, so they can be
evaluated.
-/

namespace JavaScriptOS.Heap
open JavaScriptOS.Lib

/-- `b` is the start of a gap between the live allocations. -/
def FreeStart (live : List Alloc) (b : Nat) : Prop := ∃ e, Gap live b e

/-- The bytes in which the allocator keeps its data: headers of live blocks, and headers, links
and footers of free blocks. -/
def MetaByte (live : List Alloc) (x : Nat) : Prop :=
  (∃ a ∈ live, a.size ≠ 4 ∧ a.ptr - 2 ≤ x ∧ x < a.ptr) ∨
    ∃ b e, Gap live b e ∧ ((b ≤ x ∧ x < b + 6) ∨ (e - 2 ≤ x ∧ x < e))

/-- A link `x` through which the word at `x + off` is written. -/
def LinkOk (live : List Alloc) (x off : Nat) : Prop :=
  x = 0 ∨ FreeStart live x ∨
    (x + off + 2 ≤ 65532 ∧ ¬MetaByte live (x + off) ∧ ¬MetaByte live (x + off + 1))

@[mk_iff]
structure LinksOk (m : Nat → Nat) (live : List Alloc) (b : Nat) : Prop where
  prev : LinkOk live (word16 m (b + 2)) 4
  next : LinkOk live (word16 m (b + 4)) 2

variable {m : Nat → Nat} {live : List Alloc} {L pre post : List Region} {size b c off x : Nat}

section Evaluation

instance (live : List Alloc) (x : Nat) : Decidable (Covered live x) :=
  inferInstanceAs (Decidable (∃ a ∈ live, a.start ≤ x ∧ x < a.stop))

/-- A stretch is free of live blocks if none of them reaches into it. -/
lemma not_covered_iff {b e : Nat} (hlt : b < e) : (∀ x, b ≤ x → x < e → ¬Covered live x) ↔
    ∀ a ∈ live, a.stop ≤ b ∨ e ≤ a.start ∨ a.stop ≤ a.start := by
  constructor
  · intro hfree a ha
    by_contra hin
    exact hfree (max b a.start) (by omega) (by omega) ⟨a, ha, by omega, by omega⟩
  · rintro hout x hb he ⟨a, ha, hx⟩
    have := hout a ha
    omega

lemma gap_iff {b e : Nat} : Gap live b e ↔ b < e ∧ e ≤ 65532 ∧
    (∀ a ∈ live, a.stop ≤ b ∨ e ≤ a.start ∨ a.stop ≤ a.start) ∧
    (b = 0 ∨ Covered live (b - 1)) ∧ (e = 65532 ∨ Covered live e) := by
  constructor
  · rintro ⟨hlt, hle, hempty, hleft, hright⟩
    exact ⟨hlt, hle, (not_covered_iff hlt).mp hempty, hleft, hright⟩
  · rintro ⟨hlt, hle, hempty, hleft, hright⟩
    exact ⟨hlt, hle, (not_covered_iff hlt).mpr hempty, hleft, hright⟩

instance (live : List Alloc) (b e : Nat) : Decidable (Gap live b e) := decidable_of_iff _ gap_iff.symm

/-- Where a gap can start, and where it can end. -/
def gapStarts (live : List Alloc) : List Nat := 0 :: live.map Alloc.stop

def gapEnds (live : List Alloc) : List Nat := 65532 :: live.map Alloc.start

lemma Gap.start_mem {b e : Nat} (hg : Gap live b e) : b ∈ gapStarts live := by
  rcases hg.left with rfl | ⟨a, ha, hlo, hhi⟩
  · exact List.mem_cons_self
  · have hlt := hg.lt
    have hstop : a.stop ≤ b := by
      by_contra hin
      exact hg.empty b (Nat.le_refl b) hlt ⟨a, ha, by omega, by omega⟩
    by_cases h0 : b = 0
    · rw [h0]
      exact List.mem_cons_self
    · have hb : a.stop = b := by omega
      exact List.mem_cons_of_mem _ (List.mem_map.mpr ⟨a, ha, hb⟩)

lemma Gap.end_mem {b e : Nat} (hg : Gap live b e) : e ∈ gapEnds live := by
  rcases hg.right with rfl | ⟨a, ha, hlo, hhi⟩
  · exact List.mem_cons_self
  · have hlt := hg.lt
    have hstart : a.start = e := by
      by_contra hne
      exact hg.empty (e - 1) (by omega) (by omega) ⟨a, ha, by omega, by omega⟩
    exact List.mem_cons_of_mem _ (List.mem_map.mpr ⟨a, ha, hstart⟩)

lemma forall_gap_iff {P : Nat → Nat → Prop} : (∀ b e, Gap live b e → P b e) ↔
    ∀ b ∈ gapStarts live, ∀ e ∈ gapEnds live, Gap live b e → P b e :=
  ⟨fun h b _ e _ hg => h b e hg, fun h b e hg => h b hg.start_mem e hg.end_mem hg⟩

instance (live : List Alloc) (P : Nat → Nat → Prop) [∀ b e, Decidable (P b e)] :
    Decidable (∀ b e, Gap live b e → P b e) := decidable_of_iff _ forall_gap_iff.symm

lemma not_gap_iff : (∀ b, ¬Gap live b x) ↔ ∀ b e, Gap live b e → e ≠ x := by
  constructor
  · rintro hno b e hg rfl
    exact hno b hg
  · intro hno b hg
    exact hno b x hg rfl

instance (live : List Alloc) (x : Nat) : Decidable (∀ b, ¬Gap live b x) := decidable_of_iff _ not_gap_iff.symm

lemma forall_freeStart_iff {P : Nat → Prop} : (∀ b, FreeStart live b → P b) ↔
    ∀ b e, Gap live b e → P b :=
  ⟨fun h b e hg => h b ⟨e, hg⟩, fun h b hb => hb.elim fun e hg => h b e hg⟩

instance (live : List Alloc) (P : Nat → Prop) [∀ b, Decidable (P b)] :
    Decidable (∀ b, FreeStart live b → P b) := decidable_of_iff _ forall_freeStart_iff.symm

lemma freeStart_iff_end : FreeStart live b ↔ ∃ e ∈ gapEnds live, Gap live b e := by
  constructor
  · rintro ⟨e, hg⟩
    exact ⟨e, hg.end_mem, hg⟩
  · rintro ⟨e, -, hg⟩
    exact ⟨e, hg⟩

instance (live : List Alloc) (b : Nat) : Decidable (FreeStart live b) :=
  decidable_of_iff _ freeStart_iff_end.symm

lemma not_metaByte_iff : ¬MetaByte live x ↔ (∀ a ∈ live, a.size ≠ 4 → x < a.ptr - 2 ∨ a.ptr ≤ x) ∧
    ∀ b e, Gap live b e → (x < b ∨ b + 6 ≤ x) ∧ (x < e - 2 ∨ e ≤ x) := by
  constructor
  · intro hno
    refine ⟨fun a ha h4 => ?_, fun b e hg => ?_⟩
    · by_contra hin
      exact hno (Or.inl ⟨a, ha, h4, by omega, by omega⟩)
    · by_contra hin
      exact hno (Or.inr ⟨b, e, hg, by omega⟩)
  · rintro ⟨hlive, hgaps⟩ (⟨a, ha, h4, hx⟩ | ⟨b, e, hg, hx⟩)
    · have := hlive a ha h4
      omega
    · have := hgaps b e hg
      omega

instance (live : List Alloc) (x : Nat) : Decidable (¬MetaByte live x) :=
  decidable_of_iff _ not_metaByte_iff.symm

instance (live : List Alloc) (x off : Nat) : Decidable (LinkOk live x off) :=
  inferInstanceAs (Decidable (x = 0 ∨ FreeStart live x ∨
    (x + off + 2 ≤ 65532 ∧ ¬MetaByte live (x + off) ∧ ¬MetaByte live (x + off + 1))))

instance (m : Nat → Nat) (live : List Alloc) (b : Nat) : Decidable (LinksOk m live b) :=
  decidable_of_iff _ (linksOk_iff m live b).symm

end Evaluation

lemma HeapInv.freeStart_iff (h : HeapInv m live L) : FreeStart live b ↔
    ∃ pre size post, L = pre ++ ⟨size, .free⟩ :: post ∧ extent pre = b := by
  constructor
  · rintro ⟨e, hg⟩
    obtain ⟨pre, post, hL, hb⟩ := h.free_of_gap hg
    exact ⟨pre, _, post, hL, hb⟩
  · rintro ⟨pre, size, post, rfl, rfl⟩
    exact ⟨_, h.gap_of_free⟩

/-- Another free block lies before or behind a free region. -/
lemma HeapInv.freeStart_outside (h : HeapInv m live (pre ++ ⟨size, .free⟩ :: post))
    (hc : FreeStart live c) (hne : c ≠ extent pre) : c + 8 ≤ extent pre ∨ extent pre + size ≤ c := by
  obtain ⟨pre', size', post', hL', rfl⟩ := h.freeStart_iff.mp hc
  have h8 := h.layout.size_ok.2
  have h8' := (hL' ▸ h.layout).size_ok.2
  rcases blocks_apart hL' (by omega) (by omega) with ⟨rfl, -, -⟩ | hright | hleft
  · exact absurd rfl hne
  · exact Or.inr hright
  · left
    dsimp only at h8' hleft
    omega

lemma HeapInv.freeStart_apart (h : HeapInv m live L) (hb : FreeStart live b) (hc : FreeStart live c) :
    b = c ∨ b + 8 ≤ c ∨ c + 8 ≤ b := by
  obtain ⟨pre, size, post, rfl, rfl⟩ := h.freeStart_iff.mp hb
  have h8 := h.layout.size_ok.2
  dsimp only at h8
  by_cases hne : c = extent pre
  · exact Or.inl hne.symm
  · have := h.freeStart_outside hc hne
    omega

lemma HeapInv.not_freeStart_of_used (h : HeapInv m live (pre ++ ⟨size, .used⟩ :: post)) :
    ¬FreeStart live (extent pre) := by
  intro hb
  obtain ⟨pre', size', post', hL', hpos⟩ := h.freeStart_iff.mp hb
  have h8 := h.layout.size_ok.2
  have h8' := (hL' ▸ h.layout).size_ok.2
  dsimp only at h8 h8'
  obtain ⟨-, heq, -⟩ := block_unique (x := extent pre) hL' ⟨by omega, by dsimp only; omega⟩
    ⟨by omega, by dsimp only; omega⟩
  cases heq

lemma HeapInv.freeStart_end (h : HeapInv m live L) (hb : FreeStart live b) : b + 8 ≤ 65532 := by
  obtain ⟨pre, size, post, rfl, rfl⟩ := h.freeStart_iff.mp hb
  have h8 := h.layout.size_ok.2
  have hend := h.layout.end_le
  dsimp only at h8 hend
  omega

lemma metaByte_of_link (hb : FreeStart live b) (hx : b ≤ x ∧ x < b + 6) : MetaByte live x := by
  obtain ⟨e, hg⟩ := hb
  exact Or.inr ⟨b, e, hg, Or.inl hx⟩

lemma HeapInv.metaByte_of_hard (h : HeapInv m live L) (hx : HardByte L x) : MetaByte live x := by
  obtain ⟨pre, ⟨size, kind⟩, post, rfl, hx⟩ := hx
  dsimp only at hx
  cases kind with
  | free =>
    refine Or.inr ⟨_, _, h.gap_of_free, ?_⟩
    rcases hx with ⟨-, h1, h2⟩ | ⟨-, h1, h2⟩
    · exact Or.inl ⟨h1, by omega⟩
    · exact Or.inr ⟨h1, h2⟩
  | used =>
    have h8 := h.layout.size_ok.2
    dsimp only at h8
    rcases hx with ⟨-, h1, h2⟩ | ⟨hk, -⟩
    · exact Or.inl ⟨⟨extent pre + 2, size⟩, h.mem_live.mpr ⟨pre, _, post, rfl, rfl⟩,
        by dsimp only; omega, by dsimp only; omega, h2⟩
    · cases hk
  | small =>
    rcases hx with ⟨hk, -⟩ | ⟨hk, -⟩
    · exact absurd rfl hk
    · cases hk

/-- The links of a free block are not header or footer bytes. -/
lemma HeapInv.link_not_hard (h : HeapInv m live L) (hb : FreeStart live b)
    (hx : b + 2 ≤ x ∧ x < b + 6) : ¬HardByte L x := by
  obtain ⟨pre, size, post, hL, rfl⟩ := h.freeStart_iff.mp hb
  have h8 := (hL ▸ h.layout).size_ok.2
  dsimp only at h8
  rintro ⟨pre', r, post', hL', hx'⟩
  have h8' := (hL' ▸ h.layout).size_ok.2
  obtain ⟨rfl, rfl, -⟩ := block_unique (x := x) (hL.symm.trans hL') ⟨by omega, by dsimp only; omega⟩
    ⟨by omega, by omega⟩
  dsimp only at hx'
  omega

/-- A word written through a link is no header and no footer. -/
lemma HeapInv.soft_of_linkOk (h : HeapInv m live L) (hoff : off = 2 ∨ off = 4) (hl : LinkOk live x off)
    (hx : x ≠ 0) {y : Nat} (hy : HardByte L y) : y < x + off ∨ x + off + 2 ≤ y := by
  by_contra hin
  rcases hl with h0 | hfree | ⟨-, hn, hn'⟩
  · exact hx h0
  · exact h.link_not_hard hfree (x := y) (by omega) hy
  · have hm := h.metaByte_of_hard hy
    have hcase : y = x + off ∨ y = x + off + 1 := by omega
    rcases hcase with rfl | rfl
    · exact hn hm
    · exact hn' hm

/-- A word written through a link hits a link of the free block `c` exactly or not at all. -/
lemma HeapInv.link_apart (h : HeapInv m live L) (hoff : off = 2 ∨ off = 4) (hl : LinkOk live x off)
    (hx : x ≠ 0) (hc : FreeStart live c) :
    x = c ∨ x + off + 2 ≤ c ∨ c + 6 ≤ x + off := by
  rcases hl with h0 | hfree | ⟨-, hn, hn'⟩
  · exact absurd h0 hx
  · rcases h.freeStart_apart hfree hc with heq | hlt | hgt
    · exact Or.inl heq
    · exact Or.inr (Or.inl (by omega))
    · exact Or.inr (Or.inr (by omega))
  · right
    by_contra hin
    by_cases h1 : c ≤ x + off ∧ x + off < c + 6
    · exact hn (metaByte_of_link hc h1)
    · exact hn' (metaByte_of_link hc (by omega))

lemma HeapInv.linkOk_fits (h : HeapInv m live L) (hoff : off = 2 ∨ off = 4) (hl : LinkOk live x off) :
    x = 0 ∨ x + off + 2 ≤ 65532 := by
  rcases hl with h0 | hfree | ⟨hin, -⟩
  · exact Or.inl h0
  · have := h.freeStart_end hfree
    omega
  · exact Or.inr hin

lemma HeapInv.unlinkFits (h : HeapInv m live L) (hb : FreeStart live b) (hl : LinksOk m live b) :
    UnlinkFits m b where
  block := by
    have := h.freeStart_end hb
    omega
  prev := by
    by_cases h0 : word16 m (b + 2) = 0
    · exact Or.inl h0
    · right
      have hfits := (h.linkOk_fits (Or.inr rfl) hl.prev).resolve_left h0
      have hapart := h.link_apart (Or.inr rfl) hl.prev h0 hb
      omega
  next := by
    have := h.linkOk_fits (Or.inl rfl) hl.next
    omega

/-- Bytes that the unlinking of `b` leaves alone. -/
lemma unlinkedMem_of_outside (hp : word16 m (b + 2) = 0 ∨ x < word16 m (b + 2) + 4 ∨
      word16 m (b + 2) + 6 ≤ x)
    (hn : word16 m (b + 4) = 0 ∨ x < word16 m (b + 4) + 2 ∨ word16 m (b + 4) + 4 ≤ x) :
    unlinkedMem m b x = m x := by
  unfold unlinkedMem
  by_cases h0 : word16 m (b + 2) = 0
  · by_cases h1 : word16 m (b + 4) = 0
    · simp only [h0, h1, if_true]
    · rw [if_pos h0, if_neg h1, setWord16_outside (by omega)]
  · by_cases h1 : word16 m (b + 4) = 0
    · rw [if_neg h0, if_pos h1, setWord16_outside (by omega)]
    · rw [if_neg h0, if_neg h1, setWord16_outside (by omega), setWord16_outside (by omega)]

lemma HeapInv.unlinked_hard (h : HeapInv m live L) (hl : LinksOk m live b) (hx : HardByte L x) :
    unlinkedMem m b x = m x := by
  apply unlinkedMem_of_outside
  · by_cases h0 : word16 m (b + 2) = 0
    · exact Or.inl h0
    · exact Or.inr (h.soft_of_linkOk (Or.inr rfl) hl.prev h0 hx)
  · by_cases h0 : word16 m (b + 4) = 0
    · exact Or.inl h0
    · exact Or.inr (h.soft_of_linkOk (Or.inl rfl) hl.next h0 hx)

/-- Unlinking a free block keeps the layout. -/
lemma HeapInv.unlinked (h : HeapInv m live L) (hl : LinksOk m live b) :
    HeapInv (unlinkedMem m b) live L :=
  ⟨h.layout.frame fun _ hx => h.unlinked_hard hl hx, h.live_perm⟩

/-- The links of a free block `c` after `b` has been unlinked. -/
lemma HeapInv.unlinked_prev (h : HeapInv m live L) (hl : LinksOk m live b) (hc : FreeStart live c) :
    word16 (unlinkedMem m b) (c + 2) =
      if word16 m (b + 4) = c ∧ c ≠ 0 then word16 m (b + 2) else word16 m (c + 2) := by
  have hlt : word16 m (b + 2) < 65536 := word16_lt
  have hfirst : word16 (if word16 m (b + 2) = 0 then m
      else setWord16 m (word16 m (b + 2) + 4) (word16 m (b + 4))) (c + 2) = word16 m (c + 2) := by
    by_cases h0 : word16 m (b + 2) = 0
    · rw [if_pos h0]
    · have := h.link_apart (Or.inr rfl) hl.prev h0 hc
      rw [if_neg h0, word16_setWord16_of_apart (by omega)]
  unfold unlinkedMem
  by_cases h1 : word16 m (b + 4) = 0
  · have hne : ¬(word16 m (b + 4) = c ∧ c ≠ 0) := by omega
    rw [if_pos h1, if_neg hne, hfirst]
  · have := h.link_apart (Or.inl rfl) hl.next h1 hc
    rw [if_neg h1]
    by_cases heq : word16 m (b + 4) = c ∧ c ≠ 0
    · rw [if_pos heq, heq.1, word16_setWord16_self]
      omega
    · rw [if_neg heq, word16_setWord16_of_apart (by omega), hfirst]

lemma HeapInv.unlinked_next (h : HeapInv m live L) (hl : LinksOk m live b) (hc : FreeStart live c) :
    word16 (unlinkedMem m b) (c + 4) =
      if word16 m (b + 2) = c ∧ c ≠ 0 then word16 m (b + 4) else word16 m (c + 4) := by
  have hlt : word16 m (b + 4) < 65536 := word16_lt
  have hfirst : word16 (if word16 m (b + 2) = 0 then m
      else setWord16 m (word16 m (b + 2) + 4) (word16 m (b + 4))) (c + 4) =
      if word16 m (b + 2) = c ∧ c ≠ 0 then word16 m (b + 4) else word16 m (c + 4) := by
    by_cases h0 : word16 m (b + 2) = 0
    · have hne : ¬(word16 m (b + 2) = c ∧ c ≠ 0) := by omega
      rw [if_pos h0, if_neg hne]
    · have := h.link_apart (Or.inr rfl) hl.prev h0 hc
      rw [if_neg h0]
      by_cases heq : word16 m (b + 2) = c ∧ c ≠ 0
      · rw [if_pos heq, heq.1, word16_setWord16_self]
        omega
      · rw [if_neg heq, word16_setWord16_of_apart (by omega)]
  unfold unlinkedMem
  by_cases h1 : word16 m (b + 4) = 0
  · rw [if_pos h1, hfirst]
  · have := h.link_apart (Or.inl rfl) hl.next h1 hc
    rw [if_neg h1, word16_setWord16_of_apart (by omega), hfirst]

/-- Unlinking hands a block the `prev` or the `next` of the unlinked one. -/
lemma HeapInv.unlinked_links {P Q : Nat → Prop} (h : HeapInv m live L) (hl : LinksOk m live b)
    (hc : FreeStart live c) (hb : P (word16 m (b + 2)) ∧ Q (word16 m (b + 4)))
    (hlc : P (word16 m (c + 2)) ∧ Q (word16 m (c + 4))) :
    P (word16 (unlinkedMem m b) (c + 2)) ∧ Q (word16 (unlinkedMem m b) (c + 4)) := by
  rw [h.unlinked_prev hl hc, h.unlinked_next hl hc]
  constructor
  · split
    · exact hb.1
    · exact hlc.1
  · split
    · exact hb.2
    · exact hlc.2

lemma HeapInv.linksOk_unlinked (h : HeapInv m live L) (hl : LinksOk m live b) (hc : FreeStart live c)
    (hlc : LinksOk m live c) : LinksOk (unlinkedMem m b) live c := by
  obtain ⟨hprev, hnext⟩ := h.unlinked_links (P := fun x => LinkOk live x 4) (Q := fun x => LinkOk live x 2)
    hl hc ⟨hl.prev, hl.next⟩ ⟨hlc.prev, hlc.next⟩
  exact ⟨hprev, hnext⟩

/-- What is written through the links of `b` is not the byte `x`. -/
structure LinksMiss (m : Nat → Nat) (x b : Nat) : Prop where
  prev : word16 m (b + 2) = 0 ∨ x < word16 m (b + 2) + 4 ∨ word16 m (b + 2) + 6 ≤ x
  next : word16 m (b + 4) = 0 ∨ x < word16 m (b + 4) + 2 ∨ word16 m (b + 4) + 4 ≤ x

lemma LinksMiss.unlinkedMem_eq (hl : LinksMiss m x b) : unlinkedMem m b x = m x :=
  unlinkedMem_of_outside hl.prev hl.next

lemma HeapInv.linksMiss_unlinked (h : HeapInv m live L) (hl : LinksOk m live b) (hc : FreeStart live c)
    (hb : LinksMiss m x b) (hlc : LinksMiss m x c) : LinksMiss (unlinkedMem m b) x c := by
  obtain ⟨hprev, hnext⟩ := h.unlinked_links (P := fun y => y = 0 ∨ x < y + 4 ∨ y + 6 ≤ x)
    (Q := fun y => y = 0 ∨ x < y + 2 ∨ y + 4 ≤ x) hl hc ⟨hb.prev, hb.next⟩ ⟨hlc.prev, hlc.next⟩
  exact ⟨hprev, hnext⟩

end JavaScriptOS.Heap
