import JavaScriptOS.Heap.Links

/-!
# The walk over headers

Adding up header sizes from the start of the heap meets every block, as long as no request of at
most 4 bytes has split one.
-/

namespace JavaScriptOS.Heap
open JavaScriptOS.Lib

/-- The blocks whose allocated bit is 0, with their sizes, in the walk over headers from `p`. -/
def freeExtentsFrom (m : Nat → Nat) : Nat → Nat → List (Nat × Nat)
  | 0, _ => []
  | fuel + 1, p =>
    if p < 65532 then
      (if allocated (word16 m p) = 0 then [(p, sizeBits (word16 m p))] else []) ++
        freeExtentsFrom m fuel (p + sizeBits (word16 m p))
    else []

def freeExtents (m : Nat → Nat) : List (Nat × Nat) := freeExtentsFrom m 65536 0

def freeBlocks (m : Nat → Nat) : List Nat := (freeExtents m).map Prod.fst

/-- The free regions of a layout, with their sizes. -/
def freeRegions : Nat → List Region → List (Nat × Nat)
  | _, [] => []
  | p, r :: L => (if r.kind = .free then [(p, r.size)] else []) ++ freeRegions (p + r.size) L

def freeStarts (p : Nat) (L : List Region) : List Nat := (freeRegions p L).map Prod.fst

def NoSmall (L : List Region) : Prop := ∀ r ∈ L, r.kind ≠ .small

variable {m : Nat → Nat} {live : List Alloc} {L : List Region} {left : Option Region} {p fuel b : Nat}

lemma freeRegions_append (p : Nat) (L L' : List Region) :
    freeRegions p (L ++ L') = freeRegions p L ++ freeRegions (p + extent L) L' := by
  induction L generalizing p with
  | nil => rfl
  | cons r L ih =>
    rw [List.cons_append, freeRegions, freeRegions, ih, extent_cons, Nat.add_assoc, List.append_assoc]

lemma mem_freeStarts_append (L L' : List Region) : b ∈ freeStarts p (L ++ L') ↔
    b ∈ freeStarts p L ∨ b ∈ freeStarts (p + extent L) L' := by
  unfold freeStarts
  rw [freeRegions_append, List.map_append, List.mem_append]

lemma mem_freeStarts : b ∈ freeStarts p L ↔
    ∃ pre size post, L = pre ++ ⟨size, .free⟩ :: post ∧ p + extent pre = b := by
  induction L generalizing p with
  | nil => simp [freeStarts, freeRegions]
  | cons r L ih =>
    have hcons : b ∈ freeStarts p (r :: L) ↔ (r.kind = .free ∧ b = p) ∨ b ∈ freeStarts (p + r.size) L := by
      unfold freeStarts
      rw [freeRegions, List.map_append, List.mem_append]
      by_cases hk : r.kind = .free
      · simp [hk]
      · simp [hk]
    rw [hcons, ih]
    constructor
    · rintro (⟨hk, rfl⟩ | ⟨pre, size, post, rfl, rfl⟩)
      · obtain ⟨size, kind⟩ := r
        subst hk
        exact ⟨[], size, L, rfl, rfl⟩
      · exact ⟨r :: pre, size, post, rfl, by rw [extent_cons, Nat.add_assoc]⟩
    · rintro ⟨pre, size, post, hL, rfl⟩
      cases pre with
      | nil =>
        obtain ⟨rfl, -⟩ := List.cons.inj hL
        exact Or.inl ⟨rfl, rfl⟩
      | cons s pre =>
        obtain ⟨rfl, rfl⟩ := List.cons.inj hL
        exact Or.inr ⟨pre, size, post, rfl, by rw [extent_cons, Nat.add_assoc]⟩

lemma HeapInv.freeStart_iff_mem (hI : HeapInv m live L) : FreeStart live b ↔ b ∈ freeStarts 0 L := by
  rw [hI.freeStart_iff, mem_freeStarts]
  simp only [Nat.zero_add]

/-- Without `small` regions the walk over headers finds the free regions. -/
lemma freeExtentsFrom_eq (hL : Tiled (RegionOk m) left p L) (hsmall : NoSmall L)
    (hend : p + extent L = 65532) (hfuel : extent L < 8 * fuel) :
    freeExtentsFrom m fuel p = freeRegions p L := by
  induction L generalizing left p fuel with
  | nil =>
    cases fuel with
    | zero => rfl
    | succ fuel =>
      rw [extent_nil] at hend
      rw [freeExtentsFrom, if_neg (by omega)]
      rfl
  | cons r L ih =>
    obtain ⟨⟨⟨-, h8⟩, hr⟩, hL⟩ := hL
    rw [extent_cons] at hend hfuel
    obtain ⟨size, kind⟩ := r
    dsimp only at h8 hr hL hend hfuel
    have hrest : ∀ fuel, extent L < 8 * fuel →
        freeExtentsFrom m fuel (p + size) = freeRegions (p + size) L := fun fuel hfuel =>
      ih hL (fun s hs => hsmall s (List.mem_cons_of_mem _ hs)) (by omega) hfuel
    cases fuel with
    | zero => omega
    | succ fuel =>
      rw [freeExtentsFrom, if_pos (by omega), freeRegions]
      cases kind with
      | free => rw [hr.header, hr.bit, if_pos rfl, if_pos rfl, hrest fuel (by omega)]
      | used => rw [hr.header, hr.bit, if_neg (by decide), if_neg (fun hk => by cases hk), hrest fuel (by omega)]
      | small => exact absurd rfl (hsmall _ (List.mem_cons_self ..))

lemma Layout.freeExtents_eq (hL : Layout m L) (hsmall : NoSmall L) : freeExtents m = freeRegions 0 L := by
  have hend := hL.extent_eq
  exact freeExtentsFrom_eq hL.tiled hsmall (by omega) (by omega)

lemma HeapInv.mem_freeBlocks (hI : HeapInv m live L) (hsmall : NoSmall L) :
    b ∈ freeBlocks m ↔ FreeStart live b := by
  unfold freeBlocks
  rw [hI.layout.freeExtents_eq hsmall, hI.freeStart_iff_mem]
  rfl

/-- The free blocks outside a part of the layout that changes. -/
lemma HeapInv.freeStart_replace {m m' : Nat → Nat} {live' : List Alloc} {pre mid mid' post : List Region}
    (hI : HeapInv m live (pre ++ mid ++ post)) (hI' : HeapInv m' live' (pre ++ mid' ++ post))
    (hext : extent mid' = extent mid) (hb : FreeStart live b) :
    b ∈ freeStarts (extent pre) mid ∨ FreeStart live' b := by
  rw [hI.freeStart_iff_mem, mem_freeStarts_append, mem_freeStarts_append, Nat.zero_add, Nat.zero_add,
    extent_append] at hb
  rw [hI'.freeStart_iff_mem, mem_freeStarts_append, mem_freeStarts_append, Nat.zero_add, Nat.zero_add,
    extent_append, hext]
  rcases hb with (hpre | hmid) | hpost
  · exact Or.inr (Or.inl (Or.inl hpre))
  · exact Or.inl hmid
  · exact Or.inr (Or.inr hpost)

lemma NoSmall.replace {pre mid mid' post : List Region} (hsmall : NoSmall (pre ++ mid ++ post))
    (hmid : NoSmall mid') : NoSmall (pre ++ mid' ++ post) := by
  intro s hs
  simp only [NoSmall, List.mem_append] at hsmall hs
  rcases hs with (hs | hs) | hs
  · exact hsmall s (Or.inl (Or.inl hs))
  · exact hmid s hs
  · exact hsmall s (Or.inr hs)

lemma Layout.freeStarts_bounds {m : Nat → Nat} {post : List Region} {b : Nat}
    (hL : Layout m (pre ++ mid ++ post)) (hb : b ∈ freeStarts (extent pre) mid) :
    extent pre ≤ b ∧ b < extent pre + extent mid := by
  obtain ⟨pre1, s, post1, rfl, rfl⟩ := mem_freeStarts.mp hb
  rw [← List.append_assoc, List.append_assoc, List.cons_append] at hL
  have h8 := hL.size_ok.2
  dsimp only at h8
  rw [extent_append, extent_cons]
  dsimp only
  omega

lemma HeapInv.size_ne_four {m : Nat → Nat} {a : Alloc} (hI : HeapInv m live L) (hsmall : NoSmall L)
    (ha : a ∈ live) : a.size ≠ 4 := by
  obtain ⟨pre, ⟨s, kind⟩, post, hL, hs⟩ := hI.mem_live.mp ha
  have h8 := (hL ▸ hI.layout).size_ok.2
  dsimp only at h8
  cases kind with
  | free => cases hs
  | used =>
    cases hs
    dsimp only
    omega
  | small =>
    rw [hL] at hsmall
    exact absurd rfl (hsmall _ (List.mem_append_right _ (List.mem_cons_self ..)))

/-- Nothing is free to the left of a region that follows a used one. -/
lemma HeapInv.not_gap_before {pre post : List Region} (hI : HeapInv m live (pre ++ post))
    (hk : leftKind (lastOr none pre) = .used) : ¬Gap live b (extent pre) := by
  intro hg
  have hlt := hg.lt
  rcases List.eq_nil_or_concat pre with rfl | ⟨pre1, s, rfl⟩
  · cases hlt
  · rw [List.concat_eq_append] at hI hk hg hlt
    rw [lastOr_concat] at hk
    have hkind : s.kind = .used := hk
    rw [List.append_assoc, List.singleton_append] at hI
    have h8 := hI.layout.size_ok.2
    have hext : extent (pre1 ++ [s]) = extent pre1 + s.size := by
      rw [extent_append, extent_cons, extent_nil, Nat.add_zero]
    apply hg.empty (extent pre1 + s.size - 1) (by omega) (by omega)
    rw [hI.covered_iff]
    exact ⟨pre1, s, post, rfl, by rw [hkind]; decide, by omega, by omega⟩

end JavaScriptOS.Heap
