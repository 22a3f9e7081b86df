import JavaScriptOS.Heap.Steps

/-!
# The allocator's bytes in two heaps

What `remove_from_free_list`, `place` and `coalesce` read of a heap whose free blocks are in order
is its headers, links and footers. Two heaps with the same such bytes stay that way.
-/

namespace JavaScriptOS.Heap
open JavaScriptOS.Lib

section Data

/-- The allocator's bytes in a region. -/
def RegionByte (p : Nat) (r : Region) (x : Nat) : Prop :=
  match r.kind with
  | .free => (p ≤ x ∧ x < p + 6) ∨ (p + r.size - 2 ≤ x ∧ x < p + r.size)
  | .used => p ≤ x ∧ x < p + 2
  | .small => False

def DataByte : Nat → List Region → Nat → Prop
  | _, [], _ => False
  | p, r :: L, x => RegionByte p r x ∨ DataByte (p + r.size) L x

variable {m m' : Nat → Nat} {live : List Alloc} {L pre mid mid' post : List Region} {r : Region} {p x : Nat}

lemma dataByte_append (L L' : List Region) : DataByte p (L ++ L') x ↔
    DataByte p L x ∨ DataByte (p + extent L) L' x := by
  induction L generalizing p with
  | nil => simp [DataByte]
  | cons r L ih => rw [List.cons_append, DataByte, DataByte, ih, extent_cons, Nat.add_assoc, or_assoc]

lemma dataByte_of_region (hx : RegionByte (extent pre) r x) : DataByte 0 (pre ++ r :: post) x := by
  rw [dataByte_append, Nat.zero_add]
  exact Or.inr (Or.inl hx)

lemma DataByte.exists_region (hx : DataByte p L x) :
    ∃ pre r post, L = pre ++ r :: post ∧ RegionByte (p + extent pre) r x := by
  induction L generalizing p with
  | nil => exact hx.elim
  | cons r L ih =>
    rcases hx with hx | hx
    · exact ⟨[], r, L, rfl, hx⟩
    · obtain ⟨pre, s, post, rfl, hs⟩ := ih hx
      exact ⟨r :: pre, s, post, rfl, by rw [extent_cons, ← Nat.add_assoc]; exact hs⟩

/-- The data of a layout in which `mid` has become `mid'`. -/
lemma DataByte.replace (hx : DataByte 0 (pre ++ mid' ++ post) x) (hext : extent mid' = extent mid) :
    DataByte 0 (pre ++ mid ++ post) x ∨ DataByte (extent pre) mid' x := by
  rw [dataByte_append, dataByte_append, Nat.zero_add, Nat.zero_add, extent_append] at hx ⊢
  rw [← hext]
  rcases hx with (hx | hx) | hx
  · exact Or.inl (Or.inl (Or.inl hx))
  · exact Or.inr hx
  · exact Or.inl (Or.inr hx)

lemma HeapInv.metaByte_of_data (hI : HeapInv m live L) (hx : DataByte 0 L x) : MetaByte live x := by
  obtain ⟨pre, ⟨size, kind⟩, post, rfl, hr⟩ := hx.exists_region
  rw [Nat.zero_add] at hr
  cases kind with
  | free => exact Or.inr ⟨_, _, hI.gap_of_free, hr⟩
  | used => exact hI.metaByte_of_hard ⟨pre, _, post, rfl, Or.inl ⟨(fun hk => by cases hk), hr⟩⟩
  | small => exact hr.elim

lemma Layout.dataByte_lt {m : Nat → Nat} {x : Nat} (hL : Layout m L) (hx : DataByte 0 L x) : x < 65532 := by
  obtain ⟨pre, ⟨size, kind⟩, post, rfl, hr⟩ := hx.exists_region
  have hend := hL.end_le
  have h8 := hL.size_ok.2
  rw [Nat.zero_add] at hr
  dsimp only at hend h8
  cases kind with
  | free =>
    rcases hr with hr | hr
    · omega
    · dsimp only at hr
      omega
  | used =>
    have := hr.2
    omega
  | small => exact hr.elim

end Data

section Same

variable {S : Nat → Prop} {h h' : Kheap} {a b v : Nat}

/-- Two heaps with the same free list head that agree on the bytes in `S`. -/
structure SameOn (S : Nat → Prop) (h h' : Kheap) : Prop where
  freelist : h'.freelist = h.freelist
  bytes : ∀ x, S x → SameByte h.kmem h'.kmem x

lemma SameOn.word_eq (hS : SameOn S h h') (h0 : S a) (h1 : S (a + 1)) : word16 h.kmem a = word16 h'.kmem a :=
  (hS.bytes a h0).word16_eq (hS.bytes (a + 1) h1)

lemma SameOn.setWord16 (hS : SameOn S h h') : SameOn S { h with kmem := setWord16 h.kmem a v }
    { h' with kmem := setWord16 h'.kmem a v } :=
  ⟨hS.freelist, fun x hx => (hS.bytes x hx).setWord16⟩

/-- Two heaps that agree on the links of `b` still agree when it is unlinked. -/
lemma SameOn.unlinked (hS : SameOn S h h') (hlinks : ∀ x, b + 2 ≤ x → x < b + 6 → S x) :
    SameOn S (unlinked h b) (unlinked h' b) := by
  have hp := hS.word_eq (hlinks (b + 2) (by omega) (by omega)) (hlinks _ (by omega) (by omega))
  have hn := hS.word_eq (hlinks (b + 4) (by omega) (by omega)) (hlinks _ (by omega) (by omega))
  refine ⟨?_, fun x hx => ?_⟩
  · simp only [Heap.unlinked, unlinkedHead]
    rw [hp, hn, hS.freelist]
  · have hx := hS.bytes x hx
    simp only [Heap.unlinked, unlinkedMem]
    rw [← hp, ← hn]
    by_cases hp0 : word16 h.kmem (b + 2) = 0
    · by_cases hn0 : word16 h.kmem (b + 4) = 0
      · rw [if_pos hn0, if_pos hn0, if_pos hp0, if_pos hp0]
        exact hx
      · rw [if_neg hn0, if_neg hn0, if_pos hp0, if_pos hp0]
        exact hx.setWord16
    · by_cases hn0 : word16 h.kmem (b + 4) = 0
      · rw [if_pos hn0, if_pos hn0, if_neg hp0, if_neg hp0]
        exact hx.setWord16
      · rw [if_neg hn0, if_neg hn0, if_neg hp0, if_neg hp0]
        exact hx.setWord16.setWord16

end Same

section Writes

variable {u u' m m' : Nat → Nat} {b x size n idx : Nat}

/-- Bytes after the same split, read back from what was there or from what was written. -/
lemma PlacedRight.sameByte (hw : PlacedRight u m b size n idx) (hw' : PlacedRight u' m' b size n idx)
    (hheader : word16 u b = word16 u' b)
    (hright : b + size - n + n / 4 * 4 ≤ x →
      word16 u (b + size - n + n / 4 * 4) = word16 u' (b + size - n + n / 4 * 4))
    (hx : SameByte u u' x ∨ (b ≤ x ∧ x < b + 2) ∨ (b + 4 ≤ x ∧ x < b + 6) ∨
      (b + (size - n) / 4 * 4 - 2 ≤ x ∧ x < b + (size - n) / 4 * 4) ∨
      (b + size - n ≤ x ∧ x < b + size - n + 2)) : SameByte m m' x := by
  by_cases h1 : b ≤ x ∧ x < b + 2
  · exact sameByte_of_word16 (by rw [hw.header, hw'.header, hheader]) h1.1 h1.2
  by_cases h2 : b + 4 ≤ x ∧ x < b + 6
  · exact sameByte_of_word16 (by rw [hw.next, hw'.next]) h2.1 h2.2
  by_cases h3 : b + (size - n) / 4 * 4 - 2 ≤ x ∧ x < b + (size - n) / 4 * 4
  · exact sameByte_of_word16 (by rw [hw.footer, hw'.footer, hheader]) h3.1 (by omega)
  by_cases h4 : b + size - n ≤ x ∧ x < b + size - n + 2
  · exact sameByte_of_word16 (by rw [hw.allocated, hw'.allocated]) h4.1 h4.2
  by_cases h5 : b + size - n + n / 4 * 4 ≤ x ∧ x < b + size - n + n / 4 * 4 + 2
  · exact sameByte_of_word16 (by rw [hw.right, hw'.right, hright h5.1]) h5.1 h5.2
  have hu : SameByte u u' x := by
    rcases hx with hx | hx | hx | hx | hx
    · exact hx
    · exact absurd hx h1
    · exact absurd hx h2
    · exact absurd hx h3
    · exact absurd hx h4
  unfold SameByte
  rw [hw.other x (by omega) (by omega) (by omega) (by omega) (by omega),
    hw'.other x (by omega) (by omega) (by omega) (by omega) (by omega)]
  exact hu

lemma PlacedWhole.sameByte (hw : PlacedWhole u m b size) (hw' : PlacedWhole u' m' b size)
    (hright : b + size ≤ x → word16 u (b + size) = word16 u' (b + size))
    (hx : SameByte u u' x ∨ (b ≤ x ∧ x < b + 2)) : SameByte m m' x := by
  by_cases h1 : b ≤ x ∧ x < b + 2
  · exact sameByte_of_word16 (by rw [hw.header, hw'.header]) h1.1 h1.2
  by_cases h2 : b + size ≤ x ∧ x < b + size + 2
  · exact sameByte_of_word16 (by rw [hw.right, hw'.right, hright h2.1]) h2.1 h2.2
  unfold SameByte
  rw [hw.other x (by omega) (by omega), hw'.other x (by omega) (by omega)]
  exact hx.resolve_right h1

lemma FreeWords.sameByte (hw : FreeWords u m b size idx) (hw' : FreeWords u' m' b size idx)
    (hx : SameByte u u' x ∨ (b ≤ x ∧ x < b + 2) ∨ (b + 4 ≤ x ∧ x < b + 6) ∨
      (b + size - 2 ≤ x ∧ x < b + size)) : SameByte m m' x := by
  by_cases h1 : b ≤ x ∧ x < b + 2
  · exact sameByte_of_word16 (by rw [hw.header, hw'.header]) h1.1 h1.2
  by_cases h2 : b + 4 ≤ x ∧ x < b + 6
  · exact sameByte_of_word16 (by rw [hw.next, hw'.next]) h2.1 h2.2
  by_cases h3 : b + size - 2 ≤ x ∧ x < b + size
  · exact sameByte_of_word16 (by rw [hw.footer, hw'.footer]) h3.1 (by omega)
  have hu : SameByte u u' x := by
    rcases hx with hx | hx | hx | hx
    · exact hx
    · exact absurd hx h1
    · exact absurd hx h2
    · exact absurd hx h3
  unfold SameByte
  rw [hw.other x (by omega) (by omega) (by omega), hw'.other x (by omega) (by omega) (by omega)]
  exact hu

end Writes

section Merge

variable {addr size : Nat} {S : Nat → Prop} {h h' h1 h1' h2 h2' : Kheap}
  {pre pre1 pre1' mid mid1 mid1' mid2 mid2' rest post post' : List Region}

lemma MergedLeft.same (hM : MergedLeft h size pre pre1 mid1 h1) (hM' : MergedLeft h' size pre pre1' mid1' h1')
    (hS : SameOn S h h') (hlinks : ∀ pre0 s, pre = pre0 ++ [⟨s, .free⟩] →
      ∀ x, extent pre0 + 2 ≤ x → x < extent pre0 + 6 → S x) :
    pre1' = pre1 ∧ mid1' = mid1 ∧ SameOn S h1 h1' := by
  cases hM with
  | keep hk =>
    cases hM' with
    | keep => exact ⟨rfl, rfl, hS⟩
    | merge =>
      rw [lastOr_concat] at hk
      cases hk
  | @merge _ lsize =>
    generalize heq : pre1 ++ [(⟨lsize, .free⟩ : Region)] = p at hM'
    cases hM' with
    | keep hk =>
      rw [← heq, lastOr_concat] at hk
      cases hk
    | merge =>
      obtain ⟨rfl, hlast⟩ := List.append_inj' heq rfl
      cases hlast
      exact ⟨rfl, rfl, hS.unlinked (hlinks _ _ rfl)⟩

lemma MergedRight.same (hM : MergedRight h1 pre1 mid1 rest mid2 post h2)
    (hM' : MergedRight h1' pre1 mid1 rest mid2' post' h2') (hS : SameOn S h1 h1')
    (hfree : ∀ s t, rest = ⟨s, .free⟩ :: t →
      ∀ x, extent pre1 + extent mid1 + 2 ≤ x → x < extent pre1 + extent mid1 + 6 → S x)
    (hused : ∀ s t, rest = ⟨s, .used⟩ :: t →
      ∀ x, extent pre1 + extent mid1 ≤ x → x < extent pre1 + extent mid1 + 2 → S x) :
    mid2' = mid2 ∧ post' = post ∧ SameOn S h2 h2' := by
  cases hM with
  | merge =>
    cases hM'
    exact ⟨rfl, rfl, hS.unlinked (hfree _ _ rfl)⟩
  | keep =>
    cases hM'
    have hheader := hused _ _ rfl
    refine ⟨rfl, rfl, ?_⟩
    rw [hS.word_eq (hheader _ (by omega) (by omega)) (hheader _ (by omega) (by omega))]
    exact hS.setWord16

/-- The word that becomes `prev`: a link already, or the first word of the payload. -/
lemma MergedLeft.prev_mem (hM : MergedLeft h size pre pre1 mid1 h1)
    (hdata : ∀ x, DataByte 0 (pre ++ ⟨size, .used⟩ :: rest) x → S x)
    (hkeep : leftKind (lastOr none pre) = .used → ∀ x, extent pre + 2 ≤ x → x < extent pre + 4 → S x) :
    ∀ x, extent pre1 + 2 ≤ x → x < extent pre1 + 4 → S x := by
  intro x hx hx'
  cases hM with
  | keep hk => exact hkeep hk x hx hx'
  | merge =>
    apply hdata
    rw [List.append_assoc, List.singleton_append]
    exact dataByte_of_region (Or.inl ⟨by omega, by omega⟩)

/-- Both runs make the same free block. -/
lemma Coalesced.same {h0 h0' : Kheap} {pre2 pre2' mid' post2 post2' : List Region}
    (hC : Coalesced addr h0 h size pre rest pre2 mid post2)
    (hC' : Coalesced addr h0' h' size pre rest pre2' mid' post2') (hS : SameOn S h0 h0')
    (hdata : ∀ x, DataByte 0 (pre ++ ⟨size, .used⟩ :: rest) x → S x)
    (hkeep : leftKind (lastOr none pre) = .used → ∀ x, extent pre + 2 ≤ x → x < extent pre + 4 → S x) :
    pre2' = pre2 ∧ mid' = mid ∧ post2' = post2 ∧
      SameOn (DataByte 0 (pre2 ++ [⟨extent mid, .free⟩] ++ post2)) h h' := by
  have hL := hC.append_eq
  obtain ⟨⟨mid1, h1, h2, hML, hMR, hw⟩, hhead⟩ := hC
  obtain ⟨⟨mid1', h1', h2', hML', hMR', hw'⟩, hhead'⟩ := hC'
  have hpos := hML.extent_eq
  have hprev := hML.prev_mem hdata hkeep
  have hright : ∀ s t, rest = s :: t → ∀ x, RegionByte (extent pre2 + extent mid1) s x → S x := by
    rintro s t rfl x hx
    apply hdata
    rw [append_cons_eq]
    apply dataByte_of_region
    rw [extent_append, extent_cons, extent_nil, Nat.add_zero, hpos]
    exact hx
  obtain ⟨rfl, rfl, hS1⟩ := hML.same hML' hS (by
    rintro pre0 s rfl x hx hx'
    apply hdata
    rw [List.append_assoc, List.singleton_append]
    exact dataByte_of_region (Or.inl ⟨by omega, hx'⟩))
  obtain ⟨rfl, rfl, hS2⟩ := hMR.same hMR' hS1
    (fun s t hrest x hx hx' => hright _ t hrest x (Or.inl ⟨by omega, hx'⟩))
    (fun s t hrest x hx hx' => hright _ t hrest x ⟨hx, hx'⟩)
  refine ⟨rfl, rfl, rfl, hhead'.trans hhead.symm, fun x hx => ?_⟩
  rw [hS2.freelist] at hw'
  apply hw.sameByte hw'
  rcases hx.replace (Nat.add_zero _) with hold | (hx | hx) | hx
  · rw [← hL] at hold
    exact Or.inl (hS2.bytes x (hdata x hold))
  · by_cases hlink : extent pre2' + 2 ≤ x ∧ x < extent pre2' + 4
    · exact Or.inl (hS2.bytes x (hprev x hlink.1 hlink.2))
    · omega
  · exact Or.inr (Or.inr (Or.inr hx))
  · exact hx.elim

end Merge

end JavaScriptOS.Heap
