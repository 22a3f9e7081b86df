import JavaScriptOS.Heap.Links

/-!
# What `place` and `coalesce` do to the layout

`place` cuts an allocation out of a free region or takes it whole; `coalesce` turns an allocated
region and its free neighbours into one free region.
-/

namespace JavaScriptOS.Heap
open JavaScriptOS.Lib

variable {addr n size : Nat} {h : Kheap} {live : List Alloc} {pre mid mid' post : List Region}

lemma roundSize_cases (n : Nat) : roundSize n = 6 ∨ (roundSize n % 4 = 0 ∧ 8 ≤ roundSize n) := by
  unfold roundSize
  omega

section Place

variable {m m' : Nat → Nat} {left : Option Region} {p idx : Nat}

/-- A region with the words of a free block. -/
lemma regionOk_free (bit : Nat) (h4 : size % 4 = 0) (h8 : 8 ≤ size) (hbit : bit < 2)
    (hheader : word16 m p = size + bit) (hfooter : word16 m (p + size - 2) = size + bit)
    (hleft : leftKind left ≠ .free) : RegionOk m left p ⟨size, .free⟩ := by
  refine ⟨⟨h4, h8⟩, ?_, ?_, ?_, hleft⟩
  · dsimp only
    rw [hheader]
    unfold sizeBits
    omega
  · rw [hheader]
    unfold allocated
    omega
  · dsimp only
    intro _
    rw [hfooter]
    unfold sizeBits
    omega

/-- A region with the header of an allocated block. -/
lemma regionOk_used (bit : Nat) (h4 : size % 4 = 0) (h8 : 8 ≤ size) (hbit : bit < 2)
    (hheader : word16 m p = size + 2 + bit) (hfree : leftKind left = .free → bit = 0)
    (hused : leftKind left = .used → bit = 1) : RegionOk m left p ⟨size, .used⟩ := by
  refine ⟨⟨h4, h8⟩, ?_, ?_, fun hk => ?_, fun hk => ?_⟩
  · dsimp only
    rw [hheader]
    unfold sizeBits
    omega
  · rw [hheader]
    unfold allocated
    omega
  · have := hfree hk
    rw [hheader]
    unfold leftAllocated
    omega
  · have := hused hk
    rw [hheader]
    unfold leftAllocated
    omega

lemma Layout.next_not_free (hL : Layout m (pre ++ ⟨size, .free⟩ :: post)) :
    ∀ r rest, post = r :: rest → r.kind ≠ .free := by
  rintro r rest rfl
  exact hL.right_not_free

/-- The live allocations after the regions `mid` have become `mid'` with one allocation more. -/
lemma perm_allocs_of_replace (hlive : live.Perm (allocsOf 0 (pre ++ mid ++ post)))
    (hext : extent mid' = extent mid) {a : Alloc}
    (hnew : allocsOf (extent pre) mid' = a :: allocsOf (extent pre) mid) :
    (a :: live).Perm (allocsOf 0 (pre ++ mid' ++ post)) := by
  rw [allocsOf_append, allocsOf_append, Nat.zero_add] at hlive ⊢
  rw [extent_append] at hlive ⊢
  rw [hext, hnew, List.append_assoc, List.cons_append]
  rw [List.append_assoc] at hlive
  exact (hlive.cons a).trans List.perm_middle.symm

lemma append_cons_eq (r : Region) : pre ++ r :: post = pre ++ [r] ++ post := by simp

/-- Cutting a region in two keeps its extent. -/
lemma extent_cut {k : Nat} (hk : k ≤ size) (kind kind' kind'' : Kind) :
    extent [(⟨size - k, kind⟩ : Region), ⟨k, kind'⟩] = extent [(⟨size, kind''⟩ : Region)] := by
  simp only [extent_cons, extent_nil]
  omega

/-- The words after a split of a block of `size` bytes for `n` bytes, both multiples of 4. -/
structure PlacedExact (m m' : Nat → Nat) (b size n : Nat) : Prop where
  allocated : word16 m' (b + size - n) = n + 2
  header : word16 m' b = size - n + word16 m b % 2
  footer : word16 m' (b + (size - n) - 2) = size - n + word16 m b % 2
  right : word16 m' (b + size) = word16 m (b + size) / 2 * 2 + 1
  other : ∀ x, (x < b ∨ b + 2 ≤ x) → (x < b + 4 ∨ b + 6 ≤ x) →
    (x < b + (size - n) - 2 ∨ b + (size - n) ≤ x) → (x < b + size - n ∨ b + size - n + 2 ≤ x) →
    (x < b + size ∨ b + size + 2 ≤ x) → m' x = m x

lemma PlacedRight.exact {b : Nat} (hw : PlacedRight m m' b size n idx) (hsize : size % 4 = 0) (h4 : n % 4 = 0)
    (hfit : n ≤ size) : PlacedExact m m' b size n := by
  have hq : (size - n) / 4 * 4 = size - n := by omega
  have hqn : n / 4 * 4 = n := by omega
  have hqr : b + size - n + n = b + size := by omega
  obtain ⟨halloc, hheader, hfooter, -, hright, hother⟩ := hw
  rw [hq] at hheader hfooter
  rw [hqn] at halloc
  rw [hqn, hqr] at hright
  rw [hq, hqn, hqr] at hother
  exact ⟨halloc, hheader, hfooter, hright, hother⟩

/-- A split for a multiple of 4. -/
lemma HeapInv.placed_split (hI : HeapInv m live (pre ++ ⟨size, .free⟩ :: post))
    (hw : PlacedRight m m' (extent pre) size n idx) (h4 : n % 4 = 0) (h8 : 8 ≤ n) (hfit : n + 8 ≤ size) :
    HeapInv m' (⟨extent pre + size - n + 2, n⟩ :: live)
      (pre ++ [⟨size - n, .free⟩, ⟨n, .used⟩] ++ post) := by
  have hfree := hI.layout.free_at
  have hsize4 := hI.layout.size_ok.1
  have hnext := hI.layout.next_not_free
  obtain ⟨hlayout, hlive⟩ := hI
  rw [append_cons_eq] at hlayout hlive
  dsimp only at hsize4
  have hpos : extent pre + (size - n) = extent pre + size - n := by omega
  obtain ⟨halloc, hheader, hfooter, hright, hother⟩ := hw.exact hsize4 h4 (by omega)
  have hext := extent_cut (show n ≤ size by omega) .free .used .free
  refine ⟨?_, ?_⟩
  · apply hlayout.replace hext
    · intro x hx
      exact hother x (by omega) (by omega) (by omega) (by omega) (by omega)
    · intro x hx _
      simp only [extent_cons, extent_nil] at hx
      exact hother x (by omega) (by omega) (by omega) (by omega) (by omega)
    · refine ⟨regionOk_free _ (by omega) (by omega) (Nat.mod_lt _ (by decide)) hheader hfooter
        hfree.left, ?_, trivial⟩
      exact regionOk_used 0 h4 h8 (by decide) (by dsimp only; rw [hpos]; exact halloc)
        (fun _ => rfl) (fun hk => by cases hk)
    · exact hnext
    · intro r rest _ _
      simp only [extent_cons, extent_nil, Nat.add_zero]
      rw [hright]
      refine ⟨by omega, fun hk => ?_, fun _ => by omega⟩
      cases hk
  · apply perm_allocs_of_replace hlive hext
    rw [← hpos]
    rfl

/-- A split for a request of at most 4 bytes: the headers no longer cover the heap. -/
lemma HeapInv.placed_small (hI : HeapInv m live (pre ++ ⟨size, .free⟩ :: post))
    (hw : PlacedRight m m' (extent pre) size 6 idx) (hfit : 14 ≤ size) :
    HeapInv m' (⟨extent pre + size - 6 + 2, 4⟩ :: live)
      (pre ++ [⟨size - 8, .free⟩, ⟨8, .small⟩] ++ post) := by
  have hfree := hI.layout.free_at
  have hsize4 := hI.layout.size_ok.1
  have hnext := hI.layout.next_not_free
  obtain ⟨hlayout, hlive⟩ := hI
  rw [append_cons_eq] at hlayout hlive
  dsimp only at hsize4
  have hq : (size - 6) / 4 * 4 = size - 8 := by omega
  obtain ⟨-, hheader, hfooter, -, -, hother⟩ := hw
  rw [hq] at hheader hfooter hother
  have hext := extent_cut (show 8 ≤ size by omega) .free .small .free
  have hq' : extent pre + size - 6 + 6 / 4 * 4 = extent pre + size - 2 := by omega
  rw [hq'] at hother
  refine ⟨?_, ?_⟩
  · apply hlayout.replace hext
    · intro x hx
      exact hother x (by omega) (by omega) (by omega) (by omega) (by omega)
    · intro x hx _
      simp only [extent_cons, extent_nil] at hx
      exact hother x (by omega) (by omega) (by omega) (by omega) (by omega)
    · refine ⟨regionOk_free _ (by omega) (by omega) (Nat.mod_lt _ (by decide)) hheader hfooter
        hfree.left, ?_, trivial⟩
      exact ⟨⟨rfl, Nat.le_refl 8⟩, rfl⟩
    · exact hnext
    · intro r rest _ _
      simp only [extent_cons, extent_nil, Nat.add_zero]
      have hsame : word16 m' (extent pre + size) = word16 m (extent pre + size) :=
        word16_congr (hother _ (by omega) (by omega) (by omega) (by omega) (by omega))
          (hother _ (by omega) (by omega) (by omega) (by omega) (by omega))
      rw [hsame]
      refine ⟨rfl, fun hk => ?_, fun hk => ?_⟩
      · cases hk
      · cases hk
  · apply perm_allocs_of_replace hlive hext
    have hp : extent pre + size - 6 + 2 = extent pre + (size - 8) + 4 := by omega
    rw [hp]
    rfl

/-- A free block taken whole. -/
lemma HeapInv.placed_whole (hI : HeapInv m live (pre ++ ⟨size, .free⟩ :: post))
    (hw : PlacedWhole m m' (extent pre) size) :
    HeapInv m' (⟨extent pre + 2, size⟩ :: live) (pre ++ [⟨size, .used⟩] ++ post) := by
  obtain ⟨hheader, hright, hother⟩ := hw
  have hfree := hI.layout.free_at
  obtain ⟨h4, h8⟩ := hI.layout.size_ok
  have hnext := hI.layout.next_not_free
  obtain ⟨hlayout, hlive⟩ := hI
  rw [append_cons_eq] at hlayout hlive
  dsimp only at h4 h8
  have hext : extent [(⟨size, .used⟩ : Region)] = extent [(⟨size, .free⟩ : Region)] := rfl
  refine ⟨?_, perm_allocs_of_replace hlive hext rfl⟩
  apply hlayout.replace hext
  · intro x hx
    exact hother x (by omega) (by omega)
  · intro x hx _
    simp only [extent_cons, extent_nil] at hx
    exact hother x (by omega) (by omega)
  · refine ⟨regionOk_used 1 h4 h8 (by decide) hheader ?_ (fun _ => rfl), trivial⟩
    intro hk
    exact absurd hk hfree.left
  · exact hnext
  · intro r rest _ _
    simp only [extent_cons, extent_nil, Nat.add_zero]
    rw [hright]
    refine ⟨by omega, fun hk => ?_, fun _ => by omega⟩
    cases hk

/-- What `place` makes of a free region after `pre`: the allocated block and the new layout. -/
inductive Placed (addr : Nat) (h h' : Kheap) (pre post : List Region) (size n : Nat) :
    Nat → List Region → Prop
  | split (r : Region) : n + 8 ≤ size → (r = ⟨n, .used⟩ ∨ n = 6 ∧ r = ⟨8, .small⟩) →
    h'.freelist = some (extent pre) →
    PlacedRight (unlinkedMem h.kmem (extent pre)) h'.kmem (extent pre) size n
      (blockIdx addr (unlinkedHead h (extent pre))) →
    Placed addr h h' pre post size n (extent pre + size - n) (pre ++ [⟨size - r.size, .free⟩, r] ++ post)
  | whole : size < n + 8 → h'.freelist = unlinkedHead h (extent pre) →
    PlacedWhole (unlinkedMem h.kmem (extent pre)) h'.kmem (extent pre) size →
    Placed addr h h' pre post size n (extent pre) (pre ++ [⟨size, .used⟩] ++ post)

/-- `place` on a free block whose links are in order. -/
lemma place_step (addr : Nat) (hI : HeapInv h.kmem live (pre ++ ⟨size, .free⟩ :: post))
    (hl : LinksOk h.kmem live (extent pre)) (hn : n = 6 ∨ (n % 4 = 0 ∧ 8 ≤ n)) (hfit : n + 2 ≤ size) :
    ∃ a h' L', place addr h (extent pre) n = .ok (a, h') ∧ Placed addr h h' pre post size n a L' ∧
      h'.bytesAllocated = (h.bytesAllocated + sizeBits (word16 h'.kmem a)) % 65536 ∧
      HeapInv h'.kmem (⟨a + 2, sizeBits (word16 h'.kmem a)⟩ :: live) L' := by
  have hremove := removeFromFreeList_ok (hI.unlinkFits ⟨_, hI.gap_of_free⟩ hl)
  have hI1 := hI.unlinked hl
  have hsize := hI1.layout.free_at.header
  have h4 := hI.layout.size_ok.1
  have hend := hI.layout.end_le
  dsimp only at h4 hend
  by_cases hsplit : n + 8 ≤ size
  · obtain ⟨h', hrun, hhead, hbytes, hw⟩ := place_split_ok addr hremove hsize (by omega) hsplit hend
    have halloc : sizeBits (word16 h'.kmem (extent pre + size - n)) = n / 4 * 4 := by
      rw [hw.allocated]
      unfold sizeBits
      omega
    rcases hn with rfl | ⟨hn4, hn8⟩
    · refine ⟨_, h', _, hrun, .split ⟨8, .small⟩ hsplit (Or.inr ⟨rfl, rfl⟩) hhead hw, ?_, ?_⟩
      · rw [halloc]
        exact hbytes
      · rw [halloc]
        exact hI1.placed_small hw hsplit
    · have hqn : n / 4 * 4 = n := by omega
      refine ⟨_, h', _, hrun, .split ⟨n, .used⟩ hsplit (Or.inl rfl) hhead hw, ?_, ?_⟩
      · rw [halloc]
        exact hbytes
      · rw [halloc, hqn]
        exact hI1.placed_split hw hn4 hn8 hsplit
  · obtain ⟨h', hrun, hhead, hbytes, hw⟩ := place_take_ok addr hremove hsize hfit (by omega) (by omega) hend
    have halloc : sizeBits (word16 h'.kmem (extent pre)) = size := by
      rw [hw.header]
      unfold sizeBits
      omega
    refine ⟨_, h', _, hrun, .whole (by omega) hhead hw, ?_, ?_⟩
    · rw [halloc]
      exact hbytes
    · rw [halloc]
      exact hI1.placed_whole hw

end Place

section Coalesce

variable {r : Region} {pre' rest post' : List Region} {h' : Kheap}

/-- The left end of the block that `coalesce` makes of the used region after `pre`: it stands
alone, or takes in the free region before it. -/
inductive MergedLeft (h : Kheap) (size : Nat) :
    List Region → List Region → List Region → Kheap → Prop
  | keep {pre : List Region} : leftKind (lastOr none pre) = .used →
    MergedLeft h size pre pre [⟨size, .used⟩] h
  | merge {pre : List Region} {lsize : Nat} :
    MergedLeft h size (pre ++ [⟨lsize, .free⟩]) pre [⟨lsize, .free⟩, ⟨size, .used⟩] (unlinked h (extent pre))

lemma MergedLeft.append_eq (hM : MergedLeft h size pre pre' mid h') :
    pre ++ [⟨size, .used⟩] = pre' ++ mid := by
  cases hM with
  | keep => rfl
  | merge => rw [List.append_assoc, List.singleton_append]

lemma MergedLeft.extent_eq (hM : MergedLeft h size pre pre' mid h') :
    extent pre + size = extent pre' + extent mid := by
  have := congrArg extent hM.append_eq
  simpa only [extent_append, extent_cons, extent_nil, Nat.add_zero] using this

lemma MergedLeft.extent_le (hM : MergedLeft h size pre pre' mid h') : extent pre' ≤ extent pre := by
  cases hM with
  | keep => exact Nat.le_refl _
  | merge =>
    rw [extent_append]
    exact Nat.le_add_right _ _

lemma MergedLeft.allocs (hM : MergedLeft h size pre pre' mid h') :
    allocsOf (extent pre') mid = [⟨extent pre + 2, size⟩] := by
  cases hM with
  | keep => rfl
  | merge =>
    rw [extent_append, extent_cons, extent_nil]
    rfl

lemma MergedLeft.bytesAllocated_eq (hM : MergedLeft h size pre pre' mid h') :
    h'.bytesAllocated = h.bytesAllocated := by
  cases hM with
  | keep => rfl
  | merge => rfl

lemma MergedLeft.left_not_free {m : Nat → Nat} (hM : MergedLeft h size pre pre' mid h')
    (hL : Layout m (pre ++ post)) : leftKind (lastOr none pre') ≠ .free := by
  cases hM with
  | keep hk =>
    rw [hk]
    decide
  | merge =>
    rw [List.append_assoc, List.singleton_append] at hL
    exact hL.free_at.left

lemma coalesceLeft_step (hI : HeapInv h.kmem live (pre ++ ⟨size, .used⟩ :: post))
    (hsmall : leftKind (lastOr none pre) ≠ .small)
    (hlinks : ∀ b, Gap live b (extent pre) → LinksOk h.kmem live b) :
    ∃ pre' mid h', coalesceLeft h (extent pre) size = .ok (extent pre', extent mid, h') ∧
      MergedLeft h size pre pre' mid h' ∧ HeapInv h'.kmem live (pre ++ ⟨size, .used⟩ :: post) ∧
      ∀ c, FreeStart live c → LinksOk h.kmem live c → LinksOk h'.kmem live c := by
  have hused := hI.layout.used_at
  have hend := hI.layout.end_le
  have h8 := hI.layout.size_ok.2
  dsimp only at hend h8
  cases hk : leftKind (lastOr none pre) with
  | small => exact absurd hk hsmall
  | used =>
    have hla := hused.leftUsed hk
    refine ⟨pre, [⟨size, .used⟩], h, ?_, .keep hk, hI, fun c _ hl => hl⟩
    exact coalesceLeft_keep (by omega) (by rw [hla]; decide)
  | free =>
    have hla := hused.leftFree hk
    rcases List.eq_nil_or_concat pre with rfl | ⟨pre', ⟨lsize, kind⟩, rfl⟩
    · cases hk
    · rw [List.concat_eq_append, lastOr_concat] at hk
      have hkind : kind = .free := hk
      subst hkind
      simp only [List.concat_eq_append, List.append_assoc, List.singleton_append] at hI hlinks hla ⊢
      have hfree := hI.layout.free_at
      have hl8 := hI.layout.size_ok.2
      dsimp only at hl8
      have hpos : extent (pre' ++ [(⟨lsize, .free⟩ : Region)]) = extent pre' + lsize := by
        simp only [extent_append, extent_cons, extent_nil, Nat.add_zero]
      simp only [List.concat_eq_append, hpos] at hend hlinks hla ⊢
      have hl := hlinks _ hI.gap_of_free
      have hf := hI.unlinkFits ⟨_, hI.gap_of_free⟩ hl
      refine ⟨pre', [⟨lsize, .free⟩, ⟨size, .used⟩], unlinked h (extent pre'), ?_, .merge, hI.unlinked hl,
        fun c hc hlc => hI.linksOk_unlinked hl hc hlc⟩
      have hsub : extent pre' + lsize - lsize = extent pre' := by omega
      have hfooter := hfree.footer (by omega)
      have hrun := @coalesceLeft_merge h (extent pre' + lsize) size (by omega) (by omega) hla
        (by rw [hfooter]; omega) (by rw [hfooter, hsub]; exact hf)
      rw [hfooter, hsub] at hrun
      have hsum : (size + lsize) % 65536 = extent [(⟨lsize, .free⟩ : Region), ⟨size, .used⟩] := by
        simp only [extent_cons, extent_nil]
        omega
      rw [hrun, hsum]

/-- The right end: the region after `mid` is taken in if it is free, and told otherwise. -/
inductive MergedRight (h : Kheap) (pre mid : List Region) :
    List Region → List Region → List Region → Kheap → Prop
  | merge {rsize : Nat} {post : List Region} :
    MergedRight h pre mid (⟨rsize, .free⟩ :: post) (mid ++ [⟨rsize, .free⟩]) post
      (unlinked h (extent pre + extent mid))
  | keep {rsize : Nat} {post : List Region} :
    MergedRight h pre mid (⟨rsize, .used⟩ :: post) mid (⟨rsize, .used⟩ :: post)
      { h with kmem := setWord16 h.kmem (extent pre + extent mid)
                 (word16 h.kmem (extent pre + extent mid) / 2 * 2 + 0) }

lemma MergedRight.append_eq (hM : MergedRight h pre mid rest mid' post' h') :
    mid ++ rest = mid' ++ post' := by
  cases hM with
  | merge => rw [List.append_assoc, List.singleton_append]
  | keep => rfl

lemma MergedRight.extent_le (hM : MergedRight h pre mid rest mid' post' h') : extent mid ≤ extent mid' := by
  cases hM with
  | merge =>
    rw [extent_append]
    exact Nat.le_add_right _ _
  | keep => exact Nat.le_refl _

lemma MergedRight.allocs (hM : MergedRight h pre mid rest mid' post' h') (p : Nat) :
    allocsOf p mid' = allocsOf p mid := by
  cases hM with
  | merge =>
    rw [allocsOf_append]
    exact List.append_nil _
  | keep => rfl

lemma MergedRight.bytesAllocated_eq (hM : MergedRight h pre mid rest mid' post' h') :
    h'.bytesAllocated = h.bytesAllocated := by
  cases hM with
  | merge => rfl
  | keep => rfl

/-- The memory between the two ends of `coalesce`: a layout `pre ++ mid ++ post` in which the
region after `mid` has been told that its left neighbour is free. -/
structure Merging (m' : Nat → Nat) (pre mid post : List Region) : Prop where
  layout : ∃ m, Layout m (pre ++ mid ++ post) ∧
    (∀ x, (x < extent pre + extent mid ∨ extent pre + extent mid + 2 ≤ x) → m' x = m x) ∧
    ∀ r rest, post = r :: rest → r.kind = .used →
      word16 m' (extent pre + extent mid) / 2 = word16 m (extent pre + extent mid) / 2
  told : ∀ r rest, post = r :: rest → r.kind ≠ .free ∧
    (r.kind = .used → word16 m' (extent pre + extent mid) % 2 = 0)

lemma coalesceRight_step (hI : HeapInv h.kmem live (pre ++ mid ++ r :: post)) (hsmall : r.kind ≠ .small)
    (hlinks : FreeStart live (extent pre + extent mid) → LinksOk h.kmem live (extent pre + extent mid)) :
    ∃ mid' post' h', coalesceRight h (extent pre + extent mid) (extent mid) = .ok (extent mid', h') ∧
      MergedRight h pre mid (r :: post) mid' post' h' ∧ Merging h'.kmem pre mid' post' := by
  obtain ⟨rsize, kind⟩ := r
  have hpos : extent (pre ++ mid) = extent pre + extent mid := extent_append pre mid
  have hend := hI.layout.end_le
  have h8 := hI.layout.size_ok.2
  dsimp only at hend h8
  rw [hpos] at hend
  cases kind with
  | small => exact absurd rfl hsmall
  | free =>
    have hfree := hI.layout.free_at
    have hstart : FreeStart live (extent pre + extent mid) := hpos ▸ ⟨_, hI.gap_of_free⟩
    have hl := hlinks hstart
    have hlayout := (hI.unlinked hl).layout
    have hafter := hI.layout.next_not_free
    rw [hpos] at hfree
    refine ⟨mid ++ [⟨rsize, .free⟩], post, Heap.unlinked h (extent pre + extent mid), ?_, .merge,
      ⟨⟨_, ?_, fun x _ => rfl, fun _ _ _ _ => rfl⟩, ?_⟩⟩
    · rw [coalesceRight_merge (by omega) hfree.bit (hI.unlinkFits hstart hl), hfree.header]
      have hsum : (extent mid + rsize) % 65536 = extent (mid ++ [(⟨rsize, .free⟩ : Region)]) := by
        simp only [extent_append, extent_cons, extent_nil]
        omega
      rw [hsum]
    · rw [append_cons_eq, List.append_assoc pre] at hlayout
      exact hlayout
    · rintro s rest rfl
      refine ⟨hafter s rest rfl, fun hk => ?_⟩
      rw [append_cons_eq] at hlayout
      obtain ⟨ssize, kind⟩ := s
      dsimp only at hk
      subst hk
      have hs := hlayout.used_at.leftFree (by rw [lastOr_concat]; rfl)
      rw [extent_append, hpos] at hs
      rw [extent_append, ← Nat.add_assoc]
      exact hs
  | used =>
    have hused := hI.layout.used_at
    rw [hpos] at hused
    refine ⟨mid, ⟨rsize, .used⟩ :: post, _, coalesceRight_keep (by omega) (by rw [hused.bit]; decide), .keep,
      ⟨⟨_, hI.layout, fun x hx => setWord16_outside hx, fun _ _ _ _ => ?_⟩, ?_⟩⟩
    · dsimp only
      have hlt : word16 h.kmem (extent pre + extent mid) < 65536 := word16_lt
      rw [word16_setWord16_self]
      omega
    · rintro s rest heq
      obtain ⟨rfl, -⟩ := List.cons.inj heq
      refine ⟨(fun hk => by cases hk), fun _ => ?_⟩
      dsimp only
      rw [word16_setWord16_self]
      omega

/-- The end of `coalesce` makes one free region of `mid`. -/
lemma createFreeBlock_step (addr : Nat) (hM : Merging h.kmem pre mid post)
    (hleft : leftKind (lastOr none pre) ≠ .free) (h4 : extent mid % 4 = 0) (h8 : 8 ≤ extent mid) :
    ∃ h', createFreeBlock addr h (extent pre) (extent mid) = .ok h' ∧ h'.freelist = some (extent pre) ∧
      h'.bytesAllocated = h.bytesAllocated ∧ Layout h'.kmem (pre ++ [⟨extent mid, .free⟩] ++ post) ∧
      FreeWords h.kmem h'.kmem (extent pre) (extent mid) (blockIdx addr h.freelist) := by
  obtain ⟨⟨m, hlayout, hsame, hhalf⟩, htold⟩ := hM
  have hend : extent pre + extent mid ≤ 65532 := by
    have := hlayout.extent_eq
    rw [extent_append, extent_append] at this
    omega
  obtain ⟨m', hrun, hw⟩ := createFreeBlock_ok addr (h := h) h4 h8 hend
  refine ⟨_, hrun, rfl, rfl, ?_, hw⟩
  have hext : extent [(⟨extent mid, .free⟩ : Region)] = extent mid := by
    simp only [extent_cons, extent_nil, Nat.add_zero]
  apply hlayout.replace hext
  · intro x hx
    exact (hw.other x (by omega) (by omega) (by omega)).trans (hsame x (by omega))
  · intro x hx _
    exact (hw.other x (by omega) (by omega) (by omega)).trans (hsame x (by omega))
  · exact ⟨regionOk_free 1 h4 h8 (by decide) hw.header hw.footer hleft, trivial⟩
  · exact fun s rest hs => (htold s rest hs).1
  · intro s rest hs hk
    have hkeep : word16 m' (extent pre + extent mid) = word16 h.kmem (extent pre + extent mid) :=
      word16_congr (hw.other _ (by omega) (by omega) (by omega))
        (hw.other _ (by omega) (by omega) (by omega))
    refine ⟨?_, fun _ => ?_, fun hu => ?_⟩
    · rw [hkeep, hhalf s rest hs hk]
    · rw [hkeep]
      exact (htold s rest hs).2 hk
    · cases hu

/-- The live allocations after the one in `mid` has been freed. -/
lemma perm_allocs_of_free {a : Alloc} (hlive : live.Perm (allocsOf 0 (pre ++ mid ++ post)))
    (hmid : allocsOf (extent pre) mid = [a]) :
    (live.erase a).Perm (allocsOf 0 (pre ++ [⟨extent mid, .free⟩] ++ post)) := by
  have hext : extent [(⟨extent mid, .free⟩ : Region)] = extent mid := by
    simp only [extent_cons, extent_nil, Nat.add_zero]
  rw [allocsOf_append, allocsOf_append, Nat.zero_add, extent_append] at hlive ⊢
  rw [hext]
  rw [hmid, List.append_assoc, List.singleton_append] at hlive
  have herase := (hlive.trans List.perm_middle).erase a
  rw [List.erase_cons_head] at herase
  exact herase.trans (by simp [allocsOf, allocOf])

/-- What `coalesce` makes of the used region between `pre` and `rest`: the regions `mid` become one
free block, which heads the free list. -/
structure Coalesced (addr : Nat) (h h' : Kheap) (size : Nat) (pre rest pre' mid post' : List Region) :
    Prop where
  merged : ∃ mid1 h1 h2, MergedLeft h size pre pre' mid1 h1 ∧ MergedRight h1 pre' mid1 rest mid post' h2 ∧
    FreeWords h2.kmem h'.kmem (extent pre') (extent mid) (blockIdx addr h2.freelist)
  head : h'.freelist = some (extent pre')

lemma Coalesced.append_eq {mid : List Region} (hC : Coalesced addr h h' size pre rest pre' mid post') :
    pre ++ ⟨size, .used⟩ :: rest = pre' ++ mid ++ post' := by
  obtain ⟨⟨mid1, h1, h2, hML, hMR, -⟩, -⟩ := hC
  rw [append_cons_eq, hML.append_eq, List.append_assoc, hMR.append_eq, List.append_assoc]

/-- `coalesce` on a used region that is not the last and touches no `small` region. -/
lemma coalesce_step (addr : Nat) (hI : HeapInv h.kmem live (pre ++ ⟨size, .used⟩ :: r :: post))
    (hsmall : leftKind (lastOr none pre) ≠ .small) (hsmall' : r.kind ≠ .small)
    (hlinks : ∀ b e, Gap live b e → e = extent pre ∨ b = extent pre + size → LinksOk h.kmem live b) :
    ∃ h' pre' mid post', coalesce addr h (extent pre) = .ok h' ∧ h'.bytesAllocated = h.bytesAllocated ∧
      Coalesced addr h h' size pre (r :: post) pre' mid post' ∧
      HeapInv h'.kmem (live.erase ⟨extent pre + 2, size⟩) (pre' ++ [⟨extent mid, .free⟩] ++ post') := by
  have hused := hI.layout.used_at
  have hend := hI.layout.end_le
  obtain ⟨h4, h8⟩ := hI.layout.size_ok
  dsimp only at hend h4 h8
  obtain ⟨pre', mid, h1, hrun1, hleft, hI1, hkeep⟩ := coalesceLeft_step hI hsmall
    (fun b hg => hlinks b _ hg (Or.inl rfl))
  have hL : pre ++ ⟨size, .used⟩ :: r :: post = pre' ++ mid ++ r :: post := by
    rw [append_cons_eq, hleft.append_eq]
  have hpos := hleft.extent_eq
  rw [hL] at hI1
  obtain ⟨mid', post', h2, hrun2, hright, hM⟩ := coalesceRight_step hI1 hsmall' (by
    rintro ⟨e, hg⟩
    exact hkeep _ ⟨e, hg⟩ (hlinks _ e hg (Or.inr hpos.symm)))
  have hL' : pre ++ ⟨size, .used⟩ :: r :: post = pre' ++ mid' ++ post' := by
    rw [hL, List.append_assoc, hright.append_eq, List.append_assoc]
  have hnotFree := hleft.left_not_free hI.layout
  have hallocs := (hright.allocs (extent pre')).trans hleft.allocs
  obtain ⟨hlayout, hlive⟩ := hI
  rw [hL'] at hlayout hlive
  have hmid4 : extent mid' % 4 = 0 := by
    have h1 := hlayout.extent_mod
    rw [List.append_assoc] at hlayout
    have h2 := hlayout.extent_mod
    rw [extent_append] at h1
    omega
  have hmid8 : 8 ≤ extent mid' := by
    have hne : mid' ≠ [] := by
      rintro rfl
      cases hallocs
    obtain ⟨s, rest, rfl⟩ := List.exists_cons_of_ne_nil hne
    rw [List.append_assoc, List.cons_append] at hlayout
    have := hlayout.size_ok.2
    rw [extent_cons]
    omega
  obtain ⟨h', hrun3, hhead, hbytes, hlayout', hw⟩ := createFreeBlock_step addr hM hnotFree hmid4 hmid8
  have hbytes' : h'.bytesAllocated = h.bytesAllocated := by
    rw [hbytes, hright.bytesAllocated_eq, hleft.bytesAllocated_eq]
  refine ⟨h', pre', mid', post', ?_, hbytes', ⟨⟨mid, h1, h2, hleft, hright, hw⟩, hhead⟩, hlayout',
    perm_allocs_of_free hlive hallocs⟩
  rw [coalesce_ok addr (by omega) hused.header hrun1, hpos, hrun2, ok_bind]
  exact hrun3

/-- `kfree` counts the block down and coalesces it. -/
lemma kfree_coalesced (addr : Nat) (hI : HeapInv h.kmem live (pre ++ ⟨size, .used⟩ :: r :: post))
    (hsmall : leftKind (lastOr none pre) ≠ .small) (hsmall' : r.kind ≠ .small)
    (hlinks : ∀ b e, Gap live b e → e = extent pre ∨ b = extent pre + size → LinksOk h.kmem live b) :
    ∃ h0 h' pre' mid post', kfree addr h (some (extent pre + 2)) = .ok h' ∧
      h'.bytesAllocated = (h.bytesAllocated + (65536 - size)) % 65536 ∧
      h0.kmem = h.kmem ∧ h0.freelist = h.freelist ∧
      Coalesced addr h0 h' size pre (r :: post) pre' mid post' ∧
      HeapInv h'.kmem (live.erase ⟨extent pre + 2, size⟩) (pre' ++ [⟨extent mid, .free⟩] ++ post') := by
  have hend := hI.layout.end_le
  have h8 := hI.layout.size_ok.2
  dsimp only at hend h8
  obtain ⟨h0, hh0⟩ : ∃ h0 : Kheap, h0 = { h with
    bytesAllocated := (h.bytesAllocated + (65536 - size)) % 65536 } := ⟨_, rfl⟩
  have hkmem : h0.kmem = h.kmem := by rw [hh0]
  rw [← hkmem] at hI hlinks
  obtain ⟨h', pre', mid, post', hrun, hbytes, hC, hI'⟩ := coalesce_step addr hI hsmall hsmall' hlinks
  refine ⟨h0, h', pre', mid, post', ?_, ?_, hkmem, by rw [hh0], hC, hI'⟩
  · rw [kfree_ok addr (by omega), ← hkmem, hI.layout.used_at.header, hkmem, ← hh0]
    exact hrun
  · rw [hbytes, hh0]

end Coalesce

end JavaScriptOS.Heap
