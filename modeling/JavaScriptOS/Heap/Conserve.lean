import JavaScriptOS.Heap.Request
import JavaScriptOS.Heap.Walk
import Mathlib.Data.List.Induction

/-!
# What a request leaves of the heap

A walk over headers that tiles the heap does so again after a request that takes a block whole or
splits off a multiple of 4 bytes. A request of at most 4 bytes is rounded to 6, and what the two
parts record then is four bytes short of what was there.
-/

namespace JavaScriptOS.Heap
open JavaScriptOS.Lib

variable {n b size : Nat} {h : Kheap}

section Walk

/-- The header at `p` describes the block `r`. -/
def HeaderAt (m : Nat → Nat) (_ : Option Region) (p : Nat) (r : Region) : Prop :=
  0 < r.size ∧ sizeBits (word16 m p) = r.size ∧
    r.kind = if allocated (word16 m p) = 0 then .free else .used

/-- Adding up header sizes from offset 0 tiles the heap with the blocks `L`. -/
structure Walk (m : Nat → Nat) (L : List Region) : Prop where
  tiled : Tiled (HeaderAt m) none 0 L
  extent_eq : extent L = 65532

variable {m m' : Nat → Nat} {L pre mid mid' post : List Region} {r : Region} {left : Option Region} {p idx : Nat}

lemma HeaderAt.congr (hr : HeaderAt m left p r) (hw : word16 m' p / 2 = word16 m p / 2) :
    HeaderAt m' left p r := by
  obtain ⟨hpos, hsize, hkind⟩ := hr
  have hsize' : sizeBits (word16 m' p) = sizeBits (word16 m p) := by
    unfold sizeBits
    omega
  have hbit : allocated (word16 m' p) = allocated (word16 m p) := by
    unfold allocated
    rw [hw]
  exact ⟨hpos, hsize'.trans hsize, by rw [hbit]; exact hkind⟩

lemma HeaderAt.size_mod (hr : HeaderAt m left p r) : r.size % 4 = 0 ∧ 4 ≤ r.size := by
  obtain ⟨hpos, hsize, -⟩ := hr
  unfold sizeBits at hsize
  omega

lemma Walk.at_split (hW : Walk m (pre ++ r :: post)) : HeaderAt m (lastOr none pre) (extent pre) r := by
  have := hW.tiled.at_split
  rwa [Nat.zero_add] at this

lemma Walk.extent_mod (hW : Walk m (pre ++ post)) : extent pre % 4 = 0 := by
  induction pre using List.reverseRecOn generalizing post with
  | nil => rfl
  | append_singleton pre r ih =>
    rw [List.append_assoc, List.singleton_append] at hW
    have h1 := ih hW
    have h2 := hW.at_split.size_mod
    rw [extent_append, extent_cons, extent_nil]
    omega

/-- Replacing the blocks `mid`: bytes outside them stay, except for the left-allocated bit of the
header behind them. -/
lemma Walk.replace (hW : Walk m (pre ++ mid ++ post)) (hext : extent mid' = extent mid)
    (hbelow : ∀ x, x < extent pre → m' x = m x)
    (habove : ∀ x, extent pre + extent mid + 2 ≤ x → m' x = m x)
    (hnext : word16 m' (extent pre + extent mid) / 2 = word16 m (extent pre + extent mid) / 2)
    (hmid : Tiled (HeaderAt m') (lastOr none pre) (extent pre) mid') : Walk m' (pre ++ mid' ++ post) := by
  obtain ⟨htiled, hend⟩ := hW
  rw [tiled_append, tiled_append, Nat.zero_add, Nat.zero_add, extent_append] at htiled
  obtain ⟨⟨hpre, -⟩, hpost⟩ := htiled
  refine ⟨?_, by simpa only [extent_append, hext] using hend⟩
  rw [tiled_append, tiled_append, Nat.zero_add, Nat.zero_add, extent_append, hext]
  refine ⟨⟨hpre.imp fun l pre1 r post1 hL hr => hr.congr ?_, hmid⟩, ?_⟩
  · -- Blocks have at least four bytes, so a header before `mid` ends before it.
    have h4 := hr.size_mod.2
    have hin : extent pre = extent pre1 + (r.size + extent post1) := by
      rw [hL, extent_append, extent_cons]
    rw [word16_congr (hbelow _ (by omega)) (hbelow _ (by omega))]
  · cases post with
    | nil => trivial
    | cons r rest =>
      obtain ⟨hr, hrest⟩ := hpost
      have h4 := hr.size_mod.2
      refine ⟨hr.congr hnext, hrest.imp fun l pre1 s post1 _ hs => hs.congr ?_⟩
      rw [word16_congr (habove _ (by omega)) (habove _ (by omega))]

lemma headerAt_free (left : Option Region) (bit : Nat) (h4 : size % 4 = 0) (hpos : 0 < size) (hbit : bit < 2)
    (hw : word16 m p = size + bit) : HeaderAt m left p ⟨size, .free⟩ := by
  refine ⟨hpos, ?_, ?_⟩
  · rw [hw]
    unfold sizeBits
    dsimp only
    omega
  · rw [hw, if_pos]
    unfold allocated
    omega

lemma headerAt_used (left : Option Region) (bit : Nat) (h4 : size % 4 = 0) (hpos : 0 < size) (hbit : bit < 2)
    (hw : word16 m p = size + 2 + bit) : HeaderAt m left p ⟨size, .used⟩ := by
  refine ⟨hpos, ?_, ?_⟩
  · rw [hw]
    unfold sizeBits
    dsimp only
    omega
  · rw [hw, if_neg]
    unfold allocated
    omega

lemma Walk.placed_split (hW : Walk m (pre ++ ⟨size, .free⟩ :: post))
    (hw : PlacedRight m m' (extent pre) size n idx) (h4 : n % 4 = 0) (h8 : 8 ≤ n) (hfit : n + 8 ≤ size) :
    Walk m' (pre ++ [⟨size - n, .free⟩, ⟨n, .used⟩] ++ post) := by
  have hsize := hW.at_split.size_mod.1
  dsimp only at hsize
  rw [append_cons_eq] at hW
  have hpos : extent pre + (size - n) = extent pre + size - n := by omega
  have hext : extent pre + extent [(⟨size, .free⟩ : Region)] = extent pre + size := by
    rw [extent_cons, extent_nil, Nat.add_zero]
  obtain ⟨halloc, hheader, -, hright, hother⟩ := hw.exact hsize h4 (by omega)
  apply hW.replace (extent_cut (show n ≤ size by omega) .free .used .free)
  · intro x hx
    exact hother x (by omega) (by omega) (by omega) (by omega) (by omega)
  · intro x hx
    rw [hext] at hx
    exact hother x (by omega) (by omega) (by omega) (by omega) (by omega)
  · rw [hext, hright]
    omega
  · refine ⟨headerAt_free _ _ (by omega) (by omega) (Nat.mod_lt _ (by decide)) hheader, ?_, trivial⟩
    exact headerAt_used _ 0 h4 (by omega) (by decide) (by dsimp only; rw [hpos]; exact halloc)

lemma Walk.placed_whole (hW : Walk m (pre ++ ⟨size, .free⟩ :: post))
    (hw : PlacedWhole m m' (extent pre) size) : Walk m' (pre ++ [⟨size, .used⟩] ++ post) := by
  obtain ⟨h4, hpos⟩ := hW.at_split.size_mod
  dsimp only at h4 hpos
  rw [append_cons_eq] at hW
  have hext : extent pre + extent [(⟨size, .free⟩ : Region)] = extent pre + size := by
    rw [extent_cons, extent_nil, Nat.add_zero]
  have hsame : extent [(⟨size, .used⟩ : Region)] = extent [(⟨size, .free⟩ : Region)] := rfl
  apply hW.replace hsame
  · intro x hx
    exact hw.other x (by omega) (by omega)
  · intro x hx
    rw [hext] at hx
    exact hw.other x (by omega) (by omega)
  · rw [hext, hw.right]
    omega
  · exact ⟨headerAt_used _ 1 h4 (by omega) (by decide) hw.header, trivial⟩

/-- A layout without `small` regions is found by walking over the headers. -/
lemma Layout.walk (hL : Layout m L) (hsmall : NoSmall L) : Walk m L := by
  refine ⟨hL.tiled.imp fun left pre r post hsplit hr => ?_, hL.extent_eq⟩
  obtain ⟨⟨-, h8⟩, hk⟩ := hr
  obtain ⟨size, kind⟩ := r
  dsimp only at h8 hk
  cases kind with
  | free => exact ⟨by dsimp only; omega, hk.header, by rw [if_pos hk.bit]⟩
  | used => exact ⟨by dsimp only; omega, hk.header, by rw [if_neg (by rw [hk.bit]; decide)]⟩
  | small =>
    rw [hsplit] at hsmall
    exact absurd rfl (hsmall _ (List.mem_append_right _ (List.mem_cons_self ..)))

/-- The headers say where the next block starts, so a heap has at most one walk. -/
lemma tiled_headers_unique {L L' : List Region} {left' : Option Region} (hL : Tiled (HeaderAt m) left p L)
    (hL' : Tiled (HeaderAt m) left' p L') (hext : extent L = extent L') : L = L' := by
  induction L generalizing left left' p L' with
  | nil =>
    cases L' with
    | nil => rfl
    | cons s L' =>
      have hpos := hL'.1.1
      rw [extent_nil, extent_cons] at hext
      omega
  | cons r L ih =>
    cases L' with
    | nil =>
      have hpos := hL.1.1
      rw [extent_nil, extent_cons] at hext
      omega
    | cons s L' =>
      obtain ⟨⟨-, hsize, hkind⟩, htail⟩ := hL
      obtain ⟨⟨-, hsize', hkind'⟩, htail'⟩ := hL'
      obtain ⟨rsize, rkind⟩ := r
      obtain ⟨ssize, skind⟩ := s
      dsimp only at hsize hkind hsize' hkind' htail htail'
      obtain rfl : rsize = ssize := hsize.symm.trans hsize'
      obtain rfl : rkind = skind := hkind.trans hkind'.symm
      rw [extent_cons, extent_cons] at hext
      rw [ih htail htail' (by omega)]

lemma Walk.unique {L' : List Region} (hW : Walk m L) (hW' : Walk m L') : L = L' :=
  tiled_headers_unique hW.tiled hW'.tiled (hW.extent_eq.trans hW'.extent_eq.symm)

end Walk

section Conserve

/-- What a free block of `size` bytes has become: nothing or a free block `before` an allocated
block recorded with `k` bytes. -/
inductive Carved (size : Nat) : List Region → Nat → Prop
  | whole : Carved size [] size
  | split {k : Nat} : k ≤ size → Carved size [⟨size - k, .free⟩] k

/-- `kmalloc` has turned the free block between `pre` and `post` into an allocation at `p`. -/
structure CarvedAt (h h' : Kheap) (p : Nat) (pre : List Region) (size : Nat) (post before : List Region) (k : Nat) :
    Prop where
  carved : Carved size before k
  pointer : p = extent (pre ++ before) + 2
  walk : Walk h'.kmem (pre ++ (before ++ [⟨k, .used⟩]) ++ post)
  footer : ∀ r ∈ before, word16 h'.kmem (extent pre + r.size - 2) = word16 h'.kmem (extent pre)
  told : post ≠ [] → leftAllocated (word16 h'.kmem (extent pre + size)) = 1
  counted : h'.bytesAllocated = (h.bytesAllocated + k) % 65536

/-- Of the blocks `L` one free block has become an allocation at `p`, whole or in part. -/
def Conserved (h h' : Kheap) (L : List Region) (p : Nat) : Prop :=
  ∃ pre size post before k, L = pre ++ ⟨size, .free⟩ :: post ∧ CarvedAt h h' p pre size post before k

variable {pre post L : List Region} {p : Nat}

/-- A block is a multiple of 4 bytes away from the start of the heap. -/
lemma CarvedAt.pointer_mod {h h' : Kheap} {before : List Region} {k : Nat}
    (hC : CarvedAt h h' p pre size post before k) : p % 4 = 2 := by
  have hW := hC.walk
  rw [← List.append_assoc, List.append_assoc (pre ++ before)] at hW
  have := hW.extent_mod
  have hp := hC.pointer
  omega

/-- A split for a multiple of 4. -/
lemma CarvedAt.of_split {m : Nat → Nat} {h h' : Kheap} {idx : Nat} (hW : Walk m (pre ++ ⟨size, .free⟩ :: post))
    (hw : PlacedRight m h'.kmem (extent pre) size n idx) (h4 : n % 4 = 0) (h8 : 8 ≤ n) (hfit : n + 8 ≤ size)
    (hcount : h'.bytesAllocated = (h.bytesAllocated + n) % 65536) :
    CarvedAt h h' (extent pre + size - n + 2) pre size post [⟨size - n, .free⟩] n := by
  have hsize := hW.at_split.size_mod.1
  dsimp only at hsize
  obtain ⟨-, hheader, hfooter, hright, -⟩ := hw.exact hsize h4 (by omega)
  refine ⟨.split (by omega), ?_, hW.placed_split hw h4 h8 hfit, ?_, fun _ => ?_, hcount⟩
  · rw [extent_append, extent_cons, extent_nil]
    dsimp only
    omega
  · intro r hr
    cases List.mem_singleton.mp hr
    exact hfooter.trans hheader.symm
  · rw [hright]
    unfold leftAllocated
    omega

lemma CarvedAt.of_whole {m : Nat → Nat} {h h' : Kheap} (hW : Walk m (pre ++ ⟨size, .free⟩ :: post))
    (hw : PlacedWhole m h'.kmem (extent pre) size)
    (hcount : h'.bytesAllocated = (h.bytesAllocated + size) % 65536) :
    CarvedAt h h' (extent pre + 2) pre size post [] size := by
  refine ⟨.whole, ?_, hW.placed_whole hw, ?_, fun _ => ?_, hcount⟩
  · rw [List.append_nil]
  · intro r hr
    cases hr
  · rw [hw.right]
    unfold leftAllocated
    omega

/-- What `place` makes of a free region when it does not split off 6 bytes. -/
lemma Placed.carvedAt {addr a : Nat} {h h' : Kheap} {live : List Alloc} {L' : List Region}
    (hP : Placed addr h h' pre post size (roundSize n) a L')
    (hI : HeapInv h.kmem live (pre ++ ⟨size, .free⟩ :: post)) (hsmall : NoSmall (pre ++ ⟨size, .free⟩ :: post))
    (hl : LinksOk h.kmem live (extent pre)) (hlarge : 4 < n ∨ size < 14)
    (hcount : h'.bytesAllocated = (h.bytesAllocated + sizeBits (word16 h'.kmem a)) % 65536) :
    ∃ before k, CarvedAt h h' (a + 2) pre size post before k := by
  have hW := (hI.unlinked hl).layout.walk hsmall
  rw [hP.recorded hI.layout.size_ok.1] at hcount
  cases hP with
  | split r hle _ _ hw =>
    have hround : roundSize n % 4 = 0 ∧ 8 ≤ roundSize n := by
      unfold roundSize at *
      omega
    have hqn : roundSize n / 4 * 4 = roundSize n := by omega
    rw [if_neg (by omega), hqn] at hcount
    exact ⟨_, _, CarvedAt.of_split hW hw hround.1 hround.2 hle hcount⟩
  | whole hlt _ hw =>
    rw [if_pos hlt] at hcount
    exact ⟨_, _, CarvedAt.of_whole hW hw hcount⟩

/-- A split for at most 4 bytes puts the block where no walk can find it. -/
lemma Placed.not_conserved {addr a : Nat} {h h' : Kheap} {L' : List Region}
    (hP : Placed addr h h' pre post size (roundSize n) a L') (hL : Layout h.kmem (pre ++ ⟨size, .free⟩ :: post))
    (hn : n ≤ 4) (hsize : 14 ≤ size) (L : List Region) : ¬Conserved h h' L (a + 2) := by
  rintro ⟨pre', size', post', before, k, -, hC⟩
  have hmod := hC.pointer_mod
  have hpre := hL.extent_mod
  have h4 := hL.size_ok.1
  dsimp only at h4
  have h6 : roundSize n = 6 := by
    unfold roundSize
    omega
  cases hP with
  | split r hle _ _ _ => omega
  | whole hlt _ _ => omega

end Conserve

section Runs

/-- A call over a closed list that leaves no part of a block without a header. -/
def CallWhole (r : HeapRun) (c : HeapCall) : Prop :=
  CallOk r c ∧ match c with
    | .kmalloc n => SplitsWhole r.live n
    | .kfree _ => True
    | .write _ _ => False

instance (r : HeapRun) (c : HeapCall) : Decidable (CallWhole r c) :=
  match c with
  | .kmalloc n => inferInstanceAs (Decidable (CallOk r (.kmalloc n) ∧ SplitsWhole r.live n))
  | .kfree a => inferInstanceAs (Decidable (CallOk r (.kfree a) ∧ True))
  | .write _ _ => .isFalse And.right

variable {addr p : Nat} {r : HeapRun} {pre post L : List Region}

lemma Placed.noSmall {a : Nat} {h' : Kheap} {L' : List Region}
    (hP : Placed addr h h' pre post size (roundSize n) a L')
    (hsmall : NoSmall (pre ++ ⟨size, .free⟩ :: post)) (hlarge : 4 < n ∨ size < 14) : NoSmall L' := by
  rw [append_cons_eq] at hsmall
  cases hP with
  | split r hle hr _ _ =>
    have h6 : roundSize n ≠ 6 := by
      unfold roundSize at *
      omega
    cases hr.resolve_right fun hc => h6 hc.1
    exact hsmall.replace (by simp [NoSmall])
  | whole => exact hsmall.replace (by simp [NoSmall])

lemma CallWhole.size_lt {live : List Alloc} {m : Nat → Nat} (hwhole : SplitsWhole live n) (hn : 0 < n)
    (hle : n ≤ maxAlloc) (hI : HeapInv m live (pre ++ ⟨size, .free⟩ :: post)) : 4 < n ∨ size < 14 := by
  refine (hwhole hn hle).imp_right fun hall => ?_
  have := hall _ _ hI.gap_of_free
  omega

lemma requested_of_some {h h' : Kheap} (hrun : kmalloc addr h n = .ok (some p, h')) : 0 < n ∧ n ≤ maxAlloc := by
  by_contra hbad
  rw [kmalloc_refused addr h (by omega)] at hrun
  cases hrun

lemma noSmall_step (hI : HeapInv r.heap.kmem r.live L) (hsmall : NoSmall L) {c : HeapCall} {r' : HeapRun}
    (hok : CallWhole r c) (hrun : r.step addr c = .ok r') :
    ∃ L', HeapInv r'.heap.kmem r'.live L' ∧ NoSmall L' := by
  obtain ⟨hcall, hwhole⟩ := hok
  cases c with
  | kmalloc n =>
    obtain ⟨out, hout⟩ : ∃ out, kmalloc addr r.heap n = out := ⟨_, rfl⟩
    have hserved := kmalloc_served addr hI hcall
    rw [hout] at hserved
    cases hserved with
    | diverges =>
      rw [step_of_kmalloc_error hout] at hrun
      cases hrun
    | refused =>
      rw [step_of_kmalloc_none hout] at hrun
      cases hrun
      exact ⟨L, hI, hsmall⟩
    | placed hL hfit hl hP _ hI' =>
      rw [step_of_kmalloc_some hout] at hrun
      cases hrun
      rw [hL] at hI hsmall
      obtain ⟨hn, hle⟩ := requested_of_some hout
      exact ⟨_, hI', hP.noSmall hsmall (CallWhole.size_lt hwhole hn hle hI)⟩
  | kfree a =>
    obtain ⟨pre, s, post, rfl, hptr, hleft, hright⟩ := hI.kfree_split hcall
    obtain ⟨h0, h', pre', mid, post', hrun', -, -, hC, hI'⟩ := kfree_some addr hI hptr hleft hright hcall.links
    rw [hrun'] at hrun
    cases hrun
    rw [hC.append_eq] at hsmall
    exact ⟨_, hI', hsmall.replace (by simp [NoSmall])⟩
  | write x v => exact hwhole.elim

lemma noSmall_of_reach (hr : HeapReach addr CallWhole r) :
    ∃ L, HeapInv r.heap.kmem r.live L ∧ NoSmall L := by
  refine hr.preserved (P := fun r => ∃ L, HeapInv r.heap.kmem r.live L ∧ NoSmall L) (fun s hs => ?_)
    (fun s c s' hinv hok hrun => ?_)
  · rw [hs.eq]
    exact ⟨_, heapInv_boot, by simp [NoSmall]⟩
  · obtain ⟨L, hI, hsmall⟩ := hinv
    exact noSmall_step hI hsmall hok hrun

/-- In every run over closed lists without a split for at most 4 bytes the walk over the headers tiles the
heap, and a request conserves it. A request of at most 4 bytes for which every free block is split does not. -/
theorem kmalloc_conserves (addr : Nat) (r : HeapRun) (hr : HeapReach addr CallWhole r) :
    (∃ L, Walk r.heap.kmem L) ∧ ∀ n p h', CallOk r (.kmalloc n) → kmalloc addr r.heap n = .ok (some p, h') →
      (SplitsWhole r.live n → ∀ L, Walk r.heap.kmem L → Conserved r.heap h' L p) ∧
      (n ≤ 4 → (∀ b e, Gap r.live b e → 14 ≤ e - b) → ∀ L, ¬Conserved r.heap h' L p) := by
  obtain ⟨L, hI, hsmall⟩ := noSmall_of_reach hr
  have hwalk := hI.layout.walk hsmall
  refine ⟨⟨L, hwalk⟩, fun n p h' hok hrun => ?_⟩
  obtain ⟨hn, hle⟩ := requested_of_some hrun
  have hserved := kmalloc_served addr hI hok
  rw [hrun] at hserved
  cases hserved with
  | placed hL hfit hl hP hcount _ =>
    subst hL
    constructor
    · intro hwhole L' hW
      rw [← hwalk.unique hW]
      obtain ⟨before, k, hC⟩ := hP.carvedAt hI hsmall hl (CallWhole.size_lt hwhole hn hle hI) hcount
      exact ⟨_, _, _, before, k, rfl, hC⟩
    · intro h4 hall
      have := hall _ _ hI.gap_of_free
      exact hP.not_conserved hI.layout h4 (by omega)

lemma walk_bootRun : Walk bootRun.heap.kmem [⟨65532, .free⟩] := heapInv_boot.layout.walk (by simp [NoSmall])

/-- Three blocks, of which one has been freed and merged: a request for 40 bytes conserves the heap. -/
theorem kmalloc_conserves_merged : ∃ r p h' L, HeapReach 0x100000 CallWhole r ∧ r.live.length = 2 ∧
    kmalloc 0x100000 r.heap 40 = .ok (some p, h') ∧ Walk r.heap.kmem L ∧ Conserved r.heap h' L p := by
  have hplay : (play (HeapRun.step 0x100000) CallWhole bootRun [.kmalloc 8, .kmalloc 24, .kmalloc 16,
      .kfree ⟨65486, 16⟩]).any (fun r => decide (r.live.length = 2 ∧ CallWhole r (.kmalloc 40) ∧
        (kmalloc 0x100000 r.heap 40).toOption.any fun out => out.1.isSome)) = true := by
    decide +kernel
  obtain ⟨r, hplayed, hr⟩ := (Option.any_eq_true _ _).mp hplay
  obtain ⟨hlen, hok, hcall⟩ := of_decide_eq_true hr
  obtain ⟨⟨res, h'⟩, hrun, hres⟩ := ok_of_any hcall
  obtain ⟨p, rfl⟩ := Option.isSome_iff_exists.mp hres
  have hreach := (Reach.init booted_bootRun).play hplayed
  obtain ⟨⟨L, hW⟩, hall⟩ := kmalloc_conserves 0x100000 r hreach
  exact ⟨r, p, h', L, hreach, hlen, hrun, hW, (hall 40 p h' hok.1 hrun).1 hok.2 L hW⟩

/-- The first request for 1 byte splits off 6 bytes, recorded as 4, and shortens the left part by 8:
the walk comes to bytes that are no header. -/
theorem kmalloc_breaks_walk : ∃ r, HeapReach 0x100000 Quiet r ∧ (∃ L, Walk r.heap.kmem L) ∧
    ∃ p h', kmalloc 0x100000 r.heap 1 = .ok (some p, h') ∧ (¬∃ L, Walk h'.kmem L) ∧
      ∀ L, Walk r.heap.kmem L → ¬Conserved r.heap h' L p := by
  have hcall : (kmalloc 0x100000 bootRun.heap 1).toOption.any (fun out => decide (out.1.isSome ∧
      sizeBits (word16 out.2.kmem 0) = 65524 ∧ sizeBits (word16 out.2.kmem 65524) = 0)) = true := by
    decide +kernel
  obtain ⟨⟨res, h'⟩, hrun, hres⟩ := ok_of_any hcall
  obtain ⟨hsome, hfirst, hsecond⟩ := of_decide_eq_true hres
  obtain ⟨p, rfl⟩ := Option.isSome_iff_exists.mp hsome
  dsimp only at hfirst hsecond
  have hbroken : ¬∃ L, Walk h'.kmem L := by
    rintro ⟨L, hW⟩
    obtain ⟨htiled, hend⟩ := hW
    match L, htiled with
    | [], _ => cases hend
    | [r], ⟨hr, _⟩ =>
      have hsize := hr.2.1
      simp only [extent_cons, extent_nil] at hend
      omega
    | r :: s :: L, ⟨hr, hs, _⟩ =>
      have hsize := hr.2.1
      obtain ⟨hpos, hsize', -⟩ := hs
      rw [Nat.zero_add, ← hsize, hfirst] at hsize'
      omega
  refine ⟨bootRun, .init booted_bootRun, ⟨_, walk_bootRun⟩, p, h', hrun, hbroken, ?_⟩
  rintro L - ⟨pre, size, post, before, k, -, hC⟩
  exact hbroken ⟨_, hC.walk⟩

end Runs

end JavaScriptOS.Heap
