import JavaScriptOS.Heap.Exec
import JavaScriptOS.Lib.Tiling
import Mathlib.Data.List.Perm.Basic

/-!
# The layout of the heap

Blocks tile the first 65532 bytes of `kmem`. A request of at most 4 bytes that splits a block
leaves 8 bytes whose headers do not describe them: such a region is `small`, and nothing is said
about its bytes.
-/

namespace JavaScriptOS.Heap
open JavaScriptOS.Lib

inductive Kind where
  | free
  | used
  | small
  deriving DecidableEq

abbrev Region : Type := Block Kind

/-- The start of the heap counts as allocated. -/
def leftKind (left : Option Region) : Kind := (left.map Block.kind).getD .used

/-- `init_kheap` writes no footer: only a block with a right neighbour has one. -/
structure FreeAt (m : Nat → Nat) (left : Option Region) (p size : Nat) : Prop where
  header : sizeBits (word16 m p) = size
  bit : allocated (word16 m p) = 0
  footer : p + size < 65532 → sizeBits (word16 m (p + size - 2)) = size
  left : leftKind left ≠ .free

structure UsedAt (m : Nat → Nat) (left : Option Region) (p size : Nat) : Prop where
  header : sizeBits (word16 m p) = size
  bit : allocated (word16 m p) = 1
  leftFree : leftKind left = .free → leftAllocated (word16 m p) = 0
  leftUsed : leftKind left = .used → leftAllocated (word16 m p) = 1

def RegionOk (m : Nat → Nat) (left : Option Region) (p : Nat) (r : Region) : Prop :=
  (r.size % 4 = 0 ∧ 8 ≤ r.size) ∧ match r.kind with
    | .free => FreeAt m left p r.size
    | .used => UsedAt m left p r.size
    | .small => r.size = 8

structure Layout (m : Nat → Nat) (L : List Region) : Prop where
  tiled : Tiled (RegionOk m) none 0 L
  extent_eq : extent L = 65532

variable {m m' : Nat → Nat} {L pre mid mid' post : List Region} {r : Region} {p size : Nat}

lemma Layout.at_split (h : Layout m (pre ++ r :: post)) : RegionOk m (lastOr none pre) (extent pre) r := by
  have := h.tiled.at_split
  rwa [Nat.zero_add] at this

lemma Layout.free_at (h : Layout m (pre ++ ⟨size, .free⟩ :: post)) :
    FreeAt m (lastOr none pre) (extent pre) size := h.at_split.2

lemma Layout.used_at (h : Layout m (pre ++ ⟨size, .used⟩ :: post)) :
    UsedAt m (lastOr none pre) (extent pre) size := h.at_split.2

lemma Layout.size_ok (h : Layout m (pre ++ r :: post)) : r.size % 4 = 0 ∧ 8 ≤ r.size := h.at_split.1

/-- A region ends inside the heap. -/
lemma Layout.end_le (h : Layout m (pre ++ r :: post)) : extent pre + r.size ≤ 65532 := by
  have := h.extent_eq
  rw [extent_append, extent_cons] at this
  omega

/-- The regions before one end on a multiple of 4. -/
lemma Layout.extent_mod (h : Layout m (pre ++ post)) : extent pre % 4 = 0 := by
  have hall : ∀ r ∈ pre, r.size % 4 = 0 := by
    intro r hr
    obtain ⟨s, t, rfl⟩ := List.append_of_mem hr
    rw [List.append_assoc, List.cons_append] at h
    exact h.size_ok.1
  clear h
  induction pre with
  | nil => rfl
  | cons r pre ih =>
    rw [extent_cons]
    have h1 := hall r (List.mem_cons_self ..)
    have h2 := ih (fun s hs => hall s (List.mem_cons_of_mem _ hs))
    omega

section Frame

/-- The bytes of headers and footers. -/
def HardByte (L : List Region) (x : Nat) : Prop :=
  ∃ pre r post, L = pre ++ r :: post ∧
    ((r.kind ≠ .small ∧ extent pre ≤ x ∧ x < extent pre + 2) ∨
      (r.kind = .free ∧ extent pre + r.size - 2 ≤ x ∧ x < extent pre + r.size))

lemma RegionOk.congr {left : Option Region} (h : RegionOk m left p r)
    (hheader : r.kind ≠ .small → m' p = m p ∧ m' (p + 1) = m (p + 1))
    (hfooter : r.kind = .free → m' (p + r.size - 2) = m (p + r.size - 2) ∧
      m' (p + r.size - 1) = m (p + r.size - 1)) : RegionOk m' left p r := by
  obtain ⟨hsize, hk⟩ := h
  refine ⟨hsize, ?_⟩
  cases hkind : r.kind with
  | free =>
    rw [hkind] at hk
    obtain ⟨h0, h1⟩ := hheader (by rw [hkind]; decide)
    obtain ⟨h2, h3⟩ := hfooter hkind
    have hw : word16 m' p = word16 m p := word16_congr h0 h1
    have hlast : p + r.size - 2 + 1 = p + r.size - 1 := by omega
    have hw' : word16 m' (p + r.size - 2) = word16 m (p + r.size - 2) :=
      word16_congr h2 (by rw [hlast]; exact h3)
    exact ⟨hw ▸ hk.header, hw ▸ hk.bit, hw' ▸ hk.footer, hk.left⟩
  | used =>
    rw [hkind] at hk
    obtain ⟨h0, h1⟩ := hheader (by rw [hkind]; decide)
    have hw : word16 m' p = word16 m p := word16_congr h0 h1
    exact ⟨hw ▸ hk.header, hw ▸ hk.bit, hw ▸ hk.leftFree, hw ▸ hk.leftUsed⟩
  | small =>
    rw [hkind] at hk
    exact hk

/-- A change outside headers and footers keeps the layout. -/
lemma Layout.frame (h : Layout m L) (hkeep : ∀ x, HardByte L x → m' x = m x) : Layout m' L := by
  refine ⟨h.tiled.imp fun left pre r post hL hok => ?_, h.extent_eq⟩
  have h8 := hok.1.2
  rw [Nat.zero_add] at hok ⊢
  apply hok.congr
  · intro hk
    exact ⟨hkeep _ ⟨pre, r, post, hL, Or.inl ⟨hk, by omega, by omega⟩⟩,
      hkeep _ ⟨pre, r, post, hL, Or.inl ⟨hk, by omega, by omega⟩⟩⟩
  · intro hk
    exact ⟨hkeep _ ⟨pre, r, post, hL, Or.inr ⟨hk, by omega, by omega⟩⟩,
      hkeep _ ⟨pre, r, post, hL, Or.inr ⟨hk, by omega, by omega⟩⟩⟩

lemma tiled_of_range {left : Option Region} (h : Tiled (RegionOk m) left p L)
    (hkeep : ∀ x, p ≤ x → x < p + extent L → m' x = m x) : Tiled (RegionOk m') left p L := by
  apply h.imp
  intro l pre r post hL hok
  have h8 := hok.1.2
  have hin : extent pre + r.size ≤ extent L := by
    rw [hL, extent_append, extent_cons]
    omega
  apply hok.congr
  · intro _
    exact ⟨hkeep _ (by omega) (by omega), hkeep _ (by omega) (by omega)⟩
  · intro _
    exact ⟨hkeep _ (by omega) (by omega), hkeep _ (by omega) (by omega)⟩

/-- Replacing the regions `mid` by `mid'`: bytes outside them stay, except that the region to the
right learns whether its left neighbour is allocated. -/
lemma Layout.replace (h : Layout m (pre ++ mid ++ post)) (hext : extent mid' = extent mid)
    (hbelow : ∀ x, x < extent pre → m' x = m x)
    (habove : ∀ x, extent pre + extent mid + 2 ≤ x → x < 65532 → m' x = m x)
    (hmid : Tiled (RegionOk m') (lastOr none pre) (extent pre) mid')
    (hkind : ∀ r rest, post = r :: rest → r.kind ≠ .free)
    (hnext : ∀ r rest, post = r :: rest → r.kind = .used →
      word16 m' (extent pre + extent mid) / 2 = word16 m (extent pre + extent mid) / 2 ∧
      (leftKind (lastOr (lastOr none pre) mid') = .free →
        word16 m' (extent pre + extent mid) % 2 = 0) ∧
      (leftKind (lastOr (lastOr none pre) mid') = .used →
        word16 m' (extent pre + extent mid) % 2 = 1)) :
    Layout m' (pre ++ mid' ++ post) := by
  have hend := h.extent_eq
  have htiled := h.tiled
  rw [tiled_append, tiled_append, Nat.zero_add, Nat.zero_add, extent_append] at htiled
  rw [extent_append, extent_append] at hend
  obtain ⟨⟨hpre, -⟩, hpost⟩ := htiled
  refine ⟨?_, by rw [extent_append, extent_append, hext]; exact hend⟩
  rw [tiled_append, tiled_append, Nat.zero_add, Nat.zero_add, extent_append, hext]
  refine ⟨⟨tiled_of_range hpre fun x _ hx => hbelow x (by omega), hmid⟩, ?_⟩
  cases post with
  | nil => trivial
  | cons r rest =>
    obtain ⟨⟨hsize, hr⟩, hrest⟩ := hpost
    rw [extent_cons] at hend
    refine ⟨⟨hsize, ?_⟩, tiled_of_range hrest fun x hx hx' => habove x (by omega) (by omega)⟩
    cases hk : r.kind with
    | free => exact absurd hk (hkind r rest rfl)
    | used =>
      obtain ⟨hhalf, hfree, hused⟩ := hnext r rest rfl hk
      rw [← lastOr_append] at hfree hused
      rw [hk] at hr
      have hheader := hr.header
      have hbit := hr.bit
      refine ⟨?_, ?_, hfree, hused⟩
      · unfold sizeBits at hheader ⊢
        omega
      · unfold allocated at hbit ⊢
        omega
    | small =>
      rw [hk] at hr
      exact hr

end Frame

section Live

/-- A live allocation: the pointer returned, and the size its header recorded then. -/
structure Alloc where
  ptr : Nat
  size : Nat
  deriving DecidableEq

/-- The block of an allocation. A recorded size of 4 is that of a request of at most 4 bytes
that split a block: it took 8 bytes, of which the recorded extent is the middle. -/
def Alloc.start (a : Alloc) : Nat := if a.size = 4 then a.ptr - 4 else a.ptr - 2

def Alloc.stop (a : Alloc) : Nat := if a.size = 4 then a.ptr + 4 else a.ptr - 2 + a.size

def allocOf (p : Nat) (r : Region) : Option Alloc :=
  match r.kind with
  | .free => none
  | .used => some ⟨p + 2, r.size⟩
  | .small => some ⟨p + 4, 4⟩

def allocsOf : Nat → List Region → List Alloc
  | _, [] => []
  | p, r :: L => (allocOf p r).toList ++ allocsOf (p + r.size) L

lemma allocsOf_append (p : Nat) (L L' : List Region) :
    allocsOf p (L ++ L') = allocsOf p L ++ allocsOf (p + extent L) L' := by
  induction L generalizing p with
  | nil => simp [allocsOf]
  | cons r L ih =>
    rw [List.cons_append, allocsOf, allocsOf, ih, extent_cons, Nat.add_assoc, List.append_assoc]

lemma mem_allocsOf {a : Alloc} : a ∈ allocsOf p L ↔
    ∃ pre r post, L = pre ++ r :: post ∧ allocOf (p + extent pre) r = some a := by
  induction L generalizing p with
  | nil => simp [allocsOf]
  | cons r L ih =>
    rw [allocsOf, List.mem_append, Option.mem_toList, ih]
    constructor
    · rintro (h | ⟨pre, s, post, hL, h⟩)
      · exact ⟨[], r, L, rfl, h⟩
      · exact ⟨r :: pre, s, post, by rw [hL, List.cons_append], by rw [extent_cons, ← Nat.add_assoc]; exact h⟩
    · rintro ⟨pre, s, post, hL, h⟩
      cases pre with
      | nil =>
        obtain ⟨rfl, -⟩ := List.cons.inj hL
        exact Or.inl h
      | cons t pre =>
        obtain ⟨rfl, rfl⟩ := List.cons.inj hL
        rw [extent_cons, ← Nat.add_assoc] at h
        exact Or.inr ⟨pre, s, post, rfl, h⟩

/-- The heap's bytes are laid out as `L`, and its allocated regions are the live allocations. -/
structure HeapInv (m : Nat → Nat) (live : List Alloc) (L : List Region) : Prop where
  layout : Layout m L
  live_perm : live.Perm (allocsOf 0 L)

lemma HeapInv.mem_live {live : List Alloc} {a : Alloc} (h : HeapInv m live L) : a ∈ live ↔
    ∃ pre r post, L = pre ++ r :: post ∧ allocOf (extent pre) r = some a := by
  rw [h.live_perm.mem_iff, mem_allocsOf]
  simp only [Nat.zero_add]

end Live

section Gaps

/-- `x` lies in the block of a live allocation. -/
def Covered (live : List Alloc) (x : Nat) : Prop := ∃ a ∈ live, a.start ≤ x ∧ x < a.stop

/-- `[b, e)` is a maximal stretch of the heap that no live allocation covers. -/
structure Gap (live : List Alloc) (b e : Nat) : Prop where
  lt : b < e
  le : e ≤ 65532
  empty : ∀ x, b ≤ x → x < e → ¬Covered live x
  left : b = 0 ∨ Covered live (b - 1)
  right : e = 65532 ∨ Covered live e

variable {live : List Alloc}

lemma allocOf_bounds {left : Option Region} {a : Alloc} (hr : RegionOk m left p r)
    (ha : allocOf p r = some a) : a.start = p ∧ a.stop = p + r.size := by
  obtain ⟨⟨-, h8⟩, hk⟩ := hr
  unfold allocOf at ha
  unfold Alloc.start Alloc.stop
  cases hkind : r.kind with
  | free =>
    rw [hkind] at ha
    cases ha
  | used =>
    rw [hkind] at ha
    cases ha
    dsimp only
    rw [if_neg (by omega), if_neg (by omega)]
    omega
  | small =>
    rw [hkind] at ha hk
    cases ha
    dsimp only at hk ⊢
    rw [if_pos rfl, if_pos rfl, hk]
    omega

lemma exists_allocOf (hk : r.kind ≠ .free) (p : Nat) : ∃ a, allocOf p r = some a := by
  unfold allocOf
  cases hkind : r.kind with
  | free => exact absurd hkind hk
  | used => exact ⟨_, rfl⟩
  | small => exact ⟨_, rfl⟩

lemma HeapInv.covered_iff (h : HeapInv m live L) {x : Nat} : Covered live x ↔
    ∃ pre r post, L = pre ++ r :: post ∧ r.kind ≠ .free ∧ extent pre ≤ x ∧ x < extent pre + r.size := by
  constructor
  · rintro ⟨a, ha, hx⟩
    obtain ⟨pre, r, post, hL, hr⟩ := h.mem_live.mp ha
    have hok := h.layout
    rw [hL] at hok
    obtain ⟨hstart, hstop⟩ := allocOf_bounds hok.at_split hr
    refine ⟨pre, r, post, hL, ?_, by omega, by omega⟩
    intro hk
    unfold allocOf at hr
    rw [hk] at hr
    cases hr
  · rintro ⟨pre, r, post, hL, hk, hx⟩
    obtain ⟨a, ha⟩ := exists_allocOf hk (extent pre)
    have hok := h.layout
    rw [hL] at hok
    obtain ⟨hstart, hstop⟩ := allocOf_bounds hok.at_split ha
    exact ⟨a, h.mem_live.mpr ⟨pre, r, post, hL, ha⟩, by omega, by omega⟩

lemma HeapInv.not_covered_of_free (h : HeapInv m live (pre ++ ⟨size, .free⟩ :: post)) {x : Nat}
    (hx : extent pre ≤ x ∧ x < extent pre + size) : ¬Covered live x := by
  rw [h.covered_iff]
  rintro ⟨pre', r, post', hL, hk, hx'⟩
  obtain ⟨-, rfl, -⟩ := block_unique hL hx hx'
  exact hk rfl

/-- Free regions do not touch. -/
lemma Layout.right_not_free (h : Layout m (pre ++ ⟨size, .free⟩ :: r :: post)) : r.kind ≠ .free := by
  intro hk
  have hL : pre ++ ⟨size, .free⟩ :: r :: post = (pre ++ [⟨size, .free⟩]) ++ r :: post := by simp
  rw [hL] at h
  have hr := h.at_split.2
  rw [hk] at hr
  exact hr.left (by rw [lastOr_concat]; rfl)

lemma Layout.left_not_free (h : Layout m (pre ++ r :: ⟨size, .free⟩ :: post)) : r.kind ≠ .free := by
  intro hk
  have hL : pre ++ r :: ⟨size, .free⟩ :: post = (pre ++ [r]) ++ ⟨size, .free⟩ :: post := by simp
  rw [hL] at h
  have hf := h.free_at.left
  rw [lastOr_concat] at hf
  exact hf hk

lemma HeapInv.gap_of_free (h : HeapInv m live (pre ++ ⟨size, .free⟩ :: post)) :
    Gap live (extent pre) (extent pre + size) := by
  have h8 := h.layout.size_ok.2
  have hend := h.layout.end_le
  dsimp only at h8 hend
  refine ⟨by omega, hend, fun x hx hx' => h.not_covered_of_free ⟨hx, hx'⟩, ?_, ?_⟩
  · rcases List.eq_nil_or_concat pre with rfl | ⟨pre', r, rfl⟩
    · exact Or.inl rfl
    · right
      rw [List.concat_eq_append, List.append_assoc, List.singleton_append] at h
      have hr := h.layout.size_ok.2
      rw [h.covered_iff]
      refine ⟨pre', r, _, rfl, h.layout.left_not_free, ?_, ?_⟩
      · simp only [List.concat_eq_append, extent_append, extent_cons, extent_nil]
        omega
      · simp only [List.concat_eq_append, extent_append, extent_cons, extent_nil]
        omega
  · cases post with
    | nil =>
      left
      have := h.layout.extent_eq
      rw [extent_append, extent_cons, extent_nil] at this
      exact this
    | cons r post =>
      right
      have hk := h.layout.right_not_free
      have hL : pre ++ ⟨size, .free⟩ :: r :: post = (pre ++ [⟨size, .free⟩]) ++ r :: post := by simp
      rw [hL] at h
      have hr := h.layout.size_ok.2
      rw [h.covered_iff]
      refine ⟨_, r, post, rfl, hk, ?_, ?_⟩
      · simp only [extent_append, extent_cons, extent_nil]
        omega
      · simp only [extent_append, extent_cons, extent_nil]
        omega

lemma HeapInv.free_of_gap (h : HeapInv m live L) {b e : Nat} (hg : Gap live b e) :
    ∃ pre post, L = pre ++ ⟨e - b, .free⟩ :: post ∧ extent pre = b := by
  have hlt := hg.lt
  have hle := hg.le
  obtain ⟨pre, r, post, hL, hb, hb'⟩ := exists_block (L := L) (x := b) (by rw [h.layout.extent_eq]; omega)
  have hfree : r.kind = .free := by
    by_contra hk
    exact hg.empty b (Nat.le_refl b) hlt (h.covered_iff.mpr ⟨pre, r, post, hL, hk, hb, hb'⟩)
  obtain ⟨size, kind⟩ := r
  dsimp only at hfree hb'
  subst hfree
  subst hL
  have hgap := h.gap_of_free
  have hstart : extent pre = b := by
    by_contra hne
    rcases hg.left with h0 | hcov
    · omega
    · exact h.not_covered_of_free ⟨by omega, by omega⟩ hcov
  have hstop : extent pre + size = e := by
    rcases Nat.lt_trichotomy (extent pre + size) e with hlt' | heq | hgt
    · rcases hgap.right with htop | hcov
      · omega
      · exact absurd hcov (hg.empty _ (by omega) hlt')
    · exact heq
    · rcases hg.right with htop | hcov
      · have := hgap.le
        omega
      · exact absurd hcov (hgap.empty e (by omega) hgt)
  refine ⟨pre, post, ?_, hstart⟩
  have hsize : e - b = size := by omega
  rw [hsize]

end Gaps

end JavaScriptOS.Heap
