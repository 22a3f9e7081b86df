import JavaScriptOS.Lib.ByteWords
import JavaScriptOS.Lib.FirstFit
import JavaScriptOS.Lib.Reach

/-!
# `StaticAllocator`

The allocator behind the coroutine frames of `test_generator.cpp`. It hands out pieces of a static pool,
and a piece that comes back holds a `Block` in its first 24 bytes: the pointer to the next block, the
size and its own address. Pointers and sizes are 64-bit words, and all additions wrap. The messages that
both functions print are not modelled.
-/

namespace JavaScriptOS.Libcppk
open JavaScriptOS.Lib

namespace StaticAllocator

/-- `PoolSize`. -/
def poolSize : BitVec 64 := 512

/-- `sizeof(Block)`. -/
def sizeofBlock : Nat := 24

/-! The fields of a `Block`. -/

def blockNext (m : Memory) (p : BitVec 64) : BitVec 64 := load64 m p

def blockSize (m : Memory) (p : BitVec 64) : BitVec 64 := load64 m (p + 8)

def blockAddress (m : Memory) (p : BitVec 64) : BitVec 64 := load64 m (p + 16)

/-- The memory and the two static variables. -/
structure Pool where
  mem : Memory
  freeList : BitVec 64
  poolOffset : BitVec 64

inductive Stop where
  | badAlloc
  | diverges
  deriving DecidableEq

/-- `*prev = v`, where `prev` is `&freeList` or points to the first field of a block. -/
def Pool.setLink (s : Pool) (prev : Option (BitVec 64)) (v : BitVec 64) : Pool :=
  match prev with
  | none => { s with freeList := v }
  | some a => { s with mem := store64 s.mem a v }

/-- The loop over the free list, for at most `fuel` tests of its condition. -/
def search (s : Pool) (requiredSize : BitVec 64) :
    Nat → Option (BitVec 64) → BitVec 64 → Except Stop (Option (BitVec 64 × Pool))
  | 0, _, _ => .error .diverges
  | fuel + 1, prev, current =>
    if current = 0 then .ok none
    else if requiredSize ≤ blockSize s.mem current then
      let s := s.setLink prev (blockNext s.mem current)
      .ok (some (blockAddress s.mem current, s))
    else search s requiredSize fuel (some current) (blockNext s.mem current)

def allocate (fuel : Nat) (memoryPool : BitVec 64) (s : Pool) (n sizeofT : BitVec 64) :
    Except Stop (BitVec 64 × Pool) := do
  let requiredSize := n * sizeofT
  match ← search s requiredSize fuel none s.freeList with
  | some found => pure found
  | none =>
    if s.poolOffset + requiredSize > poolSize then throw .badAlloc
    else pure (memoryPool + s.poolOffset, { s with poolOffset := s.poolOffset + requiredSize })

def deallocate (s : Pool) (p n sizeofT : BitVec 64) : Pool :=
  let m := store64 s.mem (p + 16) p
  let m := store64 m (p + 8) (n * sizeofT)
  let m := store64 m p s.freeList
  { s with mem := m, freeList := p }

section Chain

variable {b p : BitVec 64} {m m' : Memory} {rs : List Region} {r : Region} {start k : Nat} {l : List (BitVec 8)}

/-- The blocks from `p` on are the regions of the pool at `b`, in order. -/
def FreeBlocks (b : BitVec 64) (m : Memory) : BitVec 64 → List Region → Prop
  | p, [] => p = 0
  | p, r :: rs => p = b + BitVec.ofNat 64 r.start ∧ blockSize m p = BitVec.ofNat 64 r.length ∧
      blockAddress m p = p ∧ FreeBlocks b m (blockNext m p) rs

/-- Every region holds a `Block` and lies in the pool. -/
def Roomy (rs : List Region) : Prop := ∀ r ∈ rs, sizeofBlock ≤ r.length ∧ r.start + r.length ≤ 512

structure SameBlock (m m' : Memory) (p : BitVec 64) : Prop where
  next : blockNext m' p = blockNext m p
  size : blockSize m' p = blockSize m p
  address : blockAddress m' p = blockAddress m p

lemma blockSize_at : blockSize m (b + BitVec.ofNat 64 start) = load64 m (b + BitVec.ofNat 64 (start + 8)) :=
  congrArg (load64 m) (ofNat_add_offset b start 8)

lemma blockAddress_at : blockAddress m (b + BitVec.ofNat 64 start) = load64 m (b + BitVec.ofNat 64 (start + 16)) :=
  congrArg (load64 m) (ofNat_add_offset b start 16)

/-- The list only reads the first 24 bytes of its blocks. -/
lemma FreeBlocks.congr (h : FreeBlocks b m p rs) (hsame : ∀ r ∈ rs, SameBlock m m' (b + BitVec.ofNat 64 r.start)) :
    FreeBlocks b m' p rs := by
  induction rs generalizing p with
  | nil => exact h
  | cons r rs ih =>
    obtain ⟨rfl, hsize, haddress, hrest⟩ := h
    have hr := hsame r List.mem_cons_self
    refine ⟨rfl, hr.size.trans hsize, hr.address.trans haddress, ?_⟩
    rw [hr.next]
    exact ih hrest fun r' hr' => hsame r' (List.mem_cons_of_mem _ hr')

lemma sameBlock_writeBytes (hstart : start + 24 ≤ 512) (hk : k + l.length ≤ 512)
    (h : start + 24 ≤ k ∨ k + l.length ≤ start) :
    SameBlock m (writeBytes m (b + BitVec.ofNat 64 k) l) (b + BitVec.ofNat 64 start) where
  next := load64_writeBytes_of_apart (by omega) (by omega) (by omega)
  size := by
    rw [blockSize_at, blockSize_at]
    exact load64_writeBytes_of_apart (by omega) (by omega) (by omega)
  address := by
    rw [blockAddress_at, blockAddress_at]
    exact load64_writeBytes_of_apart (by omega) (by omega) (by omega)

/-- Writing inside a region that is apart from the blocks of the list. -/
lemma FreeBlocks.write (h : FreeBlocks b m p rs) (hroomy : Roomy rs) (hr : r.start + r.length ≤ 512)
    (hapart : ∀ r' ∈ rs, r.Apart r') (hk : r.start ≤ k) (hl : k + l.length ≤ r.start + r.length) :
    FreeBlocks b (writeBytes m (b + BitVec.ofNat 64 k) l) p rs := by
  apply h.congr
  intro r' hr'
  have hsize := hroomy r' hr'
  have hor := hapart r' hr'
  unfold Region.Apart at hor
  unfold sizeofBlock at hsize
  exact sameBlock_writeBytes (by omega) (by omega) (by omega)

lemma FreeBlocks.address_of_mem (h : FreeBlocks b m p rs) (hr : r ∈ rs) :
    blockAddress m (b + BitVec.ofNat 64 r.start) = b + BitVec.ofNat 64 r.start := by
  induction rs generalizing p with
  | nil => cases hr
  | cons r₀ rs ih =>
    obtain ⟨rfl, -, haddress, hrest⟩ := h
    rcases List.mem_cons.mp hr with rfl | hlater
    · exact haddress
    · exact ih hrest hlater

/-- The place where the pointer to the block behind `before` is stored. -/
def linkAfter (b : BitVec 64) (prev : Option (BitVec 64)) : List Region → Option (BitVec 64)
  | [] => prev
  | r :: rs => linkAfter b (some (b + BitVec.ofNat 64 r.start)) rs

variable (hbase : b.toNat + 512 ≤ 2 ^ 64) (hb : b ≠ 0)

include hbase hb in
lemma block_ne_zero (hstart : start < 512) : b + BitVec.ofNat 64 start ≠ 0 := by
  intro hzero
  have hnat := congrArg BitVec.toNat hzero
  have hb0 : b.toNat ≠ 0 := fun h0 => hb (BitVec.eq_of_toNat_eq h0)
  rw [BitVec.toNat_add, BitVec.toNat_ofNat, Nat.mod_eq_of_lt (by omega), Nat.mod_eq_of_lt (by omega)] at hnat
  change b.toNat + start = 0 at hnat
  omega

lemma le_ofNat_iff {v : BitVec 64} {n : Nat} (hn : n ≤ 512) : v ≤ BitVec.ofNat 64 n ↔ v.toNat ≤ n := by
  rw [BitVec.le_def, BitVec.toNat_ofNat, Nat.mod_eq_of_lt (by omega)]

include hbase hb

/-- The loop finds the first block that is long enough and unlinks it. -/
lemma search_found {s : Pool} {requiredSize : BitVec 64} {before after : List Region} {fuel : Nat}
    (prev : Option (BitVec 64)) (h : FreeBlocks b s.mem p (before ++ r :: after))
    (hroomy : Roomy (before ++ r :: after)) (hshort : ∀ r' ∈ before, r'.length < requiredSize.toNat) (hfit : requiredSize.toNat ≤ r.length)
    (hfuel : before.length < fuel) :
    search s requiredSize fuel prev p =
      let s' := s.setLink (linkAfter b prev before) (blockNext s.mem (b + BitVec.ofNat 64 r.start))
      .ok (some (blockAddress s'.mem (b + BitVec.ofNat 64 r.start), s')) := by
  induction before generalizing p prev fuel with
  | nil =>
    obtain ⟨fuel, rfl⟩ := Nat.exists_eq_add_one_of_ne_zero (Nat.ne_of_gt hfuel)
    obtain ⟨rfl, hsize, -, -⟩ := h
    obtain ⟨hr24, hr512⟩ := hroomy r List.mem_cons_self
    unfold sizeofBlock at hr24
    rw [search, if_neg (block_ne_zero hbase hb (by omega)), if_pos]
    · rfl
    · rw [hsize, le_ofNat_iff (by omega)]
      exact hfit
  | cons r₀ before ih =>
    obtain ⟨fuel, rfl⟩ := Nat.exists_eq_add_one_of_ne_zero (Nat.ne_of_gt (Nat.zero_lt_of_lt hfuel))
    obtain ⟨rfl, hsize, -, hrest⟩ := h
    obtain ⟨hr24, hr512⟩ := hroomy r₀ List.mem_cons_self
    unfold sizeofBlock at hr24
    have hlen := hshort r₀ List.mem_cons_self
    rw [search, if_neg (block_ne_zero hbase hb (by omega)), if_neg]
    · exact ih _ hrest (fun r' hr' => hroomy r' (List.mem_cons_of_mem _ hr'))
        (fun r' hr' => hshort r' (List.mem_cons_of_mem _ hr')) (Nat.lt_of_succ_lt_succ hfuel)
    · rw [hsize, le_ofNat_iff (by omega)]
      omega

lemma search_missed {s : Pool} {requiredSize : BitVec 64} {fuel : Nat} {prev : Option (BitVec 64)}
    (h : FreeBlocks b s.mem p rs) (hroomy : Roomy rs) (hshort : ∀ r ∈ rs, r.length < requiredSize.toNat)
    (hfuel : rs.length < fuel) : search s requiredSize fuel prev p = .ok none := by
  induction rs generalizing p prev fuel with
  | nil =>
    obtain ⟨fuel, rfl⟩ := Nat.exists_eq_add_one_of_ne_zero (Nat.ne_of_gt hfuel)
    have hp : p = 0 := h
    rw [search, if_pos hp]
  | cons r₀ rs ih =>
    obtain ⟨fuel, rfl⟩ := Nat.exists_eq_add_one_of_ne_zero (Nat.ne_of_gt (Nat.zero_lt_of_lt hfuel))
    obtain ⟨rfl, hsize, -, hrest⟩ := h
    obtain ⟨hr24, hr512⟩ := hroomy r₀ List.mem_cons_self
    unfold sizeofBlock at hr24
    have hlen := hshort r₀ List.mem_cons_self
    rw [search, if_neg (block_ne_zero hbase hb (by omega)), if_neg]
    · exact ih hrest (fun r' hr' => hroomy r' (List.mem_cons_of_mem _ hr'))
        (fun r' hr' => hshort r' (List.mem_cons_of_mem _ hr')) (Nat.lt_of_succ_lt_succ hfuel)
    · rw [hsize, le_ofNat_iff (by omega)]
      omega

omit hbase hb

/-- A store to the first field of a block leaves its other two fields. -/
lemma block_store_next (m : Memory) (b v : BitVec 64) (hstart : start + 24 ≤ 512) :
    blockNext (store64 m (b + BitVec.ofNat 64 start) v) (b + BitVec.ofNat 64 start) = v ∧
    blockSize (store64 m (b + BitVec.ofNat 64 start) v) (b + BitVec.ofNat 64 start) =
      blockSize m (b + BitVec.ofNat 64 start) ∧
    blockAddress (store64 m (b + BitVec.ofNat 64 start) v) (b + BitVec.ofNat 64 start) =
      blockAddress m (b + BitVec.ofNat 64 start) := by
  refine ⟨load64_store64_self _ _ _, ?_, ?_⟩
  · rw [blockSize_at, blockSize_at]
    exact load64_store64_of_apart (by omega) (by omega) (by omega)
  · rw [blockAddress_at, blockAddress_at]
    exact load64_store64_of_apart (by omega) (by omega) (by omega)

/-- Storing the pointer behind a block in the block before it takes the block out of the list. -/
lemma FreeBlocks.unlink {before after : List Region} {r₀ : Region}
    (h : FreeBlocks b m p (r₀ :: before ++ r :: after)) (hroomy : Roomy (r₀ :: before ++ r :: after))
    (hapart : (r₀ :: before ++ r :: after).Pairwise Region.Apart) :
    ∃ a, linkAfter b (some (b + BitVec.ofNat 64 r₀.start)) before = some a ∧
      FreeBlocks b (store64 m a (blockNext m (b + BitVec.ofNat 64 r.start))) p (r₀ :: before ++ after) ∧
      ∃ r' ∈ r₀ :: before, a = b + BitVec.ofNat 64 r'.start := by
  induction before generalizing p r₀ with
  | nil =>
    obtain ⟨rfl, hsize, haddress, ⟨hr, -, -, hrest⟩⟩ := h
    obtain ⟨hr24, hr512⟩ := hroomy r₀ List.mem_cons_self
    unfold sizeofBlock at hr24
    have hstart : r₀.start + 24 ≤ 512 := by omega
    obtain ⟨hnext', hsize', haddress'⟩ := block_store_next m b (blockNext m (b + BitVec.ofNat 64 r.start)) hstart
    refine ⟨_, rfl, ⟨rfl, hsize'.trans hsize, haddress'.trans haddress, ?_⟩, r₀, by simp, rfl⟩
    rw [hnext']
    have hafter : FreeBlocks b m (blockNext m (b + BitVec.ofNat 64 r.start)) after := by
      rw [← hr]
      exact hrest
    obtain ⟨hne, htail⟩ := List.pairwise_cons.mp hapart
    exact hafter.write (fun r' hr' => hroomy r' (by simp [hr'])) hr512 (fun r' hr' => hne r' (by simp [hr']))
      (Nat.le_refl _) (by rw [length_bytesOf]; omega)
  | cons r₁ before ih =>
    obtain ⟨rfl, hsize, haddress, hrest⟩ := h
    obtain ⟨hr24, hr512⟩ := hroomy r₀ List.mem_cons_self
    unfold sizeofBlock at hr24
    obtain ⟨hne, htail⟩ := List.pairwise_cons.mp hapart
    obtain ⟨a, ha, hlist, r', hr', rfl⟩ := ih hrest (fun r' hr' => hroomy r' (List.mem_cons_of_mem _ hr')) htail
    obtain ⟨hr'24, hr'512⟩ := hroomy r' (by simp at hr' ⊢; tauto)
    unfold sizeofBlock at hr'24
    have hor := hne r' (by simp at hr' ⊢; tauto)
    unfold Region.Apart at hor
    have hsame : SameBlock m (store64 m (b + BitVec.ofNat 64 r'.start) (blockNext m (b + BitVec.ofNat 64 r.start)))
        (b + BitVec.ofNat 64 r₀.start) :=
      sameBlock_writeBytes (by omega) (by rw [length_bytesOf]; omega) (by rw [length_bytesOf]; omega)
    refine ⟨_, ha, ⟨rfl, hsame.size.trans hsize, hsame.address.trans haddress, ?_⟩, r', List.mem_cons_of_mem _ hr', rfl⟩
    rw [hsame.next]
    exact hlist

end Chain

section Refinement

variable {b : BitVec 64} {s : Pool} {a a' : Arena} {r : Region} {n sizeofT : BitVec 64} {fuel start : Nat}

/-- The pool at `b` is an arena of 512 bytes whose free regions are the free list. -/
structure Represents (b : BitVec 64) (s : Pool) (a : Arena) : Prop where
  blocks : FreeBlocks b s.mem s.freeList a.free
  offset : s.poolOffset = BitVec.ofNat 64 a.top
  separate : a.Separate 512
  room : ∀ r ∈ a.free ++ a.live, sizeofBlock ≤ r.length

/-- The bytes of a region are the same in two memories. -/
def SameBytes (b : BitVec 64) (m m' : Memory) (r : Region) : Prop :=
  ∀ x, r.start ≤ x → x < r.start + r.length → m' (b + BitVec.ofNat 64 x) = m (b + BitVec.ofNat 64 x)

lemma SameBytes.trans {m₁ m₂ m₃ : Memory} (h : SameBytes b m₁ m₂ r) (h' : SameBytes b m₂ m₃ r) :
    SameBytes b m₁ m₃ r := fun x hge hlt => (h' x hge hlt).trans (h x hge hlt)

/-- Writing inside one region leaves the bytes of a region apart from it. -/
lemma sameBytes_writeBytes {m : Memory} {r' : Region} {k : Nat} {l : List (BitVec 8)} (hr : r.start + r.length ≤ 512)
    (hr' : r'.start + r'.length ≤ 512) (hapart : r'.Apart r) (hk : r'.start ≤ k)
    (hl : k + l.length ≤ r'.start + r'.length) : SameBytes b m (writeBytes m (b + BitVec.ofNat 64 k) l) r := by
  intro x hge hlt
  unfold Region.Apart at hapart
  exact writeBytes_apply_of_apart (by omega) (by omega) (by omega)

namespace Represents

lemma inPool (h : Represents b s a) (hr : r ∈ a.free ++ a.live) : sizeofBlock ≤ r.length ∧ r.start + r.length ≤ 512 :=
  ⟨h.room r hr, (h.separate.below r hr).trans h.separate.top_le⟩

lemma roomy (h : Represents b s a) : Roomy a.free := fun _ hr => h.inPool (List.mem_append_left _ hr)

lemma free_apart (h : Represents b s a) : a.free.Pairwise Region.Apart := (List.pairwise_append.mp h.separate.apart).1

lemma live_apart (h : Represents b s a) : a.live.Pairwise Region.Apart :=
  (List.pairwise_append.mp h.separate.apart).2.1

lemma apart (h : Represents b s a) {r' : Region} (hr : r ∈ a.free) (hr' : r' ∈ a.live) : r.Apart r' :=
  (List.pairwise_append.mp h.separate.apart).2.2 r hr r' hr'

/-- There are at most 21 free blocks. -/
lemma length_free (h : Represents b s a) : a.free.length < 22 := by
  have hmul := mul_length_le h.free_apart (fun r hr => (h.roomy r hr).2) fun r hr => (h.roomy r hr).1
  unfold sizeofBlock at hmul
  omega

lemma top_toNat (h : Represents b s a) : s.poolOffset.toNat = a.top := by
  have htop := h.separate.top_le
  rw [h.offset, BitVec.toNat_ofNat, Nat.mod_eq_of_lt (by omega)]

/-- A block of the free list is taken out, and nothing but a link in another free block is written. -/
lemma unlinked (h : Represents b s a) {before after : List Region} (hfree : a.free = before ++ r :: after) :
    let s' := s.setLink (linkAfter b none before) (blockNext s.mem (b + BitVec.ofNat 64 r.start))
    FreeBlocks b s'.mem s'.freeList (before ++ after) ∧ s'.poolOffset = s.poolOffset ∧
      blockAddress s'.mem (b + BitVec.ofNat 64 r.start) = b + BitVec.ofNat 64 r.start ∧
      ∀ r' ∈ a.live, SameBytes b s.mem s'.mem r' := by
  have hblocks := h.blocks
  have hroomy := h.roomy
  have hapart := h.free_apart
  rw [hfree] at hblocks hroomy hapart
  cases before with
  | nil =>
    obtain ⟨hp, -, haddress, hrest⟩ := hblocks
    rw [hp] at haddress hrest
    exact ⟨hrest, rfl, haddress, fun r' _ x _ _ => rfl⟩
  | cons r₀ before =>
    obtain ⟨link, hlink, hlist, r₁, hr₁, rfl⟩ := hblocks.unlink hroomy hapart
    have hs : s.setLink (linkAfter b none (r₀ :: before)) (blockNext s.mem (b + BitVec.ofNat 64 r.start)) =
        { s with mem := store64 s.mem (b + BitVec.ofNat 64 r₁.start)
                   (blockNext s.mem (b + BitVec.ofNat 64 r.start)) } := by
      rw [linkAfter, hlink]
      rfl
    rw [hs]
    have hr₁free : r₁ ∈ a.free := hfree ▸ List.mem_append_left _ hr₁
    obtain ⟨h24, h512⟩ := h.roomy r₁ hr₁free
    unfold sizeofBlock at h24
    refine ⟨hlist, rfl, ?_, ?_⟩
    · -- the block itself is apart from the one before it
      have hr : r ∈ a.free := hfree ▸ List.mem_append_right _ List.mem_cons_self
      have hor : r₁.Apart r := (List.pairwise_append.mp hapart).2.2 r₁ hr₁ r List.mem_cons_self
      obtain ⟨hr24, hr512⟩ := h.roomy r hr
      unfold sizeofBlock at hr24
      unfold Region.Apart at hor
      have hsame : SameBlock s.mem (store64 s.mem (b + BitVec.ofNat 64 r₁.start)
          (blockNext s.mem (b + BitVec.ofNat 64 r.start))) (b + BitVec.ofNat 64 r.start) :=
        sameBlock_writeBytes (by omega) (by rw [length_bytesOf]; omega) (by rw [length_bytesOf]; omega)
      exact hsame.address.trans (hblocks.address_of_mem (List.mem_append_right _ List.mem_cons_self))
    · intro r' hr'
      exact sameBytes_writeBytes (h.inPool (List.mem_append_right _ hr')).2 h512 (h.apart hr₁free hr')
        (Nat.le_refl _) (by rw [length_bytesOf]; omega)

/-- `allocate` is first fit: it returns what the arena hands out, or throws if the arena has no room. -/
lemma allocate_eq (h : Represents b s a) (hbase : b.toNat + 512 ≤ 2 ^ 64) (hb : b ≠ 0) (hfuel : 22 ≤ fuel)
    (hroom : sizeofBlock ≤ (n * sizeofT).toNat) (hsmall : (n * sizeofT).toNat + 512 < 2 ^ 64) :
    (a.alloc 512 (n * sizeofT).toNat = none ∧ allocate fuel b s n sizeofT = .error .badAlloc) ∨
    ∃ start a' s', a.alloc 512 (n * sizeofT).toNat = some (start, a') ∧
      allocate fuel b s n sizeofT = .ok (b + BitVec.ofNat 64 start, s') ∧ Represents b s' a' ∧
      ∀ r ∈ a.live, SameBytes b s.mem s'.mem r := by
  have hlength := h.length_free
  have htop := h.separate.top_le
  cases htake : takeFirst (n * sizeofT).toNat a.free with
  | some found =>
    obtain ⟨r, rest⟩ := found
    right
    obtain ⟨hfit, before, after, hfree, rfl, hshort⟩ := takeFirst_split htake
    have halloc : a.alloc 512 (n * sizeofT).toNat =
        some (r.start, { a with free := before ++ after, live := ⟨r.start, (n * sizeofT).toNat⟩ :: a.live }) := by
      rw [Arena.alloc, htake]
    have hblocks := h.blocks
    have hroomy := h.roomy
    rw [hfree] at hblocks hroomy hlength
    have hbefore : before.length < fuel := by
      rw [List.length_append] at hlength
      omega
    obtain ⟨hlist, hoffset, haddress, hsame⟩ := h.unlinked hfree
    have hfound := search_found hbase hb none hblocks hroomy hshort hfit hbefore
    dsimp only at hfound
    rw [haddress] at hfound
    refine ⟨_, _, _, halloc, by rw [allocate, hfound]; rfl,
      ⟨hlist, hoffset.trans h.offset, h.separate.alloc halloc, ?_⟩, hsame⟩
    intro r' hr'
    rcases List.mem_cons.mp (List.perm_middle.mem_iff.mp hr') with rfl | hold
    · exact hroom
    · apply h.room
      rw [hfree]
      simp only [List.mem_append, List.mem_cons] at hold ⊢
      tauto
  | none =>
    have hshort := takeFirst_eq_none.mp htake
    have hmissed : search s (n * sizeofT) fuel none s.freeList = .ok none :=
      search_missed hbase hb h.blocks h.roomy hshort (by omega)
    have hsum : (s.poolOffset + n * sizeofT).toNat = a.top + (n * sizeofT).toNat := by
      rw [BitVec.toNat_add, h.top_toNat, Nat.mod_eq_of_lt (by omega)]
    have hover : s.poolOffset + n * sizeofT > poolSize ↔ ¬a.top + (n * sizeofT).toNat ≤ 512 := by
      rw [gt_iff_lt, BitVec.lt_def, hsum]
      change 512 < _ ↔ _
      omega
    by_cases hfits : a.top + (n * sizeofT).toNat ≤ 512
    · right
      have halloc : a.alloc 512 (n * sizeofT).toNat =
          some (a.top, { a with top := a.top + (n * sizeofT).toNat
                                live := ⟨a.top, (n * sizeofT).toNat⟩ :: a.live }) := by
        rw [Arena.alloc, htake]
        exact if_pos hfits
      refine ⟨_, _, { s with poolOffset := s.poolOffset + n * sizeofT }, halloc, ?_,
        ⟨h.blocks, ?_, h.separate.alloc halloc, ?_⟩, fun r _ x _ _ => rfl⟩
      · rw [allocate, hmissed, ok_bind, ← h.offset]
        exact if_neg fun hgt => hover.mp hgt hfits
      · apply BitVec.eq_of_toNat_eq
        dsimp only
        rw [hsum, BitVec.toNat_ofNat, Nat.mod_eq_of_lt (by omega)]
      · intro r' hr'
        rcases List.mem_cons.mp (List.perm_middle.mem_iff.mp hr') with rfl | hold
        · exact hroom
        · exact h.room r' hold
    · left
      refine ⟨?_, ?_⟩
      · rw [Arena.alloc, htake]
        exact if_neg hfits
      · rw [allocate, hmissed, ok_bind]
        exact if_pos (hover.mpr hfits)

/-- Writing inside a live region: the free list is as before, and so are the other live regions. -/
lemma write (h : Represents b s a) {k : Nat} {l : List (BitVec 8)} (hr : r ∈ a.live) (hk : r.start ≤ k)
    (hl : k + l.length ≤ r.start + r.length) :
    Represents b { s with mem := writeBytes s.mem (b + BitVec.ofNat 64 k) l } a where
  blocks := h.blocks.write h.roomy (h.inPool (List.mem_append_right _ hr)).2 (fun _ hr' => (h.apart hr' hr).symm) hk hl
  offset := h.offset
  separate := h.separate
  room := h.room

/-- The three stores of `deallocate` make a block of the region. -/
lemma deallocate_block (m : Memory) (b next size : BitVec 64) (hstart : start + 24 ≤ 512) :
    let p := b + BitVec.ofNat 64 start
    let m' := store64 (store64 (store64 m (p + 16) p) (p + 8) size) p next
    blockNext m' p = next ∧ blockSize m' p = size ∧ blockAddress m' p = p := by
  intro p m'
  have h8 : p + 8 = b + BitVec.ofNat 64 (start + 8) := ofNat_add_offset b start 8
  have h16 : p + 16 = b + BitVec.ofNat 64 (start + 16) := ofNat_add_offset b start 16
  refine ⟨load64_store64_self _ _ _, ?_, ?_⟩
  · change load64 m' (p + 8) = size
    simp only [m', h8, h16, p]
    rw [load64_store64_of_apart (by omega) (by omega) (by omega), load64_store64_self]
  · change load64 m' (p + 16) = p
    simp only [m', h8, h16, p]
    rw [load64_store64_of_apart (by omega) (by omega) (by omega),
      load64_store64_of_apart (by omega) (by omega) (by omega), load64_store64_self]

/-- `deallocate` writes inside the region that comes back. -/
lemma deallocate (h : Represents b s a) (n sizeofT : BitVec 64) (hr : r ∈ a.live)
    (hlen : (n * sizeofT).toNat = r.length) :
    Represents b (StaticAllocator.deallocate s (b + BitVec.ofNat 64 r.start) n sizeofT) (a.release r) ∧
      ∀ r' ∈ a.live.erase r, SameBytes b s.mem
        (StaticAllocator.deallocate s (b + BitVec.ofNat 64 r.start) n sizeofT).mem r' := by
  obtain ⟨h24, h512⟩ := h.inPool (List.mem_append_right _ hr)
  unfold sizeofBlock at h24
  have h8 : b + BitVec.ofNat 64 r.start + 8 = b + BitVec.ofNat 64 (r.start + 8) := ofNat_add_offset b r.start 8
  have h16 : b + BitVec.ofNat 64 r.start + 16 = b + BitVec.ofNat 64 (r.start + 16) := ofNat_add_offset b r.start 16
  have hmem : (StaticAllocator.deallocate s (b + BitVec.ofNat 64 r.start) n sizeofT).mem =
      store64 (store64 (store64 s.mem (b + BitVec.ofNat 64 (r.start + 16)) (b + BitVec.ofNat 64 r.start))
        (b + BitVec.ofNat 64 (r.start + 8)) (n * sizeofT)) (b + BitVec.ofNat 64 r.start) s.freeList := by
    rw [← h8, ← h16]
    rfl
  have hsize : n * sizeofT = BitVec.ofNat 64 r.length := by
    apply BitVec.eq_of_toNat_eq
    rw [hlen, BitVec.toNat_ofNat, Nat.mod_eq_of_lt (by omega)]
  -- the blocks that were free already are apart from the region
  have hold : FreeBlocks b (StaticAllocator.deallocate s (b + BitVec.ofNat 64 r.start) n sizeofT).mem
      s.freeList a.free := by
    have hwrite₁ := h.write (l := bytesOf 8 (b + BitVec.ofNat 64 r.start)) hr (k := r.start + 16) (by omega)
      (by rw [length_bytesOf]; omega)
    have hwrite₂ := hwrite₁.write (l := bytesOf 8 (n * sizeofT)) hr (k := r.start + 8) (by omega)
      (by rw [length_bytesOf]; omega)
    have hwrite₃ := hwrite₂.write (l := bytesOf 8 s.freeList) hr (k := r.start) (by omega)
      (by rw [length_bytesOf]; omega)
    rw [hmem]
    exact hwrite₃.blocks
  have hstart : r.start + 24 ≤ 512 := by omega
  obtain ⟨hnext', hsize', haddress'⟩ := deallocate_block s.mem b s.freeList (n * sizeofT) hstart
  refine ⟨⟨⟨rfl, hsize'.trans hsize, haddress', ?_⟩, h.offset, h.separate.release hr, ?_⟩, ?_⟩
  · exact hnext'.symm ▸ hold
  · intro r' hr'
    apply h.room
    rcases List.mem_append.mp hr' with hfree | hlive
    · rcases List.mem_cons.mp hfree with rfl | hold
      · exact List.mem_append_right _ hr
      · exact List.mem_append_left _ hold
    · exact List.mem_append_right _ (List.mem_of_mem_erase hlive)
  · intro r' hr'
    have hpair := (List.perm_cons_erase hr).pairwise h.live_apart Region.Apart.symm
    have hapart : r.Apart r' := (List.pairwise_cons.mp hpair).1 r' hr'
    have hr'512 := (h.inPool (List.mem_append_right _ (List.mem_of_mem_erase hr'))).2
    have hstore : ∀ (m : Memory) (k : Nat) (v : BitVec 64), r.start ≤ k → k + 8 ≤ r.start + r.length →
        SameBytes b m (store64 m (b + BitVec.ofNat 64 k) v) r' := by
      intro m k v hk hk8
      exact sameBytes_writeBytes hr'512 h512 hapart hk (by rw [length_bytesOf]; exact hk8)
    rw [hmem]
    exact ((hstore _ _ _ (by omega) (by omega)).trans (hstore _ _ _ (by omega) (by omega))).trans
      (hstore _ _ _ (by omega) (by omega))

end Represents

end Refinement

section Clients

/-- What a client keeps of an allocation, to give it back. -/
structure Handle where
  p : BitVec 64
  n : BitVec 64
  sizeofT : BitVec 64
  deriving DecidableEq

def Handle.bytes (h : Handle) : BitVec 64 := h.n * h.sizeofT

/-- The place of an allocation in the pool at `b`. -/
def Handle.region (b : BitVec 64) (h : Handle) : Region := ⟨(h.p - b).toNat, h.bytes.toNat⟩

structure System where
  pool : Pool
  live : List Handle

inductive Call where
  | allocate (n sizeofT : BitVec 64)
  | deallocate (h : Handle)
  | write (h : Handle) (offset : Nat) (bytes : List (BitVec 8))

/-- A call. An allocation that throws leaves everything as it was. -/
def step (fuel : Nat) (b : BitVec 64) (c : System) : Call → Except Stop System
  | .allocate n sizeofT =>
    match StaticAllocator.allocate fuel b c.pool n sizeofT with
    | .ok (p, pool) => .ok ⟨pool, ⟨p, n, sizeofT⟩ :: c.live⟩
    | .error .badAlloc => .ok c
    | .error .diverges => .error .diverges
  | .deallocate h => .ok ⟨StaticAllocator.deallocate c.pool h.p h.n h.sizeofT, c.live.erase h⟩
  | .write h offset bytes =>
    .ok ⟨{ c.pool with mem := writeBytes c.pool.mem (h.p + BitVec.ofNat 64 offset) bytes }, c.live⟩

/-- Requests have room for a `Block` and do not wrap, only live allocations come back, and clients write
inside their own. -/
def Allowed (c : System) : Call → Prop
  | .allocate n sizeofT => sizeofBlock ≤ (n * sizeofT).toNat ∧ (n * sizeofT).toNat + 512 < 2 ^ 64
  | .deallocate h => h ∈ c.live
  | .write h offset bytes => h ∈ c.live ∧ offset + bytes.length ≤ h.bytes.toNat

/-- Program start, with any memory. -/
def Started (c : System) : Prop := c.pool.freeList = 0 ∧ c.pool.poolOffset = 0 ∧ c.live = []

/-- The same call on an arena, which has no bytes. -/
def arenaStep (b : BitVec 64) (s : Arena × List Handle) : Call → Arena × List Handle
  | .allocate n sizeofT =>
    match s.1.alloc 512 (n * sizeofT).toNat with
    | some (start, a) => (a, ⟨b + BitVec.ofNat 64 start, n, sizeofT⟩ :: s.2)
    | none => s
  | .deallocate h => (s.1.release (h.region b), s.2.erase h)
  | .write _ _ _ => s

/-- The pool is the arena, and the allocations of the clients are its live regions. -/
structure Refines (b : BitVec 64) (c : System) (s : Arena × List Handle) : Prop where
  represents : Represents b c.pool s.1
  handles : c.live = s.2
  live : s.1.live.Perm (c.live.map (Handle.region b))

variable {b : BitVec 64} {c c' : System} {s : Arena × List Handle} {fuel : Nat} {h : Handle}

lemma Handle.address (b : BitVec 64) (h : Handle) : h.p = b + BitVec.ofNat 64 (h.region b).start := by
  rw [Handle.region, BitVec.ofNat_toNat, BitVec.setWidth_eq, BitVec.add_comm, BitVec.sub_add_cancel]

lemma Refines.of_started (hs : Started c) : Refines b c (Arena.empty, []) where
  represents := ⟨hs.1, hs.2.1, Arena.separate_empty 512, fun r hr => by cases hr⟩
  handles := hs.2.2
  live := by
    rw [hs.2.2]
    exact List.Perm.refl _

lemma Refines.mem_live (hr : Refines b c s) (hh : h ∈ c.live) : h.region b ∈ s.1.live :=
  hr.live.mem_iff.mpr (List.mem_map_of_mem hh)

/-- The bytes that a client sees through its handle. -/
def SameData (b : BitVec 64) (c c' : System) (h : Handle) : Prop := SameBytes b c.pool.mem c'.pool.mem (h.region b)

/-- The allocations that a call must not touch. -/
def Untouched (c : System) : Call → List Handle
  | .allocate _ _ => c.live
  | .deallocate h => c.live.erase h
  | .write h _ _ => c.live.erase h

/-- One call of the code is one call of the arena, and keeps the data of all other allocations. -/
lemma Refines.step (hr : Refines b c s) (hbase : b.toNat + 512 ≤ 2 ^ 64) (hb : b ≠ 0) (hfuel : 22 ≤ fuel)
    {call : Call} (hok : Allowed c call) : ∃ c', step fuel b c call = .ok c' ∧ Refines b c' (arenaStep b s call) ∧
      ∀ h ∈ Untouched c call, SameData b c c' h := by
  cases call with
  | allocate n sizeofT =>
    rcases hr.represents.allocate_eq hbase hb hfuel hok.1 hok.2 with
      ⟨hnone, hthrow⟩ | ⟨start, a', pool', hsome, hrun, hrep, hsame⟩
    · refine ⟨c, by rw [StaticAllocator.step, hthrow], ?_, fun h _ x _ _ => rfl⟩
      rw [arenaStep, hnone]
      exact hr
    · refine ⟨⟨pool', ⟨b + BitVec.ofNat 64 start, n, sizeofT⟩ :: c.live⟩, by rw [StaticAllocator.step, hrun], ?_, ?_⟩
      · rw [arenaStep, hsome]
        refine ⟨hrep, congrArg _ hr.handles, ?_⟩
        obtain ⟨hlive, hroom, -⟩ := hr.represents.separate.alloc_live hsome
        have hregion : Handle.region b ⟨b + BitVec.ofNat 64 start, n, sizeofT⟩ = ⟨start, (n * sizeofT).toNat⟩ := by
          rw [Handle.region, sub_toNat_ofNat b (by omega)]
          rfl
        dsimp only
        rw [hlive, List.map_cons, hregion]
        exact hr.live.cons _
      · exact fun h hh => hsame _ (hr.mem_live hh)
  | deallocate h =>
    have hmem := hr.mem_live hok
    have hkept : (s.1.live.erase (h.region b)).Perm ((c.live.erase h).map (Handle.region b)) := by
      have hperm := hr.live.trans ((List.perm_cons_erase hok).map (Handle.region b))
      simpa using hperm.erase (h.region b)
    obtain ⟨hrep, hsame⟩ := hr.represents.deallocate h.n h.sizeofT hmem rfl
    rw [← h.address b] at hrep hsame
    refine ⟨_, rfl, ⟨hrep, congrArg (·.erase h) hr.handles, hkept⟩, ?_⟩
    intro h' hh'
    exact hsame _ (hkept.mem_iff.mpr (List.mem_map_of_mem hh'))
  | write h offset bytes =>
    obtain ⟨hlive, hlen⟩ := hok
    have hmem := hr.mem_live hlive
    have haddr : h.p + BitVec.ofNat 64 offset = b + BitVec.ofNat 64 ((h.region b).start + offset) := by
      conv_lhs => rw [h.address b]
      exact ofNat_add_offset b _ _
    have hlen' : (h.region b).start + offset + bytes.length ≤ (h.region b).start + (h.region b).length := by
      change _ ≤ _ + h.bytes.toNat
      omega
    refine ⟨_, rfl, ⟨?_, hr.handles, hr.live⟩, ?_⟩
    · rw [haddr]
      exact hr.represents.write hmem (Nat.le_add_right _ _) hlen'
    · intro h' hh'
      have hpair := ((List.perm_cons_erase hlive).map (Handle.region b)).pairwise
        (hr.live.pairwise hr.represents.live_apart Region.Apart.symm) Region.Apart.symm
      have hapart := (List.pairwise_cons.mp hpair).1 (h'.region b) (List.mem_map_of_mem hh')
      have hmem' := hr.mem_live (List.mem_of_mem_erase hh')
      unfold SameData
      dsimp only
      rw [haddr]
      exact sameBytes_writeBytes (hr.represents.inPool (List.mem_append_right _ hmem')).2
        (hr.represents.inPool (List.mem_append_right _ hmem)).2 hapart (Nat.le_add_right _ _) hlen'

/-- In every run of allocations of at least 24 bytes, the live allocations lie in the pool and apart from each
other, every call returns, and it keeps the data of the allocations that it is not about. -/
theorem staticAllocator_safe (fuel : Nat) (b : BitVec 64) (c : System) (hfuel : 22 ≤ fuel)
    (hbase : b.toNat + 512 ≤ 2 ^ 64) (hb : b ≠ 0) (hr : Reach Started (step fuel b) Allowed c) :
    (c.live.map (Handle.region b)).Pairwise Region.Apart ∧
    (∀ h ∈ c.live, (h.region b).start + h.bytes.toNat ≤ 512) ∧
    ∀ call, Allowed c call → ∃ c', step fuel b c call = .ok c' ∧ ∀ h ∈ Untouched c call, SameData b c c' h := by
  have hinv : ∃ s, Refines b c s := by
    apply hr.invariant (P := fun c => ∃ s, Refines b c s)
    · exact fun c hs => ⟨_, Refines.of_started hs⟩
    · rintro c call ⟨s, hs⟩ hok
      obtain ⟨c', hrun, hs', -⟩ := hs.step hbase hb hfuel hok
      exact ⟨c', hrun, _, hs'⟩
  obtain ⟨s, hs⟩ := hinv
  refine ⟨hs.live.pairwise hs.represents.live_apart Region.Apart.symm, ?_, ?_⟩
  · intro h hh
    exact (hs.represents.inPool (List.mem_append_right _ (hs.mem_live hh))).2
  · intro call hok
    obtain ⟨c', hrun, -, hsame⟩ := hs.step hbase hb hfuel hok
    exact ⟨c', hrun, hsame⟩

def fresh (m : Memory) : System := ⟨⟨m, 0, 0⟩, []⟩

lemma fresh_started (m : Memory) : Started (fresh m) := ⟨rfl, rfl, rfl⟩

/-- Two allocations of 32 and 24 bytes. -/
theorem staticAllocator_safe_two : ∃ c, Reach Started (step 22 0x1000) Allowed c ∧
    c.live = [⟨0x1020, 3, 8⟩, ⟨0x1000, 2, 16⟩] ∧ (c.live.map (Handle.region 0x1000)).Pairwise Region.Apart := by
  have h₀ : Reach Started (step 22 0x1000) Allowed (fresh fun _ => 0) := .init (fresh_started _)
  have h₁ : Reach Started (step 22 0x1000) Allowed ⟨⟨fun _ => 0, 0, 32⟩, [⟨0x1000, 2, 16⟩]⟩ :=
    .step (Call.allocate 2 16) h₀ ⟨by decide, by decide⟩ rfl
  have h₂ : Reach Started (step 22 0x1000) Allowed ⟨⟨fun _ => 0, 0, 56⟩, [⟨0x1020, 3, 8⟩, ⟨0x1000, 2, 16⟩]⟩ :=
    .step (Call.allocate 3 8) h₁ ⟨by decide, by decide⟩ rfl
  exact ⟨_, h₂, rfl, (staticAllocator_safe 22 0x1000 _ (by decide) (by decide) (by decide) h₂).1⟩

/-- Every call of the list is allowed where it is made. -/
def AllowedRun (fuel : Nat) (b : BitVec 64) : System → List Call → Prop
  | _, [] => True
  | c, call :: calls => Allowed c call ∧ ∀ c', step fuel b c call = .ok c' → AllowedRun fuel b c' calls

lemma Refines.run (hr : Refines b c s) (hbase : b.toNat + 512 ≤ 2 ^ 64) (hb : b ≠ 0) (hfuel : 22 ≤ fuel)
    {calls : List Call} (hok : AllowedRun fuel b c calls) :
    ∃ c', calls.foldlM (StaticAllocator.step fuel b) c = .ok c' ∧ Refines b c' (calls.foldl (arenaStep b) s) := by
  induction calls generalizing c s with
  | nil => exact ⟨c, rfl, hr⟩
  | cons call calls ih =>
    obtain ⟨c₁, hrun, hr₁, -⟩ := hr.step hbase hb hfuel hok.1
    obtain ⟨c', hrest, hr'⟩ := ih hr₁ (hok.2 c₁ hrun)
    refine ⟨c', ?_, hr'⟩
    rw [List.foldlM_cons, hrun, ok_bind]
    exact hrest

/-- The allocator hands out what first fit on an arena hands out, whatever its clients store in their
allocations and whatever the pool held before. -/
theorem staticAllocator_firstFit (fuel : Nat) (b : BitVec 64) (c : System) (calls : List Call) (hfuel : 22 ≤ fuel)
    (hbase : b.toNat + 512 ≤ 2 ^ 64) (hb : b ≠ 0) (hs : Started c) (hok : AllowedRun fuel b c calls) :
    ∃ c', calls.foldlM (step fuel b) c = .ok c' ∧ c'.live = (calls.foldl (arenaStep b) (Arena.empty, [])).2 := by
  obtain ⟨c', hrun, hr⟩ := (Refines.of_started hs).run hbase hb hfuel hok
  exact ⟨c', hrun, hr.handles⟩

/-- An allocation is written to and given back, and a smaller one takes its place. -/
theorem staticAllocator_firstFit_reuse : ∃ c',
    [Call.allocate 2 16, .write ⟨0x1000, 2, 16⟩ 0 [0xFF, 0xFF], .deallocate ⟨0x1000, 2, 16⟩, .allocate 1 24].foldlM
      (step 22 0x1000) (fresh fun _ => 0) = .ok c' ∧ c'.live = [⟨0x1000, 1, 24⟩] := by
  have hok : AllowedRun 22 0x1000 (fresh fun _ => 0) [.allocate 2 16, .write ⟨0x1000, 2, 16⟩ 0 [0xFF, 0xFF],
      .deallocate ⟨0x1000, 2, 16⟩, .allocate 1 24] := by
    refine ⟨⟨by decide, by decide⟩, fun c₁ h₁ => ?_⟩
    cases h₁
    refine ⟨⟨List.mem_cons_self, by decide⟩, fun c₂ h₂ => ?_⟩
    cases h₂
    refine ⟨List.mem_cons_self, fun c₃ h₃ => ?_⟩
    cases h₃
    exact ⟨⟨by decide, by decide⟩, fun _ _ => trivial⟩
  obtain ⟨c', hrun, hlive⟩ := staticAllocator_firstFit 22 0x1000 _ _ (by decide) (by decide) (by decide)
    (fresh_started _) hok
  exact ⟨c', hrun, hlive⟩

end Clients

end StaticAllocator

end JavaScriptOS.Libcppk
