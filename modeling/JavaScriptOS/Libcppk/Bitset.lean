import JavaScriptOS.Lib.ByteLanes
import Mathlib.Data.Fintype.Card
import Mathlib.Logic.Function.Basic

/-!
# `bitset`

The bits are packed into an array of 64-bit blocks. Neither `bitset` nor `array` checks a position, so an
access outside the array is `none` here. The size `N` of a bitset is a `size_t`, and its number of blocks is computed
in that type.
-/

namespace JavaScriptOS.Libcppk
open JavaScriptOS.Lib

variable {T : Type} {N : BitVec 64}

/-- `mystd::array`. -/
structure StdArray (T : Type) (N : BitVec 64) where
  elems : Fin N.toNat → T

namespace StdArray

def fill (value : T) (a : StdArray T N) : StdArray T N :=
  ⟨(List.finRange N.toNat).foldl (fun elems i => Function.update elems i value) a.elems⟩

/-- `operator[]`. -/
def get (a : StdArray T N) (pos : BitVec 64) : Option T :=
  if h : pos.toNat < N.toNat then some (a.elems ⟨pos.toNat, h⟩) else none

/-- An assignment through `operator[]` that depends on the old value. -/
def modify (a : StdArray T N) (pos : BitVec 64) (f : T → T) : Option (StdArray T N) :=
  if h : pos.toNat < N.toNat then
    some ⟨Function.update a.elems ⟨pos.toNat, h⟩ (f (a.elems ⟨pos.toNat, h⟩))⟩
  else none

lemma foldl_update_apply {n : Nat} (value : T) (is : List (Fin n)) (elems : Fin n → T) (j : Fin n) :
    is.foldl (fun elems i => Function.update elems i value) elems j = if j ∈ is then value else elems j := by
  induction is generalizing elems with
  | nil => rfl
  | cons i is ih =>
    rw [List.foldl_cons, ih]
    by_cases hj : j = i
    · subst hj
      simp
    · simp [hj]

lemma get_fill (value : T) (a : StdArray T N) {pos : BitVec 64} (h : pos.toNat < N.toNat) :
    (a.fill value).get pos = some value := by
  rw [get, dif_pos h, fill]
  dsimp only
  rw [foldl_update_apply, if_pos (List.mem_finRange _)]

lemma modify_eq_some (a : StdArray T N) (f : T → T) {pos : BitVec 64} (h : pos.toNat < N.toNat) :
    ∃ a', a.modify pos f = some a' ∧ a'.get pos = (a.get pos).map f ∧ ∀ q, q ≠ pos → a'.get q = a.get q := by
  refine ⟨_, dif_pos h, ?_, ?_⟩
  · rw [get, get, dif_pos h, dif_pos h, Option.map_some]
    exact congrArg some (Function.update_self _ _ _)
  · intro q hq
    rw [get, get]
    by_cases hinside : q.toNat < N.toNat
    · have hne : (⟨q.toNat, hinside⟩ : Fin N.toNat) ≠ ⟨pos.toNat, h⟩ := fun heq =>
        hq (BitVec.eq_of_toNat_eq (Fin.mk.inj heq))
      rw [dif_pos hinside, dif_pos hinside]
      exact congrArg some (Function.update_of_ne hne _ _)
    · rw [dif_neg hinside, dif_neg hinside]

end StdArray

def bitsPerBlock : BitVec 64 := 64

@[irreducible] def numBlocks (N : BitVec 64) : BitVec 64 := (N + bitsPerBlock - 1) / bitsPerBlock

def blockIndex (pos : BitVec 64) : BitVec 64 := pos / bitsPerBlock

def bitPosition (pos : BitVec 64) : BitVec 64 := pos % bitsPerBlock

structure Bitset (N : BitVec 64) where
  blocks : StdArray (BitVec 64) (numBlocks N)

/-- A call of `set`. -/
structure SetCall where
  pos : BitVec 64
  value : Bool

namespace Bitset

/-- The constructor, where the memory of the blocks is `raw`. -/
def construct (raw : StdArray (BitVec 64) (numBlocks N)) : Bitset N := ⟨raw.fill 0⟩

/-- The `operator[]` of a constant bitset. -/
def get (b : Bitset N) (pos : BitVec 64) : Option Bool := do
  let block ← b.blocks.get (blockIndex pos)
  return block >>> bitPosition pos &&& 1#64 ≠ 0

/-- The block that `set` stores. -/
def setBit (bit : BitVec 64) (value : Bool) (block : BitVec 64) : BitVec 64 :=
  if value then block ||| 1#64 <<< bit else block &&& ~~~(1#64 <<< bit)

def set (b : Bitset N) (pos : BitVec 64) (value : Bool) : Option (Bitset N) := do
  let blocks ← b.blocks.modify (blockIndex pos) (setBit (bitPosition pos) value)
  return ⟨blocks⟩

def run (b : Bitset N) (calls : List SetCall) : Option (Bitset N) := calls.foldlM (fun b c => b.set c.pos c.value) b

end Bitset

/-- The value of the last call at a position, false if there is none. -/
def lastSet (calls : List SetCall) (p : BitVec 64) : Bool :=
  ((calls.reverse.find? (·.pos = p)).map SetCall.value).getD false

/-- Every access is inside the array, and the bits are those of a Boolean map. -/
def Bitset.Represents (b : Bitset N) (bits : BitVec 64 → Bool) : Prop := ∀ p < N, b.get p = some (bits p)

def RefinesBooleanMap (N : BitVec 64) : Prop :=
  ∀ (raw : StdArray (BitVec 64) (numBlocks N)) (calls : List SetCall), (∀ c ∈ calls, c.pos < N) →
    ∃ b, (Bitset.construct raw).run calls = some b ∧ b.Represents (lastSet calls)

variable {b : Bitset N} {pos p : BitVec 64} {bits : BitVec 64 → Bool}

lemma lastSet_append (calls : List SetCall) (c : SetCall) :
    lastSet (calls ++ [c]) = Function.update (lastSet calls) c.pos c.value := by
  funext p
  rw [lastSet, List.reverse_append, List.reverse_singleton, List.singleton_append]
  by_cases hp : c.pos = p
  · rw [List.find?_cons_of_pos (by simpa using hp), hp, Function.update_self]
    rfl
  · rw [List.find?_cons_of_neg (by simpa using hp), Function.update_of_ne (Ne.symm hp), lastSet]

lemma toNat_numBlocks (N : BitVec 64) : (numBlocks N).toNat = (N.toNat + 63) % 2 ^ 64 / 64 := by
  rw [numBlocks, BitVec.toNat_udiv]
  congr 1
  rw [bitsPerBlock]
  bv_omega

lemma toNat_bitPosition (pos : BitVec 64) : (bitPosition pos).toNat = pos.toNat % 64 := BitVec.toNat_umod

lemma toNat_blockIndex (pos : BitVec 64) : (blockIndex pos).toNat = pos.toNat / 64 := BitVec.toNat_udiv

lemma bitPosition_lt (pos : BitVec 64) : (bitPosition pos).toNat < 64 := by
  rw [toNat_bitPosition]
  exact Nat.mod_lt _ (by decide)

/-- A position is given by its block and its bit. -/
lemma bitPosition_eq_iff (h : blockIndex p = blockIndex pos) :
    (bitPosition p).toNat = (bitPosition pos).toNat ↔ p = pos := by
  have hblock := congrArg BitVec.toNat h
  rw [toNat_blockIndex, toNat_blockIndex] at hblock
  rw [toNat_bitPosition, toNat_bitPosition, ← BitVec.toNat_inj]
  omega

lemma blockIndex_lt (hN : N.toNat ≤ 2 ^ 64 - 64) (h : pos < N) : (blockIndex pos).toNat < (numBlocks N).toNat := by
  have hpos := BitVec.lt_def.mp h
  rw [toNat_blockIndex, toNat_numBlocks, Nat.mod_eq_of_lt (by omega)]
  omega

lemma Bitset.get_eq (b : Bitset N) (p : BitVec 64) :
    b.get p = (b.blocks.get (blockIndex p)).map fun block => block.getLsbD (bitPosition p).toNat := by
  rw [get]
  cases b.blocks.get (blockIndex p) with
  | none => rfl
  | some block =>
    have hbit := shifted_and_one_ne_zero block (k := (bitPosition p).toNat) (by decide)
    exact congrArg some (Bool.eq_iff_iff.mpr (decide_eq_true_iff.trans hbit))

lemma Bitset.construct_represents (hN : N.toNat ≤ 2 ^ 64 - 64) (raw : StdArray (BitVec 64) (numBlocks N)) :
    (construct raw).Represents fun _ => false := by
  intro p hp
  rw [get_eq, construct, StdArray.get_fill _ _ (blockIndex_lt hN hp), Option.map_some]
  exact congrArg some BitVec.getLsbD_zero

lemma Bitset.getLsbD_setBit (block bit : BitVec 64) (hbit : bit.toNat < 64) (value : Bool) (i : Nat) :
    (setBit bit value block).getLsbD i = if i = bit.toNat then value else block.getLsbD i := by
  rw [setBit]
  cases value with
  | true =>
    rw [if_pos rfl, BitVec.shiftLeft_eq']
    exact getLsbD_or_bit block hbit i
  | false =>
    rw [if_neg Bool.false_ne_true, BitVec.shiftLeft_eq']
    exact getLsbD_and_not_bit block hbit i

/-- One call changes one bit, whether or not another one shares its block. -/
lemma Bitset.Represents.set (h : b.Represents bits) (hN : N.toNat ≤ 2 ^ 64 - 64) (hpos : pos < N) (value : Bool) :
    ∃ b', b.set pos value = some b' ∧ b'.Represents (Function.update bits pos value) := by
  obtain ⟨blocks, hmodify, hthere, helse⟩ :=
    b.blocks.modify_eq_some (setBit (bitPosition pos) value) (blockIndex_lt hN hpos)
  refine ⟨⟨blocks⟩, by rw [Bitset.set, hmodify]; rfl, ?_⟩
  intro p hp
  have hold := h p hp
  rw [get_eq] at hold ⊢
  by_cases hblock : blockIndex p = blockIndex pos
  · obtain ⟨block, hget, hbit⟩ := Option.map_eq_some_iff.mp hold
    rw [hblock] at hget ⊢
    rw [hthere, hget, Option.map_some, Option.map_some, getLsbD_setBit _ _ (bitPosition_lt pos), hbit,
      Function.update_apply]
    simp only [bitPosition_eq_iff hblock]
  · have hne : p ≠ pos := fun heq => hblock (congrArg blockIndex heq)
    rw [helse _ hblock, hold, Function.update_of_ne hne]

lemma Bitset.Represents.run (h : b.Represents fun _ => false) (hN : N.toNat ≤ 2 ^ 64 - 64) (calls : List SetCall)
    (hcalls : ∀ c ∈ calls, c.pos < N) : ∃ b', b.run calls = some b' ∧ b'.Represents (lastSet calls) := by
  induction calls using List.reverseRecOn with
  | nil => exact ⟨b, rfl, h⟩
  | append_singleton calls c ih =>
    obtain ⟨b₁, hrun, hbits⟩ := ih fun d hd => hcalls d (List.mem_append_left _ hd)
    obtain ⟨b₂, hset, hbits'⟩ := hbits.set hN (hcalls c (List.mem_append_right _ (List.mem_singleton_self c))) c.value
    refine ⟨b₂, ?_, by rwa [lastSet_append]⟩
    rw [Bitset.run] at hrun ⊢
    rw [List.foldlM_append, hrun]
    simpa using hset

/-- The 63 largest sizes have no block at all. -/
lemma numBlocks_eq_zero (h : 2 ^ 64 - 64 < N.toNat) : (numBlocks N).toNat = 0 := by
  have hN := N.isLt
  rw [toNat_numBlocks]
  omega

lemma not_refinesBooleanMap (h : 2 ^ 64 - 64 < N.toNat) : ¬RefinesBooleanMap N := by
  intro hrefines
  have hzero := numBlocks_eq_zero h
  obtain ⟨b, -, hbits⟩ := hrefines ⟨fun _ => 0⟩ [] fun c hc => absurd hc List.not_mem_nil
  have hget := hbits 0 (BitVec.lt_def.mpr (Nat.zero_lt_of_lt h))
  rw [Bitset.get_eq, StdArray.get, dif_neg (by rw [hzero]; exact Nat.not_lt_zero _)] at hget
  cases hget

/-- A bitset behaves as a Boolean map unless its size is so large that rounding it up to whole blocks wraps. -/
theorem refinesBooleanMap_iff (N : BitVec 64) : RefinesBooleanMap N ↔ N.toNat ≤ 2 ^ 64 - 64 := by
  constructor
  · intro h
    by_contra hlarge
    exact not_refinesBooleanMap (Nat.lt_of_not_le hlarge) h
  · intro hN raw calls hcalls
    exact (Bitset.construct_represents hN raw).run hN calls hcalls

/-- The largest size: the first position is in block 0, and there are no blocks. -/
theorem not_refinesBooleanMap_max : numBlocks (BitVec.allOnes 64) = 0 ∧ blockIndex 0 = 0 ∧
    ¬RefinesBooleanMap (BitVec.allOnes 64) :=
  ⟨by decide +kernel, by decide, not_refinesBooleanMap (by decide)⟩

end JavaScriptOS.Libcppk
