import JavaScriptOS.Lib.Bump
import Mathlib.Data.BitVec

/-!
# `monotonic_buffer_resource`

Pointers and sizes are 64-bit words, and all additions wrap. A run stops at `hlt`.
-/

namespace JavaScriptOS.Libcppk
open JavaScriptOS.Lib

structure MonotonicBufferResource where
  mCurrent : BitVec 64
  mEnd : BitVec 64
  deriving DecidableEq

/-- The arguments of a call of `allocate`. -/
structure AllocRequest where
  bytes : BitVec 64
  alignment : BitVec 64
  powerOfTwo : alignment.toNat.isPowerOfTwo
  deriving DecidableEq

namespace MonotonicBufferResource

/-- The constructor, which halts at a null buffer. -/
def construct (buffer bufferSize : BitVec 64) : Option MonotonicBufferResource :=
  if buffer ≠ 0 then some ⟨buffer, buffer + bufferSize⟩ else none

def alignForwardAdjustment (address alignment : BitVec 64) : BitVec 64 :=
  let misalignment := address &&& (alignment - 1)
  if misalignment = 0 then 0 else alignment - misalignment

/-- The address that `allocate` returns and the resource it leaves, unless it halts. -/
def allocate (r : MonotonicBufferResource) (bytes alignment : BitVec 64) :
    Option (BitVec 64 × MonotonicBufferResource) :=
  let space := r.mEnd - r.mCurrent
  let adjustment := alignForwardAdjustment r.mCurrent alignment
  if adjustment + bytes > space then none
  else some (r.mCurrent + adjustment, { r with mCurrent := r.mCurrent + (adjustment + bytes) })

/-- A call of `allocate` that returned. -/
structure Call where
  before : MonotonicBufferResource
  request : AllocRequest
  address : BitVec 64
  after : MonotonicBufferResource
  deriving DecidableEq

/-- The calls of a run that returned. -/
def trace (r : MonotonicBufferResource) : List AllocRequest → List Call
  | [] => []
  | q :: qs =>
    match r.allocate q.bytes q.alignment with
    | none => []
    | some (address, r') => ⟨r, q, address, r'⟩ :: r'.trace qs

namespace Call

def adjustment (c : Call) : BitVec 64 := alignForwardAdjustment c.before.mCurrent c.request.alignment

def region (c : Call) : Region := ⟨c.address.toNat, c.request.bytes.toNat⟩

/-- No addition of the call wraps. -/
def NoWrap (c : Call) : Prop := c.before.mCurrent.toNat + c.adjustment.toNat + c.request.bytes.toNat < 2 ^ 64

end Call

/-- The regions lie in the buffer and apart from each other, and `m_current` is at most `m_end` all along. -/
structure Safe (buffer bufferSize : BitVec 64) (r : MonotonicBufferResource) (calls : List Call) : Prop where
  inside : ∀ c ∈ calls, c.region.span ⊆ Set.Ico buffer.toNat (buffer.toNat + bufferSize.toNat)
  disjoint : calls.Pairwise fun c d => Disjoint c.region.span d.region.span
  initial : r.mCurrent ≤ r.mEnd
  bounded : ∀ c ∈ calls, c.after.mCurrent ≤ c.after.mEnd

variable {buffer bufferSize address alignment bytes p : BitVec 64} {r r' : MonotonicBufferResource} {c : Call}
  {requests : List AllocRequest}

/-- The mask computes the remainder. -/
lemma toNat_alignForwardAdjustment (h : alignment.toNat.isPowerOfTwo) :
    (alignForwardAdjustment address alignment).toNat = padding alignment.toNat address.toNat := by
  obtain ⟨k, hk⟩ := h
  have hpos : 0 < alignment.toNat := hk ▸ Nat.two_pow_pos k
  have hmask : (alignment - 1).toNat = 2 ^ k - 1 := by
    have hone : 1#64 ≤ alignment := BitVec.le_def.mpr hpos
    rw [← hk]
    exact BitVec.toNat_sub_of_le hone
  have hmod : (address &&& (alignment - 1)).toNat = address.toNat % alignment.toNat := by
    rw [BitVec.toNat_and, hmask, Nat.and_two_pow_sub_one_eq_mod, hk]
  have hzero : address &&& (alignment - 1) = 0 ↔ address.toNat % alignment.toNat = 0 := by
    rw [← hmod]
    exact BitVec.toNat_inj.symm
  rw [alignForwardAdjustment, padding]
  by_cases h : address.toNat % alignment.toNat = 0
  · rw [if_pos h, if_pos (hzero.mpr h)]
    rfl
  · rw [if_neg h, if_neg fun hmask => h (hzero.mp hmask), BitVec.toNat_sub_of_le, hmod]
    rw [BitVec.le_def, hmod]
    exact (Nat.mod_lt _ hpos).le

/-- The address of a call before it is cut to 64 bits is at most the end of the address space. -/
lemma add_adjustment_le (h : alignment.toNat.isPowerOfTwo) :
    address.toNat + (alignForwardAdjustment address alignment).toNat ≤ 2 ^ 64 := by
  rw [toNat_alignForwardAdjustment h]
  apply add_padding_le _ address.isLt.le
  obtain ⟨k, hk⟩ := h
  rw [hk]
  apply Nat.pow_dvd_pow 2
  have hlt := alignment.isLt
  rw [hk, Nat.pow_lt_pow_iff_right (by decide)] at hlt
  exact hlt.le

namespace Call

def Returned (c : Call) : Prop :=
  c.before.allocate c.request.bytes c.request.alignment = some (c.address, c.after)

/-- What a call does that passes the check. -/
lemma Returned.spec (h : c.Returned) :
    c.adjustment + c.request.bytes ≤ c.before.mEnd - c.before.mCurrent ∧
      c.address = c.before.mCurrent + c.adjustment ∧
      c.after.mCurrent = c.before.mCurrent + (c.adjustment + c.request.bytes) ∧ c.after.mEnd = c.before.mEnd := by
  rw [Returned, allocate] at h
  split at h
  case isTrue => cases h
  case isFalse hfits =>
    rw [Option.some.injEq, Prod.mk.injEq] at h
    obtain ⟨haddress, hafter⟩ := h
    rw [← haddress, ← hafter]
    exact ⟨BitVec.not_lt.mp hfits, rfl, rfl, rfl⟩

lemma Returned.toNat_address (h : c.Returned) (hlt : c.before.mCurrent.toNat + c.adjustment.toNat < 2 ^ 64) :
    c.address.toNat = c.before.mCurrent.toNat + c.adjustment.toNat := by
  rw [h.spec.2.1]
  exact BitVec.toNat_add_of_lt hlt

lemma Returned.toNat_after (h : c.Returned) (hwrap : c.NoWrap) :
    c.after.mCurrent.toNat = c.address.toNat + c.request.bytes.toNat := by
  rw [NoWrap] at hwrap
  have hsum : (c.adjustment + c.request.bytes).toNat = c.adjustment.toNat + c.request.bytes.toNat :=
    BitVec.toNat_add_of_lt (by omega)
  rw [h.spec.2.2.1, h.toNat_address (by omega), BitVec.toNat_add_of_lt (by omega), hsum, Nat.add_assoc]

/-- If the sum that is checked does not wrap, the call stays below `m_end`, and nothing else wraps. -/
lemma Returned.bounded (h : c.Returned) (hle : c.before.mCurrent ≤ c.before.mEnd)
    (hsum : c.adjustment.toNat + c.request.bytes.toNat < 2 ^ 64) :
    c.NoWrap ∧ c.before.mCurrent.toNat ≤ c.address.toNat ∧ c.after.mCurrent ≤ c.after.mEnd := by
  have hend := c.before.mEnd.isLt
  have hle' := BitVec.le_def.mp hle
  have hfits := BitVec.le_def.mp h.spec.1
  rw [BitVec.toNat_add_of_lt hsum, BitVec.toNat_sub_of_le hle] at hfits
  have hwrap : c.NoWrap := by
    rw [NoWrap]
    omega
  have haddress := h.toNat_address (by omega)
  refine ⟨hwrap, by omega, BitVec.le_def.mpr ?_⟩
  rw [h.toNat_after hwrap, haddress, h.spec.2.2.2]
  omega

end Call

lemma returned_of_mem_trace (h : c ∈ r.trace requests) : c.Returned := by
  induction requests generalizing r with
  | nil => cases h
  | cons q qs ih =>
    rw [trace] at h
    split at h
    case h_1 => cases h
    case h_2 address r' hcall =>
      rcases List.mem_cons.mp h with rfl | h
      · exact hcall
      · exact ih h

/-- Each call starts from what the one before it left. -/
lemma before_isPrefix_after (r : MonotonicBufferResource) (requests : List AllocRequest) :
    (r.trace requests).map Call.before <+: r :: (r.trace requests).map Call.after := by
  induction requests generalizing r with
  | nil => exact List.nil_prefix
  | cons q qs ih =>
    rw [trace]
    split
    case h_1 => exact List.nil_prefix
    case h_2 address r' hcall =>
      rw [List.map_cons, List.map_cons, List.prefix_cons_inj]
      exact ih r'

/-- Every call returns the first address from `m_current` on with the alignment, and `m_current` goes to the end of
its region. -/
theorem trace_aligned (r : MonotonicBufferResource) (requests : List AllocRequest)
    (hwrap : ∀ c ∈ r.trace requests, c.NoWrap) :
    (r.trace requests).map Call.before <+: r :: (r.trace requests).map Call.after ∧
      ∀ c ∈ r.trace requests, c.request.alignment.toNat ∣ c.address.toNat ∧
        c.before.mCurrent.toNat ≤ c.address.toNat ∧
        c.address.toNat < c.before.mCurrent.toNat + c.request.alignment.toNat ∧
        (∀ q, c.request.alignment.toNat ∣ q → c.before.mCurrent.toNat ≤ q → c.address.toNat ≤ q) ∧
        c.after.mCurrent.toNat = c.address.toNat + c.request.bytes.toNat := by
  refine ⟨before_isPrefix_after r requests, ?_⟩
  intro c hc
  have hreturned := returned_of_mem_trace hc
  have haddress : c.address.toNat =
      c.before.mCurrent.toNat + padding c.request.alignment.toNat c.before.mCurrent.toNat := by
    rw [hreturned.toNat_address (Nat.lt_of_le_of_lt (Nat.le_add_right _ _) (hwrap c hc)), Call.adjustment,
      toNat_alignForwardAdjustment c.request.powerOfTwo]
  have hpos : 0 < c.request.alignment.toNat := Nat.pos_of_isPowerOfTwo c.request.powerOfTwo
  refine ⟨?_, ?_, ?_, ?_, hreturned.toNat_after (hwrap c hc)⟩
  · rw [haddress]
    exact dvd_add_padding hpos
  · rw [haddress]
    exact Nat.le_add_right _ _
  · rw [haddress]
    exact Nat.add_lt_add_left (padding_lt hpos) _
  · intro q hdvd hle
    rw [haddress]
    exact add_padding_le hdvd hle

/-- Two calls with alignments 8 and 16. -/
theorem trace_aligned_two :
    let r : MonotonicBufferResource := ⟨0x1001, 0x1101⟩
    let requests : List AllocRequest := [⟨3, 8, 3, by decide⟩, ⟨5, 16, 4, by decide⟩]
    (r.trace requests).map (fun c => c.address.toNat) = [0x1008, 0x1010] ∧
      ∀ c ∈ r.trace requests, c.request.alignment.toNat ∣ c.address.toNat := by
  refine ⟨by decide, fun c hc => ((trace_aligned _ _ ?_).2 c hc).1⟩
  intro d hd
  rw [Call.NoWrap]
  revert d
  decide

/-- As long as no checked sum wraps, the calls take their regions in order on the way to `m_end`. -/
lemma trace_takenFrom (hle : r.mCurrent ≤ r.mEnd)
    (hsum : ∀ c ∈ r.trace requests, c.adjustment.toNat + c.request.bytes.toNat < 2 ^ 64) :
    TakenFrom r.mEnd.toNat r.mCurrent.toNat ((r.trace requests).map Call.region) ∧
      ∀ c ∈ r.trace requests, c.after.mCurrent ≤ c.after.mEnd := by
  induction requests generalizing r with
  | nil => exact ⟨.done hle, fun c hc => absurd hc List.not_mem_nil⟩
  | cons q qs ih =>
    rw [trace] at hsum ⊢
    split at hsum
    case h_1 => exact ⟨.done hle, fun c hc => absurd hc List.not_mem_nil⟩
    case h_2 address r' hcall =>
      have hreturned : (Call.mk r q address r').Returned := hcall
      obtain ⟨hwrap, haddress, hbounded⟩ := hreturned.bounded hle (hsum _ List.mem_cons_self)
      have hafter : r'.mCurrent.toNat = address.toNat + q.bytes.toNat := hreturned.toNat_after hwrap
      have hend : r'.mEnd = r.mEnd := hreturned.spec.2.2.2
      obtain ⟨htaken, hlater⟩ := ih hbounded fun c hc => hsum c (List.mem_cons_of_mem _ hc)
      rw [hend, hafter] at htaken
      refine ⟨.take haddress htaken, ?_⟩
      intro c hc
      rcases List.mem_cons.mp hc with rfl | hc
      · exact hbounded
      · exact hlater c hc

lemma construct_eq_some (h : construct buffer bufferSize = some r) :
    buffer ≠ 0 ∧ r.mCurrent = buffer ∧ r.mEnd = buffer + bufferSize := by
  rw [construct] at h
  split at h
  case isTrue hbuffer =>
    cases h
    exact ⟨hbuffer, rfl, rfl⟩
  case isFalse => cases h

lemma safe_of_no_wrap (h : construct buffer bufferSize = some r)
    (hbuffer : buffer.toNat + bufferSize.toNat < 2 ^ 64)
    (hsum : ∀ c ∈ r.trace requests, c.adjustment.toNat + c.request.bytes.toNat < 2 ^ 64) :
    Safe buffer bufferSize r (r.trace requests) := by
  obtain ⟨-, hcurrent, hend⟩ := construct_eq_some h
  have hend' : r.mEnd.toNat = buffer.toNat + bufferSize.toNat := by rw [hend, BitVec.toNat_add_of_lt hbuffer]
  have hinitial : r.mCurrent ≤ r.mEnd := by
    rw [BitVec.le_def, hend', hcurrent]
    exact Nat.le_add_right _ _
  obtain ⟨htaken, hbounded⟩ := trace_takenFrom hinitial hsum
  rw [hend', hcurrent] at htaken
  have hdisjoint := List.pairwise_map.mp htaken.pairwise_disjoint
  refine ⟨?_, hdisjoint, hinitial, hbounded⟩
  intro c hc
  exact htaken.span_subset (List.mem_map_of_mem hc)

/-- A call whose checked sum wraps returns a region that is not in the buffer: it starts at 0 or goes up to the end of
the address space. -/
lemma Call.Returned.not_inside (h : c.Returned) (hpos : 0 < buffer.toNat)
    (hbuffer : buffer.toNat + bufferSize.toNat < 2 ^ 64)
    (hwrap : 2 ^ 64 ≤ c.adjustment.toNat + c.request.bytes.toNat) :
    ¬c.region.span ⊆ Set.Ico buffer.toNat (buffer.toNat + bufferSize.toNat) := by
  intro hsubset
  have hadjustment := c.adjustment.isLt
  have hnonempty : c.address.toNat < c.address.toNat + c.request.bytes.toNat := by omega
  obtain ⟨hstart, hstop⟩ := (Set.Ico_subset_Ico_iff hnonempty).mp hsubset
  have hle : c.before.mCurrent.toNat + c.adjustment.toNat ≤ 2 ^ 64 := add_adjustment_le c.request.powerOfTwo
  rcases Nat.lt_or_eq_of_le hle with hlt | heq
  · rw [h.toNat_address hlt] at hstop
    omega
  · have hzero : c.address.toNat = 0 := by rw [h.spec.2.1, BitVec.toNat_add, heq, Nat.mod_self]
    omega

/-- Runs on a buffer are safe exactly if the buffer does not wrap and no checked sum wraps. -/
theorem safe_iff_no_wrap (buffer bufferSize : BitVec 64) (r : MonotonicBufferResource)
    (h : construct buffer bufferSize = some r) (requests : List AllocRequest) :
    Safe buffer bufferSize r (r.trace requests) ↔ buffer.toNat + bufferSize.toNat < 2 ^ 64 ∧
      ∀ c ∈ r.trace requests, c.adjustment.toNat + c.request.bytes.toNat < 2 ^ 64 := by
  constructor
  · intro hsafe
    obtain ⟨hnull, hcurrent, hend⟩ := construct_eq_some h
    have hbuffer : buffer.toNat + bufferSize.toNat < 2 ^ 64 := by
      have hinitial := BitVec.le_def.mp hsafe.initial
      rw [hcurrent, hend, BitVec.toNat_add] at hinitial
      have hsize := bufferSize.isLt
      omega
    refine ⟨hbuffer, ?_⟩
    intro c hc
    by_contra hwrap
    have hpos : 0 < buffer.toNat := Nat.pos_of_ne_zero fun hzero => hnull (BitVec.eq_of_toNat_eq hzero)
    exact (returned_of_mem_trace hc).not_inside hpos hbuffer (Nat.le_of_not_lt hwrap) (hsafe.inside c hc)
  · rintro ⟨hbuffer, hsum⟩
    exact safe_of_no_wrap h hbuffer hsum

/-- 3 bytes with alignment 8 and 16 bytes with alignment 16 from a buffer of 256 bytes. -/
theorem safe_two : construct 0x1001 0x100 = some ⟨0x1001, 0x1101⟩ ∧
    Safe 0x1001 0x100 ⟨0x1001, 0x1101⟩
      (trace ⟨0x1001, 0x1101⟩ [⟨3, 8, 3, by decide⟩, ⟨16, 16, 4, by decide⟩]) := by
  refine ⟨by decide, (safe_iff_no_wrap 0x1001 0x100 _ (by decide) _).mpr ⟨by decide, ?_⟩⟩
  decide

/-- All but one byte of the address space: the sum that is checked is 14. -/
def hugeRequest : AllocRequest := ⟨BitVec.allOnes 64, 16, 4, by decide⟩

theorem hugeRequest_leaves_buffer : construct 0x1001 0x100 = some ⟨0x1001, 0x1101⟩ ∧
    (trace ⟨0x1001, 0x1101⟩ [hugeRequest]).map (fun c => (c.address, c.after.mCurrent)) = [(0x1010, 0x100F)] ∧
    ¬Safe 0x1001 0x100 ⟨0x1001, 0x1101⟩ (trace ⟨0x1001, 0x1101⟩ [hugeRequest]) := by
  refine ⟨by decide, by decide, ?_⟩
  intro hsafe
  have hinside := hsafe.inside ⟨⟨0x1001, 0x1101⟩, hugeRequest, 0x1010, ⟨0x100F, 0x1101⟩⟩ (by decide)
  have hlast : 0x1101 ∈ Set.Ico 0x1001 0x1101 := hinside ⟨by decide, by decide⟩
  exact Nat.lt_irrefl _ hlast.2

end MonotonicBufferResource

end JavaScriptOS.Libcppk
