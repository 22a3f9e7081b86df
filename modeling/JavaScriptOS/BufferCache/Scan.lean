import JavaScriptOS.BufferCache.Refcount
import JavaScriptOS.Lib.Cycle

/-!
# What `buffer_get` returns

On a ring of buffers the two scans of `buffer_get` end and look at every buffer once, the first from `mru`
and the second from `lru`. Positions are counted along `next`.
-/

namespace JavaScriptOS.BufferCache
open JavaScriptOS.Lib

def Cache.next (c : Cache) (b : BufIdx) : Option BufIdx := (c.bufs b).next

/-- Going from `start`, the buffer `b` is met after `k` steps, before the ring is closed. -/
def Position (c : Cache) (start b : BufIdx) (k : Nat) : Prop :=
  k < bufferCacheSize ∧ trail c.next k start = some b

/-- The first buffer in ring order from `start` that passes the test. -/
def First (c : Cache) (start : BufIdx) (test : Buffer → Bool) (b : BufIdx) : Prop :=
  test (c.bufs b) = true ∧ ∃ k, Position c start b k ∧
    ∀ x j, test (c.bufs x) = true → Position c start x j → k ≤ j

/-- What `buffer_get` may return, with the cache that it leaves. -/
inductive GetOutcome (c : Cache) (dev blockno : BitVec 32) : Option BufIdx → Cache → Prop
  | cached {b : BufIdx} : First c c.mru (isCached dev blockno) b → GetOutcome c dev blockno (some b) c
  | recycled {b : BufIdx} : (∀ x, isCached dev blockno (c.bufs x) = false) → First c c.lru isUnused b →
    GetOutcome c dev blockno (some b) (c.set b (rekeyed dev blockno (c.bufs b)))
  | full : (∀ x, isCached dev blockno (c.bufs x) = false) → (∀ x, isUnused (c.bufs x) = false) →
    GetOutcome c dev blockno none c

def InUse (b : Buffer) : Prop := b.valid = true ∨ b.refcnt ≠ 0

/-- No block is cached twice. -/
def KeysDistinct (c : Cache) : Prop := ∀ a b, InUse (c.bufs a) → InUse (c.bufs b) →
  (c.bufs a).dev = (c.bufs b).dev → (c.bufs a).blockno = (c.bufs b).blockno → a = b

variable {c c' : Cache} {f : BufIdx → BufIdx} {start b x : BufIdx} {test : Buffer → Bool} {fuel k j : Nat}
variable {dev blockno : BitVec 32}

section Ring

variable (hnext : ∀ b, (c.bufs b).next = some (f b)) (horbit : OneOrbit f)

include hnext in
lemma position_iff : Position c start b k ↔ k < bufferCacheSize ∧ f^[k] start = b := by
  have htrail : trail c.next k start = some (f^[k] start) := trail_of_total hnext k start
  rw [Position, htrail, Option.some_inj]

include hnext horbit in
lemma exists_position (start b : BufIdx) : ∃ k, Position c start b k := by
  obtain ⟨k, hk, hb⟩ := horbit.exists_lt_card start b
  exact ⟨k, (position_iff hnext).mpr ⟨hk, hb⟩⟩

include hnext horbit in
lemma position_unique (h : Position c start b k) (h' : Position c start b j) : k = j := by
  rw [position_iff hnext] at h h'
  exact horbit.iterate_inj h.1 h'.1 (h.2.trans h'.2.symm)

/-- The rest of a scan that has met no buffer in its first `k` rounds. -/
def RestOfScan (c : Cache) (test : Buffer → Bool) (f : BufIdx → BufIdx) (start : BufIdx) (k : Nat) :
    Option BufIdx → Prop
  | some b => ∃ j, k ≤ j ∧ j < bufferCacheSize ∧ f^[j] start = b ∧ test (c.bufs b) = true ∧
      ∀ i, k ≤ i → i < j → test (c.bufs (f^[i] start)) = false
  | none => ∀ i, k ≤ i → i < bufferCacheSize → test (c.bufs (f^[i] start)) = false

lemma RestOfScan.earlier {o : Option BufIdx} (h : RestOfScan c test f start (k + 1) o)
    (hk : test (c.bufs (f^[k] start)) = false) : RestOfScan c test f start k o := by
  have hcase : ∀ i, k ≤ i → i = k ∨ k + 1 ≤ i := fun i hi => by omega
  cases o with
  | some b =>
    obtain ⟨j, hkj, hj, hb, htest, hbefore⟩ := h
    refine ⟨j, by omega, hj, hb, htest, fun i hi hij => ?_⟩
    rcases hcase i hi with rfl | hi
    · exact hk
    · exact hbefore i hi hij
  | none =>
    intro i hi hlt
    rcases hcase i hi with rfl | hi
    · exact hk
    · exact h i hi hlt

include hnext horbit in
lemma scan_from (start : BufIdx) (test : Buffer → Bool) (hk : k < bufferCacheSize)
    (hfuel : bufferCacheSize ≤ fuel + k) :
    ∃ o, scan c test start fuel (f^[k] start) = .ok o ∧ RestOfScan c test f start k o := by
  -- on the rounds left; a round ends the scan, closes the ring or goes to the next buffer
  induction fuel generalizing k with
  | zero => omega
  | succ fuel ih =>
    rw [scan]
    cases htest : test (c.bufs (f^[k] start)) with
    | true => exact ⟨_, if_pos rfl, k, le_rfl, hk, rfl, htest, fun i hi hik => by omega⟩
    | false =>
      have hstep : deref (c.bufs (f^[k] start)).next = .ok (f^[k + 1] start) := by
        rw [hnext, Function.iterate_succ_apply']
        rfl
      rw [if_neg Bool.false_ne_true, hstep]
      have hclosed := horbit.iterate_eq_self_iff (a := start) (k := k) hk
      rw [Fintype.card_fin] at hclosed
      by_cases hlast : k + 1 = bufferCacheSize
      · refine ⟨none, if_pos (hclosed.mpr hlast), fun i hi hlt => ?_⟩
        obtain rfl : i = k := by omega
        exact htest
      · obtain ⟨o, ho, hrest⟩ := ih (k := k + 1) (by omega) (by omega)
        exact ⟨o, (if_neg fun heq => hlast (hclosed.mp heq)).trans ho, hrest.earlier htest⟩

end Ring

/-- A scan once around the ring. -/
lemma scan_ring (hring : OneCycle c) (hfuel : bufferCacheSize ≤ fuel) (start : BufIdx) (test : Buffer → Bool) :
    (∃ b, scan c test start fuel start = .ok (some b) ∧ First c start test b) ∨
      (scan c test start fuel start = .ok none ∧ ∀ x, test (c.bufs x) = false) := by
  obtain ⟨f, hnext, horbit⟩ := hring
  obtain ⟨o, hscan, hrest⟩ := scan_from hnext horbit start test (k := 0) (by decide) hfuel
  cases o with
  | some b =>
    obtain ⟨k, -, hk, hb, htest, hbefore⟩ := hrest
    refine Or.inl ⟨b, hscan, htest, k, (position_iff hnext).mpr ⟨hk, hb⟩, fun x j hx hj => ?_⟩
    obtain ⟨-, rfl⟩ := (position_iff hnext).mp hj
    by_contra hlt
    have hfalse := hbefore j (Nat.zero_le j) (by omega)
    rw [hfalse] at hx
    cases hx
  | none =>
    refine Or.inr ⟨hscan, fun x => ?_⟩
    obtain ⟨k, hk⟩ := exists_position hnext horbit start x
    obtain ⟨hlt, rfl⟩ := (position_iff hnext).mp hk
    exact hrest k (Nat.zero_le k) hlt

lemma bufferGet_outcome (hring : OneCycle c) (hfuel : bufferCacheSize ≤ fuel) (dev blockno : BitVec 32) :
    ∃ r c', bufferGet fuel c dev blockno = .ok (r, c') ∧ GetOutcome c dev blockno r c' := by
  unfold bufferGet
  rcases scan_ring hring hfuel c.mru (isCached dev blockno) with ⟨b, hscan, hfirst⟩ | ⟨hscan, hmiss⟩
  · exact ⟨some b, c, by rw [hscan]; rfl, .cached hfirst⟩
  · rcases scan_ring hring hfuel c.lru isUnused with ⟨b, hscan', hfirst⟩ | ⟨hscan', hfull⟩
    · exact ⟨some b, _, by rw [hscan, hscan']; rfl, .recycled hmiss hfirst⟩
    · exact ⟨none, c, by rw [hscan, hscan']; rfl, .full hmiss hfull⟩

/-- The recycled buffer gets a key that no other buffer has. -/
lemma KeysDistinct.rekey (h : KeysDistinct c) (hmiss : ∀ x, isCached dev blockno (c.bufs x) = false) (b : BufIdx) :
    KeysDistinct (c.set b (rekeyed dev blockno (c.bufs b))) := by
  have hnew : ∀ x, x ≠ b → ¬((c.bufs x).dev = dev ∧ (c.bufs x).blockno = blockno) := by
    intro x _ hkey
    have hfalse := hmiss x
    rw [isCached, decide_eq_false_iff_not] at hfalse
    exact hfalse hkey
  intro x y hx hy hdev hblockno
  by_cases hxb : x = b
  · by_cases hyb : y = b
    · rw [hxb, hyb]
    · rw [hxb, Cache.bufs_set_self, Cache.bufs_set_of_ne hyb] at hdev hblockno
      exact absurd ⟨hdev.symm, hblockno.symm⟩ (hnew y hyb)
  · by_cases hyb : y = b
    · rw [hyb, Cache.bufs_set_self, Cache.bufs_set_of_ne hxb] at hdev hblockno
      exact absurd ⟨hdev, hblockno⟩ (hnew x hxb)
    · rw [Cache.bufs_set_of_ne hxb, Cache.bufs_set_of_ne hyb] at hdev hblockno
      rw [Cache.bufs_set_of_ne hxb] at hx
      rw [Cache.bufs_set_of_ne hyb] at hy
      exact h x y hx hy hdev hblockno

lemma GetOutcome.keysDistinct {r : Option BufIdx} (hout : GetOutcome c dev blockno r c') (h : KeysDistinct c) :
    KeysDistinct c' := by
  cases hout with
  | cached _ => exact h
  | recycled hmiss _ => exact h.rekey hmiss _
  | full _ _ => exact h

theorem bufferGet_spec (c : Cache) (hring : OneCycle c) (dev blockno : BitVec 32) (fuel : Nat)
    (hfuel : bufferCacheSize ≤ fuel) :
    ∃ r c', bufferGet fuel c dev blockno = .ok (r, c') ∧ GetOutcome c dev blockno r c' ∧
      (KeysDistinct c → KeysDistinct c') := by
  obtain ⟨r, c', hget, hout⟩ := bufferGet_outcome hring hfuel dev blockno
  exact ⟨r, c', hget, hout, hout.keysDistinct⟩

theorem bufferGet_spec_zeroed : ∃ r c', bufferGet 64 ringRun.cache 1 1 = .ok (r, c') ∧
    GetOutcome ringRun.cache 1 1 r c' ∧ (KeysDistinct ringRun.cache → KeysDistinct c') :=
  bufferGet_spec ringRun.cache zeroedRing_ringRun.cycle 1 1 64 le_rfl

end JavaScriptOS.BufferCache
