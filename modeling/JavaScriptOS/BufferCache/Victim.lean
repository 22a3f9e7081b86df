import JavaScriptOS.BufferCache.Scan

/-!
# Which buffer is recycled

`lru` is the last buffer of the ring, so the scan from it along `next` comes to `mru` in its second round.
A busy or dirty `lru` makes it recycle the unused buffer that was released last.
-/

namespace JavaScriptOS.BufferCache
open JavaScriptOS.Lib

/-- The ring starts at `mru` and ends at `lru`. -/
structure LruRing (c : Cache) : Prop where
  cycle : OneCycle c
  closes : (c.bufs c.lru).next = some c.mru

/-- Of the buffers that may be recycled, `b` is the one furthest from `mru`. -/
def Furthest (c : Cache) (b : BufIdx) : Prop :=
  isUnused (c.bufs b) = true ∧ ∃ k, Position c c.mru b k ∧
    ∀ x j, isUnused (c.bufs x) = true → Position c c.mru x j → j ≤ k

/-- No two buffers may be recycled. -/
def OneUnused (c : Cache) : Prop :=
  ∀ x y, isUnused (c.bufs x) = true → isUnused (c.bufs y) = true → x = y

variable {c : Cache} {f : BufIdx → BufIdx} {b x : BufIdx} {k j : Nat}

section Positions

variable (hnext : ∀ b, (c.bufs b).next = some (f b)) (horbit : OneOrbit f) (hcloses : f c.lru = c.mru)

include hnext hcloses in
/-- From `lru` a buffer is one step further than from `mru`. -/
lemma position_mru (hne : x ≠ c.lru) (h : Position c c.lru x k) : ∃ j, k = j + 1 ∧ Position c c.mru x j := by
  rw [position_iff hnext] at h
  cases k with
  | zero => exact absurd h.2.symm hne
  | succ j =>
    have hx : f^[j] c.mru = x := by
      rw [← hcloses, ← Function.iterate_succ_apply]
      exact h.2
    exact ⟨j, rfl, (position_iff hnext).mpr ⟨by omega, hx⟩⟩

include hnext horbit hcloses in
lemma position_lru : Position c c.mru c.lru 63 := by
  have hround : f^[63] c.mru = c.lru := by
    rw [← hcloses, ← Function.iterate_succ_apply]
    exact horbit.iterate_card c.lru
  exact (position_iff hnext).mpr ⟨by decide, hround⟩

include hnext in
lemma First.eq_lru (h : First c c.lru isUnused b) (hlru : isUnused (c.bufs c.lru) = true) : b = c.lru := by
  obtain ⟨-, k, hk, hleast⟩ := h
  have hstart : Position c c.lru c.lru 0 := (position_iff hnext).mpr ⟨by decide, rfl⟩
  obtain rfl : k = 0 := Nat.le_zero.mp (hleast c.lru 0 hlru hstart)
  exact ((position_iff hnext).mp hk).2.symm

include hnext horbit hcloses in
/-- With `lru` in use the first unused buffer is the nearest one to `mru`. -/
lemma First.nearest (h : First c c.lru isUnused b) (hlru : isUnused (c.bufs c.lru) = false) :
    ∃ k, Position c c.mru b k ∧ ∀ x j, isUnused (c.bufs x) = true → Position c c.mru x j → k ≤ j := by
  have hne : ∀ x, isUnused (c.bufs x) = true → x ≠ c.lru := by
    rintro x hx rfl
    rw [hlru] at hx
    cases hx
  obtain ⟨hb, i, hi, hleast⟩ := h
  obtain ⟨k, rfl, hk⟩ := position_mru hnext hcloses (hne b hb) hi
  refine ⟨k, hk, fun x j hx hj => ?_⟩
  obtain ⟨i, hi'⟩ := exists_position hnext horbit c.lru x
  obtain ⟨j', rfl, hj'⟩ := position_mru hnext hcloses (hne x hx) hi'
  have hle := hleast x (j' + 1) hx hi'
  have heq := position_unique hnext horbit hj hj'
  omega

end Positions

lemma First.furthest_iff (hring : LruRing c) (h : First c c.lru isUnused b) :
    Furthest c b ↔ isUnused (c.bufs c.lru) = true ∨ OneUnused c := by
  obtain ⟨f, hnext, horbit⟩ := hring.cycle
  have hcloses : f c.lru = c.mru := by
    have hlru := hnext c.lru
    rw [hring.closes] at hlru
    exact (Option.some.inj hlru).symm
  cases hlru : isUnused (c.bufs c.lru) with
  | true =>
    obtain rfl : b = c.lru := h.eq_lru hnext hlru
    have hfurthest : Furthest c c.lru :=
      ⟨hlru, 63, position_lru hnext horbit hcloses, fun x j _ hj => Nat.le_of_lt_succ hj.1⟩
    exact iff_of_true hfurthest (Or.inl rfl)
  | false =>
    obtain ⟨k, hk, hnearest⟩ := h.nearest hnext horbit hcloses hlru
    constructor
    · rintro ⟨-, k', hk', hfurthest⟩
      suffices honly : ∀ x, isUnused (c.bufs x) = true → x = b from
        Or.inr fun x y hx hy => (honly x hx).trans (honly y hy).symm
      intro x hx
      obtain ⟨j, hj⟩ := exists_position hnext horbit c.mru x
      -- `x` is no nearer and no further than `b`
      have hle := hnearest x j hx hj
      have hge := hfurthest x j hx hj
      obtain rfl := position_unique hnext horbit hk hk'
      obtain rfl : j = k := by omega
      rw [← ((position_iff hnext).mp hj).2, ((position_iff hnext).mp hk).2]
    · rintro (hfalse | honly)
      · cases hfalse
      · refine ⟨h.1, k, hk, fun x j hx hj => ?_⟩
        obtain rfl := honly x b hx h.1
        exact (position_unique hnext horbit hj hk).le

/-- A call that misses, with a buffer to recycle. -/
lemma bufferGet_recycles (hring : OneCycle c) {dev blockno : BitVec 32} {fuel : Nat} (hfuel : bufferCacheSize ≤ fuel)
    (hmiss : ∀ x, isCached dev blockno (c.bufs x) = false) (hunused : ∃ x, isUnused (c.bufs x) = true) :
    ∃ b, bufferGet fuel c dev blockno = .ok (some b, c.set b (rekeyed dev blockno (c.bufs b))) ∧
      First c c.lru isUnused b := by
  obtain ⟨r, c', hget, hout⟩ := bufferGet_outcome hring hfuel dev blockno
  cases hout with
  | @cached b hfirst =>
    have hhit := hfirst.1
    rw [hmiss b] at hhit
    cases hhit
  | @recycled b _ hfirst => exact ⟨b, hget, hfirst⟩
  | full _ hfull =>
    obtain ⟨x, hx⟩ := hunused
    rw [hfull x] at hx
    cases hx

theorem recycled_furthest_iff (c : Cache) (hring : LruRing c) (dev blockno : BitVec 32) (fuel : Nat)
    (hfuel : bufferCacheSize ≤ fuel) (hmiss : ∀ x, isCached dev blockno (c.bufs x) = false)
    (hunused : ∃ x, isUnused (c.bufs x) = true) :
    ∃ b, bufferGet fuel c dev blockno = .ok (some b, c.set b (rekeyed dev blockno (c.bufs b))) ∧
      (Furthest c b ↔ isUnused (c.bufs c.lru) = true ∨ OneUnused c) := by
  obtain ⟨b, hget, hfirst⟩ := bufferGet_recycles hring.cycle hfuel hmiss hunused
  exact ⟨b, hget, hfirst.furthest_iff hring⟩

lemma lruRing_ringRun : LruRing ringRun.cache := ⟨zeroedRing_ringRun.cycle, rfl⟩

/-- In a ring of unused buffers `lru` itself is recycled. -/
theorem recycled_furthest_zeroed : ∃ b, bufferGet 64 ringRun.cache 1 1 =
    .ok (some b, ringRun.cache.set b (rekeyed 1 1 (ringRun.cache.bufs b))) ∧ Furthest ringRun.cache b := by
  obtain ⟨b, hget, hiff⟩ := recycled_furthest_iff ringRun.cache lruRing_ringRun 1 1 64 le_rfl (fun _ => rfl) ⟨0, rfl⟩
  exact ⟨b, hget, hiff.mpr (Or.inl rfl)⟩

/-- The same ring with a reference to `lru`. -/
def busyLru : Cache := ringRun.cache.set 63 { ringRun.cache.bufs 63 with refcnt := 1 }

lemma lruRing_busyLru : LruRing busyLru := by
  have hsame : ∀ b, (busyLru.bufs b).next = (ringRun.cache.bufs b).next := Cache.field_set Buffer.next rfl
  exact ⟨lruRing_ringRun.cycle.of_next_eq hsame, (hsame 63).trans lruRing_ringRun.closes⟩

/-- With `lru` busy, buffer 0 at `mru` is recycled although 62 others are further away. -/
theorem recycled_nearest : ¬∀ (c : Cache), LruRing c →
    ∀ (dev blockno : BitVec 32) (fuel : Nat) (b : BufIdx) (c' : Cache), bufferCacheSize ≤ fuel →
      (∀ x, isCached dev blockno (c.bufs x) = false) → bufferGet fuel c dev blockno = .ok (some b, c') →
        Furthest c b := by
  intro h
  have hmiss : ∀ x, isCached 1 1 (busyLru.bufs x) = false := by decide
  obtain ⟨b, hget, hfirst⟩ := bufferGet_recycles lruRing_busyLru.cycle (le_refl 64) hmiss ⟨0, by decide⟩
  have hfurthest := h busyLru lruRing_busyLru 1 1 64 b _ le_rfl hmiss hget
  rcases (hfirst.furthest_iff lruRing_busyLru).mp hfurthest with hlru | honly
  · exact absurd hlru (by decide)
  · exact absurd (honly 0 1 (by decide) (by decide)) (by decide)

end JavaScriptOS.BufferCache
