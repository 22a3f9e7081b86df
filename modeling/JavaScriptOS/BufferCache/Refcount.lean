import JavaScriptOS.BufferCache.Ring

/-!
# Reference counts and outstanding handles

A run keeps the handles that `buffer_read` has returned and that have not been released. A buffer that
`buffer_get` recycles starts with one reference; a buffer that it finds in the cache gets none. The
counts are therefore right as long as every read misses.
-/

namespace JavaScriptOS.BufferCache
open JavaScriptOS.Lib

structure CacheRun where
  cache : Cache
  handles : List BufIdx

inductive HandleCall where
  | read (dev blockno : BitVec 32) (sync : SataSync)
  | release (b : BufIdx)

def CacheRun.step (fuel : Nat) (r : CacheRun) : HandleCall → Except Fault CacheRun
  | .read dev blockno sync => do
    let (b, c) ← bufferRead fuel sync r.cache dev blockno
    pure ⟨c, b :: r.handles⟩
  | .release b => do
    let c ← bufferRelease r.cache b
    pure ⟨c, r.handles.erase b⟩

/-- A ring of zero-initialised buffers, before the first call. -/
structure ZeroedRing (r : CacheRun) : Prop where
  cycle : OneCycle r.cache
  unused : ∀ b, (r.cache.bufs b).refcnt = 0 ∧ (r.cache.bufs b).dirty = false ∧ (r.cache.bufs b).valid = false
  keys : ∀ b, (r.cache.bufs b).dev = 0 ∧ (r.cache.bufs b).blockno = 0
  no_handles : r.handles = []

/-- The ring is intact, and only an outstanding handle is released. -/
def Matched (r : CacheRun) : HandleCall → Prop
  | .read _ _ _ => OneCycle r.cache
  | .release b => OneCycle r.cache ∧ b ∈ r.handles

def Misses (r : CacheRun) : HandleCall → Prop
  | .read dev blockno _ => ∀ b, isCached dev blockno (r.cache.bufs b) = false
  | .release _ => True

def CacheRunReach (fuel : Nat) (Ok : CacheRun → HandleCall → Prop) : CacheRun → Prop :=
  Reach ZeroedRing (CacheRun.step fuel) Ok

/-- The counts are the numbers of outstanding handles, no release wraps, and no read gives a buffer
with an outstanding handle another key. -/
structure HandlesOk (fuel : Nat) (r : CacheRun) : Prop where
  counted : ∀ b, (r.cache.bufs b).refcnt.toNat = r.handles.count b
  no_wrap : ∀ b ∈ r.handles, ∀ r', r.step fuel (.release b) = .ok r' →
    (r'.cache.bufs b).refcnt.toNat + 1 = (r.cache.bufs b).refcnt.toNat
  keyed : ∀ dev blockno sync r', r.step fuel (.read dev blockno sync) = .ok r' → ∀ b ∈ r.handles,
    (r'.cache.bufs b).dev = (r.cache.bufs b).dev ∧ (r'.cache.bufs b).blockno = (r.cache.bufs b).blockno

variable {fuel : Nat} {r r' : CacheRun} {b : BufIdx} {dev blockno : BitVec 32} {sync : SataSync}

lemma read_outcome (h : r.step fuel (.read dev blockno sync) = .ok r') :
    ∃ b, r'.handles = b :: r.handles ∧
      ((isCached dev blockno (r.cache.bufs b) = true ∧ ∀ i, (r'.cache.bufs i).refcnt = (r.cache.bufs i).refcnt ∧
          (r'.cache.bufs i).dev = (r.cache.bufs i).dev ∧ (r'.cache.bufs i).blockno = (r.cache.bufs i).blockno) ∨
        ((r.cache.bufs b).refcnt = 0 ∧ (r'.cache.bufs b).refcnt = 1 ∧ ∀ i, i ≠ b →
          (r'.cache.bufs i).refcnt = (r.cache.bufs i).refcnt ∧ (r'.cache.bufs i).dev = (r.cache.bufs i).dev ∧
          (r'.cache.bufs i).blockno = (r.cache.bufs i).blockno)) := by
  obtain ⟨⟨b, c⟩, hread, hpure⟩ := bind_eq_ok.mp h
  cases hpure
  obtain ⟨c₁, hget, rfl⟩ := bufferRead_cases hread
  -- `sata_sync` leaves the three fields as `buffer_get` left them
  have hsync : ∀ i, let d := if !(c₁.bufs b).valid then sataSync sync c₁ b else c₁
      (d.bufs i).refcnt = (c₁.bufs i).refcnt ∧ (d.bufs i).dev = (c₁.bufs i).dev ∧
        (d.bufs i).blockno = (c₁.bufs i).blockno := by
    intro i
    dsimp only
    split
    · exact ⟨sataSync_field Buffer.refcnt (fun _ _ _ => rfl) _ _ _ _,
        sataSync_field Buffer.dev (fun _ _ _ => rfl) _ _ _ _,
        sataSync_field Buffer.blockno (fun _ _ _ => rfl) _ _ _ _⟩
    · exact ⟨rfl, rfl, rfl⟩
  refine ⟨b, rfl, ?_⟩
  rcases bufferGet_cases hget with ⟨hhit, rfl⟩ | ⟨hunused, rfl⟩
  · exact Or.inl ⟨hhit, hsync⟩
  · right
    simp only [isUnused, decide_eq_true_eq] at hunused
    refine ⟨hunused.1, ?_, ?_⟩
    · rw [(hsync b).1, Cache.bufs_set_self]
      rfl
    · intro i hi
      have h₁ := hsync i
      rwa [Cache.bufs_set_of_ne hi] at h₁

lemma release_outcome (h : r.step fuel (.release b) = .ok r') :
    r'.handles = r.handles.erase b ∧ (r'.cache.bufs b).refcnt = (r.cache.bufs b).refcnt - 1 ∧
      ∀ i, i ≠ b → (r'.cache.bufs i).refcnt = (r.cache.bufs i).refcnt := by
  obtain ⟨c, hrelease, hpure⟩ := bind_eq_ok.mp h
  cases hpure
  have hcnt := bufferRelease_field Buffer.refcnt (fun _ _ _ => rfl) hrelease
  refine ⟨rfl, ?_, ?_⟩
  · rw [hcnt b, Cache.bufs_set_self]
  · intro i hi
    rw [hcnt i, Cache.bufs_set_of_ne hi]

def Counted (r : CacheRun) : Prop := ∀ b, (r.cache.bufs b).refcnt.toNat = r.handles.count b

lemma Counted.toNat_pred (h : Counted r) (hb : b ∈ r.handles) :
    ((r.cache.bufs b).refcnt - 1).toNat + 1 = (r.cache.bufs b).refcnt.toNat := by
  have hpos : 0 < (r.cache.bufs b).refcnt.toNat := by
    rw [h b]
    exact List.count_pos_iff.mpr hb
  have hone : (1 : BitVec 32) ≤ (r.cache.bufs b).refcnt := by
    rw [BitVec.le_def]
    exact hpos
  rw [BitVec.toNat_sub_of_le hone]
  exact Nat.sub_add_cancel hpos

lemma Counted.release (h : Counted r) (hb : b ∈ r.handles) (hrun : r.step fuel (.release b) = .ok r') :
    Counted r' := by
  obtain ⟨hhandles, hself, hother⟩ := release_outcome hrun
  intro i
  rw [hhandles]
  by_cases hi : i = b
  · subst hi
    have hpred := h.toNat_pred hb
    rw [hself, List.count_erase_self, ← h i]
    omega
  · rw [hother i hi, List.count_erase_of_ne hi, h i]

lemma Counted.read (h : Counted r) (hmiss : ∀ b, isCached dev blockno (r.cache.bufs b) = false)
    (hrun : r.step fuel (.read dev blockno sync) = .ok r') : Counted r' := by
  obtain ⟨b, hhandles, ⟨hhit, -⟩ | ⟨hzero, hone, hother⟩⟩ := read_outcome hrun
  · rw [hmiss b] at hhit
    cases hhit
  · intro i
    rw [hhandles]
    by_cases hi : i = b
    · subst hi
      rw [hone, List.count_cons_self, ← h i, hzero]
      rfl
    · rw [(hother i hi).1, List.count_cons_of_ne (Ne.symm hi), h i]

lemma Counted.handlesOk (h : Counted r) : HandlesOk fuel r where
  counted := h
  no_wrap := by
    intro b hb r' hrun
    rw [(release_outcome hrun).2.1]
    exact h.toNat_pred hb
  keyed := by
    intro dev blockno sync r' hrun i hi
    obtain ⟨b, -, ⟨-, hsame⟩ | ⟨hzero, -, hother⟩⟩ := read_outcome hrun
    · exact (hsame i).2
    · -- a recycled buffer has count zero, so no handle
      have hne : i ≠ b := by
        rintro rfl
        have hpos := List.count_pos_iff.mpr hi
        rw [← h i, hzero] at hpos
        cases hpos
      exact (hother i hne).2

theorem refcnt_counts_handles (fuel : Nat) (r : CacheRun)
    (hr : CacheRunReach fuel (fun r call => Matched r call ∧ Misses r call) r) : HandlesOk fuel r := by
  have hcounted : Counted r := by
    refine hr.preserved (P := Counted) ?_ ?_
    · intro r hstart b
      rw [(hstart.unused b).1, hstart.no_handles]
      rfl
    · intro r call r' h hok hrun
      cases call with
      | read dev blockno sync => exact h.read hok.2 hrun
      | release b => exact h.release hok.1.2 hrun
  exact hcounted.handlesOk

/-- Sixty-four zeroed buffers linked in the order of the array. -/
def ringRun : CacheRun :=
  ⟨⟨fun b => ⟨false, false, 0, 0, 0, some (b + 1), some (b - 1)⟩, 0, 63⟩, []⟩

lemma zeroedRing_ringRun : ZeroedRing ringRun where
  cycle := by
    refine ⟨fun b => b + 1, fun b => rfl, fun a b => ⟨b.val + 64 - a.val, ?_⟩⟩
    have hiter : ∀ k : Nat, ((fun b : BufIdx => b + 1)^[k] a).val = (a.val + k) % 64 := by
      intro k
      induction k with
      | zero => exact (Nat.mod_eq_of_lt a.isLt).symm
      | succ k ih =>
        rw [Function.iterate_succ_apply', Fin.val_add, ih]
        change ((a.val + k) % 64 + 1) % 64 = (a.val + (k + 1)) % 64
        omega
    have ha : a.val < 64 := a.isLt
    have hb : b.val < 64 := b.isLt
    ext
    rw [hiter]
    omega
  unused := fun b => ⟨rfl, rfl, rfl⟩
  keys := fun b => ⟨rfl, rfl⟩
  no_handles := rfl

lemma read_cycle (h : r.step fuel (.read dev blockno sync) = .ok r') (hcycle : OneCycle r.cache) :
    OneCycle r'.cache := by
  obtain ⟨⟨b, c⟩, hread, hpure⟩ := bind_eq_ok.mp h
  cases hpure
  exact hcycle.of_next_eq (bufferRead_next hread)

/-- Blocks (1, 1) and (1, 2) take the buffer at `lru` and the one behind it, and the first of them is released. -/
theorem refcnt_counts_handles_released : ∃ r, CacheRunReach 64 (fun r call => Matched r call ∧ Misses r call) r ∧
    r.handles = [0] ∧ (r.cache.bufs 0).refcnt = 1 ∧ (r.cache.bufs 63).refcnt = 0 ∧ HandlesOk 64 r := by
  have hrun : (ringRun.step 64 (.read 1 1 fun _ => ⟨false, true⟩)).toOption.any (fun r =>
      decide (∀ b, isCached 1 2 (r.cache.bufs b) = false) &&
      (r.step 64 (.read 1 2 fun _ => ⟨false, true⟩)).toOption.any (fun r => decide (63 ∈ r.handles) &&
        (r.step 64 (.release 63)).toOption.any (fun r =>
          decide (r.handles = [0] ∧ (r.cache.bufs 0).refcnt = 1 ∧ (r.cache.bufs 63).refcnt = 0)))) = true := by
    decide +kernel
  obtain ⟨r₁, hstep₁, htest₁⟩ := ok_of_any hrun
  obtain ⟨hmiss, hrest₁⟩ := Bool.and_eq_true_iff.mp htest₁
  have hmiss : ∀ b, isCached 1 2 (r₁.cache.bufs b) = false := of_decide_eq_true hmiss
  obtain ⟨r₂, hstep₂, htest₂⟩ := ok_of_any hrest₁
  obtain ⟨hhandle, hrest₂⟩ := Bool.and_eq_true_iff.mp htest₂
  obtain ⟨r₃, hstep₃, htest₃⟩ := ok_of_any hrest₂
  obtain ⟨hhandles, hcount₀, hcount₆₃⟩ := of_decide_eq_true htest₃
  have hcycle₁ := read_cycle hstep₁ zeroedRing_ringRun.cycle
  have hcycle₂ := read_cycle hstep₂ hcycle₁
  have hr₁ : CacheRunReach 64 (fun r call => Matched r call ∧ Misses r call) r₁ :=
    .step (.read 1 1 _) (.init zeroedRing_ringRun) ⟨zeroedRing_ringRun.cycle, fun _ => rfl⟩ hstep₁
  have hr₂ : CacheRunReach 64 (fun r call => Matched r call ∧ Misses r call) r₂ :=
    .step (.read 1 2 _) hr₁ ⟨hcycle₁, hmiss⟩ hstep₂
  have hr₃ : CacheRunReach 64 (fun r call => Matched r call ∧ Misses r call) r₃ :=
    .step (.release 63) hr₂ ⟨⟨hcycle₂, of_decide_eq_true hhandle⟩, trivial⟩ hstep₃
  exact ⟨r₃, hr₃, hhandles, hcount₀, hcount₆₃, refcnt_counts_handles 64 r₃ hr₃⟩

/-- Block (0, 0) is found in a zeroed buffer, which is handed out with count zero. -/
theorem refcnt_misses_handle : ¬∀ fuel r, CacheRunReach fuel Matched r → HandlesOk fuel r := by
  intro h
  have hrun : (ringRun.step 64 (.read 0 0 fun _ => ⟨false, true⟩)).toOption.any
      (fun r => (r.cache.bufs 0).refcnt.toNat != r.handles.count 0) = true := by decide +kernel
  obtain ⟨r, hstep, hcount⟩ := ok_of_any hrun
  have hr : CacheRunReach 64 Matched r :=
    .step (.read 0 0 fun _ => ⟨false, true⟩) (.init zeroedRing_ringRun) zeroedRing_ringRun.cycle hstep
  exact bne_iff_ne.mp hcount ((h 64 r hr).counted 0)

end JavaScriptOS.BufferCache
