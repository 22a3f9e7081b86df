import JavaScriptOS.BufferCache.Cache

/-!
# The links of the buffer cache

`doubly_linked_list_push_front` copies the `next` of the front buffer and never stores a pointer to the
new one in any `next`. From zeroed globals `init_buffer_cache` therefore leaves every `next` null, and
no call that returns changes that.
-/

namespace JavaScriptOS.BufferCache
open JavaScriptOS.Lib

/-- The `next` pointers form one cycle through all buffers, so through `mru` and `lru` as well. -/
def OneCycle (c : Cache) : Prop :=
  ∃ f : BufIdx → BufIdx, (∀ b, (c.bufs b).next = some (f b)) ∧ ∀ a b, ∃ k, f^[k] a = b

lemma OneCycle.of_next_eq {c c' : Cache} (h : OneCycle c) (heq : ∀ b, (c'.bufs b).next = (c.bufs b).next) :
    OneCycle c' := by
  obtain ⟨f, hnext, horbit⟩ := h
  exact ⟨f, fun b => (heq b).trans (hnext b), horbit⟩

structure RingOk (c : Cache) : Prop where
  cycle : OneCycle c
  inverse : ∀ a b, (c.bufs a).next = some b ↔ (c.bufs b).prev = some a

/-- A call of a client, with what `sata_sync` makes of the flags in it. -/
inductive CacheCall where
  | read (dev blockno : BitVec 32) (sync : SataSync)
  | write (b : BufIdx) (sync : SataSync)
  | release (b : BufIdx)

def Cache.step (fuel : Nat) (c : Cache) : CacheCall → Except Fault Cache
  | .read dev blockno sync => do
    let (_, c) ← bufferRead fuel sync c dev blockno
    pure c
  | .write b sync => pure (bufferWrite sync c b)
  | .release b => bufferRelease c b

def CacheReach (fuel : Nat) : Cache → Prop :=
  Reach (· = initBufferCache zeroCache) (Cache.step fuel) (fun _ _ => True)

def Unlinked (c : Cache) : Prop := ∀ b, (c.bufs b).next = none

lemma not_oneCycle_of_unlinked {c : Cache} (h : Unlinked c) : ¬OneCycle c := by
  rintro ⟨f, hf, -⟩
  have hnone := h 0
  rw [hf 0] at hnone
  cases hnone

lemma Unlinked.of_next_eq {c c' : Cache} (h : Unlinked c) (heq : ∀ b, (c'.bufs b).next = (c.bufs b).next) :
    Unlinked c' := fun b => (heq b).trans (h b)

lemma Unlinked.pushFront {c : Cache} (h : Unlinked c) (b : BufIdx) : Unlinked (doublyLinkedListPushFront c b) := by
  have hnext : Unlinked (c.setNext b (c.bufs c.mru).next) := by
    apply h.of_next_eq
    apply Cache.field_set Buffer.next
    rw [h c.mru, h b]
  have hprev : ∀ (d : Cache) i p, Unlinked d → Unlinked (d.setPrev i p) := fun d i p hd =>
    hd.of_next_eq (Cache.field_set Buffer.next rfl)
  exact hprev _ _ _ (hprev _ _ _ hnext)

lemma unlinked_init : Unlinked (initBufferCache zeroCache) := by
  have hfold : ∀ (l : List BufIdx) (c : Cache), Unlinked c → Unlinked (l.foldl doublyLinkedListPushFront c) := by
    intro l
    induction l with
    | nil => exact fun c hc => hc
    | cons b l ih => exact fun c hc => ih _ (hc.pushFront b)
  exact hfold _ _ (fun b => rfl)

lemma bufferRead_next {fuel : Nat} {sync : SataSync} {c c' : Cache} {dev blockno : BitVec 32} {b : BufIdx}
    (h : bufferRead fuel sync c dev blockno = .ok (b, c')) (i : BufIdx) : (c'.bufs i).next = (c.bufs i).next := by
  obtain ⟨c₁, hget, rfl⟩ := bufferRead_cases h
  have hget_next : (c₁.bufs i).next = (c.bufs i).next := by
    rcases bufferGet_cases hget with ⟨-, rfl⟩ | ⟨-, rfl⟩
    · rfl
    · apply Cache.field_set Buffer.next
      rfl
  split
  · rw [sataSync_field Buffer.next (fun _ _ _ => rfl), hget_next]
  · exact hget_next

/-- To drop its last reference a buffer would have to leave the list, through a null `next`. -/
lemma Unlinked.remove_faults {c : Cache} (h : Unlinked c) (b : BufIdx) :
    doublyLinkedListRemove c b = .error .nullPointer := by
  unfold doublyLinkedListRemove
  cases hp : (c.bufs b).prev with
  | none => rfl
  | some p =>
    have hnext : ((c.setNext p (c.bufs b).next).bufs b).next = none := by
      rw [Cache.setNext, Cache.field_set Buffer.next (by rw [h b, h p]), h b]
    simp only [deref, bind, Except.bind, hnext]

lemma Unlinked.step {fuel : Nat} {c c' : Cache} (h : Unlinked c) {call : CacheCall}
    (hrun : Cache.step fuel c call = .ok c') : Unlinked c' := by
  cases call with
  | read dev blockno sync =>
    obtain ⟨⟨b, c₁⟩, hread, hpure⟩ := bind_eq_ok.mp hrun
    cases hpure
    exact h.of_next_eq (bufferRead_next hread)
  | write b sync =>
    cases hrun
    apply h.of_next_eq
    intro i
    rw [bufferWrite, sataSync_field Buffer.next (fun _ _ _ => rfl)]
    apply Cache.field_set Buffer.next
    rfl
  | release b =>
    have hdec : Unlinked (c.set b { c.bufs b with refcnt := (c.bufs b).refcnt - 1 }) :=
      h.of_next_eq (Cache.field_set Buffer.next rfl)
    simp only [Cache.step, bufferRelease, hdec.remove_faults] at hrun
    split at hrun
    · cases hrun
    · cases hrun
      exact hdec

lemma unlinked_of_reach {fuel : Nat} {c : Cache} (hr : CacheReach fuel c) : Unlinked c := by
  refine hr.preserved (P := Unlinked) ?_ ?_
  · rintro c rfl
    exact unlinked_init
  · intro c call c' hc _ hrun
    exact hc.step hrun

/-- The ring is never there, whatever is called and whatever the disk does. -/
theorem ring_never_formed (fuel : Nat) (c : Cache) (hr : CacheReach fuel c) : ¬RingOk c :=
  fun hring => not_oneCycle_of_unlinked (unlinked_of_reach hr) hring.cycle

/-- Block (0, 0) is found in a zeroed buffer, is read from the disk, written and released. -/
def readWriteRelease : List CacheCall :=
  [.read 0 0 fun _ => ⟨false, true⟩, .write 63 fun _ => ⟨false, true⟩, .release 63]

theorem ring_never_formed_after_release :
    ∃ c, CacheReach 64 c ∧ (c.bufs 63).valid = true ∧ (c.bufs 63).refcnt = 0xFFFFFFFF#32 ∧ ¬RingOk c := by
  have hplay : (play (Cache.step 64) (fun _ _ => True) (initBufferCache zeroCache) readWriteRelease).any
      (fun c => (c.bufs 63).valid && (c.bufs 63).refcnt == 0xFFFFFFFF#32) = true := by decide +kernel
  obtain ⟨c, hc, hflags⟩ := (Option.any_eq_true _ _).mp hplay
  have hstart : CacheReach 64 (initBufferCache zeroCache) := .init rfl
  have hr : CacheReach 64 c := Reach.play hstart hc
  simp only [Bool.and_eq_true, beq_iff_eq] at hflags
  exact ⟨c, hr, hflags.1, hflags.2, ring_never_formed 64 c hr⟩

theorem init_leaves_no_ring : ¬∀ fuel c, CacheReach fuel c → RingOk c := by
  intro h
  exact not_oneCycle_of_unlinked unlinked_init (h 0 _ (.init rfl)).cycle

end JavaScriptOS.BufferCache
