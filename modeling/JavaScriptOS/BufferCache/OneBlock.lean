import JavaScriptOS.BufferCache.Ring

/-!
# The cache as a store of one block

Here the buffers have their `data`. `sata_sync` is declared in `sata.h` and defined nowhere: it is a parameter,
and what the comment in `sata.h` says of it is a hypothesis. `init_buffer_cache` links no buffer to another one,
so `buffer_get` comes no further than the buffer at `mru`. That buffer has the key (0, 0) of the zeroed globals
and serves this one block, and every other block leads through a null pointer.
-/

namespace JavaScriptOS.BufferCache
open JavaScriptOS.Lib

variable {D : Type}

/-- The fields `dev` and `blockno` of a buffer. -/
structure Key where
  dev : BitVec 32
  blockno : BitVec 32
  deriving DecidableEq

def Buffer.key (b : Buffer) : Key := ⟨b.dev, b.blockno⟩

/-- What `sata_sync` leaves of a buffer and of the disk. -/
structure Synced (D : Type) where
  flags : SyncResult
  data : D
  disk : Key → D

/-- A `sata_sync` for a buffer, its data and the disk. -/
abbrev DataSync (D : Type) := Buffer → D → (Key → D) → Synced D

/-- The comment in `sata.h`: a dirty buffer is written to the disk and no longer dirty, any other one is read from
the disk, and both are valid then. -/
structure Documented (sync : DataSync D) : Prop where
  dirty : ∀ b v disk, b.dirty = true → sync b v disk = ⟨⟨false, true⟩, v, Function.update disk b.key v⟩
  clean : ∀ b v disk, b.dirty = false → sync b v disk = ⟨⟨false, true⟩, disk b.key, disk⟩

/-- The cache, the `data` of its buffers, and the disk. -/
structure Storage (D : Type) where
  cache : Cache
  data : BufIdx → D
  disk : Key → D

namespace Storage

variable (sync : DataSync D) (s : Storage D)

def sataSync (b : BufIdx) : Storage D :=
  let synced := sync (s.cache.bufs b) (s.data b) s.disk
  ⟨BufferCache.sataSync (fun _ => synced.flags) s.cache b, Function.update s.data b synced.data, synced.disk⟩

def bufferRead (fuel : Nat) (k : Key) : Except Fault (BufIdx × Storage D) := do
  let (b, c) ← bufferGet fuel s.cache k.dev k.blockno
  let b ← deref b
  let s := { s with cache := c }
  pure (b, if !(c.bufs b).valid then s.sataSync sync b else s)

def bufferWrite (b : BufIdx) : Storage D :=
  { s with cache := s.cache.set b { s.cache.bufs b with dirty := true } }.sataSync sync b

def bufferRelease (b : BufIdx) : Except Fault (Storage D) := do
  let c ← BufferCache.bufferRelease s.cache b
  pure { s with cache := c }

end Storage

/-- A client keeps the buffer that the last `buffer_read` of each block has returned. -/
structure Client (D : Type) where
  storage : Storage D
  handles : Key → Option BufIdx

inductive BlockCall (D : Type) where
  | read (k : Key)
  | store (k : Key) (v : D)
  | write (k : Key)
  | release (k : Key)

def Client.step (sync : DataSync D) (fuel : Nat) (r : Client D) : BlockCall D → Except Fault (Client D)
  | .read k => do
    let (b, s) ← r.storage.bufferRead sync fuel k
    pure ⟨s, Function.update r.handles k (some b)⟩
  | .store k v => do
    let b ← deref (r.handles k)
    pure { r with storage := { r.storage with data := Function.update r.storage.data b v } }
  | .write k => do
    let b ← deref (r.handles k)
    pure { r with storage := r.storage.bufferWrite sync b }
  | .release k => do
    let b ← deref (r.handles k)
    let s ← r.storage.bufferRelease b
    pure { r with storage := s }

def Client.run (sync : DataSync D) (fuel : Nat) (r : Client D) (calls : List (BlockCall D)) :
    Except Fault (Client D) := calls.foldlM (Client.step sync fuel) r

/-- After `init_buffer_cache` on the zeroed globals, before the first call. -/
def booted (data : BufIdx → D) (disk : Key → D) : Client D := ⟨⟨initBufferCache zeroCache, data, disk⟩, fun _ => none⟩

/-- The block of the zeroed buffers. -/
def blockZero : Key := ⟨0, 0⟩

/-- What the cache amounts to: whether block (0, 0) has been read, what clients see of it, the disk, and how often
the block has been released. -/
structure OneBlock (D : Type) where
  held : Bool
  view : D
  disk : Key → D
  released : Nat

/-- No other block can be read, and the count of references, which starts at 0, stands no 2^32 releases. -/
def OneBlock.step (a : OneBlock D) : BlockCall D → Option (OneBlock D)
  | .read k => if k = blockZero then some (if a.held then a else { a with held := true, view := a.disk k }) else none
  | .store k v => if k = blockZero ∧ a.held = true then some { a with view := v } else none
  | .write k =>
    if k = blockZero ∧ a.held = true then some { a with disk := Function.update a.disk k a.view } else none
  | .release k =>
    if (k = blockZero ∧ a.held = true) ∧ a.released + 1 < 2 ^ 32 then some { a with released := a.released + 1 }
    else none

def OneBlock.run (a : OneBlock D) (calls : List (BlockCall D)) : Option (OneBlock D) := calls.foldlM OneBlock.step a

section Relation

/-- The buffer at the front, which `init_buffer_cache` has pushed last. -/
def front : BufIdx := ⟨63, by decide⟩

/-- The buffer at the front holds the block, and no link leads away from it. -/
structure Holds (r : Client D) (a : OneBlock D) : Prop where
  unlinked : Unlinked r.storage.cache
  mru : r.storage.cache.mru = front
  key : (r.storage.cache.bufs front).key = blockZero
  clean : (r.storage.cache.bufs front).dirty = false
  valid : (r.storage.cache.bufs front).valid = a.held
  refcnt : (r.storage.cache.bufs front).refcnt = -BitVec.ofNat 32 a.released
  released : a.released < 2 ^ 32
  data : a.held = true → r.storage.data front = a.view
  handle : r.handles blockZero = if a.held then some front else none
  others : ∀ k, k ≠ blockZero → r.handles k = none
  disk : r.storage.disk = a.disk

lemma mru_init : (initBufferCache zeroCache).mru = front := by decide +kernel

lemma zeroed_init (i : BufIdx) : ((initBufferCache zeroCache).bufs i).key = blockZero ∧
    ((initBufferCache zeroCache).bufs i).dirty = false ∧ ((initBufferCache zeroCache).bufs i).valid = false ∧
    ((initBufferCache zeroCache).bufs i).refcnt = 0 := by
  have hfold : ∀ (α : Type) (field : Buffer → α), (∀ b n p, field { b with next := n, prev := p } = field b) →
      ∀ (l : List BufIdx) (c : Cache), field ((l.foldl doublyLinkedListPushFront c).bufs i) = field (c.bufs i) := by
    intro α field hfield l
    induction l with
    | nil => exact fun c => rfl
    | cons b l ih => exact fun c => (ih _).trans (pushFront_field field hfield c b i)
  exact ⟨hfold _ Buffer.key (fun _ _ _ => rfl) _ _, hfold _ Buffer.dirty (fun _ _ _ => rfl) _ _,
    hfold _ Buffer.valid (fun _ _ _ => rfl) _ _, hfold _ Buffer.refcnt (fun _ _ _ => rfl) _ _⟩

lemma holds_booted (data : BufIdx → D) (disk : Key → D) (view : D) : Holds (booted data disk) ⟨false, view, disk, 0⟩ where
  unlinked := unlinked_init
  mru := mru_init
  key := (zeroed_init front).1
  clean := (zeroed_init front).2.1
  valid := (zeroed_init front).2.2.1
  refcnt := (zeroed_init front).2.2.2.trans (by decide : 0 = -BitVec.ofNat 32 0)
  released := Nat.two_pow_pos 32
  data := fun h => by cases h
  handle := rfl
  others := fun _ _ => rfl
  disk := rfl

end Relation

section Get

variable {c : Cache} {fuel : Nat}

/-- Without links a scan looks at one buffer. -/
lemma Unlinked.scan_eq (h : Unlinked c) (found : Buffer → Bool) (stop b : BufIdx) :
    scan c found stop (fuel + 1) b = if found (c.bufs b) then .ok (some b) else .error .nullPointer := by
  rw [scan, h b]
  rfl

lemma Unlinked.bufferGet_eq (h : Unlinked c) (k : Key) : bufferGet (fuel + 1) c k.dev k.blockno =
    if (c.bufs c.mru).key = k then .ok (some c.mru, c) else .error .nullPointer := by
  have hkey : isCached k.dev k.blockno (c.bufs c.mru) = true ↔ (c.bufs c.mru).key = k := by
    cases k
    simp [isCached, Buffer.key]
  rw [bufferGet, h.scan_eq]
  by_cases hhit : (c.bufs c.mru).key = k
  · rw [if_pos (hkey.mpr hhit), if_pos hhit]
    rfl
  · rw [if_neg (fun hc => hhit (hkey.mp hc)), if_neg hhit]
    rfl

/-- A change of one buffer that leaves its `next` alone. -/
lemma Unlinked.set (h : Unlinked c) {b : BufIdx} {v : Buffer} (hv : v.next = (c.bufs b).next) : Unlinked (c.set b v) :=
  h.of_next_eq (Cache.field_set Buffer.next hv)

end Get

section Steps

variable {sync : DataSync D} {r : Client D} {a : OneBlock D} {k : Key} {fuel : Nat}

/-- The buffer after a `sata_sync`. -/
def syncedBuffer (b : Buffer) : Buffer := { b with dirty := false, valid := true }

lemma sataSync_clean (hsync : Documented sync) (s : Storage D) {b : BufIdx} (h : (s.cache.bufs b).dirty = false) :
    s.sataSync sync b = ⟨s.cache.set b (syncedBuffer (s.cache.bufs b)),
      Function.update s.data b (s.disk (s.cache.bufs b).key), s.disk⟩ := by
  unfold Storage.sataSync
  rw [hsync.clean _ _ _ h]
  rfl

lemma sataSync_dirty (hsync : Documented sync) (s : Storage D) {b : BufIdx} (h : (s.cache.bufs b).dirty = true) :
    s.sataSync sync b = ⟨s.cache.set b (syncedBuffer (s.cache.bufs b)), s.data,
      Function.update s.disk (s.cache.bufs b).key (s.data b)⟩ := by
  unfold Storage.sataSync
  rw [hsync.dirty _ _ _ h]
  dsimp only
  rw [Function.update_eq_self]
  rfl

lemma Cache.set_set (c : Cache) (b : BufIdx) (v w : Buffer) : (c.set b v).set b w = c.set b w := by
  unfold Cache.set
  rw [Function.update_idem]

lemma Holds.handle_eq (h : Holds r a) : r.handles k = if k = blockZero ∧ a.held = true then some front else none := by
  by_cases hk : k = blockZero
  · subst hk
    rw [h.handle]
    simp
  · rw [h.others k hk, if_neg fun hand => hk hand.1]

/-- A call through the handle of the block. -/
lemma Holds.deref_handle (h : Holds r a) (hk : k = blockZero ∧ a.held = true) : deref (r.handles k) = .ok front := by
  rw [h.handle_eq, if_pos hk]
  rfl

lemma Holds.deref_null (h : Holds r a) (hk : ¬(k = blockZero ∧ a.held = true)) :
    deref (r.handles k) = .error .nullPointer := by
  rw [h.handle_eq, if_neg hk]
  rfl

lemma Holds.bufferGet_zero (h : Holds r a) : bufferGet (fuel + 1) r.storage.cache blockZero.dev blockZero.blockno =
    .ok (some front, r.storage.cache) := by
  have hkey := h.key
  rw [h.unlinked.bufferGet_eq, h.mru, if_pos hkey]

/-- The first read brings the block in from the disk, and a later one finds it. -/
lemma Holds.read_zero (h : Holds r a) (hsync : Documented sync) :
    ∃ r', r.step sync (fuel + 1) (.read blockZero) = .ok r' ∧
      Holds r' (if a.held then a else { a with held := true, view := a.disk blockZero }) := by
  have hread : r.step sync (fuel + 1) (.read blockZero) = .ok ⟨if !(r.storage.cache.bufs front).valid then
      r.storage.sataSync sync front else r.storage, Function.update r.handles blockZero (some front)⟩ := by
    rw [Client.step, Storage.bufferRead, h.bufferGet_zero]
    rfl
  refine ⟨_, hread, ?_⟩
  have hothers : ∀ k, k ≠ blockZero → Function.update r.handles blockZero (some front) k = none :=
    fun k hk => (Function.update_of_ne hk _ _).trans (h.others k hk)
  rw [h.valid]
  cases hheld : a.held with
  | true =>
    refine ⟨h.unlinked, h.mru, h.key, h.clean, h.valid, h.refcnt, h.released, h.data, ?_, hothers, h.disk⟩
    dsimp only
    rw [Function.update_self, if_pos rfl, hheld, if_pos rfl]
  | false =>
    rw [if_pos (Bool.not_false), sataSync_clean hsync _ h.clean, h.key, if_neg Bool.false_ne_true]
    constructor
    · exact h.unlinked.set rfl
    · exact h.mru
    · rw [Cache.bufs_set_self]
      exact h.key
    · rw [Cache.bufs_set_self]
      rfl
    · rw [Cache.bufs_set_self]
      rfl
    · rw [Cache.bufs_set_self]
      exact h.refcnt
    · exact h.released
    · intro _
      dsimp only
      rw [Function.update_self, h.disk]
    · exact Function.update_self blockZero (some front) r.handles
    · exact hothers
    · exact h.disk

/-- The read of any other block. -/
lemma Holds.read_other (h : Holds r a) (hk : k ≠ blockZero) :
    r.step sync (fuel + 1) (.read k) = .error .nullPointer := by
  have hne : (r.storage.cache.bufs r.storage.cache.mru).key ≠ k := by
    rw [h.mru, h.key]
    exact Ne.symm hk
  rw [Client.step, Storage.bufferRead, h.unlinked.bufferGet_eq, if_neg hne]
  rfl

lemma Holds.store (h : Holds r a) (hk : k = blockZero ∧ a.held = true) (v : D) :
    ∃ r', r.step sync fuel (.store k v) = .ok r' ∧ Holds r' { a with view := v } := by
  have hstep : r.step sync fuel (.store k v) =
      .ok { r with storage := { r.storage with data := Function.update r.storage.data front v } } := by
    rw [Client.step, h.deref_handle hk]
    rfl
  have hdata : Function.update r.storage.data front v front = v := Function.update_self ..
  exact ⟨_, hstep, h.unlinked, h.mru, h.key, h.clean, h.valid, h.refcnt, h.released, fun _ => hdata, h.handle, h.others,
    h.disk⟩

/-- `buffer_write` marks the buffer and has it written at once. -/
lemma Holds.bufferWrite_front (h : Holds r a) (hsync : Documented sync) : r.storage.bufferWrite sync front =
    { r.storage with
      cache := r.storage.cache.set front (syncedBuffer (r.storage.cache.bufs front))
      disk := Function.update r.storage.disk blockZero (r.storage.data front) } := by
  have hnew := Cache.bufs_set_self r.storage.cache front { r.storage.cache.bufs front with dirty := true }
  unfold Storage.bufferWrite
  rw [sataSync_dirty hsync _ (by rw [hnew])]
  dsimp only
  rw [hnew, Cache.set_set, ← h.key]
  rfl

lemma Holds.write (h : Holds r a) (hsync : Documented sync) (hk : k = blockZero ∧ a.held = true) :
    ∃ r', r.step sync fuel (.write k) = .ok r' ∧ Holds r' { a with disk := Function.update a.disk k a.view } := by
  have hstep : r.step sync fuel (.write k) = .ok { r with storage := r.storage.bufferWrite sync front } := by
    rw [Client.step, h.deref_handle hk]
    rfl
  refine ⟨_, hstep, ?_⟩
  rw [h.bufferWrite_front hsync]
  constructor
  · exact h.unlinked.set rfl
  · exact h.mru
  · rw [Cache.bufs_set_self]
    exact h.key
  · rw [Cache.bufs_set_self]
    rfl
  · rw [Cache.bufs_set_self]
    exact hk.2.symm
  · rw [Cache.bufs_set_self]
    exact h.refcnt
  · exact h.released
  · exact h.data
  · exact h.handle
  · exact h.others
  · dsimp only
    rw [h.disk, h.data hk.2, hk.1]

/-- Each release counts down from 0, and the one that comes back to 0 takes the buffer out of a list that it is
not linked in. -/
lemma Holds.bufferRelease_front (h : Holds r a) : bufferRelease r.storage.cache front =
    if a.released + 1 < 2 ^ 32 then .ok (r.storage.cache.set front
      { r.storage.cache.bufs front with refcnt := -BitVec.ofNat 32 (a.released + 1) })
    else .error .nullPointer := by
  have hcount : (r.storage.cache.bufs front).refcnt - 1 = -BitVec.ofNat 32 (a.released + 1) := by
    rw [h.refcnt, BitVec.ofNat_add, BitVec.neg_add]
    rfl
  have hzero : -BitVec.ofNat 32 (a.released + 1) = 0#32 ↔ ¬a.released + 1 < 2 ^ 32 := by
    have hlt := h.released
    rw [BitVec.neg_eq_zero_iff, ← BitVec.toNat_inj, BitVec.toNat_ofNat, BitVec.toNat_zero]
    omega
  unfold bufferRelease
  dsimp only
  rw [hcount, Cache.bufs_set_self]
  by_cases hlt : a.released + 1 < 2 ^ 32
  · rw [if_pos hlt]
    exact if_neg fun hc => hzero.mp hc hlt
  · have hset : Unlinked (r.storage.cache.set front
        { r.storage.cache.bufs front with refcnt := -BitVec.ofNat 32 (a.released + 1) }) := h.unlinked.set rfl
    rw [if_neg hlt]
    refine (if_pos (hzero.mpr hlt)).trans ?_
    rw [hset.remove_faults]
    rfl

lemma Holds.release (h : Holds r a) (hk : (k = blockZero ∧ a.held = true) ∧ a.released + 1 < 2 ^ 32) :
    ∃ r', r.step sync fuel (.release k) = .ok r' ∧ Holds r' { a with released := a.released + 1 } := by
  have hstep : r.step sync fuel (.release k) = .ok { r with storage := { r.storage with
      cache := r.storage.cache.set front
        { r.storage.cache.bufs front with refcnt := -BitVec.ofNat 32 (a.released + 1) } } } := by
    rw [Client.step, h.deref_handle hk.1, ok_bind, Storage.bufferRelease, h.bufferRelease_front, if_pos hk.2]
    rfl
  refine ⟨_, hstep, ?_⟩
  constructor
  · exact h.unlinked.set rfl
  · exact h.mru
  · rw [Cache.bufs_set_self]
    exact h.key
  · rw [Cache.bufs_set_self]
    exact h.clean
  · rw [Cache.bufs_set_self]
    exact h.valid
  · rw [Cache.bufs_set_self]
  · exact hk.2
  · exact h.data
  · exact h.handle
  · exact h.others
  · exact h.disk

lemma Holds.release_faults (h : Holds r a) (hk : ¬((k = blockZero ∧ a.held = true) ∧ a.released + 1 < 2 ^ 32)) :
    r.step sync fuel (.release k) = .error .nullPointer := by
  by_cases hheld : k = blockZero ∧ a.held = true
  · rw [Client.step, h.deref_handle hheld, ok_bind, Storage.bufferRelease, h.bufferRelease_front,
      if_neg fun hlt => hk ⟨hheld, hlt⟩]
    rfl
  · rw [Client.step, h.deref_null hheld]
    rfl

/-- One call: the cache does what the one block does, and faults where that has no answer. -/
lemma Holds.step (h : Holds r a) (hsync : Documented sync) (fuel : Nat) (c : BlockCall D) :
    match a.step c with
    | some a' => ∃ r', r.step sync (fuel + 1) c = .ok r' ∧ Holds r' a'
    | none => r.step sync (fuel + 1) c = .error .nullPointer := by
  cases c with
  | read k =>
    rw [OneBlock.step]
    by_cases hk : k = blockZero
    · rw [if_pos hk, hk]
      exact h.read_zero hsync
    · rw [if_neg hk]
      exact h.read_other hk
  | store k v =>
    rw [OneBlock.step]
    by_cases hk : k = blockZero ∧ a.held = true
    · rw [if_pos hk]
      exact h.store hk v
    · rw [if_neg hk]
      dsimp only
      rw [Client.step, h.deref_null hk]
      rfl
  | write k =>
    rw [OneBlock.step]
    by_cases hk : k = blockZero ∧ a.held = true
    · rw [if_pos hk]
      exact h.write hsync hk
    · rw [if_neg hk]
      dsimp only
      rw [Client.step, h.deref_null hk]
      rfl
  | release k =>
    rw [OneBlock.step]
    by_cases hk : (k = blockZero ∧ a.held = true) ∧ a.released + 1 < 2 ^ 32
    · rw [if_pos hk]
      exact h.release hk
    · rw [if_neg hk]
      exact h.release_faults hk

lemma Holds.run (h : Holds r a) (hsync : Documented sync) (fuel : Nat) (calls : List (BlockCall D)) :
    match a.run calls with
    | some a' => ∃ r', r.run sync (fuel + 1) calls = .ok r' ∧ Holds r' a'
    | none => r.run sync (fuel + 1) calls = .error .nullPointer := by
  induction calls generalizing r a with
  | nil => exact ⟨r, rfl, h⟩
  | cons c calls ih =>
    have hstep := h.step hsync fuel c
    cases ha : a.step c with
    | none =>
      rw [ha] at hstep
      have hrun : a.run (c :: calls) = none := by
        rw [OneBlock.run, List.foldlM_cons, ha]
        rfl
      rw [hrun]
      dsimp only at hstep ⊢
      rw [Client.run, List.foldlM_cons, hstep]
      rfl
    | some a' =>
      rw [ha] at hstep
      obtain ⟨r', hr, h'⟩ := hstep
      have hrun : a.run (c :: calls) = a'.run calls := by
        rw [OneBlock.run, List.foldlM_cons, ha]
        rfl
      have hrun' : r.run sync (fuel + 1) (c :: calls) = r'.run sync (fuel + 1) calls := by
        rw [Client.run, List.foldlM_cons, hr]
        rfl
      rw [hrun, hrun']
      exact ih h'

end Steps

/-- From program start, and for every `sata_sync` that does what its comment says, the cache refines a store of one
block: for every sequence of calls it ends with the disk of that store and with the contents of block (0, 0), once
that is read, in the last buffer of the array. It goes through a null pointer exactly where the store has no
answer, which is at the read of any other block and at the release number 2^32. -/
theorem cache_refines_one_block (sync : DataSync D) (hsync : Documented sync) (fuel : Nat) (hfuel : 0 < fuel)
    (data : BufIdx → D) (disk : Key → D) (view : D) (calls : List (BlockCall D)) :
    match OneBlock.run ⟨false, view, disk, 0⟩ calls with
    | some a => ∃ r, (booted data disk).run sync fuel calls = .ok r ∧ r.storage.disk = a.disk ∧
        (a.held = true → r.handles blockZero = some front ∧ r.storage.data front = a.view)
    | none => (booted data disk).run sync fuel calls = .error .nullPointer := by
  obtain ⟨fuel, rfl⟩ := Nat.exists_eq_add_one_of_ne_zero (Nat.pos_iff_ne_zero.mp hfuel)
  have hrun := (holds_booted data disk view).run hsync fuel calls
  cases ha : OneBlock.run ⟨false, view, disk, 0⟩ calls with
  | none =>
    rw [ha] at hrun
    exact hrun
  | some a =>
    rw [ha] at hrun
    obtain ⟨r, hr, h⟩ := hrun
    refine ⟨r, hr, h.disk, fun hheld => ⟨?_, h.data hheld⟩⟩
    rw [h.handle, hheld]
    rfl

/-- A `sata_sync` as in the comment. -/
def commentSync (D : Type) : DataSync D := fun b v disk =>
  ⟨⟨false, true⟩, if b.dirty then v else disk b.key, if b.dirty then Function.update disk b.key v else disk⟩

lemma documented_commentSync : Documented (commentSync D) where
  dirty := by
    intro b v disk h
    simp [commentSync, h]
  clean := by
    intro b v disk h
    simp [commentSync, h]

/-- Block (0, 0) is read, changed, written back and released, and then block (0, 1) is asked for. -/
theorem cache_refines_one_block_written :
    let calls : List (BlockCall Nat) := [.read blockZero, .store blockZero 5, .write blockZero, .release blockZero]
    (∃ r, (booted (fun _ => 0) (fun _ => 7)).run (commentSync Nat) 64 calls = .ok r ∧ r.storage.disk blockZero = 5 ∧
      r.storage.data front = 5) ∧
      (booted (fun _ => 0) (fun _ => 7)).run (commentSync Nat) 64 (calls ++ [.read ⟨0, 1⟩]) = .error .nullPointer := by
  intro calls
  constructor
  · obtain ⟨r, hrun, hdisk, hheld⟩ := cache_refines_one_block (commentSync Nat) documented_commentSync 64 (by decide)
      (fun _ => 0) (fun _ => 7) 0 calls
    exact ⟨r, hrun, by rw [hdisk]; rfl, (hheld rfl).2⟩
  · exact cache_refines_one_block (commentSync Nat) documented_commentSync 64 (by decide) (fun _ => 0) (fun _ => 7) 0
      (calls ++ [.read ⟨0, 1⟩])

end JavaScriptOS.BufferCache
