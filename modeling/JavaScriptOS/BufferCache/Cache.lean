import JavaScriptOS.Lib.Reach
import Mathlib.Algebra.Order.Ring.Nat
import Mathlib.Data.Fintype.Card
import Mathlib.Logic.Function.Iterate

/-!
# The buffer cache

The functions of `buffercache.c` over the array `bufs`. A `buffer*` is an index into `bufs` or null,
and going through a null pointer is a fault. The loops of `buffer_get` take a bound on their iterations
and report when it runs out. `sata_sync` is known by its comment in `sata.h` only: it changes `dirty`,
`valid` and `data` of its buffer. What it makes of the two flags is a parameter of each call; the fields
`data` and `qnext`, which no function here reads, are left out.
-/

namespace JavaScriptOS.BufferCache

/-- `BUFFER_CACHE_SIZE`. -/
abbrev bufferCacheSize : Nat := 64

instance neZeroBuffers : NeZero bufferCacheSize := ⟨by decide⟩

abbrev BufIdx := Fin bufferCacheSize

structure Buffer where
  dirty : Bool
  valid : Bool
  dev : BitVec 32
  blockno : BitVec 32
  refcnt : BitVec 32
  next : Option BufIdx
  prev : Option BufIdx
  deriving DecidableEq

structure Cache where
  bufs : BufIdx → Buffer
  mru : BufIdx
  lru : BufIdx

inductive Fault where
  | nullPointer
  | diverges
  deriving DecidableEq

namespace Cache

def set (c : Cache) (b : BufIdx) (v : Buffer) : Cache := { c with bufs := Function.update c.bufs b v }

def setNext (c : Cache) (b : BufIdx) (p : Option BufIdx) : Cache := c.set b { c.bufs b with next := p }

def setPrev (c : Cache) (b : BufIdx) (p : Option BufIdx) : Cache := c.set b { c.bufs b with prev := p }

lemma field_set {α : Type} (field : Buffer → α) {c : Cache} {b : BufIdx} {v : Buffer}
    (h : field v = field (c.bufs b)) (i : BufIdx) : field ((c.set b v).bufs i) = field (c.bufs i) := by
  by_cases hi : i = b
  · subst hi
    simpa [set] using h
  · simp [set, hi]

lemma bufs_set_self (c : Cache) (b : BufIdx) (v : Buffer) : (c.set b v).bufs b = v := by simp [set]

lemma bufs_set_of_ne {c : Cache} {b i : BufIdx} {v : Buffer} (h : i ≠ b) : (c.set b v).bufs i = c.bufs i := by
  simp [set, h]

end Cache

def deref (p : Option BufIdx) : Except Fault BufIdx :=
  match p with
  | none => .error .nullPointer
  | some b => .ok b

def doublyLinkedListPushFront (c : Cache) (b : BufIdx) : Cache :=
  let c := c.setNext b (c.bufs c.mru).next
  let c := c.setPrev b (some c.mru)
  let c := c.setPrev c.mru (some b)
  { c with mru := b }

def doublyLinkedListRemove (c : Cache) (b : BufIdx) : Except Fault Cache := do
  let prev ← deref (c.bufs b).prev
  let c := c.setNext prev (c.bufs b).next
  let next ← deref (c.bufs b).next
  pure (c.setPrev next (c.bufs b).prev)

/-- The globals at program start. -/
def zeroCache : Cache := ⟨fun _ => ⟨false, false, 0, 0, 0, none, none⟩, 0, 0⟩

def initBufferCache (c : Cache) : Cache :=
  (List.finRange bufferCacheSize).foldl doublyLinkedListPushFront { c with mru := 0, lru := 0 }

/-- The `do`-`while` loops of `buffer_get`: from `b` along `next` until a buffer is found or the
walk is back at `stop`. -/
def scan (c : Cache) (found : Buffer → Bool) (stop : BufIdx) : Nat → BufIdx → Except Fault (Option BufIdx)
  | 0, _ => .error .diverges
  | fuel + 1, b =>
    if found (c.bufs b) then .ok (some b)
    else do
      let b ← deref (c.bufs b).next
      if b = stop then pure none else scan c found stop fuel b

def isCached (dev blockno : BitVec 32) (b : Buffer) : Bool := b.dev = dev ∧ b.blockno = blockno

def isUnused (b : Buffer) : Bool := b.refcnt = 0 ∧ !b.dirty

def bufferGet (fuel : Nat) (c : Cache) (dev blockno : BitVec 32) : Except Fault (Option BufIdx × Cache) := do
  match ← scan c (isCached dev blockno) c.mru fuel c.mru with
  | some b => pure (some b, c)
  | none =>
    match ← scan c isUnused c.lru fuel c.lru with
    | some b =>
      pure (some b, c.set b { c.bufs b with dev := dev, blockno := blockno, valid := false, refcnt := 1 })
    | none => pure (none, c)

/-- The two flags of a buffer as `sata_sync` leaves them. -/
structure SyncResult where
  dirty : Bool
  valid : Bool

abbrev SataSync := Buffer → SyncResult

def sataSync (sync : SataSync) (c : Cache) (b : BufIdx) : Cache :=
  c.set b { c.bufs b with dirty := (sync (c.bufs b)).dirty, valid := (sync (c.bufs b)).valid }

def bufferRead (fuel : Nat) (sync : SataSync) (c : Cache) (dev blockno : BitVec 32) :
    Except Fault (BufIdx × Cache) := do
  let (b, c) ← bufferGet fuel c dev blockno
  let b ← deref b
  pure (b, if !(c.bufs b).valid then sataSync sync c b else c)

def bufferWrite (sync : SataSync) (c : Cache) (b : BufIdx) : Cache :=
  sataSync sync (c.set b { c.bufs b with dirty := true }) b

def bufferRelease (c : Cache) (b : BufIdx) : Except Fault Cache := do
  let c := c.set b { c.bufs b with refcnt := (c.bufs b).refcnt - 1 }
  if (c.bufs b).refcnt = 0 then
    let c ← doublyLinkedListRemove c b
    pure (doublyLinkedListPushFront c b)
  else pure c

section Outcomes

variable {c c' : Cache} {fuel : Nat} {dev blockno : BitVec 32} {sync : SataSync} {b : BufIdx}

lemma scan_found {found : Buffer → Bool} {stop start : BufIdx}
    (h : scan c found stop fuel start = .ok (some b)) : found (c.bufs b) = true := by
  induction fuel generalizing start with
  | zero => cases h
  | succ fuel ih =>
    rw [scan] at h
    by_cases hf : found (c.bufs start) = true
    · rw [if_pos hf] at h
      cases h
      exact hf
    · rw [if_neg hf] at h
      obtain ⟨next, -, hrest⟩ := Lib.bind_eq_ok.mp h
      by_cases hs : next = stop
      · rw [if_pos hs] at hrest
        cases hrest
      · rw [if_neg hs] at hrest
        exact ih hrest

def rekeyed (dev blockno : BitVec 32) (b : Buffer) : Buffer :=
  { b with dev := dev, blockno := blockno, valid := false, refcnt := 1 }

/-- The two ways in which `buffer_get` returns a buffer. -/
lemma bufferGet_cases (h : bufferGet fuel c dev blockno = .ok (some b, c')) :
    (isCached dev blockno (c.bufs b) = true ∧ c' = c) ∨
      (isUnused (c.bufs b) = true ∧ c' = c.set b (rekeyed dev blockno (c.bufs b))) := by
  obtain ⟨hit, hscan, hrest⟩ := Lib.bind_eq_ok.mp h
  cases hit with
  | some b₁ =>
    cases hrest
    exact Or.inl ⟨scan_found hscan, rfl⟩
  | none =>
    obtain ⟨unused, hscan', hrest'⟩ := Lib.bind_eq_ok.mp hrest
    cases unused with
    | some b₁ =>
      cases hrest'
      exact Or.inr ⟨scan_found hscan', rfl⟩
    | none => cases hrest'

/-- A successful `buffer_read` is a `buffer_get`, followed by `sata_sync` if the buffer is invalid. -/
lemma bufferRead_cases (h : bufferRead fuel sync c dev blockno = .ok (b, c')) :
    ∃ c₁, bufferGet fuel c dev blockno = .ok (some b, c₁) ∧
      c' = if !(c₁.bufs b).valid then sataSync sync c₁ b else c₁ := by
  obtain ⟨⟨p, c₁⟩, hget, hrest⟩ := Lib.bind_eq_ok.mp h
  obtain ⟨b₁, hderef, hpure⟩ := Lib.bind_eq_ok.mp hrest
  cases p with
  | none => cases hderef
  | some b₂ =>
    cases hderef
    cases hpure
    exact ⟨c₁, hget, rfl⟩

lemma sataSync_field {α : Type} (field : Buffer → α)
    (hfield : ∀ b d v, field { b with dirty := d, valid := v } = field b)
    (sync : SataSync) (c : Cache) (b i : BufIdx) : field ((sataSync sync c b).bufs i) = field (c.bufs i) :=
  Cache.field_set field (hfield _ _ _) i

variable {α : Type} (field : Buffer → α) (hfield : ∀ b n p, field { b with next := n, prev := p } = field b)

include hfield in
lemma pushFront_field (c : Cache) (b i : BufIdx) :
    field ((doublyLinkedListPushFront c b).bufs i) = field (c.bufs i) := by
  have hnext : ∀ (d : Cache) b p, ∀ i, field ((d.setNext b p).bufs i) = field (d.bufs i) :=
    fun d b p => Cache.field_set field (hfield _ _ _)
  have hprev : ∀ (d : Cache) b p, ∀ i, field ((d.setPrev b p).bufs i) = field (d.bufs i) :=
    fun d b p => Cache.field_set field (hfield _ _ _)
  simp only [doublyLinkedListPushFront, hprev, hnext]

include hfield in
lemma remove_field (h : doublyLinkedListRemove c b = .ok c') (i : BufIdx) :
    field (c'.bufs i) = field (c.bufs i) := by
  obtain ⟨prev, -, h'⟩ := Lib.bind_eq_ok.mp h
  obtain ⟨next, -, h''⟩ := Lib.bind_eq_ok.mp h'
  cases h''
  rw [Cache.setPrev, Cache.field_set field (hfield _ _ _), Cache.setNext, Cache.field_set field (hfield _ _ _)]

include hfield in
/-- Apart from links, `buffer_release` only decrements the reference count. -/
lemma bufferRelease_field (h : bufferRelease c b = .ok c') (i : BufIdx) :
    field (c'.bufs i) = field ((c.set b { c.bufs b with refcnt := (c.bufs b).refcnt - 1 }).bufs i) := by
  simp only [bufferRelease] at h
  split at h
  · obtain ⟨c₁, hremove, hpush⟩ := Lib.bind_eq_ok.mp h
    cases hpush
    rw [pushFront_field field hfield, remove_field field hfield hremove]
  · cases h
    rfl

end Outcomes

end JavaScriptOS.BufferCache
