import JavaScriptOS.Heap.Kmalloc
import JavaScriptOS.Lib.Reach

/-!
# What the parts of `kmalloc` and `kfree` write

For each part, run inside `kmem`: the words it leaves and that it leaves the other bytes alone.
-/

namespace JavaScriptOS.Heap
open JavaScriptOS.Lib

variable {addr : Nat} {h : Kheap} {a b n v size : Nat}

lemma read_ok (ha : a + 2 ≤ 65535) : h.read a = .ok (word16 h.kmem a) := if_pos ha

lemma write_ok (ha : a + 2 ≤ 65535) :
    h.write a v = .ok { h with kmem := setWord16 h.kmem a v } := if_pos ha

lemma back_ok (hd : n ≤ a) : back a n = .ok (a - n) := if_pos hd

lemma setLeftAllocated_ok (hb : b + 2 ≤ 65535) : h.setLeftAllocated b v =
    .ok { h with kmem := setWord16 h.kmem b (word16 h.kmem b / 2 * 2 + v) } := by
  unfold Kheap.setLeftAllocated
  rw [read_ok hb]
  exact write_ok hb

lemma copyHeaderToFooter_ok (hb : b + 2 ≤ 65535) (h2 : 2 ≤ b + sizeBits (word16 h.kmem b))
    (hend : b + sizeBits (word16 h.kmem b) ≤ 65535) : copyHeaderToFooter h b =
    .ok { h with kmem := setWord16 h.kmem (b + sizeBits (word16 h.kmem b) - 2) (word16 h.kmem b) } := by
  rw [copyHeaderToFooter, read_ok hb, ok_bind, back_ok h2, ok_bind]
  exact write_ok (by omega)

lemma insertIntoFreeList_ok (hb : b + 6 ≤ 65535) : insertIntoFreeList addr h b =
    .ok { h with
      kmem := setWord16 h.kmem (b + 4) (blockIdx addr h.freelist), freelist := some b } :=
  write_ok (by omega)

lemma setWord16_outside {m : Nat → Nat} {x : Nat} (hx : x < a ∨ a + 2 ≤ x) :
    setWord16 m a v x = m x := setWord16_of_ne (by omega) (by omega)

/-- The header of `b` has become `w`, and nothing else has changed. -/
structure HeaderSet (m m' : Nat → Nat) (b w : Nat) : Prop where
  header : word16 m' b = w
  other : ∀ x, (x < b ∨ b + 2 ≤ x) → m' x = m x

section Setters

variable {m m₁ m₂ : Nat → Nat} {c w w' : Nat}

lemma HeaderSet.word (hs : HeaderSet m m₁ b w) (hc : c + 2 ≤ b ∨ b + 2 ≤ c) : word16 m₁ c = word16 m c :=
  word16_congr (hs.other c (by omega)) (hs.other (c + 1) (by omega))

lemma HeaderSet.trans (h₁ : HeaderSet m m₁ b w) (h₂ : HeaderSet m₁ m₂ b w') : HeaderSet m m₂ b w' :=
  ⟨h₂.header, fun x hx => (h₂.other x hx).trans (h₁.other x hx)⟩

lemma headerSet_setWord16 (hw : w < 65536) : HeaderSet m (setWord16 m b w) b w where
  header := by rw [word16_setWord16_self, Nat.mod_eq_of_lt hw]
  other _ hx := setWord16_outside hx

lemma setSize_spec (h : Kheap) (v : Nat) (hb : b + 2 ≤ 65535) : ∃ m', h.setSize b v = .ok { h with kmem := m' } ∧
    HeaderSet h.kmem m' b (v % 65536 / 4 * 4 + word16 h.kmem b % 4) := by
  refine ⟨_, ?_, headerSet_setWord16 (by omega)⟩
  unfold Kheap.setSize
  rw [read_ok hb]
  exact write_ok hb

lemma setAllocated_spec (h : Kheap) (hv : v ≤ 1) (hb : b + 2 ≤ 65535) :
    ∃ m', h.setAllocated b v = .ok { h with kmem := m' } ∧
      HeaderSet h.kmem m' b (word16 h.kmem b / 4 * 4 + 2 * v + word16 h.kmem b % 2) := by
  have hlt : word16 h.kmem b < 65536 := word16_lt
  refine ⟨_, ?_, headerSet_setWord16 (by omega)⟩
  unfold Kheap.setAllocated
  rw [read_ok hb]
  exact write_ok hb

lemma setLeftAllocated_spec (h : Kheap) (hv : v ≤ 1) (hb : b + 2 ≤ 65535) :
    ∃ m', h.setLeftAllocated b v = .ok { h with kmem := m' } ∧
      HeaderSet h.kmem m' b (word16 h.kmem b / 2 * 2 + v) := by
  have hlt : word16 h.kmem b < 65536 := word16_lt
  exact ⟨_, setLeftAllocated_ok hb, headerSet_setWord16 (by omega)⟩

end Setters

lemma blockIdx_lt (addr : Nat) (p : Option Nat) : blockIdx addr p < 65536 := by
  cases p with
  | none => exact Nat.mod_lt _ (by decide)
  | some b => exact Nat.mod_lt _ (by decide)

/-- The words after a block `b` of `size` bytes has got its footer and has been inserted into a free
list with index `idx`. -/
structure InsertedWords (m m' : Nat → Nat) (b size idx : Nat) : Prop where
  header : word16 m' b = word16 m b
  footer : word16 m' (b + size - 2) = word16 m b
  next : word16 m' (b + 4) = idx
  other : ∀ x, (x < b + 4 ∨ b + 6 ≤ x) → (x < b + size - 2 ∨ b + size ≤ x) → m' x = m x

/-- The end that `place` and `coalesce` share. -/
lemma copyHeaderToFooter_insert_ok (addr : Nat) (hsize : sizeBits (word16 h.kmem b) = size) (h8 : 8 ≤ size)
    (hend : b + size ≤ 65532) :
    ∃ m1 m', copyHeaderToFooter h b = .ok { h with kmem := m1 } ∧
      insertIntoFreeList addr { h with kmem := m1 } b = .ok { h with kmem := m', freelist := some b } ∧
      InsertedWords h.kmem m' b size (blockIdx addr h.freelist) := by
  have hidx := blockIdx_lt addr h.freelist
  have hlt : word16 h.kmem b < 65536 := word16_lt
  refine ⟨_, _, copyHeaderToFooter_ok (by omega) (by omega) (by omega), insertIntoFreeList_ok (by omega), ?_⟩
  rw [hsize]
  dsimp only
  refine ⟨?_, ?_, ?_, fun x h2 h3 => ?_⟩
  · rw [word16_setWord16_of_apart (by omega), word16_setWord16_of_apart (by omega)]
  · rw [word16_setWord16_of_apart (by omega), word16_setWord16_self]
    omega
  · rw [word16_setWord16_self]
    omega
  · rw [setWord16_outside h2, setWord16_outside (by omega)]

section Unlink

/-- The bytes after `remove_from_free_list`, as long as the links of `b` survive the first write. -/
def unlinkedMem (m : Nat → Nat) (b : Nat) : Nat → Nat :=
  let m1 := if word16 m (b + 2) = 0 then m
    else setWord16 m (word16 m (b + 2) + 4) (word16 m (b + 4))
  if word16 m (b + 4) = 0 then m1 else setWord16 m1 (word16 m (b + 4) + 2) (word16 m (b + 2))

def unlinkedHead (h : Kheap) (b : Nat) : Option Nat :=
  if word16 h.kmem (b + 2) = 0 then
    if word16 h.kmem (b + 4) = 0 then none else some (word16 h.kmem (b + 4))
  else h.freelist

def unlinked (h : Kheap) (b : Nat) : Kheap :=
  { h with kmem := unlinkedMem h.kmem b, freelist := unlinkedHead h b }

/-- The two writes of an unlink stay in `kmem`, and the first leaves the links of `b` alone. -/
structure UnlinkFits (m : Nat → Nat) (b : Nat) : Prop where
  block : b + 6 ≤ 65535
  prev : word16 m (b + 2) = 0 ∨ word16 m (b + 2) + 6 ≤ 65535 ∧
    (word16 m (b + 2) = b ∨ word16 m (b + 2) + 4 ≤ b ∨ b + 2 ≤ word16 m (b + 2))
  next : word16 m (b + 4) = 0 ∨ word16 m (b + 4) + 4 ≤ 65535

lemma removeFromFreeList_ok (hf : UnlinkFits h.kmem b) :
    removeFromFreeList h b = .ok (unlinked h b) := by
  have hb := hf.block
  have hr : ∀ h' : Kheap, h'.read (b + 2) = .ok (word16 h'.kmem (b + 2)) := fun _ => read_ok (by omega)
  have hr' : ∀ h' : Kheap, h'.read (b + 4) = .ok (word16 h'.kmem (b + 4)) := fun _ => read_ok (by omega)
  have hnext := hf.next
  unfold removeFromFreeList unlinked unlinkedMem unlinkedHead
  by_cases hp : word16 h.kmem (b + 2) = 0
  · by_cases hn : word16 h.kmem (b + 4) = 0
    · simp only [bind, Except.bind, pure, Except.pure, hr, hr', hp, hn, if_true, ne_eq, not_true_eq_false,
        if_false]
    · simp only [bind, Except.bind, pure, Except.pure, hr, hr', hp, hn, if_true, if_false, ne_eq,
        not_false_eq_true]
      exact write_ok (by omega)
  · obtain ⟨hfit, hapart⟩ := hf.prev.resolve_left hp
    have hlt : word16 h.kmem (b + 4) < 65536 := word16_lt
    have hkeep : word16 (setWord16 h.kmem (word16 h.kmem (b + 2) + 4) (word16 h.kmem (b + 4))) (b + 4) =
        word16 h.kmem (b + 4) := by
      rcases hapart with heq | hapart
      · rw [heq, word16_setWord16_self]
        omega
      · exact word16_setWord16_of_apart (by omega)
    have hkeep' : word16 (setWord16 h.kmem (word16 h.kmem (b + 2) + 4) (word16 h.kmem (b + 4))) (b + 2) =
        word16 h.kmem (b + 2) := word16_setWord16_of_apart (by omega)
    have hw := write_ok (h := h) (v := word16 h.kmem (b + 4)) (a := word16 h.kmem (b + 2) + 4) (by omega)
    simp only [bind, Except.bind, pure, Except.pure, hr, hr', hp, hw, hkeep, hkeep', if_false]
    by_cases hn : word16 h.kmem (b + 4) = 0
    · rw [if_neg (not_not.mpr hn), if_pos hn]
    · rw [if_pos hn, if_neg hn]
      exact write_ok (by omega)

end Unlink

section Place

/-- The words after a split of the block `b` of `size` bytes for `n` bytes, and the free list's
index `idx` before it. -/
structure SplitWords (m m' : Nat → Nat) (b size n idx : Nat) : Prop where
  right : sizeBits (word16 m' (b + size - n)) = n / 4 * 4 ∧
    leftAllocated (word16 m' (b + size - n)) = 0
  header : word16 m' b = (size - n) / 4 * 4 + word16 m b % 2
  footer : word16 m' (b + (size - n) / 4 * 4 - 2) = (size - n) / 4 * 4 + word16 m b % 2
  next : word16 m' (b + 4) = idx
  other : ∀ x, (x < b ∨ b + 2 ≤ x) → (x < b + 4 ∨ b + 6 ≤ x) →
    (x < b + (size - n) / 4 * 4 - 2 ∨ b + (size - n) / 4 * 4 ≤ x) →
    (x < b + size - n ∨ b + size - n + 2 ≤ x) → m' x = m x

lemma splitBlock_ok (addr : Nat) (hsize : sizeBits (word16 h.kmem b) = size) (hn : 6 ≤ n) (hfit : n + 8 ≤ size)
    (hend : b + size ≤ 65532) : ∃ m', splitBlock addr h b size n =
      .ok (b + size - n, { h with kmem := m', freelist := some b }) ∧
      SplitWords h.kmem m' b size n (blockIdx addr h.freelist) := by
  have h4 : size % 4 = 0 := by
    unfold sizeBits at hsize
    omega
  have hw0 : word16 h.kmem b < 65536 := word16_lt
  -- the header of the allocated block, then the one of the rest
  obtain ⟨m1, hrun1, hset1⟩ := setSize_spec h n (b := b + size - n) (by omega)
  obtain ⟨m2, hrun2, hset2⟩ :=
    setLeftAllocated_spec { h with kmem := m1 } (Nat.zero_le 1) (b := b + size - n) (by omega)
  have hright := hset1.trans hset2
  obtain ⟨m3, hrun3, hset3⟩ := setSize_spec { h with kmem := m2 } ((size + (2 ^ 64 - n)) % 2 ^ 64) (b := b) (by omega)
  obtain ⟨m4, hrun4, hset4⟩ := setAllocated_spec { h with kmem := m3 } (Nat.zero_le 1) (b := b) (by omega)
  have hrest := hset3.trans hset4
  have hb2 : word16 m2 b = word16 h.kmem b := hright.word (by omega)
  have hw1 : word16 m1 (b + size - n) = n / 4 * 4 + word16 h.kmem (b + size - n) % 4 := by
    rw [hset1.header, Nat.mod_eq_of_lt (by omega)]
  have hw3 : word16 m3 b = (size - n) / 4 * 4 + word16 h.kmem b % 4 := by
    rw [hset3.header, hb2]
    omega
  have hw4 : word16 m4 b = (size - n) / 4 * 4 + word16 h.kmem b % 2 := by
    rw [hset4.header, hw3]
    omega
  have hs4 : sizeBits (word16 m4 b) = (size - n) / 4 * 4 := by
    rw [hw4]
    unfold sizeBits
    omega
  obtain ⟨m5, m', hcopy, hinsert, hw⟩ := copyHeaderToFooter_insert_ok (h := { h with kmem := m4 }) addr hs4
    (by omega) (by omega)
  dsimp only at hcopy hinsert hw
  refine ⟨m', ?_, ?_, hw.header.trans hw4, hw.footer.trans hw4, hw.next, ?_⟩
  · rw [splitBlock, back_ok (by omega), ok_bind, hrun1, ok_bind, hrun2, ok_bind, read_ok (by omega), ok_bind]
    dsimp only
    rw [hb2, hsize, hrun3, ok_bind, hrun4, ok_bind, hcopy, ok_bind, hinsert]
    rfl
  · have hkeep : word16 m' (b + size - n) = word16 m4 (b + size - n) :=
      word16_congr (hw.other _ (by omega) (by omega)) (hw.other _ (by omega) (by omega))
    rw [hkeep, hrest.word (by omega), hset2.header, hw1]
    unfold sizeBits leftAllocated
    omega
  · intro x h1 h2 h3 h5
    exact (hw.other x h2 h3).trans ((hrest.other x h1).trans (hright.other x h5))

lemma takeBlock_ok (hb : b + 2 ≤ 65535) : ∃ m', takeBlock h b = .ok (b, { h with kmem := m' }) ∧
    HeaderSet h.kmem m' b (word16 h.kmem b / 2 * 2 + 1) := by
  have hw0 : word16 h.kmem b < 65536 := word16_lt
  obtain ⟨m1, hrun1, hset1⟩ := setSize_spec h (sizeBits (word16 h.kmem b)) hb
  obtain ⟨m2, hrun2, hset2⟩ := setLeftAllocated_spec { h with kmem := m1 } (Nat.le_refl 1) hb
  have hw1 : word16 m1 b = word16 h.kmem b := by
    rw [hset1.header]
    unfold sizeBits
    omega
  dsimp only at hset2
  rw [hw1] at hset2
  refine ⟨m2, ?_, hset1.trans hset2⟩
  rw [takeBlock, read_ok hb, ok_bind, hrun1, ok_bind, hrun2]
  rfl

lemma markAllocated_ok (ha : a + 2 ≤ 65535) (h4 : 4 ≤ sizeBits (word16 h.kmem a))
    (hr : a + sizeBits (word16 h.kmem a) + 2 ≤ 65535) : ∃ m', markAllocated h a = .ok
      { h with kmem := m',
               bytesAllocated := (h.bytesAllocated + sizeBits (word16 h.kmem a)) % 65536 } ∧
    word16 m' a = sizeBits (word16 h.kmem a) + 2 + leftAllocated (word16 h.kmem a) ∧
    word16 m' (a + sizeBits (word16 h.kmem a)) =
      word16 h.kmem (a + sizeBits (word16 h.kmem a)) / 2 * 2 + 1 ∧
    ∀ x, (x < a ∨ a + 2 ≤ x) → (x < a + sizeBits (word16 h.kmem a) ∨
      a + sizeBits (word16 h.kmem a) + 2 ≤ x) → m' x = h.kmem x := by
  obtain ⟨m1, hrun1, hset1⟩ := setAllocated_spec h (Nat.le_refl 1) ha
  have hw1 : word16 m1 a = sizeBits (word16 h.kmem a) + 2 + leftAllocated (word16 h.kmem a) := by
    rw [hset1.header]
    unfold sizeBits leftAllocated
    omega
  have hs1 : sizeBits (word16 m1 a) = sizeBits (word16 h.kmem a) := by
    rw [hw1]
    unfold sizeBits leftAllocated
    omega
  obtain ⟨m2, hrun2, hset2⟩ := setLeftAllocated_spec { h with kmem := m1 } (Nat.le_refl 1) hr
  have hw2 : word16 m2 a = word16 m1 a := hset2.word (by omega)
  refine ⟨m2, ?_, hw2.trans hw1, ?_, ?_⟩
  · rw [markAllocated, hrun1, ok_bind, read_ok ha, ok_bind]
    dsimp only
    rw [hs1, hrun2, ok_bind, read_ok ha, ok_bind]
    dsimp only
    rw [hw2, hs1]
    rfl
  · rw [hset2.header, hset1.word (by omega)]
  · intro x hx hx'
    exact (hset2.other x hx').trans (hset1.other x hx)

/-- The words after `place` has split the block `b`, counted from the unlinked block. -/
structure PlacedRight (m m' : Nat → Nat) (b size n idx : Nat) : Prop where
  allocated : word16 m' (b + size - n) = n / 4 * 4 + 2
  header : word16 m' b = (size - n) / 4 * 4 + word16 m b % 2
  footer : word16 m' (b + (size - n) / 4 * 4 - 2) = (size - n) / 4 * 4 + word16 m b % 2
  next : word16 m' (b + 4) = idx
  right : word16 m' (b + size - n + n / 4 * 4) = word16 m (b + size - n + n / 4 * 4) / 2 * 2 + 1
  other : ∀ x, (x < b ∨ b + 2 ≤ x) → (x < b + 4 ∨ b + 6 ≤ x) →
    (x < b + (size - n) / 4 * 4 - 2 ∨ b + (size - n) / 4 * 4 ≤ x) →
    (x < b + size - n ∨ b + size - n + 2 ≤ x) →
    (x < b + size - n + n / 4 * 4 ∨ b + size - n + n / 4 * 4 + 2 ≤ x) → m' x = m x

lemma place_split_ok (addr : Nat) {h1 : Kheap} (hremove : removeFromFreeList h b = .ok h1)
    (hsize : sizeBits (word16 h1.kmem b) = size) (hn : 6 ≤ n) (hfit : n + 8 ≤ size) (hend : b + size ≤ 65532) :
    ∃ h', place addr h b n = .ok (b + size - n, h') ∧ h'.freelist = some b ∧
      h'.bytesAllocated = (h1.bytesAllocated + n / 4 * 4) % 65536 ∧
      PlacedRight h1.kmem h'.kmem b size n (blockIdx addr h1.freelist) := by
  obtain ⟨m1, hsplit, hw⟩ := splitBlock_ok addr hsize hn hfit hend
  obtain ⟨hright, hleft⟩ := hw.right
  have h4 : size % 4 = 0 := by
    unfold sizeBits at hsize
    omega
  have hmark := markAllocated_ok (h := { h1 with kmem := m1, freelist := some b })
    (a := b + size - n) (by omega) (by dsimp only; omega) (by dsimp only; omega)
  dsimp only at hmark
  rw [hright, hleft] at hmark
  obtain ⟨m', hrun, ha, hr, hother⟩ := hmark
  have hkeep : ∀ c, (c + 2 ≤ b + size - n ∨ b + size - n + 2 ≤ c) → c + 2 ≤ b + size - n + n / 4 * 4 →
      word16 m' c = word16 m1 c := by
    intro c h1 h2
    exact word16_congr (hother c (by omega) (by omega)) (hother (c + 1) (by omega) (by omega))
  have hr1 : word16 m1 (b + size - n + n / 4 * 4) = word16 h1.kmem (b + size - n + n / 4 * 4) :=
    word16_congr (hw.other _ (by omega) (by omega) (by omega) (by omega))
      (hw.other _ (by omega) (by omega) (by omega) (by omega))
  refine ⟨{ kmem := m', freelist := some b,
            bytesAllocated := (h1.bytesAllocated + n / 4 * 4) % 65536 }, ?_, rfl, rfl, ha, ?_, ?_, ?_, ?_, ?_⟩
  · rw [place, hremove, ok_bind, read_ok (by omega), ok_bind, if_pos (by omega), hsize, hsplit, ok_bind]
    dsimp only
    rw [hrun]
    rfl
  · rw [hkeep b (by omega) (by omega), hw.header]
  · rw [hkeep _ (by omega) (by omega), hw.footer]
  · rw [hkeep _ (by omega) (by omega), hw.next]
  · rw [hr, hr1]
  · intro x h1 h2 h3 h5 h6
    exact (hother x h5 h6).trans (hw.other x h1 h2 h3 h5)

/-- The words after `place` has taken the block `b` whole. -/
structure PlacedWhole (m m' : Nat → Nat) (b size : Nat) : Prop where
  header : word16 m' b = size + 3
  right : word16 m' (b + size) = word16 m (b + size) / 2 * 2 + 1
  other : ∀ x, (x < b ∨ b + 2 ≤ x) → (x < b + size ∨ b + size + 2 ≤ x) → m' x = m x

lemma place_take_ok (addr : Nat) {h1 : Kheap} (hremove : removeFromFreeList h b = .ok h1)
    (hsize : sizeBits (word16 h1.kmem b) = size) (hn : n + 2 ≤ size) (h8 : size < n + 8) (h4 : 4 ≤ size)
    (hend : b + size ≤ 65532) : ∃ h', place addr h b n = .ok (b, h') ∧ h'.freelist = h1.freelist ∧
      h'.bytesAllocated = (h1.bytesAllocated + size) % 65536 ∧ PlacedWhole h1.kmem h'.kmem b size := by
  obtain ⟨m1, htake, hset⟩ := takeBlock_ok (h := h1) (b := b) (by omega)
  have hs1 : sizeBits (word16 m1 b) = size ∧ leftAllocated (word16 m1 b) = 1 := by
    rw [hset.header]
    unfold sizeBits leftAllocated at *
    omega
  have hmark := markAllocated_ok (h := { h1 with kmem := m1 }) (a := b) (by omega)
    (by dsimp only; omega) (by dsimp only; omega)
  dsimp only at hmark
  rw [hs1.1, hs1.2] at hmark
  obtain ⟨m', hrun, ha, hr, hother⟩ := hmark
  have hr1 : word16 m1 (b + size) = word16 h1.kmem (b + size) := hset.word (by omega)
  refine ⟨{ kmem := m', freelist := h1.freelist,
            bytesAllocated := (h1.bytesAllocated + size) % 65536 }, ?_, rfl, rfl, ha, ?_, ?_⟩
  · rw [place, hremove, ok_bind, read_ok (by omega), ok_bind, if_neg (by omega), htake, ok_bind]
    dsimp only
    rw [hrun]
    rfl
  · rw [hr, hr1]
  · intro x h1 h2
    exact (hother x h1 h2).trans (hset.other x h1)

end Place

section CreateFree

/-- The words after `createFreeBlock`. -/
structure FreeWords (m m' : Nat → Nat) (b size idx : Nat) : Prop where
  header : word16 m' b = size + 1
  footer : word16 m' (b + size - 2) = size + 1
  next : word16 m' (b + 4) = idx
  other : ∀ x, (x < b ∨ b + 2 ≤ x) → (x < b + 4 ∨ b + 6 ≤ x) →
    (x < b + size - 2 ∨ b + size ≤ x) → m' x = m x

lemma createFreeBlock_ok (addr : Nat) (h4 : size % 4 = 0) (h8 : 8 ≤ size) (hend : b + size ≤ 65532) :
    ∃ m', createFreeBlock addr h b size = .ok { h with kmem := m', freelist := some b } ∧
      FreeWords h.kmem m' b size (blockIdx addr h.freelist) := by
  obtain ⟨m1, hrun1, hset1⟩ := setSize_spec h size (b := b) (by omega)
  obtain ⟨m2, hrun2, hset2⟩ := setAllocated_spec { h with kmem := m1 } (Nat.zero_le 1) (b := b) (by omega)
  obtain ⟨m3, hrun3, hset3⟩ := setLeftAllocated_spec { h with kmem := m2 } (Nat.le_refl 1) (b := b) (by omega)
  have hset := (hset1.trans hset2).trans hset3
  have hw3 : word16 m3 b = size + 1 := by
    rw [hset3.header, hset2.header, hset1.header]
    omega
  have hs3 : sizeBits (word16 m3 b) = size := by
    rw [hw3]
    unfold sizeBits
    omega
  obtain ⟨m4, m', hcopy, hinsert, hw⟩ := copyHeaderToFooter_insert_ok (h := { h with kmem := m3 }) addr hs3 h8 hend
  dsimp only at hcopy hinsert hw
  refine ⟨m', ?_, hw.header.trans hw3, hw.footer.trans hw3, hw.next, ?_⟩
  · rw [createFreeBlock, hrun1, ok_bind, hrun2, ok_bind, hrun3, ok_bind, hcopy, ok_bind]
    exact hinsert
  · intro x h1 h2 h3
    exact (hw.other x h2 h3).trans (hset.other x h1)

end CreateFree

section Coalesce

lemma coalesceLeft_merge (hb : b + 2 ≤ 65535) (h2 : 2 ≤ b) (hla : leftAllocated (word16 h.kmem b) = 0)
    (hle : sizeBits (word16 h.kmem (b - 2)) ≤ b)
    (hf : UnlinkFits h.kmem (b - sizeBits (word16 h.kmem (b - 2)))) :
    coalesceLeft h b size = .ok (b - sizeBits (word16 h.kmem (b - 2)),
      (size + sizeBits (word16 h.kmem (b - 2))) % 65536,
      unlinked h (b - sizeBits (word16 h.kmem (b - 2)))) := by
  rw [coalesceLeft, read_ok hb, ok_bind, if_pos hla, back_ok h2, ok_bind, read_ok (by omega), ok_bind]
  dsimp only
  rw [back_ok hle, ok_bind, removeFromFreeList_ok hf]
  rfl

lemma coalesceLeft_keep (hb : b + 2 ≤ 65535) (hla : leftAllocated (word16 h.kmem b) ≠ 0) :
    coalesceLeft h b size = .ok (b, size, h) := by
  rw [coalesceLeft, read_ok hb, ok_bind, if_neg hla]
  rfl

lemma coalesceRight_merge (hb : b + 2 ≤ 65535) (hal : allocated (word16 h.kmem b) = 0)
    (hf : UnlinkFits h.kmem b) : coalesceRight h b size =
      .ok ((size + sizeBits (word16 h.kmem b)) % 65536, unlinked h b) := by
  rw [coalesceRight, read_ok hb, ok_bind, if_pos hal, removeFromFreeList_ok hf]
  rfl

lemma coalesceRight_keep (hb : b + 2 ≤ 65535) (hal : allocated (word16 h.kmem b) ≠ 0) :
    coalesceRight h b size =
      .ok (size, { h with kmem := setWord16 h.kmem b (word16 h.kmem b / 2 * 2 + 0) }) := by
  rw [coalesceRight, read_ok hb, ok_bind, if_neg hal, setLeftAllocated_ok hb]
  rfl

lemma coalesce_ok (addr : Nat) {c size' : Nat} {h1 : Kheap} (hb : b + 2 ≤ 65535)
    (hsize : sizeBits (word16 h.kmem b) = size) (hleft : coalesceLeft h b size = .ok (c, size', h1)) :
    coalesce addr h b = coalesceRight h1 (b + size) size' >>= fun r => createFreeBlock addr r.2 c r.1 := by
  rw [coalesce, read_ok hb, ok_bind]
  dsimp only
  rw [ok_bind, hsize, hleft, ok_bind]

lemma kfree_ok (addr : Nat) (hb : b + 2 ≤ 65535) : kfree addr h (some (b + 2)) = coalesce addr
    { h with bytesAllocated := (h.bytesAllocated + (65536 - sizeBits (word16 h.kmem b))) % 65536 } b := by
  rw [kfree, back_ok (by omega), ok_bind, Nat.add_sub_cancel, read_ok hb, ok_bind]

end Coalesce

section Search

variable {need cur : Nat}

/-! A round of the search, by what it finds. -/

lemma findSuitable_of_fit (fuel : Nat) (hin : cur + 2 ≤ 65535) (hfit : need ≤ sizeBits (word16 h.kmem cur)) :
    findSuitable (fuel + 1) h need cur = .ok (some cur) := by
  rw [findSuitable, read_ok hin, ok_bind, if_pos hfit]
  rfl

lemma findSuitable_of_zero (fuel : Nat) (hfit : ¬need ≤ sizeBits (word16 h.kmem 0)) :
    findSuitable (fuel + 1) h need 0 = .ok none := by
  rw [findSuitable, read_ok (by decide), ok_bind, if_neg hfit]
  rfl

lemma findSuitable_of_link (fuel : Nat) (hin : cur + 6 ≤ 65535) (hfit : ¬need ≤ sizeBits (word16 h.kmem cur))
    (h0 : cur ≠ 0) : findSuitable (fuel + 1) h need cur = findSuitable fuel h need (word16 h.kmem (cur + 4)) := by
  rw [findSuitable, read_ok (by omega), ok_bind, if_neg hfit, if_neg h0, read_ok (by omega), ok_bind]

end Search

section Kmalloc

variable {n head cur : Nat} {h : Kheap} (addr : Nat) (hgood : ¬(n = 0 ∨ maxAlloc < n))
  (hhead : h.freelist = some head) (hread : h.read (head + 4) = .ok cur)

include hgood hhead hread

lemma kmalloc_of_search {found : Option Nat} (hfind : findSuitable 65536 h (roundSize n + 2) cur = .ok found) :
    kmalloc addr h n = found.elim (.ok (none, h)) fun b =>
      (place addr h b (roundSize n)).bind fun (a, h') => .ok (some (a + 2), h') := by
  unfold kmalloc
  rw [if_neg hgood, hhead]
  dsimp only
  rw [hread, ok_bind, hfind, ok_bind]
  cases found <;> rfl

end Kmalloc

end JavaScriptOS.Heap
