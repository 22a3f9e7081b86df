import JavaScriptOS.Lib.ByteStack

/-!
# 64-bit words in a byte memory

Words lie at any address, as eight bytes. Two places are told apart by their distances from a common base.
-/

namespace JavaScriptOS.Lib

def load64 (m : Memory) (a : BitVec 64) : BitVec 64 := wordOf 64 (readBytes m a 8)

def store64 (m : Memory) (a v : BitVec 64) : Memory := writeBytes m a (bytesOf 8 v)

variable {m : Memory} {a b v : BitVec 64} {l : List (BitVec 8)} {i k : Nat}

@[simp] lemma length_readBytes (m : Memory) (a : BitVec 64) (k : Nat) : (readBytes m a k).length = k := by
  simp [readBytes]

lemma holds_readBytes (m : Memory) (a : BitVec 64) (k : Nat) : Holds m a (readBytes m a k) := by
  intro i hi
  simp [readBytes]

lemma Holds.readBytes_eq (h : Holds m a l) : readBytes m a l.length = l := by
  apply Holds.read_append
  rw [List.append_nil]
  exact h

lemma load64_of_holds (h : Holds m a (bytesOf 8 v)) : load64 m a = v := by
  have hread := h.readBytes_eq
  rw [length_bytesOf] at hread
  rw [load64, hread, wordOf_bytesOf_eight]

@[simp] lemma load64_store64_self (m : Memory) (a v : BitVec 64) : load64 (store64 m a v) a = v :=
  load64_of_holds (holds_writeBytes m a (by simp))

/-- A word is not changed by what is written beside it. -/
lemma load64_writeBytes_of_apart (hi : i + 8 ≤ 2 ^ 64) (hk : k + l.length ≤ 2 ^ 64)
    (h : i + 8 ≤ k ∨ k + l.length ≤ i) :
    load64 (writeBytes m (b + BitVec.ofNat 64 k) l) (b + BitVec.ofNat 64 i) = load64 m (b + BitVec.ofNat 64 i) := by
  have hkept : Holds (writeBytes m (b + BitVec.ofNat 64 k) l) (b + BitVec.ofNat 64 i)
      (readBytes m (b + BitVec.ofNat 64 i) 8) := by
    apply (holds_writeBytes_iff hk _ _).mpr (holds_readBytes _ _ _)
    · rwa [length_readBytes]
    · rwa [length_readBytes]
  have hread := hkept.readBytes_eq
  rw [length_readBytes] at hread
  rw [load64, hread, load64]

lemma writeBytes_apply_of_apart (hi : i < 2 ^ 64) (hk : k + l.length ≤ 2 ^ 64) (h : i < k ∨ k + l.length ≤ i) :
    writeBytes m (b + BitVec.ofNat 64 k) l (b + BitVec.ofNat 64 i) = m (b + BitVec.ofNat 64 i) := by
  have hold : Holds m (b + BitVec.ofNat 64 i) [m (b + BitVec.ofNat 64 i)] := by
    intro j hj
    obtain rfl : j = 0 := by simpa using hj
    simp
  have hkept := (holds_writeBytes_iff (m := m) (a := b) hk (by simp; omega) (by simp; omega)).mpr hold 0 (by simp)
  simpa using hkept

lemma load64_store64_of_apart (hi : i + 8 ≤ 2 ^ 64) (hk : k + 8 ≤ 2 ^ 64) (h : i + 8 ≤ k ∨ k + 8 ≤ i) :
    load64 (store64 m (b + BitVec.ofNat 64 k) v) (b + BitVec.ofNat 64 i) = load64 m (b + BitVec.ofNat 64 i) := by
  apply load64_writeBytes_of_apart hi
  · rwa [length_bytesOf]
  · rwa [length_bytesOf]

lemma ofNat_add_offset (b : BitVec 64) (i j : Nat) :
    b + BitVec.ofNat 64 i + BitVec.ofNat 64 j = b + BitVec.ofNat 64 (i + j) := by
  rw [BitVec.add_assoc, ← BitVec.ofNat_add]

end JavaScriptOS.Lib
