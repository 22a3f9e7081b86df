import JavaScriptOS.Lib.BitField
import JavaScriptOS.Memory.Pmm

/-!
# Address windows, page-table entries and the hardware walk

The processor reads a table as 512 words of eight bytes. The code has another picture of it: `pte_t` is a
packed union around a struct that is not packed, so the compiler gives the struct its usual padding. `addr`,
of type `u32`, may not cross the boundary of four bytes that follows `layer` and starts behind it, and the
fields after `addr` go into four bytes more. An entry of the code takes 12 bytes and a table 6144.
-/

namespace JavaScriptOS.Memory
open JavaScriptOS.Lib

def kvaKernelBegin : Nat := 0xFFFFFFFF80000000

def vaPmapBegin : Nat := 0xFFFF880000000000

def phystop : Nat := 0x40000000

/-- `KV2P`, in 64-bit arithmetic. -/
def kv2p (a : Nat) : Nat := (a + (2 ^ 64 - kvaKernelBegin)) % 2 ^ 64

/-- `P2KV`, in 64-bit arithmetic. -/
def p2kv (a : Nat) : Nat := (a + kvaKernelBegin) % 2 ^ 64

/-- `PGROUNDDOWN`. -/
def pgRoundDown (a : Nat) : Nat := a / pgsize * pgsize

section VirtualAddress

/-! The fields of `va_4k`. -/

def vaPti (w : Nat) : Nat := bitField w 12 9

def vaPdi (w : Nat) : Nat := bitField w 21 9

def vaPdpti (w : Nat) : Nat := bitField w 30 9

def vaPml4i (w : Nat) : Nat := bitField w 39 9

end VirtualAddress

section Dwords

/-! Memory is a map from the multiples of 8 to words. The code also reads and writes the halves of a word. -/

/-- The four bytes at a multiple of 4. -/
def dword (m : Nat → Nat) (a : Nat) : Nat := bitField (m (a / 8 * 8)) (a / 4 % 2 * 32) 32

def setDword (m : Nat → Nat) (a v : Nat) : Nat → Nat :=
  Function.update m (a / 8 * 8) (setBitField (m (a / 8 * 8)) (a / 4 % 2 * 32) 32 v)

variable {m : Nat → Nat} {a b v x : Nat}

lemma dword_setDword_self : dword (setDword m a v) a = v % 2 ^ 32 := by
  rw [dword, setDword, Function.update_self, bitField_setBitField]

lemma dword_setDword_of_ne (h : b / 4 ≠ a / 4) : dword (setDword m a v) b = dword m b := by
  unfold dword setDword
  by_cases hword : b / 8 * 8 = a / 8 * 8
  · -- the two halves of one word
    rw [hword, Function.update_self]
    have hhalves : b / 4 % 2 = 1 ∧ a / 4 % 2 = 0 ∨ b / 4 % 2 = 0 ∧ a / 4 % 2 = 1 := by omega
    rcases hhalves with ⟨hb, ha⟩ | ⟨hb, ha⟩
    · rw [hb, ha, bitField_setBitField_above (by omega)]
    · rw [hb, ha, bitField_setBitField_below (by omega)]
  · rw [Function.update_of_ne hword]

lemma setDword_of_ne (h : x ≠ a / 8 * 8) : setDword m a v x = m x := Function.update_of_ne h _ _

/-- The low bits of a word are those of its first half. -/
lemma bitField_dword {lo width : Nat} (hx : 8 ∣ x) (h : lo + width ≤ 32) :
    bitField (dword m x) lo width = bitField (m x) lo width := by
  have hword : x / 8 * 8 = x := Nat.div_mul_cancel hx
  have hhalf : x / 4 % 2 * 32 = 0 := by
    obtain ⟨k, rfl⟩ := hx
    omega
  have hmod : dword m x = m x % 2 ^ 32 := by
    rw [dword, hword, hhalf, bitField, Nat.pow_zero, Nat.div_one]
  rw [hmod, bitField_mod h]

end Dwords

section Entry

/-! The flags are at the same place in a word of the processor and in the first four bytes of a `pte_t`. -/

def pteP (e : Nat) : Nat := bitField e 0 1

def pteW (e : Nat) : Nat := bitField e 1 1

def pteU (e : Nat) : Nat := bitField e 2 1

def pteLarge (e : Nat) : Nat := bitField e 7 1

def pteLayer (e : Nat) : Nat := bitField e 9 3

/-- `sizeof(pte_t)`. -/
def pteSize : Nat := 12

/-- `PTE_ADDR`: the 28-bit field `addr`, in the second four bytes of the entry, shifted. -/
def pteAddr (m : Nat → Nat) (pte : Nat) : Nat := bitField (dword m (pte + 4)) 0 28 * 4096

/-- `PA_TO_PTE_ADDR`, with the cast to `u32`. -/
def paToPteAddr (pa : Nat) : Nat := pa / 4096 % 2 ^ 32

/-- `KVA_TO_PTE_ADDR`. -/
def kvaToPteAddr (a : Nat) : Nat := paToPteAddr (kv2p a)

/-- Assignment of an entry built from the designated initialisers `p`, `w`, `large` and `addr`. -/
def storePte (m : Nat → Nat) (pte large addr : Nat) : Nat → Nat :=
  let m := setDword m pte (setBitField (setBitField (setBitField 0 0 1 1) 1 1 1) 7 1 large)
  let m := setDword m (pte + 4) (addr % 2 ^ 28)
  setDword m (pte + 8) 0

variable {m : Nat → Nat} {pte large addr b x : Nat}

lemma dword_storePte_of_ne (h : b / 4 < pte / 4 ∨ pte / 4 + 2 < b / 4) :
    dword (storePte m pte large addr) b = dword m b := by
  rw [storePte, dword_setDword_of_ne (by omega), dword_setDword_of_ne (by omega), dword_setDword_of_ne (by omega)]

lemma dword_storePte_flags :
    dword (storePte m pte large addr) pte = setBitField (setBitField (setBitField 0 0 1 1) 1 1 1) 7 1 large % 2 ^ 32 := by
  rw [storePte, dword_setDword_of_ne (by omega), dword_setDword_of_ne (by omega), dword_setDword_self]

lemma dword_storePte_addr : dword (storePte m pte large addr) (pte + 4) = addr % 2 ^ 28 := by
  rw [storePte, dword_setDword_of_ne (by omega), dword_setDword_self]
  omega

lemma dword_storePte_rest : dword (storePte m pte large addr) (pte + 8) = 0 := by
  rw [storePte, dword_setDword_self, Nat.zero_mod]

lemma storePte_of_ne (h : x + 8 ≤ pte ∨ pte + 12 ≤ x) (hx : 8 ∣ x) : storePte m pte large addr x = m x := by
  obtain ⟨k, rfl⟩ := hx
  rw [storePte, setDword_of_ne (by omega), setDword_of_ne (by omega), setDword_of_ne (by omega)]

/-- A stored entry is present and leads to the page it was given. -/
lemma pteP_storePte : pteP (dword (storePte m pte large addr) pte) = 1 := by
  rw [dword_storePte_flags, pteP, bitField_mod (by omega), bitField_setBitField_below (by omega),
    bitField_setBitField_below (by omega), bitField_setBitField]
  rfl

lemma pteAddr_storePte : pteAddr (storePte m pte large addr) pte = addr % 2 ^ 28 * 4096 := by
  rw [pteAddr, dword_storePte_addr, bitField, Nat.pow_zero, Nat.div_one, Nat.mod_mod]

end Entry

section Walk

/-- The 52-bit physical page address in an entry or in CR3. -/
def hwFrame (e : Nat) : Nat := bitField e 12 40 * 4096

/-- One access of the walk: entry `i` of the table at physical address `table`, if present. -/
def hwEntry (read : Nat → Option Nat) (table i : Nat) : Option Nat :=
  (read (table + 8 * i)).bind fun e => if pteP e = 1 then some e else none

/-- The 4-level walk by the bits of `a`: the leaf entry and the physical address. -/
def hwWalk (read : Nat → Option Nat) (cr3 a : Nat) : Option (Nat × Nat) :=
  (hwEntry read (hwFrame cr3) (vaPml4i a)).bind fun pml4e =>
  (hwEntry read (hwFrame pml4e) (vaPdpti a)).bind fun pdpte =>
  if pteLarge pdpte = 1 then some (pdpte, bitField pdpte 30 22 * 2 ^ 30 + a % 2 ^ 30) else
  (hwEntry read (hwFrame pdpte) (vaPdi a)).bind fun pde =>
  if pteLarge pde = 1 then some (pde, bitField pde 21 31 * 2 ^ 21 + a % 2 ^ 21) else
  (hwEntry read (hwFrame pde) (vaPti a)).bind fun pte => some (pte, hwFrame pte + a % 4096)

end Walk

/-- Page-aligned addresses of the kernel window. -/
def InWindow (t : Nat) : Prop := 4096 ∣ t ∧ kvaKernelBegin ≤ t ∧ t < 2 ^ 64

lemma InWindow.kv2p_eq {t : Nat} (h : InWindow t) : kv2p t = t - kvaKernelBegin := by
  obtain ⟨-, h1, h2⟩ := h
  unfold kv2p kvaKernelBegin at *
  omega

lemma InWindow.dvd_kv2p {t : Nat} (h : InWindow t) : pgsize ∣ kv2p t := by
  rw [h.kv2p_eq]
  exact Nat.dvd_sub h.1 (by decide)

end JavaScriptOS.Memory
