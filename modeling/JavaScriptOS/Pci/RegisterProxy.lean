import JavaScriptOS.Lib.ByteLanes
import JavaScriptOS.Pci.HostController

/-!
# Register accesses through the configuration ports

`RegisterProxy` of `Device.hpp`, down to the two ports. A write to port `0xCF8` selects a word of
configuration space; port `0xCFC` reads and writes the selected word. What a write does to the word is a
parameter: memory for most registers, and other rules for the registers that have side effects.
-/

namespace JavaScriptOS.Pci
open JavaScriptOS.Lib

/-- `config_space_address`: offset, function, device, bus, reserved and enable, from the lowest bit. -/
structure ConfigSpaceAddress where
  raw : BitVec 32
  deriving DecidableEq

namespace ConfigSpaceAddress

def offset (a : ConfigSpaceAddress) : BitVec 8 := a.raw.extractLsb' 0 8
def function (a : ConfigSpaceAddress) : BitVec 3 := a.raw.extractLsb' 8 3
def device (a : ConfigSpaceAddress) : BitVec 5 := a.raw.extractLsb' 11 5
def bus (a : ConfigSpaceAddress) : BitVec 8 := a.raw.extractLsb' 16 8

/-- The constructor from bus, device and function: offset 0, reserved 0, enable 1. -/
def ofDevice (d : DeviceBase) : ConfigSpaceAddress :=
  ⟨BitVec.ofNat 32 (2 ^ 31 + d.bus * 2 ^ 16 + d.device * 2 ^ 11 + d.function * 2 ^ 8)⟩

def withOffset (a : ConfigSpaceAddress) (offset : BitVec 8) : ConfigSpaceAddress :=
  ⟨putBits a.raw 0 offset⟩

/-- `operator+`. -/
def add (a : ConfigSpaceAddress) (offset : BitVec 8) : ConfigSpaceAddress :=
  a.withOffset (a.offset + (offset &&& ~~~0b11#8))

def target (a : ConfigSpaceAddress) : DeviceBase := ⟨a.bus.toFin, a.device.toFin, a.function.toFin⟩

def dword (a : ConfigSpaceAddress) : Nat := a.offset.toNat / 4

end ConfigSpaceAddress

structure Ports where
  configAddress : ConfigSpaceAddress
  words : ConfigSpace

/-- The new contents of a word, from its old contents and the value written. -/
abbrev WriteRule := DeviceBase → Nat → BitVec 32 → BitVec 32 → BitVec 32

def memoryRule : WriteRule := fun _ _ _ value => value

def addressPort : BitVec 16 := 0xCF8#16
def dataPort : BitVec 16 := 0xCFC#16

abbrev PortM := StateM Ports

def Ports.store (rule : WriteRule) (s : Ports) (value : BitVec 32) : Ports :=
  { s with words := fun d dword =>
      if d = s.configAddress.target ∧ dword = s.configAddress.dword then rule d dword (s.words d dword) value
      else s.words d dword }

def out32 (rule : WriteRule) (port : BitVec 16) (value : BitVec 32) : PortM Unit :=
  modify fun s =>
    if port = addressPort then { s with configAddress := ⟨value⟩ }
    else if port = dataPort then s.store rule value
    else s

def in32 (port : BitVec 16) : PortM (BitVec 32) := do
  let s ← get
  pure (if port = dataPort then s.words s.configAddress.target s.configAddress.dword else s.configAddress.raw)

/-- The sizes of `T` that `write_register` supports. -/
inductive Width where
  | one | two | four
  deriving DecidableEq

def Width.bytes : Width → Nat
  | .one => 1
  | .two => 2
  | .four => 4

abbrev Width.bits (w : Width) : Nat := 8 * w.bytes

structure RegisterProxy (w : Width) where
  base : ConfigSpaceAddress
  offset : BitVec 8

namespace RegisterProxy

variable {w : Width} (rule : WriteRule) (p : RegisterProxy w)

def shift : Nat := (p.offset &&& 0b11#8).toNat * 8

def readRegister : PortM (BitVec 32) := do
  out32 rule addressPort (p.base.add p.offset).raw
  let cur ← in32 dataPort
  pure (cur >>> p.shift)

/-- `write_register8` and `write_register16`, which differ in the mask. -/
def modifyRegister (mask value : BitVec 32) : PortM Unit := do
  out32 rule addressPort (p.base.add p.offset).raw
  let cur ← in32 dataPort
  let cur := cur &&& ~~~(mask <<< p.shift)
  let cur := cur ||| (value <<< p.shift)
  out32 rule dataPort cur

def writeRegister8 (value : BitVec 8) : PortM Unit := p.modifyRegister rule 0xFF#32 (value.setWidth 32)

def writeRegister16 (value : BitVec 16) : PortM Unit := p.modifyRegister rule 0xFFFF#32 (value.setWidth 32)

def writeRegister32 (value : BitVec 32) : PortM Unit := do
  out32 rule addressPort (p.base.add p.offset).raw
  out32 rule dataPort value

def writeRegister {w : Width} (p : RegisterProxy w) (value : BitVec w.bits) : PortM Unit :=
  match w with
  | .one => p.writeRegister8 rule value
  | .two => p.writeRegister16 rule value
  | .four => p.writeRegister32 rule value

/-- `operator T` and `cast`. -/
def cast : PortM (BitVec w.bits) := do
  let value ← p.readRegister rule
  pure (value.setWidth w.bits)

/-- `operator=`. -/
def assign (value : BitVec w.bits) : PortM Unit := p.writeRegister rule value

/-- `operator&=`. -/
def andAssign (value : BitVec 32) : PortM Unit := do
  let cur ← p.readRegister rule
  p.writeRegister rule ((cur &&& value).setWidth w.bits)

/-- `operator->`: the members of a copy are used, and the destructor of the `MemberProxy` writes the copy
back. -/
def arrow (use : BitVec w.bits → BitVec w.bits) : PortM (BitVec w.bits) := do
  let value ← p.cast rule
  p.writeRegister rule (use value)
  pure value

def written {w : Width} (p : RegisterProxy w) (cur : BitVec 32) (value : BitVec w.bits) : BitVec 32 :=
  match w with
  | .one => putBits cur p.shift value
  | .two => putBits cur p.shift value
  | .four => value

lemma readRegister_run (s : Ports) :
    p.readRegister rule s =
      (s.words (p.base.add p.offset).target (p.base.add p.offset).dword >>> p.shift,
        { s with configAddress := p.base.add p.offset }) := rfl

lemma cast_fst (s : Ports) : (p.cast rule s).1 = (p.readRegister rule s).1.setWidth w.bits := rfl

lemma cast_words (s : Ports) : (p.cast rule s).2.words = s.words := rfl

lemma writeRegister_run (value : BitVec w.bits) (s : Ports) :
    p.writeRegister rule value s = ((), ({ s with configAddress := p.base.add p.offset } : Ports).store rule
      (p.written (s.words (p.base.add p.offset).target (p.base.add p.offset).dword) value)) := by
  cases w <;> rfl

lemma andAssign_words (value : BitVec 32) (s : Ports) :
    (p.andAssign rule value s).2.words =
      (p.assign rule (((p.readRegister rule s).1 &&& value).setWidth w.bits) s).2.words := by
  cases w <;> rfl

end RegisterProxy

namespace ConfigSpaceAddress

lemma withOffset_offset (a : ConfigSpaceAddress) (o : BitVec 8) : (a.withOffset o).offset = o := by
  ext i hi
  simp [withOffset, offset, getLsbD_putBits, hi]

lemma withOffset_withOffset (a : ConfigSpaceAddress) (o o' : BitVec 8) :
    (a.withOffset o).withOffset o' = a.withOffset o' := by
  simp only [withOffset, mk.injEq]
  apply BitVec.eq_of_getLsbD_eq
  intro i _
  rw [getLsbD_putBits _ _ (by omega), getLsbD_putBits _ _ (by omega), getLsbD_putBits _ _ (by omega)]
  split <;> rfl

lemma withOffset_target (a : ConfigSpaceAddress) (o : BitVec 8) : (a.withOffset o).target = a.target := by
  have hfield : ∀ lo n, 8 ≤ lo → (a.withOffset o).raw.extractLsb' lo n = a.raw.extractLsb' lo n := by
    intro lo n hlo
    ext i hi
    simp [withOffset, getLsbD_putBits, show ¬lo + i < 8 by omega]
  simp only [target, bus, device, function]
  rw [hfield 16 8 (by omega), hfield 11 5 (by omega), hfield 8 3 (by omega)]

lemma ofDevice_target (d : DeviceBase) : (ofDevice d).target = d := by
  have hbus := d.bus.isLt
  have hdevice := d.device.isLt
  have hfunction := d.function.isLt
  obtain ⟨bus, device, function⟩ := d
  simp only [target, ConfigSpaceAddress.bus, ConfigSpaceAddress.device, ConfigSpaceAddress.function, ofDevice,
    DeviceBase.mk.injEq]
  refine ⟨?_, ?_, ?_⟩ <;> apply Fin.ext <;> simp <;> omega

lemma ofDevice_offset (d : DeviceBase) : (ofDevice d).offset = 0#8 := by
  apply BitVec.eq_of_toNat_eq
  rw [offset, BitVec.extractLsb'_toNat, ofDevice, BitVec.toNat_ofNat, Nat.shiftRight_zero,
    Nat.mod_mod_of_dvd _ (pow_dvd_pow 2 (by omega)), BitVec.toNat_zero]
  omega

lemma add_target (a : ConfigSpaceAddress) (o : BitVec 8) : (a.add o).target = a.target := a.withOffset_target _

/-- `offset & ~0b11` drops the lane. -/
lemma toNat_and_not_three (o : BitVec 8) : (o &&& ~~~0b11#8).toNat = o.toNat / 4 * 4 := by
  have hmask : ∀ n : Fin 256, n.val &&& 252 = n.val / 4 * 4 := by decide +kernel
  rw [BitVec.toNat_and]
  exact hmask ⟨o.toNat, o.isLt⟩

lemma add_dword (a : ConfigSpaceAddress) (o : BitVec 8) (h : a.offset.toNat + o.toNat ≤ 255) :
    (a.add o).dword = a.offset.toNat / 4 + o.toNat / 4 := by
  rw [dword, add, withOffset_offset, BitVec.toNat_add, toNat_and_not_three, Nat.mod_eq_of_lt (by omega)]
  omega

end ConfigSpaceAddress

namespace RegisterProxy

variable {w : Width} {rule : WriteRule} {p : RegisterProxy w}

/-- An access at a multiple of its size that stays in the 256 bytes of the function. -/
structure Fits (p : RegisterProxy w) : Prop where
  aligned : p.offset.toNat % w.bytes = 0
  noWrap : p.base.offset.toNat + p.offset.toNat ≤ 255

/-- The first byte of configuration space behind a proxy. The ports ignore the low bits of the base. -/
def byteAddress (p : RegisterProxy w) : Nat := p.base.offset.toNat / 4 * 4 + p.offset.toNat

def lane (p : RegisterProxy w) : Nat := p.offset.toNat % 4

lemma shift_eq (p : RegisterProxy w) : p.shift = 8 * p.lane := by
  rw [shift, lane, BitVec.toNat_and, Nat.mul_comm]
  exact congrArg (8 * ·) (Nat.and_two_pow_sub_one_eq_mod p.offset.toNat 2)

lemma Fits.lane_le (h : p.Fits) : p.lane + w.bytes ≤ 4 := by
  have haligned := h.aligned
  unfold lane
  cases w <;> simp only [Width.bytes] at haligned ⊢ <;> omega

lemma Fits.dword_eq (h : p.Fits) : (p.base.add p.offset).dword = p.byteAddress / 4 := by
  rw [p.base.add_dword p.offset h.noWrap, byteAddress]
  omega

lemma byteAddress_mod (p : RegisterProxy w) : p.byteAddress % 4 = p.lane := by
  unfold byteAddress lane
  omega

lemma Fits.byteAt_written (h : p.Fits) (cur : BitVec 32) (value : BitVec w.bits) {k : Nat} (hk : k < 4) :
    byteAt (p.written cur value) k =
      if p.lane ≤ k ∧ k < p.lane + w.bytes then byteAt value (k - p.lane) else byteAt cur k := by
  have hlane := h.lane_le
  cases w with
  | one =>
    simp only [written, shift_eq]
    exact byteAt_putBits cur value (by simp only [Width.bytes] at hlane ⊢; omega) k
  | two =>
    simp only [written, shift_eq]
    exact byteAt_putBits cur value (by simp only [Width.bytes] at hlane ⊢; omega) k
  | four =>
    have hzero : p.lane = 0 := by
      simp only [Width.bytes] at hlane
      omega
    have hin : p.lane ≤ k ∧ k < p.lane + Width.four.bytes := by
      simp only [Width.bytes]
      omega
    rw [if_pos hin, hzero]
    rfl

/-- Writing back what was read leaves the word as it is. -/
lemma Fits.written_cast (h : p.Fits) (cur : BitVec 32) :
    p.written cur ((cur >>> p.shift).setWidth w.bits) = cur := by
  apply eq_of_byteAt (c := 4)
  intro k hk
  rw [h.byteAt_written _ _ hk, shift_eq]
  split
  case isTrue hin =>
    rw [byteAt_shifted _ _ _ (by omega), show p.lane + (k - p.lane) = k by omega]
  case isFalse => rfl

end RegisterProxy

def configByte (cfg : ConfigSpace) (d : DeviceBase) (k : Nat) : BitVec 8 := byteAt (cfg d (k / 4)) (k % 4)

namespace RegisterProxy

variable {w : Width} {rule : WriteRule} {p : RegisterProxy w}

lemma Fits.byteAt_cast (h : p.Fits) (s : Ports) {k : Nat} (hk : k < w.bytes) :
    byteAt (p.cast rule s).1 k = configByte s.words p.base.target (p.byteAddress + k) := by
  have hlane := h.lane_le
  have hmod := p.byteAddress_mod
  have hrun : (p.cast rule s).1 =
      (s.words p.base.target (p.byteAddress / 4) >>> (8 * p.lane)).setWidth w.bits := by
    rw [← h.dword_eq, ← p.base.add_target p.offset, ← shift_eq]
    rfl
  rw [hrun, byteAt_shifted _ _ _ hk, configByte]
  rw [show (p.byteAddress + k) / 4 = p.byteAddress / 4 by omega, show (p.byteAddress + k) % 4 = p.lane + k by omega]

lemma Fits.assign_words (h : p.Fits) (value : BitVec w.bits) (s : Ports) (d : DeviceBase) (dword : Nat) :
    (p.assign rule value s).2.words d dword =
      if d = p.base.target ∧ dword = p.byteAddress / 4 then
        rule d dword (s.words d dword) (p.written (s.words d dword) value)
      else s.words d dword := by
  rw [assign, writeRegister_run]
  simp only [Ports.store]
  rw [p.base.add_target, h.dword_eq]
  split
  case isTrue hsel =>
    obtain ⟨rfl, rfl⟩ := hsel
    rfl
  case isFalse => rfl

lemma Fits.arrow_words (h : p.Fits) (use : BitVec w.bits → BitVec w.bits) (s : Ports) (d : DeviceBase) (dword : Nat) :
    (p.arrow rule use s).2.words d dword =
      if d = p.base.target ∧ dword = p.byteAddress / 4 then
        rule d dword (s.words d dword)
          (p.written (s.words d dword) (use ((s.words d dword >>> p.shift).setWidth w.bits)))
      else s.words d dword := by
  -- the copy is written back in the state that the read left, which has the same words
  let value := (s.words (p.base.add p.offset).target (p.base.add p.offset).dword >>> p.shift).setWidth w.bits
  let s₁ : Ports := { s with configAddress := p.base.add p.offset }
  have hrun : (p.arrow rule use s).2 = (p.assign rule (use value) s₁).2 := rfl
  rw [hrun, h.assign_words]
  split
  case isTrue hsel =>
    simp only [s₁, value]
    rw [p.base.add_target, h.dword_eq, ← hsel.1, ← hsel.2]
  case isFalse => rfl

lemma Fits.configByte_assign (h : p.Fits) (value : BitVec w.bits) (s : Ports) (d : DeviceBase) (k : Nat) :
    configByte (p.assign memoryRule value s).2.words d k =
      if d = p.base.target ∧ p.byteAddress ≤ k ∧ k < p.byteAddress + w.bytes then byteAt value (k - p.byteAddress)
      else configByte s.words d k := by
  have hlane := h.lane_le
  have hmod := p.byteAddress_mod
  rw [configByte, h.assign_words, configByte]
  by_cases hsel : d = p.base.target ∧ k / 4 = p.byteAddress / 4
  · -- in the selected word the lanes decide; another word keeps all its bytes
    rw [if_pos hsel, memoryRule, h.byteAt_written _ _ (Nat.mod_lt k (by omega))]
    by_cases hin : p.lane ≤ k % 4 ∧ k % 4 < p.lane + w.bytes
    · rw [if_pos hin, if_pos ⟨hsel.1, by omega, by omega⟩]
      rw [show k % 4 - p.lane = k - p.byteAddress by omega]
    · rw [if_neg hin, if_neg (fun hk => hin (by omega))]
  · rw [if_neg hsel, if_neg (fun hk => hsel ⟨hk.1, by omega⟩)]

lemma fits_ofDevice (d : DeviceBase) (o : BitVec 8) (h : o.toNat % w.bytes = 0) :
    (RegisterProxy.mk (w := w) (.ofDevice d) o).Fits where
  aligned := h
  noWrap := by
    rw [ConfigSpaceAddress.ofDevice_offset, BitVec.toNat_zero]
    omega

lemma byteAddress_ofDevice (d : DeviceBase) (o : BitVec 8) :
    (RegisterProxy.mk (w := w) (.ofDevice d) o).byteAddress = o.toNat := by
  rw [byteAddress, ConfigSpaceAddress.ofDevice_offset, BitVec.toNat_zero]
  exact Nat.zero_add _

/-- The reads of the enumerators are reads of a proxy. -/
theorem cast_ofDevice (d : DeviceBase) (o : BitVec 8) (h : o.toNat % w.bytes = 0) (s : Ports) :
    ((RegisterProxy.mk (w := w) (.ofDevice d) o).cast rule s).1 =
      (Pci.readRegister s.words d o.toNat).setWidth w.bits := by
  have hrun := readRegister_run rule (RegisterProxy.mk (w := w) (.ofDevice d) o) s
  rw [(fits_ofDevice d o h).dword_eq, ConfigSpaceAddress.add_target, ConfigSpaceAddress.ofDevice_target,
    byteAddress_ofDevice, shift_eq, lane, Nat.mul_comm] at hrun
  exact congrArg (fun r => r.1.setWidth w.bits) hrun

/-- The write-back of `header_type()->` is a write of a proxy to memory. -/
theorem assign_ofDevice (d : DeviceBase) (o : BitVec 8) (value : BitVec 8) (s : Ports) :
    ((RegisterProxy.mk (w := .one) (.ofDevice d) o).assign memoryRule value s).2.words =
      Pci.writeRegister8 s.words d o.toNat value := by
  funext d' dword
  refine ((fits_ofDevice (w := .one) d o (Nat.mod_one _)).assign_words value s d' dword).trans ?_
  rw [ConfigSpaceAddress.ofDevice_target, byteAddress_ofDevice]
  simp only [Pci.writeRegister8, memoryRule, written, shift_eq, lane]
  split
  case isTrue hsel =>
    obtain ⟨rfl, rfl⟩ := hsel
    rw [Nat.mul_comm]
    rfl
  case isFalse => rfl

end RegisterProxy

theorem registerProxy_write_read {w : Width} (p : RegisterProxy w) (hp : p.Fits) (value : BitVec w.bits) (s : Ports) :
    let s' := (p.assign memoryRule value s).2
    (p.cast memoryRule s').1 = value ∧
      (∀ (w' : Width) (q : RegisterProxy w'), q.Fits → q.base.target = p.base.target → ∀ k, k < w'.bytes →
        byteAt (q.cast memoryRule s').1 k =
          if p.byteAddress ≤ q.byteAddress + k ∧ q.byteAddress + k < p.byteAddress + w.bytes then
            byteAt value (q.byteAddress + k - p.byteAddress)
          else byteAt (q.cast memoryRule s).1 k) ∧
      ∀ d dword, d ≠ p.base.target → s'.words d dword = s.words d dword := by
  intro s'
  refine ⟨?_, ?_, ?_⟩
  · apply eq_of_byteAt
    intro k hk
    rw [hp.byteAt_cast s' hk, hp.configByte_assign, if_pos ⟨rfl, by omega, by omega⟩]
    rw [show p.byteAddress + k - p.byteAddress = k by omega]
  · intro w' q hq htarget k hk
    rw [hq.byteAt_cast s' hk, hp.configByte_assign, hq.byteAt_cast s hk]
    simp only [htarget, true_and]
  · intro d dword hd
    rw [hp.assign_words, if_neg (fun hsel => hd hsel.1)]

/-- The upper half of word 1 of function (0, 3, 0), in a configuration space of zeros. -/
theorem registerProxy_write_read_upper_half :
    let p : RegisterProxy .two := ⟨.ofDevice ⟨0, 3, 0⟩, 6⟩
    let s : Ports := ⟨⟨0⟩, fun _ _ => 0⟩
    p.Fits ∧ (p.cast memoryRule (p.assign memoryRule 0xBEEF#16 s).2).1 = 0xBEEF#16 :=
  have hfits := RegisterProxy.fits_ofDevice ⟨0, 3, 0⟩ 6 (by decide)
  ⟨hfits, (registerProxy_write_read _ hfits 0xBEEF#16 _).1⟩

end JavaScriptOS.Pci
