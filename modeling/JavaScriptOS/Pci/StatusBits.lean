import JavaScriptOS.Pci.RegisterProxy

/-!
# Accessors and the status register

The status half-word shares word `0x04` with the command register, and a 1 written to one of its bits
clears the bit. The proxies write whole words, so an access to either half writes the status bits back
and clears those that are set.
-/

namespace JavaScriptOS.Pci
open JavaScriptOS.Lib

def upperHalf (w : BitVec 32) : BitVec 16 := w.extractLsb' 16 16

/-- Status bits are cleared by writing 1; every other register is memory. -/
def statusRule : WriteRule := fun _ dword old value =>
  if dword = 1 then putBits value 16 (upperHalf old &&& ~~~upperHalf value) else value

inductive Accessor where
  | vendorId | deviceId | commandReg | statusReg | revisionId | progIf | subclassId | classId
  | cacheLineSize | latencyTimer | headerType | bist | interruptLine | interruptPin
  deriving DecidableEq

namespace Accessor

def width : Accessor → Width
  | .vendorId | .deviceId | .commandReg | .statusReg => .two
  | _ => .one

def offset : Accessor → BitVec 8
  | .vendorId => 0x00
  | .deviceId => 0x02
  | .commandReg => 0x04
  | .statusReg => 0x06
  | .revisionId => 0x08
  | .progIf => 0x09
  | .subclassId => 0x0A
  | .classId => 0x0B
  | .cacheLineSize => 0x0C
  | .latencyTimer => 0x0D
  | .headerType => 0x0E
  | .bist => 0x0F
  | .interruptLine => 0x3C
  | .interruptPin => 0x3D

def proxy (a : Accessor) (d : DeviceBase) : RegisterProxy a.width := ⟨.ofDevice d, a.offset⟩

end Accessor

/-- An assignment to `command_reg()`, or a member read through `operator->` of an accessor. -/
inductive Access where
  | assignCommand (value : BitVec 16)
  | arrow (a : Accessor)

namespace Access

def run (rule : WriteRule) (d : DeviceBase) : Access → PortM Unit
  | .assignCommand value => (Accessor.commandReg.proxy d).assign rule value
  | .arrow a => do
    let _ ← (a.proxy d).arrow rule id
    pure ()

def accessor : Access → Accessor
  | .assignCommand _ => .commandReg
  | .arrow a => a

end Access

def statusBits (cfg : ConfigSpace) (d : DeviceBase) : BitVec 16 := upperHalf (cfg d 1)

lemma Accessor.fits (a : Accessor) (d : DeviceBase) : (a.proxy d).Fits :=
  RegisterProxy.fits_ofDevice d a.offset (by cases a <;> rfl)

lemma commandProxy_shift (d : DeviceBase) : (Accessor.commandReg.proxy d).shift = 0 := by
  change (Accessor.commandReg.offset &&& 0b11#8).toNat * 8 = 0
  decide

lemma commandProxy_written (d : DeviceBase) (cur : BitVec 32) (value : BitVec 16) :
    (Accessor.commandReg.proxy d).written cur value = putBits cur 0 value := by
  rw [← commandProxy_shift d]
  rfl

lemma upperHalf_putBits_upper (w : BitVec 32) (v : BitVec 16) : upperHalf (putBits w 16 v) = v := by
  ext i hi
  rw [upperHalf, BitVec.getElem_extractLsb', getLsbD_putBits w v (by omega), if_pos (by omega)]
  rw [Nat.add_sub_cancel_left, BitVec.getLsbD_eq_getElem hi]

lemma upperHalf_putBits_lower (w : BitVec 32) (v : BitVec 16) : upperHalf (putBits w 0 v) = upperHalf w := by
  ext i hi
  simp [upperHalf, getLsbD_putBits]

lemma upperHalf_statusRule (d : DeviceBase) {old value : BitVec 32} (h : upperHalf value = upperHalf old) :
    upperHalf (statusRule d 1 old value) = 0 := by
  rw [statusRule, if_pos rfl, upperHalf_putBits_upper, h]
  ext i hi
  simp

/-- An access to the status word writes one whose upper half is that of the old one. -/
lemma Access.run_words (x : Access) (d : DeviceBase) (s : Ports) :
    ∃ value, upperHalf value = upperHalf (s.words d 1) ∧ (x.run statusRule d s).2.words d 1 =
      if x.accessor.offset.toNat / 4 = 1 then statusRule d 1 (s.words d 1) value else s.words d 1 := by
  have hsel : (d = (x.accessor.proxy d).base.target ∧ 1 = (x.accessor.proxy d).byteAddress / 4) ↔
      x.accessor.offset.toNat / 4 = 1 := by
    rw [Accessor.proxy, ConfigSpaceAddress.ofDevice_target, RegisterProxy.byteAddress_ofDevice, eq_comm (a := 1)]
    simp
  cases x with
  | assignCommand v =>
    refine ⟨putBits (s.words d 1) 0 v, upperHalf_putBits_lower _ v, ?_⟩
    rw [← commandProxy_written d]
    exact ((Accessor.commandReg.fits d).assign_words v s d 1).trans (if_congr hsel rfl rfl)
  | arrow a =>
    refine ⟨s.words d 1, rfl, ((a.fits d).arrow_words id s d 1).trans (if_congr hsel ?_ rfl)⟩
    rw [id, (a.fits d).written_cast]

lemma Access.run_statusBits (x : Access) (d : DeviceBase) (s : Ports) :
    statusBits (x.run statusRule d s).2.words d =
      if x.accessor.offset.toNat / 4 = 1 then 0 else statusBits s.words d := by
  obtain ⟨value, hvalue, hwords⟩ := x.run_words d s
  rw [statusBits, hwords]
  split
  case isTrue => exact upperHalf_statusRule d hvalue
  case isFalse => rfl

/-- An access keeps the status bits exactly if it does not touch their word, or they are all clear. -/
theorem status_kept_iff (x : Access) (d : DeviceBase) (s : Ports) :
    statusBits (x.run statusRule d s).2.words d = statusBits s.words d ↔
      x.accessor.offset.toNat / 4 ≠ 1 ∨ statusBits s.words d = 0 := by
  rw [x.run_statusBits]
  split
  case isTrue h =>
    constructor
    · exact fun hzero => Or.inr hzero.symm
    · rintro (hne | hzero)
      · exact absurd h hne
      · exact hzero.symm
  case isFalse h => exact ⟨fun _ => Or.inl h, fun _ => rfl⟩

/-- Function (0, 3, 0) has received a master abort (status bit 13); memory and bus mastering are on. -/
def abortedDevice : Ports := ⟨⟨0⟩, fun d dword => if d = ⟨0, 3, 0⟩ ∧ dword = 1 then 0x20000007#32 else 0⟩

/-- Reading a member of `status_reg()` clears the bit. -/
theorem status_read_clears : ¬∀ (x : Access) (d : DeviceBase) (s : Ports),
    statusBits (x.run statusRule d s).2.words d = statusBits s.words d := by
  intro h
  have hkept := h (.arrow .statusReg) ⟨0, 3, 0⟩ abortedDevice
  rw [Access.run_statusBits] at hkept
  exact absurd hkept (by decide)

end JavaScriptOS.Pci
