import JavaScriptOS.Lib.Generator
import Mathlib.Algebra.Order.Ring.Nat
import Mathlib.Data.Finset.Card
import Mathlib.Data.Fintype.Card

/-!
# The PCI host controller

Configuration space is the array of 32-bit words that port `0xCFC` answers for the bus,
device, function and dword selected at port `0xCF8`. The three enumerators are generators
over that array and over the static visited set of `enumerate_pci_bus`. Debug output is not
modelled. `DeviceFactory::create` is `create_device` of `Device.hpp`: it returns a
`DeviceBase` for the address it is given.
-/

namespace JavaScriptOS.Pci
open JavaScriptOS.Lib

instance neZeroBus : NeZero 256 := ⟨by decide⟩
instance neZeroDevice : NeZero 32 := ⟨by decide⟩
instance neZeroFunction : NeZero 8 := ⟨by decide⟩

/-- A `DeviceBase`: the bus, device and function fields of its `config_space_address`. -/
structure DeviceBase where
  bus : Fin 256
  device : Fin 32
  function : Fin 8
  deriving DecidableEq

abbrev ConfigSpace := DeviceBase → Nat → BitVec 32

/-- `RegisterProxy::read_register`. -/
def readRegister (cfg : ConfigSpace) (d : DeviceBase) (offset : Nat) : BitVec 32 :=
  cfg d (offset / 4) >>> (offset % 4 * 8)

/-- `RegisterProxy::write_register8`: a read-modify-write of the aligned word. -/
def writeRegister8 (cfg : ConfigSpace) (d : DeviceBase) (offset : Nat) (value : BitVec 8) :
    ConfigSpace :=
  let cur := cfg d (offset / 4) &&& ~~~(0xFF#32 <<< (offset % 4 * 8))
  let next := cur ||| (value.setWidth 32 <<< (offset % 4 * 8))
  fun d' dword => if d' = d ∧ dword = offset / 4 then next else cfg d' dword

def vendorId (cfg : ConfigSpace) (d : DeviceBase) : BitVec 16 := (readRegister cfg d 0x00).setWidth 16
def subclassId (cfg : ConfigSpace) (d : DeviceBase) : BitVec 8 := (readRegister cfg d 0x0A).setWidth 8
def classId (cfg : ConfigSpace) (d : DeviceBase) : BitVec 8 := (readRegister cfg d 0x0B).setWidth 8
def headerType (cfg : ConfigSpace) (d : DeviceBase) : BitVec 8 := (readRegister cfg d 0x0E).setWidth 8
def secondaryBus (cfg : ConfigSpace) (d : DeviceBase) : Fin 256 :=
  ((readRegister cfg d 0x19).setWidth 8 : BitVec 8).toFin

/-- `device_header_type::is_multi_function`, bit 7. -/
def isMultiFunction (header : BitVec 8) : Bool := header.getLsbD 7

/-- `VendorID::DeviceNotPresent`. -/
def deviceNotPresent : BitVec 16 := 0xFFFF#16
/-- `DeviceClass::BridgeDevice`. -/
def bridgeDevice : BitVec 8 := 0x06#8
/-- `Bridge::SubclassID::PCI_TO_PCI`. -/
def pciToPci : BitVec 8 := 0x04#8

structure EnumState where
  cfg : ConfigSpace
  enumeratedBuses : Finset (Fin 256)

/-- What a consumer or a later iteration can notice of a generator: a bus put into the static
visited set, or a device handed out by `co_yield`. -/
inductive Event where
  | enumerated (bus : Fin 256)
  | device (d : DeviceBase)
  deriving DecidableEq

abbrev DeviceGenerator := Gen EnumState Event

/-- `header_type()->...`: the value read by `operator->`, and the write-back of the same value
by the destructor of the `MemberProxy`. -/
def headerTypeArrow (d : DeviceBase) (k : BitVec 8 → DeviceGenerator) : DeviceGenerator :=
  Gen.read fun s =>
    Gen.andThen
      (Gen.update fun s => { s with cfg := writeRegister8 s.cfg d 0x0E (headerType s.cfg d) })
      (k (headerType s.cfg d))

def enumerateFunction (enumeratePciBus : Fin 256 → DeviceGenerator)
    (bus : Fin 256) (deviceno : Fin 32) (function : Fin 8) : DeviceGenerator :=
  let device : DeviceBase := ⟨bus, deviceno, function⟩
  Gen.andThen (Gen.emit (.device device)) <|
    Gen.read fun s =>
      if classId s.cfg device = bridgeDevice ∧ subclassId s.cfg device = pciToPci then
        enumeratePciBus (secondaryBus s.cfg device)
      else Gen.done

def enumerateDevice (enumeratePciBus : Fin 256 → DeviceGenerator)
    (bus : Fin 256) (deviceno : Fin 32) : DeviceGenerator :=
  Gen.read fun s =>
    if vendorId s.cfg ⟨bus, deviceno, 0⟩ = deviceNotPresent then Gen.done
    else
      Gen.andThen (enumerateFunction enumeratePciBus bus deviceno 0) <|
        headerTypeArrow ⟨bus, deviceno, 0⟩ fun header =>
          if isMultiFunction header then
            Gen.forEach (fun function => Gen.read fun s =>
              if vendorId s.cfg ⟨bus, deviceno, function⟩ = deviceNotPresent then Gen.done
              else enumerateFunction enumeratePciBus bus deviceno function)
              (List.finRange 8).tail
          else Gen.done

/-- `enumerate_pci_bus`. The first argument bounds the depth of the mutual recursion. -/
def enumeratePciBus : Nat → Fin 256 → DeviceGenerator
  | 0, _ => fun _ => none
  | depth + 1, bus =>
    Gen.read fun s =>
      if bus ∈ s.enumeratedBuses then Gen.done
      else
        Gen.andThen (Gen.emit (.enumerated bus)) <|
          Gen.andThen
            (Gen.update fun s => { s with enumeratedBuses := insert bus s.enumeratedBuses }) <|
          Gen.forEach (enumerateDevice (enumeratePciBus depth) bus) (List.finRange 32)

/-- `HostController::attached_devices`. In the multi-function branch the call of
`enumerate_pci_bus` is commented out; what is left probes the eight host bridges for a
debug message. -/
def attachedDevices (depth : Nat) : DeviceGenerator :=
  headerTypeArrow ⟨0, 0, 0⟩ fun header =>
    if !isMultiFunction header then enumeratePciBus depth 0
    else Gen.forEach (fun _ : Fin 8 => Gen.done) (List.finRange 8)

/-- The devices a consumer receives. -/
def yielded : List Event → List DeviceBase
  | [] => []
  | .enumerated _ :: es => yielded es
  | .device d :: es => d :: yielded es

/-- The buses put into the static visited set. -/
def marked : List Event → List (Fin 256)
  | [] => []
  | .enumerated b :: es => b :: marked es
  | .device _ :: es => marked es

@[simp] lemma yielded_append (es fs : List Event) : yielded (es ++ fs) = yielded es ++ yielded fs := by
  induction es with
  | nil => rfl
  | cons e es ih => cases e <;> simp [yielded, ih]

@[simp] lemma marked_append (es fs : List Event) : marked (es ++ fs) = marked es ++ marked fs := by
  induction es with
  | nil => rfl
  | cons e es ih => cases e <;> simp [marked, ih]

lemma mem_marked {x : Fin 256} {es : List Event} : x ∈ marked es ↔ Event.enumerated x ∈ es := by
  induction es with
  | nil => simp [marked]
  | cons e es ih => cases e <;> simp [marked, ih]

lemma byteMask_getLsbD (i : Nat) : (0xFF#32).getLsbD i = decide (i < 8) := by
  by_cases hi : i < 32
  · have h : ∀ j : Fin 32, (0xFF#32).getLsbD j = decide (j.val < 8) := by decide
    exact h ⟨i, hi⟩
  · rw [BitVec.getLsbD_of_ge _ _ (by omega)]
    simp only [false_eq_decide_iff]
    omega

/-- Writing back the byte that was read changes nothing. -/
lemma writeRegister8_readRegister (cfg : ConfigSpace) (d : DeviceBase) (offset : Nat) :
    writeRegister8 cfg d offset ((readRegister cfg d offset).setWidth 8) = cfg := by
  funext d' dword
  unfold writeRegister8
  by_cases h : d' = d ∧ dword = offset / 4
  · rw [if_pos h, h.1, h.2]
    apply BitVec.eq_of_getLsbD_eq
    intro i hi
    simp only [readRegister, BitVec.getLsbD_or, BitVec.getLsbD_and, BitVec.getLsbD_not,
      BitVec.getLsbD_shiftLeft, BitVec.getLsbD_setWidth, BitVec.getLsbD_ushiftRight,
      byteMask_getLsbD]
    by_cases hlow : i < offset % 4 * 8
    · simp [hi, hlow]
    · have hi' : offset % 4 * 8 + (i - offset % 4 * 8) = i := by omega
      by_cases hbyte : i - offset % 4 * 8 < 8
      · have hword : i - offset % 4 * 8 < 32 := by omega
        simp [hi, hlow, hbyte, hi', hword]
      · simp [hi, hlow, hbyte]
  · rw [if_neg h]

end JavaScriptOS.Pci
