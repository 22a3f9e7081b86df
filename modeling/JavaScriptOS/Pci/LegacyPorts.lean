import JavaScriptOS.Pci.Legacy
import JavaScriptOS.Pci.RegisterProxy

/-!
# The register accessors of `pci.c`

They go through two ports, as `RegisterProxy` does. The reads shift by the low two bits of the offset, and
so does `pci_write_register8`. `pci_write_register16` uses the second bit alone, and `pci_write_register32`
does not shift at all. The ports and the layout of an address are declared in `pci.h`, which the repository does
not have; they are parameters here.
-/

namespace JavaScriptOS.Pci
open JavaScriptOS.Lib

namespace Legacy

/-- The arguments that every accessor takes. -/
structure Register where
  bus : BitVec 8
  device : BitVec 8
  function : BitVec 8
  offset : BitVec 8

/-- What the accessors take from `pci.h`: `raw` of a `pci_config_address_t` with the five fields that are assigned to
it, `PCI_CONFIG_ADDRESS_PORT` and `PCI_CONFIG_DATA_PORT`. -/
structure PciHeader where
  raw : (bus device function offset enable : BitVec 8) → BitVec 32
  configAddressPort : BitVec 16
  configDataPort : BitVec 16

/-- The header fits the hardware: the ports are the two configuration ports, and an enabled address selects the
function with the low bits of bus, device and function, and the offset. -/
structure PciHeader.Fits (h : PciHeader) : Prop where
  addressPort : h.configAddressPort = Pci.addressPort
  dataPort : h.configDataPort = Pci.dataPort
  target : ∀ bus device function offset, ConfigSpaceAddress.target ⟨h.raw bus device function offset 1⟩ =
    ⟨bus.toFin, (device.setWidth 5).toFin, (function.setWidth 3).toFin⟩
  offset : ∀ bus device function offset, ConfigSpaceAddress.offset ⟨h.raw bus device function offset 1⟩ = offset

def pciConfigAddress (h : PciHeader) (r : Register) : BitVec 32 :=
  h.raw r.bus r.device r.function (r.offset &&& 0xFC#8) 1

namespace Port

variable (h : PciHeader) (rule : WriteRule) (r : Register)

/-- The three reads, which differ in the type that they return. -/
def pciReadRegister (bits : Nat) : PortM (BitVec bits) := do
  out32 rule h.configAddressPort (pciConfigAddress h r)
  let cur ← in32 h.configDataPort
  pure ((cur >>> ((r.offset &&& 0b11#8).toNat * 8)).setWidth bits)

def pciReadRegister8 : PortM (BitVec 8) := pciReadRegister h rule r 8

def pciReadRegister16 : PortM (BitVec 16) := pciReadRegister h rule r 16

def pciReadRegister32 : PortM (BitVec 32) := pciReadRegister h rule r 32

/-- The two writes that change a part of a word. They differ in the mask and in the bits of the offset that they
shift by. -/
def pciModifyRegister (lanes : BitVec 8) (mask value : BitVec 32) : PortM Unit := do
  out32 rule h.configAddressPort (pciConfigAddress h r)
  let cur ← in32 h.configDataPort
  let cur := cur &&& ~~~(mask <<< ((r.offset &&& lanes).toNat * 8))
  let cur := cur ||| (value <<< ((r.offset &&& lanes).toNat * 8))
  out32 rule h.configDataPort cur

def pciWriteRegister8 (value : BitVec 8) : PortM Unit :=
  pciModifyRegister h rule r 0b11#8 0xFF#32 (value.setWidth 32)

def pciWriteRegister16 (value : BitVec 16) : PortM Unit :=
  pciModifyRegister h rule r 0b10#8 0xFFFF#32 (value.setWidth 32)

def pciWriteRegister32 (value : BitVec 32) : PortM Unit := do
  out32 rule h.configAddressPort (pciConfigAddress h r)
  out32 rule h.configDataPort value

/-- The read of a size. -/
def read : (w : Width) → PortM (BitVec w.bits)
  | .one => pciReadRegister8 h rule r
  | .two => pciReadRegister16 h rule r
  | .four => pciReadRegister32 h rule r

/-- The write of a size. -/
def write : {w : Width} → BitVec w.bits → PortM Unit
  | .one, value => pciWriteRegister8 h rule r value
  | .two, value => pciWriteRegister16 h rule r value
  | .four, value => pciWriteRegister32 h rule r value

end Port

namespace Register

/-- The function that the ports select. -/
def target (r : Register) : DeviceBase := ⟨r.bus.toFin, (r.device.setWidth 5).toFin, (r.function.setWidth 3).toFin⟩

/-- The first byte that a write of a size changes. -/
def start (r : Register) (w : Width) : Nat := r.offset.toNat / w.bytes * w.bytes

def Aligned (r : Register) (w : Width) : Prop := r.offset.toNat % w.bytes = 0

instance (r : Register) (w : Width) : Decidable (r.Aligned w) := inferInstanceAs (Decidable (_ = _))

variable {r : Register} {w : Width}

lemma Aligned.start_eq (h : r.Aligned w) : r.start w = r.offset.toNat := Nat.div_mul_cancel (Nat.dvd_of_mod_eq_zero h)

lemma start_div (r : Register) (w : Width) : r.start w / 4 = r.offset.toNat / 4 := by
  cases w <;> simp only [start, Width.bytes] <;> omega

lemma start_lane_le (r : Register) (w : Width) : r.start w % 4 + w.bytes ≤ 4 := by
  cases w <;> simp only [start, Width.bytes] <;> omega

section Address

variable {h : PciHeader} (hfits : h.Fits)
include hfits

lemma address_target (r : Register) : ConfigSpaceAddress.target ⟨pciConfigAddress h r⟩ = r.target :=
  hfits.target _ _ _ _

lemma address_dword (r : Register) : ConfigSpaceAddress.dword ⟨pciConfigAddress h r⟩ = r.offset.toNat / 4 := by
  have hoffset : ConfigSpaceAddress.offset ⟨pciConfigAddress h r⟩ = r.offset &&& ~~~0b11#8 := hfits.offset _ _ _ _
  rw [ConfigSpaceAddress.dword, hoffset, ConfigSpaceAddress.toNat_and_not_three]
  exact Nat.mul_div_cancel _ (by decide)

end Address

end Register

namespace Port

variable {w : Width} {h : PciHeader} (hfits : h.Fits) (rule : WriteRule) (r : Register)

lemma shift_eq : (r.offset &&& 0b11#8).toNat * 8 = r.offset.toNat % 4 * 8 := by
  rw [BitVec.toNat_and]
  exact congrArg (· * 8) (Nat.and_two_pow_sub_one_eq_mod r.offset.toNat 2)

/-- `offset & 0b10` is the lane of the half-word that the offset lies in. -/
lemma shift_half : (r.offset &&& 0b10#8).toNat * 8 = 8 * (r.start .two % 4) := by
  have hmask : ∀ n : Fin 256, n.val &&& 2 = n.val / 2 * 2 % 4 := by decide +kernel
  rw [BitVec.toNat_and, Nat.mul_comm]
  exact congrArg (8 * ·) (hmask ⟨r.offset.toNat, r.offset.isLt⟩)

include hfits in
/-- A read returns what the enumerators of this file read. -/
lemma pciReadRegister_fst (bits : Nat) (s : Ports) :
    (pciReadRegister h rule r bits s).1 = (Pci.readRegister s.words r.target r.offset.toNat).setWidth bits := by
  unfold pciReadRegister
  rw [hfits.addressPort, hfits.dataPort]
  have hrun : ((do
        out32 rule addressPort (pciConfigAddress h r)
        let cur ← in32 dataPort
        pure ((cur >>> ((r.offset &&& 0b11#8).toNat * 8)).setWidth bits) : PortM (BitVec bits)) s).1 =
      (s.words (ConfigSpaceAddress.target ⟨pciConfigAddress h r⟩) (ConfigSpaceAddress.dword ⟨pciConfigAddress h r⟩) >>>
        ((r.offset &&& 0b11#8).toNat * 8)).setWidth bits := rfl
  rw [hrun, r.address_target hfits, r.address_dword hfits, shift_eq]
  rfl

include hfits in
lemma pciReadRegister_words (bits : Nat) (s : Ports) : (pciReadRegister h rule r bits s).2.words = s.words := by
  unfold pciReadRegister
  rw [hfits.addressPort, hfits.dataPort]
  rfl

include hfits in
lemma read_words (s : Ports) : (read h rule r w s).2.words = s.words := by
  cases w <;> exact pciReadRegister_words hfits rule r _ s

include hfits in
lemma read_fst (s : Ports) :
    (read h rule r w s).1 = (Pci.readRegister s.words r.target r.offset.toNat).setWidth w.bits := by
  cases w <;> exact pciReadRegister_fst hfits rule r _ s

include hfits in
/-- The bytes of a read are those from the offset on, up to the end of the word. -/
lemma byteAt_read (s : Ports) {k : Nat} (hk : k < w.bytes) (hword : r.offset.toNat % 4 + k < 4) :
    byteAt (read h rule r w s).1 k = configByte s.words r.target (r.offset.toNat + k) := by
  rw [read_fst hfits, Pci.readRegister, Nat.mul_comm, byteAt_shifted _ _ _ hk, configByte]
  rw [show (r.offset.toNat + k) / 4 = r.offset.toNat / 4 by omega,
    show (r.offset.toNat + k) % 4 = r.offset.toNat % 4 + k by omega]

/-- The word that a write leaves. -/
def written (r : Register) : {w : Width} → BitVec 32 → BitVec w.bits → BitVec 32
  | .one, cur, value => putBits cur (8 * (r.start .one % 4)) value
  | .two, cur, value => putBits cur (8 * (r.start .two % 4)) value
  | .four, _, value => value

include hfits in
lemma write_run (value : BitVec w.bits) (s : Ports) :
    write h rule r value s = ((), ({ s with configAddress := ⟨pciConfigAddress h r⟩ } : Ports).store rule
      (written r (s.words r.target (r.offset.toNat / 4)) value)) := by
  rw [← r.address_target hfits, ← r.address_dword hfits]
  cases w with
  | one =>
    have hone : (r.offset &&& 0b11#8).toNat * 8 = 8 * (r.start .one % 4) := by
      rw [shift_eq, Register.start, Width.bytes, Nat.div_one, Nat.mul_one, Nat.mul_comm]
    simp only [written, ← hone, write, pciWriteRegister8, pciModifyRegister, hfits.addressPort, hfits.dataPort]
    rfl
  | two =>
    simp only [written, ← shift_half, write, pciWriteRegister16, pciModifyRegister, hfits.addressPort, hfits.dataPort]
    rfl
  | four =>
    simp only [written, write, pciWriteRegister32, hfits.addressPort, hfits.dataPort]
    rfl

include hfits in
lemma write_words (value : BitVec w.bits) (s : Ports) (d : DeviceBase) (dword : Nat) :
    (write h rule r value s).2.words d dword =
      if d = r.target ∧ dword = r.offset.toNat / 4 then
        rule d dword (s.words d dword) (written r (s.words d dword) value)
      else s.words d dword := by
  rw [write_run hfits]
  simp only [Ports.store]
  rw [r.address_target hfits, r.address_dword hfits]
  split
  case isTrue hsel =>
    obtain ⟨rfl, rfl⟩ := hsel
    rfl
  case isFalse => rfl

lemma byteAt_written (cur : BitVec 32) (value : BitVec w.bits) {k : Nat} (hk : k < 4) :
    byteAt (written r cur value) k =
      if r.start w % 4 ≤ k ∧ k < r.start w % 4 + w.bytes then byteAt value (k - r.start w % 4) else byteAt cur k := by
  have hlane := r.start_lane_le w
  cases w with
  | one => exact byteAt_putBits cur value (by simp only [Width.bytes] at hlane ⊢; omega) k
  | two => exact byteAt_putBits cur value (by simp only [Width.bytes] at hlane ⊢; omega) k
  | four =>
    have hzero : r.start .four % 4 = 0 := by
      simp only [Width.bytes] at hlane
      omega
    have hin : r.start .four % 4 ≤ k ∧ k < r.start .four % 4 + Width.four.bytes := by
      simp only [Width.bytes]
      omega
    rw [if_pos hin, hzero]
    rfl

include hfits in
/-- A write changes the bytes from its start on, as many as its size, and no other byte of any function. -/
lemma configByte_write (value : BitVec w.bits) (s : Ports) (d : DeviceBase) (x : Nat) :
    configByte (write h memoryRule r value s).2.words d x =
      if d = r.target ∧ r.start w ≤ x ∧ x < r.start w + w.bytes then byteAt value (x - r.start w)
      else configByte s.words d x := by
  have hlane := r.start_lane_le w
  have hdiv := r.start_div w
  rw [configByte, write_words hfits, configByte]
  by_cases hsel : d = r.target ∧ x / 4 = r.offset.toNat / 4
  · rw [if_pos hsel, memoryRule, byteAt_written r _ _ (Nat.mod_lt x (by omega))]
    by_cases hin : r.start w % 4 ≤ x % 4 ∧ x % 4 < r.start w % 4 + w.bytes
    · rw [if_pos hin, if_pos ⟨hsel.1, by omega, by omega⟩]
      rw [show x % 4 - r.start w % 4 = x - r.start w by omega]
    · rw [if_neg hin, if_neg (fun hx => hin (by omega))]
  · rw [if_neg hsel, if_neg (fun hx => hsel ⟨hx.1, by omega⟩)]

end Port

section SameAsProxy

variable {w : Width} {r : Register} {header : PciHeader}

/-- The proxy for the same register. -/
def Register.proxy (r : Register) (w : Width) : RegisterProxy w := ⟨.ofDevice r.target, r.offset⟩

lemma Register.Aligned.written_eq (h : r.Aligned w) (cur : BitVec 32) (value : BitVec w.bits) :
    Port.written r cur value = (r.proxy w).written cur value := by
  have hshift : 8 * (r.start w % 4) = (r.proxy w).shift := by
    rw [RegisterProxy.shift_eq, h.start_eq]
    rfl
  cases w with
  | one => exact congrArg (putBits cur · value) hshift
  | two => exact congrArg (putBits cur · value) hshift
  | four => rfl

lemma Register.Aligned.write_eq_assign (h : r.Aligned w) (hheader : header.Fits) (rule : WriteRule)
    (value : BitVec w.bits) (s : Ports) :
    (Port.write header rule r value s).2.words = ((r.proxy w).assign rule value s).2.words := by
  funext d dword
  have hfits : (r.proxy w).Fits := RegisterProxy.fits_ofDevice r.target r.offset h
  have htarget : (r.proxy w).base.target = r.target := ConfigSpaceAddress.ofDevice_target r.target
  have haddress : (r.proxy w).byteAddress = r.offset.toNat := RegisterProxy.byteAddress_ofDevice r.target r.offset
  rw [Port.write_words hheader, hfits.assign_words, htarget, haddress, h.written_eq]

lemma Register.Aligned.lane_lt (h : r.Aligned w) {k : Nat} (hk : k < w.bytes) : r.offset.toNat % 4 + k < 4 := by
  have hlane := r.start_lane_le w
  rw [h.start_eq] at hlane
  omega

end SameAsProxy

lemma byteAt_one {n k : Nat} (hk : 0 < k) : byteAt 1#n k = 0#8 := by
  ext i hi
  simp [byteAt, BitVec.getLsbD_one, hk.ne']

/-- What was written is read back, for all values and all earlier contents, exactly if the offset is a multiple
of the size. The write is then the one of the proxy in `Device.hpp`, for every rule that the registers follow. -/
theorem pciWriteRegister_reads_back_iff (h : PciHeader) (hfits : h.Fits) (w : Width) (r : Register) :
    ((∀ (value : BitVec w.bits) s, (Port.read h memoryRule r w (Port.write h memoryRule r value s).2).1 = value) ↔
      r.Aligned w) ∧
    (r.Aligned w → ∀ rule (value : BitVec w.bits) s,
      (Port.write h rule r value s).2.words = ((r.proxy w).assign rule value s).2.words) := by
  have hbytes : 0 < w.bytes := by cases w <;> decide
  refine ⟨⟨fun hback => ?_, fun hr value s => ?_⟩, fun hr rule value s => hr.write_eq_assign hfits rule value s⟩
  · -- a one in memory of zeros: the byte at the offset is not the one that the write has set
    by_contra hne
    have hstart : r.offset.toNat - r.start w = r.offset.toNat % w.bytes := by
      have hdiv := Nat.div_add_mod' r.offset.toNat w.bytes
      unfold Register.start
      omega
    have hmod := Nat.mod_lt r.offset.toNat hbytes
    have hpos : 0 < r.offset.toNat % w.bytes := Nat.pos_of_ne_zero hne
    have hle : r.start w ≤ r.offset.toNat := Nat.div_mul_le_self _ _
    have hbyte := congrArg (byteAt · 0) (hback 1#w.bits ⟨⟨0⟩, fun _ _ => 0⟩)
    rw [Port.byteAt_read hfits _ _ _ hbytes (by omega), Port.configByte_write hfits, Nat.add_zero,
      if_pos ⟨rfl, hle, by omega⟩, hstart, byteAt_one hpos] at hbyte
    cases w <;> exact absurd hbyte (by decide)
  · apply eq_of_byteAt
    intro k hk
    rw [Port.byteAt_read hfits _ _ _ hk (hr.lane_lt hk), Port.configByte_write hfits, hr.start_eq,
      if_pos ⟨rfl, Nat.le_add_right _ _, Nat.add_lt_add_left hk _⟩, Nat.add_sub_cancel_left]

section DeviceHeader

/-- A header with the ports and the layout that `Device.hpp` declares. -/
def deviceHeader : PciHeader where
  raw := fun bus device function offset enable =>
    enable.setWidth 1 ++ 0#7 ++ bus ++ device.setWidth 5 ++ function.setWidth 3 ++ offset
  configAddressPort := addressPort
  configDataPort := dataPort

variable {e b o : BitVec 8} {d : BitVec 5} {f : BitVec 3}

lemma extract_bus : (e ++ b ++ d ++ f ++ o).extractLsb' 16 8 = b := by
  rw [BitVec.extractLsb'_append_eq_of_le (by decide), BitVec.extractLsb'_append_eq_of_le (by decide),
    BitVec.extractLsb'_append_eq_of_le (by decide), BitVec.extractLsb'_append_eq_of_add_le (by decide)]
  exact BitVec.extractLsb'_eq_self

lemma extract_device : (e ++ b ++ d ++ f ++ o).extractLsb' 11 5 = d := by
  rw [BitVec.extractLsb'_append_eq_of_le (by decide), BitVec.extractLsb'_append_eq_of_le (by decide),
    BitVec.extractLsb'_append_eq_of_add_le (by decide)]
  exact BitVec.extractLsb'_eq_self

lemma extract_function : (e ++ b ++ d ++ f ++ o).extractLsb' 8 3 = f := by
  rw [BitVec.extractLsb'_append_eq_of_le (by decide), BitVec.extractLsb'_append_eq_of_add_le (by decide)]
  exact BitVec.extractLsb'_eq_self

lemma extract_offset : (e ++ b ++ d ++ f ++ o).extractLsb' 0 8 = o := by
  rw [BitVec.extractLsb'_append_eq_of_add_le (by decide)]
  exact BitVec.extractLsb'_eq_self

lemma fits_deviceHeader : deviceHeader.Fits where
  addressPort := rfl
  dataPort := rfl
  target := by
    intro bus device function offset
    have hbus : ConfigSpaceAddress.bus ⟨deviceHeader.raw bus device function offset 1⟩ = bus := extract_bus
    have hdevice : ConfigSpaceAddress.device ⟨deviceHeader.raw bus device function offset 1⟩ = device.setWidth 5 :=
      extract_device
    have hfunction : ConfigSpaceAddress.function ⟨deviceHeader.raw bus device function offset 1⟩ =
        function.setWidth 3 := extract_function
    rw [ConfigSpaceAddress.target, hbus, hdevice, hfunction]
  offset := fun _ _ _ _ => extract_offset

end DeviceHeader

/-- Half-words at offsets 6 and 7. -/
theorem pciWriteRegister_reads_back_iff_half :
    (∀ (value : BitVec 16) s, (Port.read deviceHeader memoryRule ⟨0, 3, 0, 6⟩ .two
      (Port.write deviceHeader memoryRule (w := .two) ⟨0, 3, 0, 6⟩ value s).2).1 = value) ∧
    ¬∀ (value : BitVec 16) s, (Port.read deviceHeader memoryRule ⟨0, 3, 0, 7⟩ .two
      (Port.write deviceHeader memoryRule (w := .two) ⟨0, 3, 0, 7⟩ value s).2).1 = value := by
  constructor
  · exact (pciWriteRegister_reads_back_iff deviceHeader fits_deviceHeader .two ⟨0, 3, 0, 6⟩).1.mpr (by decide)
  · intro hback
    have haligned := (pciWriteRegister_reads_back_iff deviceHeader fits_deviceHeader .two ⟨0, 3, 0, 7⟩).1.mp hback
    exact absurd haligned (by decide)

/-! ## Runs -/

/-- The bytes of all functions. -/
abbrev Bytes := DeviceBase → Nat → BitVec 8

namespace Bytes

variable (m : Bytes) (d : DeviceBase) (x : Nat)

def load (n : Nat) : List (BitVec 8) := (List.range n).map fun k => m d (x + k)

def store {n : Nat} (value : BitVec (8 * n)) : Bytes := fun d' y =>
  if d' = d ∧ x ≤ y ∧ y < x + n then byteAt value (y - x) else m d' y

end Bytes

/-- A call of an accessor, or a use of a proxy. -/
inductive PortCall where
  | read (w : Width) (r : Register)
  | write (w : Width) (r : Register) (value : BitVec w.bits)
  | cast (w : Width) (p : RegisterProxy w)
  | assign (w : Width) (p : RegisterProxy w) (value : BitVec w.bits)

namespace PortCall

/-- The access is at a multiple of its size. -/
def Ok : PortCall → Prop
  | .read w r => r.Aligned w
  | .write w r _ => r.Aligned w
  | .cast _ p => p.Fits
  | .assign _ p _ => p.Fits

/-- The call at the ports, with the bytes that it returns. -/
def run (h : PciHeader) (rule : WriteRule) : PortCall → PortM (List (BitVec 8))
  | .read w r => do
    let value ← Port.read h rule r w
    pure ((List.range w.bytes).map (byteAt value))
  | .write _ r value => do
    Port.write h rule r value
    pure []
  | .cast w p => do
    let value ← p.cast rule
    pure ((List.range w.bytes).map (byteAt value))
  | .assign _ p value => do
    p.assign rule value
    pure []

/-- The same call on a store of bytes. -/
def apply : PortCall → StateM Bytes (List (BitVec 8))
  | .read w r => fun m => (m.load r.target r.offset.toNat w.bytes, m)
  | .write _ r value => fun m => ([], m.store r.target r.offset.toNat value)
  | .cast w p => fun m => (m.load p.base.target p.byteAddress w.bytes, m)
  | .assign _ p value => fun m => ([], m.store p.base.target p.byteAddress value)

lemma run_eq_apply {header : PciHeader} (hheader : header.Fits) (c : PortCall) (h : c.Ok) (s : Ports) :
    (c.run header memoryRule s).1 = (c.apply (configByte s.words)).1 ∧
      configByte (c.run header memoryRule s).2.words = (c.apply (configByte s.words)).2 := by
  cases c with
  | read w r =>
    refine ⟨List.map_congr_left fun k hk => ?_, congrArg configByte (Port.read_words hheader memoryRule r s)⟩
    have hk := List.mem_range.mp hk
    exact Port.byteAt_read hheader memoryRule r s hk (Register.Aligned.lane_lt h hk)
  | write w r value =>
    refine ⟨rfl, funext fun d => funext fun x => ?_⟩
    have hstart : r.start w = r.offset.toNat := Register.Aligned.start_eq h
    have hbyte := Port.configByte_write hheader r value s d x
    rw [hstart] at hbyte
    exact hbyte
  | cast w p =>
    refine ⟨List.map_congr_left fun k hk => ?_, congrArg configByte (p.cast_words memoryRule s)⟩
    exact RegisterProxy.Fits.byteAt_cast h s (List.mem_range.mp hk)
  | assign w p value =>
    exact ⟨rfl, funext fun d => funext fun x => RegisterProxy.Fits.configByte_assign h value s d x⟩

end PortCall

/-- The accessors of `pci.c` and the proxies of `Device.hpp` share the ports: in any order, at offsets that are
multiples of the sizes, they read and write one store of bytes. -/
theorem accessors_refine_bytes (h : PciHeader) (hfits : h.Fits) (calls : List PortCall) (hcalls : ∀ c ∈ calls, c.Ok)
    (s : Ports) :
    let ports := calls.mapM (PortCall.run h memoryRule) s
    let bytes := calls.mapM PortCall.apply (configByte s.words)
    ports.1 = bytes.1 ∧ configByte ports.2.words = bytes.2 := by
  induction calls generalizing s with
  | nil => exact ⟨rfl, rfl⟩
  | cons c calls ih =>
    obtain ⟨hc, hrest⟩ := List.forall_mem_cons.mp hcalls
    obtain ⟨hout, hbytes⟩ := c.run_eq_apply hfits hc s
    have ih := ih hrest (c.run h memoryRule s).2
    rw [hbytes] at ih
    rw [List.mapM_cons, List.mapM_cons]
    exact ⟨congrArg₂ List.cons hout ih.1, ih.2⟩

/-- A half-word is written by the accessor and its upper byte read by the proxy. -/
theorem accessors_refine_bytes_shared :
    let p : RegisterProxy .one := ⟨.ofDevice ⟨0, 3, 0⟩, 5⟩
    let calls := [PortCall.write .two ⟨0, 3, 0, 4⟩ 0xBEEF#16, .cast .one p]
    (∀ c ∈ calls, c.Ok) ∧
      (calls.mapM (PortCall.run deviceHeader memoryRule) (⟨⟨0⟩, fun _ _ => 0⟩ : Ports)).1 = [[], [0xBE#8]] := by
  intro p calls
  have hfits : p.Fits := RegisterProxy.fits_ofDevice ⟨0, 3, 0⟩ 5 (by decide)
  have hcalls : ∀ c ∈ calls, c.Ok :=
    List.forall_mem_cons.mpr ⟨(by decide : (4#8).toNat % 2 = 0),
      List.forall_mem_cons.mpr ⟨hfits, List.forall_mem_nil _⟩⟩
  refine ⟨hcalls, ?_⟩
  rw [(accessors_refine_bytes deviceHeader fits_deviceHeader calls hcalls _).1]
  decide

end Legacy
end JavaScriptOS.Pci
