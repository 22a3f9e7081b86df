import JavaScriptOS.Lib.BitField

/-!
# The IOAPIC's redirection table

The registers of an IOAPIC are reached through `ioregsel`, which selects one, and `iowin`, which
is the selected one. An entry of the redirection table takes two registers, and `ioapic_route`
writes them one after the other.
-/

namespace JavaScriptOS.Ioapic
open JavaScriptOS.Lib

/-- `mmap_ioapic_t`, with the registers behind `iowin`. -/
structure MmapIoapic where
  ioregsel : Nat
  registers : Nat → Nat

def MmapIoapic.select (d : MmapIoapic) (offset : Nat) : MmapIoapic := { d with ioregsel := offset % 256 }

def MmapIoapic.iowin (d : MmapIoapic) : Nat := d.registers d.ioregsel

def MmapIoapic.setIowin (d : MmapIoapic) (value : Nat) : MmapIoapic :=
  { d with registers := fun k => if k = d.ioregsel then value % 2 ^ 32 else d.registers k }

def ioapicReadRegister (d : MmapIoapic) (offset : Nat) : Nat × MmapIoapic :=
  let d := d.select offset
  (d.iowin, d)

def ioapicWriteRegister (d : MmapIoapic) (offset value : Nat) : MmapIoapic :=
  (d.select offset).setIowin value

def ioapicVerRegOffset : Nat := 0x01

def ioapicRedirectTableOffset : Nat := 0x10

section Fields

/-! `ioapicver_t`. -/

def maxRedirEntry : Field := ⟨16, 8⟩

/-! `ioapic_redir_entry_lo`. -/

def vector : Field := ⟨0, 8⟩

def deliveryMode : Field := ⟨8, 3⟩

def destinationMode : Field := ⟨11, 1⟩

def polarity : Field := ⟨13, 1⟩

def triggerMode : Field := ⟨15, 1⟩

def mask : Field := ⟨16, 1⟩

/-! `ioapic_redir_entry_hi`. -/

def destination : Field := ⟨24, 8⟩

def destModePhysical : Nat := 0

def pinPolarityActiveHigh : Nat := 0

def triggerModeEdgeTriggered : Nat := 1

end Fields

/-- The loop of `init_ioapic` from `irq` on, with `count` rounds to go; `redirEntryLo` keeps what
the earlier rounds left in it. -/
def initEntries (irqOffset : Nat) : Nat → Nat → Nat → MmapIoapic → MmapIoapic
  | 0, _, _, d => d
  | count + 1, irq, redirEntryLo, d =>
    let redirEntryLo := vector.set redirEntryLo (irqOffset + irq)
    let d := ioapicWriteRegister d (ioapicRedirectTableOffset + 2 * irq) redirEntryLo
    let d := ioapicWriteRegister d (ioapicRedirectTableOffset + 2 * irq + 1) (destination.set 0 0)
    initEntries irqOffset count (irq + 1) redirEntryLo d

/-- `init_ioapic`, for an IOAPIC whose registers have been found. `irqOffset` is
`IRQ_INTERRUPT_OFFSET`. -/
def initIoapic (irqOffset : Nat) (d : MmapIoapic) : MmapIoapic :=
  let (ver, d) := ioapicReadRegister d ioapicVerRegOffset
  let maxirq := maxRedirEntry.get ver + 1
  let redirEntryLo := mask.set (triggerMode.set (polarity.set 0 pinPolarityActiveHigh)
    triggerModeEdgeTriggered) 1
  initEntries irqOffset maxirq 0 redirEntryLo d

/-- The low half that `ioapic_route` writes. -/
def routeEntryLo (irqOffset irq masked : Nat) : Nat :=
  let lo := vector.set 0 (irqOffset + irq)
  let lo := deliveryMode.set lo 0
  let lo := destinationMode.set lo destModePhysical
  let lo := polarity.set lo pinPolarityActiveHigh
  let lo := triggerMode.set lo triggerModeEdgeTriggered
  mask.set lo masked

def routeEntryHi (lapicid : Nat) : Nat := destination.set 0 lapicid

def ioapicRoute (irqOffset : Nat) (d : MmapIoapic) (irq lapicid masked : Nat) : MmapIoapic :=
  let d := ioapicWriteRegister d (ioapicRedirectTableOffset + 2 * irq) (routeEntryLo irqOffset irq masked)
  ioapicWriteRegister d (ioapicRedirectTableOffset + 2 * irq + 1) (routeEntryHi lapicid)

def ioapicSetmask (d : MmapIoapic) (irq masked : Nat) : MmapIoapic :=
  let (redirEntryLo, d) := ioapicReadRegister d (ioapicRedirectTableOffset + 2 * irq)
  ioapicWriteRegister d (ioapicRedirectTableOffset + 2 * irq) (mask.set redirEntryLo masked)

section Entries

/-- The fields of an entry that the kernel sets. -/
@[ext]
structure RedirEntry where
  vector : Nat
  deliveryMode : Nat
  destinationMode : Nat
  polarity : Nat
  triggerMode : Nat
  mask : Nat
  destination : Nat
  deriving DecidableEq

def RedirEntry.ofRegisters (lo hi : Nat) : RedirEntry where
  vector := Ioapic.vector.get lo
  deliveryMode := Ioapic.deliveryMode.get lo
  destinationMode := Ioapic.destinationMode.get lo
  polarity := Ioapic.polarity.get lo
  triggerMode := Ioapic.triggerMode.get lo
  mask := Ioapic.mask.get lo
  destination := Ioapic.destination.get hi

def entry (d : MmapIoapic) (irq : Nat) : RedirEntry :=
  .ofRegisters (d.registers (ioapicRedirectTableOffset + 2 * irq))
    (d.registers (ioapicRedirectTableOffset + 2 * irq + 1))

/-- The number of entries that the IOAPIC reports. -/
def entryCount (d : MmapIoapic) : Nat := maxRedirEntry.get (d.registers ioapicVerRegOffset) + 1

/-- An entry as the kernel configures it: fixed delivery, physical, active high, edge-triggered. -/
def configured (irqOffset irq lapicid masked : Nat) : RedirEntry where
  vector := (irqOffset + irq) % 256
  deliveryMode := 0
  destinationMode := destModePhysical
  polarity := pinPolarityActiveHigh
  triggerMode := triggerModeEdgeTriggered
  mask := masked % 2
  destination := lapicid % 256

variable {irqOffset irq i lapicid masked lo hi v : Nat} {d : MmapIoapic}

lemma registers_write (d : MmapIoapic) (offset value k : Nat) : (ioapicWriteRegister d offset value).registers k =
    if k = offset % 256 then value % 2 ^ 32 else d.registers k := rfl

lemma ofRegisters_mod_lo (lo hi : Nat) : RedirEntry.ofRegisters (lo % 2 ^ 32) hi = .ofRegisters lo hi := by
  unfold RedirEntry.ofRegisters
  simp only [Field.get_mod (show vector.lo + vector.width ≤ 32 by decide),
    Field.get_mod (show deliveryMode.lo + deliveryMode.width ≤ 32 by decide),
    Field.get_mod (show destinationMode.lo + destinationMode.width ≤ 32 by decide),
    Field.get_mod (show polarity.lo + polarity.width ≤ 32 by decide),
    Field.get_mod (show triggerMode.lo + triggerMode.width ≤ 32 by decide),
    Field.get_mod (show mask.lo + mask.width ≤ 32 by decide)]

lemma ofRegisters_mod_hi (lo hi : Nat) : RedirEntry.ofRegisters lo (hi % 2 ^ 32) = .ofRegisters lo hi := by
  unfold RedirEntry.ofRegisters
  rw [Field.get_mod (show destination.lo + destination.width ≤ 32 by decide)]

/-- A write to the low half of an entry. -/
lemma entry_writeLo (d : MmapIoapic) (lo i : Nat) (hirq : irq < 120) :
    entry (ioapicWriteRegister d (ioapicRedirectTableOffset + 2 * irq) lo) i = if i = irq then
      .ofRegisters lo (d.registers (ioapicRedirectTableOffset + 2 * irq + 1)) else entry d i := by
  unfold entry ioapicRedirectTableOffset
  rw [registers_write, registers_write]
  by_cases heq : i = irq
  · rw [if_pos (by omega), if_neg (by omega), if_pos heq, ofRegisters_mod_lo, heq]
  · rw [if_neg (by omega), if_neg (by omega), if_neg heq]

lemma entry_writeHi (d : MmapIoapic) (hi i : Nat) (hirq : irq < 120) :
    entry (ioapicWriteRegister d (ioapicRedirectTableOffset + 2 * irq + 1) hi) i = if i = irq then
      .ofRegisters (d.registers (ioapicRedirectTableOffset + 2 * irq)) hi else entry d i := by
  unfold entry ioapicRedirectTableOffset
  rw [registers_write, registers_write]
  by_cases heq : i = irq
  · rw [if_neg (by omega), if_pos (by omega), if_pos heq, ofRegisters_mod_hi, heq]
  · rw [if_neg (by omega), if_neg (by omega), if_neg heq]

lemma ofRegisters_setVector (lo hi v : Nat) : RedirEntry.ofRegisters (vector.set lo v) hi =
    { RedirEntry.ofRegisters lo hi with vector := v % 256 } := by
  simp [RedirEntry.ofRegisters, Field.get_set, Field.get_set_of_apart, vector, deliveryMode, destinationMode,
    polarity, triggerMode, mask]

lemma ofRegisters_setMask (lo hi v : Nat) : RedirEntry.ofRegisters (mask.set lo v) hi =
    { RedirEntry.ofRegisters lo hi with mask := v % 2 } := by
  simp [RedirEntry.ofRegisters, Field.get_set, Field.get_set_of_apart, vector, deliveryMode, destinationMode,
    polarity, triggerMode, mask]

lemma ofRegisters_routeEntryLo (irqOffset irq masked hi : Nat) :
    RedirEntry.ofRegisters (routeEntryLo irqOffset irq masked) hi =
      { configured irqOffset irq 0 masked with destination := destination.get hi } := by
  simp [RedirEntry.ofRegisters, routeEntryLo, configured, Field.get_set, Field.get_set_of_apart, vector, deliveryMode,
    destinationMode, polarity, triggerMode, mask, destModePhysical, pinPolarityActiveHigh, triggerModeEdgeTriggered]

lemma destination_routeEntryHi (lapicid : Nat) : destination.get (routeEntryHi lapicid) = lapicid % 256 :=
  Field.get_set

end Entries

section Calls

variable {irqOffset irq i lapicid masked count lo : Nat} {d : MmapIoapic}

/-- The loop of `init_ioapic` configures the entries it comes to and no others. -/
lemma entry_initEntries (hle : irq + count ≤ 120)
    (hlo : ∀ j, RedirEntry.ofRegisters (vector.set lo (irqOffset + j)) (destination.set 0 0) =
      configured irqOffset j 0 1) :
    entry (initEntries irqOffset count irq lo d) i =
      if irq ≤ i ∧ i < irq + count then configured irqOffset i 0 1 else entry d i := by
  induction count generalizing irq lo d with
  | zero =>
    rw [if_neg (by omega)]
    rfl
  | succ count ih =>
    have hlo' : ∀ j, RedirEntry.ofRegisters (vector.set (vector.set lo (irqOffset + irq)) (irqOffset + j))
        (destination.set 0 0) = configured irqOffset j 0 1 := by
      intro j
      rw [← hlo j, ofRegisters_setVector, ofRegisters_setVector, ofRegisters_setVector]
    rw [initEntries, ih (by omega) hlo']
    by_cases hlater : irq + 1 ≤ i ∧ i < irq + 1 + count
    · rw [if_pos hlater, if_pos (by omega)]
    · rw [if_neg hlater, entry_writeHi _ _ _ (by omega)]
      by_cases heq : i = irq
      · rw [if_pos heq, if_pos (by omega), registers_write,
          if_pos (by unfold ioapicRedirectTableOffset; omega), ofRegisters_mod_lo, hlo, heq]
      · rw [if_neg heq, entry_writeLo _ _ _ (by omega), if_neg heq, if_neg (by omega)]

lemma entry_initIoapic (hcount : entryCount d ≤ 120) (hi : i < entryCount d) :
    entry (initIoapic irqOffset d) i = configured irqOffset i 0 1 := by
  have hlo : ∀ j, RedirEntry.ofRegisters (vector.set (mask.set (triggerMode.set (polarity.set 0
      pinPolarityActiveHigh) triggerModeEdgeTriggered) 1) (irqOffset + j)) (destination.set 0 0) =
      configured irqOffset j 0 1 := by
    intro j
    simp [RedirEntry.ofRegisters, configured, Field.get_set, Field.get_set_of_apart, Field.get_zero, vector,
      deliveryMode, destinationMode, polarity, triggerMode, mask, destination, destModePhysical,
      pinPolarityActiveHigh, triggerModeEdgeTriggered]
  unfold initIoapic ioapicReadRegister
  dsimp only
  rw [entry_initEntries (by rw [Nat.zero_add]; exact hcount) hlo]
  exact if_pos ⟨Nat.zero_le i, by rw [Nat.zero_add]; exact hi⟩

/-- Between the two writes of `ioapic_route` the entry has the new low half and the old
destination. -/
lemma entry_routeLo (hirq : irq < 120) :
    entry (ioapicWriteRegister d (ioapicRedirectTableOffset + 2 * irq) (routeEntryLo irqOffset irq masked)) i =
      if i = irq then { configured irqOffset i 0 masked with destination := (entry d i).destination }
      else entry d i := by
  rw [entry_writeLo _ _ _ hirq]
  by_cases heq : i = irq
  · rw [if_pos heq, if_pos heq, ofRegisters_routeEntryLo, heq]
    rfl
  · rw [if_neg heq, if_neg heq]

lemma entry_ioapicRoute (hirq : irq < 120) : entry (ioapicRoute irqOffset d irq lapicid masked) i =
    if i = irq then configured irqOffset i lapicid masked else entry d i := by
  unfold ioapicRoute
  rw [entry_writeHi _ _ _ hirq]
  by_cases heq : i = irq
  · rw [if_pos heq, if_pos heq, registers_write, if_pos (by unfold ioapicRedirectTableOffset; omega),
      ofRegisters_mod_lo, ofRegisters_routeEntryLo, destination_routeEntryHi, heq]
    rfl
  · rw [if_neg heq, if_neg heq, entry_writeLo _ _ _ hirq, if_neg heq]

lemma entry_ioapicSetmask (hirq : irq < 120) : entry (ioapicSetmask d irq masked) i =
    if i = irq then { entry d i with mask := masked % 2 } else entry d i := by
  unfold ioapicSetmask ioapicReadRegister
  dsimp only
  rw [entry_writeLo _ _ _ hirq]
  by_cases heq : i = irq
  · rw [if_pos heq, if_pos heq, ofRegisters_setMask, heq]
    unfold MmapIoapic.iowin MmapIoapic.select
    have hsel : (ioapicRedirectTableOffset + 2 * irq) % 256 = ioapicRedirectTableOffset + 2 * irq := by
      unfold ioapicRedirectTableOffset
      omega
    rw [hsel]
    rfl
  · rw [if_neg heq, if_neg heq]
    rfl

end Calls

end JavaScriptOS.Ioapic
