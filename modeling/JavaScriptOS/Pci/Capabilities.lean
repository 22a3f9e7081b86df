import JavaScriptOS.Lib.Lasso
import JavaScriptOS.Pci.RegisterProxy
import Mathlib.Data.FinEnum

/-!
# The capability list

`Capabilities` and its iterator. The list hangs on the pointer byte at offset `0x34`, but the iterator
takes the register at `0x34` itself for the first capability.
-/

namespace JavaScriptOS.Pci
open JavaScriptOS.Lib

structure Capability where
  base : ConfigSpaceAddress
  deriving DecidableEq

/-- `device_capability::MSIX`. -/
def msix : BitVec 8 := 0x11

structure CapabilityIterator where
  capabilityBase : ConfigSpaceAddress
  currentCapability : Capability

def ConfigSpaceAddress.setOffset (a : ConfigSpaceAddress) (offset : BitVec 8) : ConfigSpaceAddress :=
  a.withOffset (offset &&& ~~~0b11#8)

section Iteration

variable (rule : WriteRule) (fallsOff : ConfigSpaceAddress → Capability)

def Capability.capabilityId (c : Capability) : PortM (BitVec 8) := (RegisterProxy.mk (w := .one) c.base 0x00).cast rule

def Capability.nextCapabilityPointer (c : Capability) : PortM (BitVec 8) :=
  (RegisterProxy.mk (w := .one) c.base 0x01).cast rule

/-- `create_capability`. Except for MSI-X it ends without a `return`; `fallsOff` is what comes out then. -/
def createCapability (capabilityBase : ConfigSpaceAddress) : PortM Capability := do
  let id ← (Capability.mk capabilityBase).capabilityId rule
  pure (if id = msix then ⟨capabilityBase⟩ else fallsOff capabilityBase)

namespace CapabilityIterator

/-- The constructor. -/
def ofBase (capabilityBase : ConfigSpaceAddress) : CapabilityIterator := ⟨capabilityBase, ⟨capabilityBase⟩⟩

/-- `operator++`. -/
def advance (it : CapabilityIterator) : PortM CapabilityIterator := do
  let nextCapabilityOffset ← it.currentCapability.nextCapabilityPointer rule
  let capabilityBase := if nextCapabilityOffset = 0 then ⟨0⟩ else it.capabilityBase.setOffset nextCapabilityOffset
  let currentCapability ← createCapability rule fallsOff capabilityBase
  pure ⟨capabilityBase, currentCapability⟩

/-- `Capabilities::begin` of `Device::capabilities`. -/
def begin (d : DeviceBase) : CapabilityIterator := ofBase ((ConfigSpaceAddress.ofDevice d).add 0x34)

/-- `for (it = …; it != end(); ++it)`: the capabilities `*it`, if the loop ends within `fuel` rounds. -/
def iterate : Nat → CapabilityIterator → PortM (Option (List Capability))
  | 0, _ => pure none
  | fuel + 1, it =>
    if it.capabilityBase.raw = 0 then pure (some [])
    else do
      let it' ← it.advance rule fallsOff
      let rest ← iterate fuel it'
      pure (rest.map (it.currentCapability :: ·))

def Visits (s : Ports) (it : CapabilityIterator) (l : List Capability) : Prop :=
  ∃ fuel, (iterate rule fallsOff fuel it s).1 = some l

end CapabilityIterator

end Iteration

/-! ## The chain of pointers -/

/-- Where the capability behind a pointer byte is. -/
def capabilityOffset (pointer : BitVec 8) : BitVec 8 := pointer &&& ~~~0b11#8

def capabilityAt (d : DeviceBase) (pointer : BitVec 8) : Capability :=
  ⟨(ConfigSpaceAddress.ofDevice d).withOffset (capabilityOffset pointer)⟩

def firstPointer (cfg : ConfigSpace) (d : DeviceBase) : BitVec 8 := configByte cfg d 0x34

def nextPointer (cfg : ConfigSpace) (d : DeviceBase) (pointer : BitVec 8) : BitVec 8 :=
  configByte cfg d ((capabilityOffset pointer).toNat + 1)

/-- Following the next bytes comes back to no pointer. -/
def Acyclic (cfg : ConfigSpace) (d : DeviceBase) : Prop :=
  ¬Revisits (linkStep (nextPointer cfg d) 0) (firstPointer cfg d)

/-- The pointers of the list, from the byte at `0x34` on until 0. -/
def PointerChain (cfg : ConfigSpace) (d : DeviceBase) (l : List (BitVec 8)) : Prop :=
  Chain (nextPointer cfg d) 0 (firstPointer cfg d) l

lemma Acyclic.exists_chain {cfg : ConfigSpace} {d : DeviceBase} (h : Acyclic cfg d) : ∃ l, PointerChain cfg d l :=
  exists_chain_of_stops (stops_iff_of_finite.mpr h)

lemma capabilityOffset_toNat (pointer : BitVec 8) : (capabilityOffset pointer).toNat = pointer.toNat / 4 * 4 :=
  ConfigSpaceAddress.toNat_and_not_three pointer

lemma capabilityAt_offset (d : DeviceBase) (pointer : BitVec 8) :
    (capabilityAt d pointer).base.offset = capabilityOffset pointer := ConfigSpaceAddress.withOffset_offset ..

lemma capabilityAt_target (d : DeviceBase) (pointer : BitVec 8) : (capabilityAt d pointer).base.target = d := by
  rw [capabilityAt, ConfigSpaceAddress.withOffset_target, ConfigSpaceAddress.ofDevice_target]

/-- The enable bit of a capability's address is set, so it is not the address of `end()`. -/
lemma capabilityAt_raw_ne_zero (d : DeviceBase) (pointer : BitVec 8) : (capabilityAt d pointer).base.raw ≠ 0 := by
  have hbus := d.bus.isLt
  have hdevice := d.device.isLt
  have hfunction := d.function.isLt
  have hbit : (capabilityAt d pointer).base.raw.getLsbD 31 = true := by
    simp only [capabilityAt, ConfigSpaceAddress.withOffset, ConfigSpaceAddress.ofDevice]
    rw [getLsbD_putBits _ _ (by omega), if_neg (by omega), BitVec.getLsbD_ofNat, Nat.testBit_eq_decide_div_mod_eq]
    simp only [Bool.and_eq_true, decide_eq_true_eq]
    omega
  intro hzero
  rw [hzero] at hbit
  cases hbit

section Reads

variable {rule : WriteRule} {fallsOff : ConfigSpaceAddress → Capability}

lemma byteProxy_cast {p : RegisterProxy .one} (h : p.Fits) (s : Ports) :
    (p.cast rule s).1 = configByte s.words p.base.target p.byteAddress := by
  rw [← Nat.add_zero p.byteAddress, ← h.byteAt_cast s Nat.one_pos]
  exact BitVec.extractLsb'_eq_self.symm

lemma byte_of_capability (d : DeviceBase) (pointer : BitVec 8) {o : BitVec 8} (ho : o.toNat ≤ 3) (s : Ports) :
    ((RegisterProxy.mk (w := .one) (capabilityAt d pointer).base o).cast rule s).1 =
      configByte s.words d ((capabilityOffset pointer).toNat + o.toNat) := by
  have hoffset := capabilityOffset_toNat pointer
  have hfits : (RegisterProxy.mk (w := .one) (capabilityAt d pointer).base o).Fits := by
    refine ⟨Nat.mod_one _, ?_⟩
    rw [capabilityAt_offset]
    dsimp only
    omega
  rw [byteProxy_cast hfits, capabilityAt_target, RegisterProxy.byteAddress, capabilityAt_offset]
  congr 1
  dsimp only
  omega

end Reads

/-- `create_capability` gives the capability it is asked for: it is MSI-X, or what falls off the end
happens to be right. -/
def Created (cfg : ConfigSpace) (d : DeviceBase) (fallsOff : ConfigSpaceAddress → Capability)
    (pointer : BitVec 8) : Prop :=
  configByte cfg d (capabilityOffset pointer).toNat = msix ∨
    fallsOff (capabilityAt d pointer).base = capabilityAt d pointer

namespace CapabilityIterator

variable {rule : WriteRule} {fallsOff : ConfigSpaceAddress → Capability} {s : Ports} {it : CapabilityIterator}
variable {l : List Capability}

/-- The reads leave the words as they are, so that the new capability is created from the old state. -/
lemma advance_fst (it : CapabilityIterator) (s : Ports) : (it.advance rule fallsOff s).1 =
    let next := (it.currentCapability.nextCapabilityPointer rule s).1
    let base : ConfigSpaceAddress := if next = 0 then ⟨0⟩ else it.capabilityBase.setOffset next
    ⟨base, (createCapability rule fallsOff base s).1⟩ := rfl

lemma advance_words : (it.advance rule fallsOff s).2.words = s.words := rfl

lemma createCapability_fst (base : ConfigSpaceAddress) : (createCapability rule fallsOff base s).1 =
    if ((Capability.mk base).capabilityId rule s).1 = msix then ⟨base⟩ else fallsOff base := rfl

lemma createCapability_eq_iff (d : DeviceBase) (pointer : BitVec 8) :
    (createCapability rule fallsOff (capabilityAt d pointer).base s).1 = capabilityAt d pointer ↔
      Created s.words d fallsOff pointer := by
  have hid : ((Capability.mk (capabilityAt d pointer).base).capabilityId rule s).1 =
      configByte s.words d (capabilityOffset pointer).toNat := 
      byte_of_capability d pointer (o := 0) (by decide) s
  rw [createCapability_fst, hid, Created]
  split
  case isTrue h => simp [h]
  case isFalse h => simp [h]

lemma visits_end_iff (h : it.capabilityBase.raw = 0) : Visits rule fallsOff s it l ↔ l = [] := by
  constructor
  · rintro ⟨fuel, hl⟩
    cases fuel with
    | zero => cases hl
    | succ fuel =>
      rw [iterate, if_pos h] at hl
      exact (Option.some.inj hl).symm
  · rintro rfl
    refine ⟨1, ?_⟩
    rw [iterate, if_pos h]
    rfl

lemma visits_step_iff (h : it.capabilityBase.raw ≠ 0) :
    Visits rule fallsOff s it l ↔ ∃ rest, l = it.currentCapability :: rest ∧
      Visits rule fallsOff (it.advance rule fallsOff s).2 (it.advance rule fallsOff s).1 rest := by
  have hround : ∀ fuel, (iterate rule fallsOff (fuel + 1) it s).1 =
      (iterate rule fallsOff fuel (it.advance rule fallsOff s).1 (it.advance rule fallsOff s).2).1.map
        (it.currentCapability :: ·) := by
    intro fuel
    rw [iterate, if_neg h]
    rfl
  constructor
  · rintro ⟨fuel, hl⟩
    cases fuel with
    | zero => cases hl
    | succ fuel =>
      rw [hround] at hl
      obtain ⟨rest, hrest, rfl⟩ := Option.map_eq_some_iff.mp hl
      exact ⟨rest, rfl, fuel, hrest⟩
  · rintro ⟨rest, rfl, fuel, hrest⟩
    refine ⟨fuel + 1, ?_⟩
    rw [hround, hrest]
    rfl

lemma visits_cons_iff (h : it.capabilityBase.raw ≠ 0) {c : Capability} :
    Visits rule fallsOff s it (c :: l) ↔ it.currentCapability = c ∧
      Visits rule fallsOff (it.advance rule fallsOff s).2 (it.advance rule fallsOff s).1 l := by
  rw [visits_step_iff h]
  constructor
  · rintro ⟨rest, heq, hv⟩
    obtain ⟨rfl, rfl⟩ := List.cons.inj heq
    exact ⟨rfl, hv⟩
  · rintro ⟨rfl, hv⟩
    exact ⟨l, rfl, hv⟩

lemma setOffset_capabilityAt (d : DeviceBase) (pointer next : BitVec 8) :
    (capabilityAt d pointer).base.setOffset next = (capabilityAt d next).base :=
  ConfigSpaceAddress.withOffset_withOffset ..

/-- The iterator after the one at the capability of `pointer`. -/
lemma advance_at (d : DeviceBase) (pointer : BitVec 8) (s : Ports) :
    ((CapabilityIterator.mk (capabilityAt d pointer).base (capabilityAt d pointer)).advance rule fallsOff s).1 =
      let base : ConfigSpaceAddress := if nextPointer s.words d pointer = 0 then ⟨0⟩
        else (capabilityAt d (nextPointer s.words d pointer)).base
      ⟨base, (createCapability rule fallsOff base s).1⟩ := by
  have hnext : ((capabilityAt d pointer).nextCapabilityPointer rule s).1 = nextPointer s.words d pointer :=
    byte_of_capability d pointer (o := 1) (by decide) s
  rw [advance_fst]
  dsimp only
  rw [hnext, setOffset_capabilityAt]

lemma visits_chain_iff {cfg : ConfigSpace} {d : DeviceBase} {pointer : BitVec 8} {l : List (BitVec 8)}
    (hchain : Chain (nextPointer cfg d) 0 pointer l) (hne : pointer ≠ 0) (c : Capability) (hs : s.words = cfg) :
    Visits rule fallsOff s ⟨(capabilityAt d pointer).base, c⟩ (l.map (capabilityAt d)) ↔
      c = capabilityAt d pointer ∧ ∀ q ∈ l.tail, Created cfg d fallsOff q := by
  induction hchain generalizing s c with
  | nil => exact absurd rfl hne
  | @cons x l' hx hrest ih =>
    rw [List.map_cons, visits_cons_iff (capabilityAt_raw_ne_zero d x), List.tail_cons]
    refine and_congr_right fun hc => ?_
    dsimp only at hc
    subst hc
    rw [advance_at, hs]
    by_cases hzero : nextPointer cfg d x = 0
    · -- the list ends, and so does the loop
      have hnil : l' = [] := hrest.eq_nil_iff.mpr hzero
      rw [if_pos hzero, hnil, visits_end_iff rfl]
      simp
    · rw [if_neg hzero, ih hzero _ (advance_words.trans hs)]
      rw [createCapability_eq_iff, hs]
      rcases hrest.inv with ⟨h0, -⟩ | ⟨-, rest, hl, -⟩
      · exact absurd h0 hzero
      · rw [hl, List.tail_cons, List.forall_mem_cons]

lemma begin_eq (d : DeviceBase) : begin d = ⟨(capabilityAt d 0x34).base, capabilityAt d 0x34⟩ := by
  have hbase : (ConfigSpaceAddress.ofDevice d).add 0x34 = (capabilityAt d 0x34).base := by
    rw [ConfigSpaceAddress.add, ConfigSpaceAddress.ofDevice_offset, BitVec.zero_add]
    rfl
  rw [begin, ofBase, hbase]

/-- The loop starts at `0x34` itself and not behind the pointer there. -/
lemma visits_begin_iff {d : DeviceBase} {l : List (BitVec 8)} (hchain : PointerChain s.words d l) :
    Visits rule fallsOff s (begin d) (l.map (capabilityAt d)) ↔
      capabilityOffset (firstPointer s.words d) = 0x34 ∧ ∀ q ∈ l.tail, Created s.words d fallsOff q := by
  have hself : capabilityOffset 0x34 = 0x34 := by decide
  rw [begin_eq]
  by_cases hoffset : capabilityOffset (firstPointer s.words d) = 0x34
  · have hne : firstPointer s.words d ≠ 0 := by
      intro hzero
      rw [hzero] at hoffset
      exact absurd hoffset (by decide)
    have hfirst : capabilityAt d 0x34 = capabilityAt d (firstPointer s.words d) := by
      rw [capabilityAt, capabilityAt, hoffset, hself]
    rw [hfirst, visits_chain_iff hchain hne _ rfl]
    simp only [hoffset, true_and]
  · refine iff_of_false (fun hv => hoffset ?_) (fun h => hoffset h.1)
    obtain ⟨rest, hl, -⟩ := (visits_step_iff (capabilityAt_raw_ne_zero d 0x34)).mp hv
    rcases hchain.inv with ⟨-, rfl⟩ | ⟨-, rest', rfl, -⟩
    · cases hl
    · have hhead : capabilityAt d (firstPointer s.words d) = capabilityAt d 0x34 := (List.cons.inj hl).1
      rw [← capabilityAt_offset d, hhead, capabilityAt_offset, hself]

end CapabilityIterator

theorem capabilities_visits_iff (rule : WriteRule) (fallsOff : ConfigSpaceAddress → Capability) (d : DeviceBase)
    (s : Ports) (h : Acyclic s.words d) :
    ∃ l, PointerChain s.words d l ∧
      (CapabilityIterator.Visits rule fallsOff s (.begin d) (l.map (capabilityAt d)) ↔
        capabilityOffset (firstPointer s.words d) = 0x34 ∧ ∀ q ∈ l.tail, Created s.words d fallsOff q) := by
  obtain ⟨l, hl⟩ := h.exists_chain
  exact ⟨l, hl, CapabilityIterator.visits_begin_iff hl⟩

lemma acyclic_of_trail {cfg : ConfigSpace} {d : DeviceBase} (k : Nat)
    (h : trail (linkStep (nextPointer cfg d) 0) k (firstPointer cfg d) = none) : Acyclic cfg d :=
  fun hre => hre.not_stops ⟨k, h⟩

/-- The pointer byte is `0x34` itself, whose next byte leads to the MSI-X capability at `0x40`. -/
def msixBehind : Ports :=
  ⟨⟨0⟩, fun _ dword => if dword = 13 then 0x4034 else if dword = 16 then 0x11 else 0⟩

theorem capabilities_visits_two : CapabilityIterator.Visits memoryRule (fun _ => ⟨⟨0⟩⟩) msixBehind
    (.begin ⟨0, 3, 0⟩) [capabilityAt ⟨0, 3, 0⟩ 0x34, capabilityAt ⟨0, 3, 0⟩ 0x40] := by
  obtain ⟨l, hl, hiff⟩ := capabilities_visits_iff memoryRule (fun _ => ⟨⟨0⟩⟩) ⟨0, 3, 0⟩ msixBehind
    (acyclic_of_trail 3 (by decide))
  have hchain : PointerChain msixBehind.words ⟨0, 3, 0⟩ [0x34, 0x40] := .cons (by decide) (.cons (by decide) .nil)
  obtain rfl : l = [0x34, 0x40] := hl.unique hchain
  refine hiff.mpr ⟨by decide, ?_⟩
  -- the second capability is MSI-X, for which `create_capability` has a `return`
  intro q hq
  cases List.mem_singleton.mp hq
  exact Or.inl (by decide)

/-- A device with a list of one capability at `0x40`. -/
def pointing : Ports := ⟨⟨0⟩, fun _ dword => if dword = 13 then 0x40 else 0⟩

/-- The loop visits `0x34` instead. -/
theorem capabilities_miss_first : ¬∀ (rule : WriteRule) (fallsOff : ConfigSpaceAddress → Capability) (d : DeviceBase)
    (s : Ports), Acyclic s.words d → ∃ l, PointerChain s.words d l ∧
      CapabilityIterator.Visits rule fallsOff s (.begin d) (l.map (capabilityAt d)) := by
  intro h
  obtain ⟨l, hl, hv⟩ := h memoryRule Capability.mk ⟨0, 3, 0⟩ pointing (acyclic_of_trail 2 (by decide))
  exact absurd (CapabilityIterator.visits_begin_iff hl |>.mp hv).1 (by decide)

end JavaScriptOS.Pci
