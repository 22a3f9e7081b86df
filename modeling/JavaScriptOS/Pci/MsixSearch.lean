import JavaScriptOS.Pci.Capabilities
import JavaScriptOS.Pci.Legacy

/-!
# The search for the MSI-X capability

`enable_msix` of `pci.c` follows the next pointers of the capabilities in a loop of its own, and the one of
`pci.cpp` calls `find_if` on `Capabilities`. Neither keeps track of where it has been, so each ends exactly
if its pointers do not run into a ring or lead to MSI-X. What `enable_msix` does with the capability
afterwards is not modelled.
-/

namespace JavaScriptOS.Pci
open JavaScriptOS.Lib

namespace Legacy

/-- `pci_status_reg::capabilities_list`. -/
def capabilitiesList (status : BitVec 16) : Bool := status.getLsbD 4

/-- The members of `pci_capaibility_common`. -/
def capabilityId (cap : BitVec 16) : BitVec 8 := cap.extractLsb' 0 8
def nextCapabilityPointer (cap : BitVec 16) : BitVec 8 := cap.extractLsb' 8 8

inductive MsixSearch where
  | noCapabilitiesList
  | noMsixCapability
  | found (capOff : BitVec 8)
  deriving DecidableEq

/-- The `while` loop of `enable_msix`, if it ends within `fuel` rounds. -/
def searchMsix (cfg : ConfigSpace) (d : DeviceBase) : Nat → BitVec 8 → Option MsixSearch
  | 0, _ => none
  | fuel + 1, capOff =>
    if capOff = 0 then some .noMsixCapability
    else
      let cap := pciReadRegister16 cfg d capOff.toNat
      if capabilityId cap = msix then some (.found capOff)
      else searchMsix cfg d fuel (nextCapabilityPointer cap)

/-- `enable_msix`, up to the capability. -/
def enableMsix (fuel : Nat) (cfg : ConfigSpace) (d : DeviceBase) : Option MsixSearch :=
  if !capabilitiesList (pciReadRegister16 cfg d 0x06) then some .noCapabilitiesList
  else searchMsix cfg d fuel (pciReadRegister8 cfg d 0x34)

/-- The links that the loop follows. -/
def idAt (cfg : ConfigSpace) (d : DeviceBase) (capOff : BitVec 8) : BitVec 8 :=
  capabilityId (pciReadRegister16 cfg d capOff.toNat)
def nextAt (cfg : ConfigSpace) (d : DeviceBase) (capOff : BitVec 8) : BitVec 8 :=
  nextCapabilityPointer (pciReadRegister16 cfg d capOff.toNat)

lemma searchMsix_isSome_iff (cfg : ConfigSpace) (d : DeviceBase) (fuel : Nat) (capOff : BitVec 8) :
    (searchMsix cfg d fuel capOff).isSome ↔
      trail (searchStep (idAt cfg d · = msix) (nextAt cfg d) 0) fuel capOff = none := by
  induction fuel generalizing capOff with
  | zero => simp [searchMsix, trail]
  | succ fuel ih =>
    have hround : searchMsix cfg d (fuel + 1) capOff = if capOff = 0 then some .noMsixCapability else
        if idAt cfg d capOff = msix then some (.found capOff) else searchMsix cfg d fuel (nextAt cfg d capOff) := rfl
    rw [hround, trail, searchStep]
    by_cases hzero : capOff = 0
    · rw [if_pos hzero, if_pos (Or.inl hzero)]
      simp
    by_cases hid : idAt cfg d capOff = msix
    · rw [if_neg hzero, if_pos hid, if_pos (Or.inr hid)]
      simp
    · rw [if_neg hzero, if_neg hid, if_neg (not_or.mpr ⟨hzero, hid⟩)]
      exact ih _

lemma enableMsix_ends_iff (cfg : ConfigSpace) (d : DeviceBase) : (∃ fuel, (enableMsix fuel cfg d).isSome) ↔
    capabilitiesList (pciReadRegister16 cfg d 0x06) = false ∨
      ¬Revisits (linkStep (nextAt cfg d) 0) (pciReadRegister8 cfg d 0x34) ∨
      LeadsTo (idAt cfg d · = msix) (nextAt cfg d) 0 (pciReadRegister8 cfg d 0x34) := by
  rw [← stops_iff_of_finite, ← stops_search_iff, Stops]
  cases hlist : capabilitiesList (pciReadRegister16 cfg d 0x06) with
  | false => simp [enableMsix, hlist]
  | true => simp [enableMsix, hlist, searchMsix_isSome_iff]

end Legacy

namespace CapabilityIterator

section Search

variable (rule : WriteRule) (fallsOff : ConfigSpaceAddress → Capability)

/-- `Capabilities::end`. -/
def last : CapabilityIterator := ofBase ⟨0⟩

/-- `std::find_if`, if it returns within `fuel` rounds. -/
def findIf (p : Capability → PortM Bool) : Nat → CapabilityIterator → PortM (Option CapabilityIterator)
  | 0, _ => pure none
  | fuel + 1, first =>
    if first.capabilityBase.raw = 0 then pure (some last)
    else do
      if ← p first.currentCapability then pure (some first)
      else do
        let first ← first.advance rule fallsOff
        findIf p fuel first

/-- The predicate that `enable_msix` passes. -/
def isMsix (capability : Capability) : PortM Bool := do
  let id ← capability.capabilityId rule
  pure (id = msix)

/-- The next iterator of the search. Reads leave the configuration space alone, so every round reads what
the first one finds in `s`. -/
def findStep (s : Ports) (it : CapabilityIterator) : Option CapabilityIterator :=
  if it.capabilityBase.raw = 0 ∨ (it.currentCapability.capabilityId rule s).1 = msix then none
  else some (it.advance rule fallsOff s).1

end Search

variable {rule : WriteRule} {fallsOff : ConfigSpaceAddress → Capability} {s s' : Ports}

lemma capabilityId_congr (h : s'.words = s.words) (c : Capability) :
    (c.capabilityId rule s').1 = (c.capabilityId rule s).1 := by
  rw [Capability.capabilityId, RegisterProxy.cast_fst, RegisterProxy.cast_fst, RegisterProxy.readRegister_run,
    RegisterProxy.readRegister_run, h]

lemma advance_congr (h : s'.words = s.words) (it : CapabilityIterator) :
    (it.advance rule fallsOff s').1 = (it.advance rule fallsOff s).1 := by
  have hnext : (it.currentCapability.nextCapabilityPointer rule s').1 =
      (it.currentCapability.nextCapabilityPointer rule s).1 := by
    rw [Capability.nextCapabilityPointer, RegisterProxy.cast_fst, RegisterProxy.cast_fst,
      RegisterProxy.readRegister_run, RegisterProxy.readRegister_run, h]
  have hcreate : ∀ base, (createCapability rule fallsOff base s').1 = (createCapability rule fallsOff base s).1 := by
    intro base
    rw [createCapability_fst, createCapability_fst, capabilityId_congr h]
  rw [advance_fst, advance_fst, hnext]
  dsimp only
  rw [hcreate]

/-- One round of the search for MSI-X. -/
lemma findIf_succ (fuel : Nat) {it : CapabilityIterator} (h : it.capabilityBase.raw ≠ 0) :
    (findIf rule fallsOff (isMsix rule) (fuel + 1) it s').1 =
      if (it.currentCapability.capabilityId rule s').1 = msix then some it
      else (findIf rule fallsOff (isMsix rule) fuel (it.advance rule fallsOff s').1
        (it.advance rule fallsOff (isMsix rule it.currentCapability s').2).2).1 := by
  have htest : (isMsix rule it.currentCapability s').1 =
      decide ((it.currentCapability.capabilityId rule s').1 = msix) := rfl
  have hround : findIf rule fallsOff (isMsix rule) (fuel + 1) it s' =
      (if (isMsix rule it.currentCapability s').1 then pure (some it)
        else it.advance rule fallsOff >>= findIf rule fallsOff (isMsix rule) fuel : PortM _)
        (isMsix rule it.currentCapability s').2 := by
    rw [findIf, if_neg h]
    rfl
  rw [hround, htest]
  by_cases hid : (it.currentCapability.capabilityId rule s').1 = msix
  · rw [if_pos hid, if_pos (decide_eq_true hid)]
    rfl
  · rw [if_neg hid, if_neg (by simpa using hid)]
    rfl

lemma findIf_isSome_iff (h : s'.words = s.words) (fuel : Nat) (it : CapabilityIterator) :
    (findIf rule fallsOff (isMsix rule) fuel it s').1.isSome ↔ trail (findStep rule fallsOff s) fuel it = none := by
  -- the port keeps the address of the last read, so the state is not that of the first round
  induction fuel generalizing it s' with
  | zero => exact iff_of_false Bool.false_ne_true (Option.some_ne_none it)
  | succ fuel ih =>
    rw [trail, findStep]
    by_cases hend : it.capabilityBase.raw = 0
    · rw [findIf, if_pos hend, if_pos (Or.inl hend)]
      exact iff_of_true rfl rfl
    · rw [findIf_succ fuel hend, capabilityId_congr h]
      by_cases hid : (it.currentCapability.capabilityId rule s).1 = msix
      · rw [if_pos hid, if_pos (Or.inr hid)]
        simp
      · rw [if_neg hid, if_neg (not_or.mpr ⟨hend, hid⟩), advance_congr h]
        exact ih (advance_words.trans h) _

lemma findIf_ends_iff (it : CapabilityIterator) :
    (∃ fuel, (findIf rule fallsOff (isMsix rule) fuel it s).1.isSome) ↔ Stops (findStep rule fallsOff s) it :=
  exists_congr fun fuel => findIf_isSome_iff rfl fuel it

section Pointers

variable (rule fallsOff) (s : Ports) (d : DeviceBase)

/-- The iterator that `operator++` makes of a next pointer. -/
def iteratorAt (pointer : BitVec 8) : CapabilityIterator :=
  let capabilityBase : ConfigSpaceAddress := if pointer = 0 then ⟨0⟩ else (capabilityAt d pointer).base
  ⟨capabilityBase, (createCapability rule fallsOff capabilityBase s).1⟩

/-- The links that `find_if` follows: the bytes are those of the capability that was created. -/
def createdId (pointer : BitVec 8) : BitVec 8 :=
  ((iteratorAt rule fallsOff s d pointer).currentCapability.capabilityId rule s).1
def createdNext (pointer : BitVec 8) : BitVec 8 :=
  ((iteratorAt rule fallsOff s d pointer).currentCapability.nextCapabilityPointer rule s).1

end Pointers

variable {d : DeviceBase}

lemma iteratorAt_end_iff (pointer : BitVec 8) :
    (iteratorAt rule fallsOff s d pointer).capabilityBase.raw = 0 ↔ pointer = 0 := by
  rw [iteratorAt]
  dsimp only
  split
  case isTrue hzero => exact iff_of_true rfl hzero
  case isFalse hzero => exact iff_of_false (capabilityAt_raw_ne_zero d pointer) hzero

lemma findStep_iteratorAt (pointer : BitVec 8) :
    findStep rule fallsOff s (iteratorAt rule fallsOff s d pointer) =
      (searchStep (createdId rule fallsOff s d · = msix) (createdNext rule fallsOff s d) 0 pointer).map
        (iteratorAt rule fallsOff s d) := by
  have hend : ((iteratorAt rule fallsOff s d pointer).capabilityBase.raw = 0 ∨
      createdId rule fallsOff s d pointer = msix) ↔ pointer = 0 ∨ createdId rule fallsOff s d pointer = msix :=
    or_congr_left (iteratorAt_end_iff pointer)
  have hstep : findStep rule fallsOff s (iteratorAt rule fallsOff s d pointer) =
      if (iteratorAt rule fallsOff s d pointer).capabilityBase.raw = 0 ∨ createdId rule fallsOff s d pointer = msix
        then none else some ((iteratorAt rule fallsOff s d pointer).advance rule fallsOff s).1 := rfl
  rw [hstep, searchStep]
  by_cases hstop : pointer = 0 ∨ createdId rule fallsOff s d pointer = msix
  · rw [if_pos hstop, if_pos (hend.mpr hstop), Option.map_none]
  · have hbase : (iteratorAt rule fallsOff s d pointer).capabilityBase = (capabilityAt d pointer).base :=
      if_neg fun hzero => hstop (Or.inl hzero)
    rw [if_neg hstop, if_neg (mt hend.mp hstop), Option.map_some, advance_fst]
    dsimp only
    rw [hbase, setOffset_capabilityAt]
    rfl

/-- The first round looks at `0x34`, which was not created; after it the iterators are those of next pointers. -/
lemma findIf_begin_ends_iff : (∃ fuel, (findIf rule fallsOff (isMsix rule) fuel (.begin d) s).1.isSome) ↔
    configByte s.words d 0x34 = msix ∨
      ¬Revisits (linkStep (createdNext rule fallsOff s d) 0) (nextPointer s.words d 0x34) ∨
      LeadsTo (createdId rule fallsOff s d · = msix) (createdNext rule fallsOff s d) 0
        (nextPointer s.words d 0x34) := by
  have hid : ((capabilityAt d 0x34).capabilityId rule s).1 = configByte s.words d 0x34 :=
    byte_of_capability d 0x34 (o := 0) (by decide) s
  rw [findIf_ends_iff, ← stops_iff_of_finite, ← stops_search_iff, ← stops_map_iff findStep_iteratorAt, begin_eq]
  by_cases hmsix : configByte s.words d 0x34 = msix
  · refine iff_of_true ⟨1, ?_⟩ (Or.inl hmsix)
    rw [trail, findStep, if_pos (Or.inr (hid.trans hmsix)), Option.bind_none]
  · rw [or_iff_right hmsix]
    apply stops_step_iff
    rw [findStep, if_neg, advance_at]
    · rfl
    · rintro (hzero | hfound)
      · exact capabilityAt_raw_ne_zero _ _ hzero
      · exact hmsix (hid.symm.trans hfound)

end CapabilityIterator

/-- Both searches end in this state of the configuration space. -/
def SearchesEnd (rule : WriteRule) (fallsOff : ConfigSpaceAddress → Capability) (d : DeviceBase) (s : Ports) : Prop :=
  (∃ fuel, (Legacy.enableMsix fuel s.words d).isSome) ∧
    ∃ fuel, (CapabilityIterator.findIf rule fallsOff (CapabilityIterator.isMsix rule) fuel (.begin d) s).1.isSome

section Links

open Legacy CapabilityIterator

/-- The pointers from the byte at `0x34` on come back to none of them, or one of them leads to MSI-X. -/
def LegacyLinksEnd (cfg : ConfigSpace) (d : DeviceBase) : Prop :=
  ¬Revisits (linkStep (nextAt cfg d) 0) (pciReadRegister8 cfg d 0x34) ∨
    LeadsTo (idAt cfg d · = msix) (nextAt cfg d) 0 (pciReadRegister8 cfg d 0x34)

/-- The same for the pointers of `Capabilities`, which begin with the byte at `0x35`. -/
def LinksEnd (rule : WriteRule) (fallsOff : ConfigSpaceAddress → Capability) (d : DeviceBase) (s : Ports) : Prop :=
  ¬Revisits (linkStep (createdNext rule fallsOff s d) 0) (nextPointer s.words d 0x34) ∨
    LeadsTo (createdId rule fallsOff s d · = msix) (createdNext rule fallsOff s d) 0 (nextPointer s.words d 0x34)

theorem msix_search_ends_iff (rule : WriteRule) (fallsOff : ConfigSpaceAddress → Capability) (d : DeviceBase)
    (s : Ports) : SearchesEnd rule fallsOff d s ↔
      (capabilitiesList (pciReadRegister16 s.words d 0x06) = false ∨ LegacyLinksEnd s.words d) ∧
      (configByte s.words d 0x34 = msix ∨ LinksEnd rule fallsOff d s) :=
  and_congr (enableMsix_ends_iff s.words d) findIf_begin_ends_iff

end Links

/-- One capability at `0x40`, of another kind than MSI-X, whose next pointer is `0x40` again. -/
def selfLinked : ConfigSpace :=
  fun _ dword => if dword = 1 then 0x00100000 else if dword = 13 then 0x40 else if dword = 16 then 0x4005 else 0

lemma searchStep_selfLinked : searchStep (Legacy.idAt selfLinked ⟨0, 3, 0⟩ · = msix)
    (Legacy.nextAt selfLinked ⟨0, 3, 0⟩) 0 0x40 = some 0x40 := by decide

/-- The loop of `pci.c` goes round on the device that links to itself. -/
theorem msix_search_diverges :
    ¬∀ (cfg : ConfigSpace) (d : DeviceBase), ∃ fuel, (Legacy.enableMsix fuel cfg d).isSome := by
  intro h
  obtain ⟨fuel, hends⟩ := h selfLinked ⟨0, 3, 0⟩
  have hstop : Stops (searchStep (Legacy.idAt selfLinked ⟨0, 3, 0⟩ · = msix)
      (Legacy.nextAt selfLinked ⟨0, 3, 0⟩) 0) 0x40 :=
    ⟨fuel, (Legacy.searchMsix_isSome_iff selfLinked ⟨0, 3, 0⟩ fuel 0x40).mp hends⟩
  exact (Revisits.of_fixed searchStep_selfLinked).not_stops hstop

end JavaScriptOS.Pci
