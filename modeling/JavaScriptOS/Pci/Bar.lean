import JavaScriptOS.Lib.History
import JavaScriptOS.Pci.RegisterProxy

/-!
# Base address registers

`BAR`, `get_BAR_space_type` and `BAR_address`. A register is read and written through a `RegisterProxy`;
`hlt` ends the run. `BAR_address` hands its address to `ErrorOr` as an integer, which makes it an error
code.
-/

namespace JavaScriptOS.Pci
open JavaScriptOS.Lib

inductive BarSpaceType where
  | ioSpace | memory16BitSpace | memory32BitSpace | memory64BitSpace
  deriving DecidableEq

/-- The type field of a memory BAR. -/
def memoryType (bar : BitVec 32) : BitVec 2 := bar.extractLsb' 1 2

/-- `get_BAR_space_type`; `none` is the `hlt` of an invalid type. -/
def getBarSpaceType (bar : BitVec 32) : Option BarSpaceType :=
  if bar &&& 1#32 ≠ 0 then some .ioSpace
  else match memoryType bar with
    | 0 => some .memory32BitSpace
    | 1 => some .memory16BitSpace
    | 2 => some .memory64BitSpace
    | _ => none

/-- `BAR_t::base_addr`. -/
def baseAddr (bar : BitVec 32) : BitVec 32 := if bar &&& 1#32 ≠ 0 then bar &&& ~~~0b1111#32 else bar &&& ~~~0b11#32

section MemoryBar

variable {bar : BitVec 32}

lemma and_one_eq_zero_iff : bar &&& 1#32 = 0 ↔ bar.getLsbD 0 = false := by
  rw [BitVec.and_one_eq_setWidth_ofBool_getLsbD]
  cases bar.getLsbD 0 <;> decide

lemma getBarSpaceType_memory32 (hbit : bar &&& 1#32 = 0) (h : memoryType bar = 0) :
    getBarSpaceType bar = some .memory32BitSpace := by
  rw [getBarSpaceType, if_neg (not_not.mpr hbit), h]
  rfl

lemma getBarSpaceType_memory64 (hbit : bar &&& 1#32 = 0) (h : memoryType bar = 2) :
    getBarSpaceType bar = some .memory64BitSpace := by
  rw [getBarSpaceType, if_neg (not_not.mpr hbit), h]
  rfl

/-- The flag bits 2 and 3 stay in the address of a memory BAR. -/
lemma baseAddr_memory (hbit : bar &&& 1#32 = 0) : baseAddr bar = bar &&& ~~~0b11#32 := if_neg (not_not.mpr hbit)

end MemoryBar

inductive ErrorOr (α : Type) where
  | value (value : α)
  | error (errorCode : BitVec 32)
  deriving DecidableEq

/-- A `u32` or `u64` converts to `int` and not to a pointer, so of the two constructors of `ErrorOr<void*>`
it is the one for error codes that takes it. -/
def ErrorOr.ofInteger {α : Type} {w : Nat} (x : BitVec w) : ErrorOr α := .error (x.setWidth 32)

def EIO : BitVec 32 := 5
def EINVAL : BitVec 32 := 22

/-- The writes to registers that a run records. -/
inductive RegisterWrite where
  | command
  | bar (n : Nat) (value : BitVec 32)
  deriving DecidableEq

abbrev DeviceM := HistoryM Ports RegisterWrite

def bar0Offset : Nat := 0x10

/-- `BAR` builds its proxy from an address alone; the offset is taken to be 0. -/
def barProxy (d : DeviceBase) (n : Nat) : RegisterProxy .four :=
  ⟨(ConfigSpaceAddress.ofDevice d).add (BitVec.ofNat 8 (bar0Offset + 4 * n)), 0⟩

section Device

variable (rule : WriteRule) (d : DeviceBase) (maxBar n : Nat)

def bar : DeviceM (RegisterProxy .four) := if maxBar < n then HistoryM.halt else pure (barProxy d n)

def readBar : DeviceM (BitVec 32) := do
  let p ← bar d maxBar n
  HistoryM.look (p.cast rule)

def writeBar (value : BitVec 32) : DeviceM Unit := do
  let p ← bar d maxBar n
  HistoryM.act (.bar n value) (p.assign rule value)

def barAddress : DeviceM (ErrorOr (BitVec 64)) := do
  let bar ← readBar rule d maxBar n
  let type ← HistoryM.orHalt (getBarSpaceType bar)
  if type = .ioSpace then pure (.ofInteger EIO)
  else if type = .memory64BitSpace then
    if maxBar ≤ n then pure (.ofInteger EINVAL)
    else do
      let nextBar ← readBar rule d maxBar (n + 1)
      pure (.ofInteger (((baseAddr nextBar).setWidth 64 <<< 32) ||| (baseAddr bar).setWidth 64))
  else pure (.ofInteger (baseAddr bar))

end Device

/-- The word of configuration space that `BAR(n)` stands for: `4 + n`, in an 8-bit offset. -/
def barDword (n : Nat) : Nat := (bar0Offset + 4 * n) % 256 / 4

lemma barDword_eq {n : Nat} (hn : n < 6) : barDword n = 4 + n := by
  unfold barDword bar0Offset
  omega

section Proxy

variable {rule : WriteRule} (d : DeviceBase) (n : Nat)

lemma barProxy_fits : (barProxy d n).Fits where
  aligned := rfl
  noWrap := by
    have hlt := (barProxy d n).base.offset.isLt
    have hzero : (barProxy d n).offset.toNat = 0 := rfl
    omega

lemma barProxy_target : (barProxy d n).base.target = d := by
  rw [barProxy, ConfigSpaceAddress.add_target, ConfigSpaceAddress.ofDevice_target]

lemma barProxy_dword : (barProxy d n).byteAddress / 4 = barDword n := by
  let o := BitVec.ofNat 8 (bar0Offset + 4 * n)
  have hzero : (ConfigSpaceAddress.ofDevice d).offset.toNat = 0 := by
    rw [ConfigSpaceAddress.ofDevice_offset, BitVec.toNat_zero]
  have hbase : (barProxy d n).base.dword = o.toNat / 4 := by
    rw [barProxy, ConfigSpaceAddress.add_dword _ _ (by rw [hzero]; omega), hzero, Nat.zero_div, Nat.zero_add]
  have ho : o.toNat = (bar0Offset + 4 * n) % 256 := BitVec.toNat_ofNat _ _
  have hbyte : (barProxy d n).byteAddress = (barProxy d n).base.dword * 4 := Nat.add_zero _
  rw [hbyte, Nat.mul_div_cancel _ (by omega), hbase, ho, barDword]

lemma barProxy_shift : (barProxy d n).shift = 0 := by
  change (0#8 &&& 0b11#8).toNat * 8 = 0
  decide

/-- The word a proxy of a BAR selects. -/
lemma barProxy_selects : ((barProxy d n).base.add (barProxy d n).offset).target = d ∧
    ((barProxy d n).base.add (barProxy d n).offset).dword = barDword n := by
  rw [ConfigSpaceAddress.add_target, barProxy_target, (barProxy_fits d n).dword_eq, barProxy_dword]
  exact ⟨rfl, rfl⟩

lemma barProxy_read (s : Ports) : ((barProxy d n).readRegister rule s).1 = s.words d (barDword n) := by
  rw [RegisterProxy.readRegister_run, (barProxy_selects d n).1, (barProxy_selects d n).2, barProxy_shift,
    BitVec.ushiftRight_zero]

lemma barProxy_cast (s : Ports) : ((barProxy d n).cast rule s).1 = s.words d (barDword n) := by
  rw [RegisterProxy.cast_fst]
  exact (BitVec.setWidth_eq _).trans (barProxy_read d n s)

lemma barProxy_assign (value : BitVec 32) (s : Ports) (d' : DeviceBase) (dword : Nat) :
    ((barProxy d n).assign rule value s).2.words d' dword =
      if d' = d ∧ dword = barDword n then rule d' dword (s.words d' dword) value else s.words d' dword := by
  refine ((barProxy_fits d n).assign_words value s d' dword).trans ?_
  rw [barProxy_target, barProxy_dword]
  rfl

end Proxy

section Runs

variable (rule : WriteRule) (d : DeviceBase) {maxBar n : Nat}

lemma bar_ends {τ : Type} {view : Ports → τ} (hn : n ≤ maxBar) (g : History τ RegisterWrite) :
    Ends view (bar d maxBar n) g (some (barProxy d n)) g := by
  rw [bar, if_neg (Nat.not_lt.mpr hn)]
  exact .pure ⟨rfl, rfl⟩

lemma bar_halts {τ : Type} {view : Ports → τ} (hn : maxBar < n) (g : History τ RegisterWrite) :
    Ends view (bar d maxBar n) g none g := by
  rw [bar, if_pos hn]
  exact .halt ⟨rfl, rfl⟩

lemma readBar_halts {τ : Type} {view : Ports → τ} (hn : maxBar < n) (g : History τ RegisterWrite) :
    Ends view (readBar rule d maxBar n) g none g := (bar_halts d hn g).bind_halted ⟨rfl, rfl⟩

lemma readBar_ends (hn : n ≤ maxBar) (g : History ConfigSpace RegisterWrite) :
    Ends Ports.words (readBar rule d maxBar n) g (some (g.state d (barDword n))) g := by
  refine (bar_ends d hn g).bind (Ends.look fun s hs => ?_)
  refine ⟨?_, (RegisterProxy.cast_words rule _ s).trans hs⟩
  rw [barProxy_cast, hs]

end Runs

/-- A memory BAR with a 32-bit address, or with a 64-bit address and a register after it. -/
def IsMemoryBar (maxBar n : Nat) (raw : BitVec 32) : Prop :=
  raw &&& 1#32 = 0 ∧ (memoryType raw = 0 ∨ memoryType raw = 2 ∧ n < maxBar)

/-- The base address that a memory BAR holds. -/
def decodedBase (cfg : ConfigSpace) (d : DeviceBase) (n : Nat) : BitVec 64 :=
  let low := (cfg d (barDword n) &&& ~~~0xF#32).setWidth 64
  if memoryType (cfg d (barDword n)) = 2 then ((cfg d (barDword (n + 1))).setWidth 64 <<< 32) ||| low else low

lemma setWidth_low (high low : BitVec 32) :
    ((high.setWidth 64 <<< 32) ||| low.setWidth 64).setWidth 32 = low := by
  ext i hi
  simp

/-- The call for a memory BAR ends with an error, whose code is the address with its flag bits 2 and 3. -/
lemma barAddress_ends (rule : WriteRule) (d : DeviceBase) {maxBar n : Nat} (hn : n ≤ maxBar)
    (g : History ConfigSpace RegisterWrite) (hmem : IsMemoryBar maxBar n (g.state d (barDword n))) :
    Ends Ports.words (barAddress rule d maxBar n) g
      (some (.error (g.state d (barDword n) &&& ~~~0b11#32))) g := by
  obtain ⟨hbit, htype⟩ := hmem
  rw [← baseAddr_memory hbit]
  refine (readBar_ends rule d hn g).bind ?_
  rcases htype with h32 | ⟨h64, hlt⟩
  · refine (Ends.orHalt (getBarSpaceType_memory32 hbit h32) g).bind ?_
    rw [if_neg (by decide), if_neg (by decide), ErrorOr.ofInteger, BitVec.setWidth_eq]
    exact .pure ⟨rfl, rfl⟩
  · refine (Ends.orHalt (getBarSpaceType_memory64 hbit h64) g).bind ?_
    rw [if_neg (by decide), if_pos rfl, if_neg (Nat.not_le.mpr hlt)]
    refine (readBar_ends rule d hlt g).bind ?_
    rw [ErrorOr.ofInteger, setWidth_low]
    exact .pure ⟨rfl, rfl⟩

theorem barAddress_memory_error (rule : WriteRule) (d : DeviceBase) {maxBar n : Nat} (s : Ports) (hn : n ≤ maxBar)
    (hmem : IsMemoryBar maxBar n (s.words d (barDword n))) :
    ((barAddress rule d maxBar n).exec s).1 = some (.error (s.words d (barDword n) &&& ~~~0b11#32)) ∧
      ((barAddress rule d maxBar n).exec s).1 ≠ some (.value (decodedBase s.words d n)) := by
  have hends := (barAddress_ends rule d hn (.start s.words) hmem).exec.1
  rw [hends]
  exact ⟨rfl, by simp⟩

/-- A controller with its registers behind the last BAR, at `0xFEBF1000`. -/
def memoryController : Ports := ⟨⟨0⟩, fun d dword => if d = ⟨0, 31, 2⟩ ∧ dword = 9 then 0xFEBF1000#32 else 0⟩

lemma memoryController_bar : IsMemoryBar 5 5 (memoryController.words ⟨0, 31, 2⟩ (barDword 5)) := by
  refine ⟨by decide, Or.inl (by decide)⟩

theorem barAddress_memory_error_controller :
    ((barAddress memoryRule ⟨0, 31, 2⟩ 5 5).exec memoryController).1 = some (.error 0xFEBF1000#32) :=
  (barAddress_memory_error memoryRule ⟨0, 31, 2⟩ memoryController (by decide) memoryController_bar).1

theorem barAddress_decodes_nothing : ¬∀ (rule : WriteRule) (d : DeviceBase) (maxBar n : Nat) (s : Ports), n ≤ maxBar →
    IsMemoryBar maxBar n (s.words d (barDword n)) →
    ((barAddress rule d maxBar n).exec s).1 = some (.value (decodedBase s.words d n)) := by
  intro h
  have hvalue := h memoryRule ⟨0, 31, 2⟩ 5 5 memoryController (by decide) memoryController_bar
  rw [(barAddress_ends memoryRule ⟨0, 31, 2⟩ (by decide) (.start memoryController.words) memoryController_bar).exec.1]
    at hvalue
  cases hvalue

end JavaScriptOS.Pci
