import JavaScriptOS.Pci.Bar
import JavaScriptOS.Pci.StatusBits

/-!
# Devices with base address registers

What a driver sees of a device while it sizes a BAR: the command register and the BARs. Each keeps a
written value on its writable bits. The accesses of the code are accesses to these registers.
-/

namespace JavaScriptOS.Pci
open JavaScriptOS.Lib

def lowerHalf (w : BitVec 32) : BitVec 16 := w.setWidth 16

lemma lowerHalf_putBits (w : BitVec 32) (v : BitVec 16) : lowerHalf (putBits w 0 v) = v := by
  ext i hi
  simp [lowerHalf, getLsbD_putBits, hi]

/-- The registers of a device that sizing touches, and what a write to them does. Nothing is said of the
other words, nor of the status half of the command word. -/
structure BarDevice where
  base : DeviceBase
  rule : WriteRule
  /-- The writable bits of the BARs. -/
  writable : Nat → BitVec 32
  commandWritable : BitVec 16
  bar_rule : ∀ k, k < 6 → ∀ old value, rule base (4 + k) old value = blend (writable k) old value
  command_rule : ∀ old value, lowerHalf (rule base 1 old value) =
    blend commandWritable (lowerHalf old) (lowerHalf value)

@[ext] structure Registers where
  command : BitVec 16
  bar : Nat → BitVec 32

namespace BarDevice

variable (D : BarDevice)

def registers (s : Ports) : Registers := ⟨lowerHalf (s.words D.base 1), fun k => s.words D.base (4 + k)⟩

lemma registers_congr {s s' : Ports} (h : s.words = s'.words) : D.registers s = D.registers s' := by
  rw [registers, registers, h]

def setCommand (r : Registers) (value : BitVec 16) : Registers :=
  { r with command := blend D.commandWritable r.command value }

def setBar (r : Registers) (k : Nat) (value : BitVec 32) : Registers :=
  { r with bar := Function.update r.bar k (blend (D.writable k) (r.bar k) value) }

lemma setCommand_self (r : Registers) : D.setCommand r r.command = r := by
  rw [setCommand, blend_self]

variable {D} {r : Registers} {j k : Nat} {value value' : BitVec 32}

lemma setBar_bar_self : (D.setBar r k value).bar k = blend (D.writable k) (r.bar k) value := Function.update_self ..

lemma setBar_bar_of_ne (h : j ≠ k) : (D.setBar r k value).bar j = r.bar j := Function.update_of_ne h ..

/-- The bits that a probe cannot write are still those that were saved. -/
lemma setBar_restore : D.setBar (D.setBar r k value) k (r.bar k) = r := by
  refine Registers.ext rfl ?_
  rw [setBar, setBar_bar_self, blend_blend, blend_self, setBar, Function.update_idem, Function.update_eq_self]

lemma setBar_comm (h : j ≠ k) :
    D.setBar (D.setBar r k value) j value' = D.setBar (D.setBar r j value') k value := by
  refine Registers.ext rfl ?_
  simp only [setBar]
  rw [Function.update_of_ne h, Function.update_of_ne h.symm, Function.update_comm h]

lemma setBar_eq_iff : D.setBar r k value = r ↔ blend (D.writable k) (r.bar k) value = r.bar k := by
  constructor
  · intro h
    rw [← setBar_bar_self, h]
  · intro h
    rw [setBar, h, Function.update_eq_self]

end BarDevice

/-! ## The accesses of the code -/

section Accesses

variable (rule : WriteRule) (d : DeviceBase)

def readCommand : DeviceM (BitVec 16) := HistoryM.look ((Accessor.commandReg.proxy d).cast rule)

def assignCommand (value : BitVec 16) : DeviceM Unit :=
  HistoryM.act .command ((Accessor.commandReg.proxy d).assign rule value)

def andCommand (value : BitVec 32) : DeviceM Unit :=
  HistoryM.act .command ((Accessor.commandReg.proxy d).andAssign rule value)

end Accesses

section CommandProxy

variable {rule : WriteRule} (d : DeviceBase)

lemma commandProxy_target :
    ((Accessor.commandReg.proxy d).base.add (Accessor.commandReg.proxy d).offset).target = d := by
  rw [ConfigSpaceAddress.add_target, Accessor.proxy, ConfigSpaceAddress.ofDevice_target]

lemma commandProxy_dword :
    ((Accessor.commandReg.proxy d).base.add (Accessor.commandReg.proxy d).offset).dword = 1 := by
  rw [(Accessor.commandReg.fits d).dword_eq, Accessor.proxy, RegisterProxy.byteAddress_ofDevice]
  rfl

lemma commandProxy_read (rule : WriteRule) (s : Ports) :
    ((Accessor.commandReg.proxy d).readRegister rule s).1 = s.words d 1 := by
  rw [RegisterProxy.readRegister_run, commandProxy_target, commandProxy_dword, commandProxy_shift,
    BitVec.ushiftRight_zero]

lemma commandProxy_cast (s : Ports) : ((Accessor.commandReg.proxy d).cast rule s).1 = lowerHalf (s.words d 1) := by
  rw [RegisterProxy.cast_fst, commandProxy_read]
  rfl

lemma commandProxy_assign (value : BitVec 16) (s : Ports) (dword : Nat) :
    ((Accessor.commandReg.proxy d).assign rule value s).2.words d dword =
      if dword = 1 then rule d 1 (s.words d 1) (putBits (s.words d 1) 0 value) else s.words d dword := by
  refine ((Accessor.commandReg.fits d).assign_words value s d dword).trans ?_
  rw [commandProxy_written, Accessor.proxy, ConfigSpaceAddress.ofDevice_target, RegisterProxy.byteAddress_ofDevice]
  change (if d = d ∧ dword = 1 then _ else _) = _
  by_cases h : dword = 1
  · subst h
    rw [if_pos ⟨rfl, rfl⟩, if_pos rfl]
  · rw [if_neg (fun hsel => h hsel.2), if_neg h]

/-- `&=` writes what it reads, without the bits that are 0 in `value`. -/
lemma commandProxy_andAssign (rule : WriteRule) (value : BitVec 32) (s : Ports) :
    ((Accessor.commandReg.proxy d).andAssign rule value s).2.words =
      ((Accessor.commandReg.proxy d).assign rule (lowerHalf (s.words d 1) &&& lowerHalf value) s).2.words := by
  have hcut : ((s.words d 1) &&& value).setWidth 16 = lowerHalf (s.words d 1) &&& lowerHalf value :=
    BitVec.setWidth_and
  rw [RegisterProxy.andAssign_words, commandProxy_read, ← hcut]
  rfl

end CommandProxy

namespace BarDevice

variable (D : BarDevice) {maxBar k : Nat} (g : History Registers RegisterWrite)

lemma readBar_ends (hk : k < 6) (hmax : k ≤ maxBar) :
    Ends D.registers (readBar D.rule D.base maxBar k) g (some (g.state.bar k)) g := by
  refine (bar_ends D.base hmax g).bind (Ends.look fun s hs => ?_)
  refine ⟨?_, (D.registers_congr (RegisterProxy.cast_words _ _ s)).trans hs⟩
  rw [barProxy_cast, barDword_eq hk, ← hs]
  rfl

lemma writeBar_ends (hk : k < 6) (hmax : k ≤ maxBar) (value : BitVec 32) :
    Ends D.registers (writeBar D.rule D.base maxBar k value) g (some ())
      (g.acted (.bar k value) (D.setBar g.state k value)) := by
  refine (bar_ends D.base hmax g).bind (Ends.act fun s hs => ?_)
  rw [← hs]
  refine Registers.ext ?_ (funext fun j => ?_)
  · change lowerHalf _ = lowerHalf _
    rw [barProxy_assign, barDword_eq hk, if_neg (by omega)]
  · change ((barProxy D.base k).assign D.rule value s).2.words D.base (4 + j) = _
    rw [barProxy_assign, barDword_eq hk]
    by_cases hj : j = k
    · subst hj
      rw [if_pos ⟨rfl, rfl⟩, D.bar_rule _ hk, setBar_bar_self]
      rfl
    · rw [if_neg (by omega), setBar_bar_of_ne hj]
      rfl

lemma readCommand_ends : Ends D.registers (readCommand D.rule D.base) g (some g.state.command) g := by
  refine Ends.look fun s hs => ?_
  refine ⟨?_, (D.registers_congr (RegisterProxy.cast_words _ _ s)).trans hs⟩
  rw [commandProxy_cast, ← hs]
  rfl

lemma registers_assignCommand (value : BitVec 16) (s : Ports) :
    D.registers ((Accessor.commandReg.proxy D.base).assign D.rule value s).2 = D.setCommand (D.registers s) value := by
  refine Registers.ext ?_ (funext fun j => ?_)
  · change lowerHalf _ = _
    rw [commandProxy_assign, if_pos rfl, D.command_rule, lowerHalf_putBits]
    rfl
  · change ((Accessor.commandReg.proxy D.base).assign D.rule value s).2.words D.base (4 + j) = _
    rw [commandProxy_assign, if_neg (by omega)]
    rfl

lemma assignCommand_ends (value : BitVec 16) : Ends D.registers (assignCommand D.rule D.base value) g (some ())
    (g.acted .command (D.setCommand g.state value)) := by
  refine Ends.act fun s hs => ?_
  rw [← hs]
  exact D.registers_assignCommand value s

lemma andCommand_ends (value : BitVec 32) : Ends D.registers (andCommand D.rule D.base value) g (some ())
    (g.acted .command (D.setCommand g.state (g.state.command &&& lowerHalf value))) := by
  refine Ends.act fun s hs => ?_
  rw [← hs]
  exact (D.registers_congr (commandProxy_andAssign D.base D.rule value s)).trans (D.registers_assignCommand _ s)

end BarDevice

end JavaScriptOS.Pci
