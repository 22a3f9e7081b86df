import JavaScriptOS.Pci.BarDevice

/-!
# Sizing a base address register

`BAR_space_size` writes all ones to a BAR, reads back which bits are writable and restores the BAR. The
five ways a call can end, with every state of the device on the way, are what the results rest on.
-/

namespace JavaScriptOS.Pci
open JavaScriptOS.Lib

/-- `(command){ .io_space = …, .memory_space = … }`; the other members are 0. -/
def commandWith (ioSpace memorySpace : BitVec 1) : BitVec 16 := putBits (putBits 0 0 ioSpace) 1 memorySpace

/-- `~(command){ .io_space = 0, .memory_space = 0 }`: the command converts to a `u16`, and `~` to an `int`. -/
def decodeMask : BitVec 32 := ~~~((commandWith 0 0).setWidth 32)

def probeValue : BitVec 32 := 0xFFFFFFFF#32

section BarSpaceSize

variable (rule : WriteRule) (d : DeviceBase) (maxBar n : Nat)

/-- `BAR_space_size`. `base_addr() << 32` shifts a `u32` by its width, which C++ leaves undefined:
`shifted` stands for the `u32` that comes out. -/
def barSpaceSize (shifted : BitVec 32 → BitVec 32) : DeviceM (BitVec 64) := do
  HistoryM.verify (n < 6)
  let commandRegSaved ← readCommand rule d
  andCommand rule d decodeMask
  let barSaved ← readBar rule d maxBar n
  let type ← HistoryM.orHalt (getBarSpaceType barSaved)
  writeBar rule d maxBar n probeValue
  let probed ← readBar rule d maxBar n
  let encodedSize : BitVec 64 := (baseAddr probed).setWidth 64
  if type = .memory64BitSpace then
    if 5 ≤ n then pure 0
    else do
      let nextBarSaved ← readBar rule d maxBar (n + 1)
      writeBar rule d maxBar (n + 1) probeValue
      let probed ← readBar rule d maxBar n
      let encodedSize := encodedSize ||| (shifted (baseAddr probed)).setWidth 64
      writeBar rule d maxBar n barSaved
      writeBar rule d maxBar (n + 1) nextBarSaved
      assignCommand rule d commandRegSaved
      pure (~~~encodedSize + 1)
  else do
    writeBar rule d maxBar n barSaved
    assignCommand rule d commandRegSaved
    pure (~~~encodedSize + 1)

end BarSpaceSize

lemma lowerHalf_decodeMask : lowerHalf decodeMask = BitVec.allOnes 16 := by decide

section Outcome

variable (D : BarDevice) (maxBar n : Nat) (shifted : BitVec 32 → BitVec 32) (r : Registers)

/-- What a probed BAR reads as. -/
def probedBar : BitVec 32 := blend (D.writable n) (r.bar n) probeValue

abbrev RegisterHistory := List (RegisterWrite × Registers)

/-- The writes up to the probe of BAR `n`. -/
def probeHistory : RegisterHistory := [(.bar n probeValue, D.setBar r n probeValue), (.command, r)]

/-- The writes of a call that sizes one register. -/
def singleHistory : RegisterHistory := (.command, r) :: (.bar n (r.bar n), r) :: probeHistory D n r

/-- The writes of a call that sizes a register and the next one. -/
def pairHistory : RegisterHistory :=
  (.command, r) :: (.bar (n + 1) (r.bar (n + 1)), r) ::
    (.bar n (r.bar n), D.setBar r (n + 1) probeValue) ::
      (.bar (n + 1) probeValue, D.setBar (D.setBar r n probeValue) (n + 1) probeValue) :: probeHistory D n r

def singleSize : BitVec 64 := ~~~((baseAddr (probedBar D n r)).setWidth 64) + 1

def pairSize : BitVec 64 :=
  ~~~((baseAddr (probedBar D n r)).setWidth 64 ||| (shifted (baseAddr (probedBar D n r))).setWidth 64) + 1

/-- How a call ends that finds the registers `r`. -/
inductive Outcome : Option (BitVec 64) → History Registers RegisterWrite → Prop
  | badIndex : 6 ≤ n → Outcome none ⟨r, []⟩
  | noBar : n < 6 → maxBar < n → Outcome none ⟨r, [(.command, r)]⟩
  | badType : n < 6 → n ≤ maxBar → getBarSpaceType (r.bar n) = none → Outcome none ⟨r, [(.command, r)]⟩
  | lastBar : n = 5 → n ≤ maxBar → getBarSpaceType (r.bar n) = some .memory64BitSpace →
      Outcome (some 0) ⟨D.setBar r n probeValue, probeHistory D n r⟩
  | noNextBar : n < 5 → n = maxBar → getBarSpaceType (r.bar n) = some .memory64BitSpace →
      Outcome none ⟨D.setBar r n probeValue, probeHistory D n r⟩
  | pair : n < 5 → n < maxBar → getBarSpaceType (r.bar n) = some .memory64BitSpace →
      Outcome (some (pairSize D n shifted r)) ⟨r, pairHistory D n r⟩
  | single {type : BarSpaceType} : n < 6 → n ≤ maxBar → getBarSpaceType (r.bar n) = some type →
      type ≠ .memory64BitSpace → Outcome (some (singleSize D n r)) ⟨r, singleHistory D n r⟩

end Outcome

section Run

variable (D : BarDevice) {maxBar n : Nat} (shifted : BitVec 32 → BitVec 32) (r : Registers)

/-- The mask has no bit clear, so `&=` writes the command register back as it was. -/
lemma andCommand_decodeMask_ends (g : History Registers RegisterWrite) :
    Ends D.registers (andCommand D.rule D.base decodeMask) g (some ()) (g.acted .command g.state) := by
  have hends := D.andCommand_ends g decodeMask
  rw [lowerHalf_decodeMask, BitVec.and_allOnes, D.setCommand_self] at hends
  exact hends

lemma assignCommand_saved_ends (past : RegisterHistory) :
    Ends D.registers (assignCommand D.rule D.base r.command) ⟨r, past⟩ (some ()) ⟨r, (.command, r) :: past⟩ := by
  have hends := D.assignCommand_ends ⟨r, past⟩ r.command
  rw [D.setCommand_self] at hends
  exact hends

lemma writeBar_ends_at {r r' : Registers} {value : BitVec 32} (hn : n < 6) (hmax : n ≤ maxBar)
    (hr : D.setBar r n value = r') (past : RegisterHistory) :
    Ends D.registers (writeBar D.rule D.base maxBar n value) ⟨r, past⟩ (some ())
      ⟨r', (.bar n value, r') :: past⟩ := by
  subst hr
  exact D.writeBar_ends ⟨r, past⟩ hn hmax value

lemma readBar_ends_at {r : Registers} {value : BitVec 32} (hn : n < 6) (hmax : n ≤ maxBar) (hr : r.bar n = value)
    (past : RegisterHistory) :
    Ends D.registers (readBar D.rule D.base maxBar n) ⟨r, past⟩ (some value) ⟨r, past⟩ := by
  subst hr
  exact D.readBar_ends ⟨r, past⟩ hn hmax

theorem barSpaceSize_outcome (maxBar n : Nat) :
    Ensures D.registers (barSpaceSize D.rule D.base maxBar n shifted) (.start r) (Outcome D maxBar n shifted r) := by
  unfold barSpaceSize
  by_cases hn : n < 6
  case neg => exact (Ends.verify_halts hn _).bind_halted (.badIndex (Nat.not_lt.mp hn))
  refine (Ends.verify hn _).bind ?_
  refine (D.readCommand_ends _).bind ?_
  refine (andCommand_decodeMask_ends D _).bind ?_
  by_cases hmax : n ≤ maxBar
  case neg => exact (readBar_halts _ _ (Nat.not_le.mp hmax) _).bind_halted (.noBar hn (Nat.not_le.mp hmax))
  refine (readBar_ends_at D hn hmax rfl [(.command, r)]).bind ?_
  cases htype : getBarSpaceType (r.bar n) with
  | none => exact (Ends.orHalt htype _).bind_halted (.badType hn hmax htype)
  | some type =>
    refine (Ends.orHalt htype _).bind ?_
    refine (writeBar_ends_at D hn hmax rfl _).bind ?_
    refine (readBar_ends_at D hn hmax BarDevice.setBar_bar_self (probeHistory D n r)).bind ?_
    by_cases h64 : type = .memory64BitSpace
    case neg =>
      rw [if_neg h64]
      refine (writeBar_ends_at D hn hmax BarDevice.setBar_restore _).bind ?_
      refine (assignCommand_saved_ends D r _).bind ?_
      exact .pure (.single hn hmax htype h64)
    subst h64
    rw [if_pos rfl]
    by_cases hlast : 5 ≤ n
    case pos =>
      rw [if_pos hlast]
      exact .pure (.lastBar (by omega) hmax htype)
    rw [if_neg hlast]
    by_cases hnext : n + 1 ≤ maxBar
    case neg => exact (readBar_halts _ _ (Nat.not_le.mp hnext) _).bind_halted (.noNextBar (by omega) (by omega) htype)
    have hne : n ≠ n + 1 := (Nat.succ_ne_self n).symm
    have hn' : n + 1 < 6 := by omega
    refine (readBar_ends_at D hn' hnext (BarDevice.setBar_bar_of_ne hne.symm) _).bind ?_
    refine (writeBar_ends_at D hn' hnext rfl _).bind ?_
    refine (readBar_ends_at D hn hmax ((BarDevice.setBar_bar_of_ne hne).trans BarDevice.setBar_bar_self) _).bind ?_
    have hfirst : D.setBar (D.setBar (D.setBar r n probeValue) (n + 1) probeValue) n (r.bar n) =
        D.setBar r (n + 1) probeValue := by
      rw [BarDevice.setBar_comm hne, BarDevice.setBar_restore]
    refine (writeBar_ends_at D hn hmax hfirst _).bind ?_
    refine (writeBar_ends_at D hn' hnext BarDevice.setBar_restore _).bind ?_
    refine (assignCommand_saved_ends D r _).bind ?_
    exact .pure (.pair (by omega) hnext htype)

/-- What a call did, as the driver sees it. -/
lemma barSpaceSize_exec (maxBar n : Nat) (s : Ports) :
    ∃ g, Outcome D maxBar n shifted (D.registers s) ((barSpaceSize D.rule D.base maxBar n shifted).exec s).1 g ∧
      ((barSpaceSize D.rule D.base maxBar n shifted).exec s).2.map D.registers = g :=
  ⟨_, (barSpaceSize_outcome D shifted (D.registers s) maxBar n).exec, rfl⟩

end Run

end JavaScriptOS.Pci
