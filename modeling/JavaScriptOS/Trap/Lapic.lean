import JavaScriptOS.Memory.BootTables

/-!
# The registers of the local APIC

`init_lapic` of `lapic.c` chooses how the registers are reached: through model-specific registers in the mode
that `cpuid` calls x2APIC, or through memory. The processor answers a way only in its own mode, which bits 10 and
11 of `MSR_IA32_APIC_BASE` select. The page tables are a parameter.
-/

namespace JavaScriptOS.Trap.Lapic
open JavaScriptOS.Memory

inductive Fault where
  | generalProtection
  | pageFault
  deriving DecidableEq

/-- A processor with the variables of `lapic.c`. The registers are numbered by their offset divided by 16. -/
structure Cpu where
  ecx : BitVec 32
  apicBaseMsr : BitVec 64
  registers : Nat → BitVec 32
  mem : Nat → BitVec 32
  ports : List (Nat × BitVec 8)
  usingX2apicMode : Bool
  apicMmioBase : Nat

abbrev KernelM := ExceptT Fault (StateM Cpu)

/-- `MSR_IA32_APIC_BASE`. -/
def msrIa32ApicBase : Nat := 0x1B
/-- `LAPIC_SPURIOUS_INTERRUPT_VECTOR_REG_OFFSET`. -/
def lapicSpuriousInterruptVectorRegOffset : Nat := 0xF0
/-- `LAPIC_EOI_REG_OFFSET`. -/
def lapicEoiRegOffset : Nat := 0xB0

namespace Cpu

variable (c : Cpu)

/-- The bit `CPUID_01_ECX_X2APIC`. -/
def hasX2apic : Bool := c.ecx.getLsbD 21

def x2apicEnabled : Bool := c.apicBaseMsr.getLsbD 10 && c.apicBaseMsr.getLsbD 11

/-- The page of physical memory that the registers take in the other mode. -/
def page : Nat := c.apicBaseMsr.toNat / 4096 * 4096

/-- A physical address at which the processor answers for a register. -/
def decodes (pa : Nat) : Bool :=
  c.apicBaseMsr.getLsbD 11 && !c.apicBaseMsr.getLsbD 10 && c.page ≤ pa && pa < c.page + 4096

end Cpu

/-- `wrmsr`, for the registers that `lapic.c` writes. -/
def wrmsr (msr : Nat) (value : BitVec 64) : KernelM Unit := do
  let c ← get
  if msr = msrIa32ApicBase then
    if value.getLsbD 10 && !c.hasX2apic then throw .generalProtection
    else set { c with apicBaseMsr := value }
  else if c.x2apicEnabled then
    set { c with registers := Function.update c.registers (msr - 0x800) (value.setWidth 32) }
  else throw .generalProtection

/-- A store through the page tables. -/
def store32 (translate : Nat → Option Nat) (va : Nat) (value : BitVec 32) : KernelM Unit :=
  (translate va).elim (throw .pageFault) fun pa => modify fun c =>
    if c.decodes pa then { c with registers := Function.update c.registers ((pa - c.page) / 16) value }
    else { c with mem := Function.update c.mem pa value }

def outb (port : Nat) (value : BitVec 8) : KernelM Unit := modify fun c => { c with ports := (port, value) :: c.ports }

section Functions

variable (translate : Nat → Option Nat)

def lapicWriteRegister (offset : Nat) (value : BitVec 32) : KernelM Unit := do
  let c ← get
  if c.usingX2apicMode then wrmsr (0x800 + offset / 16) (value.setWidth 64)
  else store32 translate (c.apicMmioBase + offset) value

/-- `disable_pic`. -/
def disablePic : KernelM Unit := do
  outb 0x20 0xFF
  outb 0xA0 0xFF

/-- The end of `init_lapic`: the APIC is enabled with vector 255 for spurious interrupts. -/
def enableApic : KernelM Unit := do
  lapicWriteRegister translate lapicSpuriousInterruptVectorRegOffset 0x1FF#32
  disablePic

/-- The field `mmio_base`. It is declared at bit 12, but without `packed` a bit-field does not cross into the next
32 bits, so compilers put it at bit 32. -/
def mmioBase (first : Nat) (value : BitVec 64) : Nat := value.toNat / 2 ^ first % 2 ^ 24

/-- `init_lapic`, for a place of the field `mmio_base`. -/
def initLapic (first : Nat) : KernelM Unit := do
  let c ← get
  if !c.hasX2apic then
    modify fun c => { c with usingX2apicMode := true }
    -- `x2apic_enable` is set in a copy, and the value that was read is written back
    wrmsr msrIa32ApicBase c.apicBaseMsr
    enableApic translate
  -- the bit of `edx` is looked up in `ecx`
  else if c.ecx.getLsbD 9 then
    modify fun c' => { c' with usingX2apicMode := false, apicMmioBase := mmioBase first c.apicBaseMsr }
    enableApic translate
  else pure ()

/-- `lapic_eoi`. -/
def lapicEoi : KernelM Unit := lapicWriteRegister translate lapicEoiRegOffset 0

/-- The zero of `lapic_eoi` arrives in its register, if that held a one. -/
def eoiReaches (c : Cpu) : Bool :=
  ((lapicEoi translate).run { c with registers := fun _ => 1 }).2.registers (lapicEoiRegOffset / 16) = 0

/-- Writes to registers, one after the other. -/
def writeAll : List (Nat × BitVec 32) → KernelM Unit
  | [] => pure ()
  | w :: ws => do
    lapicWriteRegister translate w.1 w.2
    writeAll ws

end Functions

section Keeps

variable {α β : Type} {I : Cpu → Prop} {f : KernelM α} {g : α → KernelM β} {c c' : Cpu}

lemma run_bind : (f >>= g).run c = (ExceptT.bindCont g (f.run c).1) (f.run c).2 := rfl

lemma run_bind_ok {a : α} (h : f.run c = (.ok a, c')) : (f >>= g).run c = (g a).run c' := by
  rw [run_bind, h]
  rfl

lemma run_bind_error {e : Fault} (h : f.run c = (.error e, c')) : (f >>= g).run c = (.error e, c') := by
  rw [run_bind, h]
  rfl

/-- The program keeps `I`, whether it returns or faults. -/
def Keeps (I : Cpu → Prop) (f : KernelM α) : Prop := ∀ c, I c → I (f.run c).2

lemma Keeps.bind (hf : Keeps I f) (hg : ∀ a, Keeps I (g a)) : Keeps I (f >>= g) := by
  intro c hc
  have hmid := hf c hc
  rw [run_bind]
  cases (f.run c).1 with
  | ok a => exact hg a _ hmid
  | error e => exact hmid

end Keeps

/-- No way that the kernel uses leads to a register: the model-specific registers are off, or the addresses lie
below the page. -/
structure Unreached (registers : Nat → BitVec 32) (c : Cpu) : Prop where
  registers : c.registers = registers
  msr : c.usingX2apicMode = true → c.x2apicEnabled = false
  mmio : c.usingX2apicMode = false → c.apicMmioBase + 4096 ≤ c.page
  low : c.apicMmioBase < 2 ^ 24

/-- The variables before `init_lapic`, on a processor in a mode that it has, with its registers above the first
megabyte. -/
structure Booted (c : Cpu) : Prop where
  mode : c.usingX2apicMode = false
  base : c.apicMmioBase = 0
  supported : c.apicBaseMsr.getLsbD 10 = true → c.hasX2apic = true
  page : 2 ^ 20 ≤ c.page

variable {translate : Nat → Option Nat} {registers : Nat → BitVec 32} {c : Cpu}

/-- The page tables map low addresses to themselves or not at all. -/
def LowIdentity (translate : Nat → Option Nat) : Prop := ∀ a pa, a < 2 ^ 25 → translate a = some pa → a = pa

/-- The map of the boot tables, which `init_vmm` leaves as it is, is such a map. -/
lemma lowIdentity_initVmm {kpml4 kpdpe : Nat} {phys : Nat → Nat} (hboot : BootSection kpml4 phys)
    (hapart : Apart kpml4 kpdpe) : LowIdentity fun a =>
      (hwWalk (fun x => some ((initVmm kpml4 kpdpe (multiboot2Start kpml4 phys)).1 x)) kpml4 a).map Prod.snd := by
  intro a pa ha hmapped
  have hcanon : Canonical a := Or.inl (by omega)
  obtain ⟨-, heq | hwindow⟩ := (initVmm_translates hboot hapart hcanon (Or.inl (by omega))).mp hmapped
  · exact heq
  · unfold kvaKernelBegin at hwindow
    omega

section Msr

variable {msr : Nat} {value : BitVec 64}

lemma wrmsr_of_disabled (hmsr : msr ≠ msrIa32ApicBase) (h : c.x2apicEnabled = false) :
    (wrmsr msr value).run c = (.error .generalProtection, c) := by
  have hrun : (wrmsr msr value).run c = (if msr = msrIa32ApicBase then
      if value.getLsbD 10 && !c.hasX2apic then throw .generalProtection
      else set { c with apicBaseMsr := value }
    else if c.x2apicEnabled then
      set { c with registers := Function.update c.registers (msr - 0x800) (value.setWidth 32) }
    else throw .generalProtection : KernelM Unit).run c := rfl
  rw [hrun, if_neg hmsr, h]
  rfl

/-- Writing back what was read changes nothing. -/
lemma wrmsr_same (h : c.apicBaseMsr.getLsbD 10 = false) :
    (wrmsr msrIa32ApicBase c.apicBaseMsr).run c = (.ok (), c) := by
  have hrun : (wrmsr msrIa32ApicBase c.apicBaseMsr).run c =
      (if c.apicBaseMsr.getLsbD 10 && !c.hasX2apic then throw .generalProtection
      else set { c with apicBaseMsr := c.apicBaseMsr } : KernelM Unit).run c := rfl
  rw [hrun, h]
  rfl

end Msr

section Modes

variable {offset : Nat} {value : BitVec 32}

lemma lapicWriteRegister_run : (lapicWriteRegister translate offset value).run c =
    (if c.usingX2apicMode then wrmsr (0x800 + offset / 16) (value.setWidth 64)
      else store32 translate (c.apicMmioBase + offset) value).run c := rfl

lemma lapicWriteRegister_of_msr (hmode : c.usingX2apicMode = true) :
    (lapicWriteRegister translate offset value).run c =
      (wrmsr (0x800 + offset / 16) (value.setWidth 64)).run c := by
  rw [lapicWriteRegister_run, hmode, if_pos rfl]

lemma lapicWriteRegister_of_mmio (hmode : c.usingX2apicMode = false) :
    (lapicWriteRegister translate offset value).run c =
      (store32 translate (c.apicMmioBase + offset) value).run c := by
  rw [lapicWriteRegister_run, hmode, if_neg Bool.false_ne_true]

end Modes

section Writes

variable (hmap : LowIdentity translate)
include hmap

lemma store32_keeps {va : Nat} (value : BitVec 32) (h : Unreached registers c) (hlow : va < 2 ^ 25)
    (hbelow : va < c.page) : Unreached registers ((store32 translate va value).run c).2 := by
  unfold store32
  cases ht : translate va with
  | none => exact h
  | some pa =>
    have hpa : va = pa := hmap va pa hlow ht
    have hdecodes : c.decodes pa = false := by
      unfold Cpu.decodes
      rw [decide_eq_false (show ¬c.page ≤ pa by omega), Bool.and_false, Bool.false_and]
    have hrun : ((modify fun c => if c.decodes pa then
          { c with registers := Function.update c.registers ((pa - c.page) / 16) value }
        else { c with mem := Function.update c.mem pa value } : KernelM Unit).run c).2 =
        if c.decodes pa then { c with registers := Function.update c.registers ((pa - c.page) / 16) value }
        else { c with mem := Function.update c.mem pa value } := rfl
    rw [Option.elim_some, hrun, hdecodes]
    exact ⟨h.registers, h.msr, h.mmio, h.low⟩

lemma lapicWriteRegister_keeps {offset : Nat} (hoffset : offset < 4096) (value : BitVec 32) :
    Keeps (Unreached registers) (lapicWriteRegister translate offset value) := by
  intro c h
  cases hmode : c.usingX2apicMode with
  | true =>
    rw [lapicWriteRegister_of_msr hmode, wrmsr_of_disabled (by unfold msrIa32ApicBase; omega) (h.msr hmode)]
    exact h
  | false =>
    have hbelow := h.mmio hmode
    have hlow := h.low
    rw [lapicWriteRegister_of_mmio hmode]
    exact store32_keeps hmap value h (by omega) (by omega)

lemma enableApic_keeps : Keeps (Unreached registers) (enableApic translate) := by
  refine (lapicWriteRegister_keeps hmap (by decide) _).bind fun _ => ?_
  intro c h
  exact ⟨h.registers, h.msr, h.mmio, h.low⟩

lemma writeAll_keeps {ws : List (Nat × BitVec 32)} (hws : ∀ w ∈ ws, w.1 < 4096) :
    Keeps (Unreached registers) (writeAll translate ws) := by
  induction ws with
  | nil => exact fun c h => h
  | cons w ws ih =>
    obtain ⟨hw, hrest⟩ := List.forall_mem_cons.mp hws
    exact (lapicWriteRegister_keeps hmap hw w.2).bind fun _ => ih hrest

end Writes

section Init

variable {first : Nat}

/-- Wherever the field is, its value as an address lies below the page. -/
lemma mmioBase_below (hfirst : first = 12 ∨ first = 32) (hpage : 2 ^ 20 ≤ c.page) :
    mmioBase first c.apicBaseMsr + 4096 ≤ c.page := by
  unfold mmioBase Cpu.page at *
  rcases hfirst with rfl | rfl <;> omega

lemma Booted.bit_clear (h : Booted c) (hx : c.hasX2apic = false) : c.apicBaseMsr.getLsbD 10 = false := by
  cases hb : c.apicBaseMsr.getLsbD 10 with
  | false => rfl
  | true => exact absurd ((h.supported hb).symm.trans hx) Bool.true_eq_false.mp

/-- The branches, with what `init_lapic` has read. -/
lemma initLapic_run : (initLapic translate first).run c =
    (if !c.hasX2apic then do
      modify fun c => { c with usingX2apicMode := true }
      wrmsr msrIa32ApicBase c.apicBaseMsr
      enableApic translate
    else if c.ecx.getLsbD 9 then do
      modify fun c' => { c' with usingX2apicMode := false, apicMmioBase := mmioBase first c.apicBaseMsr }
      enableApic translate
    else pure () : KernelM Unit).run c := rfl

/-- Without the other mode, `init_lapic` goes on as if it had been turned on. -/
lemma Booted.initLapic_of_none (h : Booted c) (hx : c.hasX2apic = false) :
    (initLapic translate first).run c = (enableApic translate).run { c with usingX2apicMode := true } := by
  have hsame := wrmsr_same (c := { c with usingX2apicMode := true }) (h.bit_clear hx)
  rw [initLapic_run, hx, Bool.not_false, if_pos rfl]
  exact run_bind_ok hsame

/-- With it, the registers are looked for in memory or not at all. -/
lemma initLapic_of_some (hx : c.hasX2apic = true) :
    (initLapic translate first).run c =
      if c.ecx.getLsbD 9 then
        (enableApic translate).run { c with usingX2apicMode := false, apicMmioBase := mmioBase first c.apicBaseMsr }
      else (.ok (), c) := by
  rw [initLapic_run, hx, Bool.not_true, if_neg Bool.false_ne_true]
  split <;> rfl

lemma enableApic_faults (hmode : c.usingX2apicMode = true) (h : c.x2apicEnabled = false) :
    (enableApic translate).run c = (.error .generalProtection, c) := by
  apply run_bind_error
  rw [lapicWriteRegister_of_msr hmode]
  exact wrmsr_of_disabled (by decide) h

lemma Booted.initLapic_keeps (hmap : LowIdentity translate) (h : Booted c)
    (hfirst : first = 12 ∨ first = 32) : Unreached c.registers ((initLapic translate first).run c).2 := by
  have hpage := h.page
  cases hx : c.hasX2apic with
  | false =>
    rw [h.initLapic_of_none hx]
    refine enableApic_keeps hmap _ ⟨rfl, fun _ => ?_, fun hmode => absurd hmode.symm Bool.false_ne_true, ?_⟩
    · change (c.apicBaseMsr.getLsbD 10 && c.apicBaseMsr.getLsbD 11) = false
      rw [h.bit_clear hx, Bool.false_and]
    · change c.apicMmioBase < 2 ^ 24
      rw [h.base]
      decide
  | true =>
    rw [initLapic_of_some hx]
    split
    · refine enableApic_keeps hmap _ ⟨rfl, fun hmode => absurd hmode Bool.false_ne_true, fun _ => ?_, ?_⟩
      · exact mmioBase_below hfirst hpage
      · exact Nat.mod_lt _ (by decide)
    · refine ⟨rfl, fun hmode => absurd (h.mode.symm.trans hmode) Bool.false_ne_true, fun _ => ?_, ?_⟩
      · rw [h.base]
        exact le_trans (by decide) hpage
      · rw [h.base]
        decide

end Init

/-- What `init_lapic` leaves is no way to the EOI register. -/
lemma Booted.eoiReaches_eq_false {first : Nat} (hmap : LowIdentity translate) (h : Booted c)
    (hfirst : first = 12 ∨ first = 32) : eoiReaches translate ((initLapic translate first).run c).2 = false := by
  obtain ⟨-, hmsr, hmmio, hlow⟩ := h.initLapic_keeps hmap hfirst
  have hones : Unreached (fun _ => 1) { ((initLapic translate first).run c).2 with registers := fun _ => 1 } :=
    ⟨rfl, hmsr, hmmio, hlow⟩
  have hkeeps := lapicWriteRegister_keeps hmap (show lapicEoiRegOffset < 4096 by decide) 0 _ hones
  unfold eoiReaches lapicEoi
  rw [hkeeps.registers]
  rfl

/-- With the map that the boot code and `init_vmm` leave, `init_lapic` and the writes behind it reach no register of
the local APIC, whatever the processor has: without the x2APIC mode `init_lapic` faults, and with it the writes go
to other places in memory. So `lapic_eoi` never ends an interrupt. -/
theorem lapic_unreached (translate : Nat → Option Nat) (hmap : LowIdentity translate)
    (first : Nat) (hfirst : first = 12 ∨ first = 32) (c : Cpu) (hboot : Booted c) (ws : List (Nat × BitVec 32))
    (hws : ∀ w ∈ ws, w.1 < 4096) :
    let out := (initLapic translate first >>= fun _ => writeAll translate ws).run c
    out.2.registers = c.registers ∧ (c.hasX2apic = false → out.1 = .error .generalProtection) := by
  intro out
  have hkeeps := hboot.initLapic_keeps hmap hfirst
  constructor
  · unfold out
    rw [run_bind]
    cases ((initLapic translate first).run c).1 with
    | ok a => exact (writeAll_keeps hmap hws _ hkeeps).registers
    | error e => exact hkeeps.registers
  · intro hx
    have henabled : Cpu.x2apicEnabled { c with usingX2apicMode := true } = false := by
      change (c.apicBaseMsr.getLsbD 10 && c.apicBaseMsr.getLsbD 11) = false
      rw [hboot.bit_clear hx, Bool.false_and]
    have hfault : (initLapic translate first).run c =
        (.error .generalProtection, { c with usingX2apicMode := true }) :=
      (hboot.initLapic_of_none hx).trans (enableApic_faults rfl henabled)
    unfold out
    rw [run_bind_error hfault]

/-- The usual place of the registers, on a processor with the x2APIC mode, and an end of interrupt. -/
theorem lapic_unreached_eoi :
    let c : Cpu := ⟨0x200200, 0xFEE00900, fun _ => 7, fun _ => 0, [], false, 0⟩
    let translate := fun a => (hwWalk (fun x => some ((initVmm 0x101000 (kvaKernelBegin + 0x110000)
      (multiboot2Start 0x101000 fun _ => 0)).1 x)) 0x101000 a).map Prod.snd
    Booted c ∧
      ((initLapic translate 12 >>= fun _ => writeAll translate [(lapicEoiRegOffset, 0)]).run c).2.registers 11 = 7 := by
  intro c translate
  have hboot : Booted c := ⟨rfl, rfl, by decide, by decide⟩
  have hmap : LowIdentity translate := lowIdentity_initVmm bootSection_zero (Or.inr (by decide))
  refine ⟨hboot, ?_⟩
  rw [(lapic_unreached translate hmap 12 (Or.inl rfl) c hboot [(lapicEoiRegOffset, 0)] (by decide)).1]

end JavaScriptOS.Trap.Lapic
