import JavaScriptOS.Trap.Alltraps

/-!
# The way into `trap()` and back

The pushes of the processor, of the stub and of `save_context` would leave a `trapframe` on the stack, and
`restore_context` would pop what `save_context` pushed, if they could be executed. `save_context` begins with
a push of `%ds`, which 64-bit mode does not have, so no interrupt gets to `trap()`. Nor is that all: the last
step of `trapret` adds 16 to `%esp`, not to `%rsp`, so the frame of `iretq` is found only below 4 GiB.
-/

namespace JavaScriptOS.Trap
open JavaScriptOS.Lib

inductive Slot where
  | reg (r : Reg)
  | seg (s : Seg)
  deriving DecidableEq

namespace Slot

def push : Slot → Instr
  | .reg r => .pushq r
  | .seg s => .pushw s

def pop : Slot → Instr
  | .reg r => .popq r
  | .seg s => .popw s

def field : Slot → Field
  | .reg r => .reg r
  | .seg s => .seg s

def bytes (c : Cpu) : Slot → List (BitVec 8)
  | .reg r => bytesOf 8 (c.reg r)
  | .seg s => bytesOf 2 (c.seg s)

end Slot

def savedSlots : List Slot :=
  [.seg .ds, .seg .es, .seg .fs, .seg .gs, .reg .rax, .reg .rbx, .reg .rcx, .reg .rdx, .reg .rbp, .reg .rsi,
    .reg .rdi, .reg .r8, .reg .r9, .reg .r10, .reg .r11, .reg .r12, .reg .r13, .reg .r14, .reg .r15]

lemma saveContext_eq : saveContext = savedSlots.map Slot.push := rfl

lemma restoreContext_eq : restoreContext = savedSlots.reverse.map Slot.pop := rfl

lemma trapframe_eq : trapframe = savedSlots.reverse.map Slot.field ++
    [.interruptNum, .errorCode, .rip, .cs, .rflags, .rsp, .ss] := rfl

lemma mem_savedSlots (s : Slot) : s ∈ savedSlots := by
  cases s with
  | reg r => cases r <;> decide
  | seg s => cases s <;> decide

/-- The stack of `c` from `base` down holds the bytes `l`. -/
def OnStack (c : Cpu) (base : BitVec 64) (l : List (BitVec 8)) : Prop := Stacked c.mem c.rsp base l

variable {c c₀ : Cpu} {base : BitVec 64} {l : List (BitVec 8)}

lemma OnStack.push (h : OnStack c base l) (bytes : List (BitVec 8)) (hlen : bytes.length + l.length ≤ 2 ^ 64) :
    OnStack (c.push bytes) base (bytes ++ l) := Stacked.push h hlen

@[simp] lemma Cpu.push_reg (c : Cpu) (bytes : List (BitVec 8)) : (c.push bytes).reg = c.reg := rfl

@[simp] lemma Cpu.push_seg (c : Cpu) (bytes : List (BitVec 8)) : (c.push bytes).seg = c.seg := rfl

lemma effect_push (c : Cpu) (s : Slot) : effect c s.push = c.push (s.bytes c) := by cases s <;> rfl

lemma effects_cons (c : Cpu) (instr : Instr) (code : List Instr) :
    effects c (instr :: code) = effects (effect c instr) code := rfl

lemma effects_pushImm (c : Cpu) (v : BitVec 64) : effects c [.pushImm v] = c.push (bytesOf 8 v) := rfl

lemma effects_append (c : Cpu) (code code' : List Instr) :
    effects c (code ++ code') = effects (effects c code) code' := List.foldl_append

/-- A run gets through exactly if every instruction of it is decoded. -/
lemma run_eq_some_iff {decodes : Instr → Bool} {code : List Instr} {c' : Cpu} :
    run decodes c code = some c' ↔ (∀ instr ∈ code, decodes instr) ∧ effects c code = c' := by
  induction code generalizing c with
  | nil =>
    rw [and_iff_right (List.forall_mem_nil _)]
    exact Option.some_inj
  | cons instr code ih =>
    rw [run, List.foldlM_cons, exec, List.forall_mem_cons, effects_cons]
    cases hd : decodes instr with
    | false => simp
    | true =>
      rw [and_iff_right rfl, ← ih]
      rfl

lemma Slot.length_bytes_le (c : Cpu) (s : Slot) : (s.bytes c).length ≤ 8 := by
  cases s <;> simp [Slot.bytes]

lemma effects_pushes (slots : List Slot) (c : Cpu) (l : List (BitVec 8)) (h : OnStack c base l)
    (hlen : 8 * slots.length + l.length ≤ 2 ^ 64) :
    let c' := effects c (slots.map Slot.push)
    c'.reg = c.reg ∧ c'.seg = c.seg ∧ OnStack c' base (slots.reverse.flatMap (Slot.bytes c) ++ l) := by
  induction slots generalizing c l with
  | nil => exact ⟨rfl, rfl, h⟩
  | cons s slots ih =>
    have hs := s.length_bytes_le c
    simp only [List.length_cons] at hlen
    have hpush := h.push (s.bytes c) (by omega)
    obtain ⟨hreg, hseg, hstack⟩ := ih (c.push (s.bytes c)) _ hpush (by simp only [List.length_append]; omega)
    have hrun : effects c ((s :: slots).map Slot.push) = effects (c.push (s.bytes c)) (slots.map Slot.push) := by
      rw [List.map_cons, effects, List.foldl_cons, effect_push]
      rfl
    have hbytes : Slot.bytes (c.push (s.bytes c)) = Slot.bytes c := by
      funext s'
      cases s' <;> rfl
    rw [hrun]
    refine ⟨hreg, hseg, ?_⟩
    rw [hbytes] at hstack
    simpa using hstack

lemma effect_pop (s : Slot) (h : OnStack c base (s.bytes c₀ ++ l)) :
    OnStack (effect c s.pop) base l ∧
      (∀ r, s = .reg r ∨ c.reg r = c₀.reg r → (effect c s.pop).reg r = c₀.reg r) ∧
      ∀ g, s = .seg g ∨ c.seg g = c₀.seg g → (effect c s.pop).seg g = c₀.seg g := by
  obtain ⟨hread, hstack⟩ := Stacked.pop h
  cases s with
  | reg r₀ =>
    simp only [Slot.bytes, length_bytesOf] at hread hstack
    have hword : wordOf 64 (c.top 8) = c₀.reg r₀ := by
      rw [Cpu.top, hread, wordOf_bytesOf_eight]
    refine ⟨hstack, ?_, ?_⟩
    · intro r hr
      simp only [effect, Slot.pop, Cpu.setReg, hword]
      by_cases hrr : r = r₀
      · subst hrr
        simp
      · rw [Function.update_of_ne hrr]
        exact hr.resolve_left (fun h => hrr (Slot.reg.inj h).symm)
    · intro g hg
      exact hg.resolve_left (fun h => by cases h)
  | seg g₀ =>
    simp only [Slot.bytes, length_bytesOf] at hread hstack
    have hword : wordOf 16 (c.top 2) = c₀.seg g₀ := by
      rw [Cpu.top, hread]
      exact wordOf_bytesOf _ (BitVec.ushiftRight_eq_zero (by decide))
    refine ⟨hstack, ?_, ?_⟩
    · intro r hr
      exact hr.resolve_left (fun h => by cases h)
    · intro g hg
      simp only [effect, Slot.pop, Cpu.setSeg, hword]
      by_cases hgg : g = g₀
      · subst hgg
        simp
      · rw [Function.update_of_ne hgg]
        exact hg.resolve_left (fun h => hgg (Slot.seg.inj h).symm)

lemma effects_pops (slots : List Slot) (c : Cpu) (h : OnStack c base (slots.flatMap (Slot.bytes c₀) ++ l)) :
    let c' := effects c (slots.map Slot.pop)
    OnStack c' base l ∧ (∀ r, .reg r ∈ slots ∨ c.reg r = c₀.reg r → c'.reg r = c₀.reg r) ∧
      ∀ g, .seg g ∈ slots ∨ c.seg g = c₀.seg g → c'.seg g = c₀.seg g := by
  induction slots generalizing c with
  | nil =>
    refine ⟨h, ?_, ?_⟩
    · exact fun r hr => hr.resolve_left (by simp)
    · exact fun g hg => hg.resolve_left (by simp)
  | cons s slots ih =>
    have h' : OnStack c base (s.bytes c₀ ++ (slots.flatMap (Slot.bytes c₀) ++ l)) := by simpa using h
    obtain ⟨hstack, hreg, hseg⟩ := effect_pop s h'
    obtain ⟨hstack', hreg', hseg'⟩ := ih (effect c s.pop) hstack
    refine ⟨hstack', ?_, ?_⟩
    · intro r hr
      apply hreg' r
      rcases hr with hr | hr
      · rcases List.mem_cons.mp hr with hr | hr
        · exact Or.inr (hreg r (Or.inl hr.symm))
        · exact Or.inl hr
      · exact Or.inr (hreg r (Or.inr hr))
    · intro g hg
      apply hseg' g
      rcases hg with hg | hg
      · rcases List.mem_cons.mp hg with hg | hg
        · exact Or.inr (hseg g (Or.inl hg.symm))
        · exact Or.inl hg
      · exact Or.inr (hseg g (Or.inr hg))

section Frame

variable (i : Fin 256) (errorCode : BitVec 64) (f : IretFrame)

def pushFrame (c : Cpu) : Cpu :=
  (((({ c with rsp := alignedStack c.rsp }.push (bytesOf 8 f.ss)).push (bytesOf 8 f.rsp)).push
    (bytesOf 8 f.rflags)).push (bytesOf 8 f.cs)).push (bytesOf 8 f.rip)

lemma skipsErrorCode_eq (i : Fin 256) : skipsErrorCode i = pushesErrorCode i := by
  simp only [skipsErrorCode, pushesErrorCode, List.mem_cons, List.not_mem_nil, or_false, decide_eq_decide]
  omega

/-- The state in `trap()`, if every instruction is decoded. -/
def entered (c : Cpu) : Cpu := effects (deliver i errorCode f c) (vectorStub i ++ alltraps)

lemma effects_stub (c : Cpu) : effects (deliver i errorCode f c) (vectorStub i) =
    ((pushFrame f c).push (bytesOf 8 (if pushesErrorCode i then errorCode else 0))).push
      (bytesOf 8 (BitVec.ofNat 64 i.val)) := by
  cases herr : pushesErrorCode i with
  | false =>
    simp only [vectorStub, skipsErrorCode_eq, deliver, herr, Bool.not_false, if_true, Bool.false_eq_true, if_false]
    rw [effects_append, effects_pushImm, effects_pushImm, pushFrame]
  | true =>
    simp only [vectorStub, skipsErrorCode_eq, deliver, herr, Bool.not_true, Bool.false_eq_true, if_true, if_false]
    rw [List.nil_append, effects_pushImm, pushFrame]

lemma stub_onStack (c : Cpu) :
    let c' := effects (deliver i errorCode f c) (vectorStub i)
    c'.reg = c.reg ∧ c'.seg = c.seg ∧ OnStack c' (alignedStack c.rsp)
      (bytesOf 8 (BitVec.ofNat 64 i.val) ++
        (bytesOf 8 (if pushesErrorCode i then errorCode else 0) ++ f.bytes)) := by
  have hempty : OnStack { c with rsp := alignedStack c.rsp } (alignedStack c.rsp) [] := Stacked.empty _ _
  have hframe : OnStack (pushFrame f c) _ _ :=
    ((((hempty.push (bytesOf 8 f.ss) (by simp)).push (bytesOf 8 f.rsp) (by simp)).push
      (bytesOf 8 f.rflags) (by simp)).push (bytesOf 8 f.cs) (by simp)).push (bytesOf 8 f.rip) (by simp)
  have hbytes : bytesOf 8 f.rip ++ (bytesOf 8 f.cs ++ (bytesOf 8 f.rflags ++ (bytesOf 8 f.rsp ++
      (bytesOf 8 f.ss ++ [])))) = f.bytes := by simp [IretFrame.bytes]
  rw [hbytes] at hframe
  have hlen : f.bytes.length = 40 := by simp [IretFrame.bytes]
  rw [effects_stub]
  refine ⟨?_, ?_, ?_⟩
  · simp only [Cpu.push_reg, pushFrame]
  · simp only [Cpu.push_seg, pushFrame]
  · exact (hframe.push _ (by simp [hlen])).push _ (by simp [hlen])

lemma trapframe_bytes (c : Cpu) : trapframe.flatMap (fieldBytes i errorCode f c) =
    savedSlots.reverse.flatMap (Slot.bytes c) ++ (bytesOf 8 (BitVec.ofNat 64 i.val) ++
      (bytesOf 8 (if pushesErrorCode i then errorCode else 0) ++ f.bytes)) := by
  have hslot : ∀ s : Slot, fieldBytes i errorCode f c s.field = s.bytes c := fun s => by cases s <;> rfl
  rw [trapframe_eq, List.flatMap_append, List.flatMap_map]
  simp only [hslot]
  simp [fieldBytes, IretFrame.bytes]

lemma effects_setup (c : Cpu) :
    let c' := effects c [.movwImmAx segKdata, .movwAx .ds, .movwAx .es, .movqRspRdi, .cld]
    c'.reg .rdi = c.rsp ∧ c'.rsp = c.rsp ∧ c'.mem = c.mem := by
  simp [effects, effect, Cpu.setReg, Cpu.setSeg]

/-- In `trap()` the argument points to the whole frame, which ends at the aligned kernel stack. -/
lemma entered_onStack (c : Cpu) :
    (entered i errorCode f c).reg .rdi = (entered i errorCode f c).rsp ∧
      OnStack (entered i errorCode f c) (alignedStack c.rsp) (trapframe.flatMap (fieldBytes i errorCode f c)) := by
  obtain ⟨hreg, hseg, hstub⟩ := stub_onStack i errorCode f c
  obtain ⟨hreg', hseg', hsave⟩ := effects_pushes savedSlots _ _ hstub (by simp [savedSlots, IretFrame.bytes])
  have hbytes : Slot.bytes (effects (deliver i errorCode f c) (vectorStub i)) = Slot.bytes c := by
    funext s
    cases s with
    | reg r => simp only [Slot.bytes, hreg]
    | seg g => simp only [Slot.bytes, hseg]
  rw [hbytes, ← trapframe_bytes] at hsave
  -- loading the kernel's segments touches neither the stack nor the frame
  obtain ⟨hrdi, hrsp, hmem⟩ :=
    effects_setup (effects (effects (deliver i errorCode f c) (vectorStub i)) (savedSlots.map Slot.push))
  rw [entered, alltraps, effects_append, effects_append, saveContext_eq, OnStack, hrdi, hrsp, hmem]
  exact ⟨rfl, hsave⟩

end Frame

/-- A field of a packed struct is read at its offset. -/
lemma Holds.read_field {m : Memory} {a : BitVec 64} (bytes : Field → List (BitVec 8))
    (hsize : ∀ g, (bytes g).length = g.size) (fields : List Field) (g : Field) (hg : g ∈ fields)
    (h : Holds m a (fields.flatMap bytes)) :
    readBytes m (a + BitVec.ofNat 64 (offsetIn fields g)) g.size = bytes g := by
  induction fields generalizing a with
  | nil => cases hg
  | cons g₀ fields ih =>
    rw [List.flatMap_cons] at h
    by_cases heq : g₀ = g
    · subst heq
      have hread := h.read_append
      rw [hsize] at hread
      simpa [offsetIn] using hread
    · have hdrop := h.drop_append
      rw [hsize] at hdrop
      have hrest := ih ((List.mem_cons.mp hg).resolve_left (fun h => heq h.symm)) hdrop
      rwa [BitVec.add_assoc, ← BitVec.ofNat_add, ← show offsetIn (g₀ :: fields) g = g₀.size + offsetIn fields g from
        if_neg heq] at hrest

/-- `trap()` returns its argument and leaves the frame it points to as it is. -/
structure TrapReturns (trap : Cpu → Cpu) : Prop where
  rax : ∀ c, (trap c).reg .rax = c.reg .rdi
  frame : ∀ c k, k < sizeofTrapframe →
    (trap c).mem (c.reg .rdi + BitVec.ofNat 64 k) = c.mem (c.reg .rdi + BitVec.ofNat 64 k)

/-- `c₁` is the state in `trap()`, where every field of the frame is at its offset; in `c₂`, before `iretq`, the
saved registers are back and the stack pointer is where the processor pushed the frame that `iretq` pops. -/
structure Restores (i : Fin 256) (errorCode : BitVec 64) (f : IretFrame) (c c₁ c₂ : Cpu) : Prop where
  fields : ∀ g ∈ trapframe, readBytes c₁.mem (c₁.reg .rdi + BitVec.ofNat 64 (offsetIn trapframe g)) g.size =
    fieldBytes i errorCode f c g
  regs : c₂.reg = c.reg
  segs : c₂.seg = c.seg
  address : c₂.rsp = iretFrameAddress c.rsp
  frame : iretq c₂ = f

/-- The interrupt gets to `trap()` and from there to `iretq`, with everything as it was. -/
def RoundTrip (decodes : Instr → Bool) (trap : Cpu → Cpu) (i : Fin 256) (errorCode : BitVec 64) (f : IretFrame)
    (c : Cpu) : Prop :=
  ∃ c₁ c₂, atTrap decodes i errorCode f c = some c₁ ∧ atIretq decodes trap c₁ = some c₂ ∧
    Restores i errorCode f c c₁ c₂

section Return

variable {trap : Cpu → Cpu} {f : IretFrame}

lemma length_fieldBytes (i : Fin 256) (errorCode : BitVec 64) (f : IretFrame) (c : Cpu) (g : Field) :
    (fieldBytes i errorCode f c g).length = g.size := by
  cases g <;> simp [fieldBytes, Field.size]

lemma iretq_of_holds (h : Holds c.mem c.rsp f.bytes) : iretq c = f := by
  have hfields : Holds c.mem c.rsp ([Field.rip, .cs, .rflags, .rsp, .ss].flatMap (fieldBytes 0 0 f c)) := by
    simpa [fieldBytes, IretFrame.bytes] using h
  have hread := fun g hg => Holds.read_field (fieldBytes 0 0 f c) (length_fieldBytes 0 0 f c) _ g hg hfields
  have hrip : readBytes c.mem c.rsp 8 = bytesOf 8 f.rip := by
    simpa [offsetIn, Field.size, fieldBytes] using hread .rip (by simp)
  have hcs : readBytes c.mem (c.rsp + 8) 8 = bytesOf 8 f.cs := hread .cs (by simp)
  have hrflags : readBytes c.mem (c.rsp + 16) 8 = bytesOf 8 f.rflags := hread .rflags (by simp)
  have hrsp : readBytes c.mem (c.rsp + 24) 8 = bytesOf 8 f.rsp := hread .rsp (by simp)
  have hss : readBytes c.mem (c.rsp + 32) 8 = bytesOf 8 f.ss := hread .ss (by simp)
  simp only [iretq, hrip, hcs, hrflags, hrsp, hss, wordOf_bytesOf_eight]

lemma restored (ht : TrapReturns trap) (i : Fin 256) (errorCode : BitVec 64) (f : IretFrame) (c : Cpu) :
    let c₂ := trap (entered i errorCode f c)
    let c₄ := effects c₂ (.movqRaxRsp :: restoreContext)
    c₄.reg = c.reg ∧ c₄.seg = c.seg ∧ OnStack c₄ (alignedStack c.rsp) (bytesOf 8 (BitVec.ofNat 64 i.val) ++
      (bytesOf 8 (if pushesErrorCode i then errorCode else 0) ++ f.bytes)) := by
  intro c₂ c₄
  obtain ⟨hrdi, hstack⟩ := entered_onStack i errorCode f c
  have hrsp : c₂.reg .rax = (entered i errorCode f c).rsp := (ht.rax _).trans hrdi
  have hsize : (trapframe.flatMap (fieldBytes i errorCode f c)).length = sizeofTrapframe := by
    rw [List.length_flatMap, sizeofTrapframe]
    exact congrArg List.sum (List.map_congr_left fun g _ => length_fieldBytes i errorCode f c g)
  -- `trap()` leaves the frame as it is, so the stack is as it was at the call
  have hback : OnStack { c₂ with rsp := c₂.reg .rax } (alignedStack c.rsp)
      (trapframe.flatMap (fieldBytes i errorCode f c)) := by
    refine ⟨hrsp.trans hstack.sp_eq, ?_, hstack.fits⟩
    simp only [hrsp]
    refine hstack.holds.congr fun k hk => ?_
    rw [hsize] at hk
    have hkeep := ht.frame (entered i errorCode f c) k hk
    rwa [hrdi] at hkeep
  rw [trapframe_bytes] at hback
  obtain ⟨hstack', hreg, hseg⟩ := effects_pops savedSlots.reverse _ hback
  have hrun : c₄ = effects { c₂ with rsp := c₂.reg .rax } (savedSlots.reverse.map Slot.pop) := by
    rw [← restoreContext_eq]
    exact effects_cons c₂ .movqRaxRsp restoreContext
  rw [hrun]
  refine ⟨?_, ?_, hstack'⟩
  · funext r
    exact hreg r (Or.inl (List.mem_reverse.mpr (mem_savedSlots _)))
  · funext g
    exact hseg g (Or.inl (List.mem_reverse.mpr (mem_savedSlots _)))

/-- Adding to `%esp` is adding to `%rsp` when the sum is below 4 GiB. -/
lemma addlEsp_eq_iff (rsp : BitVec 64) :
    (rsp.setWidth 32 + 16#32).setWidth 64 = rsp + 16#64 ↔ (rsp + 16#64).toNat < 2 ^ 32 := by
  rw [← BitVec.toNat_inj]
  simp only [BitVec.toNat_setWidth, BitVec.toNat_add, BitVec.toNat_ofNat]
  omega

end Return

/-- The effects of the instructions restore everything if the stack is low enough for `%esp`. -/
lemma restores_iff {trap : Cpu → Cpu} (ht : TrapReturns trap) (i : Fin 256) (errorCode : BitVec 64) (f : IretFrame)
    (c : Cpu) : Restores i errorCode f c (entered i errorCode f c)
        (effects (trap (entered i errorCode f c)) trapret) ↔ (iretFrameAddress c.rsp).toNat < 2 ^ 32 := by
  obtain ⟨hreg, hseg, hstack⟩ := restored ht i errorCode f c
  obtain ⟨hrdi, hframe⟩ := entered_onStack i errorCode f c
  set c₄ := effects (trap (entered i errorCode f c)) (.movqRaxRsp :: restoreContext) with hc₄
  have hlast : effects (trap (entered i errorCode f c)) trapret =
      { c₄ with rsp := (c₄.rsp.setWidth 32 + 16#32).setWidth 64 } := by
    rw [trapret, effects_append, ← hc₄]
    exact effects_cons c₄ (.addlEsp 16) []
  -- without the vector and the error code the stack pointer is at the frame of `iretq`
  obtain ⟨-, hstack₁⟩ := hstack.pop
  obtain ⟨-, hstack₂⟩ := hstack₁.pop
  have haddr : c₄.rsp + 16#64 = iretFrameAddress c.rsp := by
    have hsp := hstack₂.sp_eq
    simp only [length_bytesOf, BitVec.add_assoc] at hsp
    simpa [IretFrame.bytes, iretFrameAddress] using hsp
  rw [← haddr, ← addlEsp_eq_iff, hlast]
  constructor
  · intro h
    exact h.address.trans haddr.symm
  · intro hesp
    refine ⟨?_, hreg, hseg, hesp.trans haddr, ?_⟩
    · intro g hg
      rw [hrdi]
      exact Holds.read_field _ (length_fieldBytes i errorCode f c) trapframe g hg hframe.holds
    · apply iretq_of_holds
      have hholds : Holds c₄.mem (c₄.rsp + 16#64) f.bytes := by
        simpa [BitVec.add_assoc] using hstack₂.holds
      simp only [hesp]
      exact hholds

/-- On a processor that decodes all of it, the code would still need a stack below 4 GiB. -/
theorem trap_round_trip_iff (decodes : Instr → Bool) (trap : Cpu → Cpu) (ht : TrapReturns trap) (i : Fin 256)
    (errorCode : BitVec 64) (f : IretFrame) (c : Cpu) :
    RoundTrip decodes trap i errorCode f c ↔
      (∀ instr ∈ vectorStub i ++ alltraps ++ trapret, decodes instr) ∧ (iretFrameAddress c.rsp).toNat < 2 ^ 32 := by
  rw [← restores_iff ht i errorCode f c, List.forall_mem_append]
  constructor
  · rintro ⟨c₁, c₂, hin, hout, hrestores⟩
    obtain ⟨hdin, rfl⟩ := run_eq_some_iff.mp hin
    obtain ⟨hdout, rfl⟩ := run_eq_some_iff.mp hout
    exact ⟨⟨hdin, hdout⟩, hrestores⟩
  · rintro ⟨⟨hdin, hdout⟩, hrestores⟩
    exact ⟨_, _, run_eq_some_iff.mpr ⟨hdin, rfl⟩, run_eq_some_iff.mpr ⟨hdout, rfl⟩, hrestores⟩

def returnArgument (c : Cpu) : Cpu := c.setReg .rax (c.reg .rdi)

lemma trapReturns_returnArgument : TrapReturns returnArgument where
  rax := fun c => by simp [returnArgument, Cpu.setReg]
  frame := fun _ _ _ => rfl

/-- `save_context` begins with an instruction that 64-bit mode does not have. -/
lemma atTrap_longMode (i : Fin 256) (errorCode : BitVec 64) (f : IretFrame) (c : Cpu) :
    atTrap longMode i errorCode f c = none := by
  rw [Option.eq_none_iff_forall_ne_some]
  intro c₁ hrun
  have hds : Instr.pushw .ds ∈ vectorStub i ++ alltraps := List.mem_append_right _ List.mem_cons_self
  exact absurd ((run_eq_some_iff.mp hrun).1 _ hds) Bool.false_ne_true

theorem trap_round_trip_never (trap : Cpu → Cpu) (i : Fin 256) (errorCode : BitVec 64) (f : IretFrame) (c : Cpu) :
    ¬RoundTrip longMode trap i errorCode f c := by
  rintro ⟨c₁, c₂, hin, -⟩
  rw [atTrap_longMode] at hin
  cases hin

def userAt (rsp : BitVec 64) : Cpu := ⟨fun _ => 1, fun _ => 0x23, rsp, fun _ => 0⟩

def userFrame : IretFrame := ⟨0x400000, 0x1B, 0x202, 0x7000, 0x23⟩

/-- A page fault on a stack in the first megabytes would come back. -/
example : RoundTrip (fun _ => true) returnArgument ⟨14, by decide⟩ 2 userFrame (userAt 0x101000) :=
  (trap_round_trip_iff _ returnArgument trapReturns_returnArgument _ 2 userFrame (userAt 0x101000)).mpr
    ⟨fun _ _ => rfl, by decide⟩

/-- A timer interrupt does not get to `trap()`. -/
theorem trap_entry_undefined :
    atTrap longMode ⟨32, by decide⟩ 0 userFrame (userAt 0xFFFFFFFF80101000) = none ∧
      ¬RoundTrip longMode returnArgument ⟨32, by decide⟩ 0 userFrame (userAt 0xFFFFFFFF80101000) := by
  have hnone := atTrap_longMode ⟨32, by decide⟩ 0 userFrame (userAt 0xFFFFFFFF80101000)
  refine ⟨hnone, ?_⟩
  rintro ⟨c₁, c₂, hin, -⟩
  rw [hnone] at hin
  cases hin

end JavaScriptOS.Trap
