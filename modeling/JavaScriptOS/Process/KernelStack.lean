import JavaScriptOS.Process.CreateProc
import JavaScriptOS.Trap.RoundTrip

/-!
# The first kernel stack of a process

`create_proc` leaves a `context`, a return address and room for a `trapframe` at the top of the stack page.
The switch to a process pops the fields of the context in the order of their declaration, its `ret` takes
`rip`, and the `ret` of `procstart` takes the return address. The return address is stored through a `u8*`,
so that seven of its bytes are those the page had before.
-/

namespace JavaScriptOS.Process
open JavaScriptOS.Lib

/-- A near return: the address it goes to, with the registers there. -/
def ret (c : Trap.Cpu) : BitVec 64 × Trap.Cpu := (wordOf 64 (c.top 8), c.drop 8)

/-- The second half of a switch, to a context in memory. -/
def switchTo (c : Trap.Cpu) (context : BitVec 64) : BitVec 64 × Trap.Cpu :=
  ret (Trap.effects { c with rsp := context } (contextRegs.map .popq))

/-- A `context` that is zero except for its `rip`. -/
def contextBytes (rip : BitVec 64) : List (BitVec 8) :=
  contextRegs.flatMap (fun _ => bytesOf 8 (0 : BitVec 64)) ++ bytesOf 8 rip

/-- The stack of a new process, and where the first switch to it leads. -/
structure StackReady (page trapret procstart : BitVec 64) (proc : ProcT) (m : Memory) : Prop where
  holds : Holds m proc.context (contextBytes procstart ++ bytesOf 8 trapret)
  contiguous : proc.context + sizeofContext + 8 = proc.tf
  top : proc.tf + sizeofTrapframe = page + kstackSize
  inside : (proc.context - page).toNat + sizeofContext.toNat + 8 + sizeofTrapframe.toNat = kstackSize.toNat
  lands : ∀ c : Trap.Cpu, c.mem = m → (switchTo c proc.context).1 = procstart ∧
    (ret (switchTo c proc.context).2).1 = trapret ∧ (ret (switchTo c proc.context).2).2.rsp = proc.tf

variable {s s' : Kernel} {proc : Fin maxProc} {page trapret procstart : BitVec 64} {m : Memory} {a : BitVec 64}

lemma ret_of_onStack {c : Trap.Cpu} {base v : BitVec 64} {l : List (BitVec 8)}
    (h : Trap.OnStack c base (bytesOf 8 v ++ l)) : (ret c).1 = v ∧ Trap.OnStack (ret c).2 base l := by
  obtain ⟨hread, hstack⟩ := Stacked.pop h
  rw [length_bytesOf] at hread hstack
  refine ⟨?_, hstack⟩
  rw [ret, Trap.Cpu.top, hread, wordOf_bytesOf_eight]

/-- Popping a context and returning twice uses up the bytes of a ready stack. -/
lemma switchTo_lands (h : Holds m a (contextBytes procstart ++ bytesOf 8 trapret)) (c : Trap.Cpu) (hc : c.mem = m) :
    (switchTo c a).1 = procstart ∧ (ret (switchTo c a).2).1 = trapret ∧
      (ret (switchTo c a).2).2.rsp = a + sizeofContext + 8 := by
  let zero : Trap.Cpu := ⟨fun _ => 0, fun _ => 0, 0, m⟩
  let slots : List Trap.Slot := contextRegs.map .reg
  have hstack : Trap.OnStack { c with rsp := a } (a + BitVec.ofNat 64 48)
      (slots.flatMap (Trap.Slot.bytes zero) ++ (bytesOf 8 procstart ++ bytesOf 8 trapret)) := by
    refine ⟨?_, ?_, by simp [slots, contextRegs, Trap.Slot.bytes]⟩
    · simp [slots, contextRegs, Trap.Slot.bytes]
    · rw [hc]
      simpa [contextBytes, slots, contextRegs, Trap.Slot.bytes, zero] using h
  obtain ⟨hpopped, -, -⟩ := Trap.effects_pops slots _ hstack
  obtain ⟨hrip, hstack₁⟩ := ret_of_onStack hpopped
  have hlast : bytesOf 8 trapret = bytesOf 8 trapret ++ [] := (List.append_nil _).symm
  rw [hlast] at hstack₁
  obtain ⟨hret, hstack₂⟩ := ret_of_onStack hstack₁
  refine ⟨hrip, hret, ?_⟩
  have hsp := hstack₂.sp_eq
  rw [List.length_nil, BitVec.sub_zero] at hsp
  refine hsp.trans ?_
  rw [BitVec.add_assoc]
  rfl

/-! The places on the page: the context at 3864, the return address at 3904 and the trap frame at 3912. -/

lemma tf_address (page : BitVec 64) : page + kstackSize - sizeofTrapframe = page + BitVec.ofNat 64 3912 := by
  rw [add_sub_assoc]
  rfl

lemma trapret_address (page : BitVec 64) : page + kstackSize - sizeofTrapframe - 8 = page + BitVec.ofNat 64 3904 := by
  rw [tf_address, add_sub_assoc]
  rfl

lemma context_address (page : BitVec 64) :
    page + kstackSize - sizeofTrapframe - 8 - sizeofContext = page + BitVec.ofNat 64 3864 := by
  rw [trapret_address, add_sub_assoc]
  rfl

/-- The three stores of `setupStack`. -/
def stackMemory (page trapret procstart : BitVec 64) (m : Memory) : Memory :=
  writeBytes (writeBytes (writeBytes m (page + BitVec.ofNat 64 3904) (bytesOf 1 trapret))
    (page + BitVec.ofNat 64 3864) (List.replicate 40 0)) (page + BitVec.ofNat 64 3896) (bytesOf 8 procstart)

lemma setupStack_mem (h : (s.procs proc).kstack = page) :
    (setupStack trapret procstart s proc).mem = stackMemory page trapret procstart s.mem := by
  have hrip : page + BitVec.ofNat 64 3864 + BitVec.ofNat 64 (8 * contextRegs.length) = page + BitVec.ofNat 64 3896 := by
    rw [BitVec.add_assoc]
    rfl
  have hsize : sizeofContext.toNat = 40 := rfl
  have hwrites : (setupStack trapret procstart s proc).mem =
      writeBytes (writeBytes (writeBytes s.mem ((s.procs proc).kstack + kstackSize - sizeofTrapframe - 8)
        (bytesOf 1 trapret)) ((s.procs proc).kstack + kstackSize - sizeofTrapframe - 8 - sizeofContext)
        (List.replicate sizeofContext.toNat 0)) ((s.procs proc).kstack + kstackSize - sizeofTrapframe - 8 -
          sizeofContext + BitVec.ofNat 64 (8 * contextRegs.length)) (bytesOf 8 procstart) := rfl
  rw [hwrites, h, context_address, trapret_address, hrip, hsize, stackMemory]

lemma stackMemory_context (m : Memory) : Holds (stackMemory page trapret procstart m) (page + BitVec.ofNat 64 3864)
    (contextBytes procstart) := by
  have hsplit : List.replicate 40 (0 : BitVec 8) =
      contextRegs.flatMap (fun _ => bytesOf 8 (0 : BitVec 64)) ++ List.replicate 8 0 := by decide
  have hzero := holds_writeBytes (writeBytes m (page + BitVec.ofNat 64 3904) (bytesOf 1 trapret))
    (page + BitVec.ofNat 64 3864) (l := List.replicate 40 0) (by simp)
  rw [hsplit] at hzero
  -- the store of `rip` overwrites the last of the zeroed words
  apply Holds.append
  · exact (holds_writeBytes_iff (by simp) (by simp [contextRegs]) (by simp [contextRegs])).mpr
      (by rw [hsplit]; exact hzero.left_of_append)
  · rw [BitVec.add_assoc]
    exact holds_writeBytes _ _ (by simp)

/-- The eighth of the return address that is stored completes the seven that the page had. -/
lemma stackMemory_trapret_iff (procstart : BitVec 64) (m : Memory) :
    Holds (stackMemory page trapret procstart m) (page + BitVec.ofNat 64 3904) (bytesOf 8 trapret) ↔
      Holds m (page + BitVec.ofNat 64 3905) (bytesOf 7 (trapret >>> 8)) := by
  have hsplit : bytesOf 8 trapret = bytesOf 1 trapret ++ bytesOf 7 (trapret >>> 8) := rfl
  have hrest : Holds (stackMemory page trapret procstart m) (page + BitVec.ofNat 64 3905)
      (bytesOf 7 (trapret >>> 8)) ↔ Holds m (page + BitVec.ofNat 64 3905) (bytesOf 7 (trapret >>> 8)) := by
    rw [stackMemory, holds_writeBytes_iff (by simp) (by simp) (by simp), holds_writeBytes_iff (by simp) (by simp)
      (by simp), holds_writeBytes_iff (by simp) (by simp) (by simp)]
  have hnext : page + BitVec.ofNat 64 3904 + BitVec.ofNat 64 (bytesOf 1 trapret).length =
      page + BitVec.ofNat 64 3905 := by
    rw [BitVec.add_assoc]
    rfl
  rw [hsplit, ← hrest]
  constructor
  · intro h
    rw [← hnext]
    exact h.drop_append
  · intro h
    refine Holds.append ?_ (by rw [hnext]; exact h)
    rw [stackMemory, holds_writeBytes_iff (by simp) (by simp) (by simp), holds_writeBytes_iff (by simp) (by simp)
      (by simp)]
    exact holds_writeBytes _ _ (by simp)

lemma setupStack_ready_iff (page trapret procstart : BitVec 64) (s : Kernel) (proc : Fin maxProc) :
    StackReady page trapret procstart ((setupStack trapret procstart (occupied page s proc) proc).procs proc)
        (setupStack trapret procstart (occupied page s proc) proc).mem ↔
      Holds s.mem (page + BitVec.ofNat 64 3905) (bytesOf 7 (trapret >>> 8)) := by
  have hkstack : ((occupied page s proc).procs proc).kstack = page := by rw [occupied_procs_self]
  have htf : ((setupStack trapret procstart (occupied page s proc) proc).procs proc).tf =
      page + BitVec.ofNat 64 3912 := by rw [setupStack_procs_self, hkstack, tf_address]
  have hcontext : ((setupStack trapret procstart (occupied page s proc) proc).procs proc).context =
      page + BitVec.ofNat 64 3864 := by rw [setupStack_procs_self, hkstack, context_address]
  have hmem : (setupStack trapret procstart (occupied page s proc) proc).mem =
      stackMemory page trapret procstart s.mem := setupStack_mem hkstack
  have hreturn : page + BitVec.ofNat 64 3864 + BitVec.ofNat 64 (contextBytes procstart).length =
      page + BitVec.ofNat 64 3904 := by
    rw [BitVec.add_assoc]
    rfl
  rw [← stackMemory_trapret_iff procstart]
  constructor
  · intro hready
    have hholds := hready.holds
    rw [hcontext, hmem] at hholds
    rw [← hreturn]
    exact hholds.drop_append
  · intro hlast
    have hholds : Holds (stackMemory page trapret procstart s.mem) (page + BitVec.ofNat 64 3864)
        (contextBytes procstart ++ bytesOf 8 trapret) :=
      (stackMemory_context s.mem).append (by rw [hreturn]; exact hlast)
    refine ⟨?_, ?_, ?_, ?_, ?_⟩
    · rw [hcontext, hmem]
      exact hholds
    · rw [hcontext, htf, BitVec.add_assoc, BitVec.add_assoc]
      rfl
    · rw [htf, BitVec.add_assoc]
      rfl
    · rw [hcontext, sub_toNat_ofNat page (by decide)]
      rfl
    · intro c hc
      rw [hcontext, htf]
      rw [hmem] at hc
      have hlands := switchTo_lands hholds c hc
      rw [BitVec.add_assoc, BitVec.add_assoc] at hlands
      exact hlands

/-- Only a call that finds an unused slot and gets a page returns a process. -/
lemma createProc_some (h : createProc page trapret procstart s = .ok (some proc, s')) :
    page ≠ 0 ∧ FirstUnused s proc ∧ s' = setupStack trapret procstart (occupied page s proc) proc := by
  rcases full_or_firstUnused s with hfull | ⟨q, hq⟩
  · rw [createProc_full hfull] at h
    cases h
  · rw [createProc_first page trapret procstart hq] at h
    by_cases hpage : page = 0
    · rw [if_pos hpage] at h
      cases h
    · rw [if_neg hpage] at h
      cases h
      exact ⟨hpage, hq, rfl⟩

theorem createProc_stack_iff (page trapret procstart : BitVec 64) (s s' : Kernel) (proc : Fin maxProc)
    (h : createProc page trapret procstart s = .ok (some proc, s')) :
    StackReady page trapret procstart (s'.procs proc) s'.mem ↔
      Holds s.mem (page + BitVec.ofNat 64 3905) (bytesOf 7 (trapret >>> 8)) := by
  obtain ⟨-, -, rfl⟩ := createProc_some h
  exact setupStack_ready_iff page trapret procstart s proc

/-- The table at program start, with zeroed pages. -/
def emptyTable : Kernel := ⟨fun _ => ⟨0, .unused, 0, 0, 0⟩, 1, fun _ => 0⟩

lemma createProc_emptyTable (page trapret procstart : BitVec 64) (hpage : page ≠ 0) :
    createProc page trapret procstart emptyTable =
      .ok (some 0, setupStack trapret procstart (occupied page emptyTable 0) 0) := by
  have hfirst : FirstUnused emptyTable 0 := ⟨rfl, fun q hq => absurd hq (Fin.not_lt_zero q)⟩
  rw [createProc_first page trapret procstart hfirst, if_neg hpage]

/-- `trapret` in the first 256 bytes of the address space. -/
theorem createProc_stack_low_trapret : ∃ s', createProc 0x1000 0x42 0x80 emptyTable = .ok (some 0, s') ∧
    StackReady 0x1000 0x42 0x80 (s'.procs 0) s'.mem := by
  have hrun := createProc_emptyTable 0x1000 0x42 0x80 (by decide)
  refine ⟨_, hrun, (createProc_stack_iff 0x1000 0x42 0x80 emptyTable _ 0 hrun).mpr ?_⟩
  have hbytes : bytesOf 7 ((0x42 : BitVec 64) >>> 8) = List.replicate 7 0 := by decide
  rw [hbytes]
  intro i hi
  rw [List.getElem_replicate]
  rfl

/-- `trapret` in the kernel window, on a zeroed page. -/
theorem createProc_drops_return_address : ¬∀ (page trapret procstart : BitVec 64) (s s' : Kernel) (proc : Fin maxProc),
    createProc page trapret procstart s = .ok (some proc, s') →
      StackReady page trapret procstart (s'.procs proc) s'.mem := by
  intro h
  have hready := h 0x1000 0xFFFFFFFF80101000 0x80 emptyTable _ 0 (createProc_emptyTable _ _ _ (by decide))
  have hholds := (setupStack_ready_iff 0x1000 0xFFFFFFFF80101000 0x80 emptyTable 0).mp hready
  have hbyte := hholds 0 (by decide)
  exact absurd hbyte (by decide)

end JavaScriptOS.Process
