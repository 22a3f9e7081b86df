import JavaScriptOS.Memory.Paging

/-!
# Filling the physical page allocator

`init_pmm` frees the range from the end of the kernel, converted to the physical-map window, up to
`PHYSTOP`, which is a physical address.
-/

namespace JavaScriptOS.Memory
open JavaScriptOS.Lib

/-- `KV2V`, in 64-bit arithmetic. -/
def kv2v (a : Nat) : Nat := (a + (2 ^ 64 - (kvaKernelBegin - vaPmapBegin))) % 2 ^ 64

/-- `VA_KERNEL_END`, for `KVA_KERNEL_END` as the linker places it. -/
def vaKernelEnd (kvaKernelEnd : Nat) : Nat := kv2v kvaKernelEnd

def initPmm (fuel kvaKernelEnd : Nat) (s : PmmState) : Option PmmState :=
  pmmFreeRange fuel (vaKernelEnd kvaKernelEnd) phystop s

section FreeRange

/-- From a state with free list `L`, `pmm_free_range` ends, and the list is `L` behind the pages of
the range, each once. -/
def RangePushed (vstart vend : Nat) (s : PmmState) (L : List Nat) : Prop :=
  ∃ s' new, (∃ n, ∀ fuel, n < fuel → pmmFreeRange fuel vstart vend s = some s') ∧
    Chain s'.mem 0 s'.freelist (new ++ L) ∧ new.Nodup ∧ ∀ p, p ∈ new ↔ IsPageOf vstart vend p

/-- `pmm_free_range` is exact when the start is rounded up below the last page, and neither the
null page nor a page that is free already lies in the range. -/
theorem pmmFreeRange_exact (vstart vend : Nat) (s : PmmState) (L : List Nat)
    (hstart : vstart ≤ 2 ^ 64 - 8192) (hend : vend < 2 ^ 64 - 4096)
    (hL : Chain s.mem 0 s.freelist L) (hfresh : ∀ p ∈ 0 :: L, ¬IsPageOf vstart vend p) :
    RangePushed vstart vend s L :=
  pmmFreeRange_run hstart hend hL hfresh

/-- One page already free, and an unaligned range of two more behind it. -/
theorem pmmFreeRange_exact_two_pages :
    Chain (fun _ => 0) 0 4096 [4096] ∧ RangePushed 5000 17000 ⟨fun _ => 0, 4096⟩ [4096] := by
  have hL : Chain (fun _ => 0) 0 4096 [4096] := Chain.cons (by decide) Chain.nil
  refine ⟨hL, pmmFreeRange_exact 5000 17000 ⟨fun _ => 0, 4096⟩ [4096] (by decide) (by decide) hL ?_⟩
  decide

/-- The null page hides the old list; on the last page the end test wraps; a page that is free
already is linked to itself. -/
theorem pmmFreeRange_not_exact :
    (Chain (fun _ => 0) 0 8192 [8192] ∧ ¬RangePushed 0 4096 ⟨fun _ => 0, 8192⟩ [8192]) ∧
    (Chain (fun _ => 0) 0 0 [] ∧ ¬RangePushed (2 ^ 64 - 8191) 0 ⟨fun _ => 0, 0⟩ []) ∧
    (Chain (fun _ => 0) 0 4096 [4096] ∧ ¬RangePushed 4096 8192 ⟨fun _ => 0, 4096⟩ [4096]) := by
  refine ⟨⟨Chain.cons (by decide) Chain.nil, ?_⟩, ⟨Chain.nil, ?_⟩, Chain.cons (by decide) Chain.nil, ?_⟩
  · rintro ⟨s, new, ⟨n, hrun⟩, hc, -, -⟩
    have hs : some (pmmFree 0 ⟨fun _ => 0, 8192⟩) = some s := hrun (n + 2) (by omega)
    cases hs
    have hnil := hc.eq_nil_iff.mpr rfl
    simp at hnil
  · rintro ⟨s, new, ⟨n, hrun⟩, hc, -, hmem⟩
    have hs : some (pmmFree (2 ^ 64 - 4096) ⟨fun _ => 0, 0⟩) = some s := hrun (n + 2) (by omega)
    cases hs
    rw [List.append_nil] at hc
    rcases hc.inv with ⟨hz, -⟩ | ⟨-, rest, rfl, -⟩
    · exact absurd hz (by decide)
    · have hpage : IsPageOf (2 ^ 64 - 8191) 0 (2 ^ 64 - 4096) := (hmem _).mp (by simp [pmmFree])
      exact absurd hpage.2.2 (by decide)
  · rintro ⟨s, new, ⟨n, hrun⟩, hc, -, -⟩
    have hs : some (pmmFree 4096 ⟨fun _ => 0, 4096⟩) = some s := hrun (n + 2) (by omega)
    cases hs
    -- A page whose link is itself starts no finite chain.
    have hloop : ∀ l, ¬Chain (pmmFree 4096 ⟨fun _ => 0, 4096⟩).mem 0 4096 l := by
      intro l
      induction l with
      | nil => exact fun h => absurd (h.eq_nil_iff.mp rfl) (by decide)
      | cons p l ih =>
        intro h
        rcases h.inv with ⟨-, hnil⟩ | ⟨-, rest, heq, hrest⟩
        · cases hnil
        · cases heq
          exact ih hrest
    exact hloop _ hc

end FreeRange

section InitPmm

variable {kvaKernelEnd : Nat}

/-- The free list holds, each once, the addresses in the physical-map window of the frames between
the end of the kernel and `PHYSTOP`. -/
def Populated (kvaKernelEnd : Nat) (s : PmmState) : Prop :=
  ∃ l, Chain s.mem 0 s.freelist l ∧ l.Nodup ∧
    ∀ va, va ∈ l ↔ ∃ pa, IsPageOf (kv2p kvaKernelEnd) phystop pa ∧ va = vaPmapBegin + pa

/-- The range of `init_pmm` is empty: its start is above `PHYSTOP`. -/
lemma initPmm_run (hlo : kvaKernelBegin ≤ kvaKernelEnd) (hhi : kvaKernelEnd < kvaKernelBegin + phystop)
    (mem : Nat → Nat) : ∃ s, (∃ n, ∀ fuel, n < fuel → initPmm fuel kvaKernelEnd ⟨mem, 0⟩ = some s) ∧
      s.freelist = 0 := by
  have hva : vaKernelEnd kvaKernelEnd = vaPmapBegin + (kvaKernelEnd - kvaKernelBegin) := by
    unfold vaKernelEnd kv2v vaPmapBegin kvaKernelBegin phystop at *
    omega
  have hnone : ∀ p, ¬IsPageOf (vaKernelEnd kvaKernelEnd) phystop p := by
    rintro p ⟨-, hp, hp'⟩
    rw [hva] at hp
    unfold vaPmapBegin phystop pgsize at *
    omega
  have hstart : vaKernelEnd kvaKernelEnd ≤ 2 ^ 64 - 8192 := by
    rw [hva]
    unfold vaPmapBegin kvaKernelBegin phystop at *
    omega
  obtain ⟨s, new, hrun, hc, -, hmem⟩ := pmmFreeRange_run (s := ⟨mem, 0⟩) hstart (by decide) Chain.nil
    (fun p _ => hnone p)
  refine ⟨s, hrun, hc.eq_nil_iff.mp ?_⟩
  rw [List.append_nil]
  exact List.eq_nil_iff_forall_not_mem.mpr fun p hp => hnone p ((hmem p).mp hp)

/-- There is a frame to free unless the kernel reaches into the last one. -/
lemma exists_frame_iff (hlo : kvaKernelBegin ≤ kvaKernelEnd) (hhi : kvaKernelEnd < kvaKernelBegin + phystop) :
    (∃ pa, IsPageOf (kv2p kvaKernelEnd) phystop pa) ↔ kvaKernelEnd ≤ kvaKernelBegin + phystop - pgsize := by
  have hpa : kv2p kvaKernelEnd = kvaKernelEnd - kvaKernelBegin := by
    unfold kv2p kvaKernelBegin phystop at *
    omega
  unfold IsPageOf
  rw [hpa]
  constructor
  · rintro ⟨pa, -, h1, h2⟩
    omega
  · intro hle
    refine ⟨phystop - pgsize, by decide, ?_, ?_⟩
    · unfold phystop pgsize at *
      omega
    · decide

/-- `init_pmm` frees nothing: that is right only if there is no frame between the kernel and
`PHYSTOP`. -/
theorem initPmm_populates_iff (kvaKernelEnd : Nat) (mem : Nat → Nat)
    (hlo : kvaKernelBegin + 2 ^ 20 ≤ kvaKernelEnd) (hhi : kvaKernelEnd < kvaKernelBegin + phystop) :
    ∃ s, (∃ n, ∀ fuel, n < fuel → initPmm fuel kvaKernelEnd ⟨mem, 0⟩ = some s) ∧
      (Populated kvaKernelEnd s ↔ kvaKernelBegin + phystop - pgsize < kvaKernelEnd) := by
  have hbegin : kvaKernelBegin ≤ kvaKernelEnd := (Nat.le_add_right _ _).trans hlo
  obtain ⟨s, hrun, hempty⟩ := initPmm_run hbegin hhi mem
  refine ⟨s, hrun, ?_⟩
  rw [← Nat.not_le, ← exists_frame_iff hbegin hhi]
  constructor
  · rintro ⟨l, hc, -, hmem⟩ ⟨pa, hpa⟩
    have hnil := hc.eq_nil_iff.mpr hempty
    have hin := (hmem _).mpr ⟨pa, hpa, rfl⟩
    rw [hnil] at hin
    cases hin
  · intro hnone
    refine ⟨[], hempty ▸ Chain.nil, List.nodup_nil, fun va => ⟨fun hva => absurd hva List.not_mem_nil, ?_⟩⟩
    rintro ⟨pa, hpa, -⟩
    exact absurd ⟨pa, hpa⟩ hnone

theorem initPmm_populates_full_kernel :
    ∃ s, (∃ n, ∀ fuel, n < fuel →
        initPmm fuel (kvaKernelBegin + phystop - 1) ⟨fun _ => 0, 0⟩ = some s) ∧
      Populated (kvaKernelBegin + phystop - 1) s := by
  obtain ⟨s, hrun, hiff⟩ := initPmm_populates_iff (kvaKernelBegin + phystop - 1) (fun _ => 0) (by decide)
    (by decide)
  exact ⟨s, hrun, hiff.mpr (by decide)⟩

/-- A kernel of 1 MiB leaves almost all of the first GiB, and none of it is freed. -/
theorem initPmm_frees_nothing :
    ∃ s, initPmm 1 (kvaKernelBegin + 2 ^ 20) ⟨fun _ => 0, 0⟩ = some s ∧
      ¬Populated (kvaKernelBegin + 2 ^ 20) s := by
  refine ⟨⟨fun _ => 0, 0⟩, rfl, ?_⟩
  rintro ⟨l, hc, -, hmem⟩
  have hnil := hc.eq_nil_iff.mpr rfl
  have hin := (hmem _).mpr ⟨2 ^ 20, by decide, rfl⟩
  rw [hnil] at hin
  cases hin

end InitPmm

end JavaScriptOS.Memory
