import JavaScriptOS.Memory.InitPmm
import JavaScriptOS.Memory.Vmm

/-!
# Finding a new table again

`derefpte` stores the page of a new table with `KVA_TO_PTE_ADDR`, which takes it to lie in the kernel window, in a
field of 28 bits, and finds it again with `P2KV`. The pages of the allocator lie in the physical-map window
instead.
-/

namespace JavaScriptOS.Memory
open JavaScriptOS.Lib

/-- The address that an entry for the table `pt` leads to. -/
def recovered (pt : Nat) : Nat := p2kv (kvaToPteAddr pt % 2 ^ 28 * 4096)

/-- The page addresses of the first GiB of the kernel window. -/
structure KernelPage (k : Nat) : Prop where
  aligned : pgsize ∣ k
  lower : kvaKernelBegin ≤ k
  upper : k < kvaKernelBegin + 2 ^ 30

variable {pt pte k : Nat} {alloc : Bool} {s s' : VmmState}

/-- The field keeps 40 bits of the physical address. -/
lemma recovered_eq (h : pgsize ∣ pt) : recovered pt = p2kv (kv2p pt % 2 ^ 40) := by
  have hfield : kvaToPteAddr pt % 2 ^ 28 * 4096 = kv2p pt % 2 ^ 40 := by
    unfold kvaToPteAddr paToPteAddr kv2p kvaKernelBegin
    unfold pgsize at h
    omega
  rw [recovered, hfield]

/-- From the physical-map window the way through the entry ends at the bare physical address. -/
lemma recovered_kv2v (hk : KernelPage k) : recovered (kv2v k) = k - kvaKernelBegin := by
  have haligned := hk.aligned
  have hlower := hk.lower
  have hupper := hk.upper
  have hpage : pgsize ∣ kv2v k := by
    unfold pgsize kv2v kvaKernelBegin vaPmapBegin at *
    omega
  rw [recovered_eq hpage]
  unfold p2kv kv2p kv2v kvaKernelBegin vaPmapBegin at *
  omega

lemma kv2v_eq (hk : KernelPage k) : kv2v k = vaPmapBegin + (k - kvaKernelBegin) := by
  have hlower := hk.lower
  have hupper := hk.upper
  unfold kv2v kvaKernelBegin vaPmapBegin at *
  omega

/-- An allocating call leaves an entry for the page it returns. -/
lemma mem_of_allocated (hp : pteP (dword s.pmm.mem pte) ≠ 1) (hpt : pt ≠ 0)
    (hrun : derefpte pte true s = (pt, s')) : ∃ m, s'.pmm.mem = storePte m pte 0 (kvaToPteAddr pt) := by
  rw [derefpte, if_neg hp, if_neg (by decide)] at hrun
  dsimp only at hrun
  by_cases hnull : (pmmAlloc s.pmm).1 = 0
  · rw [if_pos hnull] at hrun
    cases hrun
    exact absurd rfl hpt
  · rw [if_neg hnull] at hrun
    cases hrun
    exact ⟨_, rfl⟩

/-- A second call goes through the entry of the first. -/
lemma derefpte_again (hp : pteP (dword s.pmm.mem pte) ≠ 1) (hpt : pt ≠ 0)
    (hrun : derefpte pte true s = (pt, s')) : derefpte pte alloc s' = (recovered pt, s') := by
  obtain ⟨m, hmem⟩ := mem_of_allocated hp hpt hrun
  rw [derefpte, hmem, if_pos pteP_storePte, pteAddr_storePte]
  rfl

/-- For no page of the physical-map window does the second call return what the first has returned. -/
theorem derefpte_unstable (pte k : Nat) (alloc : Bool) (s s' : VmmState) (hk : KernelPage k)
    (hp : pteP (dword s.pmm.mem pte) ≠ 1) (hrun : derefpte pte true s = (kv2v k, s')) :
    derefpte pte alloc s' = (k - kvaKernelBegin, s') ∧ k - kvaKernelBegin ≠ kv2v k := by
  have hpmap := kv2v_eq hk
  have hpt : kv2v k ≠ 0 := by
    rw [hpmap]
    unfold vaPmapBegin
    omega
  constructor
  · rw [derefpte_again hp hpt hrun, recovered_kv2v hk]
  · rw [hpmap]
    unfold vaPmapBegin
    omega

/-- An allocator with one page, the one behind the first MiB of the kernel, and an empty entry at `0x5000`. -/
def onePage : VmmState := ⟨⟨fun _ => 0, kv2v (kvaKernelBegin + 2 ^ 20)⟩, []⟩

lemma kernelPage_onePage : KernelPage (kvaKernelBegin + 2 ^ 20) := ⟨by decide, by decide, by decide⟩

lemma derefpte_onePage : ∃ s', derefpte 0x5000 true onePage = (kv2v (kvaKernelBegin + 2 ^ 20), s') := ⟨_, rfl⟩

theorem derefpte_unstable_onePage : ∃ s', derefpte 0x5000 true onePage = (kv2v (kvaKernelBegin + 2 ^ 20), s') ∧
    derefpte 0x5000 true s' = (kvaKernelBegin + 2 ^ 20 - kvaKernelBegin, s') := by
  obtain ⟨s', hrun⟩ := derefpte_onePage
  exact ⟨s', hrun, (derefpte_unstable 0x5000 _ true onePage s' kernelPage_onePage (by decide) hrun).1⟩

theorem derefpte_loses_table : ¬∀ (pte k : Nat) (alloc : Bool) (s s' : VmmState), KernelPage k →
    pteP (dword s.pmm.mem pte) ≠ 1 → derefpte pte true s = (kv2v k, s') →
      derefpte pte alloc s' = (kv2v k, s') := by
  intro h
  obtain ⟨s', hrun⟩ := derefpte_onePage
  have hagain := h 0x5000 _ true onePage s' kernelPage_onePage (by decide) hrun
  rw [derefpte_again (by decide) (by decide) hrun, recovered_kv2v kernelPage_onePage] at hagain
  have hsame : kvaKernelBegin + 2 ^ 20 - kvaKernelBegin = kv2v (kvaKernelBegin + 2 ^ 20) := congrArg Prod.fst hagain
  exact absurd hsame (by decide)

end JavaScriptOS.Memory
