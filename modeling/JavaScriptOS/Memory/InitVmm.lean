import JavaScriptOS.Memory.Paging

/-!
# The kernel's address windows after `init_vmm`

`init_vmm` writes the tables `kpdpe` and `kpml4` and loads CR3. Physical memory is a map from
addresses to words, of which the first `PHYSTOP` bytes exist. As the linker script places the
two tables, `kpml4` is accessed at its physical address and `kpdpe` through the kernel window.
The entries are stored 12 bytes apart, while the processor looks for them 8 bytes apart.
-/

namespace JavaScriptOS.Memory
open JavaScriptOS.Lib

/-- What the walk reads: nothing answers above the installed memory. -/
def ramRead (phys : Nat → Nat) (x : Nat) : Option Nat := if x < phystop then some (phys x) else none

/-- The loop of `init_vmm`: entry `i` of `kpdpe` maps the `i`-th GiB. -/
def fillKpdpe (kpdpe : Nat) : Nat → (Nat → Nat) → Nat → Nat
  | 0, phys => phys
  | i + 1, phys =>
    storePte (fillKpdpe kpdpe i phys) (kv2p kpdpe + pteSize * i) 1 (paToPteAddr (i * 2 ^ 30))

/-- `init_vmm`: the physical memory it leaves and the value it loads into CR3. -/
def initVmm (kpml4 kpdpe : Nat) (phys : Nat → Nat) : (Nat → Nat) × Nat :=
  let phys := fillKpdpe kpdpe 510 phys
  let phys := storePte phys (kv2p kpdpe + pteSize * 510) 1 (paToPteAddr 0)
  let phys := storePte phys (kv2p kpdpe + pteSize * 511) 1 (paToPteAddr (2 ^ 30))
  let phys := storePte phys (kpml4 + pteSize * 511) 0 (kvaToPteAddr kpdpe)
  (phys, kv2p kpml4)

section Stores

/-- An entry of the code, stored at `pte`. -/
structure PteStore where
  pte : Nat
  large : Nat
  addr : Nat

/-- The stores of `init_vmm` to `kpdpe`, in their order. -/
def kpdpeStores (kpdpe : Nat) : List PteStore :=
  (List.range 510).map (fun i => ⟨kv2p kpdpe + pteSize * i, 1, paToPteAddr (i * 2 ^ 30)⟩) ++
    [⟨kv2p kpdpe + pteSize * 510, 1, paToPteAddr 0⟩, ⟨kv2p kpdpe + pteSize * 511, 1, paToPteAddr (2 ^ 30)⟩]

/-- All stores of `init_vmm`. -/
def initVmmStores (kpml4 kpdpe : Nat) : List PteStore :=
  kpdpeStores kpdpe ++ [⟨kpml4 + pteSize * 511, 0, kvaToPteAddr kpdpe⟩]

def applyStores (stores : List PteStore) (phys : Nat → Nat) : Nat → Nat :=
  stores.foldl (fun phys s => storePte phys s.pte s.large s.addr) phys

variable {kpml4 kpdpe x : Nat} {phys : Nat → Nat}

lemma applyStores_append (s₁ s₂ : List PteStore) :
    applyStores (s₁ ++ s₂) phys = applyStores s₂ (applyStores s₁ phys) := List.foldl_append

lemma applyStores_cons (s : PteStore) (stores : List PteStore) :
    applyStores (s :: stores) phys = applyStores stores (storePte phys s.pte s.large s.addr) := rfl

lemma applyStores_nil : applyStores [] phys = phys := rfl

lemma fillKpdpe_eq (n : Nat) : fillKpdpe kpdpe n phys = applyStores
    ((List.range n).map fun i => ⟨kv2p kpdpe + pteSize * i, 1, paToPteAddr (i * 2 ^ 30)⟩) phys := by
  induction n with
  | zero => rfl
  | succ n ih =>
    rw [fillKpdpe, ih, List.range_succ, List.map_append, applyStores_append, List.map_singleton, applyStores_cons,
      applyStores_nil]

lemma applyStores_kpdpeStores : applyStores (kpdpeStores kpdpe) phys =
    storePte (storePte (fillKpdpe kpdpe 510 phys) (kv2p kpdpe + pteSize * 510) 1 (paToPteAddr 0))
      (kv2p kpdpe + pteSize * 511) 1 (paToPteAddr (2 ^ 30)) := by
  rw [kpdpeStores, applyStores_append, ← fillKpdpe_eq, applyStores_cons, applyStores_cons, applyStores_nil]

lemma initVmm_eq_stores : (initVmm kpml4 kpdpe phys).1 = applyStores (initVmmStores kpml4 kpdpe) phys := by
  rw [initVmmStores, applyStores_append, applyStores_kpdpeStores, applyStores_cons, applyStores_nil, initVmm]

lemma kpdpeStores_pte {s : PteStore} (hs : s ∈ kpdpeStores kpdpe) :
    ∃ i, i < 512 ∧ s.pte = kv2p kpdpe + pteSize * i := by
  unfold kpdpeStores at hs
  rcases List.mem_append.mp hs with hloop | hlast
  · obtain ⟨i, hi, rfl⟩ := List.mem_map.mp hloop
    exact ⟨i, by have := List.mem_range.mp hi; omega, rfl⟩
  · simp only [List.mem_cons, List.not_mem_nil, or_false] at hlast
    rcases hlast with rfl | rfl
    · exact ⟨510, by omega, rfl⟩
    · exact ⟨511, by omega, rfl⟩

/-- The words of `kpdpe`, of which the code makes a table of 6144 bytes, and no others are written. -/
lemma applyStores_of_ne {stores : List PteStore} (hstores : ∀ s ∈ stores, s ∈ kpdpeStores kpdpe) (hx : 8 ∣ x)
    (h : x + 8 ≤ kv2p kpdpe ∨ kv2p kpdpe + 512 * pteSize ≤ x) : applyStores stores phys x = phys x := by
  induction stores generalizing phys with
  | nil => rfl
  | cons s stores ih =>
    obtain ⟨i, hi, hpte⟩ := kpdpeStores_pte (hstores s List.mem_cons_self)
    refine Eq.trans (ih fun s' hs' => hstores s' (List.mem_cons_of_mem _ hs')) (storePte_of_ne ?_ hx)
    unfold pteSize at *
    omega

end Stores

/-- The hardware walk after `init_vmm` takes the virtual address `a` to `pa`. -/
def TranslatesAfterInit (kpml4 kpdpe : Nat) (phys : Nat → Nat) (a pa : Nat) : Prop :=
  let (phys', cr3) := initVmm kpml4 kpdpe phys
  (hwWalk (ramRead phys') cr3 a).map Prod.snd = some pa

/-- Both windows show the first GiB of physical memory. -/
def WindowsTranslate (kpml4 kpdpe : Nat) (phys : Nat → Nat) : Prop :=
  ∀ pa, pa < 2 ^ 30 → TranslatesAfterInit kpml4 kpdpe phys (p2kv pa) pa ∧
    TranslatesAfterInit kpml4 kpdpe phys (vaPmapBegin + pa) pa

/-- `KV2P` of a low address is 2 GiB above it, where there is no memory. -/
lemma kv2p_low {kpml4 : Nat} (h : kpml4 < phystop) : kv2p kpml4 = kpml4 + 2 ^ 31 := by
  unfold phystop at h
  unfold kv2p kvaKernelBegin
  omega

/-- The walk from the CR3 value that `init_vmm` loads stops at its first access. -/
lemma hwWalk_initVmm {kpml4 : Nat} (hlow : kpml4 < phystop) (kpdpe : Nat) (phys : Nat → Nat)
    (a : Nat) :
    hwWalk (ramRead (initVmm kpml4 kpdpe phys).1) (initVmm kpml4 kpdpe phys).2 a = none := by
  have hcr3 : 2 ^ 31 ≤ hwFrame (initVmm kpml4 kpdpe phys).2 := by
    change 2 ^ 31 ≤ hwFrame (kv2p kpml4)
    rw [kv2p_low hlow]
    unfold phystop at hlow
    unfold hwFrame bitField
    omega
  have habsent : ∀ i, ¬hwFrame (initVmm kpml4 kpdpe phys).2 + 8 * i < phystop := by
    intro i
    unfold phystop
    omega
  unfold hwWalk hwEntry ramRead
  rw [if_neg (habsent _)]
  rfl

lemma not_translatesAfterInit {kpml4 : Nat} (hlow : kpml4 < phystop) (kpdpe : Nat)
    (phys : Nat → Nat) (a pa : Nat) : ¬TranslatesAfterInit kpml4 kpdpe phys a pa := by
  unfold TranslatesAfterInit
  dsimp only
  rw [hwWalk_initVmm hlow]
  simp

/-- CR3 gets `KV2P` of a table that is linked at its physical address: no address of either
window is translated, wherever the tables lie and whatever memory held before. -/
theorem initVmm_windows_unmapped (kpml4 kpdpe : Nat) (phys : Nat → Nat) (hlow : kpml4 < phystop) :
    ¬WindowsTranslate kpml4 kpdpe phys ∧
    ∀ pa, ¬TranslatesAfterInit kpml4 kpdpe phys (p2kv pa) pa ∧
      ¬TranslatesAfterInit kpml4 kpdpe phys (vaPmapBegin + pa) pa := by
  refine ⟨fun h => ?_, fun pa => ⟨?_, ?_⟩⟩
  · exact not_translatesAfterInit hlow kpdpe phys _ _ (h 0 (by decide)).1
  · exact not_translatesAfterInit hlow kpdpe phys _ _
  · exact not_translatesAfterInit hlow kpdpe phys _ _

theorem initVmm_windows_unmapped_low : 0x101000 < phystop ∧
    ¬WindowsTranslate 0x101000 (kvaKernelBegin + 0x110000) (fun _ => 0) :=
  ⟨by decide, (initVmm_windows_unmapped _ _ _ (by decide)).1⟩

/-- The tables just above 1 MiB, in zeroed memory: address `P2KV(0)` is not mapped. -/
theorem initVmm_window_start_unmapped :
    ¬WindowsTranslate 0x101000 (kvaKernelBegin + 0x110000) (fun _ => 0) := by
  intro h
  have h0 := (h 0 (by decide)).1
  exact not_translatesAfterInit (by decide) _ _ _ _ h0

section KernelMap

/-- The addresses whose bits 48 to 63 repeat bit 47. -/
def Canonical (a : Nat) : Prop := a < 2 ^ 47 ∨ 2 ^ 64 - 2 ^ 47 ≤ a ∧ a < 2 ^ 64

/-- From `kpml4`, entry 511 leads to `kpdpe`, and below it every address is on a present, writable page of
1 GiB: the identity for the first 510 GiB, and the kernel window on the first two GiB of memory. -/
structure KernelMap (kpml4 kpdpe : Nat) (phys : Nat → Nat) : Prop where
  root : pteP (phys (kpml4 + 8 * 511)) = 1 ∧ hwFrame (phys (kpml4 + 8 * 511)) = kv2p kpdpe
  pages : ∀ a, Canonical a → vaPml4i a = 511 → ∃ e pa, hwWalk (fun x => some (phys x)) kpml4 a = some (e, pa) ∧
    pteW e = 1 ∧ pteLarge e = 1 ∧ (vaPdpti a < 510 → pa = vaPdpti a * 2 ^ 30 + a % 2 ^ 30)
  window : ∀ pa, pa < 2 ^ 31 → (hwWalk (fun x => some (phys x)) kpml4 (p2kv pa)).map Prod.snd = some pa

variable {kpml4 kpdpe : Nat} {phys : Nat → Nat}

/-- The last four bytes of entry 0 of a table are cleared with the entry, and no other entry reaches them. -/
lemma dword_rest_storePte {m : Nat → Nat} {t large addr : Nat} (ht : 4 ∣ t) (i : Nat)
    (h : i = 0 ∨ dword m (t + 8) = 0) : dword (storePte m (t + pteSize * i) large addr) (t + 8) = 0 := by
  rcases Nat.eq_zero_or_pos i with rfl | hi
  · exact dword_storePte_rest
  · rw [dword_storePte_of_ne]
    · exact h.resolve_left (Nat.pos_iff_ne_zero.mp hi)
    · left
      unfold pteSize
      omega

lemma dword_rest_fillKpdpe (ht : 4 ∣ kv2p kpdpe) (n : Nat) :
    dword (fillKpdpe kpdpe (n + 1) phys) (kv2p kpdpe + 8) = 0 := by
  induction n with
  | zero => exact dword_rest_storePte ht 0 (Or.inl rfl)
  | succ n ih => exact dword_rest_storePte ht (n + 1) (Or.inr ih)

/-- What the processor takes for entry 1 of `kpdpe` begins with those bytes. -/
lemma initVmm_second_entry (phys : Nat → Nat) (hroot : pgsize ∣ kpml4) (hkpdpe : pgsize ∣ kv2p kpdpe) :
    pteP ((initVmm kpml4 kpdpe phys).1 (kv2p kpdpe + 8 * 1)) = 0 := by
  obtain ⟨k, hk⟩ := hkpdpe
  obtain ⟨l, hl⟩ := hroot
  unfold pgsize at hk hl
  have ht : 4 ∣ kv2p kpdpe := by omega
  have hzero : dword (initVmm kpml4 kpdpe phys).1 (kv2p kpdpe + 8) = 0 := by
    unfold initVmm
    dsimp only
    -- the entry of `kpml4` lies elsewhere in its page
    rw [dword_storePte_of_ne (by unfold pteSize; omega)]
    apply dword_rest_storePte ht
    right
    apply dword_rest_storePte ht
    right
    exact dword_rest_fillKpdpe ht 509
  rw [pteP, ← bitField_dword (by omega) (by omega), Nat.mul_one, hzero]
  rfl

end KernelMap

/-- Wherever the two tables are linked and whatever memory held before, `init_vmm` does not build the map: if
entry 511 of `kpml4` leads to `kpdpe` at all, the second GiB behind it is not mapped. -/
theorem initVmm_kernel_map_never (kpml4 kpdpe : Nat) (phys : Nat → Nat) (hkpdpe : InWindow kpdpe)
    (hroot : pgsize ∣ kpml4) (hphys : kpml4 < 2 ^ 52) : ¬KernelMap kpml4 kpdpe (initVmm kpml4 kpdpe phys).1 := by
  intro h
  have hframe : hwFrame kpml4 = kpml4 := by
    obtain ⟨k, rfl⟩ := hroot
    unfold pgsize at *
    unfold hwFrame bitField
    omega
  obtain ⟨hpresent, hleads⟩ := h.root
  have habsent := initVmm_second_entry phys hroot hkpdpe.dvd_kv2p
  -- the second GiB below entry 511
  have hindices : vaPml4i (2 ^ 64 - 2 ^ 39 + 2 ^ 30) = 511 ∧ vaPdpti (2 ^ 64 - 2 ^ 39 + 2 ^ 30) = 1 := by decide
  obtain ⟨e, pa, hwalk, -⟩ := h.pages (2 ^ 64 - 2 ^ 39 + 2 ^ 30) (Or.inr ⟨by decide, by decide⟩) hindices.1
  have hnone : hwWalk (fun x => some ((initVmm kpml4 kpdpe phys).1 x)) kpml4 (2 ^ 64 - 2 ^ 39 + 2 ^ 30) = none := by
    unfold hwWalk hwEntry
    rw [hframe, hindices.1, hindices.2, Option.bind_some, if_pos hpresent, Option.bind_some, hleads, Option.bind_some,
      if_neg (by rw [habsent]; decide), Option.bind_none]
  rw [hnone] at hwalk
  cases hwalk

theorem initVmm_kernel_map_never_linked : InWindow (kvaKernelBegin + 0x110000) ∧ pgsize ∣ 0x101000 ∧
    ¬KernelMap 0x101000 (kvaKernelBegin + 0x110000) (initVmm 0x101000 (kvaKernelBegin + 0x110000) fun _ => 0).1 := by
  have hwin : InWindow (kvaKernelBegin + 0x110000) := by
    unfold InWindow kvaKernelBegin
    decide
  exact ⟨hwin, by decide, initVmm_kernel_map_never _ _ _ hwin (by decide) (by decide)⟩

/-- Entry 511 of `kpml4` is stored 12 bytes apart from its neighbour too, behind the table that the processor
reads, whose last word stays as it was. -/
theorem initVmm_misses_root :
    (initVmm 0x101000 (kvaKernelBegin + 0x110000) fun _ => 0).1 (0x101000 + 8 * 511) = 0 ∧
      ¬KernelMap 0x101000 (kvaKernelBegin + 0x110000) (initVmm 0x101000 (kvaKernelBegin + 0x110000) fun _ => 0).1 := by
  have hword : (initVmm 0x101000 (kvaKernelBegin + 0x110000) fun _ => 0).1 (0x101000 + 8 * 511) = 0 := by
    rw [initVmm_eq_stores, initVmmStores, applyStores_append, applyStores_cons, applyStores_nil,
      storePte_of_ne (Or.inl (by decide)) (by decide),
      applyStores_of_ne (fun _ hs => hs) (by decide) (Or.inl (by decide))]
  refine ⟨hword, fun h => ?_⟩
  have hpresent := h.root.1
  rw [hword] at hpresent
  cases hpresent

end JavaScriptOS.Memory
