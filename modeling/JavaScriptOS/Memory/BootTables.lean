import JavaScriptOS.Memory.InitVmm

/-!
# The page tables of `boot.S`

Before paging is enabled, the boot code fills four tables of the zeroed section `.page_tables` with 32-bit
stores, eight bytes apart. `kpml4` is the first of them. The entry that `init_vmm` means to store there, while
the kernel runs on these tables, lands in the one behind it.
-/

namespace JavaScriptOS.Memory
open JavaScriptOS.Lib

/-- `movl %eax, m32`: the upper half of the word stays. -/
def storeLow (phys : Nat → Nat) (x eax : Nat) : Nat → Nat :=
  Function.update phys x (phys x / 2 ^ 32 * 2 ^ 32 + eax % 2 ^ 32)

/-- The assembler macro `MAPPAGE`. -/
def mappage (phys : Nat → Nat) (pt idx addr : Nat) (largepage : Bool) : Nat → Nat :=
  storeLow phys (pt + 8 * idx) (addr ||| if largepage then 0x1 ||| 0x2 ||| 0x80 else 0x1 ||| 0x2)

/-- `BOOT_PDPT_id`. -/
def bootPdptId (kpml4 : Nat) : Nat := kpml4 + pgsize

/-- `BOOT_PD_id`. -/
def bootPdId (kpml4 : Nat) : Nat := kpml4 + 2 * pgsize

/-- `BOOT_PDPT_hh`. -/
def bootPdptHh (kpml4 : Nat) : Nat := kpml4 + 3 * pgsize

/-- The tables that `multiboot2_start` builds. -/
def multiboot2Start (kpml4 : Nat) (phys : Nat → Nat) : Nat → Nat :=
  let phys := mappage phys kpml4 0 (bootPdptId kpml4) false
  let phys := mappage phys (bootPdptId kpml4) 0 (bootPdId kpml4) false
  let phys := mappage phys (bootPdId kpml4) 0 0 true
  let phys := mappage phys kpml4 511 (bootPdptHh kpml4) false
  mappage phys (bootPdptHh kpml4) 510 (bootPdId kpml4) false

/-- Where the linker puts the section `.page_tables`, and that the loader clears it. -/
structure BootSection (kpml4 : Nat) (phys : Nat → Nat) : Prop where
  aligned : pgsize ∣ kpml4
  below : kpml4 + 4 * pgsize ≤ 2 ^ 32
  zeroed : ∀ x, kpml4 ≤ x → x < kpml4 + 4 * pgsize → phys x = 0

/-- The boot tables as the walk sees them, except for one entry of `BOOT_PDPT_id`. The entry of a table is its
address with the bits `p` and `w`. -/
structure BootEntries (kpml4 : Nat) (phys : Nat → Nat) : Prop where
  root : ∀ i, i < 512 → phys (kpml4 + 8 * i) =
    if i = 0 then bootPdptId kpml4 + 3 else if i = 511 then bootPdptHh kpml4 + 3 else 0
  pdptId : ∀ i, i < 512 → i ≠ 255 →
    hwEntry (fun x => some (phys x)) (bootPdptId kpml4) i = if i = 0 then some (bootPdId kpml4 + 3) else none
  pdId : ∀ i, i < 512 → phys (bootPdId kpml4 + 8 * i) = if i = 0 then 0x83 else 0
  pdptHh : ∀ i, i < 512 → phys (bootPdptHh kpml4 + 8 * i) = if i = 510 then bootPdId kpml4 + 3 else 0

section Build

variable {kpml4 : Nat} {phys : Nat → Nat}

lemma or_three {t : Nat} (h : pgsize ∣ t) : t ||| (0x1 ||| 0x2) = t + 3 := by
  obtain ⟨k, rfl⟩ := h
  have hshift : pgsize * k = k <<< 12 := by
    rw [Nat.shiftLeft_eq, pgsize, Nat.mul_comm]
  rw [hshift]
  exact (Nat.shiftLeft_add_eq_or_of_lt (by decide) k).symm

lemma mappage_apply {pt idx addr : Nat} {largepage : Bool} (hz : phys (pt + 8 * idx) = 0) (x : Nat) :
    mappage phys pt idx addr largepage x =
      if x = pt + 8 * idx then (addr ||| if largepage then 0x1 ||| 0x2 ||| 0x80 else 0x1 ||| 0x2) % 2 ^ 32
      else phys x := by
  unfold mappage storeLow
  by_cases hx : x = pt + 8 * idx
  · rw [if_pos hx, hx, Function.update_self, hz]
    omega
  · rw [if_neg hx, Function.update_of_ne hx]

lemma mappage_table {pt idx t : Nat} (ht : pgsize ∣ t) (hlow : t < 2 ^ 32) (hz : phys (pt + 8 * idx) = 0)
    (x : Nat) : mappage phys pt idx t false x = if x = pt + 8 * idx then t + 3 else phys x := by
  have hsmall : (t + 3) % 2 ^ 32 = t + 3 := by
    obtain ⟨k, rfl⟩ := ht
    unfold pgsize at *
    omega
  rw [mappage_apply hz]
  simp only [Bool.false_eq_true, if_false, or_three ht, hsmall]

/-- What the five stores leave in each word. -/
lemma multiboot2Start_apply (h : BootSection kpml4 phys) (x : Nat) : multiboot2Start kpml4 phys x =
    if x = kpml4 + 3 * 4096 + 8 * 510 then kpml4 + 2 * 4096 + 3
    else if x = kpml4 + 8 * 511 then kpml4 + 3 * 4096 + 3
    else if x = kpml4 + 2 * 4096 + 8 * 0 then 0x83
    else if x = kpml4 + 4096 + 8 * 0 then kpml4 + 2 * 4096 + 3
    else if x = kpml4 + 8 * 0 then kpml4 + 4096 + 3
    else phys x := by
  obtain ⟨haligned, hbelow, hzeroed⟩ := h
  have hid : pgsize ∣ bootPdptId kpml4 := Nat.dvd_add haligned (Nat.dvd_refl _)
  have hpd : pgsize ∣ bootPdId kpml4 := Nat.dvd_add haligned (Nat.dvd_mul_left _ _)
  have hhh : pgsize ∣ bootPdptHh kpml4 := Nat.dvd_add haligned (Nat.dvd_mul_left _ _)
  have hz : ∀ x, kpml4 ≤ x → x < kpml4 + 4 * 4096 → phys x = 0 := hzeroed
  unfold multiboot2Start
  unfold bootPdptId bootPdId bootPdptHh pgsize at *
  -- each store goes to a word that is still zero
  set m₁ := mappage phys kpml4 0 (kpml4 + 4096) false with hm₁
  have h₁ : ∀ x, m₁ x = if x = kpml4 + 8 * 0 then kpml4 + 4096 + 3 else phys x :=
    mappage_table hid (by omega) (hz _ (by omega) (by omega))
  set m₂ := mappage m₁ (kpml4 + 4096) 0 (kpml4 + 2 * 4096) false with hm₂
  have h₂ : ∀ x, m₂ x = if x = kpml4 + 4096 + 8 * 0 then kpml4 + 2 * 4096 + 3 else m₁ x := by
    apply mappage_table hpd (by omega)
    rw [h₁, if_neg (by omega)]
    exact hz _ (by omega) (by omega)
  set m₃ := mappage m₂ (kpml4 + 2 * 4096) 0 0 true with hm₃
  have h₃ : ∀ x, m₃ x = if x = kpml4 + 2 * 4096 + 8 * 0 then 0x83 else m₂ x := by
    apply mappage_apply
    rw [h₂, if_neg (by omega), h₁, if_neg (by omega)]
    exact hz _ (by omega) (by omega)
  set m₄ := mappage m₃ kpml4 511 (kpml4 + 3 * 4096) false with hm₄
  have h₄ : ∀ x, m₄ x = if x = kpml4 + 8 * 511 then kpml4 + 3 * 4096 + 3 else m₃ x := by
    apply mappage_table hhh (by omega)
    rw [h₃, if_neg (by omega), h₂, if_neg (by omega), h₁, if_neg (by omega)]
    exact hz _ (by omega) (by omega)
  rw [mappage_table hpd (by omega), h₄, h₃, h₂, h₁]
  rw [h₄, if_neg (by omega), h₃, if_neg (by omega), h₂, if_neg (by omega), h₁, if_neg (by omega)]
  exact hz _ (by omega) (by omega)

/-- The words of the table `BOOT_PDPT_id`. -/
lemma multiboot2Start_pdptId (h : BootSection kpml4 phys) {i : Nat} (hi : i < 512) :
    multiboot2Start kpml4 phys (bootPdptId kpml4 + 8 * i) = if i = 0 then bootPdId kpml4 + 3 else 0 := by
  have hz : ∀ x, kpml4 ≤ x → x < kpml4 + 4 * 4096 → phys x = 0 := h.zeroed
  change multiboot2Start kpml4 phys (kpml4 + 4096 + 8 * i) = if i = 0 then kpml4 + 2 * 4096 + 3 else 0
  rw [multiboot2Start_apply h, hz _ (by omega) (by omega)]
  split_ifs <;> omega

end Build

section Walk

variable {kpml4 : Nat} {phys : Nat → Nat} {a pa : Nat}

/-- The boot map: the first 2 MiB of memory, at address zero and at the start of the kernel window. -/
def BootMaps (a pa : Nat) : Prop := pa < 2 ^ 21 ∧ (a = pa ∨ a = kvaKernelBegin + pa)

/-- The entry for a table leads to the table. -/
lemma tableEntry_fields {t : Nat} (ht : pgsize ∣ t) (hlow : t < 2 ^ 32) :
    pteP (t + 3) = 1 ∧ pteLarge (t + 3) = 0 ∧ hwFrame (t + 3) = t := by
  obtain ⟨k, rfl⟩ := ht
  unfold pgsize at *
  unfold pteP pteLarge hwFrame bitField
  omega

lemma hwEntry_none {table i : Nat} (h : pteP (phys (table + 8 * i)) = 0) :
    hwEntry (fun x => some (phys x)) table i = none := by
  simp [hwEntry, h]

lemma hwEntry_some {table i e : Nat} (h : phys (table + 8 * i) = e) (hp : pteP e = 1) :
    hwEntry (fun x => some (phys x)) table i = some e := by
  simp [hwEntry, h, hp]

/-- A table of which one entry is present. -/
lemma hwEntry_ite {table i j e : Nat} (h : phys (table + 8 * i) = if i = j then e else 0) (hp : pteP e = 1) :
    hwEntry (fun x => some (phys x)) table i = if i = j then some e else none := by
  split_ifs at h ⊢ with hij
  · exact hwEntry_some h hp
  · apply hwEntry_none
    rw [h]
    rfl

lemma multiboot2Start_pdptId_none (h : BootSection kpml4 phys) {i : Nat} (hi : i < 512) (hne : i ≠ 0) :
    hwEntry (fun x => some (multiboot2Start kpml4 phys x)) (bootPdptId kpml4) i = none := by
  apply hwEntry_none
  rw [multiboot2Start_pdptId h hi, if_neg hne]
  rfl

lemma multiboot2Start_entries (h : BootSection kpml4 phys) : BootEntries kpml4 (multiboot2Start kpml4 phys) := by
  have hz : ∀ x, kpml4 ≤ x → x < kpml4 + 4 * 4096 → phys x = 0 := h.zeroed
  refine ⟨fun i hi => ?_, fun i hi _ => ?_, fun i hi => ?_, fun i hi => ?_⟩
  · rw [multiboot2Start_apply h, hz _ (by omega) (by omega)]
    unfold bootPdptId bootPdptHh pgsize
    split_ifs <;> omega
  · refine hwEntry_ite (multiboot2Start_pdptId h hi) (tableEntry_fields ?_ ?_).1
    · exact Nat.dvd_add h.aligned (Nat.dvd_mul_left _ _)
    · have := h.below
      unfold bootPdId pgsize at *
      omega
  · change multiboot2Start kpml4 phys (kpml4 + 2 * 4096 + 8 * i) = if i = 0 then 0x83 else 0
    rw [multiboot2Start_apply h, hz _ (by omega) (by omega)]
    split_ifs <;> omega
  · change multiboot2Start kpml4 phys (kpml4 + 3 * 4096 + 8 * i) = if i = 510 then kpml4 + 2 * 4096 + 3 else 0
    rw [multiboot2Start_apply h, hz _ (by omega) (by omega)]
    split_ifs <;> omega

/-- The walk through the page directory that both halves share. -/
lemma BootEntries.walk_pd (h : BootEntries kpml4 phys) (a : Nat) :
    ((hwEntry (fun x => some (phys x)) (bootPdId kpml4) (vaPdi a)).bind fun pde =>
      if pteLarge pde = 1 then some (pde, bitField pde 21 31 * 2 ^ 21 + a % 2 ^ 21) else
      (hwEntry (fun x => some (phys x)) (hwFrame pde) (vaPti a)).bind fun pte =>
        some (pte, hwFrame pte + a % 4096)) =
      if vaPdi a = 0 then some (0x83, a % 2 ^ 21) else none := by
  rw [hwEntry_ite (h.pdId (vaPdi a) bitField_lt) (by decide)]
  by_cases h0 : vaPdi a = 0
  · rw [if_pos h0, if_pos h0, Option.bind_some, if_pos (by decide)]
    simp [bitField]
  · rw [if_neg h0, if_neg h0, Option.bind_none]

variable (hroot : pgsize ∣ kpml4) (hbelow : kpml4 + 4 * pgsize ≤ 2 ^ 32)

include hroot hbelow

/-- The walk from a directory-pointer table in which `a` finds the page directory or nothing. -/
lemma BootEntries.walk_pdpt (h : BootEntries kpml4 phys) {table j : Nat}
    (htable : hwEntry (fun x => some (phys x)) table (vaPdpti a) =
      if vaPdpti a = j then some (bootPdId kpml4 + 3) else none) :
    ((hwEntry (fun x => some (phys x)) table (vaPdpti a)).bind fun pdpte =>
      if pteLarge pdpte = 1 then some (pdpte, bitField pdpte 30 22 * 2 ^ 30 + a % 2 ^ 30) else
      (hwEntry (fun x => some (phys x)) (hwFrame pdpte) (vaPdi a)).bind fun pde =>
      if pteLarge pde = 1 then some (pde, bitField pde 21 31 * 2 ^ 21 + a % 2 ^ 21) else
      (hwEntry (fun x => some (phys x)) (hwFrame pde) (vaPti a)).bind fun pte =>
        some (pte, hwFrame pte + a % 4096)) =
      if vaPdpti a = j ∧ vaPdi a = 0 then some (0x83, a % 2 ^ 21) else none := by
  have hpd : pgsize ∣ bootPdId kpml4 := Nat.dvd_add hroot (Nat.dvd_mul_left _ _)
  have hlow : bootPdId kpml4 < 2 ^ 32 := by
    unfold bootPdId pgsize at *
    omega
  obtain ⟨hp, hl, hf⟩ := tableEntry_fields hpd hlow
  rw [htable]
  by_cases hj : vaPdpti a = j
  · rw [if_pos hj, Option.bind_some, if_neg (by omega), hf, h.walk_pd]
    simp only [hj, true_and]
  · rw [if_neg hj, Option.bind_none, if_neg fun hboth => hj hboth.1]

lemma hwFrame_root : hwFrame kpml4 = kpml4 := by
  obtain ⟨k, rfl⟩ := hroot
  unfold pgsize at *
  unfold hwFrame bitField
  omega

/-- The walk below entry 0 of the root, except through the entry that is left out. -/
lemma BootEntries.walk_low (h : BootEntries kpml4 phys) (ha : vaPml4i a = 0)
    (hentry : vaPdpti a ≠ 255 ∨ hwEntry (fun x => some (phys x)) (bootPdptId kpml4) 255 = none) :
    hwWalk (fun x => some (phys x)) kpml4 a =
      if vaPdpti a = 0 ∧ vaPdi a = 0 then some (0x83, a % 2 ^ 21) else none := by
  have hid : pgsize ∣ bootPdptId kpml4 := Nat.dvd_add hroot (Nat.dvd_refl _)
  have hlow : bootPdptId kpml4 < 2 ^ 32 := by
    unfold bootPdptId pgsize at *
    omega
  obtain ⟨hp, -, hf⟩ := tableEntry_fields hid hlow
  have hword : phys (kpml4 + 8 * vaPml4i a) = bootPdptId kpml4 + 3 := by
    rw [ha]
    exact h.root 0 (by omega)
  have htable : hwEntry (fun x => some (phys x)) (bootPdptId kpml4) (vaPdpti a) =
      if vaPdpti a = 0 then some (bootPdId kpml4 + 3) else none := by
    by_cases h255 : vaPdpti a = 255
    · rw [h255, if_neg (by omega)]
      exact hentry.resolve_left (not_not.mpr h255)
    · exact h.pdptId _ bitField_lt h255
  unfold hwWalk
  rw [hwFrame_root hroot hbelow, hwEntry_some hword hp, Option.bind_some, hf, h.walk_pdpt hroot hbelow htable]

lemma BootEntries.walk_high (h : BootEntries kpml4 phys) (ha : vaPml4i a = 511) :
    hwWalk (fun x => some (phys x)) kpml4 a =
      if vaPdpti a = 510 ∧ vaPdi a = 0 then some (0x83, a % 2 ^ 21) else none := by
  have hhh : pgsize ∣ bootPdptHh kpml4 := Nat.dvd_add hroot (Nat.dvd_mul_left _ _)
  have hpd : pgsize ∣ bootPdId kpml4 := Nat.dvd_add hroot (Nat.dvd_mul_left _ _)
  have hlow : bootPdptHh kpml4 < 2 ^ 32 ∧ bootPdId kpml4 < 2 ^ 32 := by
    unfold bootPdptHh bootPdId pgsize at *
    omega
  obtain ⟨hp, -, hf⟩ := tableEntry_fields hhh hlow.1
  have hword : phys (kpml4 + 8 * vaPml4i a) = bootPdptHh kpml4 + 3 := by
    rw [ha]
    exact h.root 511 (by omega)
  have htable := hwEntry_ite (h.pdptHh (vaPdpti a) bitField_lt) (tableEntry_fields hpd hlow.2).1
  unfold hwWalk
  rw [hwFrame_root hroot hbelow, hwEntry_some hword hp, Option.bind_some, hf, h.walk_pdpt hroot hbelow htable]

/-- Between the first and the last entry of the root nothing is mapped. -/
lemma BootEntries.walk_between (h : BootEntries kpml4 phys) (h0 : vaPml4i a ≠ 0) (h511 : vaPml4i a ≠ 511) :
    hwWalk (fun x => some (phys x)) kpml4 a = none := by
  have hword := h.root (vaPml4i a) bitField_lt
  rw [if_neg h0, if_neg h511] at hword
  unfold hwWalk
  rw [hwFrame_root hroot hbelow, hwEntry_none (by rw [hword]; rfl), Option.bind_none]

omit hroot hbelow in
lemma low_indices (hcanon : Canonical a) : vaPml4i a = 0 ∧ vaPdpti a = 0 ∧ vaPdi a = 0 ↔ a < 2 ^ 21 := by
  unfold Canonical at hcanon
  unfold vaPml4i vaPdpti vaPdi bitField
  omega

omit hroot hbelow in
lemma high_indices (hcanon : Canonical a) : vaPml4i a = 511 ∧ vaPdpti a = 510 ∧ vaPdi a = 0 ↔
    kvaKernelBegin ≤ a ∧ a < kvaKernelBegin + 2 ^ 21 := by
  unfold Canonical at hcanon
  unfold vaPml4i vaPdpti vaPdi bitField kvaKernelBegin
  omega

/-- The tables give the boot map, except perhaps in the GiB of the entry that is left out. -/
lemma BootEntries.translates (h : BootEntries kpml4 phys) (hcanon : Canonical a)
    (hentry : a / 2 ^ 30 ≠ 255 ∨ hwEntry (fun x => some (phys x)) (bootPdptId kpml4) 255 = none) :
    (hwWalk (fun x => some (phys x)) kpml4 a).map Prod.snd = some pa ↔ BootMaps a pa := by
  have hlow := low_indices hcanon
  have hhigh := high_indices hcanon
  have hwindow : kvaKernelBegin = 2 ^ 64 - 2 ^ 31 := rfl
  unfold BootMaps
  by_cases h0 : vaPml4i a = 0
  · have hgib : a / 2 ^ 30 = 255 ∨ vaPdpti a ≠ 255 := by
      unfold Canonical at hcanon
      unfold vaPml4i bitField at h0
      unfold vaPdpti bitField
      omega
    rw [h.walk_low hroot hbelow h0 (hentry.imp_left fun hne => hgib.resolve_left hne)]
    simp only [h0, true_and] at hlow
    by_cases hin : vaPdpti a = 0 ∧ vaPdi a = 0
    · have hlt := hlow.mp hin
      rw [if_pos hin, Option.map_some, Option.some.injEq]
      omega
    · rw [if_neg hin, Option.map_none]
      rw [hlow] at hin
      simp only [h0, false_and, Nat.zero_ne_add_one, false_iff] at hhigh
      simp only [reduceCtorEq, false_iff]
      omega
  by_cases h511 : vaPml4i a = 511
  · rw [h.walk_high hroot hbelow h511]
    simp only [h511, true_and] at hhigh
    by_cases hin : vaPdpti a = 510 ∧ vaPdi a = 0
    · obtain ⟨hge, hlt⟩ := hhigh.mp hin
      rw [if_pos hin, Option.map_some, Option.some.injEq]
      omega
    · rw [if_neg hin, Option.map_none]
      rw [hhigh] at hin
      have hnot : ¬a < 2 ^ 21 := fun hlt => h0 (hlow.mpr hlt).1
      simp only [reduceCtorEq, false_iff]
      omega
  · have hnot : ¬a < 2 ^ 21 := fun hlt => h0 (hlow.mpr hlt).1
    have hnot' : ¬(kvaKernelBegin ≤ a ∧ a < kvaKernelBegin + 2 ^ 21) := fun hin => h511 (hhigh.mpr hin).1
    rw [h.walk_between hroot hbelow h0 h511, Option.map_none]
    simp only [reduceCtorEq, false_iff]
    omega

end Walk

/-- The boot code maps the first 2 MiB of memory at address zero and at the start of the kernel window,
wherever the linker puts its tables, and no other canonical address. -/
theorem multiboot2Start_boot_map (kpml4 a pa : Nat) (phys : Nat → Nat) (hboot : BootSection kpml4 phys)
    (hcanon : Canonical a) :
    (hwWalk (fun x => some (multiboot2Start kpml4 phys x)) kpml4 a).map Prod.snd = some pa ↔ BootMaps a pa := by
  refine (multiboot2Start_entries hboot).translates hboot.aligned hboot.below hcanon (Or.inr ?_)
  exact multiboot2Start_pdptId_none hboot (by omega) (by omega)

lemma bootSection_zero : BootSection 0x101000 fun _ => 0 := ⟨by decide, by decide, fun _ _ _ => rfl⟩

/-- The tables just above 1 MiB: the sixth byte of the kernel window. -/
theorem multiboot2Start_boot_map_low : BootSection 0x101000 (fun _ => 0) ∧ Canonical (kvaKernelBegin + 5) ∧
    (hwWalk (fun x => some (multiboot2Start 0x101000 (fun _ => 0) x)) 0x101000 (kvaKernelBegin + 5)).map Prod.snd =
      some 5 := by
  have hcanon : Canonical (kvaKernelBegin + 5) := by
    unfold Canonical kvaKernelBegin
    omega
  refine ⟨bootSection_zero, hcanon, ?_⟩
  exact (multiboot2Start_boot_map 0x101000 _ 5 _ bootSection_zero hcanon).mpr ⟨by decide, Or.inr rfl⟩

section InitVmm

/-- The 6144 bytes of `kpdpe` lie outside the boot tables. -/
def Apart (kpml4 kpdpe : Nat) : Prop := kv2p kpdpe + 512 * pteSize ≤ kpml4 ∨ kpml4 + 4 * pgsize ≤ kv2p kpdpe

variable {kpml4 kpdpe : Nat} {phys : Nat → Nat}

/-- The words of the boot tables may change in entries 254 and 255 of `BOOT_PDPT_id`, if 254 is still absent. -/
lemma BootEntries.congr {phys' : Nat → Nat} (h : BootEntries kpml4 phys)
    (heq : ∀ j, j < 2048 → j ≠ 766 → j ≠ 767 → phys' (kpml4 + 8 * j) = phys (kpml4 + 8 * j))
    (h254 : hwEntry (fun x => some (phys' x)) (bootPdptId kpml4) 254 = none) : BootEntries kpml4 phys' := by
  have hid : ∀ i, bootPdptId kpml4 + 8 * i = kpml4 + 8 * (512 + i) := by
    intro i
    unfold bootPdptId pgsize
    omega
  have hpd : ∀ i, bootPdId kpml4 + 8 * i = kpml4 + 8 * (1024 + i) := by
    intro i
    unfold bootPdId pgsize
    omega
  have hhh : ∀ i, bootPdptHh kpml4 + 8 * i = kpml4 + 8 * (1536 + i) := by
    intro i
    unfold bootPdptHh pgsize
    omega
  refine ⟨fun i hi => ?_, fun i hi hne => ?_, fun i hi => ?_, fun i hi => ?_⟩
  · rw [heq i (by omega) (by omega) (by omega), h.root i hi]
  · by_cases hi254 : i = 254
    · rw [hi254, h254, if_neg (by omega)]
    · rw [← h.pdptId i hi hne]
      simp only [hwEntry]
      rw [hid, heq _ (by omega) (by omega) (by omega)]
  · rw [← h.pdId i hi, hpd, heq _ (by omega) (by omega) (by omega)]
  · rw [← h.pdptHh i hi, hhh, heq _ (by omega) (by omega) (by omega)]

/-- The stores to `kpdpe` leave the boot tables alone. -/
lemma boot_words_kept (hroot : pgsize ∣ kpml4) (hapart : Apart kpml4 kpdpe) {stores : List PteStore}
    (hstores : ∀ s ∈ stores, s ∈ kpdpeStores kpdpe) {j : Nat} (hj : j < 2048) :
    applyStores stores phys (kpml4 + 8 * j) = phys (kpml4 + 8 * j) := by
  obtain ⟨k, rfl⟩ := hroot
  apply applyStores_of_ne hstores
  · unfold pgsize
    omega
  · unfold Apart pgsize at *
    omega

lemma hwEntry_pdptId_congr {phys' : Nat → Nat} {i : Nat}
    (heq : phys' (kpml4 + 8 * (512 + i)) = phys (kpml4 + 8 * (512 + i))) :
    hwEntry (fun x => some (phys' x)) (bootPdptId kpml4) i = hwEntry (fun x => some (phys x)) (bootPdptId kpml4) i := by
  have haddr : bootPdptId kpml4 + 8 * i = kpml4 + 8 * (512 + i) := by
    unfold bootPdptId pgsize
    omega
  simp only [hwEntry]
  rw [haddr, heq]

/-- The store to `kpml4[511]` changes two words of `BOOT_PDPT_id`: the upper half of entry 254, and entry 255, which
gets the page number of `kpdpe`. -/
lemma store_root_entries (hboot : BootSection kpml4 phys) {phys' : Nat → Nat}
    (hkept : ∀ j, j < 2048 → phys' (kpml4 + 8 * j) = multiboot2Start kpml4 phys (kpml4 + 8 * j)) (addr : Nat) :
    BootEntries kpml4 (storePte phys' (kpml4 + pteSize * 511) 0 addr) ∧
      (addr % 2 = 0 → hwEntry (fun x => some (storePte phys' (kpml4 + pteSize * 511) 0 addr x))
        (bootPdptId kpml4) 255 = none) := by
  have hdvd : 8 ∣ kpml4 := Nat.dvd_trans (by decide) hboot.aligned
  have hword : ∀ i, bootPdptId kpml4 + 8 * i = kpml4 + (4096 + 8 * i) := by
    intro i
    unfold bootPdptId pgsize
    omega
  constructor
  · refine (multiboot2Start_entries hboot).congr (fun j hj h766 h767 => ?_) (hwEntry_none ?_)
    · rw [← hkept j hj, storePte_of_ne _ (by omega)]
      unfold pteSize
      omega
    · have hold : pteP (phys' (kpml4 + (4096 + 8 * 254))) = 0 := by
        have hzero := multiboot2Start_pdptId hboot (i := 254) (by omega)
        rw [if_neg (by omega), hword] at hzero
        rw [hkept 766 (by omega), hzero]
        rfl
      rw [hword, pteP, ← bitField_dword (by omega) (by omega), dword_storePte_of_ne, bitField_dword (by omega) (by omega)]
      · exact hold
      · unfold pteSize
        omega
  · intro heven
    apply hwEntry_none
    have hhalf : kpml4 + (4096 + 8 * 255) = kpml4 + pteSize * 511 + 4 := by
      unfold pteSize
      omega
    rw [hword, pteP, ← bitField_dword (by omega) (by omega), hhalf, dword_storePte_addr]
    unfold bitField
    omega

/-- The states that `init_vmm` goes through, entry by entry. -/
lemma initVmm_prefix (hboot : BootSection kpml4 phys) (hapart : Apart kpml4 kpdpe) (n : Nat) :
    let phys' := applyStores ((initVmmStores kpml4 kpdpe).take n) (multiboot2Start kpml4 phys)
    BootEntries kpml4 phys' ∧ (kv2p kpdpe / pgsize % 2 = 0 →
      hwEntry (fun x => some (phys' x)) (bootPdptId kpml4) 255 = none) := by
  intro phys'
  by_cases hn : n ≤ (kpdpeStores kpdpe).length
  · have hkept : ∀ j, j < 2048 → phys' (kpml4 + 8 * j) = multiboot2Start kpml4 phys (kpml4 + 8 * j) := by
      intro j hj
      unfold phys'
      rw [initVmmStores, List.take_append_of_le_length hn]
      exact boot_words_kept hboot.aligned hapart (fun _ hs => List.mem_of_mem_take hs) hj
    have hnone : ∀ i, i < 512 → i ≠ 0 → hwEntry (fun x => some (phys' x)) (bootPdptId kpml4) i = none := by
      intro i hi hne
      rw [hwEntry_pdptId_congr (hkept _ (by omega)), multiboot2Start_pdptId_none hboot hi hne]
    refine ⟨(multiboot2Start_entries hboot).congr (fun j hj _ _ => hkept j hj) (hnone 254 (by omega) (by omega)), ?_⟩
    exact fun _ => hnone 255 (by omega) (by omega)
  · have hall : phys' = storePte (applyStores (kpdpeStores kpdpe) (multiboot2Start kpml4 phys))
        (kpml4 + pteSize * 511) 0 (kvaToPteAddr kpdpe) := by
      unfold phys'
      rw [List.take_of_length_le, initVmmStores, applyStores_append, applyStores_cons, applyStores_nil]
      simp only [initVmmStores, List.length_append, List.length_singleton]
      omega
    obtain ⟨hentries, heven⟩ := store_root_entries hboot
      (fun j hj => boot_words_kept hboot.aligned hapart (fun _ hs => hs) hj) (kvaToPteAddr kpdpe)
    rw [hall]
    refine ⟨hentries, fun hpage => heven ?_⟩
    unfold kvaToPteAddr paToPteAddr
    unfold pgsize at hpage
    omega

variable {a pa : Nat}

lemma initVmm_prefix_translates (hboot : BootSection kpml4 phys) (hapart : Apart kpml4 kpdpe) (hcanon : Canonical a)
    (hgib : a / 2 ^ 30 ≠ 255 ∨ kv2p kpdpe / pgsize % 2 = 0) (n : Nat) :
    (hwWalk (fun x => some (applyStores ((initVmmStores kpml4 kpdpe).take n) (multiboot2Start kpml4 phys) x))
      kpml4 a).map Prod.snd = some pa ↔ BootMaps a pa := by
  obtain ⟨hentries, heven⟩ := initVmm_prefix hboot hapart n
  exact hentries.translates hboot.aligned hboot.below hcanon (hgib.imp_right heven)

lemma initVmm_translates (hboot : BootSection kpml4 phys) (hapart : Apart kpml4 kpdpe) (hcanon : Canonical a)
    (hgib : a / 2 ^ 30 ≠ 255 ∨ kv2p kpdpe / pgsize % 2 = 0) :
    (hwWalk (fun x => some ((initVmm kpml4 kpdpe (multiboot2Start kpml4 phys)).1 x)) kpml4 a).map Prod.snd = some pa ↔
      BootMaps a pa := by
  rw [initVmm_eq_stores, ← List.take_length (l := initVmmStores kpml4 kpdpe)]
  exact initVmm_prefix_translates hboot hapart hcanon hgib _

end InitVmm

/-- While `init_vmm` runs on the boot tables, its stores change no translation: after each entry, and so in the
end, the boot map is all there is. Only the last GiB below 256 GiB may be an exception, if `kpdpe` is at an odd
page number. -/
theorem initVmm_keeps_boot_map (kpml4 kpdpe a pa n : Nat) (phys : Nat → Nat) (hboot : BootSection kpml4 phys)
    (hapart : Apart kpml4 kpdpe) (hcanon : Canonical a) (hgib : a / 2 ^ 30 ≠ 255 ∨ kv2p kpdpe / pgsize % 2 = 0) :
    ((hwWalk (fun x => some (applyStores ((initVmmStores kpml4 kpdpe).take n) (multiboot2Start kpml4 phys) x))
      kpml4 a).map Prod.snd = some pa ↔ BootMaps a pa) ∧
    ((hwWalk (fun x => some ((initVmm kpml4 kpdpe (multiboot2Start kpml4 phys)).1 x)) kpml4 a).map Prod.snd = some pa ↔
      BootMaps a pa) :=
  ⟨initVmm_prefix_translates hboot hapart hcanon hgib n, initVmm_translates hboot hapart hcanon hgib⟩

/-- After `init_vmm` the byte behind the first 2 MiB of the kernel window is still not mapped. -/
theorem initVmm_keeps_boot_map_low : Apart 0x101000 (kvaKernelBegin + 0x110000) ∧
    (hwWalk (fun x => some ((initVmm 0x101000 (kvaKernelBegin + 0x110000) (multiboot2Start 0x101000 fun _ => 0)).1 x))
      0x101000 (kvaKernelBegin + 2 ^ 21)).map Prod.snd ≠ some (2 ^ 21) := by
  have hapart : Apart 0x101000 (kvaKernelBegin + 0x110000) := Or.inr (by decide)
  have hcanon : Canonical (kvaKernelBegin + 2 ^ 21) := by
    unfold Canonical kvaKernelBegin
    omega
  refine ⟨hapart, fun hmapped => ?_⟩
  have hboot := (initVmm_keeps_boot_map 0x101000 _ _ (2 ^ 21) 0 _ bootSection_zero hapart hcanon
    (Or.inl (by decide))).2.mp hmapped
  exact absurd hboot.1 (by decide)

end JavaScriptOS.Memory
