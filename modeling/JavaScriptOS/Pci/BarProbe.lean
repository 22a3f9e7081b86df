import JavaScriptOS.Pci.BarSizing

/-!
# What sizing does to the device

Whether a call restores the registers, whether the device decodes addresses while a BAR holds the probe
value, and whether the size is right.
-/

namespace JavaScriptOS.Pci
open JavaScriptOS.Lib

/-! ## What is left behind -/

/-- A call that returns leaves the registers as they were, except that it leaves a 64-bit last BAR at the
probe value. -/
theorem barSpaceSize_restores_iff (D : BarDevice) (maxBar n : Nat) (shifted : BitVec 32 → BitVec 32) (s : Ports)
    (size : BitVec 64) (hret : ((barSpaceSize D.rule D.base maxBar n shifted).exec s).1 = some size) :
    D.registers ((barSpaceSize D.rule D.base maxBar n shifted).exec s).2.state = D.registers s ↔
      (n = 5 → getBarSpaceType ((D.registers s).bar 5) = some .memory64BitSpace →
        D.writable 5 &&& ~~~(D.registers s).bar 5 = 0) := by
  obtain ⟨g, hout, hg⟩ := barSpaceSize_exec D shifted maxBar n s
  have hstate : D.registers ((barSpaceSize D.rule D.base maxBar n shifted).exec s).2.state = g.state :=
    congrArg History.state hg
  rw [hret] at hout
  rw [hstate]
  cases hout with
  | lastBar hn hmax htype =>
    subst hn
    have hones : probeValue = BitVec.allOnes 32 := by decide
    rw [BarDevice.setBar_eq_iff, hones, blend_allOnes_eq_iff]
    exact ⟨fun h _ _ => h, fun h => h rfl htype⟩
  | pair hn hmax htype => exact ⟨fun _ hlast => by omega, fun _ => rfl⟩
  | single hn hmax htype h64 =>
    refine ⟨fun _ hlast hwide => ?_, fun _ => rfl⟩
    subst hlast
    exact absurd (Option.some.inj (htype.symm.trans hwide)) h64

/-- Masks for the BARs; every other register is memory. -/
def maskRule (writable : Nat → BitVec 32) : WriteRule := fun _ dword old value =>
  if 4 ≤ dword ∧ dword < 10 then blend (writable (dword - 4)) old value else value

/-- Function (0, 3, 0) with the given writable bits in its BARs. -/
def maskedDevice (writable : Nat → BitVec 32) : BarDevice where
  base := ⟨0, 3, 0⟩
  rule := maskRule writable
  writable := writable
  commandWritable := BitVec.allOnes 16
  bar_rule k hk old value := by
    rw [maskRule, if_pos (by omega), Nat.add_sub_cancel_left]
  command_rule old value := by
    rw [maskRule, if_neg (by omega), blend, BitVec.and_allOnes, BitVec.not_allOnes, BitVec.and_zero, BitVec.or_zero]

/-- Decoding is on, and `value` is in BAR `n`; the other registers are 0. -/
def oneBar (n : Nat) (value : BitVec 32) : Ports :=
  ⟨⟨0⟩, fun _ dword => if dword = 1 then 0x0003#32 else if dword = 4 + n then value else 0⟩

/-- A 4 KiB memory BAR. -/
def pageDevice : BarDevice := maskedDevice fun _ => 0xFFFFF000#32

theorem barSpaceSize_restores_page :
    pageDevice.registers ((barSpaceSize pageDevice.rule pageDevice.base 5 0 id).exec (oneBar 0 0xFEBF1000#32)).2.state =
      pageDevice.registers (oneBar 0 0xFEBF1000#32) :=
  (barSpaceSize_restores_iff pageDevice 5 0 id (oneBar 0 0xFEBF1000#32) 0xFFFFFFFF00001000#64 (by decide)).mpr
    (fun h => absurd h (by decide))

/-- The last BAR says that it is the lower half of a 64-bit one. It is left at the probe value. -/
theorem barSpaceSize_leaves_probe : ¬∀ (D : BarDevice) (maxBar n : Nat) (shifted : BitVec 32 → BitVec 32) (s : Ports)
    (size : BitVec 64), ((barSpaceSize D.rule D.base maxBar n shifted).exec s).1 = some size →
    D.registers ((barSpaceSize D.rule D.base maxBar n shifted).exec s).2.state = D.registers s := by
  intro h
  have hkept := h pageDevice 5 5 id (oneBar 5 0x4#32) 0 (by decide)
  exact absurd (congrFun (congrArg Registers.bar hkept) 5) (by decide)

/-! ## Decoding while probing -/

/-- The latest value written to BAR `k`. -/
def lastWrite (k : Nat) : RegisterHistory → Option (BitVec 32)
  | [] => none
  | (.command, _) :: past => lastWrite k past
  | (.bar j value, _) :: past => if j = k then some value else lastWrite k past

/-- The `io_space` and `memory_space` bits are 0. -/
def DecodingOff (command : BitVec 16) : Prop := command.getLsbD 0 = false ∧ command.getLsbD 1 = false

/-- In every state so far in which a BAR holds the probe value, decoding is off. -/
def ProbesQuietly (past : RegisterHistory) : Prop := ∀ e earlier, (e :: earlier) <:+ past →
  (∃ k, lastWrite k (e :: earlier) = some probeValue) → DecodingOff e.2.command

lemma mem_of_lastWrite {k : Nat} {value : BitVec 32} {past : RegisterHistory} (h : lastWrite k past = some value) :
    ∃ r, (.bar k value, r) ∈ past := by
  induction past with
  | nil => cases h
  | cons e past ih =>
    obtain ⟨write, r⟩ := e
    cases write with
    | command =>
      obtain ⟨r', hr'⟩ := ih h
      exact ⟨r', List.mem_cons_of_mem _ hr'⟩
    | bar j v =>
      rw [lastWrite] at h
      split at h
      case isTrue hj =>
        obtain rfl := Option.some.inj h
        subst hj
        exact ⟨r, List.mem_cons_self ..⟩
      case isFalse =>
        obtain ⟨r', hr'⟩ := ih h
        exact ⟨r', List.mem_cons_of_mem _ hr'⟩

section Decoding

variable {D : BarDevice} {maxBar n : Nat} {shifted : BitVec 32 → BitVec 32} {r : Registers} {o : Option (BitVec 64)}
variable {g : History Registers RegisterWrite}

/-- Whether a call gets as far as the probe. -/
def Probes (maxBar n : Nat) (r : Registers) : Prop := n < 6 ∧ n ≤ maxBar ∧ getBarSpaceType (r.bar n) ≠ none

lemma lastWrite_probeHistory : lastWrite n (probeHistory D n r) = some probeValue := if_pos rfl

/-- No write changes the command register. -/
lemma Outcome.command_eq (h : Outcome D maxBar n shifted r o g) : ∀ e ∈ g.past, e.2.command = r.command := by
  have hprobe : ∀ e ∈ probeHistory D n r, e.2.command = r.command := by
    simp [probeHistory, BarDevice.setBar]
  cases h with
  | badIndex => simp
  | noBar => simp
  | badType => simp
  | lastBar => exact hprobe
  | noNextBar => exact hprobe
  | pair =>
    simp only [pairHistory, List.forall_mem_cons]
    exact ⟨trivial, trivial, rfl, rfl, hprobe⟩
  | single =>
    simp only [singleHistory, List.forall_mem_cons]
    exact ⟨trivial, trivial, hprobe⟩

lemma Outcome.probes_of_bar {k : Nat} {value : BitVec 32} {r' : Registers} (h : Outcome D maxBar n shifted r o g)
    (hmem : (.bar k value, r') ∈ g.past) : Probes maxBar n r := by
  cases h with
  | badIndex => simp at hmem
  | noBar => simp at hmem
  | badType => simp at hmem
  | lastBar hn hmax htype => exact ⟨by omega, hmax, by rw [htype]; simp⟩
  | noNextBar hn hmax htype => exact ⟨by omega, by omega, by rw [htype]; simp⟩
  | pair hn hmax htype => exact ⟨by omega, by omega, by rw [htype]; simp⟩
  | single hn hmax htype => exact ⟨hn, hmax, by rw [htype]; simp⟩

lemma Outcome.probeHistory_suffix (h : Outcome D maxBar n shifted r o g) (hp : Probes maxBar n r) :
    probeHistory D n r <:+ g.past := by
  obtain ⟨hn, hmax, htype⟩ := hp
  cases h with
  | badIndex hn' => omega
  | noBar _ hmax' => omega
  | badType _ _ htype' => exact absurd htype' htype
  | lastBar => exact List.suffix_rfl
  | noNextBar => exact List.suffix_rfl
  | pair => exact ⟨(pairHistory D n r).take 4, rfl⟩
  | single => exact ⟨(singleHistory D n r).take 2, rfl⟩

end Decoding

/-- A call that probes does so quietly exactly if decoding was off before. -/
theorem barSpaceSize_quiet_iff (D : BarDevice) (maxBar n : Nat) (shifted : BitVec 32 → BitVec 32) (s : Ports) :
    ProbesQuietly (((barSpaceSize D.rule D.base maxBar n shifted).exec s).2.map D.registers).past ↔
      (Probes maxBar n (D.registers s) → DecodingOff (D.registers s).command) := by
  obtain ⟨g, hout, hg⟩ := barSpaceSize_exec D shifted maxBar n s
  rw [hg]
  constructor
  · intro h hp
    exact h _ _ (hout.probeHistory_suffix hp) ⟨n, lastWrite_probeHistory⟩
  · rintro h e earlier hsuffix ⟨k, hk⟩
    obtain ⟨r', hmem⟩ := mem_of_lastWrite hk
    rw [hout.command_eq e (hsuffix.subset (List.mem_cons_self ..))]
    exact h (hout.probes_of_bar (hsuffix.subset hmem))

theorem barSpaceSize_decodes_probe : ¬∀ (D : BarDevice) (maxBar n : Nat) (shifted : BitVec 32 → BitVec 32) (s : Ports),
    ProbesQuietly (((barSpaceSize D.rule D.base maxBar n shifted).exec s).2.map D.registers).past := by
  intro h
  obtain ⟨g, hout, hg⟩ := barSpaceSize_exec pageDevice id 5 0 (oneBar 0 0xFEBF1000#32)
  have hquiet := h pageDevice 5 0 id (oneBar 0 0xFEBF1000#32)
  rw [hg] at hquiet
  have hoff := hquiet _ _ (hout.probeHistory_suffix ⟨by decide, by decide, by decide⟩) ⟨0, lastWrite_probeHistory⟩
  exact absurd hoff.1 (by decide)

/-! ## The size -/

/-- A 32-bit memory BAR of size `2 ^ k`: its address bits below `k` are wired to 0 and its flag bits are
read-only. -/
structure Sized32 (D : BarDevice) (r : Registers) (n k : Nat) : Prop where
  index : n < 6
  low : 4 ≤ k
  high : k ≤ 31
  memory : r.bar n &&& 1#32 = 0
  type : memoryType (r.bar n) = 0
  writable : D.writable n = BitVec.allOnes 32 <<< k
  wired : ∀ i, 4 ≤ i → i < k → (r.bar n).getLsbD i = false

/-- A 64-bit memory BAR of size `2 ^ k`, in two registers. -/
structure Sized64 (D : BarDevice) (r : Registers) (n k : Nat) : Prop where
  index : n < 5
  low : 4 ≤ k
  high : k ≤ 63
  memory : r.bar n &&& 1#32 = 0
  type : memoryType (r.bar n) = 2
  writable : D.writable (n + 1) ++ D.writable n = BitVec.allOnes 64 <<< k
  wired : ∀ i, 4 ≤ i → i < k → (r.bar (n + 1) ++ r.bar n).getLsbD i = false

/-- The complement of an encoded size that fits in 32 bits is taken in 64. -/
lemma toNat_complement {encoded : BitVec 64} (hlt : encoded.toNat < 2 ^ 32) (hne : encoded ≠ 0) :
    2 ^ 64 - 2 ^ 32 < (~~~encoded + 1).toNat := by
  have hpos : encoded.toNat ≠ 0 := fun h => hne (BitVec.eq_of_toNat_eq h)
  have hneg : ~~~encoded + 1 = -encoded := (BitVec.neg_eq_not_add encoded).symm
  rw [hneg, BitVec.toNat_neg, Nat.mod_eq_of_lt (by omega)]
  omega

lemma ne_two_pow {size : BitVec 64} {k : Nat} (hk : k ≤ 63) (h : 2 ^ 64 - 2 ^ 32 < size.toNat) :
    size.toNat ≠ 2 ^ k := by
  have hle : 2 ^ k ≤ 2 ^ 63 := Nat.pow_le_pow_right (by decide) hk
  omega

section Size

variable {D : BarDevice} {n k : Nat} {r : Registers}

/-- A bit that is not writable is probed as it was. -/
lemma getLsbD_probedBar_of_fixed {i : Nat} (h : (D.writable n).getLsbD i = false) :
    (probedBar D n r).getLsbD i = (r.bar n).getLsbD i := by
  rw [probedBar, getLsbD_blend, h, if_neg (by decide)]

lemma baseAddr_probedBar_ne_zero {i : Nat} (hmem : r.bar n &&& 1#32 = 0) (hfixed : (D.writable n).getLsbD 0 = false)
    (hi : 2 ≤ i) (hbit : (probedBar D n r).getLsbD i = true) : baseAddr (probedBar D n r) ≠ 0 := by
  have hmem' : probedBar D n r &&& 1#32 = 0 := by
    rw [and_one_eq_zero_iff, getLsbD_probedBar_of_fixed hfixed]
    exact and_one_eq_zero_iff.mp hmem
  have hlt : i < 32 := BitVec.lt_of_getLsbD hbit
  have hkept : (~~~0b11#32).getLsbD i = true := by
    have hbits : ∀ j : Fin 32, 2 ≤ j.val → (~~~0b11#32).getLsbD j.val = true := by decide
    exact hbits ⟨i, hlt⟩ hi
  intro hzero
  rw [baseAddr_memory hmem'] at hzero
  have hbit' := congrArg (BitVec.getLsbD · i) hzero
  simp only [BitVec.getLsbD_and, hbit, hkept] at hbit'
  simp at hbit'

/-- Bit 31 is writable. -/
lemma Sized32.baseAddr_ne_zero (h : Sized32 D r n k) : baseAddr (probedBar D n r) ≠ 0 := by
  have hlow := h.low
  have hhigh := h.high
  refine baseAddr_probedBar_ne_zero (i := 31) h.memory ?_ (by omega) ?_
  · rw [h.writable]
    simp [show 0 < k by omega]
  · have htop : (D.writable n).getLsbD 31 = true := by
      rw [h.writable, BitVec.getLsbD_shiftLeft, BitVec.getLsbD_allOnes]
      simp only [Bool.and_eq_true, Bool.not_eq_true', decide_eq_true_eq, decide_eq_false_iff_not]
      omega
    rw [probedBar, getLsbD_blend, htop, if_pos rfl]
    decide

/-- The type field of a 64-bit BAR, which is read-only, is in its upper bit. -/
lemma Sized64.baseAddr_ne_zero (h : Sized64 D r n k) : baseAddr (probedBar D n r) ≠ 0 := by
  have hlow := h.low
  have hfixed : ∀ i, i < 4 → (D.writable n).getLsbD i = false := by
    intro i hi
    have happend := BitVec.getLsbD_append (x := D.writable (n + 1)) (y := D.writable n) (i := i)
    rw [if_pos (by omega), h.writable] at happend
    rw [← happend]
    simp [show i < k by omega]
  refine baseAddr_probedBar_ne_zero (i := 2) h.memory (hfixed 0 (by omega)) (by omega) ?_
  rw [getLsbD_probedBar_of_fixed (hfixed 2 (by omega))]
  have htype := congrArg (BitVec.getLsbD · 1) h.type
  simpa [memoryType] using htype

lemma Sized32.spaceType (h : Sized32 D r n k) : getBarSpaceType (r.bar n) = some .memory32BitSpace :=
  getBarSpaceType_memory32 h.memory h.type

lemma Sized64.spaceType (h : Sized64 D r n k) : getBarSpaceType (r.bar n) = some .memory64BitSpace :=
  getBarSpaceType_memory64 h.memory h.type

variable {maxBar : Nat} {shifted : BitVec 32 → BitVec 32} {o : Option (BitVec 64)} {g : History Registers RegisterWrite}

lemma Sized32.returns (h : Sized32 D r n k) (hmax : n ≤ maxBar) (hout : Outcome D maxBar n shifted r o g) :
    o = some (singleSize D n r) := by
  have hindex := h.index
  have htype := h.spaceType
  cases hout with
  | badIndex | noBar => omega
  | badType _ _ htype' | lastBar _ _ htype' | noNextBar _ _ htype' | pair _ _ htype' =>
    rw [htype] at htype'
    cases htype'
  | single => rfl

lemma Sized64.returns (h : Sized64 D r n k) (hmax : n < maxBar) (hout : Outcome D maxBar n shifted r o g) :
    o = some (pairSize D n shifted r) := by
  have hindex := h.index
  have htype := h.spaceType
  cases hout with
  | badIndex | noBar | lastBar | noNextBar => omega
  | badType _ _ htype' =>
    rw [htype] at htype'
    cases htype'
  | pair => rfl
  | single _ _ htype' h64 => exact absurd (Option.some.inj (htype'.symm.trans htype)) h64

/-- A size encoded in 32 bits. -/
lemma toNat_complement_setWidth {encoded : BitVec 32} (hne : encoded ≠ 0) :
    2 ^ 64 - 2 ^ 32 < (~~~(encoded.setWidth 64) + 1).toNat := by
  have hwidth : (encoded.setWidth 64).toNat = encoded.toNat := by
    rw [BitVec.toNat_setWidth, Nat.mod_eq_of_lt (by omega)]
  refine toNat_complement (by omega) fun h => hne (BitVec.eq_of_toNat_eq ?_)
  rw [← hwidth, h]
  rfl

lemma or_ne_zero {a b : BitVec 32} (h : a ≠ 0) : a ||| b ≠ 0 := by
  intro hzero
  exact h (BitVec.or_eq_zero_iff.mp hzero).1

end Size

/-- A memory BAR of size `2 ^ k` that the device has. -/
def SizedBar (D : BarDevice) (r : Registers) (maxBar n k : Nat) : Prop :=
  (Sized32 D r n k ∧ n ≤ maxBar) ∨ (Sized64 D r n k ∧ n < maxBar)

/-- The size is complemented in 64 bits after being encoded in 32, whatever the shift by 32 gives. -/
theorem barSpaceSize_never_size (D : BarDevice) (maxBar n k : Nat) (shifted : BitVec 32 → BitVec 32) (s : Ports)
    (h : SizedBar D (D.registers s) maxBar n k) :
    ∃ size, ((barSpaceSize D.rule D.base maxBar n shifted).exec s).1 = some size ∧
      2 ^ 64 - 2 ^ 32 < size.toNat ∧ size.toNat ≠ 2 ^ k := by
  obtain ⟨g, hout, -⟩ := barSpaceSize_exec D shifted maxBar n s
  rcases h with ⟨h32, hmax⟩ | ⟨h64, hmax⟩
  · have hbig := toNat_complement_setWidth h32.baseAddr_ne_zero
    have hhigh := h32.high
    exact ⟨_, h32.returns hmax hout, hbig, ne_two_pow (by omega) hbig⟩
  · have hor := or_ne_zero (b := shifted (baseAddr (probedBar D n (D.registers s)))) h64.baseAddr_ne_zero
    have hbig := toNat_complement_setWidth hor
    rw [BitVec.setWidth_or] at hbig
    exact ⟨_, h64.returns hmax hout, hbig, ne_two_pow h64.high hbig⟩

lemma pageDevice_sized : Sized32 pageDevice (pageDevice.registers (oneBar 0 0xFEBF1000#32)) 0 12 where
  index := by decide
  low := by decide
  high := by decide
  memory := by decide
  type := by decide
  writable := by decide
  wired := by
    intro i hi hk
    have hbits : ∀ j : Fin 12, 4 ≤ j.val → (0xFEBF1000#32).getLsbD j.val = false := by decide
    exact hbits ⟨i, hk⟩ hi

theorem barSpaceSize_page_never_size : ∃ size,
    ((barSpaceSize pageDevice.rule pageDevice.base 5 0 id).exec (oneBar 0 0xFEBF1000#32)).1 = some size ∧
      size.toNat ≠ 2 ^ 12 := by
  obtain ⟨size, hsize, -, hne⟩ := barSpaceSize_never_size pageDevice 5 0 12 id (oneBar 0 0xFEBF1000#32)
    (Or.inl ⟨pageDevice_sized, by decide⟩)
  exact ⟨size, hsize, hne⟩

/-- A 4 KiB BAR is said to have `2 ^ 64 - 2 ^ 32 + 2 ^ 12` bytes. -/
theorem barSpaceSize_page_wrong : ¬∀ (D : BarDevice) (maxBar n k : Nat) (shifted : BitVec 32 → BitVec 32) (s : Ports),
    SizedBar D (D.registers s) maxBar n k →
    ((barSpaceSize D.rule D.base maxBar n shifted).exec s).1 = some (BitVec.ofNat 64 (2 ^ k)) := by
  intro h
  exact absurd (h pageDevice 5 0 12 id (oneBar 0 0xFEBF1000#32) (Or.inl ⟨pageDevice_sized, by decide⟩)) (by decide)

end JavaScriptOS.Pci
