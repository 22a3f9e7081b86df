import JavaScriptOS.Pci.HostController

/-!
# What the PCI enumerators yield

One description, `Sweep`, says what a stretch of the enumeration does to the visited set and
which devices it hands out. It is proved for a function, a device and a bus by following the
recursion, and read off at the end for a whole enumeration.
-/

namespace JavaScriptOS.Pci
open JavaScriptOS.Lib

/-- The vendor id of the function is not `0xFFFF`. -/
def Present (cfg : ConfigSpace) (d : DeviceBase) : Prop := vendorId cfg d ≠ deviceNotPresent

/-- Function 0 of the device is present, and the function is function 0 or is present in a
multi-function device. -/
def Visible (cfg : ConfigSpace) (d : DeviceBase) : Prop :=
  Present cfg ⟨d.bus, d.device, 0⟩ ∧
    (d.function = 0 ∨
      isMultiFunction (headerType cfg ⟨d.bus, d.device, 0⟩) = true ∧ Present cfg d)

def IsPciBridge (cfg : ConfigSpace) (d : DeviceBase) : Prop :=
  classId cfg d = bridgeDevice ∧ subclassId cfg d = pciToPci

/-- A PCI-to-PCI bridge visible on bus `x` forwards to bus `y`. -/
def Link (cfg : ConfigSpace) (x y : Fin 256) : Prop :=
  ∃ d : DeviceBase, d.bus = x ∧ Visible cfg d ∧ IsPciBridge cfg d ∧ secondaryBus cfg d = y

def Reachable (cfg : ConfigSpace) : Fin 256 → Fin 256 → Prop := Relation.ReflTransGen (Link cfg)

instance (cfg : ConfigSpace) (d : DeviceBase) : Decidable (Present cfg d) :=
  inferInstanceAs (Decidable (_ ≠ _))

instance (cfg : ConfigSpace) (d : DeviceBase) : Decidable (Visible cfg d) :=
  inferInstanceAs (Decidable (_ ∧ _))

instance (cfg : ConfigSpace) (d : DeviceBase) : Decidable (IsPciBridge cfg d) :=
  inferInstanceAs (Decidable (_ ∧ _))

/-- The devices of `own` lie on buses already in `v`. The stretch takes the visited set from
`v` to `v'`, yields `own` and everything visible on the newly visited buses, each once, and
follows every bridge it yields. -/
structure Sweep (cfg : ConfigSpace) (own : DeviceBase → Prop) (v : Finset (Fin 256))
    (es : List Event) (v' : Finset (Fin 256)) : Prop where
  grows : v ⊆ v'
  nodup : (yielded es).Nodup
  mem_yielded : ∀ d, d ∈ yielded es ↔ own d ∨ (d.bus ∈ v' ∧ d.bus ∉ v ∧ Visible cfg d)
  closed : ∀ x ∈ v', x ∉ v → ∀ y, Link cfg x y → y ∈ v'
  follows : ∀ d, own d → IsPciBridge cfg d → secondaryBus cfg d ∈ v'
  reached : ∀ x ∈ v', x ∉ v → ∃ d, own d ∧ IsPciBridge cfg d ∧
    Reachable cfg (secondaryBus cfg d) x
  marks : ∀ x, x ∈ v' ↔ x ∈ v ∨ x ∈ marked es

/-- The bus-level description: the whole subtree of `bus`, or nothing if it was visited. -/
structure BusSweep (cfg : ConfigSpace) (bus : Fin 256) (v : Finset (Fin 256))
    (es : List Event) (v' : Finset (Fin 256)) : Prop where
  grows : v ⊆ v'
  entered : bus ∈ v'
  nodup : (yielded es).Nodup
  mem_yielded : ∀ d, d ∈ yielded es ↔ d.bus ∈ v' ∧ d.bus ∉ v ∧ Visible cfg d
  closed : ∀ x ∈ v', x ∉ v → ∀ y, Link cfg x y → y ∈ v'
  reached : ∀ x ∈ v', x ∉ v → Reachable cfg bus x
  marks : ∀ x, x ∈ v' ↔ x ∈ v ∨ x ∈ marked es

variable {cfg : ConfigSpace} {v v₁ v₂ : Finset (Fin 256)} {es es₁ es₂ : List Event}

lemma Sweep.skip (cfg : ConfigSpace) (v : Finset (Fin 256)) : Sweep cfg (fun _ => False) v [] v where
  grows := Finset.Subset.refl v
  nodup := List.nodup_nil
  mem_yielded := fun d => by simp only [yielded, List.not_mem_nil, false_or, false_iff]; tauto
  closed := fun x hx hn => (hn hx).elim
  follows := fun _ h => h.elim
  reached := fun x hx hn => (hn hx).elim
  marks := by simp [marked]

lemma Sweep.congr {own own' : DeviceBase → Prop} (h : Sweep cfg own v es v₁)
    (ho : ∀ d, own d ↔ own' d) : Sweep cfg own' v es v₁ := by
  have he : own = own' := funext fun d => propext (ho d)
  rwa [← he]

/-- Two stretches in a row. -/
lemma Sweep.append {own₁ own₂ : DeviceBase → Prop} (h₁ : Sweep cfg own₁ v es₁ v₁)
    (h₂ : Sweep cfg own₂ v₁ es₂ v₂) (hv₁ : ∀ d, own₁ d → d.bus ∈ v) (hv₂ : ∀ d, own₂ d → d.bus ∈ v)
    (hd : ∀ d, own₁ d → ¬own₂ d) :
    Sweep cfg (fun d => own₁ d ∨ own₂ d) v (es₁ ++ es₂) v₂ where
  grows := h₁.grows.trans h₂.grows
  nodup := by
    rw [yielded_append, List.nodup_append']
    refine ⟨h₁.nodup, h₂.nodup, ?_⟩
    intro d hd₁ hd₂
    rcases (h₁.mem_yielded d).mp hd₁ with ho₁ | ⟨hb₁, hb, _⟩ <;>
      rcases (h₂.mem_yielded d).mp hd₂ with ho₂ | ⟨_, hn, _⟩
    · exact hd d ho₁ ho₂
    · exact hn (h₁.grows (hv₁ d ho₁))
    · exact hb (hv₂ d ho₂)
    · exact hn hb₁
  mem_yielded := by
    intro d
    rw [yielded_append, List.mem_append, h₁.mem_yielded, h₂.mem_yielded]
    have hg := @h₂.grows d.bus
    have hg₁ := @h₁.grows d.bus
    by_cases hm : d.bus ∈ v₁
    · have hm₂ := hg hm
      simp only [hm, hm₂, true_and, not_true, false_and, or_false]
      tauto
    · have hm₀ : d.bus ∉ v := fun h => hm (hg₁ h)
      simp only [hm, hm₀, false_and, or_false, not_false_eq_true, true_and]
      tauto
  closed := by
    intro x hx hn y hl
    by_cases hm : x ∈ v₁
    · exact h₂.grows (h₁.closed x hm hn y hl)
    · exact h₂.closed x hx hm y hl
  follows := by
    rintro d (ho | ho) hb
    · exact h₂.grows (h₁.follows d ho hb)
    · exact h₂.follows d ho hb
  reached := by
    intro x hx hn
    by_cases hm : x ∈ v₁
    · obtain ⟨d, ho, hb, hr⟩ := h₁.reached x hm hn
      exact ⟨d, Or.inl ho, hb, hr⟩
    · obtain ⟨d, ho, hb, hr⟩ := h₂.reached x hx hm
      exact ⟨d, Or.inr ho, hb, hr⟩
  marks := by
    intro x
    rw [h₂.marks, h₁.marks, marked_append, List.mem_append, or_assoc]

@[simp] lemma headerTypeArrow_run (d : DeviceBase) (k : BitVec 8 → DeviceGenerator) (s : EnumState) :
    headerTypeArrow d k s = k (headerType s.cfg d) s := by
  have hw : writeRegister8 s.cfg d 0x0E (headerType s.cfg d) = s.cfg :=
    writeRegister8_readRegister s.cfg d 0x0E
  unfold headerTypeArrow Gen.read Gen.andThen Gen.update
  simp only [hw]
  cases h : k (headerType s.cfg d) s with
  | none => simp
  | some r => simp

section Depth

/-- A stretch of the enumeration run from state `s`. -/
def SweepRun (own : DeviceBase → Prop) (s : EnumState) (es : List Event) (s' : EnumState) : Prop :=
  s'.cfg = s.cfg ∧ Sweep s.cfg own s.enumeratedBuses es s'.enumeratedBuses

lemma SweepRun.append {own₁ own₂ : DeviceBase → Prop} {s s₁ s₂ : EnumState}
    (h₁ : SweepRun own₁ s es₁ s₁) (h₂ : SweepRun own₂ s₁ es₂ s₂)
    (hv₁ : ∀ d, own₁ d → d.bus ∈ s.enumeratedBuses) (hv₂ : ∀ d, own₂ d → d.bus ∈ s.enumeratedBuses)
    (hd : ∀ d, own₁ d → ¬own₂ d) :
    SweepRun (fun d => own₁ d ∨ own₂ d) s (es₁ ++ es₂) s₂ := by
  refine ⟨h₂.1.trans h₁.1, h₁.2.append ?_ hv₁ hv₂ hd⟩
  rw [← h₁.1]
  exact h₂.2

lemma SweepRun.congr {own own' : DeviceBase → Prop} {s s' : EnumState} (h : SweepRun own s es s')
    (ho : ∀ d, own d ↔ own' d) : SweepRun own' s es s' := ⟨h.1, h.2.congr ho⟩

/-- What is assumed of the recursive call: from any state with fewer than `k` unvisited buses
it finishes and sweeps its bus. -/
def SweepsBus (enumerateBus : Fin 256 → DeviceGenerator) (k : Nat) : Prop :=
  ∀ bus s, (s.enumeratedBusesᶜ).card < k →
    Gen.Yields (enumerateBus bus) s fun es s' =>
      s'.cfg = s.cfg ∧ BusSweep s.cfg bus s.enumeratedBuses es s'.enumeratedBuses

variable {enumerateBus : Fin 256 → DeviceGenerator} {k : Nat} {s : EnumState}

lemma card_compl_lt_of_subset {v v' : Finset (Fin 256)} (h : v ⊆ v') (hk : (vᶜ).card < k) :
    (v'ᶜ).card < k :=
  (Finset.card_le_card (Finset.compl_subset_compl.mpr h)).trans_lt hk

lemma enumerateFunction_sweeps (hrec : SweepsBus enumerateBus k)
    (hk : (s.enumeratedBusesᶜ).card < k) (d : DeviceBase) (hb : d.bus ∈ s.enumeratedBuses) :
    Gen.Yields (enumerateFunction enumerateBus d.bus d.device d.function) s
      (SweepRun (· = d) s) := by
  unfold enumerateFunction
  by_cases hbr : IsPciBridge s.cfg d
  · obtain ⟨es, s', hrun, hcfg, hsw⟩ := hrec (secondaryBus s.cfg d) s hk
    refine ⟨.device d :: es, s', ?_, hcfg, ?_⟩
    · have hcond : classId s.cfg ⟨d.bus, d.device, d.function⟩ = bridgeDevice ∧
          subclassId s.cfg ⟨d.bus, d.device, d.function⟩ = pciToPci := hbr
      simp only [Gen.andThen, Gen.emit, Gen.read, if_pos hcond, hrun, List.cons_append,
        List.nil_append]
    · exact {
        grows := hsw.grows
        nodup := by
          refine List.nodup_cons.mpr ⟨fun hm => ?_, hsw.nodup⟩
          exact ((hsw.mem_yielded d).mp hm).2.1 hb
        mem_yielded := by
          intro e
          simp only [yielded, List.mem_cons, hsw.mem_yielded]
        closed := hsw.closed
        follows := by
          rintro e rfl _
          exact hsw.entered
        reached := fun x hx hn => ⟨d, rfl, hbr, hsw.reached x hx hn⟩
        marks := hsw.marks }
  · refine ⟨[.device d], s, ?_, rfl, ?_⟩
    · have hcond : ¬(classId s.cfg ⟨d.bus, d.device, d.function⟩ = bridgeDevice ∧
          subclassId s.cfg ⟨d.bus, d.device, d.function⟩ = pciToPci) := hbr
      simp only [Gen.andThen, Gen.emit, Gen.read, if_neg hcond, Gen.done, List.append_nil]
    · exact {
        grows := Finset.Subset.refl _
        nodup := List.nodup_singleton d
        mem_yielded := by
          intro e
          simp only [yielded, List.mem_singleton]
          tauto
        closed := fun x hx hn => (hn hx).elim
        follows := by
          rintro e rfl hb
          exact (hbr hb).elim
        reached := fun x hx hn => (hn hx).elim
        marks := by simp [marked] }

lemma enumerateFunctions_sweep (hrec : SweepsBus enumerateBus k)
    (hk : (s.enumeratedBusesᶜ).card < k) (bus : Fin 256) (deviceno : Fin 32)
    (hb : bus ∈ s.enumeratedBuses) (functions : List (Fin 8)) (hn : functions.Nodup) :
    Gen.Yields (Gen.forEach (fun function => Gen.read fun s =>
        if vendorId s.cfg ⟨bus, deviceno, function⟩ = deviceNotPresent then Gen.done
        else enumerateFunction enumerateBus bus deviceno function) functions) s
      (SweepRun (fun d => d.bus = bus ∧ d.device = deviceno ∧ d.function ∈ functions ∧
        Present s.cfg d) s) := by
  apply Gen.Yields.forEach (fun before => SweepRun (fun d => d.bus = bus ∧
    d.device = deviceno ∧ d.function ∈ before ∧ Present s.cfg d) s)
  · refine ⟨rfl, (Sweep.skip s.cfg s.enumeratedBuses).congr ?_⟩
    simp
  · intro before function hpre es s₁ hinv
    have hfresh : function ∉ before := by
      have hs := (hpre.sublist.nodup hn)
      rw [List.nodup_append] at hs
      exact fun hm => hs.2.2 function hm function (by simp) rfl
    have hk₁ := card_compl_lt_of_subset hinv.2.grows hk
    by_cases hp : Present s.cfg ⟨bus, deviceno, function⟩
    · have hp₁ : ¬vendorId s₁.cfg ⟨bus, deviceno, function⟩ = deviceNotPresent := by
        rw [hinv.1]; exact hp
      obtain ⟨es', s₂, hrun, hsw⟩ := enumerateFunction_sweeps hrec hk₁
        ⟨bus, deviceno, function⟩ (hinv.2.grows hb)
      refine ⟨es', s₂, by simp only [Gen.read, if_neg hp₁]; exact hrun, ?_⟩
      refine (hinv.append hsw ?_ ?_ ?_).congr ?_
      · rintro d ⟨rfl, -⟩; exact hb
      · rintro d rfl; exact hb
      · rintro d ⟨-, -, hm, -⟩ rfl; exact hfresh hm
      · rintro ⟨b, e, f⟩
        simp only [List.mem_append, List.mem_singleton, DeviceBase.mk.injEq]
        constructor
        · rintro (⟨rfl, rfl, hm, hpr⟩ | ⟨rfl, rfl, rfl⟩)
          · exact ⟨rfl, rfl, Or.inl hm, hpr⟩
          · exact ⟨rfl, rfl, Or.inr rfl, hp⟩
        · rintro ⟨rfl, rfl, hm | rfl, hpr⟩
          · exact Or.inl ⟨rfl, rfl, hm, hpr⟩
          · exact Or.inr ⟨rfl, rfl, rfl⟩
    · have hp₁ : vendorId s₁.cfg ⟨bus, deviceno, function⟩ = deviceNotPresent := by
        rw [hinv.1]; exact not_not.mp hp
      refine ⟨[], s₁, by simp only [Gen.read, if_pos hp₁]; rfl, ?_⟩
      simp only [List.append_nil]
      refine hinv.congr ?_
      rintro ⟨b, e, f⟩
      simp only [List.mem_append, List.mem_singleton]
      constructor
      · rintro ⟨rfl, rfl, hm, hpr⟩
        exact ⟨rfl, rfl, Or.inl hm, hpr⟩
      · rintro ⟨rfl, rfl, hm | rfl, hpr⟩
        · exact ⟨rfl, rfl, hm, hpr⟩
        · exact (hp hpr).elim

lemma enumerateDevice_sweeps (hrec : SweepsBus enumerateBus k)
    (hk : (s.enumeratedBusesᶜ).card < k) (bus : Fin 256) (deviceno : Fin 32)
    (hb : bus ∈ s.enumeratedBuses) :
    Gen.Yields (enumerateDevice enumerateBus bus deviceno) s
      (SweepRun (fun d => d.bus = bus ∧ d.device = deviceno ∧ Visible s.cfg d) s) := by
  apply Gen.Yields.read
  by_cases hp : Present s.cfg ⟨bus, deviceno, 0⟩
  · have hp' : ¬vendorId s.cfg ⟨bus, deviceno, 0⟩ = deviceNotPresent := hp
    rw [if_neg hp']
    refine (enumerateFunction_sweeps hrec hk ⟨bus, deviceno, 0⟩ hb).andThen (fun es s₁ h₁ => ?_)
    have hk₁ := card_compl_lt_of_subset h₁.2.grows hk
    by_cases hm : isMultiFunction (headerType s.cfg ⟨bus, deviceno, 0⟩) = true
    · obtain ⟨es₂, s₂, hrun₂, h₂⟩ := enumerateFunctions_sweep hrec hk₁ bus deviceno
        (h₁.2.grows hb) (List.finRange 8).tail (by decide)
      refine ⟨es₂, s₂, ?_, (h₁.append h₂ ?_ ?_ ?_).congr ?_⟩
      · rw [headerTypeArrow_run, h₁.1, if_pos hm]
        exact hrun₂
      · rintro d rfl; exact hb
      · rintro d ⟨rfl, -⟩; exact hb
      · rintro d rfl ⟨-, -, hz, -⟩
        have hnz : (0 : Fin 8) ∉ (List.finRange 8).tail := by decide
        exact hnz hz
      · rintro ⟨b, e, f⟩
        have hf : f ∈ (List.finRange 8).tail ↔ f ≠ 0 := by revert f; decide
        simp only [DeviceBase.mk.injEq, hf, Visible, h₁.1]
        constructor
        · rintro (⟨rfl, rfl, rfl⟩ | ⟨rfl, rfl, hne, hpr⟩)
          · exact ⟨rfl, rfl, hp, Or.inl rfl⟩
          · exact ⟨rfl, rfl, hp, Or.inr ⟨hm, hpr⟩⟩
        · rintro ⟨rfl, rfl, -, hz | ⟨-, hpr⟩⟩
          · exact Or.inl ⟨rfl, rfl, hz⟩
          · by_cases hz : f = 0
            · exact Or.inl ⟨rfl, rfl, hz⟩
            · exact Or.inr ⟨rfl, rfl, hz, hpr⟩
    · refine ⟨[], s₁, ?_, ?_⟩
      · rw [headerTypeArrow_run, h₁.1, if_neg hm]
        rfl
      · simp only [List.append_nil]
        refine h₁.congr ?_
        rintro ⟨b, e, f⟩
        simp only [DeviceBase.mk.injEq, Visible]
        constructor
        · rintro ⟨rfl, rfl, rfl⟩
          exact ⟨rfl, rfl, hp, Or.inl rfl⟩
        · rintro ⟨rfl, rfl, -, hz | ⟨hm', -⟩⟩
          · exact ⟨rfl, rfl, hz⟩
          · exact (hm hm').elim
  · have hp' : vendorId s.cfg ⟨bus, deviceno, 0⟩ = deviceNotPresent := not_not.mp hp
    rw [if_pos hp']
    refine ⟨[], s, rfl, rfl, (Sweep.skip s.cfg s.enumeratedBuses).congr ?_⟩
    rintro ⟨b, e, f⟩
    simp only [false_iff]
    rintro ⟨rfl, rfl, hv, -⟩
    exact hp hv

/-- The device loop of a bus that has just been marked. -/
lemma enumerateDevices_sweep (hrec : SweepsBus enumerateBus k)
    (hk : (s.enumeratedBusesᶜ).card < k) (bus : Fin 256) (hb : bus ∈ s.enumeratedBuses)
    (devices : List (Fin 32)) (hn : devices.Nodup) :
    Gen.Yields (Gen.forEach (enumerateDevice enumerateBus bus) devices) s
      (SweepRun (fun d => d.bus = bus ∧ d.device ∈ devices ∧ Visible s.cfg d) s) := by
  apply Gen.Yields.forEach (fun before => SweepRun (fun d => d.bus = bus ∧
    d.device ∈ before ∧ Visible s.cfg d) s)
  · refine ⟨rfl, (Sweep.skip s.cfg s.enumeratedBuses).congr ?_⟩
    simp
  · intro before deviceno hpre es s₁ hinv
    have hfresh : deviceno ∉ before := by
      have hs := hpre.sublist.nodup hn
      rw [List.nodup_append] at hs
      exact fun hm => hs.2.2 deviceno hm deviceno (by simp) rfl
    have hk₁ := card_compl_lt_of_subset hinv.2.grows hk
    refine (enumerateDevice_sweeps hrec hk₁ bus deviceno (hinv.2.grows hb)).mono
      (fun es' s₂ h₂ => (hinv.append h₂ ?_ ?_ ?_).congr ?_)
    · rintro d ⟨rfl, -⟩; exact hb
    · rintro d ⟨rfl, -⟩; exact hb
    · rintro d ⟨-, hm, -⟩ ⟨-, rfl, -⟩; exact hfresh hm
    · intro d
      simp only [List.mem_append, List.mem_singleton, hinv.1]
      tauto

/-- One level of the recursion: a bus is swept if the deeper calls sweep theirs. -/
lemma enumeratePciBus_step {depth : Nat} (hrec : SweepsBus (enumeratePciBus depth) depth) :
    SweepsBus (enumeratePciBus (depth + 1)) (depth + 1) := by
  intro bus s hk
  apply Gen.Yields.read
  by_cases hin : bus ∈ s.enumeratedBuses
  · rw [if_pos hin]
    refine ⟨[], s, rfl, rfl, ?_⟩
    exact {
      grows := Finset.Subset.refl _
      entered := hin
      nodup := List.nodup_nil
      mem_yielded := fun d => by simp only [yielded, List.not_mem_nil, false_iff]; tauto
      closed := fun x hx hn => (hn hx).elim
      reached := fun x hx hn => (hn hx).elim
      marks := by simp [marked] }
  · rw [if_neg hin]
    let s₀ : EnumState := { s with enumeratedBuses := insert bus s.enumeratedBuses }
    have hk₀ : (s₀.enumeratedBusesᶜ).card < depth := by
      have hmem : bus ∈ s.enumeratedBusesᶜ := Finset.mem_compl.mpr hin
      have hc : s₀.enumeratedBusesᶜ = (s.enumeratedBusesᶜ).erase bus := Finset.compl_insert
      rw [hc, Finset.card_erase_of_mem hmem]
      have := Finset.card_pos.mpr ⟨bus, hmem⟩
      omega
    have hb₀ : bus ∈ s₀.enumeratedBuses := Finset.mem_insert_self _ _
    obtain ⟨es, s', hrun, hcfg, hsw⟩ := enumerateDevices_sweep hrec hk₀ bus hb₀
      (List.finRange 32) (List.nodup_finRange 32)
    refine ⟨.enumerated bus :: es, s', ?_, hcfg, ?_⟩
    · simp only [Gen.andThen, Gen.emit, Gen.update]
      rw [hrun]
      rfl
    have hmono : s.enumeratedBuses ⊆ s'.enumeratedBuses :=
      (Finset.subset_insert _ _).trans hsw.grows
    have hent : bus ∈ s'.enumeratedBuses := hsw.grows hb₀
    have hnew : ∀ x, x ∉ s.enumeratedBuses → x ≠ bus → x ∉ s₀.enumeratedBuses := by
      intro x hx hne hm
      exact (Finset.mem_insert.mp hm).elim hne hx
    exact {
      grows := hmono
      entered := hent
      nodup := hsw.nodup
      mem_yielded := by
        intro d
        change d ∈ yielded es ↔ _
        rw [hsw.mem_yielded]
        by_cases hd : d.bus = bus
        · simp only [hd, true_and, List.mem_finRange, hent, hb₀, hin, not_true, not_false_eq_true,
            false_and, or_false]
          rfl
        · have hins : d.bus ∈ s₀.enumeratedBuses ↔ d.bus ∈ s.enumeratedBuses :=
            Finset.mem_insert.trans (or_iff_right hd)
          simp only [hd, false_and, false_or, hins]
          rfl
      closed := by
        intro x hx hn y hl
        by_cases hxb : x = bus
        · obtain ⟨d, rfl, hvis, hbr, rfl⟩ := hl
          exact hsw.follows d ⟨hxb, List.mem_finRange _, hvis⟩ hbr
        · exact hsw.closed x hx (hnew x hn hxb) y hl
      reached := by
        intro x hx hn
        by_cases hxb : x = bus
        · rw [hxb]
          exact Relation.ReflTransGen.refl
        · obtain ⟨d, ⟨hdb, -, hvis⟩, hbr, hr⟩ := hsw.reached x hx (hnew x hn hxb)
          exact Relation.ReflTransGen.head ⟨d, hdb, hvis, hbr, rfl⟩ hr
      marks := by
        intro x
        rw [hsw.marks]
        simp only [s₀, Finset.mem_insert, marked, List.mem_cons]
        tauto }

theorem enumeratePciBus_sweeps (depth : Nat) : SweepsBus (enumeratePciBus depth) depth := by
  induction depth with
  | zero => exact fun _ _ h => (Nat.not_lt_zero _ h).elim
  | succ depth ih => exact enumeratePciBus_step ih

end Depth

lemma enumerateFunction_extends {g h : Fin 256 → DeviceGenerator} (hgh : ∀ b, Gen.Extends (g b) (h b))
    (bus : Fin 256) (deviceno : Fin 32) (function : Fin 8) :
    Gen.Extends (enumerateFunction g bus deviceno function) (enumerateFunction h bus deviceno function) := by
  unfold enumerateFunction
  apply (Gen.Extends.refl _).andThen
  apply Gen.Extends.read
  intro s
  split
  · exact hgh _
  · exact Gen.Extends.refl _

lemma enumerateDevice_extends {g h : Fin 256 → DeviceGenerator} (hgh : ∀ b, Gen.Extends (g b) (h b))
    (bus : Fin 256) (deviceno : Fin 32) :
    Gen.Extends (enumerateDevice g bus deviceno) (enumerateDevice h bus deviceno) := by
  apply Gen.Extends.read
  intro s
  split
  · exact Gen.Extends.refl _
  · apply (enumerateFunction_extends hgh bus deviceno 0).andThen
    apply Gen.Extends.read
    intro s
    apply (Gen.Extends.refl _).andThen
    dsimp only
    split
    · apply Gen.Extends.forEach
      intro function
      apply Gen.Extends.read
      intro s
      split
      · exact Gen.Extends.refl _
      · exact enumerateFunction_extends hgh bus deviceno function
    · exact Gen.Extends.refl _

/-- A larger recursion budget never changes an answer. -/
lemma enumeratePciBus_extends (depth : Nat) (bus : Fin 256) :
    Gen.Extends (enumeratePciBus depth bus) (enumeratePciBus (depth + 1) bus) := by
  induction depth generalizing bus with
  | zero => exact fun _ _ h => (Option.some_ne_none _ h.symm).elim
  | succ depth ih =>
    apply Gen.Extends.read
    intro s
    split
    · exact Gen.Extends.refl _
    · apply (Gen.Extends.refl _).andThen
      apply (Gen.Extends.refl _).andThen
      exact Gen.Extends.forEach (fun deviceno => enumerateDevice_extends ih bus deviceno) _

lemma enumeratePciBus_extends_le {depth depth' : Nat} (h : depth ≤ depth') (bus : Fin 256) :
    Gen.Extends (enumeratePciBus depth bus) (enumeratePciBus depth' bus) := by
  induction h with
  | refl => exact Gen.Extends.refl _
  | step _ ih => exact fun s r hr => enumeratePciBus_extends _ bus s r (ih s r hr)

/-- The recursion is never deeper than the 256 buses plus one: any budget above 256 gives
the same, complete enumeration. -/
theorem enumeratePciBus_run (bus : Fin 256) (s : EnumState) :
    ∃ es s', (∀ depth, 256 < depth → enumeratePciBus depth bus s = some (es, s')) ∧
      s'.cfg = s.cfg ∧ BusSweep s.cfg bus s.enumeratedBuses es s'.enumeratedBuses := by
  have hcard : (s.enumeratedBusesᶜ).card < 257 := by
    have h := Finset.card_le_univ (s.enumeratedBusesᶜ)
    rw [Fintype.card_fin] at h
    omega
  obtain ⟨es, s', hrun, hcfg, hsw⟩ := enumeratePciBus_sweeps 257 bus s hcard
  exact ⟨es, s', fun depth hd => enumeratePciBus_extends_le hd bus s _ hrun, hcfg, hsw⟩

/-- A bus sweep from the empty visited set finds the reachable buses. -/
lemma BusSweep.mem_iff_reachable {bus : Fin 256} (h : BusSweep cfg bus ∅ es v) (x : Fin 256) :
    x ∈ v ↔ Reachable cfg bus x := by
  constructor
  · intro hx
    exact h.reached x hx (Finset.notMem_empty x)
  · intro hr
    induction hr with
    | refl => exact h.entered
    | tail _ hl ih => exact h.closed _ ih (Finset.notMem_empty _) _ hl

end JavaScriptOS.Pci
