import JavaScriptOS.Lib.Lockstep
import JavaScriptOS.Pci.Enumeration

/-!
# The C enumerator of `pci.c`

The older enumerator prints what it finds instead of yielding it, and keeps the buses it has been to
in an array of eight bytes. None of its functions writes to configuration space. The register offsets
are the ones `Device.hpp` uses. The way of a read through the ports and the debug output, with its tables of
names, are left to other modules.
-/

namespace JavaScriptOS.Pci
open JavaScriptOS.Lib

namespace Legacy

/-- The static array of `enumerate_pci_bus`, and the calls of `enumerate_function` made so far. -/
structure EnumState where
  enumeratedBuses : Fin 8 → BitVec 8
  calls : List DeviceBase

inductive Stop where
  | depth
  | outOfBounds (bus : Fin 256)
  deriving DecidableEq

abbrev Enumerator := StateT EnumState (Except Stop)

def pciReadRegister8 (cfg : ConfigSpace) (d : DeviceBase) (offset : Nat) : BitVec 8 :=
  (readRegister cfg d offset).setWidth 8

def pciReadRegister16 (cfg : ConfigSpace) (d : DeviceBase) (offset : Nat) : BitVec 16 :=
  (readRegister cfg d offset).setWidth 16

def enumeratedBus (bus : Fin 256) : Enumerator (BitVec 8) := fun s =>
  if h : bus.val < 8 then .ok (s.enumeratedBuses ⟨bus.val, h⟩, s) else .error (.outOfBounds bus)

/-- `enumerated_buses[bus] = 1`. -/
def setEnumeratedBus (bus : Fin 256) : Enumerator Unit := fun s =>
  if h : bus.val < 8 then
    .ok ((), { s with enumeratedBuses := Function.update s.enumeratedBuses ⟨bus.val, h⟩ 1#8 })
  else .error (.outOfBounds bus)

def enumerateFunction (cfg : ConfigSpace) (enumeratePciBus : Fin 256 → Enumerator Unit)
    (bus : Fin 256) (device : Fin 32) (function : Fin 8) : Enumerator Unit := do
  let d : DeviceBase := ⟨bus, device, function⟩
  modify fun s => { s with calls := s.calls ++ [d] }
  if pciReadRegister8 cfg d 0x0B = bridgeDevice ∧ pciReadRegister8 cfg d 0x0A = pciToPci then
    enumeratePciBus (pciReadRegister8 cfg d 0x19).toFin
  else pure ()

def enumerateDevice (cfg : ConfigSpace) (enumeratePciBus : Fin 256 → Enumerator Unit)
    (bus : Fin 256) (device : Fin 32) : Enumerator Unit :=
  if pciReadRegister16 cfg ⟨bus, device, 0⟩ 0x00 = deviceNotPresent then pure ()
  else do
    enumerateFunction cfg enumeratePciBus bus device 0
    if isMultiFunction (pciReadRegister8 cfg ⟨bus, device, 0⟩ 0x0E) then
      (List.finRange 8).tail.forM fun function =>
        if pciReadRegister16 cfg ⟨bus, device, function⟩ 0x00 = deviceNotPresent then pure ()
        else enumerateFunction cfg enumeratePciBus bus device function
    else pure ()

/-- `enumerate_pci_bus`. The depth bounds the mutual recursion, as in the generator. -/
def enumeratePciBus (cfg : ConfigSpace) : Nat → Fin 256 → Enumerator Unit
  | 0, _ => fun _ => .error .depth
  | depth + 1, bus => do
    let visited ← enumeratedBus bus
    if visited ≠ 0 then pure ()
    else do
      setEnumeratedBus bus
      (List.finRange 32).forM (enumerateDevice cfg (enumeratePciBus cfg depth) bus)

/-- Program start: the static array is zero. -/
def start : EnumState := ⟨fun _ => 0, []⟩

end Legacy

section Simulation

variable {cfg : ConfigSpace}

/-- The events of the generator that the array of eight bytes has room for. -/
def InArray : Event → Prop
  | .enumerated bus => bus.val < 8
  | .device _ => True

/-- The array holds the visited set and the calls are the devices yielded. -/
structure SameProgress (cfg : ConfigSpace) (es : List Event) (s : EnumState) (t : Legacy.EnumState) : Prop where
  cfg_eq : s.cfg = cfg
  calls_eq : t.calls = yielded es
  visited : ∀ bus, bus ∈ s.enumeratedBuses ↔ ∃ h : bus.val < 8, t.enumeratedBuses ⟨bus.val, h⟩ ≠ 0

abbrev LegacyFollows (cfg : ConfigSpace) (m : Legacy.Enumerator Unit) (g : DeviceGenerator) : Prop :=
  Follows (SameProgress cfg) InArray m g

variable {legacyBus : Fin 256 → Legacy.Enumerator Unit} {generatorBus : Fin 256 → DeviceGenerator}

lemma enumerateFunction_follows (hrec : ∀ bus, LegacyFollows cfg (legacyBus bus) (generatorBus bus))
    (bus : Fin 256) (device : Fin 32) (function : Fin 8) :
    LegacyFollows cfg (Legacy.enumerateFunction cfg legacyBus bus device function)
      (enumerateFunction generatorBus bus device function) := by
  unfold Legacy.enumerateFunction enumerateFunction
  apply Follows.andThen
  · apply Follows.of_step (fun t => { t with calls := t.calls ++ [⟨bus, device, function⟩] })
      [.device ⟨bus, device, function⟩] id
    · exact fun _ => rfl
    · exact fun _ => rfl
    · intro x hx
      rw [List.mem_singleton.mp hx]
      trivial
    · intro e s t hr
      refine ⟨hr.cfg_eq, ?_, hr.visited⟩
      simp only [hr.calls_eq, yielded_append, yielded]
  · apply Follows.read
    intro e s t hr
    obtain rfl := hr.cfg_eq
    exact ⟨_, _, rfl, rfl, Follows.ite Iff.rfl (hrec _) Follows.done⟩

lemma headerTypeArrow_eq_read (d : DeviceBase) (k : BitVec 8 → DeviceGenerator) :
    headerTypeArrow d k = Gen.read fun s => k (headerType s.cfg d) := funext (headerTypeArrow_run d k)

lemma enumerateDevice_follows (hrec : ∀ bus, LegacyFollows cfg (legacyBus bus) (generatorBus bus))
    (bus : Fin 256) (device : Fin 32) :
    LegacyFollows cfg (Legacy.enumerateDevice cfg legacyBus bus device)
      (enumerateDevice generatorBus bus device) := by
  apply Follows.read
  intro e s t hr
  obtain rfl := hr.cfg_eq
  refine ⟨_, _, rfl, rfl, Follows.ite Iff.rfl Follows.done ?_⟩
  apply (enumerateFunction_follows hrec bus device 0).andThen
  rw [headerTypeArrow_eq_read]
  apply Follows.read
  intro e₁ s₁ t₁ hr₁
  refine ⟨_, _, rfl, rfl, Follows.ite ?_ (Follows.forEach ?_ _) Follows.done⟩
  · rw [hr₁.cfg_eq]
    rfl
  · intro function
    apply Follows.read
    intro e₂ s₂ t₂ hr₂
    refine ⟨_, _, rfl, rfl, Follows.ite ?_ Follows.done (enumerateFunction_follows hrec bus device function)⟩
    rw [hr₂.cfg_eq]
    rfl

lemma setEnumeratedBus_follows (bus : Fin 256) :
    LegacyFollows cfg (Legacy.setEnumeratedBus bus)
      (Gen.andThen (Gen.emit (.enumerated bus))
        (Gen.update fun s => { s with enumeratedBuses := insert bus s.enumeratedBuses })) := by
  intro e s t hr
  have hgen : Gen.andThen (Gen.emit (Event.enumerated bus))
      (Gen.update fun s : EnumState => { s with enumeratedBuses := insert bus s.enumeratedBuses }) s =
      some ([Event.enumerated bus], { s with enumeratedBuses := insert bus s.enumeratedBuses }) := rfl
  rw [hgen]
  by_cases hb : bus.val < 8
  · have hset : Legacy.setEnumeratedBus bus t = .ok ((), { t with
        enumeratedBuses := Function.update t.enumeratedBuses ⟨bus.val, hb⟩ 1#8 }) := dif_pos hb
    rw [hset]
    have hr' : SameProgress cfg (e ++ [.enumerated bus])
        { s with enumeratedBuses := insert bus s.enumeratedBuses }
        { t with enumeratedBuses := Function.update t.enumeratedBuses ⟨bus.val, hb⟩ 1#8 } := by
      refine ⟨hr.cfg_eq, ?_, ?_⟩
      · simp only [hr.calls_eq, yielded_append, yielded, List.append_nil]
      · intro b
        simp only [Finset.mem_insert, hr.visited]
        by_cases hbb : b = bus
        · subst hbb
          simp [hb]
        · have hne : ∀ h : b.val < 8, (⟨b.val, h⟩ : Fin 8) ≠ ⟨bus.val, hb⟩ := by
            intro h heq
            exact hbb (Fin.ext (Fin.mk.inj heq))
          simp [hbb, hne, Function.update_of_ne]
    constructor
    · rintro e' s' hg _
      cases hg
      exact ⟨_, rfl, hr'⟩
    · rintro t' ht
      cases ht
      refine ⟨_, _, rfl, ?_, hr'⟩
      intro x hx
      rw [List.mem_singleton.mp hx]
      exact hb
  · have hset : Legacy.setEnumeratedBus bus t = .error (.outOfBounds bus) := dif_neg hb
    rw [hset]
    constructor
    · rintro e' s' hg hok
      cases hg
      exact (hb (hok (.enumerated bus) (by simp))).elim
    · rintro t' ht
      cases ht

/-- One level of the recursion, at any depth. -/
lemma enumeratePciBus_follows (depth : Nat) (bus : Fin 256) :
    LegacyFollows cfg (Legacy.enumeratePciBus cfg depth bus) (enumeratePciBus depth bus) := by
  induction depth generalizing bus with
  | zero =>
    intro e s t _
    constructor
    · rintro e' s' hg
      cases hg
    · rintro t' ht
      cases ht
  | succ depth ih =>
    have hloop : LegacyFollows cfg ((List.finRange 32).forM
          (Legacy.enumerateDevice cfg (Legacy.enumeratePciBus cfg depth) bus))
        (Gen.forEach (enumerateDevice (enumeratePciBus depth) bus) (List.finRange 32)) :=
      Follows.forEach (fun device => enumerateDevice_follows ih bus device) _
    apply Follows.read
    intro e s t hr
    by_cases hin : bus ∈ s.enumeratedBuses
    · obtain ⟨hb, hset⟩ := (hr.visited bus).mp hin
      refine ⟨pure (), Gen.done, ?_, by rw [if_pos hin], Follows.done⟩
      have hread : Legacy.enumeratedBus bus t = .ok (t.enumeratedBuses ⟨bus.val, hb⟩, t) := dif_pos hb
      simp only [Legacy.enumeratePciBus, bind, StateT.bind, hread, Except.bind, if_pos hset]
    · refine ⟨_, _, ?_, by rw [if_neg hin, ← Gen.andThen_assoc], (setEnumeratedBus_follows bus).andThen hloop⟩
      by_cases hb : bus.val < 8
      · have hread : Legacy.enumeratedBus bus t = .ok (t.enumeratedBuses ⟨bus.val, hb⟩, t) := dif_pos hb
        have hzero : ¬t.enumeratedBuses ⟨bus.val, hb⟩ ≠ 0 := fun hne => hin ((hr.visited bus).mpr ⟨hb, hne⟩)
        simp only [Legacy.enumeratePciBus, bind, StateT.bind, hread, Except.bind, if_neg hzero]
      · -- both the read and the write of the array are out of bounds
        have hread : Legacy.enumeratedBus bus t = .error (.outOfBounds bus) := dif_neg hb
        have hwrite : Legacy.setEnumeratedBus bus t = .error (.outOfBounds bus) := dif_neg hb
        simp only [Legacy.enumeratePciBus, bind, StateT.bind, hread, hwrite, Except.bind]

end Simulation

/-- The C enumerator ends from bus 0 without an access outside its array, and has called
`enumerate_function` on the devices that the generator yields, in the same order. -/
def LegacyAgrees (cfg : ConfigSpace) : Prop :=
  ∃ es s, (∀ depth, 256 < depth → enumeratePciBus depth 0 ⟨cfg, ∅⟩ = some (es, s)) ∧
    ∀ depth, 256 < depth → ∃ t, Legacy.enumeratePciBus cfg depth 0 Legacy.start = .ok ((), t) ∧
      t.calls = yielded es

lemma sameProgress_start (cfg : ConfigSpace) : SameProgress cfg [] ⟨cfg, ∅⟩ Legacy.start where
  cfg_eq := rfl
  calls_eq := rfl
  visited := fun bus => by simp [Legacy.start]

lemma LegacyAgrees.reachable_lt {cfg : ConfigSpace} (h : LegacyAgrees cfg) (x : Fin 256)
    (hx : Reachable cfg 0 x) : x.val < 8 := by
  obtain ⟨_, _, _, hagree⟩ := h
  obtain ⟨t, hlegacy, -⟩ := hagree 257 (by omega)
  obtain ⟨es, s, hrun, -, hsweep⟩ := enumeratePciBus_run 0 ⟨cfg, ∅⟩
  obtain ⟨es', s', hrun', hok, -⟩ :=
    (enumeratePciBus_follows 257 0 [] ⟨cfg, ∅⟩ Legacy.start (sameProgress_start cfg)).2 t hlegacy
  rw [hrun 257 (by omega)] at hrun'
  cases hrun'
  have hmem : x ∈ s.enumeratedBuses := (hsweep.mem_iff_reachable x).mpr hx
  have hmark : x ∈ marked es := ((hsweep.marks x).mp hmem).resolve_left (Finset.notMem_empty x)
  exact hok (.enumerated x) (mem_marked.mp hmark)

theorem legacy_agrees_iff (cfg : ConfigSpace) :
    LegacyAgrees cfg ↔ ∀ x, Reachable cfg 0 x → x.val < 8 := by
  constructor
  · exact fun h x hx => h.reachable_lt x hx
  · intro hsmall
    obtain ⟨es, s, hrun, -, hsweep⟩ := enumeratePciBus_run 0 ⟨cfg, ∅⟩
    have hok : ∀ e ∈ es, InArray e := by
      intro e he
      cases e with
      | enumerated x =>
        have hmem := (hsweep.marks x).mpr (Or.inr (mem_marked.mpr he))
        exact hsmall x ((hsweep.mem_iff_reachable x).mp hmem)
      | device d => trivial
    refine ⟨es, s, hrun, fun depth hd => ?_⟩
    obtain ⟨t, hlegacy, hsame⟩ := (enumeratePciBus_follows depth 0 [] ⟨cfg, ∅⟩ Legacy.start
      (sameProgress_start cfg)).1 es s (hrun depth hd) hok
    exact ⟨t, hlegacy, hsame.calls_eq⟩

/-- A bridge at (0, 0, 0) that forwards to bus 8; nothing else is present. -/
def bridgeToBus8 : ConfigSpace := fun d dword =>
  if d = ⟨0, 0, 0⟩ then
    if dword = 2 then 0x06040000#32 else if dword = 6 then 0x00000800#32 else 0
  else 0xFFFFFFFF#32

/-- The ninth bus is outside the array of eight. -/
theorem bus8_out_of_bounds : ¬LegacyAgrees bridgeToBus8 := by
  intro h
  have hlink : Link bridgeToBus8 0 8 := ⟨⟨0, 0, 0⟩, rfl, by decide, by decide, by decide⟩
  have hlt := h.reachable_lt 8 (Relation.ReflTransGen.single hlink)
  exact absurd hlt (by decide)

end JavaScriptOS.Pci
