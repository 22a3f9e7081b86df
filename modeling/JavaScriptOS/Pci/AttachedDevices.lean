import JavaScriptOS.Pci.Enumeration

/-!
# Complete, repeated and abandoned iterations

The results about whole iterations: which functions one bus enumeration finds, that an
iteration of `attached_devices` ends without repeating a device, which host bridges it covers,
and what the static visited set leaves for a later iteration.
-/

namespace JavaScriptOS.Pci
open JavaScriptOS.Lib

/-- `enumerate_pci_bus(b)` with an empty visited set yields exactly the visible functions on
the buses reachable from `b`. -/
theorem enumeratePciBus_yields_reachable (cfg : ConfigSpace) (b : Fin 256) :
    ∃ es s', (∀ depth, 256 < depth → enumeratePciBus depth b ⟨cfg, ∅⟩ = some (es, s')) ∧
      ∀ d, d ∈ yielded es ↔ Reachable cfg b d.bus ∧ Visible cfg d := by
  obtain ⟨es, s', hrun, -, hsw⟩ := enumeratePciBus_run b ⟨cfg, ∅⟩
  refine ⟨es, s', hrun, fun d => ?_⟩
  rw [hsw.mem_yielded, hsw.mem_iff_reachable]
  simp only [Finset.notMem_empty, not_false_eq_true, true_and]

/-- Bus numbers forwarded to by any function that answers, whether or not its device is
multi-function. -/
def PresentLink (cfg : ConfigSpace) (x y : Fin 256) : Prop :=
  ∃ d : DeviceBase, d.bus = x ∧ Present cfg d ∧ IsPciBridge cfg d ∧ secondaryBus cfg d = y

/-- A single-function device at (0, 0, 0) whose function 1 answers as a bridge to bus 5. -/
def hiddenBridge : ConfigSpace := fun d dword =>
  if d = ⟨0, 0, 1⟩ then
    match dword with
    | 0 => 0x29188086#32
    | 2 => 0x06040000#32
    | 3 => 0x00010000#32
    | 6 => 0x00000500#32
    | _ => 0#32
  else if d = ⟨0, 0, 0⟩ ∨ d = ⟨5, 0, 0⟩ then
    match dword with
    | 0 => 0x12378086#32
    | _ => 0#32
  else 0xFFFFFFFF#32

lemma hiddenBridge_present (d : DeviceBase) :
    Present hiddenBridge d ↔ d = ⟨0, 0, 1⟩ ∨ d = ⟨0, 0, 0⟩ ∨ d = ⟨5, 0, 0⟩ := by
  unfold Present vendorId readRegister hiddenBridge
  by_cases h₁ : d = ⟨0, 0, 1⟩
  · simp only [h₁, if_true, true_or, iff_true]
    decide
  · by_cases h₂ : d = ⟨0, 0, 0⟩ ∨ d = ⟨5, 0, 0⟩
    · simp only [h₁, h₂, if_true, if_false, or_true, iff_true]
      decide
    · simp only [h₁, h₂, if_false, or_self, iff_false, not_not]
      decide

lemma hiddenBridge_visible (d : DeviceBase) :
    Visible hiddenBridge d ↔ d = ⟨0, 0, 0⟩ ∨ d = ⟨5, 0, 0⟩ := by
  obtain ⟨b, e, f⟩ := d
  simp only [Visible, hiddenBridge_present, DeviceBase.mk.injEq]
  constructor
  · rintro ⟨⟨-, -, h⟩ | ⟨rfl, rfl, -⟩ | ⟨rfl, rfl, -⟩, hf⟩
    · exact absurd h (by decide)
    · rcases hf with rfl | ⟨hm, -⟩
      · exact Or.inl ⟨rfl, rfl, rfl⟩
      · exact absurd hm (by decide)
    · rcases hf with rfl | ⟨hm, -⟩
      · exact Or.inr ⟨rfl, rfl, rfl⟩
      · exact absurd hm (by decide)
  · rintro (⟨rfl, rfl, rfl⟩ | ⟨rfl, rfl, rfl⟩)
    · exact ⟨by simp, Or.inl rfl⟩
    · exact ⟨by simp, Or.inl rfl⟩

lemma hiddenBridge_reachable {x : Fin 256} (h : Reachable hiddenBridge 0 x) : x = 0 := by
  induction h with
  | refl => rfl
  | tail _ hl ih =>
    obtain ⟨d, -, hvis, hbr, -⟩ := hl
    rcases (hiddenBridge_visible d).mp hvis with rfl | rfl
    · exact absurd hbr (by decide)
    · exact absurd hbr (by decide)

/-- Read with every answering bridge, the set of yielded functions would be larger: function 1
of a single-function device is never looked at, so its secondary bus is not entered. -/
theorem hiddenBridge_not_followed :
    ¬ ∀ (cfg : ConfigSpace) (b : Fin 256), ∃ es s',
      (∀ depth, 256 < depth → enumeratePciBus depth b ⟨cfg, ∅⟩ = some (es, s')) ∧
      ∀ d, d ∈ yielded es ↔ Relation.ReflTransGen (PresentLink cfg) b d.bus ∧ Visible cfg d := by
  intro hall
  obtain ⟨es, s', hrun, hmem⟩ := hall hiddenBridge 0
  obtain ⟨es', s'', hrun', -, hsw⟩ := enumeratePciBus_run 0 ⟨hiddenBridge, ∅⟩
  have hsame := (hrun 257 (by decide)).symm.trans (hrun' 257 (by decide))
  cases hsame
  have hlink : PresentLink hiddenBridge 0 5 :=
    ⟨⟨0, 0, 1⟩, rfl, (hiddenBridge_present _).mpr (Or.inl rfl), by decide, by decide⟩
  have hin := (hmem ⟨5, 0, 0⟩).mpr
    ⟨Relation.ReflTransGen.single hlink, (hiddenBridge_visible _).mpr (Or.inr rfl)⟩
  have hbus := (hsw.mem_iff_reachable 5).mp ((hsw.mem_yielded _).mp hin).1
  exact absurd (hiddenBridge_reachable hbus) (by decide)

/-- A complete iteration of `attached_devices`: the same for every sufficient recursion budget. -/
def Iterates (s : EnumState) (es : List Event) (s' : EnumState) : Prop :=
  ∀ depth, 256 < depth → attachedDevices depth s = some (es, s')

lemma Iterates.unique {s s₁ s₂ : EnumState} {es₁ es₂ : List Event} (h₁ : Iterates s es₁ s₁)
    (h₂ : Iterates s es₂ s₂) : es₁ = es₂ ∧ s₁ = s₂ := by
  have h := (h₁ 257 (by decide)).symm.trans (h₂ 257 (by decide))
  simpa using h

lemma attachedDevices_multi (s : EnumState)
    (hm : isMultiFunction (headerType s.cfg ⟨0, 0, 0⟩) = true) : Iterates s [] s := by
  intro depth _
  unfold attachedDevices
  rw [headerTypeArrow_run, hm]
  rfl

/-- Single-function host bridge: the iteration is the sweep of bus 0. -/
lemma attachedDevices_single (s : EnumState)
    (hm : isMultiFunction (headerType s.cfg ⟨0, 0, 0⟩) = false) :
    ∃ es s', Iterates s es s' ∧ s'.cfg = s.cfg ∧
      BusSweep s.cfg 0 s.enumeratedBuses es s'.enumeratedBuses := by
  obtain ⟨es, s', hrun, hcfg, hsw⟩ := enumeratePciBus_run 0 s
  refine ⟨es, s', fun depth hd => ?_, hcfg, hsw⟩
  unfold attachedDevices
  rw [headerTypeArrow_run, hm]
  exact hrun depth hd

/-- The mutual recursion ends from every visited set and on every bus, and one iteration of
`attached_devices` never yields a device twice. -/
theorem attachedDevices_terminates_nodup (s : EnumState) :
    (∀ bus, ∃ es s', ∀ depth, 256 < depth → enumeratePciBus depth bus s = some (es, s')) ∧
      ∃ es s', Iterates s es s' ∧ (yielded es).Nodup := by
  refine ⟨fun bus => ?_, ?_⟩
  · obtain ⟨es, s', hrun, -⟩ := enumeratePciBus_run bus s
    exact ⟨es, s', hrun⟩
  · cases hm : isMultiFunction (headerType s.cfg ⟨0, 0, 0⟩) with
    | true => exact ⟨[], s, attachedDevices_multi s hm, List.nodup_nil⟩
    | false =>
      obtain ⟨es, s', hit, -, hsw⟩ := attachedDevices_single s hm
      exact ⟨es, s', hit, hsw.nodup⟩

/-- The buses a host bridge at (0, 0, X) is responsible for. -/
def hostBus (X : Fin 8) : Fin 256 := ⟨X.val, by omega⟩

/-- Bus `y` can be reached from bus `x` through bridges that answer. -/
def PresentReachable (cfg : ConfigSpace) : Fin 256 → Fin 256 → Prop := Relation.ReflTransGen (PresentLink cfg)

/-- Every function that answers below the host bridges is in the list: below bus X for every present
host bridge (0, 0, X) of a multi-function controller, below bus 0 otherwise. -/
def CoversHostBridges (cfg : ConfigSpace) (devices : List DeviceBase) : Prop :=
  (isMultiFunction (headerType cfg ⟨0, 0, 0⟩) = true → ∀ X : Fin 8, Present cfg ⟨0, 0, X⟩ →
    ∀ d, PresentReachable cfg (hostBus X) d.bus → Present cfg d → d ∈ devices) ∧
  (isMultiFunction (headerType cfg ⟨0, 0, 0⟩) = false →
    ∀ d, PresentReachable cfg 0 d.bus → Present cfg d → d ∈ devices)

/-- From a bus on which nothing answers no other bus is reached. -/
lemma presentReachable_of_absent {cfg : ConfigSpace} {x y : Fin 256} (hx : ∀ d, d.bus = x → ¬Present cfg d)
    (h : PresentReachable cfg x y) : y = x := by
  induction h with
  | refl => rfl
  | tail _ hl ih =>
    obtain ⟨d, hb, hp, -, -⟩ := hl
    exact absurd hp (hx d (hb.trans ih))

/-- Where every function that answers is looked at, the two notions of reaching a bus agree. -/
lemma reachable_of_presentReachable {cfg : ConfigSpace} {x y : Fin 256}
    (hvis : ∀ d, PresentReachable cfg x d.bus → Present cfg d → Visible cfg d)
    (h : PresentReachable cfg x y) : Reachable cfg x y := by
  induction h with
  | refl => exact .refl
  | tail hxy hl ih =>
    obtain ⟨d, hb, hp, hbridge, hnext⟩ := hl
    exact ih.tail ⟨d, hb, hvis d (by rw [hb]; exact hxy) hp, hbridge, hnext⟩

/-- `attached_devices` covers the host bridges exactly if, for a multi-function controller, nothing answers
on the bus of a present host bridge, and if otherwise every function that answers on a bus reached from bus 0
is function 0 or belongs to a multi-function device. -/
theorem attachedDevices_covers_iff (cfg : ConfigSpace) :
    (∀ es s', Iterates ⟨cfg, ∅⟩ es s' → CoversHostBridges cfg (yielded es)) ↔
      (isMultiFunction (headerType cfg ⟨0, 0, 0⟩) = true → ∀ X : Fin 8, Present cfg ⟨0, 0, X⟩ →
        ∀ d, d.bus = hostBus X → ¬Present cfg d) ∧
      (isMultiFunction (headerType cfg ⟨0, 0, 0⟩) = false →
        ∀ d, PresentReachable cfg 0 d.bus → Present cfg d → Visible cfg d) := by
  constructor
  · intro hcov
    refine ⟨fun hm X hX d hd hp => ?_, fun hm d hr hp => ?_⟩
    · have hreach : PresentReachable cfg (hostBus X) d.bus := by
        rw [hd]
        exact .refl
      have hnone := (hcov [] ⟨cfg, ∅⟩ (attachedDevices_multi _ hm)).1 hm X hX d hreach hp
      simp [yielded] at hnone
    · obtain ⟨es, s', hit, -, hsw⟩ := attachedDevices_single ⟨cfg, ∅⟩ hm
      exact ((hsw.mem_yielded d).mp ((hcov es s' hit).2 hm d hr hp)).2.2
  · rintro ⟨hmulti, hsingle⟩ es s' hit
    refine ⟨fun hm X hX d hr hp => ?_, fun hm d hr hp => ?_⟩
    · have hempty := hmulti hm X hX
      exact absurd hp (hempty d (presentReachable_of_absent hempty hr))
    · obtain ⟨es₁, s₁, hit₁, -, hsw⟩ := attachedDevices_single ⟨cfg, ∅⟩ hm
      have hvis := hsingle hm
      rw [(hit.unique hit₁).1, hsw.mem_yielded, hsw.mem_iff_reachable]
      exact ⟨reachable_of_presentReachable hvis hr, Finset.notMem_empty _, hvis d hr hp⟩

/-- A lone multi-function host bridge at (0, 0, 0). -/
def multiFunctionHost : ConfigSpace := fun d dword =>
  if d = ⟨0, 0, 0⟩ then
    match dword with
    | 0 => 0x12378086#32
    | 2 => 0x06000000#32
    | 3 => 0x00800000#32
    | _ => 0#32
  else 0xFFFFFFFF#32

/-- With a multi-function host bridge nothing is yielded, not even the bridge itself. -/
theorem multiFunctionHost_not_covered :
    ¬ ∀ (cfg : ConfigSpace) (es : List Event) (s' : EnumState),
      Iterates ⟨cfg, ∅⟩ es s' → CoversHostBridges cfg (yielded es) := by
  intro hall
  have hm : isMultiFunction (headerType multiFunctionHost ⟨0, 0, 0⟩) = true := by decide
  have hcov := hall multiFunctionHost [] ⟨multiFunctionHost, ∅⟩ (attachedDevices_multi _ hm)
  have hin := hcov.1 hm 0 (by decide) ⟨0, 0, 0⟩ Relation.ReflTransGen.refl (by decide)
  simp [yielded] at hin

/-- What has been performed when the consumer drops the generator after `k` devices. -/
def untilDevice : Nat → List Event → List Event
  | 0, _ => []
  | _ + 1, [] => []
  | k + 1, .enumerated b :: es => .enumerated b :: untilDevice (k + 1) es
  | k + 1, .device d :: es => .device d :: untilDevice k es

/-- The state after an iteration abandoned after `k` devices: the buses marked so far stay. -/
def abandonAfter (k : Nat) (s : EnumState) (es : List Event) : EnumState :=
  { s with enumeratedBuses := s.enumeratedBuses ∪ (marked (untilDevice k es)).toFinset }

/-- A second complete iteration, and one after an abandoned iteration, yield what the first
iteration yields. -/
def Repeatable (cfg : ConfigSpace) : Prop :=
  ∀ es s', Iterates ⟨cfg, ∅⟩ es s' →
    (∀ es₂ s₂, Iterates s' es₂ s₂ → yielded es₂ = yielded es) ∧
    ∀ k es₂ s₂, Iterates (abandonAfter k ⟨cfg, ∅⟩ es) es₂ s₂ → yielded es₂ = yielded es

lemma reachable_of_empty_bus {cfg : ConfigSpace} (hn : ∀ dev, ¬Present cfg ⟨0, dev, 0⟩)
    {x : Fin 256} (h : Reachable cfg 0 x) : x = 0 := by
  induction h with
  | refl => rfl
  | tail _ hl ih =>
    obtain ⟨d, hb, hvis, -, -⟩ := hl
    rw [ih] at hb
    have hp := hvis.1
    rw [hb] at hp
    exact (hn _ hp).elim

lemma iterates_yields_nothing {s s' : EnumState} {es : List Event} (h : Iterates s es s')
    (hc : isMultiFunction (headerType s.cfg ⟨0, 0, 0⟩) = true ∨
      ∀ dev, ¬Present s.cfg ⟨0, dev, 0⟩) : yielded es = [] := by
  rcases hc with hm | hn
  · rw [(h.unique (attachedDevices_multi s hm)).1]
    rfl
  · cases hm : isMultiFunction (headerType s.cfg ⟨0, 0, 0⟩) with
    | true =>
      rw [(h.unique (attachedDevices_multi s hm)).1]
      rfl
    | false =>
      obtain ⟨es₁, s₁, hit₁, -, hsw⟩ := attachedDevices_single s hm
      rw [(h.unique hit₁).1]
      apply List.eq_nil_iff_forall_not_mem.mpr
      intro d hd
      obtain ⟨hin, hnin, hvis⟩ := (hsw.mem_yielded d).mp hd
      have hb := reachable_of_empty_bus hn (hsw.reached d.bus hin hnin)
      have hp := hvis.1
      rw [hb] at hp
      exact hn _ hp

/-- The first iteration leaves bus 0 in the static visited set, so the second one returns at once. -/
lemma second_iteration_empty {s s' : EnumState} {es : List Event}
    (hm : isMultiFunction (headerType s.cfg ⟨0, 0, 0⟩) = false) (h : Iterates s es s') :
    Iterates s' [] s' := by
  obtain ⟨es₁, s₁, hit₁, hcfg, hsw⟩ := attachedDevices_single s hm
  rw [(h.unique hit₁).2]
  intro depth hd
  obtain ⟨n, rfl⟩ : ∃ n, depth = n + 1 := ⟨depth - 1, by omega⟩
  unfold attachedDevices
  rw [headerTypeArrow_run, hcfg, hm]
  change (if (0 : Fin 256) ∈ s₁.enumeratedBuses then Gen.done else _) s₁ = _
  rw [if_pos hsw.entered]
  rfl

lemma not_repeatable_of_present {cfg : ConfigSpace}
    (hm : isMultiFunction (headerType cfg ⟨0, 0, 0⟩) = false) {dev : Fin 32}
    (hp : Present cfg ⟨0, dev, 0⟩) : ¬Repeatable cfg := by
  intro hrep
  obtain ⟨es, s', hit, -, hsw⟩ := attachedDevices_single ⟨cfg, ∅⟩ hm
  have hvis : Visible cfg ⟨0, dev, 0⟩ := ⟨hp, Or.inl rfl⟩
  have hin : (⟨0, dev, 0⟩ : DeviceBase) ∈ yielded es :=
    (hsw.mem_yielded _).mpr ⟨hsw.entered, Finset.notMem_empty _, hvis⟩
  have hsecond : Iterates s' [] s' := second_iteration_empty (s := ⟨cfg, ∅⟩) hm hit
  have heq := (hrep es s' hit).1 [] s' hsecond
  rw [← heq] at hin
  exact List.not_mem_nil hin

/-- Iterating again gives the same devices exactly when an iteration gives none. -/
theorem attachedDevices_repeatable_iff (cfg : ConfigSpace) :
    Repeatable cfg ↔ isMultiFunction (headerType cfg ⟨0, 0, 0⟩) = true ∨
      ∀ dev, ¬Present cfg ⟨0, dev, 0⟩ := by
  constructor
  · intro hrep
    by_contra hcon
    obtain ⟨hm, hp⟩ := not_or.mp hcon
    obtain ⟨dev, hp⟩ := not_forall.mp hp
    exact not_repeatable_of_present (Bool.eq_false_of_not_eq_true hm) (not_not.mp hp) hrep
  · intro hc es s' hit
    have hfirst := iterates_yields_nothing hit hc
    have hcfg : s'.cfg = cfg := by
      cases hm : isMultiFunction (headerType cfg ⟨0, 0, 0⟩) with
      | true => rw [(hit.unique (attachedDevices_multi ⟨cfg, ∅⟩ hm)).2]
      | false =>
        obtain ⟨es₁, s₁, hit₁, hcfg₁, -⟩ := attachedDevices_single ⟨cfg, ∅⟩ hm
        rw [(hit.unique hit₁).2, hcfg₁]
    refine ⟨fun es₂ s₂ h₂ => ?_, fun k es₂ s₂ h₂ => ?_⟩
    · rw [hfirst]
      exact iterates_yields_nothing h₂ (by rw [hcfg]; exact hc)
    · rw [hfirst]
      exact iterates_yields_nothing h₂ hc

/-- A lone single-function host bridge at (0, 0, 0). -/
def singleFunctionHost : ConfigSpace := fun d dword =>
  if d = ⟨0, 0, 0⟩ then
    match dword with
    | 0 => 0x12378086#32
    | 2 => 0x06000000#32
    | _ => 0#32
  else 0xFFFFFFFF#32

theorem singleFunctionHost_not_repeatable : ¬ ∀ cfg : ConfigSpace, Repeatable cfg := by
  intro hall
  have hm : isMultiFunction (headerType singleFunctionHost ⟨0, 0, 0⟩) = false := by decide
  have hp : Present singleFunctionHost ⟨0, 0, 0⟩ := by decide
  exact not_repeatable_of_present hm hp (hall singleFunctionHost)

end JavaScriptOS.Pci
