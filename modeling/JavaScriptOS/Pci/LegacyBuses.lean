import JavaScriptOS.Pci.AttachedDevices
import JavaScriptOS.Pci.Legacy

/-!
# `enumerate_all_pci_buses` of `pci.c`

The entry point of the C enumerator. It starts `enumerate_pci_bus` from bus 0, or from each of the
buses 0 to 7 when the host bridge at (0, 0, 0) is a multi-function device. The buses share the static
array, so a bus below two host bridges is entered once.
-/

namespace JavaScriptOS.Pci
open JavaScriptOS.Lib

/-- `enumerate_all_pci_buses`. The vendor id read in the loop only chooses a debug message: a bus
without a host controller is enumerated as well. -/
def Legacy.enumerateAllPciBuses (cfg : ConfigSpace) (depth : Nat) : Legacy.Enumerator Unit :=
  if !isMultiFunction (pciReadRegister8 cfg ⟨0, 0, 0⟩ 0x0E) then Legacy.enumeratePciBus cfg depth 0
  else (List.finRange 8).forM fun busAsFunctionNumber =>
    Legacy.enumeratePciBus cfg depth (hostBus busAsFunctionNumber)

/-- The buses `enumerate_all_pci_buses` starts from. -/
def hostBuses (cfg : ConfigSpace) : List (Fin 256) :=
  if !isMultiFunction (headerType cfg ⟨0, 0, 0⟩) then [0] else (List.finRange 8).map hostBus

lemma enumerateAllPciBuses_eq_forM (cfg : ConfigSpace) (depth : Nat) :
    Legacy.enumerateAllPciBuses cfg depth = (hostBuses cfg).forM (Legacy.enumeratePciBus cfg depth) := by
  unfold Legacy.enumerateAllPciBuses hostBuses
  have hheader : Legacy.pciReadRegister8 cfg ⟨0, 0, 0⟩ 0x0E = headerType cfg ⟨0, 0, 0⟩ := rfl
  rw [hheader]
  by_cases hm : (!isMultiFunction (headerType cfg ⟨0, 0, 0⟩)) = true
  · rw [if_pos hm, if_pos hm]
    simp
  · rw [if_neg hm, if_neg hm]
    simp [List.forM_eq_forM]

section Roots

variable {cfg : ConfigSpace} {roots : List (Fin 256)} {es es' : List Event} {v v' : Finset (Fin 256)}

/-- What the sweeps of several buses in a row leave, from an empty visited set. -/
structure RootsSweep (cfg : ConfigSpace) (roots : List (Fin 256)) (es : List Event)
    (v : Finset (Fin 256)) : Prop where
  nodup : (yielded es).Nodup
  mem_yielded : ∀ d, d ∈ yielded es ↔ d.bus ∈ v ∧ Visible cfg d
  mem_iff_reachable : ∀ x, x ∈ v ↔ ∃ r ∈ roots, Reachable cfg r x
  marks : ∀ x, x ∈ v ↔ x ∈ marked es

lemma RootsSweep.nil (cfg : ConfigSpace) : RootsSweep cfg [] [] ∅ where
  nodup := List.nodup_nil
  mem_yielded := fun d => by simp [yielded]
  mem_iff_reachable := fun x => by simp
  marks := fun x => by simp [marked]

/-- The visited set stays closed: a link out of an old bus leads to an old bus. -/
lemma RootsSweep.covers_next (h : RootsSweep cfg roots es v) {r : Fin 256} (hb : BusSweep cfg r v es' v')
    {x : Fin 256} (hx : Reachable cfg r x) : x ∈ v' := by
  induction hx with
  | refl => exact hb.entered
  | @tail y z _ hlink ih =>
    by_cases hy : y ∈ v
    · obtain ⟨r₀, hr₀, hreach⟩ := (h.mem_iff_reachable y).mp hy
      exact hb.grows ((h.mem_iff_reachable z).mpr ⟨r₀, hr₀, hreach.tail hlink⟩)
    · exact hb.closed y ih hy z hlink

lemma RootsSweep.append (h : RootsSweep cfg roots es v) {r : Fin 256} (hb : BusSweep cfg r v es' v') :
    RootsSweep cfg (roots ++ [r]) (es ++ es') v' where
  nodup := by
    rw [yielded_append]
    apply h.nodup.append hb.nodup
    intro d hd hd'
    exact ((hb.mem_yielded d).mp hd').2.1 ((h.mem_yielded d).mp hd).1
  mem_yielded := by
    intro d
    rw [yielded_append, List.mem_append, h.mem_yielded, hb.mem_yielded]
    constructor
    · rintro (⟨hv, hvis⟩ | ⟨hv, -, hvis⟩)
      · exact ⟨hb.grows hv, hvis⟩
      · exact ⟨hv, hvis⟩
    · rintro ⟨hv', hvis⟩
      by_cases hv : d.bus ∈ v
      · exact Or.inl ⟨hv, hvis⟩
      · exact Or.inr ⟨hv', hv, hvis⟩
  mem_iff_reachable := by
    intro x
    constructor
    · intro hx
      by_cases hv : x ∈ v
      · obtain ⟨r₀, hr₀, hreach⟩ := (h.mem_iff_reachable x).mp hv
        exact ⟨r₀, List.mem_append_left _ hr₀, hreach⟩
      · exact ⟨r, by simp, hb.reached x hx hv⟩
    · rintro ⟨r₀, hr₀, hreach⟩
      rcases List.mem_append.mp hr₀ with hold | hnew
      · exact hb.grows ((h.mem_iff_reachable x).mpr ⟨r₀, hold, hreach⟩)
      · rw [List.mem_singleton.mp hnew] at hreach
        exact h.covers_next hb hreach
  marks := by
    intro x
    rw [hb.marks, h.marks, marked_append, List.mem_append]

/-- Enumerating a list of buses one after another, for every sufficient recursion budget. -/
lemma forEach_enumeratePciBus_run (cfg : ConfigSpace) (roots : List (Fin 256)) :
    ∃ es s, (∀ depth, 256 < depth → Gen.forEach (enumeratePciBus depth) roots ⟨cfg, ∅⟩ = some (es, s)) ∧
      RootsSweep cfg roots es s.enumeratedBuses := by
  have hsweep : Gen.Yields (Gen.forEach (enumeratePciBus 257) roots) ⟨cfg, ∅⟩
      (fun es s => s.cfg = cfg ∧ RootsSweep cfg roots es s.enumeratedBuses) := by
    apply Gen.Yields.forEach (fun before es (s : EnumState) => s.cfg = cfg ∧ RootsSweep cfg before es s.enumeratedBuses)
    · exact ⟨rfl, RootsSweep.nil cfg⟩
    · rintro before r - es s ⟨hcfg, hsw⟩
      obtain ⟨es', s', hrun, hcfg', hbus⟩ := enumeratePciBus_run r s
      rw [hcfg] at hbus
      exact Gen.yields_of_eq (hrun 257 (by omega)) ⟨hcfg'.trans hcfg, hsw.append hbus⟩
  obtain ⟨es, s, hrun, -, hsw⟩ := hsweep
  refine ⟨es, s, fun depth hd => ?_, hsw⟩
  have hext := Gen.Extends.forEach (fun r => enumeratePciBus_extends_le hd r) roots
  exact hext ⟨cfg, ∅⟩ (es, s) hrun

end Roots

section Repeated

variable {cfg : ConfigSpace} {t : Legacy.EnumState}

lemma legacy_enumeratePciBus_visited {bus : Fin 256} (hb : bus.val < 8)
    (hset : t.enumeratedBuses ⟨bus.val, hb⟩ ≠ 0) (depth : Nat) :
    Legacy.enumeratePciBus cfg (depth + 1) bus t = .ok ((), t) := by
  have hread : Legacy.enumeratedBus bus t = .ok (t.enumeratedBuses ⟨bus.val, hb⟩, t) := dif_pos hb
  simp only [Legacy.enumeratePciBus, bind, StateT.bind, hread, Except.bind, if_pos hset]
  rfl

lemma forM_of_fixed {body : Fin 256 → Legacy.Enumerator Unit} {roots : List (Fin 256)}
    (h : ∀ r ∈ roots, body r t = .ok ((), t)) : roots.forM body t = .ok ((), t) := by
  induction roots with
  | nil => rfl
  | cons r roots ih =>
    have hhead : body r t = .ok ((), t) := h r List.mem_cons_self
    exact (Follows.bind_ok hhead).trans (ih fun r' hr' => h r' (List.mem_cons_of_mem r hr'))

end Repeated

/-- `enumerate_all_pci_buses` ends without leaving its array exactly when no bus above 7 can be
reached. It has then called `enumerate_function` once for each visible function on a bus that can be
reached from where it starts, and a second call finds nothing. -/
theorem enumerateAllPciBuses_complete (cfg : ConfigSpace) :
    ((∀ depth, 256 < depth → ∃ t, Legacy.enumerateAllPciBuses cfg depth Legacy.start = .ok ((), t)) ↔
      ∀ r ∈ hostBuses cfg, ∀ x, Reachable cfg r x → x.val < 8) ∧
    ∀ t depth, 256 < depth → Legacy.enumerateAllPciBuses cfg depth Legacy.start = .ok ((), t) →
      t.calls.Nodup ∧
      (∀ d, d ∈ t.calls ↔ (∃ r ∈ hostBuses cfg, Reachable cfg r d.bus) ∧ Visible cfg d) ∧
      Legacy.enumerateAllPciBuses cfg depth t = .ok ((), t) := by
  obtain ⟨es, s, hgen, hsweep⟩ := forEach_enumeratePciBus_run cfg (hostBuses cfg)
  have hfollows : ∀ depth, LegacyFollows cfg (Legacy.enumerateAllPciBuses cfg depth)
      (Gen.forEach (enumeratePciBus depth) (hostBuses cfg)) := by
    intro depth
    rw [enumerateAllPciBuses_eq_forM]
    exact Follows.forEach (fun r => enumeratePciBus_follows depth r) _
  -- what a finished run says about the events of the generator
  have hback : ∀ t depth, 256 < depth → Legacy.enumerateAllPciBuses cfg depth Legacy.start = .ok ((), t) →
      (∀ e ∈ es, InArray e) ∧ SameProgress cfg es s t := by
    intro t depth hd hrun
    obtain ⟨es', s', hgen', hok, hsame⟩ :=
      (hfollows depth [] ⟨cfg, ∅⟩ Legacy.start (sameProgress_start cfg)).2 t hrun
    rw [hgen depth hd] at hgen'
    cases hgen'
    exact ⟨hok, hsame⟩
  refine ⟨⟨?_, ?_⟩, ?_⟩
  · intro hends r hr x hreach
    obtain ⟨t, hrun⟩ := hends 257 (by omega)
    obtain ⟨hok, -⟩ := hback t 257 (by omega) hrun
    have hmark : x ∈ marked es := (hsweep.marks x).mp ((hsweep.mem_iff_reachable x).mpr ⟨r, hr, hreach⟩)
    exact hok (.enumerated x) (mem_marked.mp hmark)
  · intro hsmall depth hd
    have hok : ∀ e ∈ es, InArray e := by
      intro e he
      cases e with
      | enumerated x =>
        obtain ⟨r, hr, hreach⟩ :=
          (hsweep.mem_iff_reachable x).mp ((hsweep.marks x).mpr (mem_marked.mpr he))
        exact hsmall r hr x hreach
      | device d => trivial
    obtain ⟨t, hrun, -⟩ :=
      (hfollows depth [] ⟨cfg, ∅⟩ Legacy.start (sameProgress_start cfg)).1 es s (hgen depth hd) hok
    exact ⟨t, hrun⟩
  · intro t depth hd hrun
    obtain ⟨-, hsame⟩ := hback t depth hd hrun
    refine ⟨?_, ?_, ?_⟩
    · rw [hsame.calls_eq]
      exact hsweep.nodup
    · intro d
      rw [hsame.calls_eq, hsweep.mem_yielded, hsweep.mem_iff_reachable]
    · -- each bus it would start from is marked in the array
      obtain ⟨depth, rfl⟩ : ∃ n, depth = n + 1 := ⟨depth - 1, by omega⟩
      rw [enumerateAllPciBuses_eq_forM]
      apply forM_of_fixed
      intro r hr
      have hin : r ∈ s.enumeratedBuses :=
        (hsweep.mem_iff_reachable r).mpr ⟨r, hr, Relation.ReflTransGen.refl⟩
      obtain ⟨hb, hset⟩ := (hsame.visited r).mp hin
      exact legacy_enumeratePciBus_visited hb hset depth

end JavaScriptOS.Pci
