import JavaScriptOS.Ioapic.Redirection
import Mathlib.Data.List.Induction

/-!
# Routing interrupts

After `init_ioapic` every entry of the redirection table depends on the calls for its own irq only.
`ioapic_route` writes the mask before the destination, so a route that unmasks an entry does so
towards the destination of the route before it.
-/

namespace JavaScriptOS.Ioapic
open JavaScriptOS.Lib

inductive Call where
  | route (irq lapicid masked : Nat)
  | setmask (irq masked : Nat)
  deriving DecidableEq

def Call.irq : Call → Nat
  | .route irq _ _ => irq
  | .setmask irq _ => irq

def Call.run (irqOffset : Nat) (d : MmapIoapic) : Call → MmapIoapic
  | .route irq lapicid masked => ioapicRoute irqOffset d irq lapicid masked
  | .setmask irq masked => ioapicSetmask d irq masked

def runCalls (irqOffset : Nat) (d : MmapIoapic) (cs : List Call) : MmapIoapic :=
  cs.foldl (Call.run irqOffset) d

section Last

/-- The destination that a call gives `irq`. -/
def Call.lapicidFor (irq : Nat) : Call → Option Nat
  | .route i lapicid _ => if i = irq then some lapicid else none
  | .setmask _ _ => none

/-- The mask flag that a call gives `irq`. -/
def Call.flagFor (irq : Nat) : Call → Option Nat
  | .route i _ masked => if i = irq then some masked else none
  | .setmask i masked => if i = irq then some masked else none

/-- The lapicid of the last route of `irq`. -/
def lastRoute (irq : Nat) (cs : List Call) : Option Nat := (cs.filterMap (Call.lapicidFor irq)).getLast?

/-- The flag of the last route or setmask of `irq`. -/
def lastFlag (irq : Nat) (cs : List Call) : Option Nat := (cs.filterMap (Call.flagFor irq)).getLast?

lemma getLast?_filterMap_concat {α β : Type} (f : α → Option β) (l : List α) (a : α) :
    ((l ++ [a]).filterMap f).getLast? = (f a).or (l.filterMap f).getLast? := by
  rw [List.filterMap_append, List.filterMap_cons, List.filterMap_nil]
  cases f a with
  | none => rw [List.append_nil, Option.none_or]
  | some b => rw [List.getLast?_concat, Option.some_or]

lemma lastRoute_concat (irq : Nat) (cs : List Call) (c : Call) :
    lastRoute irq (cs ++ [c]) = (c.lapicidFor irq).or (lastRoute irq cs) := getLast?_filterMap_concat _ _ _

lemma lastFlag_concat (irq : Nat) (cs : List Call) (c : Call) :
    lastFlag irq (cs ++ [c]) = (c.flagFor irq).or (lastFlag irq cs) := getLast?_filterMap_concat _ _ _

end Last

variable {irqOffset irq lapicid masked : Nat} {d t : MmapIoapic} {c : Call} {cs pre post : List Call}

section Isolation

lemma runCalls_concat (irqOffset : Nat) (d : MmapIoapic) (cs : List Call) (c : Call) :
    runCalls irqOffset d (cs ++ [c]) = c.run irqOffset (runCalls irqOffset d cs) := by
  unfold runCalls
  rw [List.foldl_append, List.foldl_cons, List.foldl_nil]

/-- One call on an entry that is configured. -/
lemma entry_run {lapicid masked : Nat} (hirq : c.irq < 120)
    (hentry : entry d irq = configured irqOffset irq lapicid masked) :
    entry (c.run irqOffset d) irq =
      configured irqOffset irq ((c.lapicidFor irq).getD lapicid) ((c.flagFor irq).getD masked) := by
  cases c with
  | route i l m =>
    rw [Call.irq] at hirq
    rw [Call.run, entry_ioapicRoute hirq]
    by_cases heq : i = irq
    · rw [if_pos heq.symm, Call.lapicidFor, Call.flagFor, if_pos heq, if_pos heq]
      rfl
    · rw [if_neg (Ne.symm heq), Call.lapicidFor, Call.flagFor, if_neg heq, if_neg heq]
      exact hentry
  | setmask i m =>
    rw [Call.irq] at hirq
    rw [Call.run, entry_ioapicSetmask hirq, hentry]
    by_cases heq : i = irq
    · rw [if_pos heq.symm, Call.lapicidFor, Call.flagFor, if_pos heq]
      rfl
    · rw [if_neg (Ne.symm heq), Call.lapicidFor, Call.flagFor, if_neg heq]
      rfl

lemma entry_runCalls (hcount : entryCount d ≤ 120) (hcs : ∀ c ∈ cs, c.irq < entryCount d)
    (hirq : irq < entryCount d) : entry (runCalls irqOffset (initIoapic irqOffset d) cs) irq =
      configured irqOffset irq ((lastRoute irq cs).getD 0) ((lastFlag irq cs).getD 1) := by
  induction cs using List.reverseRecOn with
  | nil => exact entry_initIoapic hcount hirq
  | append_singleton cs c ih =>
    have hc := hcs c (by simp)
    rw [runCalls_concat, entry_run (by omega) (ih fun c' hc' => hcs c' (by simp [hc'])), lastRoute_concat,
      lastFlag_concat, Option.getD_or, Option.getD_or]

/-- The entry of an irq is determined by the calls for that irq, and no two entries share a vector. -/
theorem entry_isolated (irqOffset : Nat) (d : MmapIoapic) (cs : List Call) (hcount : entryCount d ≤ 120)
    (hcs : ∀ c ∈ cs, c.irq < entryCount d) (irq : Nat) (hirq : irq < entryCount d) :
    entry (runCalls irqOffset (initIoapic irqOffset d) cs) irq =
      configured irqOffset irq ((lastRoute irq cs).getD 0) ((lastFlag irq cs).getD 1) ∧
    ∀ i < entryCount d, i ≠ irq → (entry (runCalls irqOffset (initIoapic irqOffset d) cs) i).vector ≠
      (entry (runCalls irqOffset (initIoapic irqOffset d) cs) irq).vector := by
  have hentry : ∀ i < entryCount d, entry (runCalls irqOffset (initIoapic irqOffset d) cs) i =
      configured irqOffset i ((lastRoute i cs).getD 0) ((lastFlag i cs).getD 1) :=
    fun i hi => entry_runCalls hcount hcs hi
  refine ⟨hentry irq hirq, fun i hi hne => ?_⟩
  rw [hentry i hi, hentry irq hirq]
  simp only [configured]
  omega

/-- An IOAPIC with 24 entries. -/
def freshIoapic : MmapIoapic := ⟨0, fun k => if k = 1 then 0x170011 else 0⟩

theorem entry_isolated_fresh :
    entry (runCalls 32 (initIoapic 32 freshIoapic) [.route 4 0x103 0, .route 1 2 0, .setmask 4 1]) 4 =
      configured 32 4 0x103 1 :=
  (entry_isolated 32 freshIoapic [.route 4 0x103 0, .route 1 2 0, .setmask 4 1] (by decide) (by decide) 4
    (by decide)).1

end Isolation

section Stale

/-- The states after each register write of a call. -/
def Call.writes (irqOffset : Nat) (d : MmapIoapic) : Call → List MmapIoapic
  | .route irq lapicid masked =>
    let d₁ := ioapicWriteRegister d (ioapicRedirectTableOffset + 2 * irq) (routeEntryLo irqOffset irq masked)
    [d₁, ioapicWriteRegister d₁ (ioapicRedirectTableOffset + 2 * irq + 1) (routeEntryHi lapicid)]
  | .setmask irq masked => [ioapicSetmask d irq masked]

/-- The last of these states is the one the call leaves. -/
lemma getLast?_writes (irqOffset : Nat) (d : MmapIoapic) (c : Call) :
    (c.writes irqOffset d).getLast? = some (c.run irqOffset d) := by
  cases c with
  | route i l m => rfl
  | setmask i m => rfl

lemma mem_writes_route : t ∈ (Call.route irq lapicid masked).writes irqOffset d ↔
    t = ioapicWriteRegister d (ioapicRedirectTableOffset + 2 * irq) (routeEntryLo irqOffset irq masked) ∨
      t = ioapicRoute irqOffset d irq lapicid masked := by
  rw [Call.writes, List.mem_cons, List.mem_singleton]
  rfl

/-- In `t` every unmasked entry has the destination of the last route of its irq. -/
def FreshDestinations (n : Nat) (cs : List Call) (t : MmapIoapic) : Prop :=
  ∀ irq < n, (entry t irq).mask = 0 →
    ∃ lapicid, lastRoute irq cs = some lapicid ∧ (entry t irq).destination = lapicid % 256

/-- So it is after every register write of every call; a call counts from its start. -/
def NeverStale (irqOffset : Nat) (d : MmapIoapic) (cs : List Call) : Prop :=
  ∀ pre c post, cs = pre ++ c :: post →
    ∀ t ∈ c.writes irqOffset (runCalls irqOffset (initIoapic irqOffset d) pre),
      FreshDestinations (entryCount d) (pre ++ [c]) t

/-- A call after the calls `pre` that unmasks its irq, if at all, towards the destination it has. -/
def Call.Safe (pre : List Call) : Call → Prop
  | .route irq lapicid masked => masked % 2 = 1 ∨ (lastRoute irq pre).getD 0 % 256 = lapicid % 256
  | .setmask irq masked => masked % 2 = 1 ∨ lastRoute irq pre ≠ none

def RoutesSafely (cs : List Call) : Prop := ∀ pre c post, cs = pre ++ c :: post → c.Safe pre

lemma RoutesSafely.of_append (hsafe : RoutesSafely (pre ++ post)) : RoutesSafely pre := by
  rintro pre' c post' rfl
  exact hsafe pre' c (post' ++ post) (by simp)

/-- An irq that safe calls have unmasked has been routed. -/
lemma RoutesSafely.routed (hsafe : RoutesSafely cs) (hflag : (lastFlag irq cs).getD 1 % 2 = 0) :
    lastRoute irq cs ≠ none := by
  induction cs using List.reverseRecOn with
  | nil => cases hflag
  | append_singleton cs c ih =>
    have hc := hsafe cs c [] rfl
    rw [lastFlag_concat] at hflag
    rw [lastRoute_concat]
    cases c with
    | route i l m =>
      rw [Call.flagFor] at hflag
      rw [Call.lapicidFor]
      by_cases heq : i = irq
      · rw [if_pos heq, Option.some_or]
        exact Option.some_ne_none l
      · rw [if_neg heq] at hflag ⊢
        exact ih hsafe.of_append hflag
    | setmask i m =>
      rw [Call.flagFor] at hflag
      rw [Call.lapicidFor, Option.none_or]
      by_cases heq : i = irq
      · rw [if_pos heq] at hflag
        have hm : m % 2 = 0 := hflag
        have hrouted := hc.resolve_left (by omega)
        rw [heq] at hrouted
        exact hrouted
      · rw [if_neg heq] at hflag
        exact ih hsafe.of_append hflag

/-- The register writes of a call leave the entries of other irqs alone. -/
lemma entry_writes_of_ne (hirq : c.irq < 120) (ht : t ∈ c.writes irqOffset d) (hne : irq ≠ c.irq) :
    entry t irq = entry d irq := by
  cases c with
  | route i l m =>
    rw [Call.irq] at hirq hne
    rcases mem_writes_route.mp ht with rfl | rfl
    · rw [entry_routeLo hirq, if_neg hne]
    · rw [entry_ioapicRoute hirq, if_neg hne]
  | setmask i m =>
    rw [Call.irq] at hirq hne
    rw [List.mem_singleton.mp ht, entry_ioapicSetmask hirq, if_neg hne]

lemma lastRoute_route (irq lapicid masked : Nat) (cs : List Call) :
    lastRoute irq (cs ++ [.route irq lapicid masked]) = some lapicid := by
  rw [lastRoute_concat, Call.lapicidFor, if_pos rfl, Option.some_or]

lemma lastRoute_setmask (irq i masked : Nat) (cs : List Call) :
    lastRoute irq (cs ++ [.setmask i masked]) = lastRoute irq cs := by
  rw [lastRoute_concat, Call.lapicidFor, Option.none_or]

/-- An irq keeps its route over a call for another irq. -/
lemma lastRoute_concat_of_ne (cs : List Call) (hne : irq ≠ c.irq) :
    lastRoute irq (cs ++ [c]) = lastRoute irq cs := by
  cases c with
  | route i l m =>
    rw [Call.irq] at hne
    rw [lastRoute_concat, Call.lapicidFor, if_neg (Ne.symm hne), Option.none_or]
  | setmask i m => exact lastRoute_setmask irq i m cs

section Step

variable (hcount : entryCount d ≤ 120)
  (hentry : ∀ irq < entryCount d, entry t irq =
    configured irqOffset irq ((lastRoute irq pre).getD 0) ((lastFlag irq pre).getD 1))
include hcount hentry

/-- A safe call in the state `t` that safe calls have left. -/
lemma freshDestinations_of_safe (hsafe : RoutesSafely pre) (hc : c.Safe pre) (hirq : c.irq < entryCount d)
    {t' : MmapIoapic} (ht : t' ∈ c.writes irqOffset t) : FreshDestinations (entryCount d) (pre ++ [c]) t' := by
  intro irq hlt hmask
  have hold := hentry irq hlt
  by_cases heq : irq = c.irq
  · cases c with
    | route i l m =>
      rw [Call.irq] at heq
      subst heq
      refine ⟨l, lastRoute_route .., ?_⟩
      rcases mem_writes_route.mp ht with rfl | rfl
      · rw [entry_routeLo (by omega), if_pos rfl] at hmask ⊢
        have hm : m % 2 = 0 := hmask
        rw [hold]
        exact hc.resolve_left (by omega)
      · rw [entry_ioapicRoute (by omega), if_pos rfl]
        rfl
    | setmask i m =>
      rw [Call.irq] at heq
      subst heq
      rw [List.mem_singleton.mp ht, entry_ioapicSetmask (by omega), if_pos rfl, hold] at hmask ⊢
      have hm : m % 2 = 0 := hmask
      obtain ⟨l, hl⟩ := Option.ne_none_iff_exists'.mp (hc.resolve_left (by omega))
      rw [lastRoute_setmask, hl]
      exact ⟨l, rfl, rfl⟩
  · rw [entry_writes_of_ne (by omega) ht heq, hold] at hmask ⊢
    obtain ⟨l, hl⟩ := Option.ne_none_iff_exists'.mp (hsafe.routed hmask)
    rw [lastRoute_concat_of_ne pre heq, hl]
    exact ⟨l, rfl, rfl⟩

/-- A call whose first register write leaves no stale destination is safe. -/
lemma safe_of_freshDestinations (hirq : c.irq < entryCount d)
    (hfresh : ∀ t' ∈ c.writes irqOffset t, FreshDestinations (entryCount d) (pre ++ [c]) t') : c.Safe pre := by
  have hold := hentry c.irq hirq
  by_contra hunsafe
  cases c with
  | route i l m =>
    rw [Call.irq] at hirq hold
    obtain ⟨hm, hne⟩ := not_or.mp hunsafe
    obtain ⟨l', hl', hdest⟩ := hfresh _ (mem_writes_route.mpr (Or.inl rfl)) i hirq (by
      rw [entry_routeLo (by omega), if_pos rfl]
      exact Nat.mod_two_ne_one.mp hm)
    rw [lastRoute_route] at hl'
    cases hl'
    rw [entry_routeLo (by omega), if_pos rfl, hold] at hdest
    exact hne hdest
  | setmask i m =>
    rw [Call.irq] at hirq
    obtain ⟨hm, hnone⟩ := not_or.mp hunsafe
    obtain ⟨l', hl', -⟩ := hfresh _ (List.mem_singleton_self _) i hirq (by
      rw [entry_ioapicSetmask (by omega), if_pos rfl]
      exact Nat.mod_two_ne_one.mp hm)
    rw [lastRoute_setmask, not_not.mp hnone] at hl'
    cases hl'

end Step

/-- No unmasked entry ever has a stale destination exactly if every route that unmasks an entry keeps
its destination, and no entry is unmasked before its first route. -/
theorem neverStale_iff (irqOffset : Nat) (d : MmapIoapic) (cs : List Call) (hcount : entryCount d ≤ 120)
    (hcs : ∀ c ∈ cs, c.irq < entryCount d) : NeverStale irqOffset d cs ↔ RoutesSafely cs := by
  have hentry : ∀ pre c post, cs = pre ++ c :: post → ∀ irq < entryCount d,
      entry (runCalls irqOffset (initIoapic irqOffset d) pre) irq =
        configured irqOffset irq ((lastRoute irq pre).getD 0) ((lastFlag irq pre).getD 1) := by
    rintro pre c post rfl irq hirq
    exact entry_runCalls hcount (fun c' hc' => hcs c' (List.mem_append_left _ hc')) hirq
  constructor
  · rintro hnever pre c post rfl
    exact safe_of_freshDestinations hcount (hentry pre c post rfl) (hcs c (by simp)) (hnever pre c post rfl)
  · rintro hsafe pre c post rfl t ht
    exact freshDestinations_of_safe hcount (hentry pre c post rfl) hsafe.of_append (hsafe pre c post rfl)
      (hcs c (by simp)) ht

lemma RoutesSafely.concat (hsafe : RoutesSafely cs) (hc : c.Safe cs) : RoutesSafely (cs ++ [c]) := by
  intro pre c' post heq
  rcases List.eq_nil_or_concat post with rfl | ⟨post', c'', rfl⟩
  · obtain ⟨rfl, hlast⟩ := List.append_inj' heq rfl
    cases hlast
    exact hc
  · rw [List.concat_eq_append, ← List.cons_append, ← List.append_assoc] at heq
    obtain ⟨rfl, -⟩ := List.append_inj' heq rfl
    exact hsafe pre c' post' rfl

/-- Routing masked and unmasking afterwards. -/
theorem neverStale_unmask_last : NeverStale 32 freshIoapic [.route 1 2 1, .setmask 1 0] := by
  have hnil : RoutesSafely [] := fun pre c post heq => absurd heq (by simp)
  have hroute : RoutesSafely [.route 1 2 1] := hnil.concat (Or.inl rfl)
  exact (neverStale_iff 32 freshIoapic [.route 1 2 1, .setmask 1 0] (by decide) (by decide)).mpr
    (hroute.concat (Or.inr (by decide)))

/-- The first route of an irq unmasks it while its destination is still 0. -/
theorem route_unmasks_stale : entryCount freshIoapic ≤ 120 ∧ 1 < entryCount freshIoapic ∧
    ¬NeverStale 32 freshIoapic [.route 1 2 0] := by
  refine ⟨by decide, by decide, fun hnever => ?_⟩
  obtain ⟨l, hl, hdest⟩ := hnever [] (.route 1 2 0) [] rfl _ (mem_writes_route.mpr (Or.inl rfl)) 1 (by decide)
    (by decide +kernel)
  cases hl
  exact absurd hdest (by decide +kernel)

end Stale

end JavaScriptOS.Ioapic
