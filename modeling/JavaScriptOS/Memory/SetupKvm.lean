import JavaScriptOS.Memory.MapLoop

/-!
# The kernel part of a page directory: `setupkvm`

`setupkvm` maps the entries of `kmap` into a fresh root table. `mappages` returns 0 when it has mapped its
range, and `setupkvm` takes that 0 for a failure.
-/

namespace JavaScriptOS.Memory
open JavaScriptOS.Lib

/-- `struct kmap`. -/
structure Kmap where
  vaBegin : Nat
  paBegin : Nat
  paEnd : Nat
  w : Nat

/-- The size that is passed to `mappages`, in 64-bit arithmetic. -/
def Kmap.size (k : Kmap) : Nat := (k.paEnd + (2 ^ 64 - k.paBegin)) % 2 ^ 64

/-- The loop over `kmap`: the results of the calls of `mappages` it makes, true for a returned 1, and what
`setupkvm` returns. The flag `w` is cut to a `boolean`. -/
def mapEntries (fuel pml4 : Nat) : List Kmap → VmmState → List Bool × Option (Nat × VmmState)
  | [], s => ([], some (pml4, s))
  | k :: kmap, s =>
    match mappages fuel pml4 k.vaBegin k.size k.paBegin (k.w % 256) 0 s with
    | (none, _) => ([], none)
    | (some false, s) => ([false], some (0, s))
    | (some true, s) =>
      let (calls, r) := mapEntries fuel pml4 kmap s
      (true :: calls, r)

def setupkvm (fuel : Nat) (kmap : List Kmap) (s : PmmState) : List Bool × Option (Nat × VmmState) :=
  let pml4 := (pmmAlloc s).1
  let s : VmmState := ⟨(pmmAlloc s).2, []⟩
  if pml4 = 0 then ([], some (0, s))
  else mapEntries fuel pml4 kmap (memsetPage pml4 (pteLayerBits 4) s)

/-- A run with the root page `root` over `n` entries returns: null exactly if there was no page or one of the
calls of `mappages` failed, and the root table if all the entries were mapped. -/
def Reports (root n : Nat) (run : List Bool × Option (Nat × VmmState)) : Prop :=
  ∃ r s', run.2 = some (r, s') ∧ (r = 0 ↔ root = 0 ∨ true ∈ run.1) ∧
    (root ≠ 0 → run.1 = List.replicate n false → r = root)

variable {fuel pml4 : Nat} {kmap : List Kmap}

/-- How the loop over `kmap` ends: all calls failed, a call succeeded, or a call did not return. -/
inductive EntriesEnd (pml4 : Nat) (kmap : List Kmap) : List Bool × Option (Nat × VmmState) → Prop
  | through (s' : VmmState) : EntriesEnd pml4 kmap (List.replicate kmap.length true, some (pml4, s'))
  | stopped (j : Nat) (s' : VmmState) (more : j < kmap.length) :
      EntriesEnd pml4 kmap (List.replicate j true ++ [false], some (0, s'))
  | stuck (j : Nat) (more : j < kmap.length) : EntriesEnd pml4 kmap (List.replicate j true, none)

lemma EntriesEnd.cons {k : Kmap} {r : List Bool × Option (Nat × VmmState)}
    (h : EntriesEnd pml4 kmap r) : EntriesEnd pml4 (k :: kmap) (true :: r.1, r.2) := by
  cases h with
  | through s' => exact .through s'
  | stopped j s' more => exact .stopped (j + 1) s' (Nat.succ_lt_succ more)
  | stuck j more => exact .stuck (j + 1) (Nat.succ_lt_succ more)

lemma mapEntries_ends (fuel pml4 : Nat) (kmap : List Kmap) (s : VmmState) :
    EntriesEnd pml4 kmap (mapEntries fuel pml4 kmap s) := by
  induction kmap generalizing s with
  | nil => exact .through s
  | cons k kmap ih =>
    rw [mapEntries]
    obtain ⟨result, s₁⟩ := mappages fuel pml4 k.vaBegin k.size k.paBegin (k.w % 256) 0 s
    rcases result with _ | _ | _
    · exact .stuck 0 (Nat.succ_pos _)
    · exact .stopped 0 s₁ (Nat.succ_pos _)
    · exact (ih s₁).cons

lemma false_not_mem_replicate (j : Nat) : false ∉ List.replicate j true := fun h =>
  absurd (List.eq_of_mem_replicate h) (by decide)

lemma EntriesEnd.reports_iff {run : List Bool × Option (Nat × VmmState)} (h : EntriesEnd pml4 kmap run)
    (hroot : pml4 ≠ 0) : Reports pml4 kmap.length run ↔
      kmap = [] ∨ ∃ j, run.1 = List.replicate (j + 1) true ++ [false] := by
  have hnot : ∀ i j, List.replicate i true ≠ List.replicate (j + 1) true ++ [false] := by
    intro i j heq
    exact false_not_mem_replicate i (heq ▸ List.mem_append_right _ (List.mem_singleton_self false))
  cases h with
  | through s' =>
    constructor
    · rintro ⟨r, s₁, hr, hnull, -⟩
      obtain ⟨rfl, -⟩ := Prod.mk.inj (Option.some.inj hr)
      cases kmap with
      | nil => exact Or.inl rfl
      | cons k kmap => exact absurd (hnull.mpr (Or.inr (List.mem_cons_self ..))) hroot
    · rintro (rfl | ⟨j, hj⟩)
      · exact ⟨pml4, s', rfl, by simp, fun _ _ => rfl⟩
      · exact absurd hj (hnot _ j)
  | stopped j s' more =>
    constructor
    · rintro ⟨r, s₁, hr, hnull, -⟩
      obtain ⟨rfl, -⟩ := Prod.mk.inj (Option.some.inj hr)
      cases j with
      | zero => simp [hroot] at hnull
      | succ j => exact Or.inr ⟨j, rfl⟩
    · rintro (rfl | ⟨i, hi⟩)
      · exact absurd more (Nat.not_lt_zero j)
      · dsimp only at hi
        have htrue : true ∈ List.replicate j true ++ [false] := by
          rw [hi]
          exact List.mem_append_left _ (List.mem_cons_self ..)
        refine ⟨0, s', rfl, ⟨fun _ => Or.inr htrue, fun _ => rfl⟩, fun _ hall => ?_⟩
        -- a call that failed is among those made
        dsimp only at hall
        rw [hall] at htrue
        exact absurd (List.eq_of_mem_replicate htrue) (by decide)
  | stuck j more =>
    constructor
    · rintro ⟨r, s₁, hr, -⟩
      cases hr
    · rintro (rfl | ⟨i, hi⟩)
      · exact absurd more (Nat.not_lt_zero j)
      · exact absurd hi (hnot j i)

lemma setupkvm_of_root {s : PmmState} (h : s.freelist ≠ 0) : setupkvm fuel kmap s =
    mapEntries fuel s.freelist kmap (memsetPage s.freelist (pteLayerBits 4) ⟨(pmmAlloc s).2, []⟩) := by
  unfold setupkvm
  rw [← pmmAlloc_fst s] at h ⊢
  exact if_neg h

/-- The report is right exactly if there is no root page or nothing to map, or if a call of `mappages` fails
and a later one succeeds. -/
theorem setupkvm_reports_iff (fuel : Nat) (kmap : List Kmap) (s : PmmState) :
    Reports (pmmAlloc s).1 kmap.length (setupkvm fuel kmap s) ↔ s.freelist = 0 ∨ kmap = [] ∨
      ∃ j, (setupkvm fuel kmap s).1 = List.replicate (j + 1) true ++ [false] := by
  rw [pmmAlloc_fst]
  by_cases hroot : s.freelist = 0
  · have hrun : setupkvm fuel kmap s = ([], some (0, ⟨(pmmAlloc s).2, []⟩)) := by
      unfold setupkvm
      exact if_pos ((pmmAlloc_fst s).trans hroot)
    rw [hrun]
    exact ⟨fun _ => Or.inl hroot, fun _ => ⟨0, _, rfl, by simp [hroot], fun hne => absurd hroot hne⟩⟩
  · rw [setupkvm_of_root hroot, (mapEntries_ends _ _ _ _).reports_iff hroot]
    simp [hroot]

def firstEntry : Kmap := ⟨0x400000, 0, 0x1000, 1⟩

/-- A table with two pages to map. -/
def twoEntries : List Kmap := [firstEntry, ⟨0x401000, 0x1000, 0x2000, 1⟩]

lemma mapEntries_success {k : Kmap} {s s' : VmmState}
    (h : mappages fuel pml4 k.vaBegin k.size k.paBegin (k.w % 256) 0 s = (some false, s')) :
    mapEntries fuel pml4 (k :: kmap) s = ([false], some (0, s')) := by
  rw [mapEntries, h]

lemma setupkvm_twoEntries (hf : 1 < fuel) :
    ∃ s', setupkvm fuel twoEntries (freePages 7) = ([false], some (0, s')) := by
  set s₁ := memsetPage (freePages 7).freelist (pteLayerBits 4) ⟨(pmmAlloc (freePages 7)).2, []⟩ with hs₁
  have hfirst : (mappages 2 (freePages 7).freelist firstEntry.vaBegin firstEntry.size firstEntry.paBegin
      (firstEntry.w % 256) 0 s₁).1 = some false := by
    rw [hs₁]
    decide +kernel
  obtain ⟨k, rfl⟩ : ∃ k, fuel = 2 + k := Nat.exists_eq_add_of_le hf
  rw [setupkvm_of_root (by decide), ← hs₁]
  exact ⟨_, mapEntries_success (mappages_returns hfirst k)⟩

/-- With enough free pages the first call maps its page, and `setupkvm` returns null for it. -/
theorem setupkvm_null_after_success :
    (∀ k ∈ twoEntries, 0 < k.size) ∧ ∀ fuel, 1 < fuel →
      (∃ s', setupkvm fuel twoEntries (freePages 7) = ([false], some (0, s'))) ∧
      ¬Reports (pmmAlloc (freePages 7)).1 twoEntries.length (setupkvm fuel twoEntries (freePages 7)) := by
  refine ⟨by decide, fun fuel hf => ?_⟩
  obtain ⟨s', hrun⟩ := setupkvm_twoEntries hf
  refine ⟨⟨s', hrun⟩, ?_⟩
  rw [hrun]
  rintro ⟨r, s₁, hr, hnull, -⟩
  obtain ⟨rfl, -⟩ := Prod.mk.inj (Option.some.inj hr)
  rcases hnull.mp rfl with hroot | htrue
  · exact absurd hroot (by decide)
  · exact absurd (List.mem_singleton.mp htrue) (by decide)

end JavaScriptOS.Memory
