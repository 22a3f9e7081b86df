import JavaScriptOS.Memory.MapLoop

/-!
# Running out of pages in `mappages`

`getaddrpte` does not test what `derefpte` returns: a table that could not be allocated is indexed through the
null pointer, at whatever level it is missing. Page 0 is mapped, so nothing stops the walk there.
-/

namespace JavaScriptOS.Memory
open JavaScriptOS.Lib

/-- The walk of the processor from a root table, over the words that the kernel sees at their `P2KV`
addresses: the physical address and the flags `w` and `u` of the leaf. -/
def translation (s : PmmState) (root a : Nat) : Option (Nat × Nat × Nat) :=
  (hwWalk (fun x => some (s.mem (p2kv x))) (kv2p root) a).map fun leaf => (leaf.2, pteW leaf.1, pteU leaf.1)

/-- `pmm_alloc` returns null at some point of the call. -/
def RunsOut (root va size pa w u : Nat) (s : PmmState) : Prop :=
  ∃ fuel, MapEvent.allocated 0 ∈ (mappages fuel root va size pa w u ⟨s, []⟩).2.log

/-- The call returns 1, no null table was indexed, and what was translated before is translated as before. -/
def FailsCleanly (root va size pa w u : Nat) (s : PmmState) : Prop :=
  ∃ fuel s', mappages fuel root va size pa w u ⟨s, []⟩ = (some true, s') ∧ s'.indexedNull = false ∧
    ∀ a r, translation s root a = some r → translation s'.pmm root a = some r

variable {root va size pa w u fuel : Nat} {s : PmmState}

/-- A null result of `pmm_alloc` is indexed before the call goes on. -/
lemma indexedNull_of_allocated (h : MapEvent.allocated 0 ∈ (mappages fuel root va size pa w u ⟨s, []⟩).2.log) :
    (mappages fuel root va size pa w u ⟨s, []⟩).2.indexedNull = true :=
  ((mappagesFrom_extends fuel).null h).resolve_left List.not_mem_nil

/-- No call that runs out of pages fails cleanly, whatever the tables, the range and the free pages are. -/
theorem mappages_exhausted_never (root va size pa w u : Nat) (s : PmmState) (h : RunsOut root va size pa w u s) :
    ¬FailsCleanly root va size pa w u s := by
  rintro ⟨fuel', s', hrun, hclean, -⟩
  obtain ⟨fuel, hnull⟩ := h
  -- with the fuel of both, the run still returns, and the null page is in its log
  have hreturns : mappages (fuel' + fuel) root va size pa w u ⟨s, []⟩ = (some true, s') :=
    mappagesFrom_returns hrun fuel
  have hlogged : MapEvent.allocated 0 ∈ (mappages (fuel' + fuel) root va size pa w u ⟨s, []⟩).2.log := by
    rw [Nat.add_comm]
    exact mappagesFrom_more fuel fuel' _ hnull
  have hindexed := indexedNull_of_allocated hlogged
  rw [hreturns] at hindexed
  exact absurd hindexed (Bool.eq_false_iff.mp hclean)

/-- Three pages are enough for the first page of the range; the walk of the second one runs out. -/
theorem mappages_exhausted_second_page : RunsOut emptyRoot 0x400000 0x2000 0 1 0 (freePages 2) ∧
    ¬FailsCleanly emptyRoot 0x400000 0x2000 0 1 0 (freePages 2) := by
  have hout : RunsOut emptyRoot 0x400000 0x2000 0 1 0 (freePages 2) := ⟨3, by decide +kernel⟩
  exact ⟨hout, mappages_exhausted_never _ _ _ _ _ _ _ hout⟩

/-- An empty root table and no free page. The page is looked up by the word it holds, with index 1 in the last
table. -/
def noPages : PmmState := ⟨fun a => if a = 0x400000 then 0x1000 else 0, 0⟩

/-- `mappages` reports success: it has taken page 0 for the missing tables and stored the entry at address 12. -/
theorem mappages_exhausted_succeeds :
    RunsOut emptyRoot 0x400000 pgsize 0 1 0 noPages ∧
      (mappages 2 emptyRoot 0x400000 pgsize 0 1 0 ⟨noPages, []⟩).1 = some false ∧
      (mappages 2 emptyRoot 0x400000 pgsize 0 1 0 ⟨noPages, []⟩).2.indexedNull = true ∧
      dword (mappages 2 emptyRoot 0x400000 pgsize 0 1 0 ⟨noPages, []⟩).2.pmm.mem 12 = 3 := by
  refine ⟨⟨2, ?_⟩, ?_, ?_, ?_⟩ <;> decide +kernel

end JavaScriptOS.Memory
