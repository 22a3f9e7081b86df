import JavaScriptOS.Memory.Vmm

/-!
# The loop of `mappages`

The loop compares a 64-bit pointer with the address of the last page. It ends after the pages of the
range unless the range ends in the top page, where the pointer wraps, or is empty and not on a page
boundary, where one page is visited.
-/

namespace JavaScriptOS.Memory
open JavaScriptOS.Lib

/-- A null table is indexed. -/
def MapEvent.atNull : MapEvent → Bool
  | .indexed table _ => table = 0
  | _ => false

def MapEvent.page : MapEvent → Option Nat
  | .visited va => some va
  | _ => none

def VmmState.visits (s : VmmState) : List Nat := s.log.filterMap MapEvent.page

def VmmState.indexedNull (s : VmmState) : Bool := s.log.any MapEvent.atNull

section Log

variable {s s' s'' : VmmState} {pte pml4 vaPtr table i : Nat} {alloc : Bool}

/-- What the functions do to the log: they only add to it, and when `pmm_alloc` returns null, the missing table
is indexed behind it. -/
structure Extends (s s' : VmmState) : Prop where
  log : ∀ e ∈ s.log, e ∈ s'.log
  null : MapEvent.allocated 0 ∈ s'.log → MapEvent.allocated 0 ∈ s.log ∨ s'.indexedNull = true

/-- A walk visits no page of its own. -/
structure Walks (s s' : VmmState) : Prop extends Extends s s' where
  visits : s'.visits = s.visits

lemma indexedNull_iff : s.indexedNull = true ↔ ∃ i, MapEvent.indexed 0 i ∈ s.log := by
  rw [VmmState.indexedNull, List.any_eq_true]
  constructor
  · rintro ⟨e, he, hnull⟩
    cases e with
    | indexed table i =>
      obtain rfl : table = 0 := of_decide_eq_true hnull
      exact ⟨i, he⟩
    | visited va => cases hnull
    | allocated page => cases hnull
  · rintro ⟨i, hi⟩
    exact ⟨_, hi, rfl⟩

lemma Extends.indexedNull (h : Extends s s') (hs : s.indexedNull = true) : s'.indexedNull = true := by
  obtain ⟨i, hi⟩ := indexedNull_iff.mp hs
  exact indexedNull_iff.mpr ⟨i, h.log _ hi⟩

lemma Extends.refl (s : VmmState) : Extends s s := ⟨fun _ he => he, Or.inl⟩

lemma Extends.trans (h : Extends s s') (h' : Extends s' s'') : Extends s s'' where
  log := fun e he => h'.log e (h.log e he)
  null := by
    intro hnull
    rcases h'.null hnull with hmid | hindexed
    · exact (h.null hmid).imp_right h'.indexedNull
    · exact Or.inr hindexed

lemma Walks.refl (s : VmmState) : Walks s s := ⟨.refl s, rfl⟩

lemma Walks.trans (h : Walks s s') (h' : Walks s' s'') : Walks s s'' :=
  ⟨h.toExtends.trans h'.toExtends, h'.visits.trans h.visits⟩

/-- An event other than a null result of `pmm_alloc`. -/
lemma extends_note {e : MapEvent} (he : e ≠ .allocated 0) : Extends s (s.note e) where
  log := fun _ => List.mem_cons_of_mem e
  null := fun hnull => Or.inl ((List.mem_cons.mp hnull).resolve_left he.symm)

lemma indexTable_walks : Walks s (indexTable table i s).2 := by
  refine ⟨extends_note fun h => ?_, rfl⟩
  cases h

lemma derefpte_log (pte : Nat) (alloc : Bool) (s : VmmState) : (derefpte pte alloc s).2.log = s.log ∨
    (derefpte pte alloc s).2.log = .allocated (derefpte pte alloc s).1 :: s.log := by
  unfold derefpte
  by_cases hp : pteP (dword s.pmm.mem pte) = 1
  · rw [if_pos hp]
    exact Or.inl rfl
  rw [if_neg hp]
  cases alloc with
  | false => exact Or.inl rfl
  | true =>
    right
    by_cases hnull : (pmmAlloc s.pmm).1 = 0
    · simp [hnull]
    · simp [hnull, memsetPage]

variable {index : Nat → Nat}

lemma nextPte_walks : Walks s (nextPte index pte vaPtr alloc s).2 := by
  set t := (derefpte pte alloc s).1 with ht
  have hlog : ∃ j, (nextPte index pte vaPtr alloc s).2.log = .indexed t j :: (derefpte pte alloc s).2.log := ⟨_, rfl⟩
  obtain ⟨j, hlog⟩ := hlog
  rcases derefpte_log pte alloc s with hd | hd
  · rw [hd] at hlog
    refine ⟨⟨fun e he => ?_, fun hnull => ?_⟩, ?_⟩
    · rw [hlog]
      exact List.mem_cons_of_mem _ he
    · rw [hlog] at hnull
      exact Or.inl ((List.mem_cons.mp hnull).resolve_left fun h => by cases h)
    · rw [VmmState.visits, hlog]
      rfl
  · rw [hd, ← ht] at hlog
    refine ⟨⟨fun e he => ?_, fun hnull => ?_⟩, ?_⟩
    · rw [hlog]
      exact List.mem_cons_of_mem _ (List.mem_cons_of_mem _ he)
    · -- the table that was not there is the one that is indexed
      rw [hlog, List.mem_cons, List.mem_cons] at hnull
      rcases hnull with h | h | h
      · cases h
      · obtain hzero : 0 = t := MapEvent.allocated.inj h
        rw [← hzero] at hlog
        exact Or.inr (indexedNull_iff.mpr ⟨j, hlog ▸ List.mem_cons_self⟩)
      · exact Or.inl h
    · rw [VmmState.visits, hlog]
      rfl

lemma nextPte_null (h : (nextPte index pte vaPtr alloc s).1 = 0) :
    (nextPte index pte vaPtr alloc s).2.indexedNull = true := by
  have hzero : (derefpte pte alloc s).1 = 0 := (Nat.add_eq_zero_iff.mp h).1
  rw [indexedNull_iff]
  refine ⟨index ((derefpte pte alloc s).2.pmm.mem vaPtr), ?_⟩
  rw [← hzero]
  exact List.mem_cons_self

/-- The entry that `getaddrpte` returns is that of one of its levels. -/
lemma getaddrpte_eq_nextPte (pml4 vaPtr : Nat) (alloc : Bool) (s : VmmState) : ∃ index pte s₁, Walks s s₁ ∧
    getaddrpte pml4 vaPtr alloc s = nextPte index pte vaPtr alloc s₁ := by
  unfold getaddrpte
  have h₁ : Walks s (indexTable pml4 (vaPml4i (s.pmm.mem vaPtr)) s).2 := indexTable_walks
  generalize indexTable pml4 (vaPml4i (s.pmm.mem vaPtr)) s = r₁ at h₁ ⊢
  obtain ⟨pml4e, s₁⟩ := r₁
  dsimp only at h₁ ⊢
  have h₂ : Walks s₁ (nextPte vaPdpti pml4e vaPtr alloc s₁).2 := nextPte_walks
  generalize hr₂ : nextPte vaPdpti pml4e vaPtr alloc s₁ = r₂ at h₂ ⊢
  obtain ⟨pdpte, s₂⟩ := r₂
  dsimp only at h₂ ⊢
  split
  · exact ⟨_, _, s₁, h₁, hr₂.symm⟩
  have h₃ : Walks s₂ (nextPte vaPdi pdpte vaPtr alloc s₂).2 := nextPte_walks
  generalize hr₃ : nextPte vaPdi pdpte vaPtr alloc s₂ = r₃ at h₃ ⊢
  obtain ⟨pde, s₃⟩ := r₃
  dsimp only at h₃ ⊢
  split
  · exact ⟨_, _, s₂, h₁.trans h₂, hr₃.symm⟩
  · exact ⟨_, _, s₃, (h₁.trans h₂).trans h₃, rfl⟩

lemma getaddrpte_walks : Walks s (getaddrpte pml4 vaPtr alloc s).2 := by
  obtain ⟨index, pte, s₁, hwalks, heq⟩ := getaddrpte_eq_nextPte pml4 vaPtr alloc s
  rw [heq]
  exact hwalks.trans nextPte_walks

lemma getaddrpte_null (h : (getaddrpte pml4 vaPtr alloc s).1 = 0) :
    (getaddrpte pml4 vaPtr alloc s).2.indexedNull = true := by
  obtain ⟨index, pte, s₁, -, heq⟩ := getaddrpte_eq_nextPte pml4 vaPtr alloc s
  rw [heq] at h ⊢
  exact nextPte_null h

end Log

section Loop

variable {root va last pa w u fuel : Nat} {s : VmmState}

/-- The walk of one round. -/
def walkPage (root va : Nat) (s : VmmState) : Nat × VmmState := getaddrpte root va true (s.note (.visited va))

lemma walkPage_extends : Extends s (walkPage root va s).2 := by
  refine Extends.trans (extends_note fun h => ?_) getaddrpte_walks.toExtends
  cases h

lemma walkPage_null (h : (walkPage root va s).1 = 0) : (walkPage root va s).2.indexedNull = true := getaddrpte_null h

lemma walkPage_visits : (walkPage root va s).2.visits = va :: s.visits := getaddrpte_walks.visits

lemma mappagesFrom_stop (h : last < va) : mappagesFrom (fuel + 1) root va last pa w u s = (some false, s) :=
  if_neg (Nat.not_le.mpr h)

lemma mappagesFrom_null (h : va ≤ last) (hnull : (walkPage root va s).1 = 0) :
    mappagesFrom (fuel + 1) root va last pa w u s = (some true, (walkPage root va s).2) :=
  (if_pos h).trans (if_pos hnull)

lemma mappagesFrom_next (h : va ≤ last) (hne : (walkPage root va s).1 ≠ 0) :
    mappagesFrom (fuel + 1) root va last pa w u s =
      mappagesFrom fuel root ((va + pgsize) % 2 ^ 64) last ((pa + pgsize) % 2 ^ 64) w u
        (fillPte (walkPage root va s).1 pa w u (walkPage root va s).2) :=
  (if_pos h).trans (if_neg hne)

lemma fillPte_extends {pte : Nat} : Extends s (fillPte pte pa w u s) := ⟨fun _ he => he, Or.inl⟩

lemma mappagesFrom_extends (fuel : Nat) : Extends s (mappagesFrom fuel root va last pa w u s).2 := by
  induction fuel generalizing va pa s with
  | zero => exact .refl s
  | succ fuel ih =>
    rcases Nat.lt_or_ge last va with hstop | hle
    · rw [mappagesFrom_stop hstop]
      exact .refl s
    · by_cases hnull : (walkPage root va s).1 = 0
      · rw [mappagesFrom_null hle hnull]
        exact walkPage_extends
      · rw [mappagesFrom_next hle hnull]
        exact (walkPage_extends.trans fillPte_extends).trans ih

/-- With more fuel the loop logs what it logged before, and more. -/
lemma mappagesFrom_more (fuel k : Nat) : ∀ e ∈ (mappagesFrom fuel root va last pa w u s).2.log,
    e ∈ (mappagesFrom (fuel + k) root va last pa w u s).2.log := by
  induction fuel generalizing va pa s with
  | zero => exact (mappagesFrom_extends _).log
  | succ fuel ih =>
    rw [Nat.succ_add]
    rcases Nat.lt_or_ge last va with hstop | hle
    · rw [mappagesFrom_stop hstop, mappagesFrom_stop hstop]
      exact fun _ he => he
    · by_cases hnull : (walkPage root va s).1 = 0
      · rw [mappagesFrom_null hle hnull, mappagesFrom_null hle hnull]
        exact fun _ he => he
      · rw [mappagesFrom_next hle hnull, mappagesFrom_next hle hnull]
        exact ih

/-- A call that returns does so with more fuel as well. -/
lemma mappagesFrom_returns {b : Bool} {s' : VmmState} (h : mappagesFrom fuel root va last pa w u s = (some b, s'))
    (k : Nat) : mappagesFrom (fuel + k) root va last pa w u s = (some b, s') := by
  induction fuel generalizing va pa s with
  | zero => cases h
  | succ fuel ih =>
    rw [Nat.succ_add]
    rcases Nat.lt_or_ge last va with hstop | hle
    · rw [mappagesFrom_stop hstop] at h ⊢
      exact h
    · by_cases hnull : (walkPage root va s).1 = 0
      · rw [mappagesFrom_null hle hnull] at h ⊢
        exact h
      · rw [mappagesFrom_next hle hnull] at h ⊢
        exact ih h

end Loop

section Pages

/-- The `m` pages from `va` on. -/
def pagesFrom : (va m : Nat) → List Nat
  | _, 0 => []
  | va, m + 1 => va :: pagesFrom (va + pgsize) m

/-- The page at `p` meets `[va, va + size)`. -/
def Meets (va size p : Nat) : Prop :=
  pgsize ∣ p ∧ ∃ a, va ≤ a ∧ a < va + size ∧ p ≤ a ∧ a < p + pgsize

/-- How many pages meet the range. -/
def pagesIn (va size : Nat) : Nat := if size = 0 then 0 else (va % pgsize + size + 4095) / 4096

variable {va size m p : Nat}

lemma mem_pagesFrom : p ∈ pagesFrom va m ↔ ∃ k < m, p = va + pgsize * k := by
  induction m generalizing va with
  | zero => simp [pagesFrom]
  | succ m ih =>
    rw [pagesFrom, List.mem_cons, ih]
    constructor
    · rintro (rfl | ⟨k, hk, rfl⟩)
      · exact ⟨0, Nat.succ_pos m, rfl⟩
      · exact ⟨k + 1, Nat.succ_lt_succ hk, by ring⟩
    · rintro ⟨k, hk, rfl⟩
      cases k with
      | zero => exact Or.inl rfl
      | succ k => exact Or.inr ⟨k, Nat.lt_of_succ_lt_succ hk, by ring⟩

lemma nodup_pagesFrom (va m : Nat) : (pagesFrom va m).Nodup := by
  induction m generalizing va with
  | zero => exact List.nodup_nil
  | succ m ih =>
    refine List.nodup_cons.mpr ⟨fun hmem => ?_, ih _⟩
    obtain ⟨k, -, hk⟩ := mem_pagesFrom.mp hmem
    unfold pgsize at hk
    omega

lemma mem_pagesFrom_iff_meets : p ∈ pagesFrom (pgRoundDown va) (pagesIn va size) ↔ Meets va size p := by
  rw [mem_pagesFrom]
  constructor
  · rintro ⟨k, hk, rfl⟩
    rw [pagesIn] at hk
    split at hk
    · cases hk
    · refine ⟨⟨va / 4096 + k, by unfold pgRoundDown pgsize; ring⟩, max va (pgRoundDown va + pgsize * k), ?_⟩
      unfold pgRoundDown pgsize at *
      omega
  · rintro ⟨⟨k, rfl⟩, a, hva, ha, hpa, hap⟩
    refine ⟨k - va / 4096, ?_, ?_⟩
    · rw [pagesIn, if_neg (by omega)]
      unfold pgsize at *
      omega
    · unfold pgRoundDown pgsize at *
      omega

end Pages

/-- No walk of the call comes to a null table: `pmm_alloc` does not run out, and no present entry leads to
address 0. -/
def Supplied (root va size pa w u : Nat) (s : PmmState) : Prop :=
  ∀ fuel, (mappages fuel root va size pa w u ⟨s, []⟩).2.indexedNull = false

/-- The loop ends with 0 after one visit to each page that meets the range, and to no other. -/
def VisitsRange (root va size pa w u : Nat) (s : PmmState) : Prop :=
  ∃ s', (∃ n, ∀ fuel, n < fuel → mappages fuel root va size pa w u ⟨s, []⟩ = (some false, s')) ∧
    s'.visits.Nodup ∧ ∀ p, p ∈ s'.visits ↔ Meets va size p

/-- The ranges whose loop ends where it should. -/
def LoopEnds (va size : Nat) : Prop :=
  0 < size ∧ va + size ≤ 2 ^ 64 - pgsize ∨ size = 0 ∧ va % pgsize = 0 ∧ va ≠ 0

section Visits

variable {root va size pa w u last m fuel : Nat} {s : PmmState} {s₀ : VmmState}

/-- The rounds up to a last page that is not the top page. -/
lemma mappagesFrom_visits (hlast : last + pgsize = va + pgsize * m) (htop : last + pgsize < 2 ^ 64)
    (h : ∀ fuel, (mappagesFrom fuel root va last pa w u s₀).2.indexedNull = false) :
    ∃ s', (∀ fuel, m < fuel → mappagesFrom fuel root va last pa w u s₀ = (some false, s')) ∧
      s'.visits = (pagesFrom va m).reverse ++ s₀.visits := by
  induction m generalizing va pa s₀ with
  | zero =>
    refine ⟨s₀, fun fuel hf => ?_, rfl⟩
    obtain ⟨k, rfl⟩ := Nat.exists_eq_add_of_lt hf
    apply mappagesFrom_stop
    unfold pgsize at hlast
    omega
  | succ m ih =>
    have hle : va ≤ last := by
      unfold pgsize at hlast
      omega
    have hfound : (walkPage root va s₀).1 ≠ 0 := by
      intro hnull
      have hone := h 1
      rw [mappagesFrom_null hle hnull] at hone
      exact absurd (walkPage_null hnull) (Bool.eq_false_iff.mp hone)
    have hva : (va + pgsize) % 2 ^ 64 = va + pgsize := Nat.mod_eq_of_lt (by omega)
    have hrest : ∀ fuel, (mappagesFrom fuel root (va + pgsize) last ((pa + pgsize) % 2 ^ 64) w u
        (fillPte (walkPage root va s₀).1 pa w u (walkPage root va s₀).2)).2.indexedNull = false := by
      intro fuel
      have hmore := h (fuel + 1)
      rwa [mappagesFrom_next hle hfound, hva] at hmore
    have hlast' : last + pgsize = va + pgsize + pgsize * m := by
      rw [hlast, Nat.mul_succ]
      omega
    obtain ⟨s', hrun, hvisits⟩ := ih hlast' hrest
    refine ⟨s', fun fuel hf => ?_, ?_⟩
    · obtain ⟨k, rfl⟩ := Nat.exists_eq_add_of_lt hf
      have hone : m + 1 + k + 1 = (m + k + 1) + 1 := by omega
      rw [hone, mappagesFrom_next hle hfound, hva]
      exact hrun _ (by omega)
    · have hpage : (fillPte (walkPage root va s₀).1 pa w u (walkPage root va s₀).2).visits = va :: s₀.visits :=
        walkPage_visits
      rw [hvisits, hpage, pagesFrom, List.reverse_cons, List.append_assoc, List.singleton_append]

/-- A loop that is to go up to the top page never ends with 0: the pointer wraps. -/
lemma mappagesFrom_top (fuel : Nat) (hva : va < 2 ^ 64) (hpage : pgsize ∣ va) :
    (mappagesFrom fuel root va (2 ^ 64 - pgsize) pa w u s₀).1 ≠ some false := by
  induction fuel generalizing va pa s₀ with
  | zero => exact fun h => by cases h
  | succ fuel ih =>
    have hle : va ≤ 2 ^ 64 - pgsize := by
      obtain ⟨k, rfl⟩ := hpage
      unfold pgsize at *
      omega
    by_cases hnull : (walkPage root va s₀).1 = 0
    · rw [mappagesFrom_null hle hnull]
      exact fun h => by cases h
    · rw [mappagesFrom_next hle hnull]
      apply ih (Nat.mod_lt _ (by decide))
      obtain ⟨k, rfl⟩ := hpage
      unfold pgsize
      omega

lemma not_visitsRange_of_top (hva : va < 2 ^ 64) (htop : lastPage va size = 2 ^ 64 - pgsize) :
    ¬VisitsRange root va size pa w u s := by
  rintro ⟨s', ⟨n, hrun⟩, -, -⟩
  have hresult : mappagesFrom (n + 1) root (pgRoundDown va) (lastPage va size) pa w u ⟨s, []⟩ = (some false, s') :=
    hrun (n + 1) (Nat.lt_succ_self n)
  rw [htop] at hresult
  refine mappagesFrom_top (n + 1) ?_ (Nat.dvd_mul_left _ _) (congrArg Prod.fst hresult)
  unfold pgsize
  omega

/-- An empty range whose start does not lie behind its last page: the page of its start is visited. -/
lemma not_visitsRange_of_empty (hle : pgRoundDown va ≤ lastPage va 0) :
    ¬VisitsRange root va 0 pa w u s := by
  rintro ⟨s', ⟨n, hrun⟩, -, hmem⟩
  have hresult : mappagesFrom (n + 1) root (pgRoundDown va) (lastPage va 0) pa w u ⟨s, []⟩ = (some false, s') :=
    hrun (n + 1) (Nat.lt_succ_self n)
  have hlogged : MapEvent.visited (pgRoundDown va) ∈ s'.log := by
    have hfirst : MapEvent.visited (pgRoundDown va) ∈ (walkPage root (pgRoundDown va) ⟨s, []⟩).2.log :=
      getaddrpte_walks.log _ List.mem_cons_self
    by_cases hnull : (walkPage root (pgRoundDown va) ⟨s, []⟩).1 = 0
    · rw [mappagesFrom_null hle hnull] at hresult
      cases hresult
    · rw [mappagesFrom_next hle hnull] at hresult
      have hend : _ = s' := congrArg Prod.snd hresult
      rw [← hend]
      exact (mappagesFrom_extends n).log _ (fillPte_extends.log _ hfirst)
  have hvisit : pgRoundDown va ∈ s'.visits := List.mem_filterMap.mpr ⟨_, hlogged, rfl⟩
  obtain ⟨-, a, hge, hlt, -⟩ := (hmem _).mp hvisit
  omega

lemma LoopEnds.lastPage_eq (h : LoopEnds va size) (hva : va < 2 ^ 64) (hhigh : va + size ≤ 2 ^ 64) :
    lastPage va size + pgsize = pgRoundDown va + pgsize * pagesIn va size ∧ lastPage va size + pgsize < 2 ^ 64 := by
  rcases h with ⟨hpos, htop⟩ | ⟨rfl, halign, hne⟩
  · rw [pagesIn, if_neg (by omega)]
    unfold lastPage pgRoundDown pgsize at *
    omega
  · rw [pagesIn, if_pos rfl]
    unfold lastPage pgRoundDown pgsize at *
    omega

end Visits

section FreePages

/-- `n + 1` free pages of the physical-map window in a memory that is zero otherwise. -/
def freePages (n : Nat) : PmmState where
  mem := fun a => if (vaPmapBegin + 2 ^ 20 ≤ a ∧ a < vaPmapBegin + 2 ^ 20 + n * pgsize) ∧ a % pgsize = 0
    then a + pgsize else 0
  freelist := vaPmapBegin + 2 ^ 20

/-- An empty root table below them. -/
def emptyRoot : Nat := vaPmapBegin + 0x80000

variable {root va size pa w u n : Nat} {s : PmmState} {b : Bool}

lemma mappages_returns {s₀ : VmmState} (h : (mappages n root va size pa w u s₀).1 = some b) (k : Nat) :
    mappages (n + k) root va size pa w u s₀ = (some b, (mappages n root va size pa w u s₀).2) :=
  mappagesFrom_returns (Prod.ext h rfl) k

/-- A call that returns is supplied if it has been so far. -/
lemma supplied_of_returns (h : (mappages n root va size pa w u ⟨s, []⟩).1 = some b)
    (hnull : (mappages n root va size pa w u ⟨s, []⟩).2.indexedNull = false) : Supplied root va size pa w u s := by
  intro fuel
  rw [Bool.eq_false_iff] at hnull ⊢
  refine fun hfuel => hnull ?_
  obtain ⟨i, hi⟩ := indexedNull_iff.mp hfuel
  have hmore : MapEvent.indexed 0 i ∈ (mappages (fuel + n) root va size pa w u ⟨s, []⟩).2.log :=
    mappagesFrom_more fuel n _ hi
  rw [Nat.add_comm, mappages_returns h] at hmore
  exact indexedNull_iff.mpr ⟨i, hmore⟩

end FreePages

end JavaScriptOS.Memory
