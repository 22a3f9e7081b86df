import JavaScriptOS.Lib.Chain
import Mathlib.Logic.Function.Basic
import Mathlib.Tactic.Linarith

/-!
# The physical page allocator

Free pages are threaded through their own first word. The kernel's memory is a map from
addresses to 64-bit words; all addresses are virtual addresses below `2 ^ 64` and `0` is the
null pointer.
-/

namespace JavaScriptOS.Memory
open JavaScriptOS.Lib

/-- `PGSIZE`. -/
def pgsize : Nat := 4096

/-- `PGROUNDUP`, in 64-bit arithmetic. -/
def pgRoundUp (a : Nat) : Nat := (a + pgsize - 1) % 2 ^ 64 / pgsize * pgsize

/-- The kernel's words and `kmem.freelist`. -/
structure PmmState where
  mem : Nat → Nat
  freelist : Nat

/-- `pmm_free`: the page's first word becomes the link to the old list. -/
def pmmFree (va : Nat) (s : PmmState) : PmmState :=
  { mem := Function.update s.mem va s.freelist, freelist := va }

/-- `pmm_alloc`: the head of the list, or null. -/
def pmmAlloc (s : PmmState) : Nat × PmmState :=
  let node := s.freelist
  if node ≠ 0 then (node, { s with freelist := s.mem node }) else (node, s)

/-- The loop of `pmm_free_range` from page `p`, for at most `fuel` tests of its condition. -/
def pmmFreePages : Nat → Nat → Nat → PmmState → Option PmmState
  | 0, _, _, _ => none
  | fuel + 1, p, vend, s =>
    if (p + pgsize) % 2 ^ 64 ≤ vend then
      pmmFreePages fuel ((p + pgsize) % 2 ^ 64) vend (pmmFree p s)
    else some s

def pmmFreeRange (fuel vstart vend : Nat) (s : PmmState) : Option PmmState :=
  pmmFreePages fuel (pgRoundUp vstart) vend s

/-- The page-aligned addresses whose page lies in `[vstart, vend)`. -/
def IsPageOf (vstart vend p : Nat) : Prop := pgsize ∣ p ∧ vstart ≤ p ∧ p + pgsize ≤ vend

instance (vstart vend p : Nat) : Decidable (IsPageOf vstart vend p) :=
  inferInstanceAs (Decidable (_ ∧ _))

/-- The allocator and the pages its clients hold, the latest first. -/
structure PmmRun where
  pmm : PmmState
  held : List Nat

inductive PmmCall where
  | alloc
  | free (p : Nat)
  | write (p : Nat) (data : Nat → Nat)

/-- Clients free and write only pages they hold. -/
def PmmCall.Allowed (r : PmmRun) : PmmCall → Prop
  | .alloc => True
  | .free p => p ∈ r.held
  | .write p _ => p ∈ r.held

def overwritePage (mem : Nat → Nat) (p : Nat) (data : Nat → Nat) : Nat → Nat :=
  fun a => if p ≤ a ∧ a < p + pgsize then data a else mem a

def PmmRun.step (r : PmmRun) : PmmCall → PmmRun
  | .alloc =>
    let (node, pmm) := pmmAlloc r.pmm
    { pmm := pmm, held := if node ≠ 0 then node :: r.held else r.held }
  | .free p => { pmm := pmmFree p r.pmm, held := r.held.erase p }
  | .write p data => { r with pmm := { r.pmm with mem := overwritePage r.pmm.mem p data } }

/-- States reached from `r` by calls each allowed in the state it is made in. -/
inductive PmmReach (r : PmmRun) : PmmRun → Prop
  | refl : PmmReach r r
  | step {r' : PmmRun} (c : PmmCall) : PmmReach r r' → c.Allowed r' → PmmReach r (r'.step c)

/-- Free and held pages are disjoint, duplicate-free and together the pages of `P`, and
`pmm_alloc` returns null exactly when every page of `P` is held. -/
def Conserves (P : Nat → Prop) (r : PmmRun) : Prop :=
  ∃ free, Chain r.pmm.mem 0 r.pmm.freelist free ∧ (free ++ r.held).Nodup ∧
    (∀ p, p ∈ free ++ r.held ↔ P p) ∧
    ((pmmAlloc r.pmm).1 = 0 ↔ ∀ p, P p → p ∈ r.held)

lemma pmmAlloc_fst (s : PmmState) : (pmmAlloc s).1 = s.freelist := by
  unfold pmmAlloc
  dsimp only
  split <;> rfl

/-- The list part of the invariant decides when the allocator is exhausted. -/
lemma conserves_of_chain {P : Nat → Prop} {r : PmmRun} {free : List Nat}
    (hc : Chain r.pmm.mem 0 r.pmm.freelist free) (hn : (free ++ r.held).Nodup)
    (hm : ∀ p, p ∈ free ++ r.held ↔ P p) : Conserves P r := by
  refine ⟨free, hc, hn, hm, ?_⟩
  rw [pmmAlloc_fst, ← hc.eq_nil_iff]
  constructor
  · rintro rfl p hp
    simpa using (hm p).mpr hp
  · intro hall
    by_contra hne
    obtain ⟨p, rest, rfl⟩ := List.exists_cons_of_ne_nil hne
    have hp := hall p ((hm p).mp (by simp))
    exact (List.nodup_cons.mp hn).1 (by simp [hp])

lemma page_words_disjoint {p q : Nat} (hp : pgsize ∣ p) (hq : pgsize ∣ q) (hne : p ≠ q) :
    ¬(p ≤ q ∧ q < p + pgsize) := by
  obtain ⟨a, rfl⟩ := hp
  obtain ⟨b, rfl⟩ := hq
  unfold pgsize at *
  omega

lemma pmmFree_chain {s : PmmState} {free : List Nat} {p : Nat} (hp0 : p ≠ 0) (hp : p ∉ free)
    (hc : Chain s.mem 0 s.freelist free) :
    Chain (pmmFree p s).mem 0 (pmmFree p s).freelist (p :: free) := by
  have hlink : Chain (Function.update s.mem p s.freelist) 0 s.freelist free := by
    apply hc.frame
    intro q hq
    have hne : q ≠ p := fun hqp => hp (hqp ▸ hq)
    exact Function.update_of_ne hne _ _
  apply Chain.cons hp0
  simpa [pmmFree] using hlink

/-- One call keeps the pages: each of the three calls moves or leaves a page and touches the
first word of no other free page. -/
lemma Conserves.step {P : Nat → Prop} (hP : ∀ p, P p → pgsize ∣ p ∧ p ≠ 0) {r : PmmRun}
    (h : Conserves P r) (c : PmmCall) (hc : c.Allowed r) : Conserves P (r.step c) := by
  obtain ⟨free, hchain, hn, hm, -⟩ := h
  have hP' : ∀ p, p ∈ free ++ r.held → pgsize ∣ p ∧ p ≠ 0 := fun p hp => hP p ((hm p).mp hp)
  cases c with
  | alloc =>
    rcases hchain.inv with ⟨hz, rfl⟩ | ⟨hnz, rest, rfl, hrest⟩
    · have hstep : r.step .alloc = r := by
        unfold PmmRun.step pmmAlloc
        simp [hz]
      rw [hstep]
      exact conserves_of_chain hchain hn hm
    · have hstep : r.step .alloc =
          ⟨⟨r.pmm.mem, r.pmm.mem r.pmm.freelist⟩, r.pmm.freelist :: r.held⟩ := by
        unfold PmmRun.step pmmAlloc
        simp [hnz]
      have hperm : (rest ++ r.pmm.freelist :: r.held).Perm (r.pmm.freelist :: rest ++ r.held) :=
        List.perm_middle
      rw [hstep]
      exact conserves_of_chain hrest (hperm.nodup_iff.mpr hn) (fun p => hperm.mem_iff.trans (hm p))
  | free p =>
    have hp : p ∈ r.held := hc
    obtain ⟨-, hp0⟩ := hP' p (by simp [hp])
    have hpf : p ∉ free := fun hf => (List.nodup_append.mp hn).2.2 p hf p hp rfl
    have hperm : (p :: free ++ r.held.erase p).Perm (free ++ r.held) :=
      List.perm_middle.symm.trans ((List.perm_cons_erase hp).symm.append_left free)
    exact conserves_of_chain (pmmFree_chain hp0 hpf hchain) (hperm.nodup_iff.mpr hn)
      fun q => hperm.mem_iff.trans (hm q)
  | write p data =>
    have hp : p ∈ r.held := hc
    have hkeep : Chain (overwritePage r.pmm.mem p data) 0 r.pmm.freelist free := by
      apply hchain.frame
      intro q hq
      have hne : p ≠ q := fun hpq => (List.nodup_append.mp hn).2.2 q hq p hp hpq.symm
      exact if_neg (page_words_disjoint (hP' p (by simp [hp])).1 (hP' q (by simp [hq])).1 hne)
    exact conserves_of_chain hkeep hn hm

lemma Conserves.reach {P : Nat → Prop} (hP : ∀ p, P p → pgsize ∣ p ∧ p ≠ 0) {r r' : PmmRun}
    (h : Conserves P r) (hr : PmmReach r r') : Conserves P r' := by
  induction hr with
  | refl => exact h
  | step c _ hc ih => exact ih.step hP c hc

section FreeRange

variable {n p q vstart vend : Nat} {s : PmmState} {free : List Nat}

lemma isPageOf_cons (hp : pgsize ∣ p) (hmore : p + pgsize ≤ vend) :
    IsPageOf p vend q ↔ q = p ∨ IsPageOf (p + pgsize) vend q := by
  unfold IsPageOf pgsize at *
  constructor
  · rintro ⟨hd, hq, hq'⟩
    by_cases hqp : q = p
    · exact Or.inl hqp
    · exact Or.inr ⟨hd, by omega, hq'⟩
  · rintro (rfl | ⟨hd, hq, hq'⟩)
    · exact ⟨hp, le_refl _, hmore⟩
    · exact ⟨hd, by omega, hq'⟩

lemma not_isPageOf (hend : vend < p + pgsize) : ¬IsPageOf p vend q := by
  rintro ⟨-, hq, hq'⟩
  omega

/-- Rounding the start up loses no page. -/
lemma isPageOf_pgRoundUp (hstart : vstart ≤ 2 ^ 64 - 8192) :
    IsPageOf (pgRoundUp vstart) vend p ↔ IsPageOf vstart vend p := by
  unfold IsPageOf pgRoundUp pgsize
  rw [Nat.mod_eq_of_lt (by omega)]
  constructor
  · rintro ⟨hd, h, h'⟩
    exact ⟨hd, by omega, h'⟩
  · rintro ⟨hd, h, h'⟩
    exact ⟨hd, by omega, h'⟩

/-- After more than `n` tests the loop from `p` has ended, with the pages from `p` on in front of
the old list. -/
def PagesPushed (n p vend : Nat) (s : PmmState) (free : List Nat) : Prop :=
  ∃ s' new, (∀ fuel, n < fuel → pmmFreePages fuel p vend s = some s') ∧
    Chain s'.mem 0 s'.freelist (new ++ free) ∧ new.Nodup ∧ ∀ q, q ∈ new ↔ IsPageOf p vend q

lemma pagesPushed_stop (n : Nat) (htop : p + pgsize < 2 ^ 64) (hend : vend < p + pgsize)
    (hc : Chain s.mem 0 s.freelist free) : PagesPushed n p vend s free := by
  refine ⟨s, [], fun fuel hf => ?_, hc, List.nodup_nil, fun q => ?_⟩
  · obtain ⟨k, rfl⟩ : ∃ k, fuel = k + 1 := ⟨fuel - 1, by omega⟩
    rw [pmmFreePages, Nat.mod_eq_of_lt htop, if_neg (by omega)]
  · simp [not_isPageOf hend]

lemma PagesPushed.cons (hp : pgsize ∣ p) (htop : p + pgsize < 2 ^ 64) (hmore : p + pgsize ≤ vend)
    (h : PagesPushed n (p + pgsize) vend (pmmFree p s) (p :: free)) :
    PagesPushed (n + 1) p vend s free := by
  obtain ⟨s', new, hrun, hc, hnodup, hmem⟩ := h
  refine ⟨s', new ++ [p], fun fuel hf => ?_, ?_, ?_, fun q => ?_⟩
  · obtain ⟨k, rfl⟩ : ∃ k, fuel = k + 1 := ⟨fuel - 1, by omega⟩
    rw [pmmFreePages, Nat.mod_eq_of_lt htop, if_pos hmore]
    exact hrun k (by omega)
  · rw [List.append_assoc, List.singleton_append]
    exact hc
  · have hnot : p ∉ new := by
      intro hin
      have := ((hmem p).mp hin).2.1
      unfold pgsize at this
      omega
    exact List.nodup_append.mpr ⟨hnodup, List.nodup_singleton p, fun q hq r hr hqr =>
      hnot (by rwa [hqr, List.mem_singleton.mp hr] at hq)⟩
  · rw [List.mem_append, List.mem_singleton, hmem q, isPageOf_cons hp hmore, or_comm]

/-- The loop of `pmm_free_range` below the top page, over pages that are not null and not yet free. -/
lemma pmmFreePages_run (n p vend : Nat) (s : PmmState) (free : List Nat)
    (hvend : vend < 2 ^ 64 - 4096) (hp : pgsize ∣ p) (htop : p + pgsize < 2 ^ 64)
    (hn : vend < p + 4096 * (n + 1)) (hc : Chain s.mem 0 s.freelist free)
    (hfresh : ∀ q ∈ 0 :: free, ¬IsPageOf p vend q) : PagesPushed n p vend s free := by
  induction n generalizing p s free with
  | zero =>
    apply pagesPushed_stop 0 htop _ hc
    unfold pgsize
    omega
  | succ n ih =>
    by_cases hmore : p + pgsize ≤ vend
    · have hpf : p ∉ 0 :: free := fun hf => hfresh p hf ⟨hp, le_refl _, hmore⟩
      have hp0 : p ≠ 0 := fun h0 => hpf (h0 ▸ List.mem_cons_self ..)
      have hchain := pmmFree_chain hp0 (fun hf => hpf (List.mem_cons_of_mem _ hf)) hc
      have hfresh' : ∀ q ∈ 0 :: p :: free, ¬IsPageOf (p + pgsize) vend q := by
        intro q hq hpage
        have hne : q ≠ p := by
          have := hpage.2.1
          unfold pgsize at this
          omega
        have hold : q ∈ 0 :: free := by simpa [hne] using hq
        exact hfresh q hold ((isPageOf_cons hp hmore).mpr (Or.inr hpage))
      apply PagesPushed.cons hp htop hmore
      unfold pgsize at hp htop hmore hchain hfresh' ⊢
      exact ih (p + 4096) (pmmFree p s) (p :: free) (by unfold pgsize; omega) (by unfold pgsize; omega)
        (by linarith only [hn]) hchain hfresh'
    · exact pagesPushed_stop _ htop (by omega) hc

/-- `pmm_free_range` for a start below the last two pages. -/
lemma pmmFreeRange_run (hstart : vstart ≤ 2 ^ 64 - 8192) (hend : vend < 2 ^ 64 - 4096)
    (hc : Chain s.mem 0 s.freelist free) (hfresh : ∀ q ∈ 0 :: free, ¬IsPageOf vstart vend q) :
    ∃ s' new, (∃ n, ∀ fuel, n < fuel → pmmFreeRange fuel vstart vend s = some s') ∧
      Chain s'.mem 0 s'.freelist (new ++ free) ∧ new.Nodup ∧ ∀ q, q ∈ new ↔ IsPageOf vstart vend q := by
  have hround : pgRoundUp vstart = (vstart + 4095) / 4096 * 4096 := by
    unfold pgRoundUp pgsize
    rw [Nat.mod_eq_of_lt (by omega)]
    rfl
  have hpushed : PagesPushed (vend / 4096) (pgRoundUp vstart) vend s free := by
    refine pmmFreePages_run _ _ _ s free hend ?_ ?_ (by omega) hc fun q hq => ?_
    · rw [hround]
      exact Nat.dvd_mul_left _ _
    · unfold pgsize
      omega
    · rw [isPageOf_pgRoundUp hstart]
      exact hfresh q hq
  obtain ⟨s', new, hrun, hc', hnodup, hmem⟩ := hpushed
  exact ⟨s', new, ⟨vend / 4096, hrun⟩, hc', hnodup, fun q => (hmem q).trans (isPageOf_pgRoundUp hstart)⟩

end FreeRange

/-- From an empty free list, `pmm_free_range` ends, and every state its clients can reach from
there conserves the pages of the range. -/
def RangeConserved (vstart vend : Nat) : Prop :=
  ∀ mem, ∃ s, (∃ n, ∀ fuel, n < fuel → pmmFreeRange fuel vstart vend ⟨mem, 0⟩ = some s) ∧
    ∀ r, PmmReach ⟨s, []⟩ r → Conserves (IsPageOf vstart vend) r

/-- Conservation for every range that avoids the null page and the last two pages of the
address space. -/
theorem pmm_conserves_range (vstart vend : Nat) (h0 : 0 < vstart) (hstart : vstart ≤ 2 ^ 64 - 8192)
    (hend : vend < 2 ^ 64 - 4096) : RangeConserved vstart vend := by
  intro mem
  have hpos : ∀ q, IsPageOf vstart vend q → q ≠ 0 := by
    intro q hq
    have := hq.2.1
    omega
  obtain ⟨s, free, hrun, hc, hnodup, hmem⟩ := pmmFreeRange_run (s := ⟨mem, 0⟩) hstart hend Chain.nil
    (fun q hq hpage => hpos q hpage (List.mem_singleton.mp hq))
  rw [List.append_nil] at hc
  refine ⟨s, hrun, fun r hr => ?_⟩
  have hinit : Conserves (IsPageOf vstart vend) ⟨s, []⟩ := by
    apply conserves_of_chain hc
    · simpa using hnodup
    · intro q
      rw [List.append_nil, hmem q]
  exact hinit.reach (fun q hq => ⟨hq.1, hpos q hq⟩) hr

theorem pmm_conserves_four_pages : 0 < 4096 ∧ RangeConserved 4096 20480 :=
  ⟨by decide, pmm_conserves_range 4096 20480 (by decide) (by decide) (by decide)⟩

/-- The page at address 0 is indistinguishable from the end of the list, and the end test of
the loop wraps on the top page: neither range is conserved. -/
theorem pmm_not_conserved : ¬RangeConserved 0 4096 ∧ ¬RangeConserved (2 ^ 64 - 4096) 0 := by
  refine ⟨fun h => ?_, fun h => ?_⟩
  · obtain ⟨s, ⟨n, hrun⟩, hall⟩ := h (fun _ => 0)
    have hs : some (pmmFree 0 ⟨fun _ => 0, 0⟩) = some s := hrun (n + 2) (by omega)
    cases hs
    obtain ⟨free, hc, -, hm, -⟩ := hall _ PmmReach.refl
    have hpage : IsPageOf 0 4096 0 := by decide
    have hin : (0 : Nat) ∈ free := by simpa using (hm 0).mpr hpage
    exact hc.ne_stop 0 hin rfl
  · obtain ⟨s, ⟨n, hrun⟩, hall⟩ := h (fun _ => 0)
    have hs : some (pmmFree (2 ^ 64 - 4096) ⟨fun _ => 0, 0⟩) = some s := hrun (n + 2) (by omega)
    cases hs
    obtain ⟨free, hc, -, hm, -⟩ := hall _ PmmReach.refl
    rcases hc.inv with ⟨hz, -⟩ | ⟨-, rest, rfl, -⟩
    · exact absurd hz (by decide)
    · have hpage : IsPageOf (2 ^ 64 - 4096) 0 (2 ^ 64 - 4096) := (hm _).mp (by simp [pmmFree])
      exact absurd hpage.2.2 (by decide)

end JavaScriptOS.Memory
