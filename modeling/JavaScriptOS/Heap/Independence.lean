import JavaScriptOS.Heap.Data
import JavaScriptOS.Heap.Runs
import JavaScriptOS.Heap.Walk

/-!
# Payloads and the allocator's data

Two runs make the same calls while their clients store different bytes. A freed block's first
payload word becomes its `prev` unless it is merged to the left, so the runs stay alike only if
they agree on that word.
-/

namespace JavaScriptOS.Heap
open JavaScriptOS.Lib

section Pairs

/-- A call made by both runs, or a client's write in one of them. -/
inductive PairCall where
  | both (c : HeapCall)
  | left (x v : Nat)
  | right (x v : Nat)

def pairStep (addr : Nat) : HeapRun × HeapRun → PairCall → Except HeapFault (HeapRun × HeapRun)
  | (r, r'), .both c => do return (← r.step addr c, ← r'.step addr c)
  | (r, r'), .left x v => do return (← r.step addr (.write x v), r')
  | (r, r'), .right x v => do return (r, ← r'.step addr (.write x v))

abbrev PairReach (addr : Nat) (Ok : HeapRun × HeapRun → PairCall → Prop) : HeapRun × HeapRun → Prop :=
  Reach (fun p => Booted p.1 ∧ Booted p.2) (pairStep addr) Ok

/-- The runs have returned the same and have the same free extents. -/
def SameOutcome (r r' : HeapRun) : Prop :=
  r.returned = r'.returned ∧ freeExtents r.heap.kmem = freeExtents r'.heap.kmem

/-- Both runs free what they hold, and write into what they hold. -/
def QuietPair : HeapRun × HeapRun → PairCall → Prop
  | (r, r'), .both c => Quiet r c ∧ Quiet r' c
  | (r, _), .left x _ => InPayload r.live x
  | (_, r'), .right x _ => InPayload r'.live x

/-- A call that is in order in the first run, and in which the second run cannot differ. -/
def CallAlike (r r' : HeapRun) (c : HeapCall) : Prop :=
  CallOk r c ∧ match c with
    | .kmalloc n => SplitsWhole r.live n
    | .kfree a => (∀ b, ¬Gap r.live b a.start) → word16 r.heap.kmem a.ptr = word16 r'.heap.kmem a.ptr
    | .write _ _ => False

def AlikeOk : HeapRun × HeapRun → PairCall → Prop
  | (r, r'), .both c => CallAlike r r' c
  | (r, _), .left x _ => InPayload r.live x
  | (_, r'), .right x _ => InPayload r'.live x

/-- Two runs with the same layout, the same data in it and the same results. -/
structure Alike (r r' : HeapRun) (L : List Region) : Prop where
  heap : HeapInv r.heap.kmem r.live L
  heap' : HeapInv r'.heap.kmem r'.live L
  noSmall : NoSmall L
  live : r'.live = r.live
  returned : r'.returned = r.returned
  same : SameOn (DataByte 0 L) r.heap r'.heap

variable {need fuel cur b : Nat} {r r' : HeapRun} {L : List Region}

lemma Alike.sameOutcome (hA : Alike r r' L) : SameOutcome r r' := by
  refine ⟨hA.returned.symm, ?_⟩
  rw [hA.heap.layout.freeExtents_eq hA.noSmall, hA.heap'.layout.freeExtents_eq hA.noSmall]

/-- Header and links of a free block are the same in both runs. -/
lemma Alike.word_eq (hA : Alike r r' L) (hb : FreeStart r.live b) {off : Nat} (hoff : off ≤ 4) :
    word16 r.heap.kmem (b + off) = word16 r'.heap.kmem (b + off) := by
  obtain ⟨pre, size, post, rfl, rfl⟩ := hA.heap.freeStart_iff.mp hb
  exact hA.same.word_eq (dataByte_of_region (Or.inl ⟨by omega, by omega⟩))
    (dataByte_of_region (Or.inl ⟨by omega, by omega⟩))

/-- So is the header of block 0. -/
lemma Alike.word_zero (hA : Alike r r' L) : word16 r.heap.kmem 0 = word16 r'.heap.kmem 0 := by
  have hend := hA.heap.layout.extent_eq
  cases L with
  | nil => cases hend
  | cons s L =>
    have hsmall := hA.noSmall s (List.mem_cons_self ..)
    obtain ⟨size, kind⟩ := s
    have hbyte : ∀ x, x < 2 → DataByte 0 (⟨size, kind⟩ :: L) x := by
      intro x hx
      left
      cases kind with
      | free => exact Or.inl ⟨Nat.zero_le x, by omega⟩
      | used => exact ⟨Nat.zero_le x, by omega⟩
      | small => exact absurd rfl hsmall
    exact hA.same.word_eq (hbyte 0 (by decide)) (hbyte 1 (by decide))

lemma Alike.linksOk (hA : Alike r r' L) (hb : FreeStart r.live b) (hl : LinksOk r.heap.kmem r.live b) :
    LinksOk r'.heap.kmem r'.live b := by
  obtain ⟨hprev, hnext⟩ := hl
  rw [hA.word_eq hb (by decide)] at hprev hnext
  rw [hA.live]
  exact ⟨hprev, hnext⟩

/-- A search over a closed list reads headers and links of free blocks, and the header of block 0. -/
lemma Alike.findSuitable_eq (hA : Alike r r' L) (hc : ListClosed r.heap r.live need) (fuel : Nat)
    (hcur : cur = 0 ∨ FreeStart r.live cur) :
    findSuitable fuel r'.heap need cur = findSuitable fuel r.heap need cur := by
  induction fuel generalizing cur with
  | zero => rfl
  | succ fuel ih =>
    have hin : cur + 8 ≤ 65532 := by
      rcases hcur with rfl | hfree
      · decide
      · exact hA.heap.freeStart_end hfree
    have hheader : word16 r.heap.kmem cur = word16 r'.heap.kmem cur := by
      rcases hcur with rfl | hfree
      · exact hA.word_zero
      · exact hA.word_eq hfree (Nat.zero_le 4)
    have hread : ∀ h : Kheap, h.read cur = .ok (word16 h.kmem cur) := fun _ => read_ok (by omega)
    have hread' : ∀ h : Kheap, h.read (cur + 4) = .ok (word16 h.kmem (cur + 4)) := fun _ =>
      read_ok (by omega)
    rw [findSuitable, findSuitable]
    simp only [bind, Except.bind, hread, hread', hheader]
    by_cases hfit : need ≤ sizeBits (word16 r'.heap.kmem cur)
    · rw [if_pos hfit, if_pos hfit]
    · rw [if_neg hfit, if_neg hfit]
      by_cases h0 : cur = 0
      · rw [if_pos h0, if_pos h0]
      · have hfree := hcur.resolve_left h0
        rw [if_neg h0, if_neg h0, ← hA.word_eq hfree (Nat.le_refl 4)]
        exact ih (hc.next cur hfree)

end Pairs

section Kmalloc

variable {addr n size : Nat} {r r' : HeapRun} {L pre post : List Region} {h h' : Kheap}

/-- The runs stay alike when both unlink the same free region. -/
lemma Alike.unlinked (hA : Alike r r' (pre ++ ⟨size, .free⟩ :: post)) :
    SameOn (DataByte 0 (pre ++ ⟨size, .free⟩ :: post)) (unlinked r.heap (extent pre))
      (unlinked r'.heap (extent pre)) :=
  hA.same.unlinked fun _ h1 h2 => dataByte_of_region (Or.inl ⟨by omega, h2⟩)

/-- The header behind a free region, if there is one below the end of the heap. -/
lemma Alike.right_header (hA : Alike r r' (pre ++ ⟨size, .free⟩ :: post)) (hlt : extent pre + size < 65532) :
    ∀ x, extent pre + size ≤ x → x < extent pre + size + 2 → DataByte 0 (pre ++ ⟨size, .free⟩ :: post) x := by
  intro x h1 h2
  cases post with
  | nil =>
    have := hA.heap.layout.extent_eq
    rw [extent_append, extent_cons, extent_nil] at this
    dsimp only at this
    omega
  | cons s post =>
    have hfree := hA.heap.layout.right_not_free
    have hsmall := hA.noSmall s (List.mem_append_right _ (List.mem_cons_of_mem _ (List.mem_cons_self ..)))
    obtain ⟨ssize, kind⟩ := s
    rw [append_cons_eq]
    apply dataByte_of_region
    rw [extent_append, extent_cons, extent_nil, Nat.add_zero]
    cases kind with
    | free => exact absurd rfl hfree
    | used => exact ⟨h1, h2⟩
    | small => exact absurd rfl hsmall

lemma Alike.placed_split (hA : Alike r r' (pre ++ ⟨size, .free⟩ :: post)) (h4 : n % 4 = 0)
    (hle : n + 8 ≤ size)
    (hw : PlacedRight (unlinkedMem r.heap.kmem (extent pre)) h.kmem (extent pre) size n
      (blockIdx addr (unlinkedHead r.heap (extent pre))))
    (hw' : PlacedRight (unlinkedMem r'.heap.kmem (extent pre)) h'.kmem (extent pre) size n
      (blockIdx addr (unlinkedHead r'.heap (extent pre)))) {x : Nat} (hlt : x < 65532)
    (hx : DataByte 0 (pre ++ [⟨size - n, .free⟩, ⟨n, .used⟩] ++ post) x) : SameByte h.kmem h'.kmem x := by
  have hsize4 := hA.heap.layout.size_ok.1
  dsimp only at hsize4
  have hsame := hA.unlinked
  have hfree : ∀ y, extent pre ≤ y → y < extent pre + 6 →
      DataByte 0 (pre ++ ⟨size, .free⟩ :: post) y := fun y h1 h2 => dataByte_of_region (Or.inl ⟨h1, h2⟩)
  have hhead : unlinkedHead r'.heap (extent pre) = unlinkedHead r.heap (extent pre) := hsame.freelist
  rw [hhead] at hw'
  apply hw.sameByte hw'
  · exact hsame.word_eq (hfree _ (by omega) (by omega)) (hfree _ (by omega) (by omega))
  · intro hxq
    have hq : extent pre + size - n + n / 4 * 4 = extent pre + size := by omega
    rw [hq] at hxq ⊢
    have hright := hA.right_header (by omega)
    exact hsame.word_eq (hright _ (by omega) (by omega)) (hright _ (by omega) (by omega))
  · rcases hx.replace (extent_cut (show n ≤ size by omega) .free .used .free) with hold | hmid
    · rw [← append_cons_eq] at hold
      exact Or.inl (hsame.bytes x hold)
    · rcases hmid with (hx | hx) | hx | hx
      · by_cases hlink : extent pre + 2 ≤ x ∧ x < extent pre + 4
        · exact Or.inl (hsame.bytes x (hfree x (by omega) (by omega)))
        · omega
      · dsimp only at hx
        omega
      · have := hx.1
        have := hx.2
        dsimp only at *
        omega
      · exact hx.elim

lemma Alike.placed_whole (hA : Alike r r' (pre ++ ⟨size, .free⟩ :: post))
    (hw : PlacedWhole (unlinkedMem r.heap.kmem (extent pre)) h.kmem (extent pre) size)
    (hw' : PlacedWhole (unlinkedMem r'.heap.kmem (extent pre)) h'.kmem (extent pre) size) {x : Nat}
    (hlt : x < 65532) (hx : DataByte 0 (pre ++ [⟨size, .used⟩] ++ post) x) : SameByte h.kmem h'.kmem x := by
  have hsame := hA.unlinked
  apply hw.sameByte hw'
  · intro hxq
    have hright := hA.right_header (by omega)
    exact hsame.word_eq (hright _ (by omega) (by omega)) (hright _ (by omega) (by omega))
  · have hext : extent [(⟨size, .used⟩ : Region)] = extent [(⟨size, .free⟩ : Region)] := rfl
    rcases hx.replace hext with hold | hmid
    · rw [← append_cons_eq] at hold
      exact Or.inl (hsame.bytes x hold)
    · rcases hmid with hx | hx
      · exact Or.inr hx
      · exact hx.elim

/-- Both runs allocate the same block. -/
lemma Alike.placed {a a' : Nat} {L1 L1' : List Region} (hA : Alike r r' (pre ++ ⟨size, .free⟩ :: post))
    (hn : n = 6 ∨ (n % 4 = 0 ∧ 8 ≤ n)) (hlarge : n = 6 → size < 14)
    (hP : Placed addr r.heap h pre post size n a L1) (hP' : Placed addr r'.heap h' pre post size n a' L1')
    (hI : HeapInv h.kmem (⟨a + 2, sizeBits (word16 h.kmem a)⟩ :: r.live) L1)
    (hI' : HeapInv h'.kmem (⟨a' + 2, sizeBits (word16 h'.kmem a')⟩ :: r'.live) L1') :
    Alike ⟨h, ⟨a + 2, sizeBits (word16 h.kmem a)⟩ :: r.live, some (a + 2) :: r.returned⟩
      ⟨h', ⟨a' + 2, sizeBits (word16 h'.kmem a')⟩ :: r'.live, some (a' + 2) :: r'.returned⟩ L1 := by
  have hsmall := hA.noSmall
  rw [append_cons_eq] at hsmall
  cases hP with
  | split s hle hs hhead hw =>
    have hn6 : n ≠ 6 := fun h6 => by have := hlarge h6; omega
    have h4 := (hn.resolve_left hn6).1
    cases hs.resolve_right (fun hc => hn6 hc.1)
    cases hP' with
    | whole hlt _ _ => omega
    | split s' _ hs' hhead' hw' =>
      cases hs'.resolve_right (fun hc => hn6 hc.1)
      have hlive : word16 h'.kmem (extent pre + size - n) = word16 h.kmem (extent pre + size - n) := by
        rw [hw.allocated, hw'.allocated]
      refine ⟨hI, hI', hsmall.replace (by simp [NoSmall]), ?_, ?_, hhead'.trans hhead.symm, fun x hx => ?_⟩
      · dsimp only
        rw [hlive, hA.live]
      · dsimp only
        rw [hA.returned]
      · exact hA.placed_split h4 hle hw hw' (hI.layout.dataByte_lt hx) hx
  | whole hlt hhead hw =>
    cases hP' with
    | split _ hle _ _ _ => omega
    | whole _ hhead' hw' =>
      have hlive : word16 h'.kmem (extent pre) = word16 h.kmem (extent pre) := by
        rw [hw.header, hw'.header]
      refine ⟨hI, hI', hsmall.replace (by simp [NoSmall]), ?_, ?_, ?_, fun x hx => ?_⟩
      · dsimp only
        rw [hlive, hA.live]
      · dsimp only
        rw [hA.returned]
      · exact (hhead'.trans hA.unlinked.freelist).trans hhead.symm
      · exact hA.placed_whole hw hw' (hI.layout.dataByte_lt hx) hx

lemma Alike.returns_null (hA : Alike r r' L) :
    Alike { r with returned := none :: r.returned } { r' with returned := none :: r'.returned } L where
  heap := hA.heap
  heap' := hA.heap'
  noSmall := hA.noSmall
  live := hA.live
  returned := congrArg (none :: ·) hA.returned
  same := hA.same

/-- The two runs after a call, or both searches go round for ever. -/
inductive AlikeStep (addr : Nat) (r r' : HeapRun) (c : HeapCall) : Prop
  | diverges (run : r.step addr c = .error .diverges) (run' : r'.step addr c = .error .diverges)
  | runs (s s' : HeapRun) (L : List Region) (run : r.step addr c = .ok s) (run' : r'.step addr c = .ok s')
      (alike : Alike s s' L)

lemma Alike.kmalloc (addr : Nat) (hA : Alike r r' L) (hok : CallAlike r r' (.kmalloc n)) :
    AlikeStep addr r r' (.kmalloc n) := by
  obtain ⟨hcall, hlarge⟩ := hok
  by_cases hbad : n = 0 ∨ maxAlloc < n
  · exact .runs _ _ L (step_of_kmalloc_none (kmalloc_refused addr r.heap hbad))
      (step_of_kmalloc_none (kmalloc_refused addr r'.heap hbad)) hA.returns_null
  obtain ⟨hlisted, hc⟩ := hcall (by omega) (by omega)
  have hlarge := hlarge (by omega) (by omega)
  obtain ⟨head, hhead⟩ := Option.ne_none_iff_exists'.mp hlisted
  have hstart := hc.head head hhead
  have hin := hA.heap.freeStart_end hstart
  have hhead' := hA.same.freelist.trans hhead
  have hfind := hA.findSuitable_eq hc 65536 (hc.next head hstart)
  rw [hA.word_eq hstart (by decide)] at hfind
  rcases hc.search hA.heap 65536 (hc.next head hstart) with hdiv | hnone | ⟨b, hsome, hfit, hb, hl⟩
  · have hdiv' := hdiv
    rw [hA.word_eq hstart (by decide), ← hfind] at hdiv'
    exact .diverges (step_of_kmalloc_error (kmalloc_diverges addr hbad hhead (by omega) hdiv))
      (step_of_kmalloc_error (kmalloc_diverges addr hbad hhead' (by omega) hdiv'))
  · have hnone' := hnone
    rw [hA.word_eq hstart (by decide), ← hfind] at hnone'
    exact .runs _ _ L (step_of_kmalloc_none (kmalloc_none addr hbad hhead (by omega) hnone))
      (step_of_kmalloc_none (kmalloc_none addr hbad hhead' (by omega) hnone')) hA.returns_null
  · have hl' := hA.linksOk hb hl
    obtain ⟨pre, size, post, rfl, rfl⟩ := hA.heap.freeStart_iff.mp hb
    rw [hA.heap.layout.free_at.header] at hfit
    have hsome' := hsome
    rw [hA.word_eq hstart (by decide), ← hfind] at hsome'
    obtain ⟨a, h, L1, hrun, hP, -, hI⟩ := kmalloc_some addr hA.heap hbad hhead (by omega) hsome hl hfit
    obtain ⟨a', h', L1', hrun', hP', -, hI'⟩ := kmalloc_some addr hA.heap' hbad hhead' (by omega) hsome' hl' hfit
    refine .runs _ _ L1 (step_of_kmalloc_some hrun) (step_of_kmalloc_some hrun')
      (hA.placed (roundSize_cases n) ?_ hP hP' hI hI')
    intro h6
    rcases hlarge with h4 | hlarge
    · unfold roundSize at h6
      omega
    · have := hlarge _ _ hA.heap.gap_of_free
      omega

end Kmalloc

section Kfree

variable {r r' : HeapRun} {a : Alloc} {L : List Region}

lemma Alike.kfree (addr : Nat) (hA : Alike r r' L) (hok : CallAlike r r' (.kfree a)) :
    AlikeStep addr r r' (.kfree a) := by
  obtain ⟨hfreeOk, hprev⟩ := hok
  obtain ⟨hI, hI', hsmall, hlive, hreturned, hsame⟩ := id hA
  obtain ⟨pre, s, post, rfl, hptr, hleft, hright⟩ := hI.kfree_split hfreeOk
  have hlinks' : ∀ b e, Gap r'.live b e → e = a.start ∨ b = a.stop → LinksOk r'.heap.kmem r'.live b := by
    rw [hlive]
    intro b e hg hbe
    have := hA.linksOk ⟨e, hg⟩ (hfreeOk.links b e hg hbe)
    rwa [hlive] at this
  obtain ⟨h0, h, pre2, mid, post2, hrun, hkmem, hhead, hC, hI2⟩ :=
    kfree_some addr hI hptr hleft hright hfreeOk.links
  obtain ⟨h0', h', pre2', mid', post2', hrun', hkmem', hhead', hC', hI2'⟩ :=
    kfree_some addr hI' hptr hleft hright hlinks'
  have hstart := Alloc.start_eq hfreeOk.large hptr
  -- The runs agree on the data, and on the first payload word if nothing is merged to the left.
  have hS : SameOn (fun x => DataByte 0 (pre ++ ⟨a.size, .used⟩ :: s :: post) x ∨
      ((∀ b, ¬Gap r.live b a.start) ∧ a.ptr ≤ x ∧ x < a.ptr + 2)) h0 h0' := by
    refine ⟨by rw [hhead', hhead, hsame.freelist], fun x hx => ?_⟩
    rw [hkmem, hkmem']
    rcases hx with hx | ⟨hgap, hx, hx'⟩
    · exact hsame.bytes x hx
    · exact sameByte_of_word16 (hprev hgap) hx hx'
  obtain ⟨rfl, rfl, rfl, hS2⟩ := hC.same hC' hS (fun x hx => Or.inl hx) (fun hk x hx hx' =>
    Or.inr ⟨fun b => hstart ▸ hI.not_gap_before hk, by omega, by omega⟩)
  rw [hC.append_eq] at hsmall
  refine .runs _ _ _ hrun hrun' ⟨hI2, hI2', hsmall.replace (by simp [NoSmall]), ?_, hreturned, hS2⟩
  dsimp only
  rw [hlive]

end Kfree

section Runs

variable {addr x v : Nat} {r r' : HeapRun} {L : List Region}

lemma Alike.symm (hA : Alike r r' L) : Alike r' r L where
  heap := hA.heap'
  heap' := hA.heap
  noSmall := hA.noSmall
  live := hA.live.symm
  returned := hA.returned.symm
  same := ⟨hA.same.freelist.symm, fun x hx => (hA.same.bytes x hx).symm⟩

lemma Alike.write (addr v : Nat) (hA : Alike r r' L) (hx : InPayload r.live x) :
    ∃ s, r.step addr (.write x v) = .ok s ∧ Alike s r' L := by
  obtain ⟨s, hrun, hI⟩ := write_step addr v hA.heap hx
  refine ⟨s, hrun, ?_⟩
  cases hrun
  refine ⟨hI, hA.heap', hA.noSmall, hA.live, hA.returned, hA.same.freelist, fun y hy => ?_⟩
  have hne : y ≠ x := by
    rintro rfl
    exact hA.heap.not_metaByte_of_payload hx (hA.heap.metaByte_of_data hy)
  have hy := hA.same.bytes y hy
  unfold SameByte at hy ⊢
  dsimp only
  rw [if_neg hne]
  exact hy

/-- A step of the pair runs and leaves the runs alike, or both searches go round for ever. -/
lemma Alike.step (addr : Nat) (hA : Alike r r' L) {c : PairCall} (hok : AlikeOk (r, r') c) :
    pairStep addr (r, r') c = .error .diverges ∨
      ∃ s s' L', pairStep addr (r, r') c = .ok (s, s') ∧ Alike s s' L' := by
  cases c with
  | both c =>
    have hstep : AlikeStep addr r r' c := by
      cases c with
      | kmalloc n => exact hA.kmalloc addr hok
      | kfree a => exact hA.kfree addr hok
      | write x v => exact hok.2.elim
    rw [pairStep]
    cases hstep with
    | diverges hrun =>
      rw [hrun]
      exact Or.inl rfl
    | runs s s' L' hrun hrun' hA' =>
      rw [hrun, hrun']
      exact Or.inr ⟨s, s', L', rfl, hA'⟩
  | left x v =>
    obtain ⟨s, hrun, hA'⟩ := hA.write addr v hok
    rw [pairStep, hrun]
    exact Or.inr ⟨s, r', L, rfl, hA'⟩
  | right x v =>
    obtain ⟨s', hrun, hA'⟩ := hA.symm.write addr v hok
    rw [pairStep, hrun]
    exact Or.inr ⟨r, s', L, rfl, hA'.symm⟩

lemma alike_boot : Alike bootRun bootRun [⟨65532, .free⟩] where
  heap := heapInv_boot
  heap' := heapInv_boot
  noSmall := by simp [NoSmall]
  live := rfl
  returned := rfl
  same := ⟨rfl, fun _ _ => rfl⟩

lemma alike_of_reach {p : HeapRun × HeapRun} (hp : PairReach addr AlikeOk p) : ∃ L, Alike p.1 p.2 L := by
  refine hp.preserved (P := fun p => ∃ L, Alike p.1 p.2 L) (fun q hq => ?_) (fun q c q' hinv hok hrun => ?_)
  · rw [hq.1.eq, hq.2.eq]
    exact ⟨_, alike_boot⟩
  · obtain ⟨L, hA⟩ := hinv
    rcases hA.step addr hok with hdiv | ⟨s, s', L', hrun', hA'⟩
    · rw [hdiv] at hrun
      cases hrun
    · rw [hrun'] at hrun
      cases hrun
      exact ⟨L', hA'⟩

/-- Two runs in which the clients' bytes reach no link end alike, and where one goes on so does the other. -/
theorem outcome_independent_of_payload (addr : Nat) (p : HeapRun × HeapRun) (hp : PairReach addr AlikeOk p) :
    SameOutcome p.1 p.2 ∧
      ∀ c, AlikeOk p c → (∃ p', pairStep addr p c = .ok p') ∨ pairStep addr p c = .error .diverges := by
  obtain ⟨L, hA⟩ := alike_of_reach hp
  refine ⟨hA.sameOutcome, fun c hok => ?_⟩
  rcases hA.step addr hok with hdiv | ⟨s, s', -, hrun, -⟩
  · exact Or.inr hdiv
  · exact Or.inl ⟨(s, s'), hrun⟩

instance (r r' : HeapRun) (c : HeapCall) : Decidable (CallAlike r r' c) :=
  match c with
  | .kmalloc n => inferInstanceAs (Decidable (CallOk r (.kmalloc n) ∧ SplitsWhole r.live n))
  | .kfree a => inferInstanceAs (Decidable (CallOk r (.kfree a) ∧
      ((∀ b, ¬Gap r.live b a.start) → word16 r.heap.kmem a.ptr = word16 r'.heap.kmem a.ptr)))
  | .write _ _ => .isFalse And.right

instance (p : HeapRun × HeapRun) (c : PairCall) : Decidable (AlikeOk p c) :=
  match p, c with
  | (r, r'), .both c => inferInstanceAs (Decidable (CallAlike r r' c))
  | (r, _), .left x _ => inferInstanceAs (Decidable (InPayload r.live x))
  | (_, r'), .right x _ => inferInstanceAs (Decidable (InPayload r'.live x))

instance (p : HeapRun × HeapRun) (c : PairCall) : Decidable (QuietPair p c) :=
  match p, c with
  | (r, r'), .both c => inferInstanceAs (Decidable (Quiet r c ∧ Quiet r' c))
  | (r, _), .left x _ => inferInstanceAs (Decidable (InPayload r.live x))
  | (_, r'), .right x _ => inferInstanceAs (Decidable (InPayload r'.live x))

/-- The clients store different bytes behind the first word of a block, which is then freed and merged with
the free blocks on both sides. -/
theorem outcome_independent_of_payload_merged : ∃ p, PairReach 0x100000 AlikeOk p ∧
    p.1.heap.kmem 65490 = 7 ∧ p.2.heap.kmem 65490 = 9 ∧ p.1.returned.length = 5 ∧ SameOutcome p.1 p.2 := by
  have hplay : (play (pairStep 0x100000) AlikeOk (bootRun, bootRun) [.both (.kmalloc 8), .both (.kmalloc 24),
      .both (.kmalloc 16), .left 65490 7, .right 65490 9, .both (.kfree ⟨65502, 24⟩), .both (.kfree ⟨65486, 16⟩),
      .both (.kmalloc 12), .both (.kmalloc 8)]).any (fun p => decide (p.1.heap.kmem 65490 = 7 ∧
        p.2.heap.kmem 65490 = 9 ∧ p.1.returned.length = 5)) = true := by
    decide +kernel
  obtain ⟨p, hrun, hp⟩ := (Option.any_eq_true _ _).mp hplay
  obtain ⟨hleft, hright, hlen⟩ := of_decide_eq_true hp
  have hreach : PairReach 0x100000 AlikeOk p := (Reach.init ⟨booted_bootRun, booted_bootRun⟩).play hrun
  exact ⟨p, hreach, hleft, hright, hlen, (outcome_independent_of_payload 0x100000 p hreach).1⟩

/-- The first word of the second block's payload, 0xFFCE in one run and 0 in the other, becomes the
`prev` of that block when it is freed and decides what unlinking it does to the list. -/
theorem payload_steers_kmalloc :
    ∃ p, PairReach 0x100000 QuietPair p ∧ ¬SameOutcome p.1 p.2 := by
  have hplay : (play (pairStep 0x100000) QuietPair (bootRun, bootRun) [.both (.kmalloc 16),
      .both (.kmalloc 16), .both (.kmalloc 16), .both (.kmalloc 16), .both (.kmalloc 16),
      .left 65502 0xCE, .left 65503 0xFF, .both (.kfree ⟨65502, 16⟩), .both (.kfree ⟨65470, 16⟩),
      .both (.kmalloc 8), .both (.kmalloc 8)]).any
      (fun p => decide (p.1.returned.head? = some (some 65478) ∧
        p.2.returned.head? = some (some 65446))) = true := by
    decide +kernel
  obtain ⟨p, hrun, hp⟩ := (Option.any_eq_true _ _).mp hplay
  obtain ⟨hleft, hright⟩ := of_decide_eq_true hp
  refine ⟨p, (Reach.init ⟨booted_bootRun, booted_bootRun⟩).play hrun, fun hsame => ?_⟩
  rw [hsame.1, hright] at hleft
  cases hleft

end Runs

end JavaScriptOS.Heap
