import JavaScriptOS.Heap.Runs

/-!
# What a request gets

`kmalloc` looks for the rounded request and a header, but a split records the rounded request
only. So a request that splits a block has room for its bytes only if rounding has added two.
-/

namespace JavaScriptOS.Heap
open JavaScriptOS.Lib

/-- The block of `p` is recorded with room for its header and `n` bytes, so that the bytes at `p`
end before the next header, and in `kmem`. -/
def HoldsRequest (h : Kheap) (p n : Nat) : Prop :=
  n + 2 ≤ sizeBits (word16 h.kmem (p - 2)) ∧ p + n ≤ maxAlloc

instance (h : Kheap) (p n : Nat) : Decidable (HoldsRequest h p n) := inferInstanceAs (Decidable (_ ∧ _))

/-- Rounding up to 4 adds two bytes, or every free block that is large enough is taken whole. -/
def Roomy (live : List Alloc) (n : Nat) : Prop :=
  n % 4 = 1 ∨ n % 4 = 2 ∨ ∀ b e, Gap live b e → e - b < roundSize n + 8

instance (live : List Alloc) (n : Nat) : Decidable (Roomy live n) :=
  inferInstanceAs (Decidable (n % 4 = 1 ∨ n % 4 = 2 ∨ ∀ b e, Gap live b e → e - b < roundSize n + 8))

/-- Rounding adds at most one byte, and every free block that is large enough is split. -/
def Cramped (live : List Alloc) (n : Nat) : Prop :=
  (n % 4 = 0 ∨ n % 4 = 3) ∧ ∀ b e, Gap live b e → roundSize n + 2 ≤ e - b → roundSize n + 8 ≤ e - b

variable {addr n size a : Nat} {h h' : Kheap} {live : List Alloc} {L L' pre post : List Region}

lemma le_roundSize (n : Nat) : n ≤ roundSize n ∧ 6 ≤ roundSize n := by
  unfold roundSize
  omega

/-- What a split records has room for the header only if rounding up has added two bytes. -/
lemma roundSize_room (hn : 0 < n) : n + 2 ≤ roundSize n / 4 * 4 ↔ n % 4 = 1 ∨ n % 4 = 2 := by
  unfold roundSize
  omega

/-- A block taken whole is recorded with its size, one that was split off with the rounded request. -/
lemma Placed.recorded (hP : Placed addr h h' pre post size (roundSize n) a L') (h4 : size % 4 = 0) :
    sizeBits (word16 h'.kmem a) = if size < roundSize n + 8 then size else roundSize n / 4 * 4 := by
  cases hP with
  | split r hle _ _ hw =>
    rw [if_neg (by omega), hw.allocated]
    unfold sizeBits
    omega
  | whole hlt _ hw =>
    rw [if_pos hlt, hw.header]
    unfold sizeBits
    omega

lemma Placed.stop_le (hP : Placed addr h h' pre post size (roundSize n) a L') (hfit : roundSize n + 2 ≤ size) :
    a + roundSize n ≤ extent pre + size := by
  cases hP with
  | split r hle _ _ _ => omega
  | whole hlt _ _ => omega

/-- The request fits what is recorded for it exactly if the block was taken whole or rounding has
left room for the header. -/
lemma Placed.holdsRequest_iff (hP : Placed addr h h' pre post size (roundSize n) a L')
    (hL : Layout h.kmem (pre ++ ⟨size, .free⟩ :: post)) (hfit : roundSize n + 2 ≤ size) (hn : 0 < n) :
    HoldsRequest h' (a + 2) n ↔ size < roundSize n + 8 ∨ n % 4 = 1 ∨ n % 4 = 2 := by
  have hstop := hP.stop_le hfit
  have hend := hL.end_le
  have hround := le_roundSize n
  dsimp only at hend
  have hin : a + 2 + n ≤ 65535 := by omega
  unfold HoldsRequest maxAlloc
  rw [Nat.add_sub_cancel, hP.recorded hL.size_ok.1, and_iff_left hin]
  by_cases hwhole : size < roundSize n + 8
  · rw [if_pos hwhole]
    exact iff_of_true (by omega) (Or.inl hwhole)
  · rw [if_neg hwhole, roundSize_room hn, or_iff_right hwhole]

/-- In every run over closed lists, a request returns a block with room for it if rounding adds two bytes or
no free block is split, and one without if rounding does not and every block is. -/
theorem kmalloc_capacity (addr : Nat) (r : HeapRun) (hr : HeapReach addr CallOk r) (n p : Nat) (h' : Kheap)
    (hok : CallOk r (.kmalloc n)) (hrun : kmalloc addr r.heap n = .ok (some p, h')) :
    (Roomy r.live n → HoldsRequest h' p n) ∧ (Cramped r.live n → ¬HoldsRequest h' p n) := by
  obtain ⟨L, hI⟩ := heapInv_of_reach hr
  have hn : 0 < n := by
    by_contra h0
    rw [kmalloc_refused addr r.heap (Or.inl (by omega))] at hrun
    cases hrun
  have hserved := kmalloc_served addr hI hok
  rw [hrun] at hserved
  cases hserved with
  | placed hL hfit _ hP _ _ =>
    rw [hL] at hI
    have hgap := hI.gap_of_free
    rw [hP.holdsRequest_iff hI.layout hfit hn]
    constructor
    · rintro (h1 | h2 | hall)
      · exact Or.inr (Or.inl h1)
      · exact Or.inr (Or.inr h2)
      · have := hall _ _ hgap
        exact Or.inl (by omega)
    · rintro ⟨hmod, hall⟩ hroom
      have := hall _ _ hgap (by omega)
      omega

/-- Three blocks, of which one has been freed: a request for 13 bytes has room in what is split off. -/
theorem kmalloc_capacity_thirteen : ∃ r p h', HeapReach 0x100000 CallOk r ∧ r.live.length = 2 ∧
    kmalloc 0x100000 r.heap 13 = .ok (some p, h') ∧ HoldsRequest h' p 13 := by
  have hplay : (play (HeapRun.step 0x100000) CallOk bootRun [.kmalloc 8, .kmalloc 24, .kmalloc 16,
      .kfree ⟨65502, 24⟩]).any (fun r => decide (r.live.length = 2 ∧ CallOk r (.kmalloc 13) ∧
        (kmalloc 0x100000 r.heap 13).toOption.any fun out => out.1.isSome)) = true := by
    decide +kernel
  obtain ⟨r, hplayed, hr⟩ := (Option.any_eq_true _ _).mp hplay
  obtain ⟨hlen, hok, hcall⟩ := of_decide_eq_true hr
  obtain ⟨⟨res, h'⟩, hrun, hres⟩ := ok_of_any hcall
  obtain ⟨p, rfl⟩ := Option.isSome_iff_exists.mp hres
  have hreach := (Reach.init booted_bootRun).play hplayed
  exact ⟨r, p, h', hreach, hlen, hrun,
    (kmalloc_capacity 0x100000 r hreach 13 p h' hok hrun).1 (Or.inl rfl)⟩

/-- The first request for 8 bytes gets a block recorded with 8 bytes, header included. -/
theorem kmalloc_short_of_header : ∃ r, HeapReach 0x100000 Quiet r ∧
    ∃ p h', kmalloc 0x100000 r.heap 8 = .ok (some p, h') ∧ ¬HoldsRequest h' p 8 := by
  have hcall : (kmalloc 0x100000 bootRun.heap 8).toOption.any
      (fun out => out.1.any fun p => decide ¬HoldsRequest out.2 p 8) = true := by
    decide +kernel
  obtain ⟨⟨res, h'⟩, hrun, hres⟩ := ok_of_any hcall
  obtain ⟨p, rfl, hp⟩ := (Option.any_eq_true _ _).mp hres
  exact ⟨bootRun, .init booted_bootRun, p, h', hrun, of_decide_eq_true hp⟩

end JavaScriptOS.Heap
