import JavaScriptOS.Lib.Bump
import Mathlib.Algebra.Order.BigOperators.Group.List
import Mathlib.Data.List.Perm.Basic
import Mathlib.Order.Interval.Finset.Nat

/-!
# First fit with a bump pointer

An arena hands out regions below a capacity. It takes the first free region that is long enough, whole,
and otherwise moves its top up. What is given back goes to the front of the free regions.
-/

namespace JavaScriptOS.Lib

deriving instance DecidableEq for Region

/-- No address is in both regions. -/
def Region.Apart (r r' : Region) : Prop := r.start + r.length ≤ r'.start ∨ r'.start + r'.length ≤ r.start

lemma Region.Apart.symm {r r' : Region} (h : r.Apart r') : r'.Apart r := Or.symm h

/-- A shorter region at the same place. -/
lemma Region.Apart.shrink {r r' : Region} (h : r.Apart r') {k : Nat} (hk : k ≤ r.length) :
    Region.Apart ⟨r.start, k⟩ r' := by
  unfold Region.Apart at *
  dsimp only
  omega

section Cover

/-- The addresses of the regions. -/
def cover : List Region → Finset Nat
  | [] => ∅
  | r :: rs => Finset.Ico r.start (r.start + r.length) ∪ cover rs

variable {rs : List Region}

lemma mem_cover {x : Nat} : x ∈ cover rs ↔ ∃ r ∈ rs, r.start ≤ x ∧ x < r.start + r.length := by
  induction rs with
  | nil => simp [cover]
  | cons r rs ih => simp [cover, ih]

lemma card_cover (h : rs.Pairwise Region.Apart) : (cover rs).card = (rs.map Region.length).sum := by
  induction rs with
  | nil => rfl
  | cons r rs ih =>
    obtain ⟨hr, hrs⟩ := List.pairwise_cons.mp h
    have hdisjoint : Disjoint (Finset.Ico r.start (r.start + r.length)) (cover rs) := by
      rw [Finset.disjoint_left]
      intro x hx hcover
      obtain ⟨r', hr', hge, hlt⟩ := mem_cover.mp hcover
      have hor := hr r' hr'
      rw [Finset.mem_Ico] at hx
      unfold Region.Apart at hor
      omega
    rw [cover, Finset.card_union_of_disjoint hdisjoint, ih hrs, Nat.card_Ico, List.map_cons, List.sum_cons,
      Nat.add_sub_cancel_left]

/-- Regions that are apart have no more bytes together than there are below their top. -/
lemma sum_length_le {top : Nat} (h : rs.Pairwise Region.Apart) (hbelow : ∀ r ∈ rs, r.start + r.length ≤ top) :
    (rs.map Region.length).sum ≤ top := by
  rw [← card_cover h, ← Finset.card_range top]
  apply Finset.card_le_card
  intro x hx
  obtain ⟨r, hr, -, hlt⟩ := mem_cover.mp hx
  exact Finset.mem_range.mpr (Nat.lt_of_lt_of_le hlt (hbelow r hr))

/-- So there are not many of them if each has at least `k` bytes. -/
lemma mul_length_le {top k : Nat} (h : rs.Pairwise Region.Apart) (hbelow : ∀ r ∈ rs, r.start + r.length ≤ top)
    (hk : ∀ r ∈ rs, k ≤ r.length) : rs.length * k ≤ top := by
  refine Nat.le_trans ?_ (sum_length_le h hbelow)
  have hall : ∀ x ∈ rs.map Region.length, k ≤ x := by
    intro x hx
    obtain ⟨r, hr, rfl⟩ := List.mem_map.mp hx
    exact hk r hr
  simpa using List.card_nsmul_le_sum _ k hall

end Cover

/-- The first region of the list with at least `size` bytes, and the list without it. -/
def takeFirst (size : Nat) : List Region → Option (Region × List Region)
  | [] => none
  | r :: rs => if size ≤ r.length then some (r, rs) else (takeFirst size rs).map fun (r', rs') => (r', r :: rs')

lemma takeFirst_split {size : Nat} {rs rest : List Region} {r : Region} (h : takeFirst size rs = some (r, rest)) :
    size ≤ r.length ∧ ∃ before after, rs = before ++ r :: after ∧ rest = before ++ after ∧
      ∀ r' ∈ before, r'.length < size := by
  induction rs generalizing rest with
  | nil => cases h
  | cons r₀ rs ih =>
    rw [takeFirst] at h
    by_cases hfit : size ≤ r₀.length
    · rw [if_pos hfit] at h
      cases h
      exact ⟨hfit, [], rs, rfl, rfl, by simp⟩
    · rw [if_neg hfit] at h
      obtain ⟨⟨r', rs'⟩, hrec, heq⟩ := Option.map_eq_some_iff.mp h
      cases heq
      obtain ⟨hle, before, after, rfl, rfl, hshort⟩ := ih hrec
      refine ⟨hle, r₀ :: before, after, rfl, rfl, ?_⟩
      intro r' hr'
      rcases List.mem_cons.mp hr' with rfl | hlater
      · exact Nat.lt_of_not_le hfit
      · exact hshort r' hlater

lemma takeFirst_perm {size : Nat} {rs rest : List Region} {r : Region} (h : takeFirst size rs = some (r, rest)) :
    size ≤ r.length ∧ rs.Perm (r :: rest) := by
  obtain ⟨hfit, before, after, rfl, rfl, -⟩ := takeFirst_split h
  exact ⟨hfit, List.perm_middle⟩

lemma takeFirst_eq_none {size : Nat} {rs : List Region} : takeFirst size rs = none ↔ ∀ r ∈ rs, r.length < size := by
  induction rs with
  | nil => simp [takeFirst]
  | cons r₀ rs ih =>
    rw [takeFirst]
    by_cases hfit : size ≤ r₀.length
    · simp [hfit]
    · simp [hfit, ih, Nat.lt_of_not_le hfit]

structure Arena where
  free : List Region
  live : List Region
  top : Nat

namespace Arena

/-- The start of the region that is handed out and the arena it leaves, if there is room. -/
def alloc (capacity size : Nat) (a : Arena) : Option (Nat × Arena) :=
  match takeFirst size a.free with
  | some (r, rest) => some (r.start, { a with free := rest, live := ⟨r.start, size⟩ :: a.live })
  | none =>
    if a.top + size ≤ capacity then
      some (a.top, { a with top := a.top + size, live := ⟨a.top, size⟩ :: a.live })
    else none

def release (r : Region) (a : Arena) : Arena := { a with free := r :: a.free, live := a.live.erase r }

def empty : Arena := ⟨[], [], 0⟩

/-- The free and the live regions are apart from each other and below the top. -/
structure Separate (capacity : Nat) (a : Arena) : Prop where
  apart : (a.free ++ a.live).Pairwise Region.Apart
  below : ∀ r ∈ a.free ++ a.live, r.start + r.length ≤ a.top
  top_le : a.top ≤ capacity

variable {capacity size : Nat} {a a' : Arena}

lemma separate_empty (capacity : Nat) : Separate capacity empty where
  apart := List.Pairwise.nil
  below _ h := by cases h
  top_le := Nat.zero_le _

/-- The two ways in which a region is handed out. -/
lemma alloc_cases {start : Nat} (h : a.alloc capacity size = some (start, a')) :
    (∃ r rest, takeFirst size a.free = some (r, rest) ∧ start = r.start ∧
      a' = { a with free := rest, live := ⟨r.start, size⟩ :: a.live }) ∨
    (takeFirst size a.free = none ∧ a.top + size ≤ capacity ∧ start = a.top ∧
      a' = { a with top := a.top + size, live := ⟨a.top, size⟩ :: a.live }) := by
  rw [alloc] at h
  split at h
  · rename_i r rest htake
    cases h
    exact Or.inl ⟨r, rest, htake, rfl, rfl⟩
  · rename_i htake
    split at h
    · rename_i hroom
      cases h
      exact Or.inr ⟨htake, hroom, rfl, rfl⟩
    · cases h

lemma Separate.of_perm {free live : List Region} {top : Nat} (h : Separate capacity a)
    (hperm : (a.free ++ a.live).Perm (free ++ live)) (htop : top = a.top) : Separate capacity ⟨free, live, top⟩ where
  apart := hperm.pairwise h.apart Region.Apart.symm
  below r hr := htop ▸ h.below r (hperm.mem_iff.mpr hr)
  top_le := htop ▸ h.top_le

/-- A region of the arena is replaced by a shorter one at its place. -/
lemma Separate.shrink {r : Region} {free live : List Region} {top k : Nat}
    (h : Separate capacity ⟨free, r :: live, top⟩) (hk : k ≤ r.length) :
    Separate capacity ⟨free, ⟨r.start, k⟩ :: live, top⟩ := by
  have hperm : (free ++ r :: live).Perm (r :: (free ++ live)) := List.perm_middle
  have hperm' : (free ++ ⟨r.start, k⟩ :: live).Perm (⟨r.start, k⟩ :: (free ++ live)) := List.perm_middle
  have hcons := List.pairwise_cons.mp (hperm.pairwise h.apart Region.Apart.symm)
  refine ⟨?_, ?_, h.top_le⟩
  · apply hperm'.symm.pairwise _ Region.Apart.symm
    exact List.pairwise_cons.mpr ⟨fun r' hr' => (hcons.1 r' hr').shrink hk, hcons.2⟩
  · intro r' hr'
    rcases List.mem_cons.mp (hperm'.mem_iff.mp hr') with rfl | hold
    · have hr := h.below r (hperm.mem_iff.mpr List.mem_cons_self)
      dsimp only at hr ⊢
      omega
    · exact h.below r' (hperm.mem_iff.mpr (List.mem_cons_of_mem _ hold))

/-- Handing a region out keeps all regions apart. -/
theorem Separate.alloc {start : Nat} (h : Separate capacity a) (halloc : a.alloc capacity size = some (start, a')) :
    Separate capacity a' := by
  rcases alloc_cases halloc with ⟨r, rest, htake, rfl, rfl⟩ | ⟨-, hroom, rfl, rfl⟩
  · obtain ⟨hfit, hperm⟩ := takeFirst_perm htake
    have hmoved : Separate capacity ⟨rest, r :: a.live, a.top⟩ := by
      apply h.of_perm _ rfl
      exact (hperm.append_right a.live).trans List.perm_middle.symm
    exact hmoved.shrink hfit
  · refine ⟨?_, ?_, hroom⟩
    · apply List.perm_middle.symm.pairwise _ Region.Apart.symm
      exact List.pairwise_cons.mpr ⟨fun r hr => Or.inr (h.below r hr), h.apart⟩
    · intro r hr
      rcases List.mem_cons.mp (List.perm_middle.mem_iff.mp hr) with rfl | hold
      · exact Nat.le_refl _
      · exact (h.below r hold).trans (Nat.le_add_right _ _)

/-- So does taking a live region back. -/
theorem Separate.release {r : Region} (h : Separate capacity a) (hr : r ∈ a.live) :
    Separate capacity (a.release r) := by
  apply h.of_perm _ rfl
  exact ((List.perm_cons_erase hr).append_left a.free).trans List.perm_middle

/-- The region handed out is the newest live one, and it was nobody's. -/
lemma Separate.alloc_live {start : Nat} (h : Separate capacity a) (halloc : a.alloc capacity size = some (start, a')) :
    a'.live = ⟨start, size⟩ :: a.live ∧ start + size ≤ capacity ∧ ∀ r ∈ a.live, Region.Apart ⟨start, size⟩ r := by
  have h' := h.alloc halloc
  have hlive : a'.live = ⟨start, size⟩ :: a.live := by
    rcases alloc_cases halloc with ⟨r, rest, -, rfl, rfl⟩ | ⟨-, -, rfl, rfl⟩
    · rfl
    · rfl
  refine ⟨hlive, ?_, ?_⟩
  · have hbelow := h'.below ⟨start, size⟩ (by simp [hlive])
    exact hbelow.trans h'.top_le
  · have hpair := (List.pairwise_append.mp h'.apart).2.1
    rw [hlive] at hpair
    exact (List.pairwise_cons.mp hpair).1

end Arena

end JavaScriptOS.Lib
