import JavaScriptOS.Boot.Madt
import JavaScriptOS.Lib.Lasso
import Mathlib.Data.FinEnum

/-!
# Whether a lookup in the MADT ends

For tables of any contents. The loop of `get_MADT_item` gets ahead by the length byte of the entry or, at an entry
of the type it looks for, by its counter. It goes on for ever exactly if it comes to an entry of another type whose
length byte is 0.
-/

namespace JavaScriptOS.Boot.Madt
open JavaScriptOS.Lib

/-- The variables of the loop. -/
structure Cursor where
  totalLength : BitVec 64
  counter : BitVec 8
  deriving DecidableEq

def Cursor.item (c : Cursor) : Nat := sizeofMadt + c.totalLength.toNat

/-- The condition of the loop. -/
def Runs (m : Table) (offset : BitVec 8) (c : Cursor) : Prop :=
  c.totalLength + BitVec.ofNat 64 sizeofMadt < (headerLength m).setWidth 64 ∧ c.counter ≤ offset

instance decidableRuns (m : Table) (offset : BitVec 8) (c : Cursor) : Decidable (Runs m offset c) :=
  inferInstanceAs (Decidable (_ ∧ _))

/-- The variables after one more round, if there is one. -/
def searchStep (m : Table) (type offset : BitVec 8) (c : Cursor) : Option Cursor :=
  if Runs m offset c then
    if m c.item = type then
      if c.counter = offset then none
      else some ⟨c.totalLength + (m (c.item + 1)).setWidth 64, c.counter + 1⟩
    else some ⟨c.totalLength + (m (c.item + 1)).setWidth 64, c.counter⟩
  else none

/-- The loop is at an entry of another type with length 0. -/
structure Stuck (m : Table) (type offset : BitVec 8) (c : Cursor) : Prop where
  runs : Runs m offset c
  other : m c.item ≠ type
  length : m (c.item + 1) = 0

variable {m : Table} {type offset : BitVec 8} {c c' : Cursor}

instance finiteCursors : Finite Cursor := by
  apply Finite.of_injective fun c : Cursor => (c.totalLength, c.counter)
  rintro ⟨total, counter⟩ ⟨total', counter'⟩ h
  simp only [Prod.mk.injEq] at h
  rw [h.1, h.2]

lemma search_isSome_iff (rounds : Nat) (c : Cursor) :
    (search m type offset rounds c.totalLength c.counter).isSome ↔
      trail (searchStep m type offset) rounds c = none := by
  induction rounds generalizing c with
  | zero => exact iff_of_false Bool.false_ne_true (Option.some_ne_none c)
  | succ rounds ih =>
    rw [search, trail, searchStep]
    by_cases hruns : Runs m offset c
    · rw [if_pos hruns]
      rw [Runs] at hruns
      rw [if_pos hruns]
      change (if m c.item = type then _ else _ : Option Lookup).isSome ↔ _
      by_cases htype : m c.item = type
      · rw [if_pos htype, if_pos htype]
        by_cases hfound : c.counter = offset
        · rw [if_pos hfound, if_pos hfound]
          exact iff_of_true rfl rfl
        · rw [if_neg hfound, if_neg hfound, Option.isSome_map]
          exact ih ⟨_, _⟩
      · rw [if_neg htype, if_neg htype, Option.isSome_map]
        exact ih ⟨_, _⟩
    · rw [if_neg hruns]
      rw [Runs] at hruns
      rw [if_neg hruns]
      exact iff_of_true rfl rfl

lemma getMadtItem_ends_iff (m : Table) (type offset : BitVec 8) :
    (∃ rounds, (getMadtItem rounds m type offset).isSome) ↔
      window m 0 4 ≠ madtId ∨ ¬Revisits (searchStep m type offset) ⟨0, 0⟩ := by
  rw [← stops_iff_of_finite, Stops]
  by_cases hsignature : window m 0 4 = madtId
  · simp only [getMadtItem, if_pos hsignature]
    rw [or_iff_right (not_not_intro hsignature)]
    exact exists_congr fun rounds => search_isSome_iff rounds ⟨0, 0⟩
  · simp only [getMadtItem, if_neg hsignature]
    exact iff_of_true ⟨0, rfl⟩ (Or.inl hsignature)

/-- What a round does: it adds the length byte, and counts the entry if it has the type. -/
lemma searchStep_cases (h : searchStep m type offset c = some c') :
    Runs m offset c ∧ c'.totalLength = c.totalLength + (m (c.item + 1)).setWidth 64 ∧
      (m c.item = type ∧ c.counter ≠ offset ∧ c'.counter = c.counter + 1 ∨
        m c.item ≠ type ∧ c'.counter = c.counter) := by
  rw [searchStep] at h
  split at h
  case isFalse => cases h
  case isTrue hruns =>
    split at h
    case isTrue htype =>
      split at h
      case isTrue => cases h
      case isFalse hfound =>
        cases h
        exact ⟨hruns, rfl, Or.inl ⟨htype, hfound, rfl⟩⟩
    case isFalse htype =>
      cases h
      exact ⟨hruns, rfl, Or.inr ⟨htype, rfl⟩⟩

/-- The additions of the loop do not wrap: inside the table `total_length` is below its 32-bit length. -/
lemma toNat_totalLength (hc : c.totalLength.toNat < 2 ^ 33) (h : searchStep m type offset c = some c') :
    c'.totalLength.toNat = c.totalLength.toNat + (m (c.item + 1)).toNat ∧ c'.totalLength.toNat < 2 ^ 33 := by
  obtain ⟨hruns, hnext, -⟩ := searchStep_cases h
  have hlength := (headerLength m).isLt
  have hbyte := (m (c.item + 1)).isLt
  have hinside : c.totalLength.toNat + sizeofMadt < (headerLength m).toNat := by
    have hlt := BitVec.lt_def.mp hruns.1
    rw [BitVec.toNat_add, BitVec.toNat_setWidth_of_le (by decide)] at hlt
    rwa [Nat.mod_eq_of_lt (by change c.totalLength.toNat + sizeofMadt < 2 ^ 64; rw [sizeofMadt]; omega)] at hlt
  have hsum : c'.totalLength.toNat = c.totalLength.toNat + (m (c.item + 1)).toNat := by
    rw [hnext, BitVec.toNat_add, BitVec.toNat_setWidth_of_le (by decide), Nat.mod_eq_of_lt (by omega)]
  exact ⟨hsum, by omega⟩

lemma toNat_counter (h : Runs m offset c) (hne : c.counter ≠ offset) : (c.counter + 1).toNat = c.counter.toNat + 1 := by
  have hle := BitVec.le_def.mp h.2
  have hoffset := offset.isLt
  have hlt : c.counter.toNat < offset.toNat := Nat.lt_of_le_of_ne hle fun heq => hne (BitVec.eq_of_toNat_eq heq)
  rw [BitVec.toNat_add]
  exact Nat.mod_eq_of_lt (by change c.counter.toNat + 1 < 2 ^ 8; omega)

/-- Every round from elsewhere than a stuck place moves on, in the table or in the count. -/
lemma searchStep_grows (hc : c.totalLength.toNat < 2 ^ 33) (hstuck : ¬Stuck m type offset c)
    (h : searchStep m type offset c = some c') :
    c.totalLength.toNat + c.counter.toNat < c'.totalLength.toNat + c'.counter.toNat := by
  have htotal := (toNat_totalLength hc h).1
  obtain ⟨hruns, -, ⟨-, hne, hcounter⟩ | ⟨hother, hcounter⟩⟩ := searchStep_cases h
  · rw [htotal, hcounter, toNat_counter hruns hne]
    omega
  · have hbyte : (m (c.item + 1)).toNat ≠ 0 := fun hzero =>
      hstuck ⟨hruns, hother, BitVec.eq_of_toNat_eq hzero⟩
    rw [htotal, hcounter]
    omega

lemma Stuck.fixed (h : Stuck m type offset c) : searchStep m type offset c = some c := by
  rw [searchStep, if_pos h.runs, if_neg h.other, h.length]
  exact congrArg (fun total => some (Cursor.mk total c.counter)) (BitVec.add_zero c.totalLength)

lemma revisits_iff_stuck (m : Table) (type offset : BitVec 8) : Revisits (searchStep m type offset) ⟨0, 0⟩ ↔
    ∃ k c, trail (searchStep m type offset) k ⟨0, 0⟩ = some c ∧ Stuck m type offset c := by
  constructor
  · intro hrevisits
    by_contra hnever
    apply not_revisits_of_lt (fun c : Cursor => c.totalLength.toNat + c.counter.toNat) _ hrevisits
    intro k c c' hk hstep
    have hc : c.totalLength.toNat < 2 ^ 33 := by
      apply trail_preserves (P := fun c : Cursor => c.totalLength.toNat < 2 ^ 33) (by decide) _ hk
      exact fun _ _ hc h => (toNat_totalLength hc h).2
    exact searchStep_grows hc (fun hstuck => hnever ⟨k, c, hk, hstuck⟩) hstep
  · rintro ⟨k, c, hk, hstuck⟩
    exact (Revisits.of_fixed hstuck.fixed).of_trail hk

/-- A lookup ends unless its loop comes to an entry of another type with length 0. In particular a length byte that
goes past the end of the table does no harm, nor does a length 0 at an entry of the type that is looked for. -/
theorem getMadtItem_ends_iff_not_stuck (m : Table) (type offset : BitVec 8) :
    (∃ rounds, (getMadtItem rounds m type offset).isSome) ↔
      window m 0 4 ≠ madtId ∨
        ¬∃ k c, trail (searchStep m type offset) k ⟨0, 0⟩ = some c ∧ Stuck m type offset c := by
  rw [getMadtItem_ends_iff, revisits_iff_stuck]

/-- A table of 46 bytes with one entry of type 1 and length 0. -/
def zeroLengthTable : Table := fun i =>
  (madtId ++ bytesOf 4 (46 : BitVec 32) ++ List.replicate 36 0 ++ [1, 0]).getD i 0

lemma stuck_zeroLengthTable : Stuck zeroLengthTable 0 0 ⟨0, 0⟩ := ⟨by decide, by decide, by decide⟩

theorem getMadtItem_never_ends :
    window zeroLengthTable 0 4 = madtId ∧ (headerLength zeroLengthTable).toNat = 46 ∧
      ¬∃ rounds, (getMadtItem rounds zeroLengthTable 0 0).isSome := by
  refine ⟨by decide, by decide, ?_⟩
  rw [getMadtItem_ends_iff, revisits_iff_stuck]
  rintro (hsignature | hnever)
  · exact hsignature (by decide)
  · exact hnever ⟨0, _, rfl, stuck_zeroLengthTable⟩

end JavaScriptOS.Boot.Madt
