import JavaScriptOS.Lib.ByteStack
import JavaScriptOS.Lib.Window

/-!
# Lookup in the MADT

`get_MADT_item` over the bytes of a table, at offsets from its start. The source uses names that it does not
declare: `apic_structures` and `madt_base` stand for the first entry, and `MADT_ID` for `APIC`, the signature of
the table. The loop gets a number of rounds, and the model keeps the entries that are looked at.
-/

namespace JavaScriptOS.Boot.Madt
open JavaScriptOS.Lib

abbrev Table := Nat → BitVec 8

/-- `APIC`. -/
def madtId : List (BitVec 8) := [0x41, 0x50, 0x49, 0x43]

def sizeofMadt : Nat := 44

def headerLength (m : Table) : BitVec 32 := wordOf 32 (window m 4 4)

/-- The result of a lookup, null or the offset of an entry, and the offsets of the entries it read. -/
structure Lookup where
  result : Option Nat
  inspected : List Nat
  deriving DecidableEq

def Lookup.inspect (item : Nat) (r : Lookup) : Lookup := { r with inspected := item :: r.inspected }

def search (m : Table) (type offset : BitVec 8) : Nat → BitVec 64 → BitVec 8 → Option Lookup
  | 0, _, _ => none
  | rounds + 1, totalLength, counter =>
    if totalLength + BitVec.ofNat 64 sizeofMadt < (headerLength m).setWidth 64 ∧ counter ≤ offset then
      let item := sizeofMadt + totalLength.toNat
      if m item = type then
        if counter = offset then some ⟨some item, [item]⟩
        else (search m type offset rounds (totalLength + (m (item + 1)).setWidth 64) (counter + 1)).map (.inspect item)
      else (search m type offset rounds (totalLength + (m (item + 1)).setWidth 64) counter).map (.inspect item)
    else some ⟨none, []⟩

def getMadtItem (rounds : Nat) (m : Table) (type offset : BitVec 8) : Option Lookup :=
  if window m 0 4 = madtId then search m type offset rounds 0 0 else some ⟨none, []⟩

/-- An entry whose length fits its length byte. -/
structure Entry where
  type : BitVec 8
  payload : List (BitVec 8)
  fits : payload.length + 2 < 2 ^ 8

def Entry.size (e : Entry) : Nat := e.payload.length + 2

def Entry.bytes (e : Entry) : List (BitVec 8) := e.type :: BitVec.ofNat 8 e.size :: e.payload

def contents (es : List Entry) : List (BitVec 8) := es.flatMap Entry.bytes

/-- The entries with their offsets, the first one at `a`. -/
def placed : Nat → List Entry → List (Nat × Entry)
  | _, [] => []
  | a, e :: es => (a, e) :: placed (a + e.size) es

/-- The offsets of the entries of a type, in table order. -/
def ofType (type : BitVec 8) (a : Nat) (es : List Entry) : List Nat :=
  ((placed a es).filter fun q => q.2.type = type).map Prod.fst

structure WellFormed (m : Table) (es : List Entry) : Prop where
  signature : window m 0 4 = madtId
  length : (headerLength m).toNat = sizeofMadt + (contents es).length
  entries : window m sizeofMadt (contents es).length = contents es

variable {m : Table} {e : Entry} {es : List Entry} {type offset counter : BitVec 8} {a : Nat} {total : BitVec 64}

@[simp] lemma Entry.length_bytes (e : Entry) : e.bytes.length = e.size := rfl

lemma contents_cons (e : Entry) (es : List Entry) : contents (e :: es) = e.bytes ++ contents es := rfl

lemma length_contents_cons (e : Entry) (es : List Entry) :
    (contents (e :: es)).length = e.size + (contents es).length := by
  rw [contents_cons, List.length_append, Entry.length_bytes]

lemma Entry.toNat_size (e : Entry) : ((BitVec.ofNat 8 e.size).setWidth 64).toNat = e.size := by
  rw [BitVec.toNat_setWidth_of_le (by decide)]
  exact Nat.mod_eq_of_lt e.fits

lemma ofType_cons (type : BitVec 8) (a : Nat) (e : Entry) (es : List Entry) :
    ofType type a (e :: es) =
      if e.type = type then a :: ofType type (a + e.size) es else ofType type (a + e.size) es := by
  unfold ofType
  rw [placed]
  split
  case isTrue h => rw [List.filter_cons_of_pos (by simpa using h), List.map_cons]
  case isFalse h => rw [List.filter_cons_of_neg (by simpa using h)]

/-- The entries lie one behind the other, and the last one ends where their contents end. -/
lemma placed_bounds {q : Nat × Entry} (h : q ∈ placed a es) : a ≤ q.1 ∧ q.1 + q.2.size ≤ a + (contents es).length := by
  induction es generalizing a with
  | nil => cases h
  | cons e es ih =>
    rw [length_contents_cons]
    rw [placed, List.mem_cons] at h
    rcases h with rfl | h
    · dsimp only
      omega
    · have hbounds := ih h
      omega

/-- The two header bytes of an entry. -/
lemma header_of_window (h : window m a (contents (e :: es)).length = contents (e :: es)) :
    m a = e.type ∧ m (a + 1) = BitVec.ofNat 8 e.size ∧
      window m (a + e.size) (contents es).length = contents es := by
  rw [contents_cons, window_append_iff] at h
  obtain ⟨hentry, hrest⟩ := h
  rw [Entry.bytes, List.length_cons, List.length_cons, window_succ, window_succ, List.cons.injEq,
    List.cons.injEq] at hentry
  exact ⟨hentry.1, hentry.2.1, hrest⟩

/-- The length test of the loop. -/
lemma length_test_iff (h : total.toNat + sizeofMadt ≤ (headerLength m).toNat) :
    total + BitVec.ofNat 64 sizeofMadt < (headerLength m).setWidth 64 ↔
      total.toNat + sizeofMadt < (headerLength m).toNat := by
  have hlength := (headerLength m).isLt
  have hsum : (total + BitVec.ofNat 64 sizeofMadt).toNat = total.toNat + sizeofMadt := by
    rw [BitVec.toNat_add]
    exact Nat.mod_eq_of_lt (by change total.toNat + sizeofMadt < 2 ^ 64; omega)
  rw [BitVec.lt_def, hsum, BitVec.toNat_setWidth_of_le (by decide)]

/-- The search from any entry on, with `counter` entries of the type before it. -/
lemma search_eq (type : BitVec 8) (total : BitVec 64) (counter : BitVec 8)
    (hend : total.toNat + sizeofMadt + (contents es).length = (headerLength m).toNat)
    (hentries : window m (sizeofMadt + total.toNat) (contents es).length = contents es)
    (hcounter : counter.toNat ≤ offset.toNat) {rounds : Nat} (hrounds : es.length < rounds) :
    ∃ inspected, search m type offset rounds total counter =
        some ⟨(ofType type (sizeofMadt + total.toNat) es)[offset.toNat - counter.toNat]?, inspected⟩ ∧
      inspected <+: (placed (sizeofMadt + total.toNat) es).map Prod.fst := by
  have hlength := (headerLength m).isLt
  obtain ⟨rounds, rfl⟩ := Nat.exists_eq_add_one_of_ne_zero (Nat.ne_zero_of_lt hrounds)
  induction es generalizing total counter rounds with
  | nil =>
    have hstop : ¬total + BitVec.ofNat 64 sizeofMadt < (headerLength m).setWidth 64 := by
      rw [length_test_iff (Nat.le.intro hend), ← hend]
      exact Nat.lt_irrefl _
    rw [search, if_neg fun h => hstop h.1]
    exact ⟨[], rfl, List.nil_prefix⟩
  | cons e es ih =>
    obtain ⟨htype, hsize, hrest⟩ := header_of_window hentries
    rw [length_contents_cons] at hend
    have hpos : 2 ≤ e.size := Nat.le_add_left _ _
    have hgo : total + BitVec.ofNat 64 sizeofMadt < (headerLength m).setWidth 64 ∧ counter ≤ offset :=
      ⟨(length_test_iff (by omega)).mpr (by omega), hcounter⟩
    have hnext : (total + (m (sizeofMadt + total.toNat + 1)).setWidth 64).toNat = total.toNat + e.size := by
      rw [BitVec.toNat_add, hsize, e.toNat_size]
      exact Nat.mod_eq_of_lt (by omega)
    obtain ⟨rounds, rfl⟩ := Nat.exists_eq_add_one_of_ne_zero (Nat.ne_zero_of_lt (Nat.lt_of_succ_lt_succ hrounds))
    -- what the rest of the search finds, with this entry added to those it has looked at
    have hon : ∀ counter' : BitVec 8, counter'.toNat ≤ offset.toNat → ∃ inspected,
        (search m type offset (rounds + 1) (total + (m (sizeofMadt + total.toNat + 1)).setWidth 64) counter').map
            (Lookup.inspect (sizeofMadt + total.toNat)) =
          some ⟨(ofType type (sizeofMadt + total.toNat + e.size) es)[offset.toNat - counter'.toNat]?, inspected⟩ ∧
        inspected <+: (placed (sizeofMadt + total.toNat) (e :: es)).map Prod.fst := by
      intro counter' hcounter'
      obtain ⟨inspected, hrun, hseen⟩ := ih (total + (m (sizeofMadt + total.toNat + 1)).setWidth 64)
        counter' (by omega) (by rwa [hnext, ← Nat.add_assoc]) hcounter' rounds (Nat.lt_of_succ_lt_succ hrounds)
      rw [hnext, ← Nat.add_assoc] at hrun hseen
      rw [hrun]
      exact ⟨_, rfl, (List.prefix_cons_inj _).mpr hseen⟩
    rw [search, if_pos hgo, ofType_cons]
    dsimp only
    rw [htype]
    by_cases htypes : e.type = type
    · rw [if_pos htypes, if_pos htypes]
      by_cases hfound : counter = offset
      · rw [if_pos hfound, hfound, Nat.sub_self]
        exact ⟨_, rfl, ⟨_, rfl⟩⟩
      · have hlt : counter.toNat < offset.toNat :=
          Nat.lt_of_le_of_ne hcounter fun h => hfound (BitVec.eq_of_toNat_eq h)
        have hsucc : (counter + 1).toNat = counter.toNat + 1 := by
          have hoffset := offset.isLt
          rw [BitVec.toNat_add]
          exact Nat.mod_eq_of_lt (by change counter.toNat + 1 < 2 ^ 8; omega)
        have hindex : offset.toNat - counter.toNat = offset.toNat - (counter + 1).toNat + 1 := by omega
        rw [if_neg hfound, hindex, List.getElem?_cons_succ]
        exact hon (counter + 1) (by omega)
    · rw [if_neg htypes, if_neg htypes]
      exact hon counter hcounter

lemma window_of_placed {q : Nat × Entry} (hentries : window m a (contents es).length = contents es)
    (h : q ∈ placed a es) : window m q.1 q.2.size = q.2.bytes := by
  induction es generalizing a with
  | nil => cases h
  | cons e es ih =>
    rw [contents_cons, window_append_iff] at hentries
    rw [placed, List.mem_cons] at h
    rcases h with rfl | h
    · exact hentries.1
    · exact ih hentries.2 h

/-- The lookup in a table that its entries fill: the result is the entry of the type with the given index, and all
entries that are read lie in the table. -/
theorem getMadtItem_spec (m : Table) (es : List Entry) (type offset : BitVec 8) (h : WellFormed m es) (rounds : Nat)
    (hrounds : es.length < rounds) :
    ∃ inspected, getMadtItem rounds m type offset =
        some ⟨(ofType type sizeofMadt es)[offset.toNat]?, inspected⟩ ∧
      (∀ a ∈ inspected, ∃ e, (a, e) ∈ placed sizeofMadt es) ∧
      ∀ q ∈ placed sizeofMadt es, sizeofMadt ≤ q.1 ∧ q.1 + q.2.size ≤ (headerLength m).toNat ∧
        window m q.1 q.2.size = q.2.bytes := by
  have hend : (0 : BitVec 64).toNat + sizeofMadt + (contents es).length = (headerLength m).toNat := by
    rw [h.length]
    exact congrArg (· + (contents es).length) (Nat.zero_add _)
  obtain ⟨inspected, hrun, hseen⟩ :=
    search_eq type 0 0 hend h.entries (Nat.zero_le offset.toNat) hrounds
  refine ⟨inspected, ?_, ?_, ?_⟩
  · rw [getMadtItem, if_pos h.signature]
    exact hrun
  · intro a ha
    obtain ⟨q, hq, rfl⟩ := List.mem_map.mp (hseen.subset ha)
    exact ⟨q.2, hq⟩
  · intro q hq
    have hbounds := placed_bounds hq
    exact ⟨hbounds.1, h.length ▸ hbounds.2, window_of_placed h.entries hq⟩

/-- The table with the given entries and nothing else set in its header. -/
def tableOf (es : List Entry) : Table := fun i =>
  (madtId ++ bytesOf 4 (BitVec.ofNat 32 (sizeofMadt + (contents es).length)) ++ List.replicate 36 0 ++
    contents es).getD i 0

/-- Two entries of type 1 with one of type 0 between them. -/
def threeEntries : List Entry := [⟨1, [7], by decide⟩, ⟨0, [], by decide⟩, ⟨1, [8, 9], by decide⟩]

theorem getMadtItem_second :
    WellFormed (tableOf threeEntries) threeEntries ∧ ofType 1 sizeofMadt threeEntries = [44, 49] ∧
      ∃ inspected, getMadtItem 4 (tableOf threeEntries) 1 1 =
        some ⟨(ofType 1 sizeofMadt threeEntries)[(1 : BitVec 8).toNat]?, inspected⟩ := by
  have hform : WellFormed (tableOf threeEntries) threeEntries := ⟨by decide, by decide, by decide⟩
  obtain ⟨inspected, hrun, -⟩ := getMadtItem_spec (tableOf threeEntries) threeEntries 1 1 hform 4 (by decide)
  exact ⟨hform, by decide, inspected, hrun⟩

end JavaScriptOS.Boot.Madt
