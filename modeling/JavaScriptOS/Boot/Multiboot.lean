import JavaScriptOS.Lib.ByteStack
import JavaScriptOS.Lib.Reach

/-!
# The multiboot2 tag loop

The loop of `kernel_main` over the tags of the information structure. Positions are byte offsets from
`multiboot2_info`, and a read past the structure is a fault. Both `multiboot2_info` and `tag` point to
`struct multiboot_tag`, so what the loop adds to them counts structs of eight bytes.
-/

namespace JavaScriptOS.Boot
open JavaScriptOS.Lib

/-- The `total_size` bytes of the structure. -/
structure MultibootInfo where
  bytes : List (BitVec 8)

inductive Fault where
  | pastEnd (offset : Nat)
  | diverges
  deriving DecidableEq

def tagTypeEnd : BitVec 32 := 0

inductive CopiedTag where
  | basicMeminfo | mmap | framebuffer | acpiOld | acpiNew
  deriving DecidableEq

/-- `sizeof` of the struct that is copied, without its flexible array. -/
def CopiedTag.size : CopiedTag → Nat
  | .basicMeminfo => 16
  | .mmap => 16
  | .framebuffer => 48
  | .acpiOld => 8
  | .acpiNew => 8

/-- The `case` labels of the `switch`. -/
def CopiedTag.ofType (type : BitVec 32) : Option CopiedTag :=
  if type = 4 then some .basicMeminfo
  else if type = 6 then some .mmap
  else if type = 8 then some .framebuffer
  else if type = 14 then some .acpiOld
  else if type = 15 then some .acpiNew
  else none

/-- What the loop leaves behind, with the offsets of the tags it has been through. -/
structure TagState where
  visited : List Nat
  copies : List (CopiedTag × List (BitVec 8))
  tagAcpiType : BitVec 32

def sizeofTag : Nat := 8

/-- `ROUNDUP2N` on `multiboot_uint32_t`. -/
def roundup2n (a n : BitVec 32) : BitVec 32 := (a + n - 1) &&& ~~~(n - 1)

variable (info : MultibootInfo)

def read (offset size : Nat) : Except Fault (List (BitVec 8)) :=
  if offset + size ≤ info.bytes.length then .ok ((info.bytes.drop offset).take size)
  else .error (.pastEnd offset)

def read32 (offset : Nat) : Except Fault (BitVec 32) := do
  let bytes ← read info offset 4
  pure (wordOf 32 bytes)

def tagType (tag : Nat) : Except Fault (BitVec 32) := read32 info tag

def tagSize (tag : Nat) : Except Fault (BitVec 32) := read32 info (tag + 4)

/-- The body of the loop. -/
def visit (tag : Nat) (type : BitVec 32) (s : TagState) : Except Fault TagState :=
  let s := { s with visited := s.visited ++ [tag] }
  match CopiedTag.ofType type with
  | none => pure s
  | some kind => do
    let contents ← read info tag kind.size
    let s := { s with copies := s.copies ++ [(kind, contents)] }
    pure (if kind = .acpiOld ∨ kind = .acpiNew then { s with tagAcpiType := type } else s)

def walk : Nat → Nat → TagState → Except Fault (Nat × TagState)
  | 0, _, _ => .error .diverges
  | fuel + 1, tag, s => do
    let type ← tagType info tag
    if type = tagTypeEnd then pure (tag, s)
    else do
      let s ← visit info tag type s
      let size ← tagSize info tag
      walk fuel (tag + sizeofTag * (roundup2n size 8).toNat) s

/-- The loop, from `multiboot2_info + sizeof(struct multiboot_tag)`. The result is where it stops. -/
def tagLoop (fuel : Nat) : Except Fault (Nat × TagState) :=
  walk info fuel (sizeofTag * sizeofTag) ⟨[], [], 0⟩

/-- From `tag` on, the tags start at `tags` and the END tag at `stop`. -/
inductive TagsAt : Nat → List Nat → Nat → Prop
  | nil {tag : Nat} : tag % 8 = 0 → tagType info tag = .ok tagTypeEnd → tag + 8 ≤ info.bytes.length →
    TagsAt tag [] tag
  | cons {tag stop : Nat} {type size : BitVec 32} {tags : List Nat} : tag % 8 = 0 →
    tagType info tag = .ok type → type ≠ tagTypeEnd → tagSize info tag = .ok size → 8 ≤ size.toNat →
    TagsAt (tag + (size.toNat + 7) / 8 * 8) tags stop → TagsAt tag (tag :: tags) stop

/-- The structure starts with its size and a reserved word; the tags follow. -/
structure WellFormed (tags : List Nat) (stop : Nat) : Prop where
  totalSize : read32 info 0 = .ok (BitVec.ofNat 32 info.bytes.length)
  fits : info.bytes.length < 2 ^ 32
  tags : TagsAt info 8 tags stop

/-- The loop goes through the tags, in order, and stops at the END tag. -/
def WalksTags (tags : List Nat) (stop : Nat) : Prop :=
  ∃ fuel s, tagLoop info fuel = .ok (stop, s) ∧ s.visited = tags

variable {info} {tag stop fuel : Nat} {type : BitVec 32} {s s' : TagState} {tags : List Nat}

lemma visit_visited (h : visit info tag type s = .ok s') : s'.visited = s.visited ++ [tag] := by
  unfold visit at h
  dsimp only at h
  split at h
  · cases h
    rfl
  · obtain ⟨contents, -, hpure⟩ := bind_eq_ok.mp h
    cases hpure
    split <;> rfl

lemma walk_ge (start : Nat) (h : walk info fuel tag s = .ok (stop, s')) (htag : start ≤ tag)
    (hvisited : ∀ o ∈ s.visited, start ≤ o) : start ≤ stop ∧ ∀ o ∈ s'.visited, start ≤ o := by
  -- on the rounds left; each round adds to `tag` and visits the old one
  induction fuel generalizing tag s with
  | zero => cases h
  | succ fuel ih =>
    obtain ⟨type, -, hrest⟩ := bind_eq_ok.mp h
    by_cases hend : type = tagTypeEnd
    · rw [if_pos hend] at hrest
      cases hrest
      exact ⟨htag, hvisited⟩
    · rw [if_neg hend] at hrest
      obtain ⟨s₁, hvisit, hrest⟩ := bind_eq_ok.mp hrest
      obtain ⟨size, -, hrest⟩ := bind_eq_ok.mp hrest
      apply ih hrest (by omega)
      rw [visit_visited hvisit]
      intro o ho
      rcases List.mem_append.mp ho with ho | ho
      · exact hvisited o ho
      · rw [List.mem_singleton.mp ho]
        exact htag

lemma TagsAt.first (h : TagsAt info tag tags stop) : tag ∈ stop :: tags := by
  cases h with
  | nil => simp
  | cons => simp

lemma tagLoop_ge (h : tagLoop info fuel = .ok (stop, s)) : ∀ o ∈ stop :: s.visited, 64 ≤ o := by
  obtain ⟨hstop, hvisited⟩ := walk_ge 64 h (by decide) (by simp)
  intro o ho
  rcases List.mem_cons.mp ho with rfl | ho
  · exact hstop
  · exact hvisited o ho

/-- The loop starts at offset 64 and never comes back, so it misses the tag at offset 8. -/
theorem tags_never_walked (info : MultibootInfo) (tags : List Nat) (stop : Nat) (h : WellFormed info tags stop) :
    ¬WalksTags info tags stop := by
  rintro ⟨fuel, s, hloop, rfl⟩
  -- offset 8 is that of the first tag, or of the END tag if there is no other
  have hfirst := tagLoop_ge hloop 8 h.tags.first
  omega

/-- Basic memory information at offset 8 and the END tag at offset 24. -/
def smallInfo : MultibootInfo :=
  ⟨[32, 0, 0, 0, 0, 0, 0, 0] ++ [4, 0, 0, 0, 16, 0, 0, 0, 128, 2, 0, 0, 0, 0, 2, 0] ++ [0, 0, 0, 0, 8, 0, 0, 0]⟩

lemma wellFormed_smallInfo : WellFormed smallInfo [8] 24 where
  totalSize := by decide
  fits := by decide
  tags := by
    have htype : tagType smallInfo 8 = .ok 4 := by decide
    have hsize : tagSize smallInfo 8 = .ok 16 := by decide
    refine TagsAt.cons (by decide) htype (by decide) hsize (by decide) ?_
    exact TagsAt.nil (by decide) (by decide) (by decide)

theorem tags_never_walked_smallInfo : WellFormed smallInfo [8] 24 ∧ ¬WalksTags smallInfo [8] 24 :=
  ⟨wellFormed_smallInfo, tags_never_walked smallInfo [8] 24 wellFormed_smallInfo⟩

/-- The loop reads the type of its first tag at offset 64, past the 32 bytes of the structure. -/
theorem smallInfo_not_walked : tagLoop smallInfo 1 = .error (.pastEnd 64) ∧
    ¬∀ info tags stop, WellFormed info tags stop → WalksTags info tags stop := by
  refine ⟨rfl, ?_⟩
  intro h
  obtain ⟨fuel, s, hloop, hvisited⟩ := h smallInfo [8] 24 wellFormed_smallInfo
  have hfirst := tagLoop_ge hloop 8 (by simp [hvisited])
  omega

end JavaScriptOS.Boot
