import JavaScriptOS.Lib.CString
import JavaScriptOS.Lib.Reach
import Mathlib.Logic.Function.Basic

/-!
# Path iteration

`PathString::Iterator` over a path in memory, with `strncpy` and `strchr` of `libk/string.c`. A read
outside the path is a fault. The loops get a number of rounds, and running out of it is told apart from
every other end.

`strchr` of `libk` returns null for the terminating NUL, so `end()` is built from a null pointer, and so is
the position after the last component. Both are then read.
-/

namespace JavaScriptOS.Filesystem
open JavaScriptOS.Lib

abbrev Addr := BitVec 64

inductive Fault where
  | badRead (a : Addr)
  | badWrite (i : Nat)
  | diverges
  deriving DecidableEq

abbrev Part := Fin 128 → BitVec 8

def slash : BitVec 8 := 0x2F#8

def store (part : Part) (i : Nat) (c : BitVec 8) : Except Fault Part :=
  if h : i < 128 then .ok (Function.update part ⟨i, h⟩ c) else .error (.badWrite i)

variable (p : CString)

def read (a : Addr) : Except Fault (BitVec 8) :=
  match p.read? a with
  | some c => .ok c
  | none => .error (.badRead a)

def strchr : Nat → Addr → BitVec 8 → Except Fault Addr
  | 0, _, _ => .error .diverges
  | fuel + 1, s, c => do
    let ch ← read p s
    if ch = 0 then pure 0
    else if ch = c then pure s
    else strchr fuel (s + 1) c

/-- The loop of `strncpy` with `k` characters left to copy. -/
def strncpyLoop (src : Addr) : Nat → Nat → Part → Except Fault (Nat × Part)
  | 0, i, dst => pure (i, dst)
  | k + 1, i, dst => do
    let ch ← read p (src + BitVec.ofNat 64 i)
    if ch = 0 then pure (i, dst)
    else do
      let dst ← store dst i ch
      strncpyLoop src k (i + 1) dst

def strncpy (dst : Part) (src : Addr) (n : Nat) : Except Fault Part := do
  let (i, dst) ← strncpyLoop p src n 0 dst
  if i < n then store dst i 0 else pure dst

/-- `while (*s == '/') s++;`. -/
def skipSlashes : Nat → Addr → Except Fault Addr
  | 0, _ => .error .diverges
  | fuel + 1, s => do
    let ch ← read p s
    if ch = slash then skipSlashes fuel (s + 1) else pure s

structure Iterator where
  pos : Addr
  pathend : Addr
  part : Part

namespace Iterator

def partLength (start stop : Addr) : Nat :=
  let len := (stop - start).toNat
  if len ≥ 128 then 127 else len

def extractNext (fuel : Nat) (it : Iterator) : Except Fault Iterator := do
  let start ← skipSlashes p fuel it.pos
  if start = 0 then
    let part ← store it.part 0 0
    pure { it with pos := it.pathend, part := part }
  else
    let stop ← strchr p fuel start slash
    let len := partLength start stop
    let part ← strncpy p it.part start len
    let part ← store part len 0
    let pos ← skipSlashes p fuel stop
    pure { it with pos := pos, part := part }

/-- The constructor, on an object whose `part` is not initialised. -/
def construct (fuel : Nat) (junk : Part) (path : Addr) : Except Fault Iterator := do
  let pathend ← strchr p fuel path 0
  if path ≠ pathend then extractNext p fuel ⟨path, pathend, junk⟩ else pure ⟨path, pathend, junk⟩

/-- `operator++`. -/
def next (fuel : Nat) (it : Iterator) : Except Fault Iterator :=
  if it.pos ≠ it.pathend then it.extractNext p fuel else pure it

def same (it other : Iterator) : Bool := it.pos = other.pos ∧ it.pathend = other.pathend

def text (it : Iterator) : List (BitVec 8) := (List.ofFn it.part).takeWhile (· ≠ 0)

end Iterator

def begin (fuel : Nat) (junk : Part) : Except Fault Iterator := Iterator.construct p fuel junk p.base

/-- `end()`. -/
def finish (fuel : Nat) (junk : Part) : Except Fault Iterator := do
  let path ← strchr p fuel p.base 0
  Iterator.construct p fuel junk path

def loop (fuel : Nat) (stop : Iterator) : Nat → Iterator → Except Fault (List (List (BitVec 8)))
  | 0, _ => .error .diverges
  | rounds + 1, it =>
    if it.same stop then pure []
    else do
      let it' ← it.next p fuel
      let rest ← loop fuel stop rounds it'
      pure (it.text :: rest)

/-- The components that `for (part : PathString(path))` goes through. -/
def iterate (fuel : Nat) (junk : Part) : Except Fault (List (List (BitVec 8))) := do
  let it ← begin p fuel junk
  let stop ← finish p fuel junk
  loop p fuel stop fuel it

/-- The maximal non-empty runs of characters other than the slash. -/
def components : List (List (BitVec 8)) := (p.chars.splitOn slash).filter (· ≠ [])

/-- The iteration ends without a fault, with the components in order. -/
def PathIterates (junk : Part) : Prop := ∃ fuel, iterate p fuel junk = .ok (components p)

variable {p} {fuel i j k n : Nat} {junk dst : Part} {c : BitVec 8} {a r : Addr} {it : Iterator}

lemma read_null (p : CString) : read p 0 = .error (.badRead 0) := by
  rw [read, p.read?_null]

lemma read_ok (hi : i ≤ p.chars.length) :
    ∃ ch, read p (p.addr i) = .ok ch ∧ (ch ≠ 0 → i < p.chars.length) := by
  obtain ⟨ch, hread, hmore⟩ := CString.read?_cases hi
  exact ⟨ch, by rw [read, hread], hmore⟩

lemma strchr_nul (h : strchr p fuel a 0 = .ok r) : r = 0 := by
  induction fuel generalizing a with
  | zero => cases h
  | succ fuel ih =>
    obtain ⟨ch, -, hrest⟩ := bind_eq_ok.mp h
    by_cases hch : ch = 0
    · rw [if_pos hch] at hrest
      cases hrest
      rfl
    · rw [if_neg hch, if_neg hch] at hrest
      exact ih hrest

lemma strchr_null (p : CString) (fuel : Nat) (c : BitVec 8) : strchr p (fuel + 1) 0 c = .error (.badRead 0) := by
  rw [strchr, read_null]
  rfl

lemma skipSlashes_null (p : CString) (fuel : Nat) : skipSlashes p (fuel + 1) 0 = .error (.badRead 0) := by
  rw [skipSlashes, read_null]
  rfl

lemma construct_null (p : CString) (fuel : Nat) (junk : Part) (it : Iterator) :
    Iterator.construct p fuel junk 0 ≠ .ok it := by
  intro h
  obtain ⟨r, hr, -⟩ := bind_eq_ok.mp h
  cases fuel with
  | zero => cases hr
  | succ fuel =>
    rw [strchr_null] at hr
    cases hr

lemma finish_fails (p : CString) (fuel : Nat) (junk : Part) (it : Iterator) : finish p fuel junk ≠ .ok it := by
  intro h
  -- `strchr(str, '\0')` is null, not the address of the NUL
  obtain ⟨r, hr, hit⟩ := bind_eq_ok.mp h
  rw [strchr_nul hr] at hit
  exact construct_null p fuel junk it hit

lemma iterate_fails (p : CString) (fuel : Nat) (junk : Part) (parts : List (List (BitVec 8))) :
    iterate p fuel junk ≠ .ok parts := by
  intro h
  obtain ⟨it, -, hrest⟩ := bind_eq_ok.mp h
  obtain ⟨stop, hstop, -⟩ := bind_eq_ok.mp hrest
  exact finish_fails p fuel junk stop hstop

section EnoughFuel

/-!
With more rounds than the path has characters the loops end inside the path, so that the fault is a read
of the null pointer and nothing else.
-/

lemma strchr_ok (c : BitVec 8) (hi : i ≤ p.chars.length) (hfuel : p.chars.length < fuel + i) :
    ∃ r, strchr p fuel (p.addr i) c = .ok r ∧ (r = 0 ∨ ∃ j, j ≤ p.chars.length ∧ r = p.addr j) := by
  induction fuel generalizing i with
  | zero => omega
  | succ fuel ih =>
    obtain ⟨ch, hread, hmore⟩ := read_ok hi
    simp only [strchr, hread, bind, Except.bind]
    by_cases hnul : ch = 0
    · exact ⟨0, by rw [if_pos hnul]; rfl, Or.inl rfl⟩
    · rw [if_neg hnul]
      by_cases hfound : ch = c
      · exact ⟨p.addr i, by rw [if_pos hfound]; rfl, Or.inr ⟨i, hi, rfl⟩⟩
      · rw [if_neg hfound, p.addr_succ]
        exact ih (hmore hnul) (by omega)

lemma skipSlashes_ok (hi : i ≤ p.chars.length) (hfuel : p.chars.length < fuel + i) :
    ∃ j, j ≤ p.chars.length ∧ skipSlashes p fuel (p.addr i) = .ok (p.addr j) := by
  induction fuel generalizing i with
  | zero => omega
  | succ fuel ih =>
    obtain ⟨ch, hread, hmore⟩ := read_ok hi
    simp only [skipSlashes, hread, bind, Except.bind]
    by_cases hslash : ch = slash
    · rw [if_pos hslash, p.addr_succ]
      exact ih (hmore (by rw [hslash]; decide)) (by omega)
    · exact ⟨i, hi, by rw [if_neg hslash]; rfl⟩

lemma store_ok (dst : Part) (c : BitVec 8) (hi : i < 128) : ∃ dst', store dst i c = .ok dst' :=
  ⟨_, dif_pos hi⟩

lemma strncpyLoop_ok (dst : Part) (hi : j + i ≤ p.chars.length) (hk : i + k ≤ 127) :
    ∃ m dst', strncpyLoop p (p.addr j) k i dst = .ok (m, dst') ∧ m ≤ i + k := by
  induction k generalizing i dst with
  | zero => exact ⟨i, dst, rfl, by omega⟩
  | succ k ih =>
    obtain ⟨ch, hread, hmore⟩ := read_ok hi
    simp only [strncpyLoop, p.addr_add, hread, bind, Except.bind]
    by_cases hnul : ch = 0
    · exact ⟨i, dst, by rw [if_pos hnul]; rfl, by omega⟩
    · -- a character before the NUL: the source has at least one more byte
      obtain ⟨dst₁, hstore⟩ := store_ok dst ch (show i < 128 by omega)
      rw [if_neg hnul, hstore]
      obtain ⟨m, dst', hloop, hm⟩ := ih (i := i + 1) dst₁ (hmore hnul) (by omega)
      exact ⟨m, dst', hloop, by omega⟩

lemma strncpy_ok (dst : Part) (hj : j ≤ p.chars.length) (hn : n ≤ 127) :
    ∃ dst', strncpy p dst (p.addr j) n = .ok dst' := by
  obtain ⟨m, dst₁, hloop, hm⟩ := strncpyLoop_ok (i := 0) (k := n) dst hj (by omega)
  simp only [strncpy, hloop, bind, Except.bind]
  by_cases hlt : m < n
  · rw [if_pos hlt]
    exact store_ok dst₁ 0 (by omega)
  · exact ⟨dst₁, by rw [if_neg hlt]; rfl⟩

lemma partLength_le (a b : Addr) : Iterator.partLength a b ≤ 127 := by
  simp only [Iterator.partLength]
  split <;> omega

lemma extractNext_cases (hfuel : p.chars.length < fuel) (hi : i ≤ p.chars.length) (hpos : it.pos = p.addr i) :
    it.extractNext p fuel = .error (.badRead 0) ∨ ∃ it', it.extractNext p fuel = .ok it' := by
  obtain ⟨j, hj, hskip⟩ := skipSlashes_ok hi (show p.chars.length < fuel + i by omega)
  obtain ⟨stop, hstop, hcases⟩ := strchr_ok slash hj (show p.chars.length < fuel + j by omega)
  obtain ⟨part₁, hcopy⟩ := strncpy_ok it.part hj (partLength_le (p.addr j) stop)
  obtain ⟨part₂, hterm⟩ := store_ok part₁ 0
    (show Iterator.partLength (p.addr j) stop < 128 by have := partLength_le (p.addr j) stop; omega)
  simp only [Iterator.extractNext, hpos, hskip, bind, Except.bind]
  rw [if_neg (CString.addr_ne_zero hj), hstop]
  simp only [hcopy, hterm]
  rcases hcases with rfl | ⟨k, hk, rfl⟩
  · -- no slash follows the component: `end` is null, becomes the position and is read
    left
    obtain ⟨fuel, rfl⟩ := Nat.exists_eq_add_one_of_ne_zero (show fuel ≠ 0 by omega)
    rw [skipSlashes_null]
  · right
    obtain ⟨m, -, hpos'⟩ := skipSlashes_ok hk (show p.chars.length < fuel + k by omega)
    rw [hpos']
    exact ⟨_, rfl⟩

lemma begin_cases (junk : Part) (hfuel : p.chars.length < fuel) :
    begin p fuel junk = .error (.badRead 0) ∨ ∃ it, begin p fuel junk = .ok it := by
  have hbase : p.base = p.addr 0 := by simp [CString.addr]
  obtain ⟨r, hr, -⟩ := strchr_ok 0 (Nat.zero_le p.chars.length) (show p.chars.length < fuel + 0 by omega)
  simp only [begin, Iterator.construct, hbase, hr, bind, Except.bind]
  rw [strchr_nul hr, if_pos (CString.addr_ne_zero (Nat.zero_le _))]
  exact extractNext_cases hfuel (Nat.zero_le _) rfl

lemma finish_null (junk : Part) (hfuel : p.chars.length < fuel) : finish p fuel junk = .error (.badRead 0) := by
  have hbase : p.base = p.addr 0 := by simp [CString.addr]
  obtain ⟨r, hr, -⟩ := strchr_ok 0 (Nat.zero_le p.chars.length) (show p.chars.length < fuel + 0 by omega)
  obtain ⟨fuel, rfl⟩ := Nat.exists_eq_add_one_of_ne_zero (show fuel ≠ 0 by omega)
  rw [finish, hbase, hr, strchr_nul hr]
  change Iterator.construct p (fuel + 1) junk 0 = _
  rw [Iterator.construct, strchr_null]
  rfl

lemma iterate_null (junk : Part) (hfuel : p.chars.length < fuel) : iterate p fuel junk = .error (.badRead 0) := by
  rcases begin_cases junk hfuel with hbegin | ⟨it, hbegin⟩
  · rw [iterate, hbegin]
    rfl
  · rw [iterate, hbegin]
    change (finish p fuel junk >>= _) = _
    rw [finish_null junk hfuel]
    rfl

end EnoughFuel

/-- Whatever the path, its iteration reads the null pointer. -/
theorem path_never_iterates (p : CString) (junk : Part) :
    ¬PathIterates p junk ∧ ∀ k, iterate p (p.chars.length + 1 + k) junk = .error (.badRead 0) := by
  refine ⟨?_, ?_⟩
  · rintro ⟨fuel, hiterate⟩
    exact iterate_fails p fuel junk _ hiterate
  · intro k
    exact iterate_null junk (by omega)

/-- `a/b`. -/
def twoComponents : CString where
  base := 0x1000#64
  chars := [0x61#8, slash, 0x62#8]
  base_ne := by decide
  noNul := by decide
  fits := by decide

theorem twoComponents_not_iterated :
    ¬∀ p junk, (∀ part ∈ components p, part.length < 128) → PathIterates p junk := by
  intro h
  obtain ⟨fuel, hiterate⟩ := h twoComponents (fun _ => 0) (by decide)
  exact iterate_fails twoComponents fuel _ _ hiterate

end JavaScriptOS.Filesystem
