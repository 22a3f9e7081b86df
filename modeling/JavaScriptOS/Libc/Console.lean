import JavaScriptOS.Libc.Vsprintf

/-!
# Debug output

The functions of `console.cpp`: a string goes to port `0xe9` byte by byte, and `debug_printf` formats into an array
of 1024 bytes on its stack first. The array is the first 1024 cells of its memory, and what lies behind it follows.
-/

namespace JavaScriptOS.Libc
open JavaScriptOS.Lib

/-- The loop over a C string, for the bytes that it reads. A string without a NUL has no end. -/
def readString (m : Buf) : Nat → Nat → Except Fault (List (BitVec 8))
  | 0, _ => .error .diverges
  | rounds + 1, s =>
    if m s = 0 then .ok []
    else do
      let chars ← readString m rounds (s + 1)
      pure (m s :: chars)

/-- The bytes that `bochs_debug_output` sends to port `0xe9`. -/
def bochsDebugOutput (m : Buf) (rounds s : Nat) : Except Fault (List (BitVec 8)) := readString m rounds s

/-- The size of `buf`. -/
def debugBufSize : Nat := 1024

/-- `debug_printf`, with the memory from `buf` on and the bytes sent to the port. -/
def debugPrintf (rounds : Nat) (m : Buf) (fmt : List (BitVec 8)) (args : List Arg) :
    Except Fault (Buf × List (BitVec 8)) := do
  let (m, _) ← vsprintf m fmt args
  let sent ← bochsDebugOutput m rounds 0
  pure (m, sent)

variable {f : CompleteFormat} {a : List Arg} {t : List (BitVec 8)}

/-- A string that lies in memory is read in one round more than it has characters. -/
lemma readString_overwrite (m : Buf) (s : Nat) (h : 0 ∉ t) {rounds : Nat} (hrounds : t.length < rounds) :
    readString (overwrite m s (t ++ [0])) rounds s = .ok t := by
  induction t generalizing m s rounds with
  | nil =>
    cases rounds with
    | zero => cases hrounds
    | succ rounds =>
      rw [List.nil_append, overwrite_singleton, readString, Function.update_self]
      exact if_pos rfl
  | cons c t ih =>
    cases rounds with
    | zero => cases hrounds
    | succ rounds =>
      have hc : c ≠ 0 := fun h0 => h (h0 ▸ List.mem_cons_self)
      have hhead : overwrite m s (c :: t ++ [0]) s = c :=
        overwrite_add (i := 0) (by simp)
      rw [readString, hhead, if_neg hc, List.cons_append, overwrite_cons,
        ih _ _ (fun hmem => h (List.mem_cons_of_mem _ hmem)) (by simpa using hrounds)]
      rfl

lemma digitChar_ne_zero : ∀ k < 16, digitChar k ≠ 0 := by decide

lemma zero_not_mem_numeral {base : Nat} (hlo : 1 < base) (hhi : base ≤ 16) (n : Nat) :
    0 ∉ numeral digitChar base n := by
  intro hmem
  obtain ⟨k, hk, hzero⟩ := List.mem_map.mp hmem
  have hlt := lt_of_mem_places hlo hk
  exact digitChar_ne_zero k (by omega) hzero

lemma Piece.Prints.zero_not_mem {p : Piece} (hnul : 0 ∉ p.bytes) (h : p.Prints a t) : 0 ∉ t := by
  cases h with
  | literal c _ => exact hnul
  | unsigned v => exact zero_not_mem_numeral (by decide) (by decide) _
  | hex v =>
    simp only [List.mem_cons, not_or]
    exact ⟨by decide, by decide, zero_not_mem_numeral (by decide) (by decide) _⟩
  | string _ hchars => exact hchars
  | unknown => exact List.not_mem_nil

/-- A text has no NUL in it. -/
lemma Prints.zero_not_mem {ps : List Piece} (hnul : 0 ∉ spell ps) (h : Prints ps a t) : 0 ∉ t := by
  induction h with
  | nil => exact List.not_mem_nil
  | cons hp _ ih =>
    rw [spell_cons, List.mem_append, not_or] at hnul
    rw [List.mem_append, not_or]
    exact ⟨hp.zero_not_mem hnul.1, ih hnul.2⟩

lemma debugPrintf_eq (h : Prints (pieces f.chars) a t) (m : Buf) (rest : List (BitVec 8)) (extra : List Arg)
    {rounds : Nat} (hrounds : t.length < rounds) :
    debugPrintf rounds m (f.chars ++ 0 :: rest) (a ++ extra) = .ok (overwrite m 0 (t ++ [0]), t) := by
  have hnul : 0 ∉ spell (pieces f.chars) := by
    rw [f.complete]
    exact f.noNul
  rw [debugPrintf, writes_of_prints h m rest extra, ok_bind]
  dsimp only
  rw [bochsDebugOutput, readString_overwrite m 0 (h.zero_not_mem hnul) hrounds]
  rfl

/-- A string written at the start of an array stays inside it, for all earlier contents, exactly if it is shorter
than the array. -/
lemma overwrite_inside_iff (size : Nat) :
    (∀ (m : Buf) x, size ≤ x → overwrite m 0 (t ++ [0]) x = m x) ↔ t.length < size := by
  have hlen : (t ++ [(0 : BitVec 8)]).length = t.length + 1 := by simp
  constructor
  · intro h
    by_contra hge
    -- the NUL lies behind the array, where a one is taken to have been
    have hcell := h (fun _ => 1) (0 + t.length) (by omega)
    rw [overwrite_add (by omega)] at hcell
    simp at hcell
  · intro hlt m x hx
    exact overwrite_of_outside (Or.inr (by omega))

/-- For every complete format with its arguments: `debug_printf` sends the text of the format to the port and leaves
what lies behind its array alone, whatever lies there, behind the format and behind the arguments, exactly if the
text has less than 1024 characters. -/
theorem debugPrintf_sends_iff (f : CompleteFormat) (a : List Arg) (h : Consumes f a) :
    ∃ t, Prints (pieces f.chars) a t ∧
      ((∀ m rest extra rounds, t.length < rounds →
          ∃ m', debugPrintf rounds m (f.chars ++ 0 :: rest) (a ++ extra) = .ok (m', t) ∧
            ∀ x, debugBufSize ≤ x → m' x = m x) ↔ t.length < debugBufSize) := by
  obtain ⟨t, ht⟩ := h
  refine ⟨t, ht, ?_⟩
  rw [← overwrite_inside_iff]
  constructor
  · intro hsends m
    obtain ⟨m', hrun, hinside⟩ := hsends m [] [] _ (Nat.lt_succ_self _)
    rw [debugPrintf_eq ht m [] [] (Nat.lt_succ_self _)] at hrun
    cases hrun
    exact hinside
  · intro hinside m rest extra rounds hrounds
    exact ⟨_, debugPrintf_eq ht m rest extra hrounds, hinside m⟩

theorem debugPrintf_sends_iff_number :
    ∃ t, Prints (pieces (text "%u")) [.ulong 7] t ∧
      ((∀ m rest extra rounds, t.length < rounds →
          ∃ m', debugPrintf rounds m (text "%u" ++ 0 :: rest) ([.ulong 7] ++ extra) = .ok (m', t) ∧
            ∀ x, debugBufSize ≤ x → m' x = m x) ↔ t.length < debugBufSize) :=
  debugPrintf_sends_iff (CompleteFormat.single (.directive (ascii 'u')) (by decide)) [.ulong 7]
    ⟨_, CompleteFormat.prints_single (by decide) (.unsigned 7)⟩

end JavaScriptOS.Libc
