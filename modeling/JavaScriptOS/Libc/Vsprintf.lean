import JavaScriptOS.Libc.Format

/-!
# What `vsprintf` writes

The text of a format is put together from the texts of its parts. Three things go wrong at the edges: a number
passes through an `int` on its way to `sprintbase`, the length of the text is returned as an `int`, and a `%`
before the NUL of the format takes that NUL for its directive.
-/

namespace JavaScriptOS.Libc
open JavaScriptOS.Lib

/-- A C string that does not end inside a directive. -/
structure CompleteFormat where
  chars : List (BitVec 8)
  noNul : 0 ∉ chars
  complete : Complete chars

/-- Each directive of the format gets an argument of its kind, and none is left. -/
def Consumes (f : CompleteFormat) (args : List Arg) : Prop := ∃ t, Prints (pieces f.chars) args t

/-- The format and the arguments make `vsprintf` write a text and a NUL and nothing else. -/
def Writes (fmt : List (BitVec 8)) (args : List Arg) (t : List (BitVec 8)) : Prop :=
  ∀ m rest extra, vsprintf m (fmt ++ 0 :: rest) (args ++ extra) =
    .ok (overwrite m 0 (t ++ [0]), BitVec.ofNat 32 t.length)

def text (s : String) : List (BitVec 8) := s.toList.map ascii

variable {f f₁ f₂ : CompleteFormat} {a a₁ a₂ : List Arg} {t t₁ t₂ : List (BitVec 8)} {v : BitVec 64}

lemma writes_of_prints (h : Prints (pieces f.chars) a t) : Writes f.chars a t := by
  intro m rest extra
  have hnul : 0 ∉ spell (pieces f.chars) := by
    rw [f.complete]
    exact f.noNul
  obtain ⟨p, hrun, -, happ⟩ := pieces_run h hnul ⟨m, 0, a ++ extra⟩ rfl
  have hbuf : p.buf = t.length := happ.buf.trans (Nat.zero_add _)
  have hmem : Function.update p.mem p.buf 0 = overwrite m 0 (t ++ [0]) := by
    funext x
    rw [overwrite_append, overwrite_singleton, Nat.zero_add, ← hbuf]
    by_cases hx : x = p.buf
    · rw [hx, Function.update_self, Function.update_self]
    · rw [Function.update_of_ne hx, Function.update_of_ne hx, happ.mem x hx]
  have hformat : format (f.chars ++ 0 :: rest) ⟨m, 0, a ++ extra⟩ = .ok (0 :: rest, p) := by
    have hall := hrun (0 :: rest)
    rwa [f.complete, format_nul] at hall
  rw [vsprintf, hformat, ← hmem, ← hbuf]
  rfl

namespace CompleteFormat

def append (f g : CompleteFormat) : CompleteFormat where
  chars := f.chars ++ g.chars
  noNul := by
    rw [List.mem_append, not_or]
    exact ⟨f.noNul, g.noNul⟩
  complete := by
    rw [Complete, f.complete.pieces_append, spell, List.flatMap_append]
    exact congrArg₂ (· ++ ·) f.complete g.complete

lemma prints_append (h₁ : Prints (pieces f₁.chars) a₁ t₁) (h₂ : Prints (pieces f₂.chars) a₂ t₂) :
    Prints (pieces (f₁.append f₂).chars) (a₁ ++ a₂) (t₁ ++ t₂) := by
  rw [append, f₁.complete.pieces_append]
  exact h₁.append h₂

/-- A format of one piece. -/
def single (p : Piece) (h : 0 ∉ p.bytes) : CompleteFormat where
  chars := p.bytes
  noNul := h
  complete := by
    rw [Complete, pieces_bytes, spell_cons]
    exact List.append_nil _

lemma prints_single {p : Piece} (h : 0 ∉ p.bytes) (hp : p.Prints a t) : Prints (pieces (single p h).chars) a t := by
  rw [single, pieces_bytes]
  exact hp.single

end CompleteFormat

open CompleteFormat

/-! ## Numbers -/

/-- The numbers that survive the conversion to `int` and back to `unsigned long`. -/
def FitsInt (v : BitVec 64) : Prop := v.toNat < 2 ^ 31 ∨ 2 ^ 64 - 2 ^ 31 ≤ v.toNat

lemma asInt_eq_iff : asInt v = v ↔ FitsInt v := by
  have hlow : (v.setWidth 32).toNat = v.toNat % 2 ^ 32 := BitVec.toNat_setWidth 32 v
  have hwide : ((v.setWidth 32).setWidth 64).toNat = v.toNat % 2 ^ 32 := by
    rw [BitVec.toNat_setWidth_of_le (by decide), hlow]
  have hlt := v.isLt
  rw [← BitVec.toNat_inj, asInt, BitVec.toNat_signExtend, hwide, BitVec.msb_eq_decide, hlow, FitsInt]
  by_cases hneg : 2 ^ (32 - 1) ≤ v.toNat % 2 ^ 32
  · rw [if_pos (decide_eq_true hneg)]
    omega
  · rw [if_neg (by simpa using hneg)]
    omega

lemma numeral_asInt_iff {base : Nat} (hlo : 1 < base) (hhi : base ≤ 16) :
    numeral digitChar base (asInt v).toNat = numeral digitChar base v.toNat ↔ FitsInt v := by
  rw [← asInt_eq_iff]
  constructor
  · intro h
    apply BitVec.eq_of_toNat_eq
    exact numeral_inj hlo (fun k hk => digitValue_digitChar k (by omega)) h
  · intro h
    rw [h]

/-- What `vsprintf` writes for a `%u` and for a `%x`, between the texts of what stands before and behind, is the
numeral of the argument exactly if the argument fits. -/
theorem number_text_iff (f₁ f₂ : CompleteFormat) (a₁ a₂ : List Arg) (v : BitVec 64) (h₁ : Consumes f₁ a₁)
    (h₂ : Consumes f₂ a₂) :
    ∃ t₁ t₂ u x, Writes f₁.chars a₁ t₁ ∧ Writes f₂.chars a₂ t₂ ∧
      Writes (f₁.chars ++ text "%u" ++ f₂.chars) (a₁ ++ [.ulong v] ++ a₂) (t₁ ++ u ++ t₂) ∧
      Writes (f₁.chars ++ text "%x" ++ f₂.chars) (a₁ ++ [.ulong v] ++ a₂) (t₁ ++ x ++ t₂) ∧
      (u = decimal v.toNat ↔ FitsInt v) ∧ (x = text "0x" ++ hexadecimal v.toNat ↔ FitsInt v) := by
  obtain ⟨t₁, ht₁⟩ := h₁
  obtain ⟨t₂, ht₂⟩ := h₂
  have hu := prints_single (by decide) (.unsigned v)
  have hx := prints_single (by decide) (.hex v)
  refine ⟨t₁, t₂, _, _, writes_of_prints ht₁, writes_of_prints ht₂,
    writes_of_prints (prints_append (prints_append ht₁ hu) ht₂),
    writes_of_prints (prints_append (prints_append ht₁ hx) ht₂), ?_, ?_⟩
  · exact numeral_asInt_iff (by decide) (by decide)
  · exact (List.append_right_inj (text "0x")).trans (numeral_asInt_iff (by decide) (by decide))

theorem number_text_seven :
    Consumes (single (.literal (ascii 'a') (by decide)) (by decide)) [] ∧
      ∃ t₁ t₂ u x, Writes (text "a") [] t₁ ∧ Writes (text "a") [] t₂ ∧
        Writes (text "a" ++ text "%u" ++ text "a") ([] ++ [.ulong 7] ++ []) (t₁ ++ u ++ t₂) ∧
        Writes (text "a" ++ text "%x" ++ text "a") ([] ++ [.ulong 7] ++ []) (t₁ ++ x ++ t₂) ∧
        (u = decimal 7 ↔ FitsInt 7) ∧ (x = text "0x" ++ hexadecimal 7 ↔ FitsInt 7) := by
  have hlit : Consumes (single (.literal (ascii 'a') (by decide)) (by decide)) [] :=
    ⟨_, prints_single (by decide) (.literal _ _)⟩
  exact ⟨hlit, number_text_iff _ _ [] [] 7 hlit hlit⟩

lemma writes_unsigned (v : BitVec 64) : Writes (text "%u") [.ulong v] (decimal (asInt v).toNat) :=
  writes_of_prints (prints_single (by decide) (.unsigned v))

lemma writes_hex (v : BitVec 64) : Writes (text "%x") [.ulong v] (text "0x" ++ hexadecimal (asInt v).toNat) :=
  writes_of_prints (prints_single (by decide) (.hex v))

/-- `2 ^ 31` comes out as its sign extension. -/
theorem number_text_sign_extended :
    Writes (text "%u") [.ulong 0x80000000] (text "18446744071562067968") ∧ decimal 0x80000000 = text "2147483648" ∧
      Writes (text "%x") [.ulong 0x80000000] (text "0x" ++ text "ffffffff80000000") ∧
      hexadecimal 0x80000000 = text "80000000" := by
  have hdec : decimal (asInt 0x80000000).toNat = text "18446744071562067968" := by decide +kernel
  have hhex : hexadecimal (asInt 0x80000000).toNat = text "ffffffff80000000" := by decide +kernel
  have hu := writes_unsigned 0x80000000
  have hx := writes_hex 0x80000000
  rw [hdec] at hu
  rw [hhex] at hx
  exact ⟨hu, by decide +kernel, hx, by decide +kernel⟩

/-! ## Texts -/

/-- The return value is the number of characters and the index of the NUL. -/
def ReturnsLength (fmt : List (BitVec 8)) (args : List Arg) (t : List (BitVec 8)) : Prop :=
  ∀ m, ∃ m' r, vsprintf m (fmt ++ [0]) args = .ok (m', r) ∧ r.toInt = t.length ∧ m' r.toNat = 0

lemma Writes.returnsLength_iff {fmt : List (BitVec 8)} (h : Writes fmt a t) :
    ReturnsLength fmt a t ↔ t.length < 2 ^ 31 := by
  have hrun : ∀ m, vsprintf m (fmt ++ [0]) a = .ok (overwrite m 0 (t ++ [0]), BitVec.ofNat 32 t.length) := by
    intro m
    have hnone := h m [] []
    rwa [List.append_nil] at hnone
  constructor
  · intro hret
    obtain ⟨m', r, -, hlen, -⟩ := hret fun _ => 0
    have hlt : r.toInt < 2 ^ (32 - 1) := BitVec.toInt_lt
    omega
  · intro hlt m
    have hnat : (BitVec.ofNat 32 t.length).toNat = t.length := Nat.mod_eq_of_lt (by omega)
    refine ⟨_, _, hrun m, ?_, ?_⟩
    · rw [BitVec.toInt_eq_toNat_of_lt (by omega), hnat]
    · rw [hnat, overwrite_append, overwrite_singleton, Nat.zero_add, Function.update_self]

/-- What a literal character, a `%s` and an unknown directive stand for. -/
structure PieceTexts : Prop where
  literal : ∀ c, c ≠ 0 → c ≠ ascii '%' → Writes [c] [] [c]
  string : ∀ chars, 0 ∉ chars → Writes (text "%s") [.string chars] chars
  unknown : ∀ c, c ≠ 0 → c ≠ ascii 'u' → c ≠ ascii 'x' → c ≠ ascii 's' → Writes [ascii '%', c] [] []

lemma pieceTexts : PieceTexts where
  literal c hzero h := by
    have hnul : 0 ∉ (Piece.literal c h).bytes := by simpa [Piece.bytes] using hzero.symm
    exact writes_of_prints (prints_single hnul (.literal c h))
  string chars h := writes_of_prints (prints_single (by decide) (.string chars h))
  unknown c hzero hu hx hs := by
    have hnul : 0 ∉ (Piece.directive c).bytes := by
      simp only [Piece.bytes, List.mem_cons, List.not_mem_nil, or_false, not_or]
      exact ⟨by decide, hzero.symm⟩
    exact writes_of_prints (prints_single hnul (.unknown c hu hx hs))

/-- Texts compose as formats and arguments do. The return value is their length as long as that is an `int`. -/
theorem vsprintf_append_iff (f₁ f₂ : CompleteFormat) (a₁ a₂ : List Arg) (h₁ : Consumes f₁ a₁) (h₂ : Consumes f₂ a₂) :
    PieceTexts ∧ ∃ t₁ t₂, Writes f₁.chars a₁ t₁ ∧ Writes f₂.chars a₂ t₂ ∧
      Writes (f₁.chars ++ f₂.chars) (a₁ ++ a₂) (t₁ ++ t₂) ∧
      (ReturnsLength (f₁.chars ++ f₂.chars) (a₁ ++ a₂) (t₁ ++ t₂) ↔ (t₁ ++ t₂).length < 2 ^ 31) := by
  obtain ⟨t₁, ht₁⟩ := h₁
  obtain ⟨t₂, ht₂⟩ := h₂
  have hboth : Writes (f₁.chars ++ f₂.chars) (a₁ ++ a₂) (t₁ ++ t₂) := writes_of_prints (prints_append ht₁ ht₂)
  exact ⟨pieceTexts, t₁, t₂, writes_of_prints ht₁, writes_of_prints ht₂, hboth, hboth.returnsLength_iff⟩

theorem vsprintf_append_string :
    ∃ f₁ f₂ : CompleteFormat, Consumes f₁ [] ∧ Consumes f₂ [.string (text "b")] ∧
      PieceTexts ∧ ∃ t₁ t₂, Writes f₁.chars [] t₁ ∧ Writes f₂.chars [.string (text "b")] t₂ ∧
        Writes (f₁.chars ++ f₂.chars) ([] ++ [.string (text "b")]) (t₁ ++ t₂) ∧
        (ReturnsLength (f₁.chars ++ f₂.chars) ([] ++ [.string (text "b")]) (t₁ ++ t₂) ↔
          (t₁ ++ t₂).length < 2 ^ 31) := by
  have hlit : Consumes (single (.literal (ascii 'a') (by decide)) (by decide)) [] :=
    ⟨_, prints_single (by decide) (.literal _ _)⟩
  have hstr : Consumes (single (.directive (ascii 's')) (by decide)) [.string (text "b")] :=
    ⟨_, prints_single (by decide) (.string _ (by decide))⟩
  exact ⟨_, _, hlit, hstr, vsprintf_append_iff _ _ _ _ hlit hstr⟩

/-- A format of `n` letters `a`. -/
def letters (n : Nat) : CompleteFormat where
  chars := List.replicate n (ascii 'a')
  noNul := by
    intro h
    exact absurd (List.eq_of_mem_replicate h) (by decide)
  complete := by
    induction n with
    | zero => rfl
    | succ n ih =>
      rw [Complete, List.replicate_succ, pieces_literal (by decide), spell_cons, ih]
      rfl

lemma prints_replicate (n : Nat) :
    Prints (pieces (List.replicate n (ascii 'a'))) [] (List.replicate n (ascii 'a')) := by
  induction n with
  | zero => exact .nil
  | succ n ih =>
    rw [List.replicate_succ, pieces_literal (by decide)]
    exact Prints.cons (.literal (ascii 'a') (by decide)) ih

lemma writes_letters (n : Nat) : Writes (letters n).chars [] (List.replicate n (ascii 'a')) :=
  writes_of_prints (f := letters n) (prints_replicate n)

lemma letters_return (n : Nat) (m : Buf) :
    ∃ m', vsprintf m ((letters n).chars ++ [0]) [] = .ok (m', BitVec.ofNat 32 n) := by
  have hrun := writes_letters n m [] []
  rw [List.length_replicate] at hrun
  exact ⟨_, hrun⟩

lemma letters_returnsLength_iff (n : Nat) :
    ReturnsLength (letters n).chars [] (List.replicate n (ascii 'a')) ↔ n < 2 ^ 31 := by
  rw [(writes_letters n).returnsLength_iff, List.length_replicate]

/-- With `2 ^ 31` letters the return value is negative. -/
theorem vsprintf_returns_negative :
    Writes (letters (2 ^ 31)).chars [] (List.replicate (2 ^ 31) (ascii 'a')) ∧
      (∀ m, ∃ m' r, vsprintf m ((letters (2 ^ 31)).chars ++ [0]) [] = .ok (m', r) ∧ r.toInt = -2 ^ 31) ∧
      ¬ReturnsLength (letters (2 ^ 31)).chars [] (List.replicate (2 ^ 31) (ascii 'a')) := by
  have hint : (BitVec.ofNat 32 (2 ^ 31)).toInt = -2 ^ 31 := by decide
  refine ⟨writes_letters (2 ^ 31), fun m => ?_, ?_⟩
  · obtain ⟨m', hrun⟩ := letters_return (2 ^ 31) m
    exact ⟨m', _, hrun, hint⟩
  · rw [letters_returnsLength_iff (2 ^ 31)]
    exact Nat.lt_irrefl _

/-! ## The end of the format -/

/-- The loop ends at the NUL of the format and has read nothing behind it. -/
def StopsAtNul (fmt : List (BitVec 8)) (p : Printer) : Prop := ∃ p', format (fmt ++ [0]) p = .ok ([0], p')

/-- There is an argument of the right kind for each directive. -/
def Supplied (fmt : List (BitVec 8)) (args : List Arg) : Prop :=
  ∃ a t extra, args = a ++ extra ∧ Prints (pieces fmt) a t

lemma not_mem_spell_pieces {fmt : List (BitVec 8)} (h : 0 ∉ fmt) : 0 ∉ spell (pieces fmt) := by
  rcases complete_or_lone fmt with hfmt | hfmt
  · rwa [hfmt]
  · intro hmem
    rw [hfmt] at h
    exact h (List.mem_append_left _ hmem)

/-- The NUL is taken for a directive, and the loop goes on behind it. -/
lemma format_lone (rest : List (BitVec 8)) (p : Printer) : format (ascii '%' :: 0 :: rest) p = format rest p :=
  (format_directive 0 rest p).trans rfl

/-- A directive fails for want of an argument only. -/
lemma directive_cases (c : BitVec 8) (p : Printer) :
    directive c p = .error .badArgument ∨ ∃ p', directive c p = .ok p' := by
  have hnumber : ∀ (q : Printer) v (base : BitVec 8), 2 ≤ base.toNat → base.toNat ≤ 16 →
      ∃ p', q.number v base = .ok p' := by
    intro q v base hlo hhi
    obtain ⟨p', hrun, -⟩ := number_appends base hlo hhi q v
    exact ⟨p', hrun⟩
  unfold directive
  split
  case isTrue =>
    split
    · exact Or.inr (hnumber _ _ 10 (by decide) (by decide))
    · exact Or.inl rfl
  case isFalse =>
    split
    case isTrue =>
      split
      · exact Or.inr (hnumber _ _ 16 (by decide) (by decide))
      · exact Or.inl rfl
    case isFalse =>
      split
      case isTrue =>
        split
        · exact Or.inr ⟨_, rfl⟩
        · exact Or.inl rfl
      case isFalse => exact Or.inr ⟨p, rfl⟩

lemma run_cases (piece : Piece) (p : Printer) : piece.run p = .error .badArgument ∨ ∃ p', piece.run p = .ok p' := by
  cases piece with
  | literal c _ => exact Or.inr ⟨p.put c, rfl⟩
  | directive c => exact directive_cases c p

/-- With any arguments, the loop gets through the pieces or misses an argument. -/
lemma pieces_cases {ps : List Piece} (hnul : 0 ∉ spell ps) (rest : List (BitVec 8)) (p : Printer) :
    format (spell ps ++ rest) p = .error .badArgument ∨ ∃ p', format (spell ps ++ rest) p = format rest p' := by
  induction ps generalizing p with
  | nil => exact Or.inr ⟨p, rfl⟩
  | cons piece ps ih =>
    rw [spell_cons, List.mem_append, not_or] at hnul
    rw [spell_cons, List.append_assoc, format_piece hnul.1]
    rcases run_cases piece p with hrun | ⟨p', hrun⟩
    · rw [hrun]
      exact Or.inl rfl
    · rw [hrun]
      exact ih hnul.2 p'

/-- A complete format is read up to its NUL, unless an argument is missing. With the arguments there, a format is
read up to its NUL exactly if it is complete, and otherwise the loop goes on with the bytes behind the NUL. -/
theorem format_stops_iff (fmt : List (BitVec 8)) (h : 0 ∉ fmt) (p : Printer) :
    (Complete fmt → StopsAtNul fmt p ∨ format (fmt ++ [0]) p = .error .badArgument) ∧
      (Supplied fmt p.args → (StopsAtNul fmt p ↔ Complete fmt) ∧
        (¬Complete fmt → format (fmt ++ [0]) p = .error .pastFormat ∧
          ∃ p', ∀ rest, format (fmt ++ 0 :: rest) p = format rest p')) := by
  have hnul := not_mem_spell_pieces h
  constructor
  · intro hfmt
    have hcases := pieces_cases hnul [0] p
    rw [hfmt] at hcases
    rcases hcases with hbad | ⟨p', hrun⟩
    · exact Or.inr hbad
    · exact Or.inl ⟨p', hrun.trans (format_nul [] p')⟩
  · rintro ⟨a, t, extra, hargs, hprints⟩
    obtain ⟨p', hrun, -⟩ := pieces_run hprints hnul p hargs
    have hpast : ¬Complete fmt → ∀ rest, format (fmt ++ 0 :: rest) p = format rest p' := by
      intro hfmt rest
      have hlone := (complete_or_lone fmt).resolve_left hfmt
      rw [hlone, List.append_assoc, hrun]
      exact format_lone rest p'
    refine ⟨⟨?_, ?_⟩, fun hfmt => ⟨hpast hfmt [], p', hpast hfmt⟩⟩
    · rintro ⟨q, hq⟩
      by_contra hfmt
      rw [hpast hfmt []] at hq
      cases hq
    · intro hfmt
      have hall := hrun [0]
      rw [hfmt, format_nul] at hall
      exact ⟨p', hall⟩

theorem format_stops_unknown :
    Supplied (text "a%d") [] ∧ StopsAtNul (text "a%d") ⟨fun _ => 0, 0, []⟩ := by
  have hliteral : (Piece.literal (ascii 'a') (by decide)).Prints [] [ascii 'a'] := .literal _ _
  have hunknown : (Piece.directive (ascii 'd')).Prints [] [] := .unknown _ (by decide) (by decide) (by decide)
  have hsupplied : Supplied (text "a%d") [] := ⟨[], text "a", [], rfl, .cons hliteral (.cons hunknown .nil)⟩
  have hstops := (format_stops_iff (text "a%d") (by decide) ⟨fun _ => 0, 0, []⟩).2 hsupplied
  exact ⟨hsupplied, hstops.1.mpr (by decide)⟩

/-- Behind the format `%` the loop goes on with whatever lies there. -/
lemma vsprintf_lone (m : Buf) (rest : List (BitVec 8)) (args : List Arg) :
    vsprintf m (text "%" ++ 0 :: rest) args = vsprintf m rest args := by
  have hpast : format (text "%" ++ 0 :: rest) ⟨m, 0, args⟩ = format rest ⟨m, 0, args⟩ := format_lone rest _
  rw [vsprintf, vsprintf, hpast]

theorem vsprintf_reads_past :
    vsprintf (fun _ => 0) (text "%" ++ [0]) [] = .error .pastFormat ∧
      vsprintf (fun _ => 0) (text "%" ++ 0 :: (text "ab" ++ [0])) [] = vsprintf (fun _ => 0) (text "ab" ++ [0]) [] ∧
      ¬∀ (fmt : List (BitVec 8)) (p : Printer), 0 ∉ fmt → Supplied fmt p.args → StopsAtNul fmt p := by
  refine ⟨vsprintf_lone _ [] [], vsprintf_lone _ _ [], fun h => ?_⟩
  have hsupplied : Supplied (text "%") [] := ⟨[], [], [], rfl, .nil⟩
  obtain ⟨p', hstops⟩ := h (text "%") ⟨fun _ => 0, 0, []⟩ (by decide) hsupplied
  have hpast : format (text "%" ++ [0]) ⟨fun _ => 0, 0, []⟩ = .error .pastFormat := format_lone [] _
  rw [hpast] at hstops
  cases hstops

end JavaScriptOS.Libc
