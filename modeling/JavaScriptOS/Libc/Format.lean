import JavaScriptOS.Libc.Sprintbase

/-!
# Formats and what they print

A format is a sequence of literal characters and directives, possibly with a `%` left over at its end.
`Piece.Prints` says which arguments a piece takes and which text it stands for, and the loop of `vsprintf` does
just that, whatever comes behind the piece.
-/

namespace JavaScriptOS.Libc
open JavaScriptOS.Lib

inductive Piece where
  | literal (c : BitVec 8) (h : c ≠ ascii '%')
  | directive (c : BitVec 8)
  deriving DecidableEq

def Piece.bytes : Piece → List (BitVec 8)
  | .literal c _ => [c]
  | .directive c => [ascii '%', c]

def spell (ps : List Piece) : List (BitVec 8) := ps.flatMap Piece.bytes

/-- The pieces of a format, without a `%` at its end that nothing follows. -/
def pieces : List (BitVec 8) → List Piece
  | [] => []
  | c :: fmt =>
    if h : c = ascii '%' then
      match fmt with
      | [] => []
      | d :: fmt => .directive d :: pieces fmt
    else .literal c h :: pieces fmt

/-- The format does not end inside a directive. -/
def Complete (fmt : List (BitVec 8)) : Prop := spell (pieces fmt) = fmt

instance decidableComplete (fmt : List (BitVec 8)) : Decidable (Complete fmt) :=
  inferInstanceAs (Decidable (spell (pieces fmt) = fmt))

lemma spell_cons (p : Piece) (ps : List Piece) : spell (p :: ps) = p.bytes ++ spell ps := rfl

lemma pieces_literal {c : BitVec 8} (h : c ≠ ascii '%') (fmt : List (BitVec 8)) :
    pieces (c :: fmt) = .literal c h :: pieces fmt := by
  rw [pieces.eq_def]
  exact dif_neg h

lemma pieces_directive (d : BitVec 8) (fmt : List (BitVec 8)) :
    pieces (ascii '%' :: d :: fmt) = .directive d :: pieces fmt := by
  rw [pieces.eq_def]
  exact dif_pos rfl

lemma pieces_bytes (p : Piece) : pieces p.bytes = [p] := by
  cases p with
  | literal c h => exact pieces_literal h []
  | directive c => exact pieces_directive c []

lemma pieces_spell_append (ps : List Piece) (fmt : List (BitVec 8)) : pieces (spell ps ++ fmt) = ps ++ pieces fmt := by
  induction ps with
  | nil => rfl
  | cons p ps ih =>
    rw [spell_cons, List.append_assoc, List.cons_append, ← ih]
    cases p with
    | literal c h => exact pieces_literal h _
    | directive c => exact pieces_directive c _

/-- All that can keep a format from being complete is a `%` at its end. -/
lemma complete_or_lone (fmt : List (BitVec 8)) : Complete fmt ∨ fmt = spell (pieces fmt) ++ [ascii '%'] := by
  unfold Complete
  fun_induction pieces fmt with
  | case1 => exact Or.inl rfl
  | case2 => exact Or.inr rfl
  | case3 d fmt ih =>
    rw [spell_cons, Piece.bytes]
    rcases ih with ih | ih
    · exact Or.inl (congrArg (fun l => ascii '%' :: d :: l) ih)
    · exact Or.inr (congrArg (fun l => ascii '%' :: d :: l) ih)
  | case4 c fmt h ih =>
    rw [spell_cons, Piece.bytes]
    rcases ih with ih | ih
    · exact Or.inl (congrArg (c :: ·) ih)
    · exact Or.inr (congrArg (c :: ·) ih)

lemma Complete.pieces_append {f₁ : List (BitVec 8)} (h : Complete f₁) (f₂ : List (BitVec 8)) :
    pieces (f₁ ++ f₂) = pieces f₁ ++ pieces f₂ := by
  have hsplit := pieces_spell_append (pieces f₁) f₂
  rwa [h] at hsplit

def decimal (n : Nat) : List (BitVec 8) := numeral digitChar 10 n

def hexadecimal (n : Nat) : List (BitVec 8) := numeral digitChar 16 n

/-- The arguments that a piece takes and the text that it is replaced by. -/
inductive Piece.Prints : Piece → List Arg → List (BitVec 8) → Prop
  | literal (c : BitVec 8) (h : c ≠ ascii '%') : Prints (.literal c h) [] [c]
  | unsigned (v : BitVec 64) : Prints (.directive (ascii 'u')) [.ulong v] (decimal (asInt v).toNat)
  | hex (v : BitVec 64) :
    Prints (.directive (ascii 'x')) [.ulong v] (ascii '0' :: ascii 'x' :: hexadecimal (asInt v).toNat)
  | string (chars : List (BitVec 8)) (h : 0 ∉ chars) : Prints (.directive (ascii 's')) [.string chars] chars
  | unknown (c : BitVec 8) (hu : c ≠ ascii 'u') (hx : c ≠ ascii 'x') (hs : c ≠ ascii 's') :
    Prints (.directive c) [] []

inductive Prints : List Piece → List Arg → List (BitVec 8) → Prop
  | nil : Prints [] [] []
  | cons {p : Piece} {ps : List Piece} {a as : List Arg} {t ts : List (BitVec 8)} :
    p.Prints a t → Prints ps as ts → Prints (p :: ps) (a ++ as) (t ++ ts)

lemma Prints.append {ps ps' : List Piece} {a a' : List Arg} {t t' : List (BitVec 8)} (h : Prints ps a t)
    (h' : Prints ps' a' t') : Prints (ps ++ ps') (a ++ a') (t ++ t') := by
  induction h with
  | nil => exact h'
  | cons hp _ ih =>
    rw [List.append_assoc, List.append_assoc]
    exact .cons hp ih

lemma Piece.Prints.single {p : Piece} {a : List Arg} {t : List (BitVec 8)} (h : p.Prints a t) :
    Libc.Prints [p] a t := by
  have hcons := Libc.Prints.cons h .nil
  rwa [List.append_nil, List.append_nil] at hcons

/-- A text has been put behind what was there. The cell after it may hold a NUL, which is overwritten next. -/
structure Appends (p : Printer) (t : List (BitVec 8)) (p' : Printer) : Prop where
  buf : p'.buf = p.buf + t.length
  mem : ∀ x, x ≠ p'.buf → p'.mem x = overwrite p.mem p.buf t x

lemma Appends.refl (p : Printer) : Appends p [] p :=
  ⟨rfl, fun x _ => by rw [overwrite_nil]⟩

lemma Appends.trans {p p' p'' : Printer} {t t' : List (BitVec 8)} (h : Appends p t p') (h' : Appends p' t' p'') :
    Appends p (t ++ t') p'' := by
  have hbuf := h.buf
  have hbuf' := h'.buf
  constructor
  · rw [List.length_append, hbuf', hbuf, Nat.add_assoc]
  · intro x hx
    rw [h'.mem x hx, overwrite_append, ← hbuf]
    by_cases hcell : x = p'.buf
    · -- then the second text is not empty and covers the cell
      subst hcell
      have hpos : 0 < t'.length := by omega
      exact (overwrite_add (i := 0) hpos).trans (overwrite_add (i := 0) hpos).symm
    · exact overwrite_congr (h.mem x hcell)

lemma appends_put (p : Printer) (c : BitVec 8) : Appends p [c] (p.put c) :=
  ⟨rfl, fun x _ => by rw [overwrite_singleton, Printer.put]⟩

lemma Appends.of_terminated {p p' : Printer} {t : List (BitVec 8)} (hbuf : p'.buf = p.buf + t.length)
    (hmem : p'.mem = overwrite p.mem p.buf (t ++ [0])) : Appends p t p' := by
  refine ⟨hbuf, fun x hx => ?_⟩
  rw [hmem, overwrite_append, overwrite_singleton, ← hbuf, Function.update_of_ne hx]

lemma strcpy_eq {chars : List (BitVec 8)} (h : 0 ∉ chars) (m : Buf) (dst : Nat) :
    strcpy m dst chars = (overwrite m dst (chars ++ [0]), dst + chars.length) := by
  induction chars generalizing m dst with
  | nil =>
    rw [List.nil_append, overwrite_singleton]
    rfl
  | cons c chars ih =>
    have hc : c ≠ 0 := fun h0 => h (h0 ▸ List.mem_cons_self)
    rw [strcpy, if_neg hc, ih (fun hmem => h (List.mem_cons_of_mem _ hmem)), List.cons_append, overwrite_cons,
      List.length_cons, Nat.add_right_comm, Nat.add_assoc]

lemma number_appends (base : BitVec 8) (hlo : 2 ≤ base.toNat) (hhi : base.toNat ≤ 16) (p : Printer)
    (v : BitVec 64) : ∃ p', p.number v base = .ok p' ∧ p'.args = p.args ∧
      Appends p (numeral digitChar base.toNat (asInt v).toNat) p' := by
  rw [Printer.number, sprintbase_eq hlo hhi]
  exact ⟨_, rfl, rfl, .of_terminated rfl rfl⟩

lemma appends_args {p p' : Printer} {t : List (BitVec 8)} {args : List Arg} (h : Appends { p with args := args } t p') :
    Appends p t p' := ⟨h.buf, h.mem⟩

lemma format_nul (rest : List (BitVec 8)) (p : Printer) : format (0 :: rest) p = .ok (0 :: rest, p) := by
  rw [format.eq_def]
  exact if_pos rfl

lemma format_directive (d : BitVec 8) (fmt : List (BitVec 8)) (p : Printer) :
    format (ascii '%' :: d :: fmt) p = directive d p >>= format fmt := by
  rw [format.eq_def]
  exact (if_neg (by decide)).trans (if_pos rfl)

/-- The round of the loop that a piece is for. -/
def Piece.run : Piece → Printer → Except Fault Printer
  | .literal c _, p => .ok (p.put c)
  | .directive c, p => Libc.directive c p

lemma format_piece {piece : Piece} (hnul : 0 ∉ piece.bytes) (rest : List (BitVec 8)) (p : Printer) :
    format (piece.bytes ++ rest) p = piece.run p >>= format rest := by
  cases piece with
  | literal c h =>
    have hzero : c ≠ 0 := fun h0 => hnul (h0 ▸ List.mem_cons_self)
    rw [Piece.bytes, List.singleton_append, format.eq_def]
    exact (if_neg hzero).trans (if_neg h)
  | directive c => exact format_directive c rest p

lemma piece_run {piece : Piece} {a extra : List Arg} {t : List (BitVec 8)} (h : piece.Prints a t) (p : Printer)
    (hargs : p.args = a ++ extra) : ∃ p', piece.run p = .ok p' ∧ p'.args = extra ∧ Appends p t p' := by
  cases h with
  | literal c _ => exact ⟨p.put c, rfl, hargs, appends_put p c⟩
  | unsigned v =>
    rw [Piece.run, directive, if_pos rfl, hargs]
    obtain ⟨p', hrun, hrest, happ⟩ := number_appends 10 (by decide) (by decide) { p with args := extra } v
    exact ⟨p', hrun, hrest, appends_args happ⟩
  | hex v =>
    rw [Piece.run, directive, if_neg (by decide), if_pos rfl, hargs]
    obtain ⟨p', hrun, hrest, happ⟩ := number_appends 16 (by decide) (by decide)
      (({ p with args := extra }.put (ascii '0')).put (ascii 'x')) v
    refine ⟨p', hrun, hrest, ?_⟩
    exact appends_args (((appends_put _ _).trans (appends_put _ _)).trans happ)
  | string _ hnul =>
    rw [Piece.run, directive, if_neg (by decide), if_neg (by decide), if_pos rfl, hargs]
    refine ⟨_, rfl, rfl, .of_terminated ?_ ?_⟩
    · rw [strcpy_eq hnul]
    · rw [strcpy_eq hnul]
  | unknown _ hu hx hs =>
    rw [Piece.run, directive, if_neg hu, if_neg hx, if_neg hs]
    exact ⟨p, rfl, hargs, .refl p⟩

/-- The loop over the pieces of a format, whatever follows them. -/
lemma pieces_run {ps : List Piece} {a extra : List Arg} {t : List (BitVec 8)} (h : Prints ps a t)
    (hnul : 0 ∉ spell ps) (p : Printer) (hargs : p.args = a ++ extra) :
    ∃ p', (∀ rest, format (spell ps ++ rest) p = format rest p') ∧ p'.args = extra ∧ Appends p t p' := by
  induction h generalizing p with
  | nil => exact ⟨p, fun _ => rfl, hargs, .refl p⟩
  | cons hp _ ih =>
    rw [spell_cons, List.mem_append, not_or] at hnul
    rw [List.append_assoc] at hargs
    obtain ⟨p₁, hrun₁, hargs₁, happ₁⟩ := piece_run hp p hargs
    obtain ⟨p₂, hrun₂, hargs₂, happ₂⟩ := ih hnul.2 p₁ hargs₁
    refine ⟨p₂, fun rest => ?_, hargs₂, happ₁.trans happ₂⟩
    rw [spell_cons, List.append_assoc, format_piece hnul.1, hrun₁]
    exact hrun₂ rest

end JavaScriptOS.Libc
