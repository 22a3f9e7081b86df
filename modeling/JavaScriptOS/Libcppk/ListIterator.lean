import JavaScriptOS.Libcppk.Deque

/-!
# Iterators of the list

An iterator is a pointer to a node, or null at the end. It is not told about calls on its list. What it
stands for is a cursor in the sequence, and it goes on standing for that cursor through every call that
does not remove its own node: a loop over the list may push and pop at both ends.
-/

namespace JavaScriptOS.Libcppk

open Lib

variable {T : Type}

namespace StdList

/-- `begin()`. -/
def begin (l : StdList T) : Addr := l.head

/-- `iterator::operator++`. -/
def iteratorNext (l : StdList T) (current : Addr) : Except Fault Addr :=
  if current ≠ 0 then do
    let n ← l.deref current
    pure n.next
  else pure current

/-- `iterator::operator*`. -/
def iteratorValue (l : StdList T) (current : Addr) : Except Fault T := do
  let n ← l.deref current
  pure n.data

end StdList

inductive IteratorCall (T : Type) where
  | list (c : ListCall T)
  | begin
  | next

/-- A list and an iterator over it. -/
structure IteratorRun (T : Type) where
  list : StdList T
  current : Addr

def IteratorRun.step (r : IteratorRun T) : IteratorCall T → Except Fault (IteratorRun T)
  | .list c => do
    let l ← c.run r.list
    pure { r with list := l }
  | .begin => pure { r with current := r.list.begin }
  | .next => do
    let current ← r.list.iteratorNext r.current
    pure { r with current := current }

def IteratorCall.Fresh (l : StdList T) : IteratorCall T → Prop
  | .list c => c.Fresh l
  | .begin | .next => True

/-- The values before the cursor, and those from it on. -/
structure Cursor (T : Type) where
  before : List T
  after : List T

namespace Cursor

def sequence (c : Cursor T) : List T := c.before ++ c.after

/-- The cursor after a call, unless the call removes the value it is at. At the end it stays at the end. -/
def step : Cursor T → IteratorCall T → Option (Cursor T)
  | c, .list (.pushFront v _ throws) => some (if throws then c else ⟨v :: c.before, c.after⟩)
  | ⟨before, []⟩, .list (.pushBack v _ throws) => some (if throws then ⟨before, []⟩ else ⟨before ++ [v], []⟩)
  | ⟨before, x :: after⟩, .list (.pushBack v _ throws) =>
    some (if throws then ⟨before, x :: after⟩ else ⟨before, x :: after ++ [v]⟩)
  | ⟨_ :: before, after⟩, .list .popFront => some ⟨before, after⟩
  | ⟨[], []⟩, .list .popFront => some ⟨[], []⟩
  | ⟨[], _ :: _⟩, .list .popFront => none
  | ⟨before, []⟩, .list .popBack => some ⟨before.dropLast, []⟩
  | ⟨_, [_]⟩, .list .popBack => none
  | ⟨before, x :: y :: after⟩, .list .popBack => some ⟨before, x :: (y :: after).dropLast⟩
  | ⟨_, []⟩, .list .clear => some ⟨[], []⟩
  | ⟨_, _ :: _⟩, .list .clear => none
  | c, .begin => some ⟨[], c.sequence⟩
  | ⟨before, []⟩, .next => some ⟨before, []⟩
  | ⟨before, x :: after⟩, .next => some ⟨before ++ [x], after⟩

end Cursor

section Relation

/-- The iterator is at the first node of `rest`, which holds what comes after the cursor. -/
structure At (r : IteratorRun T) (c : Cursor T) (passed rest : List Addr) : Prop where
  spells : r.list.Spells .front (passed ++ rest) (c.before ++ c.after)
  length : passed.length = c.before.length
  current : r.current = firstOr 0 rest

variable {r : IteratorRun T} {c : Cursor T} {passed rest : List Addr} {before after : List T} {v x : T} {a : Addr}

lemma At.rest_length (h : At r c passed rest) : rest.length = c.after.length := by
  have hlen := h.spells.length_eq
  rw [List.length_append, List.length_append, h.length] at hlen
  omega

lemma At.values (h : At r c passed rest) : rest.map r.list.valueAt = c.after.map some := by
  have hvalues := h.spells.values
  rw [List.map_append, List.map_append] at hvalues
  exact (List.append_inj hvalues (by rw [List.length_map, List.length_map, h.length])).2

/-- The rest of a loop over the list. -/
lemma At.iterateFrom (h : At r c passed rest) :
    r.list.iterateFrom StdList.maxSteps r.current = .ok c.after := by
  rw [h.current]
  apply StdList.iterateFrom_ok h.spells.links.chain.suffix h.values
  have hlt := h.spells.length_lt
  rw [List.length_append] at hlt
  omega

lemma At.current_eq_null_iff (h : At r c passed rest) : r.current = 0 ↔ c.after = [] := by
  rw [h.current, ← h.spells.links.chain.suffix.eq_nil_iff, ← List.length_eq_zero_iff, h.rest_length,
    List.length_eq_zero_iff]

lemma At.iteratorValue (h : At r ⟨before, x :: after⟩ passed rest) :
    r.list.iteratorValue r.current = .ok x := by
  have hlen := h.rest_length
  have hvalues := h.values
  cases rest with
  | nil => cases hlen
  | cons a rest =>
    obtain ⟨hvalue, -⟩ := List.cons.inj hvalues
    obtain ⟨n, hn⟩ := StdList.exists_node hvalue
    rw [StdList.valueAt_node hn] at hvalue
    rw [StdList.iteratorValue, h.current, StdList.deref, firstOr_cons, hn, ← Option.some.inj hvalue]
    rfl

end Relation

section Steps

variable {r : IteratorRun T} {c c' : Cursor T} {passed rest : List Addr} {before after : List T} {v x : T}
  {a : Addr} {throws : Bool}

lemma At.pushFront (h : At r c passed rest) (hfresh : a ≠ 0 ∧ r.list.heap a = .free) :
    ∃ l' passed', r.list.pushFront v a throws = .ok l' ∧
      At ⟨l', r.current⟩ (if throws then c else ⟨v :: c.before, c.after⟩) passed' rest := by
  cases throws with
  | false =>
    obtain ⟨l', hrun, h'⟩ := h.spells.push hfresh.1 hfresh.2 v
    exact ⟨l', a :: passed, hrun, h', congrArg (· + 1) h.length, h.current⟩
  | true =>
    obtain ⟨l', hrun, h'⟩ := h.spells.push_throws hfresh.2 v
    exact ⟨l', passed, hrun, h', h.length, h.current⟩

/-- Seen from the back, a push at the back is a push at the front. -/
lemma spells_pushBack {l : StdList T} {nodes : List Addr} {xs : List T} (h : l.Spells .front nodes xs)
    (hfresh : a ≠ 0 ∧ l.heap a = .free) :
    ∃ l', l.pushBack v a false = .ok l' ∧ l'.Spells .front (nodes ++ [a]) (xs ++ [v]) := by
  obtain ⟨l', hrun, h'⟩ := h.flip.push hfresh.1 hfresh.2 v
  refine ⟨l', hrun, ?_⟩
  have hback := h'.flip
  rw [List.reverse_cons, List.reverse_cons, List.reverse_reverse, List.reverse_reverse] at hback
  exact hback

lemma spells_popBack {l : StdList T} {nodes : List Addr} {xs : List T} {n : Addr}
    (h : l.Spells .front (nodes ++ [n]) (xs ++ [x])) :
    ∃ l', l.popBack = .ok l' ∧ l'.Spells .front nodes xs := by
  have hflip := h.flip
  simp only [List.reverse_append, List.reverse_singleton, List.singleton_append] at hflip
  obtain ⟨l', hrun, h'⟩ := hflip.pop
  refine ⟨l', hrun, ?_⟩
  have hback := h'.flip
  rw [List.reverse_reverse, List.reverse_reverse] at hback
  exact hback

lemma At.pushBack (h : At r c passed rest) (hfresh : a ≠ 0 ∧ r.list.heap a = .free)
    (hc : c.step (.list (.pushBack v a throws)) = some c') :
    ∃ l' passed' rest', r.list.pushBack v a throws = .ok l' ∧ At ⟨l', r.current⟩ c' passed' rest' := by
  obtain ⟨before, after⟩ := c
  cases throws with
  | true =>
    obtain ⟨l', hrun, h'⟩ := h.spells.flip.push_throws hfresh.2 v
    have hsame : c' = ⟨before, after⟩ := by cases after <;> exact (Option.some.inj hc).symm
    rw [hsame]
    refine ⟨l', passed, rest, hrun, ?_, h.length, h.current⟩
    have hback := h'.flip
    rw [List.reverse_reverse, List.reverse_reverse] at hback
    exact hback
  | false =>
    obtain ⟨l', hrun, h'⟩ := spells_pushBack h.spells hfresh
    have hlen := h.rest_length
    cases after with
    | nil =>
      obtain rfl : rest = [] := List.eq_nil_of_length_eq_zero hlen
      cases hc
      refine ⟨l', passed ++ [a], [], hrun, ?_, ?_, h.current⟩
      · rw [if_neg Bool.false_ne_true]
        simpa only [List.append_nil] using h'
      · simpa using h.length
    | cons x after =>
      cases hc
      refine ⟨l', passed, rest ++ [a], hrun, ?_, h.length, ?_⟩
      · rw [if_neg Bool.false_ne_true]
        simpa only [List.append_assoc, List.cons_append] using h'
      · cases rest with
        | nil => cases hlen
        | cons n rest => exact h.current

lemma At.popFront (h : At r c passed rest) (hc : c.step (.list .popFront) = some c') :
    ∃ l' passed', r.list.popFront = .ok l' ∧ At ⟨l', r.current⟩ c' passed' rest := by
  obtain ⟨before, after⟩ := c
  have hlen := h.length
  have hlen' := h.rest_length
  rcases before with _ | ⟨x, before⟩
  · obtain rfl : passed = [] := List.eq_nil_of_length_eq_zero hlen
    rcases after with _ | ⟨y, after⟩
    · obtain rfl : rest = [] := List.eq_nil_of_length_eq_zero hlen'
      cases hc
      exact ⟨r.list, [], h.spells.pop_nil, h⟩
    · cases hc
  · rcases passed with _ | ⟨n, passed⟩
    · cases hlen
    · obtain ⟨l', hrun, h'⟩ := h.spells.pop
      cases hc
      exact ⟨l', passed, hrun, h', Nat.succ.inj hlen, h.current⟩

lemma At.popBack (h : At r c passed rest) (hc : c.step (.list .popBack) = some c') :
    ∃ l' passed' rest', r.list.popBack = .ok l' ∧ At ⟨l', r.current⟩ c' passed' rest' := by
  obtain ⟨before, after⟩ := c
  have hlen := h.length
  have hlen' := h.rest_length
  rcases after with _ | ⟨x, _ | ⟨y, after⟩⟩
  · -- at the end: the node that goes is one that the iterator has passed
    obtain rfl : rest = [] := List.eq_nil_of_length_eq_zero hlen'
    cases hc
    have hspells := h.spells
    rw [List.append_nil, List.append_nil] at hspells
    rcases List.eq_nil_or_concat before with rfl | ⟨before, x, rfl⟩
    · obtain rfl : passed = [] := List.eq_nil_of_length_eq_zero hlen
      exact ⟨r.list, [], [], hspells.flip.pop_nil, h⟩
    · rcases List.eq_nil_or_concat passed with rfl | ⟨passed, n, rfl⟩
      · simp at hlen
      · rw [List.concat_eq_append, List.concat_eq_append] at hspells
        obtain ⟨l', hrun, h'⟩ := spells_popBack hspells
        refine ⟨l', passed, [], hrun, ?_, by simpa using hlen, h.current⟩
        simpa using h'
  · cases hc
  · cases hc
    rcases rest with _ | ⟨n, _ | ⟨n', rest⟩⟩
    · cases hlen'
    · cases hlen'
    · have hspells := h.spells
      have hnodes : passed ++ n :: n' :: rest =
          (passed ++ n :: (n' :: rest).dropLast) ++ [(n' :: rest).getLast (by simp)] := by
        rw [List.append_assoc, List.cons_append, List.dropLast_append_getLast]
      have hvalues : before ++ x :: y :: after =
          (before ++ x :: (y :: after).dropLast) ++ [(y :: after).getLast (by simp)] := by
        rw [List.append_assoc, List.cons_append, List.dropLast_append_getLast]
      dsimp only at hspells
      rw [hnodes, hvalues] at hspells
      obtain ⟨l', hrun, h'⟩ := spells_popBack hspells
      exact ⟨l', passed, n :: (n' :: rest).dropLast, hrun, h', hlen, h.current⟩

lemma At.clear (h : At r c passed rest) (hc : c.step (.list .clear) = some c') :
    ∃ l', r.list.clear = .ok l' ∧ At ⟨l', r.current⟩ c' [] [] := by
  obtain ⟨before, after⟩ := c
  obtain ⟨l', hrun, h'⟩ := h.spells.clear
  rcases after with _ | ⟨x, after⟩
  · obtain rfl : rest = [] := List.eq_nil_of_length_eq_zero h.rest_length
    cases hc
    exact ⟨l', hrun, h', rfl, h.current⟩
  · cases hc

lemma At.next (h : At r c passed rest) (hc : c.step .next = some c') :
    ∃ current passed' rest', r.list.iteratorNext r.current = .ok current ∧
      At ⟨r.list, current⟩ c' passed' rest' := by
  obtain ⟨before, after⟩ := c
  have hlen := h.rest_length
  rcases after with _ | ⟨x, after⟩
  · obtain rfl : rest = [] := List.eq_nil_of_length_eq_zero hlen
    cases hc
    have hnull : r.current = 0 := h.current
    refine ⟨r.current, passed, [], ?_, h⟩
    rw [StdList.iteratorNext, if_neg (not_not.mpr hnull)]
    rfl
  · rcases rest with _ | ⟨n, rest⟩
    · cases hlen
    · cases hc
      have hmem : n ∈ passed ++ n :: rest := by simp
      have hne : r.current ≠ 0 := by
        rw [h.current, firstOr_cons]
        rintro rfl
        exact h.spells.links.null_notMem hmem
      obtain ⟨node, hn⟩ := h.spells.node_of_mem hmem
      have hnext : node.next = firstOr 0 rest :=
        (StdList.linkOf_node hn .back).symm.trans (h.spells.links.links passed n rest rfl).2
      refine ⟨firstOr 0 rest, passed ++ [n], rest, ?_, ?_, ?_, rfl⟩
      · rw [StdList.iteratorNext, if_pos hne, h.current, firstOr_cons, StdList.deref, hn, ← hnext]
        rfl
      · simpa using h.spells
      · simpa using h.length

/-- One call that leaves the node of the iterator in the list. -/
lemma At.step (h : At r c passed rest) (call : IteratorCall T) (hfresh : call.Fresh r.list)
    (hc : c.step call = some c') : ∃ r' passed' rest', r.step call = .ok r' ∧ At r' c' passed' rest' := by
  cases call with
  | list lc =>
    cases lc with
    | pushFront v a throws =>
      cases hc
      obtain ⟨l', passed', hrun, h'⟩ := h.pushFront hfresh
      exact ⟨_, passed', rest, bind_eq_ok.mpr ⟨l', hrun, rfl⟩, h'⟩
    | pushBack v a throws =>
      obtain ⟨l', passed', rest', hrun, h'⟩ := h.pushBack hfresh hc
      exact ⟨_, passed', rest', bind_eq_ok.mpr ⟨l', hrun, rfl⟩, h'⟩
    | popFront =>
      obtain ⟨l', passed', hrun, h'⟩ := h.popFront hc
      exact ⟨_, passed', rest, bind_eq_ok.mpr ⟨l', hrun, rfl⟩, h'⟩
    | popBack =>
      obtain ⟨l', passed', rest', hrun, h'⟩ := h.popBack hc
      exact ⟨_, passed', rest', bind_eq_ok.mpr ⟨l', hrun, rfl⟩, h'⟩
    | clear =>
      obtain ⟨l', hrun, h'⟩ := h.clear hc
      exact ⟨_, [], [], bind_eq_ok.mpr ⟨l', hrun, rfl⟩, h'⟩
  | begin =>
    cases hc
    exact ⟨_, [], passed ++ rest, rfl, h.spells, rfl, h.spells.links.head_eq⟩
  | next =>
    obtain ⟨current, passed', rest', hrun, h'⟩ := h.next hc
    exact ⟨_, passed', rest', bind_eq_ok.mpr ⟨current, hrun, rfl⟩, h'⟩

end Steps

section Runs

/-- A list with an iterator, and the cursor that the calls made so far stand for. -/
structure TrackedRun (T : Type) where
  run : IteratorRun T
  cursor : Cursor T

def TrackedRun.step (s : TrackedRun T) (call : IteratorCall T) : Except Fault (TrackedRun T) := do
  let r ← s.run.step call
  pure ⟨r, (s.cursor.step call).getD s.cursor⟩

/-- A node is allocated where there is none, and the node of the iterator stays in the list. -/
def Stays (s : TrackedRun T) (call : IteratorCall T) : Prop :=
  call.Fresh s.run.list ∧ (s.cursor.step call).isSome

def TrackedReach : TrackedRun T → Prop :=
  Reach (· = ⟨⟨StdList.empty, 0⟩, ⟨[], []⟩⟩) TrackedRun.step Stays

lemma TrackedRun.step_ok {s : TrackedRun T} (h : ∃ passed rest, At s.run s.cursor passed rest)
    (call : IteratorCall T) (hok : Stays s call) :
    ∃ s', s.step call = .ok s' ∧ ∃ passed rest, At s'.run s'.cursor passed rest := by
  obtain ⟨passed, rest, h⟩ := h
  obtain ⟨c', hc⟩ := Option.isSome_iff_exists.mp hok.2
  obtain ⟨r', passed', rest', hrun, h'⟩ := h.step call hok.1 hc
  refine ⟨⟨r', c'⟩, ?_, passed', rest', h'⟩
  rw [TrackedRun.step, hc]
  exact bind_eq_ok.mpr ⟨r', hrun, rfl⟩

lemma at_of_reach {s : TrackedRun T} (hs : TrackedReach s) : ∃ passed rest, At s.run s.cursor passed rest := by
  apply hs.invariant
  · rintro s rfl
    exact ⟨[], [], StdList.Spells.empty, rfl, rfl⟩
  · exact fun s call h hok => TrackedRun.step_ok h call hok

/-- In every run in which the node of the iterator is not removed, the iterator is the cursor: it has the
cursor's value, it is `end()` exactly at the end, and the rest of a loop meets exactly what comes after
the cursor. No such call faults. -/
theorem iterator_is_cursor {s : TrackedRun T} (hs : TrackedReach s) :
    s.run.list.iterate = .ok s.cursor.sequence ∧
    s.run.list.iterateFrom StdList.maxSteps s.run.current = .ok s.cursor.after ∧
    (∀ x after, s.cursor.after = x :: after → s.run.list.iteratorValue s.run.current = .ok x) ∧
    (s.run.current = 0 ↔ s.cursor.after = []) ∧
    ∀ call, Stays s call → ∃ s', s.step call = .ok s' := by
  have hat := at_of_reach hs
  have hsteps : ∀ call, Stays s call → ∃ s', s.step call = .ok s' := by
    intro call hok
    obtain ⟨s', hstep, -⟩ := TrackedRun.step_ok hat call hok
    exact ⟨s', hstep⟩
  obtain ⟨passed, rest, h⟩ := hat
  refine ⟨h.spells.isDeque.iterates, h.iterateFrom, ?_, h.current_eq_null_iff, hsteps⟩
  intro x after hafter
  obtain ⟨run, before, after'⟩ := s
  cases hafter
  exact h.iteratorValue

instance (l : StdList T) : (call : IteratorCall T) → Decidable (call.Fresh l)
  | .list c => inferInstanceAs (Decidable (c.Fresh l))
  | .begin | .next => isTrue trivial

instance (s : TrackedRun T) (call : IteratorCall T) : Decidable (Stays s call) :=
  inferInstanceAs (Decidable (_ ∧ _))

/-- A loop over 1, 2 that is at 2 when 3 is appended and 1 is removed. -/
theorem iterator_is_cursor_during_loop : ∃ s : TrackedRun Nat, TrackedReach s ∧ s.cursor.after = [2, 3] ∧
    s.run.list.iterateFrom StdList.maxSteps s.run.current = .ok [2, 3] := by
  have hplay : (play TrackedRun.step Stays ⟨⟨StdList.empty, 0⟩, ⟨[], []⟩⟩
      [.list (.pushBack 1 0x1000 false), .list (.pushBack 2 0x2000 false), .begin, .next,
        .list (.pushBack 3 0x3000 false), .list .popFront]).any
      (fun s => s.cursor.after = [2, 3]) = true := by
    decide +kernel
  obtain ⟨s, hs, hafter⟩ := (Option.any_eq_true _ _).mp hplay
  have hreach : TrackedReach s := Reach.play (.init rfl) hs
  have hcursor : s.cursor.after = [2, 3] := of_decide_eq_true hafter
  exact ⟨s, hreach, hcursor, hcursor ▸ (iterator_is_cursor hreach).2.1⟩

end Runs

end JavaScriptOS.Libcppk
