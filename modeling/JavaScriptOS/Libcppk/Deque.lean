import JavaScriptOS.Libcppk.List

/-!
# The list is a deque

Each call is run next to the operation it stands for on a sequence of values. What the list's pointers
must look like for a sequence is said from either end, so that one argument covers both.
-/

namespace JavaScriptOS.Libcppk

open Lib

variable {T : Type} {e : End} {l l' : StdList T} {a b p : Addr} {v : T} {nodes : List Addr} {xs : List T}

@[simp] lemma End.other_other (e : End) : e.other.other = e := by cases e <;> rfl

namespace Node

variable (n : Node T) (e : End) (p : Addr)

@[simp] lemma setLink_data : (n.setLink e p).data = n.data := by cases e <;> rfl

@[simp] lemma setLink_link : (n.setLink e p).link e = p := by cases e <;> rfl

@[simp] lemma setLink_link_other : (n.setLink e p).link e.other = n.link e.other := by cases e <;> rfl

@[simp] lemma setLink_other_link : (n.setLink e.other p).link e = n.link e := by cases e <;> rfl

@[simp] lemma link_fresh (v : T) : (⟨v, 0#64, 0#64⟩ : Node T).link e = 0#64 := by cases e <;> rfl

end Node

namespace StdList

section Updates

variable (l : StdList T) (e : End) (a p : Addr) (cell : Cell T) (size : BitVec 64)

@[simp] lemma setPtr_ptr : (l.setPtr e p).ptr e = p := by cases e <;> rfl

@[simp] lemma setPtr_ptr_other : (l.setPtr e p).ptr e.other = l.ptr e.other := by cases e <;> rfl

@[simp] lemma setPtr_other_ptr : (l.setPtr e.other p).ptr e = l.ptr e := by cases e <;> rfl

@[simp] lemma setPtr_heap : (l.setPtr e p).heap = l.heap := by cases e <;> rfl

@[simp] lemma setPtr_listSize : (l.setPtr e p).listSize = l.listSize := by cases e <;> rfl

@[simp] lemma setPtr_allocated : (l.setPtr e p).allocated = l.allocated := by cases e <;> rfl

@[simp] lemma setPtr_deallocated : (l.setPtr e p).deallocated = l.deallocated := by cases e <;> rfl

@[simp] lemma setSize_ptr : (l.setSize size).ptr e = l.ptr e := by cases e <;> rfl

@[simp] lemma setSize_heap : (l.setSize size).heap = l.heap := rfl

@[simp] lemma setSize_listSize : (l.setSize size).listSize = size := rfl

@[simp] lemma setSize_allocated : (l.setSize size).allocated = l.allocated := rfl

@[simp] lemma setSize_deallocated : (l.setSize size).deallocated = l.deallocated := rfl

@[simp] lemma setCell_ptr : (l.setCell a cell).ptr e = l.ptr e := by cases e <;> rfl

@[simp] lemma setCell_heap : (l.setCell a cell).heap = Function.update l.heap a cell := rfl

@[simp] lemma setCell_listSize : (l.setCell a cell).listSize = l.listSize := rfl

@[simp] lemma setCell_allocated : (l.setCell a cell).allocated = l.allocated := rfl

@[simp] lemma setCell_deallocated : (l.setCell a cell).deallocated = l.deallocated := rfl

@[simp] lemma allocate_ptr : (l.allocate a).ptr e = l.ptr e := by cases e <;> rfl

@[simp] lemma allocate_heap : (l.allocate a).heap = Function.update l.heap a .raw := rfl

@[simp] lemma allocate_listSize : (l.allocate a).listSize = l.listSize := rfl

@[simp] lemma allocate_allocated : (l.allocate a).allocated = a :: l.allocated := rfl

@[simp] lemma allocate_deallocated : (l.allocate a).deallocated = l.deallocated := rfl

@[simp] lemma discard_ptr : (l.discard a).ptr e = l.ptr e := by cases e <;> rfl

@[simp] lemma discard_heap : (l.discard a).heap = Function.update l.heap a .free := rfl

@[simp] lemma discard_listSize : (l.discard a).listSize = l.listSize := rfl

@[simp] lemma discard_allocated : (l.discard a).allocated = l.allocated := rfl

@[simp] lemma discard_deallocated : (l.discard a).deallocated = a :: l.deallocated := rfl

@[simp] lemma enter_ptr : (l.enter e a).ptr e = a := by
  simp only [enter]
  split <;> cases e <;> rfl

@[simp] lemma enter_ptr_other : (l.enter e a).ptr e.other = if l.ptr e.other = 0 then a else l.ptr e.other := by
  simp only [enter, setPtr_ptr_other]
  split <;> cases e <;> rfl

@[simp] lemma enter_heap : (l.enter e a).heap = l.heap := by
  simp only [enter]
  split <;> simp

@[simp] lemma enter_listSize : (l.enter e a).listSize = l.listSize + 1 := by
  simp only [enter]
  split <;> simp

@[simp] lemma enter_allocated : (l.enter e a).allocated = l.allocated := by
  simp only [enter]
  split <;> simp

@[simp] lemma enter_deallocated : (l.enter e a).deallocated = l.deallocated := by
  simp only [enter]
  split <;> simp

end Updates

lemma setLink_ok {n : Node T} (h : l.heap a = .node n) (e : End) (p : Addr) :
    l.setLink a e p = .ok (l.setCell a (.node (n.setLink e p))) := by
  simp [setLink, deref, h, bind, Except.bind, pure, Except.pure]

/-- What `push_front` and `push_back` do. -/
structure Pushed (e : End) (l : StdList T) (v : T) (a : Addr) (l' : StdList T) : Prop where
  ptr : l'.ptr e = a
  ptr_other : l'.ptr e.other = if l.ptr e.other = 0 then a else l.ptr e.other
  listSize : l'.listSize = l.listSize + 1
  allocated : l'.allocated = a :: l.allocated
  deallocated : l'.deallocated = l.deallocated
  heap_new : l'.heap a = .node ((⟨v, 0, 0⟩ : Node T).setLink e.other (l.ptr e))
  heap_first : ∀ n, l.ptr e ≠ 0 → l.heap (l.ptr e) = .node n → l'.heap (l.ptr e) = .node (n.setLink e a)
  heap_rest : ∀ b, b ≠ a → b ≠ l.ptr e → l'.heap b = l.heap b

lemma push_ok (v : T) (hfirst : l.ptr e ≠ 0 → ∃ n, l.heap (l.ptr e) = .node n) (hne : l.ptr e ≠ a) :
    ∃ l', push e l v a false = .ok l' ∧ Pushed e l v a l' := by
  let l₁ := (l.allocate a).setCell a (.node ⟨v, 0, 0⟩)
  let l₂ := l₁.setCell a (.node ((⟨v, 0, 0⟩ : Node T).setLink e.other (l.ptr e)))
  have hnew : l₁.setLink a e.other (l₁.ptr e) = .ok l₂ := by
    rw [show l₁.ptr e = l.ptr e by simp [l₁]]
    exact setLink_ok (by simp [l₁]) _ _
  have hptr : l₂.ptr e = l.ptr e := by simp [l₂, l₁]
  by_cases hnull : l.ptr e = 0
  · have hlink : l₂.linkFirst e a l₂ = .ok l₂ := by
      rw [linkFirst, hptr, if_neg (not_not.mpr hnull)]
      rfl
    refine ⟨_, bind_eq_ok.mpr ⟨_, hnew, bind_eq_ok.mpr ⟨_, hlink, rfl⟩⟩, ?_⟩
    constructor
    case heap_first => exact fun _ h => absurd hnull h
    case heap_rest =>
      intro b hb _
      simp [l₂, l₁, hb]
    all_goals simp [l₂, l₁]
  · obtain ⟨n, hn⟩ := hfirst hnull
    have hlink : l₂.linkFirst e a l₂ = .ok (l₂.setCell (l.ptr e) (.node (n.setLink e a))) := by
      rw [linkFirst, hptr, if_pos hnull]
      exact setLink_ok (by simp [l₂, l₁, hne, hn]) _ _
    refine ⟨_, bind_eq_ok.mpr ⟨_, hnew, bind_eq_ok.mpr ⟨_, hlink, rfl⟩⟩, ?_⟩
    constructor
    case heap_first =>
      intro n' _ hn'
      cases hn.symm.trans hn'
      simp
    case heap_rest =>
      intro b hb hfirst
      simp [l₂, l₁, hb, hfirst]
    all_goals simp [l₂, l₁, hne.symm]

lemma push_throws (e : End) (v : T) : push e l v a true = .ok ((l.allocate a).discard a) := by
  simp [push, deallocate]

/-- What `pop_front` and `pop_back` do to a list whose first node is `n`. -/
structure Popped (e : End) (l : StdList T) (n : Node T) (l' : StdList T) : Prop where
  ptr : l'.ptr e = n.link e.other
  ptr_other : l'.ptr e.other = if n.link e.other = 0 then 0 else l.ptr e.other
  listSize : l'.listSize = l.listSize - 1
  allocated : l'.allocated = l.allocated
  deallocated : l'.deallocated = l.ptr e :: l.deallocated
  heap_first : l'.heap (l.ptr e) = .free
  heap_second : ∀ m, n.link e.other ≠ 0 → l.heap (n.link e.other) = .node m →
    l'.heap (n.link e.other) = .node (m.setLink e 0)
  heap_rest : ∀ b, b ≠ l.ptr e → b ≠ n.link e.other → l'.heap b = l.heap b

lemma pop_ok {n : Node T} (hptr : l.ptr e ≠ 0) (hfirst : l.heap (l.ptr e) = .node n)
    (hsecond : n.link e.other ≠ 0 → ∃ m, l.heap (n.link e.other) = .node m) (hne : n.link e.other ≠ l.ptr e) :
    ∃ l', pop e l = .ok l' ∧ Popped e l n l' := by
  rw [pop, if_neg hptr]
  let l₁ := l.setPtr e (n.link e.other)
  have hderef : l.deref (l.ptr e) = .ok n := by rw [deref, hfirst]
  have hptr₁ : l₁.ptr e = n.link e.other := by simp [l₁]
  have hfree : ∀ l₂ : StdList T, (l₂.setCell (l.ptr e) .raw).deallocate (l.ptr e) =
      .ok ((l₂.setCell (l.ptr e) .raw).discard (l.ptr e)) := by
    intro l₂
    simp [deallocate]
  by_cases hnull : n.link e.other = 0
  · have hlink : l₁.linkFirst e 0 (l₁.setPtr e.other 0) = .ok (l₁.setPtr e.other 0) := by
      rw [linkFirst, hptr₁, if_neg (not_not.mpr hnull)]
      rfl
    refine ⟨_, bind_eq_ok.mpr ⟨_, hderef, bind_eq_ok.mpr ⟨_, hlink, bind_eq_ok.mpr ⟨_, hfree _, rfl⟩⟩⟩, ?_⟩
    constructor
    case heap_second => exact fun _ h => absurd hnull h
    case heap_rest =>
      intro b hb _
      simp [l₁, hb]
    all_goals simp [l₁, hnull]
  · obtain ⟨m, hm⟩ := hsecond hnull
    have hlink : l₁.linkFirst e 0 (l₁.setPtr e.other 0) =
        .ok (l₁.setCell (n.link e.other) (.node (m.setLink e 0))) := by
      rw [linkFirst, hptr₁, if_pos hnull]
      exact setLink_ok (by simp [l₁, hm]) _ _
    refine ⟨_, bind_eq_ok.mpr ⟨_, hderef, bind_eq_ok.mpr ⟨_, hlink, bind_eq_ok.mpr ⟨_, hfree _, rfl⟩⟩⟩, ?_⟩
    constructor
    case heap_second =>
      intro m' _ hm'
      cases hm.symm.trans hm'
      simp [hne]
    case heap_rest =>
      intro b hb hsecond
      simp [l₁, hb, hsecond]
    case ptr_other => rw [if_neg hnull]; simp [l₁]
    all_goals simp [l₁]

def node? (l : StdList T) (a : Addr) : Option (Node T) :=
  match l.heap a with
  | .node n => some n
  | _ => none

def linkOf (l : StdList T) (e : End) (a : Addr) : Addr := ((l.node? a).map (·.link e)).getD 0

def next (l : StdList T) : Addr → Addr := l.linkOf .back

def prev (l : StdList T) : Addr → Addr := l.linkOf .front

def valueAt (l : StdList T) (a : Addr) : Option T := (l.node? a).map (·.data)

lemma linkOf_node {n : Node T} (h : l.heap a = .node n) (e : End) : l.linkOf e a = n.link e := by
  simp [linkOf, node?, h]

lemma valueAt_node {n : Node T} (h : l.heap a = .node n) : l.valueAt a = some n.data := by
  simp [valueAt, node?, h]

lemma exists_node (h : l.valueAt a = some v) : ∃ n, l.heap a = .node n := by
  simp only [valueAt, node?] at h
  split at h
  · exact ⟨_, by assumption⟩
  · cases h

lemma linkOf_congr (h : l'.heap a = l.heap a) (e : End) : l'.linkOf e a = l.linkOf e a := by
  simp [linkOf, node?, h]

lemma valueAt_congr (h : l'.heap a = l.heap a) : l'.valueAt a = l.valueAt a := by
  simp [valueAt, node?, h]

/-- From end `e`, the nodes of the list hold `xs`, and every cell that was allocated is one of them or has
been given back. -/
structure Spells (e : End) (l : StdList T) (nodes : List Addr) (xs : List T) : Prop where
  links : DLinked (l.linkOf e) (l.linkOf e.other) 0 (l.ptr e) (l.ptr e.other) nodes
  values : nodes.map l.valueAt = xs.map some
  free : ∀ a, a ≠ 0 → a ∉ nodes → l.heap a = .free
  size : l.listSize = BitVec.ofNat 64 nodes.length
  balanced : ∀ a, l.allocated.count a = l.deallocated.count a + nodes.count a

namespace Spells

lemma flip (h : Spells e l nodes xs) : Spells e.other l nodes.reverse xs.reverse where
  links := by
    have hlinks := h.links.reverse
    rwa [← End.other_other e, End.other_other e.other] at hlinks
  values := by rw [List.map_reverse, h.values, List.map_reverse]
  free := by simpa using h.free
  size := by rw [h.size, List.length_reverse]
  balanced := by simpa using h.balanced

lemma node_of_mem (h : Spells e l nodes xs) (ha : a ∈ nodes) : ∃ n, l.heap a = .node n := by
  have hvalue : l.valueAt a ∈ xs.map some := h.values ▸ List.mem_map_of_mem ha
  obtain ⟨v, -, hv⟩ := List.mem_map.mp hvalue
  exact exists_node hv.symm

lemma first_mem (h : Spells e l nodes xs) (hptr : l.ptr e ≠ 0) : l.ptr e ∈ nodes := by
  rw [h.links.head_eq] at hptr ⊢
  exact mem_of_firstOr_ne hptr

lemma values_congr (h : nodes.map l.valueAt = xs.map some) (hsame : ∀ b ∈ nodes, l'.valueAt b = l.valueAt b) :
    nodes.map l'.valueAt = xs.map some := by
  rw [← h]
  exact List.map_congr_left hsame

theorem push (h : Spells e l nodes xs) (ha : a ≠ 0) (hfree : l.heap a = .free) (v : T) :
    ∃ l', push e l v a false = .ok l' ∧ Spells e l' (a :: nodes) (v :: xs) := by
  have hmem : a ∉ nodes := by
    intro hmem
    obtain ⟨n, hn⟩ := h.node_of_mem hmem
    rw [hfree] at hn
    cases hn
  have hne : l.ptr e ≠ a := by
    intro heq
    exact hmem (heq ▸ h.first_mem (heq ▸ ha))
  obtain ⟨l', hrun, hp⟩ := push_ok v (fun hptr => h.node_of_mem (h.first_mem hptr)) hne
  -- the old first node keeps all but its link outwards
  have hold : ∀ b ∈ nodes, l'.valueAt b = l.valueAt b ∧ l'.linkOf e.other b = l.linkOf e.other b ∧
      l'.linkOf e b = if b = l.ptr e then a else l.linkOf e b := by
    intro b hb
    by_cases hfirst : b = l.ptr e
    · subst hfirst
      obtain ⟨n, hn⟩ := h.node_of_mem hb
      have hn' := hp.heap_first n (fun hnull => h.links.null_notMem (hnull ▸ hb)) hn
      simp [valueAt_node hn, valueAt_node hn', linkOf_node hn, linkOf_node hn']
    · have hsame := hp.heap_rest b (fun hba => hmem (hba ▸ hb)) hfirst
      simp [valueAt_congr hsame, linkOf_congr hsame, hfirst]
  refine ⟨l', hrun, ?_⟩
  constructor
  case links =>
    rw [hp.ptr, hp.ptr_other]
    apply h.links.cons hmem ha
    · simp [linkOf_node hp.heap_new]
    · simp [linkOf_node hp.heap_new]
    · intro hptr
      simp [(hold _ (h.first_mem hptr)).2.2]
    · intro b hb hfirst
      rw [(hold b hb).2.2, if_neg hfirst]
    · exact fun b hb => (hold b hb).2.1
  case values =>
    rw [List.map_cons, List.map_cons, valueAt_node hp.heap_new, Node.setLink_data]
    rw [values_congr h.values (fun b hb => (hold b hb).1)]
  case free =>
    intro b hb hmem'
    obtain ⟨hba, hbn⟩ := not_or.mp (mt List.mem_cons.mpr hmem')
    rw [hp.heap_rest b hba]
    · exact h.free b hb hbn
    · rintro rfl
      exact hbn (h.first_mem hb)
  case size =>
    rw [hp.listSize, h.size, List.length_cons, BitVec.ofNat_add]
    rfl
  case balanced =>
    intro b
    rw [hp.allocated, hp.deallocated, List.count_cons, List.count_cons, h.balanced b]
    omega

theorem push_throws (h : Spells e l nodes xs) (hfree : l.heap a = .free) (v : T) :
    ∃ l', StdList.push e l v a true = .ok l' ∧ Spells e l' nodes xs := by
  have hheap : ((l.allocate a).discard a).heap = l.heap := by
    simp [← hfree]
  refine ⟨_, StdList.push_throws e v, ?_⟩
  constructor
  case links =>
    rw [discard_ptr, allocate_ptr, discard_ptr, allocate_ptr]
    exact h.links.congr (fun b _ => linkOf_congr (congrFun hheap b) e)
      (fun b _ => linkOf_congr (congrFun hheap b) e.other)
  case values => exact values_congr h.values (fun b _ => valueAt_congr (congrFun hheap b))
  case free => rw [hheap]; exact h.free
  case size => exact h.size
  case balanced =>
    intro b
    have hb := h.balanced b
    simp [List.count_cons]
    omega

theorem pop (h : Spells e l (a :: nodes) (v :: xs)) :
    ∃ l', pop e l = .ok l' ∧ Spells e l' nodes xs := by
  have hptr : l.ptr e = a := h.links.head_eq
  have ha : a ≠ 0 := fun hnull => h.links.null_notMem (by simp [hnull])
  have hmem : a ∉ nodes := (List.nodup_cons.mp h.links.nodup).1
  obtain ⟨n, hn⟩ := h.node_of_mem (List.mem_cons_self (a := a))
  have hsecond : l.linkOf e.other a = n.link e.other := linkOf_node hn e.other
  have hsecond_mem : n.link e.other ≠ 0 → n.link e.other ∈ nodes := by
    rw [← hsecond, (h.links.links [] a nodes rfl).2]
    exact mem_of_firstOr_ne
  have hne : n.link e.other ≠ a := by
    intro heq
    exact hmem (heq ▸ hsecond_mem (heq ▸ ha))
  subst hptr
  obtain ⟨l', hrun, hp⟩ := pop_ok ha hn
    (fun hnull => h.node_of_mem (List.mem_cons_of_mem _ (hsecond_mem hnull))) hne
  -- the new first node loses its link outwards, the others are as they were
  have hold : ∀ b ∈ nodes, l'.valueAt b = l.valueAt b ∧ l'.linkOf e.other b = l.linkOf e.other b ∧
      l'.linkOf e b = if b = n.link e.other then 0 else l.linkOf e b := by
    intro b hb
    have hb' := List.mem_cons_of_mem (l.ptr e) hb
    by_cases hfirst : b = n.link e.other
    · subst hfirst
      obtain ⟨m, hm⟩ := h.node_of_mem hb'
      have hm' := hp.heap_second m (fun hnull => h.links.null_notMem (hnull ▸ hb')) hm
      simp [valueAt_node hm, valueAt_node hm', linkOf_node hm, linkOf_node hm']
    · have hsame := hp.heap_rest b (fun hba => hmem (hba ▸ hb)) hfirst
      simp [valueAt_congr hsame, linkOf_congr hsame, hfirst]
  refine ⟨l', hrun, ?_⟩
  constructor
  case links =>
    rw [hp.ptr, hp.ptr_other, ← hsecond]
    apply h.links.uncons
    · rw [hsecond]
      intro hnull
      simp [(hold _ (hsecond_mem hnull)).2.2]
    · rw [hsecond]
      intro b hb hfirst
      rw [(hold b hb).2.2, if_neg hfirst]
    · exact fun b hb => (hold b hb).2.1
  case values =>
    have hvalues := h.values
    rw [List.map_cons, List.map_cons] at hvalues
    exact values_congr (List.cons.inj hvalues).2 (fun b hb => (hold b hb).1)
  case free =>
    intro b hb hmem'
    by_cases hba : b = l.ptr e
    · rw [hba, hp.heap_first]
    · rw [hp.heap_rest b hba]
      · exact h.free b hb (by simp [hba, hmem'])
      · rintro rfl
        exact hmem' (hsecond_mem hb)
  case size =>
    rw [hp.listSize, h.size, List.length_cons, BitVec.ofNat_add]
    exact BitVec.add_sub_cancel _ _
  case balanced =>
    intro b
    have hb := h.balanced b
    rw [List.count_cons] at hb
    rw [hp.allocated, hp.deallocated, List.count_cons, hb]
    omega

theorem pop_nil (h : Spells e l [] []) : StdList.pop e l = .ok l := by
  have hptr : l.ptr e = 0 := h.links.head_eq
  rw [StdList.pop, if_pos hptr]
  rfl

lemma empty : Spells .front (StdList.empty (T := T)) [] [] where
  links := DLinked.empty _ _ _
  values := rfl
  free := fun _ _ _ => rfl
  size := rfl
  balanced := fun _ => rfl

lemma length_eq (h : Spells e l nodes xs) : nodes.length = xs.length := by
  simpa using congrArg List.length h.values

lemma push_or_throw (h : Spells e l nodes xs) (hfresh : a ≠ 0 ∧ l.heap a = .free) (v : T)
    (throws : Bool) :
    ∃ l' nodes', StdList.push e l v a throws = .ok l' ∧ Spells e l' nodes' (if throws then xs else v :: xs) := by
  cases throws with
  | false =>
    obtain ⟨l', hrun, h'⟩ := h.push hfresh.1 hfresh.2 v
    exact ⟨l', _, hrun, h'⟩
  | true =>
    obtain ⟨l', hrun, h'⟩ := h.push_throws hfresh.2 v
    exact ⟨l', _, hrun, h'⟩

lemma pop_tail (h : Spells e l nodes xs) :
    ∃ l' nodes', StdList.pop e l = .ok l' ∧ Spells e l' nodes' xs.tail := by
  cases nodes with
  | nil =>
    obtain rfl : xs = [] := List.eq_nil_of_length_eq_zero h.length_eq.symm
    exact ⟨l, [], h.pop_nil, h⟩
  | cons a nodes =>
    cases xs with
    | nil => exact absurd h.length_eq (by simp)
    | cons v xs =>
      obtain ⟨l', hrun, h'⟩ := h.pop
      exact ⟨l', nodes, hrun, h'⟩

/-- Nodes have different addresses, so there are fewer of them than addresses. -/
lemma length_lt (h : Spells e l nodes xs) : nodes.length < maxSteps := by
  have hnodup : ((0 :: nodes).map BitVec.toFin).Nodup := by
    apply List.Nodup.map
    · intro x y hxy
      exact BitVec.eq_of_toFin_eq hxy
    · exact List.nodup_cons.mpr ⟨h.links.null_notMem, h.links.nodup⟩
  have hcard := hnodup.length_le_card
  rw [Fintype.card_fin, List.length_map, List.length_cons] at hcard
  exact hcard

lemma size_toNat (h : Spells e l nodes xs) : l.size.toNat = xs.length := by
  rw [StdList.size, h.size, BitVec.toNat_ofNat, h.length_eq]
  exact Nat.mod_eq_of_lt (h.length_eq ▸ h.length_lt)

lemma clearLoop_ok (h : Spells .front l nodes xs) (fuel : Nat) (hfuel : nodes.length < fuel) :
    ∃ l', clearLoop fuel l = .ok l' ∧ Spells .front l' [] [] := by
  -- one node leaves a round, so the rounds outlast the nodes
  induction fuel generalizing l nodes xs with
  | zero => omega
  | succ fuel ih =>
    cases nodes with
    | nil =>
      cases xs with
      | nil =>
        refine ⟨l, ?_, h⟩
        have hhead : l.head = 0 := h.links.head_eq
        rw [clearLoop, if_pos hhead]
        rfl
      | cons v xs => exact absurd h.length_eq (by simp)
    | cons a nodes =>
      cases xs with
      | nil => exact absurd h.length_eq (by simp)
      | cons v xs =>
        have hhead : l.head ≠ 0 := by
          intro hnull
          have ha : l.head = a := h.links.head_eq
          exact h.links.null_notMem (by simp [← ha, hnull])
        obtain ⟨l₁, hpop, h₁⟩ := h.pop
        obtain ⟨l₂, hclear, h₂⟩ := ih h₁ (by simpa using hfuel)
        refine ⟨l₂, ?_, h₂⟩
        rw [clearLoop, if_neg hhead]
        exact bind_eq_ok.mpr ⟨l₁, hpop, hclear⟩

theorem clear (h : Spells .front l nodes xs) : ∃ l', l.clear = .ok l' ∧ Spells .front l' [] [] :=
  h.clearLoop_ok maxSteps h.length_lt

end Spells

lemma iterateFrom_ok (h : Chain l.next 0 a nodes) (hvalues : nodes.map l.valueAt = xs.map some) (fuel : Nat)
    (hfuel : nodes.length < fuel) : l.iterateFrom fuel a = .ok xs := by
  induction h generalizing xs fuel with
  | nil =>
    obtain rfl : xs = [] := by simpa using hvalues
    cases fuel with
    | zero => omega
    | succ fuel => simp [iterateFrom, pure, Except.pure]
  | @cons a nodes ha _ ih =>
    cases xs with
    | nil => simp at hvalues
    | cons v xs =>
      cases fuel with
      | zero => omega
      | succ fuel =>
        rw [List.map_cons, List.map_cons] at hvalues
        obtain ⟨hvalue, hrest⟩ := List.cons.inj hvalues
        obtain ⟨n, hn⟩ := exists_node hvalue
        have hv : n.data = v := by
          rw [valueAt_node hn] at hvalue
          exact Option.some.inj hvalue
        have hnext : l.next a = n.next := linkOf_node hn .back
        have hrest_ok := ih hrest fuel (by simpa using hfuel)
        rw [hnext] at hrest_ok
        rw [iterateFrom, if_neg ha]
        refine bind_eq_ok.mpr ⟨n, ?_, bind_eq_ok.mpr ⟨xs, hrest_ok, ?_⟩⟩
        · rw [deref, hn]
        · rw [hv]
          rfl

/-- The list is the sequence `xs`, whichever way it is looked at. -/
structure IsDeque (l : StdList T) (xs : List T) : Prop where
  chains : ∃ nodes, nodes.Nodup ∧ Chain l.next 0 l.head nodes ∧ Chain l.prev 0 l.tail nodes.reverse ∧
    nodes.map l.valueAt = xs.map some ∧
    ∀ a, l.allocated.count a = l.deallocated.count a + nodes.count a
  iterates : l.iterate = .ok xs
  size : l.size.toNat = xs.length
  clears : ∃ l', l.clear = .ok l' ∧ l'.head = 0 ∧ l'.tail = 0 ∧ l'.size = 0 ∧
    ∀ a, l'.allocated.count a = l'.deallocated.count a

lemma Spells.isDeque (h : Spells .front l nodes xs) : IsDeque l xs where
  chains := ⟨nodes, h.links.nodup, h.links.chain, h.links.reverse.chain, h.values, h.balanced⟩
  iterates := iterateFrom_ok h.links.chain h.values maxSteps h.length_lt
  size := h.size_toNat
  clears := by
    obtain ⟨l', hclear, h'⟩ := h.clear
    exact ⟨l', hclear, h'.links.head_eq, h'.links.tail_eq, h'.size, h'.balanced⟩

end StdList

/-- A call, with the node its allocation returned and whether the copy of the value throws. -/
inductive ListCall (T : Type) where
  | pushFront (value : T) (newNode : Addr) (throws : Bool)
  | pushBack (value : T) (newNode : Addr) (throws : Bool)
  | popFront
  | popBack
  | clear

namespace ListCall

def run : ListCall T → StdList T → Except Fault (StdList T)
  | .pushFront value newNode throws, l => l.pushFront value newNode throws
  | .pushBack value newNode throws, l => l.pushBack value newNode throws
  | .popFront, l => l.popFront
  | .popBack, l => l.popBack
  | .clear, l => l.clear

def apply : ListCall T → List T → List T
  | .pushFront value _ throws, xs => if throws then xs else value :: xs
  | .pushBack value _ throws, xs => if throws then xs else xs ++ [value]
  | .popFront, xs => xs.tail
  | .popBack, xs => xs.dropLast
  | .clear, _ => []

def Fresh (l : StdList T) : ListCall T → Prop
  | .pushFront _ newNode _ | .pushBack _ newNode _ => newNode ≠ 0 ∧ l.heap newNode = .free
  | .popFront | .popBack | .clear => True

end ListCall

/-- A list and the sequence that the calls made so far stand for. -/
structure ListRun (T : Type) where
  list : StdList T
  sequence : List T

def ListRun.step (r : ListRun T) (c : ListCall T) : Except Fault (ListRun T) := do
  let l ← c.run r.list
  pure ⟨l, c.apply r.sequence⟩

def ListReach : ListRun T → Prop :=
  Reach (· = ⟨StdList.empty, []⟩) ListRun.step (fun r c => c.Fresh r.list)

lemma ListCall.run_ok (h : l.Spells .front nodes xs) (c : ListCall T) (hfresh : c.Fresh l) :
    ∃ l' nodes', c.run l = .ok l' ∧ l'.Spells .front nodes' (c.apply xs) := by
  cases c with
  | pushFront v a throws => exact h.push_or_throw hfresh v throws
  | pushBack v a throws =>
    -- from the back the list spells the reversed sequence, and the push is at its front
    obtain ⟨l', nodes', hrun, h'⟩ := h.flip.push_or_throw hfresh v throws
    refine ⟨l', nodes'.reverse, hrun, ?_⟩
    have hback := h'.flip
    cases throws <;> simpa [apply] using hback
  | popFront => exact h.pop_tail
  | popBack =>
    obtain ⟨l', nodes', hrun, h'⟩ := h.flip.pop_tail
    refine ⟨l', nodes'.reverse, hrun, ?_⟩
    have hback := h'.flip
    simpa [apply] using hback
  | clear =>
    obtain ⟨l', hrun, h'⟩ := h.clear
    exact ⟨l', [], hrun, h'⟩

lemma ListRun.step_ok {r : ListRun T} (h : ∃ nodes, r.list.Spells .front nodes r.sequence) (c : ListCall T)
    (hfresh : c.Fresh r.list) :
    ∃ r', r.step c = .ok r' ∧ ∃ nodes, r'.list.Spells .front nodes r'.sequence := by
  obtain ⟨nodes, h⟩ := h
  obtain ⟨l', nodes', hrun, h'⟩ := ListCall.run_ok h c hfresh
  exact ⟨⟨l', c.apply r.sequence⟩, bind_eq_ok.mpr ⟨l', hrun, rfl⟩, nodes', h'⟩

lemma spells_of_reach {r : ListRun T} (hr : ListReach r) : ∃ nodes, r.list.Spells .front nodes r.sequence := by
  apply hr.invariant
  · rintro r rfl
    exact ⟨[], StdList.Spells.empty⟩
  · exact fun r c h hfresh => ListRun.step_ok h c hfresh

/-- After any calls on a fresh list, the list is the sequence the calls stand for, and no further call
faults. -/
theorem list_is_deque {r : ListRun T} (hr : ListReach r) :
    r.list.IsDeque r.sequence ∧ ∀ c : ListCall T, c.Fresh r.list → ∃ r', r.step c = .ok r' := by
  have h := spells_of_reach hr
  refine ⟨?_, ?_⟩
  · obtain ⟨nodes, hnodes⟩ := h
    exact hnodes.isDeque
  · intro c hfresh
    obtain ⟨r', hstep, -⟩ := ListRun.step_ok h c hfresh
    exact ⟨r', hstep⟩

instance (cell : Cell T) : Decidable (cell = .free) :=
  match cell with
  | .free => isTrue rfl
  | .raw => isFalse (nomatch ·)
  | .node _ => isFalse (nomatch ·)

instance (l : StdList T) : (c : ListCall T) → Decidable (c.Fresh l)
  | .pushFront _ newNode _ | .pushBack _ newNode _ =>
    inferInstanceAs (Decidable (newNode ≠ 0 ∧ l.heap newNode = .free))
  | .popFront | .popBack | .clear => isTrue trivial

/-- Both pushes, a pop at the back, and an address used a second time. -/
def exampleCalls : List (ListCall Nat) :=
  [.pushBack 1 0x1000 false, .pushFront 2 0x2000 false, .popBack, .pushBack 3 0x1000 false]

theorem list_is_deque_example : ∃ r : ListRun Nat, ListReach r ∧ r.sequence = [2, 3] ∧ r.list.IsDeque [2, 3] := by
  have hplay : (play ListRun.step (fun r c => c.Fresh r.list) ⟨StdList.empty, []⟩ exampleCalls).any
      (fun r => r.sequence = [2, 3]) = true := by
    decide +kernel
  obtain ⟨r, hr, hseq⟩ := (Option.any_eq_true _ _).mp hplay
  have hreach : ListReach r := Reach.play (.init rfl) hr
  have hsequence : r.sequence = [2, 3] := of_decide_eq_true hseq
  exact ⟨r, hreach, hsequence, hsequence ▸ (list_is_deque hreach).1⟩

end JavaScriptOS.Libcppk
