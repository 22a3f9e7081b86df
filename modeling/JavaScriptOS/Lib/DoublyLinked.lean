import JavaScriptOS.Lib.Chain
import Mathlib.Data.List.Basic

/-!
# Doubly linked lists

`DLinked prev next null head tail l` says that the two link maps tie the members of `l` together, in
order, between `head` and `tail`. Turning the list around exchanges the maps and the ends, so every rule
about the back is a rule about the front of the list turned around.
-/

namespace JavaScriptOS.Lib

variable {α : Type} {prev next prev' next' : α → α} {null head tail a : α} {l : List α}

/-- The first member, or null. -/
def firstOr (null : α) (l : List α) : α := l.head?.getD null

/-- The last member, or null. -/
def finalOr (null : α) (l : List α) : α := l.getLast?.getD null

@[simp] lemma firstOr_nil (null : α) : firstOr null [] = null := rfl

@[simp] lemma firstOr_cons (null a : α) (l : List α) : firstOr null (a :: l) = a := rfl

@[simp] lemma finalOr_nil (null : α) : finalOr null [] = null := rfl

lemma finalOr_cons (null a : α) (l : List α) : finalOr null (a :: l) = finalOr a l := by
  cases l with
  | nil => rfl
  | cons b l => simp [finalOr, List.getLast?_cons]

lemma firstOr_reverse (null : α) (l : List α) : firstOr null l.reverse = finalOr null l := by
  simp [firstOr, finalOr]

lemma finalOr_reverse (null : α) (l : List α) : finalOr null l.reverse = firstOr null l := by
  simp [firstOr, finalOr]

lemma mem_of_firstOr_ne (h : firstOr null l ≠ null) : firstOr null l ∈ l := by
  cases l with
  | nil => exact absurd rfl h
  | cons a l => simp

/-- What follows a part of a chain is a chain from its first member. -/
lemma Chain.suffix {x : α} {l₁ l₂ : List α} (h : Chain next null x (l₁ ++ l₂)) :
    Chain next null (firstOr null l₂) l₂ := by
  induction l₁ generalizing x with
  | nil =>
    rw [List.nil_append] at h
    cases h with
    | nil => exact .nil
    | cons hx hrest => exact .cons hx hrest
  | cons b l₁ ih =>
    cases h with
    | cons _ hrest => exact ih hrest

structure DLinked (prev next : α → α) (null head tail : α) (l : List α) : Prop where
  nodup : l.Nodup
  null_notMem : null ∉ l
  head_eq : head = firstOr null l
  tail_eq : tail = finalOr null l
  links : ∀ l₁ a l₂, l = l₁ ++ a :: l₂ → prev a = finalOr null l₁ ∧ next a = firstOr null l₂

namespace DLinked

lemma empty (prev next : α → α) (null : α) : DLinked prev next null null null [] where
  nodup := List.nodup_nil
  null_notMem := by simp
  head_eq := rfl
  tail_eq := rfl
  links := by
    intro l₁ a l₂ h
    simp at h

lemma reverse (h : DLinked prev next null head tail l) : DLinked next prev null tail head l.reverse where
  nodup := List.nodup_reverse.mpr h.nodup
  null_notMem := by simpa using h.null_notMem
  head_eq := by rw [firstOr_reverse, h.tail_eq]
  tail_eq := by rw [finalOr_reverse, h.head_eq]
  links := by
    intro l₁ a l₂ hl
    have hrev : l = l₂.reverse ++ a :: l₁.reverse := by
      have hcongr := congrArg List.reverse hl
      simpa using hcongr
    obtain ⟨hprev, hnext⟩ := h.links _ _ _ hrev
    rw [finalOr_reverse] at hprev
    rw [firstOr_reverse] at hnext
    exact ⟨hnext, hprev⟩

/-- The links of a list whose maps have changed elsewhere. -/
lemma congr (h : DLinked prev next null head tail l) (hprev : ∀ b ∈ l, prev' b = prev b)
    (hnext : ∀ b ∈ l, next' b = next b) : DLinked prev' next' null head tail l where
  nodup := h.nodup
  null_notMem := h.null_notMem
  head_eq := h.head_eq
  tail_eq := h.tail_eq
  links := by
    intro l₁ a l₂ hl
    have ha : a ∈ l := by simp [hl]
    rw [hprev a ha, hnext a ha]
    exact h.links l₁ a l₂ hl

/-- Following `next` from the head visits the list. -/
theorem chain (h : DLinked prev next null head tail l) : Chain next null head l := by
  have hgen : ∀ l₂ l₁, l = l₁ ++ l₂ → Chain next null (firstOr null l₂) l₂ := by
    intro l₂
    induction l₂ with
    | nil => exact fun _ _ => Chain.nil
    | cons a l₂ ih =>
      intro l₁ hl
      have ha : a ≠ null := by
        rintro rfl
        exact h.null_notMem (by simp [hl])
      refine Chain.cons ha ?_
      rw [firstOr_cons, (h.links l₁ a l₂ hl).2]
      exact ih (l₁ ++ [a]) (by simp [hl])
  rw [h.head_eq]
  exact hgen l [] rfl

variable [DecidableEq α]

/-- A new member in front of the head. -/
theorem cons (h : DLinked prev next null head tail l) (ha : a ∉ l) (hnull : a ≠ null)
    (hprev_a : prev' a = null) (hnext_a : next' a = head) (hprev_head : head ≠ null → prev' head = a)
    (hprev : ∀ b ∈ l, b ≠ head → prev' b = prev b) (hnext : ∀ b ∈ l, next' b = next b) :
    DLinked prev' next' null a (if tail = null then a else tail) (a :: l) where
  nodup := List.nodup_cons.mpr ⟨ha, h.nodup⟩
  null_notMem := by
    rw [List.mem_cons, not_or]
    exact ⟨hnull.symm, h.null_notMem⟩
  head_eq := rfl
  tail_eq := by
    rw [h.tail_eq, finalOr_cons]
    cases hl : l.getLast? with
    | none => simp [finalOr, hl]
    | some b =>
      have hb : b ≠ null := by
        rintro rfl
        exact h.null_notMem (List.mem_of_getLast? hl)
      simp [finalOr, hl, hb]
  links := by
    intro l₁ b l₂ hl
    cases l₁ with
    | nil =>
      obtain ⟨rfl, rfl⟩ := List.cons.inj hl
      exact ⟨hprev_a, hnext_a.trans h.head_eq⟩
    | cons c l₁ =>
      obtain ⟨rfl, hl'⟩ := List.cons.inj hl
      have hb : b ∈ l := by simp [hl']
      obtain ⟨hold_prev, hold_next⟩ := h.links l₁ b l₂ hl'
      refine ⟨?_, (hnext b hb).trans hold_next⟩
      rw [finalOr_cons]
      cases l₁ with
      | nil =>
        -- the old head
        have hhead : head = b := by rw [h.head_eq, hl']; rfl
        rw [← hhead] at hb ⊢
        exact hprev_head (fun hn => h.null_notMem (hn ▸ hb))
      | cons d l₁ =>
        have hne : b ≠ head := by
          rintro rfl
          have hd : b = d := by rw [h.head_eq, hl']; rfl
          have hn := h.nodup
          rw [hl', hd] at hn
          simp at hn
        rw [hprev b hb hne, hold_prev, finalOr_cons, finalOr_cons]

/-- The head leaves. -/
theorem uncons (h : DLinked prev next null head tail (a :: l))
    (hprev_next : next a ≠ null → prev' (next a) = null)
    (hprev : ∀ b ∈ l, b ≠ next a → prev' b = prev b) (hnext : ∀ b ∈ l, next' b = next b) :
    DLinked prev' next' null (next a) (if next a = null then null else tail) l := by
  obtain ⟨-, hnext_a⟩ := h.links [] a l rfl
  have hnull : null ∉ l := fun hn => h.null_notMem (List.mem_cons_of_mem a hn)
  have hnodup := List.nodup_cons.mp h.nodup
  constructor
  · exact hnodup.2
  · exact hnull
  · exact hnext_a
  · rw [hnext_a, h.tail_eq, finalOr_cons]
    cases l with
    | nil => simp
    | cons b l =>
      have hb : b ≠ null := by
        rintro rfl
        simp at hnull
      simp [hb, finalOr_cons]
  · intro l₁ b l₂ hl
    have hb : b ∈ l := by simp [hl]
    obtain ⟨hold_prev, hold_next⟩ := h.links (a :: l₁) b l₂ (by rw [hl]; rfl)
    refine ⟨?_, (hnext b hb).trans hold_next⟩
    cases l₁ with
    | nil =>
      have hfirst : next a = b := by rw [hnext_a, hl]; rfl
      rw [← hfirst]
      exact hprev_next (fun hn => hnull (hn ▸ hfirst ▸ hb))
    | cons c l₁ =>
      have hne : b ≠ next a := by
        rintro rfl
        rw [hl] at hnext_a
        have hn := hnodup.2
        rw [hl, hnext_a] at hn
        simp at hn
      rw [hprev b hb hne, hold_prev, finalOr_cons, finalOr_cons, finalOr_cons]

end DLinked

end JavaScriptOS.Lib
