import JavaScriptOS.Lib.Generator

/-!
# A plain body that follows a generator

`Follows R Ok m g` relates a body `m` that keeps everything in its state, and that may stop with a
fault, to a generator `g`. From related states `m` finishes exactly when `g` does with events that are
all `Ok`, and the final states are related again.
-/

namespace JavaScriptOS.Lib

variable {σ τ ε φ α : Type}

def Follows (R : List ε → σ → τ → Prop) (Ok : ε → Prop) (m : StateT τ (Except φ) Unit) (g : Gen σ ε) : Prop :=
  ∀ e s t, R e s t →
    (∀ e' s', g s = some (e', s') → (∀ x ∈ e', Ok x) → ∃ t', m t = .ok ((), t') ∧ R (e ++ e') s' t') ∧
    (∀ t', m t = .ok ((), t') → ∃ e' s', g s = some (e', s') ∧ (∀ x ∈ e', Ok x) ∧ R (e ++ e') s' t')

namespace Follows

variable {R : List ε → σ → τ → Prop} {Ok : ε → Prop} {m n : StateT τ (Except φ) Unit} {g h : Gen σ ε}

lemma bind_ok {t t' : τ} {u : Unit} (hm : m t = .ok (u, t')) : (m >>= fun _ => n) t = n t' := by
  simp only [bind, StateT.bind, hm, Except.bind]

lemma bind_error {t : τ} {f : φ} (hm : m t = .error f) : (m >>= fun _ => n) t = .error f := by
  simp only [bind, StateT.bind, hm, Except.bind]

/-- Both bodies take one step that cannot fail. -/
lemma of_step (f : τ → τ) (e₀ : List ε) (k : σ → σ) (hm : ∀ t, m t = .ok ((), f t))
    (hg : ∀ s, g s = some (e₀, k s)) (hok : ∀ x ∈ e₀, Ok x)
    (hR : ∀ e s t, R e s t → R (e ++ e₀) (k s) (f t)) : Follows R Ok m g := by
  intro e s t hr
  constructor
  · intro e' s' hgs _
    rw [hg] at hgs
    cases hgs
    exact ⟨f t, hm t, hR e s t hr⟩
  · intro t' hmt
    rw [hm] at hmt
    cases hmt
    exact ⟨e₀, k s, hg s, hok, hR e s t hr⟩

lemma done : Follows R Ok (pure () : StateT τ (Except φ) Unit) (Gen.done : Gen σ ε) := by
  apply of_step id [] id
  · exact fun _ => rfl
  · exact fun _ => rfl
  · exact fun x hx => by cases hx
  · intro e s t hr
    rwa [List.append_nil]

lemma ite {c d : Prop} [Decidable c] [Decidable d] (hcd : c ↔ d) (hm : Follows R Ok m g) (hn : Follows R Ok n h) :
    Follows R Ok (if c then m else n) (if d then g else h) := by
  by_cases hc : c
  · rw [if_pos hc, if_pos (hcd.mp hc)]
    exact hm
  · rw [if_neg hc, if_neg (fun hd => hc (hcd.mpr hd))]
    exact hn

/-- The generator may choose its continuation by the state, the body by the related one. -/
lemma read {k : σ → Gen σ ε} (h : ∀ e s t, R e s t → ∃ m' g', m t = m' t ∧ k s s = g' s ∧ Follows R Ok m' g') :
    Follows R Ok m (Gen.read k) := by
  intro e s t hr
  obtain ⟨m', g', hm, hg, hf⟩ := h e s t hr
  obtain ⟨hfwd, hbwd⟩ := hf e s t hr
  rw [hm]
  constructor
  · intro e' s' hks
    exact hfwd e' s' (hg ▸ hks)
  · intro t' hmt
    obtain ⟨e', s', hgs, hrest⟩ := hbwd t' hmt
    exact ⟨e', s', hg.trans hgs, hrest⟩

theorem andThen (hm : Follows R Ok m g) (hn : Follows R Ok n h) :
    Follows R Ok (m >>= fun _ => n) (Gen.andThen g h) := by
  intro e s t hr
  obtain ⟨hfwd, hbwd⟩ := hm e s t hr
  constructor
  · intro e' s' hgh hok
    unfold Gen.andThen at hgh
    cases hgs : g s with
    | none => simp [hgs] at hgh
    | some p =>
      obtain ⟨e₁, s₁⟩ := p
      cases hhs : h s₁ with
      | none => simp [hgs, hhs] at hgh
      | some q =>
        obtain ⟨e₂, s₂⟩ := q
        simp only [hgs, hhs, Option.some.injEq, Prod.mk.injEq] at hgh
        obtain ⟨rfl, rfl⟩ := hgh
        obtain ⟨t₁, hmt, hr₁⟩ := hfwd e₁ s₁ hgs (fun x hx => hok x (List.mem_append_left _ hx))
        obtain ⟨t₂, hnt, hr₂⟩ := (hn (e ++ e₁) s₁ t₁ hr₁).1 e₂ s₂ hhs
          (fun x hx => hok x (List.mem_append_right _ hx))
        refine ⟨t₂, (bind_ok hmt).trans hnt, ?_⟩
        rwa [← List.append_assoc]
  · intro t' hmn
    cases hmt : m t with
    | error f =>
      rw [bind_error hmt] at hmn
      cases hmn
    | ok r =>
      obtain ⟨u, t₁⟩ := r
      rw [bind_ok hmt] at hmn
      obtain ⟨e₁, s₁, hgs, hok₁, hr₁⟩ := hbwd t₁ hmt
      obtain ⟨e₂, s₂, hhs, hok₂, hr₂⟩ := (hn (e ++ e₁) s₁ t₁ hr₁).2 t' hmn
      refine ⟨e₁ ++ e₂, s₂, ?_, ?_, ?_⟩
      · simp only [Gen.andThen, hgs, hhs]
      · intro x hx
        rcases List.mem_append.mp hx with hx | hx
        · exact hok₁ x hx
        · exact hok₂ x hx
      · rwa [← List.append_assoc]

theorem forEach {body : α → StateT τ (Except φ) Unit} {gen : α → Gen σ ε}
    (hb : ∀ a, Follows R Ok (body a) (gen a)) (l : List α) :
    Follows R Ok (l.forM body) (Gen.forEach gen l) := by
  induction l with
  | nil => exact done
  | cons a l ih => exact (hb a).andThen ih

end Follows

end JavaScriptOS.Lib
