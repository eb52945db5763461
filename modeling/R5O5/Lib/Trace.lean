import Mathlib.Data.List.Induction

/-!
# Runs of a labelled transition system

`Trace step s l t`: performing the labels `l` one after the other leads from `s` to `t`. A trace
grows at its end, so that a fact about a run follows by induction from its last step.

## Main results

- `Trace.invariant`: what holds at the start and is kept by every step holds at the end;
- `Trace.invariant_of_labels`: the same for a fact about the state and the labels so far;
- `Trace.simulation`: a run is followed by runs of another relation;
- `Trace.first_of_labels`: the first step of a kind;
- `Trace.eq_of_absorbing`: a run from a state that no step leaves.
-/

/-- A run of the relation `step` from `s` to `t` under the labels `l`. -/
inductive Trace {σ α : Type*} (step : σ → α → σ → Prop) (s : σ) : List α → σ → Prop
  | refl : Trace step s [] s
  | snoc {l : List α} {t u : σ} {a : α} :
      Trace step s l t → step t a u → Trace step s (l ++ [a]) u

namespace Trace

variable {σ α : Type*} {step : σ → α → σ → Prop} {s t : σ} {l : List α}

@[simp]
theorem nil_iff : Trace step s [] t ↔ t = s := by
  constructor
  · generalize hl : ([] : List α) = l
    rintro (_ | ⟨-, -⟩)
    · rfl
    · simp at hl
  · rintro rfl
    exact refl

/-- The last step of a run. -/
theorem append_singleton_iff {a : α} :
    Trace step s (l ++ [a]) t ↔ ∃ u, Trace step s l u ∧ step u a t := by
  constructor
  · generalize hl : l ++ [a] = l'
    rintro (_ | ⟨hinit, hlast⟩)
    · simp at hl
    · obtain ⟨rfl, ha⟩ := List.append_inj' hl rfl
      cases ha
      exact ⟨_, hinit, hlast⟩
  · rintro ⟨u, hinit, hlast⟩
    exact hinit.snoc hlast

theorem append_iff {l' : List α} :
    Trace step s (l ++ l') t ↔ ∃ u, Trace step s l u ∧ Trace step u l' t := by
  induction l' using List.reverseRecOn generalizing t with
  | nil => simp
  | append_singleton l' a ih =>
    simp only [← List.append_assoc, append_singleton_iff, ih]
    constructor
    · rintro ⟨u, ⟨v, hv, hu⟩, hlast⟩
      exact ⟨v, hv, u, hu, hlast⟩
    · rintro ⟨v, hv, u, hu, hlast⟩
      exact ⟨u, ⟨v, hv, hu⟩, hlast⟩

/-- The first step of a run. -/
theorem cons_iff {a : α} : Trace step s (a :: l) t ↔ ∃ u, step s a u ∧ Trace step u l t := by
  rw [← List.singleton_append, append_iff]
  refine exists_congr fun u => and_congr_left fun _ => ?_
  rw [← List.nil_append [a], append_singleton_iff]
  simp only [nil_iff, exists_eq_left]

/-- The runs of a relation are runs of any weaker one. -/
theorem mono {step' : σ → α → σ → Prop} (h : Trace step s l t)
    (himp : ∀ s a t, step s a t → step' s a t) : Trace step' s l t := by
  induction h with
  | refl => exact refl
  | snoc _ hlast ih => exact ih.snoc (himp _ _ _ hlast)

/-- A fact about the state and the labels performed so far that every step keeps. -/
theorem invariant_of_labels {I : List α → σ → Prop} (htrace : Trace step s l t)
    (hinit : I [] s) (hstep : ∀ l t a u, I l t → step t a u → I (l ++ [a]) u) : I l t := by
  induction htrace with
  | refl => exact hinit
  | snoc _ hlast ih => exact hstep _ _ _ _ ih hlast

/-- A fact about the state that every step keeps. -/
theorem invariant {I : σ → Prop} (htrace : Trace step s l t)
    (hinit : I s) (hstep : ∀ t a u, I t → step t a u → I u) : I t :=
  htrace.invariant_of_labels (I := fun _ t => I t) hinit fun _ t a u => hstep t a u

/-- A relation between two systems that is kept when the second one answers every step of the first
with a run. -/
theorem simulation {τ β : Type*} {step' : τ → β → τ → Prop} {s' : τ}
    {R : List α → σ → List β → τ → Prop} (htrace : Trace step s l t) (hinit : R [] s [] s')
    (hstep : ∀ l t a u l' t', R l t l' t' → step t a u →
      ∃ l'' u', Trace step' t' l'' u' ∧ R (l ++ [a]) u (l' ++ l'') u') :
    ∃ l' t', Trace step' s' l' t' ∧ R l t l' t' := by
  refine htrace.invariant_of_labels (I := fun l t => ∃ l' t', Trace step' s' l' t' ∧ R l t l' t')
    ⟨[], s', refl, hinit⟩ ?_
  rintro l t a u ⟨l', t', hrun, hrel⟩ hlast
  obtain ⟨l'', u', hanswer, hrel'⟩ := hstep l t a u l' t' hrel hlast
  exact ⟨l' ++ l'', u', append_iff.mpr ⟨t', hrun, hanswer⟩, hrel'⟩

/-- A run without a step of a kind, or the first such step in it. -/
theorem first_of_labels (htrace : Trace step s l t) (p : α → Prop) :
    (∀ a ∈ l, ¬p a) ∨ ∃ l₁ a l₂ u v, l = l₁ ++ a :: l₂ ∧ (∀ b ∈ l₁, ¬p b) ∧ p a ∧
      Trace step s l₁ u ∧ step u a v ∧ Trace step v l₂ t := by
  induction htrace with
  | refl => exact Or.inl fun a ha => absurd ha List.not_mem_nil
  | @snoc l t u a hinit hlast ih =>
    rcases ih with hnone | ⟨l₁, b, l₂, v, w, rfl, hnone, hb, hbefore, hfirst, hafter⟩
    · by_cases ha : p a
      · exact Or.inr ⟨l, a, [], t, u, rfl, hnone, ha, hinit, hlast, refl⟩
      · refine Or.inl fun b hb => ?_
        rcases List.mem_append.mp hb with hb | hb
        · exact hnone b hb
        · rw [List.mem_singleton.mp hb]
          exact ha
    · refine Or.inr ⟨l₁, b, l₂ ++ [a], v, w, ?_, hnone, hb, hbefore, hfirst, hafter.snoc hlast⟩
      rw [List.append_assoc, List.cons_append]

/-- No run leaves a state that no step leaves. -/
theorem eq_of_absorbing (htrace : Trace step s l t) (hstep : ∀ a t, step s a t → t = s) :
    t = s := by
  refine htrace.invariant (I := fun t => t = s) rfl ?_
  rintro _ a u rfl hlast
  exact hstep a u hlast

end Trace
