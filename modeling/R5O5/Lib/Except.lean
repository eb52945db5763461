import Mathlib.Data.List.Basic

/-!
# Computations that may stop

Inversion of successful runs of `Except` computations and of loops written with `List.foldlM`.

## Main results

- `Except.bind_eq_ok`: a sequence succeeds when both parts do;
- `Except.foldlM_cons_eq_ok`: a loop succeeds when its first round and the rest do;
- `Except.foldlM_invariant`: the loop rule for successful runs;
- `Except.foldlM_total`: the loop rule for loops none of whose rounds stops;
- `Except.Related.bind`, `Except.Related.foldlM`: sequences and loops of two runs in step;
- `Except.Together.bind`: sequences of two runs that stop together;
- `EStateM.bind_of_ok`, `EStateM.bind_of_error`: sequences of computations that keep their state
  when they stop;
- `EStateM.mapM_cons_eq_ok`, `EStateM.exists_of_mapM_eq_error`: loops of them;
- `EStateM.Related.bind`, `EStateM.Related.mapM`: sequences and loops of two of them in step.
-/

namespace Except

universe v

variable {ε : Type*} {α β σ : Type v}

/-- A computation returns when both parts return. -/
theorem bind_eq_ok {x : Except ε α} {f : α → Except ε β} {b : β} :
    (x >>= f) = .ok b ↔ ∃ a, x = .ok a ∧ f a = .ok b := by
  cases x with
  | error e =>
    constructor
    · intro h
      cases h
    · rintro ⟨a, h, -⟩
      cases h
  | ok a =>
    constructor
    · intro h
      exact ⟨a, rfl, h⟩
    · rintro ⟨a', h, hf⟩
      cases h
      exact hf

/-- A mapped result. -/
theorem map_eq_ok {x : Except ε α} {f : α → β} {b : β} :
    x.map f = .ok b ↔ ∃ a, x = .ok a ∧ f a = b := by
  cases x with
  | error e =>
    constructor
    · intro h
      cases h
    · rintro ⟨a, h, -⟩
      cases h
  | ok a =>
    constructor
    · intro h
      exact ⟨a, rfl, ok.inj h⟩
    · rintro ⟨a', h, hf⟩
      cases h
      exact congrArg ok hf

/-- The value of a computation, or a default one if it stopped. -/
def getD (x : Except ε α) (default : α) : α :=
  match x with
  | .ok a => a
  | .error _ => default

theorem eq_ok_getD {x : Except ε α} (default : α) (h : x.isOk = true) :
    x = .ok (x.getD default) := by
  cases x with
  | error e => cases h
  | ok a => rfl

@[simp]
theorem ok_bind (a : α) (f : α → Except ε β) : (Except.ok a >>= f) = f a := rfl

@[simp]
theorem error_bind (e : ε) (f : α → Except ε β) : ((.error e : Except ε α) >>= f) = .error e := rfl

/-- A fold returns when its first round and the others return. -/
theorem foldlM_cons_eq_ok {f : σ → α → Except ε σ} {a : α} {l : List α} {s t : σ} :
    (a :: l).foldlM f s = .ok t ↔ ∃ s', f s a = .ok s' ∧ l.foldlM f s' = .ok t := by
  rw [List.foldlM_cons, bind_eq_ok]

/-- A fact about the rounds done so far and the state that every successful round keeps holds after
a successful loop. -/
theorem foldlM_invariant {f : σ → α → Except ε σ} {P : List α → σ → Prop} {l : List α} {s t : σ}
    (hinit : P [] s)
    (hround : ∀ done a rest s s', l = done ++ a :: rest → P done s → f s a = .ok s' →
      P (done ++ [a]) s')
    (h : l.foldlM f s = .ok t) : P l t := by
  suffices hrest : ∀ rest done s, l = done ++ rest → P done s → rest.foldlM f s = .ok t → P l t from
    hrest l [] s rfl hinit h
  intro rest
  induction rest with
  | nil =>
    intro done s hl hdone hs
    cases hs
    rwa [hl, List.append_nil]
  | cons a rest ih =>
    intro done s hl hdone hs
    obtain ⟨s', hs', hrest⟩ := foldlM_cons_eq_ok.mp hs
    exact ih (done ++ [a]) s' (by simp [hl]) (hround done a rest s s' hl hdone hs') hrest

/-- A loop whose rounds all succeed under an invariant succeeds and keeps it. -/
theorem foldlM_total {f : σ → α → Except ε σ} {P : List α → σ → Prop} {l : List α} {s : σ}
    (hinit : P [] s)
    (hround : ∀ done a rest s, l = done ++ a :: rest → P done s →
      ∃ s', f s a = .ok s' ∧ P (done ++ [a]) s') :
    ∃ t, l.foldlM f s = .ok t ∧ P l t := by
  suffices hrest : ∀ rest done s, l = done ++ rest → P done s →
      ∃ t, rest.foldlM f s = .ok t ∧ P l t from hrest l [] s rfl hinit
  intro rest
  induction rest with
  | nil =>
    intro done s hl hdone
    exact ⟨s, rfl, by rwa [hl, List.append_nil]⟩
  | cons a rest ih =>
    intro done s hl hdone
    obtain ⟨s', hs', hdone'⟩ := hround done a rest s hl hdone
    obtain ⟨t, ht, hP⟩ := ih (done ++ [a]) s' (by simp [hl]) hdone'
    exact ⟨t, foldlM_cons_eq_ok.mpr ⟨s', hs', ht⟩, hP⟩

/-! ## Two computations in step -/

/-- Two computations that stop alike, or return related values. -/
def Related {α' : Type*} (R : α → α' → Prop) : Except ε α → Except ε α' → Prop
  | .ok a, .ok a' => R a a'
  | .error e, .error e' => e = e'
  | _, _ => False

section Related

variable {α' β' σ' : Type v} {R : α → α' → Prop} {x : Except ε α} {x' : Except ε α'}

theorem Related.ok {a : α} {a' : α'} (h : R a a') :
    Related R (.ok a : Except ε α) (.ok a') := h

theorem Related.error (e : ε) : Related R (.error e : Except ε α) (.error e) := rfl

/-- Related results are related by a weaker relation. -/
theorem Related.mono {R' : α → α' → Prop} (h : Related R x x') (himp : ∀ a a', R a a' → R' a a') :
    Related R' x x' := by
  cases x <;> cases x'
  case ok.ok => exact himp _ _ h
  case error.error => exact h
  all_goals exact h.elim

/-- The related values are what the computations return. -/
theorem Related.returned (h : Related R x x') :
    Related (fun a a' => R a a' ∧ x = .ok a ∧ x' = .ok a') x x' := by
  cases x <;> cases x'
  case ok.ok => exact ⟨h, rfl, rfl⟩
  case error.error => exact h
  all_goals exact h.elim

/-- Sequences whose parts are in step. -/
theorem Related.bind {Q : β → β' → Prop} {f : α → Except ε β} {f' : α' → Except ε β'}
    (h : Related R x x') (hf : ∀ a a', R a a' → Related Q (f a) (f' a')) :
    Related Q (x >>= f) (x' >>= f') := by
  cases x <;> cases x'
  case ok.ok a a' => exact hf a a' h
  case error.error => exact h
  all_goals exact h.elim

/-- Loops whose rounds are in step. -/
theorem Related.foldlM {γ : Type*} {Q : σ → σ' → Prop} {f : σ → γ → Except ε σ}
    {f' : σ' → γ → Except ε σ'} {l : List γ} {s : σ} {s' : σ'} (hinit : Q s s')
    (hround : ∀ c s s', Q s s' → Related Q (f s c) (f' s' c)) :
    Related Q (l.foldlM f s) (l.foldlM f' s') := by
  induction l generalizing s s' with
  | nil => exact hinit
  | cons c l ih =>
    rw [List.foldlM_cons, List.foldlM_cons]
    exact (hround c s s' hinit).bind fun _ _ h => ih h

/-- If one of the computations returns, so does the other. -/
theorem Related.exists_ok (h : Related R x x') {a : α} (hok : x = .ok a) :
    ∃ a', x' = .ok a' ∧ R a a' := by
  subst hok
  cases x' with
  | error e => exact h.elim
  | ok a' => exact ⟨a', rfl, h⟩

end Related

/-- Two computations that both stop, for whatever reasons, or return related values. -/
def Together {α' : Type*} (R : α → α' → Prop) : Except ε α → Except ε α' → Prop
  | .ok a, .ok a' => R a a'
  | .error _, .error _ => True
  | _, _ => False

section Together

variable {α' β' : Type v} {R : α → α' → Prop} {x : Except ε α} {x' : Except ε α'}

theorem Together.error (e e' : ε) : Together R (.error e : Except ε α) (.error e') := trivial

/-- A computation goes together with itself. -/
theorem Together.of_forall {R : α → α → Prop} (x : Except ε α) (h : ∀ a, R a a) :
    Together R x x := by
  cases x with
  | error e => trivial
  | ok a => exact h a

/-- Sequences whose parts stop together. -/
theorem Together.bind {Q : β → β' → Prop} {f : α → Except ε β} {f' : α' → Except ε β'}
    (h : Together R x x') (hf : ∀ a a', R a a' → Together Q (f a) (f' a')) :
    Together Q (x >>= f) (x' >>= f') := by
  cases x <;> cases x'
  case ok.ok a a' => exact hf a a' h
  case error.error => trivial
  all_goals exact h.elim

/-- If the first computation returns, so does the second. -/
theorem Together.exists_ok (h : Together R x x') {a : α} (hok : x = .ok a) :
    ∃ a', x' = .ok a' ∧ R a a' := by
  subst hok
  cases x' with
  | error e => exact h.elim
  | ok a' => exact ⟨a', rfl, h⟩

/-- If the second computation returns, so does the first. -/
theorem Together.exists_ok_left (h : Together R x x') {a' : α'} (hok : x' = .ok a') :
    ∃ a, x = .ok a ∧ R a a' := by
  subst hok
  cases x with
  | error e => exact h.elim
  | ok a => exact ⟨a, rfl, h⟩

end Together

end Except

namespace EStateM

universe w

variable {ε σ : Type w} {α β : Type w} {x : EStateM ε σ α} {s s' : σ} {a : α} {e : ε}

/-- A sequence goes on from what its first part leaves. -/
theorem bind_of_ok (h : x s = .ok a s') (f : α → EStateM ε σ β) : (x >>= f) s = f a s' := by
  show EStateM.bind x f s = f a s'
  rw [EStateM.bind, h]

/-- A sequence stops when its first part does. -/
theorem bind_of_error (h : x s = .error e s') (f : α → EStateM ε σ β) :
    (x >>= f) s = .error e s' := by
  show EStateM.bind x f s = .error e s'
  rw [EStateM.bind, h]

theorem bind_eq_ok {f : α → EStateM ε σ β} {b : β} :
    (x >>= f) s = .ok b s' ↔ ∃ a t, x s = .ok a t ∧ f a t = .ok b s' := by
  constructor
  · intro h
    cases hx : x s with
    | error e t =>
      rw [bind_of_error hx] at h
      cases h
    | ok a t =>
      rw [bind_of_ok hx] at h
      exact ⟨a, t, rfl, h⟩
  · rintro ⟨a, t, hx, hf⟩
    rw [bind_of_ok hx, hf]

/-- A computation fails in its first or in its second part. -/
theorem bind_eq_error {f : α → EStateM ε σ β} :
    (x >>= f) s = .error e s' ↔
      x s = .error e s' ∨ ∃ a t, x s = .ok a t ∧ f a t = .error e s' := by
  constructor
  · intro h
    cases hx : x s with
    | error e' t =>
      rw [bind_of_error hx] at h
      cases h
      exact Or.inl rfl
    | ok a t =>
      rw [bind_of_ok hx] at h
      exact Or.inr ⟨a, t, rfl, h⟩
  · rintro (hx | ⟨a, t, hx, hf⟩)
    · exact bind_of_error hx f
    · rw [bind_of_ok hx, hf]

theorem map_eq_ok {f : α → β} {b : β} :
    (f <$> x) s = .ok b s' ↔ ∃ a, x s = .ok a s' ∧ f a = b := by
  rw [map_eq_pure_bind, bind_eq_ok]
  constructor
  · rintro ⟨a, t, hx, hpure⟩
    cases hpure
    exact ⟨a, hx, rfl⟩
  · rintro ⟨a, hx, rfl⟩
    exact ⟨a, s', hx, rfl⟩

theorem map_eq_error {f : α → β} : (f <$> x) s = .error e s' ↔ x s = .error e s' := by
  rw [map_eq_pure_bind, bind_eq_error]
  constructor
  · rintro (hx | ⟨a, t, -, hpure⟩)
    · exact hx
    · cases hpure
  · exact Or.inl

section Loop

variable {ι : Type*} {f : ι → EStateM ε σ α} {i : ι} {l : List ι} {xs : List α}

/-- A loop returns when its first round and the others return. -/
theorem mapM_cons_eq_ok :
    (i :: l).mapM f s = .ok xs s' ↔
      ∃ x rest t, f i s = .ok x t ∧ l.mapM f t = .ok rest s' ∧ xs = x :: rest := by
  rw [List.mapM_cons, bind_eq_ok]
  constructor
  · rintro ⟨x, t, hhead, h⟩
    obtain ⟨rest, u, hrest, hpure⟩ := bind_eq_ok.mp h
    cases hpure
    exact ⟨x, rest, t, hhead, hrest, rfl⟩
  · rintro ⟨x, rest, t, hhead, hrest, rfl⟩
    exact ⟨x, t, hhead, bind_eq_ok.mpr ⟨rest, s', hrest, rfl⟩⟩

/-- A loop returns a result for each round. -/
theorem length_of_mapM (h : l.mapM f s = .ok xs s') : xs.length = l.length := by
  induction l generalizing s xs with
  | nil =>
    cases h
    rfl
  | cons i l ih =>
    obtain ⟨x, rest, t, -, hrest, rfl⟩ := mapM_cons_eq_ok.mp h
    rw [List.length_cons, List.length_cons, ih hrest]

/-- A loop stops because one of its rounds does. -/
theorem exists_of_mapM_eq_error (h : l.mapM f s = .error e s') :
    ∃ i ∈ l, ∃ t, f i t = .error e s' := by
  induction l generalizing s with
  | nil => cases h
  | cons i l ih =>
    rw [List.mapM_cons] at h
    rcases bind_eq_error.mp h with hhead | ⟨x, t, -, h⟩
    · exact ⟨i, List.mem_cons_self, s, hhead⟩
    · rcases bind_eq_error.mp h with hrest | ⟨rest, u, -, hpure⟩
      · obtain ⟨j, hj, hstop⟩ := ih hrest
        exact ⟨j, List.mem_cons_of_mem i hj, hstop⟩
      · cases hpure

end Loop

/-- The same outcome, with states that are related. -/
inductive Related {τ : Type w} (R : σ → τ → Prop) : Result ε σ α → Result ε τ α → Prop
  | ok {a : α} {s : σ} {t : τ} : R s t → Related R (.ok a s) (.ok a t)
  | error {e : ε} {s : σ} {t : τ} : R s t → Related R (.error e s) (.error e t)

section Related

variable {τ : Type w} {R : σ → τ → Prop} {y : EStateM ε τ α} {t : τ}

/-- Sequences whose parts are in step. -/
theorem Related.bind {f : α → EStateM ε σ β} {g : α → EStateM ε τ β}
    (h : Related R (x s) (y t)) (hf : ∀ a s t, R s t → Related R (f a s) (g a t)) :
    Related R ((x >>= f) s) ((y >>= g) t) := by
  generalize hx : x s = r at h
  generalize hy : y t = r' at h
  cases h with
  | ok hR =>
    rw [bind_of_ok hx, bind_of_ok hy]
    exact hf _ _ _ hR
  | error hR =>
    rw [bind_of_error hx, bind_of_error hy]
    exact .error hR

/-- Related computations stay related under a map. -/
theorem Related.map (f : α → β) (h : Related R (x s) (y t)) :
    Related R ((f <$> x) s) ((f <$> y) t) := by
  rw [map_eq_pure_bind, map_eq_pure_bind]
  exact h.bind fun _ _ _ => .ok

/-- Loops whose rounds are in step. -/
theorem Related.mapM {ι : Type*} {f : ι → EStateM ε σ α} {g : ι → EStateM ε τ α}
    (hround : ∀ i s t, R s t → Related R (f i s) (g i t)) (l : List ι) (h : R s t) :
    Related R (l.mapM f s) (l.mapM g t) := by
  induction l generalizing s t with
  | nil => exact .ok h
  | cons i l ih =>
    rw [List.mapM_cons, List.mapM_cons]
    exact (hround i s t h).bind fun _ _ _ h => (ih h).bind fun _ _ _ => .ok

end Related

end EStateM
