import Mathlib.Data.List.Induction
import Mathlib.Data.Set.Insert

/-!
# Forests of bounded depth over a pool of frames

Trees whose nodes are frames of one pool: `child f i` is the frame that slot `i` of frame `f` points
to, if any. The slots of a frame mean something only where the frame is an inner node of a tree; the
slots of a leaf or of an unused frame may hold anything.

`Owned child depth live own` says that the trees rooted at `live` are pairwise disjoint: `own` gives
each frame at most one place, a root with the path of slots below it, and these places are exactly
the nodes of the trees.

## Main results

- `Owned.walk_eq_some_iff`: walking down from a root finds the frame that owns the place;
- `Owned.link`, `Owned.unlink`: adding and removing one childless node;
- `Owned.addRoot`, `Owned.removeRoot`: the same for a tree that is a single root;
- `Owned.congr`: slots of frames that are no inner nodes do not matter.
-/

namespace Forest

variable {F ι : Type*}

/-- The frame at the end of a path of slots. -/
def walk (child : F → ι → Option F) : F → List ι → Option F
  | f, [] => some f
  | f, i :: p => (child f i).bind fun g => walk child g p

theorem not_append_singleton_prefix (p : List ι) (i : ι) : ¬p ++ [i] <+: p := fun h => by
  have hlen := h.length_le
  rw [List.length_append, List.length_singleton] at hlen
  omega

theorem walk_append_singleton (child : F → ι → Option F) (f : F) (p : List ι) (i : ι) :
    walk child f (p ++ [i]) = (walk child f p).bind fun g => child g i := by
  induction p generalizing f with
  | nil => simp [walk]
  | cons j p ih => simp only [List.cons_append, walk, ih, Option.bind_assoc]

/-- Walks of at most `n` steps depend on the slots of the frames before their end. -/
theorem walk_congr {child child' : F → ι → Option F} {t : F} {n : ℕ}
    (hkeep : ∀ {f q} i, walk child t q = some f → q.length < n → child' f i = child f i)
    (p : List ι) (hp : p.length ≤ n) : walk child' t p = walk child t p := by
  induction p using List.reverseRecOn with
  | nil => rw [walk, walk]
  | append_singleton p i ih =>
    rw [List.length_append, List.length_singleton] at hp
    rw [walk_append_singleton, walk_append_singleton, ih (by omega)]
    exact Option.bind_congr fun f hwalk => hkeep i hwalk (by omega)

/-- `own` places the frames of disjoint trees with the roots `live` and paths of at most `depth`
slots. -/
structure Owned (child : F → ι → Option F) (depth : ℕ) (live : Set F)
    (own : F → Option (F × List ι)) : Prop where
  /-- A root has the empty path in its own tree. -/
  own_root : ∀ {t}, t ∈ live → own t = some (t, [])
  /-- Only roots have an empty path. -/
  root_of_nil : ∀ {f t}, own f = some (t, []) → t ∈ live ∧ f = t
  length_le : ∀ {f t p}, own f = some (t, p) → p.length ≤ depth
  /-- What an inner node points to is the node below it. -/
  own_child : ∀ {f t p i g}, own f = some (t, p) → p.length < depth → child f i = some g →
    own g = some (t, p ++ [i])
  /-- Every other node is pointed to by the node above it. -/
  exists_parent : ∀ {g t p i}, own g = some (t, p ++ [i]) →
    ∃ f, own f = some (t, p) ∧ child f i = some g

namespace Owned

variable {child child' : F → ι → Option F} {depth : ℕ} {live : Set F}
  {own : F → Option (F × List ι)} {f g t : F} {p : List ι} {i : ι}

theorem mem_live (h : Owned child depth live own) (hf : own f = some (t, p)) : t ∈ live := by
  induction p using List.reverseRecOn generalizing f with
  | nil => exact (h.root_of_nil hf).1
  | append_singleton p i ih =>
    obtain ⟨g, hg, -⟩ := h.exists_parent hf
    exact ih hg

/-- The frame at the end of a path is the one that owns the place. -/
theorem walk_eq_some_iff (h : Owned child depth live own) (ht : t ∈ live)
    (hp : p.length ≤ depth) : walk child t p = some f ↔ own f = some (t, p) := by
  induction p using List.reverseRecOn generalizing f with
  | nil =>
    constructor
    · intro hw
      obtain rfl : t = f := Option.some.inj hw
      exact h.own_root ht
    · intro hf
      rw [(h.root_of_nil hf).2]
      rfl
  | append_singleton p i ih =>
    -- the last step of the walk is the link from the parent
    rw [List.length_append, List.length_singleton] at hp
    rw [walk_append_singleton, Option.bind_eq_some_iff]
    constructor
    · rintro ⟨g, hg, hchild⟩
      exact h.own_child ((ih (by omega)).mp hg) hp hchild
    · intro hf
      obtain ⟨g, hg, hchild⟩ := h.exists_parent hf
      exact ⟨g, (ih (by omega)).mpr hg, hchild⟩

/-- No two frames have the same place. -/
theorem own_injective (h : Owned child depth live own) (hf : own f = some (t, p))
    (hg : own g = some (t, p)) : f = g := by
  have ht := h.mem_live hf
  have hp := h.length_le hf
  exact Option.some.inj (((h.walk_eq_some_iff ht hp).mpr hf).symm.trans
    ((h.walk_eq_some_iff ht hp).mpr hg))

/-- There is one frame at a place. -/
theorem exists_own_iff (h : Owned child depth live own) {y : F × List ι} (hg : own g = some y) :
    (∃ x, own f = some x ∧ x = y) ↔ f = g := by
  constructor
  · rintro ⟨x, hf, rfl⟩
    exact h.own_injective hf hg
  · rintro rfl
    exact ⟨y, hg, rfl⟩

/-- What is left without one frame. -/
theorem update_none_iff [DecidableEq F] (h : Owned child depth live own) {x y : F × List ι}
    (hg : own g = some y) : Function.update own g none f = some x ↔ own f = some x ∧ x ≠ y := by
  rcases eq_or_ne f g with rfl | hne
  · rw [Function.update_self, hg]
    constructor
    · intro hx
      cases hx
    · rintro ⟨hx, hxy⟩
      exact absurd (Option.some.inj hx).symm hxy
  · rw [Function.update_of_ne hne, iff_self_and]
    rintro hf rfl
    exact hne (h.own_injective hf hg)

/-- The nodes above a node are there. -/
theorem exists_of_append (h : Owned child depth live own) {r : List ι}
    (hg : own g = some (t, p ++ r)) : ∃ f, own f = some (t, p) := by
  induction r using List.reverseRecOn generalizing g with
  | nil => exact ⟨g, by simpa using hg⟩
  | append_singleton r i ih =>
    rw [← List.append_assoc] at hg
    obtain ⟨f, hf, -⟩ := h.exists_parent hg
    exact ih hf

/-- Nothing is below an empty slot. -/
theorem not_below_of_child_eq_none (h : Owned child depth live own) (hf : own f = some (t, p))
    (hnone : child f i = none) {q : List ι} (hq : p ++ [i] <+: q) : own g ≠ some (t, q) := by
  intro hg
  obtain ⟨r, rfl⟩ := hq
  obtain ⟨g', hg'⟩ := h.exists_of_append hg
  obtain ⟨f', hf', hchild⟩ := h.exists_parent hg'
  rw [h.own_injective hf' hf, hnone] at hchild
  cases hchild

/-- Ownership depends on the inner nodes only. -/
theorem congr (h : Owned child depth live own)
    (hkeep : ∀ f t p i, own f = some (t, p) → p.length < depth → child' f i = child f i) :
    Owned child' depth live own where
  own_root := h.own_root
  root_of_nil := h.root_of_nil
  length_le := h.length_le
  own_child hf hp hchild := h.own_child hf hp (hkeep _ _ _ _ hf hp ▸ hchild)
  exists_parent hg := by
    obtain ⟨f, hf, hchild⟩ := h.exists_parent hg
    have hlen := h.length_le hg
    rw [List.length_append, List.length_singleton] at hlen
    exact ⟨f, hf, by rw [hkeep _ _ _ _ hf hlen, hchild]⟩

variable [DecidableEq F]

/-- Pointing an empty slot of an inner node to a childless frame without a place. -/
theorem link (h : Owned child depth live own) (hf : own f = some (t, p)) (hp : p.length < depth)
    (hnone : child f i = none) (hg : own g = none) (hset : child' f i = some g)
    (hchildless : p.length + 1 < depth → ∀ j, child' g j = none)
    (hkeep : ∀ f' t' p' j, own f' = some (t', p') → p'.length < depth → (f', j) ≠ (f, i) →
      child' f' j = child f' j) :
    Owned child' depth live (Function.update own g (some (t, p ++ [i]))) := by
  have hne : ∀ {f' x}, own f' = some x → f' ≠ g := by
    rintro f' x hf' rfl
    rw [hg] at hf'
    cases hf'
  constructor
  case own_root =>
    intro t' ht'
    have ht' := h.own_root ht'
    rwa [Function.update_of_ne (hne ht')]
  case root_of_nil =>
    intro f' t' hf'
    rcases eq_or_ne f' g with rfl | hfg
    · simp at hf'
    · rw [Function.update_of_ne hfg] at hf'
      exact h.root_of_nil hf'
  case length_le =>
    intro f' t' p' hf'
    rcases eq_or_ne f' g with rfl | hfg
    · simp only [Function.update_self, Option.some.injEq, Prod.mk.injEq] at hf'
      obtain ⟨-, rfl⟩ := hf'
      rw [List.length_append, List.length_singleton]
      exact hp
    · rw [Function.update_of_ne hfg] at hf'
      exact h.length_le hf'
  -- the new node has no children, and the slot `(f, i)` leads to it
  case own_child =>
    intro f' t' p' j g' hf' hp' hchild
    rcases eq_or_ne f' g with rfl | hfg
    · simp only [Function.update_self, Option.some.injEq, Prod.mk.injEq] at hf'
      obtain ⟨-, rfl⟩ := hf'
      rw [hchildless (by simpa using hp') j] at hchild
      cases hchild
    · rw [Function.update_of_ne hfg] at hf'
      by_cases heq : (f', j) = (f, i)
      · obtain ⟨rfl, rfl⟩ := Prod.mk.inj heq
        obtain ⟨rfl, rfl⟩ := Prod.mk.inj (Option.some.inj (hf.symm.trans hf'))
        obtain rfl := Option.some.inj (hset.symm.trans hchild)
        exact Function.update_self ..
      · rw [hkeep _ _ _ _ hf' hp' heq] at hchild
        have hg' := h.own_child hf' hp' hchild
        rwa [Function.update_of_ne (hne hg')]
  -- the parent of the new node is `f`
  case exists_parent =>
    intro g' t' p' j hg'
    rcases eq_or_ne g' g with rfl | hgg
    · simp only [Function.update_self, Option.some.injEq, Prod.mk.injEq] at hg'
      obtain ⟨rfl, happ⟩ := hg'
      obtain ⟨rfl, hij⟩ := List.append_inj' happ rfl
      obtain rfl : i = j := by simpa using hij
      exact ⟨f, by rwa [Function.update_of_ne (hne hf)], hset⟩
    · rw [Function.update_of_ne hgg] at hg'
      obtain ⟨f', hf', hchild⟩ := h.exists_parent hg'
      have hlen := h.length_le hg'
      rw [List.length_append, List.length_singleton] at hlen
      refine ⟨f', by rwa [Function.update_of_ne (hne hf')], ?_⟩
      rw [hkeep _ _ _ _ hf' hlen, hchild]
      intro heq
      obtain ⟨rfl, rfl⟩ := Prod.mk.inj heq
      rw [hnone] at hchild
      cases hchild

/-- Clearing the slot of an inner node that points to a childless node. -/
theorem unlink (h : Owned child depth live own) (hf : own f = some (t, p)) (hp : p.length < depth)
    (hchild : child f i = some g) (hchildless : p.length + 1 < depth → ∀ j, child g j = none)
    (hset : child' f i = none)
    (hkeep : ∀ f' t' p' j, own f' = some (t', p') → p'.length < depth → f' ≠ g →
      (f', j) ≠ (f, i) → child' f' j = child f' j) :
    Owned child' depth live (Function.update own g none) := by
  have hg := h.own_child hf hp hchild
  constructor
  case own_root =>
    intro t' ht'
    have ht'' := h.own_root ht'
    rw [Function.update_of_ne]
    · exact ht''
    · rintro rfl
      rw [hg] at ht''
      simp at ht''
  case root_of_nil =>
    intro f' t' hf'
    rcases eq_or_ne f' g with rfl | hfg
    · simp at hf'
    · rw [Function.update_of_ne hfg] at hf'
      exact h.root_of_nil hf'
  case length_le =>
    intro f' t' p' hf'
    rcases eq_or_ne f' g with rfl | hfg
    · simp at hf'
    · rw [Function.update_of_ne hfg] at hf'
      exact h.length_le hf'
  case own_child =>
    intro f' t' p' j g' hf' hp' hchild'
    rcases eq_or_ne f' g with rfl | hfg
    · simp at hf'
    · rw [Function.update_of_ne hfg] at hf'
      by_cases heq : (f', j) = (f, i)
      · obtain ⟨rfl, rfl⟩ := Prod.mk.inj heq
        rw [hset] at hchild'
        cases hchild'
      · rw [hkeep _ _ _ _ hf' hp' hfg heq] at hchild'
        have hg' := h.own_child hf' hp' hchild'
        rw [Function.update_of_ne]
        · exact hg'
        · -- a second pointer to `g` would have the place of the first
          rintro rfl
          obtain ⟨rfl, happ⟩ := Prod.mk.inj (Option.some.inj (hg.symm.trans hg'))
          obtain ⟨rfl, hij⟩ := List.append_inj' happ rfl
          obtain rfl : i = j := by simpa using hij
          exact heq (by rw [h.own_injective hf hf'])
  -- the removed node is no parent
  case exists_parent =>
    intro g' t' p' j hg'
    rcases eq_or_ne g' g with rfl | hgg
    · simp at hg'
    · rw [Function.update_of_ne hgg] at hg'
      obtain ⟨f', hf', hchild'⟩ := h.exists_parent hg'
      have hlen := h.length_le hg'
      rw [List.length_append, List.length_singleton] at hlen
      have hfg : f' ≠ g := by
        rintro rfl
        obtain ⟨rfl, rfl⟩ := Prod.mk.inj (Option.some.inj (hg.symm.trans hf'))
        rw [List.length_append, List.length_singleton] at hlen
        rw [hchildless hlen j] at hchild'
        cases hchild'
      refine ⟨f', by rwa [Function.update_of_ne hfg], ?_⟩
      rw [hkeep _ _ _ _ hf' hlen hfg, hchild']
      intro heq
      obtain ⟨rfl, rfl⟩ := Prod.mk.inj heq
      exact hgg (Option.some.inj (hchild'.symm.trans hchild))

/-- A childless frame without a place becomes the root of a new tree. -/
theorem addRoot (h : Owned child depth live own) (hg : own g = none)
    (hchildless : 0 < depth → ∀ j, child' g j = none)
    (hkeep : ∀ f t p j, own f = some (t, p) → p.length < depth → child' f j = child f j) :
    Owned child' depth (insert g live) (Function.update own g (some (g, []))) := by
  have hne : ∀ {f' x}, own f' = some x → f' ≠ g := by
    rintro f' x hf' rfl
    rw [hg] at hf'
    cases hf'
  constructor
  case own_root =>
    rintro t' (rfl | ht')
    · exact Function.update_self ..
    · have ht' := h.own_root ht'
      rwa [Function.update_of_ne (hne ht')]
  case root_of_nil =>
    intro f' t' hf'
    rcases eq_or_ne f' g with rfl | hfg
    · simp only [Function.update_self, Option.some.injEq, Prod.mk.injEq] at hf'
      exact ⟨Or.inl hf'.1.symm, hf'.1⟩
    · rw [Function.update_of_ne hfg] at hf'
      obtain ⟨hlive, rfl⟩ := h.root_of_nil hf'
      exact ⟨Or.inr hlive, rfl⟩
  case length_le =>
    intro f' t' p' hf'
    rcases eq_or_ne f' g with rfl | hfg
    · simp only [Function.update_self, Option.some.injEq, Prod.mk.injEq] at hf'
      simp [← hf'.2]
    · rw [Function.update_of_ne hfg] at hf'
      exact h.length_le hf'
  case own_child =>
    intro f' t' p' j g' hf' hp' hchild
    rcases eq_or_ne f' g with rfl | hfg
    · rw [hchildless (by omega) j] at hchild
      cases hchild
    · rw [Function.update_of_ne hfg] at hf'
      rw [hkeep _ _ _ _ hf' hp'] at hchild
      have hg' := h.own_child hf' hp' hchild
      rwa [Function.update_of_ne (hne hg')]
  -- a root has the empty path, so it needs no parent
  case exists_parent =>
    intro g' t' p' j hg'
    rcases eq_or_ne g' g with rfl | hgg
    · simp at hg'
    · rw [Function.update_of_ne hgg] at hg'
      obtain ⟨f', hf', hchild⟩ := h.exists_parent hg'
      have hlen := h.length_le hg'
      rw [List.length_append, List.length_singleton] at hlen
      exact ⟨f', by rwa [Function.update_of_ne (hne hf')], by rw [hkeep _ _ _ _ hf' hlen, hchild]⟩

/-- A root without children stops being a tree. -/
theorem removeRoot (h : Owned child depth live own) (ht : t ∈ live)
    (hchildless : 0 < depth → ∀ j, child t j = none) :
    Owned child depth (live \ {t}) (Function.update own t none) := by
  have htown := h.own_root ht
  constructor
  case own_root =>
    rintro t' ⟨ht', hne⟩
    rw [Function.update_of_ne hne]
    exact h.own_root ht'
  case root_of_nil =>
    intro f' t' hf'
    rcases eq_or_ne f' t with rfl | hft
    · simp at hf'
    · rw [Function.update_of_ne hft] at hf'
      obtain ⟨hlive, rfl⟩ := h.root_of_nil hf'
      exact ⟨⟨hlive, hft⟩, rfl⟩
  case length_le =>
    intro f' t' p' hf'
    rcases eq_or_ne f' t with rfl | hft
    · simp at hf'
    · rw [Function.update_of_ne hft] at hf'
      exact h.length_le hf'
  case own_child =>
    intro f' t' p' j g' hf' hp' hchild
    rcases eq_or_ne f' t with rfl | hft
    · simp at hf'
    · rw [Function.update_of_ne hft] at hf'
      have hg' := h.own_child hf' hp' hchild
      rw [Function.update_of_ne]
      · exact hg'
      · rintro rfl
        rw [htown] at hg'
        simp at hg'
  -- the removed root has no children
  case exists_parent =>
    intro g' t' p' j hg'
    rcases eq_or_ne g' t with rfl | hgt
    · simp at hg'
    · rw [Function.update_of_ne hgt] at hg'
      obtain ⟨f', hf', hchild⟩ := h.exists_parent hg'
      have hlen := h.length_le hg'
      rw [List.length_append, List.length_singleton] at hlen
      refine ⟨f', ?_, hchild⟩
      rw [Function.update_of_ne]
      · exact hf'
      · rintro rfl
        rw [htown] at hf'
        obtain ⟨rfl, rfl⟩ := Prod.mk.inj (Option.some.inj hf')
        rw [hchildless hlen j] at hchild
        cases hchild

end Owned

end Forest
