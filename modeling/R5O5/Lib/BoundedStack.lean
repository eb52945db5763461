import Mathlib.Data.List.Basic

/-!
# Bounded stacks

A stack with room for a fixed number of elements, and operations on several elements at once: the
top ones are taken if there are as many, and elements are put on the stack until one does not fit.

## Main definitions

- `BoundedStack`: a stack that fits;
- `popMany`, `pushMany`: the operations on several elements.

## Main results

- `popMany_eq_some`, `popMany_eq_none_iff`: taking elements;
- `items_pushMany`, `pushMany_fst`: putting elements.
-/

/-- A stack of at most `capacity` elements, top first. -/
structure BoundedStack (α : Type*) (capacity : ℕ) where
  items : List α
  length_le : items.length ≤ capacity

namespace BoundedStack

variable {α : Type*} {capacity : ℕ} {s s' : BoundedStack α capacity} {x : α} {l : List α} {n : ℕ}

/-- How many elements can still be put on the stack. -/
def room (s : BoundedStack α capacity) : ℕ := capacity - s.items.length

/-- Take the element on top. -/
def pop : BoundedStack α capacity → Option (α × BoundedStack α capacity)
  | ⟨[], _⟩ => none
  | ⟨x :: items, h⟩ => some (x, ⟨items, Nat.le_of_succ_le h⟩)

/-- Put an element on top, if it fits. -/
def push (x : α) (s : BoundedStack α capacity) : Option (BoundedStack α capacity) :=
  if h : s.items.length < capacity then some ⟨x :: s.items, h⟩ else none

/-- Take the first `n` elements, if there are as many. -/
def popMany : ℕ → BoundedStack α capacity → Option (List α × BoundedStack α capacity)
  | 0, s => some ([], s)
  | n + 1, s => do
    let (x, s) ← s.pop
    let (l, s) ← popMany n s
    return (x :: l, s)

/-- Put elements on top, one after the other, until one does not fit; whether all did. -/
def pushMany : List α → BoundedStack α capacity → Bool × BoundedStack α capacity
  | [], s => (true, s)
  | x :: l, s =>
    match s.push x with
    | none => (false, s)
    | some s => pushMany l s

/-- Nothing is popped off the empty stack. -/
theorem pop_eq_none (h : s.pop = none) : s.items = [] := by
  obtain ⟨_ | ⟨x, items⟩, hle⟩ := s
  · rfl
  · cases h

/-- The item on top is popped. -/
theorem pop_eq_some (h : s.pop = some (x, s')) : s.items = x :: s'.items := by
  obtain ⟨_ | ⟨y, items⟩, hle⟩ := s
  · cases h
  · cases h
    rfl

/-- Nothing is pushed on a full stack. -/
theorem push_eq_none (h : s.push x = none) : s.items.length = capacity := by
  unfold push at h
  split_ifs at h with hlt
  exact Nat.le_antisymm s.length_le (Nat.le_of_not_lt hlt)

/-- An item is pushed on top. -/
theorem push_eq_some (h : s.push x = some s') :
    s'.items = x :: s.items ∧ s.items.length < capacity := by
  unfold push at h
  split_ifs at h with hlt
  cases h
  exact ⟨rfl, hlt⟩

theorem room_of_push (h : s.push x = some s') : s.room = s'.room + 1 := by
  obtain ⟨hitems, hlt⟩ := push_eq_some h
  rw [room, room, hitems, List.length_cons]
  omega

/-- The elements that are taken are those on top. -/
theorem popMany_eq_some (h : s.popMany n = some (l, s')) :
    s.items = l ++ s'.items ∧ l.length = n := by
  induction n generalizing s l with
  | zero =>
    cases h
    exact ⟨rfl, rfl⟩
  | succ n ih =>
    rw [popMany, Option.bind_eq_bind, Option.bind_eq_some_iff] at h
    obtain ⟨⟨x, s₁⟩, hpop, h⟩ := h
    obtain ⟨⟨rest, s₂⟩, hrest, h⟩ := Option.bind_eq_some_iff.mp h
    cases h
    obtain ⟨hitems, hlength⟩ := ih hrest
    rw [pop_eq_some hpop, hitems, List.length_cons, hlength]
    exact ⟨rfl, rfl⟩

/-- As many items as there are can be popped. -/
theorem exists_popMany (h : n ≤ s.items.length) : ∃ l s', s.popMany n = some (l, s') := by
  induction n generalizing s with
  | zero => exact ⟨[], s, rfl⟩
  | succ n ih =>
    obtain ⟨_ | ⟨x, items⟩, hle⟩ := s
    · cases h
    · obtain ⟨l, s', hrest⟩ :=
        ih (s := ⟨items, Nat.le_of_succ_le hle⟩) (Nat.le_of_succ_le_succ h)
      exact ⟨x :: l, s', by simp [popMany, pop, hrest]⟩

theorem popMany_eq_none_iff : s.popMany n = none ↔ s.items.length < n := by
  constructor
  · intro h
    by_contra hle
    obtain ⟨l, s', hsome⟩ := exists_popMany (Nat.le_of_not_lt hle)
    rw [h] at hsome
    cases hsome
  · intro h
    cases hpop : s.popMany n with
    | none => rfl
    | some p =>
      obtain ⟨hitems, hlength⟩ := popMany_eq_some hpop
      rw [hitems, List.length_append, hlength] at h
      omega

/-- The elements that fit are put on the stack. -/
theorem items_pushMany (l : List α) (s : BoundedStack α capacity) :
    (s.pushMany l).2.items = (l.take s.room).reverse ++ s.items := by
  induction l generalizing s with
  | nil => simp [pushMany]
  | cons x l ih =>
    rw [pushMany]
    split
    case h_1 hpush =>
      rw [room, push_eq_none hpush, Nat.sub_self, List.take_zero, List.reverse_nil, List.nil_append]
    case h_2 s' hpush =>
      rw [ih, (push_eq_some hpush).1, room_of_push hpush, List.take_succ_cons, List.reverse_cons,
        List.append_assoc, List.singleton_append]

/-- Pushing succeeds when there is room for all. -/
theorem pushMany_fst (l : List α) (s : BoundedStack α capacity) :
    (s.pushMany l).1 = decide (l.length ≤ s.room) := by
  induction l generalizing s with
  | nil => simp [pushMany]
  | cons x l ih =>
    rw [pushMany]
    split
    case h_1 hpush =>
      rw [room, push_eq_none hpush, Nat.sub_self]
      simp
    case h_2 s' hpush =>
      rw [ih, room_of_push hpush, List.length_cons]
      simp

end BoundedStack
