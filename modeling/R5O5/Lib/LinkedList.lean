import Mathlib.Data.List.Infix
import Mathlib.Data.List.Nodup
import Mathlib.Data.Nat.Notation
import Mathlib.Logic.Function.Basic

/-!
# Linked lists that end in a null pointer

`IsList next a l`: following `next` from the pointer `a` visits exactly the nodes of `l` and then
meets the null pointer. A list is doubly linked if there are pointers back from each of its nodes
to the one before.

## Main definitions

- `IsList`: the predicate above;
- `toList`: the nodes of a list, if it ends within the fuel;
- `IsDoublyLinked`: the doubly linked lists.

## Main results

- `IsList.append`: a new node at the end of a list;
- `IsList.toList_eq`: the nodes are found when there is fuel for them;
- `isDoublyLinked_of_reverse`: a list that can be walked in both directions is doubly linked.
-/

namespace LinkedList

variable {N : Type*}

/-- The nodes reached from the pointer are those of the list. -/
def IsList (next : N → Option N) : Option N → List N → Prop
  | a, [] => a = none
  | a, n :: l => a = some n ∧ IsList next (next n) l

/-- Follow the pointers from `a`; `none` when the fuel runs out. -/
def toList (next : N → Option N) : ℕ → Option N → Option (List N)
  | _, none => some []
  | 0, some _ => none
  | fuel + 1, some n => (toList next fuel (next n)).map (n :: ·)

/-- The list from `head` ends at `tail`, visits no node twice, and `prev` leads back from each node
to the one whose `next` it is. -/
structure IsDoublyLinked (next prev : N → Option N) (head tail : Option N) (l : List N) :
    Prop where
  isList : IsList next head l
  tail_eq : tail = l.getLast?
  nodup : l.Nodup
  prev_head : ∀ n, head = some n → prev n = none
  prev_eq_some_iff : ∀ n ∈ l, ∀ m, prev n = some m ↔ m ∈ l ∧ next m = some n

variable {next next' prev : N → Option N} {a tail : Option N} {l l' : List N} {n m last : N}
  {fuel : ℕ}

/-- A list depends on the links of its nodes only. -/
theorem IsList.congr (h : IsList next a l) (heq : ∀ n ∈ l, next' n = next n) :
    IsList next' a l := by
  induction l generalizing a with
  | nil => exact h
  | cons n l ih =>
    refine ⟨h.1, ?_⟩
    rw [heq n List.mem_cons_self]
    exact ih h.2 fun m hm => heq m (List.mem_cons_of_mem _ hm)

/-- The nodes of a list are found with enough fuel. -/
theorem IsList.toList_eq (h : IsList next a l) (hfuel : l.length ≤ fuel) :
    toList next fuel a = some l := by
  induction l generalizing a fuel with
  | nil =>
    rw [show a = none from h]
    cases fuel <;> rfl
  | cons n l ih =>
    obtain ⟨fuel, rfl⟩ : ∃ k, fuel = k + 1 := by
      refine ⟨fuel - 1, ?_⟩
      rw [List.length_cons] at hfuel
      omega
    rw [h.1, toList, ih h.2 (Nat.le_of_succ_le_succ hfuel)]
    rfl

/-- The last node gets a new successor, which becomes the last one. -/
theorem IsList.append [DecidableEq N] (h : IsList next a (l ++ [last])) (hlast : last ∉ l)
    (hn : n ∉ l ++ [last]) :
    IsList (Function.update (Function.update next last (some n)) n none) a
      (l ++ [last] ++ [n]) := by
  rw [List.mem_append, not_or, List.mem_singleton] at hn
  induction l generalizing a with
  | nil =>
    refine ⟨h.1, ?_⟩
    rw [Function.update_of_ne (Ne.symm hn.2), Function.update_self]
    exact ⟨rfl, Function.update_self ..⟩
  | cons m l ih =>
    rw [List.mem_cons, not_or] at hlast
    refine ⟨h.1, ?_⟩
    have hmn : m ≠ n := by
      rintro rfl
      exact hn.1 List.mem_cons_self
    rw [Function.update_of_ne hmn, Function.update_of_ne (Ne.symm hlast.1)]
    exact ih h.2 hlast.2 ⟨fun hmem => hn.1 (List.mem_cons_of_mem _ hmem), hn.2⟩

/-! ## Lists in both directions -/

/-- The pointer determines the nodes. -/
theorem IsList.unique (h : IsList next a l) (h' : IsList next a l') : l = l' := by
  induction l generalizing a l' with
  | nil =>
    cases l' with
    | nil => rfl
    | cons n l' => exact absurd (h.symm.trans h'.1) (Option.some_ne_none n).symm
  | cons n l ih =>
    cases l' with
    | nil => exact absurd (h'.symm.trans h.1) (Option.some_ne_none n).symm
    | cons n' l' =>
      obtain rfl : n = n' := Option.some.inj (h.1.symm.trans h'.1)
      rw [ih h.2 h'.2]

/-- The pointer to a list points to its first node. -/
theorem IsList.eq_head? (h : IsList next a l) : a = l.head? := by
  cases l with
  | nil => exact h
  | cons n l => exact h.1

theorem IsList.next_last (h : IsList next a (l ++ [last])) : next last = none := by
  induction l generalizing a with
  | nil => exact h.2
  | cons n l ih => exact ih h.2

/-- A new node in front of a list. -/
theorem IsList.cons_update [DecidableEq N] (h : IsList next a l) (hn : n ∉ l) :
    IsList (Function.update next n a) (some n) (n :: l) := by
  refine ⟨rfl, ?_⟩
  rw [Function.update_self]
  exact h.congr fun m hm => Function.update_of_ne (ne_of_mem_of_not_mem hm hn) ..

/-- The pointers lead from a node to the one directly behind it. -/
theorem IsList.next_eq_some_iff (h : IsList next a l) (hnodup : l.Nodup) (hm : m ∈ l) :
    next m = some n ↔ [m, n] <:+: l := by
  induction l generalizing a with
  | nil => exact absurd hm List.not_mem_nil
  | cons k l ih =>
    rw [List.nodup_cons] at hnodup
    rw [List.infix_cons_iff]
    by_cases hmk : m = k
    · -- the first node: the next one is the head of the rest
      subst hmk
      have hlater : ¬[m, n] <:+: l := fun hin =>
        hnodup.1 (hin.subset List.mem_cons_self)
      rw [h.2.eq_head?, or_iff_left hlater]
      cases l with
      | nil => simp
      | cons k l => simp [List.cons_prefix_cons, eq_comm]
    · have hfirst : ¬[m, n] <+: k :: l := fun hpre =>
        hmk (List.cons_prefix_cons.mp hpre).1
      rw [or_iff_right hfirst]
      exact ih h.2 hnodup.2 (List.mem_of_ne_of_mem hmk hm)

/-- A list that can be walked in both directions is doubly linked. -/
theorem isDoublyLinked_of_reverse (h : IsList next a l) (hprev : IsList prev tail l.reverse)
    (hnodup : l.Nodup) : IsDoublyLinked next prev a tail l where
  isList := h
  tail_eq := by rw [hprev.eq_head?, List.head?_reverse]
  nodup := hnodup
  prev_head n hn := by
    rw [h.eq_head?] at hn
    obtain ⟨l', rfl⟩ := List.head?_eq_some_iff.mp hn
    rw [List.reverse_cons] at hprev
    exact hprev.next_last
  prev_eq_some_iff n hn m := by
    -- both say that `m` and `n` are neighbours in the list
    have hback : prev n = some m ↔ [m, n] <:+: l := by
      rw [hprev.next_eq_some_iff (List.nodup_reverse.mpr hnodup) (List.mem_reverse.mpr hn),
        ← List.reverse_infix]
      simp
    rw [hback]
    constructor
    · intro hin
      have hm : m ∈ l := hin.subset List.mem_cons_self
      exact ⟨hm, (h.next_eq_some_iff hnodup hm).mpr hin⟩
    · rintro ⟨hm, hnext⟩
      exact (h.next_eq_some_iff hnodup hm).mp hnext

end LinkedList
