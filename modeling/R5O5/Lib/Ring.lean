import Mathlib.Data.List.Basic
import Mathlib.Data.List.Nodup
import Mathlib.Logic.Function.Basic

/-!
# Intrusive doubly linked rings

Nodes that point to their neighbours, linked into a ring through a sentinel `head` that carries no
content. The ring is read as the list of its nodes from `head.next` on.

## Main definitions

- `Links`: the pointers of all nodes;
- `Segment`: a stretch of nodes linked in both directions;
- `IsRing`: the ring of a sentinel and the nodes of a list;
- `unlink`, `pushFront`: the pointer updates for removing and inserting a node;
- `find`: the search along the links until the sentinel.

## Main results

- `IsRing.unlink`, `IsRing.pushFront`: what the updates do to the list;
- `IsRing.find_next`, `IsRing.find_prev`: the searches are searches of the list and its reverse.
-/

namespace Ring

/-- The pointers of all nodes to their neighbours. -/
structure Links (N : Type*) where
  next : N → N
  prev : N → N

variable {N : Type*}

/-- From `a` along the nodes of the list to `b`, linked in both directions. -/
def Segment (l : Links N) (a : N) : List N → N → Prop
  | [], b => l.next a = b ∧ l.prev b = a
  | x :: xs, b => l.next a = x ∧ l.prev x = a ∧ Segment l x xs b

/-- The nodes of the list form a ring with the sentinel. -/
structure IsRing (l : Links N) (head : N) (xs : List N) : Prop where
  segment : Segment l head xs head
  nodup : (head :: xs).Nodup

section Segments

variable {l l' : Links N} {a b c : N} {xs ys : List N}

theorem segment_append : Segment l a (xs ++ c :: ys) b ↔ Segment l a xs c ∧ Segment l c ys b := by
  induction xs generalizing a with
  | nil => simp only [List.nil_append, Segment, and_assoc]
  | cons x xs ih => simp only [List.cons_append, Segment, ih, and_assoc]

/-- A segment depends only on the forward pointers of all its nodes but the last, and on the
backward pointers of all but the first. -/
theorem Segment.congr (h : Segment l a xs b) (hnext : ∀ x ∈ a :: xs, l'.next x = l.next x)
    (hprev : ∀ x ∈ xs ++ [b], l'.prev x = l.prev x) : Segment l' a xs b := by
  induction xs generalizing a with
  | nil =>
    obtain ⟨hab, hba⟩ := h
    exact ⟨by rw [hnext a (by simp), hab], by rw [hprev b (by simp), hba]⟩
  | cons x xs ih =>
    obtain ⟨hax, hxa, hrest⟩ := h
    refine ⟨by rw [hnext a (by simp), hax], by rw [hprev x (by simp), hxa], ?_⟩
    exact ih hrest (fun y hy => hnext y (List.mem_cons_of_mem _ hy))
      (fun y hy => hprev y (List.mem_cons_of_mem _ hy))

/-- The last node of a segment lies on it. -/
theorem Segment.prev_mem (h : Segment l a xs b) : l.prev b ∈ a :: xs := by
  induction xs generalizing a with
  | nil => simp [h.2]
  | cons x xs ih => exact List.mem_cons_of_mem _ (ih h.2.2)

/-- Redirecting the end of a segment. -/
theorem Segment.retarget (h : Segment l a xs b) (hnodup : (a :: xs).Nodup)
    (hlast : l'.next (l.prev b) = c) (hc : l'.prev c = l.prev b)
    (hnext : ∀ x ∈ a :: xs, x ≠ l.prev b → l'.next x = l.next x)
    (hprev : ∀ x ∈ xs, l'.prev x = l.prev x) : Segment l' a xs c := by
  induction xs generalizing a with
  | nil =>
    rw [h.2] at hlast hc
    exact ⟨hlast, hc⟩
  | cons x xs ih =>
    obtain ⟨hax, hxa, hrest⟩ := h
    rw [List.nodup_cons] at hnodup
    -- the last node comes after `a`
    have hne : a ≠ l.prev b := by
      intro heq
      exact hnodup.1 (heq ▸ hrest.prev_mem)
    refine ⟨by rw [hnext a (by simp) hne, hax], by rw [hprev x (by simp), hxa], ?_⟩
    exact ih hrest hnodup.2 (fun y hy => hnext y (List.mem_cons_of_mem _ hy))
      (fun y hy => hprev y (List.mem_cons_of_mem _ hy))

/-- A segment read backwards. -/
theorem Segment.reverse (h : Segment l a xs b) :
    Segment ⟨l.prev, l.next⟩ b xs.reverse a := by
  induction xs generalizing a with
  | nil => exact ⟨h.2, h.1⟩
  | cons x xs ih =>
    rw [List.reverse_cons]
    exact segment_append.mpr ⟨ih h.2.2, h.2.1, h.1⟩

/-- The nodes of a ring are found along the forward pointers. -/
theorem Segment.unique (hxs : Segment l a xs b) (hys : Segment l a ys b) (hbx : b ∉ xs)
    (hby : b ∉ ys) : xs = ys := by
  induction xs generalizing a ys with
  | nil =>
    cases ys with
    | nil => rfl
    | cons y ys =>
      refine absurd ?_ hby
      rw [← hxs.1, hys.1]
      exact List.mem_cons_self
  | cons x xs ih =>
    cases ys with
    | nil =>
      refine absurd ?_ hbx
      rw [← hys.1, hxs.1]
      exact List.mem_cons_self
    | cons y ys =>
      obtain rfl : x = y := hxs.1.symm.trans hys.1
      rw [ih hxs.2.2 hys.2.2 (fun hmem => hbx (List.mem_cons_of_mem _ hmem))
        fun hmem => hby (List.mem_cons_of_mem _ hmem)]

/-- The links tell the order of the nodes. -/
theorem IsRing.unique (h : IsRing l a xs) (h' : IsRing l a ys) : xs = ys :=
  h.segment.unique h'.segment (List.nodup_cons.mp h.nodup).1 (List.nodup_cons.mp h'.nodup).1

/-- A sentinel that points to itself is an empty ring. -/
theorem isRing_nil (hnext : l.next a = a) (hprev : l.prev a = a) : IsRing l a [] :=
  ⟨⟨hnext, hprev⟩, List.nodup_singleton _⟩

end Segments

section Updates

variable [DecidableEq N]

/-- `b->next->prev = b->prev; b->prev->next = b->next;` -/
def unlink (l : Links N) (b : N) : Links N :=
  let l := { l with prev := Function.update l.prev (l.next b) (l.prev b) }
  { l with next := Function.update l.next (l.prev b) (l.next b) }

/-- `b->next = head.next; b->prev = &head; head.next->prev = b; head.next = b;` -/
def pushFront (l : Links N) (head b : N) : Links N :=
  let l := { l with next := Function.update l.next b (l.next head) }
  let l := { l with prev := Function.update l.prev b head }
  let l := { l with prev := Function.update l.prev (l.next head) b }
  { l with next := Function.update l.next head b }

variable {l : Links N} {head b : N} {xs ys : List N}

/-- A node is taken out of the ring. -/
theorem IsRing.unlink (h : IsRing l head (xs ++ b :: ys)) :
    IsRing (Ring.unlink l b) head (xs ++ ys) := by
  obtain ⟨hsegment, hnodup⟩ := h
  obtain ⟨hxs, hys⟩ := segment_append.mp hsegment
  have hnodup' : (head :: (xs ++ ys)).Nodup :=
    hnodup.sublist
      (List.Sublist.cons_cons _ (List.Sublist.append_left (List.sublist_cons_self ..) _))
  refine ⟨?_, hnodup'⟩
  have hlastmem := hxs.prev_mem
  rw [List.nodup_cons, List.mem_append, List.mem_cons, List.nodup_append, List.nodup_cons]
    at hnodup
  obtain ⟨hhead, hxsnodup, ⟨hbys, hysnodup⟩, hdisj⟩ := hnodup
  push Not at hhead
  -- `b` is neither its successor nor its predecessor
  have hnextb : l.next b ≠ b := by
    cases ys with
    | nil => exact fun heq => hhead.2.1 (by rw [← hys.1, heq])
    | cons n ys =>
      rw [hys.1]
      rintro rfl
      exact hbys List.mem_cons_self
  have hprevb : l.prev b ≠ b := by
    intro heq
    rw [heq] at hlastmem
    rcases List.mem_cons.mp hlastmem with rfl | hmem
    · exact hhead.2.1 rfl
    · exact hdisj b hmem b List.mem_cons_self rfl
  have hprev' : Function.update l.prev (l.next b) (l.prev b) b = l.prev b :=
    Function.update_of_ne hnextb.symm ..
  have hjoin : ∀ z, l.next b = z → z ∉ xs → Segment (Ring.unlink l b) head xs z := by
    rintro z rfl hz
    refine hxs.retarget (List.nodup_cons.mpr ⟨hhead.1, hxsnodup⟩) ?_ ?_ ?_ ?_
    · simp only [Ring.unlink, hprev', Function.update_self]
    · simp only [Ring.unlink, Function.update_self]
    · intro x _ hne
      simp only [Ring.unlink, hprev', Function.update_of_ne hne]
    · intro x hx
      simp only [Ring.unlink]
      rw [Function.update_of_ne]
      rintro rfl
      exact hz hx
  cases ys with
  | nil =>
    rw [List.append_nil]
    exact hjoin head hys.1 hhead.1
  | cons n ys =>
    have hn : n ∉ xs := fun hmem => hdisj n hmem n (by simp) rfl
    refine segment_append.mpr ⟨hjoin n hys.1 hn, hys.2.2.congr ?_ ?_⟩
    · -- the predecessor of `b` comes before these nodes
      intro x hx
      simp only [Ring.unlink, hprev']
      rw [Function.update_of_ne]
      rintro rfl
      rcases List.mem_cons.mp hlastmem with heq | hmem
      · exact hhead.2.2 (heq ▸ hx)
      · exact hdisj _ hmem _ (List.mem_cons_of_mem _ hx) rfl
    · intro x hx
      simp only [Ring.unlink]
      rw [Function.update_of_ne]
      rw [hys.1]
      rintro rfl
      rcases List.mem_append.mp hx with hmem | hmem
      · exact (List.nodup_cons.mp hysnodup).1 hmem
      · exact hhead.2.2 (List.mem_singleton.mp hmem ▸ List.mem_cons_self)

/-- The forward links after a node is put in front. -/
theorem next_pushFront : (Ring.pushFront l head b).next =
    Function.update (Function.update l.next b (l.next head)) head b := rfl

/-- The backward links after a node is put in front. -/
theorem prev_pushFront (hb : b ≠ head) : (Ring.pushFront l head b).prev =
    Function.update (Function.update l.prev b head) (l.next head) b := by
  simp only [Ring.pushFront, Function.update_of_ne (Ne.symm hb)]

/-- A node is put in front of the others. -/
theorem IsRing.pushFront (h : IsRing l head xs) (hb : b ∉ head :: xs) :
    IsRing (Ring.pushFront l head b) head (b :: xs) := by
  obtain ⟨hsegment, hnodup⟩ := h
  rw [List.mem_cons, not_or] at hb
  obtain ⟨hhead, hbxs⟩ := hb
  rw [List.nodup_cons] at hnodup
  have hnodup' : (head :: b :: xs).Nodup := by
    rw [List.nodup_cons, List.mem_cons, not_or, List.nodup_cons]
    exact ⟨⟨Ne.symm hhead, hnodup.1⟩, hbxs, hnodup.2⟩
  refine ⟨?_, hnodup'⟩
  cases xs with
  | nil =>
    obtain ⟨hnext, hprev⟩ := hsegment
    refine ⟨?_, ?_, ?_, ?_⟩ <;>
      simp [next_pushFront, prev_pushFront hhead, hnext, hhead]
  | cons x xs =>
    obtain ⟨hnext, hprev, hrest⟩ := hsegment
    have hbx : b ≠ x := by
      rintro rfl
      exact hbxs List.mem_cons_self
    refine ⟨?_, ?_, ?_, ?_, hrest.congr ?_ ?_⟩
    · simp [next_pushFront]
    · simp [prev_pushFront hhead, hnext, hbx]
    · simp [next_pushFront, hnext, hhead]
    · simp [prev_pushFront hhead, hnext]
    · intro y hy
      have hyb : y ≠ b := by
        rintro rfl
        exact hbxs hy
      have hyhead : y ≠ head := by
        rintro rfl
        exact hnodup.1 hy
      simp [next_pushFront, hyb, hyhead]
    · intro y hy
      -- the old first node and the new one do not occur further on
      have hy' : y ≠ x ∧ y ≠ b := by
        rcases List.mem_append.mp hy with hy | hy
        · refine ⟨?_, ?_⟩
          · rintro rfl
            exact (List.nodup_cons.mp hnodup.2).1 hy
          · rintro rfl
            exact hbxs (List.mem_cons_of_mem _ hy)
        · obtain rfl := List.mem_singleton.mp hy
          refine ⟨?_, Ne.symm hhead⟩
          rintro rfl
          exact hnodup.1 List.mem_cons_self
      simp [prev_pushFront hhead, hnext, hy']

/-- Pushing the nodes of a list one after the other. -/
theorem IsRing.foldl_pushFront (h : IsRing l head xs) (hnodup : (ys ++ head :: xs).Nodup) :
    IsRing (ys.foldl (fun l b => Ring.pushFront l head b) l) head (ys.reverse ++ xs) := by
  induction ys generalizing l xs with
  | nil => exact h
  | cons b ys ih =>
    have hb : b ∉ head :: xs := fun hmem =>
      (List.nodup_cons.mp hnodup).1 (List.mem_append_right _ hmem)
    have hperm : (b :: ys ++ head :: xs).Perm (ys ++ head :: b :: xs) :=
      List.perm_middle.symm.trans (List.Perm.append_left ys (List.Perm.swap ..))
    rw [List.foldl_cons, List.reverse_cons, List.append_assoc]
    exact ih (h.pushFront hb) (hperm.nodup_iff.mp hnodup)

end Updates

section Searching

variable [DecidableEq N]

/-- Search from `b` along `step` for a node that satisfies `p`, until `head`; `none` when the fuel
runs out. -/
def find (step : N → N) (head : N) (p : N → Bool) : ℕ → N → Option (Option N)
  | 0, _ => none
  | fuel + 1, b =>
    if b = head then some none
    else if p b then some (some b)
    else find step head p fuel (step b)

variable {l : Links N} {head a : N} {xs : List N} {p : N → Bool} {fuel : ℕ}

/-- The search along a segment finds what the search in its list finds. -/
theorem Segment.find_next (h : Segment l a xs head) (hhead : head ∉ xs) (hfuel : xs.length < fuel) :
    find l.next head p fuel (l.next a) = some (xs.find? p) := by
  induction xs generalizing a fuel with
  | nil =>
    obtain ⟨fuel, rfl⟩ : ∃ n, fuel = n + 1 := ⟨fuel - 1, by omega⟩
    rw [find, if_pos h.1]
    rfl
  | cons x xs ih =>
    obtain ⟨fuel, rfl⟩ : ∃ n, fuel = n + 1 := ⟨fuel - 1, by omega⟩
    rw [List.mem_cons, not_or] at hhead
    rw [find, h.1, if_neg (Ne.symm hhead.1), List.find?_cons]
    cases p x with
    | true => rfl
    | false => exact ih h.2.2 hhead.2 (by simpa using hfuel)

theorem IsRing.find_next (h : IsRing l head xs) (hfuel : xs.length < fuel) :
    find l.next head p fuel (l.next head) = some (xs.find? p) :=
  h.segment.find_next (List.nodup_cons.mp h.nodup).1 hfuel

theorem IsRing.find_prev (h : IsRing l head xs) (hfuel : xs.length < fuel) :
    find l.prev head p fuel (l.prev head) = some (xs.reverse.find? p) :=
  h.segment.reverse.find_next (by simpa using (List.nodup_cons.mp h.nodup).1) (by simpa using hfuel)

end Searching

end Ring
