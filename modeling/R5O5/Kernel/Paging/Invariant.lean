import R5O5.Kernel.Paging.Forest

/-!
# The invariant of the page tables

Every managed frame is free, a node of one page table, or lost to both. The invariant is stated over
the place `own` of each frame in the forest of the live page tables and the number `leaked` of lost
frames; below are the small changes of allocator and memory that keep it, from which the operations
of `kernel/paging.c` are made.

## Main definitions

- `Ledger`: what the invariant says about the allocator;
- `Paging.Inv`: the invariant;
- `Loose`: a managed frame that is neither free nor a node.

## Main results

- `Ledger.allocatePage`, `Ledger.freePage`: the allocator hands out and takes back loose frames;
- `Paging.Inv.link`, `Paging.Inv.unlink`, `Paging.Inv.addRoot`, `Paging.Inv.removeRoot`: loose
  frames become nodes and back.
-/

namespace R5O5

/-- The place of each frame: a page table, named by its root, and the slots below it. -/
abbrev Places : Type := BitVec 64 → Option (BitVec 64 × List (Fin numPte))

/-- The frames that are nodes. -/
def ownedFrames (K : KernelImage) (own : Places) : Finset (BitVec 64) :=
  (managed K).filter fun f => (own f).isSome

/-- The books of the allocator: the free frames have no place, and the frames that are neither free
nor placed are `leaked` many. -/
structure Ledger (K : KernelImage) (own : Places) (leaked : ℕ) (a : PageAllocator) : Prop where
  wellFormed : a.WellFormed
  nodup : a.freeList.Nodup
  managed_of_free : ∀ {f}, f ∈ a.freeList → f ∈ managed K
  own_of_free : ∀ {f}, f ∈ a.freeList → own f = none
  managed_of_own : ∀ {f x}, own f = some x → f ∈ managed K
  count : a.numFreePages + (ownedFrames K own).card + leaked = numPages

/-- A managed frame that is neither free nor placed. -/
structure Loose (K : KernelImage) (own : Places) (a : PageAllocator) (g : BitVec 64) : Prop where
  managed : g ∈ managed K
  own : own g = none
  not_free : g ∉ a.freeList

/-- The live page tables are disjoint trees of managed frames that are not free. -/
structure Paging.Inv (K : KernelImage) (live : Set (BitVec 64)) (own : Places) (leaked : ℕ)
    (s : Paging) : Prop where
  ledger : Ledger K own leaked s.alloc
  owned : Forest.Owned (child s.mem) 3 live own
  /-- Entries that point to a directory have exactly the flags `PTE_V` and `PTE_R`. -/
  directory_flags : ∀ {f t p i g}, own f = some (t, p) → p.length < 2 → child s.mem f i = some g →
    getFlags (entry s.mem f i) = pteV ||| pteR

section Counting

variable {K : KernelImage} {own : Places} {g : BitVec 64} {x : BitVec 64 × List (Fin numPte)}

theorem card_ownedFrames_update_some (hg : g ∈ managed K) (hown : own g = none) :
    (ownedFrames K (Function.update own g (some x))).card = (ownedFrames K own).card + 1 := by
  have hinsert : ownedFrames K (Function.update own g (some x)) =
      insert g (ownedFrames K own) := by
    ext f
    rcases eq_or_ne f g with rfl | hfg
    · simp [ownedFrames, hg]
    · simp [ownedFrames, hfg]
  rw [hinsert, Finset.card_insert_of_notMem (by simp [ownedFrames, hown])]

theorem card_ownedFrames_update_none (hg : g ∈ managed K) (hown : own g = some x) :
    (ownedFrames K (Function.update own g none)).card + 1 = (ownedFrames K own).card := by
  have herase : ownedFrames K (Function.update own g none) = (ownedFrames K own).erase g := by
    ext f
    rcases eq_or_ne f g with rfl | hfg
    · simp [ownedFrames]
    · simp [ownedFrames, hfg]
  rw [herase, Finset.card_erase_add_one (by simp [ownedFrames, hg, hown])]

end Counting

namespace Ledger

variable {K : KernelImage} {own : Places} {leaked : ℕ} {a : PageAllocator} {g : BitVec 64}
  {x : BitVec 64 × List (Fin numPte)}

/-- `allocatePage` makes the top of the stack loose. -/
theorem allocatePage (h : Ledger K own leaked a) {a' : PageAllocator}
    (halloc : R5O5.allocatePage a = .ok (g, a')) :
    Ledger K own (leaked + 1) a' ∧ Loose K own a' g ∧ a.freeList = g :: a'.freeList := by
  obtain ⟨hfree, hwf⟩ := allocatePage_eq_ok h.wellFormed halloc
  have hmem : ∀ {f}, f ∈ a'.freeList → f ∈ a.freeList := fun hf => by
    rw [hfree]
    exact List.mem_cons_of_mem _ hf
  -- a free frame is managed and has no place
  have hnodup := h.nodup
  have hg : g ∈ a.freeList := by simp [hfree]
  rw [hfree, List.nodup_cons] at hnodup
  have hnum : a.numFreePages = a'.numFreePages + 1 := by
    rw [← PageAllocator.length_freeList, hfree, List.length_cons, PageAllocator.length_freeList]
  refine ⟨?_, ⟨h.managed_of_free hg, h.own_of_free hg, hnodup.1⟩, hfree⟩
  exact
    { wellFormed := hwf
      nodup := hnodup.2
      managed_of_free := fun hf => h.managed_of_free (hmem hf)
      own_of_free := fun hf => h.own_of_free (hmem hf)
      managed_of_own := h.managed_of_own
      count := by
        have hcount := h.count
        omega }

/-- `freePage` takes a loose frame back; it never finds all pages returned. -/
theorem freePage (h : Ledger K own (leaked + 1) a) (hg : Loose K own a g) :
    ∃ a', R5O5.freePage g a = .ok a' ∧ Ledger K own leaked a' ∧ a'.freeList = g :: a.freeList := by
  have hcount := h.count
  -- a frame is loose, so not all of them are free
  obtain ⟨a', ha', hfree, hwf⟩ := freePage_of_lt g h.wellFormed (by omega)
  have hnum : a'.numFreePages = a.numFreePages + 1 := by
    rw [← PageAllocator.length_freeList, hfree, List.length_cons, PageAllocator.length_freeList]
  refine ⟨a', ha', ?_, hfree⟩
  constructor
  case wellFormed => exact hwf
  case nodup =>
    rw [hfree, List.nodup_cons]
    exact ⟨hg.not_free, h.nodup⟩
  case managed_of_free =>
    intro f hf
    rw [hfree, List.mem_cons] at hf
    rcases hf with rfl | hf
    · exact hg.managed
    · exact h.managed_of_free hf
  case own_of_free =>
    intro f hf
    rw [hfree, List.mem_cons] at hf
    rcases hf with rfl | hf
    · exact hg.own
    · exact h.own_of_free hf
  case managed_of_own => exact h.managed_of_own
  case count => omega

/-- A loose frame gets a place. -/
theorem place (h : Ledger K own (leaked + 1) a) (hg : Loose K own a g) :
    Ledger K (Function.update own g (some x)) leaked a where
  wellFormed := h.wellFormed
  nodup := h.nodup
  managed_of_free := h.managed_of_free
  own_of_free := by
    intro f hf
    rw [Function.update_of_ne]
    · exact h.own_of_free hf
    · rintro rfl
      exact hg.not_free hf
  managed_of_own := by
    intro f y hf
    rcases eq_or_ne f g with rfl | hfg
    · exact hg.managed
    · rw [Function.update_of_ne hfg] at hf
      exact h.managed_of_own hf
  count := by
    have hcount := h.count
    rw [card_ownedFrames_update_some hg.managed hg.own]
    omega

/-- A placed frame loses its place. -/
theorem unplace (h : Ledger K own leaked a) (hg : own g = some x) :
    Ledger K (Function.update own g none) (leaked + 1) a ∧
      Loose K (Function.update own g none) a g := by
  have hmanaged := h.managed_of_own hg
  -- the frame had a place, so it is not free
  have hloose : Loose K (Function.update own g none) a g := by
    refine ⟨hmanaged, Function.update_self .., fun hfree => ?_⟩
    rw [h.own_of_free hfree] at hg
    cases hg
  refine ⟨?_, hloose⟩
  constructor
  case wellFormed => exact h.wellFormed
  case nodup => exact h.nodup
  case managed_of_free => exact h.managed_of_free
  case own_of_free =>
    intro f hf
    rw [Function.update_of_ne]
    · exact h.own_of_free hf
    · rintro rfl
      exact hloose.not_free hf
  case managed_of_own =>
    intro f y hf
    rcases eq_or_ne f g with rfl | hfg
    · exact hmanaged
    · rw [Function.update_of_ne hfg] at hf
      exact h.managed_of_own hf
  case count =>
    have hcount := h.count
    have hcard := card_ownedFrames_update_none hmanaged hg
    omega

end Ledger

namespace Paging.Inv

variable {K : KernelImage} {live : Set (BitVec 64)} {own : Places} {leaked : ℕ} {s : Paging}
  {f g t : BitVec 64} {p : List (Fin numPte)} {i : Fin numPte} {m : Mem}

/-- The number of an owned frame has 44 bits. -/
theorem toNat_lt (h : Inv K live own leaked s) {x} (hf : own f = some x) : f.toNat < 2 ^ 44 :=
  toNat_lt_of_managed (h.ledger.managed_of_own hf)

/-- Before any page is allocated. -/
theorem pageAllocInit {mem : Mem} :
    Inv K ∅ (fun _ => none) 0 { alloc := R5O5.pageAllocInit K, mem } where
  ledger :=
    { wellFormed := wellFormed_pageAllocInit K
      nodup := nodup_freeList_pageAllocInit
      managed_of_free := mem_freeList_pageAllocInit.mp
      own_of_free := fun _ => rfl
      managed_of_own := fun h => by cases h
      count := by simp [ownedFrames, R5O5.pageAllocInit] }
  owned :=
    { own_root := fun h => absurd h (Set.notMem_empty _)
      root_of_nil := fun h => by cases h
      length_le := fun h => by cases h
      own_child := fun h => by cases h
      exists_parent := fun h => by cases h }
  directory_flags := fun h => by cases h

/-- Memory outside the directories does not matter. -/
theorem setMem (h : Inv K live own leaked s)
    (hkeep : ∀ f t p i, own f = some (t, p) → p.length < 3 →
      entry m f i = entry s.mem f i) :
    Inv K live own leaked { s with mem := m } where
  ledger := h.ledger
  owned := h.owned.congr fun f t p i hf hp => child_eq_of_entry_eq (hkeep f t p i hf hp)
  directory_flags := by
    intro f t p i g hf hp hchild
    have hentry := hkeep f t p i hf (by omega)
    rw [child_eq_of_entry_eq hentry] at hchild
    rw [hentry]
    exact h.directory_flags hf hp hchild

/-- An empty slot of a directory gets a loose frame. -/
theorem link (h : Inv K live own (leaked + 1) s) (hg : Loose K own s.alloc g)
    (hf : own f = some (t, p)) (hp : p.length < 3) (hnone : child s.mem f i = none)
    (hset : child m f i = some g)
    (hflags : p.length < 2 → getFlags (entry m f i) = pteV ||| pteR)
    (hempty : p.length < 2 → ∀ j, child s.mem g j = none)
    (hkeep : ∀ f' j, f'.toNat < 2 ^ 44 → (f', j) ≠ (f, i) → entry m f' j = entry s.mem f' j) :
    Inv K live (Function.update own g (some (t, p ++ [i]))) leaked { s with mem := m } := by
  have hgf : g ≠ f := by
    rintro rfl
    rw [hg.own] at hf
    cases hf
  have hgempty : p.length < 2 → ∀ j, child m g j = none := by
    intro hp j
    rw [child_eq_of_entry_eq (hkeep g j (toNat_lt_of_managed hg.managed) (by simp [hgf]))]
    exact hempty hp j
  constructor
  case ledger => exact h.ledger.place hg
  case owned =>
    exact h.owned.link hf hp hnone hg.own hset (fun hp => hgempty (by omega))
      fun f' t' p' j hf' _ hne => child_eq_of_entry_eq (hkeep f' j (h.toNat_lt hf') hne)
  case directory_flags =>
    intro f' t' p' j g' hf' hp' hchild
    simp only at hchild ⊢
    rcases eq_or_ne f' g with rfl | hfg
    · -- the new node is empty
      simp only [Function.update_self, Option.some.injEq, Prod.mk.injEq] at hf'
      obtain ⟨-, rfl⟩ := hf'
      rw [List.length_append, List.length_singleton] at hp'
      rw [hgempty (by omega) j] at hchild
      cases hchild
    · rw [Function.update_of_ne hfg] at hf'
      -- the linked entry, or one that was there before
      by_cases heq : (f', j) = (f, i)
      · obtain ⟨rfl, rfl⟩ := Prod.mk.inj heq
        obtain ⟨rfl, rfl⟩ := Prod.mk.inj (Option.some.inj (hf.symm.trans hf'))
        exact hflags hp'
      · have hentry := hkeep f' j (h.toNat_lt hf') heq
        rw [child_eq_of_entry_eq hentry] at hchild
        rw [hentry]
        exact h.directory_flags hf' hp' hchild

/-- A slot of a directory that points to a node without children is cleared. -/
theorem unlink (h : Inv K live own leaked s) (hf : own f = some (t, p)) (hp : p.length < 3)
    (hchild : child s.mem f i = some g)
    (hempty : p.length + 1 < 3 → ∀ j, child s.mem g j = none)
    (hset : child m f i = none)
    (hkeep : ∀ f' j, f'.toNat < 2 ^ 44 → (f', j) ≠ (f, i) → entry m f' j = entry s.mem f' j) :
    Inv K live (Function.update own g none) (leaked + 1) { s with mem := m } ∧
      Loose K (Function.update own g none) s.alloc g := by
  obtain ⟨hledger, hloose⟩ := h.ledger.unplace (h.owned.own_child hf hp hchild)
  refine ⟨?_, hloose⟩
  constructor
  case ledger => exact hledger
  case owned =>
    exact h.owned.unlink hf hp hchild hempty hset
      fun f' t' p' j hf' _ _ hne => child_eq_of_entry_eq (hkeep f' j (h.toNat_lt hf') hne)
  case directory_flags =>
    intro f' t' p' j g' hf' hp' hchild'
    simp only at hchild' ⊢
    rcases eq_or_ne f' g with rfl | hfg
    · simp at hf'
    · rw [Function.update_of_ne hfg] at hf'
      -- the unlinked entry is not valid any more
      by_cases heq : (f', j) = (f, i)
      · obtain ⟨rfl, rfl⟩ := Prod.mk.inj heq
        rw [hset] at hchild'
        cases hchild'
      · have hentry := hkeep f' j (h.toNat_lt hf') heq
        rw [child_eq_of_entry_eq hentry] at hchild'
        rw [hentry]
        exact h.directory_flags hf' hp' hchild'

/-- An empty loose frame becomes a page table. -/
theorem addRoot (h : Inv K live own (leaked + 1) s) (hg : Loose K own s.alloc g)
    (hempty : ∀ j, child m g j = none)
    (hkeep : ∀ f' j, f'.toNat < 2 ^ 44 → f' ≠ g → entry m f' j = entry s.mem f' j) :
    Inv K (insert g live) (Function.update own g (some (g, []))) leaked { s with mem := m } := by
  -- the new root had no place, so the other nodes are different frames
  have hne : ∀ {f' x}, own f' = some x → f' ≠ g := by
    rintro f' x hf' rfl
    rw [hg.own] at hf'
    cases hf'
  constructor
  case ledger => exact h.ledger.place hg
  case owned =>
    exact h.owned.addRoot hg.own (fun _ => hempty)
      fun f' t' p' j hf' _ => child_eq_of_entry_eq (hkeep f' j (h.toNat_lt hf') (hne hf'))
  case directory_flags =>
    intro f' t' p' j g' hf' hp' hchild
    simp only at hchild ⊢
    rcases eq_or_ne f' g with rfl | hfg
    · rw [hempty j] at hchild
      cases hchild
    · rw [Function.update_of_ne hfg] at hf'
      have hentry := hkeep f' j (h.toNat_lt hf') hfg
      rw [child_eq_of_entry_eq hentry] at hchild
      rw [hentry]
      exact h.directory_flags hf' hp' hchild

/-- An empty page table becomes a loose frame. -/
theorem removeRoot (h : Inv K live own leaked s) (ht : t ∈ live)
    (hempty : ∀ j, child s.mem t j = none) :
    Inv K (live \ {t}) (Function.update own t none) (leaked + 1) s ∧
      Loose K (Function.update own t none) s.alloc t := by
  obtain ⟨hledger, hloose⟩ := h.ledger.unplace (h.owned.own_root ht)
  refine ⟨?_, hloose⟩
  constructor
  case ledger => exact hledger
  case owned => exact h.owned.removeRoot ht fun _ => hempty
  case directory_flags =>
    intro f' t' p' j g' hf' hp' hchild
    rcases eq_or_ne f' t with rfl | hft
    · simp at hf'
    · rw [Function.update_of_ne hft] at hf'
      exact h.directory_flags hf' hp' hchild

end Paging.Inv

end R5O5
