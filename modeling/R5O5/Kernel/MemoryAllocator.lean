import Mathlib.Algebra.Group.Nat.Defs
import Mathlib.Data.Finset.Card
import Mathlib.Data.Finset.Image
import Mathlib.Data.Finset.Range
import Mathlib.Data.List.Range
import Mathlib.Data.List.Nodup
import R5O5.Kernel.Declarations
import R5O5.Lib.Except

/-!
# The page allocator

The stack of free pages of `kernel/memoryAllocator.c`: an array of page numbers whose part from
`currFreePageNode` on is the stack, with its height kept in `numFreePages` as well. The counters
are natural numbers; an access to the array outside its bounds stops the model.

## Main definitions

- `allocatePage`, `freePage`: the operations on single pages;
- `allocatePages`, `freePages`: the operations on several pages, with the state they leave when they
  stop;
- `PageAllocator.freeList`: the stack, top first.

## Main results

- `allocatePage_eq_ok`, `freePage_of_lt`: the operations pop and push the stack.
-/

namespace R5O5

/-- The globals of the allocator. -/
structure PageAllocator where
  pages : ℕ → BitVec 64
  currFreePageNode : ℕ
  numFreePages : ℕ

/-- Initialize the stack with the managed pages. -/
def pageAllocInit (K : KernelImage) : PageAllocator where
  pages i := startPage K.kernelEnd + BitVec.ofNat 64 i
  currFreePageNode := 0
  numFreePages := numPages

/-- Allocate a single page. -/
def allocatePage (a : PageAllocator) : Except Stop (BitVec 64 × PageAllocator) :=
  if a.numFreePages = 0 then .error (.error "allocatePage: No Free Page")
  else if a.currFreePageNode < numPages then
    .ok (a.pages a.currFreePageNode,
      { a with
        currFreePageNode := a.currFreePageNode + 1
        numFreePages := a.numFreePages - 1 })
  else .error .outOfBounds

/-- Free a single page. -/
def freePage (pageNum : BitVec 64) (a : PageAllocator) : Except Stop PageAllocator :=
  if a.numFreePages = numPages then
    .error (.error "freePage: All Free pages were already returned")
  else if 0 < a.currFreePageNode ∧ a.currFreePageNode ≤ numPages then
    .ok { pages := Function.update a.pages (a.currFreePageNode - 1) pageNum
          currFreePageNode := a.currFreePageNode - 1
          numFreePages := a.numFreePages + 1 }
  else .error .outOfBounds

/-- An operation on single pages, with the state that it leaves; it stops before it changes
anything. -/
def singlePage {α : Type} (f : PageAllocator → Except Stop (α × PageAllocator)) :
    EStateM Stop PageAllocator α := fun a =>
  match f a with
  | .ok (x, a') => .ok x a'
  | .error e => .error e a

/-- Allocate `n` pages; the result is what the list that the caller passes holds afterwards. -/
def allocatePages (n : BitVec 64) : EStateM Stop PageAllocator (List (BitVec 64)) := do
  if n ≤ 0 then throw (.error "allocatePages: Invalid n value")
  if (← get).numFreePages < n.toNat then throw (.error "allocatePages: Less than n pages")
  (List.range n.toNat).mapM fun _ => singlePage allocatePage

/-- Free the first `n` pages of a list. -/
def freePages (n : BitVec 64) (pagesToFree : ℕ → BitVec 64) : EStateM Stop PageAllocator Unit := do
  if n ≤ 0 then throw (.error "allocatePages: Invalid n value")
  (List.range n.toNat).forM fun i => singlePage fun a => ((), ·) <$> freePage (pagesToFree i) a

namespace PageAllocator

/-- The free pages, from the top of the stack down. -/
def freeList (a : PageAllocator) : List (BitVec 64) :=
  (List.range a.numFreePages).map fun k => a.pages (a.currFreePageNode + k)

/-- The two counters agree. -/
def WellFormed (a : PageAllocator) : Prop := a.currFreePageNode + a.numFreePages = numPages

/-- The free stack has as many pages as the allocator counts. -/
@[simp]
theorem length_freeList (a : PageAllocator) : a.freeList.length = a.numFreePages := by
  simp [freeList]

end PageAllocator

section Operations

variable {a a' : PageAllocator} {pageNum : BitVec 64}

theorem wellFormed_pageAllocInit (K : KernelImage) : (pageAllocInit K).WellFormed := by
  simp [PageAllocator.WellFormed, pageAllocInit]

/-- `allocatePage` pops the top of the stack; it returns whenever there is one. -/
theorem allocatePage_of_freeList (ha : a.WellFormed) {rest : List (BitVec 64)}
    (hfree : a.freeList = pageNum :: rest) :
    ∃ a', allocatePage a = .ok (pageNum, a') ∧ a'.freeList = rest ∧ a'.WellFormed := by
  unfold PageAllocator.WellFormed at *
  obtain ⟨n, hn⟩ : ∃ n, a.numFreePages = n + 1 :=
    ⟨rest.length, by rw [← a.length_freeList, hfree, List.length_cons]⟩
  rw [PageAllocator.freeList, hn, List.range_succ_eq_map, List.map_cons, List.cons.injEq] at hfree
  refine ⟨{ a with
      currFreePageNode := a.currFreePageNode + 1
      numFreePages := a.numFreePages - 1 }, ?_, ?_, ?_⟩
  · rw [allocatePage, if_neg (by omega), if_pos (by omega), ← hfree.1,
      Nat.add_zero a.currFreePageNode]
  · rw [← hfree.2]
    simp [PageAllocator.freeList, hn, Nat.add_assoc, Nat.add_comm 1]
  · simp only
    omega

/-- The page on top of the free stack is allocated. -/
theorem allocatePage_eq_ok (ha : a.WellFormed) (h : allocatePage a = .ok (pageNum, a')) :
    a.freeList = pageNum :: a'.freeList ∧ a'.WellFormed := by
  cases hfree : a.freeList with
  | nil =>
    have hnum : a.numFreePages = 0 := by rw [← a.length_freeList, hfree, List.length_nil]
    rw [allocatePage, if_pos hnum] at h
    cases h
  | cons top rest =>
    obtain ⟨b, hb, hrest, hwf⟩ := allocatePage_of_freeList ha hfree
    rw [h] at hb
    cases hb
    exact ⟨by rw [hrest], hwf⟩

/-- `allocatePage` returns while there are free pages. -/
theorem exists_allocatePage (ha : a.WellFormed) (hlt : 0 < a.numFreePages) :
    ∃ pageNum a', allocatePage a = .ok (pageNum, a') ∧ a'.WellFormed ∧
      a.numFreePages = a'.numFreePages + 1 := by
  rw [← a.length_freeList, List.length_pos_iff] at hlt
  obtain ⟨pageNum, rest, hfree⟩ := List.exists_cons_of_ne_nil hlt
  obtain ⟨a', hok, hrest, hwf⟩ := allocatePage_of_freeList ha hfree
  refine ⟨pageNum, a', hok, hwf, ?_⟩
  rw [← a.length_freeList, hfree, List.length_cons, ← hrest, a'.length_freeList]

/-- `freePage` pushes on the stack, unless all pages are there already. -/
theorem freePage_of_lt (pageNum : BitVec 64) (ha : a.WellFormed) (hlt : a.numFreePages < numPages) :
    ∃ a', freePage pageNum a = .ok a' ∧ a'.freeList = pageNum :: a.freeList ∧ a'.WellFormed := by
  unfold PageAllocator.WellFormed at *
  refine ⟨_, by rw [freePage, if_neg (by omega), if_pos (by omega)], ?_, ?_⟩
  · rw [PageAllocator.freeList, List.range_succ_eq_map, List.map_cons, List.map_map]
    congr 1
    · simp
    · refine List.map_congr_left fun k _ => ?_
      have hk : a.currFreePageNode - 1 + (k + 1) = a.currFreePageNode + k := by omega
      simp only [Function.comp_apply, Nat.succ_eq_add_one, hk]
      rw [Function.update_of_ne (by omega)]
  · simp only
    omega

end Operations

/-- The managed pages. -/
def managed (K : KernelImage) : Finset (BitVec 64) :=
  (Finset.range numPages).image fun i => startPage K.kernelEnd + BitVec.ofNat 64 i

section Managed

variable {K : KernelImage}

/-- The numbers of the managed pages do not wrap. -/
theorem toNat_startPage_add {i : ℕ} (hi : i < numPages) :
    (startPage K.kernelEnd + BitVec.ofNat 64 i).toNat = (startPage K.kernelEnd).toNat + i := by
  have hfits := K.fits
  have hend : endPage.toNat = 0x88000 := by decide
  simp only [numPages] at *
  rw [BitVec.toNat_add, BitVec.toNat_ofNat]
  omega

/-- The managed pages lie behind the kernel, one after the other. -/
theorem mem_managed {f : BitVec 64} :
    f ∈ managed K ↔ (startPage K.kernelEnd).toNat ≤ f.toNat ∧
      f.toNat < (startPage K.kernelEnd).toNat + numPages := by
  simp only [managed, Finset.mem_image, Finset.mem_range]
  constructor
  · rintro ⟨i, hi, rfl⟩
    rw [toNat_startPage_add hi]
    omega
  · rintro ⟨hlo, hhi⟩
    refine ⟨f.toNat - (startPage K.kernelEnd).toNat, by omega, BitVec.eq_of_toNat_eq ?_⟩
    rw [toNat_startPage_add (by omega)]
    omega

/-- There are as many managed pages as the allocator counts. -/
theorem card_managed : (managed K).card = numPages := by
  rw [managed, Finset.card_image_of_injOn, Finset.card_range]
  intro i hi j hj hij
  have hij' := congrArg BitVec.toNat hij
  rw [toNat_startPage_add (Finset.mem_range.mp hi), toNat_startPage_add (Finset.mem_range.mp hj)]
    at hij'
  omega

/-- Managed page numbers fit a page table entry. -/
theorem toNat_lt_of_managed {f : BitVec 64} (hf : f ∈ managed K) : f.toNat < 2 ^ 44 := by
  have hfits := K.fits
  have hend : endPage.toNat = 0x88000 := by decide
  rw [mem_managed] at hf
  omega

/-- At boot the free stack has the managed pages, the lowest one on top. -/
theorem freeList_pageAllocInit :
    (pageAllocInit K).freeList =
      (List.range numPages).map fun i => startPage K.kernelEnd + BitVec.ofNat 64 i := by
  simp [PageAllocator.freeList, pageAllocInit]

/-- At boot every page is on the free stack once. -/
theorem nodup_freeList_pageAllocInit : (pageAllocInit K).freeList.Nodup := by
  rw [freeList_pageAllocInit]
  refine List.Nodup.map_on ?_ List.nodup_range
  intro i hi j hj hij
  have hij' := congrArg BitVec.toNat hij
  rw [toNat_startPage_add (List.mem_range.mp hi), toNat_startPage_add (List.mem_range.mp hj)]
    at hij'
  omega

theorem mem_freeList_pageAllocInit {f : BitVec 64} :
    f ∈ (pageAllocInit K).freeList ↔ f ∈ managed K := by
  simp [freeList_pageAllocInit, managed]

end Managed

end R5O5
