import Mathlib.Algebra.Order.Group.Multiset
import R5O5.Kernel.MemoryAllocator
import R5O5.Lib.Trace

/-!
# Outstanding pages

Runs of the page allocator in which only outstanding pages are freed: pages that were handed out and
not freed since. At every moment each managed page is either free or outstanding.

## Main definitions

- `Outstanding.Step`: one call of the allocator.

## Main results

- `Outstanding.inv_of_trace`: the pages are conserved over every run.
-/

namespace R5O5

section Bulk

variable {a : PageAllocator} {n : BitVec 64}

/-- The loop of `allocatePages` pops as many pages as it has rounds. -/
theorem mapM_allocatePage {ι : Type} (l : List ι) (ha : a.WellFormed)
    (hle : l.length ≤ a.numFreePages) :
    ∃ pages a', (l.mapM fun _ => singlePage allocatePage) a = .ok pages a' ∧
      a.freeList = pages ++ a'.freeList ∧ a'.WellFormed := by
  induction l generalizing a with
  | nil => exact ⟨[], a, rfl, rfl, ha⟩
  | cons i l ih =>
    rw [List.length_cons] at hle
    obtain ⟨pageNum, a₁, hok, ha₁, hcount⟩ := exists_allocatePage ha (by omega)
    obtain ⟨hfree, -⟩ := allocatePage_eq_ok ha hok
    obtain ⟨pages, a', hrest, hfree', ha'⟩ := ih ha₁ (by omega)
    refine ⟨pageNum :: pages, a', ?_, ?_, ha'⟩
    · have hhead : singlePage allocatePage a = .ok pageNum a₁ := by rw [singlePage, hok]
      rw [List.mapM_cons, EStateM.bind_of_ok hhead, EStateM.bind_of_ok hrest]
      rfl
    · rw [hfree, hfree', List.cons_append]

/-- The loop of `freePages` pushes the pages one after the other. -/
theorem forM_freePage (l : List ℕ) (pagesToFree : ℕ → BitVec 64) (ha : a.WellFormed)
    (hle : a.numFreePages + l.length ≤ numPages) :
    ∃ a', (l.forM fun i => singlePage fun a => ((), ·) <$> freePage (pagesToFree i) a) a =
        .ok () a' ∧
      a'.freeList = (l.map pagesToFree).reverse ++ a.freeList ∧ a'.WellFormed := by
  induction l generalizing a with
  | nil => exact ⟨a, rfl, rfl, ha⟩
  | cons i l ih =>
    rw [List.length_cons] at hle
    obtain ⟨a₁, hok, hfree, ha₁⟩ := freePage_of_lt (pagesToFree i) ha (by omega)
    have hcount : a₁.numFreePages = a.numFreePages + 1 := by
      rw [← a₁.length_freeList, hfree, List.length_cons, a.length_freeList]
    obtain ⟨a', hrest, hfree', ha'⟩ := ih ha₁ (by omega)
    refine ⟨a', ?_, ?_, ha'⟩
    · have hhead : singlePage (fun a => ((), ·) <$> freePage (pagesToFree i) a) a = .ok () a₁ := by
        rw [singlePage, hok]
        rfl
      exact (EStateM.bind_of_ok hhead _).trans hrest
    · rw [hfree', hfree, List.map_cons, List.reverse_cons, List.append_assoc, List.singleton_append]

/-- `allocatePages` takes the pages from the top of the stack, or stops with the stack unchanged
when there are too few. -/
theorem allocatePages_cases (n : BitVec 64) (ha : a.WellFormed) :
    (n ≠ 0 ∧ n.toNat ≤ a.numFreePages ∧ ∃ pages a', allocatePages n a = .ok pages a' ∧
      a.freeList = pages ++ a'.freeList ∧ a'.WellFormed) ∨
    (n = 0 ∧ allocatePages n a = .error (.error "allocatePages: Invalid n value") a) ∨
    (a.numFreePages < n.toNat ∧
      allocatePages n a = .error (.error "allocatePages: Less than n pages") a) := by
  by_cases hzero : n = 0
  · exact Or.inr (Or.inl ⟨hzero, by rw [hzero]; rfl⟩)
  have hpos : ¬ n ≤ 0 := fun hle => hzero (BitVec.le_zero_iff.mp hle)
  by_cases hlt : a.numFreePages < n.toNat
  · refine Or.inr (Or.inr ⟨hlt, ?_⟩)
    rw [allocatePages, if_neg hpos]
    show (ite (a.numFreePages < n.toNat) _ _ : EStateM Stop PageAllocator (List (BitVec 64))) a = _
    rw [if_pos hlt]
    rfl
  -- there are enough pages, so every round of the loop finds one
  · obtain ⟨pages, a', hok, hfree, ha'⟩ := mapM_allocatePage (List.range n.toNat) ha
      (by rw [List.length_range]; omega)
    refine Or.inl ⟨hzero, by omega, pages, a', ?_, hfree, ha'⟩
    rw [← hok, allocatePages, if_neg hpos]
    show (ite (a.numFreePages < n.toNat) _ _ : EStateM Stop PageAllocator (List (BitVec 64))) a = _
    rw [if_neg hlt]

/-- `freePages` pushes the pages of the list, while they are not more than are missing. -/
theorem freePages_cases (n : BitVec 64) (pagesToFree : ℕ → BitVec 64) (ha : a.WellFormed)
    (hle : a.numFreePages + n.toNat ≤ numPages) :
    (n ≠ 0 ∧ ∃ a', freePages n pagesToFree a = .ok () a' ∧
      a'.freeList = ((List.range n.toNat).map pagesToFree).reverse ++ a.freeList ∧ a'.WellFormed) ∨
    (n = 0 ∧ freePages n pagesToFree a = .error (.error "allocatePages: Invalid n value") a) := by
  by_cases hzero : n = 0
  · exact Or.inr ⟨hzero, by rw [hzero]; rfl⟩
  · have hpos : ¬ n ≤ 0 := fun hle => hzero (BitVec.le_zero_iff.mp hle)
    obtain ⟨a', hok, hfree, ha'⟩ := forM_freePage (List.range n.toNat) pagesToFree ha
      (by rw [List.length_range]; omega)
    refine Or.inl ⟨hzero, a', ?_, hfree, ha'⟩
    rw [← hok, freePages, if_neg hpos]

end Bulk

/-! ## Runs -/

/-- The allocator with the pages that were handed out and not freed since. An error stops the
kernel. -/
structure Outstanding where
  alloc : PageAllocator
  outstanding : Multiset (BitVec 64)
  stopped : Option Stop

/-- The calls of the allocator. -/
inductive AllocatorCall
  | allocatePage
  | allocatePages (n : BitVec 64)
  | freePage (pageNum : BitVec 64)
  | freePages (n : BitVec 64) (pagesToFree : ℕ → BitVec 64)

namespace Outstanding

/-- The state after `pageAllocInit`. -/
def boot (K : KernelImage) : Outstanding where
  alloc := pageAllocInit K
  outstanding := 0
  stopped := none

/-- The state after a call that hands out pages. -/
def allocated (s : Outstanding) : EStateM.Result Stop PageAllocator (List (BitVec 64)) → Outstanding
  | .ok pages alloc => { alloc, outstanding := pages + s.outstanding, stopped := none }
  | .error e alloc => { s with alloc, stopped := some e }

/-- The state after a call that frees pages. -/
def freed (s : Outstanding) (pages : Multiset (BitVec 64)) :
    EStateM.Result Stop PageAllocator Unit → Outstanding
  | .ok () alloc => { alloc, outstanding := s.outstanding - pages, stopped := none }
  | .error e alloc => { s with alloc, stopped := some e }

/-- One call. The pages that it frees are outstanding. -/
inductive Step : Outstanding → AllocatorCall → Outstanding → Prop
  | allocatePage {s : Outstanding} :
      s.stopped = none →
      Step s .allocatePage
        (s.allocated (((fun pageNum => [pageNum]) <$> singlePage R5O5.allocatePage) s.alloc))
  | allocatePages {s : Outstanding} {n : BitVec 64} :
      s.stopped = none →
      Step s (.allocatePages n) (s.allocated (R5O5.allocatePages n s.alloc))
  | freePage {s : Outstanding} {pageNum : BitVec 64} :
      s.stopped = none →
      pageNum ∈ s.outstanding →
      Step s (.freePage pageNum) (s.freed {pageNum}
        (singlePage (fun a => ((), ·) <$> R5O5.freePage pageNum a) s.alloc))
  | freePages {s : Outstanding} {n : BitVec 64} {pagesToFree : ℕ → BitVec 64} :
      s.stopped = none →
      ((List.range n.toNat).map pagesToFree : Multiset (BitVec 64)) ≤ s.outstanding →
      Step s (.freePages n pagesToFree) (s.freed ((List.range n.toNat).map pagesToFree)
        (R5O5.freePages n pagesToFree s.alloc))

/-- The counters agree, each managed page is free or outstanding and not both, and the allocator
stopped at most because it was asked for too many pages or for none. -/
structure Inv (K : KernelImage) (s : Outstanding) : Prop where
  wellFormed : s.alloc.WellFormed
  conserved : (s.alloc.freeList : Multiset (BitVec 64)) + s.outstanding = (managed K).val
  stopped : ∀ e ∈ s.stopped, e ≠ .outOfBounds ∧
    e ≠ .error "freePage: All Free pages were already returned"

section Runs

variable {K : KernelImage} {s s' : Outstanding} {call : AllocatorCall} {calls : List AllocatorCall}

theorem inv_boot (K : KernelImage) : Inv K (boot K) where
  wellFormed := wellFormed_pageAllocInit K
  conserved := by
    show ((pageAllocInit K).freeList : Multiset (BitVec 64)) + 0 = _
    rw [add_zero]
    refine (Multiset.Nodup.ext (Multiset.coe_nodup.mpr nodup_freeList_pageAllocInit)
      (managed K).nodup).mpr fun f => ?_
    rw [Multiset.mem_coe, Finset.mem_val]
    exact mem_freeList_pageAllocInit
  stopped e he := by cases he

/-- The free pages and the outstanding ones are as many as there are managed pages. -/
theorem Inv.card_add (h : Inv K s) : s.alloc.numFreePages + s.outstanding.card = numPages := by
  have hcard := congrArg Multiset.card h.conserved
  rwa [Multiset.card_add, Multiset.coe_card, PageAllocator.length_freeList, Finset.card_val,
    card_managed] at hcard

/-- Pages that leave the stack become outstanding. -/
theorem Inv.allocated {pages : List (BitVec 64)} {alloc : PageAllocator} (h : Inv K s)
    (hfree : s.alloc.freeList = pages ++ alloc.freeList) (hwf : alloc.WellFormed) :
    Inv K (s.allocated (.ok pages alloc)) where
  wellFormed := hwf
  conserved := by
    rw [← h.conserved, hfree, ← Multiset.coe_add]
    show (alloc.freeList : Multiset (BitVec 64)) + (pages + s.outstanding) = _
    rw [← add_assoc, add_comm (alloc.freeList : Multiset (BitVec 64))]
  stopped e he := by cases he

/-- Outstanding pages go back to the stack. -/
theorem Inv.freed {pages : List (BitVec 64)} {alloc : PageAllocator} (h : Inv K s)
    (hle : (pages : Multiset (BitVec 64)) ≤ s.outstanding)
    (hfree : alloc.freeList = pages.reverse ++ s.alloc.freeList) (hwf : alloc.WellFormed) :
    Inv K (s.freed pages (.ok () alloc)) where
  wellFormed := hwf
  conserved := by
    rw [← h.conserved]
    show (alloc.freeList : Multiset (BitVec 64)) + (s.outstanding - pages) = _
    rw [hfree, ← Multiset.coe_add, Multiset.coe_reverse, add_right_comm, add_comm,
      add_comm (pages : Multiset (BitVec 64)), Multiset.sub_add_cancel hle]
  stopped e he := by cases he

/-- A call that stops for another reason leaves the pages where they are. -/
theorem Inv.stop {e : Stop} (h : Inv K s) (he : e ≠ .outOfBounds)
    (he' : e ≠ .error "freePage: All Free pages were already returned") :
    Inv K { s with stopped := some e } where
  wellFormed := h.wellFormed
  conserved := h.conserved
  stopped e' h' := by
    cases h'
    exact ⟨he, he'⟩

theorem Inv.step (h : Inv K s) (hstep : Step s call s') : Inv K s' := by
  have hcard := h.card_add
  cases hstep with
  | allocatePage _ =>
    cases hfree : s.alloc.freeList with
    | nil =>
      -- an empty stack is an error, and nothing is allocated
      have hnum : s.alloc.numFreePages = 0 := by
        rw [← s.alloc.length_freeList, hfree, List.length_nil]
      have herr : ((fun pageNum => [pageNum]) <$> singlePage R5O5.allocatePage) s.alloc =
          .error (.error "allocatePage: No Free Page") s.alloc := by
        rw [map_eq_pure_bind]
        refine EStateM.bind_of_error ?_ _
        rw [singlePage, R5O5.allocatePage, if_pos hnum]
      rw [herr]
      exact h.stop (by simp) (by simp)
    | cons pageNum rest =>
      obtain ⟨alloc, hok, hrest, hwf⟩ := allocatePage_of_freeList h.wellFormed hfree
      have hallocated : ((fun pageNum => [pageNum]) <$> singlePage R5O5.allocatePage) s.alloc =
          .ok [pageNum] alloc := by
        rw [map_eq_pure_bind]
        have hsingle : singlePage R5O5.allocatePage s.alloc = .ok pageNum alloc := by
          rw [singlePage, hok]
        exact EStateM.bind_of_ok hsingle _
      rw [hallocated]
      exact h.allocated (by rw [hfree, hrest, List.singleton_append]) hwf
  | allocatePages _ =>
    rename_i n _
    rcases allocatePages_cases n h.wellFormed with
      ⟨-, -, pages, alloc, hok, hfree, hwf⟩ | ⟨-, herr⟩ | ⟨-, herr⟩
    · rw [hok]
      exact h.allocated hfree hwf
    · rw [herr]
      exact h.stop (by simp) (by simp)
    · rw [herr]
      exact h.stop (by simp) (by simp)
  | freePage _ hmem =>
    rename_i pageNum _
    -- a page is outstanding, so the stack has room for it
    have hpos := Multiset.card_pos_iff_exists_mem.mpr ⟨pageNum, hmem⟩
    obtain ⟨alloc, hok, hfree, hwf⟩ := freePage_of_lt pageNum h.wellFormed (by omega)
    have hfreed :
        singlePage (fun a => ((), ·) <$> R5O5.freePage pageNum a) s.alloc = .ok () alloc := by
      rw [singlePage, hok]
      rfl
    rw [hfreed]
    have hle : (([pageNum] : List (BitVec 64)) : Multiset (BitVec 64)) ≤ s.outstanding :=
      Multiset.singleton_le.mpr hmem
    exact h.freed hle hfree hwf
  | freePages _ hle =>
    rename_i n pagesToFree _
    have hcount := Multiset.card_le_card hle
    rw [Multiset.coe_card, List.length_map, List.length_range] at hcount
    rcases freePages_cases n pagesToFree h.wellFormed (by omega) with
      ⟨-, alloc, hok, hfree, hwf⟩ | ⟨-, herr⟩
    · rw [hok]
      exact h.freed hle hfree hwf
    · rw [herr]
      exact h.stop (by simp) (by simp)

/-- What runs of the allocator keep. -/
theorem inv_of_trace (hrun : Trace Step (boot K) calls s) : Inv K s :=
  hrun.invariant (inv_boot K) fun _ _ _ h => h.step

/-- Over every run that frees only outstanding pages, the counters agree, all accesses to the stack
are in range, every managed page is either free or outstanding once, `freePage` never stops, and
`allocatePages` stops exactly when there are too few pages, without taking any. -/
theorem pages_conserved (hrun : Trace Step (boot K) calls s) :
    s.alloc.currFreePageNode + s.alloc.numFreePages = numPages ∧
    (s.alloc.freeList : Multiset (BitVec 64)) + s.outstanding = (managed K).val ∧
    (s.alloc.freeList : Multiset (BitVec 64)).Nodup ∧ s.outstanding.Nodup ∧
    (∀ e ∈ s.stopped, e ≠ .outOfBounds ∧
      e ≠ .error "freePage: All Free pages were already returned") ∧
    ∀ n : BitVec 64, 1 ≤ n.toNat →
      ((∃ e alloc, R5O5.allocatePages n s.alloc = .error e alloc) ↔
        s.alloc.numFreePages < n.toNat) ∧
      ∀ e alloc, R5O5.allocatePages n s.alloc = .error e alloc → alloc = s.alloc := by
  have h := inv_of_trace hrun
  -- free and outstanding pages together are the managed ones, each once
  have hnodup : ((s.alloc.freeList : Multiset (BitVec 64)) + s.outstanding).Nodup := by
    rw [h.conserved]
    exact (managed K).nodup
  obtain ⟨hfree, houtstanding, -⟩ := Multiset.nodup_add.mp hnodup
  refine ⟨h.wellFormed, h.conserved, hfree, houtstanding, h.stopped, fun n hn => ?_⟩
  rcases allocatePages_cases n h.wellFormed with
    ⟨-, hle, pages, alloc, hok, -⟩ | ⟨hzero, -⟩ | ⟨hlt, herr⟩
  · rw [hok]
    refine ⟨⟨?_, fun hlt => absurd hle (Nat.not_le.mpr hlt)⟩, ?_⟩
    · rintro ⟨e, alloc', heq⟩
      cases heq
    · intro e alloc' heq
      cases heq
  · subst hzero
    exact absurd hn (by decide)
  · rw [herr]
    refine ⟨⟨fun _ => hlt, fun _ => ⟨_, _, rfl⟩⟩, ?_⟩
    intro e alloc' heq
    cases heq
    rfl

end Runs

section Sample

/-- A kernel that ends at the start of the RAM. -/
def sampleImage : KernelImage where
  kernelEnd := 0x80000000
  fits := by decide

/-- Two pages are allocated and the first one is freed. -/
theorem pages_conserved_sample : ∃ s, Trace Step (boot sampleImage)
    [.allocatePages 2, .freePage (startPage sampleImage.kernelEnd)] s ∧
      s.alloc.currFreePageNode + s.alloc.numFreePages = numPages ∧ s.alloc.currFreePageNode = 1 := by
  have hallocated : R5O5.allocatePages 2 (boot sampleImage).alloc =
      .ok [startPage sampleImage.kernelEnd + 0, startPage sampleImage.kernelEnd + 1]
        { pageAllocInit sampleImage with
          currFreePageNode := 2
          numFreePages := 498 } := rfl
  have hrun : Trace Step (boot sampleImage) [.allocatePages 2] _ :=
    Trace.refl.snoc (.allocatePages rfl)
  rw [hallocated] at hrun
  have hmem : startPage sampleImage.kernelEnd ∈ ((boot sampleImage).allocated
      (.ok [startPage sampleImage.kernelEnd + 0, startPage sampleImage.kernelEnd + 1]
        { pageAllocInit sampleImage with
          currFreePageNode := 2
          numFreePages := 498 })).outstanding := by
    decide
  have hrun' := hrun.snoc (.freePage rfl hmem)
  exact ⟨_, hrun', (pages_conserved hrun').1, rfl⟩

end Sample

end Outstanding

end R5O5
