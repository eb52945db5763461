import R5O5.Kernel.MemoryAllocator.Outstanding
import R5O5.Lib.BoundedStack

/-!
# The allocator as a bounded stack

The array of `kernel/memoryAllocator.c` with its two counters behaves like a bounded stack, whatever
its callers do. Pages may be freed that were never allocated, and freed again: the allocator stops
the kernel only when the stack is full, so until then such a page is handed out a second time.

## Main definitions

- `FreeStack.allocate`, `FreeStack.allocateMany`, `FreeStack.free`, `FreeStack.freeMany`: what the
  allocator is for;
- `AllocatorCall.run`, `AllocatorCall.onStack`: a call on the array and on the stack.

## Main results

- `FreeStack.related_run`: each call does the same on both;
- `FreeStack.stack_of_calls`: every sequence of calls does.
-/

namespace R5O5

/-- The free pages. -/
abbrev FreeStack : Type := BoundedStack (BitVec 64) numPages

namespace FreeStack

/-- All managed pages are free. -/
def full (K : KernelImage) : FreeStack where
  items := (pageAllocInit K).freeList
  length_le := by rw [PageAllocator.length_freeList, pageAllocInit]

/-- Take a page. -/
def allocate : EStateM Stop FreeStack (BitVec 64) := fun s =>
  match s.pop with
  | some (pageNum, s') => .ok pageNum s'
  | none => .error (.error "allocatePage: No Free Page") s

/-- Take `n` pages, or none. -/
def allocateMany (n : BitVec 64) : EStateM Stop FreeStack (List (BitVec 64)) := fun s =>
  if n = 0 then .error (.error "allocatePages: Invalid n value") s
  else match s.popMany n.toNat with
    | some (pages, s') => .ok pages s'
    | none => .error (.error "allocatePages: Less than n pages") s

/-- Put a page back. -/
def free (pageNum : BitVec 64) : EStateM Stop FreeStack Unit := fun s =>
  match s.push pageNum with
  | some s' => .ok () s'
  | none => .error (.error "freePage: All Free pages were already returned") s

/-- Put pages back, as many as fit. -/
def freeAll (pages : List (BitVec 64)) : EStateM Stop FreeStack Unit := fun s =>
  match s.pushMany pages with
  | (true, s') => .ok () s'
  | (false, s') => .error (.error "freePage: All Free pages were already returned") s'

/-- Put the first `n` pages of a list back, as many as fit. -/
def freeMany (n : BitVec 64) (pagesToFree : ℕ → BitVec 64) : EStateM Stop FreeStack Unit := fun s =>
  if n = 0 then .error (.error "allocatePages: Invalid n value") s
  else freeAll ((List.range n.toNat).map pagesToFree) s

end FreeStack

namespace AllocatorCall

/-- A call on the array, with the pages that it hands out. -/
def run : AllocatorCall → EStateM Stop PageAllocator (List (BitVec 64))
  | .allocatePage => (fun pageNum => [pageNum]) <$> singlePage R5O5.allocatePage
  | .allocatePages n => R5O5.allocatePages n
  | .freePage pageNum =>
    (fun _ => []) <$> singlePage fun a => ((), ·) <$> R5O5.freePage pageNum a
  | .freePages n pagesToFree => (fun _ => []) <$> R5O5.freePages n pagesToFree

/-- A call on the stack, with the pages that it hands out. -/
def onStack : AllocatorCall → EStateM Stop FreeStack (List (BitVec 64))
  | .allocatePage => (fun pageNum => [pageNum]) <$> FreeStack.allocate
  | .allocatePages n => FreeStack.allocateMany n
  | .freePage pageNum => (fun _ => []) <$> FreeStack.free pageNum
  | .freePages n pagesToFree => (fun _ => []) <$> FreeStack.freeMany n pagesToFree

/-- The pages that a call frees. -/
def freed : AllocatorCall → List (BitVec 64)
  | .allocatePage => []
  | .allocatePages _ => []
  | .freePage pageNum => [pageNum]
  | .freePages n pagesToFree => (List.range n.toNat).map pagesToFree

end AllocatorCall

namespace FreeStack

/-- The array holds the stack and the counters agree. -/
def Models (a : PageAllocator) (s : FreeStack) : Prop := a.WellFormed ∧ a.freeList = s.items

section Refinement

variable {K : KernelImage} {a : PageAllocator} {s s' : FreeStack} {pages : List (BitVec 64)}

/-- At boot the allocator is a full stack. -/
theorem models_pageAllocInit (K : KernelImage) : Models (pageAllocInit K) (full K) :=
  ⟨wellFormed_pageAllocInit K, by rw [full]⟩

/-- The stack has as many pages as the allocator counts. -/
theorem Models.length_items (h : Models a s) : s.items.length = a.numFreePages := by
  rw [← h.2, PageAllocator.length_freeList]

theorem related_allocate (h : Models a s) :
    EStateM.Related Models (singlePage allocatePage a) (allocate s) := by
  cases hpop : s.pop with
  | some p =>
    obtain ⟨pageNum, s'⟩ := p
    obtain ⟨a', hok, hfree, ha'⟩ :=
      allocatePage_of_freeList h.1 (h.2.trans (BoundedStack.pop_eq_some hpop))
    -- both take the page on top
    have hsingle : singlePage allocatePage a = .ok pageNum a' := by rw [singlePage, hok]
    have hallocate : allocate s = .ok pageNum s' := by rw [allocate, hpop]
    rw [hsingle, hallocate]
    exact .ok ⟨ha', hfree⟩
  | none =>
    have hzero : a.numFreePages = 0 := by
      rw [← h.length_items, BoundedStack.pop_eq_none hpop, List.length_nil]
    have hallocate : allocate s = .error (.error "allocatePage: No Free Page") s := by
      rw [allocate, hpop]
    rw [hallocate, singlePage, allocatePage, if_pos hzero]
    exact .error h

/-- `allocatePages` returns as many pages as were asked for. -/
theorem length_of_allocatePages {n : BitVec 64} {a' : PageAllocator}
    (hok : allocatePages n a = .ok pages a') : pages.length = n.toNat := by
  unfold allocatePages at hok
  by_cases hpos : n ≤ 0
  · rw [if_pos hpos] at hok
    cases hok
  rw [if_neg hpos] at hok
  change (ite (a.numFreePages < n.toNat) _ _ : EStateM Stop PageAllocator (List (BitVec 64))) a = _
    at hok
  by_cases hlt : a.numFreePages < n.toNat
  · rw [if_pos hlt] at hok
    cases hok
  · rw [if_neg hlt] at hok
    rw [EStateM.length_of_mapM hok, List.length_range]

/-- `allocatePages` pops pages one by one. -/
theorem related_allocateMany (n : BitVec 64) (h : Models a s) :
    EStateM.Related Models (allocatePages n a) (allocateMany n s) := by
  unfold allocateMany
  rcases allocatePages_cases n h.1 with
    ⟨hn, hle, pages, a', hok, hfree, ha'⟩ | ⟨hn, herr⟩ | ⟨hlt, herr⟩
  · obtain ⟨pages', s', hpop⟩ := BoundedStack.exists_popMany (h.length_items ▸ hle)
    obtain ⟨hitems, hlength⟩ := BoundedStack.popMany_eq_some hpop
    -- both take `n` pages from the top of the same list
    have hsame : pages ++ a'.freeList = pages' ++ s'.items := by rw [← hfree, ← hitems, h.2]
    have hlength' : pages.length = pages'.length := by
      rw [hlength]
      exact length_of_allocatePages hok
    obtain ⟨rfl, hrest⟩ := List.append_inj hsame hlength'
    rw [hok, if_neg hn, hpop]
    exact .ok ⟨ha', hrest⟩
  · rw [herr, if_pos hn]
    exact .error h
  · have hn : n ≠ 0 := by
      rintro rfl
      exact absurd hlt (Nat.not_lt_zero _)
    have hpop : s.popMany n.toNat = none := by
      rw [BoundedStack.popMany_eq_none_iff, h.length_items]
      exact hlt
    rw [herr, if_neg hn, hpop]
    exact .error h

/-- `freePage` does not access the array when all pages are free. -/
theorem related_free (pageNum : BitVec 64) (h : Models a s) :
    EStateM.Related Models (singlePage (fun a => ((), ·) <$> freePage pageNum a) a)
      (free pageNum s) := by
  unfold free
  split
  case h_1 s' hpush =>
    obtain ⟨hitems, hlt⟩ := BoundedStack.push_eq_some hpush
    rw [h.length_items] at hlt
    obtain ⟨a', hok, hfree, ha'⟩ := freePage_of_lt pageNum h.1 hlt
    rw [singlePage, hok]
    exact .ok ⟨ha', by rw [hfree, hitems, h.2]⟩
  case h_2 hpush =>
    have hfull : a.numFreePages = numPages := by
      rw [← h.length_items, BoundedStack.push_eq_none hpush]
    rw [singlePage, freePage, if_pos hfull]
    exact .error h

/-- A page that is freed first is pushed first. -/
theorem freeAll_cons (pageNum : BitVec 64) (pages : List (BitVec 64)) :
    freeAll (pageNum :: pages) = (free pageNum >>= fun _ => freeAll pages) := by
  funext s
  cases hpush : s.push pageNum with
  | some s' =>
    have hfree : free pageNum s = .ok () s' := by rw [free, hpush]
    rw [EStateM.bind_of_ok hfree, freeAll, BoundedStack.pushMany, hpush]
    rfl
  | none =>
    have hfree : free pageNum s =
        .error (.error "freePage: All Free pages were already returned") s := by
      rw [free, hpush]
    rw [EStateM.bind_of_error hfree, freeAll, BoundedStack.pushMany, hpush]

/-- A loop of `freePage` stops where the stack is full. -/
theorem related_forM_free (l : List ℕ) (pagesToFree : ℕ → BitVec 64) (h : Models a s) :
    EStateM.Related Models
      ((l.forM fun i => singlePage fun a => ((), ·) <$> freePage (pagesToFree i) a) a)
      (freeAll (l.map pagesToFree) s) := by
  induction l generalizing a s with
  | nil => exact .ok h
  | cons i l ih =>
    rw [List.map_cons, freeAll_cons]
    exact (related_free (pagesToFree i) h).bind fun _ _ _ h => ih h

/-- `freePages` pushes pages one by one. -/
theorem related_freeMany (n : BitVec 64) (pagesToFree : ℕ → BitVec 64) (h : Models a s) :
    EStateM.Related Models (freePages n pagesToFree a) (freeMany n pagesToFree s) := by
  unfold freeMany
  by_cases hn : n = 0
  · subst hn
    rw [if_pos rfl]
    exact .error h
  · have hpos : ¬ n ≤ 0 := fun hle => hn (BitVec.le_zero_iff.mp hle)
    rw [if_neg hn, freePages, if_neg hpos]
    exact related_forM_free (List.range n.toNat) pagesToFree h

/-- A call does the same on the array as on the stack. -/
theorem related_run (call : AllocatorCall) (a : PageAllocator) (s : FreeStack) (h : Models a s) :
    EStateM.Related Models (call.run a) (call.onStack s) := by
  cases call with
  | allocatePage => exact (related_allocate h).map _
  | allocatePages n => exact related_allocateMany n h
  | freePage pageNum => exact (related_free pageNum h).map _
  | freePages n pagesToFree => exact (related_freeMany n pagesToFree h).map _

end Refinement

/-! ## Sequences of calls -/

section Calls

variable {K : KernelImage} {s s' : FreeStack} {call : AllocatorCall} {calls : List AllocatorCall}
  {pages : List (BitVec 64)} {e : Stop}

/-- The pages that were pushed last are on top. -/
theorem freeAll_eq_ok (h : freeAll pages s = .ok () s') : s'.items = pages.reverse ++ s.items := by
  cases hpush : s.pushMany pages with
  | mk fits t =>
    rw [freeAll, hpush] at h
    cases fits with
    | false => cases h
    | true =>
      cases h
      -- they all fit
      have hfst := BoundedStack.pushMany_fst pages s
      rw [hpush, eq_comm, decide_eq_true_iff] at hfst
      have hitems := BoundedStack.items_pushMany pages s
      rwa [hpush, List.take_of_length_le hfst] at hitems

theorem allocate_eq_ok {pageNum : BitVec 64} (h : allocate s = .ok pageNum s') :
    s.items = pageNum :: s'.items := by
  unfold allocate at h
  split at h
  case h_1 hpop =>
    cases h
    exact BoundedStack.pop_eq_some hpop
  case h_2 => cases h

/-- Pages that are popped were on top. -/
theorem allocateMany_eq_ok {n : BitVec 64} (h : allocateMany n s = .ok pages s') :
    s.items = pages ++ s'.items := by
  unfold allocateMany at h
  split_ifs at h
  split at h
  case h_1 hpop =>
    cases h
    exact (BoundedStack.popMany_eq_some hpop).1
  case h_2 => cases h

theorem free_eq_ok {pageNum : BitVec 64} (h : free pageNum s = .ok () s') :
    s'.items = pageNum :: s.items := by
  unfold free at h
  split at h
  case h_1 hpush =>
    cases h
    exact (BoundedStack.push_eq_some hpush).1
  case h_2 => cases h

/-- A call moves the pages that it hands out and frees, and no others. -/
theorem conserved_of_onStack (h : call.onStack s = .ok pages s') :
    (s'.items : Multiset (BitVec 64)) + pages = s.items + call.freed := by
  cases call with
  | allocatePage =>
    obtain ⟨pageNum, hok, rfl⟩ := EStateM.map_eq_ok.mp h
    rw [allocate_eq_ok hok, AllocatorCall.freed, Multiset.coe_nil, add_zero, add_comm]
    rfl
  | allocatePages n =>
    rw [allocateMany_eq_ok h, AllocatorCall.freed, Multiset.coe_nil, add_zero, add_comm]
    rfl
  | freePage pageNum =>
    obtain ⟨_, hok, rfl⟩ := EStateM.map_eq_ok.mp h
    rw [free_eq_ok hok, AllocatorCall.freed, Multiset.coe_nil, add_zero, add_comm]
    rfl
  | freePages n pagesToFree =>
    obtain ⟨_, hok, rfl⟩ := EStateM.map_eq_ok.mp h
    unfold freeMany at hok
    split_ifs at hok
    rw [freeAll_eq_ok hok, AllocatorCall.freed, ← Multiset.coe_add, Multiset.coe_reverse,
      Multiset.coe_nil, add_zero, add_comm]

/-- A call stops the kernel with a message. -/
theorem exists_of_onStack_eq_error (h : call.onStack s = .error e s') :
    ∃ message, e = .error message := by
  cases call with
  | allocatePage =>
    have hstop : allocate s = .error e s' := EStateM.map_eq_error.mp h
    unfold allocate at hstop
    split at hstop <;> cases hstop
    exact ⟨_, rfl⟩
  | allocatePages n =>
    have hstop : allocateMany n s = .error e s' := h
    unfold allocateMany at hstop
    split_ifs at hstop
    · cases hstop
      exact ⟨_, rfl⟩
    · split at hstop <;> cases hstop
      exact ⟨_, rfl⟩
  | freePage pageNum =>
    have hstop : free pageNum s = .error e s' := EStateM.map_eq_error.mp h
    unfold free at hstop
    split at hstop <;> cases hstop
    exact ⟨_, rfl⟩
  | freePages n pagesToFree =>
    have hstop : freeMany n pagesToFree s = .error e s' := EStateM.map_eq_error.mp h
    unfold freeMany at hstop
    split_ifs at hstop
    · cases hstop
      exact ⟨_, rfl⟩
    · unfold freeAll at hstop
      split at hstop <;> cases hstop
      exact ⟨_, rfl⟩

/-- No call loses a page or makes one up. -/
theorem conserved_of_calls {handedOut : List (List (BitVec 64))}
    (h : calls.mapM AllocatorCall.onStack s = .ok handedOut s') :
    (s'.items : Multiset (BitVec 64)) + handedOut.flatten =
      s.items + calls.flatMap AllocatorCall.freed := by
  induction calls generalizing s handedOut with
  | nil =>
    cases h
    rfl
  | cons call calls ih =>
    obtain ⟨pages, rest, t, hcall, hrest, rfl⟩ := EStateM.mapM_cons_eq_ok.mp h
    have hhead := conserved_of_onStack hcall
    rw [List.flatten_cons, List.flatMap_cons, ← Multiset.coe_add, ← Multiset.coe_add,
      add_left_comm, ih hrest, ← add_assoc, ← add_assoc, ← hhead,
      add_comm (pages : Multiset (BitVec 64))]

/-- Whatever its callers do, from the start the allocator does the same as the stack: every call
hands out the same pages or stops the kernel with the same message. The array is never accessed
outside its bounds, and as long as the kernel runs the pages that were free at the start and those
that were freed are free or were handed out. -/
theorem stack_of_calls (K : KernelImage) (calls : List AllocatorCall) :
    EStateM.Related Models (calls.mapM AllocatorCall.run (pageAllocInit K))
      (calls.mapM AllocatorCall.onStack (full K)) ∧
    (∀ a, calls.mapM AllocatorCall.run (pageAllocInit K) ≠ .error .outOfBounds a) ∧
    ∀ handedOut a, calls.mapM AllocatorCall.run (pageAllocInit K) = .ok handedOut a →
      (a.freeList : Multiset (BitVec 64)) + handedOut.flatten =
        (managed K).val + calls.flatMap AllocatorCall.freed := by
  have hrelated :=
    EStateM.Related.mapM (R := Models) related_run calls (models_pageAllocInit K)
  refine ⟨hrelated, ?_, ?_⟩
  · intro a hstop
    generalize hstack : calls.mapM AllocatorCall.onStack (full K) = r at hrelated
    rw [hstop] at hrelated
    cases hrelated with
    | error _ =>
      obtain ⟨call, -, s, hcall⟩ := EStateM.exists_of_mapM_eq_error hstack
      obtain ⟨message, h⟩ := exists_of_onStack_eq_error hcall
      cases h
  · intro handedOut a hok
    generalize hstack : calls.mapM AllocatorCall.onStack (full K) = r at hrelated
    rw [hok] at hrelated
    cases hrelated with
    | ok hmodels =>
      -- all managed pages are free at the start
      have hstart : ((pageAllocInit K).freeList : Multiset (BitVec 64)) + 0 = (managed K).val :=
        (Outstanding.inv_boot K).conserved
      rw [hmodels.2, conserved_of_calls hstack, ← hstart, add_zero, (models_pageAllocInit K).2]

end Calls

section Sample

/-- A page that is freed twice is handed out twice. -/
theorem stack_of_calls_sample : ∃ page a,
    List.mapM AllocatorCall.run [.allocatePages 2, .freePage 0x80000, .freePage 0x80000,
        .allocatePages 2] (pageAllocInit Outstanding.sampleImage) =
      .ok [[0x80000, 0x80001], [], [], [page, page]] a ∧
    (a.freeList : Multiset (BitVec 64)) +
        ([0x80000, 0x80001, page, page] : List (BitVec 64)) =
      (managed Outstanding.sampleImage).val + ([0x80000, 0x80000] : List (BitVec 64)) := by
  have hrun : ∃ a, List.mapM AllocatorCall.run [.allocatePages 2, .freePage 0x80000,
      .freePage 0x80000, .allocatePages 2] (pageAllocInit Outstanding.sampleImage) =
      .ok [[0x80000, 0x80001], [], [], [0x80000, 0x80000]] a := ⟨_, rfl⟩
  obtain ⟨a, hok⟩ := hrun
  exact ⟨0x80000, a, hok, (stack_of_calls Outstanding.sampleImage _).2.2 _ a hok⟩

end Sample

end FreeStack

end R5O5
