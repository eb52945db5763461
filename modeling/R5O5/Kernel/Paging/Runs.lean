import Mathlib.Data.Set.Card
import R5O5.Kernel.Paging.Deallocate
import R5O5.Lib.Trace

/-!
# Runs of the paging operations

The kernel after `pageAllocInit`: page tables are allocated and deallocated, pages are allocated in
them, and bytes are stored into their pages, in any order.

## Main definitions

- `Tables.Step`: one operation on a live page table;
- `Tables.TakesEmptyDirectories`: an operation that takes only frames without valid entries for
  directories;
- `Tables.Inv`: the invariant of the runs of such operations.

## Main results

- `Tables.inv_of_trace`: the invariant holds after every such run;
- `isVirtualPageAllocated_iff_requested`: then exactly the requested pages are mapped;
- `numFreePages_add_ncard_reachable`: frames are conserved up to one for each requested page.
-/

namespace R5O5

/-- The arguments of a call of `allocateVirtualPage` after the page table. -/
structure PageRequest where
  virtualPageNum : BitVec 64
  perm : Permissions
  deriving DecidableEq, Repr

/-- The operations on page tables. -/
inductive Op
  /-- `allocatePageTable` returns this page table. -/
  | allocatePageTable (pagetable : BitVec 64)
  | allocateVirtualPage (pagetable : BitVec 64) (request : PageRequest)
  /-- A byte is stored through the page table. -/
  | store (pagetable virtualAddress : BitVec 64) (byte : BitVec 8)
  | deallocatePageTable (pagetable : BitVec 64)
  deriving DecidableEq, Repr

namespace Op

def isAllocateVirtualPage : Op → Bool
  | allocateVirtualPage _ _ => true
  | _ => false

def isStore : Op → Bool
  | store _ _ _ => true
  | _ => false

end Op

/-- The state of the paging code with the live page tables, and for each of them the pages requested
since it was allocated. -/
structure Tables where
  paging : Paging
  live : Finset (BitVec 64)
  requests : BitVec 64 → List PageRequest

namespace Tables

/-- The state after `pageAllocInit`. -/
def boot (K : KernelImage) (mem : Mem) : Tables where
  paging := { alloc := pageAllocInit K, mem }
  live := ∅
  requests _ := []

/-- One successful operation on a live page table. -/
inductive Step : Tables → Op → Tables → Prop
  | allocatePageTable {s : Tables} {pt : BitVec 64} {paging : Paging} :
      R5O5.allocatePageTable s.paging = .ok (pt, paging) →
      Step s (.allocatePageTable pt)
        { paging, live := insert pt s.live, requests := Function.update s.requests pt [] }
  | allocateVirtualPage {s : Tables} {pt : BitVec 64} {request : PageRequest} {paging : Paging} :
      pt ∈ s.live →
      R5O5.allocateVirtualPage pt request.virtualPageNum request.perm s.paging = .ok paging →
      Step s (.allocateVirtualPage pt request)
        { paging
          live := s.live
          requests := Function.update s.requests pt (s.requests pt ++ [request]) }
  | store {s : Tables} {pt virtualAddress physicalAddress : BitVec 64} {byte : BitVec 8} :
      pt ∈ s.live →
      virtualToPhysical s.paging.mem pt virtualAddress = .ok physicalAddress →
      Step s (.store pt virtualAddress byte)
        { s with paging := { s.paging with mem := s.paging.mem.write physicalAddress byte } }
  | deallocatePageTable {s : Tables} {pt : BitVec 64} {paging : Paging} :
      pt ∈ s.live →
      R5O5.deallocatePageTable pt s.paging = .ok paging →
      Step s (.deallocatePageTable pt) { s with paging, live := s.live.erase pt }

/-- The operation takes only frames without valid entries for directories. -/
def TakesEmptyDirectories (s : Tables) : Op → Prop
  | .allocateVirtualPage pt request =>
      ∀ f ∈ directoryFrames s.paging pt request.virtualPageNum, EmptyDirectory s.paging.mem f
  | _ => True

/-- A step that takes only frames without valid entries for directories. -/
def CleanStep (s : Tables) (op : Op) (s' : Tables) : Prop :=
  Step s op s' ∧ TakesEmptyDirectories s op

/-- The root frames of the live page tables. -/
def roots (s : Tables) : Set (BitVec 64) :=
  (fun pt : BitVec 64 => pt >>> 12) '' (s.live : Set (BitVec 64))

/-- The frames reachable from live page tables. -/
def reachable (s : Tables) : Set (BitVec 64) :=
  {f | ∃ pt ∈ s.live, ∃ slots : List (Fin numPte), slots.length ≤ 3 ∧
    Forest.walk (child s.paging.mem) (pt >>> 12) slots = some f}

/-- The invariant of the runs. -/
structure Inv (K : KernelImage) (own : Places) (leaked : ℕ) (s : Tables) : Prop where
  paging : s.paging.Inv K s.roots own leaked
  aligned : ∀ {pt}, pt ∈ s.live → (pt >>> 12) <<< 12 = pt
  /-- The leaves of a table are at the requested pages. -/
  leaf_iff : ∀ {pt}, pt ∈ s.live → ∀ {slots}, slots.length = 3 →
    ((∃ f, own f = some (pt >>> 12, slots)) ↔
      ∃ request ∈ s.requests pt, vpnPath request.virtualPageNum = slots)

section Boot

variable {K : KernelImage} {mem : Mem}

theorem inv_boot : Inv K (fun _ => none) 0 (boot K mem) where
  paging := by
    have hroots : (boot K mem).roots = ∅ := by simp [roots, boot]
    rw [hroots]
    exact Paging.Inv.pageAllocInit
  aligned h := by simp [boot] at h
  leaf_iff h := by simp [boot] at h

end Boot

section Steps

variable {K : KernelImage} {own : Places} {leaked : ℕ} {s s' : Tables} {pt pt' : BitVec 64}

/-- Different page tables have different roots. -/
theorem Inv.shift_ne (h : Inv K own leaked s) (hpt : pt ∈ s.live) (hpt' : pt' ∈ s.live)
    (hne : pt' ≠ pt) : pt' >>> 12 ≠ pt >>> 12 := by
  intro heq
  rw [← h.aligned hpt, ← h.aligned hpt', heq] at hne
  exact hne rfl

/-- The root of a live page table. -/
theorem Inv.mem_roots (hpt : pt ∈ s.live) : pt >>> 12 ∈ s.roots := ⟨pt, hpt, rfl⟩

/-- A new page table has one frame. -/
theorem Inv.allocatePageTable (h : Inv K own leaked s) {paging : Paging}
    (hok : R5O5.allocatePageTable s.paging = .ok (pt, paging)) :
    ∃ g : BitVec 64, pt >>> 12 = g ∧ s.paging.alloc.freeList = g :: paging.alloc.freeList ∧
      Inv K (Function.update own g (some (g, []))) leaked
        { paging, live := insert pt s.live, requests := Function.update s.requests pt [] } ∧
      ∀ x : BitVec 64, x >>> 12 ≠ g → paging.mem x = s.paging.mem x := by
  -- the new root is the front of the free list, which nothing owned
  obtain ⟨g, rfl, hfree, hpaging, hmem⟩ := h.paging.allocatePageTable hok
  have hgfree : g ∈ s.paging.alloc.freeList := by simp [hfree]
  have hown := h.paging.ledger.own_of_free hgfree
  have hpage := page_shiftLeft (toNat_lt_of_managed (h.paging.ledger.managed_of_free hgfree))
  refine ⟨g, hpage, hfree, ?_, hmem⟩
  constructor
  case paging =>
    have hroots : insert g s.roots =
        (fun pt : BitVec 64 => pt >>> 12) ''
          ((insert (g <<< 12) s.live : Finset (BitVec 64)) : Set (BitVec 64)) := by
      rw [Finset.coe_insert, Set.image_insert_eq, hpage]
      rfl
    rw [hroots] at hpaging
    exact hpaging
  case aligned =>
    intro pt hpt
    rcases Finset.mem_insert.mp hpt with rfl | hpt
    · rw [hpage]
    · exact h.aligned hpt
  case leaf_iff =>
    intro pt hpt slots hslots
    by_cases heq : pt = g <<< 12
    · -- nothing was requested in the new table, and it has no other node than its root
      subst heq
      simp only [Function.update_self, List.not_mem_nil, false_and, exists_false, iff_false,
        hpage]
      rintro ⟨f, hf⟩
      rcases eq_or_ne f g with rfl | hne
      · rw [Function.update_self] at hf
        cases hf
        cases hslots
      · rw [Function.update_of_ne hne] at hf
        have hroot := h.paging.owned.own_root (h.paging.owned.mem_live hf)
        rw [hown] at hroot
        cases hroot
    · simp only [Function.update_of_ne heq]
      rw [← h.leaf_iff ((Finset.mem_insert.mp hpt).resolve_left heq) hslots]
      refine exists_congr fun f => ?_
      rcases eq_or_ne f g with rfl | hne
      · rw [Function.update_self, hown, iff_false_right (by simp)]
        intro hf
        cases hf
        cases hslots
      · rw [Function.update_of_ne hne]

/-- A requested page leaks one frame. -/
theorem Inv.allocateVirtualPage (h : Inv K own leaked s) (hpt : pt ∈ s.live)
    {request : PageRequest} {paging : Paging}
    (hempty : TakesEmptyDirectories s (.allocateVirtualPage pt request))
    (hok : R5O5.allocateVirtualPage pt request.virtualPageNum request.perm s.paging = .ok paging) :
    ∃ own', Inv K own' (leaked + 1)
        { paging
          live := s.live
          requests := Function.update s.requests pt (s.requests pt ++ [request]) } ∧
      Extension (pt >>> 12) (vpnPath request.virtualPageNum) own own' s.paging paging := by
  have hpt' := h.aligned hpt
  rw [TakesEmptyDirectories, ← hpt'] at hempty
  rw [← hpt'] at hok
  obtain ⟨own', f, -, hf, hpaging, hext⟩ :=
    h.paging.allocateVirtualPage (Inv.mem_roots hpt) hempty hok
  refine ⟨own', ⟨hpaging, h.aligned, ?_⟩, hext⟩
  intro pt' hlive slots hslots
  -- the leaves of this table are those before and the new one
  by_cases heq : pt' = pt
  · subst heq
    simp only [Function.update_self, List.mem_append, List.mem_singleton, or_and_right,
      exists_or, exists_eq_left]
    rw [← h.leaf_iff hlive hslots]
    constructor
    · rintro ⟨f', hf'⟩
      rcases hext.new hf' with hf' | ⟨-, -, hpre⟩
      · exact Or.inl ⟨f', hf'⟩
      · exact Or.inr (hpre.eq_of_length (by simp [hslots])).symm
    · rintro (⟨f', hf'⟩ | rfl)
      · exact ⟨f', hext.keeps hf'⟩
      · exact ⟨f, hf⟩
  · simp only [Function.update_of_ne heq]
    rw [← h.leaf_iff hlive hslots]
    refine exists_congr fun f' => ⟨fun hf' => ?_, hext.keeps⟩
    rcases hext.new hf' with hf' | ⟨-, hroot, -⟩
    · exact hf'
    · exact absurd hroot (h.shift_ne hpt hlive heq)

/-- The frame a virtual address of a live table is translated to is a leaf. -/
theorem Inv.virtualToPhysical (h : Inv K own leaked s) (hpt : pt ∈ s.live)
    {virtualAddress physicalAddress : BitVec 64}
    (hok : R5O5.virtualToPhysical s.paging.mem pt virtualAddress = .ok physicalAddress) :
    ∃ f, own f = some (pt >>> 12, path virtualAddress) ∧
      physicalAddress = f <<< 12 ||| getOffset virtualAddress := by
  rw [← h.aligned hpt] at hok
  cases hwalk : Forest.walk (child s.paging.mem) (pt >>> 12) (path virtualAddress) with
  | none =>
    rw [virtualToPhysical_of_not_allocated] at hok
    · cases hok
    · rw [isVirtualPageAllocated_eq, vpnPath_getVirtPage, hwalk]
      rfl
  | some f =>
    rw [virtualToPhysical_eq_ok hwalk] at hok
    cases hok
    exact ⟨f, (h.paging.owned.walk_eq_some_iff (mem_roots hpt) (by simp [path])).mp hwalk, rfl⟩

/-- A byte that is stored changes no table. -/
theorem Inv.store (h : Inv K own leaked s) (hpt : pt ∈ s.live)
    {virtualAddress physicalAddress : BitVec 64} {byte : BitVec 8}
    (hok : R5O5.virtualToPhysical s.paging.mem pt virtualAddress = .ok physicalAddress) :
    Inv K own leaked
      { s with paging := { s.paging with mem := s.paging.mem.write physicalAddress byte } } := by
  obtain ⟨f, hf, rfl⟩ := h.virtualToPhysical hpt hok
  have hpage : (f <<< 12 ||| getOffset virtualAddress) >>> 12 = f :=
    page_translated (h.paging.toNat_lt hf)
  refine { h with paging := h.paging.setMem ?_ }
  intro f' t p i hf' hp
  refine entry_congr (h.paging.toNat_lt hf') ?_
  rintro x rfl
  refine Mem.write_of_ne _ _ ?_
  rintro rfl
  -- the byte lies in a leaf, not in a directory
  rw [hpage, hf] at hf'
  cases hf'
  simp [path] at hp

/-- A page table that is deallocated is gone. -/
theorem Inv.deallocatePageTable (h : Inv K own leaked s) (hpt : pt ∈ s.live) {paging : Paging}
    (hok : R5O5.deallocatePageTable pt s.paging = .ok paging) :
    ∃ own', Inv K own' leaked { s with paging, live := s.live.erase pt } ∧
      Removal K (pt >>> 12) [] (fun x => x.1 = pt >>> 12) own own' s.paging paging := by
  obtain ⟨paging', own', hok', hpaging, hrem⟩ := h.paging.deallocatePageTable (Inv.mem_roots hpt)
  rw [h.aligned hpt, hok] at hok'
  cases hok'
  refine ⟨own', ⟨?_, fun hpt' => h.aligned (Finset.mem_of_mem_erase hpt'), ?_⟩, hrem⟩
  -- the root of the table is not that of another one
  · have hroots : s.roots \ {pt >>> 12} =
        (fun pt : BitVec 64 => pt >>> 12) ''
          ((s.live.erase pt : Finset (BitVec 64)) : Set (BitVec 64)) := by
      ext t
      constructor
      · rintro ⟨⟨pt', hpt', rfl⟩, hne⟩
        refine ⟨pt', Finset.mem_coe.mpr (Finset.mem_erase.mpr ⟨?_, hpt'⟩), rfl⟩
        rintro rfl
        exact hne rfl
      · rintro ⟨pt', hpt', rfl⟩
        obtain ⟨hne, hpt'⟩ := Finset.mem_erase.mp (Finset.mem_coe.mp hpt')
        exact ⟨⟨pt', hpt', rfl⟩, h.shift_ne hpt hpt' hne⟩
    rw [hroots] at hpaging
    exact hpaging
  · intro pt' hpt' slots hslots
    obtain ⟨hne, hpt'⟩ := Finset.mem_erase.mp hpt'
    simp only
    rw [← h.leaf_iff hpt' hslots]
    refine exists_congr fun f => ?_
    rw [hrem.own_iff]
    exact and_iff_left (h.shift_ne hpt hpt' hne)

/-- Every operation that takes only empty frames for directories keeps the invariant. -/
theorem Inv.step {op : Op} (h : Inv K own leaked s) (hstep : CleanStep s op s') :
    ∃ own', Inv K own' (leaked + if op.isAllocateVirtualPage then 1 else 0) s' := by
  obtain ⟨hstep, hempty⟩ := hstep
  cases hstep with
  | allocatePageTable hok =>
    obtain ⟨g, -, -, h', -⟩ := h.allocatePageTable hok
    exact ⟨_, h'⟩
  | allocateVirtualPage hpt hok =>
    obtain ⟨own', h', -⟩ := h.allocateVirtualPage hpt hempty hok
    exact ⟨own', h'⟩
  | store hpt hok => exact ⟨own, h.store hpt hok⟩
  | deallocatePageTable hpt hok =>
    obtain ⟨own', h', -⟩ := h.deallocatePageTable hpt hok
    exact ⟨own', h'⟩

end Steps

section Runs

variable {K : KernelImage} {mem : Mem} {ops : List Op} {s : Tables} {pt vpn : BitVec 64}

/-- The invariant holds after every run of such operations; one frame is lost for each page
requested. -/
theorem inv_of_trace (hrun : Trace CleanStep (boot K mem) ops s) :
    ∃ own, Inv K own (ops.countP Op.isAllocateVirtualPage) s := by
  refine hrun.invariant_of_labels
    (I := fun ops s => ∃ own, Inv K own (ops.countP Op.isAllocateVirtualPage) s)
    ⟨_, inv_boot⟩ ?_
  rintro ops s op s' ⟨own, h⟩ hstep
  rw [List.countP_append, List.countP_singleton]
  exact h.step hstep

/-- The software walk finds exactly the leaves of the forest. -/
theorem Inv.isVirtualPageAllocated_iff {own : Places} {leaked : ℕ} (h : Inv K own leaked s)
    (hpt : pt ∈ s.live) :
    isVirtualPageAllocated s.paging.mem pt vpn = true ↔
      ∃ request ∈ s.requests pt,
        request.virtualPageNum.toNat % 2 ^ 27 = vpn.toNat % 2 ^ 27 := by
  conv_lhs => rw [← h.aligned hpt]
  rw [R5O5.isVirtualPageAllocated_iff]
  simp only [h.paging.owned.walk_eq_some_iff (Inv.mem_roots hpt) (length_vpnPath.le),
    h.leaf_iff hpt length_vpnPath, vpnPath_eq_iff]

/-- When directories are taken from frames without valid entries, exactly the requested pages are
mapped, whatever is stored in them. -/
theorem isVirtualPageAllocated_iff_requested (hrun : Trace CleanStep (boot K mem) ops s)
    (hpt : pt ∈ s.live) :
    isVirtualPageAllocated s.paging.mem pt vpn = true ↔
      ∃ request ∈ s.requests pt,
        request.virtualPageNum.toNat % 2 ^ 27 = vpn.toNat % 2 ^ 27 := by
  obtain ⟨own, h⟩ := inv_of_trace hrun
  exact h.isVirtualPageAllocated_iff hpt

end Runs

/-! ## A recycled directory

A page table gets page 0, into which a byte with the valid flag is stored, and is deallocated. The
next page table gets page 0 too; the frame of the stored byte becomes one of its directories. -/

section Recycled

/-- A kernel that ends at `0x80010000`. -/
def sampleKernel : KernelImage := ⟨0x80010000, by decide⟩

/-- Memory filled with zeros. -/
@[irreducible]
def zeroMem : Mem := fun _ => 0

/-- The address of the first page table. -/
def sampleTable : BitVec 64 := 0x80010000

/-- Page 0, to be read and written. -/
def sampleRequest : PageRequest := ⟨0, ⟨true, true, false⟩⟩

/-- With the top page taken off the free stack. -/
def popPage (s : Paging) : Paging :=
  { s with alloc := { s.alloc with
      currFreePageNode := s.alloc.currFreePageNode + 1
      numFreePages := s.alloc.numFreePages - 1 } }

/-- The paging state after `allocateVirtualPage` for the sample request. -/
def afterRequest (s : Paging) : Paging :=
  (allocateVirtualPage sampleTable sampleRequest.virtualPageNum sampleRequest.perm s).getD s

/-- After the first `allocatePageTable`. -/
def created : Tables where
  paging := popPage (boot sampleKernel zeroMem).paging
  live := insert sampleTable (boot sampleKernel zeroMem).live
  requests := Function.update (boot sampleKernel zeroMem).requests sampleTable []

/-- After the first `allocateVirtualPage`. -/
def requested : Tables where
  paging := afterRequest created.paging
  live := created.live
  requests := Function.update created.requests sampleTable
    (created.requests sampleTable ++ [sampleRequest])

/-- After a byte has been stored at virtual address 8. -/
def stored (byte : BitVec 8) : Tables :=
  { requested with
    paging := { requested.paging with mem := requested.paging.mem.write 0x80014008 byte } }

/-- After `deallocatePageTable`. -/
def deallocated (byte : BitVec 8) : Tables :=
  { stored byte with
    paging := (deallocatePageTable sampleTable (stored byte).paging).getD (stored byte).paging
    live := (stored byte).live.erase sampleTable }

/-- After the second `allocatePageTable`. -/
def recreated (byte : BitVec 8) : Tables where
  paging := popPage (deallocated byte).paging
  live := insert sampleTable (deallocated byte).live
  requests := Function.update (deallocated byte).requests sampleTable []

/-- After the second `allocateVirtualPage`. -/
def recycled (byte : BitVec 8) : Tables where
  paging := afterRequest (recreated byte).paging
  live := (recreated byte).live
  requests := Function.update (recreated byte).requests sampleTable
    ((recreated byte).requests sampleTable ++ [sampleRequest])

/-- The operations of the run. -/
def recycling (byte : BitVec 8) : List Op :=
  [.allocatePageTable sampleTable, .allocateVirtualPage sampleTable sampleRequest,
    .store sampleTable 8 byte, .deallocatePageTable sampleTable, .allocatePageTable sampleTable,
    .allocateVirtualPage sampleTable sampleRequest]

theorem step_created : Step (boot sampleKernel zeroMem) (.allocatePageTable sampleTable) created :=
  have hclear : ∀ i, entry (boot sampleKernel zeroMem).paging.mem 0x80010 i &&& ~~~pteV =
      entry (boot sampleKernel zeroMem).paging.mem 0x80010 i := by decide +kernel
  .allocatePageTable (allocatePageTable_of_clear rfl hclear)

theorem step_requested :
    Step created (.allocateVirtualPage sampleTable sampleRequest) requested :=
  .allocateVirtualPage (by decide +kernel) (Except.eq_ok_getD _ (by decide +kernel))

theorem step_stored {byte : BitVec 8} : Step requested (.store sampleTable 8 byte) (stored byte) :=
  .store (by decide +kernel) (by decide +kernel)

/-- What the rest of the run computes. -/
def Recycles (byte : BitVec 8) : Prop :=
  (deallocatePageTable sampleTable (stored byte).paging).isOk = true ∧
    (∀ i, entry (deallocated byte).paging.mem 0x80010 i &&& ~~~pteV =
      entry (deallocated byte).paging.mem 0x80010 i) ∧
    (deallocated byte).paging.alloc.pages (deallocated byte).paging.alloc.currFreePageNode =
      0x80010 ∧
    (deallocated byte).paging.alloc.currFreePageNode < numPages ∧
    (deallocated byte).paging.alloc.numFreePages ≠ 0 ∧
    (allocateVirtualPage sampleTable 0 ⟨true, true, false⟩ (recreated byte).paging).isOk = true

instance (byte : BitVec 8) : Decidable (Recycles byte) := inferInstanceAs (Decidable (_ ∧ _))

section Steps

variable {byte : BitVec 8}

/-- The page table is deallocated. -/
theorem Recycles.step_deallocated (h : Recycles byte) :
    Step (stored byte) (.deallocatePageTable sampleTable) (deallocated byte) :=
  .deallocatePageTable (Finset.mem_insert_self ..) (Except.eq_ok_getD _ h.1)

/-- The table is built again on the page that was freed last. -/
theorem Recycles.step_recreated (h : Recycles byte) :
    Step (deallocated byte) (.allocatePageTable sampleTable) (recreated byte) := by
  obtain ⟨-, hclear, htop, hcurr, hnum, -⟩ := h
  have hpop : allocatePage (deallocated byte).paging.alloc =
      .ok (0x80010, (popPage (deallocated byte).paging).alloc) := by
    rw [allocatePage, if_neg hnum, if_pos hcurr, htop]
    rfl
  exact .allocatePageTable (allocatePageTable_of_clear hpop hclear)

/-- The page is requested again, in frames that were used. -/
theorem Recycles.step_recycled (h : Recycles byte) :
    Step (recreated byte) (.allocateVirtualPage sampleTable sampleRequest) (recycled byte) :=
  .allocateVirtualPage (Finset.mem_insert_self ..) (Except.eq_ok_getD _ h.2.2.2.2.2)

end Steps

/-- With the valid flag in the byte, the second page table has an entry too many. -/
theorem recycles_valid :
    Recycles 1 ∧ isVirtualPageAllocated (recycled 1).paging.mem sampleTable 1 = true := by
  decide +kernel

/-- Without it, the frames that become directories have no valid entries. -/
theorem recycles_invalid :
    (Recycles 2 ∧
      directoryFrames created.paging sampleTable 0 = [0x80012, 0x80013] ∧
      directoryFrames (recreated 2).paging sampleTable 0 = [0x80013, 0x80014]) ∧
    (EmptyDirectory created.paging.mem 0x80012 ∧ EmptyDirectory created.paging.mem 0x80013) ∧
    EmptyDirectory (recreated 2).paging.mem 0x80013 ∧
      EmptyDirectory (recreated 2).paging.mem 0x80014 := by
  decide +kernel

/-- A byte without the valid flag does not map a page: of the second page table page 0 is mapped,
and page 1 is not. -/
theorem isVirtualPageAllocated_recycled :
    Trace CleanStep (boot sampleKernel zeroMem) (recycling 2) (recycled 2) ∧
      isVirtualPageAllocated (recycled 2).paging.mem sampleTable 0 = true ∧
      isVirtualPageAllocated (recycled 2).paging.mem sampleTable 1 = false := by
  obtain ⟨⟨hrecycles, hframes, hframes'⟩, hempty, hempty'⟩ := recycles_invalid
  have hfirst : TakesEmptyDirectories created (.allocateVirtualPage sampleTable sampleRequest) := by
    change ∀ f ∈ directoryFrames created.paging sampleTable 0, _
    rw [hframes]
    simpa using hempty
  have hsecond : TakesEmptyDirectories (recreated 2)
      (.allocateVirtualPage sampleTable sampleRequest) := by
    change ∀ f ∈ directoryFrames (recreated 2).paging sampleTable 0, _
    rw [hframes']
    simpa using hempty'
  have hrun : Trace CleanStep (boot sampleKernel zeroMem) (recycling 2) (recycled 2) :=
    (((((Trace.refl.snoc ⟨step_created, trivial⟩).snoc ⟨step_requested, hfirst⟩).snoc
      ⟨step_stored, trivial⟩).snoc ⟨hrecycles.step_deallocated, trivial⟩).snoc
      ⟨hrecycles.step_recreated, trivial⟩).snoc ⟨hrecycles.step_recycled, hsecond⟩
  -- only page 0 has been requested since the table was allocated again
  have hlive : sampleTable ∈ (recycled 2).live := Finset.mem_insert_self ..
  have hrequests : (recycled 2).requests sampleTable = [sampleRequest] := by
    simp [recycled, recreated]
  refine ⟨hrun, (isVirtualPageAllocated_iff_requested hrun hlive).mpr ⟨sampleRequest, ?_, rfl⟩, ?_⟩
  · rw [hrequests]
    exact List.mem_cons_self
  · rw [Bool.eq_false_iff]
    intro hmapped
    obtain ⟨request, hmem, hvpn⟩ := (isVirtualPageAllocated_iff_requested hrun hlive).mp hmapped
    rw [hrequests, List.mem_singleton] at hmem
    subst hmem
    exact absurd hvpn (by decide)

/-- Page 1 of the second page table is mapped though only page 0 was requested. -/
theorem recycled_maps_page : Trace Step (boot sampleKernel zeroMem) (recycling 1) (recycled 1) ∧
    sampleTable ∈ (recycled 1).live ∧
    isVirtualPageAllocated (recycled 1).paging.mem sampleTable 1 = true ∧
    ¬∃ request ∈ (recycled 1).requests sampleTable,
      request.virtualPageNum.toNat % 2 ^ 27 = (1 : BitVec 64).toNat % 2 ^ 27 := by
  obtain ⟨hrecycles, hmapped⟩ := recycles_valid
  have hrun : Trace Step (boot sampleKernel zeroMem) (recycling 1) (recycled 1) :=
    (((((Trace.refl.snoc step_created).snoc step_requested).snoc step_stored).snoc
      hrecycles.step_deallocated).snoc hrecycles.step_recreated).snoc hrecycles.step_recycled
  refine ⟨hrun, Finset.mem_insert_self .., hmapped, ?_⟩
  simp [recycled, recreated, sampleRequest]

end Recycled

end Tables

end R5O5
