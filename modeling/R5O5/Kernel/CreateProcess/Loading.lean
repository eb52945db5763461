import R5O5.Kernel.CreateProcess
import R5O5.Kernel.Paging.AddressSpace
import R5O5.Kernel.Paging.Demand

/-!
# What the program loader leaves in memory

The loader fills the address space of a new page table: first the pages of the segments with their
bytes from the disk, then two pages for the stack. The results are about successful calls, over any
address spaces of the other page tables.

## Main definitions

- `Elfread.pages`, `loadBytes`: the pages and the bytes of one segment;
- `programPages`, `programImage`, `stackBegin`: the same for a list of segments.

## Main results

- `Accounted.allocateBytes_cases`: the loop over the bytes of a segment, with or without enough
  free frames;
- `Refines.loadSegment`, `Refines.loadSegments`: one segment and a list of them;
- `Refines.programLoader`: the whole program.
-/

namespace R5O5

/-- The pages of a segment. -/
def Elfread.pages (seg : Elfread) : Finset ℕ :=
  ((List.range seg.memsz.toNat).map fun i =>
    (seg.vaddr.toNat + i) / pgsize % 2 ^ 27).toFinset

/-- The bytes of an address space after `count` bytes of the disk, from position `pos` on, are
stored at the addresses from `vaddr` on, in order. -/
def loadBytes (disk : ℕ → BitVec 8) (pos vaddr count : ℕ) (bytes : ℕ → BitVec 8) : ℕ → BitVec 8 :=
  (List.range count).foldl
    (fun bytes i => Function.update bytes ((vaddr + i) % 2 ^ 39) (disk (pos + i))) bytes

/-- The position on the disk of the contents of a segment. -/
def Program.segmentPos (program : Program) (seg : Elfread) : ℕ :=
  program.startBlock.toNat * bsize + (program.startOffset + seg.off).toNat

/-- The contents of a segment lie on the disk; those of an empty one start there. -/
def Program.ContentsOnDisk (program : Program) (seg : Elfread) : Prop :=
  program.segmentPos seg < diskSize * bsize ∧
    program.segmentPos seg + seg.filesz.toNat ≤ diskSize * bsize

instance (program : Program) (seg : Elfread) : Decidable (program.ContentsOnDisk seg) :=
  inferInstanceAs (Decidable (_ ∧ _))

/-- The bytes of an address space after a segment is loaded. -/
def Program.loadImage (program : Program) (disk : ℕ → BitVec 8) (bytes : ℕ → BitVec 8)
    (seg : Elfread) : ℕ → BitVec 8 :=
  loadBytes disk (program.segmentPos seg) seg.vaddr.toNat seg.filesz.toNat bytes

/-- `stackBeginVirtPage` after a segment. -/
def stackAfter (stackBeginVirtPage : BitVec 64) (seg : Elfread) : BitVec 64 :=
  max stackBeginVirtPage (ceilDiv (seg.vaddr + seg.memsz) (BitVec.ofNat 64 pgsize))

/-- The page where the stack begins. -/
def stackBegin (segs : List Elfread) : BitVec 64 := segs.foldl stackAfter 0

/-- The two pages of the stack. -/
def stackPages (segs : List Elfread) : Finset ℕ :=
  {(stackBegin segs).toNat % 2 ^ 27, (stackBegin segs + 1).toNat % 2 ^ 27}

/-- The pages of a program. -/
def programPages (segs : List Elfread) : Finset ℕ :=
  segs.foldl (fun pages seg => pages ∪ seg.pages) ∅ ∪ stackPages segs

/-- The bytes of a program: zeros, overwritten by one segment after the other. -/
def programImage (program : Program) (disk : ℕ → BitVec 8) (segs : List Elfread) : ℕ → BitVec 8 :=
  segs.foldl (program.loadImage disk) fun _ => 0

section Definitions

variable {seg : Elfread} {segs : List Elfread} {n : ℕ}

/-- The pages of a segment are those of its bytes in memory. -/
theorem Elfread.mem_pages : n ∈ seg.pages ↔
    ∃ i < seg.memsz.toNat, n = (seg.vaddr.toNat + i) / pgsize % 2 ^ 27 := by
  simp only [Elfread.pages, List.mem_toFinset, List.mem_map, List.mem_range, eq_comm]

/-- The last byte of a segment is loaded last. -/
theorem loadBytes_succ (disk bytes : ℕ → BitVec 8) (pos vaddr count : ℕ) :
    loadBytes disk pos vaddr (count + 1) bytes =
      Function.update (loadBytes disk pos vaddr count bytes) ((vaddr + count) % 2 ^ 39)
        (disk (pos + count)) := by
  rw [loadBytes, List.range_succ, List.foldl_append]
  rfl

theorem getVirtPage_add (vaddr : BitVec 64) (i : ℕ) :
    (getVirtPage (vaddr + BitVec.ofNat 64 i)).toNat = (vaddr.toNat + i) / pgsize % 2 ^ 27 := by
  rw [toNat_getVirtPage, BitVec.toNat_add, BitVec.toNat_ofNat, pgsize]
  omega

theorem spaceAddr_add (vaddr : BitVec 64) (i : ℕ) :
    spaceAddr (vaddr + BitVec.ofNat 64 i) = (vaddr.toNat + i) % 2 ^ 39 := by
  rw [spaceAddr, BitVec.toNat_add, BitVec.toNat_ofNat]
  omega

/-- The block and the offset in it that the loader computes are the position of the segment. -/
theorem Program.segmentPos_eq (program : Program) (seg : Elfread)
    (hstart : program.startBlock.toNat < diskSize) :
    program.segmentPos seg =
      (program.startBlock + (seg.off + program.startOffset) / BitVec.ofNat 64 bsize).toNat * bsize +
        ((seg.off + program.startOffset) % BitVec.ofNat 64 bsize).toNat := by
  rw [Program.segmentPos, BitVec.add_comm seg.off]
  generalize program.startOffset + seg.off = off
  have hoff := off.isLt
  rw [BitVec.toNat_add, BitVec.toNat_umod, BitVec.toNat_udiv, toNat_bsize]
  simp only [bsize, diskSize] at hstart ⊢
  omega

end Definitions

namespace Refines

variable {K : KernelImage} {spaces : BitVec 64 → Option Space} {s s' : Paging} {A : Space}
  {t : BitVec 64} {wild : Wild} {program : Program} {io io' : CachedDisk} {seg : Elfread}

/-- Every byte of a segment gets its page. -/
theorem allocateBytes (h : Refines K spaces s) (ht : spaces t = some A) {vaddr : BitVec 64} {n : ℕ}
    (hok : (List.range n).foldlM (allocateByte (t <<< 12) vaddr) s = .ok s') :
    ∃ A' : Space, Refines K (Function.update spaces t (some A')) s' ∧ A'.bytes = A.bytes ∧
      A'.pages = A.pages ∪
        ((List.range n).map fun i => (vaddr.toNat + i) / pgsize % 2 ^ 27).toFinset := by
  -- after some bytes their pages are mapped, and nothing else has changed
  refine Except.foldlM_invariant (P := fun done s => ∃ A' : Space,
    Refines K (Function.update spaces t (some A')) s ∧ A'.bytes = A.bytes ∧
      A'.pages = A.pages ∪ (done.map fun i => (vaddr.toNat + i) / pgsize % 2 ^ 27).toFinset)
    ?_ ?_ hok
  · exact ⟨A, by rwa [Function.update_eq_self_iff.mpr ht.symm], rfl, by simp⟩
  · rintro done i rest s s' - ⟨A', h', hbytes, hpages⟩ hround
    have ht' : Function.update spaces t (some A') t = some A' := Function.update_self ..
    have hpage : (getVirtPage (vaddr + BitVec.ofNat 64 i)).toNat % 2 ^ 27 =
        (vaddr.toNat + i) / pgsize % 2 ^ 27 := by
      rw [getVirtPage_add, Nat.mod_mod]
    have hunion : A.pages ∪ ((done ++ [i]).map fun i =>
        (vaddr.toNat + i) / pgsize % 2 ^ 27).toFinset =
          insert ((vaddr.toNat + i) / pgsize % 2 ^ 27) A'.pages := by
      rw [hpages, List.map_append, List.toFinset_append, ← Finset.union_assoc, Finset.union_comm]
      rfl
    rw [hunion]
    rw [allocateByte] at hround
    split at hround
    case isTrue hnot =>
      obtain ⟨-, hmap⟩ := h'.allocateVirtualPage ht' hround
      rw [hpage, Function.update_idem] at hmap
      exact ⟨_, hmap, hbytes, rfl⟩
    -- the page was mapped for an earlier byte
    case isFalse hallocated =>
      cases hround
      rw [Bool.not_eq_true', Bool.not_eq_false, h'.isVirtualPageAllocated_iff ht', hpage]
        at hallocated
      exact ⟨A', h', hbytes, (Finset.insert_eq_of_mem hallocated).symm⟩

/-- The copied bytes go to the addresses of the space one after the other; the copy stops behind the
disk or at an address that is not mapped. -/
theorem readBytesVirtual_cases (h : Refines K spaces s) (ht : spaces t = some A) (hs : Settled io)
    {diskBlockNum offset : BitVec 64} (hoffset : offset.toNat ≤ bsize)
    (hblock : diskBlockNum.toNat < diskSize) (wild : Wild) (vaddr nBytes : BitVec 64) :
    (∃ io' mem, R5O5.readBytesVirtual wild diskBlockNum offset nBytes vaddr (t <<< 12) io s.mem =
        .ok (io', mem) ∧
      diskBlockNum.toNat * bsize + offset.toNat + nBytes.toNat ≤ diskSize * bsize ∧
      Settled io' ∧ io'.disk = io.disk ∧
      ∃ A' : Space, Refines K (Function.update spaces t (some A')) { s with mem } ∧
        A'.pages = A.pages ∧
        A'.bytes = loadBytes io.disk (diskBlockNum.toNat * bsize + offset.toNat) vaddr.toNat
          nBytes.toNat A.bytes) ∨
    (R5O5.readBytesVirtual wild diskBlockNum offset nBytes vaddr (t <<< 12) io s.mem =
        .error (.error "readBytesVirtual: block exceeds disk size") ∧
      diskSize * bsize < diskBlockNum.toNat * bsize + offset.toNat + nBytes.toNat) ∨
    (R5O5.readBytesVirtual wild diskBlockNum offset nBytes vaddr (t <<< 12) io s.mem =
        .error (.error "virtualToPhysical: virtual address not valid") ∧
      ∃ i < nBytes.toNat, (vaddr.toNat + i) / pgsize % 2 ^ 27 ∉ A.pages) := by
  let start := diskBlockNum.toNat * bsize + offset.toNat
  -- after `k` bytes the space holds the first `k` bytes of the disk range
  let J (k : ℕ) (mem : Mem) : Prop :=
    ∃ A' : Space, Refines K (Function.update spaces t (some A')) { s with mem } ∧
      A'.pages = A.pages ∧ A'.bytes = loadBytes io.disk start vaddr.toNat k A.bytes
  let E (e : Stop) : Prop := e = .error "virtualToPhysical: virtual address not valid" ∧
    ∃ i < nBytes.toNat, (vaddr.toNat + i) / pgsize % 2 ^ 27 ∉ A.pages
  have hbyte : StoresByte vaddr (t <<< 12) io.disk start nBytes.toNat J E := by
    rintro k hlt mem₁ ⟨A₁, h₁, hpages, hbytes⟩
    have ht₁ : Function.update spaces t (some A₁) t = some A₁ := Function.update_self ..
    rcases h₁.virtualToPhysical_cases ht₁ (vaddr + BitVec.ofNat 64 k) with
      ⟨-, physicaladdr, hphys⟩ | ⟨hnot, hphys⟩
    · obtain ⟨hmapped, hstore⟩ := h₁.store ht₁ hphys (io.disk (start + k))
      rw [Function.update_idem] at hstore
      refine Or.inl ⟨physicaladdr, hphys, _, hstore, hpages, ?_⟩
      show Function.update A₁.bytes _ _ = _
      rw [loadBytes_succ, hbytes, spaceAddr_add]
    · refine Or.inr ⟨_, hphys, rfl, k, hlt, ?_⟩
      rwa [spaceAddr_div, getVirtPage_add, hpages] at hnot
  have hinit : J 0 s.mem := ⟨A, by rwa [Function.update_eq_self_iff.mpr ht.symm], rfl, rfl⟩
  rcases readBytesVirtual_rule hs hoffset hblock wild hinit hbyte with
    ⟨io₁, mem₁, hok, hle, hsettled, hdisk, hJ⟩ | herr | ⟨e, herr, rfl, hunmapped⟩
  · exact Or.inl ⟨io₁, mem₁, hok, hle, hsettled, hdisk, hJ⟩
  · exact Or.inr (Or.inl herr)
  · exact Or.inr (Or.inr ⟨herr, hunmapped⟩)

/-- What a copy that returns has done. -/
theorem readBytesVirtual (h : Refines K spaces s) (ht : spaces t = some A) (hs : Settled io)
    {diskBlockNum offset nBytes vaddr : BitVec 64} {mem : Mem} (hoffset : offset.toNat ≤ bsize)
    (hok : R5O5.readBytesVirtual wild diskBlockNum offset nBytes vaddr (t <<< 12) io s.mem =
      .ok (io', mem)) :
    Settled io' ∧ io'.disk = io.disk ∧
      ∃ A' : Space, Refines K (Function.update spaces t (some A')) { s with mem } ∧
        A'.pages = A.pages ∧
        A'.bytes = loadBytes io.disk (diskBlockNum.toNat * bsize + offset.toNat) vaddr.toNat
          nBytes.toNat A.bytes := by
  -- a call that returns has opened its first block
  have hblock : diskBlockNum.toNat < diskSize := by
    by_contra hge
    rw [R5O5.readBytesVirtual, copyBytes, openBlock_of_ge (Nat.le_of_not_lt hge)] at hok
    cases hok
  rcases h.readBytesVirtual_cases ht hs hoffset hblock wild vaddr nBytes with
    ⟨io₁, mem₁, hres, -, hend⟩ | ⟨herr, -⟩ | ⟨herr, -⟩
  · rw [hres] at hok
    cases hok
    exact hend
  · rw [herr] at hok
    cases hok
  · rw [herr] at hok
    cases hok

/-- One segment is loaded. -/
theorem loadSegment (h : Refines K spaces s) (ht : spaces t = some A) (hs : Settled io)
    (hstart : program.startBlock.toNat < diskSize)
    (hok : R5O5.loadSegment wild program.startBlock program.startOffset (t <<< 12) seg io s =
      .ok (io', s')) :
    Settled io' ∧ io'.disk = io.disk ∧
      ∃ A' : Space, Refines K (Function.update spaces t (some A')) s' ∧
        A'.pages = A.pages ∪ seg.pages ∧ A'.bytes = program.loadImage io.disk A.bytes seg := by
  obtain ⟨s₁, halloc, hrest⟩ := Except.bind_eq_ok.mp hok
  obtain ⟨⟨io₁, mem⟩, hread, hend⟩ := Except.bind_eq_ok.mp hrest
  cases hend
  obtain ⟨A₁, h₁, hbytes₁, hpages₁⟩ := h.allocateBytes ht halloc
  have ht₁ : Function.update spaces t (some A₁) t = some A₁ := Function.update_self ..
  have hoffset : ((seg.off + program.startOffset) % BitVec.ofNat 64 bsize).toNat ≤ bsize :=
    Nat.le_of_lt (toNat_mod_bsize_lt _)
  obtain ⟨hs', hdisk, A', h', hpages', hbytes'⟩ := h₁.readBytesVirtual ht₁ hs hoffset hread
  rw [Function.update_idem] at h'
  refine ⟨hs', hdisk, A', h', by rw [hpages', hpages₁]; rfl, ?_⟩
  rw [hbytes', hbytes₁, Program.loadImage, program.segmentPos_eq seg hstart]

/-- The loop over the list of segments. -/
theorem loadSegments (h : Refines K spaces s) (ht : spaces t = some A) (hs : Settled io)
    (hstart : program.startBlock.toNat < diskSize) {elfNodes : ElfNodes} {fuel : ℕ}
    {ptr : ElfreadPtr} {nodes : List (Fin elfSize)} {stack stack' : BitVec 64}
    (hlist : LinkedList.IsList (fun i => (elfNodes i).next) ptr nodes)
    (hok : R5O5.loadSegments wild program.startBlock program.startOffset (t <<< 12) elfNodes fuel
      ptr (io, s, stack) = .ok (io', s', stack')) :
    Settled io' ∧ io'.disk = io.disk ∧ stack' = (nodes.map elfNodes).foldl stackAfter stack ∧
      ∃ A' : Space, Refines K (Function.update spaces t (some A')) s' ∧
        A'.pages = (nodes.map elfNodes).foldl (fun pages seg => pages ∪ seg.pages) A.pages ∧
        A'.bytes = (nodes.map elfNodes).foldl (program.loadImage io.disk) A.bytes := by
  -- the list ends before the fuel, since the call returns
  induction nodes generalizing A fuel ptr s io stack spaces with
  | nil =>
    obtain rfl : ptr = none := hlist
    cases fuel <;>
    · cases hok
      exact ⟨hs, rfl, rfl, A, by rwa [Function.update_eq_self_iff.mpr ht.symm], rfl, rfl⟩
  | cons n nodes ih =>
    obtain ⟨rfl, hrest⟩ := hlist
    cases fuel with
    | zero => cases hok
    | succ fuel =>
      obtain ⟨⟨io₁, s₁⟩, hsegment, hloop⟩ := Except.bind_eq_ok.mp hok
      obtain ⟨hs₁, hdisk₁, A₁, h₁, hpages₁, hbytes₁⟩ := h.loadSegment ht hs hstart hsegment
      have ht₁ : Function.update spaces t (some A₁) t = some A₁ := Function.update_self ..
      obtain ⟨hs', hdisk', hstack, A', h', hpages', hbytes'⟩ := ih h₁ ht₁ hs₁ hrest hloop
      rw [Function.update_idem] at h'
      rw [hpages₁] at hpages'
      rw [hbytes₁, hdisk₁] at hbytes'
      exact ⟨hs', hdisk'.trans hdisk₁, hstack, A', h', hpages', hbytes'⟩

end Refines

/-- The loop over the bytes of a segment ends with all its pages, or without free frames. -/
theorem Accounted.allocateBytes_cases {K : KernelImage} {spaces : BitVec 64 → Option Space}
    {s : Paging} {A : Space} {t : BitVec 64} (h : Accounted K spaces s) (ht : spaces t = some A)
    (vaddr : BitVec 64) (n : ℕ) :
    (∃ (s' : Paging) (A' : Space),
      (List.range n).foldlM (allocateByte (t <<< 12) vaddr) s = .ok s' ∧
      Accounted K (Function.update spaces t (some A')) s' ∧ A'.bytes = A.bytes ∧
      A'.pages = A.pages ∪
        ((List.range n).map fun i => (vaddr.toNat + i) / pgsize % 2 ^ 27).toFinset ∧
      s.alloc.numFreePages + frameDemand A.pages =
        s'.alloc.numFreePages + frameDemand A'.pages) ∨
    ((List.range n).foldlM (allocateByte (t <<< 12) vaddr) s =
        .error (.error "allocatePage: No Free Page") ∧
      s.alloc.numFreePages + frameDemand A.pages < frameDemand (A.pages ∪
        ((List.range n).map fun i => (vaddr.toNat + i) / pgsize % 2 ^ 27).toFinset)) := by
  induction n with
  | zero =>
    refine Or.inl ⟨s, A, rfl, ?_, rfl, by simp, rfl⟩
    rwa [Function.update_eq_self_iff.mpr ht.symm]
  | succ n ih =>
    have hpages : A.pages ∪ ((List.range (n + 1)).map fun i =>
        (vaddr.toNat + i) / pgsize % 2 ^ 27).toFinset =
          insert ((vaddr.toNat + n) / pgsize % 2 ^ 27) (A.pages ∪
            ((List.range n).map fun i => (vaddr.toNat + i) / pgsize % 2 ^ 27).toFinset) := by
      rw [List.range_succ, List.map_append, List.toFinset_append, ← Finset.union_assoc,
        Finset.union_comm]
      rfl
    rw [List.range_succ, List.foldlM_append, ← List.range_succ, hpages]
    rcases ih with ⟨s₁, A₁, hok, h₁, hbytes, hpages₁, hcount⟩ | ⟨herr, hlt⟩
    case inr =>
      rw [herr, Except.error_bind]
      exact Or.inr ⟨rfl, hlt.trans_le (frameDemand_mono (Finset.subset_insert ..))⟩
    have hlast : ∀ s₁, [n].foldlM (allocateByte (t <<< 12) vaddr) s₁ =
        allocateByte (t <<< 12) vaddr s₁ n := fun s₁ => bind_pure _
    rw [hok, Except.ok_bind, hlast, ← hpages₁]
    have ht₁ : Function.update spaces t (some A₁) t = some A₁ := Function.update_self ..
    have hpage : (getVirtPage (vaddr + BitVec.ofNat 64 n)).toNat % 2 ^ 27 =
        (vaddr.toNat + n) / pgsize % 2 ^ 27 := by
      rw [getVirtPage_add, Nat.mod_mod]
    have hmapped : isVirtualPageAllocated s₁.mem (t <<< 12)
        (getVirtPage (vaddr + BitVec.ofNat 64 n)) = true ↔
          (vaddr.toNat + n) / pgsize % 2 ^ 27 ∈ A₁.pages := by
      rw [h₁.isVirtualPageAllocated_iff ht₁, hpage]
    rw [allocateByte]
    by_cases hmem : (vaddr.toNat + n) / pgsize % 2 ^ 27 ∈ A₁.pages
    · -- the page is there for an earlier byte
      rw [hmapped.mpr hmem]
      refine Or.inl ⟨s₁, A₁, rfl, h₁, hbytes, ?_, hcount⟩
      exact (Finset.insert_eq_of_mem hmem).symm
    · rw [Bool.eq_false_iff.mpr fun heq => hmem (hmapped.mp heq), Bool.not_false, if_pos rfl]
      rcases h₁.allocateVirtualPage_cases ht₁ (getVirtPage (vaddr + BitVec.ofNat 64 n))
          allPermissions with ⟨-, s₂, hok₂, h₂, hcount₂⟩ | ⟨-, herr, hlt⟩ | ⟨hin, -⟩
      · rw [hpage] at h₂ hcount₂
        rw [Function.update_idem] at h₂
        exact Or.inl ⟨s₂, _, hok₂, h₂, hbytes, rfl, hcount.trans hcount₂⟩
      · rw [hpage] at hlt
        exact Or.inr ⟨herr, by omega⟩
      · rw [hpage] at hin
        exact absurd hin hmem

/-! ## The whole program -/

/-- The fields of the descriptor that the loader fills in. -/
def loadedDescriptor (d : ProcessDescriptor) (entry pagetable : BitVec 64) (segs : List Elfread) :
    ProcessDescriptor :=
  { d with
    sa :=
      { reg := Function.update d.sa.reg spIndex
          ((stackBegin segs <<< 12) + 2 * BitVec.ofNat 64 pgsize)
        epc := entry
        satp := pagetable } }

section Loader

variable {K : KernelImage} {spaces : BitVec 64 → Option Space} {wild : Wild} {program : Program}
  {pid : Pid} {k k' : Kernel}

/-- A program that is loaded has a list of segments, and a new page table carries its pages and
bytes. -/
theorem programLoader_spec (h : Refines K spaces k.paging) (hs : Settled k.io)
    (hok : programLoader wild program pid k = .ok (true, k')) :
    ∃ elfRead io elfNodes nodes,
      elfReader wild program.startBlock program.startOffset program.endBlock program.endOffset k.io
        k.elfNodes = .ok (elfRead, io, elfNodes) ∧
      elfRead.nodes elfNodes = some nodes ∧
      Settled k'.io ∧ k'.io.disk = k.io.disk ∧
      ∃ (t : BitVec 64) (A : Space), spaces t = none ∧
        Refines K (Function.update spaces t (some A)) k'.paging ∧
        A.pages = programPages (nodes.map elfNodes) ∧
        A.bytes = programImage program k.io.disk (nodes.map elfNodes) ∧
        k'.table = k.table.modify pid fun d =>
          loadedDescriptor d elfRead.entry (t <<< 12) (nodes.map elfNodes) := by
  obtain ⟨elfRead, io, elfNodes, pagetable, s₁, io₂, s₂, stack, s₃, s₄, helf, hhead, htable, hload,
    hstack₁, hstack₂, rfl⟩ := programLoader_eq_ok hok
  obtain ⟨hio, hdisk, hstart, nodes, hlist, hlength⟩ := elfReader_spec hs helf
  refine ⟨elfRead, io, elfNodes, nodes, helf, hlist.toList_eq hlength, ?_⟩
  -- the page table, the segments and the two pages of the stack
  obtain ⟨t, rfl, hnone, h₁⟩ := h.allocatePageTable htable
  have ht : ∀ A : Space, Function.update spaces t (some A) t = some A :=
    fun A => Function.update_self ..
  obtain ⟨hs', hdisk', rfl, A₂, h₂, hpages₂, hbytes₂⟩ :=
    h₁.loadSegments (ht _) hio (hstart hhead) hlist hload
  rw [Function.update_idem] at h₂
  obtain ⟨-, h₃⟩ := h₂.allocateVirtualPage (ht _) hstack₁
  rw [Function.update_idem] at h₃
  obtain ⟨-, h₄⟩ := h₃.allocateVirtualPage (ht _) hstack₂
  rw [Function.update_idem] at h₄
  refine ⟨hs', hdisk'.trans hdisk, t, _, hnone, h₄, ?_, ?_, rfl⟩
  · show insert _ (insert _ A₂.pages) = _
    rw [hpages₂]
    ext n
    simp only [programPages, stackPages, stackBegin, AddressSpace.empty, Finset.mem_insert,
      Finset.mem_union, Finset.mem_singleton]
    tauto
  · show A₂.bytes = _
    rw [hbytes₂, ← hdisk]
    rfl

end Loader

end R5O5
