import R5O5.Kernel.Buffer.FlatDisk
import R5O5.Kernel.CreateProcess.Loading
import R5O5.Kernel.Paging.Runs
import R5O5.Lib.Trace

/-!
# The memory images of processes

Any sequence of successful `createProcess` calls after boot, with no page ever being deallocated.

## Main definitions

- `Processes.Step`: one call, which records the process with the list of segments read for it;
- `Created.Loaded`: the memory of a process is its program.

## Main results

- `Processes.loaded_of_trace`: the memory of every process is its program, and later calls change
  neither it nor the descriptor.
-/

namespace R5O5

/-! ## Runs -/

/-- A process that was created: its program and number, and what `elfReader` read for it. -/
structure Created where
  program : Program
  pid : Pid
  entry : BitVec 64
  segments : List Elfread

/-- The kernel with the processes created so far. -/
structure Processes where
  kernel : Kernel
  created : List Created

/-- The memory of the process is its program: what is read through its page table are the pages and
bytes of the segments and the stack. -/
structure Created.Loaded (p : Created) (disk : ℕ → BitVec 8) (k : Kernel) : Prop where
  mapped_iff : ∀ virtualAddress,
    (∃ physicalAddress, virtualToPhysical k.paging.mem (k.table.pd p.pid).sa.satp virtualAddress =
      .ok physicalAddress) ↔ spaceAddr virtualAddress / pgsize ∈ programPages p.segments
  image : ∀ virtualAddress physicalAddress,
    virtualToPhysical k.paging.mem (k.table.pd p.pid).sa.satp virtualAddress = .ok physicalAddress →
      k.paging.mem physicalAddress =
        programImage p.program disk p.segments (spaceAddr virtualAddress)
  epc : (k.table.pd p.pid).sa.epc = p.entry

namespace Processes

/-- The state after `binit`, `pageAllocInit` and `procesDescriptorInit`. -/
def boot (K : KernelImage) (links : Ring.Links BufRef) (disk : ℕ → BitVec 8) (mem : Mem)
    (elfNodes : ElfNodes) (table : ProcessTable) : Processes where
  kernel :=
    { io := { cache := binit (zeroCache links), disk }
      paging := { alloc := pageAllocInit K, mem }
      elfNodes
      table := procesDescriptorInit table }
  created := []

/-- A successful call of `createProcess`. -/
inductive Step (wild : Wild) : Processes → Program → Processes → Prop
  | createProcess {s : Processes} {program : Program} {pid : Pid} {kernel : Kernel}
      {elfRead : ElfreadList} {io : CachedDisk} {elfNodes : ElfNodes} {nodes : List (Fin elfSize)} :
      R5O5.createProcess wild program s.kernel = .ok (pid, kernel) →
      elfReader wild program.startBlock program.startOffset program.endBlock program.endOffset
        s.kernel.io s.kernel.elfNodes = .ok (elfRead, io, elfNodes) →
      elfRead.nodes elfNodes = some nodes →
      Step wild s program
        { kernel
          created := s.created ++ [⟨program, pid, elfRead.entry, nodes.map elfNodes⟩] }

/-- The invariant of the runs, over the address spaces of the page tables. -/
structure Inv (K : KernelImage) (disk : ℕ → BitVec 8) (spaces : BitVec 64 → Option Space)
    (s : Processes) : Prop where
  refines : Refines K spaces s.kernel.paging
  settled : Settled s.kernel.io
  medium : s.kernel.io.disk = disk
  /-- The slot of a process is in use, and its table carries its program. -/
  loaded : ∀ p ∈ s.created, (s.kernel.table.pd p.pid).slotAllocated = true ∧
    (s.kernel.table.pd p.pid).sa.epc = p.entry ∧
    ∃ (t : BitVec 64) (A : Space), (s.kernel.table.pd p.pid).sa.satp = t <<< 12 ∧
      spaces t = some A ∧ A.pages = programPages p.segments ∧
      A.bytes = programImage p.program disk p.segments

section Runs

variable {K : KernelImage} {links : Ring.Links BufRef} {disk : ℕ → BitVec 8} {mem : Mem}
  {elfNodes : ElfNodes} {table : ProcessTable} {wild : Wild} {s s' : Processes} {program : Program}
  {programs : List Program} {spaces : BitVec 64 → Option Space} {p : Created}

/-- Between two calls no buffer is held. -/
theorem settled_binit : Settled { cache := binit (zeroCache links), disk } where
  cache := ⟨_, Session.inv_binit⟩
  refcnt _ _ := rfl
  coherent _ _ h := by cases h

theorem inv_boot (hzero : ∀ x : BitVec 64, x >>> 12 ∈ managed K → mem x = 0) :
    Inv K disk (fun _ => none) (boot K links disk mem elfNodes table) where
  refines := .pageAllocInit hzero
  settled := settled_binit
  medium := rfl
  loaded _ hp := absurd hp List.not_mem_nil

/-- A call leaves the slots and the address spaces of earlier processes alone. -/
theorem Inv.step (h : Inv K disk spaces s) (hstep : Step wild s program s') :
    ∃ spaces', Inv K disk spaces' s' ∧ s.created ⊆ s'.created ∧
      ∀ p ∈ s.created, s'.kernel.table.pd p.pid = s.kernel.table.pd p.pid := by
  cases hstep with
  | @createProcess pid kernel elfRead io elfNodes nodes hok helf hnodes =>
    obtain ⟨hfree, k₁, hload, rfl⟩ := createProcess_eq_ok hok
    obtain ⟨elfRead', io', elfNodes', nodes', helf', hnodes', hsettled, hdisk, t, A, hnone,
      hrefines, hpages, hbytes, htable⟩ := programLoader_spec h.refines h.settled hload
    rw [helf] at helf'
    cases helf'
    rw [hnodes] at hnodes'
    cases hnodes'
    -- the slot of a created process is taken, so another one is filled
    have hother : ∀ q ∈ s.created,
        (k₁.modifyPd pid newDescriptor).table.pd q.pid = s.kernel.table.pd q.pid := by
      intro q hq
      have hne : q.pid ≠ pid := by
        intro heq
        have hallocated := (h.loaded q hq).1
        rw [heq, hfree] at hallocated
        cases hallocated
      rw [Kernel.modifyPd, htable, ProcessTable.modify_modify]
      exact Function.update_of_ne hne ..
    refine ⟨Function.update spaces t (some A), ?_, List.subset_append_left .., hother⟩
    constructor
    case refines => exact hrefines
    case settled => exact hsettled
    case medium => exact hdisk.trans h.medium
    case loaded =>
      intro q hq
      rcases List.mem_append.mp hq with hq | hq
      · rw [hother q hq]
        obtain ⟨hallocated, hepc, t', A', hsatp, hspace, hcontents⟩ := h.loaded q hq
        refine ⟨hallocated, hepc, t', A', hsatp, ?_, hcontents⟩
        -- the new table is not that of an earlier process
        rw [Function.update_of_ne]
        · exact hspace
        · rintro rfl
          rw [hnone] at hspace
          cases hspace
      · rw [List.mem_singleton] at hq
        subst hq
        have hpd : (k₁.modifyPd pid newDescriptor).table.pd pid = newDescriptor
            (loadedDescriptor (s.kernel.table.pd pid) elfRead.entry (t <<< 12)
              (nodes.map elfNodes)) := by
          rw [Kernel.modifyPd, htable, ProcessTable.modify_modify]
          exact Function.update_self ..
        simp only [hpd]
        exact ⟨rfl, rfl, t, A, rfl, Function.update_self .., hpages, by rw [hbytes, h.medium]⟩

/-- Runs keep the invariant, and the processes that were created stay. -/
theorem Inv.trace (h : Inv K disk spaces s) (hrun : Trace (Step wild) s programs s') :
    ∃ spaces', Inv K disk spaces' s' ∧ s.created ⊆ s'.created ∧
      ∀ p ∈ s.created, s'.kernel.table.pd p.pid = s.kernel.table.pd p.pid := by
  refine hrun.invariant (I := fun s' => ∃ spaces', Inv K disk spaces' s' ∧
    s.created ⊆ s'.created ∧ ∀ p ∈ s.created, s'.kernel.table.pd p.pid = s.kernel.table.pd p.pid)
    ⟨spaces, h, List.Subset.refl _, fun _ _ => rfl⟩ ?_
  rintro t program u ⟨spaces', h', hsub, hpd⟩ hstep
  obtain ⟨spaces'', h'', hsub', hpd'⟩ := h'.step hstep
  exact ⟨spaces'', h'', List.Subset.trans hsub hsub', fun p hp =>
    (hpd' p (hsub hp)).trans (hpd p hp)⟩

/-- What is read through the page table of a process. -/
theorem Inv.readVirtual (h : Inv K disk spaces s) (hp : p ∈ s.created)
    (virtualAddress : BitVec 64) :
    R5O5.readVirtual s.kernel.paging.mem (s.kernel.table.pd p.pid).sa.satp virtualAddress =
      if spaceAddr virtualAddress / pgsize ∈ programPages p.segments then
        some (programImage p.program disk p.segments (spaceAddr virtualAddress))
      else none := by
  obtain ⟨-, -, t, A, hsatp, hspace, hpages, hbytes⟩ := h.loaded p hp
  rw [hsatp, h.refines.read hspace, AddressSpace.read, hpages, hbytes]

theorem Inv.loaded_of_mem (h : Inv K disk spaces s) (hp : p ∈ s.created) :
    p.Loaded disk s.kernel where
  mapped_iff virtualAddress := by
    -- a virtual address can be read exactly when it is translated
    have hread := h.readVirtual hp virtualAddress
    rw [R5O5.readVirtual] at hread
    cases hphys : virtualToPhysical s.kernel.paging.mem (s.kernel.table.pd p.pid).sa.satp
        virtualAddress with
    | ok physicalAddress =>
      rw [hphys] at hread
      refine iff_of_true ⟨_, rfl⟩ ?_
      by_contra hnot
      rw [if_neg hnot] at hread
      cases hread
    | error e =>
      rw [hphys] at hread
      refine iff_of_false ?_ ?_
      · rintro ⟨_, heq⟩
        cases heq
      · intro hmem
        rw [if_pos hmem] at hread
        cases hread
  image virtualAddress physicalAddress hphys := by
    have hread := h.readVirtual hp virtualAddress
    rw [R5O5.readVirtual, hphys] at hread
    by_cases hmem : spaceAddr virtualAddress / pgsize ∈ programPages p.segments
    · rw [if_pos hmem] at hread
      exact Option.some.inj hread
    · rw [if_neg hmem] at hread
      cases hread
  epc := (h.loaded p hp).2.1

/-- Every call that returns is a step. -/
theorem exists_step (hrun : Trace (Step wild) (boot K links disk mem elfNodes table) programs s)
    (hzero : ∀ x : BitVec 64, x >>> 12 ∈ managed K → mem x = 0) {pid : Pid} {kernel : Kernel}
    (hok : R5O5.createProcess wild program s.kernel = .ok (pid, kernel)) :
    ∃ s', Step wild s program s' ∧ s'.kernel = kernel := by
  obtain ⟨spaces, h, -⟩ := (inv_boot hzero).trace hrun
  obtain ⟨-, k₁, hload, rfl⟩ := createProcess_eq_ok hok
  obtain ⟨elfRead, io, elfNodes, nodes, helf, hnodes, -⟩ :=
    programLoader_spec h.refines h.settled hload
  exact ⟨_, .createProcess hok helf hnodes, rfl⟩

/-- When the managed pages hold zeros at boot, the memory of every process created so far is its
program, and further calls change neither what is read through its page table nor its descriptor. -/
theorem loaded_of_trace (hzero : ∀ x : BitVec 64, x >>> 12 ∈ managed K → mem x = 0)
    (hrun : Trace (Step wild) (boot K links disk mem elfNodes table) programs s) :
    (∀ p ∈ s.created, p.Loaded disk s.kernel) ∧
    ∀ programs' s', Trace (Step wild) s programs' s' → ∀ p ∈ s.created,
      p ∈ s'.created ∧ s'.kernel.table.pd p.pid = s.kernel.table.pd p.pid ∧
      ∀ virtualAddress,
        R5O5.readVirtual s'.kernel.paging.mem (s'.kernel.table.pd p.pid).sa.satp virtualAddress =
          R5O5.readVirtual s.kernel.paging.mem (s.kernel.table.pd p.pid).sa.satp virtualAddress := by
  obtain ⟨spaces, h, -⟩ := (inv_boot hzero).trace hrun
  refine ⟨fun p hp => h.loaded_of_mem hp, ?_⟩
  intro programs' s' hrun' p hp
  obtain ⟨spaces', h', hsub, hpd⟩ := h.trace hrun'
  refine ⟨hsub hp, hpd p hp, fun virtualAddress => ?_⟩
  rw [h'.readVirtual (hsub hp), h.readVirtual hp]

end Runs

/-! ## A sample program

One segment of one byte, at virtual address 0. -/

section Sample

/-- The file header, one program header and the byte of the segment. -/
def sampleBytes : List (BitVec 8) :=
  [ 0x7f, 0x45, 0x4c, 0x46, 0, 0, 0, 0, 0, 0, 0, 0, 0, 0, 0, 0,
    -- `entry` at 24
    0, 0, 0, 0, 0, 0, 0, 0, 0, 0, 0, 0, 0, 0, 0, 0,
    -- `phoff` at 32 and `phnum` at 56
    64, 0, 0, 0, 0, 0, 0, 0, 0, 0, 0, 0, 0, 0, 0, 0,
    0, 0, 0, 0, 0, 0, 0, 0, 1, 0, 0, 0, 0, 0, 0, 0,
    -- `type` at 64 and `off` at 72
    1, 0, 0, 0, 0, 0, 0, 0, 120, 0, 0, 0, 0, 0, 0, 0,
    0, 0, 0, 0, 0, 0, 0, 0, 0, 0, 0, 0, 0, 0, 0, 0,
    -- `filesz` at 96 and `memsz` at 104
    1, 0, 0, 0, 0, 0, 0, 0, 1, 0, 0, 0, 0, 0, 0, 0,
    0, 0, 0, 0, 0, 0, 0, 0, 0x13 ]

/-- The program at the start of the disk. -/
def sampleDisk (p : ℕ) : BitVec 8 := sampleBytes.getD p 0

/-- Its extent. -/
def sampleProgram : Program where
  startBlock := 0
  startOffset := 0
  endBlock := 0
  endOffset := 120

/-- Its only segment. -/
def sampleSegment : Elfread where
  off := 120
  vaddr := 0
  filesz := 1
  memsz := 1
  prev := none
  next := none

/-- The node of the segment. -/
def sampleNode : Fin elfSize := ⟨0, elfSize_pos⟩

variable {io : CachedDisk} {elfNodes : ElfNodes} {k : Kernel} {K : KernelImage}
  {spaces : BitVec 64 → Option Space}

/-- The reader finds the segment of the sample program. -/
theorem elfReader_sample (wild : Wild) (elfNodes : ElfNodes) (hs : Settled io)
    (hdisk : io.disk = sampleDisk) :
    ∃ io', elfReader wild 0 0 0 120 io elfNodes =
        .ok (⟨0, some sampleNode, some sampleNode⟩, io',
          Function.update elfNodes sampleNode sampleSegment) ∧
      Settled io' ∧ io'.disk = sampleDisk := by
  have hblock : (0 : BitVec 64).toNat < diskSize := by decide
  -- the file header
  have hoff : ((0 : BitVec 64).setWidth 32).signExtend 64 = 0 := by decide
  rcases readBytes_cases hs hblock (show (0 : BitVec 64).toNat ≤ bsize by decide) wild
    sizeofElfhdr with ⟨io₁, hread₁, -, hio₁, hdisk₁⟩ | ⟨-, hlt⟩
  case inr => exact absurd hlt (by decide)
  rw [hdisk] at hread₁ hdisk₁
  generalize hbytes₁ : (List.range sizeofElfhdr.toNat).map (fun i =>
    sampleDisk ((0 : BitVec 64).toNat * bsize + (0 : BitVec 64).toNat + i)) = bytes₁ at hread₁
  have helf : Elfhdr.ofBytes bytes₁ = ⟨elfMagic, 0, 64, 1⟩ := by
    rw [← hbytes₁]
    decide +kernel
  -- the program header
  rcases readBytes_cases hio₁ hblock (show (64 : BitVec 64).toNat ≤ bsize by decide) wild
    sizeofProghdr with ⟨io₂, hread₂, -, hio₂, hdisk₂⟩ | ⟨-, hlt⟩
  case inr => exact absurd hlt (by decide)
  rw [hdisk₁] at hread₂ hdisk₂
  generalize hbytes₂ : (List.range sizeofProghdr.toNat).map (fun i =>
    sampleDisk ((0 : BitVec 64).toNat * bsize + (64 : BitVec 64).toNat + i)) = bytes₂ at hread₂
  have hph : Proghdr.ofBytes bytes₂ = ⟨elfProgLoad, 120, 0, 1, 1⟩ := by
    rw [← hbytes₂]
    decide +kernel
  refine ⟨io₂, ?_, hio₂, hdisk₂⟩
  have hround : readProgramHeader wild 0 120
      { io := io₁, elfNodes, elfRead := ⟨0, none, none⟩, cnt := 0, blockNum := 0, off := 64 } =
      .ok (true,
        { io := io₂
          elfNodes := Function.update elfNodes sampleNode sampleSegment
          elfRead := ⟨0, some sampleNode, some sampleNode⟩
          cnt := 1
          blockNum := 0
          off := 64 }) := by
    have hwithin : ¬(0 : BitVec 64) * BitVec.ofNat 64 bsize + (64 : BitVec 32).signExtend 64 >
        0 * BitVec.ofNat 64 bsize + 120 := by decide
    rw [readProgramHeader, if_neg hwithin]
    dsimp only
    rw [show (64 : BitVec 32).signExtend 64 = 64 by decide, hread₂, Except.ok_bind]
    dsimp only
    rw [hph, if_neg (by decide), if_neg (by decide), if_neg (by decide), if_neg (by decide),
      dif_pos (by decide)]
    simp only [allocateELFReader, ElfNodes.modify, Function.update_idem, Function.update_self]
    rfl
  rw [elfReader, if_neg (by decide)]
  dsimp only
  rw [hoff, hread₁, Except.ok_bind]
  dsimp only
  rw [helf, if_neg (by decide)]
  have hstart : ElfReaderState.toBlock
      { io := io₁, elfNodes, elfRead := ⟨0, none, none⟩, cnt := 0, blockNum := 0
        off := ((0 : BitVec 64) + 64).setWidth 32 } =
      { io := io₁, elfNodes, elfRead := ⟨0, none, none⟩, cnt := 0, blockNum := 0, off := 64 } := by
    have hdiv : (0 : BitVec 64) + ((((0 : BitVec 64) + 64).setWidth 32).sdiv
        (BitVec.ofNat 32 bsize)).signExtend 64 = 0 := by decide
    have hrem : (((0 : BitVec 64) + 64).setWidth 32).srem (BitVec.ofNat 32 bsize) = 64 := by decide
    rw [ElfReaderState.toBlock]
    dsimp only
    rw [hdiv, hrem]
  show (readProgramHeaders wild 0 120 1 _ >>= _) = _
  rw [readProgramHeaders, hstart, hround]
  rfl

/-- The segment is loaded into an empty address space. -/
theorem loadSegments_sample (wild : Wild) {s : Paging} {t : BitVec 64} (h : Refines K spaces s)
    (ht : spaces t = some .empty) (hs : Settled io) (hfree : 4 ≤ s.alloc.numFreePages)
    (hnode : elfNodes sampleNode = sampleSegment) :
    ∃ (io' : CachedDisk) (s' : Paging) (A : Space),
      loadSegments wild 0 0 (t <<< 12) elfNodes elfSize (some sampleNode) (io, s, 0) =
        .ok (io', s', 1) ∧
      Refines K (Function.update spaces t (some A)) s' ∧ A.pages = {0} ∧
      s.alloc.numFreePages ≤ s'.alloc.numFreePages + 4 := by
  -- page 0 is allocated
  have hpage : (getVirtPage ((0 : BitVec 64) + BitVec.ofNat 64 0)).toNat % 2 ^ 27 = 0 := by decide
  have hnew : (getVirtPage ((0 : BitVec 64) + BitVec.ofNat 64 0)).toNat % 2 ^ 27 ∉
      (AddressSpace.empty : Space).pages := Finset.notMem_empty _
  obtain ⟨s₁, halloc, h₁, hcount⟩ := h.exists_allocateVirtualPage ht allPermissions hfree hnew
  rw [hpage] at h₁
  have hnot : isVirtualPageAllocated s.mem (t <<< 12) (getVirtPage (0 + BitVec.ofNat 64 0)) =
      false := by
    refine Bool.eq_false_iff.mpr fun heq => ?_
    exact absurd ((h.isVirtualPageAllocated_iff ht).mp heq) (Finset.notMem_empty _)
  have hbytes : (List.range sampleSegment.memsz.toNat).foldlM
      (allocateByte (t <<< 12) sampleSegment.vaddr) s = .ok s₁ := by
    show (allocateByte (t <<< 12) 0 s 0 >>= fun s => [].foldlM _ s) = _
    rw [allocateByte, hnot, Bool.not_false, if_pos rfl, halloc]
    rfl
  -- the byte is read
  have ht₁ : Function.update spaces t (some (AddressSpace.empty.mapPage 0)) t =
    some (AddressSpace.empty.mapPage 0) := Function.update_self ..
  have hread : ∃ io' mem, readBytesVirtual wild 0 120 1 0 (t <<< 12) io s₁.mem = .ok (io', mem) ∧
      ∃ A : Space, Refines K (Function.update spaces t (some A)) { s₁ with mem } ∧
        A.pages = {0} := by
    rcases h₁.readBytesVirtual_cases ht₁ hs (show (120 : BitVec 64).toNat ≤ bsize by decide)
      (show (0 : BitVec 64).toNat < diskSize by decide) wild 0 1 with
      ⟨io', mem, hok, -, -, -, A, hA, hpages, -⟩ | ⟨-, hlt⟩ | ⟨-, i, hi, hunmapped⟩
    · rw [Function.update_idem] at hA
      exact ⟨io', mem, hok, A, hA, hpages⟩
    · exact absurd hlt (by decide)
    · obtain rfl : i = 0 := Nat.lt_one_iff.mp hi
      exact absurd (Finset.mem_insert_self 0 _) hunmapped
  obtain ⟨io', mem, hread, A, hA, hpages⟩ := hread
  refine ⟨io', { s₁ with mem }, A, ?_, hA, hpages, hcount⟩
  have hsegment :
      loadSegment wild 0 0 (t <<< 12) sampleSegment io s = .ok (io', { s₁ with mem }) := by
    rw [loadSegment, hbytes, Except.ok_bind]
    exact congrArg (· >>= fun (r : CachedDisk × Mem) => .ok (r.1, { s₁ with mem := r.2 })) hread
  show loadSegments wild 0 0 (t <<< 12) elfNodes (29 + 1) (some sampleNode) (io, s, 0) = _
  rw [loadSegments, hnode, hsegment, Except.ok_bind]
  rfl

/-- The sample program is loaded for the first process. -/
theorem createProcess_sample (wild : Wild) (h : Refines K spaces k.paging) (hs : Settled k.io)
    (hdisk : k.io.disk = sampleDisk) (hfree : 13 ≤ k.paging.alloc.numFreePages)
    (hslots : ∀ pid, (k.table.pd pid).slotAllocated = false) :
    ∃ k', createProcess wild sampleProgram k = .ok (⟨0, by decide⟩, k') := by
  obtain ⟨io₁, helf, hio₁, -⟩ := elfReader_sample wild k.elfNodes hs hdisk
  obtain ⟨t, s₁, htable, -, h₁, hcount₁⟩ := h.exists_allocatePageTable (by omega)
  have ht : ∀ A : Space, Function.update spaces t (some A) t = some A :=
    fun A => Function.update_self ..
  obtain ⟨io₂, s₂, A, hload, h₂, hpages, hcount₂⟩ := loadSegments_sample wild h₁ (ht _) hio₁
    (by omega) (Function.update_self sampleNode sampleSegment k.elfNodes)
  rw [Function.update_idem] at h₂
  -- the pages of the stack
  have hnew₃ : (1 : BitVec 64).toNat % 2 ^ 27 ∉ A.pages := by
    rw [hpages]
    decide
  obtain ⟨s₃, hstack₁, h₃, hcount₃⟩ :=
    h₂.exists_allocateVirtualPage (ht _) allPermissions (by omega) hnew₃
  rw [Function.update_idem] at h₃
  have hnew₄ : (1 + 1 : BitVec 64).toNat % 2 ^ 27 ∉
      (A.mapPage ((1 : BitVec 64).toNat % 2 ^ 27)).pages := by
    show _ ∉ insert _ A.pages
    rw [hpages]
    decide
  obtain ⟨s₄, hstack₂, -⟩ :=
    h₃.exists_allocateVirtualPage (ht _) allPermissions (by omega) hnew₄
  have hfind : (List.finRange nproc).find? (fun pid => !(k.table.pd pid).slotAllocated) =
      some ⟨0, by decide⟩ := by
    simp only [hslots]
    rfl
  rw [createProcess, hfind]
  dsimp only
  rw [programLoader, sampleProgram]
  dsimp only
  rw [helf, Except.ok_bind]
  dsimp only
  rw [if_neg (by simp), htable, Except.ok_bind]
  dsimp only [Kernel.modifyPd]
  rw [hload, Except.ok_bind]
  dsimp only
  rw [hstack₁, Except.ok_bind, hstack₂, Except.ok_bind]
  exact ⟨_, rfl⟩

/-- The kernel at boot with the sample program on the disk and zeros everywhere else. -/
def sampleBoot : Processes :=
  boot Tables.sampleKernel ⟨id, id⟩ sampleDisk (fun _ => 0) (fun _ => sampleSegment)
    { pd := fun _ =>
        { sa := { reg := fun _ => 0, epc := 0, satp := 0 }
          slotAllocated := false
          timeLeft := 0
          state := .created }
      currentProcess := ⟨0, nproc_pos⟩ }

/-- The sample program becomes the first process. -/
theorem createProcess_sampleBoot (wild : Wild) :
    ∃ k', createProcess wild sampleProgram sampleBoot.kernel = .ok (⟨0, by decide⟩, k') := by
  have h : Inv Tables.sampleKernel sampleDisk (fun _ => none) sampleBoot := inv_boot fun _ _ => rfl
  exact createProcess_sample wild h.refines h.settled h.medium (by decide) fun _ => rfl

/-- The memory of the sample program. -/
theorem loaded_sample : ∃ s, Trace (Step fun _ _ _ => 0) sampleBoot [sampleProgram] s ∧
    s.created.length = 1 ∧
    (∀ p ∈ s.created, p.Loaded sampleDisk s.kernel) ∧
    ∀ programs' s', Trace (Step fun _ _ _ => 0) s programs' s' → ∀ p ∈ s.created,
      p ∈ s'.created ∧ s'.kernel.table.pd p.pid = s.kernel.table.pd p.pid ∧
      ∀ virtualAddress,
        readVirtual s'.kernel.paging.mem (s'.kernel.table.pd p.pid).sa.satp virtualAddress =
          readVirtual s.kernel.paging.mem (s.kernel.table.pd p.pid).sa.satp virtualAddress := by
  obtain ⟨k', hok⟩ := createProcess_sampleBoot fun _ _ _ => 0
  obtain ⟨s, hstep, -⟩ := exists_step .refl (fun _ _ => rfl) hok
  have hrun : Trace (Step fun _ _ _ => 0) sampleBoot [sampleProgram] s := Trace.refl.snoc hstep
  refine ⟨s, hrun, ?_, loaded_of_trace (fun _ _ => rfl) hrun⟩
  cases hstep
  rfl

end Sample

end Processes

end R5O5
