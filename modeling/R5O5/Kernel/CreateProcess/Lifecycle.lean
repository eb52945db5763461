import R5O5.Kernel.CreateProcess.Recycling
import R5O5.Kernel.Paging.TwoPages

/-!
# Processes that come and go

Processes are created, store bytes into their pages, and their page tables are deallocated. Freed
pages keep their bytes and are handed out again as they are, so that two runs that differ in the
bytes stored by a process that is gone may create different processes later. They cannot when the
frames that a new process takes may be reused.

## Main definitions

- `Lifecycle.Step`: the operations, one on the whole kernel and two on a live page table;
- `Lifecycle.ReusingStep`: two runs in step, with frames that may be reused for each new process;
- `SameProcess`: the new process has the same memory in both runs.

## Main results

- `Lifecycle.sameProcess_of_trace`: two runs in step create the same processes;
- `Lifecycle.createProcess_reveals`: otherwise the stack of a process may show old bytes.
-/

namespace R5O5

/-- The kernel with the page tables of the processes that are not gone. -/
structure Lifecycle where
  kernel : Kernel
  live : Finset (BitVec 64)

namespace Lifecycle

/-- The operations. The byte that is stored is left open. -/
inductive Op
  | createProcess (program : Program)
  | store (pagetable virtualAddress : BitVec 64)
  | deallocatePageTable (pagetable : BitVec 64)

/-- The state after `binit`, `pageAllocInit` and `procesDescriptorInit`. -/
def boot (K : KernelImage) (links : Ring.Links BufRef) (disk : ℕ → BitVec 8) (mem : Mem)
    (elfNodes : ElfNodes) (table : ProcessTable) : Lifecycle where
  kernel := (Processes.boot K links disk mem elfNodes table).kernel
  live := ∅

/-- One operation that returns. -/
inductive Step (wild : Wild) : Lifecycle → Op → Lifecycle → Prop
  | createProcess {s : Lifecycle} {program : Program} {pid : Pid} {kernel : Kernel} :
      R5O5.createProcess wild program s.kernel = .ok (pid, kernel) →
      Step wild s (.createProcess program)
        { kernel, live := insert (kernel.table.pd pid).sa.satp s.live }
  | store {s : Lifecycle} {pagetable virtualAddress physicalAddress : BitVec 64} (byte : BitVec 8) :
      pagetable ∈ s.live →
      virtualToPhysical s.kernel.paging.mem pagetable virtualAddress = .ok physicalAddress →
      Step wild s (.store pagetable virtualAddress)
        { s with kernel := { s.kernel with paging := { s.kernel.paging with
            mem := s.kernel.paging.mem.write physicalAddress byte } } }
  | deallocatePageTable {s : Lifecycle} {pagetable : BitVec 64} {paging : Paging} :
      pagetable ∈ s.live →
      R5O5.deallocatePageTable pagetable s.kernel.paging = .ok paging →
      Step wild s (.deallocatePageTable pagetable)
        { kernel := { s.kernel with paging }, live := s.live.erase pagetable }

/-- A step of both runs; the frames that a new process takes may be reused. -/
def ReusingStep (wild : Wild) (s : Lifecycle × Lifecycle) (op : Op) (s' : Lifecycle × Lifecycle) :
    Prop :=
  Step wild s.1 op s'.1 ∧ Step wild s.2 op s'.2 ∧
    ∀ program, op = .createProcess program → program.ReusesFrames wild s.1.kernel s.2.kernel

/-- The root frames of the live page tables. -/
def roots (s : Lifecycle) : Set (BitVec 64) :=
  {t | t.toNat < 2 ^ 44 ∧ t <<< 12 ∈ s.live}

/-- Two runs differ in the bytes of pages only. -/
structure Alike (K : KernelImage) (own : Places) (leaked : ℕ) (s s' : Lifecycle) : Prop where
  paired : Paired K s.roots own leaked s.kernel.paging s'.kernel.paging
  aligned : ∀ pagetable ∈ s.live, ∃ t : BitVec 64, t.toNat < 2 ^ 44 ∧ pagetable = t <<< 12
  live : s'.live = s.live
  kernel : SameButPaging s.kernel s'.kernel

end Lifecycle

/-- Two new processes have the same number, the same mapped pages, and the same bytes at the mapped
addresses. -/
def SameProcess (r r' : Pid × Kernel) : Prop :=
  r'.1 = r.1 ∧ ∀ virtualAddress,
    readVirtual r'.2.paging.mem (r'.2.table.pd r'.1).sa.satp virtualAddress =
      readVirtual r.2.paging.mem (r.2.table.pd r.1).sa.satp virtualAddress

namespace Lifecycle

section Runs

variable {K : KernelImage} {links : Ring.Links BufRef} {disk : ℕ → BitVec 8} {mem : Mem}
  {elfNodes : ElfNodes} {table : ProcessTable} {wild : Wild} {own : Places} {leaked : ℕ}
  {s s' r r' : Lifecycle} {op : Op} {ops : List Op} {program : Program}

theorem alike_boot : Alike K (fun _ => none) 0 (boot K links disk mem elfNodes table)
    (boot K links disk mem elfNodes table) where
  paired := by
    have hroots : (boot K links disk mem elfNodes table).roots = ∅ := by simp [roots, boot]
    rw [hroots]
    exact
      { inv := Paging.Inv.pageAllocInit
        inv' := Paging.Inv.pageAllocInit
        freeList := rfl
        children := fun _ hf _ => by cases hf }
  aligned _ h := by simp [boot] at h
  live := rfl
  kernel := rfl

/-- Frames are told apart by their addresses. -/
theorem shift_inj {t t' : BitVec 64} (ht : t.toNat < 2 ^ 44) (ht' : t'.toNat < 2 ^ 44)
    (h : t <<< 12 = t' <<< 12) : t = t' := by
  rw [← page_shiftLeft ht, h, page_shiftLeft ht']

/-- A process created from frames that may be reused leaves the runs alike. -/
theorem Alike.createProcess (h : Alike K own leaked s s')
    (hreuse : program.ReusesFrames wild s.kernel s'.kernel) {pid pid' : Pid}
    {kernel kernel' : Kernel} (hok : R5O5.createProcess wild program s.kernel = .ok (pid, kernel))
    (hok' : R5O5.createProcess wild program s'.kernel = .ok (pid', kernel')) :
    ∃ own' leaked', Alike K own' leaked'
      { kernel, live := insert (kernel.table.pd pid).sa.satp s.live }
      { kernel := kernel', live := insert (kernel'.table.pd pid').sa.satp s'.live } := by
  obtain ⟨r', hr', hpid, hsame, t, m, m', own', leaked', hsatp, hlt, htwin⟩ :=
    (createProcess_related h.paired h.kernel fun _ => hreuse).exists_ok hok
  rw [hok'] at hr'
  cases hr'
  obtain rfl : pid' = pid := hpid
  dsimp only at hsame hsatp htwin
  have htable : kernel'.table = kernel.table := by rw [hsame]
  refine ⟨own', leaked', ?_, ?_, ?_, hsame⟩
  -- the roots in use are those of the tables in use
  · have hroots : insert t s.roots = roots
        { kernel, live := insert (kernel.table.pd pid').sa.satp s.live } := by
      ext t'
      simp only [roots, hsatp, Set.mem_insert_iff, Set.mem_ofPred_eq, Finset.mem_insert]
      constructor
      · rintro (rfl | ⟨hlt', hmem⟩)
        · exact ⟨hlt, Or.inl rfl⟩
        · exact ⟨hlt', Or.inr hmem⟩
      · rintro ⟨hlt', heq | hmem⟩
        · exact Or.inl (shift_inj hlt' hlt heq)
        · exact Or.inr ⟨hlt', hmem⟩
    rw [← hroots]
    exact htwin.toPaired
  · intro pagetable hmem
    rcases Finset.mem_insert.mp hmem with rfl | hmem
    · exact ⟨t, hlt, hsatp⟩
    · exact h.aligned pagetable hmem
  · dsimp only
    rw [htable, h.live]

/-- Stores of any bytes to a live table leave the runs alike. -/
theorem Alike.store (h : Alike K own leaked s s') {pagetable virtualAddress : BitVec 64}
    (hmem : pagetable ∈ s.live) {physicalAddress physicalAddress' : BitVec 64}
    (hphys : virtualToPhysical s.kernel.paging.mem pagetable virtualAddress = .ok physicalAddress)
    (hphys' : virtualToPhysical s'.kernel.paging.mem pagetable virtualAddress =
      .ok physicalAddress') (byte byte' : BitVec 8) :
    Alike K own leaked
      { s with kernel := { s.kernel with paging := { s.kernel.paging with
          mem := s.kernel.paging.mem.write physicalAddress byte } } }
      { s' with kernel := { s'.kernel with paging := { s'.kernel.paging with
          mem := s'.kernel.paging.mem.write physicalAddress' byte' } } } := by
  obtain ⟨t, hlt, rfl⟩ := h.aligned pagetable hmem
  have ht : t ∈ s.roots := ⟨hlt, hmem⟩
  rw [h.paired.virtualToPhysical_eq ht, hphys] at hphys'
  cases hphys'
  refine ⟨h.paired.write ht hphys byte byte', h.aligned, h.live, ?_⟩
  have hkernel := h.kernel
  rw [SameButPaging] at hkernel ⊢
  dsimp only
  rw [hkernel]

/-- The end of a process leaves the runs alike. -/
theorem Alike.deallocatePageTable (h : Alike K own leaked s s') {pagetable : BitVec 64}
    (hmem : pagetable ∈ s.live) {paging paging' : Paging}
    (hok : R5O5.deallocatePageTable pagetable s.kernel.paging = .ok paging)
    (hok' : R5O5.deallocatePageTable pagetable s'.kernel.paging = .ok paging') :
    ∃ own', Alike K own' leaked
      { kernel := { s.kernel with paging }, live := s.live.erase pagetable }
      { kernel := { s'.kernel with paging := paging' }, live := s'.live.erase pagetable } := by
  obtain ⟨t, hlt, rfl⟩ := h.aligned pagetable hmem
  obtain ⟨own', hpaired⟩ := h.paired.deallocatePageTable ⟨hlt, hmem⟩ hok hok'
  refine ⟨own', ?_, fun pt hpt => h.aligned pt (Finset.mem_of_mem_erase hpt), ?_, ?_⟩
  -- the roots lose the one of this table
  · have hroots : s.roots \ {t} = roots
        { kernel := { s.kernel with paging }, live := s.live.erase (t <<< 12) } := by
      ext t'
      simp only [roots, Set.mem_sdiff, Set.mem_ofPred_eq, Set.mem_singleton_iff, Finset.mem_erase]
      constructor
      · rintro ⟨⟨hlt', hmem'⟩, hne⟩
        exact ⟨hlt', fun heq => hne (shift_inj hlt' hlt heq), hmem'⟩
      · rintro ⟨hlt', hne, hmem'⟩
        exact ⟨⟨hlt', hmem'⟩, fun heq => hne (heq ▸ rfl)⟩
    rw [← hroots]
    exact hpaired
  · dsimp only
    rw [h.live]
  · have hkernel := h.kernel
    rw [SameButPaging] at hkernel ⊢
    dsimp only
    rw [hkernel]

/-- A step of both runs keeps them alike. -/
theorem Alike.step {p p' : Lifecycle × Lifecycle} (h : Alike K own leaked p.1 p.2)
    (hstep : ReusingStep wild p op p') : ∃ own' leaked', Alike K own' leaked' p'.1 p'.2 := by
  obtain ⟨s, s'⟩ := p
  obtain ⟨r, r'⟩ := p'
  obtain ⟨hstep, hstep', hreuse⟩ := hstep
  dsimp only at h hstep hstep' hreuse ⊢
  cases hstep with
  | createProcess hok =>
    cases hstep' with
    | createProcess hok' => exact h.createProcess (hreuse _ rfl) hok hok'
  | store byte hmem hphys =>
    cases hstep' with
    | store byte' _ hphys' => exact ⟨own, leaked, h.store hmem hphys hphys' byte byte'⟩
  | deallocatePageTable hmem hok =>
    cases hstep' with
    | deallocatePageTable _ hok' =>
      obtain ⟨own', h'⟩ := h.deallocatePageTable hmem hok hok'
      exact ⟨own', leaked, h'⟩

/-- Two runs from boot with the same operations, in which processes may store what they like: when
the frames that new processes take may be reused each time, the same process is created. -/
theorem sameProcess_of_trace
    (hrun : Trace (ReusingStep wild) (boot K links disk mem elfNodes table,
      boot K links disk mem elfNodes table) ops (s, s'))
    (program : Program) (hreuse : (∃ pid, (s.kernel.table.pd pid).slotAllocated = false) →
      program.ReusesFrames wild s.kernel s'.kernel) :
    Except.Related SameProcess (R5O5.createProcess wild program s.kernel)
      (R5O5.createProcess wild program s'.kernel) := by
  obtain ⟨own, leaked, h⟩ := hrun.invariant
    (I := fun p => ∃ own leaked, Alike K own leaked p.1 p.2) ⟨_, _, alike_boot⟩ (by
      rintro p op p' ⟨own, leaked, h⟩ hstep
      exact h.step hstep)
  refine (createProcess_related h.paired h.kernel hreuse).mono ?_
  rintro ⟨pid, kernel⟩ ⟨pid', kernel'⟩ ⟨hpid, hsame, t, m, m', own', leaked', hsatp, -, htwin⟩
  obtain rfl : pid' = pid := hpid
  dsimp only at hsame hsatp htwin
  refine ⟨rfl, fun virtualAddress => ?_⟩
  have htable : kernel'.table = kernel.table := by rw [hsame]
  dsimp only
  rw [htable, hsatp]
  exact htwin.readVirtual_eq (Set.mem_insert t _)

end Runs

end Lifecycle

/-! ## A process that consists of its stack -/

section Sample

variable {K : KernelImage} {live : Set (BitVec 64)} {own : Places} {leaked : ℕ} {s s' : Paging}
  {mem : Mem} {f g h t u v x y : BitVec 64} {rest : List (BitVec 64)} {wild : Wild} {k : Kernel}
  {program : Program} {pid : Pid} {disk : ℕ → BitVec 8} {table : ProcessTable}

/-- The sample program with a segment of no bytes: the process consists of its stack. -/
def emptyDisk : ℕ → BitVec 8 := Function.update (Function.update Processes.sampleDisk 96 0) 104 0

/-- Its segment. -/
def emptySegment : Elfread := { Processes.sampleSegment with filesz := 0, memsz := 0 }

/-- The sample program without contents has one segment. -/
theorem layout_emptyDisk :
    (Processes.sampleProgram.layout emptyDisk).found = some (0, [emptySegment]) := by
  decide +kernel

theorem reads_emptyDisk : ∀ r ∈ (Processes.sampleProgram.layout emptyDisk).reads, OnDisk r := by
  decide +kernel

/-- The program takes the first seven frames of the free stack; two of them are lost. -/
theorem load_emptyDisk (hinv : s.Inv K live own leaked)
    (hfree : s.alloc.freeList = t :: u :: x :: y :: g :: v :: h :: rest)
    (hempty : ∀ f ∈ s.alloc.freeList, EmptyDirectory s.mem f) (pid : Pid) (table : ProcessTable) :
    ∃ s', Processes.sampleProgram.load emptyDisk pid s table =
        .ok (true, s', table.modify pid fun d => loadedDescriptor d 0 (t <<< 12) [emptySegment]) ∧
      s'.alloc.freeList = rest ∧ MapsTwoPages s'.mem t x y g h ∧
      ∀ a : BitVec 64, a >>> 12 ∉ [t, x, y] → s'.mem a = s.mem a := by
  have hlt : ∀ f ∈ [t, u, x, y, g, v, h], f.toNat < 2 ^ 44 := by
    intro f hf
    refine toNat_lt_of_managed (hinv.ledger.managed_of_free ?_)
    rw [hfree]
    exact List.mem_append_left rest hf
  have hnodup : [t, x, y].Nodup := by
    have hall := hinv.ledger.nodup
    rw [hfree] at hall
    refine List.Nodup.sublist ?_ hall
    exact (List.Sublist.cons _ ((List.nil_sublist _).cons_cons _ |>.cons_cons _)).cons_cons _
  -- the root of the page table comes first, on a cleared page
  obtain ⟨a, halloc, hrest, hwf⟩ := allocatePage_of_freeList hinv.ledger.wellFormed hfree
  have ht := hlt t List.mem_cons_self
  have hmem : ∀ a : BitVec 64, a >>> 12 ≠ t →
      clearEntries (t <<< 12) (List.finRange numPte) s.mem a = s.mem a :=
    fun a ha => clearEntries_of_page_ne ht _ _ ha
  have hroot : EmptyDirectory (clearEntries (t <<< 12) (List.finRange numPte) s.mem) t :=
    fun i => child_clearEntries ht _ _ (Or.inl (List.mem_finRange i))
  have htable : allocatePageTable s = .ok (t <<< 12,
      { alloc := a, mem := clearEntries (t <<< 12) (List.finRange numPte) s.mem }) := by
    rw [allocatePageTable, allocatePageDirectory, halloc]
    rfl
  generalize clearEntries (t <<< 12) (List.finRange numPte) s.mem = mem₁ at hmem hroot htable
  have hempty₁ : ∀ f ∈ [t, x, y], EmptyDirectory mem₁ f := by
    intro f hf
    rcases eq_or_ne f t with rfl | hne
    · exact hroot
    · have hf' : f ∈ s.alloc.freeList := by
        rw [hfree]
        simp only [List.mem_cons] at hf ⊢
        tauto
      refine (hempty f hf').congr (toNat_lt_of_managed (hinv.ledger.managed_of_free hf')) ?_
      rintro a rfl
      exact hmem a hne
  -- then the two pages of the stack, with the directories for them
  obtain ⟨s₁, s', hs₁, hs', hrest', -, hmap, hkeep⟩ := allocateTwoPages
    (s := { alloc := a, mem := mem₁ }) hwf hrest
    (fun f hf => hlt f (by simp only [List.mem_cons] at hf ⊢; tauto)) hnodup hempty₁ allPermissions
  refine ⟨s', ?_, hrest', hmap, ?_⟩
  -- the only segment has no bytes, so that nothing is loaded
  · have hsegment : ∀ s, [emptySegment].foldlM
        (Processes.sampleProgram.loadSegment emptyDisk (t <<< 12)) s = .ok s := by
      intro s
      have honDisk : Processes.sampleProgram.ContentsOnDisk emptySegment := by decide
      show (List.range 0).foldlM _ s >>= _ >>= _ = _
      simp only [List.range_zero, List.foldlM_nil, pure_bind, if_pos honDisk]
      rfl
    have hstack : stackBegin [emptySegment] = 0 := by decide
    rw [Program.load, layout_emptyDisk]
    dsimp only
    rw [htable, Except.ok_bind]
    dsimp only
    rw [hsegment, Except.ok_bind, hstack, hs₁, Except.ok_bind, hs']
    rfl
  · intro a ha
    rw [hkeep a ha]
    refine hmem a ?_
    rintro rfl
    exact ha List.mem_cons_self

/-- The program asks for the two pages of its stack: of the first seven frames, the third and the
fourth become directories, and the fifth and the seventh become pages. -/
theorem reusesFrames_emptyDisk {k' : Kernel} (hs : Settled k.io) (hdisk : k.io.disk = emptyDisk)
    (hfree : k.paging.alloc.freeList = t :: u :: x :: y :: g :: v :: h :: rest)
    (hdir : ∀ f ∈ [x, y], EmptyDirectory k.paging.mem f ∧ EmptyDirectory k'.paging.mem f)
    (hpage : ∀ f ∈ [g, h], ∀ virtualAddress, k'.paging.mem (f <<< 12 ||| getOffset virtualAddress) =
      k.paging.mem (f <<< 12 ||| getOffset virtualAddress)) :
    Processes.sampleProgram.ReusesFrames wild k k' := by
  intro elfRead io elfNodes hok hhead
  -- the reader finds one segment, which is empty
  obtain ⟨_, _, _, hok', -, -, hcarries⟩ := elfReader_layout wild hs hdisk k.elfNodes (by decide)
    reads_emptyDisk
  rw [hok] at hok'
  cases hok'
  change elfRead.Carries elfNodes (Processes.sampleProgram.layout emptyDisk).found at hcarries
  rw [layout_emptyDisk] at hcarries
  obtain ⟨-, -, nodes, hlist, hlength, hsegments⟩ := hcarries
  rw [segmentsFrom_of_isList hlist hlength, hfree]
  obtain ⟨n, rfl, hn⟩ := List.map_eq_singleton_iff.mp hsegments
  -- so only the stack needs pages, and the second one finds its directories
  have hpages : Processes.sampleProgram.requestedPages 0 [elfNodes n] = [0, 1] := by
    have hmemsz : (elfNodes n).memsz = 0 := congrArg Elfread.memsz hn
    have hread : Processes.sampleProgram.ContentsOnDisk (elfNodes n) := by
      have hempty : Processes.sampleProgram.ContentsOnDisk (elfNodes n).unlink := by
        rw [hn]
        decide
      exact hempty
    have hstack : stackAfter 0 (elfNodes n) = stackAfter 0 (elfNodes n).unlink := rfl
    have hrest :
        Processes.sampleProgram.requestedPages (stackAfter 0 emptySegment) [] = [0, 1] := by
      decide
    rw [Program.requestedPages, if_pos hread, hmemsz, hstack, hn, hrest]
    rfl
  have hnew : newDirectories ∅ 0 = 2 ∧ newDirectories {0} 1 = 0 := by decide
  rw [List.map_singleton, hpages]
  simp only [Reusable, List.drop_succ_cons, List.drop_zero, Finset.notMem_empty, if_false,
    insert_empty_eq, Finset.mem_singleton, hnew, List.take_succ_cons, List.take_zero,
    List.head?_cons, Option.mem_def, Option.some.injEq, one_ne_zero, List.not_mem_nil]
  refine ⟨hdir, ?_, fun _ h => h.elim, ?_, trivial⟩
  · rintro _ rfl virtualAddress - -
    exact hpage g (by simp) virtualAddress
  · rintro _ rfl virtualAddress - -
    exact hpage h (by simp) virtualAddress

/-- A program that can be loaded is created in the first free slot. -/
theorem createProcess_of_load (wild : Wild) (pid : Pid) (hs : Settled k.io)
    (hdisk : k.io.disk = disk) (hoffset : program.startOffset.toNat < bsize)
    (hreads : ∀ r ∈ (program.layout disk).reads, OnDisk r)
    (hfind : (List.finRange nproc).find? (fun pid => !(k.table.pd pid).slotAllocated) = some pid)
    (hload : program.load disk pid k.paging k.table = .ok (true, s', table)) :
    ∃ k₁, programLoader wild program pid k = .ok (true, k₁) ∧ k₁.paging = s' ∧ k₁.table = table ∧
      createProcess wild program k = .ok (pid, k₁.modifyPd pid newDescriptor) := by
  obtain ⟨⟨loaded, k₁⟩, hok, heq⟩ :=
    (programLoader_load wild pid hs hdisk hoffset hreads).exists_ok_left hload
  cases heq
  refine ⟨k₁, hok, rfl, rfl, ?_⟩
  rw [createProcess, hfind]
  dsimp only
  rw [hok]
  rfl

namespace Lifecycle

def firstPid : Pid := ⟨0, nproc_pos⟩

def secondPid : Pid := ⟨1, by decide⟩

/-- Zeros everywhere, except for the program on the disk. -/
def emptyBoot : Lifecycle :=
  boot Tables.sampleKernel ⟨id, id⟩ emptyDisk (fun _ => 0) (fun _ => Processes.sampleSegment)
    Processes.sampleBoot.kernel.table

/-- A process is created, stores a byte, and its page table is deallocated. -/
def storeAndEnd (pagetable : BitVec 64) : List Op :=
  [.createProcess Processes.sampleProgram, .store pagetable 5, .deallocatePageTable pagetable]

theorem freeList_emptyBoot : ∃ t u x y g v h rest, emptyBoot.kernel.paging.alloc.freeList =
    t :: u :: x :: y :: g :: v :: h :: rest ∧ 2 ≤ rest.length := by
  have hnum : emptyBoot.kernel.paging.alloc.numFreePages = 7 + 493 := rfl
  rw [PageAllocator.freeList, hnum, List.range_add, List.map_append]
  exact ⟨_, _, _, _, _, _, _, _, rfl, by simp⟩

/-- The kernel `k` after the first process has been created: its page table `t` has the directories
`x` and `y`, and the pages `g` and `h`. -/
structure FirstProcess (wild : Wild) (t x y g h : BitVec 64) (k : Kernel) : Prop where
  step : Step wild emptyBoot (.createProcess Processes.sampleProgram)
    ⟨k, insert (t <<< 12) emptyBoot.live⟩
  alike : ∃ own leaked, Alike Tables.sampleKernel own leaked
    ⟨k, insert (t <<< 12) emptyBoot.live⟩ ⟨k, insert (t <<< 12) emptyBoot.live⟩
  maps : MapsTwoPages k.paging.mem t x y g h
  nodup : ([t, x, y, g, h] ++ k.paging.alloc.freeList).Nodup
  enough : 2 ≤ k.paging.alloc.freeList.length
  lt : ∀ f ∈ [t, x, y] ++ [g, h], f.toNat < 2 ^ 44
  zero : ∀ a : BitVec 64, a >>> 12 ∉ [t, x, y] → k.paging.mem a = 0
  settled : Settled k.io
  medium : k.io.disk = emptyDisk
  slot : (List.finRange nproc).find? (fun pid => !(k.table.pd pid).slotAllocated) = some secondPid

/-- All frames hold zeros, so that they may be reused. -/
theorem reusesFrames_emptyBoot (program : Program) (wild : Wild) :
    program.ReusesFrames wild emptyBoot.kernel emptyBoot.kernel := by
  intro _ _ _ _ _
  have hempty : ∀ f, EmptyDirectory emptyBoot.kernel.paging.mem f := fun _ _ =>
    child_of_entry_zero (Mem.load64_of_zero fun _ _ => rfl)
  exact Reusable.of_forall fun f _ => ⟨hempty f, hempty f, fun _ => rfl⟩

/-- The program becomes the first process. -/
theorem exists_firstProcess (wild : Wild) : ∃ t x y g h k, FirstProcess wild t x y g h k := by
  obtain ⟨t, u, x, y, g, v, h, rest, hfree, henough⟩ := freeList_emptyBoot
  have hboot : Processes.Inv Tables.sampleKernel emptyDisk (fun _ => none)
      (Processes.boot Tables.sampleKernel ⟨id, id⟩ emptyDisk (fun _ => 0)
        (fun _ => Processes.sampleSegment) Processes.sampleBoot.kernel.table) :=
    Processes.inv_boot fun _ _ => rfl
  have halike : Alike Tables.sampleKernel (fun _ => none) 0 emptyBoot emptyBoot := alike_boot
  have hledger := halike.paired.inv.ledger
  obtain ⟨s₁, hload, hfree₁, hmap, hkeep⟩ := load_emptyDisk halike.paired.inv hfree
    (fun _ _ _ => child_of_entry_zero (Mem.load64_of_zero fun _ _ => rfl)) firstPid
    emptyBoot.kernel.table
  obtain ⟨k₁, hk₁, rfl, htable, hcreate⟩ := createProcess_of_load (k := emptyBoot.kernel)
    wild firstPid Processes.settled_binit rfl (by decide) reads_emptyDisk rfl hload
  obtain ⟨-, -, -, -, -, -, hsettled, hdisk, -⟩ :=
    programLoader_spec hboot.refines hboot.settled hk₁
  obtain ⟨own, leaked, h₁⟩ := halike.createProcess
    (reusesFrames_emptyBoot _ wild) hcreate hcreate
  have hstep := Step.createProcess hcreate
  have hsatp : ((k₁.modifyPd firstPid newDescriptor).table.pd firstPid).sa.satp = t <<< 12 := by
    rw [Kernel.modifyPd, htable]
    rfl
  rw [hsatp] at h₁ hstep
  have hnodup : ([t, x, y, g, h] ++ rest).Sublist emptyBoot.kernel.paging.alloc.freeList := by
    rw [hfree]
    exact .cons_cons _ (.cons _ (.cons_cons _ (.cons_cons _ (.cons_cons _ (.cons _ (.refl _))))))
  -- the frames `u` and `v` are lost: they lie between those in use
  refine ⟨t, x, y, g, h, _, hstep, ⟨own, leaked, h₁⟩, hmap, ?_, ?_, ?_, hkeep, hsettled, hdisk, ?_⟩
  · show ([t, x, y, g, h] ++ k₁.paging.alloc.freeList).Nodup
    rw [hfree₁]
    exact hledger.nodup.sublist hnodup
  · show 2 ≤ k₁.paging.alloc.freeList.length
    rwa [hfree₁]
  · intro f hf
    refine toNat_lt_of_managed (hledger.managed_of_free (hnodup.subset ?_))
    exact List.mem_append_left rest hf
  · rw [Kernel.modifyPd, htable]
    rfl

/-- The first process lives, with this memory. -/
def living (t : BitVec 64) (k : Kernel) (mem : Mem) : Lifecycle where
  kernel := { k with paging := { k.paging with mem } }
  live := insert (t <<< 12) emptyBoot.live

/-- The bytes that the first process has stored are even: they do not look like valid entries. -/
structure Stored (t x y g h : BitVec 64) (k : Kernel) (mem : Mem) : Prop where
  maps : MapsTwoPages mem t x y g h
  inv : ∃ own leaked, (living t k mem).kernel.paging.Inv Tables.sampleKernel (living t k mem).roots
    own leaked
  even : ∀ a : BitVec 64, a >>> 12 ∉ [t, x, y] → (mem a).toNat % 2 = 0

section FirstProcess

variable {t x y g h f virtualAddress : BitVec 64} {k : Kernel} {byte : BitVec 8}

theorem mem_live (t : BitVec 64) (k : Kernel) (mem : Mem) : t <<< 12 ∈ (living t k mem).live :=
  Finset.mem_insert_self ..

theorem FirstProcess.stored (hp : FirstProcess wild t x y g h k) :
    Stored t x y g h k k.paging.mem where
  maps := hp.maps
  inv := by
    obtain ⟨own, leaked, halike⟩ := hp.alike
    exact ⟨own, leaked, halike.paired.inv⟩
  even a ha := by
    rw [hp.zero a ha]
    rfl

/-- The pages lie in other frames than the directories. -/
theorem FirstProcess.page_notMem (hp : FirstProcess wild t x y g h k) {f : BitVec 64}
    (hf : f ∈ [g, h]) : f ∉ [t, x, y] := by
  have hnodup : ([t, x, y] ++ [g, h]).Nodup := (List.nodup_append.mp hp.nodup).1
  exact fun hdir => List.disjoint_of_nodup_append hnodup hdir hf

/-- The first process stores an even byte into one of its pages. -/
theorem FirstProcess.store (hp : FirstProcess wild t x y g h k) (hstored : Stored t x y g h k mem)
    (hwalk : Forest.walk (child mem) t (path virtualAddress) = some f) (hf : f ∈ [g, h])
    (heven : byte.toNat % 2 = 0) :
    Step wild (living t k mem) (.store (t <<< 12) virtualAddress)
        (living t k (mem.write (f <<< 12 ||| getOffset virtualAddress) byte)) ∧
      Stored t x y g h k (mem.write (f <<< 12 ||| getOffset virtualAddress) byte) := by
  have hlt : ∀ f ∈ [t, x, y], f.toNat < 2 ^ 44 := fun f hf => hp.lt f (List.mem_append_left _ hf)
  have hflt : f.toNat < 2 ^ 44 := hp.lt f (List.mem_append_right [t, x, y] hf)
  have hroot : t ∈ (living t k mem).roots := ⟨hlt t List.mem_cons_self, mem_live t k mem⟩
  obtain ⟨own, leaked, hinv⟩ := hstored.inv
  have hown := (hinv.owned.walk_eq_some_iff hroot (by simp [path])).mp hwalk
  refine ⟨Step.store (s := living t k mem) byte (mem_live t k mem) (virtualToPhysical_eq_ok hwalk),
    ?_, ⟨own, leaked, hinv.write hown byte⟩, fun a ha => ?_⟩
  · refine hstored.maps.congr hlt fun a ha => Mem.write_of_ne _ _ ?_
    rintro rfl
    rw [page_translated hflt] at ha
    exact hp.page_notMem hf ha
  · by_cases ha' : a = f <<< 12 ||| getOffset virtualAddress
    · rwa [ha', Mem.write_same]
    · rw [Mem.write_of_ne _ _ ha']
      exact hstored.even a ha

/-- The first process ends: its frames come back without entries, and the pages as they are. -/
theorem FirstProcess.deallocatePageTable (hp : FirstProcess wild t x y g h k)
    (hstored : Stored t x y g h k mem) :
    ∃ s own leaked, Step wild (living t k mem) (.deallocatePageTable (t <<< 12))
        { kernel := { k with paging := s }, live := (living t k mem).live.erase (t <<< 12) } ∧
      s.Inv Tables.sampleKernel ((living t k mem).roots \ {t}) own leaked ∧
      s.alloc.freeList = t :: x :: y :: h :: g :: k.paging.alloc.freeList ∧
      (∀ f ∈ s.alloc.freeList, EmptyDirectory s.mem f) ∧
      ∀ a : BitVec 64, a >>> 12 ∉ [t, x, y] → s.mem a = mem a := by
  obtain ⟨own, leaked, hinv⟩ := hstored.inv
  have hroot : t ∈ (living t k mem).roots := ⟨hp.lt t (by simp), mem_live t k mem⟩
  obtain ⟨s, own', hok, hinv', hfree, hempty, hmem⟩ := hstored.maps.deallocatePageTable hinv hroot
    fun f hf hdir => emptyDirectory_of_even (toNat_lt_of_managed hf) <| by
      rintro a rfl
      exact hstored.even a hdir
  exact ⟨s, own', leaked, .deallocatePageTable (mem_live t k mem) hok, hinv', hfree, hempty, hmem⟩

/-- There are frames left for its directories. -/
theorem FirstProcess.exists_freeList (hp : FirstProcess wild t x y g h k) :
    ∃ w z rest, k.paging.alloc.freeList = w :: z :: rest := by
  have henough := hp.enough
  match k.paging.alloc.freeList, henough with
  | w :: z :: rest, _ => exact ⟨w, z, rest, rfl⟩

/-- The second process takes the frames in another order. -/
theorem FirstProcess.createProcess (hp : FirstProcess wild t x y g h k)
    (hinv : s.Inv K live own leaked)
    (hfree : s.alloc.freeList = t :: x :: y :: h :: g :: k.paging.alloc.freeList)
    (hempty : ∀ f ∈ s.alloc.freeList, EmptyDirectory s.mem f) :
    ∃ k' z, R5O5.createProcess wild Processes.sampleProgram { k with paging := s } =
        .ok (secondPid, k') ∧ (k'.table.pd secondPid).sa.satp = t <<< 12 ∧
      MapsTwoPages k'.paging.mem t y h g z ∧
      ∀ a : BitVec 64, a >>> 12 ∉ [t, y, h] → k'.paging.mem a = s.mem a := by
  obtain ⟨w, z, rest, hrest⟩ := hp.exists_freeList
  obtain ⟨_, hload, -, hmap, hkeep⟩ := load_emptyDisk hinv
    (hfree.trans (congrArg (fun l => t :: x :: y :: h :: g :: l) hrest)) hempty secondPid k.table
  obtain ⟨k₁, -, rfl, htable, hcreate⟩ := createProcess_of_load (k := { k with paging := s }) wild
    secondPid hp.settled hp.medium (by decide) reads_emptyDisk hp.slot hload
  refine ⟨_, z, hcreate, ?_, hmap, hkeep⟩
  rw [Kernel.modifyPd, htable]
  rfl

end FirstProcess

/-- The recycled page still holds the byte: it is the first page of the stack of the next
process. -/
theorem FirstProcess.readVirtual {t x y g h : BitVec 64} {k : Kernel}
    (hp : FirstProcess wild t x y g h k) (byte : BitVec 8) (heven : byte.toNat % 2 = 0) :
    ∃ s k', Trace (Step wild) emptyBoot (storeAndEnd (t <<< 12)) s ∧
      R5O5.createProcess wild Processes.sampleProgram s.kernel = .ok (secondPid, k') ∧
      R5O5.readVirtual k'.paging.mem (k'.table.pd secondPid).sa.satp 5 = some byte := by
  have hg := hp.lt g (by simp)
  obtain ⟨hstore, hstored⟩ := hp.store hp.stored hp.maps.walk (by simp) heven
  obtain ⟨s₁, own, leaked, hend, hinv, hfree, hempty, hmem⟩ := hp.deallocatePageTable hstored
  obtain ⟨k', z, hcreate, hsatp, hmap, hkeep⟩ := hp.createProcess hinv hfree hempty
  refine ⟨_, _, ((Trace.refl.snoc hp.step).snoc hstore).snoc hend, hcreate, ?_⟩
  have hgnot : g ∉ [t, y, h] := by
    have hnodup := (List.nodup_append.mp hp.nodup).1
    simp only [List.nodup_cons, List.mem_cons, List.not_mem_nil, or_false, not_or] at hnodup ⊢
    grind
  have hread : k'.paging.mem (g <<< 12 ||| getOffset 5) = byte := by
    rw [hkeep _ (by rw [page_translated hg]; exact hgnot),
      hmem _ (by rw [page_translated hg]; exact hp.page_notMem (by simp))]
    exact Mem.write_same ..
  rw [hsatp]
  exact (readVirtual_of_ok (virtualToPhysical_eq_ok hmap.walk)).trans (congrArg some hread)

/-- A process is created, stores three bytes, and its page table is deallocated. -/
def overwriteAndEnd (pagetable : BitVec 64) : List Op :=
  [.createProcess Processes.sampleProgram, .store pagetable 5, .store pagetable 5,
    .store pagetable 4104, .deallocatePageTable pagetable]

/-- The first process is gone. It has overwritten its byte in the frame `g` with zero, and it has
left the byte `rest` in the frame `h`. -/
structure Overwritten (t x y g h : BitVec 64) (k : Kernel) (rest : BitVec 8) (s : Lifecycle) :
    Prop where
  kernel : s.kernel = { k with paging := s.kernel.paging }
  inv : ∃ live own leaked, s.kernel.paging.Inv Tables.sampleKernel live own leaked
  freeList : s.kernel.paging.alloc.freeList = t :: x :: y :: h :: g :: k.paging.alloc.freeList
  empty : ∀ f ∈ s.kernel.paging.alloc.freeList, EmptyDirectory s.kernel.paging.mem f
  first : s.kernel.paging.mem (g <<< 12 ||| getOffset 5) = 0
  second : s.kernel.paging.mem (h <<< 12 ||| getOffset 4104) = rest
  keep : ∀ a : BitVec 64, a >>> 12 ∉ [t, x, y] → a ≠ h <<< 12 ||| getOffset 4104 →
    a ≠ g <<< 12 ||| getOffset 5 → s.kernel.paging.mem a = k.paging.mem a

/-- The process stores two bytes in each of its pages. -/
theorem FirstProcess.overwrite {t x y g h : BitVec 64} {k : Kernel}
    (hp : FirstProcess wild t x y g h k) (secret rest : BitVec 8) (hsecret : secret.toNat % 2 = 0)
    (hrest : rest.toNat % 2 = 0) :
    ∃ (s₁ s₂ s₃ s₄ : Lifecycle),
      Step wild (living t k k.paging.mem) (.store (t <<< 12) 5) s₁ ∧
      Step wild s₁ (.store (t <<< 12) 5) s₂ ∧ Step wild s₂ (.store (t <<< 12) 4104) s₃ ∧
      Step wild s₃ (.deallocatePageTable (t <<< 12)) s₄ ∧ Overwritten t x y g h k rest s₄ := by
  have hg := hp.lt g (by simp)
  have hh := hp.lt h (by simp)
  obtain ⟨hstep₁, hstored₁⟩ := hp.store hp.stored hp.maps.walk (by simp) hsecret
  obtain ⟨hstep₂, hstored₂⟩ := hp.store hstored₁ hstored₁.maps.walk (by simp)
    (show (0 : BitVec 8).toNat % 2 = 0 from rfl)
  obtain ⟨hstep₃, hstored₃⟩ := hp.store hstored₂ hstored₂.maps.walk_second (by simp) hrest
  obtain ⟨s, own, leaked, hstep₄, hinv, hfree, hempty, hmem⟩ := hp.deallocatePageTable hstored₃
  -- the two bytes lie in different frames
  have hne : g <<< 12 ||| getOffset 5 ≠ h <<< 12 ||| getOffset 4104 := by
    intro heq
    have hpage : (g <<< 12 ||| getOffset 5) >>> 12 = g := page_translated hg
    rw [heq, page_translated hh] at hpage
    have hnodup := (List.nodup_append.mp hp.nodup).1
    simp [hpage] at hnodup
  refine ⟨_, _, _, _, hstep₁, hstep₂, hstep₃, hstep₄, rfl, ⟨_, own, leaked, hinv⟩, hfree, hempty,
    ?_, ?_, ?_⟩
  · refine (hmem _ ?_).trans ((Mem.write_of_ne _ _ hne).trans (Mem.write_same ..))
    rw [page_translated hg]
    exact hp.page_notMem (by simp)
  · refine (hmem _ ?_).trans (Mem.write_same ..)
    rw [page_translated hh]
    exact hp.page_notMem (by simp)
  · intro a ha hah hag
    refine (hmem a ha).trans ?_
    rw [Mem.write_of_ne _ _ hah, Mem.write_of_ne _ _ hag, Mem.write_of_ne _ _ hag]

/-- The next process reuses the frame of the second page as a directory. -/
theorem FirstProcess.reusesFrames {t x y g h : BitVec 64} {k : Kernel} {rest rest' : BitVec 8}
    {s s' : Lifecycle} (hp : FirstProcess wild t x y g h k) (hs : Overwritten t x y g h k rest s)
    (hs' : Overwritten t x y g h k rest' s') :
    Processes.sampleProgram.ReusesFrames wild s.kernel s'.kernel := by
  obtain ⟨w, z, free, hfree⟩ := hp.exists_freeList
  obtain ⟨live, own, leaked, hinv⟩ := hs.inv
  have hio : s.kernel.io = k.io := by rw [hs.kernel]
  have hlist : s.kernel.paging.alloc.freeList = t :: x :: y :: h :: g :: w :: z :: free := by
    rw [hs.freeList, hfree]
  have hlist' : s'.kernel.paging.alloc.freeList = s.kernel.paging.alloc.freeList :=
    hs'.freeList.trans hs.freeList.symm
  refine reusesFrames_emptyDisk (hio ▸ hp.settled) (hio ▸ hp.medium) hlist ?_ ?_
  · intro f hf
    have hmem : f ∈ s.kernel.paging.alloc.freeList := by
      rw [hlist]
      simp only [List.mem_cons] at hf ⊢
      tauto
    exact ⟨hs.empty f hmem, hs'.empty f (hlist' ▸ hmem)⟩
  -- the pages hold the same bytes: only the frame `h` tells the runs apart
  · intro f hf virtualAddress
    have hnodup := hp.nodup
    rw [hfree] at hnodup
    have hne : f ∉ [t, x, y] ∧ f ≠ h := by
      simp only [List.nodup_append, List.nodup_cons, List.mem_cons, List.not_mem_nil, or_false,
        not_or] at hnodup hf ⊢
      grind
    have hlt : f.toNat < 2 ^ 44 := by
      refine toNat_lt_of_managed (hinv.ledger.managed_of_free ?_)
      rw [hlist]
      simp only [List.mem_cons] at hf ⊢
      tauto
    have hpage : (f <<< 12 ||| getOffset virtualAddress) >>> 12 = f := page_translated hlt
    by_cases hfirst : f <<< 12 ||| getOffset virtualAddress = g <<< 12 ||| getOffset 5
    · rw [hfirst, hs.first, hs'.first]
    · have hsecond : f <<< 12 ||| getOffset virtualAddress ≠ h <<< 12 ||| getOffset 4104 := by
        intro heq
        rw [heq, page_translated (hp.lt h (by simp))] at hpage
        exact hne.2 hpage.symm
      rw [hs.keep _ (by rw [hpage]; exact hne.1) hsecond hfirst,
        hs'.keep _ (by rw [hpage]; exact hne.1) hsecond hfirst]

/-- A process that overwrites what it has stored leaves no trace in the pages of the next one. What
it leaves in a frame that becomes a directory does not show, if it does not look like an entry. -/
theorem sameProcess_overwritten : ∃ (s s' : Lifecycle) (pagetable : BitVec 64),
    Trace (ReusingStep fun _ _ _ => 0) (emptyBoot, emptyBoot) (overwriteAndEnd pagetable) (s, s') ∧
    s'.kernel.paging.mem ≠ s.kernel.paging.mem ∧
    (∃ r, R5O5.createProcess (fun _ _ _ => 0) Processes.sampleProgram s.kernel = .ok r) ∧
    Except.Related SameProcess
      (R5O5.createProcess (fun _ _ _ => 0) Processes.sampleProgram s.kernel)
      (R5O5.createProcess (fun _ _ _ => 0) Processes.sampleProgram s'.kernel) := by
  obtain ⟨t, x, y, g, h, k, hp⟩ := exists_firstProcess fun _ _ _ => 0
  obtain ⟨s₁, s₂, s₃, s₄, h₁, h₂, h₃, h₄, hs⟩ := hp.overwrite 6 2 (by decide) (by decide)
  obtain ⟨s₁', s₂', s₃', s₄', h₁', h₂', h₃', h₄', hs'⟩ := hp.overwrite 4 0 (by decide) (by decide)
  -- the steps of both runs; only a new process needs frames
  have hcreate : ReusingStep (fun _ _ _ => 0) (emptyBoot, emptyBoot)
      (.createProcess Processes.sampleProgram)
      (living t k k.paging.mem, living t k k.paging.mem) :=
    ⟨hp.step, hp.step, fun program _ => reusesFrames_emptyBoot program _⟩
  have hsecret : ReusingStep _ (living t k k.paging.mem, living t k k.paging.mem)
      (.store (t <<< 12) 5) (s₁, s₁') := ⟨h₁, h₁', nofun⟩
  have hzero : ReusingStep _ (s₁, s₁') (.store (t <<< 12) 5) (s₂, s₂') := ⟨h₂, h₂', nofun⟩
  have hrest : ReusingStep _ (s₂, s₂') (.store (t <<< 12) 4104) (s₃, s₃') := ⟨h₃, h₃', nofun⟩
  have hend : ReusingStep _ (s₃, s₃') (.deallocatePageTable (t <<< 12)) (s₄, s₄') :=
    ⟨h₄, h₄', nofun⟩
  have hrun := ((((Trace.refl.snoc hcreate).snoc hsecret).snoc hzero).snoc hrest).snoc hend
  have hreuse := hp.reusesFrames hs hs'
  refine ⟨s₄, s₄', t <<< 12, hrun, ?_, ?_,
    sameProcess_of_trace hrun Processes.sampleProgram fun _ => hreuse⟩
  · intro heq
    have hbyte : (0 : BitVec 8) = 2 :=
      hs'.second.symm.trans ((congrFun heq (h <<< 12 ||| getOffset 4104)).trans hs.second)
    cases hbyte
  · obtain ⟨_, _, _, hinv⟩ := hs.inv
    obtain ⟨k', -, hok, -⟩ := hp.createProcess hinv hs.freeList hs.empty
    rw [hs.kernel]
    exact ⟨_, hok⟩

/-- The stack of a new process reveals what the one before it has stored. -/
theorem createProcess_reveals : ∃ (wild : Wild) (ops : List Op) (s s' : Lifecycle)
    (r r' : Pid × Kernel), Trace (Step wild) emptyBoot ops s ∧ Trace (Step wild) emptyBoot ops s' ∧
      R5O5.createProcess wild Processes.sampleProgram s.kernel = .ok r ∧
      R5O5.createProcess wild Processes.sampleProgram s'.kernel = .ok r' ∧ ¬SameProcess r r' := by
  let wild : Wild := fun _ _ _ => 0
  obtain ⟨t, x, y, g, h, k, hp⟩ := exists_firstProcess wild
  obtain ⟨s, k, hrun, hok, hread⟩ := hp.readVirtual 6 (by decide)
  obtain ⟨s', k', hrun', hok', hread'⟩ := hp.readVirtual 0 (by decide)
  refine ⟨wild, storeAndEnd (t <<< 12), s, s', _, _, hrun, hrun', hok, hok', ?_⟩
  rintro ⟨-, hsame⟩
  have heq := hsame 5
  rw [hread, hread'] at heq
  cases heq

end Lifecycle

end Sample
end R5O5
