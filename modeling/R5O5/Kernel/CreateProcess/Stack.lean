import R5O5.Kernel.CreateProcess.Extent
import R5O5.Kernel.ElfReader.Acceptance

/-!
# Where the loader puts the stack

The stack of a program begins at the largest page number that one of its segments ends before, in
64-bit arithmetic, while the page table keeps 27 bits of a page number.

## Main definitions

- `StackPlaced`: the stack lies above all segments, with the stack pointer at its end;
- `StackFits`: there is room for it.

## Main results

- `programLoader_stackPlaced_iff`: the stack is placed so exactly when there is room.
-/

namespace R5O5

/-- The first page number of the stack, as the page table has it. -/
def firstStackPage (segs : List Elfread) : ℕ := (stackBegin segs).toNat % 2 ^ 27

/-- The second page number of the stack. -/
def secondStackPage (segs : List Elfread) : ℕ := (stackBegin segs + 1).toNat % 2 ^ 27

/-- The two pages of the stack lie above all pages of the segments, and the stack pointer holds the
first address after them. -/
structure StackPlaced (segs : List Elfread) (sp : BitVec 64) : Prop where
  distinct : firstStackPage segs ≠ secondStackPage segs
  above : ∀ seg ∈ segs, ∀ n ∈ seg.pages, n < firstStackPage segs ∧ n < secondStackPage segs
  apart : ∀ seg ∈ segs, firstStackPage segs ∉ seg.pages ∧ secondStackPage segs ∉ seg.pages
  sp_eq : sp.toNat = (secondStackPage segs + 1) * pgsize

/-- There are two pages above all segments. The other case is that of segments without memory, one
of them at the last page of the address space: the page numbers then wrap around together. -/
def StackFits (segs : List Elfread) : Prop :=
  (∀ seg ∈ segs, seg.vaddr.toNat + seg.memsz.toNat ≤ (2 ^ 27 - 2) * pgsize) ∨
    (∀ seg ∈ segs, seg.memsz.toNat = 0) ∧ ∃ seg ∈ segs, seg.vaddr.toNat = 2 ^ 64 - pgsize

/-! ## The page where the stack begins -/

/-- The page number after a segment, as the loader computes it. -/
def Elfread.endPage (seg : Elfread) : ℕ :=
  (ceilDiv (seg.vaddr + seg.memsz) (BitVec.ofNat 64 pgsize)).toNat

section StackBegin

variable {seg : Elfread} {segs : List Elfread}

/-- The addition in `ceilDiv` wraps for an end in the last page of the address space. -/
theorem Elfread.Admitted.endPage_eq (h : seg.Admitted) :
    seg.endPage = (seg.vaddr.toNat + seg.memsz.toNat + 4095) % 2 ^ 64 / 4096 := by
  have hwrap := h.no_wrap
  have hsize : (BitVec.ofNat 64 pgsize).toNat = 4096 := by decide
  have hsum : (seg.vaddr + seg.memsz + BitVec.ofNat 64 pgsize - 1).toNat =
      (seg.vaddr.toNat + seg.memsz.toNat + 4095) % 2 ^ 64 := by
    simp only [pgsize]
    bv_omega
  rw [Elfread.endPage, ceilDiv, BitVec.toNat_udiv, hsize, hsum]

theorem toNat_max (x y : BitVec 64) : (max x y).toNat = Nat.max x.toNat y.toNat := by
  rw [max]
  split
  case isTrue h => exact (Nat.max_eq_left (Nat.le_of_lt h)).symm
  case isFalse h => exact (Nat.max_eq_right (Nat.le_of_not_lt h)).symm

/-- The stack begins at the largest of these page numbers. -/
theorem foldl_stackAfter (stack : BitVec 64) :
    stack.toNat ≤ (segs.foldl stackAfter stack).toNat ∧
      (∀ seg ∈ segs, seg.endPage ≤ (segs.foldl stackAfter stack).toNat) ∧
      ((segs.foldl stackAfter stack).toNat = stack.toNat ∨
        ∃ seg ∈ segs, (segs.foldl stackAfter stack).toNat = seg.endPage) := by
  induction segs generalizing stack with
  | nil => exact ⟨Nat.le_refl _, fun seg hseg => absurd hseg List.not_mem_nil, Or.inl rfl⟩
  | cons seg segs ih =>
    -- one segment takes the maximum
    have hround : (stackAfter stack seg).toNat = Nat.max stack.toNat seg.endPage := toNat_max ..
    obtain ⟨hge, hall, horigin⟩ := ih (stackAfter stack seg)
    rw [hround] at hge horigin
    rw [List.foldl_cons]
    refine ⟨(Nat.le_max_left ..).trans hge, ?_, ?_⟩
    · intro seg' hseg'
      rcases List.mem_cons.mp hseg' with rfl | hseg'
      · exact (Nat.le_max_right ..).trans hge
      · exact hall seg' hseg'
    · rcases horigin with heq | ⟨seg', hseg', heq⟩
      · rcases Nat.le_total seg.endPage stack.toNat with hle | hle
        · exact Or.inl (heq.trans (Nat.max_eq_left hle))
        · exact Or.inr ⟨seg, List.mem_cons_self, heq.trans (Nat.max_eq_right hle)⟩
      · exact Or.inr ⟨seg', List.mem_cons_of_mem _ hseg', heq⟩

theorem endPage_le_stackBegin (hseg : seg ∈ segs) : seg.endPage ≤ (stackBegin segs).toNat :=
  (foldl_stackAfter 0).2.1 seg hseg

theorem stackBegin_cases (segs : List Elfread) :
    (stackBegin segs).toNat = 0 ∨ ∃ seg ∈ segs, (stackBegin segs).toNat = seg.endPage :=
  (foldl_stackAfter 0).2.2

/-- A page number is at most `2 ^ 52 - 1`. -/
theorem stackBegin_lt (hsegs : ∀ seg ∈ segs, seg.Admitted) :
    (stackBegin segs).toNat < 2 ^ 52 := by
  rcases stackBegin_cases segs with hzero | ⟨seg, hseg, heq⟩
  · omega
  · rw [heq, (hsegs seg hseg).endPage_eq]
    omega

/-- The stack pointer that the loader computes. -/
theorem toNat_stackPointer (hsegs : ∀ seg ∈ segs, seg.Admitted) :
    ((stackBegin segs <<< 12) + 2 * BitVec.ofNat 64 pgsize).toNat =
      ((stackBegin segs).toNat * 4096 + 8192) % 2 ^ 64 := by
  have hlt := stackBegin_lt hsegs
  rw [BitVec.toNat_add, BitVec.toNat_shiftLeft, Nat.shiftLeft_eq,
    Nat.mod_eq_of_lt (a := _ * 2 ^ 12) (by omega)]
  rfl

/-! ## Placement -/

/-- With room above the segments the page numbers are those of the 64-bit arithmetic. -/
theorem stackPlaced_of_fits (hsegs : ∀ seg ∈ segs, seg.Admitted) (hfits : StackFits segs) :
    StackPlaced segs ((stackBegin segs <<< 12) + 2 * BitVec.ofNat 64 pgsize) := by
  have hsp := toNat_stackPointer hsegs
  rcases hfits with hroom | ⟨hempty, last, hlast, hvaddr⟩
  -- the numbers of the stack pages are not truncated to 27 bits
  · have hbegin : (stackBegin segs).toNat ≤ 2 ^ 27 - 2 := by
      rcases stackBegin_cases segs with hzero | ⟨seg, hseg, heq⟩
      · omega
      · have hend := hroom seg hseg
        rw [heq, (hsegs seg hseg).endPage_eq]
        simp only [pgsize] at hend
        omega
    have hfirst : firstStackPage segs = (stackBegin segs).toNat :=
      Nat.mod_eq_of_lt (by omega)
    have hsecond : secondStackPage segs = (stackBegin segs).toNat + 1 := by
      rw [secondStackPage]
      bv_omega
    have habove : ∀ seg ∈ segs, ∀ n ∈ seg.pages, n < (stackBegin segs).toNat := by
      intro seg hseg n hn
      obtain ⟨i, hi, rfl⟩ := Elfread.mem_pages.mp hn
      have hend := hroom seg hseg
      have hle := endPage_le_stackBegin hseg
      rw [(hsegs seg hseg).endPage_eq] at hle
      simp only [pgsize] at *
      omega
    rw [← hfirst] at habove
    refine ⟨by omega, fun seg hseg n hn => ?_, fun seg hseg => ⟨fun hn => ?_, fun hn => ?_⟩, ?_⟩
    · have hlt := habove seg hseg n hn
      exact ⟨hlt, by omega⟩
    · exact Nat.lt_irrefl _ (habove seg hseg _ hn)
    · have hlt := habove seg hseg _ hn
      omega
    · rw [hsp, hsecond]
      simp only [pgsize]
      omega
  · -- the page numbers are `2 ^ 27 - 1` and 0, and there are no pages below
    have hbegin : (stackBegin segs).toNat = 2 ^ 52 - 1 := by
      have hle := endPage_le_stackBegin hlast
      have hlt := stackBegin_lt hsegs
      rw [(hsegs last hlast).endPage_eq, hempty last hlast, hvaddr] at hle
      simp only [pgsize] at hle
      omega
    have hfirst : firstStackPage segs = 2 ^ 27 - 1 := by
      rw [firstStackPage, hbegin]
      decide
    have hsecond : secondStackPage segs = 0 := by
      rw [secondStackPage]
      bv_omega
    have hpages : ∀ seg ∈ segs, ∀ n, n ∉ seg.pages := by
      intro seg hseg n hn
      obtain ⟨i, hi, -⟩ := Elfread.mem_pages.mp hn
      rw [hempty seg hseg] at hi
      cases hi
    refine ⟨by rw [hfirst, hsecond]; decide, fun seg hseg n hn => absurd hn (hpages seg hseg n),
      fun seg hseg => ⟨hpages seg hseg _, hpages seg hseg _⟩, ?_⟩
    rw [hsp, hsecond, hbegin]
    decide

/-- A segment whose end makes `ceilDiv` wrap has the last page number of all, which nothing is
above. -/
theorem StackPlaced.end_le {sp : BitVec 64} (h : StackPlaced segs sp)
    (hsegs : ∀ seg ∈ segs, seg.Admitted) (hseg : seg ∈ segs) :
    seg.vaddr.toNat + seg.memsz.toNat + 4095 < 2 ^ 64 := by
  by_contra hge
  have hadmitted := hsegs seg hseg
  have hwrap := hadmitted.no_wrap
  have haligned := hadmitted.aligned
  simp only [pgsize] at haligned
  have hmem : 2 ^ 27 - 1 ∈ seg.pages :=
    Elfread.mem_pages.mpr ⟨seg.memsz.toNat - 1, by omega, by simp only [pgsize]; omega⟩
  have hlt := (h.above seg hseg _ hmem).1
  have hpage : firstStackPage segs < 2 ^ 27 := Nat.mod_lt _ (by decide)
  omega

/-- Nothing else places the stack so. -/
theorem fits_of_stackPlaced (hsegs : ∀ seg ∈ segs, seg.Admitted)
    (h : StackPlaced segs ((stackBegin segs <<< 12) + 2 * BitVec.ofNat 64 pgsize)) :
    StackFits segs := by
  have hlt := stackBegin_lt hsegs
  have hsp := h.sp_eq
  rw [toNat_stackPointer hsegs] at hsp
  have hsecond : secondStackPage segs = ((stackBegin segs).toNat + 1) % 2 ^ 27 := by
    rw [secondStackPage]
    bv_omega
  rw [hsecond] at hsp
  simp only [pgsize] at hsp
  -- the stack pointer is right only if no page number is cut, or if both wrap
  have hbegin : (stackBegin segs).toNat ≤ 2 ^ 27 - 2 ∨ (stackBegin segs).toNat = 2 ^ 52 - 1 := by
    omega
  rcases hbegin with hbegin | hbegin
  · refine Or.inl fun seg hseg => ?_
    have hle := endPage_le_stackBegin hseg
    have hend := h.end_le hsegs hseg
    rw [(hsegs seg hseg).endPage_eq] at hle
    simp only [pgsize]
    omega
  · have hzero : secondStackPage segs = 0 := by
      rw [hsecond, hbegin]
      decide
    have hempty : ∀ seg ∈ segs, seg.memsz.toNat = 0 := by
      intro seg hseg
      by_contra hpos
      -- the first page of the segment would lie below page 0
      have hmem : seg.vaddr.toNat / pgsize % 2 ^ 27 ∈ seg.pages :=
        Elfread.mem_pages.mpr ⟨0, Nat.pos_of_ne_zero hpos, by rw [Nat.add_zero]⟩
      have hbelow := (h.above seg hseg _ hmem).2
      omega
    refine Or.inr ⟨hempty, ?_⟩
    rcases stackBegin_cases segs with hnone | ⟨seg, hseg, heq⟩
    · omega
    · refine ⟨seg, hseg, ?_⟩
      have hend := h.end_le hsegs hseg
      have haligned := (hsegs seg hseg).aligned
      rw [hbegin, (hsegs seg hseg).endPage_eq] at heq
      rw [hempty seg hseg] at heq hend
      simp only [pgsize] at *
      omega

end StackBegin

/-! ## The loader -/

section Loader

variable {wild : Wild} {program : Program} {pid : Pid} {k k' : Kernel}

/-- The loop over the segments ends with the page where the stack begins. -/
theorem loadSegments_stack {startBlock startOffset pagetable : BitVec 64} {elfNodes : ElfNodes}
    {fuel : ℕ} {ptr : ElfreadPtr} {nodes : List (Fin elfSize)} {io io' : CachedDisk}
    {s s' : Paging} {stack stack' : BitVec 64}
    (hlist : LinkedList.IsList (fun i => (elfNodes i).next) ptr nodes)
    (hok : loadSegments wild startBlock startOffset pagetable elfNodes fuel ptr (io, s, stack) =
      .ok (io', s', stack')) :
    stack' = (nodes.map elfNodes).foldl stackAfter stack := by
  -- along the list: a loop that returns had fuel for all its nodes
  induction nodes generalizing fuel ptr io s stack with
  | nil =>
    obtain rfl : ptr = none := hlist
    cases fuel <;>
    · cases hok
      rfl
  | cons n nodes ih =>
    obtain ⟨rfl, hrest⟩ := hlist
    cases fuel with
    | zero => cases hok
    | succ fuel =>
      obtain ⟨⟨io₁, s₁⟩, -, hloop⟩ := Except.bind_eq_ok.mp hok
      exact ih hrest hloop

/-- What the loader has done for the stack when it returns `True`. -/
theorem programLoader_stack (hok : programLoader wild program pid k = .ok (true, k')) :
    ∃ elfRead io elfNodes nodes,
      elfReader wild program.startBlock program.startOffset program.endBlock program.endOffset k.io
        k.elfNodes = .ok (elfRead, io, elfNodes) ∧
      elfRead.nodes elfNodes = some nodes ∧
      (∀ seg ∈ nodes.map elfNodes, seg.Admitted) ∧
      (∃ s₁ s₂, allocateVirtualPage (k'.table.pd pid).sa.satp (stackBegin (nodes.map elfNodes))
          allPermissions s₁ = .ok s₂ ∧
        allocateVirtualPage (k'.table.pd pid).sa.satp (stackBegin (nodes.map elfNodes) + 1)
          allPermissions s₂ = .ok k'.paging) ∧
      (k'.table.pd pid).sa.reg spIndex =
        (stackBegin (nodes.map elfNodes) <<< 12) + 2 * BitVec.ofNat 64 pgsize := by
  obtain ⟨elfRead, io, elfNodes, pagetable, s₁, io₂, s₂, stack, s₃, s₄, helf, -, -, hload, hstack₁,
    hstack₂, rfl⟩ := programLoader_eq_ok hok
  obtain ⟨nodes, hlist, hlength, hadmitted⟩ := elfReader_admitted helf
  obtain rfl := loadSegments_stack hlist hload
  refine ⟨elfRead, io, elfNodes, nodes, helf, hlist.toList_eq hlength, hadmitted, ?_⟩
  simp only [ProcessTable.modify_pd_self]
  exact ⟨⟨s₂, s₃, hstack₁, hstack₂⟩, Function.update_self ..⟩

/-- A program that is loaded has its stack above all its segments, with the stack pointer at its
end, exactly when the segments leave room for it. -/
theorem programLoader_stackPlaced_iff
    (hok : programLoader wild program pid k = .ok (true, k')) :
    ∃ elfRead io elfNodes nodes,
      elfReader wild program.startBlock program.startOffset program.endBlock program.endOffset k.io
        k.elfNodes = .ok (elfRead, io, elfNodes) ∧
      elfRead.nodes elfNodes = some nodes ∧
      (∃ s₁ s₂, allocateVirtualPage (k'.table.pd pid).sa.satp (stackBegin (nodes.map elfNodes))
          allPermissions s₁ = .ok s₂ ∧
        allocateVirtualPage (k'.table.pd pid).sa.satp (stackBegin (nodes.map elfNodes) + 1)
          allPermissions s₂ = .ok k'.paging) ∧
      (StackPlaced (nodes.map elfNodes) ((k'.table.pd pid).sa.reg spIndex) ↔
        StackFits (nodes.map elfNodes)) := by
  obtain ⟨elfRead, io, elfNodes, nodes, helf, hnodes, hadmitted, hpages, hsp⟩ :=
    programLoader_stack hok
  refine ⟨elfRead, io, elfNodes, nodes, helf, hnodes, hpages, ?_⟩
  rw [hsp]
  exact ⟨fits_of_stackPlaced hadmitted, stackPlaced_of_fits hadmitted⟩

end Loader

section Sample

open Processes

variable {K : KernelImage} {spaces : BitVec 64 → Option Space} {s : Paging}

/-- The stack of the sample program starts behind page 0. -/
theorem programLoader_stackPlaced_sample : ∃ k',
    programLoader (fun _ _ _ => 0) sampleProgram ⟨0, by decide⟩ sampleBoot.kernel =
      .ok (true, k') ∧
    StackPlaced [sampleSegment] ((k'.table.pd ⟨0, by decide⟩).sa.reg spIndex) := by
  obtain ⟨k', hok⟩ := createProcess_sampleBoot fun _ _ _ => 0
  obtain ⟨-, k₁, hload, -⟩ := createProcess_eq_ok hok
  obtain ⟨elfRead, io, elfNodes, nodes, helf, hnodes, -, hiff⟩ :=
    programLoader_stackPlaced_iff hload
  have hs : Settled sampleBoot.kernel.io := settled_binit
  obtain ⟨io', helf', -, -⟩ := elfReader_sample (fun _ _ _ => 0) sampleBoot.kernel.elfNodes hs rfl
  cases (helf.symm.trans helf')
  obtain rfl : [sampleNode] = nodes := Option.some.inj hnodes
  refine ⟨k₁, hload, hiff.mpr (Or.inl ?_)⟩
  decide

/-- The sample program with its segment in the last page below `2 ^ 39`, without contents. -/
def edgeDisk (p : ℕ) : BitVec 8 :=
  if p = 81 then 0xf0 else if p = 82 ∨ p = 83 then 0xff else if p = 84 then 0x7f
  else if p = 96 then 0 else sampleDisk p

/-- Its segment. -/
def edgeSegment : Elfread :=
  { sampleSegment with
    vaddr := 0x7ffffff000
    filesz := 0 }

/-- The sample program at the end of the address space has one segment. -/
theorem layout_edge :
    sampleProgram.layout edgeDisk =
      { reads := [(0, 64), (64, 56)]
        found := some (0, [edgeSegment]) } := by
  decide +kernel

/-- The page numbers of this program are the last one, 0 and 1, so that it is loaded. -/
theorem load_edge (pid : Pid) (table : ProcessTable) (h : Refines K spaces s)
    (hfree : 13 ≤ s.alloc.numFreePages) :
    ∃ r, sampleProgram.load edgeDisk pid s table = .ok (true, r) := by
  obtain ⟨t, s₁, htable, -, h₁, hcount₁⟩ := h.exists_allocatePageTable (by omega)
  have ht : ∀ A : Space, Function.update spaces t (some A) t = some A :=
    fun A => Function.update_self ..
  have hnot : isVirtualPageAllocated s₁.mem (t <<< 12) (getVirtPage (0x7ffffff000 + 0)) = false :=
    Bool.eq_false_iff.mpr fun heq =>
      absurd ((h₁.isVirtualPageAllocated_iff (ht _)).mp heq) (Finset.notMem_empty _)
  have hnew :
      (getVirtPage (0x7ffffff000 + 0)).toNat % 2 ^ 27 ∉ (AddressSpace.empty : Space).pages :=
    Finset.notMem_empty _
  obtain ⟨s₂, hpage, h₂, hcount₂⟩ :=
    h₁.exists_allocateVirtualPage (ht _) allPermissions (by omega) hnew
  rw [Function.update_idem] at h₂
  have hnew₃ : (stackBegin [edgeSegment]).toNat % 2 ^ 27 ∉ (AddressSpace.empty.mapPage
      ((getVirtPage (0x7ffffff000 + 0)).toNat % 2 ^ 27) : Space).pages := by decide
  obtain ⟨s₃, hstack₁, h₃, hcount₃⟩ :=
    h₂.exists_allocateVirtualPage (ht _) allPermissions (by omega) hnew₃
  rw [Function.update_idem] at h₃
  have hnew₄ : (stackBegin [edgeSegment] + 1).toNat % 2 ^ 27 ∉ ((AddressSpace.empty.mapPage
      ((getVirtPage (0x7ffffff000 + 0)).toNat % 2 ^ 27)).mapPage
        ((stackBegin [edgeSegment]).toNat % 2 ^ 27) : Space).pages := by decide
  obtain ⟨s₄, hstack₂, -⟩ :=
    h₃.exists_allocateVirtualPage (ht _) allPermissions (by omega) hnew₄
  -- the segment takes one page and no bytes from the disk
  have hsegment : sampleProgram.loadSegment edgeDisk (t <<< 12) s₁ edgeSegment = .ok s₂ := by
    have hbyte : (List.range edgeSegment.memsz.toNat).foldlM
        (allocateByte (t <<< 12) edgeSegment.vaddr) s₁ = .ok s₂ := by
      change (allocateByte (t <<< 12) 0x7ffffff000 s₁ 0 >>= fun s => [].foldlM _ s) = _
      change ((if !isVirtualPageAllocated s₁.mem (t <<< 12) (getVirtPage (0x7ffffff000 + 0)) then
        allocateVirtualPage (t <<< 12) (getVirtPage (0x7ffffff000 + 0)) allPermissions s₁
        else .ok s₁) >>= fun s => .ok s) = _
      rw [hnot, Bool.not_false, if_pos rfl, hpage]
      rfl
    rw [Program.loadSegment, hbyte, Except.ok_bind, if_pos (by decide)]
    rfl
  rw [Program.load, layout_edge]
  dsimp only
  rw [htable, Except.ok_bind]
  dsimp only
  rw [List.foldlM_cons, hsegment, Except.ok_bind, List.foldlM_nil]
  change ∃ r, (allocateVirtualPage _ _ _ s₂ >>= _) = _
  rw [hstack₁, Except.ok_bind, hstack₂]
  exact ⟨_, rfl⟩

/-- This program is loaded with its stack at page 0, below the segment. -/
theorem stack_below_segment :
    ¬∀ (wild : Wild) (program : Program) (pid : Pid) (k k' : Kernel) (elfRead : ElfreadList)
      (io : CachedDisk) (elfNodes : ElfNodes) (nodes : List (Fin elfSize)),
      programLoader wild program pid k = .ok (true, k') →
      elfReader wild program.startBlock program.startOffset program.endBlock program.endOffset k.io
        k.elfNodes = .ok (elfRead, io, elfNodes) →
      elfRead.nodes elfNodes = some nodes →
      StackPlaced (nodes.map elfNodes) ((k'.table.pd pid).sa.reg spIndex) := by
  intro hall
  have hinv : Inv Tables.sampleKernel sampleDisk (fun _ => none) sampleBoot :=
    inv_boot fun _ _ => rfl
  have hreads : ∀ r ∈ (sampleProgram.layout edgeDisk).reads, OnDisk r := by
    rw [layout_edge]
    decide
  -- the sample kernel with this program on its disk
  obtain ⟨r, hload⟩ := load_edge ⟨0, by decide⟩ (bootWith edgeDisk).table hinv.refines (by decide)
  obtain ⟨⟨loaded, k'⟩, hok, heq⟩ :=
    (programLoader_bootWith ⟨0, by decide⟩ sampleProgram edgeDisk ⟨rfl, rfl⟩ hreads).exists_ok_left
      hload
  obtain rfl : loaded = true := (congrArg Prod.fst heq).symm
  have hs : Settled (bootWith edgeDisk).io := settled_binit
  obtain ⟨elfRead, io, elfNodes, helf, -, -, hcarries⟩ :=
    elfReader_layout (fun _ _ _ => 0) hs rfl (bootWith edgeDisk).elfNodes (by decide) hreads
  change elfRead.Carries elfNodes (sampleProgram.layout edgeDisk).found at hcarries
  rw [layout_edge] at hcarries
  obtain ⟨-, -, nodes, hlist, hlength, hsegments⟩ := hcarries
  obtain ⟨n, rfl⟩ : ∃ n, nodes = [n] := List.length_eq_one_iff.mp (by
    rw [← List.length_map (f := fun n => (elfNodes n).unlink), hsegments]
    rfl)
  have hplaced := hall _ _ _ _ k' _ _ _ _ hok helf (hlist.toList_eq hlength)
  have hdata : (elfNodes n).unlink = edgeSegment := List.singleton_inj.mp hsegments
  -- the page of the segment is the last one
  have hmem : 2 ^ 27 - 1 ∈ (elfNodes n).pages := by
    have hpages : (elfNodes n).pages = edgeSegment.pages := by
      rw [← hdata]
      rfl
    rw [hpages, Elfread.mem_pages]
    exact ⟨0, by decide, by decide⟩
  have hlt := (hplaced.above (elfNodes n) List.mem_cons_self _ hmem).1
  have hpage : firstStackPage [elfNodes n] < 2 ^ 27 := Nat.mod_lt _ (by decide)
  exact absurd hlt (by change ¬2 ^ 27 - 1 < firstStackPage [elfNodes n]; omega)

end Sample

end R5O5
