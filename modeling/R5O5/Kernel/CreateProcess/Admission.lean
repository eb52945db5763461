import R5O5.Kernel.CreateProcess.Extent
import R5O5.Kernel.CreateProcess.Stack
import R5O5.Kernel.Paging.Demand

/-!
# Which programs are admitted

A program whose headers are accepted becomes a process when its contents lie on the disk, its stack
does not meet its segments, and there are as many free frames as its pages take; else the kernel
stops with an error. With no page deallocated the frames that are still free follow from the
programs of all processes.

## Main definitions

- `Program.Fits`: what a program with these segments needs to be admitted;
- `Created.frames`: the frames a process takes.

## Main results

- `Accounted.programLoader_cases`: how the loader ends for an accepted program;
- `Processes.createProcess_ok_iff`: in every run, the free frames and the programs that are
  admitted.
-/

namespace R5O5

/-- The pages of the segments, in addition to others. -/
def addPages (pages : Finset ℕ) (segs : List Elfread) : Finset ℕ :=
  segs.foldl (fun pages seg => pages ∪ seg.pages) pages

/-- The pages of the stack are two further pages. -/
def StackFree (segs : List Elfread) : Prop :=
  firstStackPage segs ∉ addPages ∅ segs ∧
    secondStackPage segs ∉ insert (firstStackPage segs) (addPages ∅ segs)

/-- The messages with which the loader stops when a program whose headers are accepted does not fit
in. -/
def loadErrors : List String :=
  ["allocatePage: No Free Page", "readBytesVirtual: block exceeds disk size",
    "allocateVirtualPage: Virtual Page Already given a physical page"]

/-- What a program with these segments needs to be admitted with `free` free frames. -/
structure Program.Fits (program : Program) (segs : List Elfread) (free : ℕ) : Prop where
  contents : ∀ seg ∈ segs, program.ContentsOnDisk seg
  stack : StackFree segs
  frames : 1 + frameDemand (programPages segs) ≤ free

section Pages

variable {pages : Finset ℕ} {segs : List Elfread}

/-- The pages of a program are those of its segments and two for the stack. -/
theorem programPages_eq (segs : List Elfread) : programPages segs =
    insert (secondStackPage segs) (insert (firstStackPage segs) (addPages ∅ segs)) := by
  ext n
  simp only [programPages, stackPages, addPages, firstStackPage, secondStackPage,
    Finset.mem_insert, Finset.mem_union, Finset.mem_singleton]
  tauto

theorem subset_addPages : pages ⊆ addPages pages segs := by
  induction segs generalizing pages with
  | nil => exact Finset.Subset.refl _
  | cons seg segs ih => exact Finset.subset_union_left.trans ih

end Pages

namespace Accounted

variable {K : KernelImage} {spaces : BitVec 64 → Option Space} {s s' : Paging} {A : Space}
  {t : BitVec 64} {wild : Wild} {program : Program} {io io' : CachedDisk} {seg : Elfread}

/-- With all its pages mapped, a segment is copied unless it ends behind the disk. -/
theorem readBytesVirtual_cases (h : Accounted K spaces s) (ht : spaces t = some A) (hs : Settled io)
    {diskBlockNum offset : BitVec 64} (hoffset : offset.toNat ≤ bsize)
    (hblock : diskBlockNum.toNat < diskSize) (wild : Wild) (vaddr nBytes : BitVec 64)
    (hmapped : ∀ i < nBytes.toNat, (vaddr.toNat + i) / pgsize % 2 ^ 27 ∈ A.pages) :
    (∃ io' mem, R5O5.readBytesVirtual wild diskBlockNum offset nBytes vaddr (t <<< 12) io s.mem =
        .ok (io', mem) ∧
      diskBlockNum.toNat * bsize + offset.toNat + nBytes.toNat ≤ diskSize * bsize ∧
      Settled io' ∧ io'.disk = io.disk ∧
      ∃ A' : Space, Accounted K (Function.update spaces t (some A')) { s with mem } ∧
        A'.pages = A.pages ∧
        A'.bytes = loadBytes io.disk (diskBlockNum.toNat * bsize + offset.toNat) vaddr.toNat
          nBytes.toNat A.bytes) ∨
    (R5O5.readBytesVirtual wild diskBlockNum offset nBytes vaddr (t <<< 12) io s.mem =
        .error (.error "readBytesVirtual: block exceeds disk size") ∧
      diskSize * bsize < diskBlockNum.toNat * bsize + offset.toNat + nBytes.toNat) := by
  let start := diskBlockNum.toNat * bsize + offset.toNat
  -- after `k` bytes the address space holds them, and its pages are the same
  let J (k : ℕ) (mem : Mem) : Prop :=
    ∃ A' : Space, Accounted K (Function.update spaces t (some A')) { s with mem } ∧
      A'.pages = A.pages ∧ A'.bytes = loadBytes io.disk start vaddr.toNat k A.bytes
  have hbyte : StoresByte vaddr (t <<< 12) io.disk start nBytes.toNat J fun _ => False := by
    rintro k hlt mem₁ ⟨A₁, h₁, hpages, hbytes⟩
    have ht₁ : Function.update spaces t (some A₁) t = some A₁ := Function.update_self ..
    rcases h₁.virtualToPhysical_cases ht₁ (vaddr + BitVec.ofNat 64 k) with
      ⟨-, physicaladdr, hphys⟩ | ⟨hnot, -⟩
    · obtain ⟨hmapped₁, hstore⟩ := h₁.store ht₁ hphys (io.disk (start + k))
      rw [Function.update_idem] at hstore
      refine Or.inl ⟨physicaladdr, hphys, _, hstore, hpages, ?_⟩
      show Function.update A₁.bytes _ _ = _
      rw [loadBytes_succ, hbytes, spaceAddr_add]
    -- a byte without a translation lies in no page
    · rw [spaceAddr_div, getVirtPage_add, hpages] at hnot
      exact absurd (hmapped k hlt) hnot
  have hinit : J 0 s.mem := ⟨A, by rwa [Function.update_eq_self_iff.mpr ht.symm], rfl, rfl⟩
  rcases readBytesVirtual_rule hs hoffset hblock wild hinit hbyte with
    ⟨io₁, mem₁, hok, hle, hsettled, hdisk, hJ⟩ | herr | ⟨e, -, hfalse⟩
  · exact Or.inl ⟨io₁, mem₁, hok, hle, hsettled, hdisk, hJ⟩
  · exact Or.inr herr
  · exact hfalse.elim

/-- The segment is loaded, or its contents are not on the disk, or there are not enough frames. -/
theorem loadSegment_cases (h : Accounted K spaces s) (ht : spaces t = some A) (hs : Settled io)
    (hstart : program.startBlock.toNat < diskSize) (wild : Wild)
    (hfilesz : seg.filesz.toNat ≤ seg.memsz.toNat) :
    (program.ContentsOnDisk seg ∧ ∃ io' s' A',
      R5O5.loadSegment wild program.startBlock program.startOffset (t <<< 12) seg io s =
        .ok (io', s') ∧
      Settled io' ∧ io'.disk = io.disk ∧ Accounted K (Function.update spaces t (some A')) s' ∧
      A'.pages = A.pages ∪ seg.pages ∧
      s.alloc.numFreePages + frameDemand A.pages =
        s'.alloc.numFreePages + frameDemand A'.pages) ∨
    ((∃ message ∈ loadErrors,
        R5O5.loadSegment wild program.startBlock program.startOffset (t <<< 12) seg io s =
          .error (.error message)) ∧
      (¬program.ContentsOnDisk seg ∨
        s.alloc.numFreePages + frameDemand A.pages < frameDemand (A.pages ∪ seg.pages))) := by
  rw [R5O5.loadSegment]
  rcases h.allocateBytes_cases ht seg.vaddr seg.memsz.toNat with
    ⟨s₁, A₁, hok, h₁, -, hpages₁, hcount⟩ | ⟨herr, hlt⟩
  case inr =>
    rw [herr]
    exact Or.inr ⟨⟨_, by simp [loadErrors], rfl⟩, Or.inr hlt⟩
  rw [hok, Except.ok_bind]
  dsimp only
  have ht₁ : Function.update spaces t (some A₁) t = some A₁ := Function.update_self ..
  have hpos := program.segmentPos_eq seg hstart
  have hblock := program.toNat_segmentBlock seg hstart
  have hoffset := toNat_mod_bsize_lt (seg.off + program.startOffset)
  by_cases hbehind : diskSize * bsize ≤ program.segmentPos seg
  · -- the first block is behind the disk
    refine Or.inr ⟨⟨"readBytesVirtual: block exceeds disk size", by simp [loadErrors], ?_⟩,
      Or.inl fun hin => absurd hin.1 (Nat.not_lt.mpr hbehind)⟩
    rw [R5O5.readBytesVirtual, copyBytes, openBlock_of_ge]
    · rfl
    · rw [hblock]
      exact (Nat.le_div_iff_mul_le (by decide)).mpr hbehind
  · have hfirst := Nat.lt_of_not_le hbehind
    -- every byte of the contents is in a page of the segment
    have hmapped : ∀ i < seg.filesz.toNat, (seg.vaddr.toNat + i) / pgsize % 2 ^ 27 ∈ A₁.pages := by
      intro i hi
      rw [hpages₁]
      exact Finset.mem_union_right _ (Elfread.mem_pages.mpr ⟨i, hi.trans_le hfilesz, rfl⟩)
    rcases h₁.readBytesVirtual_cases ht₁ hs (Nat.le_of_lt hoffset)
        (hblock.trans_lt ((Nat.div_lt_iff_lt_mul (by decide)).mpr hfirst)) wild seg.vaddr seg.filesz
        hmapped with ⟨io', mem, hread, hle, hs', hdisk, A', h', hpages', -⟩ | ⟨herr, hlt⟩
    · rw [← hpos] at hle
      rw [Function.update_idem] at h'
      refine Or.inl ⟨⟨hfirst, hle⟩, io', { s₁ with mem }, A', by rw [hread]; rfl, hs', hdisk, h',
        ?_,
        ?_⟩
      · rw [hpages', hpages₁]
        rfl
      · rw [hpages']
        exact hcount
    · rw [← hpos] at hlt
      refine Or.inr ⟨⟨_, ?_, by rw [herr]; rfl⟩, Or.inl fun hin => ?_⟩
      · simp [loadErrors]
      · exact absurd hin.2 (Nat.not_le_of_lt hlt)

/-- The loop over the segments. -/
theorem loadSegments_cases (h : Accounted K spaces s) (ht : spaces t = some A) (hs : Settled io)
    (hstart : program.startBlock.toNat < diskSize) (wild : Wild) {elfNodes : ElfNodes} {fuel : ℕ}
    {ptr : ElfreadPtr} {nodes : List (Fin elfSize)}
    (hlist : LinkedList.IsList (fun i => (elfNodes i).next) ptr nodes)
    (hfuel : nodes.length ≤ fuel)
    (hfilesz : ∀ seg ∈ nodes.map elfNodes, seg.filesz.toNat ≤ seg.memsz.toNat)
    (stack : BitVec 64) :
    ((∀ seg ∈ nodes.map elfNodes, program.ContentsOnDisk seg) ∧ ∃ io' s' A',
      R5O5.loadSegments wild program.startBlock program.startOffset (t <<< 12) elfNodes fuel ptr
        (io, s, stack) = .ok (io', s', (nodes.map elfNodes).foldl stackAfter stack) ∧
      Settled io' ∧ io'.disk = io.disk ∧ Accounted K (Function.update spaces t (some A')) s' ∧
      A'.pages = addPages A.pages (nodes.map elfNodes) ∧
      s.alloc.numFreePages + frameDemand A.pages =
        s'.alloc.numFreePages + frameDemand A'.pages) ∨
    ((∃ message ∈ loadErrors,
        R5O5.loadSegments wild program.startBlock program.startOffset (t <<< 12) elfNodes fuel ptr
          (io, s, stack) = .error (.error message)) ∧
      ((∃ seg ∈ nodes.map elfNodes, ¬program.ContentsOnDisk seg) ∨
        s.alloc.numFreePages + frameDemand A.pages <
          frameDemand (addPages A.pages (nodes.map elfNodes)))) := by
  induction nodes generalizing A fuel ptr s io stack spaces with
  | nil =>
    obtain rfl : ptr = none := hlist
    refine Or.inl
      ⟨fun seg hseg => absurd hseg List.not_mem_nil, io, s, A, ?_, hs, rfl, ?_, rfl, rfl⟩
    · cases fuel <;> rfl
    · rwa [Function.update_eq_self_iff.mpr ht.symm]
  | cons n nodes ih =>
    obtain ⟨rfl, hrest⟩ := hlist
    cases fuel with
    | zero => cases hfuel
    | succ fuel =>
      rw [R5O5.loadSegments, List.map_cons]
      rw [List.map_cons, List.forall_mem_cons] at hfilesz
      -- the first segment is loaded, and then the others find fewer frames
      rcases h.loadSegment_cases ht hs hstart wild hfilesz.1 with
        ⟨hin, io₁, s₁, A₁, hok, hs₁, hdisk₁, h₁, hpages₁, hcount₁⟩ | ⟨⟨message, hmem, herr⟩, hwhy⟩
      · have ht₁ : Function.update spaces t (some A₁) t = some A₁ := Function.update_self ..
        rw [hok, Except.ok_bind]
        rcases ih h₁ ht₁ hs₁ hrest (Nat.le_of_succ_le_succ hfuel) hfilesz.2
            (stackAfter stack (elfNodes n)) with
          ⟨hins, io', s', A', hok', hs', hdisk', h', hpages', hcount'⟩ |
          ⟨⟨message, hmem, herr⟩, hwhy⟩
        · rw [Function.update_idem] at h'
          rw [hpages₁] at hpages'
          exact Or.inl ⟨List.forall_mem_cons.mpr ⟨hin, hins⟩, io', s', A', hok', hs',
            hdisk'.trans hdisk₁, h', hpages', hcount₁.trans hcount'⟩
        -- the frames of the first segment count for the demand of all
        · refine Or.inr ⟨⟨message, hmem, herr⟩, ?_⟩
          rw [hpages₁] at hwhy hcount₁
          rcases hwhy with ⟨seg, hseg, hout⟩ | hlt
          · exact Or.inl ⟨seg, List.mem_cons_of_mem _ hseg, hout⟩
          · exact Or.inr (hcount₁.trans_lt hlt)
      · rw [herr]
        refine Or.inr ⟨⟨message, hmem, rfl⟩, ?_⟩
        rcases hwhy with hout | hlt
        · exact Or.inl ⟨_, List.mem_cons_self, hout⟩
        · exact Or.inr (hlt.trans_le (frameDemand_mono subset_addPages))

/-- The two pages of the stack. -/
theorem allocateStack_cases (h : Accounted K spaces s) (ht : spaces t = some A)
    {segs : List Elfread}
    (hpages : A.pages = addPages ∅ segs) :
    (StackFree segs ∧ ∃ s₁ s₂ A',
      R5O5.allocateVirtualPage (t <<< 12) (stackBegin segs) allPermissions s = .ok s₁ ∧
      R5O5.allocateVirtualPage (t <<< 12) (stackBegin segs + 1) allPermissions s₁ = .ok s₂ ∧
      Accounted K (Function.update spaces t (some A')) s₂ ∧
      s.alloc.numFreePages + frameDemand (addPages ∅ segs) =
        s₂.alloc.numFreePages + frameDemand (programPages segs)) ∨
    ((∃ message ∈ loadErrors,
        R5O5.allocateVirtualPage (t <<< 12) (stackBegin segs) allPermissions s =
          .error (.error message) ∨
        ∃ s₁, R5O5.allocateVirtualPage (t <<< 12) (stackBegin segs) allPermissions s = .ok s₁ ∧
          R5O5.allocateVirtualPage (t <<< 12) (stackBegin segs + 1) allPermissions s₁ =
            .error (.error message)) ∧
      (¬StackFree segs ∨ s.alloc.numFreePages + frameDemand (addPages ∅ segs) <
        frameDemand (programPages segs))) := by
  have hmono : frameDemand (insert (firstStackPage segs) (addPages ∅ segs)) ≤
      frameDemand (programPages segs) := by
    rw [programPages_eq]
    exact frameDemand_mono (Finset.subset_insert ..)
  rw [← hpages] at hmono ⊢
  rcases h.allocateVirtualPage_cases ht (stackBegin segs) allPermissions with
    ⟨hnew, s₁, hok, h₁, hcount₁⟩ | ⟨-, herr, hlt⟩ | ⟨hmapped, herr⟩
  case inr.inl =>
    exact Or.inr ⟨⟨_, by simp [loadErrors], Or.inl herr⟩, Or.inr (hlt.trans_le hmono)⟩
  case inr.inr =>
    rw [hpages] at hmapped
    exact Or.inr ⟨⟨_, by simp [loadErrors], Or.inl herr⟩, Or.inl fun hfree => hfree.1 hmapped⟩
  -- the second page finds the first one mapped
  have ht₁ : Function.update spaces t (some (A.mapPage (firstStackPage segs))) t =
    some (A.mapPage (firstStackPage segs)) := Function.update_self ..
  have hpages₁ : (A.mapPage (firstStackPage segs)).pages =
      insert (firstStackPage segs) (addPages ∅ segs) := congrArg (insert _) hpages
  have hprogram : insert (secondStackPage segs) (A.mapPage (firstStackPage segs)).pages =
      programPages segs := by rw [hpages₁, programPages_eq]
  change _ = s₁.alloc.numFreePages + frameDemand (A.mapPage (firstStackPage segs)).pages at hcount₁
  rcases h₁.allocateVirtualPage_cases ht₁ (stackBegin segs + 1) allPermissions with
    ⟨hnew₂, s₂, hok₂, h₂, hcount₂⟩ | ⟨-, herr, hlt⟩ | ⟨hmapped, herr⟩
  · rw [Function.update_idem] at h₂
    change secondStackPage segs ∉ _ at hnew₂
    change _ = s₂.alloc.numFreePages + frameDemand (insert (secondStackPage segs) _) at hcount₂
    rw [hpages₁] at hnew₂
    rw [hprogram] at hcount₂
    rw [hpages] at hnew
    exact Or.inl ⟨⟨hnew, hnew₂⟩, s₁, s₂, _, hok, hok₂, h₂, hcount₁.trans hcount₂⟩
  · change _ < frameDemand (insert (secondStackPage segs) _) at hlt
    rw [hprogram] at hlt
    exact Or.inr ⟨⟨_, by simp [loadErrors], Or.inr ⟨s₁, hok, herr⟩⟩,
      Or.inr (hcount₁.trans_lt hlt)⟩
  · change secondStackPage segs ∈ _ at hmapped
    rw [hpages₁] at hmapped
    exact Or.inr ⟨⟨_, by simp [loadErrors], Or.inr ⟨s₁, hok, herr⟩⟩,
      Or.inl fun hfree => hfree.2 hmapped⟩

end Accounted

/-! ## The loader -/

section Loader

variable {K : KernelImage} {spaces : BitVec 64 → Option Space} {k : Kernel} {program : Program}
  {elfRead : ElfreadList} {io : CachedDisk} {elfNodes : ElfNodes} {nodes : List (Fin elfSize)}

/-- An accepted program that fits is loaded with the frames its pages take; for any other one the
loader stops in `error`. -/
theorem Accounted.programLoader_cases (h : Accounted K spaces k.paging) (hs : Settled k.io)
    (wild : Wild) (pid : Pid)
    (helf : elfReader wild program.startBlock program.startOffset program.endBlock
      program.endOffset k.io k.elfNodes = .ok (elfRead, io, elfNodes))
    (hnodes : elfRead.nodes elfNodes = some nodes) (hhead : elfRead.head ≠ none) :
    (program.Fits (nodes.map elfNodes) k.paging.alloc.numFreePages ∧ ∃ k',
      R5O5.programLoader wild program pid k = .ok (true, k') ∧ Settled k'.io ∧
      (∃ (t : BitVec 64) (A : Space), spaces t = none ∧
        Accounted K (Function.update spaces t (some A)) k'.paging) ∧
      k.paging.alloc.numFreePages =
        k'.paging.alloc.numFreePages + (1 + frameDemand (programPages (nodes.map elfNodes)))) ∨
    (¬program.Fits (nodes.map elfNodes) k.paging.alloc.numFreePages ∧
      ∃ message ∈ loadErrors,
        R5O5.programLoader wild program pid k = .error (.error message)) := by
  obtain ⟨hio, -, hstart, -⟩ := elfReader_spec hs helf
  obtain ⟨nodes', hlist, hlength, hadmitted⟩ := elfReader_admitted helf
  obtain rfl : nodes = nodes' := Option.some.inj (hnodes.symm.trans (hlist.toList_eq hlength))
  generalize hsegs : nodes.map elfNodes = segs at hadmitted ⊢
  have hmono : frameDemand (addPages ∅ segs) ≤ frameDemand (programPages segs) := by
    rw [programPages_eq]
    exact frameDemand_mono ((Finset.subset_insert ..).trans (Finset.subset_insert ..))
  rw [R5O5.programLoader, helf, Except.ok_bind]
  dsimp only
  rw [if_neg hhead]
  -- the page table
  rcases h.allocatePageTable_cases with ⟨t, s₁, htable, hnone, h₁, hcount₁⟩ | ⟨herr, hzero⟩
  case inr =>
    rw [herr]
    refine Or.inr ⟨fun hfits => ?_, _, by simp [loadErrors], rfl⟩
    have hframes := hfits.frames
    omega
  rw [htable, Except.ok_bind]
  dsimp only [Kernel.modifyPd]
  have ht : ∀ A : Space, Function.update spaces t (some A) t = some A :=
    fun A => Function.update_self ..
  -- the segments
  have hfilesz : ∀ seg ∈ nodes.map elfNodes, seg.filesz.toNat ≤ seg.memsz.toNat := by
    rw [hsegs]
    exact fun seg hseg => (hadmitted seg hseg).filesz_le
  rcases h₁.loadSegments_cases (ht _) hio (hstart hhead) wild hlist hlength hfilesz 0 with
    ⟨hcontents, io₂, s₂, A₂, hload, hio₂, -, h₂, hpages₂, hcount₂⟩ | ⟨⟨message, hmem, herr⟩, hwhy⟩
  case inr =>
    rw [herr]
    rw [hsegs] at hwhy
    refine Or.inr ⟨fun hfits => ?_, message, hmem, rfl⟩
    rcases hwhy with ⟨seg, hseg, hout⟩ | hlt
    · exact hout (hfits.contents seg hseg)
    · have hframes := hfits.frames
      change s₁.alloc.numFreePages + frameDemand ∅ < frameDemand (addPages ∅ segs) at hlt
      rw [frameDemand_empty] at hlt
      omega
  rw [hsegs] at hcontents hpages₂
  rw [hsegs, show segs.foldl stackAfter 0 = stackBegin segs from rfl] at hload
  rw [hload, Except.ok_bind]
  rw [Function.update_idem] at h₂
  dsimp only
  change A₂.pages = addPages ∅ segs at hpages₂
  change s₁.alloc.numFreePages + frameDemand ∅ = _ at hcount₂
  rw [frameDemand_empty, hpages₂] at hcount₂
  -- the stack
  rcases h₂.allocateStack_cases (ht _) hpages₂ with
    ⟨hstack, s₃, s₄, A₄, hstack₁, hstack₂, h₄, hcount₄⟩ | ⟨⟨message, hmem, herr⟩, hwhy⟩
  · rw [Function.update_idem] at h₄
    rw [hstack₁, Except.ok_bind, hstack₂, Except.ok_bind]
    have hcount : k.paging.alloc.numFreePages =
        s₄.alloc.numFreePages + (1 + frameDemand (programPages segs)) := by omega
    exact Or.inl ⟨⟨hcontents, hstack, by omega⟩, _, rfl, hio₂, ⟨t, A₄, hnone, h₄⟩, hcount⟩
  · refine Or.inr ⟨fun hfits => ?_, message, hmem, ?_⟩
    · rcases hwhy with hnot | hlt
      · exact hnot hfits.stack
      · have hframes := hfits.frames
        omega
    · rcases herr with herr | ⟨s₃, hstack₁, herr⟩
      · rw [herr, Except.error_bind]
      · rw [hstack₁, Except.ok_bind, herr, Except.error_bind]

end Loader

/-! ## Runs -/

/-- The frames a process takes: the root of its page table, and those for its pages. -/
def Created.frames (p : Created) : ℕ := 1 + frameDemand (programPages p.segments)

namespace Processes

/-- Every frame is free or taken for a process, and the slots in use are those of the processes. -/
structure Charged (K : KernelImage) (s : Processes) : Prop where
  accounted : ∃ spaces, Accounted K spaces s.kernel.paging
  settled : Settled s.kernel.io
  count : s.kernel.paging.alloc.numFreePages + (s.created.map Created.frames).sum = numPages
  slot_iff : ∀ pid,
    (s.kernel.table.pd pid).slotAllocated = true ↔ pid ∈ s.created.map Created.pid
  nodup : (s.created.map Created.pid).Nodup

section Charged

variable {K : KernelImage} {links : Ring.Links BufRef} {disk : ℕ → BitVec 8} {mem : Mem}
  {elfNodes : ElfNodes} {table : ProcessTable} {wild : Wild} {s s' : Processes} {program : Program}
  {programs : List Program}

theorem charged_boot (hzero : ∀ x : BitVec 64, x >>> 12 ∈ managed K → mem x = 0) :
    Charged K (boot K links disk mem elfNodes table) where
  accounted := ⟨_, Accounted.pageAllocInit hzero⟩
  settled := settled_binit
  count := Nat.add_zero _
  slot_iff _ := iff_of_false Bool.false_ne_true List.not_mem_nil
  nodup := List.nodup_nil

theorem Charged.step (h : Charged K s) (hstep : Step wild s program s') : Charged K s' := by
  cases hstep with
  | @createProcess pid kernel elfRead io elfNodes nodes hok helf hnodes =>
    obtain ⟨hfree, f, htable⟩ := createProcess_table hok
    obtain ⟨-, k₁, hload, rfl⟩ := createProcess_eq_ok hok
    obtain ⟨_, _, _, _, _, _, _, _, _, _, helf', hhead, -⟩ := programLoader_eq_ok hload
    rw [helf] at helf'
    cases helf'
    obtain ⟨spaces, haccounted⟩ := h.accounted
    -- the loader returned, so its frames are those the program asks for
    rcases haccounted.programLoader_cases h.settled wild pid helf hnodes hhead with
      ⟨-, k₂, hload₂, hsettled, ⟨t, A, -, haccounted₂⟩, hcount⟩ | ⟨-, message, -, herr⟩
    case inr =>
      rw [hload] at herr
      cases herr
    rw [hload] at hload₂
    cases hload₂
    -- the slot was free
    have hnew : pid ∉ s.created.map Created.pid := by
      rw [← h.slot_iff, hfree]
      exact Bool.false_ne_true
    constructor
    case accounted => exact ⟨_, haccounted₂⟩
    case settled => exact hsettled
    case count =>
      have hcount₀ := h.count
      show k₁.paging.alloc.numFreePages + ((s.created ++ [_]).map Created.frames).sum = _
      rw [List.map_append, List.sum_append, List.map_singleton, List.sum_singleton, Created.frames]
      dsimp only
      omega
    case slot_iff =>
      intro pid'
      rw [htable, List.map_append, List.mem_append, List.map_singleton, List.mem_singleton]
      by_cases heq : pid' = pid
      · subst heq
        rw [ProcessTable.modify_pd_self]
        exact iff_of_true rfl (Or.inr rfl)
      · rw [ProcessTable.modify_pd_of_ne _ _ heq, h.slot_iff]
        exact (or_iff_left heq).symm
    case nodup =>
      rw [List.map_append, List.map_singleton, List.nodup_append]
      refine ⟨h.nodup, List.nodup_singleton _, ?_⟩
      rintro pid₁ h₁ pid₂ h₂ rfl
      rw [List.mem_singleton.mp h₂] at h₁
      exact hnew h₁

/-- The table may change in other ways, and so may the buffers. -/
theorem Charged.of_eq (h : Charged K s) {kernel : Kernel} (hsettled : Settled kernel.io)
    (hpaging : kernel.paging = s.kernel.paging)
    (hslot : ∀ pid, (kernel.table.pd pid).slotAllocated = (s.kernel.table.pd pid).slotAllocated) :
    Charged K { s with kernel } where
  accounted := by
    rw [hpaging]
    exact h.accounted
  settled := hsettled
  count := by
    rw [hpaging]
    exact h.count
  slot_iff pid := by
    rw [hslot]
    exact h.slot_iff pid
  nodup := h.nodup

/-- There is a free slot while there are less processes than slots. -/
theorem Charged.exists_slot_iff (h : Charged K s) :
    (∃ pid, (s.kernel.table.pd pid).slotAllocated = false) ↔ s.created.length < nproc := by
  rw [← List.length_map (f := Created.pid)]
  constructor
  · rintro ⟨pid, hfree⟩
    have hnot : pid ∉ s.created.map Created.pid := by
      rw [← h.slot_iff, hfree]
      exact Bool.false_ne_true
    have hle := List.Nodup.length_le_card (List.nodup_cons.mpr ⟨hnot, h.nodup⟩)
    rwa [Fintype.card_fin] at hle
  · intro hlt
    by_contra hall
    simp only [not_exists, Bool.not_eq_false, h.slot_iff] at hall
    -- all numbers are taken, each by one process
    have hle := (List.nodup_finRange nproc).subperm (fun pid _ => hall pid) |>.length_le
    rw [List.length_finRange] at hle
    omega

/-- A program is created exactly when there is a free slot, its headers are accepted, and it fits
in. -/
theorem Charged.exists_createProcess_iff (h : Charged K s) (wild : Wild) (program : Program) :
    (∃ r, R5O5.createProcess wild program s.kernel = .ok r) ↔
      s.created.length < nproc ∧ ∃ elfRead io elfNodes nodes,
        elfReader wild program.startBlock program.startOffset program.endBlock program.endOffset
          s.kernel.io s.kernel.elfNodes = .ok (elfRead, io, elfNodes) ∧
        elfRead.nodes elfNodes = some nodes ∧ elfRead.head ≠ none ∧
        program.Fits (nodes.map elfNodes) (numPages - (s.created.map Created.frames).sum) := by
  have hfree : numPages - (s.created.map Created.frames).sum =
      s.kernel.paging.alloc.numFreePages := Nat.sub_eq_of_eq_add h.count.symm
  rw [hfree, ← h.exists_slot_iff]
  obtain ⟨spaces, haccounted⟩ := h.accounted
  constructor
  · rintro ⟨⟨pid, k'⟩, hok⟩
    obtain ⟨hslot, k₁, hload, -⟩ := createProcess_eq_ok hok
    obtain ⟨elfRead, io, elfNodes, _, _, _, _, _, _, _, helf, hhead, -⟩ := programLoader_eq_ok hload
    obtain ⟨-, -, -, nodes, hlist, hlength⟩ := elfReader_spec h.settled helf
    have hnodes := hlist.toList_eq hlength
    rcases haccounted.programLoader_cases h.settled wild pid helf hnodes hhead with
      ⟨hfits, -⟩ | ⟨-, message, -, herr⟩
    · exact ⟨⟨pid, hslot⟩, elfRead, io, elfNodes, nodes, helf, hnodes, hhead, hfits⟩
    · rw [hload] at herr
      cases herr
  · rintro ⟨⟨pid, hslot⟩, elfRead, io, elfNodes, nodes, helf, hnodes, hhead, hfits⟩
    -- any free slot will do
    cases hfind : (List.finRange nproc).find? fun pid => !(s.kernel.table.pd pid).slotAllocated with
    | none =>
      have hall := List.find?_eq_none.mp hfind pid (List.mem_finRange pid)
      rw [hslot] at hall
      exact absurd rfl hall
    | some pid =>
      rcases haccounted.programLoader_cases h.settled wild pid helf hnodes hhead with
        ⟨-, k', hload, -⟩ | ⟨hnot, -⟩
      · refine ⟨⟨pid, k'.modifyPd pid newDescriptor⟩, ?_⟩
        rw [R5O5.createProcess, hfind]
        dsimp only
        rw [hload]
        rfl
      · exact absurd hfits hnot

/-- In every run the free frames are those that the pages of the processes leave, and a program is
created exactly when there is a free slot, its headers are accepted, and it fits in. -/
theorem createProcess_ok_iff (hzero : ∀ x : BitVec 64, x >>> 12 ∈ managed K → mem x = 0)
    (hrun : Trace (Step wild) (boot K links disk mem elfNodes table) programs s)
    (program : Program) :
    s.kernel.paging.alloc.numFreePages + (s.created.map Created.frames).sum = numPages ∧
    ((∃ r, R5O5.createProcess wild program s.kernel = .ok r) ↔
      s.created.length < nproc ∧ ∃ elfRead io elfNodes nodes,
        elfReader wild program.startBlock program.startOffset program.endBlock program.endOffset
          s.kernel.io s.kernel.elfNodes = .ok (elfRead, io, elfNodes) ∧
        elfRead.nodes elfNodes = some nodes ∧ elfRead.head ≠ none ∧
        program.Fits (nodes.map elfNodes) (numPages - (s.created.map Created.frames).sum)) := by
  have h : Charged K s := hrun.invariant (charged_boot hzero) fun _ _ _ h hstep => h.step hstep
  exact ⟨h.count, h.exists_createProcess_iff wild program⟩

/-- The sample program takes nine frames: its page table, its page and its stack. -/
theorem frames_sample (pid : Pid) :
    (Created.frames ⟨sampleProgram, pid, 0, [sampleSegment]⟩) = 9 := by
  show 1 + frameDemand (programPages [sampleSegment]) = 9
  decide +kernel

/-- It is accepted wherever nine frames are left. -/
theorem accepted_sample (wild : Wild) (elfNodes : ElfNodes) {io : CachedDisk} (hs : Settled io)
    (hdisk : io.disk = sampleDisk) {free : ℕ} (hfree : 9 ≤ free) :
    ∃ elfRead io' elfNodes' nodes,
      elfReader wild sampleProgram.startBlock sampleProgram.startOffset sampleProgram.endBlock
        sampleProgram.endOffset io elfNodes = .ok (elfRead, io', elfNodes') ∧
      elfRead.nodes elfNodes' = some nodes ∧ elfRead.head ≠ none ∧
      sampleProgram.Fits (nodes.map elfNodes') free := by
  obtain ⟨io', helf, -, -⟩ := elfReader_sample wild elfNodes hs hdisk
  refine ⟨_, io', _, [sampleNode], helf, rfl, Option.some_ne_none _, ?_⟩
  have hsegments : [sampleNode].map (Function.update elfNodes sampleNode sampleSegment) =
      [sampleSegment] := rfl
  rw [hsegments]
  constructor
  case contents =>
    intro seg hseg
    rw [List.mem_singleton.mp hseg]
    decide
  case stack =>
    rw [StackFree]
    decide +kernel
  case frames => exact (frames_sample ⟨0, nproc_pos⟩).trans_le hfree

/-- One more process is created for the sample program. -/
theorem Charged.exists_step_sample (h : Charged K s) (wild : Wild)
    (hdisk : s.kernel.io.disk = sampleDisk) (hlt : s.created.length < nproc)
    (hsum : (s.created.map Created.frames).sum + 9 ≤ numPages) :
    ∃ s' pid, Step wild s sampleProgram s' ∧
      s'.created = s.created ++ [⟨sampleProgram, pid, 0, [sampleSegment]⟩] := by
  obtain ⟨⟨pid, kernel⟩, hok⟩ := (h.exists_createProcess_iff wild sampleProgram).mpr
    ⟨hlt, accepted_sample wild s.kernel.elfNodes h.settled hdisk (by omega)⟩
  obtain ⟨io', helf, -, -⟩ := elfReader_sample wild s.kernel.elfNodes h.settled hdisk
  exact ⟨_, pid, .createProcess hok helf rfl, rfl⟩

/-- With one process in memory there are nine frames less, and a second one is created. -/
theorem createProcess_ok_iff_second : ∃ s,
    Trace (Step fun _ _ _ => 0) sampleBoot [sampleProgram] s ∧ s.created.length = 1 ∧
    s.kernel.paging.alloc.numFreePages + 9 = numPages ∧
    ∃ r, R5O5.createProcess (fun _ _ _ => 0) sampleProgram s.kernel = .ok r := by
  have hboot : Charged Tables.sampleKernel sampleBoot := charged_boot fun _ _ => rfl
  obtain ⟨s, pid, hstep, hcreated⟩ :=
    hboot.exists_step_sample (fun _ _ _ => 0) rfl (by decide) (by decide)
  have hrun : Trace (Step fun _ _ _ => 0) sampleBoot [sampleProgram] s := Trace.refl.snoc hstep
  obtain ⟨hcount, hiff⟩ := createProcess_ok_iff (fun _ _ => rfl) hrun sampleProgram
  obtain ⟨_, h, -⟩ := (inv_boot fun _ _ => rfl).trace hrun
  have hsum : (s.created.map Created.frames).sum = 9 := by
    rw [hcreated]
    exact frames_sample pid
  have hlength : s.created.length = 1 := by rw [hcreated]; rfl
  rw [hsum] at hcount hiff
  refine ⟨s, hrun, hlength, hcount, hiff.mpr ⟨?_, ?_⟩⟩
  · rw [hlength]
    decide
  · exact accepted_sample _ _ h.settled h.medium (by decide)

end Charged

end Processes

end R5O5
