import R5O5.Kernel.CreateProcess.Extent
import R5O5.Kernel.Paging.Twin

/-!
# Recycled pages

A new process gets its frames from the free stack as they are, and two kernels that differ in the
bytes of other frames create the same process. The frames are taken in an order that follows from
the segments of the program, so that the frames to look at are known before the call: those that
become directories, and those that become pages. The relations between the two kernels follow the
loader down to the single page and the single byte.

## Main definitions

- `Program.requestedPages`, `Elfread.loaded`: the pages the loader asks for, and the addresses it
  writes;
- `Program.ReusesFrames`: the frames a program gets may be reused;
- `Grown`: a new page table has been filled alike.

## Main results

- `createProcess_related`: over such frames a process is created alike.
-/

namespace R5O5

/-- The segments that the loader finds when it follows the list. -/
def segmentsFrom (elfNodes : ElfNodes) : ℕ → ElfreadPtr → List Elfread
  | _, none => []
  | 0, some _ => []
  | fuel + 1, some i => elfNodes i :: segmentsFrom elfNodes fuel (elfNodes i).next

theorem segmentsFrom_of_isList {elfNodes : ElfNodes} {fuel : ℕ} {ptr : ElfreadPtr}
    {nodes : List (Fin elfSize)} (h : LinkedList.IsList (fun i => (elfNodes i).next) ptr nodes)
    (hfuel : nodes.length ≤ fuel) : segmentsFrom elfNodes fuel ptr = nodes.map elfNodes := by
  induction nodes generalizing fuel ptr with
  | nil =>
    rw [show ptr = none from h, segmentsFrom]
    rfl
  | cons i nodes ih =>
    obtain ⟨rfl, hrest⟩ := h
    match fuel, hfuel with
    | fuel + 1, hfuel => rw [segmentsFrom, ih hrest (Nat.le_of_succ_le_succ hfuel), List.map_cons]

/-- The addresses that the contents of a segment are loaded to. -/
def Elfread.loaded (seg : Elfread) : Set ℕ :=
  {a | ∃ i < seg.filesz.toNat, a = spaceAddr (seg.vaddr + BitVec.ofNat 64 i)}

/-- The addresses that the contents of segments are loaded to. -/
def loadedAddrs (segs : List Elfread) : Set ℕ := {a | ∃ seg ∈ segs, a ∈ seg.loaded}

/-- The pages that the loader asks for, in order: those of the segments byte by byte, up to one
whose contents are not on the disk, and those of the stack. -/
def Program.requestedPages (program : Program) (stackBeginVirtPage : BitVec 64) :
    List Elfread → List ℕ
  | [] => [stackBeginVirtPage.toNat % 2 ^ 27, (stackBeginVirtPage + 1).toNat % 2 ^ 27]
  | seg :: segs =>
    ((List.range seg.memsz.toNat).map fun i => (seg.vaddr.toNat + i) / pgsize % 2 ^ 27) ++
      if program.ContentsOnDisk seg then
        program.requestedPages (stackAfter stackBeginVirtPage seg) segs
      else []

/-- The frames that a call of the loader takes may be reused. The first one becomes the root of the
page table, where the loader clears the entries. -/
def Program.ReusesFrames (program : Program) (wild : Wild) (k k' : Kernel) : Prop :=
  ∀ elfRead io elfNodes, elfReader wild program.startBlock program.startOffset program.endBlock
      program.endOffset k.io k.elfNodes = .ok (elfRead, io, elfNodes) → elfRead.head ≠ none →
    Reusable k.paging.mem k'.paging.mem (loadedAddrs (segmentsFrom elfNodes elfSize elfRead.head))
      ∅ (program.requestedPages 0 (segmentsFrom elfNodes elfSize elfRead.head))
      (k.paging.alloc.freeList.drop 1)

section Loader

variable {K : KernelImage} {live : Set (BitVec 64)} {s s' : Paging} {t : BitVec 64} {wild : Wild}
  {m m' : Mem} {loaded differ : Set ℕ} {pages : Finset ℕ} {ns : List ℕ} {program : Program}

/-- A table has grown in step, and the frames that the pages `ns` will take may be reused. -/
def GrowsOn (K : KernelImage) (live : Set (BitVec 64)) (t : BitVec 64) (m m' : Mem)
    (loaded differ : Set ℕ) (ns : List ℕ) (s s' : Paging) : Prop :=
  ∃ pages, Growing K live t m m' loaded pages differ s s' ∧
    Reusable m m' loaded pages ns s.alloc.freeList

theorem allocateVirtualPage_related {vpn : BitVec 64} (perm : Permissions) (ht : t ∈ live)
    (h : GrowsOn K live t m m' loaded differ (vpn.toNat % 2 ^ 27 :: ns) s s') :
    Except.Related (GrowsOn K live t m m' loaded differ ns)
      (allocateVirtualPage (t <<< 12) vpn perm s) (allocateVirtualPage (t <<< 12) vpn perm s') := by
  obtain ⟨pages, h, hreuse⟩ := h
  exact (h.allocateVirtualPage ht rfl hreuse).mono fun r r' h => ⟨_, h⟩

/-- Both runs allocate the page of the next byte alike. -/
theorem allocateByte_related (ht : t ∈ live) (vaddr : BitVec 64) (i : ℕ)
    (h : GrowsOn K live t m m' loaded differ ((vaddr.toNat + i) / pgsize % 2 ^ 27 :: ns) s s') :
    Except.Related (GrowsOn K live t m m' loaded differ ns)
      (allocateByte (t <<< 12) vaddr s i) (allocateByte (t <<< 12) vaddr s' i) := by
  have hpage : (getVirtPage (vaddr + BitVec.ofNat 64 i)).toNat % 2 ^ 27 =
      (vaddr.toNat + i) / pgsize % 2 ^ 27 := by
    rw [getVirtPage_add, Nat.mod_mod]
  rw [← hpage] at h
  obtain ⟨pages, h, hreuse⟩ := h
  obtain ⟨own, leaked, htwin, -⟩ := h.twin
  have hallocated : isVirtualPageAllocated s.mem (t <<< 12)
      (getVirtPage (vaddr + BitVec.ofNat 64 i)) = true ↔ _ := h.isVirtualPageAllocated_iff ht
  rw [allocateByte, allocateByte, htwin.isVirtualPageAllocated_eq ht]
  split
  case isTrue => exact allocateVirtualPage_related _ ht ⟨pages, h, hreuse⟩
  -- the page was mapped for an earlier byte
  case isFalse hmapped =>
    rw [Bool.not_eq_true', Bool.not_eq_false, hallocated] at hmapped
    rw [Reusable, if_pos hmapped] at hreuse
    exact ⟨pages, h, hreuse⟩

/-- The pages of some bytes are allocated alike. -/
theorem allocateBytes_related (ht : t ∈ live) (vaddr : BitVec 64) (l : List ℕ)
    (h : GrowsOn K live t m m' loaded differ
      ((l.map fun i => (vaddr.toNat + i) / pgsize % 2 ^ 27) ++ ns) s s') :
    Except.Related (GrowsOn K live t m m' loaded differ ns)
      (l.foldlM (allocateByte (t <<< 12) vaddr) s)
      (l.foldlM (allocateByte (t <<< 12) vaddr) s') := by
  induction l generalizing s s' with
  | nil => exact h
  | cons i l ih =>
    rw [List.foldlM_cons, List.foldlM_cons]
    exact (allocateByte_related ht vaddr i h).bind fun r r' h => ih h

/-- Bytes are read from the disk alike, and do not differ afterwards. -/
theorem readBytesVirtual_related (ht : t ∈ live)
    (diskBlockNum offset nBytes memoryLocation : BitVec 64) (io : CachedDisk)
    (h : GrowsOn K live t m m' loaded differ ns s s') :
    Except.Related
      (SameBuffers fun mem mem' => GrowsOn K live t m m' loaded
        (differ \ {a | ∃ i < nBytes.toNat, a = spaceAddr (memoryLocation + BitVec.ofNat 64 i)}) ns
        { s with mem } { s' with mem := mem' })
      (readBytesVirtual wild diskBlockNum offset nBytes memoryLocation (t <<< 12) io s.mem)
      (readBytesVirtual wild diskBlockNum offset nBytes memoryLocation (t <<< 12) io s'.mem) := by
  -- after `k` bytes the addresses of these do not differ
  let R (k : ℕ) (mem mem' : Mem) : Prop := GrowsOn K live t m m' loaded
    (differ \ {a | ∃ i < k, a = spaceAddr (memoryLocation + BitVec.ofNat 64 i)}) ns
    { s with mem } { s' with mem := mem' }
  have hstart : R 0 s.mem s'.mem := by
    have hnone : {a | ∃ i < 0, a = spaceAddr (memoryLocation + BitVec.ofNat 64 i)} = ∅ := by simp
    change GrowsOn K live t m m' loaded (differ \ _) ns s s'
    rwa [hnone, Set.sdiff_empty]
  refine copyBytes_related (R := R) ?_ hstart
  rintro k b pos io mem mem' ⟨pages, h, hreuse⟩
  dsimp only
  have heq : virtualToPhysical _ (t <<< 12) (memoryLocation + BitVec.ofNat 64 k) = _ :=
    h.virtualToPhysical_eq ht
  dsimp only at heq
  rw [heq]
  cases hphys : virtualToPhysical mem (t <<< 12) (memoryLocation + BitVec.ofNat 64 k) with
  | error e => exact Except.Related.error e
  | ok physicaladdr =>
    have hbyte := h.write ht hphys (dataAt wild io b pos)
    have hmore : differ \ {a | ∃ i < k + 1, a = spaceAddr (memoryLocation + BitVec.ofNat 64 i)} =
        (differ \ {a | ∃ i < k, a = spaceAddr (memoryLocation + BitVec.ofNat 64 i)}) \
          {spaceAddr (memoryLocation + BitVec.ofNat 64 k)} := by
      ext a
      simp only [Set.mem_sdiff, Set.mem_ofPred_eq, Set.mem_singleton_iff, Nat.lt_succ_iff_lt_or_eq,
        or_and_right, exists_or, exists_eq_left, not_or, and_assoc]
    refine ⟨rfl, pages, ?_, hreuse⟩
    rw [hmore]
    exact hbyte

/-- A segment that is loaded has its contents on the disk. -/
theorem contentsOnDisk_of_loadSegment {pagetable : BitVec 64} {seg : Elfread} {io : CachedDisk}
    {r : CachedDisk × Paging} (hstart : program.startBlock.toNat < diskSize)
    (hok : loadSegment wild program.startBlock program.startOffset pagetable seg io s = .ok r) :
    program.ContentsOnDisk seg := by
  obtain ⟨s₁, -, hrest⟩ := Except.bind_eq_ok.mp hok
  obtain ⟨⟨io₁, mem⟩, hread, -⟩ := Except.bind_eq_ok.mp hrest
  exact Program.contentsOnDisk_of_readBytesVirtual hstart hread

/-- A segment is loaded alike. -/
theorem loadSegment_related (ht : t ∈ live) (startBlock startOffset : BitVec 64) (elfNode : Elfread)
    (io : CachedDisk)
    (h : GrowsOn K live t m m' loaded differ (((List.range elfNode.memsz.toNat).map fun i =>
      (elfNode.vaddr.toNat + i) / pgsize % 2 ^ 27) ++ ns) s s') :
    Except.Related (SameBuffers (GrowsOn K live t m m' loaded (differ \ elfNode.loaded) ns))
      (loadSegment wild startBlock startOffset (t <<< 12) elfNode io s)
      (loadSegment wild startBlock startOffset (t <<< 12) elfNode io s') := by
  rw [loadSegment, loadSegment]
  refine (allocateBytes_related ht _ _ h).bind ?_
  intro s s' h
  refine (readBytesVirtual_related ht _ _ _ _ io h).bind ?_
  rintro ⟨io₁, mem⟩ ⟨_, mem'⟩ ⟨rfl, h⟩
  exact ⟨rfl, h⟩

/-- The addresses that the first segment and the others load. -/
theorem loadedAddrs_cons (seg : Elfread) (segs : List Elfread) :
    loadedAddrs (seg :: segs) = seg.loaded ∪ loadedAddrs segs := by
  ext a
  simp [loadedAddrs]

/-- The segments are loaded alike. -/
theorem loadSegments_related (ht : t ∈ live) (hstart : program.startBlock.toNat < diskSize)
    (elfNodes : ElfNodes) {fuel : ℕ} {ptr : ElfreadPtr} {io : CachedDisk} {stack : BitVec 64}
    (h : GrowsOn K live t m m' loaded differ
      (program.requestedPages stack (segmentsFrom elfNodes fuel ptr)) s s') :
    Except.Related (fun r r' => r'.1 = r.1 ∧ r'.2.2 = r.2.2 ∧
        GrowsOn K live t m m' loaded (differ \ loadedAddrs (segmentsFrom elfNodes fuel ptr))
          (program.requestedPages r.2.2 []) r.2.1 r'.2.1)
      (loadSegments wild program.startBlock program.startOffset (t <<< 12) elfNodes fuel ptr
        (io, s, stack))
      (loadSegments wild program.startBlock program.startOffset (t <<< 12) elfNodes fuel ptr
        (io, s', stack)) := by
  have hnone : differ \ loadedAddrs [] = differ := by simp [loadedAddrs]
  induction fuel generalizing ptr io s s' stack differ with
  | zero =>
    cases ptr with
    | none =>
      refine ⟨rfl, rfl, ?_⟩
      rw [segmentsFrom, hnone]
      exact h
    | some i => exact Except.Related.error _
  | succ fuel ih =>
    cases ptr with
    | none =>
      refine ⟨rfl, rfl, ?_⟩
      rw [segmentsFrom, hnone]
      exact h
    | some i =>
      rw [loadSegments, loadSegments, segmentsFrom, loadedAddrs_cons, ← Set.sdiff_sdiff]
      rw [segmentsFrom, Program.requestedPages] at h
      -- the segments after one that is loaded ask for their pages
      refine (loadSegment_related ht _ _ (elfNodes i) io h).returned.bind ?_
      rintro ⟨io₁, s₁⟩ ⟨_, s₁'⟩ ⟨⟨rfl, h₁⟩, hok, -⟩
      rw [if_pos (contentsOnDisk_of_loadSegment hstart hok)] at h₁
      exact ih h₁ (by simp [loadedAddrs])

end Loader

section Kernel

variable {K : KernelImage} {live : Set (BitVec 64)} {own : Places} {leaked : ℕ} {wild : Wild}
  {program : Program} {pid : Pid} {k k' : Kernel}

/-- The kernels differ in memory and allocator only. -/
def SameButPaging (k k' : Kernel) : Prop := k' = { k with paging := k'.paging }

/-- A new page table, for the process `pid`, has been filled in step. -/
def Grown (K : KernelImage) (live : Set (BitVec 64)) (pid : Pid) (k k' : Kernel) : Prop :=
  ∃ (t : BitVec 64) (m m' : Mem) (own : Places) (leaked : ℕ),
    (k.table.pd pid).sa.satp = t <<< 12 ∧ t.toNat < 2 ^ 44 ∧
      Twin K (insert t live) t m m' ∅ own leaked k.paging k'.paging

/-- A program is loaded alike. -/
theorem programLoader_related (h : Paired K live own leaked k.paging k'.paging)
    (hsame : SameButPaging k k') (hreuse : program.ReusesFrames wild k k') :
    Except.Related (fun r r' => r'.1 = r.1 ∧ SameButPaging r.2 r'.2 ∧
        (r.1 = true → Grown K live pid r.2 r'.2))
      (programLoader wild program pid k) (programLoader wild program pid k') := by
  rw [SameButPaging] at hsame
  rw [hsame] at h hreuse ⊢
  generalize k'.paging = paging' at h hreuse ⊢
  rw [programLoader, programLoader]
  rw [Program.ReusesFrames] at hreuse
  -- up to the page table both loaders do the same
  cases helf : elfReader wild program.startBlock program.startOffset program.endBlock
    program.endOffset k.io k.elfNodes with
  | error e => exact Except.Related.error e
  | ok r =>
    obtain ⟨elfRead, io, elfNodes⟩ := r
    have hreuse := hreuse elfRead io elfNodes helf
    rw [Except.ok_bind, Except.ok_bind]
    dsimp only
    split
    case isTrue => exact ⟨rfl, rfl, fun h => absurd h Bool.false_ne_true⟩
    case isFalse hhead =>
      refine (Growing.allocatePageTable h
        (loadedAddrs (segmentsFrom elfNodes elfSize elfRead.head))).bind ?_
      rintro ⟨pagetable, s₁⟩ ⟨_, s₁'⟩ ⟨rfl, t, hshift, -, hlt, hfree, h₁⟩
      dsimp only at hshift hfree h₁
      subst hshift
      have ht : t ∈ insert t live := Set.mem_insert t live
      have hreuse := hreuse hhead
      dsimp only at hreuse
      rw [← hfree] at hreuse
      -- the reader found headers, so the program starts on the disk
      have hstart : program.startBlock.toNat < diskSize :=
        ((elfReader_eq_ok helf).resolve_left fun hnone => hhead hnone.1).1
      refine (loadSegments_related ht hstart elfNodes ⟨∅, h₁, hreuse⟩).bind ?_
      rintro ⟨io₂, s₂, stack⟩ ⟨_, s₂', _⟩ ⟨rfl, rfl, h₂⟩
      -- the two pages of the stack
      rw [Set.sdiff_self] at h₂
      refine (allocateVirtualPage_related allPermissions ht h₂).bind ?_
      intro s₃ s₃' h₃
      refine (allocateVirtualPage_related allPermissions ht h₃).bind ?_
      rintro s₄ s₄' ⟨pages, h₄, -⟩
      obtain ⟨own₄, leaked₄, htwin, -⟩ := h₄.twin
      refine ⟨rfl, rfl, fun _ => ⟨t, _, _, own₄, leaked₄, ?_, hlt, htwin⟩⟩
      simp only [Kernel.modifyPd, ProcessTable.modify_pd_self]

/-- A process is created alike. -/
theorem createProcess_related (h : Paired K live own leaked k.paging k'.paging)
    (hsame : SameButPaging k k')
    (hreuse : (∃ pid, (k.table.pd pid).slotAllocated = false) → program.ReusesFrames wild k k') :
    Except.Related (fun r r' => r'.1 = r.1 ∧ SameButPaging r.2 r'.2 ∧ Grown K live r.1 r.2 r'.2)
      (createProcess wild program k) (createProcess wild program k') := by
  have htable : k'.table = k.table := by rw [hsame]
  rw [createProcess, createProcess, htable]
  split
  case h_1 => exact Except.Related.error _
  case h_2 pid hfind =>
    have hslot : (k.table.pd pid).slotAllocated = false := by simpa using List.find?_some hfind
    refine (programLoader_related h hsame (hreuse ⟨pid, hslot⟩)).bind ?_
    rintro ⟨_, k₁⟩ ⟨loaded, k₁'⟩ ⟨rfl, hsame₁, hgrown⟩
    cases loaded with
    | false => exact Except.Related.error _
    | true =>
      obtain ⟨t, m, m', own', leaked', hsatp, hrest⟩ := hgrown rfl
      refine ⟨rfl, ?_, t, m, m', own', leaked', ?_, hrest⟩
      · dsimp only [SameButPaging] at hsame₁ ⊢
        rw [hsame₁]
        rfl
      · simp only [Kernel.modifyPd, ProcessTable.modify_pd_self, newDescriptor]
        exact hsatp

end Kernel

end R5O5
