import R5O5.Kernel.ElfReader
import R5O5.Kernel.Paging
import R5O5.Kernel.Process

/-!
# Creating processes

The functions of `kernel/createProcess.c` over the process table, page tables, buffer cache and
disk.

## Main definitions

- `Kernel`: the state of the kernel;
- `programLoader`: load a program from the disk into a new page table;
- `createProcess`: find a free slot of the process table and load a program for it.
-/

namespace R5O5

/-- The state of the kernel. -/
structure Kernel where
  io : CachedDisk
  paging : Paging
  elfNodes : ElfNodes
  table : ProcessTable

/-- Change one slot of the process table. -/
def Kernel.modifyPd (k : Kernel) (pid : Pid) (f : ProcessDescriptor → ProcessDescriptor) : Kernel :=
  { k with table := k.table.modify pid f }

/-- The larger one of two numbers. -/
def max (x y : BitVec 64) : BitVec 64 := if x > y then x else y

/-- The quotient, rounded up; the sum in it wraps. -/
def ceilDiv (x y : BitVec 64) : BitVec 64 := (x + y - 1) / y

/-- Currently all permissions are allowed. -/
def allPermissions : Permissions := ⟨true, true, true⟩

/-- The body of the loop that allocates the pages of a segment: byte `i` gets its page. The pages
run out before the `int` counter of the source overflows. -/
def allocateByte (pagetable virtualAddress : BitVec 64) (s : Paging) (i : ℕ) : Except Stop Paging :=
  let currVirt := virtualAddress + BitVec.ofNat 64 i
  let currVirtPage := getVirtPage currVirt
  if !isVirtualPageAllocated s.mem pagetable currVirtPage then
    allocateVirtualPage pagetable currVirtPage allPermissions s
  else return s

/-- What `programLoader` does for one segment: allocate its pages and load it from the disk. -/
def loadSegment (wild : Wild) (startBlock startOffset pagetable : BitVec 64) (elfNode : Elfread)
    (io : CachedDisk) (paging : Paging) : Except Stop (CachedDisk × Paging) := do
  let off := elfNode.off + startOffset
  let paging ← (List.range elfNode.memsz.toNat).foldlM (allocateByte pagetable elfNode.vaddr) paging
  let blockNum := startBlock + off / BitVec.ofNat 64 bsize
  let blockOff := off % BitVec.ofNat 64 bsize
  let (io, mem) ← readBytesVirtual wild blockNum blockOff elfNode.filesz elfNode.vaddr pagetable io
    paging.mem
  return (io, { paging with mem })

/-- The loop of `programLoader` over the list of segments; the last number is
`stackBeginVirtPage`. -/
def loadSegments (wild : Wild) (startBlock startOffset pagetable : BitVec 64) (elfNodes : ElfNodes) :
    ℕ → ElfreadPtr → CachedDisk × Paging × BitVec 64 → Except Stop (CachedDisk × Paging × BitVec 64)
  | _, none, s => return s
  | 0, some _, _ => .error .diverge
  | fuel + 1, some i, (io, paging, stackBeginVirtPage) => do
    let elfNode := elfNodes i
    let (io, paging) ← loadSegment wild startBlock startOffset pagetable elfNode io paging
    let stackBeginVirtPage := max stackBeginVirtPage
      (ceilDiv (elfNode.vaddr + elfNode.memsz) (BitVec.ofNat 64 pgsize))
    loadSegments wild startBlock startOffset pagetable elfNodes fuel elfNode.next
      (io, paging, stackBeginVirtPage)

/-- The place of a program on the disk: the arguments of `createProcess`. -/
structure Program where
  startBlock : BitVec 64
  startOffset : BitVec 64
  endBlock : BitVec 64
  endOffset : BitVec 64

/-- The index of the stack pointer in the save area. -/
def spIndex : Fin nreg := ⟨1, by decide⟩

/-- Load a program from the disk for the process `pid`. -/
def programLoader (wild : Wild) (program : Program) (pid : Pid) (k : Kernel) :
    Except Stop (Bool × Kernel) := do
  let (elfReadList, io, elfNodes) ← elfReader wild program.startBlock program.startOffset
    program.endBlock program.endOffset k.io k.elfNodes
  let k := { k with io, elfNodes }
  if elfReadList.head = none then return (false, k)
  let (pagetable, paging) ← allocatePageTable k.paging
  let k := k.modifyPd pid fun d =>
    { d with sa := { d.sa with satp := pagetable, epc := elfReadList.entry } }
  let (io, paging, stackBeginVirtPage) ← loadSegments wild program.startBlock program.startOffset
    pagetable k.elfNodes elfSize elfReadList.head (k.io, paging, 0)
  let paging ← allocateVirtualPage pagetable stackBeginVirtPage allPermissions paging
  let paging ← allocateVirtualPage pagetable (stackBeginVirtPage + 1) allPermissions paging
  let k := { k with io, paging }
  return (true, k.modifyPd pid fun d =>
    { d with sa := { d.sa with
      reg := Function.update d.sa.reg spIndex
        ((stackBeginVirtPage <<< 12) + 2 * BitVec.ofNat 64 pgsize) } })

/-- The descriptor of a new process. -/
def newDescriptor (d : ProcessDescriptor) : ProcessDescriptor :=
  { d with slotAllocated := true, state := .ready, timeLeft := timeQuantum }

/-- Create a process for a program; the result is its number. -/
def createProcess (wild : Wild) (program : Program) (k : Kernel) : Except Stop (Pid × Kernel) :=
  match (List.finRange nproc).find? fun pid => !(k.table.pd pid).slotAllocated with
  | none => .error (.error "createProcess: Process Table Filled")
  | some pid => do
    let (loaded, k) ← programLoader wild program pid k
    if !loaded then .error (.error "createProcess: Program Loading was unsuccesful")
    else return (pid, k.modifyPd pid newDescriptor)

section Table

variable {wild : Wild} {program : Program} {pid : Pid} {k k' : Kernel}

/-- A call that returns has found a free slot and loaded the program. -/
theorem createProcess_eq_ok (hok : createProcess wild program k = .ok (pid, k')) :
    (k.table.pd pid).slotAllocated = false ∧
      ∃ k₁, programLoader wild program pid k = .ok (true, k₁) ∧
        k' = k₁.modifyPd pid newDescriptor := by
  rw [createProcess] at hok
  split at hok
  case h_1 => cases hok
  case h_2 pid' hfind =>
    obtain ⟨⟨loaded, k₁⟩, hload, hrest⟩ := Except.bind_eq_ok.mp hok
    cases loaded with
    | false => cases hrest
    | true =>
      cases hrest
      exact ⟨by simpa using List.find?_some hfind, k₁, hload, rfl⟩

/-- The calls that a loader which has loaded the program has made in turn. -/
theorem programLoader_eq_ok (hok : programLoader wild program pid k = .ok (true, k')) :
    ∃ elfRead io elfNodes pagetable s₁ io₂ s₂ stack s₃ s₄,
      elfReader wild program.startBlock program.startOffset program.endBlock program.endOffset k.io
        k.elfNodes = .ok (elfRead, io, elfNodes) ∧
      elfRead.head ≠ none ∧
      allocatePageTable k.paging = .ok (pagetable, s₁) ∧
      loadSegments wild program.startBlock program.startOffset pagetable elfNodes elfSize
        elfRead.head (io, s₁, 0) = .ok (io₂, s₂, stack) ∧
      allocateVirtualPage pagetable stack allPermissions s₂ = .ok s₃ ∧
      allocateVirtualPage pagetable (stack + 1) allPermissions s₃ = .ok s₄ ∧
      k' =
        { io := io₂
          paging := s₄
          elfNodes
          table := k.table.modify pid fun d =>
            { d with
              sa :=
                { reg := Function.update d.sa.reg spIndex
                    ((stack <<< 12) + 2 * BitVec.ofNat 64 pgsize)
                  epc := elfRead.entry
                  satp := pagetable } } } := by
  obtain ⟨⟨elfRead, io, elfNodes⟩, helf, hrest⟩ := Except.bind_eq_ok.mp hok
  dsimp only at hrest
  by_cases hhead : elfRead.head = none
  · rw [if_pos hhead] at hrest
    cases hrest
  · rw [if_neg hhead] at hrest
    obtain ⟨⟨pagetable, s₁⟩, htable, hrest⟩ := Except.bind_eq_ok.mp hrest
    obtain ⟨⟨io₂, s₂, stack⟩, hload, hrest⟩ := Except.bind_eq_ok.mp hrest
    obtain ⟨s₃, hstack₁, hrest⟩ := Except.bind_eq_ok.mp hrest
    obtain ⟨s₄, hstack₂, hend⟩ := Except.bind_eq_ok.mp hrest
    cases hend
    refine ⟨elfRead, io, elfNodes, pagetable, s₁, io₂, s₂, stack, s₃, s₄, helf, hhead, htable,
      hload, hstack₁, hstack₂, ?_⟩
    simp only [Kernel.modifyPd, ProcessTable.modify_modify]

/-- The loader changes one slot of the process table. -/
theorem programLoader_table (hok : programLoader wild program pid k = .ok (true, k')) :
    ∃ f, k'.table = k.table.modify pid f := by
  obtain ⟨_, _, _, _, _, _, _, _, _, _, -, -, -, -, -, -, rfl⟩ := programLoader_eq_ok hok
  dsimp only
  exact ⟨_, rfl⟩

/-- The new process is ready, in a slot that was free, and the other slots stay as they are. -/
theorem createProcess_table (hok : createProcess wild program k = .ok (pid, k')) :
    (k.table.pd pid).slotAllocated = false ∧
      ∃ f : ProcessDescriptor → ProcessDescriptor,
        k'.table = k.table.modify pid fun d => newDescriptor (f d) := by
  obtain ⟨hfree, k₁, hload, rfl⟩ := createProcess_eq_ok hok
  obtain ⟨f, hf⟩ := programLoader_table hload
  refine ⟨hfree, f, ?_⟩
  rw [Kernel.modifyPd, hf]
  exact ProcessTable.modify_modify ..

end Table

end R5O5
