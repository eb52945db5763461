import R5O5.Kernel.MemoryAllocator
import R5O5.Lib.BitField
import R5O5.Lib.Memory

/-!
# Page tables

The functions of `kernel/paging.c` over the page allocator and physical memory. A page table is the
address of its root directory; a directory is 512 words of memory, read and written where the
source reads and writes them.

## Main definitions

- `allocatePageTable`, `allocateVirtualPage`, `deallocatePageTable`: the life of a page table;
- `isVirtualPageAllocated`, `virtualToPhysical`: the walk down its three levels.
-/

namespace R5O5

/-! ## Addresses and page table entries -/

/-- Get offset into a page. -/
def getOffset (addr : BitVec 64) : BitVec 64 := addr &&& 0x0000000000000fff

/-- Get the virtual page number. -/
def getVirtPage (virtualAddress : BitVec 64) : BitVec 64 :=
  (virtualAddress &&& 0x0000007ffffff000) >>> 12

/-- Get L2, the index into the root page directory. -/
def getL2 (virtualAddress : BitVec 64) : BitVec 64 :=
  (virtualAddress &&& 0x0000007fc0000000) >>> 30

/-- Get L1, the index into the intermediate page directory. -/
def getL1 (virtualAddress : BitVec 64) : BitVec 64 :=
  (virtualAddress &&& 0x000000003fe00000) >>> 21

/-- Get L0, the index into the final page directory. -/
def getL0 (virtualAddress : BitVec 64) : BitVec 64 :=
  (virtualAddress &&& 0x00000000001ff000) >>> 12

/-- Get flags of a page table entry. -/
def getFlags (pageTableEntry : BitVec 64) : BitVec 64 := pageTableEntry &&& 0x00000000000003ff

/-- Get page number stored in a page table entry. -/
def getPageNum (pageTableEntry : BitVec 64) : BitVec 64 :=
  (pageTableEntry &&& 0x003ffffffffffc00) >>> 10

/-- `PTE_V`: entry is valid. -/
def pteV : BitVec 64 := 1 <<< 0

/-- `PTE_R`: read access. -/
def pteR : BitVec 64 := 1 <<< 1

/-- `PTE_W`: write access. -/
def pteW : BitVec 64 := 1 <<< 2

/-- `PTE_X`: execute access. -/
def pteX : BitVec 64 := 1 <<< 3

/-- The permissions passed to the functions that map a page. -/
structure Permissions where
  read : Bool
  write : Bool
  execute : Bool
  deriving DecidableEq, Repr

/-- The flags a permission asks for. -/
def Permissions.flags (perm : Permissions) : BitVec 64 :=
  (if perm.read then pteR else 0) ||| (if perm.write then pteW else 0) |||
    (if perm.execute then pteX else 0)

/-- The address of entry `i` of a page directory. -/
def pteAddr (directory i : BitVec 64) : BitVec 64 := directory + i * 8

/-- The memory and the allocator that paging works on. -/
structure Paging where
  alloc : PageAllocator
  mem : Mem

/-- The test of the valid flag of the entry at an address. -/
def isValid (mem : Mem) (addr : BitVec 64) : Bool := getFlags (mem.load64 addr) &&& pteV ≠ 0

/-- Set the flags that are asked for in the entry at an address; the others stay as they are. -/
def setFlags (addr : BitVec 64) (perm : Permissions) (mem : Mem) : Mem :=
  let value := mem.load64 addr
  let value := if perm.read then value ||| pteR else value
  let value := if perm.write then value ||| pteW else value
  let value := if perm.execute then value ||| pteX else value
  mem.store64 addr value

/-! ## Allocation -/

/-- Make each page table entry of a directory invalid. -/
def clearEntries (pageDir : BitVec 64) (slots : List (Fin numPte)) (mem : Mem) : Mem :=
  slots.foldl (fun mem i =>
    let addr := pteAddr pageDir (BitVec.ofNat 64 i)
    mem.store64 addr (mem.load64 addr &&& ~~~pteV)) mem

/-- Allocate a page directory and make its entries invalid. -/
def allocatePageDirectory (s : Paging) : Except Stop (BitVec 64 × Paging) := do
  let (pageNum, alloc) ← allocatePage s.alloc
  let pageDir := pageNum <<< 12
  return (pageDir, { alloc, mem := clearEntries pageDir (List.finRange numPte) s.mem })

/-- Allocate a page directory and take it as the page table. -/
def allocatePageTable (s : Paging) : Except Stop (BitVec 64 × Paging) := allocatePageDirectory s

/-- Is the virtual page mapped by the page table? -/
def isVirtualPageAllocated (mem : Mem) (pagetable virtualPageNum : BitVec 64) : Bool :=
  let virtualAddress := virtualPageNum <<< 12
  let pteL2 := pteAddr pagetable (getL2 virtualAddress)
  if !isValid mem pteL2 then false
  else
    let level1 := getPageNum (mem.load64 pteL2) <<< 12
    let pteL1 := pteAddr level1 (getL1 virtualAddress)
    if !isValid mem pteL1 then false
    else
      let level0 := getPageNum (mem.load64 pteL1) <<< 12
      let pteL0 := pteAddr level0 (getL0 virtualAddress)
      if !isValid mem pteL0 then false
      else true

/-- What `mapVirtualPage` does with the entry it meets at each of the three levels: an invalid one
gets a page of its own. -/
def fillEntry (addr : BitVec 64) (perm : Permissions) (s : Paging) : Except Stop Paging :=
  if isValid s.mem addr then return s
  else do
    let (pageNum, alloc) ← allocatePage s.alloc
    let mem := s.mem.store64 addr (pageNum <<< 10 ||| pteV)
    return { alloc, mem := setFlags addr perm mem }

/-- Map a virtual page in the page table. The page number passed for it is not used. -/
def mapVirtualPage (pagetable virtualPageNum _physicalPageNum : BitVec 64) (perm : Permissions)
    (s : Paging) : Except Stop Paging := do
  let virtualAddress := virtualPageNum <<< 12
  let pteL2 := pteAddr pagetable (getL2 virtualAddress)
  let s ← fillEntry pteL2 ⟨true, false, false⟩ s
  let level1 := getPageNum (s.mem.load64 pteL2) <<< 12
  let pteL1 := pteAddr level1 (getL1 virtualAddress)
  let s ← fillEntry pteL1 ⟨true, false, false⟩ s
  let level0 := getPageNum (s.mem.load64 pteL1) <<< 12
  let pteL0 := pteAddr level0 (getL0 virtualAddress)
  fillEntry pteL0 perm s

/-- Allocate a physical page and map it to a virtual page that is not mapped yet. -/
def allocateVirtualPage (pagetable virtualPageNum : BitVec 64) (perm : Permissions) (s : Paging) :
    Except Stop Paging :=
  if isVirtualPageAllocated s.mem pagetable virtualPageNum then
    .error (.error "allocateVirtualPage: Virtual Page Already given a physical page")
  else do
    let (pageNum, alloc) ← allocatePage s.alloc
    mapVirtualPage pagetable virtualPageNum pageNum perm { s with alloc }

/-- The physical address of an allocated virtual address. -/
def virtualToPhysical (mem : Mem) (pagetable virtualAddress : BitVec 64) :
    Except Stop (BitVec 64) :=
  if !isVirtualPageAllocated mem pagetable (getVirtPage virtualAddress) then
    .error (.error "virtualToPhysical: virtual address not valid")
  else
    let level1 := getPageNum (mem.load64 (pteAddr pagetable (getL2 virtualAddress))) <<< 12
    let level0 := getPageNum (mem.load64 (pteAddr level1 (getL1 virtualAddress))) <<< 12
    let physicalPageNum := getPageNum (mem.load64 (pteAddr level0 (getL0 virtualAddress)))
    .ok (physicalPageNum <<< 12 ||| getOffset virtualAddress)

/-! ## Deallocation -/

/-- One round of a loop of `deallocatePageTable`: what a valid entry points to is emptied by `inner`
and freed, and the entry is invalidated. -/
def freeEntry (inner : BitVec 64 → Paging → Except Stop Paging) (directory : BitVec 64) (s : Paging)
    (i : Fin numPte) : Except Stop Paging :=
  let addr := pteAddr directory (BitVec.ofNat 64 i)
  if isValid s.mem addr then do
    let s ← inner (getPageNum (s.mem.load64 addr) <<< 12) s
    let alloc ← freePage (getPageNum (s.mem.load64 addr)) s.alloc
    return { alloc, mem := s.mem.store64 addr 0 }
  else return s

/-- The loop over one directory. -/
def freeEntries (inner : BitVec 64 → Paging → Except Stop Paging) (directory : BitVec 64)
    (s : Paging) : Except Stop Paging :=
  (List.finRange numPte).foldlM (freeEntry inner directory) s

/-- The innermost loop, over the mapped pages themselves. -/
def freeLevel0 : BitVec 64 → Paging → Except Stop Paging := freeEntries fun _ s => return s

/-- The middle loop. -/
def freeLevel1 : BitVec 64 → Paging → Except Stop Paging := freeEntries freeLevel0

/-- Free the pages of a page table, its directories and the table itself. -/
def deallocatePageTable (pagetable : BitVec 64) (s : Paging) : Except Stop Paging := do
  let s ← freeEntries freeLevel1 pagetable s
  let alloc ← freePage (pagetable >>> 12) s.alloc
  return { s with alloc }

/-! ## Reading the fields -/

section Fields

variable {pageNum flags virtualAddress : BitVec 64}

theorem toNat_getOffset : (getOffset virtualAddress).toNat = virtualAddress.toNat % 2 ^ 12 :=
  BitField.toNat_and (by decide)

/-- The virtual page is the next 27 bits. -/
theorem toNat_getVirtPage :
    (getVirtPage virtualAddress).toNat = virtualAddress.toNat / 2 ^ 12 % 2 ^ 27 :=
  BitField.toNat_and_ushiftRight (by decide)

/-- The index in the root is the upper nine bits of the virtual page. -/
theorem toNat_getL2 : (getL2 virtualAddress).toNat = virtualAddress.toNat / 2 ^ 30 % 2 ^ 9 :=
  BitField.toNat_and_ushiftRight (by decide)

/-- The index in the middle directory is the next nine. -/
theorem toNat_getL1 : (getL1 virtualAddress).toNat = virtualAddress.toNat / 2 ^ 21 % 2 ^ 9 :=
  BitField.toNat_and_ushiftRight (by decide)

/-- The index in the last directory is the lower nine. -/
theorem toNat_getL0 : (getL0 virtualAddress).toNat = virtualAddress.toNat / 2 ^ 12 % 2 ^ 9 :=
  BitField.toNat_and_ushiftRight (by decide)

/-- The flags are the lower 10 bits of an entry. -/
theorem toNat_getFlags {entry : BitVec 64} : (getFlags entry).toNat = entry.toNat % 2 ^ 10 :=
  BitField.toNat_and (by decide)

/-- The page number is the next 44 bits of an entry. -/
theorem toNat_getPageNum {entry : BitVec 64} :
    (getPageNum entry).toNat = entry.toNat / 2 ^ 10 % 2 ^ 44 :=
  BitField.toNat_and_ushiftRight (by decide)

/-- An entry of a page number and flags. -/
theorem toNat_entry (hpage : pageNum.toNat < 2 ^ 44) (hflags : flags.toNat < 2 ^ 10) :
    (pageNum <<< 10 ||| flags).toNat = pageNum.toNat * 2 ^ 10 + flags.toNat :=
  BitField.toNat_shiftLeft_or (by omega) hflags

/-- The page number of an entry that is put together. -/
theorem getPageNum_entry (hpage : pageNum.toNat < 2 ^ 44) (hflags : flags.toNat < 2 ^ 10) :
    getPageNum (pageNum <<< 10 ||| flags) = pageNum := by
  apply BitVec.eq_of_toNat_eq
  rw [toNat_getPageNum, toNat_entry hpage hflags]
  omega

theorem getFlags_entry (hpage : pageNum.toNat < 2 ^ 44) (hflags : flags.toNat < 2 ^ 10) :
    getFlags (pageNum <<< 10 ||| flags) = flags := by
  apply BitVec.eq_of_toNat_eq
  rw [toNat_getFlags, toNat_entry hpage hflags]
  omega

/-- `setFlags` adds the flags to the entry. -/
theorem setFlags_eq (addr : BitVec 64) (perm : Permissions) (mem : Mem) :
    setFlags addr perm mem = mem.store64 addr (mem.load64 addr ||| perm.flags) := by
  obtain ⟨read, write, execute⟩ := perm
  cases read <;> cases write <;> cases execute <;>
    simp [setFlags, Permissions.flags, BitVec.or_assoc]

end Fields

end R5O5
