import Mathlib.Data.Nat.Notation

/-!
# Parameters of the kernel

The constants of `kernel/declarations.h` that more than one part of the kernel uses, the ways a
kernel function can stop without returning, and what the linker decides.
-/

namespace R5O5

/-- `BSIZE`, the bytes of a disk block. -/
def bsize : ℕ := 1024

/-- `DISKSIZE`, in blocks. -/
def diskSize : ℕ := 1000

/-- `LOGSTART`, the first log block. -/
def logStart : ℕ := 900

/-- `PGSIZE`. -/
def pgsize : ℕ := 4096

/-- `NUM_PTE`, the entries of a page directory. -/
def numPte : ℕ := 512

/-- `NUM_PAGES`, the managed pages. -/
def numPages : ℕ := 500

/-- `NPROC`. -/
def nproc : ℕ := 64

theorem nproc_pos : 0 < nproc := by decide

/-- `NREG`. -/
def nreg : ℕ := 31

/-- `PHYSTOP`, the end of the RAM used by the kernel. -/
def physTop : BitVec 64 := 0x80000000 + 128 * 1024 * 1024

/-- `START_PAGE`: the number of the first page that starts at or after `end`. -/
def startPage (kernelEnd : BitVec 64) : BitVec 64 := (kernelEnd + 4096 - 1) / 4096

/-- `END_PAGE`. -/
def endPage : BitVec 64 := physTop / 4096

/-- The linked kernel: the managed pages after its end lie in RAM. -/
structure KernelImage where
  kernelEnd : BitVec 64
  fits : (startPage kernelEnd).toNat + numPages ≤ endPage.toNat

/-- How a kernel function can stop without returning. -/
inductive Stop
  /-- `error(message)`, which prints the message and loops. -/
  | error (message : String)
  /-- A loop that never ends. -/
  | diverge
  /-- An access outside the bounds of an array that the source says nothing about. -/
  | outOfBounds
  deriving DecidableEq, Repr

end R5O5
