import Mathlib.Data.List.FinRange
import R5O5.Kernel.Declarations
import R5O5.Lib.Memory
import R5O5.Lib.Ring
import R5O5.Kernel.Paging

/-!
# The buffer cache

The functions of `kernel/buffer.c` over the buffers, their list and the disk. `diskRW` is taken as
the synchronous transfer of one whole block. The functions that copy bytes between the disk and
memory are instances of one loop over the blocks.

## Main definitions

- `bread`, `bwrite`, `brelse`: the operations on buffers;
- `readBytes`, `writeBytes`, `readBytesVirtual`: the copying functions.
-/

namespace R5O5

/-- `NBUF`. -/
def nbuf : ℕ := 30

/-- A pointer to one of the `Buffer` structures of `bcache`. -/
inductive BufRef
  | head
  | buf (i : Fin nbuf)
  deriving DecidableEq, Repr

/-- A buffer without its links. -/
structure Buffer where
  valid : Bool
  blockno : BitVec 32
  refcnt : BitVec 32
  data : Fin bsize → BitVec 8

/-- `bcache`. -/
structure BufferCache where
  buf : BufRef → Buffer
  links : Ring.Links BufRef

/-- Change one buffer. -/
def BufferCache.modify (c : BufferCache) (b : BufRef) (f : Buffer → Buffer) : BufferCache :=
  { c with buf := Function.update c.buf b (f (c.buf b)) }

/-- Initialize the buffer list. -/
def binit (c : BufferCache) : BufferCache :=
  let empty : Ring.Links BufRef :=
    { next := Function.update c.links.next .head .head
      prev := Function.update c.links.prev .head .head }
  { c with links := (List.finRange nbuf).foldl (fun l i => Ring.pushFront l .head (.buf i)) empty }

/-- Get the buffer of a block, or a free one. -/
def bget (blockno : BitVec 32) (c : BufferCache) : Except Stop (BufRef × BufferCache) :=
  match Ring.find c.links.next .head (fun b => (c.buf b).blockno = blockno) (nbuf + 1)
      (c.links.next .head) with
  | none => .error .diverge
  | some (some b) => .ok (b, c.modify b fun x => { x with refcnt := x.refcnt + 1 })
  | some none =>
    match Ring.find c.links.prev .head (fun b => (c.buf b).refcnt = 0) (nbuf + 1)
        (c.links.prev .head) with
    | none => .error .diverge
    | some (some b) =>
        .ok (b, c.modify b fun x => { x with blockno := blockno, valid := false, refcnt := 1 })
    | some none => .error (.error "bget: no buffers")

/-- The buffer cache and the bytes of the disk. -/
structure CachedDisk where
  cache : BufferCache
  disk : ℕ → BitVec 8

/-- The bytes of a block. -/
def blockData (disk : ℕ → BitVec 8) (blockno : ℕ) (j : Fin bsize) : BitVec 8 :=
  disk (blockno * bsize + j)

/-- Transfer a whole block between the disk and its buffer. -/
def diskRW (b : BufRef) (write : Bool) (s : CachedDisk) : CachedDisk :=
  let blockno := (s.cache.buf b).blockno.toNat
  if write then
    { s with disk := fun p =>
        if p / bsize = blockno then
          (s.cache.buf b).data ⟨p % bsize, Nat.mod_lt _ (by decide)⟩
        else s.disk p }
  else { s with cache := s.cache.modify b fun x => { x with data := blockData s.disk blockno } }

/-- Read a block into a buffer. -/
def bread (blockno : BitVec 32) (s : CachedDisk) : Except Stop (BufRef × CachedDisk) := do
  let (b, cache) ← bget blockno s.cache
  let s := { s with cache }
  if (s.cache.buf b).valid then return (b, s)
  else
    let s := diskRW b false s
    return (b, { s with cache := s.cache.modify b fun x => { x with valid := true } })

/-- Write the buffer back to its block. -/
def bwrite (b : BufRef) (s : CachedDisk) : CachedDisk := diskRW b true s

/-- Release the buffer: an unused one moves to the front of the list. -/
def brelse (b : BufRef) (c : BufferCache) : BufferCache :=
  let c := c.modify b fun x => { x with refcnt := x.refcnt - 1 }
  if (c.buf b).refcnt = 0 then
    { c with links := Ring.pushFront (Ring.unlink c.links b) .head b }
  else c

/-! ## Copying bytes -/

section Copying

variable {τ : Type} (flush : Bool) (message : String)

/-- Give the buffer back, after writing it to the disk if `flush` is set. -/
def release (b : BufRef) (s : CachedDisk) : CachedDisk :=
  let s := if flush then bwrite b s else s
  { s with cache := brelse b s.cache }

/-- The buffer of a block, if the block exists. -/
def openBlock (diskBlockNum : BitVec 64) (s : CachedDisk) : Except Stop (BufRef × CachedDisk) :=
  if diskBlockNum ≥ BitVec.ofNat 64 diskSize then .error (.error message)
  else bread (diskBlockNum.setWidth 32) s

/-- The loop of the copying functions. `byte k b pos` copies byte `k` from or to position `pos` of
the buffer `b`; the state beside the buffers is what the byte comes from or goes to. -/
def copyLoop
    (byte : ℕ → BufRef → BitVec 64 → CachedDisk × τ → Except Stop (CachedDisk × τ)) :
    ℕ → ℕ → BitVec 64 → BitVec 64 → BufRef → CachedDisk × τ → Except Stop (CachedDisk × τ)
  | 0, _, _, _, b, (s, t) => .ok (release flush b s, t)
  | left + 1, k, diskBlockNum, pos, b, (s, t) => do
    if pos = BitVec.ofNat 64 bsize then
      let (b, s) ← openBlock message (diskBlockNum + 1) (release flush b s)
      let st ← byte k b 0 (s, t)
      copyLoop byte left (k + 1) (diskBlockNum + 1) (0 + 1) b st
    else
      let st ← byte k b pos (s, t)
      copyLoop byte left (k + 1) diskBlockNum (pos + 1) b st

/-- Copy `nBytes` bytes from or to the disk, starting in block `diskBlockNum` at `offset`. -/
def copyBytes (byte : ℕ → BufRef → BitVec 64 → CachedDisk × τ → Except Stop (CachedDisk × τ))
    (diskBlockNum offset nBytes : BitVec 64) (st : CachedDisk × τ) :
    Except Stop (CachedDisk × τ) := do
  let (b, s) ← openBlock message diskBlockNum st.1
  copyLoop flush message byte nBytes.toNat 0 diskBlockNum offset b (s, st.2)

end Copying

section Functions

/-- What a read of `b->data` outside its bounds finds there. -/
abbrev Wild : Type := CachedDisk → BufRef → BitVec 64 → BitVec 8

/-- Read `b->data[pos]`. -/
def dataAt (wild : Wild) (s : CachedDisk) (b : BufRef) (pos : BitVec 64) : BitVec 8 :=
  if h : pos.toNat < bsize then (s.cache.buf b).data ⟨pos.toNat, h⟩ else wild s b pos

/-- Write `b->data[pos]`. -/
def setData (b : BufRef) (pos : BitVec 64) (v : BitVec 8) (s : CachedDisk) :
    Except Stop CachedDisk :=
  if h : pos.toNat < bsize then
    .ok { s with cache := s.cache.modify b fun x =>
      { x with data := Function.update x.data ⟨pos.toNat, h⟩ v } }
  else .error .outOfBounds

/-- Read bytes from the disk; the result is what is stored at `memoryLocation`, in order. -/
def readBytes (wild : Wild) (diskBlockNum offset nBytes : BitVec 64) (s : CachedDisk) :
    Except Stop (CachedDisk × List (BitVec 8)) :=
  copyBytes false "readBytes: block exceeds disk size"
    (fun _ b pos (s, bytes) => .ok (s, bytes ++ [dataAt wild s b pos]))
    diskBlockNum offset nBytes (s, [])

/-- Write bytes to the disk; `memory i` is the byte at `memoryLocation + i`. -/
def writeBytes (diskBlockNum offset nBytes : BitVec 64) (memory : ℕ → BitVec 8) (s : CachedDisk) :
    Except Stop CachedDisk := do
  let (s, _) ← copyBytes true "writeBytes: block exceeds disk size"
    (fun k b pos (s, t) => do
      let s ← setData b pos (memory k) s
      return (s, t))
    diskBlockNum offset nBytes (s, ())
  return s

/-- Read bytes from the disk to a virtual address, which is translated for every byte. -/
def readBytesVirtual (wild : Wild) (diskBlockNum offset nBytes memoryLocation pagetable : BitVec 64)
    (s : CachedDisk) (mem : Mem) : Except Stop (CachedDisk × Mem) :=
  copyBytes false "readBytesVirtual: block exceeds disk size"
    (fun k b pos (s, mem) => do
      let physicaladdr ← virtualToPhysical mem pagetable (memoryLocation + BitVec.ofNat 64 k)
      return (s, mem.write physicaladdr (dataAt wild s b pos)))
    diskBlockNum offset nBytes (s, mem)

/-- Write bytes from a virtual address, which is translated for every byte, to the disk. -/
def writeBytesVirtual (diskBlockNum offset nBytes memoryLocation pagetable : BitVec 64)
    (s : CachedDisk) (mem : Mem) : Except Stop CachedDisk := do
  let (s, _) ← copyBytes true "writeBytesVirtual: block exceeds disk size"
    (fun k b pos (s, t) => do
      let physicaladdr ← virtualToPhysical mem pagetable (memoryLocation + BitVec.ofNat 64 k)
      let s ← setData b pos (mem physicaladdr) s
      return (s, t))
    diskBlockNum offset nBytes (s, ())
  return s

end Functions

end R5O5
