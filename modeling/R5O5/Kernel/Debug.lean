import R5O5.Kernel.Buffer

/-!
# Logging

The functions of `kernel/debug.c`. The position in the log region is kept in `block_no` and `off`; a
string is the list of its bytes before the terminator.
-/

namespace R5O5

/-- The buffer cache and the disk with the current position in the log region. -/
structure LogState where
  io : CachedDisk
  blockNo : BitVec 64
  off : BitVec 64

/-- Start at the beginning of the log region. -/
def logDataInit (io : CachedDisk) : LogState where
  io := io
  blockNo := BitVec.ofNat 64 logStart
  off := 0

/-- The loop of `logData` over the bytes of the string. -/
def logLoop : List (BitVec 8) → BufRef → LogState → Except Stop LogState
  | [], buff, s => .ok { s with io := release true buff s.io }
  | c :: str, buff, s => do
    if s.off = BitVec.ofNat 64 bsize then
      let io := release true buff s.io
      let blockNo := s.blockNo + 1
      if blockNo = BitVec.ofNat 64 diskSize then .error (.error "logData")
      else
        let (buff, io) ← bread (blockNo.setWidth 32) io
        let io ← setData buff 0 c io
        logLoop str buff { io, blockNo, off := 0 + 1 }
    else
      let io ← setData buff s.off c s.io
      logLoop str buff { s with io, off := s.off + 1 }

/-- Append a string to the log. -/
def logData (str : List (BitVec 8)) (s : LogState) : Except Stop LogState := do
  let (buff, io) ← bread (s.blockNo.setWidth 32) s.io
  logLoop str buff { s with io }

end R5O5
