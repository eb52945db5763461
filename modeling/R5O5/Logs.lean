import R5O5.Kernel.Debug.Log
import R5O5.Mkfs

/-!
# Extracting the log

The host program `logs/getLogInfo.c` copies the start of the log region of the disk image to a file.
Opening the files, seeking and writing always succeed here.

## Main definitions

- `getLogInfo`: the program, from the image to the log file.

## Main results

- `getLogInfo_iff`: when the log file starts with everything that the kernel logged.
-/

namespace R5O5.Logs

open Stdio

/-- `BSIZE`. -/
def bsize : ℕ := 1024

/-- `LOGSTART`. -/
def logStart : ℕ := 900

/-- The loop of `main`, with `left` rounds left; it ends early where the image does. -/
def copyLoop : ℕ → Stream → Stream → Stream
  | 0, _, fpWrite => fpWrite
  | left + 1, fpRead, fpWrite =>
    match fpRead.fread with
    | none => fpWrite
    | some (c, fpRead) => copyLoop left fpRead (fpWrite.fwrite c)

/-- `main`: the log file that is made from a disk image. -/
def getLogInfo (image : Stream) : Stream :=
  match image.reopen.fseek (logStart * bsize : ℕ) with
  | none => .create
  | some fpRead => copyLoop bsize fpRead .create

/-- The disk image after a run of the kernel on it. -/
def image (built : Stream) (s : LogState) : Stream := { built with bytes := s.io.disk }

section GetLogInfo

variable {built : Stream} {s : LogState} {wild : Wild} {links : Ring.Links BufRef}
  {ops : List LogOp}

/-- The loop copies its bytes if they are there. -/
theorem copyLoop_eq (left : ℕ) (fpRead fpWrite : Stream) (h : fpRead.pos + left ≤ fpRead.size) :
    copyLoop left fpRead fpWrite =
      fpWrite.fwriteAll ((List.range left).map fun i => fpRead.bytes (fpRead.pos + i)) := by
  induction left generalizing fpRead fpWrite with
  | zero => rfl
  | succ left ih =>
    have hread : fpRead.fread =
        some (fpRead.bytes fpRead.pos, { fpRead with pos := fpRead.pos + 1 }) := if_pos (by omega)
    rw [copyLoop, hread]
    dsimp only
    rw [ih _ _ (by dsimp only; omega), List.range_succ_eq_map, List.map_cons,
      Stream.fwriteAll_cons, List.map_map]
    have hshift : (fun i => fpRead.bytes (fpRead.pos + 1 + i)) =
        (fun i => fpRead.bytes (fpRead.pos + i)) ∘ Nat.succ := by
      funext i
      rw [Function.comp_apply, Nat.add_assoc, Nat.add_comm 1]
    rw [hshift]
    rfl

/-- The log file holds the first block of the log region. -/
theorem contents_getLogInfo (hsize : built.size = Mkfs.diskSize * Mkfs.blockSize) (s : LogState) :
    (getLogInfo (image built s)).contents =
      (List.range bsize).map fun i => s.io.disk (logStart * bsize + i) := by
  have hseek : (image built s).reopen.fseek (logStart * bsize : ℕ) =
      some { image built s with pos := logStart * bsize } := by
    rw [Stream.fseek, if_pos (Int.natCast_nonneg _), Int.toNat_natCast]
    rfl
  rw [getLogInfo, hseek]
  dsimp only
  rw [copyLoop_eq, Stream.contents_fwriteAll _ _ rfl]
  · exact List.nil_append _
  · show logStart * bsize + bsize ≤ built.size
    rw [hsize]
    decide

/-- The log file starts with everything that was logged exactly when this is at most one block. -/
theorem getLogInfo_iff
    (hrun : Trace (LogOp.Step wild) (DiskCall.boot links (Mkfs.buildDisk .create).bytes) ops s) :
    logged ops <+: (getLogInfo (image (Mkfs.buildDisk .create) s)).contents ↔
      (logged ops).length ≤ bsize := by
  have h := logHolds_of_trace hrun
  rw [contents_getLogInfo Mkfs.size_buildDisk]
  constructor
  · intro hprefix
    have hlength := hprefix.length_le
    rwa [List.length_map, List.length_range] at hlength
  · intro hle
    refine List.prefix_iff_eq_take.mpr (List.ext_getElem ?_ fun i hi hi' => ?_)
    · rw [List.length_take, List.length_map, List.length_range]
      omega
    · have hstart : logStart * bsize = R5O5.logStart * R5O5.bsize := rfl
      rw [List.getElem_take, List.getElem_map, List.getElem_range, h.disk, writeRange, hstart,
        if_pos (by omega), Nat.add_sub_cancel_left]
      exact (List.getD_eq_getElem _ _ hi).symm

end GetLogInfo

/-! ## Two runs -/

section Runs

/-- One string is logged on a new disk image. -/
theorem exists_run (str : List (BitVec 8)) (hle : str.length ≤ logCapacity) : ∃ s,
    Trace (LogOp.Step fun _ _ _ => 0)
      (DiskCall.boot ⟨id, id⟩ (Mkfs.buildDisk .create).bytes) [.logData str] s := by
  rcases (logHolds_boot ⟨id, id⟩ (Mkfs.buildDisk .create).bytes).logData_cases str with
    ⟨s, hok, -⟩ | ⟨-, hlt⟩
  · exact ⟨s, Trace.refl.snoc (.logData hok)⟩
  · exact absurd hle (Nat.not_le.mpr hlt)

/-- A short string is extracted. -/
theorem getLogInfo_hello : ∃ s, Trace (LogOp.Step fun _ _ _ => 0)
      (DiskCall.boot ⟨id, id⟩ (Mkfs.buildDisk .create).bytes) [.logData [104, 105]] s ∧
    [104, 105] <+: (getLogInfo (image (Mkfs.buildDisk .create) s)).contents := by
  obtain ⟨s, hrun⟩ := exists_run [104, 105] (by decide)
  exact ⟨s, hrun, (getLogInfo_iff hrun).mpr (by decide)⟩

/-- A string of one block and one byte is logged without error, and is not extracted whole. -/
theorem getLogInfo_cut : ∃ s, Trace (LogOp.Step fun _ _ _ => 0)
      (DiskCall.boot ⟨id, id⟩ (Mkfs.buildDisk .create).bytes)
      [.logData (List.replicate 1025 65)] s ∧
    ¬ List.replicate 1025 65 <+: (getLogInfo (image (Mkfs.buildDisk .create) s)).contents := by
  obtain ⟨s, hrun⟩ := exists_run (List.replicate 1025 65) (by
    rw [List.length_replicate]
    decide)
  refine ⟨s, hrun, fun hprefix => ?_⟩
  have hlength := hprefix.length_le
  rw [contents_getLogInfo Mkfs.size_buildDisk, List.length_map, List.length_range,
    List.length_replicate] at hlength
  exact absurd hlength (by decide)

end Runs

end R5O5.Logs
