import R5O5.Mkfs.Area

/-!
# The finished image

What every run of `mkfs/r5o5_mkfs.c` leaves: an image of the size that `buildDisk` gave it, with
spaces behind the program area, and recorded positions that are offsets in a block.

## Main results

- `stored_runMkfs`: the recorded positions;
- `size_runMkfs`, `bytes_runMkfs_of_procLimit_le`: the image.
-/

namespace R5O5.Mkfs

open Stdio

/-- What the kernel expects of a recorded position. -/
structure InfoLine.Valid (line : InfoLine) : Prop where
  startBlock_nonneg : 0 ≤ line.startBlock
  startOffset_nonneg : 0 ≤ line.startOffset
  startOffset_lt : line.startOffset < blockSize
  endOffset_nonneg : 0 ≤ line.endOffset
  endOffset_lt : line.endOffset < blockSize
  start_le : line.start ≤ procLimit
  last_lt : line.last < procLimit

section Image

variable {progs : List Program} {prog : Program} {σ : Session}

/-- Bytes that are written inside the file do not make it longer. -/
theorem size_fwriteAll_of_le (f : Stream) (cs : List (BitVec 8)) (h : f.pos + cs.length ≤ f.size) :
    (f.fwriteAll cs).size = f.size := by
  induction cs generalizing f with
  | nil => rfl
  | cons c cs ih =>
    rw [List.length_cons] at h
    have hsize : (f.fwrite c).size = f.size := by
      rw [Stream.size_fwrite]
      omega
    rw [Stream.fwriteAll_cons, ih _ (by rw [Stream.pos_fwrite, hsize]; omega), hsize]

/-- The bytes of a call end in the program area. -/
theorem written_le (σ : Session) (prog : Program) (hcur : 0 ≤ σ.state.cursor)
    (hlt : σ.state.cursor < procLimit) :
    (σ.state.cursor.toNat + (prog.written σ.state.cursor).length : ℤ) ≤ procLimit := by
  rw [Program.written, List.length_take]
  omega

/-- A call does not change the size of the disk. -/
theorem size_store (hwf : σ.Wf) (hsize : σ.state.disk.size = diskSize * blockSize)
    (prog : Program) : (σ.store prog).state.disk.size = diskSize * blockSize := by
  show (storeProgram σ.state prog).disk.size = _
  rcases lt_or_ge σ.state.cursor 0 with hcur | hcur
  · rwa [storeProgram_of_neg _ _ hcur]
  · have hle := written_le σ prog hcur hwf.cursor_lt
    have hlimit : procLimit = 300 * 1024 := by decide
    rw [disk_storeProgram _ _ hwf.offset_nonneg hcur hwf.cursor_lt.le, size_fwriteAll_of_le]
    · exact hsize
    · show σ.state.cursor.toNat + (prog.written σ.state.cursor).length ≤ σ.state.disk.size
      rw [hsize, diskSize, blockSize]
      omega

/-- No call writes behind the program area. -/
theorem bytes_store_of_procLimit_le (hwf : σ.Wf) (prog : Program) {x : ℕ} (hx : procLimit ≤ x) :
    (σ.store prog).state.disk.bytes x = σ.state.disk.bytes x := by
  show (storeProgram σ.state prog).disk.bytes x = _
  rcases lt_or_ge σ.state.cursor 0 with hcur | hcur
  · rw [storeProgram_of_neg _ _ hcur]
  · have hle := written_le σ prog hcur hwf.cursor_lt
    rw [disk_storeProgram _ _ hwf.offset_nonneg hcur hwf.cursor_lt.le,
      Stream.bytes_fwriteAll_of_outside]
    right
    show σ.state.cursor.toNat + (prog.written σ.state.cursor).length ≤ x
    omega

theorem size_runMkfs (progs : List Program) :
    (runMkfs progs).state.disk.size = diskSize * blockSize := by
  induction progs using List.reverseRecOn with
  | nil => exact size_buildDisk
  | append_singleton progs prog ih =>
    rw [runMkfs_append_singleton]
    exact size_store (wf_runMkfs progs) ih prog

/-- Behind the program area the image holds spaces. -/
theorem bytes_runMkfs_of_procLimit_le (progs : List Program) {x : ℕ} (hx : procLimit ≤ x)
    (hlt : x < diskSize * blockSize) : (runMkfs progs).state.disk.bytes x = 32 := by
  induction progs using List.reverseRecOn with
  | nil =>
    simp only [runMkfs, List.foldl_nil, Session.init]
    exact bytes_buildDisk hlt
  | append_singleton progs prog ih =>
    rw [runMkfs_append_singleton, bytes_store_of_procLimit_le (wf_runMkfs progs) prog hx, ih]

/-- The cursor is at an offset in a block. -/
theorem offset_store_lt (hwf : σ.Wf) (hlt : σ.state.offset < blockSize) (prog : Program) :
    (σ.store prog).state.offset < blockSize := by
  show (storeProgram σ.state prog).offset < blockSize
  rcases lt_or_ge σ.state.cursor 0 with hcur | hcur
  · rwa [storeProgram_of_neg _ _ hcur]
  · rcases le_or_gt (σ.state.cursor + prog.contents.length) procLimit with hfits | hfits
    · rw [storeProgram_of_fits _ _ hwf.offset_nonneg hcur hfits]
      exact Int.emod_lt_of_pos _ (by decide)
    · rwa [storeProgram_of_not_fits _ _ hwf.offset_nonneg hcur hwf.cursor_lt.le hfits]

theorem offset_runMkfs_lt (progs : List Program) :
    (runMkfs progs).state.offset < blockSize := by
  induction progs using List.reverseRecOn with
  | nil => decide
  | append_singleton progs prog ih =>
    rw [runMkfs_append_singleton]
    exact offset_store_lt (wf_runMkfs progs) ih prog

/-- The recorded positions are valid for the kernel. -/
theorem stored_runMkfs (progs : List Program) :
    ∀ q ∈ (runMkfs progs).stored, q.line.Valid := by
  induction progs using List.reverseRecOn with
  | nil => exact List.forall_mem_nil _
  | append_singleton progs prog ih =>
    intro q hq
    have hwf := wf_runMkfs progs
    rw [runMkfs_append_singleton, stored_store prog hwf] at hq
    split_ifs at hq with hfits
    case neg => exact ih q hq
    rcases List.mem_append.mp hq with hq | hq
    · exact ih q hq
    rw [List.mem_singleton] at hq
    subst hq
    -- the new line starts at the cursor, which lies in the program area
    have hnonneg := hwf.offset_nonneg
    have hlt := offset_runMkfs_lt progs
    have hcur := hfits.1
    have hcursor : (runMkfs progs).state.cursor =
        blockSize * (runMkfs progs).state.blockNum + (runMkfs progs).state.offset := rfl
    constructor
    case startBlock_nonneg =>
      show 0 ≤ (runMkfs progs).state.blockNum
      simp only [blockSize] at hlt hcursor
      omega
    case startOffset_nonneg => exact hnonneg
    case startOffset_lt => exact hlt
    case endOffset_nonneg => exact Int.emod_nonneg _ (by decide)
    case endOffset_lt => exact Int.emod_lt_of_pos _ (by decide)
    case start_le => exact hwf.cursor_lt.le
    case last_lt =>
      have hfits' := hfits.2
      rw [last_lineFor]
      omega

/-- After harmless calls every recorded program is on the image. -/
theorem intact_of_harmless
    (h : ∀ pre prog, pre ++ [prog] <+: progs → (runMkfs pre).Harmless prog) :
    (runMkfs progs).Intact :=
  (intact_iff_harmless progs).mpr h progs List.prefix_rfl

end Image

end R5O5.Mkfs
