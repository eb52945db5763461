import Mathlib.Data.List.Induction
import Mathlib.Tactic.Linarith
import Mathlib.Tactic.Ring
import R5O5.Lib.Stdio

/-!
# Building the disk image

The host program `mkfs/r5o5_mkfs.c`: `buildDisk` fills the image with spaces and `storeProgram`
appends one program to the program area, keeping its cursor in two static variables. Opening the
program file and writing to the streams always succeed here; `fseek` fails on a negative offset,
which the cursor can reach.

A cursor `(blockNum, offset)` stands for the byte position `getOffset blockNum offset`. Inside the
loop it is exclusive, one past the last byte written. After a successful store it is the position
that the information file records as the inclusive end, and it is left there for the next call.

## Main definitions

- `storeProgram`: one call, over the cursor, the image and the information file;
- `runMkfs`: a whole run, with the line each program got;
- `Intact`: every recorded extent holds its program;
- `Harmless`: a call overwrites recorded extents only with the bytes they already hold.

## Main results

- `storeProgram_of_fits`, `storeProgram_of_not_fits`: what one call does;
- `intact_iff_harmless`: a run keeps its recorded programs all along exactly when every call is
  harmless.
-/

namespace R5O5.Mkfs

open Stdio

/-- `BLOCK_SIZE`. -/
def blockSize : ℕ := 1024

/-- `DISK_SIZE`, in blocks. -/
def diskSize : ℕ := 1000

/-- `PROC_START`, the first block of the program area. -/
def procStart : ℕ := 100

/-- `PROC_END`, the last block of the program area. -/
def procEnd : ℕ := 299

/-- The `getOffset` macro: the byte position of a cursor. -/
def getOffset (blockNum offset : ℤ) : ℤ := blockSize * blockNum + offset

/-- A program file. -/
structure Program where
  name : String
  contents : List (BitVec 8)

/-- The values printed by the `fprintf` to the information file. Both ends are inclusive. -/
structure InfoLine where
  progName : String
  startBlock : ℤ
  startOffset : ℤ
  endBlock : ℤ
  endOffset : ℤ

/-- The static cursor of `storeProgram` and the two files it writes. -/
structure MkfsState where
  blockNum : ℤ
  offset : ℤ
  disk : Stream
  info : List InfoLine

/-- Fill the disk with spaces. -/
def buildDisk (disk : Stream) : Stream :=
  (List.range diskSize).foldl (fun disk _block =>
    (List.range blockSize).foldl (fun disk _byte => disk.fwrite 32#8) disk) disk

/-- What the `while (1)` loop of `storeProgram` leaves behind. -/
structure LoopResult where
  blockNum : ℤ
  offset : ℤ
  disk : Stream
  errorOccurred : Bool

/-- The `while (1)` loop of `storeProgram` over the bytes of the program still to be read. -/
def storeLoop (prevBlockNum prevOffset : ℤ) (blockNum offset : ℤ) (disk : Stream) :
    List (BitVec 8) → LoopResult
  | [] =>
      -- reading completed, after the normalisation at the head of the loop
      { blockNum := blockNum + offset.tdiv blockSize
        offset := offset.tmod blockSize
        disk
        errorOccurred := false }
  | c :: rest =>
      let blockNum := blockNum + offset.tdiv blockSize
      let offset := offset.tmod blockSize
      if procEnd + 1 ≤ blockNum then
        { blockNum := prevBlockNum, offset := prevOffset, disk, errorOccurred := true }
      else
        storeLoop prevBlockNum prevOffset blockNum (offset + 1) (disk.fwrite c) rest

/-- Store one program on the disk and its location in the information file. -/
def storeProgram (s : MkfsState) (prog : Program) : MkfsState :=
  match s.disk.fseek (getOffset s.blockNum s.offset) with
  | none => s
  | some disk =>
      let r := storeLoop s.blockNum s.offset s.blockNum s.offset disk prog.contents
      if r.errorOccurred then
        { s with blockNum := r.blockNum, offset := r.offset, disk := r.disk }
      else
        let offset := (r.offset + blockSize - 1).tmod blockSize
        let blockNum := if offset = blockSize - 1 then r.blockNum - 1 else r.blockNum
        { blockNum
          offset
          disk := r.disk
          info := s.info ++
            [{ progName := prog.name
               startBlock := s.blockNum
               startOffset := s.offset
               endBlock := blockNum
               endOffset := offset }] }

/-- The byte position of the cursor, where the next program starts. -/
def MkfsState.cursor (s : MkfsState) : ℤ := getOffset s.blockNum s.offset

/-- The first byte position past the program area. -/
def procLimit : ℤ := getOffset (procEnd + 1) 0

/-- The bytes of a program that a call starting at byte position `cursor` gets to write. -/
def Program.written (prog : Program) (cursor : ℤ) : List (BitVec 8) :=
  prog.contents.take (procLimit - cursor).toNat

/-! ## The empty image -/

/-- The image is filled with spaces. -/
theorem buildDisk_eq (disk : Stream) :
    buildDisk disk = disk.fwriteAll (List.replicate (diskSize * blockSize) 32#8) := by
  have hblock : ∀ disk : Stream, (List.range blockSize).foldl (fun disk _byte => disk.fwrite 32#8)
      disk = disk.fwriteAll (List.replicate blockSize 32#8) := by
    intro disk
    have hbytes := Stream.foldl_fwriteAll disk 32#8 blockSize 1
    rwa [Nat.mul_one] at hbytes
  simp only [buildDisk, hblock]
  exact Stream.foldl_fwriteAll disk 32#8 diskSize blockSize

/-- The disk has its full size when it is built. -/
theorem size_buildDisk : (buildDisk .create).size = diskSize * blockSize := by
  rw [buildDisk_eq, Stream.size_fwriteAll _ _ rfl, List.length_replicate]
  exact Nat.zero_add _

/-! ## One call -/

section Call

/-- The normalisation at the loop head carries a cursor to the block and offset of its byte
position. -/
theorem normalise_cursor (blockNum offset : ℤ) (ho : 0 ≤ offset) :
    blockNum + offset.tdiv blockSize = getOffset blockNum offset / blockSize ∧
      offset.tmod blockSize = getOffset blockNum offset % blockSize := by
  rw [Int.tdiv_eq_ediv_of_nonneg ho, Int.tmod_eq_emod_of_nonneg ho]
  simp only [getOffset, blockSize, Nat.cast_ofNat]
  omega

/-- A program that ends inside the program area is copied whole, and the cursor ends one past its
last byte. -/
theorem storeLoop_of_fits (prevBlockNum prevOffset blockNum offset : ℤ) (disk : Stream)
    (contents : List (BitVec 8)) (ho : 0 ≤ offset)
    (hfits : getOffset blockNum offset + contents.length ≤ procLimit) :
    storeLoop prevBlockNum prevOffset blockNum offset disk contents =
      { blockNum := (getOffset blockNum offset + contents.length) / blockSize
        offset := (getOffset blockNum offset + contents.length) % blockSize
        disk := disk.fwriteAll contents
        errorOccurred := false } := by
  induction contents generalizing blockNum offset disk with
  | nil =>
    obtain ⟨hb, hm⟩ := normalise_cursor blockNum offset ho
    simp [storeLoop, hb, hm]
  | cons c rest ih =>
    obtain ⟨hb, hm⟩ := normalise_cursor blockNum offset ho
    simp only [List.length_cons, Nat.cast_add, Nat.cast_one] at hfits ⊢
    rw [storeLoop, hb, hm]
    -- the check of the loop is on the block number only
    have hroom : ¬ ((procEnd : ℤ) + 1 ≤ getOffset blockNum offset / blockSize) := by
      simp only [procLimit, getOffset, blockSize, procEnd, Nat.cast_ofNat] at hfits ⊢
      omega
    -- after the byte the cursor is one further
    have hpos : getOffset (getOffset blockNum offset / blockSize)
        (getOffset blockNum offset % blockSize + 1) = getOffset blockNum offset + 1 := by
      simp only [getOffset, blockSize, Nat.cast_ofNat]
      omega
    have hnext : getOffset blockNum offset + 1 + (rest.length : ℤ) =
        getOffset blockNum offset + (rest.length + 1) := by ring
    rw [if_neg hroom, ih _ _ _ (by simp only [blockSize]; omega) (by rw [hpos]; linarith), hpos,
      hnext, Stream.fwriteAll_cons]

/-- A program that does not fit is copied up to the end of the program area; the cursor is rolled
back. -/
theorem storeLoop_of_not_fits (prevBlockNum prevOffset blockNum offset : ℤ) (disk : Stream)
    (contents : List (BitVec 8)) (ho : 0 ≤ offset) (hroom : getOffset blockNum offset ≤ procLimit)
    (hfits : procLimit < getOffset blockNum offset + contents.length) :
    storeLoop prevBlockNum prevOffset blockNum offset disk contents =
      { blockNum := prevBlockNum
        offset := prevOffset
        disk := disk.fwriteAll (contents.take (procLimit - getOffset blockNum offset).toNat)
        errorOccurred := true } := by
  induction contents generalizing blockNum offset disk with
  | nil =>
    simp only [List.length_nil, Nat.cast_zero, add_zero] at hfits
    omega
  | cons c rest ih =>
    obtain ⟨hb, hm⟩ := normalise_cursor blockNum offset ho
    simp only [List.length_cons, Nat.cast_add, Nat.cast_one] at hfits ⊢
    rw [storeLoop, hb, hm]
    -- the loop stops at the limit, after the bytes in front of it
    by_cases hend : getOffset blockNum offset = procLimit
    · have hfull : (procEnd : ℤ) + 1 ≤ getOffset blockNum offset / blockSize := by
        rw [hend]
        decide
      rw [if_pos hfull, hend]
      simp
    · have hfree : ¬ ((procEnd : ℤ) + 1 ≤ getOffset blockNum offset / blockSize) := by
        simp only [procLimit, getOffset, blockSize, procEnd, Nat.cast_ofNat] at hroom hend ⊢
        omega
      have hpos : getOffset (getOffset blockNum offset / blockSize)
          (getOffset blockNum offset % blockSize + 1) = getOffset blockNum offset + 1 := by
        simp only [getOffset, blockSize, Nat.cast_ofNat]
        omega
      have htake : (procLimit - getOffset blockNum offset).toNat =
          (procLimit - (getOffset blockNum offset + 1)).toNat + 1 := by omega
      rw [if_neg hfree, ih _ _ _ (by simp only [blockSize]; omega) (by rw [hpos]; omega)
        (by rw [hpos]; linarith), hpos, htake, List.take_succ_cons, Stream.fwriteAll_cons]

variable (s : MkfsState) (prog : Program)

/-- With the cursor before the start of the image `fseek` fails and the call does nothing. -/
theorem storeProgram_of_neg (hcur : s.cursor < 0) : storeProgram s prog = s := by
  rw [storeProgram, Stream.fseek, if_neg (by simpa [MkfsState.cursor] using hcur)]

/-- A program that fits is written from the cursor on. The recorded extent starts at the cursor
and ends at its last byte, and that inclusive end is the next cursor. -/
theorem storeProgram_of_fits (ho : 0 ≤ s.offset) (hcur : 0 ≤ s.cursor)
    (hfits : s.cursor + prog.contents.length ≤ procLimit) :
    storeProgram s prog =
      { blockNum := (s.cursor + prog.contents.length - 1) / blockSize
        offset := (s.cursor + prog.contents.length - 1) % blockSize
        disk := { s.disk with pos := s.cursor.toNat }.fwriteAll prog.contents
        info := s.info ++
          [{ progName := prog.name
             startBlock := s.blockNum
             startOffset := s.offset
             endBlock := (s.cursor + prog.contents.length - 1) / blockSize
             endOffset := (s.cursor + prog.contents.length - 1) % blockSize }] } := by
  simp only [MkfsState.cursor] at hcur hfits ⊢
  -- the end of the line is the last byte, one in front of the cursor
  have hoff : ((getOffset s.blockNum s.offset + (prog.contents.length : ℤ)) % blockSize +
      blockSize - 1).tmod blockSize =
        (getOffset s.blockNum s.offset + prog.contents.length - 1) % blockSize := by
    rw [Int.tmod_eq_emod_of_nonneg (by simp only [blockSize]; omega)]
    simp only [blockSize, Nat.cast_ofNat]
    omega
  have hblk : (if (getOffset s.blockNum s.offset + (prog.contents.length : ℤ) - 1) % blockSize =
        blockSize - 1 then (getOffset s.blockNum s.offset + prog.contents.length) / blockSize - 1
      else (getOffset s.blockNum s.offset + prog.contents.length) / blockSize) =
        (getOffset s.blockNum s.offset + prog.contents.length - 1) / blockSize := by
    simp only [blockSize, Nat.cast_ofNat]
    split_ifs <;> omega
  rw [storeProgram, Stream.fseek, if_pos hcur]
  simp only [storeLoop_of_fits _ _ _ _ _ _ ho hfits, Bool.false_eq_true, if_false, hoff, hblk]

/-- A program that does not fit still overwrites the image from the cursor to the end of the
program area; cursor and information file are as before. -/
theorem storeProgram_of_not_fits (ho : 0 ≤ s.offset) (hcur : 0 ≤ s.cursor)
    (hroom : s.cursor ≤ procLimit) (hfits : procLimit < s.cursor + prog.contents.length) :
    storeProgram s prog =
      { s with
        disk := { s.disk with pos := s.cursor.toNat }.fwriteAll (prog.written s.cursor) } := by
  have hseek : s.disk.fseek (getOffset s.blockNum s.offset) =
      some { s.disk with pos := s.cursor.toNat } := if_pos hcur
  simp only [storeProgram, hseek, storeLoop_of_not_fits _ _ _ _ _ _ ho hroom hfits, if_true]
  rfl

/-- In both cases the image changes only by the bytes that get written at the cursor. -/
theorem disk_storeProgram (ho : 0 ≤ s.offset) (hcur : 0 ≤ s.cursor) (hroom : s.cursor ≤ procLimit) :
    (storeProgram s prog).disk =
      { s.disk with pos := s.cursor.toNat }.fwriteAll (prog.written s.cursor) := by
  rcases le_or_gt (s.cursor + prog.contents.length) procLimit with hfits | hfits
  · rw [storeProgram_of_fits s prog ho hcur hfits, Program.written,
      List.take_of_length_le (by omega)]
  · rw [storeProgram_of_not_fits s prog ho hcur hroom hfits]

end Call

/-! ## Runs -/

/-- A program together with the information line its call wrote. -/
structure StoredProgram where
  prog : Program
  line : InfoLine

/-- The state of a run, with the programs that got a line so far. -/
structure Session where
  state : MkfsState
  stored : List StoredProgram

/-- One `storeProgram` call of a run; the lines it appends to the information file belong to the
program it was called for. -/
def Session.store (σ : Session) (prog : Program) : Session :=
  let state := storeProgram σ.state prog
  { state
    stored := σ.stored ++ (state.info.drop σ.state.info.length).map fun line => ⟨prog, line⟩ }

/-- The state after `buildDisk`, before the first `storeProgram`. -/
def Session.init : Session :=
  { state := { blockNum := procStart, offset := 0, disk := buildDisk Stream.create, info := [] }
    stored := [] }

/-- A run of `main` on the programs of its command line, in order. -/
def runMkfs (progs : List Program) : Session := progs.foldl Session.store Session.init

/-- The first byte position of a recorded extent. -/
def InfoLine.start (line : InfoLine) : ℤ := getOffset line.startBlock line.startOffset

/-- The last byte position of a recorded extent. -/
def InfoLine.last (line : InfoLine) : ℤ := getOffset line.endBlock line.endOffset

/-- The image bytes from the recorded start through the recorded end are the bytes of the file,
in order. -/
def StoredProgram.IntactOn (q : StoredProgram) (disk : Stream) : Prop :=
  q.line.last + 1 = q.line.start + q.prog.contents.length ∧
    ∀ (t : ℕ) (ht : t < q.prog.contents.length),
      disk.bytes (q.line.start + t).toNat = q.prog.contents[t]

/-- Every program that got an information line is on the image as recorded. -/
def Session.Intact (σ : Session) : Prop :=
  ∀ q ∈ σ.stored, q.IntactOn σ.state.disk

/-- Storing `prog` from this state overwrites no byte of a recorded program with a different
one: where the bytes of `prog`, laid out from the cursor, meet the extent of a program stored
earlier, the two programs agree. -/
def Session.Harmless (σ : Session) (prog : Program) : Prop :=
  0 ≤ σ.state.cursor →
    ∀ (t : ℕ) (ht : t < prog.contents.length), σ.state.cursor + t < procLimit →
      ∀ q ∈ σ.stored, ∀ (u : ℕ) (hu : u < q.prog.contents.length),
        q.line.start + u = σ.state.cursor + t → q.prog.contents[u] = prog.contents[t]

/-- What holds of the cursor and of the recorded extents throughout a run. -/
structure Session.Wf (σ : Session) : Prop where
  offset_nonneg : 0 ≤ σ.state.offset
  cursor_lt : σ.state.cursor < procLimit
  start_nonneg : ∀ q ∈ σ.stored, 0 ≤ q.line.start
  length_eq : ∀ q ∈ σ.stored, q.line.last + 1 = q.line.start + q.prog.contents.length
  last_lt : ∀ q ∈ σ.stored, q.line.last < procLimit

theorem wf_init : Session.init.Wf where
  offset_nonneg := le_rfl
  cursor_lt := by
    simp [Session.init, MkfsState.cursor, procLimit, getOffset, blockSize, procStart, procEnd]
  start_nonneg := by simp [Session.init]
  length_eq := by simp [Session.init]
  last_lt := by simp [Session.init]

section Step

variable {σ : Session} (prog : Program)

/-- The line that a call for a fitting program appends. -/
def MkfsState.lineFor (s : MkfsState) (prog : Program) : InfoLine :=
  { progName := prog.name
    startBlock := s.blockNum
    startOffset := s.offset
    endBlock := (s.cursor + prog.contents.length - 1) / blockSize
    endOffset := (s.cursor + prog.contents.length - 1) % blockSize }

/-- The position of the last byte of a program. -/
theorem last_lineFor (s : MkfsState) :
    (s.lineFor prog).last = s.cursor + prog.contents.length - 1 := by
  simp only [MkfsState.lineFor, InfoLine.last, getOffset, blockSize, Nat.cast_ofNat]
  omega

/-- The programs recorded after a call: the earlier ones, and this one if it fits. -/
theorem stored_store (hwf : σ.Wf) :
    (σ.store prog).stored =
      if 0 ≤ σ.state.cursor ∧ σ.state.cursor + prog.contents.length ≤ procLimit then
        σ.stored ++ [⟨prog, σ.state.lineFor prog⟩]
      else σ.stored := by
  rcases lt_or_ge σ.state.cursor 0 with hcur | hcur
  · rw [if_neg (by omega), Session.store, storeProgram_of_neg _ _ hcur]
    simp
  · rcases le_or_gt (σ.state.cursor + prog.contents.length) procLimit with hfits | hfits
    · rw [if_pos ⟨hcur, hfits⟩, Session.store,
        storeProgram_of_fits _ _ hwf.offset_nonneg hcur hfits]
      simp [MkfsState.lineFor]
    · rw [if_neg (by omega), Session.store,
        storeProgram_of_not_fits _ _ hwf.offset_nonneg hcur hwf.cursor_lt.le hfits]
      simp

theorem Session.Wf.store (hwf : σ.Wf) : (σ.store prog).Wf := by
  have hstored := stored_store prog hwf
  rcases lt_or_ge σ.state.cursor 0 with hcur | hcur
  · rw [if_neg (by omega)] at hstored
    have hstate : (σ.store prog).state = σ.state := storeProgram_of_neg _ _ hcur
    constructor <;> simp only [hstored, hstate]
    exacts [hwf.offset_nonneg, hwf.cursor_lt, hwf.start_nonneg, hwf.length_eq, hwf.last_lt]
  · rcases le_or_gt (σ.state.cursor + prog.contents.length) procLimit with hfits | hfits
    · have hstate : (σ.store prog).state = storeProgram σ.state prog := rfl
      rw [storeProgram_of_fits _ _ hwf.offset_nonneg hcur hfits] at hstate
      have hlast := last_lineFor prog σ.state
      -- the new line is the only one to check
      have hnew : ∀ q ∈ (σ.store prog).stored, q ∈ σ.stored ∨ q = ⟨prog, σ.state.lineFor prog⟩ := by
        rw [hstored, if_pos ⟨hcur, hfits⟩]
        simp
      refine ⟨?_, ?_, ?_, ?_, ?_⟩
      · rw [hstate]
        simp only [blockSize]
        omega
      · rw [hstate]
        change (σ.state.lineFor prog).last < procLimit
        omega
      · intro q hq
        rcases hnew q hq with hq | rfl
        · exact hwf.start_nonneg q hq
        · exact hcur
      · intro q hq
        rcases hnew q hq with hq | rfl
        · exact hwf.length_eq q hq
        · change (σ.state.lineFor prog).last + 1 = σ.state.cursor + prog.contents.length
          omega
      · intro q hq
        rcases hnew q hq with hq | rfl
        · exact hwf.last_lt q hq
        · change (σ.state.lineFor prog).last < procLimit
          omega
    · rw [if_neg (by omega)] at hstored
      have hstate : (σ.store prog).state = storeProgram σ.state prog := rfl
      rw [storeProgram_of_not_fits _ _ hwf.offset_nonneg hcur hwf.cursor_lt.le hfits] at hstate
      constructor <;> simp only [hstored, hstate, MkfsState.cursor]
      exacts [hwf.offset_nonneg, hwf.cursor_lt, hwf.start_nonneg, hwf.length_eq, hwf.last_lt]

/-- The byte of the image at the `t`-th position from the cursor after a call. -/
theorem bytes_store_written (hwf : σ.Wf) (hcur : 0 ≤ σ.state.cursor) (t : ℕ)
    (ht : t < prog.contents.length) (hlimit : σ.state.cursor + t < procLimit) :
    (σ.store prog).state.disk.bytes (σ.state.cursor + t).toNat = prog.contents[t] := by
  have hpos : (σ.state.cursor + t).toNat = σ.state.cursor.toNat + t := by omega
  have hlen : t < (prog.written σ.state.cursor).length := by
    rw [Program.written, List.length_take]
    omega
  change (storeProgram σ.state prog).disk.bytes _ = _
  rw [disk_storeProgram _ _ hwf.offset_nonneg hcur hwf.cursor_lt.le, hpos]
  refine (Stream.bytes_fwriteAll_add _ _ _ hlen).trans ?_
  simp [Program.written]

/-- A call changes no byte outside the positions it writes. -/
theorem bytes_store_unwritten (hwf : σ.Wf) (x : ℤ) (hx : 0 ≤ x) (hlimit : x < procLimit)
    (hout : 0 ≤ σ.state.cursor → x < σ.state.cursor ∨ σ.state.cursor + prog.contents.length ≤ x) :
    (σ.store prog).state.disk.bytes x.toNat = σ.state.disk.bytes x.toNat := by
  change (storeProgram σ.state prog).disk.bytes _ = _
  rcases lt_or_ge σ.state.cursor 0 with hcur | hcur
  · rw [storeProgram_of_neg _ _ hcur]
  · rw [disk_storeProgram _ _ hwf.offset_nonneg hcur hwf.cursor_lt.le,
      Stream.bytes_fwriteAll_of_outside]
    have := hout hcur
    simp only [Program.written, List.length_take]
    omega

/-- A harmless call keeps the bytes of a recorded program. -/
theorem bytes_store_of_harmless (hwf : σ.Wf) (hharm : σ.Harmless prog) {q : StoredProgram}
    (hq : q ∈ σ.stored) (hintact : q.IntactOn σ.state.disk) (u : ℕ)
    (hu : u < q.prog.contents.length) :
    (σ.store prog).state.disk.bytes (q.line.start + u).toNat = q.prog.contents[u] := by
  have hstart := hwf.start_nonneg q hq
  have hlimit : q.line.start + u < procLimit := by
    have := hwf.last_lt q hq
    have := hwf.length_eq q hq
    omega
  by_cases hmeet : 0 ≤ σ.state.cursor ∧ σ.state.cursor ≤ q.line.start + u ∧
      q.line.start + u < σ.state.cursor + prog.contents.length
  · -- the call writes this position: the two programs agree there
    obtain ⟨hcur, hlo, hhi⟩ := hmeet
    obtain ⟨t, ht⟩ := Int.eq_ofNat_of_zero_le (sub_nonneg.mpr hlo)
    have hx : q.line.start + u = σ.state.cursor + t := by omega
    have htlen : t < prog.contents.length := by omega
    rw [hx, bytes_store_written prog hwf hcur t htlen (by omega)]
    exact (hharm hcur t htlen (by omega) q hq u hu hx).symm
  · rw [bytes_store_unwritten prog hwf _ (by omega) hlimit (by omega)]
    exact hintact.2 u hu

/-- A call keeps all recorded programs, and records its own correctly, exactly when it is
harmless. -/
theorem intact_store_iff (hwf : σ.Wf) (hintact : σ.Intact) :
    (σ.store prog).Intact ↔ σ.Harmless prog := by
  constructor
  · intro h hcur t ht hlimit q hq u hu hmeet
    -- the byte at the common position is the new one, and still that of `q`
    have hq' : q ∈ (σ.store prog).stored := by
      rw [stored_store prog hwf]
      split_ifs <;> simp [hq]
    have hnew := bytes_store_written prog hwf hcur t ht hlimit
    have hold := (h q hq').2 u hu
    rw [hmeet, hnew] at hold
    exact hold.symm
  · intro h q hq
    refine ⟨(hwf.store prog).length_eq q hq, fun u hu => ?_⟩
    rw [stored_store prog hwf] at hq
    split_ifs at hq with hfits
    · rw [List.mem_append, List.mem_singleton] at hq
      rcases hq with hq | rfl
      · exact bytes_store_of_harmless prog hwf h hq (hintact q hq) u hu
      · exact bytes_store_written prog hwf hfits.1 u hu (by simp only at hu; omega)
    · exact bytes_store_of_harmless prog hwf h hq (hintact q hq) u hu

end Step

@[simp]
theorem runMkfs_append_singleton (progs : List Program) (prog : Program) :
    runMkfs (progs ++ [prog]) = (runMkfs progs).store prog := by
  simp [runMkfs]

theorem wf_runMkfs (progs : List Program) : (runMkfs progs).Wf := by
  induction progs using List.reverseRecOn with
  | nil => exact wf_init
  | append_singleton progs prog ih =>
    rw [runMkfs_append_singleton]
    exact ih.store prog

/-- Throughout a run every recorded program stays on the image as recorded, if and only if every
call of the run is harmless. -/
theorem intact_iff_harmless (progs : List Program) :
    (∀ pre, pre <+: progs → (runMkfs pre).Intact) ↔
      ∀ pre prog, pre ++ [prog] <+: progs → (runMkfs pre).Harmless prog := by
  constructor
  · intro h pre prog hpre
    have hintact := h pre ((List.prefix_append pre [prog]).trans hpre)
    rw [← intact_store_iff prog (wf_runMkfs pre) hintact, ← runMkfs_append_singleton]
    exact h _ hpre
  · intro h pre hpre
    induction pre using List.reverseRecOn with
    | nil => simp [runMkfs, Session.init, Session.Intact]
    | append_singleton pre prog ih =>
      rw [runMkfs_append_singleton,
        intact_store_iff prog (wf_runMkfs pre) (ih ((List.prefix_append pre [prog]).trans hpre))]
      exact h pre prog hpre

end R5O5.Mkfs
