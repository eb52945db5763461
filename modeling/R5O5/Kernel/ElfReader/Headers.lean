import Mathlib.Data.List.TakeWhile
import R5O5.Kernel.ElfReader.Acceptance

/-!
# The program headers in exact arithmetic

The reader keeps the position of the next program header as a 64-bit block number and an `int`
offset, and the index of the next node as a count. Here both are numbers: header `i` is at `56 * i`
bytes from the first one, and the count depends on the headers before.

## Main definitions

- `headersAt`: consecutive program headers on the disk;
- `nodeIndex`, `Passes`: the count of the reader, and when it goes on behind a header;
- `ElfReaderState.At`: the reader has come to a header.

## Main results

- `readProgramHeaders_cases`: how the loop over the headers ends.
-/

namespace R5O5

/-- The program header at a position of the disk. -/
def headerAt (disk : ℕ → BitVec 8) (pos : ℕ) : Proghdr :=
  Proghdr.ofBytes (diskBytes disk pos sizeofProghdr.toNat)

/-- `n` program headers one after the other. -/
def headersAt (disk : ℕ → BitVec 8) (pos n : ℕ) : List Proghdr :=
  (List.range n).map fun i => headerAt disk (pos + sizeofProghdr.toNat * i)

/-- The index of the next node after these headers: it counts all of them as long as there is no
segment, and otherwise those from the first segment on and the segments once more. -/
def nodeIndex (earlier : List Proghdr) : ℕ :=
  let rest := earlier.dropWhile fun ph => ph.type ≠ elfProgLoad
  if rest = [] then earlier.length
  else rest.length + rest.countP fun ph => ph.type = elfProgLoad

/-- The reader goes on behind a header: it is no segment, or an admitted one with a node left. -/
def Passes (earlier : List Proghdr) (ph : Proghdr) : Prop :=
  ph.type = elfProgLoad → ph.toElfread.Admitted ∧ nodeIndex earlier < elfSize

/-- The segments among the headers. -/
def segmentsOf (headers : List Proghdr) : List Elfread :=
  (headers.filter fun ph => ph.type = elfProgLoad).map Proghdr.toElfread

section Count

variable {disk : ℕ → BitVec 8} {pos n i : ℕ} {earlier : List Proghdr} {ph : Proghdr}

/-- One more header lies behind the others. -/
theorem headersAt_succ : headersAt disk pos (n + 1) =
    headersAt disk pos n ++ [headerAt disk (pos + sizeofProghdr.toNat * n)] := by
  rw [headersAt, List.range_succ, List.map_append]
  rfl

theorem mem_headersAt : ph ∈ headersAt disk pos n ↔
    ∃ i < n, headerAt disk (pos + sizeofProghdr.toNat * i) = ph := by
  simp [headersAt]

/-- There is no segment when no header is of type `LOAD`. -/
theorem segmentsOf_eq_nil_iff :
    segmentsOf earlier = [] ↔ ∀ ph ∈ earlier, ph.type ≠ elfProgLoad := by
  simp [segmentsOf]

/-- Nothing follows the headers of other types when there is no segment. -/
theorem dropWhile_eq_nil_iff_no_segments :
    earlier.dropWhile (fun ph => ph.type ≠ elfProgLoad) = [] ↔ segmentsOf earlier = [] := by
  rw [List.dropWhile_eq_nil_iff, segmentsOf_eq_nil_iff]
  simp

/-- Without segments the headers are counted. -/
theorem nodeIndex_of_no_segments (h : segmentsOf earlier = []) :
    nodeIndex earlier = earlier.length := by
  rw [nodeIndex, dropWhile_eq_nil_iff_no_segments.mpr h, if_pos rfl]

/-- What one more header adds to the count. -/
theorem nodeIndex_append_singleton : nodeIndex (earlier ++ [ph]) =
    if ph.type = elfProgLoad then
      (if segmentsOf earlier = [] then 0 else nodeIndex earlier) + 1 + 1
    else nodeIndex earlier + 1 := by
  by_cases hnone : segmentsOf earlier = []
  · have hdrop := dropWhile_eq_nil_iff_no_segments.mpr hnone
    rw [if_pos hnone, nodeIndex_of_no_segments hnone, nodeIndex, List.dropWhile_append, hdrop]
    by_cases htype : ph.type = elfProgLoad
    · simp [htype]
    · simp [htype]
  · -- the headers are counted from a segment among the earlier ones on
    have hdrop := mt dropWhile_eq_nil_iff_no_segments.mp hnone
    have hempty : (earlier.dropWhile fun ph => ph.type ≠ elfProgLoad).isEmpty = false := by
      simpa [List.isEmpty_iff] using hdrop
    rw [if_neg hnone, nodeIndex, nodeIndex, List.dropWhile_append, hempty]
    simp only [Bool.false_eq_true, if_false, List.append_eq_nil_iff, hdrop, false_and,
      List.length_append, List.length_singleton, List.countP_append, List.countP_singleton]
    by_cases htype : ph.type = elfProgLoad
    · simp only [htype, decide_true, if_true]
      omega
    · simp only [htype, decide_false, Bool.false_eq_true, if_false]
      omega

theorem segmentsOf_append_singleton : segmentsOf (earlier ++ [ph]) =
    if ph.type = elfProgLoad then segmentsOf earlier ++ [ph.toElfread] else segmentsOf earlier := by
  rw [segmentsOf, List.filter_append, List.map_append]
  by_cases htype : ph.type = elfProgLoad
  · simp [htype, segmentsOf]
  · simp [htype, segmentsOf]

end Count

/-! ## The place of the next header -/

section Place

variable {s : ElfReaderState} {pos : ℕ}

/-- The block number and the offset of the next header are those of a position. -/
structure ElfReaderState.Placed (s : ElfReaderState) (pos : ℕ) : Prop where
  blockNum : s.blockNum.toNat = pos / bsize
  off : s.off.toNat = pos % bsize

/-- A signed offset is added to an unsigned number. -/
theorem toNat_add_signExtend (x : BitVec 64) (off : BitVec 32) :
    ((x + off.signExtend 64).toNat : ℤ) = (x.toNat + off.toInt) % 2 ^ 64 := by
  have hext : (off.signExtend 64).toInt = off.toInt := BitVec.toInt_signExtend_of_le (by decide)
  rw [← hext, BitVec.toInt_eq_toNat_cond, BitVec.toNat_add]
  split <;> omega

/-- The block and the offset as numbers: the division of the source rounds towards zero. -/
theorem ElfReaderState.toInt_toBlock (s : ElfReaderState) :
    (s.toBlock.blockNum.toNat : ℤ) = (s.blockNum.toNat + s.off.toInt.tdiv bsize) % 2 ^ 64 ∧
      s.toBlock.off.toInt = s.off.toInt.tmod bsize := by
  have hsize : (BitVec.ofNat 32 bsize).toInt = bsize := by decide
  constructor
  · rw [ElfReaderState.toBlock]
    dsimp only
    rw [toNat_add_signExtend, BitVec.toInt_sdiv_of_ne_or_ne _ _ (Or.inr (by decide)), hsize]
  · rw [ElfReaderState.toBlock, BitVec.toInt_srem, hsize]

/-- The position that the reader compares with the end of the program. -/
theorem ElfReaderState.toNat_toBlock (s : ElfReaderState) :
    ((s.toBlock.blockNum * BitVec.ofNat 64 bsize + s.toBlock.off.signExtend 64).toNat : ℤ) =
      (s.blockNum.toNat * bsize + s.off.toInt) % 2 ^ 64 := by
  obtain ⟨hblock, hoff⟩ := s.toInt_toBlock
  have hsplit := Int.mul_tdiv_add_tmod s.off.toInt bsize
  rw [toNat_add_signExtend, hoff, BitVec.toNat_mul, toNat_bsize]
  simp only [bsize] at *
  push_cast at *
  omega

/-- An offset that is not negative is divided exactly. -/
theorem ElfReaderState.placed_toBlock (hoff : s.off.toNat < 2 ^ 31)
    (hpos : s.blockNum.toNat * bsize + s.off.toNat = pos) (hlt : pos < 2 ^ 63) :
    s.toBlock.Placed pos := by
  obtain ⟨hblock, hoff'⟩ := s.toInt_toBlock
  have hnat : s.off.toInt = s.off.toNat := by
    rw [BitVec.toInt_eq_toNat_of_lt (by omega)]
  rw [hnat, Int.tdiv_eq_ediv_of_nonneg (by omega)] at hblock
  rw [hnat, Int.tmod_eq_emod_of_nonneg (by omega), BitVec.toInt_eq_toNat_cond] at hoff'
  simp only [bsize] at *
  constructor
  · simp only [bsize]
    omega
  · simp only [bsize]
    split at hoff' <;> omega

/-- An offset that is a negative number of blocks is divided exactly, too. -/
theorem ElfReaderState.placed_toBlock_of_dvd (hdvd : (bsize : ℤ) ∣ s.off.toInt)
    (hpos : s.blockNum.toNat * bsize + s.off.toInt = pos) (hlt : pos < 2 ^ 63) :
    s.toBlock.Placed pos := by
  obtain ⟨hblock, hoff'⟩ := s.toInt_toBlock
  obtain ⟨m, hm⟩ := hdvd
  rw [hm, Int.mul_tdiv_cancel_left _ (by decide)] at hblock
  rw [hm, Int.mul_tmod_right, BitVec.toInt_eq_toNat_cond] at hoff'
  simp only [bsize] at *
  constructor
  · simp only [bsize]
    omega
  · simp only [bsize]
    split at hoff' <;> omega

/-- Behind a header comes the next one. -/
theorem ElfReaderState.Placed.next (h : s.Placed pos) (hlt : pos < 2 ^ 62) :
    s.nextHeader.toBlock.Placed (pos + sizeofProghdr.toNat) := by
  have hoff := h.off
  have hblock := h.blockNum
  have hnat : s.nextHeader.off.toNat = s.off.toNat + sizeofProghdr.toNat := by
    -- an offset in a block is not negative, so the sign does not matter
    have hlow : s.off.signExtend 64 = s.off.setWidth 64 := by
      apply BitVec.signExtend_eq_setWidth_of_msb_false
      rw [BitVec.msb_eq_false_iff_two_mul_lt]
      simp only [bsize] at hoff
      omega
    rw [ElfReaderState.nextHeader]
    dsimp only
    rw [hlow, BitVec.toNat_setWidth, BitVec.toNat_add, BitVec.toNat_setWidth]
    simp only [bsize, sizeofProghdr, show (56 : BitVec 64).toNat = 56 from rfl] at *
    omega
  have hsize : sizeofProghdr.toNat = 56 := by decide
  apply ElfReaderState.placed_toBlock
  · rw [hnat, hoff, hsize]
    simp only [bsize]
    omega
  · rw [hnat, hoff, show s.nextHeader.blockNum = s.blockNum from rfl, hblock, hsize]
    simp only [bsize]
    omega
  · omega

/-- The position that the reader compares, when the header is placed. -/
theorem ElfReaderState.Placed.toNat_eq (h : s.Placed pos) (hlt : pos < 2 ^ 63) :
    (s.blockNum * BitVec.ofNat 64 bsize + s.off.signExtend 64).toNat = pos := by
  have hoff := h.off
  have hblock := h.blockNum
  have hsum := toNat_add_signExtend (s.blockNum * BitVec.ofNat 64 bsize) s.off
  rw [BitVec.toNat_mul, toNat_bsize,
    BitVec.toInt_eq_toNat_of_lt (by simp only [bsize] at hoff; omega)] at hsum
  simp only [bsize] at *
  omega

/-- The offset that is passed to `readBytes`. -/
theorem ElfReaderState.Placed.toNat_off (h : s.Placed pos) :
    (s.off.signExtend 64).toNat = pos % bsize := by
  have hoff := h.off
  rw [BitVec.signExtend_eq_setWidth_of_msb_false, BitVec.toNat_setWidth]
  · simp only [bsize] at *
    omega
  · rw [BitVec.msb_eq_false_iff_two_mul_lt]
    simp only [bsize] at hoff
    omega

theorem ElfReaderState.Placed.toNat_off_lt (h : s.Placed pos) :
    (s.off.signExtend 64).toNat < bsize := by
  rw [h.toNat_off]
  exact Nat.mod_lt _ (by decide)

theorem ElfReaderState.Placed.position (h : s.Placed pos) :
    s.blockNum.toNat * bsize + (s.off.signExtend 64).toNat = pos := by
  rw [h.toNat_off, h.blockNum]
  exact Nat.div_add_mod' pos bsize

end Place

/-! ## One header -/

/-- The reader has the list and the count that these headers give. -/
structure ElfReaderState.Counts (s : ElfReaderState) (earlier : List Proghdr) : Prop where
  cnt : s.cnt = nodeIndex earlier
  segments : ∃ nodes, s.Lists nodes ∧
    nodes.map (fun n => (s.elfNodes n).unlink) = segmentsOf earlier

/-- Moving on to the next block counts nothing. -/
theorem ElfReaderState.Counts.toBlock {s : ElfReaderState} {earlier : List Proghdr}
    (h : s.Counts earlier) : s.toBlock.Counts earlier where
  cnt := h.cnt
  segments := by
    obtain ⟨nodes, hlists, hsegments⟩ := h.segments
    exact ⟨nodes, hlists.toBlock, hsegments⟩

/-- What the reader does with a header that it has read. -/
theorem ElfReaderState.Counts.readProgramHeader {s : ElfReaderState} {earlier : List Proghdr}
    {wild : Wild} {endBlock endOff : BitVec 64} {io : CachedDisk} {bytes : List (BitVec 8)}
    (h : s.Counts earlier)
    (hnot : ¬s.blockNum * BitVec.ofNat 64 bsize + s.off.signExtend 64 >
      endBlock * BitVec.ofNat 64 bsize + endOff)
    (hread : readBytes wild s.blockNum (s.off.signExtend 64) sizeofProghdr s.io =
      .ok (io, bytes)) :
    (¬Passes earlier (Proghdr.ofBytes bytes) ∧
      R5O5.readProgramHeader wild endBlock endOff s = .ok (false, { s with io })) ∨
    (Passes earlier (Proghdr.ofBytes bytes) ∧
      ∃ s', R5O5.readProgramHeader wild endBlock endOff s = .ok (true, s') ∧ s'.io = io ∧
        s'.blockNum = s.blockNum ∧ s'.off = s.off ∧ s'.elfRead.entry = s.elfRead.entry ∧
        s'.nextHeader.Counts (earlier ++ [Proghdr.ofBytes bytes])) := by
  obtain ⟨hcnt, nodes, hlists, hsegments⟩ := h
  have hkeep : ElfReaderState.Lists { s with io } nodes := hlists.with_io io
  rw [readProgramHeader_of_read hnot hread]
  generalize Proghdr.ofBytes bytes = ph
  by_cases htype : ph.type = elfProgLoad
  case neg =>
    right
    rw [if_pos htype]
    refine ⟨fun htype' => absurd htype' htype, _, rfl, rfl, rfl, rfl, rfl, ?_, nodes,
      hkeep.nextHeader, ?_⟩
    · rw [nodeIndex_append_singleton, if_neg htype, ← hcnt]
      rfl
    · rw [segmentsOf_append_singleton, if_neg htype, ← hsegments]
      rfl
  rw [if_neg (not_not.mpr htype)]
  by_cases hrejected : ph.Rejected
  · left
    rw [if_pos hrejected]
    exact ⟨fun hpasses => absurd hrejected (Proghdr.not_rejected_iff.mpr (hpasses htype).1), rfl⟩
  rw [if_neg hrejected]
  by_cases hnode : s.cnt < elfSize
  case neg =>
    -- no node is left
    left
    rw [dif_neg hnode]
    exact ⟨fun hpasses => absurd (hcnt ▸ (hpasses htype).2) hnode, rfl⟩
  right
  rw [dif_pos hnode]
  obtain ⟨n, hlists', hnodes, hcount⟩ := hlists.unlink_allocateELFReader hnode ph
  obtain ⟨hblockNum, hoff, hentry⟩ := allocateELFReader_place ⟨s.cnt, hnode⟩ ph s
  refine ⟨fun _ => ⟨Proghdr.not_rejected_iff.mp hrejected, hcnt ▸ hnode⟩, _, rfl, rfl, hblockNum,
    hoff, hentry, ?_, nodes ++ [n],
    (hlists'.with_io io).nextHeader, ?_⟩
  · rw [nodeIndex_append_singleton, if_pos htype, ← hsegments, ← hcnt]
    simp only [ElfReaderState.nextHeader, hcount, List.map_eq_nil_iff]
  · rw [segmentsOf_append_singleton, if_pos htype, ← hsegments]
    exact hnodes

/-! ## The loop over the headers -/

/-- Header `i` passes, after those before it. -/
def PassesAt (disk : ℕ → BitVec 8) (first i : ℕ) : Prop :=
  Passes (headersAt disk first i) (headerAt disk (first + sizeofProghdr.toNat * i))

/-- The reader has come to header `i` of those that start at `first`; the headers before were the
ones on `disk`, and those to come still are. -/
structure ElfReaderState.At (s : ElfReaderState) (disk : ℕ → BitVec 8) (first i : ℕ) : Prop where
  settled : Settled s.io
  medium : ∀ p, first + sizeofProghdr.toNat * i ≤ p → s.io.disk p = disk p
  placed : s.Placed (first + sizeofProghdr.toNat * i)
  counts : s.Counts (headersAt disk first i)

/-- Header `i` begins no later than the program ends, lies on the disk and passes. -/
structure ReadsOn (disk : ℕ → BitVec 8) (first endPos i : ℕ) : Prop where
  begins : first + sizeofProghdr.toNat * i ≤ endPos
  onDisk : first + sizeofProghdr.toNat * i + sizeofProghdr.toNat ≤ diskSize * bsize
  passes : PassesAt disk first i

/-- The reader gives up at header `i`. -/
def GivesUp (disk : ℕ → BitVec 8) (first endPos i : ℕ) : Prop :=
  endPos < first + sizeofProghdr.toNat * i ∨
    (first + sizeofProghdr.toNat * i + sizeofProghdr.toNat ≤ diskSize * bsize ∧
      ¬PassesAt disk first i)

/-- Header `i` is cut off by the end of the disk. -/
def CutOff (first endPos i : ℕ) : Prop :=
  first + sizeofProghdr.toNat * i ≤ endPos ∧
    diskSize * bsize < first + sizeofProghdr.toNat * i + sizeofProghdr.toNat

/-- A reader that gives up at a header does not read on. -/
theorem GivesUp.not_readsOn {disk : ℕ → BitVec 8} {first endPos i : ℕ}
    (h : GivesUp disk first endPos i) : ¬ReadsOn disk first endPos i := by
  intro hreads
  rcases h with hbehind | ⟨-, hfails⟩
  · exact absurd hreads.begins (Nat.not_le_of_lt hbehind)
  · exact hfails hreads.passes

theorem CutOff.not_readsOn {disk : ℕ → BitVec 8} {first endPos i : ℕ} (h : CutOff first endPos i) :
    ¬ReadsOn disk first endPos i :=
  fun hreads => absurd hreads.onDisk (Nat.not_le_of_lt h.2)

section Loop

variable {s : ElfReaderState} {disk : ℕ → BitVec 8} {first i endPos left : ℕ}
  {endBlock endOff : BitVec 64}

/-- The comparison of the reader is the comparison of the positions. -/
theorem ElfReaderState.At.gt_iff (h : s.At disk first i)
    (hend : endBlock.toNat * bsize + endOff.toNat = endPos) (hlt : endPos < diskSize * bsize)
    (hfirst : first + sizeofProghdr.toNat * i < 2 ^ 63) :
    s.blockNum * BitVec.ofNat 64 bsize + s.off.signExtend 64 >
        endBlock * BitVec.ofNat 64 bsize + endOff ↔
      endPos < first + sizeofProghdr.toNat * i := by
  have hendNat : (endBlock * BitVec.ofNat 64 bsize + endOff).toNat = endPos :=
    (toNat_mul_bsize_add (hend ▸ hlt)).trans hend
  rw [gt_iff_lt, BitVec.lt_def, hendNat, h.placed.toNat_eq hfirst]

/-- A header that is cut off by the end of the disk is an error. -/
theorem ElfReaderState.At.readProgramHeader_of_cut (h : s.At disk first i)
    (hnot : ¬s.blockNum * BitVec.ofNat 64 bsize + s.off.signExtend 64 >
      endBlock * BitVec.ofNat 64 bsize + endOff)
    (hcut : diskSize * bsize < first + sizeofProghdr.toNat * i + sizeofProghdr.toNat)
    (wild : Wild) :
    readProgramHeader wild endBlock endOff s =
      .error (.error "readBytes: block exceeds disk size") := by
  rw [readProgramHeader, if_neg hnot]
  rcases Nat.lt_or_ge s.blockNum.toNat diskSize with hblock | hge
  · rcases readBytes_cases h.settled hblock (Nat.le_of_lt h.placed.toNat_off_lt) wild
      sizeofProghdr with ⟨_, -, hin, -⟩ | ⟨herr, -⟩
    · rw [h.placed.position] at hin
      exact absurd hin (Nat.not_le_of_lt hcut)
    · rw [herr]
      rfl
  · -- it does not even begin on the disk
    rw [readBytes, copyBytes, openBlock_of_ge hge]
    rfl

/-- The reader goes on behind a header on the disk if it passes, and otherwise gives up. -/
theorem ElfReaderState.At.readProgramHeader_of_onDisk (h : s.At disk first i)
    (hnot : ¬s.blockNum * BitVec.ofNat 64 bsize + s.off.signExtend 64 >
      endBlock * BitVec.ofNat 64 bsize + endOff)
    (hinside : first + sizeofProghdr.toNat * i + sizeofProghdr.toNat ≤ diskSize * bsize)
    (wild : Wild) :
    (∃ s', ¬PassesAt disk first i ∧
      readProgramHeader wild endBlock endOff s = .ok (false, s') ∧
      Settled s'.io ∧ s'.io.disk = s.io.disk) ∨
    (∃ s', PassesAt disk first i ∧
      readProgramHeader wild endBlock endOff s = .ok (true, s') ∧
      s'.nextHeader.toBlock.At disk first (i + 1) ∧ s'.elfRead.entry = s.elfRead.entry) := by
  have hplaced := h.placed
  rw [PassesAt]
  generalize hpos : first + sizeofProghdr.toNat * i = pos at *
  have hsize : sizeofProghdr.toNat = 56 := by decide
  have hblock : s.blockNum.toNat < diskSize := by
    rw [hplaced.blockNum]
    simp only [bsize, diskSize] at *
    omega
  rcases readBytes_cases h.settled hblock (Nat.le_of_lt hplaced.toNat_off_lt) wild
    sizeofProghdr with ⟨io, hread, -, hio, hdisk⟩ | ⟨-, hbehind⟩
  case inr =>
    rw [hplaced.position] at hbehind
    exact absurd hinside (Nat.not_le_of_lt hbehind)
  rw [hplaced.position] at hread
  -- the bytes read are those of `disk`: the header lies behind `first`
  have hheader : Proghdr.ofBytes (diskBytes s.io.disk pos sizeofProghdr.toNat) =
      headerAt disk pos := by
    rw [headerAt, diskBytes_congr fun p hp _ => h.medium p (hpos ▸ hp)]
  have hround := h.counts.readProgramHeader hnot hread
  rw [← diskBytes, hheader] at hround
  rcases hround with
    ⟨hfails, hround⟩ | ⟨hpasses, s', hround, rfl, hblock', hoff', hentry, hcounts⟩
  · exact Or.inl ⟨_, hfails, hround, hio, hdisk⟩
  · refine Or.inr ⟨s', hpasses, hround, ?_, hentry⟩
    have hplaced' : s'.Placed pos := by
      constructor
      · rw [hblock']
        exact hplaced.blockNum
      · rw [hoff']
        exact hplaced.off
    -- the next header follows directly
    constructor
    case settled => exact hio
    case medium =>
      intro p hp
      rw [Nat.mul_succ] at hp
      change s'.io.disk p = disk p
      rw [hdisk]
      exact h.medium p (by omega)
    case placed =>
      rw [Nat.mul_succ, ← Nat.add_assoc, hpos]
      exact hplaced'.next (by simp only [bsize, diskSize] at *; omega)
    case counts =>
      rw [headersAt_succ, hpos]
      exact hcounts.toBlock

/-- One round: the header lies behind the end of the program, it is cut off by the end of the disk,
the reader gives up there, or it goes on to the next one. -/
theorem ElfReaderState.At.readProgramHeader_cases (h : s.At disk first i)
    (hend : endBlock.toNat * bsize + endOff.toNat = endPos) (hlt : endPos < diskSize * bsize)
    (hfirst : first + sizeofProghdr.toNat * i < 2 ^ 63) (wild : Wild) :
    (∃ s', GivesUp disk first endPos i ∧
      readProgramHeader wild endBlock endOff s = .ok (false, s') ∧
      Settled s'.io ∧ s'.io.disk = s.io.disk) ∨
    (∃ s', ReadsOn disk first endPos i ∧
      readProgramHeader wild endBlock endOff s = .ok (true, s') ∧
      s'.nextHeader.toBlock.At disk first (i + 1) ∧ s'.elfRead.entry = s.elfRead.entry) ∨
    (CutOff first endPos i ∧ readProgramHeader wild endBlock endOff s =
      .error (.error "readBytes: block exceeds disk size")) := by
  have hgt := h.gt_iff hend hlt hfirst
  rcases Nat.lt_or_ge endPos (first + sizeofProghdr.toNat * i) with hbehind | hle
  -- behind the end the reader stops without reading
  · refine Or.inl ⟨s, Or.inl hbehind, ?_, h.settled, rfl⟩
    rw [readProgramHeader, if_pos (hgt.mpr hbehind)]
    rfl
  have hnot := mt hgt.mp (Nat.not_lt.mpr hle)
  rcases Nat.lt_or_ge (diskSize * bsize)
    (first + sizeofProghdr.toNat * i + sizeofProghdr.toNat) with hcut | hinside
  · exact Or.inr (Or.inr ⟨⟨hle, hcut⟩, h.readProgramHeader_of_cut hnot hcut wild⟩)
  rcases h.readProgramHeader_of_onDisk hnot hinside wild with
    ⟨s', hfails, hround, hio, hdisk⟩ | ⟨s', hpasses, hround, hat, hentry⟩
  · exact Or.inl ⟨s', Or.inr ⟨hinside, hfails⟩, hround, hio, hdisk⟩
  · exact Or.inr (Or.inl ⟨s', ⟨hle, hinside, hpasses⟩, hround, hat, hentry⟩)

/-- The loop over the headers: it gives up at one of them, it reads on to the end, or it comes to a
header that is cut off. -/
theorem readProgramHeaders_cases (h : s.toBlock.At disk first i)
    (hend : endBlock.toNat * bsize + endOff.toNat = endPos) (hlt : endPos < diskSize * bsize)
    (hfirst : first + sizeofProghdr.toNat * (i + left) < 2 ^ 62) (wild : Wild) :
    (∃ s' k, GivesUp disk first endPos k ∧ i ≤ k ∧ k < i + left ∧
      (∀ j, i ≤ j → j < k → ReadsOn disk first endPos j) ∧
      readProgramHeaders wild endBlock endOff left s = .ok (false, s')) ∨
    (∃ s', (∀ j, i ≤ j → j < i + left → ReadsOn disk first endPos j) ∧
      readProgramHeaders wild endBlock endOff left s = .ok (true, s') ∧
      s'.toBlock.At disk first (i + left) ∧ s'.elfRead.entry = s.elfRead.entry) ∨
    (∃ k, CutOff first endPos k ∧ i ≤ k ∧ k < i + left ∧
      (∀ j, i ≤ j → j < k → ReadsOn disk first endPos j) ∧
      readProgramHeaders wild endBlock endOff left s =
        .error (.error "readBytes: block exceeds disk size")) := by
  -- the headers from `i` on, of which `left` are left
  induction left generalizing s i with
  | zero =>
    refine Or.inr (Or.inl ⟨s, fun j hij hji => ?_, rfl, h, rfl⟩)
    omega
  | succ left ih =>
    rw [readProgramHeaders]
    have hsize : sizeofProghdr.toNat = 56 := by decide
    rw [hsize] at hfirst
    rcases h.readProgramHeader_cases hend hlt (by rw [hsize]; omega) wild with
      ⟨s₁, hgives, hround, -⟩ | ⟨s₁, hreads, hround, hat, hentry₁⟩ | ⟨hcut, hround⟩
    · left
      rw [hround]
      exact ⟨s₁, i, hgives, Nat.le_refl i, by omega, fun j _ _ => by omega, rfl⟩
    · -- header `i` is read, and the others follow
      have hfrom : ∀ {k}, (∀ j, i + 1 ≤ j → j < k → ReadsOn disk first endPos j) →
          ∀ j, i ≤ j → j < k → ReadsOn disk first endPos j := by
        intro k hall j hij hjk
        rcases Nat.eq_or_lt_of_le hij with rfl | hlt
        · exact hreads
        · exact hall j hlt hjk
      rw [hround, Except.ok_bind]
      dsimp only
      rw [if_pos rfl]
      rcases ih hat (by rw [hsize]; omega) with ⟨s', k, hgives, hk, hk', hall, hloop⟩ |
        ⟨s', hall, hloop, hat', hentry⟩ | ⟨k, hcut, hk, hk', hall, hloop⟩
      · left
        exact ⟨s', k, hgives, by omega, by omega, hfrom hall, hloop⟩
      · right; left
        have hcount : i + 1 + left = i + (left + 1) := by omega
        rw [hcount] at hall hat'
        exact ⟨s', hfrom hall, hloop, hat', hentry.trans hentry₁⟩
      · right; right
        exact ⟨k, hcut, by omega, by omega, hfrom hall, hloop⟩
    · right; right
      rw [hround]
      exact ⟨i, hcut, Nat.le_refl i, by omega, fun j _ _ => by omega, rfl⟩

end Loop

end R5O5
