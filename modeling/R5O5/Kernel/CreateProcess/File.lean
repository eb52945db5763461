import R5O5.Kernel.CreateProcess.Extent
import R5O5.Kernel.ElfReader.DoublyLinked

/-!
# Program files

A program is put on the disk as a file, from some position on. When its headers and the contents of
its segments lie in the file, the loader finds in it what the file says, wherever on the disk it is.

## Main definitions

- `fileSegments`, `fileImage`: the segments of a file and the bytes they make up;
- `SelfContained`: nothing outside the file is needed;
- `StoredAt`: the file is on the disk;
- `FileAccepted`: the headers of the file are accepted.

## Main results

- `accepts_of_storedAt_iff`: when the reader accepts a file on the disk;
- `elfReader_of_storedAt`: what it finds then;
- `programImage_of_storedAt`: what is loaded from it.
-/

namespace R5O5

/-- A disk that holds a file at its start and zeros behind it. -/
def fileDisk (contents : List (BitVec 8)) (pos : ℕ) : BitVec 8 := contents.getD pos 0

/-- The header of a file. -/
def elfHeader (contents : List (BitVec 8)) : Elfhdr := fileHeader (fileDisk contents) 0

/-- The segments of a file. -/
def fileSegments (contents : List (BitVec 8)) : List Elfread :=
  segmentsOf (headersAt (fileDisk contents) (elfHeader contents).phoff.toNat
    (elfHeader contents).phnum.toNat)

/-- The bytes that the segments of a file make up, one segment after the other. -/
def fileImage (contents : List (BitVec 8)) : ℕ → BitVec 8 :=
  (fileSegments contents).foldl
    (fun bytes seg =>
      loadBytes (fileDisk contents) seg.off.toNat seg.vaddr.toNat seg.filesz.toNat bytes)
    fun _ => 0

/-- The headers and the contents of the segments lie in the file. -/
structure SelfContained (contents : List (BitVec 8)) : Prop where
  header : sizeofElfhdr.toNat ≤ contents.length
  headers : (elfHeader contents).phoff.toNat +
    sizeofProghdr.toNat * (elfHeader contents).phnum.toNat ≤ contents.length
  segments : ∀ seg ∈ fileSegments contents, seg.off.toNat + seg.filesz.toNat ≤ contents.length

/-- The file is on the disk from this position on. -/
def StoredAt (disk : ℕ → BitVec 8) (start : ℕ) (contents : List (BitVec 8)) : Prop :=
  ∀ i (hi : i < contents.length), disk (start + i) = contents[i]

/-- The magic number is right, every program header passes after those before it, and there is a
segment. -/
structure FileAccepted (contents : List (BitVec 8)) : Prop where
  magic : (elfHeader contents).magic = elfMagic
  passes : ∀ i < (elfHeader contents).phnum.toNat,
    PassesAt (fileDisk contents) (elfHeader contents).phoff.toNat i
  segments : fileSegments contents ≠ []

section Stored

variable {disk : ℕ → BitVec 8} {start pos count n : ℕ} {contents : List (BitVec 8)}

theorem StoredAt.eq_fileDisk (h : StoredAt disk start contents) {i : ℕ} (hi : i < contents.length) :
    disk (start + i) = fileDisk contents i := by
  rw [h i hi, fileDisk, List.getD_eq_getElem _ _ hi]

theorem StoredAt.diskBytes_eq (h : StoredAt disk start contents)
    (hle : pos + count ≤ contents.length) :
    diskBytes disk (start + pos) count = diskBytes (fileDisk contents) pos count := by
  refine List.map_congr_left fun i hi => ?_
  rw [List.mem_range] at hi
  rw [Nat.add_assoc, h.eq_fileDisk (by omega)]

/-- The header on the disk is that of the file. -/
theorem StoredAt.fileHeader_eq (h : StoredAt disk start contents)
    (hle : sizeofElfhdr.toNat ≤ contents.length) : fileHeader disk start = elfHeader contents := by
  rw [elfHeader, fileHeader, fileHeader, ← h.diskBytes_eq (by rwa [Nat.zero_add]), Nat.add_zero]

/-- The program headers on the disk are those of the file. -/
theorem StoredAt.headersAt_eq (h : StoredAt disk start contents)
    (hle : pos + sizeofProghdr.toNat * n ≤ contents.length) :
    headersAt disk (start + pos) n = headersAt (fileDisk contents) pos n := by
  refine List.map_congr_left fun i hi => ?_
  rw [List.mem_range] at hi
  have hmul := Nat.mul_le_mul_left sizeofProghdr.toNat (Nat.succ_le_of_lt hi)
  rw [Nat.mul_succ] at hmul
  rw [headerAt, headerAt, Nat.add_assoc, h.diskBytes_eq (by omega)]

/-- A header passes on the disk when it passes in the file. -/
theorem StoredAt.passesAt_iff (h : StoredAt disk start contents) (hself : SelfContained contents)
    {i : ℕ} (hi : i < (elfHeader contents).phnum.toNat) :
    PassesAt disk (start + (elfHeader contents).phoff.toNat) i ↔
      PassesAt (fileDisk contents) (elfHeader contents).phoff.toNat i := by
  have hheaders := hself.headers
  have hmul := Nat.mul_le_mul_left sizeofProghdr.toNat (Nat.succ_le_of_lt hi)
  rw [Nat.mul_succ] at hmul
  rw [PassesAt, PassesAt, h.headersAt_eq (by omega), headerAt, headerAt, Nat.add_assoc start,
    h.diskBytes_eq (by omega)]

/-- The segments that the disk shows are those of the file. -/
theorem StoredAt.segments_eq (h : StoredAt disk start contents) (hself : SelfContained contents) :
    segmentsOf (headersAt disk (start + (elfHeader contents).phoff.toNat)
      (elfHeader contents).phnum.toNat) = fileSegments contents := by
  rw [h.headersAt_eq hself.headers, fileSegments]

/-- The bytes copied from the disk are those of the file. -/
theorem StoredAt.loadBytes_eq (h : StoredAt disk start contents)
    (hle : pos + count ≤ contents.length) (vaddr : ℕ) (bytes : ℕ → BitVec 8) :
    loadBytes disk (start + pos) vaddr count bytes =
      loadBytes (fileDisk contents) pos vaddr count bytes := by
  induction count with
  | zero => rfl
  | succ count ih =>
    rw [loadBytes_succ, loadBytes_succ, ih (by omega), Nat.add_assoc, h.eq_fileDisk (by omega)]

end Stored

/-! ## Reading and loading -/

section Reader

variable {wild : Wild} {startBlock startOff endBlock endOff : BitVec 64} {io io' : CachedDisk}
  {elfRead : ElfreadList} {elfNodes elfNodes' : ElfNodes} {contents : List (BitVec 8)}
  {program : Program} {disk : ℕ → BitVec 8} {segs : List Elfread}

/-- The entry comes from the file header and stays. -/
theorem readProgramHeaders_entry {left : ℕ} {s s' : ElfReaderState} {flag : Bool}
    (hok : readProgramHeaders wild endBlock endOff left s = .ok (flag, s')) :
    s'.elfRead.entry = s.elfRead.entry := by
  refine readProgramHeaders_keeps (P := fun t => t.elfRead.entry = s.elfRead.entry)
    (fun t _ t' ht hround => ?_) (fun t ht => ht) rfl hok
  rcases readProgramHeader_cases hround with rfl | ⟨io, bytes, -, rfl | ⟨hcnt, -, -, rfl⟩⟩
  · exact ht
  · exact ht
  · rw [← ht, allocateELFReader]
    split <;> rfl

/-- The offset of the first program header is small. -/
theorem SelfContained.phoff_lt (h : SelfContained contents)
    (hlength : contents.length ≤ diskSize * bsize) (hoffset : startOff.toNat < bsize) :
    startOff.toNat + (elfHeader contents).phoff.toNat < 2 ^ 31 := by
  have hheaders := h.headers
  simp only [bsize, diskSize] at *
  omega

/-- The reader accepts a file on the disk when its headers are acceptable. -/
theorem accepts_of_storedAt_iff (hs : Settled io)
    (hstored : StoredAt io.disk (bytePos startBlock startOff) contents)
    (hself : SelfContained contents) (hoffset : startOff.toNat < bsize)
    (hend : bytePos endBlock endOff + 1 = bytePos startBlock startOff + contents.length)
    (hdisk : bytePos startBlock startOff + contents.length ≤ diskSize * bsize) (wild : Wild) :
    Accepts (elfReader wild startBlock startOff endBlock endOff io elfNodes) ↔
      FileAccepted contents := by
  have hheader := hself.header
  have hheaders := hself.headers
  have hsize : sizeofElfhdr.toNat = 64 := by decide
  have hext : ExtentOnDisk startBlock startOff endBlock endOff :=
    ⟨hoffset, by omega, by omega⟩
  have hphoff := hself.phoff_lt (by omega) hoffset
  have helf := hstored.fileHeader_eq hself.header
  have hnot : ¬ReadsBefore startBlock startOff (elfHeader contents) :=
    fun hbefore => absurd hphoff (Nat.not_lt.mpr hbefore.wraps)
  rw [accepts_elfReader_iff hs rfl hext helf hnot wild, firstHeader_of_lt startBlock hphoff,
    Int.toNat_natCast]
  constructor
  · rintro ⟨-, hmagic, -, haccepted⟩
    refine ⟨hmagic, fun i hi => ?_, ?_⟩
    · exact (hstored.passesAt_iff hself hi).mp (haccepted.readsOn i hi).passes
    · rw [← hstored.segments_eq hself]
      exact haccepted.segments
  · rintro ⟨hmagic, hpasses, hsegments⟩
    refine ⟨by omega, hmagic, Int.natCast_nonneg _, fun i hi => ?_, ?_⟩
    · -- every header lies in the file
      have hmul := Nat.mul_le_mul_left sizeofProghdr.toNat (Nat.succ_le_of_lt hi)
      have hpos : 0 < sizeofProghdr.toNat := by decide
      rw [Nat.mul_succ] at hmul
      exact ⟨by omega, by omega, (hstored.passesAt_iff hself hi).mpr (hpasses i hi)⟩
    · rw [hstored.segments_eq hself]
      exact hsegments

/-- What the reader finds, if it finds anything, is the entry and the segments of the file. -/
theorem elfReader_of_storedAt (hs : Settled io)
    (hstored : StoredAt io.disk (bytePos startBlock startOff) contents)
    (hself : SelfContained contents) (hlength : contents.length ≤ diskSize * bsize)
    (hoffset : startOff.toNat < bsize)
    (hok : elfReader wild startBlock startOff endBlock endOff io elfNodes =
      .ok (elfRead, io', elfNodes'))
    (hhead : elfRead.head ≠ none) :
    ∃ nodes, elfRead.nodes elfNodes' = some nodes ∧
      elfRead.entry = (elfHeader contents).entry ∧
      (nodes.map elfNodes').map Elfread.unlink = fileSegments contents := by
  have hphoff := hself.phoff_lt hlength hoffset
  obtain ⟨hblock, io₁, s, hs₁, hdisk₁, hloop, rfl, rfl⟩ :=
    readProgramHeaders_of_head_ne_none hs (hstored.fileHeader_eq hself.header) hoffset hok hhead
  -- the loop starts at the first header, with an empty list
  have hfirst := firstHeader_of_lt startBlock hphoff
  have hoff : 0 ≤ (firstOff startOff (elfHeader contents).phoff).toInt := by
    rw [firstHeader, bytePos] at hfirst
    push_cast at hfirst
    omega
  have hat := startState_at hs₁ hdisk₁ hblock (hfirst ▸ Int.natCast_nonneg _) (Or.inl hoff)
    elfNodes
  rw [hfirst, Int.toNat_natCast] at hat
  obtain ⟨-, -, hend⟩ := hat.of_readProgramHeaders hloop
  rw [Nat.zero_add] at hend
  obtain ⟨nodes, hlists, hsegments⟩ := hend.counts.segments
  have hcard : nodes.length ≤ elfSize := by
    simpa using List.Nodup.length_le_card hlists.nodup
  refine ⟨nodes, hlists.isList.toList_eq hcard, readProgramHeaders_entry hloop, ?_⟩
  rw [List.map_map, ← hstored.segments_eq hself, ← hsegments]
  rfl

/-- The pages do not depend on the links between the nodes. -/
theorem programPages_unlink (segs : List Elfread) :
    programPages (segs.map Elfread.unlink) = programPages segs := by
  simp only [programPages, stackPages, stackBegin, List.foldl_map]
  rfl

/-- What is loaded is the image of the file. -/
theorem programImage_of_storedAt (hstored : StoredAt disk program.extentStart contents)
    (hself : SelfContained contents) (hlength : contents.length ≤ diskSize * bsize)
    (hoffset : program.startOffset.toNat < bsize)
    (hsegs : segs.map Elfread.unlink = fileSegments contents) :
    programImage program disk segs = fileImage contents := by
  rw [fileImage, ← hsegs, List.foldl_map, programImage]
  refine List.foldl_ext _ _ _ fun bytes seg hseg => ?_
  have hin := hself.segments seg.unlink (hsegs ▸ List.mem_map_of_mem hseg)
  change seg.off.toNat + seg.filesz.toNat ≤ contents.length at hin
  -- the offset in the first block and that of the segment add up without overflow
  have hpos : program.segmentPos seg = program.extentStart + seg.off.toNat := by
    rw [Program.segmentPos, Program.extentStart, BitVec.toNat_add]
    simp only [bsize, diskSize] at *
    omega
  rw [Program.loadImage, hpos]
  exact hstored.loadBytes_eq hin _ _

end Reader

end R5O5
