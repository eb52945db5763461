import R5O5.Kernel.ElfReader.Headers

/-!
# How the ELF reader ends

The reader refuses a program, accepts it, or stops with an error at a header that is cut off by the
end of the disk. The position of the first program header is computed in an `int`: where it turns
negative, the reader gives up in front of the disk, and may look in front of a buffer otherwise.

## Main definitions

- `ExtentOnDisk`: the extent of a program;
- `firstHeader`: where the reader looks for the first program header;
- `AcceptedAt`, `Refuses`, `ComesToCut`: the program headers for each of the ends.

## Main results

- `elfReader_cases`: how the reader ends.
-/

namespace R5O5

/-- The position of a byte on the disk. -/
def bytePos (block off : BitVec 64) : ℕ := block.toNat * bsize + off.toNat

/-- The extent of a program lies on the disk. -/
structure ExtentOnDisk (startBlock startOff endBlock endOff : BitVec 64) : Prop where
  off_lt : startOff.toNat < bsize
  start_le : bytePos startBlock startOff ≤ bytePos endBlock endOff
  end_lt : bytePos endBlock endOff < diskSize * bsize

/-- The file header at a position of the disk. -/
def fileHeader (disk : ℕ → BitVec 8) (start : ℕ) : Elfhdr :=
  Elfhdr.ofBytes (diskBytes disk start sizeofElfhdr.toNat)

/-- The offset of the first program header from the first block, an `int`. -/
def firstOff (startOff phoff : BitVec 64) : BitVec 32 := (startOff + phoff).setWidth 32

/-- Where the reader looks for the first program header. -/
def firstHeader (startBlock startOff phoff : BitVec 64) : ℤ :=
  startBlock.toNat * bsize + (firstOff startOff phoff).toInt

/-- There is a first program header, and it starts in front of the buffer of its block. -/
structure ReadsBefore (startBlock startOff : BitVec 64) (elf : Elfhdr) : Prop where
  header : bytePos startBlock startOff + sizeofElfhdr.toNat ≤ diskSize * bsize
  magic : elf.magic = elfMagic
  phnum : elf.phnum.toNat ≠ 0
  first : 0 ≤ firstHeader startBlock startOff elf.phoff
  neg : (firstOff startOff elf.phoff).toInt < 0
  not_dvd : ¬(bsize : ℤ) ∣ (firstOff startOff elf.phoff).toInt

/-- The reader returns a list with nodes. -/
def Accepts (result : Except Stop (ElfreadList × CachedDisk × ElfNodes)) : Prop :=
  ∃ elfRead io elfNodes, result = .ok (elfRead, io, elfNodes) ∧ elfRead.head ≠ none

/-- The `n` headers from `first` on are accepted. -/
structure AcceptedAt (disk : ℕ → BitVec 8) (first endPos n : ℕ) : Prop where
  readsOn : ∀ i < n, ReadsOn disk first endPos i
  segments : segmentsOf (headersAt disk first n) ≠ []

/-! ## What the reader does -/

section Reader

variable {wild : Wild} {startBlock startOff endBlock endOff phoff : BitVec 64} {io : CachedDisk}
  {elfNodes : ElfNodes} {elf : Elfhdr} {disk : ℕ → BitVec 8}

/-- The reader in front of the first program header. -/
def startState (startBlock startOff : BitVec 64) (elf : Elfhdr) (io : CachedDisk)
    (elfNodes : ElfNodes) : ElfReaderState :=
  { io, elfNodes
    elfRead := ⟨elf.entry, none, none⟩
    cnt := 0
    blockNum := startBlock
    off := firstOff startOff elf.phoff }

theorem ExtentOnDisk.startBlock_lt (h : ExtentOnDisk startBlock startOff endBlock endOff) :
    startBlock.toNat < diskSize := by
  have hle := h.start_le
  have hlt := h.end_lt
  simp only [bytePos, bsize, diskSize] at *
  omega

/-- An offset in a block passes through an `int`. -/
theorem signExtend_setWidth_of_lt (h : startOff.toNat < bsize) :
    (startOff.setWidth 32).signExtend 64 = startOff := by
  have hsmall : (startOff.setWidth 32).toNat = startOff.toNat := by
    rw [BitVec.toNat_setWidth]
    simp only [bsize] at h
    omega
  apply BitVec.eq_of_toNat_eq
  rw [BitVec.signExtend_eq_setWidth_of_msb_false, BitVec.toNat_setWidth, hsmall]
  · simp only [bsize] at h
    omega
  · rw [BitVec.msb_eq_false_iff_two_mul_lt, hsmall]
    simp only [bsize] at h
    omega

/-- A file header that is cut off by the end of the disk is an error. -/
theorem elfReader_of_cut (hs : Settled io) (hblock : startBlock.toNat < diskSize)
    (hoffset : startOff.toNat < bsize)
    (hcut : diskSize * bsize < bytePos startBlock startOff + sizeofElfhdr.toNat) :
    elfReader wild startBlock startOff endBlock endOff io elfNodes =
      .error (.error "readBytes: block exceeds disk size") := by
  rw [elfReader]
  dsimp only
  rw [if_neg (mt ge_diskSize_iff.mp (Nat.not_le_of_lt hblock)),
    signExtend_setWidth_of_lt hoffset]
  rcases readBytes_cases hs hblock (Nat.le_of_lt hoffset) wild sizeofElfhdr with
    ⟨_, -, hle, -⟩ | ⟨herr, -⟩
  · exact absurd hle (Nat.not_le_of_lt hcut)
  · rw [herr]
    rfl

/-- What the reader does behind the file header. -/
def readBehindHeader (wild : Wild) (startBlock startOff endBlock endOff : BitVec 64) (elf : Elfhdr)
    (io : CachedDisk) (elfNodes : ElfNodes) : Except Stop (ElfreadList × CachedDisk × ElfNodes) :=
  if elf.magic ≠ elfMagic then return (⟨0, none, none⟩, io, elfNodes)
  else do
    let (flag, s) ← readProgramHeaders wild endBlock endOff elf.phnum.toNat
      (startState startBlock startOff elf io elfNodes)
    if flag then return (s.elfRead, s.io, s.elfNodes)
    else return ({ s.elfRead with head := none, tail := none }, s.io, s.elfNodes)

/-- A file header that lies on the disk is read. -/
theorem elfReader_of_header (hs : Settled io) (hdisk : io.disk = disk)
    (hblock : startBlock.toNat < diskSize) (hoffset : startOff.toNat < bsize)
    (hle : bytePos startBlock startOff + sizeofElfhdr.toNat ≤ diskSize * bsize)
    (helf : fileHeader disk (bytePos startBlock startOff) = elf) (endBlock endOff : BitVec 64)
    (wild : Wild) (elfNodes : ElfNodes) :
    ∃ io', readBytes wild startBlock startOff sizeofElfhdr io =
        .ok (io', diskBytes disk (bytePos startBlock startOff) sizeofElfhdr.toNat) ∧
      Settled io' ∧ io'.disk = disk ∧
      elfReader wild startBlock startOff endBlock endOff io elfNodes =
        readBehindHeader wild startBlock startOff endBlock endOff elf io' elfNodes := by
  subst helf hdisk
  rcases readBytes_cases hs hblock (Nat.le_of_lt hoffset) wild sizeofElfhdr with
    ⟨io', hread, -, hio', hdisk'⟩ | ⟨-, hlt⟩
  case inr => exact absurd hle (Nat.not_le_of_lt hlt)
  -- the offset passes through an `int` unchanged
  refine ⟨io', hread, hio', hdisk', ?_⟩
  rw [elfReader]
  dsimp only
  rw [if_neg (mt ge_diskSize_iff.mp (Nat.not_le_of_lt hblock)),
    signExtend_setWidth_of_lt hoffset, hread, Except.ok_bind]
  rfl

/-- A list with nodes comes from a loop that has gone on to its end. -/
theorem loop_of_head_ne_none {io' : CachedDisk} {elfRead : ElfreadList} {elfNodes' : ElfNodes}
    (hok : readBehindHeader wild startBlock startOff endBlock endOff elf io elfNodes =
      .ok (elfRead, io', elfNodes'))
    (hhead : elfRead.head ≠ none) :
    ∃ s, readProgramHeaders wild endBlock endOff elf.phnum.toNat
        (startState startBlock startOff elf io elfNodes) = .ok (true, s) ∧
      elfRead = s.elfRead ∧ elfNodes' = s.elfNodes := by
  rw [readBehindHeader] at hok
  split at hok
  case isTrue =>
    cases hok
    exact absurd rfl hhead
  obtain ⟨⟨flag, s⟩, hloop, hend⟩ := Except.bind_eq_ok.mp hok
  cases flag with
  | true =>
    cases hend
    exact ⟨s, hloop, rfl, rfl⟩
  -- a header that was refused leaves no head
  | false =>
    cases hend
    exact absurd rfl hhead

/-- The position of the first program header, truncated, is bounded. -/
theorem firstHeader_lt (hblock : startBlock.toNat < diskSize) (startOff phoff : BitVec 64) :
    firstHeader startBlock startOff phoff < 2 ^ 32 := by
  have hoff := BitVec.toInt_lt (x := firstOff startOff phoff)
  rw [firstHeader]
  simp only [bsize, diskSize] at *
  omega

/-- A small offset is the exact one. -/
theorem firstHeader_of_lt (startBlock : BitVec 64)
    (h : startOff.toNat + phoff.toNat < 2 ^ 31) :
    firstHeader startBlock startOff phoff = (bytePos startBlock startOff + phoff.toNat : ℕ) := by
  have hnat : (firstOff startOff phoff).toNat = startOff.toNat + phoff.toNat := by
    rw [firstOff, BitVec.toNat_setWidth, BitVec.toNat_add]
    omega
  rw [firstHeader, BitVec.toInt_eq_toNat_of_lt (by omega), hnat, bytePos]
  push_cast
  omega

/-- The loop starts with an empty list. -/
theorem startState_counts (startBlock startOff : BitVec 64) (elf : Elfhdr) (io : CachedDisk)
    (elfNodes : ElfNodes) : (startState startBlock startOff elf io elfNodes).Counts [] where
  cnt := rfl
  segments := ⟨[], ElfReaderState.lists_nil rfl rfl, rfl⟩

/-- With an offset that is not negative, or a number of blocks, the reader comes to the first
header. -/
theorem startState_at (hs : Settled io) (hdisk : io.disk = disk)
    (hstart : startBlock.toNat < diskSize)
    (hfirst : 0 ≤ firstHeader startBlock startOff elf.phoff)
    (hoff : 0 ≤ (firstOff startOff elf.phoff).toInt ∨
      (bsize : ℤ) ∣ (firstOff startOff elf.phoff).toInt) (elfNodes : ElfNodes) :
    (startState startBlock startOff elf io elfNodes).toBlock.At disk
      (firstHeader startBlock startOff elf.phoff).toNat 0 := by
  have hlt := firstHeader_lt hstart startOff elf.phoff
  have hoff' : (startState startBlock startOff elf io elfNodes).off =
      firstOff startOff elf.phoff := rfl
  have hblock : (startState startBlock startOff elf io elfNodes).blockNum = startBlock := rfl
  have hplaced : (startState startBlock startOff elf io elfNodes).toBlock.Placed
      (firstHeader startBlock startOff elf.phoff).toNat := by
    -- the division rounds towards zero, so a negative offset must be a multiple of the block size
    rcases hoff with hnonneg | hdvd
    case inr =>
      apply ElfReaderState.placed_toBlock_of_dvd
      · rwa [hoff']
      · rw [hoff', hblock, Int.toNat_of_nonneg hfirst, firstHeader]
      · omega
    case inl =>
      have hnat := hnonneg
      rw [BitVec.toInt_eq_toNat_cond] at hnat
      have hsmall : (firstOff startOff elf.phoff).toNat < 2 ^ 31 := by
        split at hnat <;> omega
      apply ElfReaderState.placed_toBlock
      · rwa [hoff']
      · rw [hoff', hblock, firstHeader, BitVec.toInt_eq_toNat_of_lt (by omega)]
        omega
      · omega
  constructor
  case settled => exact hs
  case medium => exact fun p _ => congrFun hdisk p
  case placed => exact hplaced
  case counts => exact (startState_counts ..).toBlock

theorem ExtentOnDisk.toNat_end (hext : ExtentOnDisk startBlock startOff endBlock endOff) :
    (endBlock * BitVec.ofNat 64 bsize + endOff).toNat = bytePos endBlock endOff :=
  toNat_mul_bsize_add hext.end_lt

/-- The position that the reader compares for the first header wraps around in front of the disk. -/
theorem toNat_startState (startBlock startOff : BitVec 64) (elf : Elfhdr) (io : CachedDisk)
    (elfNodes : ElfNodes) :
    (((startState startBlock startOff elf io elfNodes).toBlock.blockNum * BitVec.ofNat 64 bsize +
        (startState startBlock startOff elf io elfNodes).toBlock.off.signExtend 64).toNat : ℤ) =
      firstHeader startBlock startOff elf.phoff % 2 ^ 64 :=
  ElfReaderState.toNat_toBlock _

/-- In front of the disk the first header is taken to be behind the end of the program. -/
theorem gt_of_firstHeader_neg (hext : ExtentOnDisk startBlock startOff endBlock endOff)
    (hfirst : firstHeader startBlock startOff elf.phoff < 0) (io : CachedDisk)
    (elfNodes : ElfNodes) :
    (startState startBlock startOff elf io elfNodes).toBlock.blockNum * BitVec.ofNat 64 bsize +
        (startState startBlock startOff elf io elfNodes).toBlock.off.signExtend 64 >
      endBlock * BitVec.ofNat 64 bsize + endOff := by
  have hpos := toNat_startState startBlock startOff elf io elfNodes
  have hge := BitVec.le_toInt (firstOff startOff elf.phoff)
  have hend := hext.end_lt
  rw [gt_iff_lt, BitVec.lt_def, hext.toNat_end]
  rw [firstHeader] at hpos hfirst
  simp only [bsize, diskSize] at *
  omega

/-- In front of the disk the reader gives up. -/
theorem readProgramHeaders_of_neg (hext : ExtentOnDisk startBlock startOff endBlock endOff)
    (hfirst : firstHeader startBlock startOff elf.phoff < 0) (wild : Wild) (left : ℕ) :
    readProgramHeaders wild endBlock endOff (left + 1)
        (startState startBlock startOff elf io elfNodes) =
      .ok (false, (startState startBlock startOff elf io elfNodes).toBlock) := by
  rw [readProgramHeaders, readProgramHeader, if_pos (gt_of_firstHeader_neg hext hfirst io elfNodes)]
  rfl

/-- The reader gives up, or finds no segment. -/
def Refuses (disk : ℕ → BitVec 8) (first endPos n : ℕ) : Prop :=
  (∃ k < n, GivesUp disk first endPos k ∧ ∀ j < k, ReadsOn disk first endPos j) ∨
    ((∀ j < n, ReadsOn disk first endPos j) ∧ segmentsOf (headersAt disk first n) = [])

/-- The reader comes to a header that is cut off. -/
def ComesToCut (disk : ℕ → BitVec 8) (first endPos n : ℕ) : Prop :=
  ∃ k < n, CutOff first endPos k ∧ ∀ j < k, ReadsOn disk first endPos j

/-- The first offset, when nothing before the disk is read. -/
theorem off_of_not_readsBefore (hnot : ¬ReadsBefore startBlock startOff elf)
    (hheader : bytePos startBlock startOff + sizeofElfhdr.toNat ≤ diskSize * bsize)
    (hmagic : elf.magic = elfMagic) (hphnum : elf.phnum.toNat ≠ 0)
    (hfirst : 0 ≤ firstHeader startBlock startOff elf.phoff) :
    0 ≤ (firstOff startOff elf.phoff).toInt ∨
      (bsize : ℤ) ∣ (firstOff startOff elf.phoff).toInt := by
  by_contra hor
  rw [not_or, Int.not_le] at hor
  exact hnot ⟨hheader, hmagic, hphnum, hfirst, hor.1, hor.2⟩

theorem firstHeader_add_lt (hext : ExtentOnDisk startBlock startOff endBlock endOff)
    (elf : Elfhdr) : (firstHeader startBlock startOff elf.phoff).toNat +
      sizeofProghdr.toNat * (0 + elf.phnum.toNat) < 2 ^ 62 := by
  have hlt := firstHeader_lt hext.startBlock_lt startOff elf.phoff
  have hphnum := elf.phnum.isLt
  rw [show sizeofProghdr.toNat = 56 by decide]
  omega

/-- Unless it reads in front of a buffer, the reader accepts the program, refuses it, or stops at a
header that is cut off. -/
theorem elfReader_cases (hs : Settled io) (hdisk : io.disk = disk)
    (hext : ExtentOnDisk startBlock startOff endBlock endOff)
    (helf : fileHeader disk (bytePos startBlock startOff) = elf)
    (hnot : ¬ReadsBefore startBlock startOff elf) (wild : Wild) (elfNodes : ElfNodes) :
    (∃ elfRead io' elfNodes',
      elfReader wild startBlock startOff endBlock endOff io elfNodes =
        .ok (elfRead, io', elfNodes') ∧
      elfRead.head ≠ none ∧ elfRead.tail ≠ none ∧
      bytePos startBlock startOff + sizeofElfhdr.toNat ≤ diskSize * bsize ∧
      elf.magic = elfMagic ∧ 0 ≤ firstHeader startBlock startOff elf.phoff ∧
      AcceptedAt disk (firstHeader startBlock startOff elf.phoff).toNat (bytePos endBlock endOff)
        elf.phnum.toNat) ∨
    (∃ elfRead io' elfNodes',
      elfReader wild startBlock startOff endBlock endOff io elfNodes =
        .ok (elfRead, io', elfNodes') ∧
      elfRead.head = none ∧ elfRead.tail = none ∧
      bytePos startBlock startOff + sizeofElfhdr.toNat ≤ diskSize * bsize ∧
      (elf.magic = elfMagic → 0 ≤ firstHeader startBlock startOff elf.phoff →
        Refuses disk (firstHeader startBlock startOff elf.phoff).toNat (bytePos endBlock endOff)
          elf.phnum.toNat)) ∨
    (elfReader wild startBlock startOff endBlock endOff io elfNodes =
        .error (.error "readBytes: block exceeds disk size") ∧
      (diskSize * bsize < bytePos startBlock startOff + sizeofElfhdr.toNat ∨
        elf.magic = elfMagic ∧ 0 ≤ firstHeader startBlock startOff elf.phoff ∧
          ComesToCut disk (firstHeader startBlock startOff elf.phoff).toNat
            (bytePos endBlock endOff) elf.phnum.toNat)) := by
  rcases Nat.lt_or_ge (diskSize * bsize) (bytePos startBlock startOff + sizeofElfhdr.toNat) with
    hcut | hle
  · right; right
    exact ⟨elfReader_of_cut hs hext.startBlock_lt hext.off_lt hcut, Or.inl hcut⟩
  obtain ⟨io₁, -, hs₁, hdisk₁, hreader⟩ :=
    elfReader_of_header hs hdisk hext.startBlock_lt hext.off_lt hle helf endBlock endOff wild
      elfNodes
  rw [hreader, readBehindHeader]
  by_cases hmagic : elf.magic = elfMagic
  case neg =>
    right; left
    rw [if_pos hmagic]
    exact ⟨_, io₁, elfNodes, rfl, rfl, rfl, hle, fun h => absurd h hmagic⟩
  rw [if_neg (not_not.mpr hmagic)]
  rcases Nat.eq_zero_or_pos elf.phnum.toNat with hzero | hpos
  · -- no program header
    right; left
    rw [hzero]
    refine ⟨_, io₁, elfNodes, rfl, rfl, rfl, hle, fun _ _ => Or.inr ⟨?_, rfl⟩⟩
    exact fun j hj => absurd hj (Nat.not_lt_zero j)
  rcases lt_or_ge (firstHeader startBlock startOff elf.phoff) 0 with hneg | hfirst
  · right; left
    -- the position wraps around and is behind every end
    obtain ⟨left, hleft⟩ := Nat.exists_eq_succ_of_ne_zero (Nat.ne_of_gt hpos)
    rw [hleft, readProgramHeaders_of_neg hext hneg, Except.ok_bind]
    exact ⟨_, _, _, rfl, rfl, rfl, hle, fun _ h => absurd hneg (not_lt.mpr h)⟩
  -- the first header is at a place of the disk, and the loop goes on from there
  have hoff := off_of_not_readsBefore hnot hle hmagic (Nat.ne_of_gt hpos) hfirst
  have hat := startState_at hs₁ hdisk₁ hext.startBlock_lt hfirst hoff elfNodes
  rcases readProgramHeaders_cases hat rfl hext.end_lt (firstHeader_add_lt hext elf) wild with
    ⟨s', k, hgives, -, hk, hall, hloop⟩ | ⟨s', hall, hloop, hat', -⟩ | ⟨k, hcut, -, hk, hall, hloop⟩
  · right; left
    rw [hloop, Except.ok_bind]
    refine ⟨_, _, _, rfl, rfl, rfl, hle, fun _ _ => Or.inl ⟨k, by omega, hgives, ?_⟩⟩
    exact fun j hj => hall j (Nat.zero_le j) hj
  · rw [hloop, Except.ok_bind]
    rw [Nat.zero_add] at hall hat'
    obtain ⟨nodes, hlists, hsegments⟩ := hat'.counts.segments
    have hall' : ∀ j < elf.phnum.toNat, ReadsOn disk
        (firstHeader startBlock startOff elf.phoff).toNat (bytePos endBlock endOff) j :=
      fun j hj => hall j (Nat.zero_le j) hj
    -- the loop has read all headers; it depends on the segments among them
    cases nodes with
    | nil =>
      right; left
      exact ⟨s'.elfRead, s'.io, s'.elfNodes, rfl, hlists.isList, hlists.tail, hle,
        fun _ _ => Or.inr ⟨hall', hsegments.symm⟩⟩
    | cons node nodes =>
      left
      refine ⟨s'.elfRead, s'.io, s'.elfNodes, rfl, ?_, ?_, hle, hmagic, hfirst, hall', ?_⟩
      · rw [show s'.elfRead.head = some node from hlists.isList.1]
        exact Option.some_ne_none node
      · rw [show s'.elfRead.tail = (node :: nodes).getLast? from hlists.tail]
        simp
      · rw [← hsegments]
        exact List.cons_ne_nil _ _
  · right; right
    rw [hloop]
    refine ⟨rfl, Or.inr ⟨hmagic, hfirst, k, by omega, hcut, ?_⟩⟩
    exact fun j hj => hall j (Nat.zero_le j) hj

end Reader

/-! ## A sample -/

/-- A file header with `phnum` program headers behind it, all of them empty segments. -/
def emptySegments (phnum : BitVec 8) (p : ℕ) : BitVec 8 :=
  if p < 4 then [0x7f, 0x45, 0x4c, 0x46].getD p 0
  else if p = 32 then 64
  else if p = 56 then phnum
  else if 64 ≤ p ∧ (p - 64) % 56 = 0 then 1
  else 0

/-- Buffers after `binit`, over a disk. -/
def freshDisk (disk : ℕ → BitVec 8) : CachedDisk := { cache := binit (zeroCache ⟨id, id⟩), disk }

/-- A cache that is just initialised is settled. -/
theorem settled_freshDisk (disk : ℕ → BitVec 8) : Settled (freshDisk disk) :=
  (DiskCall.carries_boot ⟨id, id⟩ disk).settled

/-- Nodes that were not used yet. -/
def unusedNodes : ElfNodes := fun _ => ⟨0, 0, 0, 0, none, none⟩

end R5O5
