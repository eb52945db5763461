import R5O5.Kernel.ElfReader.Outcome

/-!
# Reading in front of a buffer

With a negative offset the reader takes the first program headers from the memory in front of the
buffer of their block. Apart from that it goes on as if these bytes were the ones on the disk in
front of the block, so it accepts what is accepted on some disk that differs there.

## Main definitions

- `frontOf`: memory that looks like a disk in front of every buffer;
- `ElfReaderState.Before`: the reader has come to a header that starts in front of its buffer.

## Main results

- `exists_accepts_iff`: what the reader can accept when it reads in front of a buffer.
-/

namespace R5O5

/-- Every buffer is preceded by the bytes that are in front of its block on the disk. -/
def frontOf (disk : ℕ → BitVec 8) : Wild := fun s b pos =>
  disk (((s.cache.buf b).blockno.toNat : ℤ) * bsize + pos.toInt).toNat

section Read

variable {wild : Wild} {s : CachedDisk} {diskBlockNum offset : BitVec 64} {pos : ℕ}

/-- A read that stays in one block, or in front of it. -/
theorem copyLoop_of_ne {message : String} {left k : ℕ} {b : BufRef} {pos : BitVec 64}
    {bytes : List (BitVec 8)}
    (h : ∀ j < left, pos + BitVec.ofNat 64 j ≠ BitVec.ofNat 64 bsize) :
    copyLoop false message (fun _ b pos (s, bytes) => .ok (s, bytes ++ [dataAt wild s b pos]))
        left k diskBlockNum pos b (s, bytes) =
      .ok (release false b s,
        bytes ++ (List.range left).map fun j => dataAt wild s b (pos + BitVec.ofNat 64 j)) := by
  induction left generalizing k pos bytes with
  | zero =>
    rw [copyLoop, List.range_zero, List.map_nil, List.append_nil]
  | succ left ih =>
    -- no byte is at the end of the block, so it is never given back
    have hfirst : pos ≠ BitVec.ofNat 64 bsize := by simpa using h 0 (Nat.succ_pos left)
    have hshift : ∀ j, pos + 1 + BitVec.ofNat 64 j = pos + BitVec.ofNat 64 (j + 1) := by
      intro j
      rw [Nat.add_comm j 1, BitVec.ofNat_add, ← BitVec.add_assoc]
      rfl
    have hrest : ∀ j < left, pos + 1 + BitVec.ofNat 64 j ≠ BitVec.ofNat 64 bsize := by
      intro j hj
      rw [hshift]
      exact h (j + 1) (Nat.succ_lt_succ hj)
    rw [copyLoop, if_neg hfirst]
    refine (ih hrest).trans ?_
    simp only [hshift]
    rw [List.range_succ_eq_map, List.map_cons, List.map_map, List.append_assoc]
    simp only [BitVec.add_zero, List.singleton_append]
    rfl

/-- A header in front of its buffer: what lies in the block is read from the disk, and the rest is
what the memory holds. -/
theorem readBytes_before (hs : Settled s) (hblock : diskBlockNum.toNat < diskSize)
    (hneg : offset.toInt < 0) (hge : -bsize < offset.toInt)
    (hpos : (pos : ℤ) = diskBlockNum.toNat * bsize + offset.toInt) (wild : Wild) :
    ∃ s' byte, readBytes wild diskBlockNum offset sizeofProghdr s =
        .ok (s', (List.range sizeofProghdr.toNat).map byte) ∧
      Settled s' ∧ s'.disk = s.disk ∧
      (∀ j < sizeofProghdr.toNat, diskBlockNum.toNat * bsize ≤ pos + j →
        byte j = s.disk (pos + j)) ∧
      (∀ disk, wild = frontOf disk → ∀ j < sizeofProghdr.toNat,
        pos + j < diskBlockNum.toNat * bsize → byte j = disk (pos + j)) := by
  obtain ⟨b, s₁, hopen, hhold, hdisk⟩ := hs.openBlock "readBytes: block exceeds disk size" hblock
  have hsize : sizeofProghdr.toNat = 56 := by decide
  -- as an unsigned number the offset is far behind the buffer
  have hint : offset.toInt = offset.toNat - 2 ^ 64 := by
    rw [BitVec.toInt_eq_toNat_cond] at hneg ⊢
    split at hneg <;> omega
  simp only [bsize] at hge
  have hindex : ∀ j < 56, (offset + BitVec.ofNat 64 j).toInt = offset.toInt + j := by
    intro j hj
    rw [BitVec.toInt_eq_toNat_cond, BitVec.toNat_add, BitVec.toNat_ofNat]
    split <;> omega
  have hne : ∀ j < sizeofProghdr.toNat, offset + BitVec.ofNat 64 j ≠ BitVec.ofNat 64 bsize := by
    intro j hj heq
    have hint := hindex j (by omega)
    rw [heq, show (BitVec.ofNat 64 bsize).toInt = 1024 from by decide] at hint
    omega
  obtain ⟨hs', hdisk'⟩ : Settled (release false b s₁) ∧ (release false b s₁).disk = s.disk :=
    hhold.release fun _ => hdisk
  refine ⟨release false b s₁, fun j => dataAt wild s₁ b (offset + BitVec.ofNat 64 j), ?_, hs',
    hdisk', fun j hj hin => ?_, ?_⟩
  · rw [readBytes, copyBytes, hopen, Except.ok_bind]
    exact copyLoop_of_ne hne
  · -- the index is one into the data of the buffer
    have hnat : (offset + BitVec.ofNat 64 j).toNat = pos + j - diskBlockNum.toNat * bsize := by
      have hint := hindex j (by omega)
      rw [BitVec.toInt_eq_toNat_cond] at hint
      split at hint <;> omega
    have hlt : (offset + BitVec.ofNat 64 j).toNat < bsize := by
      rw [hnat]
      simp only [bsize] at *
      omega
    dsimp only
    rw [hhold.dataAt wild hlt, hnat]
    congr 1
    omega
  · rintro disk rfl j hj hfront
    have hint := hindex j (by omega)
    -- the index is in front of the data, where the memory is `frontOf disk`
    have hlarge : ¬(offset + BitVec.ofNat 64 j).toNat < bsize := by
      intro hlt
      rw [BitVec.toInt_eq_toNat_of_lt (by simp only [bsize] at hlt; omega)] at hint
      omega
    dsimp only
    rw [dataAt, dif_neg hlarge, frontOf, hhold.blockno, hint]
    congr 1
    omega

end Read

/-! ## The headers in front of a block -/

/-- The reader has come to header `i`, which starts in front of block `block`. -/
structure ElfReaderState.Before (s : ElfReaderState) (disk : ℕ → BitVec 8) (first i block : ℕ) :
    Prop where
  settled : Settled s.io
  medium : ∀ p, block * bsize ≤ p → s.io.disk p = disk p
  blockNum : s.blockNum.toNat = block
  position : (first + sizeofProghdr.toNat * i : ℕ) = (block * bsize : ℤ) + s.off.toInt
  neg : s.off.toInt < 0
  ge : -bsize < s.off.toInt
  counts : s.Counts (headersAt disk first i)

/-- The disks are the same but for a range in front of a block. -/
structure AgreeOutside (disk disk' : ℕ → BitVec 8) (pos block : ℕ) : Prop where
  low : ∀ p < pos, disk' p = disk p
  high : ∀ p, block * bsize ≤ p → disk' p = disk p

section Before

variable {s : ElfReaderState} {disk disk' disk'' : ℕ → BitVec 8}
  {first i n block pos pos' endPos left : ℕ} {endBlock endOff : BitVec 64}

theorem AgreeOutside.trans (h : AgreeOutside disk disk' pos block)
    (h' : AgreeOutside disk' disk'' pos' block) (hle : pos ≤ pos') :
    AgreeOutside disk disk'' pos block where
  low p hp := (h'.low p (Nat.lt_of_lt_of_le hp hle)).trans (h.low p hp)
  high p hp := (h'.high p hp).trans (h.high p hp)

/-- The headers before the range are the same. -/
theorem AgreeOutside.headersAt (h : AgreeOutside disk disk' pos block)
    (hle : first + sizeofProghdr.toNat * n ≤ pos) :
    R5O5.headersAt disk' first n = R5O5.headersAt disk first n := by
  refine List.map_congr_left fun i hi => ?_
  rw [List.mem_range] at hi
  rw [headerAt, headerAt]
  congr 1
  refine diskBytes_congr fun p _ hp => h.low p ?_
  have hsucc := Nat.mul_le_mul_left sizeofProghdr.toNat (Nat.succ_le_of_lt hi)
  rw [Nat.mul_succ] at hsucc
  omega

/-- What happens at a header before the range is the same. -/
theorem AgreeOutside.readsOn (h : AgreeOutside disk disk' pos block)
    (hle : first + sizeofProghdr.toNat * (i + 1) ≤ pos) (hreads : ReadsOn disk first endPos i) :
    ReadsOn disk' first endPos i where
  begins := hreads.begins
  onDisk := hreads.onDisk
  passes := by
    have hheaders := h.headersAt hle
    rw [headersAt_succ, headersAt_succ] at hheaders
    obtain ⟨hearlier, hheader⟩ := List.append_inj' hheaders rfl
    rw [PassesAt, hearlier, List.singleton_inj.mp hheader]
    exact hreads.passes

/-- The next offset, without overflow. -/
theorem ElfReaderState.toInt_nextHeader (hge : -bsize < s.off.toInt) (hlt : s.off.toInt < bsize) :
    s.nextHeader.off.toInt = s.off.toInt + sizeofProghdr.toNat := by
  have hsum := toNat_add_signExtend sizeofProghdr s.off
  rw [BitVec.add_comm, show sizeofProghdr.toNat = 56 by decide] at hsum
  rw [ElfReaderState.nextHeader, show sizeofProghdr.toNat = 56 by decide]
  dsimp only
  rw [BitVec.toInt_eq_toNat_cond, BitVec.toNat_setWidth]
  simp only [bsize] at hge hlt
  split <;> omega

/-- An offset in front of the buffer stays as it is. -/
theorem ElfReaderState.toBlock_of_neg (hge : -bsize < s.off.toInt) (hneg : s.off.toInt < 0) :
    s.toBlock.blockNum.toNat = s.blockNum.toNat ∧ s.toBlock.off.toInt = s.off.toInt := by
  obtain ⟨hblock, hoff⟩ := s.toInt_toBlock
  generalize s.off.toInt = x at *
  obtain ⟨m, rfl⟩ : ∃ m, x = -m := ⟨-x, by omega⟩
  rw [Int.neg_tdiv, Int.tdiv_eq_zero_of_lt (by omega) (by omega)] at hblock
  rw [Int.neg_tmod, Int.tmod_eq_of_lt (by omega) (by omega)] at hoff
  refine ⟨?_, hoff⟩
  have hlt := s.blockNum.isLt
  omega

/-- The reader behind a header in front of a block: at another one, or in the block. -/
theorem ElfReaderState.Before.next (h : s.Before disk first i block) (hblock : block < diskSize)
    {s' : ElfReaderState} (hblockNum : s'.blockNum = s.blockNum) (hoff : s'.off = s.off)
    (hs' : Settled s'.io) (hdisk : s'.io.disk = s.io.disk)
    (hagree : AgreeOutside disk disk' (first + sizeofProghdr.toNat * i) block)
    (hcounts : s'.nextHeader.Counts (R5O5.headersAt disk' first (i + 1))) :
    s'.nextHeader.toBlock.Before disk' first (i + 1) block ∨
      (block * bsize ≤ first + sizeofProghdr.toNat * (i + 1) ∧
        s'.nextHeader.toBlock.At disk' first (i + 1)) := by
  have hsize : sizeofProghdr.toNat = 56 := by decide
  have hneg := h.neg
  have hge := h.ge
  have hposition := h.position
  have hoff' : s'.nextHeader.off.toInt = s.off.toInt + sizeofProghdr.toNat := by
    rw [ElfReaderState.toInt_nextHeader, hoff]
    · rwa [hoff]
    · rw [hoff]
      omega
  have hblockNum' : s'.nextHeader.blockNum.toNat = block := by
    rw [← h.blockNum, ← hblockNum]
    rfl
  have hmedium : ∀ p, block * bsize ≤ p → s'.io.disk p = disk' p := by
    intro p hp
    rw [hdisk, h.medium p hp, hagree.high p hp]
  rw [Nat.mul_succ]
  rw [hsize] at hoff' hposition ⊢
  -- the next header is still in front of the block, or it is the first one behind
  rcases lt_or_ge s'.nextHeader.off.toInt 0 with hneg' | hnonneg
  · left
    obtain ⟨hblock', hoff''⟩ := ElfReaderState.toBlock_of_neg (s := s'.nextHeader) (by omega) hneg'
    constructor
    case settled => exact hs'
    case medium => exact hmedium
    case blockNum => rw [hblock', hblockNum']
    case position =>
      rw [hoff'', hoff', hsize]
      omega
    case neg => rwa [hoff'']
    case ge =>
      rw [hoff'']
      omega
    case counts => exact hcounts.toBlock
  · right
    have hnat : (s'.nextHeader.off.toNat : ℤ) = s'.nextHeader.off.toInt := by
      rw [BitVec.toInt_eq_toNat_cond] at hnonneg ⊢
      split at hnonneg
      case isTrue hlt => rw [if_pos hlt]
      case isFalse => omega
    refine ⟨by omega, ?_⟩
    constructor
    case settled => exact hs'
    case medium =>
      intro p hp
      rw [hsize] at hp
      exact hmedium p (by omega)
    case placed =>
      apply ElfReaderState.placed_toBlock
      · omega
      · rw [hblockNum', hsize]
        omega
      · simp only [bsize, diskSize] at *
        rw [hsize]
        omega
    case counts => exact hcounts.toBlock

/-- A header in front of a block is always read, as the header of a disk that differs there. -/
theorem ElfReaderState.Before.round (h : s.Before disk first i block) (hblock : block < diskSize)
    (hend : endBlock.toNat * bsize + endOff.toNat = endPos) (hlt : endPos < diskSize * bsize)
    (hle : block * bsize ≤ endPos) (wild : Wild) :
    ∃ disk', AgreeOutside disk disk' (first + sizeofProghdr.toNat * i) block ∧
      (wild = frontOf disk → disk' = disk) ∧
      ((¬PassesAt disk' first i ∧
          ∃ s', readProgramHeader wild endBlock endOff s = .ok (false, s')) ∨
        (ReadsOn disk' first endPos i ∧
          ∃ s', readProgramHeader wild endBlock endOff s = .ok (true, s') ∧
            (s'.nextHeader.toBlock.Before disk' first (i + 1) block ∨
              (block * bsize ≤ first + sizeofProghdr.toNat * (i + 1) ∧
                s'.nextHeader.toBlock.At disk' first (i + 1))))) := by
  have hneg := h.neg
  have hge := h.ge
  have hposition := h.position
  have hsize : sizeofProghdr.toNat = 56 := by decide
  generalize hpos : first + sizeofProghdr.toNat * i = pos at *
  have hnot : ¬s.blockNum * BitVec.ofNat 64 bsize + s.off.signExtend 64 >
      endBlock * BitVec.ofNat 64 bsize + endOff := by
    have hsum := toNat_add_signExtend (s.blockNum * BitVec.ofNat 64 bsize) s.off
    have hblockNum := h.blockNum
    have hendNat : (endBlock * BitVec.ofNat 64 bsize + endOff).toNat = endPos :=
      (toNat_mul_bsize_add (hend ▸ hlt)).trans hend
    rw [gt_iff_lt, BitVec.lt_def, hendNat]
    rw [BitVec.toNat_mul, toNat_bsize, hblockNum] at hsum
    simp only [bsize, diskSize] at *
    omega
  have hext : (s.off.signExtend 64).toInt = s.off.toInt := BitVec.toInt_signExtend_of_le (by decide)
  have hpos' : (pos : ℤ) = s.blockNum.toNat * bsize + (s.off.signExtend 64).toInt := by
    rw [hext, h.blockNum]
    exact hposition
  obtain ⟨io, byte, hread, hio, hdisk, hin, hfront⟩ := readBytes_before h.settled
    (h.blockNum ▸ hblock) (by rwa [hext]) (by rwa [hext]) hpos' wild
  rw [h.blockNum] at hin hfront
  -- the disk with what the memory holds in front of the block
  let disk' := writeRange disk pos (min sizeofProghdr.toNat (block * bsize - pos)) byte
  have hagree : AgreeOutside disk disk' pos block := by
    constructor
    · intro p hp
      exact if_neg (by omega)
    · intro p hp
      exact if_neg (by omega)
  have hbyte : ∀ j < sizeofProghdr.toNat, byte j = disk' (pos + j) := by
    intro j hj
    rcases Nat.lt_or_ge (pos + j) (block * bsize) with hlt | hge
    · have hmem : pos ≤ pos + j ∧
          pos + j < pos + min sizeofProghdr.toNat (block * bsize - pos) := by omega
      exact ((if_pos hmem).trans (congrArg byte (Nat.add_sub_cancel_left pos j))).symm
    · rw [hin j hj hge, hagree.high _ hge, h.medium _ hge]
  have hheader : Proghdr.ofBytes ((List.range sizeofProghdr.toNat).map byte) =
      headerAt disk' pos := by
    rw [headerAt, diskBytes]
    congr 1
    refine List.map_congr_left fun j hj => ?_
    exact hbyte j (List.mem_range.mp hj)
  refine ⟨disk', hagree, ?_, ?_⟩
  · intro hwild
    funext p
    by_cases hmem : pos ≤ p ∧ p < pos + min sizeofProghdr.toNat (block * bsize - pos)
    · have heq := hfront disk hwild (p - pos) (by omega) (by omega)
      rw [Nat.add_sub_cancel' hmem.1] at heq
      exact (if_pos hmem).trans heq
    · exact if_neg hmem
  have hcounts : s.Counts (R5O5.headersAt disk' first i) := by
    rw [hagree.headersAt (Nat.le_of_eq hpos)]
    exact h.counts
  have hround := hcounts.readProgramHeader hnot hread
  rw [hheader] at hround
  rcases hround with ⟨hfails, hround⟩ | ⟨hpasses, s', hround, rfl, hblockNum', hoff', -, hcounts'⟩
  · left
    exact ⟨by rwa [PassesAt, hpos], _, hround⟩
  · right
    refine ⟨⟨by omega, ?_, by rwa [PassesAt, hpos]⟩, s', hround, ?_⟩
    · rw [hpos, hsize]
      simp only [bsize, diskSize] at *
      omega
    · subst hpos
      apply h.next hblock hblockNum' hoff' hio hdisk hagree
      rw [headersAt_succ]
      exact hcounts'

/-- The loop from a header in front of a block on: it reads on to the end exactly when this is so on
a disk that differs in front of the block. -/
theorem readProgramHeaders_before (h : s.toBlock.Before disk first i block)
    (hblock : block < diskSize) (hend : endBlock.toNat * bsize + endOff.toNat = endPos)
    (hlt : endPos < diskSize * bsize) (hle : block * bsize ≤ endPos)
    (hfirst : first + sizeofProghdr.toNat * (i + left) < 2 ^ 62) (wild : Wild) :
    ∃ disk', AgreeOutside disk disk' (first + sizeofProghdr.toNat * i) block ∧
      (wild = frontOf disk → disk' = disk) ∧
      ((∃ s', (∀ j, i ≤ j → j < i + left → ReadsOn disk' first endPos j) ∧
          readProgramHeaders wild endBlock endOff left s = .ok (true, s') ∧
          s'.toBlock.Counts (R5O5.headersAt disk' first (i + left))) ∨
        ((∃ j, i ≤ j ∧ j < i + left ∧ ¬ReadsOn disk' first endPos j) ∧
          ∀ s', readProgramHeaders wild endBlock endOff left s ≠ .ok (true, s'))) := by
  -- each round that looks in front of the block may change the disk there
  induction left generalizing s i disk with
  | zero =>
    refine ⟨disk, ⟨fun _ _ => rfl, fun _ _ => rfl⟩, fun _ => rfl, Or.inl ⟨s, ?_, rfl, h.counts⟩⟩
    intro j hij hji
    omega
  | succ left ih =>
    have hcount : i + (left + 1) = i + 1 + left := by omega
    obtain ⟨disk₁, hagree₁, hwild₁, hround⟩ := h.round hblock hend hlt hle wild
    rw [readProgramHeaders]
    rcases hround with ⟨hfails, s₁, hround⟩ | ⟨hreads, s₁, hround, hbefore | ⟨-, hat⟩⟩
    · refine ⟨disk₁, hagree₁, hwild₁, Or.inr ⟨⟨i, Nat.le_refl i, by omega, ?_⟩, ?_⟩⟩
      · exact fun hreads => hfails hreads.passes
      · rw [hround]
        intro s' heq
        cases heq
    · -- the next header is in front of the block, too
      rw [hcount] at hfirst ⊢
      -- later rounds look behind the headers read so far
      obtain ⟨disk₂, hagree₂, hwild₂, hloop⟩ := ih hbefore hfirst
      have hmono : first + sizeofProghdr.toNat * i ≤ first + sizeofProghdr.toNat * (i + 1) :=
        Nat.add_le_add_left (Nat.mul_le_mul_left _ (Nat.le_succ i)) first
      refine ⟨disk₂, hagree₁.trans hagree₂ hmono, ?_, ?_⟩
      · intro hwild
        obtain rfl := hwild₁ hwild
        exact hwild₂ hwild
      rw [hround, Except.ok_bind]
      dsimp only
      rw [if_pos rfl]
      rcases hloop with ⟨s', hall, hok, hcounts⟩ | ⟨⟨j, hij, hji, hnot⟩, hne⟩
      · left
        refine ⟨s', fun j hij hji => ?_, hok, hcounts⟩
        rcases Nat.eq_or_lt_of_le hij with rfl | hlt
        · exact hagree₂.readsOn (Nat.le_refl _) hreads
        · exact hall j hlt hji
      · right
        exact ⟨⟨j, by omega, hji, hnot⟩, hne⟩
    · -- from the next header on the reader is in the block
      rw [hcount] at hfirst ⊢
      refine ⟨disk₁, hagree₁, hwild₁, ?_⟩
      rw [hround, Except.ok_bind]
      dsimp only
      rw [if_pos rfl]
      rcases readProgramHeaders_cases hat hend hlt hfirst wild with
        ⟨s', k, hgives, hk, hk', -, hloop⟩ | ⟨s', hall, hloop, hat', -⟩ |
          ⟨k, hcut, hk, hk', -, hloop⟩
      · right
        refine ⟨⟨k, by omega, hk', hgives.not_readsOn⟩, ?_⟩
        rw [hloop]
        intro s' heq
        cases heq
      · left
        refine ⟨s', fun j hij hji => ?_, hloop, hat'.counts⟩
        rcases Nat.eq_or_lt_of_le hij with rfl | hlt
        · exact hreads
        · exact hall j hlt hji
      · right
        refine ⟨⟨k, by omega, hk', hcut.not_readsOn⟩, ?_⟩
        rw [hloop]
        intro s' heq
        cases heq

end Before

/-! ## The whole reader -/

/-- The block behind a position. -/
def blockBehind (pos : ℕ) : ℕ := pos / bsize + 1

section Reader

variable {startBlock startOff endBlock endOff : BitVec 64} {io : CachedDisk} {elfNodes : ElfNodes}
  {elf : Elfhdr} {disk disk' : ℕ → BitVec 8}

/-- The reader comes to the first header in front of its block. -/
theorem ReadsBefore.startState_before (h : ReadsBefore startBlock startOff elf)
    (hext : ExtentOnDisk startBlock startOff endBlock endOff) (hs : Settled io)
    (hdisk : ∀ p, blockBehind (firstHeader startBlock startOff elf.phoff).toNat * bsize ≤ p →
      io.disk p = disk p) (elfNodes : ElfNodes) :
    (startState startBlock startOff elf io elfNodes).toBlock.Before disk
      (firstHeader startBlock startOff elf.phoff).toNat 0
      (blockBehind (firstHeader startBlock startOff elf.phoff).toNat) := by
  obtain ⟨hblockNum, hoff⟩ := (startState startBlock startOff elf io elfNodes).toInt_toBlock
  change _ = (startBlock.toNat + (firstOff startOff elf.phoff).toInt.tdiv bsize) % 2 ^ 64
    at hblockNum
  change _ = (firstOff startOff elf.phoff).toInt.tmod bsize at hoff
  have hblock := hext.startBlock_lt
  have hfirst := h.first
  have hneg := h.neg
  have hdvd := h.not_dvd
  have hge := BitVec.le_toInt (firstOff startOff elf.phoff)
  rw [firstHeader] at hfirst
  have hpos : (firstHeader startBlock startOff elf.phoff).toNat =
      startBlock.toNat * bsize + (firstOff startOff elf.phoff).toInt := by
    rw [Int.toNat_of_nonneg h.first, firstHeader]
  generalize (firstHeader startBlock startOff elf.phoff).toNat = first at *
  generalize (firstOff startOff elf.phoff).toInt = x at *
  -- both the division and the remainder round towards zero
  obtain ⟨m, rfl⟩ : ∃ m, x = -m := ⟨-x, by omega⟩
  rw [Int.neg_tdiv, Int.tdiv_eq_ediv_of_nonneg (by omega)] at hblockNum
  rw [Int.neg_tmod, Int.tmod_eq_emod_of_nonneg (by omega)] at hoff
  rw [Int.dvd_neg, Int.dvd_iff_emod_eq_zero] at hdvd
  simp only [bsize, diskSize] at hblockNum hoff hblock hfirst hge hpos hdvd
  constructor
  case settled => exact hs
  case medium => exact hdisk
  case blockNum =>
    simp only [blockBehind, bsize]
    omega
  case position =>
    simp only [blockBehind, bsize]
    omega
  case neg => omega
  case ge =>
    simp only [bsize]
    omega
  case counts => exact (startState_counts ..).toBlock

theorem ReadsBefore.block_le (h : ReadsBefore startBlock startOff elf) :
    blockBehind (firstHeader startBlock startOff elf.phoff).toNat ≤ startBlock.toNat := by
  have hneg := h.neg
  have hpos : ((firstHeader startBlock startOff elf.phoff).toNat : ℤ) =
      startBlock.toNat * bsize + (firstOff startOff elf.phoff).toInt := by
    rw [Int.toNat_of_nonneg h.first, firstHeader]
  simp only [blockBehind, bsize] at *
  omega

/-- A list that the loop leaves behind has nodes when there are segments. -/
theorem head_ne_none_iff {s : ElfReaderState} {headers : List Proghdr}
    (h : s.toBlock.Counts headers) : s.elfRead.head ≠ none ↔ segmentsOf headers ≠ [] := by
  obtain ⟨nodes, hlists, hsegments⟩ := h.segments
  rw [← hsegments]
  have hlist : LinkedList.IsList (fun i => (s.elfNodes i).next) s.elfRead.head nodes :=
    hlists.isList
  cases nodes with
  | nil => exact iff_of_false (not_not.mpr hlist) (not_not.mpr rfl)
  | cons node nodes =>
    rw [hlist.1]
    exact iff_of_true (Option.some_ne_none node) (List.cons_ne_nil _ _)

/-- The loop decides what the reader does with a program whose file header is right. -/
theorem accepts_readBehindHeader_iff {wild : Wild} (hmagic : elf.magic = elfMagic) :
    Accepts (readBehindHeader wild startBlock startOff endBlock endOff elf io elfNodes) ↔
      ∃ s, readProgramHeaders wild endBlock endOff elf.phnum.toNat
        (startState startBlock startOff elf io elfNodes) = .ok (true, s) ∧
          s.elfRead.head ≠ none := by
  constructor
  · rintro ⟨elfRead, io', elfNodes', hok, hhead⟩
    obtain ⟨s, hloop, rfl, rfl⟩ := loop_of_head_ne_none hok hhead
    exact ⟨s, hloop, hhead⟩
  · rintro ⟨s, hloop, hhead⟩
    rw [readBehindHeader, if_neg (not_not.mpr hmagic), hloop]
    exact ⟨s.elfRead, s.io, s.elfNodes, rfl, hhead⟩

/-- When it reads in front of a buffer, the reader may accept what is accepted on a disk that
differs in front of the block. -/
theorem exists_accepts_iff (hs : Settled io) (hdisk : io.disk = disk)
    (hext : ExtentOnDisk startBlock startOff endBlock endOff)
    (helf : fileHeader disk (bytePos startBlock startOff) = elf)
    (hbefore : ReadsBefore startBlock startOff elf) (elfNodes : ElfNodes) :
    (∃ wild, Accepts (elfReader wild startBlock startOff endBlock endOff io elfNodes)) ↔
      ∃ disk' : ℕ → BitVec 8,
        (∀ p, blockBehind (firstHeader startBlock startOff elf.phoff).toNat * bsize ≤ p →
          disk' p = disk p) ∧
        AcceptedAt disk' (firstHeader startBlock startOff elf.phoff).toNat (bytePos endBlock endOff)
          elf.phnum.toNat := by
  have hblock := Nat.lt_of_le_of_lt hbefore.block_le hext.startBlock_lt
  have hle : blockBehind (firstHeader startBlock startOff elf.phoff).toNat * bsize ≤
      bytePos endBlock endOff := by
    have hmul := Nat.mul_le_mul_right bsize hbefore.block_le
    have hstart := hext.start_le
    rw [bytePos] at hstart
    omega
  have hfirst := firstHeader_add_lt hext elf
  constructor
  · rintro ⟨wild, haccepts⟩
    obtain ⟨io₁, -, hs₁, hdisk₁, hreader⟩ :=
      elfReader_of_header hs hdisk hext.startBlock_lt hext.off_lt hbefore.header helf endBlock
        endOff wild elfNodes
    rw [hreader, accepts_readBehindHeader_iff hbefore.magic] at haccepts
    obtain ⟨s, hloop, hhead⟩ := haccepts
    have hstart := hbefore.startState_before hext hs₁ (fun p _ => congrFun hdisk₁ p) elfNodes
    -- the bytes in front of the buffer are those of some disk
    obtain ⟨disk', hagree, -, ⟨s', hall, hok, hcounts⟩ | ⟨-, hne⟩⟩ :=
      readProgramHeaders_before hstart hblock rfl hext.end_lt hle hfirst wild
    · rw [hloop] at hok
      cases hok
      rw [Nat.zero_add] at hall hcounts
      exact ⟨disk', hagree.high, fun i hi => hall i (Nat.zero_le i) hi,
        (head_ne_none_iff hcounts).mp hhead⟩
    · exact absurd hloop (hne s)
  · rintro ⟨disk', hagree, haccepted⟩
    -- and every such disk is one that the memory can show
    refine ⟨frontOf disk', ?_⟩
    obtain ⟨io₁, -, hs₁, hdisk₁, hreader⟩ :=
      elfReader_of_header hs hdisk hext.startBlock_lt hext.off_lt hbefore.header helf endBlock
        endOff (frontOf disk') elfNodes
    rw [hreader, accepts_readBehindHeader_iff hbefore.magic]
    have hmedium : ∀ p,
        blockBehind (firstHeader startBlock startOff elf.phoff).toNat * bsize ≤ p →
          io₁.disk p = disk' p :=
      fun p hp => (congrFun hdisk₁ p).trans (hagree p hp).symm
    have hstart := hbefore.startState_before hext hs₁ hmedium elfNodes
    obtain ⟨disk'', -, hwild, hloop⟩ :=
      readProgramHeaders_before hstart hblock rfl hext.end_lt hle hfirst (frontOf disk')
    obtain rfl := hwild rfl
    rw [Nat.zero_add] at hloop
    rcases hloop with ⟨s', -, hok, hcounts⟩ | ⟨⟨j, -, hj, hnot⟩, -⟩
    · exact ⟨s', hok, (head_ne_none_iff hcounts).mpr haccepted.segments⟩
    · exact absurd (haccepted.readsOn j hj) hnot

end Reader

end R5O5
