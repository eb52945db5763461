import R5O5.Kernel.Buffer.FlatDisk
import R5O5.Kernel.ElfReader

/-!
# The ELF reader on a flat disk

What `elfReader` finds, as a function of the bytes of the disk alone, and the ranges of the disk
that it reads on the way, up to one that does not lie on the disk. The reader agrees with this scan
as long as the ranges lie on the disk, and stops at one that crosses the end of the disk; a negative
offset would leave the buffer, and its range lies far behind the disk.

## Main definitions

- `ElfScan`, `scanProgramHeaders`: the loop over the program headers;
- `elfLayout`: the entry point and the segments, with the ranges read;
- `headerFields`: the fields of a header that the reader looks at;
- `ElfReaderState.Scanned`: the reader has come as far as the scan.

## Main results

- `elfLayout_congr`: the scan depends only on the fields it looks at;
- `elfReader_layout`: the reader finds what the scan finds;
- `elfReader_crosses`: the reader stops at the end of the disk.
-/

namespace R5O5

/-- The bytes of a range of the disk. -/
def diskBytes (disk : ℕ → BitVec 8) (pos count : ℕ) : List (BitVec 8) :=
  (List.range count).map fun i => disk (pos + i)

/-- The disks hold the same bytes in a range. -/
def AgreeOn (disk disk' : ℕ → BitVec 8) (r : ℕ × ℕ) : Prop :=
  ∀ p, r.1 ≤ p → p < r.1 + r.2 → disk p = disk' p

theorem diskBytes_congr {disk disk' : ℕ → BitVec 8} {pos count : ℕ}
    (h : AgreeOn disk disk' (pos, count)) :
    diskBytes disk pos count = diskBytes disk' pos count := by
  refine List.map_congr_left fun i hi => h _ (Nat.le_add_right ..) ?_
  rw [List.mem_range] at hi
  exact Nat.add_lt_add_left hi pos

/-- A field depends on its own bytes. -/
theorem field_congr {disk disk' : ℕ → BitVec 8} {pos count offset size : ℕ}
    (h : AgreeOn disk disk' (pos + offset, size)) :
    field (diskBytes disk pos count) offset size =
      field (diskBytes disk' pos count) offset size := by
  rw [field, field]
  congr 2
  simp only [diskBytes, ← List.map_drop, ← List.map_take]
  refine List.map_congr_left fun i hi => ?_
  obtain ⟨j, hj, rfl⟩ := List.mem_iff_getElem.mp hi
  have hlt := hj
  simp only [List.length_take, List.length_drop, List.length_range, lt_min_iff] at hlt
  rw [List.getElem_take, List.getElem_drop, List.getElem_range, ← Nat.add_assoc]
  exact h _ (Nat.le_add_right ..) (Nat.add_lt_add_left hlt.1 _)

/-- The bytes of the range lie on the disk. -/
def OnDisk (r : ℕ × ℕ) : Prop := r.2 = 0 ∨ r.1 + r.2 ≤ diskSize * bsize

instance (r : ℕ × ℕ) : Decidable (OnDisk r) := inferInstanceAs (Decidable (_ ∨ _))

/-- A range that is not empty ends on the disk. -/
theorem OnDisk.le {pos count : ℕ} (h : OnDisk (pos, count)) (hpos : count ≠ 0) :
    pos + count ≤ diskSize * bsize :=
  h.resolve_left hpos

/-- The range starts on the disk and ends behind it. -/
def Crosses (r : ℕ × ℕ) : Prop := r.1 < diskSize * bsize ∧ diskSize * bsize < r.1 + r.2

instance (r : ℕ × ℕ) : Decidable (Crosses r) := inferInstanceAs (Decidable (_ ∧ _))

/-- What crosses the end of the disk is not on it. -/
theorem Crosses.not_onDisk {r : ℕ × ℕ} (h : Crosses r) : ¬OnDisk r := by
  obtain ⟨hstart, hend⟩ := h
  rintro (hzero | hle)
  · omega
  · omega

/-- The fields of a file header that the reader looks at: the magic number, and if it is right the
entry, the position of the program headers and their number. -/
def Elfhdr.fieldsAt (disk : ℕ → BitVec 8) (pos : ℕ) : List (ℕ × ℕ) :=
  if (Elfhdr.ofBytes (diskBytes disk pos sizeofElfhdr.toNat)).magic ≠ elfMagic then [(pos, 4)]
  else [(pos, 4), (pos + 24, 8), (pos + 32, 8), (pos + 56, 2)]

/-- The fields of a program header that the reader looks at: the type, and if the segment is to be
loaded its offset, address and sizes. -/
def Proghdr.fieldsAt (disk : ℕ → BitVec 8) (pos : ℕ) : List (ℕ × ℕ) :=
  if (Proghdr.ofBytes (diskBytes disk pos sizeofProghdr.toNat)).type ≠ elfProgLoad then [(pos, 4)]
  else [(pos, 4), (pos + 8, 8), (pos + 16, 8), (pos + 32, 8), (pos + 40, 8)]

/-- The fields of the header in a range. The two kinds of headers have different sizes. -/
def headerFields (disk : ℕ → BitVec 8) (r : ℕ × ℕ) : List (ℕ × ℕ) :=
  if r.2 = sizeofElfhdr.toNat then Elfhdr.fieldsAt disk r.1 else Proghdr.fieldsAt disk r.1

/-- The data of a node without its links. -/
def Elfread.unlink (node : Elfread) : Elfread := { node with prev := none, next := none }

/-- The data of a program header as a node without links. -/
def Proghdr.toElfread (ph : Proghdr) : Elfread where
  off := ph.off
  vaddr := ph.vaddr
  filesz := ph.filesz
  memsz := ph.memsz
  prev := none
  next := none

/-- How far the scan has come: the place of the next program header, the index of the next available
node, the segments found and the ranges read so far. -/
structure ElfScan where
  blockNum : BitVec 64
  off : BitVec 32
  cnt : ℕ
  segments : List Elfread
  reads : List (ℕ × ℕ)

/-- The position of the next program header on the disk. -/
def ElfScan.pos (c : ElfScan) : ℕ := c.blockNum.toNat * bsize + (c.off.signExtend 64).toNat

/-- The block in which the next program header starts, and its offset there. -/
def ElfScan.toBlock (c : ElfScan) : ElfScan :=
  { c with
    blockNum := c.blockNum + (c.off.sdiv (BitVec.ofNat 32 bsize)).signExtend 64
    off := c.off.srem (BitVec.ofNat 32 bsize) }

/-- Go on to the next program header. -/
def ElfScan.nextHeader (c : ElfScan) : ElfScan :=
  { c with off := (c.off.signExtend 64 + sizeofProghdr).setWidth 32, cnt := c.cnt + 1 }

/-- What the reader does with a program header; the result is `false` if it gives up there. -/
def ElfScan.accept (ph : Proghdr) (c : ElfScan) : Bool × ElfScan :=
  if ph.type ≠ elfProgLoad then (true, c)
  else if ph.Rejected then (false, c)
  else if c.cnt < elfSize then
    (true,
      { c with
        segments := c.segments ++ [ph.toElfread]
        cnt := (if c.segments = [] then 0 else c.cnt) + 1 })
  else (false, c)

/-- Record the range of the next program header. -/
def ElfScan.record (c : ElfScan) : ElfScan :=
  { c with reads := c.reads ++ [(c.pos, sizeofProghdr.toNat)] }

section Scan

variable (disk : ℕ → BitVec 8) (endBlock endOff : BitVec 64)

/-- One program header. -/
def scanProgramHeader (c : ElfScan) : Bool × ElfScan :=
  if c.blockNum * BitVec.ofNat 64 bsize + c.off.signExtend 64 >
      endBlock * BitVec.ofNat 64 bsize + endOff then
    (false, c)
  else if OnDisk (c.pos, sizeofProghdr.toNat) then
    c.record.accept (Proghdr.ofBytes (diskBytes disk c.pos sizeofProghdr.toNat))
  else (false, c.record)

/-- The program headers, of which `left` are left. -/
def scanProgramHeaders : ℕ → ElfScan → Bool × ElfScan
  | 0, c => (true, c)
  | left + 1, c =>
    let r := scanProgramHeader disk endBlock endOff c.toBlock
    if r.1 then scanProgramHeaders left r.2.nextHeader else (false, r.2)

end Scan

section Lemmas

variable {disk disk' : ℕ → BitVec 8} {endBlock endOff : BitVec 64} {c : ElfScan} {left : ℕ}
  {s : ElfReaderState} {nodes : List (Fin elfSize)}

@[simp]
theorem ElfScan.accept_reads (ph : Proghdr) (c : ElfScan) : (c.accept ph).2.reads = c.reads := by
  rw [ElfScan.accept]
  split
  case isTrue => rfl
  split
  case isTrue => rfl
  split <;> rfl

theorem scanProgramHeader_reads (disk : ℕ → BitVec 8) (endBlock endOff : BitVec 64)
    (c : ElfScan) : c.reads ⊆ (scanProgramHeader disk endBlock endOff c).2.reads := by
  rw [scanProgramHeader]
  split
  case isTrue => exact List.Subset.refl _
  split
  case isTrue =>
    rw [ElfScan.accept_reads]
    exact List.subset_append_left ..
  case isFalse => exact List.subset_append_left ..

theorem scanProgramHeaders_reads :
    c.reads ⊆ (scanProgramHeaders disk endBlock endOff left c).2.reads := by
  induction left generalizing c with
  | zero => exact List.Subset.refl _
  | succ left ih =>
    have hround := scanProgramHeader_reads disk endBlock endOff c.toBlock
    rw [scanProgramHeaders]
    split
    case isTrue => exact List.Subset.trans hround (ih (c := ElfScan.nextHeader _))
    case isFalse => exact hround

/-- What the first round reads is among the ranges. -/
theorem scanProgramHeaders_round (disk : ℕ → BitVec 8) (endBlock endOff : BitVec 64) (left : ℕ)
    (c : ElfScan) : (scanProgramHeader disk endBlock endOff c.toBlock).2.reads ⊆
      (scanProgramHeaders disk endBlock endOff (left + 1) c).2.reads := by
  rw [scanProgramHeaders]
  split
  case isTrue => exact scanProgramHeaders_reads (c := ElfScan.nextHeader _)
  case isFalse => exact List.Subset.refl _

/-- A file header with the right magic number depends on the fields that are looked at. -/
theorem Elfhdr.ofBytes_congr {pos : ℕ} (h : ∀ f ∈ Elfhdr.fieldsAt disk pos, AgreeOn disk disk' f) :
    let elf := Elfhdr.ofBytes (diskBytes disk pos sizeofElfhdr.toNat)
    let elf' := Elfhdr.ofBytes (diskBytes disk' pos sizeofElfhdr.toNat)
    elf'.magic = elf.magic ∧ (elf.magic = elfMagic → elf' = elf) := by
  intro elf elf'
  rw [Elfhdr.fieldsAt] at h
  have hmagic : elf'.magic = elf.magic := by
    refine (field_congr (h (pos, 4) ?_)).symm
    split <;> exact List.mem_cons_self
  refine ⟨hmagic, fun helf => ?_⟩
  rw [if_neg (not_not.mpr helf)] at h
  simp only [List.forall_mem_cons] at h
  obtain ⟨-, hentry, hphoff, hphnum, -⟩ := h
  simp only [elf, elf', Elfhdr.ofBytes, Elfhdr.mk.injEq]
  exact ⟨hmagic, (field_congr hentry).symm, (field_congr hphoff).symm, (field_congr hphnum).symm⟩

/-- What becomes of a program header depends on the fields that are looked at. -/
theorem ElfScan.accept_congr {pos : ℕ} (h : ∀ f ∈ Proghdr.fieldsAt disk pos, AgreeOn disk disk' f)
    (c : ElfScan) : c.accept (Proghdr.ofBytes (diskBytes disk' pos sizeofProghdr.toNat)) =
      c.accept (Proghdr.ofBytes (diskBytes disk pos sizeofProghdr.toNat)) := by
  rw [Proghdr.fieldsAt] at h
  have htype : (Proghdr.ofBytes (diskBytes disk' pos sizeofProghdr.toNat)).type =
      (Proghdr.ofBytes (diskBytes disk pos sizeofProghdr.toNat)).type := by
    refine (field_congr (h (pos, 4) ?_)).symm
    split <;> exact List.mem_cons_self
  by_cases hload : (Proghdr.ofBytes (diskBytes disk pos sizeofProghdr.toNat)).type ≠ elfProgLoad
  · rw [ElfScan.accept, ElfScan.accept, if_pos (htype ▸ hload), if_pos hload]
  · rw [if_neg hload] at h
    simp only [List.forall_mem_cons] at h
    obtain ⟨-, hoff, hvaddr, hfilesz, hmemsz, -⟩ := h
    congr 1
    rw [Proghdr.mk.injEq]
    exact ⟨htype, (field_congr hoff).symm, (field_congr hvaddr).symm, (field_congr hfilesz).symm,
      (field_congr hmemsz).symm⟩

/-- The scan depends on the disk only through the fields that it looks at. -/
theorem scanProgramHeaders_congr
    (h : ∀ r ∈ (scanProgramHeaders disk endBlock endOff left c).2.reads, OnDisk r →
      ∀ f ∈ headerFields disk r, AgreeOn disk disk' f) :
    scanProgramHeaders disk endBlock endOff left c =
      scanProgramHeaders disk' endBlock endOff left c := by
  induction left generalizing c with
  | zero => rfl
  | succ left ih =>
    have hround : scanProgramHeader disk endBlock endOff c.toBlock =
        scanProgramHeader disk' endBlock endOff c.toBlock := by
      have hsub := scanProgramHeaders_round disk endBlock endOff left c
      rw [scanProgramHeader] at hsub ⊢
      rw [scanProgramHeader]
      split
      case isTrue => rfl
      case isFalse hend =>
        split
        case isTrue honDisk =>
          rw [if_neg hend, if_pos honDisk, ElfScan.accept_reads] at hsub
          -- the header is among the ranges
          have hmem : (c.toBlock.pos, sizeofProghdr.toNat) ∈ c.toBlock.record.reads :=
            List.mem_append_right _ (List.mem_singleton_self _)
          exact (ElfScan.accept_congr (h _ (hsub hmem) honDisk) _).symm
        case isFalse => rfl
    rw [scanProgramHeaders] at h ⊢
    rw [scanProgramHeaders, ← hround]
    split
    case isTrue hgo =>
      rw [if_pos hgo] at h
      exact ih h
    case isFalse => rfl

/-- What there is in a program: its entry point and segments, if there are segments and the reader
does not give up, and the ranges of the disk that are read to find them, up to the first that does
not lie on the disk. -/
structure ElfLayout where
  reads : List (ℕ × ℕ)
  found : Option (BitVec 64 × List Elfread)
  deriving DecidableEq

/-- The layout of the program at `startBlock` and `startOff`. -/
def elfLayout (disk : ℕ → BitVec 8) (startBlock startOff endBlock endOff : BitVec 64) : ElfLayout :=
  let off : BitVec 64 := (startOff.setWidth 32).signExtend 64
  let start := startBlock.toNat * bsize + off.toNat
  let elf := Elfhdr.ofBytes (diskBytes disk start sizeofElfhdr.toNat)
  let scan := scanProgramHeaders disk endBlock endOff elf.phnum.toNat
    { blockNum := startBlock
      off := (off + elf.phoff).setWidth 32
      cnt := 0
      segments := []
      reads := [(start, sizeofElfhdr.toNat)] }
  if startBlock ≥ BitVec.ofNat 64 diskSize then ⟨[], none⟩
  else if ¬OnDisk (start, sizeofElfhdr.toNat) then ⟨[(start, sizeofElfhdr.toNat)], none⟩
  else if elf.magic ≠ elfMagic then ⟨[(start, sizeofElfhdr.toNat)], none⟩
  else
    { reads := scan.2.reads
      found := if scan.1 ∧ scan.2.segments ≠ [] then some (elf.entry, scan.2.segments) else none }

/-- The layout depends on the disk only through the fields of the headers that are looked at. -/
theorem elfLayout_congr {startBlock startOff : BitVec 64}
    (h : ∀ r ∈ (elfLayout disk startBlock startOff endBlock endOff).reads, OnDisk r →
      ∀ f ∈ headerFields disk r, AgreeOn disk disk' f) :
    elfLayout disk startBlock startOff endBlock endOff =
      elfLayout disk' startBlock startOff endBlock endOff := by
  unfold elfLayout at h ⊢
  by_cases hblock : startBlock ≥ BitVec.ofNat 64 diskSize
  · rw [if_pos hblock, if_pos hblock]
  rw [if_neg hblock] at h
  rw [if_neg hblock, if_neg hblock]
  generalize (startOff.setWidth 32).signExtend 64 = off at h ⊢
  generalize startBlock.toNat * bsize + off.toNat = start at h ⊢
  by_cases honDisk : OnDisk (start, sizeofElfhdr.toNat)
  case neg => rw [if_pos honDisk, if_pos honDisk]
  rw [if_neg (not_not.mpr honDisk)] at h
  rw [if_neg (not_not.mpr honDisk), if_neg (not_not.mpr honDisk)]
  -- the file header is read first
  have hfields : ∀ f ∈ Elfhdr.fieldsAt disk start, AgreeOn disk disk' f := by
    refine h (start, sizeofElfhdr.toNat) ?_ honDisk
    split
    case isTrue => exact List.mem_singleton_self _
    case isFalse => exact scanProgramHeaders_reads (List.mem_singleton_self _)
  obtain ⟨hmagic', helf⟩ := Elfhdr.ofBytes_congr hfields
  by_cases hmagic : (Elfhdr.ofBytes (diskBytes disk start sizeofElfhdr.toNat)).magic ≠ elfMagic
  · rw [if_pos hmagic, if_pos (hmagic' ▸ hmagic)]
  · rw [helf (not_not.mp hmagic)]
    rw [if_neg hmagic] at h
    rw [if_neg hmagic, if_neg hmagic, scanProgramHeaders_congr h]

/-- An offset in a block is below its size, or negative. -/
theorem ElfScan.off_toBlock (c : ElfScan) : (c.toBlock.off.signExtend 64).toNat < bsize ∨
    2 ^ 63 ≤ (c.toBlock.off.signExtend 64).toNat := by
  have hlt : c.toBlock.off.toInt < 1024 := by
    rw [ElfScan.toBlock]
    dsimp only
    rw [BitVec.toInt_srem]
    exact Int.tmod_lt_of_pos _ (by decide)
  have hext : (c.toBlock.off.signExtend 64).toInt = c.toBlock.off.toInt :=
    BitVec.toInt_signExtend_of_le (by decide)
  rw [← hext, BitVec.toInt_eq_toNat_cond] at hlt
  simp only [bsize]
  split at hlt <;> omega

/-! ### The list of nodes -/

/-- The data of the new node is that of the program header, and the other nodes keep theirs. -/
theorem ElfReaderState.Lists.unlink_allocateELFReader (h : s.Lists nodes) (hcnt : s.cnt < elfSize)
    (ph : Proghdr) :
    ∃ n, (R5O5.allocateELFReader ⟨s.cnt, hcnt⟩ ph s).Lists (nodes ++ [n]) ∧
      (nodes ++ [n]).map
          (fun m => ((R5O5.allocateELFReader ⟨s.cnt, hcnt⟩ ph s).elfNodes m).unlink) =
        nodes.map (fun m => (s.elfNodes m).unlink) ++ [ph.toElfread] ∧
      (R5O5.allocateELFReader ⟨s.cnt, hcnt⟩ ph s).cnt = (if nodes = [] then 0 else s.cnt) + 1 := by
  obtain ⟨n, hlists⟩ := h.allocateELFReader hcnt ph
  -- the new node is the tail of the list
  have htail : (R5O5.allocateELFReader ⟨s.cnt, hcnt⟩ ph s).elfRead.tail = some n := by
    rw [hlists.tail, List.getLast?_concat]
  refine ⟨n, hlists, ?_⟩
  rcases h.head_tail with ⟨rfl, hhead, -⟩ | ⟨init, last, head, rfl, hhead, hlast⟩
  · unfold R5O5.allocateELFReader at htail ⊢
    rw [hhead] at htail ⊢
    obtain rfl : ⟨0, by decide⟩ = n := Option.some.inj htail
    refine ⟨?_, rfl⟩
    simp [ElfNodes.modify, Elfread.unlink, Proghdr.toElfread]
  · unfold R5O5.allocateELFReader at htail ⊢
    rw [hhead, hlast] at htail ⊢
    obtain rfl : ⟨s.cnt, hcnt⟩ = n := Option.some.inj htail
    have hold : ∀ m ∈ init ++ [last], m ≠ ⟨s.cnt, hcnt⟩ := by
      rintro m hm rfl
      exact Nat.lt_irrefl _ (h.lt_cnt _ hm)
    refine ⟨?_, by rw [if_neg (by simp)]⟩
    rw [List.map_append, List.map_singleton]
    congr 1
    · refine List.map_congr_left fun m hm => ?_
      dsimp only
      rw [ElfNodes.modify_of_ne _ _ (hold m hm), ElfNodes.modify_of_ne _ _ (hold m hm)]
      rcases eq_or_ne m last with rfl | hne
      · rw [ElfNodes.modify_same]
        rfl
      · rw [ElfNodes.modify_of_ne _ _ hne]
    · dsimp only
      rw [ElfNodes.modify_same]
      rfl

/-! ### The reader follows the scan -/

/-- The reader has come as far as the scan: its list carries the segments found. -/
structure ElfReaderState.Scanned (s : ElfReaderState) (c : ElfScan) : Prop where
  blockNum : s.blockNum = c.blockNum
  off : s.off = c.off
  cnt : s.cnt = c.cnt
  segments : ∃ nodes, s.Lists nodes ∧ nodes.map (fun n => (s.elfNodes n).unlink) = c.segments

/-- Reader and scan move on to the next block together. -/
theorem ElfReaderState.Scanned.toBlock (h : s.Scanned c) : s.toBlock.Scanned c.toBlock where
  blockNum := by
    rw [ElfReaderState.toBlock, ElfScan.toBlock, h.blockNum, h.off]
  off := by
    rw [ElfReaderState.toBlock, ElfScan.toBlock, h.off]
  cnt := h.cnt
  segments := by
    obtain ⟨nodes, hlists, hsegments⟩ := h.segments
    exact ⟨nodes, hlists.toBlock, hsegments⟩

/-- Reader and scan move on to the next header together. -/
theorem ElfReaderState.Scanned.nextHeader (h : s.Scanned c) :
    s.nextHeader.Scanned c.nextHeader where
  blockNum := h.blockNum
  off := by
    rw [ElfReaderState.nextHeader, ElfScan.nextHeader, h.off]
  cnt := congrArg (· + 1) h.cnt
  segments := by
    obtain ⟨nodes, hlists, hsegments⟩ := h.segments
    exact ⟨nodes, hlists.nextHeader, hsegments⟩

/-- The state of the buffers and the record of the ranges do not matter. -/
theorem ElfReaderState.Scanned.record (h : s.Scanned c) (io : CachedDisk) :
    ElfReaderState.Scanned { s with io } c.record := by
  obtain ⟨nodes, hlists, hsegments⟩ := h.segments
  exact ⟨h.blockNum, h.off, h.cnt, nodes,
    hlists.with_io _, hsegments⟩

/-- A round of the reader is a round of the scan. -/
theorem readProgramHeader_scan (wild : Wild) (hs : Settled s.io) (hdisk : s.io.disk = disk)
    (h : s.Scanned c)
    (hoff : (c.off.signExtend 64).toNat < bsize ∨ 2 ^ 63 ≤ (c.off.signExtend 64).toNat)
    (hreads : ∀ r ∈ (scanProgramHeader disk endBlock endOff c).2.reads, OnDisk r) :
    ∃ s', readProgramHeader wild endBlock endOff s =
        .ok ((scanProgramHeader disk endBlock endOff c).1, s') ∧
      s'.Scanned (scanProgramHeader disk endBlock endOff c).2 ∧
      Settled s'.io ∧ s'.io.disk = disk ∧ s'.elfRead.entry = s.elfRead.entry := by
  obtain ⟨blockNum, off, cnt, segments, reads⟩ := c
  obtain ⟨rfl, rfl, rfl, nodes, hlists, rfl⟩ := id h
  rw [scanProgramHeader] at hreads ⊢
  by_cases hend : s.blockNum * BitVec.ofNat 64 bsize + s.off.signExtend 64 >
      endBlock * BitVec.ofNat 64 bsize + endOff
  · rw [readProgramHeader, if_pos hend, if_pos hend]
    exact ⟨s, rfl, h, hs, hdisk, rfl⟩
  rw [if_neg hend] at hreads
  rw [if_neg hend]
  -- the header lies on the disk, so the reader finds the bytes of the disk there
  have hread : OnDisk (ElfScan.pos ⟨s.blockNum, s.off, s.cnt,
      nodes.map fun n => (s.elfNodes n).unlink, reads⟩, sizeofProghdr.toNat) := by
    by_contra hnot
    rw [if_neg hnot] at hreads
    exact hnot (hreads _ (List.mem_append_right _ (List.mem_singleton_self _)))
  rw [if_pos hread]
  rw [ElfScan.pos] at hread
  replace hread := hread.le (by decide)
  have hsize : sizeofProghdr.toNat = 56 := by decide
  have hblock : s.blockNum.toNat < diskSize := by
    simp only [hsize, diskSize, bsize] at *
    omega
  have hoffset : (s.off.signExtend 64).toNat ≤ bsize := by
    simp only [diskSize, bsize] at *
    omega
  rcases readBytes_cases hs hblock hoffset wild sizeofProghdr with
    ⟨io, hok, -, hio, hdisk'⟩ | ⟨-, hlt⟩
  case inr => exact absurd hread (Nat.not_le_of_lt hlt)
  rw [hdisk] at hok hdisk'
  rw [readProgramHeader_of_read hend hok]
  simp only [ElfScan.pos, diskBytes]
  generalize Proghdr.ofBytes ((List.range sizeofProghdr.toNat).map fun i =>
    disk (s.blockNum.toNat * bsize + (s.off.signExtend 64).toNat + i)) = ph
  have hkeep := h.record io
  rw [ElfScan.accept]
  by_cases htype : ph.type ≠ elfProgLoad
  · rw [if_pos htype, if_pos htype]
    exact ⟨_, rfl, hkeep, hio, hdisk', rfl⟩
  rw [if_neg htype, if_neg htype]
  by_cases hrejected : ph.Rejected
  · rw [if_pos hrejected, if_pos hrejected]
    exact ⟨_, rfl, hkeep, hio, hdisk', rfl⟩
  rw [if_neg hrejected, if_neg hrejected]
  by_cases hcnt : s.cnt < elfSize
  · have hcnt' : ElfScan.cnt (ElfScan.record ⟨s.blockNum, s.off, s.cnt,
        nodes.map fun n => (s.elfNodes n).unlink, reads⟩) < elfSize := hcnt
    rw [if_pos hcnt', dif_pos hcnt]
    obtain ⟨n, hlists', hnodes, hcount⟩ := hlists.unlink_allocateELFReader hcnt ph
    obtain ⟨hblockNum, hoff', hentry⟩ := allocateELFReader_place ⟨s.cnt, hcnt⟩ ph s
    refine ⟨_, rfl, ?_, hio, hdisk', hentry⟩
    constructor
    case blockNum => exact hblockNum
    case off => exact hoff'
    case cnt =>
      dsimp only
      rw [hcount]
      simp only [ElfScan.record, List.map_eq_nil_iff]
    case segments =>
      exact ⟨nodes ++ [n], hlists'.with_io _, hnodes⟩
  · have hcnt' : ¬ElfScan.cnt (ElfScan.record ⟨s.blockNum, s.off, s.cnt,
        nodes.map fun n => (s.elfNodes n).unlink, reads⟩) < elfSize := hcnt
    rw [if_neg hcnt', dif_neg hcnt]
    exact ⟨_, rfl, hkeep, hio, hdisk', rfl⟩

/-- A program header that crosses the end of the disk is not read. -/
theorem readProgramHeader_crosses (wild : Wild) (hs : Settled s.io) (h : s.Scanned c)
    (hoff : (c.off.signExtend 64).toNat < bsize ∨ 2 ^ 63 ≤ (c.off.signExtend 64).toNat)
    (hend : ¬c.blockNum * BitVec.ofNat 64 bsize + c.off.signExtend 64 >
      endBlock * BitVec.ofNat 64 bsize + endOff)
    (hcrosses : Crosses (c.pos, sizeofProghdr.toNat)) :
    ∃ e, readProgramHeader wild endBlock endOff s = .error e := by
  obtain ⟨hstart, hbehind⟩ := hcrosses
  rw [ElfScan.pos, ← h.blockNum, ← h.off] at hstart hbehind
  rw [← h.blockNum, ← h.off] at hend
  rw [← h.off] at hoff
  have hblock : s.blockNum.toNat < diskSize := by
    simp only [diskSize, bsize] at *
    omega
  have hoffset : (s.off.signExtend 64).toNat ≤ bsize := by
    simp only [diskSize, bsize] at *
    omega
  rcases readBytes_cases hs hblock hoffset wild sizeofProghdr with
    ⟨io, -, hread, -⟩ | ⟨herr, -⟩
  · exact absurd hread (Nat.not_le_of_lt hbehind)
  · rw [readProgramHeader, if_neg hend, herr]
    exact ⟨_, rfl⟩

/-- The loop of the reader follows the scan. -/
theorem readProgramHeaders_scan (wild : Wild) (hs : Settled s.io) (hdisk : s.io.disk = disk)
    (h : s.Scanned c)
    (hreads : ∀ r ∈ (scanProgramHeaders disk endBlock endOff left c).2.reads, OnDisk r) :
    ∃ s', readProgramHeaders wild endBlock endOff left s =
        .ok ((scanProgramHeaders disk endBlock endOff left c).1, s') ∧
      s'.Scanned (scanProgramHeaders disk endBlock endOff left c).2 ∧
      Settled s'.io ∧ s'.io.disk = disk ∧ s'.elfRead.entry = s.elfRead.entry := by
  induction left generalizing s c with
  | zero => exact ⟨s, rfl, h, hs, hdisk, rfl⟩
  | succ left ih =>
    have hsub := scanProgramHeaders_round disk endBlock endOff left c
    obtain ⟨s₁, hround, hscan₁, hs₁, hdisk₁, hentry₁⟩ := readProgramHeader_scan wild
      (s := s.toBlock) hs hdisk h.toBlock c.off_toBlock fun r hr => hreads r (hsub hr)
    rw [scanProgramHeaders] at hreads ⊢
    rw [readProgramHeaders, hround, Except.ok_bind]
    -- the loop goes on when the round says so
    cases hgo : (scanProgramHeader disk endBlock endOff c.toBlock).1 with
    | false => exact ⟨s₁, rfl, hscan₁, hs₁, hdisk₁, hentry₁⟩
    | true =>
      rw [hgo, if_pos rfl] at hreads
      obtain ⟨s', hloop, hscan', hs', hdisk', hentry'⟩ :=
        ih (s := s₁.nextHeader) hs₁ hdisk₁ hscan₁.nextHeader hreads
      exact ⟨s', hloop, hscan', hs', hdisk', hentry'.trans hentry₁⟩

/-- The loop stops at the end of the disk. -/
theorem readProgramHeaders_crosses (wild : Wild) (hs : Settled s.io) (hdisk : s.io.disk = disk)
    (h : s.Scanned c) (hold : ∀ r ∈ c.reads, OnDisk r)
    (hreads : ∀ r ∈ (scanProgramHeaders disk endBlock endOff left c).2.reads,
      OnDisk r ∨ Crosses r)
    (hsome : ∃ r ∈ (scanProgramHeaders disk endBlock endOff left c).2.reads, ¬OnDisk r) :
    ∃ e, readProgramHeaders wild endBlock endOff left s = .error e := by
  induction left generalizing s c with
  | zero =>
    obtain ⟨r, hr, hnot⟩ := hsome
    exact absurd (hold r hr) hnot
  | succ left ih =>
    have hsub := scanProgramHeaders_round disk endBlock endOff left c
    rw [readProgramHeaders]
    by_cases hround : ∀ r ∈ (scanProgramHeader disk endBlock endOff c.toBlock).2.reads, OnDisk r
    · obtain ⟨s₁, hok, hscan₁, hs₁, hdisk₁, -⟩ := readProgramHeader_scan wild
        (s := s.toBlock) hs hdisk h.toBlock c.off_toBlock hround
      rw [hok, Except.ok_bind]
      rw [scanProgramHeaders] at hreads hsome
      cases hgo : (scanProgramHeader disk endBlock endOff c.toBlock).1 with
      | false =>
        rw [hgo] at hsome
        obtain ⟨r, hr, hnot⟩ := hsome
        exact absurd (hround r hr) hnot
      | true =>
        rw [hgo, if_pos rfl] at hreads hsome
        exact ih (s := s₁.nextHeader) hs₁ hdisk₁ hscan₁.nextHeader hround hreads hsome
    -- the range of this round is the one that does not lie on the disk
    · have hcrosses : ¬c.toBlock.blockNum * BitVec.ofNat 64 bsize + c.toBlock.off.signExtend 64 >
            endBlock * BitVec.ofNat 64 bsize + endOff ∧
          Crosses (c.toBlock.pos, sizeofProghdr.toNat) := by
        rw [scanProgramHeader] at hround hsub
        split at hround
        case isTrue => exact absurd hold hround
        case isFalse hend =>
          rw [if_neg hend] at hsub
          split at hround
          case isTrue honDisk =>
            rw [ElfScan.accept_reads] at hround
            refine absurd (fun r hr => ?_) hround
            rcases List.mem_append.mp hr with hr | hr
            · exact hold r hr
            · rwa [List.mem_singleton.mp hr]
          case isFalse hnot =>
            rw [if_neg hnot] at hsub
            have hmem := hsub (List.mem_append_right _ (List.mem_singleton_self _))
            exact ⟨hend, (hreads _ hmem).resolve_left hnot⟩
      obtain ⟨e, herr⟩ := readProgramHeader_crosses wild (s := s.toBlock) hs h.toBlock c.off_toBlock
        hcrosses.1 hcrosses.2
      rw [herr]
      exact ⟨e, rfl⟩

/-- The list carries what was found; its head is `NULL` if nothing was. -/
def ElfreadList.Carries (elfRead : ElfreadList) (elfNodes : ElfNodes) :
    Option (BitVec 64 × List Elfread) → Prop
  | none => elfRead.head = none
  | some (entry, segments) =>
    elfRead.entry = entry ∧ elfRead.head ≠ none ∧
      ∃ nodes, LinkedList.IsList (fun i => (elfNodes i).next) elfRead.head nodes ∧
        nodes.length ≤ elfSize ∧ nodes.map (fun n => (elfNodes n).unlink) = segments

/-- The reader finds what the scan finds, and leaves the disk alone. -/
theorem elfReader_layout (wild : Wild) {io : CachedDisk} (hs : Settled io) (hdisk : io.disk = disk)
    (elfNodes : ElfNodes) {startBlock startOff : BitVec 64}
    (hoffset : ((startOff.setWidth 32).signExtend 64).toNat ≤ bsize)
    (hreads : ∀ r ∈ (elfLayout disk startBlock startOff endBlock endOff).reads, OnDisk r) :
    ∃ elfRead io' elfNodes',
      elfReader wild startBlock startOff endBlock endOff io elfNodes =
        .ok (elfRead, io', elfNodes') ∧
      Settled io' ∧ io'.disk = disk ∧
      elfRead.Carries elfNodes' (elfLayout disk startBlock startOff endBlock endOff).found := by
  unfold elfLayout at hreads ⊢
  rw [elfReader]
  dsimp only
  by_cases hblock : startBlock ≥ BitVec.ofNat 64 diskSize
  · rw [if_pos hblock, if_pos hblock]
    exact ⟨_, io, elfNodes, rfl, hs, hdisk, rfl⟩
  rw [if_neg hblock] at hreads
  rw [if_neg hblock, if_neg hblock]
  generalize (startOff.setWidth 32).signExtend 64 = off at hoffset hreads ⊢
  have hlt : startBlock.toNat < diskSize :=
    Nat.lt_of_not_le (mt ge_diskSize_iff.mpr hblock)
  -- the file header
  have hheader : OnDisk (startBlock.toNat * bsize + off.toNat, sizeofElfhdr.toNat) := by
    by_contra hnot
    rw [if_pos hnot] at hreads
    exact hnot (hreads _ (List.mem_singleton_self _))
  rw [if_neg (not_not.mpr hheader)] at hreads ⊢
  rcases readBytes_cases hs hlt hoffset wild sizeofElfhdr with
    ⟨io₁, hread, -, hio₁, hdisk₁⟩ | ⟨-, hbehind⟩
  case inr => exact absurd (hheader.le (by decide)) (Nat.not_le_of_lt hbehind)
  rw [hdisk] at hread hdisk₁
  change readBytes wild startBlock off sizeofElfhdr io = .ok (io₁,
    diskBytes disk (startBlock.toNat * bsize + off.toNat) sizeofElfhdr.toNat) at hread
  rw [hread, Except.ok_bind]
  generalize startBlock.toNat * bsize + off.toNat = start at hreads ⊢
  dsimp only at hreads ⊢
  generalize Elfhdr.ofBytes (diskBytes disk start sizeofElfhdr.toNat) = elf at hreads ⊢
  by_cases hmagic : elf.magic ≠ elfMagic
  · rw [if_pos hmagic, if_pos hmagic]
    exact ⟨_, io₁, elfNodes, rfl, hio₁, hdisk₁, rfl⟩
  rw [if_neg hmagic] at hreads
  rw [if_neg hmagic, if_neg hmagic]
  -- the program headers
  have hscanned : ElfReaderState.Scanned
      { io := io₁, elfNodes, elfRead := ⟨elf.entry, none, none⟩, cnt := 0, blockNum := startBlock
        off := (off + elf.phoff).setWidth 32 }
      { blockNum := startBlock, off := (off + elf.phoff).setWidth 32, cnt := 0, segments := []
        reads := [(start, sizeofElfhdr.toNat)] } :=
    ⟨rfl, rfl, rfl, [], ElfReaderState.lists_nil rfl rfl, rfl⟩
  obtain ⟨s, hloop, hscan, hio, hdisk', hentry⟩ :=
    readProgramHeaders_scan wild hio₁ hdisk₁ hscanned hreads
  rw [hloop, Except.ok_bind]
  obtain ⟨nodes, hlists, hsegments⟩ := hscan.segments
  generalize scanProgramHeaders disk endBlock endOff elf.phnum.toNat _ = scan at hsegments ⊢
  cases hflag : scan.1 with
  | false =>
    rw [if_neg (by simp)]
    exact ⟨_, s.io, s.elfNodes, rfl, hio, hdisk', rfl⟩
  | true =>
    refine ⟨s.elfRead, s.io, s.elfNodes, rfl, hio, hdisk', ?_⟩
    cases nodes with
    | nil =>
      rw [if_neg (by simp [← hsegments])]
      exact hlists.isList
    | cons n nodes =>
      rw [if_pos (by simp [← hsegments])]
      have hlength : (n :: nodes).length ≤ elfSize := by
        simpa using List.Nodup.length_le_card hlists.nodup
      refine ⟨hentry, ?_, n :: nodes, hlists.isList, hlength, hsegments⟩
      rw [hlists.isList.1]
      exact Option.some_ne_none n

/-- The reader stops when one of its ranges crosses the end of the disk. -/
theorem elfReader_crosses (wild : Wild) {io : CachedDisk} (hs : Settled io) (hdisk : io.disk = disk)
    (elfNodes : ElfNodes) {startBlock startOff : BitVec 64}
    (hoffset : ((startOff.setWidth 32).signExtend 64).toNat ≤ bsize)
    (hreads : ∀ r ∈ (elfLayout disk startBlock startOff endBlock endOff).reads,
      OnDisk r ∨ Crosses r)
    (hsome : ∃ r ∈ (elfLayout disk startBlock startOff endBlock endOff).reads, ¬OnDisk r) :
    ∃ e, elfReader wild startBlock startOff endBlock endOff io elfNodes = .error e := by
  unfold elfLayout at hreads hsome
  rw [elfReader]
  dsimp only
  by_cases hblock : startBlock ≥ BitVec.ofNat 64 diskSize
  · rw [if_pos hblock] at hsome
    obtain ⟨r, hr, -⟩ := hsome
    cases hr
  rw [if_neg hblock] at hreads hsome
  rw [if_neg hblock]
  generalize (startOff.setWidth 32).signExtend 64 = off at hoffset hreads hsome ⊢
  have hlt : startBlock.toNat < diskSize :=
    Nat.lt_of_not_le (mt ge_diskSize_iff.mpr hblock)
  rcases readBytes_cases hs hlt hoffset wild sizeofElfhdr with
    ⟨io₁, hread, hle, hio₁, hdisk₁⟩ | ⟨herr, -⟩
  case inr =>
    rw [herr]
    exact ⟨_, rfl⟩
  have hheader : OnDisk (startBlock.toNat * bsize + off.toNat, sizeofElfhdr.toNat) := Or.inr hle
  rw [if_neg (not_not.mpr hheader)] at hreads hsome
  rw [hdisk] at hread hdisk₁
  change readBytes wild startBlock off sizeofElfhdr io = .ok (io₁,
    diskBytes disk (startBlock.toNat * bsize + off.toNat) sizeofElfhdr.toNat) at hread
  rw [hread, Except.ok_bind]
  generalize startBlock.toNat * bsize + off.toNat = start at hreads hsome hheader ⊢
  dsimp only at hreads hsome ⊢
  generalize Elfhdr.ofBytes (diskBytes disk start sizeofElfhdr.toNat) = elf at hreads hsome ⊢
  have hold : ∀ r ∈ [(start, sizeofElfhdr.toNat)], OnDisk r := by
    intro r hr
    rwa [List.mem_singleton.mp hr]
  by_cases hmagic : elf.magic ≠ elfMagic
  · rw [if_pos hmagic] at hsome
    obtain ⟨r, hr, hnot⟩ := hsome
    exact absurd (hold r hr) hnot
  rw [if_neg hmagic] at hreads hsome
  rw [if_neg hmagic]
  -- the program headers
  have hscanned : ElfReaderState.Scanned
      { io := io₁, elfNodes, elfRead := ⟨elf.entry, none, none⟩, cnt := 0, blockNum := startBlock
        off := (off + elf.phoff).setWidth 32 }
      { blockNum := startBlock, off := (off + elf.phoff).setWidth 32, cnt := 0, segments := []
        reads := [(start, sizeofElfhdr.toNat)] } :=
    ⟨rfl, rfl, rfl, [], ElfReaderState.lists_nil rfl rfl, rfl⟩
  obtain ⟨e, hloop⟩ := readProgramHeaders_crosses wild hio₁ hdisk₁ hscanned hold hreads hsome
  rw [hloop]
  exact ⟨e, rfl⟩

end Lemmas

end R5O5
