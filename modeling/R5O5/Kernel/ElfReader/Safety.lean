import R5O5.Kernel.ElfReader.Outcome

/-!
# The ELF reader on malformed programs

The reader does not check that a header ends on the disk, nor that the offset of the first program
header is not negative; everything else in a malformed program makes it return an empty list.

## Main definitions

- `ReadCall`, `elfReaderCalls`: the calls of `readBytes` that the reader issues;
- `ReadCall.indices`: the places in the data of buffers that a call looks at;
- `StaysOnDisk`: the headers that the reader comes to lie on the disk.

## Main results

- `elfReader_safe_iff`: when the reader is safe.
-/

namespace R5O5

/-- A call of `readBytes`, and the buffers and the disk it finds. -/
structure ReadCall where
  diskBlockNum : BitVec 64
  offset : BitVec 64
  nBytes : BitVec 64
  io : CachedDisk

/-- The loop of `readBytes` with the indices into `b->data` in place of the bytes found there. -/
def ReadCall.indices (call : ReadCall) : Except Stop (CachedDisk × List (BitVec 64)) :=
  copyBytes false "readBytes: block exceeds disk size"
    (fun _ _ pos (s, indices) => .ok (s, indices ++ [pos]))
    call.diskBlockNum call.offset call.nBytes (call.io, [])

/-- The call returns, and it looks at no place outside the data of a buffer. -/
def ReadCall.Safe (call : ReadCall) : Prop :=
  ∃ s indices, call.indices = .ok (s, indices) ∧ ∀ index ∈ indices, index.toNat < bsize

section Calls

variable (wild : Wild) (endBlock endOff : BitVec 64)

/-- The calls in the loop over the program headers, of which `left` are left. -/
def readProgramHeadersCalls : ℕ → ElfReaderState → List ReadCall
  | 0, _ => []
  | left + 1, s =>
    if s.toBlock.blockNum * BitVec.ofNat 64 bsize + s.toBlock.off.signExtend 64 >
        endBlock * BitVec.ofNat 64 bsize + endOff then
      []
    else
      ⟨s.toBlock.blockNum, s.toBlock.off.signExtend 64, sizeofProghdr, s.toBlock.io⟩ ::
        match readProgramHeader wild endBlock endOff s.toBlock with
        | .ok (true, s) => readProgramHeadersCalls left s.nextHeader
        | _ => []

/-- The calls that the reader issues. -/
def elfReaderCalls (startBlock startOff : BitVec 64) (io : CachedDisk) (elfNodes : ElfNodes) :
    List ReadCall :=
  if startBlock ≥ BitVec.ofNat 64 diskSize then []
  else
    let off : BitVec 32 := startOff.setWidth 32
    ⟨startBlock, off.signExtend 64, sizeofElfhdr, io⟩ ::
      match readBytes wild startBlock (off.signExtend 64) sizeofElfhdr io with
      | .error _ => []
      | .ok (io, bytes) =>
        let elf := Elfhdr.ofBytes bytes
        if elf.magic ≠ elfMagic then []
        else
          readProgramHeadersCalls wild endBlock endOff elf.phnum.toNat
            { io, elfNodes
              elfRead := { entry := elf.entry, head := none, tail := none }
              cnt := 0
              blockNum := startBlock
              off := (off.signExtend 64 + elf.phoff).setWidth 32 }

end Calls

/-- The reader returns, with head and tail `NULL` if there was an error, and looks only at the data
of buffers. -/
structure ReaderSafe (wild : Wild) (startBlock startOff endBlock endOff : BitVec 64)
    (io : CachedDisk) (elfNodes : ElfNodes) : Prop where
  returns : ∃ elfRead io' elfNodes',
    elfReader wild startBlock startOff endBlock endOff io elfNodes =
      .ok (elfRead, io', elfNodes') ∧ (elfRead.head = none ↔ elfRead.tail = none)
  calls : ∀ call ∈ elfReaderCalls wild endBlock endOff startBlock startOff io elfNodes, call.Safe

/-- The file header lies on the disk; and if it is one, the first program header does not start in
front of its buffer, and every program header that begins in the extent behind headers that pass
ends on the disk. -/
structure StaysOnDisk (disk : ℕ → BitVec 8) (startBlock startOff endBlock endOff : BitVec 64)
    (elf : Elfhdr) : Prop where
  header : bytePos startBlock startOff + sizeofElfhdr.toNat ≤ diskSize * bsize
  not_before : ¬ReadsBefore startBlock startOff elf
  headers : elf.magic = elfMagic → 0 ≤ firstHeader startBlock startOff elf.phoff →
    ∀ k < elf.phnum.toNat,
      (firstHeader startBlock startOff elf.phoff).toNat + sizeofProghdr.toNat * k ≤
        bytePos endBlock endOff →
      (∀ j < k, PassesAt disk (firstHeader startBlock startOff elf.phoff).toNat j) →
      (firstHeader startBlock startOff elf.phoff).toNat + sizeofProghdr.toNat * k +
        sizeofProghdr.toNat ≤ diskSize * bsize

section Safety

variable {call : ReadCall} {wild : Wild} {startBlock startOff endBlock endOff : BitVec 64}
  {io : CachedDisk} {elfNodes : ElfNodes} {elf : Elfhdr} {disk : ℕ → BitVec 8}
  {first endPos i left : ℕ} {s : ElfReaderState}

/-- A range on the disk is read safely. -/
theorem ReadCall.safe_of_onDisk (hs : Settled call.io) (hblock : call.diskBlockNum.toNat < diskSize)
    (hoffset : call.offset.toNat ≤ bsize)
    (hend : call.diskBlockNum.toNat * bsize + call.offset.toNat + call.nBytes.toNat ≤
      diskSize * bsize) : call.Safe := by
  let J (_ : ℕ) (_ : ℕ → BitVec 8) (indices : List (BitVec 64)) : Prop :=
    ∀ index ∈ indices, index.toNat < bsize
  -- the indices are collected, and each lies in the data of its buffer
  have hbyte : BodySpec false (call.diskBlockNum.toNat * bsize + call.offset.toNat)
      call.nBytes.toNat J (fun _ => False)
      (fun _ _ pos (s, indices) => .ok (s, indices ++ [pos])) := by
    constructor
    intro k b pos s indices D n _ hpos hhold hJ _ hdisk
    refine Or.inl ⟨s, _, D, rfl, hhold, fun index hmem => ?_, hdisk⟩
    rcases List.mem_append.mp hmem with hmem | hmem
    · exact hJ index hmem
    · rwa [List.mem_singleton.mp hmem]
  rcases (copyBytes_cases "readBytes: block exceeds disk size" rfl hbyte hs
    (fun index hmem => absurd hmem List.not_mem_nil : J 0 call.io.disk []) hoffset hblock) with
    ⟨s, indices, hok, -, -, hJ⟩ | ⟨-, hlt⟩ | ⟨e, -, hfalse⟩
  · exact ⟨s, indices, hok, hJ⟩
  · exact absurd hend (Nat.not_le_of_lt hlt)
  · exact hfalse.elim

/-- The indices are collected. -/
theorem subset_of_copyLoop {message : String} {left k : ℕ} {diskBlockNum pos : BitVec 64}
    {b : BufRef} {s s' : CachedDisk} {indices indices' : List (BitVec 64)}
    (hok : copyLoop false message (fun _ _ pos (s, indices) => .ok (s, indices ++ [pos])) left k
      diskBlockNum pos b (s, indices) = .ok (s', indices')) : indices ⊆ indices' := by
  induction left generalizing k diskBlockNum pos b s indices with
  | zero =>
    cases hok
    exact List.Subset.refl _
  | succ left ih =>
    rw [copyLoop] at hok
    split at hok
    case isTrue =>
      obtain ⟨⟨b', s₁⟩, -, hrest⟩ := Except.bind_eq_ok.mp hok
      exact List.Subset.trans (List.subset_append_left ..) (ih hrest)
    case isFalse => exact List.Subset.trans (List.subset_append_left ..) (ih hok)

/-- A safe call of some bytes starts in or right behind the data of a buffer. -/
theorem ReadCall.Safe.offset_le (h : call.Safe) (hcount : call.nBytes.toNat ≠ 0) :
    call.offset.toNat ≤ bsize := by
  obtain ⟨s', indices, hok, hall⟩ := h
  obtain ⟨left, hleft⟩ := Nat.exists_eq_succ_of_ne_zero hcount
  rw [ReadCall.indices, copyBytes, hleft] at hok
  obtain ⟨⟨b, s⟩, -, hloop⟩ := Except.bind_eq_ok.mp hok
  dsimp only at hloop
  rw [copyLoop] at hloop
  split at hloop
  case isTrue hend =>
    rw [hend]
    decide
  case isFalse =>
    have hsub := subset_of_copyLoop hloop
    exact Nat.le_of_lt (hall _ (hsub (List.mem_singleton_self _)))

/-- As long as the loop returns, all its calls are safe. -/
theorem readProgramHeadersCalls_safe (h : s.toBlock.At disk first i)
    (hend : endBlock.toNat * bsize + endOff.toNat = endPos) (hlt : endPos < diskSize * bsize)
    (hfirst : first + sizeofProghdr.toNat * (i + left) < 2 ^ 62)
    (hok : ∃ r, readProgramHeaders wild endBlock endOff left s = .ok r) :
    ∀ call ∈ readProgramHeadersCalls wild endBlock endOff left s, call.Safe := by
  induction left generalizing s i with
  | zero => exact fun call hcall => absurd hcall List.not_mem_nil
  | succ left ih =>
    have hsize : sizeofProghdr.toNat = 56 := by decide
    rw [hsize] at hfirst
    have hfirst' : first + sizeofProghdr.toNat * i < 2 ^ 62 := by
      rw [hsize]
      omega
    have hgt := h.gt_iff hend hlt (by omega)
    -- a header on the disk is read safely
    have hsafe : first + sizeofProghdr.toNat * i + sizeofProghdr.toNat ≤ diskSize * bsize →
        ReadCall.Safe ⟨s.toBlock.blockNum, s.toBlock.off.signExtend 64, sizeofProghdr,
          s.toBlock.io⟩ := by
      intro hin
      apply ReadCall.safe_of_onDisk h.settled
      · dsimp only
        rw [h.placed.blockNum]
        simp only [bsize, diskSize] at *
        omega
      · dsimp only
        rw [h.placed.toNat_off]
        exact Nat.le_of_lt (Nat.mod_lt _ (by decide))
      · dsimp only
        rwa [h.placed.position]
    obtain ⟨r, hok⟩ := hok
    rw [readProgramHeaders] at hok
    rw [readProgramHeadersCalls]
    split
    case isTrue => exact fun call hcall => absurd hcall List.not_mem_nil
    case isFalse hnot =>
    rcases h.readProgramHeader_cases hend hlt (by omega) wild with
      ⟨s₁, hgives, hround, -⟩ | ⟨s₁, hreads, hround, hat, -⟩ | ⟨hcut, hround⟩
    · rw [hround]
      have hin := hgives.resolve_left (mt hgt.mpr hnot)
      intro call hcall
      rw [List.mem_singleton.mp hcall]
      exact hsafe hin.1
    · rw [hround] at hok ⊢
      intro call hcall
      rcases List.mem_cons.mp hcall with rfl | hcall
      · exact hsafe hreads.onDisk
      · exact ih hat (by rw [hsize]; omega) ⟨r, hok⟩ call hcall
    · rw [hround] at hok
      cases hok

/-- The calls of a reader that finds a file header on the disk. -/
theorem elfReaderCalls_of_header (hext : ExtentOnDisk startBlock startOff endBlock endOff)
    (helf : fileHeader disk (bytePos startBlock startOff) = elf) {io' : CachedDisk}
    (hread : readBytes wild startBlock startOff sizeofElfhdr io =
      .ok (io', diskBytes disk (bytePos startBlock startOff) sizeofElfhdr.toNat)) :
    elfReaderCalls wild endBlock endOff startBlock startOff io elfNodes =
      ⟨startBlock, startOff, sizeofElfhdr, io⟩ ::
        if elf.magic ≠ elfMagic then []
        else readProgramHeadersCalls wild endBlock endOff elf.phnum.toNat
          (startState startBlock startOff elf io' elfNodes) := by
  subst helf
  rw [elfReaderCalls, if_neg (mt ge_diskSize_iff.mp (Nat.not_le_of_lt hext.startBlock_lt))]
  dsimp only
  rw [signExtend_setWidth_of_lt hext.off_lt, hread]
  rfl

/-- A header in front of its buffer is not behind the end of the program, and its offset is that of
no place in the buffer. -/
theorem ReadsBefore.offset_outside (h : ReadsBefore startBlock startOff elf)
    (hext : ExtentOnDisk startBlock startOff endBlock endOff) (io : CachedDisk)
    (elfNodes : ElfNodes) :
    ¬(startState startBlock startOff elf io elfNodes).toBlock.blockNum * BitVec.ofNat 64 bsize +
          (startState startBlock startOff elf io elfNodes).toBlock.off.signExtend 64 >
        endBlock * BitVec.ofNat 64 bsize + endOff ∧
      bsize <
        ((startState startBlock startOff elf io elfNodes).toBlock.off.signExtend 64).toNat := by
  have hpos := toNat_startState startBlock startOff elf io elfNodes
  have hfirst := h.first
  have hneg := h.neg
  have hle := hext.start_le
  have hend := hext.end_lt
  constructor
  · rw [gt_iff_lt, BitVec.lt_def, hext.toNat_end]
    rw [firstHeader] at hpos hfirst
    rw [bytePos] at hle hend ⊢
    simp only [bytePos, bsize, diskSize] at *
    omega
  · obtain ⟨-, hoff⟩ := (startState startBlock startOff elf io elfNodes).toInt_toBlock
    -- the remainder has the sign of the offset, and it is not zero
    have hrem : (firstOff startOff elf.phoff).toInt.tmod bsize < 0 := by
      apply Int.neg_of_sign_eq_neg_one
      rw [Int.sign_tmod, if_neg h.not_dvd]
      exact Int.sign_eq_neg_one_of_neg hneg
    have hext : ((startState startBlock startOff elf io elfNodes).toBlock.off.signExtend
        64).toInt < 0 := by
      rw [BitVec.toInt_signExtend_of_le (by decide), hoff]
      exact hrem
    rw [BitVec.toInt_eq_toNat_cond] at hext
    simp only [bsize]
    split at hext <;> omega

/-- A safe reader does not come to a header in front of its buffer. -/
theorem ReaderSafe.not_readsBefore
    (h : ReaderSafe wild startBlock startOff endBlock endOff io elfNodes) (hs : Settled io)
    (hdisk : io.disk = disk) (hext : ExtentOnDisk startBlock startOff endBlock endOff)
    (helf : fileHeader disk (bytePos startBlock startOff) = elf) :
    ¬ReadsBefore startBlock startOff elf := by
  intro hbefore
  obtain ⟨io₁, hread, -⟩ :=
    elfReader_of_header hs hdisk hext.startBlock_lt hext.off_lt hbefore.header helf endBlock endOff
        wild elfNodes
  obtain ⟨hnot, hlarge⟩ := hbefore.offset_outside hext io₁ elfNodes
  obtain ⟨left, hleft⟩ := Nat.exists_eq_succ_of_ne_zero hbefore.phnum
  have hcalls := h.calls
  rw [elfReaderCalls_of_header hext helf hread, if_neg (not_not.mpr hbefore.magic), hleft,
    readProgramHeadersCalls, if_neg hnot] at hcalls
  have hsafe := hcalls _ (List.mem_cons_of_mem _ List.mem_cons_self)
  have hoffset := hsafe.offset_le (show sizeofProghdr.toNat ≠ 0 by decide)
  exact absurd hoffset (Nat.not_le_of_lt hlarge)

/-- The reader is safe exactly when the headers that it comes to lie on the disk. -/
theorem elfReader_safe_iff (hs : Settled io) (hdisk : io.disk = disk)
    (hext : ExtentOnDisk startBlock startOff endBlock endOff)
    (helf : fileHeader disk (bytePos startBlock startOff) = elf) (wild : Wild)
    (elfNodes : ElfNodes) :
    ReaderSafe wild startBlock startOff endBlock endOff io elfNodes ↔
      StaysOnDisk disk startBlock startOff endBlock endOff elf := by
  constructor
  · intro hsafe
    have hnot := hsafe.not_readsBefore hs hdisk hext helf
    obtain ⟨_, _, _, hreturns, -⟩ := hsafe.returns
    rcases elfReader_cases hs hdisk hext helf hnot wild elfNodes with
      ⟨_, _, _, -, -, -, hheader, -, -, haccepted⟩ |
        ⟨_, _, _, -, -, -, hheader, hrefuses⟩ | ⟨herr, -⟩
    · exact ⟨hheader, hnot, fun _ _ k hk _ _ => (haccepted.readsOn k hk).onDisk⟩
    · refine ⟨hheader, hnot, fun hmagic hfirst k hk hbegins hpasses => ?_⟩
      rcases hrefuses hmagic hfirst with ⟨k', -, hgives, hall⟩ | ⟨hall, -⟩
      · rcases Nat.lt_trichotomy k k' with hlt | rfl | hgt
        · exact (hall k hlt).onDisk
        · exact (hgives.resolve_left (Nat.not_lt.mpr hbegins)).1
        · -- header `k'` would pass, and it begins before header `k`
          rcases hgives with hbehind | ⟨-, hfails⟩
          · have hmono := Nat.mul_le_mul_left sizeofProghdr.toNat (Nat.le_of_lt hgt)
            omega
          · exact absurd (hpasses k' hgt) hfails
      · exact (hall k hk).onDisk
    · rw [herr] at hreturns
      cases hreturns
  · intro hstays
    obtain ⟨io₁, hread, hs₁, hdisk₁, hreader⟩ :=
      elfReader_of_header hs hdisk hext.startBlock_lt hext.off_lt hstays.header helf endBlock endOff
        wild elfNodes
    have hreturns : ∃ elfRead io' elfNodes',
        elfReader wild startBlock startOff endBlock endOff io elfNodes =
          .ok (elfRead, io', elfNodes') ∧ (elfRead.head = none ↔ elfRead.tail = none) := by
      rcases elfReader_cases hs hdisk hext helf hstays.not_before wild elfNodes with
        ⟨_, _, _, hok, hhead, htail, -⟩ | ⟨_, _, _, hok, hhead, htail, -⟩ |
        ⟨-, hcut | ⟨hmagic, hfirst, k, hk, hcut, hall⟩⟩
      · exact ⟨_, _, _, hok, iff_of_false hhead htail⟩
      · exact ⟨_, _, _, hok, iff_of_true hhead htail⟩
      · exact absurd hstays.header (Nat.not_le_of_lt hcut)
      · have hin := hstays.headers hmagic hfirst k hk hcut.1 fun j hj => (hall j hj).passes
        exact absurd hin (Nat.not_le_of_lt hcut.2)
    refine ⟨hreturns, ?_⟩
    rw [elfReaderCalls_of_header hext helf hread]
    intro call hcall
    rcases List.mem_cons.mp hcall with rfl | hcall
    · exact ReadCall.safe_of_onDisk hs hext.startBlock_lt (Nat.le_of_lt hext.off_lt) hstays.header
    by_cases hmagic : elf.magic = elfMagic
    case neg =>
      rw [if_pos hmagic] at hcall
      exact absurd hcall List.not_mem_nil
    rw [if_neg (not_not.mpr hmagic)] at hcall
    cases hleft : elf.phnum.toNat with
    | zero =>
      rw [hleft] at hcall
      exact absurd hcall List.not_mem_nil
    | succ left =>
      rcases lt_or_ge (firstHeader startBlock startOff elf.phoff) 0 with hneg | hfirst
      · rw [hleft, readProgramHeadersCalls, if_pos (gt_of_firstHeader_neg hext hneg io₁ elfNodes)]
          at hcall
        exact absurd hcall List.not_mem_nil
      · have hoff := off_of_not_readsBefore hstays.not_before hstays.header hmagic (by omega) hfirst
        have hat := startState_at hs₁ hdisk₁ hext.startBlock_lt hfirst hoff elfNodes
        refine readProgramHeadersCalls_safe hat rfl hext.end_lt (firstHeader_add_lt hext elf) ?_
          call hcall
        -- the reader returns, so its loop does
        obtain ⟨_, _, _, hok, -⟩ := hreturns
        rw [hreader, readBehindHeader, if_neg (not_not.mpr hmagic)] at hok
        obtain ⟨r, hloop, -⟩ := Except.bind_eq_ok.mp hok
        exact ⟨r, hloop⟩

/-- One segment behind the file header is read safely. -/
theorem elfReader_safe_one_segment :
    ReaderSafe (fun _ _ _ => 0) 0 0 0 119 (freshDisk (emptySegments 1)) unusedNodes := by
  have hext : ExtentOnDisk 0 0 0 119 := ⟨by decide, by decide, by decide⟩
  refine (elfReader_safe_iff (settled_freshDisk _) rfl hext rfl _ _).mpr ⟨by decide, ?_, ?_⟩
  · intro hbefore
    exact absurd hbefore.neg (by decide +kernel)
  · intro _ _ k hk _ _
    obtain rfl : k = 0 := Nat.lt_one_iff.mp hk
    decide +kernel

/-- A program that starts in the last byte of the disk ends in an error. -/
theorem not_safe_last_byte :
    ¬∀ (disk : ℕ → BitVec 8) (startBlock startOff endBlock endOff : BitVec 64),
      ExtentOnDisk startBlock startOff endBlock endOff →
      ReaderSafe (fun _ _ _ => 0) startBlock startOff endBlock endOff (freshDisk disk)
        unusedNodes := by
  intro hall
  have hext : ExtentOnDisk 999 1023 999 1023 := ⟨by decide, by decide, by decide⟩
  obtain ⟨_, _, _, hok, -⟩ := (hall (fun _ => 0) 999 1023 999 1023 hext).returns
  rw [elfReader_of_cut (settled_freshDisk _) hext.startBlock_lt hext.off_lt (by decide)] at hok
  cases hok

end Safety

end R5O5
