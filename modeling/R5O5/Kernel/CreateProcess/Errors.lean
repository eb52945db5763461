import R5O5.Kernel.CreateProcess.Admission

/-!
# How creating a process fails

A call of `createProcess` that does not return stops in `error`, with one of a few messages. It does
not run into an endless loop or out of an array, and the errors that stand for a broken kernel are
never raised: a buffer can always be had, and every address of a segment is mapped before it is
written.

## Main results

- `elfReader_error`: the reader fails at the end of the disk only;
- `Accounted.createProcess_error`: the messages of `createProcess`.
-/

namespace R5O5

/-- The messages with which `createProcess` stops. -/
def createErrors : List String :=
  ["createProcess: Process Table Filled", "createProcess: Program Loading was unsuccesful",
    "readBytes: block exceeds disk size"] ++ loadErrors

section Reading

variable {τ : Type} {byte : ℕ → BufRef → BitVec 64 → CachedDisk × τ → Except Stop (CachedDisk × τ)}
  {message : String} {wild : Wild} {diskBlockNum : BitVec 64} {e : Stop} {s : CachedDisk}

theorem Settled.openBlock_error (hs : Settled s)
    (herr : R5O5.openBlock message diskBlockNum s = .error e) : e = .error message := by
  rcases Nat.lt_or_ge diskBlockNum.toNat diskSize with hlt | hge
  · obtain ⟨b, s', hok, -⟩ := hs.openBlock message hlt
    rw [hok] at herr
    cases herr
  · rw [openBlock_of_ge hge] at herr
    cases herr
    rfl

/-- A copying function that only looks at its buffers fails behind the disk only. -/
theorem copyLoop_error {left k : ℕ} {pos : BitVec 64} {b : BufRef} {n : ℕ} {t : τ}
    (hbyte : ∀ k b pos s t, ∃ t', byte k b pos (s, t) = .ok (s, t'))
    (hhold : Holding s b n s.disk)
    (herr : copyLoop false message byte left k diskBlockNum pos b (s, t) = .error e) :
    e = .error message := by
  induction left generalizing k diskBlockNum pos b n s t with
  | zero => cases herr
  | succ left ih =>
    rw [copyLoop] at herr
    split at herr
    -- the block is used up: it is given back and the next one is opened
    case isTrue =>
      obtain ⟨hsettled, -⟩ := hhold.release fun _ : false = false => rfl
      cases hopen : openBlock message (diskBlockNum + 1) (release false b s) with
      | error e' =>
        rw [hopen] at herr
        cases herr
        exact hsettled.openBlock_error hopen
      | ok r =>
        obtain ⟨b', s'⟩ := r
        obtain ⟨hhold', hdisk⟩ := hsettled.of_openBlock hopen
        obtain ⟨t', ht'⟩ := hbyte k b' 0 s' t
        rw [hopen, Except.ok_bind] at herr
        dsimp only at herr
        rw [ht', Except.ok_bind] at herr
        rw [← hdisk] at hhold'
        exact ih hhold' herr
    case isFalse =>
      obtain ⟨t', ht'⟩ := hbyte k b pos s t
      rw [ht', Except.ok_bind] at herr
      exact ih hhold herr

/-- Wherever `readBytes` reads, it fails behind the disk only. -/
theorem readBytes_error {offset nBytes : BitVec 64} (hs : Settled s)
    (herr : readBytes wild diskBlockNum offset nBytes s = .error e) :
    e = .error "readBytes: block exceeds disk size" := by
  rw [readBytes, copyBytes] at herr
  cases hopen : openBlock "readBytes: block exceeds disk size" diskBlockNum s with
  | error e' =>
    rw [hopen] at herr
    cases herr
    exact hs.openBlock_error hopen
  | ok r =>
    obtain ⟨b, s'⟩ := r
    obtain ⟨hhold, hdisk⟩ := hs.of_openBlock hopen
    rw [hopen, Except.ok_bind] at herr
    rw [← hdisk] at hhold
    refine copyLoop_error ?_ hhold herr
    intro _ _ _ _ _
    exact ⟨_, rfl⟩

end Reading

section Reader

variable {wild : Wild} {startBlock startOff endBlock endOff : BitVec 64} {s : ElfReaderState}
  {e : Stop} {io : CachedDisk} {elfNodes : ElfNodes}

/-- A round of the reader fails with the message of `readBytes` only. -/
theorem readProgramHeader_error (hs : Settled s.io)
    (herr : readProgramHeader wild endBlock endOff s = .error e) :
    e = .error "readBytes: block exceeds disk size" := by
  rw [readProgramHeader] at herr
  split at herr
  case isTrue => cases herr
  case isFalse =>
    cases hread : readBytes wild s.blockNum (s.off.signExtend 64) sizeofProghdr s.io with
    | error e' =>
      rw [hread] at herr
      cases herr
      exact readBytes_error hs hread
    | ok r =>
      rw [hread, Except.ok_bind] at herr
      dsimp only at herr
      split_ifs at herr <;> cases herr

/-- The loop of the reader fails with the message of `readBytes` only. -/
theorem readProgramHeaders_error {left : ℕ} {nodes : List (Fin elfSize)} (hs : Settled s.io)
    (hlists : s.Lists nodes) (herr : readProgramHeaders wild endBlock endOff left s = .error e) :
    e = .error "readBytes: block exceeds disk size" := by
  induction left generalizing s nodes with
  | zero => cases herr
  | succ left ih =>
    rw [readProgramHeaders] at herr
    cases hround : readProgramHeader wild endBlock endOff s.toBlock with
    | error e' =>
      rw [hround] at herr
      cases herr
      exact readProgramHeader_error (s := s.toBlock) hs hround
    | ok r =>
      obtain ⟨flag, s₁⟩ := r
      obtain ⟨hs₁, -, nodes₁, hlists₁⟩ :=
        readProgramHeader_spec (s := s.toBlock) hs hlists.toBlock hround
      rw [hround, Except.ok_bind] at herr
      cases flag with
      | true => exact ih (s := s₁.nextHeader) hs₁ hlists₁.nextHeader herr
      | false => cases herr

/-- The reader fails behind the disk only. -/
theorem elfReader_error (hs : Settled io)
    (herr : elfReader wild startBlock startOff endBlock endOff io elfNodes = .error e) :
    e = .error "readBytes: block exceeds disk size" := by
  rw [elfReader] at herr
  dsimp only at herr
  split at herr
  case isTrue => cases herr
  case isFalse =>
    -- the file header
    cases hread : readBytes wild startBlock ((startOff.setWidth 32).signExtend 64) sizeofElfhdr
        io with
    | error e' =>
      rw [hread] at herr
      cases herr
      exact readBytes_error hs hread
    | ok r =>
      obtain ⟨io₁, bytes⟩ := r
      obtain ⟨hs₁, -⟩ := readBytes_readOnly hs hread
      rw [hread, Except.ok_bind] at herr
      dsimp only at herr
      split at herr
      case isTrue => cases herr
      case isFalse =>
        -- the program headers
        obtain ⟨start, hstart⟩ : ∃ start : ElfReaderState, start =
          { io := io₁, elfNodes, elfRead := ⟨(Elfhdr.ofBytes bytes).entry, none, none⟩, cnt := 0
            blockNum := startBlock
            off := ((startOff.setWidth 32).signExtend 64 +
              (Elfhdr.ofBytes bytes).phoff).setWidth 32 } := ⟨_, rfl⟩
        rw [← hstart] at herr
        cases hloop : readProgramHeaders wild endBlock endOff (Elfhdr.ofBytes bytes).phnum.toNat
            start with
        | error e' =>
          rw [hloop] at herr
          cases herr
          refine readProgramHeaders_error ?_ (ElfReaderState.lists_nil ?_ ?_) hloop
          · rw [hstart]
            exact hs₁
          · rw [hstart]
          · rw [hstart]
        | ok r =>
          obtain ⟨flag, s'⟩ := r
          rw [hloop, Except.ok_bind] at herr
          cases flag <;> cases herr

end Reader

/-- A process is created, or `createProcess` stops with one of its messages. -/
theorem Accounted.createProcess_error {K : KernelImage} {spaces : BitVec 64 → Option Space}
    {k : Kernel} (h : Accounted K spaces k.paging) (hs : Settled k.io) {wild : Wild}
    {program : Program} {e : Stop} (herr : createProcess wild program k = .error e) :
    ∃ message ∈ createErrors, e = .error message := by
  rw [createProcess] at herr
  split at herr
  case h_1 =>
    cases herr
    exact ⟨_, by simp [createErrors], rfl⟩
  case h_2 pid _ =>
    -- what stops the reader stops the loader
    cases helf : elfReader wild program.startBlock program.startOffset program.endBlock
        program.endOffset k.io k.elfNodes with
    | error e' =>
      rw [programLoader, helf] at herr
      cases herr
      exact ⟨_, by simp [createErrors], elfReader_error hs helf⟩
    | ok r =>
      obtain ⟨elfRead, io, elfNodes⟩ := r
      by_cases hhead : elfRead.head = none
      · rw [programLoader, helf, Except.ok_bind] at herr
        dsimp only at herr
        rw [if_pos hhead] at herr
        cases herr
        exact ⟨_, by simp [createErrors], rfl⟩
      · obtain ⟨-, -, -, nodes, hlist, hlength⟩ := elfReader_spec hs helf
        rcases h.programLoader_cases hs wild pid helf (hlist.toList_eq hlength) hhead with
          ⟨-, k', hload, -⟩ | ⟨-, message, hmem, hload⟩
        · rw [hload] at herr
          cases herr
        · rw [hload] at herr
          cases herr
          exact ⟨message, List.mem_append_right _ hmem, rfl⟩

end R5O5
