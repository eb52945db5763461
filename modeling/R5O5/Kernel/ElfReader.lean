import Mathlib.Data.Fintype.Card
import R5O5.Kernel.Buffer.Copying
import R5O5.Lib.LinkedList

/-!
# Reading ELF headers

The functions of `kernel/elfReader.c`. The reader walks over the program headers on the disk and
builds a linked list of the segments to be loaded from the nodes `elfNodes`. As in the source, the
offset is an `int`, so that additions to it wrap and it may turn negative.

## Main definitions

- `elfReader`: the reader;
- `ElfreadList.nodes`: the nodes of the list it returns.

## Main results

- `elfReader_spec`: the list ends in a null pointer, and the disk is not changed.
-/

namespace R5O5

/-- `ELFSIZE`, the nodes for segments. -/
def elfSize : ℕ := 30

theorem elfSize_pos : 0 < elfSize := by decide

/-- `ELF_MAGIC`. -/
def elfMagic : BitVec 32 := 0x464C457F

/-- `ELF_PROG_LOAD`. -/
def elfProgLoad : BitVec 32 := 1

/-- The fields of the file header that are used. -/
structure Elfhdr where
  magic : BitVec 32
  entry : BitVec 64
  phoff : BitVec 64
  phnum : BitVec 16
  deriving DecidableEq

/-- The fields of a program header that are used. -/
structure Proghdr where
  type : BitVec 32
  off : BitVec 64
  vaddr : BitVec 64
  filesz : BitVec 64
  memsz : BitVec 64
  deriving DecidableEq

/-- The number with these bytes, the least significant one first. -/
def littleEndian (bytes : List (BitVec 8)) : ℕ := bytes.foldr (fun b n => b.toNat + 256 * n) 0

/-- The field of `size` bytes at an offset of a structure. -/
def field (bytes : List (BitVec 8)) (offset size : ℕ) : BitVec (8 * size) :=
  BitVec.ofNat (8 * size) (littleEndian ((bytes.drop offset).take size))

/-- `sizeof(Elfhdr)`. -/
def sizeofElfhdr : BitVec 64 := 64

/-- `sizeof(Proghdr)`. -/
def sizeofProghdr : BitVec 64 := 56

/-- The bytes of a file header as a structure. -/
def Elfhdr.ofBytes (bytes : List (BitVec 8)) : Elfhdr where
  magic := field bytes 0 4
  entry := field bytes 24 8
  phoff := field bytes 32 8
  phnum := field bytes 56 2

/-- The bytes of a program header as a structure. -/
def Proghdr.ofBytes (bytes : List (BitVec 8)) : Proghdr where
  type := field bytes 0 4
  off := field bytes 8 8
  vaddr := field bytes 16 8
  filesz := field bytes 32 8
  memsz := field bytes 40 8

/-- A pointer into `elfNodes`, or `NULL`. -/
abbrev ElfreadPtr : Type := Option (Fin elfSize)

/-- A node of the list, for one segment. -/
structure Elfread where
  off : BitVec 64
  vaddr : BitVec 64
  filesz : BitVec 64
  memsz : BitVec 64
  prev : ElfreadPtr
  next : ElfreadPtr
  deriving DecidableEq

/-- The list of segments with the entry point of the program. -/
structure ElfreadList where
  entry : BitVec 64
  head : ElfreadPtr
  tail : ElfreadPtr

/-- The array `elfNodes`. -/
abbrev ElfNodes : Type := Fin elfSize → Elfread

/-- Change one node. -/
def ElfNodes.modify (elfNodes : ElfNodes) (i : Fin elfSize) (f : Elfread → Elfread) : ElfNodes :=
  Function.update elfNodes i (f (elfNodes i))

@[simp]
theorem ElfNodes.modify_same (elfNodes : ElfNodes) (i : Fin elfSize) (f : Elfread → Elfread) :
    elfNodes.modify i f i = f (elfNodes i) :=
  Function.update_self ..

theorem ElfNodes.modify_of_ne (elfNodes : ElfNodes) {i j : Fin elfSize} (f : Elfread → Elfread)
    (h : j ≠ i) : elfNodes.modify i f j = elfNodes j :=
  Function.update_of_ne h ..

/-- The nodes of the list, in order. -/
def ElfreadList.nodes (elfRead : ElfreadList) (elfNodes : ElfNodes) : Option (List (Fin elfSize)) :=
  LinkedList.toList (fun i => (elfNodes i).next) elfSize elfRead.head

/-- What the reader works on: the list and its nodes, the index of the next available node, and the
position of the next program header. -/
structure ElfReaderState where
  io : CachedDisk
  elfNodes : ElfNodes
  elfRead : ElfreadList
  cnt : ℕ
  blockNum : BitVec 64
  off : BitVec 32

/-- The block in which the next program header starts, and its offset there. -/
def ElfReaderState.toBlock (s : ElfReaderState) : ElfReaderState :=
  { s with
    blockNum := s.blockNum + (s.off.sdiv (BitVec.ofNat 32 bsize)).signExtend 64
    off := s.off.srem (BitVec.ofNat 32 bsize) }

/-- Go on to the next program header. -/
def ElfReaderState.nextHeader (s : ElfReaderState) : ElfReaderState :=
  { s with off := (s.off.signExtend 64 + sizeofProghdr).setWidth 32, cnt := s.cnt + 1 }

/-- Insert the data of a new program header at the tail end. The head and the tail are `NULL`
together. -/
def allocateELFReader (cnt : Fin elfSize) (ph : Proghdr) (s : ElfReaderState) : ElfReaderState :=
  let fill : Elfread → Elfread := fun node =>
    { node with off := ph.off, vaddr := ph.vaddr, filesz := ph.filesz, memsz := ph.memsz }
  match s.elfRead.head, s.elfRead.tail with
  | some _, some tail =>
      let elfNodes := s.elfNodes.modify tail fun node => { node with next := some cnt }
      let elfNodes := elfNodes.modify cnt fun node => { node with prev := some tail, next := none }
      { s with
        elfNodes := elfNodes.modify cnt fill
        elfRead := { s.elfRead with tail := some cnt }
        cnt := cnt + 1 }
  | _, _ =>
      let first : Fin elfSize := ⟨0, by decide⟩
      let elfNodes := s.elfNodes.modify first fun node => { node with next := none, prev := none }
      { s with
        elfNodes := elfNodes.modify first fill
        elfRead := { s.elfRead with head := some first, tail := some first }
        cnt := 1 }

/-- The body of the loop over the program headers; the result is `flag`, which is cleared before a
`break`. -/
def readProgramHeader (wild : Wild) (endBlock endOff : BitVec 64) (s : ElfReaderState) :
    Except Stop (Bool × ElfReaderState) :=
  if s.blockNum * BitVec.ofNat 64 bsize + s.off.signExtend 64 >
      endBlock * BitVec.ofNat 64 bsize + endOff then
    return (false, s)
  else do
    let (io, bytes) ← readBytes wild s.blockNum (s.off.signExtend 64) sizeofProghdr s.io
    let ph := Proghdr.ofBytes bytes
    if ph.type ≠ elfProgLoad then return (true, { s with io })
    else if ph.memsz < ph.filesz then return (false, { s with io })
    else if ph.vaddr + ph.memsz < ph.vaddr then return (false, { s with io })
    else if ph.vaddr % BitVec.ofNat 64 pgsize ≠ 0 then return (false, { s with io })
    else if h : s.cnt < elfSize then
      return (true, { allocateELFReader ⟨s.cnt, h⟩ ph s with io })
    else return (false, { s with io })

/-- The loop over the program headers, of which `left` are left. -/
def readProgramHeaders (wild : Wild) (endBlock endOff : BitVec 64) :
    ℕ → ElfReaderState → Except Stop (Bool × ElfReaderState)
  | 0, s => return (true, s)
  | left + 1, s => do
    let (flag, s) ← readProgramHeader wild endBlock endOff s.toBlock
    if flag then readProgramHeaders wild endBlock endOff left s.nextHeader
    else return (false, s)

/-- Read the headers of the program at `startBlock` and `startOff`. The head of the list is `NULL`
if there was an error. -/
def elfReader (wild : Wild) (startBlock startOff endBlock endOff : BitVec 64) (io : CachedDisk)
    (elfNodes : ElfNodes) : Except Stop (ElfreadList × CachedDisk × ElfNodes) := do
  let elfRead : ElfreadList := { entry := 0, head := none, tail := none }
  if startBlock ≥ BitVec.ofNat 64 diskSize then return (elfRead, io, elfNodes)
  let off : BitVec 32 := startOff.setWidth 32
  let (io, bytes) ← readBytes wild startBlock (off.signExtend 64) sizeofElfhdr io
  let elf := Elfhdr.ofBytes bytes
  if elf.magic ≠ elfMagic then return (elfRead, io, elfNodes)
  let (flag, s) ← readProgramHeaders wild endBlock endOff elf.phnum.toNat
    { io, elfNodes
      elfRead := { elfRead with entry := elf.entry }
      cnt := 0
      blockNum := startBlock
      off := (off.signExtend 64 + elf.phoff).setWidth 32 }
  if flag then return (s.elfRead, s.io, s.elfNodes)
  else return ({ s.elfRead with head := none, tail := none }, s.io, s.elfNodes)

/-- The reader gives up at this segment. -/
def Proghdr.Rejected (ph : Proghdr) : Prop :=
  ph.memsz < ph.filesz ∨ ph.vaddr + ph.memsz < ph.vaddr ∨ ph.vaddr % BitVec.ofNat 64 pgsize ≠ 0

instance (ph : Proghdr) : Decidable ph.Rejected :=
  inferInstanceAs (Decidable (_ ∨ _ ∨ _))

/-! ## The list -/

/-- The nodes in use are those of the list, in order; they lie below the next available one. -/
structure ElfReaderState.Lists (s : ElfReaderState) (nodes : List (Fin elfSize)) : Prop where
  isList : LinkedList.IsList (fun i => (s.elfNodes i).next) s.elfRead.head nodes
  tail : s.elfRead.tail = nodes.getLast?
  nodup : nodes.Nodup
  lt_cnt : ∀ n ∈ nodes, n.val < s.cnt

section Lists

variable {wild : Wild} {startBlock startOff endBlock endOff : BitVec 64} {s s' : ElfReaderState}
  {nodes : List (Fin elfSize)} {elfNodes : ElfNodes} {flag : Bool}

/-- A new node does not change the place of the next header. -/
theorem allocateELFReader_place (n : Fin elfSize) (ph : Proghdr) (s : ElfReaderState) :
    (allocateELFReader n ph s).blockNum = s.blockNum ∧ (allocateELFReader n ph s).off = s.off ∧
      (allocateELFReader n ph s).elfRead.entry = s.elfRead.entry := by
  rw [allocateELFReader]
  split <;> exact ⟨rfl, rfl, rfl⟩

/-- Without a head and a tail, no node is in use. -/
theorem ElfReaderState.lists_nil (hhead : s.elfRead.head = none) (htail : s.elfRead.tail = none) :
    s.Lists [] :=
  ⟨hhead, htail, List.nodup_nil, fun _ hn => absurd hn List.not_mem_nil⟩

/-- The list is empty, with two null pointers, or it has a head and a tail. -/
theorem ElfReaderState.Lists.head_tail (h : s.Lists nodes) :
    (nodes = [] ∧ s.elfRead.head = none ∧ s.elfRead.tail = none) ∨
      ∃ init last head, nodes = init ++ [last] ∧ s.elfRead.head = some head ∧
        s.elfRead.tail = some last := by
  rcases List.eq_nil_or_concat nodes with rfl | ⟨init, last, rfl⟩
  · exact Or.inl ⟨rfl, h.isList, h.tail⟩
  · rw [List.concat_eq_append] at h ⊢
    have hlist := h.isList
    have htail : s.elfRead.tail = some last := by rw [h.tail, List.getLast?_concat]
    cases init with
    | nil => exact Or.inr ⟨[], last, last, rfl, hlist.1, htail⟩
    | cons m init => exact Or.inr ⟨m :: init, last, m, rfl, hlist.1, htail⟩

/-- A node is appended; its index is below the new count. -/
theorem ElfReaderState.Lists.allocateELFReader (h : s.Lists nodes) (hcnt : s.cnt < elfSize)
    (ph : Proghdr) : ∃ n, (R5O5.allocateELFReader ⟨s.cnt, hcnt⟩ ph s).Lists (nodes ++ [n]) := by
  rcases h.head_tail with ⟨rfl, hhead, -⟩ | ⟨init, last, head, rfl, hhead, htail⟩
  · -- the first node
    refine ⟨⟨0, by decide⟩, ?_⟩
    unfold R5O5.allocateELFReader
    rw [hhead]
    constructor
    case isList =>
      refine ⟨rfl, ?_⟩
      simp [ElfNodes.modify, LinkedList.IsList]
    case tail => rfl
    case nodup => exact List.nodup_singleton _
    case lt_cnt => simp
  · have hfresh : (⟨s.cnt, hcnt⟩ : Fin elfSize) ∉ init ++ [last] := fun hmem =>
      Nat.lt_irrefl _ (h.lt_cnt _ hmem)
    have hlast : last ∉ init := fun hmem =>
      (List.nodup_append.mp h.nodup).2.2 _ hmem _ (List.mem_singleton_self _) rfl
    have hlist := h.isList
    rw [hhead] at hlist
    refine ⟨⟨s.cnt, hcnt⟩, ?_⟩
    unfold R5O5.allocateELFReader
    rw [hhead, htail]
    constructor
    case isList =>
      dsimp only
      rw [hhead]
      refine (hlist.append hlast hfresh).congr fun n _ => ?_
      -- the old last node, the new one, and the others
      have hne : last ≠ ⟨s.cnt, hcnt⟩ := by
        rintro heq
        exact hfresh (by rw [heq]; exact List.mem_append_right _ (List.mem_singleton_self _))
      by_cases hnew : n = ⟨s.cnt, hcnt⟩
      · rw [hnew, ElfNodes.modify_same, ElfNodes.modify_same, Function.update_self]
      · rw [ElfNodes.modify_of_ne _ _ hnew, ElfNodes.modify_of_ne _ _ hnew,
          Function.update_of_ne hnew]
        by_cases hold : n = last
        · rw [hold, ElfNodes.modify_same, Function.update_self]
        · rw [ElfNodes.modify_of_ne _ _ hold, Function.update_of_ne hold]
    case tail =>
      dsimp only
      rw [List.getLast?_concat]
    case nodup => exact List.nodup_append.mpr ⟨h.nodup, List.nodup_singleton _, by
      rintro n hn m hm rfl
      rw [List.mem_singleton] at hm
      exact hfresh (hm ▸ hn)⟩
    case lt_cnt =>
      intro n hn
      rcases List.mem_append.mp hn with hn | hn
      · exact Nat.lt_succ_of_lt (h.lt_cnt n hn)
      · rw [List.mem_singleton.mp hn]
        exact Nat.lt_succ_self _

/-- Moving on to the next header keeps the list. -/
theorem ElfReaderState.Lists.nextHeader (h : s.Lists nodes) : s.nextHeader.Lists nodes :=
  ⟨h.isList, h.tail, h.nodup, fun n hn => Nat.lt_succ_of_lt (h.lt_cnt n hn)⟩

/-- Moving on to the next block keeps the list. -/
theorem ElfReaderState.Lists.toBlock (h : s.Lists nodes) : s.toBlock.Lists nodes :=
  ⟨h.isList, h.tail, h.nodup, h.lt_cnt⟩

/-- Reading from the disk keeps the list. -/
theorem ElfReaderState.Lists.with_io (h : s.Lists nodes) (io : CachedDisk) :
    ElfReaderState.Lists { s with io } nodes :=
  ⟨h.isList, h.tail, h.nodup, h.lt_cnt⟩

/-- What the reader does with a program header that it has read. -/
theorem readProgramHeader_of_read {io : CachedDisk} {bytes : List (BitVec 8)}
    (hnot : ¬s.blockNum * BitVec.ofNat 64 bsize + s.off.signExtend 64 >
      endBlock * BitVec.ofNat 64 bsize + endOff)
    (hread : readBytes wild s.blockNum (s.off.signExtend 64) sizeofProghdr s.io =
      .ok (io, bytes)) :
    readProgramHeader wild endBlock endOff s =
      if (Proghdr.ofBytes bytes).type ≠ elfProgLoad then .ok (true, { s with io })
      else if (Proghdr.ofBytes bytes).Rejected then .ok (false, { s with io })
      else if h : s.cnt < elfSize then
        .ok (true, { allocateELFReader ⟨s.cnt, h⟩ (Proghdr.ofBytes bytes) s with io })
      else .ok (false, { s with io }) := by
  rw [readProgramHeader, if_neg hnot, hread, Except.ok_bind]
  dsimp only
  generalize Proghdr.ofBytes bytes = ph
  by_cases htype : ph.type ≠ elfProgLoad
  · rw [if_pos htype, if_pos htype]
    rfl
  rw [if_neg htype, if_neg htype]
  -- the three tests of a segment to be loaded
  by_cases h₁ : ph.memsz < ph.filesz
  · have hrejected : ph.Rejected := Or.inl h₁
    rw [if_pos h₁, if_pos hrejected]
    rfl
  by_cases h₂ : ph.vaddr + ph.memsz < ph.vaddr
  · have hrejected : ph.Rejected := Or.inr (Or.inl h₂)
    rw [if_neg h₁, if_pos h₂, if_pos hrejected]
    rfl
  by_cases h₃ : ph.vaddr % BitVec.ofNat 64 pgsize ≠ 0
  · have hrejected : ph.Rejected := Or.inr (Or.inr h₃)
    rw [if_neg h₁, if_neg h₂, if_pos h₃, if_pos hrejected]
    rfl
  have haccepted : ¬ph.Rejected := by
    rintro (h | h | h)
    · exact h₁ h
    · exact h₂ h
    · exact h₃ h
  rw [if_neg h₁, if_neg h₂, if_neg h₃, if_neg haccepted]
  rfl

/-- What a round that returns has done: it gives up, passes over the header, or appends a segment
that is not rejected. -/
theorem readProgramHeader_cases (hok : readProgramHeader wild endBlock endOff s = .ok (flag, s')) :
    s' = s ∨ ∃ io bytes,
      readBytes wild s.blockNum (s.off.signExtend 64) sizeofProghdr s.io = .ok (io, bytes) ∧
      (s' = { s with io } ∨
        ∃ hcnt : s.cnt < elfSize, flag = true ∧ ¬(Proghdr.ofBytes bytes).Rejected ∧
          s' = { allocateELFReader ⟨s.cnt, hcnt⟩ (Proghdr.ofBytes bytes) s with io }) := by
  by_cases hend : s.blockNum * BitVec.ofNat 64 bsize + s.off.signExtend 64 >
      endBlock * BitVec.ofNat 64 bsize + endOff
  · rw [readProgramHeader, if_pos hend] at hok
    cases hok
    exact Or.inl rfl
  right
  -- the header begins in the program, so it is read
  have hbody := hok
  rw [readProgramHeader, if_neg hend] at hbody
  obtain ⟨⟨io, bytes⟩, hread, -⟩ := Except.bind_eq_ok.mp hbody
  refine ⟨io, bytes, hread, ?_⟩
  rw [readProgramHeader_of_read hend hread] at hok
  split at hok
  case isTrue =>
    cases hok
    exact Or.inl rfl
  split at hok
  case isTrue =>
    cases hok
    exact Or.inl rfl
  case isFalse haccepted =>
  split at hok
  case isTrue hcnt =>
    cases hok
    exact Or.inr ⟨hcnt, rfl, haccepted, rfl⟩
  case isFalse =>
    cases hok
    exact Or.inl rfl

/-- One program header is passed over, rejected or appended. -/
theorem readProgramHeader_spec (hs : Settled s.io) (h : s.Lists nodes)
    (hok : readProgramHeader wild endBlock endOff s = .ok (flag, s')) :
    Settled s'.io ∧ s'.io.disk = s.io.disk ∧ ∃ nodes', s'.Lists nodes' := by
  rcases readProgramHeader_cases hok with rfl | ⟨io, bytes, hread, rfl | ⟨hcnt, -, -, rfl⟩⟩
  · exact ⟨hs, rfl, nodes, h⟩
  · obtain ⟨hio, hdisk⟩ := readBytes_readOnly hs hread
    exact ⟨hio, hdisk, nodes, h.with_io io⟩
  · obtain ⟨hio, hdisk⟩ := readBytes_readOnly hs hread
    obtain ⟨n, hlists⟩ := h.allocateELFReader hcnt (Proghdr.ofBytes bytes)
    exact ⟨hio, hdisk, _, hlists.with_io io⟩

/-- What every round keeps holds at the end of the loop, however it ends. -/
theorem readProgramHeaders_keeps {P : ElfReaderState → Prop} {left : ℕ}
    (hround : ∀ s flag s', P s → readProgramHeader wild endBlock endOff s.toBlock = .ok (flag, s') →
      P s')
    (hnext : ∀ s, P s → P s.nextHeader) (h : P s)
    (hok : readProgramHeaders wild endBlock endOff left s = .ok (flag, s')) : P s' := by
  induction left generalizing s with
  | zero =>
    cases hok
    exact h
  | succ left ih =>
    obtain ⟨⟨go, s₁⟩, hgo, hrest⟩ := Except.bind_eq_ok.mp hok
    have h₁ := hround s go s₁ h hgo
    cases go with
    | true => exact ih (hnext s₁ h₁) hrest
    | false =>
      cases hrest
      exact h₁

/-- The loop leaves the disk alone and ends with a list. -/
theorem readProgramHeaders_spec {left : ℕ} (hs : Settled s.io) (h : s.Lists nodes)
    (hok : readProgramHeaders wild endBlock endOff left s = .ok (flag, s')) :
    Settled s'.io ∧ s'.io.disk = s.io.disk ∧ ∃ nodes', s'.Lists nodes' := by
  refine readProgramHeaders_keeps
    (P := fun t => Settled t.io ∧ t.io.disk = s.io.disk ∧ ∃ nodes', t.Lists nodes')
    (fun t _ t' ht hround => ?_) (fun t ht => ?_) ⟨hs, rfl, nodes, h⟩ hok
  · obtain ⟨hio, hdisk, nodes₁, hlists⟩ := ht
    obtain ⟨hio', hdisk', hlists'⟩ :=
      readProgramHeader_spec (s := t.toBlock) hio hlists.toBlock hround
    exact ⟨hio', hdisk'.trans hdisk, hlists'⟩
  · exact ⟨ht.1, ht.2.1, ht.2.2.imp fun _ hlists => hlists.nextHeader⟩

/-- What a reader that returns has done: without a head it has given up, and otherwise the list is
that of the loop. -/
theorem elfReader_eq_ok {io io' : CachedDisk} {elfRead : ElfreadList} {elfNodes' : ElfNodes}
    (hok : elfReader wild startBlock startOff endBlock endOff io elfNodes =
      .ok (elfRead, io', elfNodes')) :
    elfRead.head = none ∧ io' = io ∨
    startBlock.toNat < diskSize ∧ ∃ io₁ bytes,
      readBytes wild startBlock ((startOff.setWidth 32).signExtend 64) sizeofElfhdr io =
        .ok (io₁, bytes) ∧
      (elfRead.head = none ∧ io' = io₁ ∨
      ∃ flag s,
        readProgramHeaders wild endBlock endOff (Elfhdr.ofBytes bytes).phnum.toNat
          { io := io₁, elfNodes, elfRead := ⟨(Elfhdr.ofBytes bytes).entry, none, none⟩, cnt := 0
            blockNum := startBlock
            off := ((startOff.setWidth 32).signExtend 64 +
              (Elfhdr.ofBytes bytes).phoff).setWidth 32 } = .ok (flag, s) ∧
        io' = s.io ∧ elfNodes' = s.elfNodes ∧ (elfRead.head = none ∨ elfRead = s.elfRead)) := by
  rw [elfReader] at hok
  dsimp only at hok
  split at hok
  case isTrue =>
    cases hok
    exact Or.inl ⟨rfl, rfl⟩
  case isFalse hblock =>
    right
    obtain ⟨⟨io₁, bytes⟩, hread, hrest⟩ := Except.bind_eq_ok.mp hok
    refine ⟨Nat.lt_of_not_le (mt ge_diskSize_iff.mpr hblock), io₁, bytes, hread, ?_⟩
    dsimp only at hrest
    split at hrest
    case isTrue =>
      cases hrest
      exact Or.inl ⟨rfl, rfl⟩
    case isFalse =>
      obtain ⟨⟨flag, s⟩, hloop, hend⟩ := Except.bind_eq_ok.mp hrest
      refine Or.inr ⟨flag, s, hloop, ?_⟩
      cases flag with
      | true =>
        cases hend
        exact ⟨rfl, rfl, Or.inr rfl⟩
      -- the head is set to null when a header was refused
      | false =>
        cases hend
        exact ⟨rfl, rfl, Or.inl rfl⟩

/-- The reader leaves the disk alone. A list with nodes comes from a block of the disk, and it ends
in a null pointer after at most `elfSize` nodes. -/
theorem elfReader_spec {io io' : CachedDisk} {elfRead : ElfreadList} {elfNodes' : ElfNodes}
    (hs : Settled io)
    (hok : elfReader wild startBlock startOff endBlock endOff io elfNodes =
      .ok (elfRead, io', elfNodes')) :
    Settled io' ∧ io'.disk = io.disk ∧
      (elfRead.head ≠ none → startBlock.toNat < diskSize) ∧
      ∃ nodes, LinkedList.IsList (fun i => (elfNodes' i).next) elfRead.head nodes ∧
        nodes.length ≤ elfSize := by
  have hnil : elfRead.head = none → ∃ nodes,
      LinkedList.IsList (fun i => (elfNodes' i).next) elfRead.head nodes ∧
        nodes.length ≤ elfSize :=
    fun hnone => ⟨[], hnone, Nat.zero_le _⟩
  rcases elfReader_eq_ok hok with ⟨hnone, rfl⟩ | ⟨hlt, io₁, bytes, hread, hrest⟩
  · exact ⟨hs, rfl, fun h => absurd hnone h, hnil hnone⟩
  obtain ⟨hio₁, hdisk₁⟩ := readBytes_readOnly hs hread
  rcases hrest with ⟨hnone, rfl⟩ | ⟨flag, s, hloop, rfl, rfl, hlist⟩
  · exact ⟨hio₁, hdisk₁, fun _ => hlt, hnil hnone⟩
  obtain ⟨hio, hdisk, nodes, hnodes⟩ :=
    readProgramHeaders_spec hio₁ (ElfReaderState.lists_nil (by rfl) (by rfl)) hloop
  refine ⟨hio, hdisk.trans hdisk₁, fun _ => hlt, ?_⟩
  rcases hlist with hnone | rfl
  · exact hnil hnone
  -- the nodes of a list are distinct, and there are only `elfSize`
  · exact ⟨nodes, hnodes.isList, by simpa using List.Nodup.length_le_card hnodes.nodup⟩

end Lists

end R5O5
