import R5O5.Logs
import R5O5.Mkfs.Image
import R5O5.System.Start

/-!
# From the disk image to the processes and back

The image is made from program files by `mkfs/r5o5_mkfs.c`, the kernel runs on it, and
`logs/getLogInfo.c` takes the log from it. The log region is behind the program area, so that
logging does not touch the programs, and creating processes writes nothing to the disk.

## Main definitions

- `InfoLine.program`: the arguments of `createProcess` for a line of the information file.

## Main results

- `System.file_of_created`: a process is what its file says;
- `System.extracted_log`: the log file holds what was logged.
-/

namespace R5O5

/-- The place of a program that a line of the information file records. -/
def Mkfs.InfoLine.program (line : Mkfs.InfoLine) : R5O5.Program where
  startBlock := BitVec.ofInt 64 line.startBlock
  startOffset := BitVec.ofInt 64 line.startOffset
  endBlock := BitVec.ofInt 64 line.endBlock
  endOffset := BitVec.ofInt 64 line.endOffset

section Positions

variable {line : Mkfs.InfoLine} {p : Created}

theorem toNat_ofInt_of_lt {x : ℤ} (hnonneg : 0 ≤ x) (hlt : x < 2 ^ 64) :
    ((BitVec.ofInt 64 x).toNat : ℤ) = x := by
  rw [BitVec.toNat_ofInt, Int.toNat_of_nonneg (Int.emod_nonneg _ (by decide))]
  exact Int.emod_eq_of_lt hnonneg hlt

/-- The kernel computes the recorded position. -/
theorem Mkfs.InfoLine.Valid.extentStart_eq (h : line.Valid) :
    (line.program.extentStart : ℤ) = line.start := by
  have hstart := h.start_le
  have hlimit : Mkfs.procLimit = 300 * 1024 := by decide
  have hdef : line.start = 1024 * line.startBlock + line.startOffset := rfl
  have hlt := h.startOffset_lt
  have hnonneg := h.startOffset_nonneg
  have hblock := toNat_ofInt_of_lt h.startBlock_nonneg (by omega)
  have hoffset := toNat_ofInt_of_lt h.startOffset_nonneg (by
    simp only [Mkfs.blockSize] at hlt
    omega)
  rw [R5O5.Program.extentStart, Mkfs.InfoLine.program]
  push_cast
  rw [hblock, hoffset, hdef, bsize]
  ring

/-- The same for the end, which is not empty. -/
theorem Mkfs.InfoLine.Valid.extentEnd_eq (h : line.Valid) (hpos : 0 ≤ line.last) :
    (line.program.extentEnd : ℤ) = line.last := by
  have hlast := h.last_lt
  have hlimit : Mkfs.procLimit = 300 * 1024 := by decide
  have hdef : line.last = 1024 * line.endBlock + line.endOffset := rfl
  have hlt := h.endOffset_lt
  have hnonneg := h.endOffset_nonneg
  simp only [Mkfs.blockSize] at hlt
  have hblock := toNat_ofInt_of_lt (x := line.endBlock) (by omega) (by omega)
  have hoffset := toNat_ofInt_of_lt h.endOffset_nonneg (by omega)
  rw [R5O5.Program.extentEnd, Mkfs.InfoLine.program]
  push_cast
  rw [hblock, hoffset, hdef, bsize]
  ring

theorem Mkfs.InfoLine.Valid.startOffset_program (h : line.Valid) :
    line.program.startOffset.toNat < bsize := by
  have hlt := h.startOffset_lt
  have hoffset := toNat_ofInt_of_lt h.startOffset_nonneg (by
    simp only [Mkfs.blockSize] at hlt
    omega)
  simp only [Mkfs.blockSize] at hlt
  show (BitVec.ofInt 64 line.startOffset).toNat < 1024
  omega

/-- The positions in front of the log region are not written by logging. -/
theorem withLog_of_lt (disk : ℕ → BitVec 8) (text : List (BitVec 8)) {p : ℕ}
    (hp : p < logStart * bsize) : withLog disk text p = disk p :=
  if_neg fun h => absurd h.1 (Nat.not_le_of_lt hp)

/-- The disk is the image of these files, up to the log region. -/
def HoldsImage (disk : ℕ → BitVec 8) (progs : List Mkfs.Program) : Prop :=
  ∀ x < logStart * bsize, disk x = (Mkfs.runMkfs progs).state.disk.bytes x

/-- A file that is intact on the image is there for the kernel, whatever is logged. -/
theorem storedAt_of_intactOn {disk : ℕ → BitVec 8} {progs : List Mkfs.Program}
    {q : Mkfs.StoredProgram} (himage : HoldsImage disk progs)
    (hq : q ∈ (Mkfs.runMkfs progs).stored)
    (hintact : q.IntactOn (Mkfs.runMkfs progs).state.disk) (text : List (BitVec 8)) :
    StoredAt (withLog disk text) q.line.program.extentStart q.prog.contents ∧
      q.prog.contents.length ≤ diskSize * bsize := by
  have hvalid := Mkfs.stored_runMkfs progs q hq
  have hstart := hvalid.extentStart_eq
  have hlast := hvalid.last_lt
  have hlength := hintact.1
  have hlimit : Mkfs.procLimit = 300 * 1024 := by decide
  constructor
  · intro i hi
    have hlt : q.line.program.extentStart + i < logStart * bsize := by
      simp only [logStart, bsize]
      omega
    rw [withLog_of_lt _ _ hlt, himage _ hlt, ← hintact.2 i hi, ← hstart]
    rfl
  · simp only [diskSize, bsize]
    omega

/-- A process that was read from a file on the disk is what the file says. -/
theorem Created.ReadFrom.file {disk : ℕ → BitVec 8} {contents : List (BitVec 8)}
    (h : p.ReadFrom disk) (hstored : StoredAt disk p.program.extentStart contents)
    (hself : SelfContained contents) (hlength : contents.length ≤ diskSize * bsize)
    (hoffset : p.program.startOffset.toNat < bsize) :
    p.entry = (elfHeader contents).entry ∧
      p.segments.map Elfread.unlink = fileSegments contents := by
  obtain ⟨wild, io, io', elfRead, elfNodes, elfNodes', nodes, hs, rfl, hok, hhead, hnodes, hentry,
    hsegments⟩ := h
  obtain ⟨nodes', hnodes', hentry', hsegments'⟩ :=
    elfReader_of_storedAt hs hstored hself hlength hoffset hok hhead
  rw [hnodes] at hnodes'
  cases hnodes'
  rw [hentry, hsegments]
  exact ⟨hentry', hsegments'⟩

end Positions

namespace System

section Image

variable {K : KernelImage} {v : TrapVectors} {links : Ring.Links BufRef} {mem : Mem}
  {elfNodes : ElfNodes} {table : ProcessTable} {csrs : Csrs} {wild : Wild} {s : System}
  {ops : List SystemOp} {progs : List Mkfs.Program} {q : Mkfs.StoredProgram} {p : Created}
  {disk : ℕ → BitVec 8} {spaces : BitVec 64 → Option Space}

/-- A process that was created for a file on the disk is what the file says. -/
theorem Inv.created_from_file (h : Inv K disk spaces s) (himage : HoldsImage disk progs)
    (hq : q ∈ (Mkfs.runMkfs progs).stored)
    (hintact : q.IntactOn (Mkfs.runMkfs progs).state.disk) (hself : SelfContained q.prog.contents)
    (hp : p ∈ s.created) (hprogram : p.program = q.line.program) :
    p.entry = (elfHeader q.prog.contents).entry ∧
    p.segments.map Elfread.unlink = fileSegments q.prog.contents ∧
    ∀ virtualAddress,
      readVirtual s.kernel.paging.mem (s.kernel.table.pd p.pid).sa.satp virtualAddress =
        if spaceAddr virtualAddress / pgsize ∈ programPages (fileSegments q.prog.contents) then
          some (fileImage q.prog.contents (spaceAddr virtualAddress))
        else none := by
  obtain ⟨text, t, A, hcarries⟩ := h.carries p hp
  obtain ⟨hstored, hlength⟩ := storedAt_of_intactOn himage hq hintact text
  have hoffset := (Mkfs.stored_runMkfs progs q hq).startOffset_program
  rw [← hprogram] at hstored hoffset
  obtain ⟨hentry, hsegments⟩ := hcarries.read.file hstored hself hlength hoffset
  refine ⟨hentry, hsegments, fun virtualAddress => ?_⟩
  rw [hcarries.readVirtual h.refines, ← hsegments, programPages_unlink,
    programImage_of_storedAt hstored hself hlength hoffset hsegments]

/-- Files are put on the disk image by calls that do no harm to each other, and the kernel runs on
it in any way. Then a process that was created for a line of the information file has the entry and
the segments of the file of this line, and what is read through its page table are its pages and
bytes; for files that need nothing outside of them. -/
theorem file_of_created
    (hharmless : ∀ pre prog, pre ++ [prog] <+: progs → (Mkfs.runMkfs pre).Harmless prog)
    (hzero : ∀ x : BitVec 64, x >>> 12 ∈ managed K → mem x = 0)
    (hrun : Trace (Step v wild) (main K v links (Mkfs.runMkfs progs).state.disk.bytes mem elfNodes
      table csrs) ops s)
    (hq : q ∈ (Mkfs.runMkfs progs).stored) (hself : SelfContained q.prog.contents)
    (hp : p ∈ s.created) (hprogram : p.program = q.line.program) :
    p.entry = (elfHeader q.prog.contents).entry ∧
    p.segments.map Elfread.unlink = fileSegments q.prog.contents ∧
    ∀ virtualAddress,
      readVirtual s.kernel.paging.mem (s.kernel.table.pd p.pid).sa.satp virtualAddress =
        if spaceAddr virtualAddress / pgsize ∈ programPages (fileSegments q.prog.contents) then
          some (fileImage q.prog.contents (spaceAddr virtualAddress))
        else none := by
  obtain ⟨spaces, h⟩ := inv_of_trace hzero hrun
  exact h.created_from_file (fun _ _ => rfl) hq (Mkfs.intact_of_harmless hharmless q hq) hself hp
    hprogram

/-- The log file that is made from an image with some text in the log region: the first block of
the text, with spaces behind it. -/
theorem contents_of_withLog {l : LogState} {text : List (BitVec 8)}
    (hdisk : l.io.disk = withLog (Mkfs.runMkfs progs).state.disk.bytes text) :
    (Logs.getLogInfo (Logs.image (Mkfs.runMkfs progs).state.disk l)).contents =
      (text ++ List.replicate bsize 32).take bsize := by
  rw [Logs.contents_getLogInfo (Mkfs.size_runMkfs progs)]
  refine List.ext_getElem ?_ fun i hi hi' => ?_
  · rw [List.length_map, List.length_range, List.length_take, List.length_append,
      List.length_replicate, Logs.bsize, bsize]
    omega
  · rw [List.length_map, List.length_range] at hi
    have hstart : Logs.logStart * Logs.bsize = logStart * bsize := rfl
    have hlimit : Mkfs.procLimit = 300 * 1024 := by decide
    rw [List.getElem_map, List.getElem_range, List.getElem_take, hstart, hdisk, withLog, writeRange]
    by_cases hlog : i < text.length
    · rw [if_pos (by omega), List.getElem_append_left hlog, Nat.add_sub_cancel_left]
      exact List.getD_eq_getElem _ _ hlog
    · rw [if_neg (by omega), List.getElem_append_right (Nat.le_of_not_lt hlog),
        List.getElem_replicate, Mkfs.bytes_runMkfs_of_procLimit_le]
      · simp only [logStart, bsize]
        omega
      · simp only [logStart, bsize, Mkfs.diskSize, Mkfs.blockSize, Logs.bsize] at *
        omega

/-- The disk of every run is the image with the strings logged so far in the log region, where the
next string is accepted as long as it fits. The log file that is made from it holds the first block
of this region: the strings with spaces behind them. -/
theorem extracted_log (hzero : ∀ x : BitVec 64, x >>> 12 ∈ managed K → mem x = 0)
    (hrun : Trace (Step v wild) (main K v links (Mkfs.runMkfs progs).state.disk.bytes mem elfNodes
      table csrs) ops s) :
    s.kernel.io.disk = withLog (Mkfs.runMkfs progs).state.disk.bytes s.logged ∧
    (∀ str, (∃ l, R5O5.logData str s.log = .ok l) ↔ (s.logged ++ str).length ≤ logCapacity) ∧
    (Logs.getLogInfo (Logs.image (Mkfs.runMkfs progs).state.disk s.log)).contents =
      (s.logged ++ List.replicate bsize 32).take bsize := by
  obtain ⟨spaces, h⟩ := inv_of_trace hzero hrun
  have hdisk : s.kernel.io.disk = withLog (Mkfs.runMkfs progs).state.disk.bytes s.logged :=
    h.log.disk
  refine ⟨hdisk, fun str => ?_, ?_⟩
  · rcases h.log.logData_cases str with ⟨l, hok, hholds⟩ | ⟨herr, hlt⟩
    · exact iff_of_true ⟨l, hok⟩ hholds.fits
    · refine iff_of_false ?_ (Nat.not_le_of_lt hlt)
      rintro ⟨l, hok⟩
      rw [herr] at hok
      cases hok
  · exact contents_of_withLog hdisk

/-- A string that is logged on an image without programs is extracted. -/
theorem extracted_log_hello : ∃ s : System,
    Trace (Step Scheduler.sampleVectors fun _ _ _ => 0)
      (sampleMain (Mkfs.runMkfs []).state.disk.bytes) [.logData [104, 105]] s ∧
    (Logs.getLogInfo (Logs.image (Mkfs.runMkfs []).state.disk s.log)).contents =
      ([104, 105] ++ List.replicate bsize 32 : List (BitVec 8)).take bsize := by
  have h : Inv Tables.sampleKernel (Mkfs.runMkfs []).state.disk.bytes (fun _ => none)
    (sampleMain (Mkfs.runMkfs []).state.disk.bytes) := inv_main fun _ _ => rfl
  rcases h.log.logData_cases [104, 105] with ⟨l, hok, -⟩ | ⟨-, hlt⟩
  case inr =>
    change logCapacity < 2 at hlt
    exact absurd hlt (by decide)
  have hrun : Trace (Step Scheduler.sampleVectors fun _ _ _ => 0)
    (sampleMain (Mkfs.runMkfs []).state.disk.bytes) [.logData [104, 105]] _ :=
    Trace.refl.snoc (.logData hok)
  exact ⟨_, hrun, (extracted_log (fun _ _ => rfl) hrun).2.2⟩

end Image

end System

end R5O5
