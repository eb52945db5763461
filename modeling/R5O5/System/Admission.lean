import R5O5.Kernel.CreateProcess.Admission
import R5O5.System.Image

/-!
# Which files become processes

A file on the disk image becomes a process, in whatever state the kernel has come to, when its
headers are acceptable, its stack does not meet its segments, and there are a slot and enough frames
left. This depends on the file and on the processes created so far, and on nothing else.

## Main definitions

- `FileFits`: what a file needs, by its contents.

## Main results

- `System.file_created_iff`: when a file becomes a process.
-/

namespace R5O5

/-- The stack of a file does not meet its segments, and its pages take at most `free` frames. -/
structure FileFits (contents : List (BitVec 8)) (free : ℕ) : Prop where
  stack : StackFree (fileSegments contents)
  frames : 1 + frameDemand (programPages (fileSegments contents)) ≤ free

section Files

variable {segs : List Elfread} {program : Program} {contents : List (BitVec 8)} {free : ℕ}
  {disk : ℕ → BitVec 8}

/-- The stack does not depend on the links between the nodes. -/
theorem stackFree_unlink : StackFree (segs.map Elfread.unlink) ↔ StackFree segs := by
  simp only [StackFree, firstStackPage, secondStackPage, stackBegin, addPages, List.foldl_map]
  rfl

/-- The contents of the segments of a file are on the disk, since the file is. -/
theorem fits_of_file_iff (hself : SelfContained contents)
    (hdisk : program.extentStart + contents.length < diskSize * bsize)
    (hoffset : program.startOffset.toNat < bsize)
    (hsegs : segs.map Elfread.unlink = fileSegments contents) :
    program.Fits segs free ↔ FileFits contents free := by
  have hstack : StackFree (fileSegments contents) ↔ StackFree segs := by
    rw [← hsegs, stackFree_unlink]
  have hpages : programPages (fileSegments contents) = programPages segs := by
    rw [← hsegs, programPages_unlink]
  constructor
  · intro h
    exact ⟨hstack.mpr h.stack, hpages ▸ h.frames⟩
  · intro h
    refine ⟨fun seg hseg => ?_, hstack.mp h.stack, hpages ▸ h.frames⟩
    have hin := hself.segments seg.unlink (hsegs ▸ List.mem_map_of_mem hseg)
    change seg.off.toNat + seg.filesz.toNat ≤ contents.length at hin
    have hpos : program.segmentPos seg = program.extentStart + seg.off.toNat := by
      rw [Program.segmentPos, Program.extentStart, BitVec.toNat_add]
      simp only [bsize, diskSize, Program.extentStart] at *
      omega
    rw [Program.ContentsOnDisk, hpos]
    omega

end Files

namespace System

/-- The frames and the slots of the processes, as for a kernel that only creates processes. -/
def Charged (K : KernelImage) (s : System) : Prop :=
  Processes.Charged K { kernel := s.kernel, created := s.created }

section Charged

variable {K : KernelImage} {v : TrapVectors} {links : Ring.Links BufRef} {disk : ℕ → BitVec 8}
  {mem : Mem} {elfNodes : ElfNodes} {table : ProcessTable} {csrs : Csrs} {wild : Wild}
  {s s' : System} {op : SystemOp} {ops : List SystemOp} {spaces : BitVec 64 → Option Space}
  {progs : List Mkfs.Program} {q : Mkfs.StoredProgram}

/-- All frames are free when `main` is done. -/
theorem charged_main (hzero : ∀ x : BitVec 64, x >>> 12 ∈ managed K → mem x = 0) :
    (main K v links disk mem elfNodes table csrs).Charged K :=
  Processes.charged_boot hzero

/-- Every call accounts for its frames. -/
theorem Inv.charged_step (h : Inv K disk spaces s) (hcharged : s.Charged K)
    (hstep : Step v wild s op s') : s'.Charged K := by
  -- a dispatch takes no slot
  have hslots : ∀ {hart : Hart} {pid : Pid}, s.Saves hart →
      ∀ pid', ((startHart v hart pid).table.pd pid').slotAllocated =
        (s.kernel.table.pd pid').slotAllocated := by
    intro hart pid hsaves pid'
    have hrun : ((startHart v hart pid).table.pd pid').slotAllocated =
        (hart.table.pd pid').slotAllocated := by
      by_cases heq : pid' = pid
      · rw [heq, startHart, ProcessTable.run_pd_self]
      · rw [startHart, ProcessTable.run_pd_of_ne _ _ heq]
    rw [hrun, Bool.eq_iff_iff, hsaves.filled.slot_iff, h.filled.slot_iff]
  cases hop : op.isDispatch with
  | true =>
    obtain ⟨hart, pid, hsaves, -, -, rfl⟩ := h.step_dispatch hstep hop
    exact Processes.Charged.of_eq hcharged h.log.settled rfl (hslots hsaves)
  | false =>
    cases hstep with
    | createProcess hok helf hnodes =>
      exact Processes.Charged.step hcharged (.createProcess hok helf hnodes)
    | logData hok =>
      exact Processes.Charged.of_eq hcharged (h.logData hok).log.settled rfl fun _ => rfl
    | dispatcher => cases hop
    | timer => cases hop

/-- The frames are accounted for in every run. -/
theorem charged_of_trace (hzero : ∀ x : BitVec 64, x >>> 12 ∈ managed K → mem x = 0)
    (hrun : Trace (Step v wild) (main K v links disk mem elfNodes table csrs) ops s) :
    s.Charged K := by
  have hboth : (∃ spaces, Inv K disk spaces s) ∧ s.Charged K :=
    hrun.invariant (I := fun s => (∃ spaces, Inv K disk spaces s) ∧ s.Charged K)
      ⟨⟨_, inv_main hzero⟩, charged_main hzero⟩
      fun _ _ _ ⟨⟨_, h⟩, hcharged⟩ hstep => ⟨h.step hstep, h.charged_step hcharged hstep⟩
  exact hboth.2

/-- A file that is intact on the image becomes a process when it is acceptable and fits in. -/
theorem Inv.exists_createProcess_iff
    (h : Inv K disk spaces s) (hcharged : s.Charged K) (himage : HoldsImage disk progs)
    (hq : q ∈ (Mkfs.runMkfs progs).stored)
    (hintact : q.IntactOn (Mkfs.runMkfs progs).state.disk) (hself : SelfContained q.prog.contents)
    (wild : Wild) :
    (∃ r, R5O5.createProcess wild q.line.program s.kernel = .ok r) ↔
      s.created.length < nproc ∧ FileAccepted q.prog.contents ∧
        FileFits q.prog.contents (numPages - (s.created.map Created.frames).sum) := by
  have hvalid := Mkfs.stored_runMkfs progs q hq
  obtain ⟨hstored, hlength⟩ := storedAt_of_intactOn himage hq hintact s.logged
  have hoffset := hvalid.startOffset_program
  have hheader := hself.header
  have hsize : sizeofElfhdr.toNat = 64 := by decide
  -- the recorded extent is that of the file
  have hstart := hvalid.extentStart_eq
  have hlimit : Mkfs.procLimit = 300 * 1024 := by decide
  have hlast := hvalid.last_lt
  have hlen := hintact.1
  have hend := hvalid.extentEnd_eq (by omega)
  have hbound : q.line.program.extentStart + q.prog.contents.length < diskSize * bsize := by
    simp only [diskSize, bsize]
    omega
  have hdisk : s.kernel.io.disk = withLog disk s.logged := h.log.disk
  rw [← hdisk] at hstored
  have hextent : bytePos q.line.program.endBlock q.line.program.endOffset + 1 =
      bytePos q.line.program.startBlock q.line.program.startOffset + q.prog.contents.length := by
    change q.line.program.extentEnd + 1 = q.line.program.extentStart + _
    omega
  have haccepts : Accepts (elfReader wild q.line.program.startBlock q.line.program.startOffset
      q.line.program.endBlock q.line.program.endOffset s.kernel.io s.kernel.elfNodes) ↔
        FileAccepted q.prog.contents :=
    accepts_of_storedAt_iff h.log.settled hstored hself hoffset hextent hbound.le wild
  rw [Processes.Charged.exists_createProcess_iff hcharged wild q.line.program, ← haccepts]
  refine and_congr_right fun _ => ?_
  constructor
  · rintro ⟨elfRead, io, elfNodes, nodes, helf, hnodes, hhead, hfits⟩
    obtain ⟨nodes', hnodes', -, hsegments⟩ :=
      elfReader_of_storedAt h.log.settled hstored hself hlength hoffset helf hhead
    rw [hnodes] at hnodes'
    cases hnodes'
    exact ⟨⟨elfRead, io, elfNodes, helf, hhead⟩,
      (fits_of_file_iff hself hbound hoffset hsegments).mp hfits⟩
  · rintro ⟨⟨elfRead, io, elfNodes, helf, hhead⟩, hfits⟩
    obtain ⟨nodes, hnodes, -, hsegments⟩ :=
      elfReader_of_storedAt h.log.settled hstored hself hlength hoffset helf hhead
    exact ⟨elfRead, io, elfNodes, nodes, helf, hnodes, hhead,
      (fits_of_file_iff hself hbound hoffset hsegments).mpr hfits⟩

/-- On an image that is made by harmless calls, in every run of the kernel, a recorded file that
needs nothing outside of it becomes a process exactly when there is a slot left, its headers are
acceptable, its stack does not meet its segments, and there are enough frames besides those of the
processes created so far. -/
theorem file_created_iff
    (hharmless : ∀ pre prog, pre ++ [prog] <+: progs → (Mkfs.runMkfs pre).Harmless prog)
    (hzero : ∀ x : BitVec 64, x >>> 12 ∈ managed K → mem x = 0)
    (hrun : Trace (Step v wild) (main K v links (Mkfs.runMkfs progs).state.disk.bytes mem elfNodes
      table csrs) ops s)
    (hq : q ∈ (Mkfs.runMkfs progs).stored) (hself : SelfContained q.prog.contents) :
    (∃ r, R5O5.createProcess wild q.line.program s.kernel = .ok r) ↔
      s.created.length < nproc ∧ FileAccepted q.prog.contents ∧
        FileFits q.prog.contents (numPages - (s.created.map Created.frames).sum) := by
  obtain ⟨spaces, h⟩ := inv_of_trace hzero hrun
  exact h.exists_createProcess_iff (charged_of_trace hzero hrun) (fun _ _ => rfl) hq
    (Mkfs.intact_of_harmless hharmless q hq) hself wild

end Charged

/-! ## The sample program as a file -/

section Sample

/-- The sample program in a file. -/
def sampleFile : Mkfs.Program := ⟨"a", Processes.sampleBytes⟩

/-- The call for the only file is harmless. -/
theorem harmless_sampleFile (pre : List Mkfs.Program) (prog : Mkfs.Program)
    (hpre : pre ++ [prog] <+: [sampleFile]) : (Mkfs.runMkfs pre).Harmless prog := by
  -- there is no file before it
  have hlength := hpre.length_le
  rw [List.length_append, List.length_singleton] at hlength
  obtain rfl : pre = [] := List.length_eq_zero_iff.mp (Nat.le_zero.mp (by simpa using hlength))
  intro _ t ht _ q hq
  cases hq

/-- The sample file needs nothing outside of it. -/
theorem selfContained_sampleFile : SelfContained sampleFile.contents where
  header := by decide
  headers := by decide +kernel
  segments := by decide +kernel

theorem fileAccepted_sampleFile : FileAccepted sampleFile.contents where
  magic := by decide +kernel
  passes i hi := by
    have hphnum : (elfHeader sampleFile.contents).phnum.toNat = 1 := by decide +kernel
    obtain rfl : i = 0 := by omega
    intro _
    refine ⟨⟨by decide +kernel, by decide +kernel, by decide +kernel⟩, by decide +kernel⟩
  segments := by decide +kernel

theorem fileFits_sampleFile : FileFits sampleFile.contents numPages where
  stack := by
    rw [StackFree]
    decide +kernel
  frames := by decide +kernel

/-- The file is put at the start of the program area. -/
theorem stored_sampleFile :
    ⟨sampleFile, ⟨"a", 100, 0, 100, 120⟩⟩ ∈ (Mkfs.runMkfs [sampleFile]).stored := by
  have hlength : (sampleFile.contents.length : ℤ) = 121 := rfl
  have hlimit : Mkfs.procLimit = 307200 := by decide
  rw [← List.nil_append [sampleFile], Mkfs.runMkfs_append_singleton,
    Mkfs.stored_store _ (Mkfs.wf_runMkfs [])]
  simp only [Mkfs.runMkfs, List.foldl_nil, Mkfs.Session.init, Mkfs.MkfsState.lineFor,
    Mkfs.MkfsState.cursor, hlength, hlimit]
  generalize Mkfs.buildDisk .create = disk
  rw [if_pos ⟨by decide, by decide⟩]
  exact List.mem_append_right _ (List.mem_singleton.mpr rfl)

/-- The kernel on the image with this file. -/
def fileMain : System := sampleMain (Mkfs.runMkfs [sampleFile]).state.disk.bytes

/-- The file becomes a process. -/
theorem file_created_iff_sample : ∃ r,
    R5O5.createProcess (fun _ _ _ => 0) (Mkfs.InfoLine.program ⟨"a", 100, 0, 100, 120⟩)
      fileMain.kernel = .ok r := by
  have hrun : Trace (Step Scheduler.sampleVectors fun _ _ _ => 0) fileMain [] fileMain := .refl
  have hiff := file_created_iff harmless_sampleFile (fun _ _ => rfl) hrun stored_sampleFile
    selfContained_sampleFile
  exact hiff.mpr ⟨by decide, fileAccepted_sampleFile, fileFits_sampleFile⟩

/-- That process is what the file says: one page, with the byte of the segment. -/
theorem file_of_created_sample : ∃ (s : System) (p : Created), p ∈ s.created ∧
    p.entry = 0 ∧
    readVirtual s.kernel.paging.mem (s.kernel.table.pd p.pid).sa.satp 0 = some 0x13 := by
  have h : Inv Tables.sampleKernel (Mkfs.runMkfs [sampleFile]).state.disk.bytes (fun _ => none)
    fileMain := inv_main fun _ _ => rfl
  have hcharged : fileMain.Charged Tables.sampleKernel := charged_main fun _ _ => rfl
  have hintact := Mkfs.intact_of_harmless harmless_sampleFile _ stored_sampleFile
  obtain ⟨⟨pid, kernel⟩, hok⟩ := (h.exists_createProcess_iff hcharged (fun _ _ => rfl)
    stored_sampleFile hintact selfContained_sampleFile fun _ _ _ => 0).mpr
    ⟨by decide, fileAccepted_sampleFile, fileFits_sampleFile⟩
  obtain ⟨s, hstep, -, -⟩ :=
    h.exists_createProcess (v := Scheduler.sampleVectors) (s := fileMain) hok
  have hrun : Trace (Step Scheduler.sampleVectors fun _ _ _ => 0) fileMain
    [.createProcess (Mkfs.InfoLine.program ⟨"a", 100, 0, 100, 120⟩)] s := Trace.refl.snoc hstep
  cases hstep with
  | createProcess hok helf hnodes =>
    obtain ⟨hentry, -, hmemory⟩ := file_of_created harmless_sampleFile (fun _ _ => rfl) hrun
      stored_sampleFile selfContained_sampleFile (List.mem_append_right _ List.mem_cons_self) rfl
    refine ⟨_, _, List.mem_append_right _ List.mem_cons_self, ?_, (hmemory 0).trans ?_⟩
    · rw [hentry]
      decide +kernel
    · have hpage : spaceAddr 0 / pgsize ∈ programPages (fileSegments sampleFile.contents) := by
        decide +kernel
      rw [if_pos hpage]
      exact congrArg some (by decide +kernel)

end Sample

end System

end R5O5
