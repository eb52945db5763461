import R5O5.Kernel.Debug.Rounds
import R5O5.System.Admission

/-!
# One boot after the other

The kernel is started any number of times on the disk that the last run has left, with its memory
cleared in between; it may be switched off at any moment, also while a string is logged, and it
stops when its log is full. The programs on the disk stay as they are. Each run writes its log over
that of the run before, from the start, so the log region holds the newest log with what stands
behind it in the older ones.

## Main definitions

- `System.Boots`: some runs of the kernel one after the other;
- `overlay`: what is left of their logs.

## Main results

- `System.disk_of_cut`: what a call of `logData` that is cut off leaves;
- `System.boots_keep_files`: the files, the processes and the log in the runs that follow.
-/

namespace R5O5

/-- The newest of some texts that are written to one place, over the older ones. -/
def overlay (texts : List (List (BitVec 8))) : List (BitVec 8) :=
  texts.foldl (fun old new => new ++ old.drop new.length) []

theorem overlay_append_singleton (texts : List (List (BitVec 8))) (text : List (BitVec 8)) :
    overlay (texts ++ [text]) = text ++ (overlay texts).drop text.length := by
  rw [overlay, List.foldl_append]
  rfl

/-- Writing a text over another one is writing the two of them, as far as they are left. -/
theorem writeRange_writeRange (disk : ℕ → BitVec 8) (start : ℕ) (old new : List (BitVec 8)) :
    writeRange (writeRange disk start old.length fun i => old.getD i 0) start new.length
        (fun i => new.getD i 0) =
      writeRange disk start (new ++ old.drop new.length).length
        fun i => (new ++ old.drop new.length).getD i 0 := by
  funext p
  simp only [writeRange, List.length_append, List.length_drop]
  by_cases hnew : start ≤ p ∧ p < start + new.length
  · rw [if_pos hnew, if_pos (by omega)]
    exact (List.getD_append _ _ _ _ (by omega)).symm
  · rw [if_neg hnew]
    by_cases hold : start ≤ p ∧ p < start + old.length
    · rw [if_pos hold, if_pos (by omega), List.getD_append_right _ _ _ _ (by omega)]
      simp only [List.getD_eq_getElem?_getD, List.getElem?_drop]
      congr 2
      omega
    · rw [if_neg hold, if_neg (by omega)]

namespace System

/-- The kernel is started on this disk, runs in any way and is switched off, some times; `logs` is
what each run has brought to the disk, and the other disk is what they leave. -/
inductive Boots (K : KernelImage) (disk : ℕ → BitVec 8) :
    List (List (BitVec 8)) → (ℕ → BitVec 8) → Prop
  | off : Boots K disk [] disk
  | boot {logs : List (List (BitVec 8))} {disk' : ℕ → BitVec 8} {v : TrapVectors}
      {links : Ring.Links BufRef} {mem : Mem} {elfNodes : ElfNodes} {table : ProcessTable}
      {csrs : Csrs} {wild : Wild} {ops : List SystemOp} {s : System} :
      Boots K disk logs disk' → (∀ x : BitVec 64, x >>> 12 ∈ managed K → mem x = 0) →
      Trace (Step v wild) (main K v links disk' mem elfNodes table csrs) ops s →
      Boots K disk (logs ++ [s.logged]) s.kernel.io.disk
  /-- It is switched off in a call of `logData`: the last bytes are in the buffer only. -/
  | cut {logs : List (List (BitVec 8))} {disk' : ℕ → BitVec 8} {v : TrapVectors}
      {links : Ring.Links BufRef} {mem : Mem} {elfNodes : ElfNodes} {table : ProcessTable}
      {csrs : Csrs} {wild : Wild} {ops : List SystemOp} {s : System} {str : List (BitVec 8)}
      {buff : BufRef} {l : LogState} :
      Boots K disk logs disk' → (∀ x : BitVec 64, x >>> 12 ∈ managed K → mem x = 0) →
      Trace (Step v wild) (main K v links disk' mem elfNodes table csrs) ops s →
      logRounds str s.log = .ok (buff, l) →
      Boots K disk (logs ++ [s.logged ++ str.take (str.length - l.off.toNat)]) l.io.disk
  /-- It stops in `logData`, which finds the log full after `str`; the last block is written. -/
  | full {logs : List (List (BitVec 8))} {disk' : ℕ → BitVec 8} {v : TrapVectors}
      {links : Ring.Links BufRef} {mem : Mem} {elfNodes : ElfNodes} {table : ProcessTable}
      {csrs : Csrs} {wild : Wild} {ops : List SystemOp} {s : System} {str : List (BitVec 8)}
      {c : BitVec 8} {buff : BufRef} {l : LogState} {e : Stop} :
      Boots K disk logs disk' → (∀ x : BitVec 64, x >>> 12 ∈ managed K → mem x = 0) →
      Trace (Step v wild) (main K v links disk' mem elfNodes table csrs) ops s →
      logRounds str s.log = .ok (buff, l) → logRound c buff l = .error e →
      Boots K disk (logs ++ [s.logged ++ str]) (release true buff l.io).disk

section Reboot

variable {K : KernelImage} {v : TrapVectors} {links : Ring.Links BufRef} {disk disk' : ℕ → BitVec 8}
  {mem : Mem} {elfNodes : ElfNodes} {table : ProcessTable} {csrs : Csrs} {wild : Wild}
  {s : System} {ops : List SystemOp} {logs : List (List (BitVec 8))} {progs : List Mkfs.Program}
  {spaces : BitVec 64 → Option Space}

/-- The runs write to the log region only. -/
theorem Boots.disk_eq (h : Boots K disk logs disk') : disk' = withLog disk (overlay logs) := by
  induction h with
  | off => exact (writeRange_zero ..).symm
  | boot _ hzero hrun ih =>
    obtain ⟨spaces, hinv⟩ := inv_of_trace hzero hrun
    refine Eq.trans hinv.log.disk ?_
    rw [ih, overlay_append_singleton]
    exact writeRange_writeRange ..
  | cut _ hzero hrun hrounds ih =>
    obtain ⟨spaces, hinv⟩ := inv_of_trace hzero hrun
    refine (hinv.log.logRounds hrounds).1.trans ?_
    rw [ih, overlay_append_singleton]
    exact writeRange_writeRange ..
  | full _ hzero hrun hrounds _ ih =>
    obtain ⟨spaces, hinv⟩ := inv_of_trace hzero hrun
    refine (hinv.log.release_logRounds hrounds).trans ?_
    rw [ih, overlay_append_singleton]
    exact writeRange_writeRange ..

/-- A run is switched off in a call of `logData`, behind the round for the last byte of `str`. The
disk has all strings that were logged before, and `str` but for the bytes of the block that is being
filled, which are at most one block. -/
theorem disk_of_cut (hzero : ∀ x : BitVec 64, x >>> 12 ∈ managed K → mem x = 0)
    (hrun : Trace (Step v wild) (main K v links disk mem elfNodes table csrs) ops s)
    {str : List (BitVec 8)} {buff : BufRef} {l : LogState}
    (hcut : logRounds str s.log = .ok (buff, l)) :
    l.io.disk = withLog disk (s.logged ++ str.take (str.length - l.off.toNat)) ∧
    l.off.toNat ≤ bsize ∧
    ∀ rest, R5O5.logData (str ++ rest) s.log = logLoop rest buff l := by
  obtain ⟨spaces, h⟩ := inv_of_trace hzero hrun
  obtain ⟨hdisk, hoff⟩ := h.log.logRounds hcut
  refine ⟨hdisk, hoff, fun rest => ?_⟩
  rw [logData_append, hcut, Except.ok_bind]

/-- The image is made by harmless calls, and the kernel has been started on it any number of times
and switched off at any moment. In every state of the next run the disk is the image with the logs
of all runs, each over the older ones; the programs on it become processes on the same conditions as
in the first run, and those processes are what their files say; and the log file is the first block
of the logs. -/
theorem boots_keep_files
    (hharmless : ∀ pre prog, pre ++ [prog] <+: progs → (Mkfs.runMkfs pre).Harmless prog)
    (hboots : Boots K (Mkfs.runMkfs progs).state.disk.bytes logs disk')
    (hzero : ∀ x : BitVec 64, x >>> 12 ∈ managed K → mem x = 0)
    (hrun : Trace (Step v wild) (main K v links disk' mem elfNodes table csrs) ops s) :
    s.kernel.io.disk =
      withLog (Mkfs.runMkfs progs).state.disk.bytes (overlay (logs ++ [s.logged])) ∧
    (∀ q ∈ (Mkfs.runMkfs progs).stored, SelfContained q.prog.contents →
      ((∃ r, R5O5.createProcess wild q.line.program s.kernel = .ok r) ↔
        s.created.length < nproc ∧ FileAccepted q.prog.contents ∧
          FileFits q.prog.contents (numPages - (s.created.map Created.frames).sum)) ∧
      ∀ p ∈ s.created, p.program = q.line.program →
        p.entry = (elfHeader q.prog.contents).entry ∧
        p.segments.map Elfread.unlink = fileSegments q.prog.contents ∧
        ∀ virtualAddress,
          readVirtual s.kernel.paging.mem (s.kernel.table.pd p.pid).sa.satp virtualAddress =
            if spaceAddr virtualAddress / pgsize ∈
                programPages (fileSegments q.prog.contents) then
              some (fileImage q.prog.contents (spaceAddr virtualAddress))
            else none) ∧
    (Logs.getLogInfo (Logs.image (Mkfs.runMkfs progs).state.disk s.log)).contents =
      (overlay (logs ++ [s.logged]) ++ List.replicate bsize 32).take bsize := by
  obtain ⟨spaces, h⟩ := inv_of_trace hzero hrun
  have hdisk : s.kernel.io.disk =
      withLog (Mkfs.runMkfs progs).state.disk.bytes (overlay (logs ++ [s.logged])) :=
    (hboots.boot hzero hrun).disk_eq
  -- the logs lie behind the programs
  have himage : HoldsImage disk' progs := fun x hx => by
    rw [hboots.disk_eq, withLog_of_lt _ _ hx]
  refine ⟨hdisk, fun q hq hself => ?_, contents_of_withLog hdisk⟩
  have hintact := Mkfs.intact_of_harmless hharmless q hq
  exact ⟨h.exists_createProcess_iff (charged_of_trace hzero hrun) himage hq hintact hself wild,
    fun p hp hprogram => h.created_from_file himage hq hintact hself hp hprogram⟩

/-! ## A sample run -/

/-- A block and one more byte. -/
def longString : List (BitVec 8) := List.replicate 1025 104

/-- The machine can be switched off behind the round for the last byte. -/
theorem exists_cut (h : Inv K disk spaces s) (hlogged : s.logged = []) :
    ∃ (buff : BufRef) (l : LogState), logRounds longString s.log = .ok (buff, l) ∧
      l.off.toNat = 1 := by
  have hlength : longString.length = 1025 := List.length_replicate
  have hround : ∃ r, logRounds longString s.log = .ok r := by
    rcases h.log.logData_cases (longString ++ []) with ⟨l, hok, -⟩ | ⟨-, hlt⟩
    · rw [logData_append] at hok
      obtain ⟨r, hrounds, -⟩ := Except.bind_eq_ok.mp hok
      exact ⟨r, hrounds⟩
    · rw [hlogged, List.append_nil, List.nil_append, hlength] at hlt
      exact absurd hlt (by decide)
  obtain ⟨⟨buff, l⟩, hrounds⟩ := hround
  refine ⟨buff, l, hrounds, ?_⟩
  -- the position tells how many bytes are in the block that is being filled
  obtain ⟨hpos, hoff, -⟩ := (h.log.midway hrounds).position
  rw [hlogged, List.nil_append, hlength] at hpos
  simp only [bsize, logStart] at hpos hoff
  omega

/-- Of a string that crosses the end of a block, the first block is on the disk and the byte behind
it is not. -/
theorem disk_of_cut_long : ∃ (buff : BufRef) (l : LogState),
    logRounds longString (sampleMain fun _ => 0).log = .ok (buff, l) ∧
    l.io.disk = withLog (fun _ => 0) (List.replicate 1024 104) := by
  have h : Inv Tables.sampleKernel (fun _ => 0) (fun _ => none) (sampleMain fun _ => 0) :=
    inv_main fun _ _ => rfl
  obtain ⟨buff, l, hcut, hoff⟩ := exists_cut h rfl
  have hrun : Trace (Step Scheduler.sampleVectors fun _ _ _ => 0) (sampleMain fun _ => 0) []
    (sampleMain fun _ => 0) := .refl
  have hdisk := (disk_of_cut (fun _ _ => rfl) hrun hcut).1
  rw [hoff, longString, List.length_replicate, List.take_replicate] at hdisk
  exact ⟨buff, l, hcut, hdisk⟩

/-- A run is switched off while it logs; in the next one the file on the disk becomes a process, and
the block that was logged is extracted. -/
theorem boots_keep_files_cut : ∃ (disk' : ℕ → BitVec 8) (s : System) (p : Created),
    Boots Tables.sampleKernel (Mkfs.runMkfs [sampleFile]).state.disk.bytes
      [List.replicate 1024 104] disk' ∧
    Trace (Step Scheduler.sampleVectors fun _ _ _ => 0) (sampleMain disk')
      [.createProcess (Mkfs.InfoLine.program ⟨"a", 100, 0, 100, 120⟩)] s ∧
    s.created = [p] ∧
    readVirtual s.kernel.paging.mem (s.kernel.table.pd p.pid).sa.satp 0 = some 0x13 ∧
    (Logs.getLogInfo (Logs.image (Mkfs.runMkfs [sampleFile]).state.disk s.log)).contents =
      List.replicate 1024 104 := by
  have h₀ : Inv Tables.sampleKernel (Mkfs.runMkfs [sampleFile]).state.disk.bytes (fun _ => none)
    fileMain := inv_main fun _ _ => rfl
  obtain ⟨buff, l, hcut, hoff⟩ := exists_cut h₀ rfl
  have hfirst : Trace (Step Scheduler.sampleVectors fun _ _ _ => 0) fileMain [] fileMain := .refl
  have hboots := Boots.off.cut (fun _ _ => rfl) hfirst hcut
  have hlogs : [] ++ [fileMain.logged ++ longString.take (longString.length - l.off.toNat)] =
      [List.replicate 1024 104] := by
    rw [hoff, longString, List.length_replicate, List.take_replicate]
    rfl
  rw [hlogs] at hboots
  -- the file is still there
  have h : Inv Tables.sampleKernel l.io.disk (fun _ => none) (sampleMain l.io.disk) :=
    inv_main fun _ _ => rfl
  have hcharged : (sampleMain l.io.disk).Charged Tables.sampleKernel := charged_main fun _ _ => rfl
  have himage : HoldsImage l.io.disk [sampleFile] := fun x hx => by
    rw [hboots.disk_eq, withLog_of_lt _ _ hx]
  have hintact := Mkfs.intact_of_harmless harmless_sampleFile _ stored_sampleFile
  obtain ⟨⟨pid, kernel⟩, hok⟩ := (h.exists_createProcess_iff hcharged himage stored_sampleFile
    hintact selfContained_sampleFile fun _ _ _ => 0).mpr
    ⟨nproc_pos, fileAccepted_sampleFile, fileFits_sampleFile⟩
  obtain ⟨s, hstep, -, -⟩ := h.exists_createProcess (v := Scheduler.sampleVectors)
    (s := sampleMain l.io.disk) hok
  have hrun : Trace (Step Scheduler.sampleVectors fun _ _ _ => 0) (sampleMain l.io.disk)
    [.createProcess (Mkfs.InfoLine.program ⟨"a", 100, 0, 100, 120⟩)] s := Trace.refl.snoc hstep
  obtain ⟨-, hfiles, hlog⟩ := boots_keep_files harmless_sampleFile hboots (fun _ _ => rfl) hrun
  cases hstep with
  | createProcess hok helf hnodes =>
    refine ⟨_, _, _, hboots, hrun, rfl, ?_, hlog.trans ?_⟩
    · obtain ⟨-, hprocess⟩ := hfiles _ stored_sampleFile selfContained_sampleFile
      obtain ⟨-, -, hmemory⟩ := hprocess _ List.mem_cons_self rfl
      have hpage : spaceAddr 0 / pgsize ∈ programPages (fileSegments sampleFile.contents) := by
        decide +kernel
      refine (hmemory 0).trans ?_
      rw [if_pos hpage]
      exact congrArg some (by decide +kernel)
    · have hoverlay : overlay ([List.replicate 1024 104] ++ [[]]) =
          (List.replicate 1024 104 : List (BitVec 8)) := by
        rw [overlay_append_singleton, List.length_nil, List.drop_zero, List.nil_append, overlay,
          List.foldl_cons, List.foldl_nil, List.drop_nil, List.append_nil]
      show (overlay ([List.replicate 1024 104] ++ [[]]) ++ List.replicate bsize 32).take bsize = _
      rw [hoverlay]
      exact List.take_left' List.length_replicate

end Reboot

end System

end R5O5
