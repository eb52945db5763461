import R5O5.Kernel.CreateProcess.File
import R5O5.Kernel.Debug.Log
import R5O5.Kernel.Scheduling.Order

/-!
# The whole kernel

Runs of the kernel after `main` has set it up: processes are created, strings are logged, and
processes are dispatched, in any order. The log and the loader share the buffer cache, and all
processes the page allocator and the process table. Requests to the disk are synchronous, and
neither user code nor the stores of `uservec` below the user's `sp` write to memory here.

## Main definitions

- `System`: the state of the kernel and of the hart, with what has happened so far;
- `System.main`: the state that `main` sets up;
- `System.Step`: one call that returns;
- `System.Inv`: the invariant of the runs.

## Main results

- `System.inv_of_trace`: the invariant holds in every run;
- `System.dispatched_in_order`: which processes have been dispatched, and what the next dispatch
  does.
-/

namespace R5O5

/-- The kernel, the position of its log, the registers of the hart; the processes created, the
strings logged and the processes dispatched so far. -/
structure System where
  kernel : Kernel
  blockNo : BitVec 64
  off : BitVec 64
  csrs : Csrs
  created : List Created
  logged : List (BitVec 8)
  dispatched : List Pid

/-- What happens in a run. -/
inductive SystemOp
  | createProcess (program : Program)
  | logData (str : List (BitVec 8))
  | dispatcher
  /-- A machine-timer interrupt in user mode. -/
  | timer (u : UserState)

namespace SystemOp

def isDispatch : SystemOp → Bool
  | dispatcher => true
  | timer _ => true
  | _ => false

end SystemOp

/-- `kernelInterruptInit`. -/
def kernelInterruptInit (v : TrapVectors) (c : Csrs) : Csrs :=
  { intrAllOff c with mtvec := v.kernelvec }

namespace System

/-- The part of the state that `logData` works on. -/
def log (s : System) : LogState := { io := s.kernel.io, blockNo := s.blockNo, off := s.off }

/-- The part of the state that the dispatching functions work on. -/
def hart (s : System) : Hart := { table := s.kernel.table, csrs := s.csrs }

/-- The state after some strings are logged. -/
def afterLog (s : System) (l : LogState) (str : List (BitVec 8)) : System :=
  { s with
    kernel := { s.kernel with io := l.io }
    blockNo := l.blockNo
    off := l.off
    logged := s.logged ++ str }

/-- The state after a dispatch. -/
def afterDispatch (s : System) (h : Hart) : System :=
  { s with
    kernel := { s.kernel with table := h.table }
    csrs := h.csrs
    dispatched := s.dispatched ++ [h.table.currentProcess] }

/-- The state that `main` sets up: paging and interrupts off, then `binit`, `logDataInit`,
`pageAllocInit` and `procesDescriptorInit`. -/
def main (K : KernelImage) (v : TrapVectors) (links : Ring.Links BufRef) (disk : ℕ → BitVec 8)
    (mem : Mem) (elfNodes : ElfNodes) (table : ProcessTable) (csrs : Csrs) : System :=
  let kernel := (Processes.boot K links disk mem elfNodes table).kernel
  let l := logDataInit kernel.io
  { kernel := { kernel with io := l.io }
    blockNo := l.blockNo
    off := l.off
    csrs := kernelInterruptInit v { csrs with satp := 0 }
    created := []
    logged := []
    dispatched := [] }

/-- One call that returns. -/
inductive Step (v : TrapVectors) (wild : Wild) : System → SystemOp → System → Prop
  | createProcess {s : System} {program : Program} {pid : Pid} {kernel : Kernel}
      {elfRead : ElfreadList} {io : CachedDisk} {elfNodes : ElfNodes} {nodes : List (Fin elfSize)} :
      R5O5.createProcess wild program s.kernel = .ok (pid, kernel) →
      elfReader wild program.startBlock program.startOffset program.endBlock program.endOffset
        s.kernel.io s.kernel.elfNodes = .ok (elfRead, io, elfNodes) →
      elfRead.nodes elfNodes = some nodes →
      Step v wild s (.createProcess program)
        { s with
          kernel
          created := s.created ++ [⟨program, pid, elfRead.entry, nodes.map elfNodes⟩] }
  | logData {s : System} {str : List (BitVec 8)} {l : LogState} :
      R5O5.logData str s.log = .ok l →
      Step v wild s (.logData str) (s.afterLog l str)
  | dispatcher {s : System} {h : Hart} :
      s.dispatched = [] →
      R5O5.dispatcher v s.hart = .ok h →
      Step v wild s .dispatcher (s.afterDispatch h)
  | timer {s : System} {u : UserState} {h : Hart} :
      s.dispatched ≠ [] →
      timerTrap v u s.hart = .ok h →
      Step v wild s (.timer u) (s.afterDispatch h)

end System

/-- A disk with this text in the log region. -/
def withLog (disk : ℕ → BitVec 8) (text : List (BitVec 8)) : ℕ → BitVec 8 :=
  writeRange disk (logStart * bsize) text.length fun i => text.getD i 0

/-- The entry and the segments of a process are what the reader finds on this disk. -/
def Created.ReadFrom (p : Created) (disk : ℕ → BitVec 8) : Prop :=
  ∃ wild io io' elfRead elfNodes elfNodes' nodes, Settled io ∧ io.disk = disk ∧
    elfReader wild p.program.startBlock p.program.startOffset p.program.endBlock
      p.program.endOffset io elfNodes = .ok (elfRead, io', elfNodes') ∧
    elfRead.head ≠ none ∧ elfRead.nodes elfNodes' = some nodes ∧
    p.entry = elfRead.entry ∧ p.segments = nodes.map elfNodes'

namespace System

/-- The page table of a process carries its program, as it was on the disk with `text` logged. -/
structure Carries (disk : ℕ → BitVec 8) (spaces : BitVec 64 → Option Space) (s : System)
    (p : Created) (text : List (BitVec 8)) (t : BitVec 64) (A : Space) : Prop where
  satp : (s.kernel.table.pd p.pid).sa.satp = t <<< 12
  space : spaces t = some A
  pages : A.pages = programPages p.segments
  bytes : A.bytes = programImage p.program (withLog disk text) p.segments
  read : p.ReadFrom (withLog disk text)
  logged : text <+: s.logged
  /-- Until it is dispatched, the process is to start at its entry, with its own stack. -/
  fresh : p.pid ∉ s.dispatched → (s.kernel.table.pd p.pid).sa.epc = p.entry ∧
    (s.kernel.table.pd p.pid).sa.reg spIndex =
      (stackBegin p.segments <<< 12) + 2 * BitVec.ofNat 64 pgsize

/-- The processes are created and dispatched in the order of their numbers. -/
structure Ordered (s : System) : Prop where
  created : s.created.map (fun p => p.pid.val) = List.range s.created.length
  dispatched : s.dispatched.map (fun pid => pid.val) = List.range s.dispatched.length
  filled : s.kernel.table.Filled s.created.length s.dispatched.length

/-- The invariant of the runs, over the address spaces of the page tables. -/
structure Inv (K : KernelImage) (disk : ℕ → BitVec 8) (spaces : BitVec 64 → Option Space)
    (s : System) : Prop extends s.Ordered where
  refines : Refines K spaces s.kernel.paging
  log : LogHolds disk s.logged s.log
  carries : ∀ p ∈ s.created, ∃ text t A, s.Carries disk spaces p text t A
  /-- The page table of the current process is the one that the hart was given. -/
  satp : s.dispatched ≠ [] →
    s.csrs.satp = (s.kernel.table.pd s.kernel.table.currentProcess).sa.satp

section Runs

variable {K : KernelImage} {v : TrapVectors} {links : Ring.Links BufRef} {disk : ℕ → BitVec 8}
  {mem : Mem} {elfNodes : ElfNodes} {table : ProcessTable} {csrs : Csrs} {wild : Wild}
  {s s' : System} {op : SystemOp} {ops : List SystemOp} {spaces : BitVec 64 → Option Space}

/-! ## The order of the processes -/

/-- No process has been created when `main` is done. -/
theorem ordered_main : (main K v links disk mem elfNodes table csrs).Ordered where
  created := rfl
  dispatched := rfl
  filled := .procesDescriptorInit _

/-- The numbers of the processes that have been dispatched. -/
theorem Ordered.mem_dispatched_iff (h : s.Ordered) {pid : Pid} :
    pid ∈ s.dispatched ↔ pid.val < s.dispatched.length := by
  rw [← List.mem_range, ← h.dispatched, List.mem_map]
  constructor
  · intro hmem
    exact ⟨pid, hmem, rfl⟩
  · rintro ⟨pid', hmem, heq⟩
    rwa [← Fin.ext heq]

/-- The numbers of the processes are below their count. -/
theorem Ordered.val_lt (h : s.Ordered) {p : Created} (hp : p ∈ s.created) :
    p.pid.val < s.created.length := by
  rw [← List.mem_range, ← h.created]
  exact List.mem_map_of_mem hp

/-- A new process gets the next number. -/
theorem Ordered.createProcess (h : s.Ordered) {program : Program} {p : Created} {kernel : Kernel}
    (hok : R5O5.createProcess wild program s.kernel = .ok (p.pid, kernel)) :
    Ordered { s with kernel, created := s.created ++ [p] } := by
  obtain ⟨hpid, hfilled⟩ := h.filled.createProcess hok
  constructor
  case created =>
    rw [List.map_append, h.created, List.length_append, List.length_singleton, List.range_succ,
      List.map_singleton, hpid]
  case dispatched => exact h.dispatched
  case filled =>
    rw [List.length_append, List.length_singleton]
    exact hfilled

/-- The hart after the dispatcher has selected a process. -/
def startHart (v : TrapVectors) (h : Hart) (pid : Pid) : Hart where
  table := h.table.run pid timeQuantum
  csrs := runProcess v (h.table.run pid timeQuantum) h.csrs

/-- The dispatcher selects the next process, or fails when there is none. -/
theorem dispatcher_cases {h : Hart}
    (hfilled : h.table.Filled s.created.length s.dispatched.length) (v : TrapVectors) :
    (∃ pid : Pid, pid.val = s.dispatched.length ∧ s.dispatched.length < s.created.length ∧
      R5O5.dispatcher v h = .ok (startHart v h pid)) ∨
    (s.dispatched.length = s.created.length ∧
      R5O5.dispatcher v h = .error (.error "selectProcessToRun: No Process To Run")) := by
  rw [R5O5.dispatcher]
  rcases hfilled.selectProcessToRun_cases with ⟨pid, hpid, hlt, hok⟩ | ⟨heq, herr⟩
  · rw [hok]
    exact Or.inl ⟨pid, hpid, hlt, rfl⟩
  · rw [herr]
    exact Or.inr ⟨heq, rfl⟩

/-- The process that runs next was not dispatched before. -/
theorem Ordered.afterDispatch (h : s.Ordered) {hart : Hart} {pid : Pid}
    (hfilled : hart.table.Filled s.created.length s.dispatched.length)
    (hpid : pid.val = s.dispatched.length) (hlt : s.dispatched.length < s.created.length) :
    (s.afterDispatch (startHart v hart pid)).Ordered := by
  constructor
  case created => exact h.created
  case dispatched =>
    show (s.dispatched ++ [pid]).map _ = List.range (s.dispatched ++ [pid]).length
    rw [List.map_append, h.dispatched, List.length_append, List.length_singleton, List.range_succ,
      List.map_singleton, hpid]
  case filled =>
    show ProcessTable.Filled _ _ (s.dispatched ++ [pid]).length
    rw [List.length_append, List.length_singleton]
    exact hfilled.run hpid hlt

/-- A timer interrupt saves registers, and moves no process. -/
theorem Ordered.filled_savedHart (h : s.Ordered) (v : TrapVectors) (u : UserState) :
    (savedHart v u s.hart).table.Filled s.created.length s.dispatched.length :=
  h.filled.modify_sa _ fun _ => { reg := u.reg, epc := u.pc, satp := s.csrs.satp }

/-- The next dispatch: the first one, or one for a timer interrupt. -/
def nextDispatch (v : TrapVectors) (u : UserState) (s : System) : Except Stop Hart :=
  if s.dispatched = [] then R5O5.dispatcher v s.hart else timerTrap v u s.hart

theorem Ordered.nextDispatch_eq (h : s.Ordered) (v : TrapVectors) (u : UserState) :
    ∃ hart : Hart, hart.table.Filled s.created.length s.dispatched.length ∧
      s.nextDispatch v u = R5O5.dispatcher v hart := by
  rw [nextDispatch]
  split
  case isTrue => exact ⟨_, h.filled, rfl⟩
  case isFalse => exact ⟨_, h.filled_savedHart v u, timerTrap_eq_dispatcher v u s.hart⟩

theorem Ordered.step (h : s.Ordered) (hstep : Step v wild s op s') : s'.Ordered := by
  have hdispatch : ∀ {hart hart' : Hart},
      hart.table.Filled s.created.length s.dispatched.length →
      R5O5.dispatcher v hart = .ok hart' → (s.afterDispatch hart').Ordered := by
    intro hart hart' hfilled hok
    rcases dispatcher_cases hfilled v with ⟨pid, hpid, hlt, hok'⟩ | ⟨-, herr⟩
    · rw [hok] at hok'
      cases hok'
      exact h.afterDispatch hfilled hpid hlt
    · rw [hok] at herr
      cases herr
  cases hstep with
  | createProcess hok => exact h.createProcess hok
  | logData => exact ⟨h.created, h.dispatched, h.filled⟩
  | dispatcher _ hok => exact hdispatch h.filled hok
  | timer _ hok =>
    rw [timerTrap_eq_dispatcher] at hok
    exact hdispatch (h.filled_savedHart v _) hok

/-- In every run the processes have the numbers from 0 on, in the order of their creation. They are
dispatched in this order, each once; then the next dispatch stops the kernel. -/
theorem dispatched_in_order
    (hrun : Trace (Step v wild) (main K v links disk mem elfNodes table csrs) ops s) :
    s.created.map (fun p => p.pid.val) = List.range s.created.length ∧
    s.dispatched.map (fun pid => pid.val) = List.range s.dispatched.length ∧
    s.dispatched.length ≤ s.created.length ∧ s.created.length ≤ nproc ∧
    (∀ pid ∈ s.dispatched, (s.kernel.table.pd pid).state = .running) ∧
    ∀ u, (s.dispatched.length < s.created.length →
        ∃ h, s.nextDispatch v u = .ok h ∧ h.table.currentProcess.val = s.dispatched.length) ∧
      (s.dispatched.length = s.created.length →
        s.nextDispatch v u = .error (.error "selectProcessToRun: No Process To Run")) := by
  have h : s.Ordered := hrun.invariant ordered_main fun _ _ _ h hstep => h.step hstep
  refine ⟨h.created, h.dispatched, h.filled.dispatched_le, h.filled.created_le, ?_, fun u => ?_⟩
  · intro pid hpid
    exact h.filled.running pid (h.mem_dispatched_iff.mp hpid)
  obtain ⟨hart, hfilled, heq⟩ := h.nextDispatch_eq v u
  rw [heq]
  rcases dispatcher_cases hfilled v with ⟨pid, hpid, hlt, hok⟩ | ⟨heq, herr⟩
  · exact ⟨fun _ => ⟨_, hok, hpid⟩, fun heq => absurd heq (Nat.ne_of_lt hlt)⟩
  · exact ⟨fun hlt => absurd heq (Nat.ne_of_lt hlt), fun _ => herr⟩

/-! ## The invariant -/

theorem inv_main (hzero : ∀ x : BitVec 64, x >>> 12 ∈ managed K → mem x = 0) :
    Inv K disk (fun _ => none) (main K v links disk mem elfNodes table csrs) where
  toOrdered := ordered_main
  refines := .pageAllocInit hzero
  log := logHolds_boot links disk
  carries _ hp := absurd hp List.not_mem_nil
  satp h := absurd rfl h

/-- A process carries its program as long as its descriptor and its address space stay. -/
theorem Carries.of_same {s s' : System} {spaces' : BitVec 64 → Option Space} {p : Created}
    {text : List (BitVec 8)} {t : BitVec 64} {A : Space} (h : s.Carries disk spaces p text t A)
    (hpd : s'.kernel.table.pd p.pid = s.kernel.table.pd p.pid) (hspace : spaces' t = spaces t)
    (hlogged : s.logged <+: s'.logged) (hdispatched : s'.dispatched = s.dispatched) :
    s'.Carries disk spaces' p text t A where
  satp := (congrArg (fun d => d.sa.satp) hpd).trans h.satp
  space := hspace.trans h.space
  pages := h.pages
  bytes := h.bytes
  read := h.read
  logged := h.logged.trans hlogged
  fresh hnot := by
    rw [hpd]
    exact h.fresh (hdispatched ▸ hnot)

/-- A process that was created stays as it is, and the new one carries its program. -/
theorem Inv.createProcess (h : Inv K disk spaces s) {program : Program} {pid : Pid}
    {kernel : Kernel} {elfRead : ElfreadList} {io : CachedDisk} {elfNodes : ElfNodes}
    {nodes : List (Fin elfSize)}
    (hok : R5O5.createProcess wild program s.kernel = .ok (pid, kernel))
    (helf : elfReader wild program.startBlock program.startOffset program.endBlock
      program.endOffset s.kernel.io s.kernel.elfNodes = .ok (elfRead, io, elfNodes))
    (hnodes : elfRead.nodes elfNodes = some nodes) :
    ∃ spaces', Inv K disk spaces'
      { s with
        kernel
        created := s.created ++ [⟨program, pid, elfRead.entry, nodes.map elfNodes⟩] } := by
  have hordered := h.toOrdered.createProcess
    (p := ⟨program, pid, elfRead.entry, nodes.map elfNodes⟩) hok
  obtain ⟨hpid, -⟩ := h.filled.createProcess hok
  obtain ⟨-, k₁, hload, rfl⟩ := createProcess_eq_ok hok
  obtain ⟨elfRead', io', elfNodes', nodes', helf', hnodes', hsettled, hdisk, t, A, hnone,
    hrefines, hpages, hbytes, htable⟩ := programLoader_spec h.refines h.log.settled hload
  rw [helf] at helf'
  cases helf'
  rw [hnodes] at hnodes'
  cases hnodes'
  have hpd : ∀ pid' ≠ pid,
      (k₁.modifyPd pid newDescriptor).table.pd pid' = s.kernel.table.pd pid' := by
    intro pid' hne
    rw [Kernel.modifyPd, htable, ProcessTable.modify_modify]
    exact Function.update_of_ne hne ..
  have hnotin : pid ∉ s.dispatched := by
    rw [h.mem_dispatched_iff]
    have hle := h.filled.dispatched_le
    omega
  have hmedium : s.kernel.io.disk = withLog disk s.logged := h.log.disk
  obtain ⟨_, _, _, _, _, _, _, _, _, _, helf₁, hhead, -⟩ := programLoader_eq_ok hload
  rw [helf] at helf₁
  cases helf₁
  refine ⟨Function.update spaces t (some A), ?_⟩
  constructor
  case toOrdered => exact hordered
  case refines => exact hrefines
  case log =>
    exact ⟨hsettled, h.log.fits, hdisk.trans h.log.disk,
      ⟨h.log.position.position, h.log.position.off_le, h.log.position.blockNo_lt⟩⟩
  case carries =>
    intro p hp
    rcases List.mem_append.mp hp with hp | hp
    · obtain ⟨text, t', A', hcarries⟩ := h.carries p hp
      have hlt := h.val_lt hp
      have hne : p.pid ≠ pid := by
        intro heq
        rw [heq] at hlt
        omega
      -- the new page table is not that of an earlier process
      have hother : t' ≠ t := by
        rintro rfl
        rw [hcarries.space] at hnone
        cases hnone
      exact ⟨text, t', A', hcarries.of_same (hpd p.pid hne) (Function.update_of_ne hother ..)
        (List.prefix_refl _) rfl⟩
    · rw [List.mem_singleton] at hp
      subst hp
      have hnew : (k₁.modifyPd pid newDescriptor).table.pd pid = newDescriptor
          (loadedDescriptor (s.kernel.table.pd pid) elfRead.entry (t <<< 12)
            (nodes.map elfNodes)) := by
        rw [Kernel.modifyPd, htable, ProcessTable.modify_modify, ProcessTable.modify_pd_self]
      refine ⟨s.logged, t, A, ?_⟩
      constructor
      case satp => exact congrArg (fun d => d.sa.satp) hnew
      case space => exact Function.update_self ..
      case pages => exact hpages
      case bytes => rw [hbytes, hmedium]
      case read =>
        exact ⟨wild, s.kernel.io, io, elfRead, s.kernel.elfNodes, elfNodes, nodes, h.log.settled,
          hmedium, helf, hhead, hnodes, rfl, rfl⟩
      case logged => exact List.prefix_refl _
      case fresh =>
        intro _
        dsimp only
        rw [hnew, newDescriptor, loadedDescriptor]
        dsimp only
        exact ⟨rfl, Function.update_self ..⟩
  case satp =>
    intro (hne : s.dispatched ≠ [])
    have hcurrent : s.kernel.table.currentProcess ≠ pid := by
      intro heq
      have hval := h.filled.current
      have hle := h.filled.dispatched_le
      have hpos := List.length_pos_iff.mpr hne
      rw [heq] at hval
      omega
    have hsame : (k₁.modifyPd pid newDescriptor).table.currentProcess =
        s.kernel.table.currentProcess := by
      rw [Kernel.modifyPd, htable, ProcessTable.modify_modify]
      rfl
    dsimp only
    rw [hsame, hpd _ hcurrent]
    exact h.satp hne

/-- A string is logged. -/
theorem Inv.logData (h : Inv K disk spaces s) {str : List (BitVec 8)} {l : LogState}
    (hok : R5O5.logData str s.log = .ok l) : Inv K disk spaces (s.afterLog l str) := by
  rcases h.log.logData_cases str with ⟨l', hok', hholds⟩ | ⟨herr, -⟩
  case inr =>
    rw [hok] at herr
    cases herr
  rw [hok] at hok'
  cases hok'
  exact
    { refines := h.refines
      log := hholds
      created := h.created
      dispatched := h.dispatched
      filled := h.filled
      carries := fun p hp => by
        obtain ⟨text, t, A, hcarries⟩ := h.carries p hp
        exact ⟨text, t, A, hcarries.of_same rfl rfl (List.prefix_append ..) rfl⟩
      satp := h.satp }

/-- The table is that of the state, up to registers of dispatched processes that were saved. -/
structure Saves (s : System) (h : Hart) : Prop where
  filled : h.table.Filled s.created.length s.dispatched.length
  satp : ∀ pid, (h.table.pd pid).sa.satp = (s.kernel.table.pd pid).sa.satp
  same : ∀ pid ∉ s.dispatched, h.table.pd pid = s.kernel.table.pd pid

/-- Before the first dispatch nothing is saved. -/
theorem Inv.saves_hart (h : Inv K disk spaces s) : s.Saves s.hart :=
  ⟨h.filled, fun _ => rfl, fun _ _ => rfl⟩

/-- A timer interrupt saves the registers of the current process, which has been dispatched. -/
theorem Inv.saves_savedHart (h : Inv K disk spaces s) (v : TrapVectors) (u : UserState)
    (hne : s.dispatched ≠ []) : s.Saves (savedHart v u s.hart) := by
  have hcurrent : s.kernel.table.currentProcess ∈ s.dispatched := by
    have hval := h.filled.current
    have hpos := List.length_pos_iff.mpr hne
    rw [h.mem_dispatched_iff]
    omega
  have htable : (savedHart v u s.hart).table =
      s.kernel.table.modify s.kernel.table.currentProcess fun d =>
        { d with sa := { reg := u.reg, epc := u.pc, satp := s.csrs.satp } } := rfl
  have hother : ∀ pid ≠ s.kernel.table.currentProcess,
      (savedHart v u s.hart).table.pd pid = s.kernel.table.pd pid := by
    intro pid hne'
    rw [htable, ProcessTable.modify_pd_of_ne _ _ hne']
  constructor
  case filled => exact h.filled_savedHart v u
  case satp =>
    intro pid
    by_cases heq : pid = s.kernel.table.currentProcess
    · rw [heq, htable, ProcessTable.modify_pd_self]
      exact h.satp hne
    · rw [hother pid heq]
  case same =>
    intro pid hnot
    refine hother pid ?_
    rintro rfl
    exact hnot hcurrent

/-- A dispatch does not touch the save areas. -/
theorem startHart_sa (v : TrapVectors) (h : Hart) (pid pid' : Pid) :
    ((startHart v h pid).table.pd pid').sa = (h.table.pd pid').sa := by
  by_cases heq : pid' = pid
  · rw [heq, startHart, ProcessTable.run_pd_self]
  · rw [startHart, ProcessTable.run_pd_of_ne _ _ heq]

/-- What a dispatch has done. -/
theorem Inv.step_dispatch (h : Inv K disk spaces s) (hstep : Step v wild s op s')
    (hop : op.isDispatch = true) :
    ∃ hart pid, s.Saves hart ∧ pid.val = s.dispatched.length ∧
      s.dispatched.length < s.created.length ∧ s' = s.afterDispatch (startHart v hart pid) := by
  have hdone : ∀ {hart hart' : Hart}, s.Saves hart → R5O5.dispatcher v hart = .ok hart' →
      ∃ hart pid, s.Saves hart ∧ pid.val = s.dispatched.length ∧
        s.dispatched.length < s.created.length ∧
        s.afterDispatch hart' = s.afterDispatch (startHart v hart pid) := by
    intro hart hart' hsaves hok
    rcases dispatcher_cases hsaves.filled v with ⟨pid, hpid, hlt, hok'⟩ | ⟨-, herr⟩
    · rw [hok] at hok'
      cases hok'
      exact ⟨hart, pid, hsaves, hpid, hlt, rfl⟩
    · rw [hok] at herr
      cases herr
  cases hstep with
  | createProcess => cases hop
  | logData => cases hop
  | dispatcher _ hok => exact hdone h.saves_hart hok
  | timer hne hok =>
    rw [timerTrap_eq_dispatcher] at hok
    exact hdone (h.saves_savedHart v _ hne) hok

/-- A dispatch changes no memory, and the process that runs next was not dispatched before. -/
theorem Inv.afterDispatch (h : Inv K disk spaces s) {hart : Hart} {pid : Pid}
    (hsaves : s.Saves hart) (hpid : pid.val = s.dispatched.length)
    (hlt : s.dispatched.length < s.created.length) :
    Inv K disk spaces (s.afterDispatch (startHart v hart pid)) := by
  constructor
  case toOrdered => exact h.toOrdered.afterDispatch hsaves.filled hpid hlt
  case refines => exact h.refines
  case log => exact h.log
  case carries =>
    intro p hp
    obtain ⟨text, t, A, hcarries⟩ := h.carries p hp
    refine ⟨text, t, A, { hcarries with satp := ?_, fresh := fun hnot => ?_ }⟩
    · show ((startHart v hart pid).table.pd p.pid).sa.satp = _
      rw [startHart_sa, hsaves.satp, hcarries.satp]
    · have hnot' : p.pid ∉ s.dispatched := fun hmem => hnot (List.mem_append_left _ hmem)
      show ((startHart v hart pid).table.pd p.pid).sa.epc = _ ∧
        ((startHart v hart pid).table.pd p.pid).sa.reg spIndex = _
      rw [startHart_sa, hsaves.same p.pid hnot']
      exact hcarries.fresh hnot'
  case satp => exact fun _ => rfl

theorem Inv.step (h : Inv K disk spaces s) (hstep : Step v wild s op s') :
    ∃ spaces', Inv K disk spaces' s' := by
  cases hop : op.isDispatch with
  | true =>
    obtain ⟨hart, pid, hsaves, hpid, hlt, rfl⟩ := h.step_dispatch hstep hop
    exact ⟨spaces, h.afterDispatch hsaves hpid hlt⟩
  | false =>
    cases hstep with
    | createProcess hok helf hnodes => exact h.createProcess hok helf hnodes
    | logData hok => exact ⟨spaces, h.logData hok⟩
    | dispatcher => cases hop
    | timer => cases hop

/-- The invariant holds in every run. -/
theorem inv_of_trace (hzero : ∀ x : BitVec 64, x >>> 12 ∈ managed K → mem x = 0)
    (hrun : Trace (Step v wild) (main K v links disk mem elfNodes table csrs) ops s) :
    ∃ spaces, Inv K disk spaces s :=
  hrun.invariant (I := fun s => ∃ spaces, Inv K disk spaces s) ⟨_, inv_main hzero⟩
    fun _ _ _ ⟨_, h⟩ hstep => h.step hstep

/-- Every process that is created is one step. -/
theorem Inv.exists_createProcess (h : Inv K disk spaces s) {program : Program} {pid : Pid}
    {kernel : Kernel} (hok : R5O5.createProcess wild program s.kernel = .ok (pid, kernel)) :
    ∃ s', Step v wild s (.createProcess program) s' ∧
      s'.created.length = s.created.length + 1 ∧ s'.dispatched = s.dispatched := by
  obtain ⟨-, k₁, hload, rfl⟩ := createProcess_eq_ok hok
  obtain ⟨elfRead, io, elfNodes, nodes, helf, hnodes, -⟩ :=
    programLoader_spec h.refines h.log.settled hload
  exact ⟨_, .createProcess hok helf hnodes, List.length_append, rfl⟩

end Runs

/-! ## A sample run -/

section Sample

/-- A small kernel with this disk, and zeros everywhere else. -/
def sampleMain (disk : ℕ → BitVec 8) : System :=
  main Tables.sampleKernel Scheduler.sampleVectors ⟨id, id⟩ disk (fun _ => 0)
    (fun _ => Processes.sampleSegment)
    { pd := fun _ =>
        { sa := { reg := fun _ => 0, epc := 0, satp := 0 }
          slotAllocated := false
          timeLeft := 0
          state := .created }
      currentProcess := ⟨0, nproc_pos⟩ }
    Scheduler.sampleCsrs

/-- One process is created. -/
theorem exists_sampleRun : ∃ s,
    Trace (Step Scheduler.sampleVectors fun _ _ _ => 0) (sampleMain Processes.sampleDisk)
      [.createProcess Processes.sampleProgram] s ∧
    s.created.length = 1 ∧ s.dispatched = [] := by
  have h : Inv Tables.sampleKernel Processes.sampleDisk (fun _ => none)
    (sampleMain Processes.sampleDisk) := inv_main fun _ _ => rfl
  obtain ⟨k', hok⟩ := Processes.createProcess_sampleBoot fun _ _ _ => 0
  obtain ⟨s, hstep, hlength, hdispatched⟩ :=
    h.exists_createProcess (v := Scheduler.sampleVectors) (s := sampleMain _) hok
  exact ⟨s, Trace.refl.snoc hstep, hlength, hdispatched⟩

/-- The process is dispatched next. -/
theorem dispatched_in_order_sample : ∃ s h,
    Trace (Step Scheduler.sampleVectors fun _ _ _ => 0) (sampleMain Processes.sampleDisk)
      [.createProcess Processes.sampleProgram] s ∧
    s.nextDispatch Scheduler.sampleVectors Scheduler.sampleUser = .ok h ∧
    h.table.currentProcess.val = 0 := by
  obtain ⟨s, hrun, hlength, hdispatched⟩ := exists_sampleRun
  obtain ⟨-, -, -, -, -, hnext⟩ := dispatched_in_order hrun
  have hlt : s.dispatched.length < s.created.length := by
    rw [hlength, hdispatched]
    exact Nat.one_pos
  obtain ⟨h, hok, hpid⟩ := (hnext Scheduler.sampleUser).1 hlt
  rw [hdispatched] at hpid
  exact ⟨s, h, hrun, hok, hpid⟩

end Sample

end System

end R5O5
