import R5O5.Lib.BitField
import R5O5.Lib.Sv39
import R5O5.System

/-!
# How a process starts

A dispatch is the start of a process that has not run before: the hart gets its entry and its page
table, in user mode with the timer on. The page table carries the program and its stack. But its
address is written to `satp` as it is, with no mode, so that the processor does not use it.

## Main definitions

- `System.Starts`: the hart is about to start a process.

## Main results

- `System.starts_of_dispatch`: every dispatch of every run starts a process.
-/

namespace R5O5

namespace System

/-- The hart is about to start the process `p` for the first time. Its program was on the disk as
`disk`. -/
structure Starts (v : TrapVectors) (disk : ℕ → BitVec 8) (s : System) (p : Created) : Prop where
  current : s.kernel.table.currentProcess = p.pid
  mepc : s.csrs.mepc = p.entry
  user : s.csrs.mstatus &&& mstatusMpp = 0
  interruptible : s.csrs.mstatus &&& mstatusMpie ≠ 0 ∧ s.csrs.mie &&& mieMtie ≠ 0
  mtvec : s.csrs.mtvec = v.uservec
  sp : (s.kernel.table.pd p.pid).sa.reg spIndex =
    (stackBegin p.segments <<< 12) + 2 * BitVec.ofNat 64 pgsize
  /-- The page table in `satp` carries the program for the functions of the kernel. -/
  memory : ∀ virtualAddress, readVirtual s.kernel.paging.mem s.csrs.satp virtualAddress =
    if spaceAddr virtualAddress / pgsize ∈ programPages p.segments then
      some (programImage p.program disk p.segments (spaceAddr virtualAddress))
    else none
  /-- For the processor, it does not translate addresses. -/
  bare : ∀ access virtualAddress,
    Sv39.translateUnder s.kernel.paging.mem s.csrs.satp access virtualAddress = some virtualAddress

section Start

variable {K : KernelImage} {v : TrapVectors} {links : Ring.Links BufRef} {disk : ℕ → BitVec 8}
  {mem : Mem} {elfNodes : ElfNodes} {table : ProcessTable} {csrs : Csrs} {wild : Wild}
  {s s' : System} {op : SystemOp} {ops : List SystemOp} {spaces : BitVec 64 → Option Space}
  {p : Created} {text : List (BitVec 8)} {t : BitVec 64} {A : Space}

/-- The address of a page table has no bits for the mode. -/
theorem translateUnder_pagetable {mem : Mem} (ht : t.toNat < 2 ^ 44) (access : Sv39.Access)
    (virtualAddress : BitVec 64) :
    Sv39.translateUnder mem (t <<< 12) access virtualAddress = some virtualAddress := by
  refine if_pos ?_
  rw [← BitVec.toNat_inj, BitVec.toNat_ushiftRight, BitVec.toNat_shiftLeft,
    Nat.shiftRight_eq_div_pow, Nat.shiftLeft_eq]
  exact Nat.div_eq_of_lt (by omega)

/-- What is read through the page table of a process. -/
theorem Carries.readVirtual (h : s.Carries disk spaces p text t A)
    (hrefines : Refines K spaces s.kernel.paging) (virtualAddress : BitVec 64) :
    R5O5.readVirtual s.kernel.paging.mem (s.kernel.table.pd p.pid).sa.satp virtualAddress =
      if spaceAddr virtualAddress / pgsize ∈ programPages p.segments then
        some (programImage p.program (withLog disk text) p.segments (spaceAddr virtualAddress))
      else none := by
  rw [h.satp, hrefines.read h.space, AddressSpace.read, h.pages, h.bytes]

/-- The control registers after a dispatch. -/
theorem runProcess_user (v : TrapVectors) (t : ProcessTable) (c : Csrs) :
    (runProcess v t c).mstatus &&& mstatusMpp = 0 ∧
      (runProcess v t c).mstatus &&& mstatusMpie ≠ 0 ∧ (runProcess v t c).mie &&& mieMtie ≠ 0 := by
  refine ⟨BitField.clear_or_and (by decide), ?_, ?_⟩
  · show (_ ||| mstatusMpie) &&& mstatusMpie ≠ 0
    rw [BitField.or_and_self]
    decide
  · show (c.mie ||| mieMtie) &&& mieMtie ≠ 0
    rw [BitField.or_and_self]
    decide

/-- The dispatcher starts the process that it selects. -/
theorem Inv.starts (h : Inv K disk spaces s) {hart : Hart} {pid : Pid} (hsaves : s.Saves hart)
    (hpid : pid.val = s.dispatched.length) (hlt : s.dispatched.length < s.created.length) :
    ∃ p ∈ s.created, p.pid = pid ∧ ∃ text, text <+: s.logged ∧
      Starts v (withLog disk text) (s.afterDispatch (startHart v hart pid)) p := by
  -- the process with this number
  have hmem : pid.val ∈ s.created.map fun p => p.pid.val := by
    rw [h.created, List.mem_range]
    exact hpid.trans_lt hlt
  obtain ⟨p, hp, heq⟩ := List.mem_map.mp hmem
  obtain rfl : p.pid = pid := Fin.ext heq
  obtain ⟨text, t, A, hcarries⟩ := h.carries p hp
  have hnot : p.pid ∉ s.dispatched := by
    rw [h.mem_dispatched_iff, hpid]
    exact Nat.lt_irrefl _
  obtain ⟨hepc, hsp⟩ := hcarries.fresh hnot
  have hsa : ((startHart v hart p.pid).table.pd p.pid).sa = (s.kernel.table.pd p.pid).sa := by
    rw [startHart_sa, hsaves.same p.pid hnot]
  have hsatp : (startHart v hart p.pid).csrs.satp = (s.kernel.table.pd p.pid).sa.satp :=
    congrArg SaveArea.satp hsa
  obtain ⟨huser, hinterruptible⟩ := runProcess_user v (startHart v hart p.pid).table hart.csrs
  refine ⟨p, hp, rfl, text, hcarries.logged, ?_⟩
  constructor
  case current => rfl
  case mepc => exact (congrArg SaveArea.epc hsa).trans hepc
  case user => exact huser
  case interruptible => exact hinterruptible
  case mtvec => rfl
  case sp => exact (congrArg (fun sa => sa.reg spIndex) hsa).trans hsp
  case memory =>
    intro virtualAddress
    dsimp only [System.afterDispatch]
    rw [hsatp]
    exact hcarries.readVirtual h.refines virtualAddress
  case bare =>
    intro access virtualAddress
    dsimp only [System.afterDispatch]
    rw [hsatp, hcarries.satp]
    obtain ⟨own, leaked, hinv⟩ := h.refines.inv
    have hroot := hinv.owned.own_root (Refines.mem_live hcarries.space)
    exact translateUnder_pagetable (hinv.toNat_lt hroot) access virtualAddress

/-- Every dispatch, in whatever run, starts a process that was created and has not run before: at
its entry, in user mode, with the stack pointer at the end of its stack and a page table that
carries its program. The processor does not translate addresses with this table. -/
theorem starts_of_dispatch (hzero : ∀ x : BitVec 64, x >>> 12 ∈ managed K → mem x = 0)
    (hrun : Trace (Step v wild) (main K v links disk mem elfNodes table csrs) ops s)
    (hstep : Step v wild s op s') (hop : op.isDispatch = true) :
    ∃ p ∈ s.created, p.pid ∉ s.dispatched ∧ s'.dispatched = s.dispatched ++ [p.pid] ∧
      ∃ text, text <+: s.logged ∧ s'.Starts v (withLog disk text) p := by
  obtain ⟨spaces, h⟩ := inv_of_trace hzero hrun
  obtain ⟨hart, pid, hsaves, hpid, hlt, rfl⟩ := h.step_dispatch hstep hop
  obtain ⟨p, hp, rfl, text, hlogged, hstarts⟩ := h.starts (v := v) hsaves hpid hlt
  refine ⟨p, hp, ?_, rfl, text, hlogged, hstarts⟩
  rw [h.mem_dispatched_iff, hpid]
  exact Nat.lt_irrefl _

/-- The sample process is started. -/
theorem starts_of_dispatch_sample : ∃ (s : System) (p : Created),
    s.dispatched = [p.pid] ∧
      ∃ text, s.Starts Scheduler.sampleVectors (withLog Processes.sampleDisk text) p := by
  obtain ⟨s, hrun, hlength, hdispatched⟩ := exists_sampleRun
  obtain ⟨spaces, h⟩ := inv_of_trace (fun _ _ => rfl) hrun
  have hlt : s.dispatched.length < s.created.length := by
    rw [hlength, hdispatched]
    exact Nat.one_pos
  rcases dispatcher_cases (h := s.hart) h.filled Scheduler.sampleVectors with
    ⟨pid, -, -, hok⟩ | ⟨heq, -⟩
  · obtain ⟨p, -, -, hnext, text, -, hstarts⟩ :=
      starts_of_dispatch (fun _ _ => rfl) hrun (.dispatcher hdispatched hok) rfl
    rw [hdispatched] at hnext
    exact ⟨_, p, hnext, text, hstarts⟩
  · exact absurd heq (Nat.ne_of_lt hlt)

end Start

end System

end R5O5
