import Mathlib.Logic.Function.Basic
import R5O5.Kernel.Declarations

/-!
# Processes

The process table and the functions of `kernel/process.c`, with the machine registers they write.
The registers of the hart that user code or the trap into the kernel changes are part of the state.

## Main definitions

- `ProcessTable`: the process table with the current process;
- `selectProcessToRun`: the round-robin scheduler;
- `dispatcher`: select a process and enter user mode.
-/

namespace R5O5

/-- `TimeQuantum`. -/
def timeQuantum : BitVec 64 := 100000

/-- The states of a process. -/
inductive ProcessState
  | created
  | ready
  | running
  deriving DecidableEq, Repr

/-- The registers of a process, its program counter and its page table. -/
structure SaveArea where
  reg : Fin nreg → BitVec 64
  epc : BitVec 64
  satp : BitVec 64

/-- A slot of the process table. -/
structure ProcessDescriptor where
  sa : SaveArea
  slotAllocated : Bool
  timeLeft : BitVec 64
  state : ProcessState

/-- A process number. -/
abbrev Pid : Type := Fin nproc

/-- The process table and the number of the current process. -/
structure ProcessTable where
  pd : Pid → ProcessDescriptor
  currentProcess : Pid

/-- Change one slot of the process table. -/
def ProcessTable.modify (t : ProcessTable) (pid : Pid) (f : ProcessDescriptor → ProcessDescriptor) :
    ProcessTable :=
  { t with pd := Function.update t.pd pid (f (t.pd pid)) }

@[simp]
theorem ProcessTable.modify_modify (t : ProcessTable) (pid : Pid)
    (f g : ProcessDescriptor → ProcessDescriptor) :
    (t.modify pid f).modify pid g = t.modify pid fun d => g (f d) := by
  simp only [ProcessTable.modify, Function.update_idem, Function.update_self]

@[simp]
theorem ProcessTable.modify_pd_self (t : ProcessTable) (pid : Pid)
    (f : ProcessDescriptor → ProcessDescriptor) : (t.modify pid f).pd pid = f (t.pd pid) :=
  Function.update_self ..

theorem ProcessTable.modify_pd_of_ne (t : ProcessTable) {pid pid' : Pid}
    (f : ProcessDescriptor → ProcessDescriptor) (hne : pid' ≠ pid) :
    (t.modify pid f).pd pid' = t.pd pid' :=
  Function.update_of_ne hne ..

/-- Initialize the process table. -/
def procesDescriptorInit (t : ProcessTable) : ProcessTable where
  pd pid := { t.pd pid with slotAllocated := false }
  currentProcess := ⟨0, by decide⟩

/-- `(pid + 1) % NPROC`. -/
def nextPid (pid : Pid) : Pid := ⟨(pid + 1) % nproc, Nat.mod_lt _ (by decide)⟩

/-- The process can be run. -/
def ProcessDescriptor.isReady (d : ProcessDescriptor) : Bool := d.slotAllocated && d.state = .ready

/-- The loop of `selectProcessToRun`, with `left` rounds left. -/
def selectLoop : ℕ → ProcessTable → Except Stop ProcessTable
  | 0, _ => .error (.error "selectProcessToRun: No Process To Run")
  | left + 1, t =>
    if (t.pd t.currentProcess).isReady then
      .ok (t.modify t.currentProcess fun d => { d with timeLeft := timeQuantum, state := .running })
    else selectLoop left { t with currentProcess := nextPid t.currentProcess }

/-- Select a process to run, the current one while it has time left. -/
def selectProcessToRun (t : ProcessTable) : Except Stop ProcessTable :=
  if (t.pd t.currentProcess).isReady ∧ 0 < (t.pd t.currentProcess).timeLeft then
    .ok (t.modify t.currentProcess fun d => { d with state := .running })
  else selectLoop nproc { t with currentProcess := nextPid t.currentProcess }

/-! ## The machine registers -/

/-- The control registers of the hart. -/
structure Csrs where
  mstatus : BitVec 64
  mie : BitVec 64
  mtvec : BitVec 64
  satp : BitVec 64
  mepc : BitVec 64
  mcause : BitVec 64

/-- `MSTATUS_MPP`: machine mode as the previous mode. -/
def mstatusMpp : BitVec 64 := 3 <<< 11

/-- `MSTATUS_MIE`. -/
def mstatusMie : BitVec 64 := 1 <<< 3

/-- `MSTATUS_MPIE`. -/
def mstatusMpie : BitVec 64 := 1 <<< 7

/-- `MIE_MEIE`: external interrupts. -/
def mieMeie : BitVec 64 := 1 <<< 11

/-- `MIE_MTIE`: timer interrupts. -/
def mieMtie : BitVec 64 := 1 <<< 7

/-- `MIE_MSIE`: software interrupts. -/
def mieMsie : BitVec 64 := 1 <<< 3

/-- Disable all interrupts. -/
def intrAllOff (c : Csrs) : Csrs :=
  { c with
    mstatus := c.mstatus &&& ~~~(mstatusMie ||| mstatusMpie)
    mie := c.mie &&& ~~~(mieMeie ||| mieMtie ||| mieMsie) }

/-- The addresses of the trap vectors. -/
structure TrapVectors where
  kernelvec : BitVec 64
  uservec : BitVec 64

/-- Prepare the machine registers for the current process, up to the jump to `userret`. -/
def runProcess (v : TrapVectors) (t : ProcessTable) (c : Csrs) : Csrs :=
  let sa := (t.pd t.currentProcess).sa
  { c with
    mtvec := v.uservec
    mstatus := c.mstatus &&& ~~~mstatusMpp ||| mstatusMpie
    mie := c.mie ||| mieMtie
    satp := sa.satp
    mepc := sa.epc }

/-- The state that the functions below share. -/
structure Hart where
  table : ProcessTable
  csrs : Csrs

/-- Select a process to run, then run it. -/
def dispatcher (v : TrapVectors) (h : Hart) : Except Stop Hart := do
  let table ← selectProcessToRun h.table
  return { table, csrs := runProcess v table h.csrs }

end R5O5
