import R5O5.Kernel.Process

/-!
# Traps from user mode

`userInterruptHandler` of `kernel/interruptHandler.c`. The trap itself saves the program counter and
the cause in machine registers and `uservec` the integer registers in the save area of the current
process.

## Main definitions

- `userInterruptHandler`: the handler;
- `timerTrap`: a machine-timer interrupt in user mode, handled.
-/

namespace R5O5

/-- The handler for traps from user mode. -/
def userInterruptHandler (v : TrapVectors) (h : Hart) : Except Stop Hart :=
  let csrs := { intrAllOff h.csrs with mtvec := v.kernelvec }
  let mcause := csrs.mcause
  if mcause &&& mstatusMpp ≠ 0 then .error (.error "userInterruptHandler: not from user mode")
  else
    let table := h.table.modify h.table.currentProcess fun d =>
      { d with sa := { d.sa with satp := csrs.satp, epc := csrs.mepc } }
    if mcause &&& 0x8000000000000000 ≠ 0 then
      if mcause &&& 0xff = 7 then dispatcher v { table, csrs }
      else .error (.error "userInterruptHandler: undefined interrupt occured")
    else .error (.error "userInterruptHandler: Exception Occurred")

/-- The user's registers when a trap occurs, and what the trap makes of `mstatus`. -/
structure UserState where
  reg : Fin nreg → BitVec 64
  pc : BitVec 64
  mstatus : BitVec 64

/-- The value of `mcause` for a machine-timer interrupt. -/
def mcauseTimer : BitVec 64 := 0x8000000000000007

/-- A machine-timer interrupt in user mode: the trap, `uservec` and the handler. The two registers
that `uservec` stores below the user's `sp` are left out. -/
def timerTrap (v : TrapVectors) (u : UserState) (h : Hart) : Except Stop Hart :=
  userInterruptHandler v
    { table := h.table.modify h.table.currentProcess fun d =>
        { d with sa := { d.sa with reg := u.reg } }
      csrs := { h.csrs with mstatus := u.mstatus, mepc := u.pc, mcause := mcauseTimer } }

end R5O5
