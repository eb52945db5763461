import R5O5.Kernel.Disk
import R5O5.Kernel.Process
import R5O5.Lib.BitField
import R5O5.Lib.Trace

/-!
# The disk driver, its interrupts and the device

`diskRW`, the kernel's interrupt handler, the virtio block device and the UART as one transition
system. The hart is in `diskRW` or outside of it, and it may be in the handler; the device and the
UART act at any time. The device serves one chain at a time, in the order of the available ring.

## Main definitions

- `DiskMachine`: the state;
- `DiskEvent`: what can happen;
- `DiskMachine.Step`: the transitions.

## Main results

- `DiskMachine.Controlled.step`: how the interrupt enables go with the position of the hart.
-/

namespace R5O5

/-! ## Interrupts of the hart -/

/-- `UART0_IRQ`. -/
def uart0Irq : ℕ := 10

/-- `VIRTIO0_IRQ`. -/
def virtio0Irq : ℕ := 1

/-- The value of `mcause` for a machine external interrupt. -/
def mcauseExternal : BitVec 64 := 0x800000000000000b

namespace Csrs

/-- Interrupts are enabled in `mstatus`. -/
def globalOn (c : Csrs) : Bool := c.mstatus &&& mstatusMie ≠ 0

/-- Interrupts will be enabled in `mstatus` after `mret`. -/
def previousOn (c : Csrs) : Bool := c.mstatus &&& mstatusMpie ≠ 0

/-- External interrupts are enabled in `mie`. -/
def externalOn (c : Csrs) : Bool := c.mie &&& mieMeie ≠ 0

/-- The first half of `intr_dev_on`. -/
def devOnMie (c : Csrs) : Csrs := { c with mie := c.mie ||| mieMeie }

/-- The second half of `intr_dev_on`. -/
def devOnMstatus (c : Csrs) : Csrs := { c with mstatus := c.mstatus ||| mstatusMie }

/-- The first half of `intr_all_off`. -/
def allOffMstatus (c : Csrs) : Csrs :=
  { c with mstatus := c.mstatus &&& ~~~(mstatusMie ||| mstatusMpie) }

/-- The second half of `intr_all_off`. -/
def allOffMie (c : Csrs) : Csrs :=
  { c with mie := c.mie &&& ~~~(mieMeie ||| mieMtie ||| mieMsie) }

/-- What the hart makes of the registers when it takes an external interrupt in machine mode. The
program counter is part of the state of the driver. -/
def takeInterrupt (c : Csrs) : Csrs :=
  { c with
    mstatus := c.mstatus &&& ~~~(mstatusMie ||| mstatusMpie) |||
      (if c.globalOn then mstatusMpie else 0) ||| mstatusMpp
    mcause := mcauseExternal }

/-- What `mret` makes of the registers. -/
def mret (c : Csrs) : Csrs :=
  { c with
    mstatus := c.mstatus &&& ~~~(mstatusMie ||| mstatusMpp) |||
      (if c.previousOn then mstatusMie else 0) ||| mstatusMpie }

theorem globalOn_eq (c : Csrs) : c.globalOn = c.mstatus.getLsbD 3 :=
  BitField.and_twoPow_ne_zero c.mstatus (by decide)

theorem previousOn_eq (c : Csrs) : c.previousOn = c.mstatus.getLsbD 7 :=
  BitField.and_twoPow_ne_zero c.mstatus (by decide)

theorem externalOn_eq (c : Csrs) : c.externalOn = c.mie.getLsbD 11 :=
  BitField.and_twoPow_ne_zero c.mie (by decide)

/-- All interrupts are off, also after the next `mret`. -/
structure Masked (c : Csrs) : Prop where
  globalOn : c.globalOn = false
  previousOn : c.previousOn = false
  externalOn : c.externalOn = false

/-- After `intr_all_off` all interrupts are off. -/
theorem masked_intrAllOff (c : Csrs) : (intrAllOff c).Masked := by
  refine ⟨?_, ?_, ?_⟩
  · simp [globalOn_eq, intrAllOff, mstatusMie, mstatusMpie]
  · simp [previousOn_eq, intrAllOff, mstatusMie, mstatusMpie]
  · simp [externalOn_eq, intrAllOff, mieMeie, mieMtie, mieMsie]

/-- The first half of `intr_dev_on` does not touch `mstatus`. -/
@[simp]
theorem globalOn_devOnMie (c : Csrs) : c.devOnMie.globalOn = c.globalOn := rfl

/-- The first half of `intr_dev_on` enables external interrupts in `mie`. -/
@[simp]
theorem externalOn_devOnMie (c : Csrs) : c.devOnMie.externalOn = true := by
  simp [externalOn_eq, devOnMie, mieMeie]

/-- The second half of `intr_dev_on` enables interrupts in `mstatus`. -/
@[simp]
theorem globalOn_devOnMstatus (c : Csrs) : c.devOnMstatus.globalOn = true := by
  simp [globalOn_eq, devOnMstatus, mstatusMie]

/-- The second half of `intr_dev_on` does not touch `mie`. -/
@[simp]
theorem externalOn_devOnMstatus (c : Csrs) : c.devOnMstatus.externalOn = c.externalOn := rfl

/-- The first half of `intr_all_off` disables interrupts in `mstatus`. -/
@[simp]
theorem globalOn_allOffMstatus (c : Csrs) : c.allOffMstatus.globalOn = false := by
  simp [globalOn_eq, allOffMstatus, mstatusMie, mstatusMpie]

/-- The first half of `intr_all_off` does not touch `mie`. -/
@[simp]
theorem externalOn_allOffMstatus (c : Csrs) : c.allOffMstatus.externalOn = c.externalOn := rfl

/-- The second half of `intr_all_off` does not touch `mstatus`. -/
@[simp]
theorem globalOn_allOffMie (c : Csrs) : c.allOffMie.globalOn = c.globalOn := rfl

/-- The second half of `intr_all_off` disables external interrupts in `mie`. -/
@[simp]
theorem externalOn_allOffMie (c : Csrs) : c.allOffMie.externalOn = false := by
  simp [externalOn_eq, allOffMie, mieMeie, mieMtie, mieMsie]

/-- The hart disables interrupts when it takes one. -/
@[simp]
theorem globalOn_takeInterrupt (c : Csrs) : c.takeInterrupt.globalOn = false := by
  rw [globalOn_eq, takeInterrupt]
  cases c.globalOn <;> simp [mstatusMie, mstatusMpie, mstatusMpp]

/-- `mret` enables interrupts as they were before. -/
@[simp]
theorem globalOn_mret (c : Csrs) : c.mret.globalOn = c.previousOn := by
  rw [globalOn_eq, mret]
  cases c.previousOn <;> simp [mstatusMie, mstatusMpie, mstatusMpp]

@[simp]
theorem externalOn_mret (c : Csrs) : c.mret.externalOn = c.externalOn := rfl

end Csrs

/-- `kernelInterruptHandler` up to the call of `devintr`. -/
def kernelInterruptHandler (c : Csrs) : Except Stop Csrs :=
  let c := intrAllOff c
  if c.mcause &&& 0x8000000000000000 ≠ 0 then
    if c.mcause &&& 0xff ≠ 11 then .error (.error "trap: Exception other than external")
    else .ok c
  else .error (.error "trap: Exception Occurred")

/-- External interrupts go on to `devintr`, with all interrupts off. -/
theorem kernelInterruptHandler_of_external {c : Csrs} (h : c.mcause = mcauseExternal) :
    kernelInterruptHandler c = .ok (intrAllOff c) := by
  have hcause : (intrAllOff c).mcause = mcauseExternal := h
  rw [kernelInterruptHandler, hcause, if_pos (by decide), if_neg (by decide)]

/-- The interrupts that wait in the interrupt controller. -/
structure Plic where
  virtio : Bool
  uart : Bool

namespace Plic

/-- Some interrupt waits. -/
def pending (p : Plic) : Bool := p.virtio || p.uart

/-- `plic_claim`: of two interrupts of one priority, the one with the smaller number. -/
def claim (p : Plic) : ℕ × Plic :=
  if p.virtio then (virtio0Irq, { p with virtio := false })
  else if p.uart then (uart0Irq, { p with uart := false })
  else (0, p)

/-- When an interrupt waits, that of the UART or that of the disk is claimed. -/
theorem claim_of_pending {p : Plic} (h : p.pending = true) :
    p.claim.1 = uart0Irq ∨ p.claim.1 = virtio0Irq := by
  unfold claim
  split
  · exact Or.inr rfl
  · split
    · exact Or.inl rfl
    · simp_all [pending]

/-- The interrupt of the disk is claimed only when it waits. -/
theorem claim_ne_virtio {p : Plic} (h : p.virtio = false) : p.claim.1 ≠ virtio0Irq := by
  rw [claim, if_neg (by simp [h])]
  split
  · simp [uart0Irq, virtio0Irq]
  · simp [virtio0Irq]

end Plic

/-! ## The state -/

/-- Where the hart stands in `diskRW`, if it is not in the interrupt handler. -/
inductive DiskPc
  /-- Outside of `diskRW`. -/
  | idle
  /-- After the notification of the device. -/
  | published
  /-- In `intr_dev_on`, after the write of `mie`. -/
  | mieSet
  /-- After `intr_dev_on`. -/
  | beforeWfi
  /-- In `wfi`. -/
  | waiting
  /-- After `wfi`. -/
  | resumed
  /-- In `intr_all_off`, after the write of `mstatus`. -/
  | mstatusOff
  /-- After `intr_all_off`. -/
  | off
  /-- At the end of `diskRW`. -/
  | returned
  /-- Stopped for good. -/
  | stopped (e : Stop)

/-- Where the hart stands in the interrupt handler. -/
inductive HandlerPc
  /-- Not in the handler. -/
  | none
  /-- At the start of `kernelvec`. -/
  | entered
  /-- At the start of `devintr`. -/
  | masked
  /-- After `plic_claim`. -/
  | claimed (irq : ℕ)
  /-- After the handler of the device. -/
  | served (irq : ℕ)
  /-- At the end of `kernelvec`. -/
  | completed

/-- A buffer, as `diskRW`, its callers and the device use it. -/
structure DiskBuffer where
  valid : Bool
  /-- The disk owns the buffer. -/
  disk : Bool
  blockno : BitVec 32
  data : Fin bsize → BitVec 8

/-- The virtio block device. -/
structure VirtioDevice where
  /-- How many chains it has taken, as it counts them. -/
  lastAvail : BitVec 16
  /-- The head of the chain that it serves. -/
  serving : Option (Fin num)
  /-- The bytes of the disk. -/
  medium : ℕ → BitVec 8
  /-- How many interrupts it has still to raise. -/
  due : ℕ

/-- What the driver, the device and the interrupt controller share. -/
structure DiskState where
  /-- The arguments and the descriptors of the current or last call of `diskRW`. -/
  b : BufRef
  write : Bool
  idx : Fin 3 → Fin num
  disk : Disk
  buf : BufRef → DiskBuffer
  buf0 : BlkOuthdr
  device : VirtioDevice
  plic : Plic

/-- The whole machine. -/
structure DiskMachine extends DiskState where
  csrs : Csrs
  pc : DiskPc
  handler : HandlerPc

/-- The header of a request. -/
def header (blockno : BitVec 32) (write : Bool) : BlkOuthdr where
  type := if write then virtioBlkTOut else virtioBlkTIn
  reserved := 0
  sector := (blockno * BitVec.ofNat 32 (bsize / 512)).setWidth 64

namespace DiskState

/-- Change one buffer. -/
def setBuf (x : DiskState) (b : BufRef) (f : DiskBuffer → DiskBuffer) : DiskState :=
  { x with buf := Function.update x.buf b (f (x.buf b)) }

/-- A call of `diskRW` has made its request available. -/
def begin (x : DiskState) (b : BufRef) (write : Bool) (idx : Fin 3 → Fin num) (disk : Disk) :
    DiskState :=
  { x.setBuf b fun y => { y with disk := true } with
    b
    write
    idx
    disk
    buf0 := header (x.buf b).blockno write }

/-- `diskIntr` has handled a request for a buffer. -/
def handled (x : DiskState) (b : BufRef) (disk : Disk) : DiskState :=
  { x.setBuf b fun y => { y with disk := false } with disk }

/-- `bread` marks its buffer as valid. -/
def leave (x : DiskState) : DiskState :=
  x.setBuf x.b fun y => { y with valid := y.valid || !x.write }

/-- The device takes the chain at `head`. -/
def consume (x : DiskState) (head : Fin num) : DiskState :=
  { x with
    device := { x.device with
      lastAvail := x.device.lastAvail + 1
      serving := some head } }

/-- The place of a request on the disk. -/
def place (x : DiskState) : ℕ := x.buf0.sector.toNat * 512

/-- The device transfers a block to a buffer. -/
def fill (x : DiskState) (b : BufRef) : DiskState :=
  x.setBuf b fun y => { y with data := fun j => x.device.medium (x.place + j) }

/-- A transfer does not change who owns a buffer. -/
theorem fill_disk (x : DiskState) (b b' : BufRef) :
    ((x.fill b).buf b').disk = (x.buf b').disk := by
  by_cases hb : b' = b
  · simp [fill, setBuf, hb]
  · simp [fill, setBuf, hb]

/-- The device transfers a block to the disk. -/
def store (x : DiskState) (b : BufRef) : DiskState :=
  { x with
    device := { x.device with
      medium := fun p =>
        if h : x.place ≤ p ∧ p - x.place < bsize then (x.buf b).data ⟨p - x.place, h.2⟩
        else x.device.medium p } }

/-- The device reports the chain at `head` as served, with a status byte. -/
def report (x : DiskState) (head : Fin num) (status : BitVec 8) : DiskState :=
  { x with
    disk := { x.disk with
      info := Function.update x.disk.info head { x.disk.info head with status }
      used :=
        { id := x.disk.used.id + 1
          elems := Function.update x.disk.used.elems (slot x.disk.used.id) (BitVec.ofNat 32 head) } }
    device := { x.device with
      serving := none
      due := x.device.due + 1 } }

/-- The device raises its interrupt and has `due` more to raise. -/
def raise (x : DiskState) (due : ℕ) : DiskState :=
  { x with
    device := { x.device with due }
    plic := { x.plic with virtio := true } }

end DiskState

/-- What can happen. -/
inductive DiskEvent
  /-- The kernel outside of `diskRW`. -/
  | kernel
  | call (b : BufRef) (write : Bool) (head : Fin num)
  | devOnMie
  | devOnMstatus
  | wfi
  | wake
  | allOffMstatus
  | allOffMie
  | ret
  | leave
  | interrupt
  | handle
  | claim (irq : ℕ)
  | uartintr
  | diskIntrRound (id : Fin num) (b : BufRef)
  | diskIntrEnd
  | ignore
  | plicComplete
  | mret
  /-- The device takes the next chain. -/
  | consume (head : Fin num)
  /-- The device finishes a chain. -/
  | finish (head : Fin num)
  /-- The device raises its interrupt. -/
  | raise
  /-- The UART raises its interrupt. -/
  | uart
  /-- The hart stops. -/
  | stop (e : Stop)

namespace DiskMachine

/-- The hart stands at a point of `diskRW`, not in the interrupt handler. -/
def At (s : DiskMachine) (pc : DiskPc) : Prop := s.pc = pc ∧ s.handler = .none

/-- The transitions. -/
inductive Step : DiskMachine → DiskEvent → DiskMachine → Prop
  /-- Between two calls the kernel uses the buffers and the stack. -/
  | kernel {s : DiskMachine} {buf : BufRef → DiskBuffer} {buf0 : BlkOuthdr} :
      s.At .idle → (∀ b, (buf b).disk = (s.buf b).disk) →
      Step s .kernel
        { s with
          buf
          buf0 }
  /-- The callers have checked the block number. -/
  | call {s : DiskMachine} {b : BufRef} {write : Bool} {idx : Fin 3 → Fin num} {disk : Disk} :
      s.At .idle → (s.buf b).blockno.toNat < diskSize → s.disk.submit b write = .ok (idx, disk) →
      Step s (.call b write (idx 0))
        { s with
          toDiskState := s.begin b write idx disk
          pc := .published }
  | callStop {s : DiskMachine} {b : BufRef} {write : Bool} {e : Stop} :
      s.At .idle → (s.buf b).blockno.toNat < diskSize → s.disk.submit b write = .error e →
      Step s (.stop e) { s with pc := .stopped e }
  | devOnMie {s : DiskMachine} :
      s.At .published →
      Step s .devOnMie
        { s with
          csrs := s.csrs.devOnMie
          pc := .mieSet }
  | devOnMstatus {s : DiskMachine} :
      s.At .mieSet →
      Step s .devOnMstatus
        { s with
          csrs := s.csrs.devOnMstatus
          pc := .beforeWfi }
  | wfi {s : DiskMachine} : s.At .beforeWfi → Step s .wfi { s with pc := .waiting }
  /-- An interrupt that is enabled in `mie` ends `wfi`, even if `mstatus` holds it back. -/
  | wake {s : DiskMachine} :
      s.At .waiting → s.csrs.globalOn = false → s.csrs.externalOn = true → s.plic.pending = true →
      Step s .wake { s with pc := .resumed }
  | allOffMstatus {s : DiskMachine} :
      s.At .resumed →
      Step s .allOffMstatus
        { s with
          csrs := s.csrs.allOffMstatus
          pc := .mstatusOff }
  | allOffMie {s : DiskMachine} :
      s.At .mstatusOff →
      Step s .allOffMie
        { s with
          csrs := s.csrs.allOffMie
          pc := .off }
  | ret {s : DiskMachine} {disk : Disk} :
      s.At .off → s.disk.release s.idx = .ok disk →
      Step s .ret
        { s with
          disk
          pc := .returned }
  | retStop {s : DiskMachine} {e : Stop} :
      s.At .off → s.disk.release s.idx = .error e → Step s (.stop e) { s with pc := .stopped e }
  /-- After a read, `bread` marks the buffer as valid. -/
  | leave {s : DiskMachine} :
      s.At .returned →
      Step s .leave
        { s with
          toDiskState := s.toDiskState.leave
          pc := .idle }
  /-- An interrupt is taken wherever it is enabled; it also ends `wfi`. -/
  | interrupt {s : DiskMachine} :
      s.handler = .none → s.csrs.globalOn = true → s.csrs.externalOn = true →
      s.plic.pending = true →
      Step s .interrupt
        { s with
          csrs := s.csrs.takeInterrupt
          pc := match s.pc with
            | .waiting => .resumed
            | pc => pc
          handler := .entered }
  | handle {s : DiskMachine} {csrs : Csrs} :
      s.handler = .entered → kernelInterruptHandler s.csrs = .ok csrs →
      Step s .handle
        { s with
          csrs
          handler := .masked }
  | handleStop {s : DiskMachine} {e : Stop} :
      s.handler = .entered → kernelInterruptHandler s.csrs = .error e →
      Step s (.stop e)
        { s with
          pc := .stopped e
          handler := .none }
  | claim {s : DiskMachine} :
      s.handler = .masked →
      Step s (.claim s.plic.claim.1)
        { s with
          handler := .claimed s.plic.claim.1
          plic := s.plic.claim.2 }
  | uartintr {s : DiskMachine} :
      s.handler = .claimed uart0Irq → Step s .uartintr { s with handler := .served uart0Irq }
  | diskIntrRound {s : DiskMachine} {id : Fin num} {b : BufRef} {disk : Disk} :
      s.handler = .claimed virtio0Irq → s.disk.diskIntrRound = .ok (some (id, b, disk)) →
      Step s (.diskIntrRound id b) { s with toDiskState := s.handled b disk }
  | diskIntrEnd {s : DiskMachine} :
      s.handler = .claimed virtio0Irq → s.disk.diskIntrRound = .ok none →
      Step s .diskIntrEnd { s with handler := .served virtio0Irq }
  | diskIntrStop {s : DiskMachine} {e : Stop} :
      s.handler = .claimed virtio0Irq → s.disk.diskIntrRound = .error e →
      Step s (.stop e)
        { s with
          pc := .stopped e
          handler := .none }
  | ignore {s : DiskMachine} {irq : ℕ} :
      s.handler = .claimed irq → irq ≠ uart0Irq → irq ≠ virtio0Irq →
      Step s .ignore { s with handler := .served irq }
  | plicComplete {s : DiskMachine} {irq : ℕ} :
      s.handler = .served irq → Step s .plicComplete { s with handler := .completed }
  | mret {s : DiskMachine} :
      s.handler = .completed →
      Step s .mret
        { s with
          csrs := s.csrs.mret
          handler := .none }
  | consume {s : DiskMachine} {head : Fin num} :
      s.device.serving = none → s.device.lastAvail ≠ s.disk.availIdx →
      s.disk.ring (slot s.device.lastAvail) = BitVec.ofNat 16 head →
      Step s (.consume head) { s with toDiskState := s.toDiskState.consume head }
  | finishRead {s : DiskMachine} {idx : Fin 3 → Fin num} {b : BufRef} :
      s.device.serving = some (idx 0) → s.disk.Chained idx b false →
      s.buf0.type = virtioBlkTIn → s.place + bsize ≤ diskSize * bsize →
      Step s (.finish (idx 0)) { s with toDiskState := (s.fill b).report (idx 0) 0 }
  | finishWrite {s : DiskMachine} {idx : Fin 3 → Fin num} {b : BufRef} :
      s.device.serving = some (idx 0) → s.disk.Chained idx b true →
      s.buf0.type = virtioBlkTOut → s.place + bsize ≤ diskSize * bsize →
      Step s (.finish (idx 0)) { s with toDiskState := (s.store b).report (idx 0) 0 }
  /-- A request outside of the disk fails with status 1. -/
  | finishOutside {s : DiskMachine} {idx : Fin 3 → Fin num} {b : BufRef} {write : Bool} :
      s.device.serving = some (idx 0) → s.disk.Chained idx b write →
      diskSize * bsize < s.place + bsize →
      Step s (.finish (idx 0)) { s with toDiskState := s.report (idx 0) 1 }
  | raise {s : DiskMachine} {due : ℕ} :
      s.device.due = due + 1 →
      Step s .raise { s with toDiskState := s.toDiskState.raise due }
  | uart {s : DiskMachine} : Step s .uart { s with plic := { s.plic with uart := true } }

/-! ## The interrupt enables -/

/-- The handler runs between `intr_dev_on` and `wfi`, or after `wfi`. -/
def Interruptible (pc : DiskPc) : Prop := pc = .beforeWfi ∨ pc = .resumed

/-- The interrupt enables for the position of the hart. -/
def Controlled (s : DiskMachine) : Prop :=
  match s.handler with
  | .none =>
    match s.pc with
    | .mieSet => s.csrs.globalOn = false ∧ s.csrs.externalOn = true
    | .beforeWfi | .waiting => s.csrs.globalOn = s.csrs.externalOn
    | _ => s.csrs.globalOn = false ∧ s.csrs.externalOn = false
  | .entered =>
    Interruptible s.pc ∧ s.csrs.globalOn = false ∧ s.csrs.mcause = mcauseExternal ∧
      s.plic.pending = true
  | .masked => Interruptible s.pc ∧ s.csrs.Masked ∧ s.plic.pending = true
  | .claimed irq => Interruptible s.pc ∧ s.csrs.Masked ∧ (irq = uart0Irq ∨ irq = virtio0Irq)
  | .served _ | .completed => Interruptible s.pc ∧ s.csrs.Masked

/-- Interrupts are only taken between `intr_dev_on` and the end of `wfi`. -/
theorem Controlled.interruptible {s : DiskMachine} (h : s.Controlled) (hhandler : s.handler = .none)
    (hon : s.csrs.globalOn = true) : s.pc = .beforeWfi ∨ s.pc = .waiting := by
  rw [Controlled, hhandler] at h
  cases hpc : s.pc <;> simp_all

/-- The enables go with the position of the hart in every step. -/
theorem Controlled.step {s t : DiskMachine} {a : DiskEvent} (h : s.Controlled)
    (hstep : Step s a t) : t.Controlled := by
  cases hstep with
  | kernel hat | call hat | callStop hat | devOnMie hat | devOnMstatus hat | wfi hat | wake hat
  | allOffMstatus hat | allOffMie hat | ret hat | retStop hat | leave hat =>
    obtain ⟨hpc, hhandler⟩ := hat
    simp_all [Controlled]
  | interrupt hhandler hglobal hexternal hpending =>
    rcases h.interruptible hhandler hglobal with hpc | hpc
    · exact ⟨by simp [Interruptible, hpc], by simp, rfl, hpending⟩
    · exact ⟨by simp [Interruptible, hpc], by simp, rfl, hpending⟩
  | handle hentered hhandle =>
    rw [Controlled, hentered] at h
    obtain ⟨hpc, -, hcause, hpending⟩ := h
    rw [kernelInterruptHandler_of_external hcause] at hhandle
    cases hhandle
    exact ⟨hpc, Csrs.masked_intrAllOff _, hpending⟩
  | handleStop hentered hhandle =>
    rw [Controlled, hentered] at h
    rw [kernelInterruptHandler_of_external h.2.2.1] at hhandle
    cases hhandle
  | claim hmasked =>
    rw [Controlled, hmasked] at h
    obtain ⟨hpc, hoff, hpending⟩ := h
    exact ⟨hpc, hoff, Plic.claim_of_pending hpending⟩
  | uartintr hclaimed | diskIntrEnd hclaimed =>
    rw [Controlled, hclaimed] at h
    exact ⟨h.1, h.2.1⟩
  | ignore hclaimed =>
    rw [Controlled, hclaimed] at h
    exact ⟨h.1, h.2.1⟩
  | diskIntrRound hclaimed =>
    rw [Controlled, hclaimed] at h
    simpa [Controlled, hclaimed] using h
  | diskIntrStop hclaimed =>
    rw [Controlled, hclaimed] at h
    exact ⟨h.2.1.globalOn, h.2.1.externalOn⟩
  | plicComplete hserved =>
    rw [Controlled, hserved] at h
    exact h
  | mret hcompleted =>
    rw [Controlled, hcompleted] at h
    obtain ⟨hpc, hoff⟩ := h
    rcases hpc with hpc | hpc
    · simp [Controlled, hpc, hoff.previousOn, hoff.externalOn]
    · simp [Controlled, hpc, hoff.previousOn, hoff.externalOn]
  | consume | finishRead | finishWrite | finishOutside => exact h
  | raise | uart =>
    -- One more interrupt waits.
    unfold Controlled at h ⊢
    dsimp only
    split <;> simp_all [Plic.pending, DiskState.raise]

end DiskMachine

end R5O5
