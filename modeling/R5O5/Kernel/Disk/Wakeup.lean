import R5O5.Kernel.Disk.Runs

/-!
# Waking up from `wfi`

The kernel's interrupt handler leaves all interrupts off. When it handles the interrupt of the disk
after `intr_dev_on` but before `wfi`, nothing ends `wfi` any more.

## Main definitions

- `DiskMachine.LostWakeup`: the hart waits for a request that has been handled;
- `DiskMachine.WindowStep`: a step that does not claim the interrupt of the disk before `wfi`.

## Main results

- `lostWakeup_of_trace`: a lost wake-up lasts forever;
- `not_lostWakeup_of_trace`: no run of such steps loses a wake-up;
- `lostWakeup_before_wfi`: other runs may.
-/

namespace R5O5

/-- The hart waits for its request, or is about to. -/
def DiskPc.Waits : DiskPc → Prop
  | .published | .mieSet | .beforeWfi | .waiting => True
  | _ => False

namespace DiskMachine

/-- The hart waits in `wfi`, `diskIntr` has handled its request, and `mie` enables no interrupt. -/
structure LostWakeup (s : DiskMachine) : Prop where
  waiting : s.At .waiting
  handled : (s.buf s.b).disk = false
  masked : s.csrs.mie &&& (mieMeie ||| mieMtie ||| mieMsie) = 0

/-- Between `intr_dev_on` and `wfi` the handler does not claim the interrupt of the disk. -/
def WindowStep (s : DiskMachine) (a : DiskEvent) (t : DiskMachine) : Prop :=
  Step s a t ∧ ∀ irq, a = .claim irq → s.pc = .beforeWfi → s.plic.virtio = false

/-- The disk owns the buffer for which the hart waits, since its interrupt is only handled after
`wfi`. -/
structure Awaited (s : DiskMachine) : Prop where
  waits : s.pc.Waits → (s.buf s.b).disk = true
  inDiskIntr : s.handler = .claimed virtio0Irq → s.pc = .resumed

variable {s t : DiskMachine} {a : DiskEvent} {l : List DiskEvent}

/-- External interrupts are off when a wake-up is lost. -/
theorem LostWakeup.externalOn (h : s.LostWakeup) : s.csrs.externalOn = false := by
  have hbit := congrArg (fun v => v.getLsbD 11) h.masked
  rw [Csrs.externalOn_eq]
  simpa [mieMeie, mieMtie, mieMsie] using hbit

/-- Nothing ends a lost wake-up: the hart takes no step, and the device does not change the flag. -/
theorem LostWakeup.step (h : s.LostWakeup) (hstep : Step s a t) : t.LostWakeup := by
  obtain ⟨hpc, hhandler⟩ := h.waiting
  have hoff := h.externalOn
  -- the hart is in `wfi` outside of the handler, where no step of either is possible
  cases hstep with
  | kernel hat | call hat | callStop hat | devOnMie hat | devOnMstatus hat | wfi hat
  | allOffMstatus hat | allOffMie hat | ret hat | retStop hat | leave hat =>
    exact absurd (hpc.symm.trans hat.1) (by simp)
  -- an interrupt would have to be enabled
  | wake _ _ hexternal => exact absurd (hoff.symm.trans hexternal) (by simp)
  | interrupt _ _ hexternal => exact absurd (hoff.symm.trans hexternal) (by simp)
  | handle hin | handleStop hin | claim hin | uartintr hin | diskIntrRound hin | diskIntrEnd hin
  | diskIntrStop hin | ignore hin | plicComplete hin | mret hin =>
    exact absurd (hhandler.symm.trans hin) (by simp)
  | finishRead =>
    exact
      { waiting := h.waiting
        handled := (s.fill_disk _ _).trans h.handled
        masked := h.masked }
  | consume | finishWrite | finishOutside | raise | uart =>
    exact
      { waiting := h.waiting
        handled := h.handled
        masked := h.masked }

/-- A lost wake-up lasts forever. -/
theorem lostWakeup_of_trace (h : s.LostWakeup) (hrun : Trace Step s l t) : t.LostWakeup :=
  hrun.invariant h fun _ _ _ h hstep => h.step hstep

/-- Outside of the handler only the flag counts. -/
theorem awaited_of_none (hhandler : t.handler = .none)
    (hwaits : t.pc.Waits → (t.buf t.b).disk = true) : t.Awaited where
  waits := hwaits
  inDiskIntr hclaimed := absurd (hhandler.symm.trans hclaimed) (by simp)

/-- In the handler, before and after `diskIntr`. -/
theorem Awaited.goOn (h : s.Awaited) {csrs : Csrs} {handler : HandlerPc}
    (hhandler : handler ≠ .claimed virtio0Irq) :
    Awaited
      { s with
        csrs
        handler } where
  waits := h.waits
  inDiskIntr hclaimed := absurd hclaimed hhandler

/-- The disk owns the buffer while the hart waits. -/
theorem Awaited.step (h : s.Awaited) (hcontrol : s.Controlled) (hstep : WindowStep s a t) :
    t.Awaited := by
  obtain ⟨hstep, hwindow⟩ := hstep
  cases hstep with
  | kernel hat =>
    refine awaited_of_none hat.2 fun hwaits => ?_
    rw [show s.pc = .idle from hat.1] at hwaits
    cases hwaits
  | call hat => exact awaited_of_none hat.2 fun _ => by simp [DiskState.begin, DiskState.setBuf]
  | devOnMie hat | devOnMstatus hat | wfi hat =>
    exact awaited_of_none hat.2 fun _ => h.waits (by rw [hat.1]; trivial)
  | callStop hat | allOffMstatus hat | allOffMie hat | ret hat | retStop hat | leave hat =>
    exact awaited_of_none hat.2 fun hwaits => by cases hwaits
  | wake hat => exact awaited_of_none hat.2 fun hwaits => by cases hwaits
  -- interrupts are enabled only around the wait
  | interrupt hhandler hglobal =>
    refine ⟨fun hwaits => ?_, fun hclaimed => by cases hclaimed⟩
    rcases hcontrol.interruptible hhandler hglobal with hpc | hpc
    · exact h.waits (by rw [hpc]; trivial)
    · exact h.waits (by rw [hpc]; trivial)
  | handle hin | plicComplete hin | mret hin => exact h.goOn (by simp)
  | uartintr hin | diskIntrEnd hin | ignore hin => exact h.goOn (by simp)
  | handleStop | diskIntrStop => exact awaited_of_none rfl fun hwaits => by cases hwaits
  | claim hmasked =>
    rw [Controlled, hmasked] at hcontrol
    refine ⟨h.waits, fun hclaimed => ?_⟩
    rcases hcontrol.1 with hpc | hpc
    · -- Before `wfi` only the UART is claimed.
      have hne := Plic.claim_ne_virtio (hwindow _ rfl hpc)
      simp only [HandlerPc.claimed.injEq] at hclaimed
      exact absurd hclaimed hne
    · exact hpc
  | diskIntrRound hclaimed =>
    have hpc := h.inDiskIntr hclaimed
    refine ⟨fun hwaits => ?_, fun _ => hpc⟩
    rw [show s.pc = .resumed from hpc] at hwaits
    cases hwaits
  | finishRead =>
    exact
      { waits := fun hwaits => (s.fill_disk _ _).trans (h.waits hwaits)
        inDiskIntr := h.inDiskIntr }
  | consume | finishWrite | finishOutside | raise | uart =>
    exact
      { waits := h.waits
        inDiskIntr := h.inDiskIntr }

theorem awaited_of_trace {csrs : Csrs} {buf : BufRef → DiskBuffer} {buf0 : BlkOuthdr}
    {medium : ℕ → BitVec 8} (hrun : Trace WindowStep (boot csrs buf buf0 medium) l s) :
    s.Controlled ∧ s.Awaited :=
  hrun.invariant (I := fun s => s.Controlled ∧ s.Awaited)
    ⟨controlled_boot, awaited_of_none rfl fun hwaits => by cases hwaits⟩
    fun _ _ _ h hstep => ⟨h.1.step hstep.1, h.2.step h.1 hstep⟩

/-- No run loses a wake-up in which the handler does not claim the interrupt of the disk between
`intr_dev_on` and `wfi`. -/
theorem not_lostWakeup_of_trace {csrs : Csrs} {buf : BufRef → DiskBuffer} {buf0 : BlkOuthdr}
    {medium : ℕ → BitVec 8} (hrun : Trace WindowStep (boot csrs buf buf0 medium) l s) :
    ¬s.LostWakeup := by
  intro hlost
  have hwaits := (awaited_of_trace hrun).2.waits (by rw [hlost.waiting.1]; trivial)
  rw [hlost.handled] at hwaits
  cases hwaits

theorem OrderlyStep.window (h : OrderlyStep s a t) : WindowStep s a t :=
  ⟨h.1, fun irq heq hpc => absurd (hpc.symm.trans (h.2.2 irq heq).1) (by simp)⟩

/-- A first read takes its interrupt in `wfi`; a second one waits then. -/
theorem not_lostWakeup_second : ∃ s : DiskMachine,
    Trace WindowStep .sample
      (readEvents ++ [.leave, .call firstBuf false Disk.firstDesc, .devOnMie, .devOnMstatus, .wfi])
      s ∧ s.At .waiting ∧ ¬s.LostWakeup := by
  obtain ⟨s, hread, hreturned, hblockno, -⟩ := exists_readRun
  have hleave := snocOther hread (.leave hreturned) (by simp)
  -- all descriptors are free again
  have hrequests := (controlled_and_requests (hleave.mono fun _ _ _ h => h.completion)).2
  have hfree := (hrequests.served.free rfl).1
  have hinside : ((s.toDiskState.leave.buf firstBuf).blockno).toNat < diskSize := by
    have hsame : (s.toDiskState.leave.buf firstBuf).blockno = (s.buf firstBuf).blockno := by
      by_cases hb : firstBuf = s.b
      · simp [DiskState.leave, DiskState.setBuf, hb]
      · simp [DiskState.leave, DiskState.setBuf, hb]
    rw [hsame, hblockno]
    decide
  have hcall := snocOther hleave
    (.call ⟨rfl, hreturned.2⟩ hinside (Disk.submit_of_free hfree firstBuf false)) (by simp)
  have hmie := snocOther hcall (.devOnMie ⟨rfl, hreturned.2⟩) (by simp)
  have hmstatus := snocOther hmie (.devOnMstatus ⟨rfl, hreturned.2⟩) (by simp)
  have hwfi := snocOther hmstatus (.wfi ⟨rfl, hreturned.2⟩) (by simp)
  have hrun := hwfi.mono fun _ _ _ h => h.window
  exact ⟨_, hrun, ⟨rfl, hreturned.2⟩, not_lostWakeup_of_trace hrun⟩

/-- The device is fast: its interrupt arrives before `wfi`. -/
def fastEvents : List DiskEvent :=
  [.call firstBuf false Disk.firstDesc, .devOnMie, .consume Disk.firstDesc,
    .finish Disk.firstDesc, .raise, .devOnMstatus, .interrupt, .handle, .claim virtio0Irq,
    .diskIntrRound Disk.firstDesc firstBuf, .diskIntrEnd, .plicComplete, .mret, .wfi]

/-- A wake-up is lost when the interrupt of the disk arrives before `wfi`: the request is completed
and handled, and the hart waits for it with all interrupts off. -/
theorem lostWakeup_before_wfi :
    ∃ s : DiskMachine, Trace Step .sample fastEvents s ∧ s.LostWakeup ∧
      (diskHistory fastEvents).finished = (diskHistory fastEvents).submitted.map Prod.fst ∧
      (diskHistory fastEvents).processed = (diskHistory fastEvents).submitted := by
  have hcall := Trace.refl.snoc sample_call
  have hconsume := (hcall.snoc (.devOnMie ⟨rfl, rfl⟩)).snoc
    (.consume rfl (by decide) rfl : Step _ (.consume (Disk.firstThree 0)) _)
  have hraise := (hconsume.snoc (.finishRead rfl
    (Disk.chained_publish Disk.firstThree_injective firstBuf ..) rfl (by decide))).snoc (.raise rfl)
  have hinterrupt := (hraise.snoc (.devOnMstatus ⟨rfl, rfl⟩)).snoc (.interrupt rfl rfl rfl rfl)
  have hclaim := (hinterrupt.snoc (.handle rfl (kernelInterruptHandler_of_external rfl))).snoc
    (.claim rfl)
  have hround := hclaim.snoc
    (.diskIntrRound rfl rfl : Step _ (.diskIntrRound (Disk.firstThree 0) firstBuf) _)
  have hmret := ((hround.snoc (.diskIntrEnd rfl rfl)).snoc (.plicComplete rfl)).snoc (.mret rfl)
  exact ⟨_, hmret.snoc (.wfi ⟨rfl, rfl⟩), ⟨⟨rfl, rfl⟩, rfl, by decide⟩, rfl, rfl⟩

end DiskMachine

end R5O5
