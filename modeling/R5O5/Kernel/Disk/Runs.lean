import R5O5.Kernel.Disk.Requests

/-!
# Runs of the disk driver

In runs in which only the interrupt of the disk ends `wfi`, every request passes through its stages
while `diskRW` waits for it. An interrupt of the UART can end `wfi` as well, and then `diskRW`
returns before its request is served.

## Main definitions

- `CompletionStep`: a step that does not end `wfi` but by the interrupt of the disk;
- `Served`: what holds of the requests at every moment.

## Main results

- `served_of_trace`: the requests in every such run;
- `diskRW_of_trace`: `diskRW` returns when its request is completed;
- `diskRW_returns_early`: with the UART it may return before.
-/

namespace R5O5

/-- The stage of the request of a call goes with the position of the hart. -/
structure Fits (g : Stage) (pc : DiskPc) (handler : HandlerPc) : Prop where
  claimed : g = .claimed → handler = .claimed virtio0Irq
  inDiskIntr : handler = .claimed virtio0Irq → g = .claimed ∨ g = .handled
  resumed : pc = .resumed → handler = .entered ∨ handler = .masked ∨
    handler = .claimed virtio0Irq ∨ g = .handled
  off : pc = .mstatusOff ∨ pc = .off → g = .handled

section Fits

variable {g : Stage} {pc : DiskPc} {handler : HandlerPc}

/-- The device goes on with the request. -/
theorem Fits.device (h : Fits g pc handler) (hclaimed : g ≠ .claimed) (hhandled : g ≠ .handled)
    {g' : Stage} (hg' : g' ≠ .claimed) : Fits g' pc handler where
  claimed heq := absurd heq hg'
  inDiskIntr heq := by
    rcases h.inDiskIntr heq with heq | heq
    · exact absurd heq hclaimed
    · exact absurd heq hhandled
  resumed heq := by
    rcases h.resumed heq with heq | heq | heq | heq
    · exact Or.inl heq
    · exact Or.inr (Or.inl heq)
    · exact Or.inr (Or.inr (Or.inl heq))
    · exact absurd heq hhandled
  off heq := absurd (h.off heq) hhandled

/-- The handler goes on after the interrupt of the disk, or with another one. -/
theorem Fits.goOn (h : Fits g pc handler) (hentered : handler ≠ .entered)
    (hmasked : handler ≠ .masked) (hdisk : handler ≠ .claimed virtio0Irq) {handler' : HandlerPc}
    (hdisk' : handler' ≠ .claimed virtio0Irq) : Fits g pc handler' where
  claimed heq := absurd (h.claimed heq) hdisk
  inDiskIntr heq := absurd heq hdisk'
  resumed heq := by
    rcases h.resumed heq with heq | heq | heq | heq
    · exact absurd heq hentered
    · exact absurd heq hmasked
    · exact absurd heq hdisk
    · exact Or.inr (Or.inr (Or.inr heq))
  off := h.off

/-- A handled request fits every handler. -/
theorem fits_handled (pc : DiskPc) (handler : HandlerPc) : Fits .handled pc handler where
  claimed heq := by cases heq
  inDiskIntr _ := Or.inr rfl
  resumed _ := Or.inr (Or.inr (Or.inr rfl))
  off _ := rfl

end Fits

/-- The hart is in a call of `diskRW`. -/
def DiskPc.Active : DiskPc → Prop
  | .idle | .returned | .stopped _ => False
  | _ => True

/-- What becomes of the requests. -/
inductive Requests (H : DiskHistory) (s : DiskMachine) : Prop
  | idle (hpc : s.pc = .idle) (h : Quiet H s.toDiskState)
  | returned (hpc : s.pc = .returned) (h : Quiet H s.toDiskState)
      (hlast : ∃ past, H.submitted = past ++ [(s.idx 0, s.b)])
      (htransferred : Transferred s.toDiskState)
  | active {past : List (Fin num × BufRef)} {g : Stage} (hpc : s.pc.Active)
      (h : InFlight past g H s.toDiskState) (hfits : Fits g s.pc s.handler)

/-- When the hart claims an interrupt that has ended `wfi`, the interrupt of the disk is pending. -/
def CompletionEndsWfi (s : DiskMachine) (a : DiskEvent) : Prop :=
  ∀ irq, a = .claim irq → s.pc = .resumed → s.plic.virtio = true

section Runs

variable {H : DiskHistory} {s t : DiskMachine} {a : DiskEvent}

/-- In a call there is a request in flight. -/
theorem Requests.inFlight (h : Requests H s) (hpc : s.pc.Active) :
    ∃ past g, InFlight past g H s.toDiskState ∧ Fits g s.pc s.handler := by
  cases h with
  | idle hidle => rw [hidle] at hpc; cases hpc
  | returned hreturned => rw [hreturned] at hpc; cases hpc
  | active _ h hfits => exact ⟨_, _, h, hfits⟩

theorem Requests.quiet (h : Requests H s) (hpc : s.pc = .idle ∨ s.pc = .returned) :
    Quiet H s.toDiskState := by
  cases h with
  | idle _ h => exact h
  | returned _ h => exact h
  | active hactive => rcases hpc with hpc | hpc <;> rw [hpc] at hactive <;> cases hactive

/-- A step of the hart in `diskRW`, outside of the handler. -/
theorem Requests.advance (h : Requests H s) {pc : DiskPc} (hat : s.At pc) (hactive : pc.Active)
    {csrs : Csrs} {pc' : DiskPc} (hactive' : pc'.Active) (hresumed : pc' ≠ .resumed)
    (hoff : pc' = .mstatusOff ∨ pc' = .off → pc = .resumed ∨ pc = .mstatusOff) :
    Requests H
      { s with
        csrs
        pc := pc' } := by
  obtain ⟨hpc, hhandler⟩ := hat
  obtain ⟨past, g, hin, hfits⟩ := h.inFlight (hpc ▸ hactive)
  refine .active hactive' hin ⟨hfits.claimed, hfits.inDiskIntr, fun h => absurd h hresumed, ?_⟩
  intro hpc'
  rcases hoff hpc' with hpc'' | hpc''
  · have hhandled := hfits.resumed (hpc.trans hpc'')
    simpa [hhandler] using hhandled
  · exact hfits.off (Or.inl (hpc.trans hpc''))

/-- Interrupts are taken in calls only. -/
theorem Interruptible.active {pc : DiskPc} (h : DiskMachine.Interruptible pc) : pc.Active := by
  rcases h with rfl | rfl <;> trivial

theorem Interruptible.not_off {pc : DiskPc} (h : DiskMachine.Interruptible pc) :
    ¬(pc = .mstatusOff ∨ pc = .off) := by
  rcases h with rfl | rfl <;> simp

/-- Every step keeps the requests in order, when only the disk ends `wfi`. -/
theorem Requests.step (h : Requests H s) (hcontrol : s.Controlled) (hgood : CompletionEndsWfi s a)
    (hstep : DiskMachine.Step s a t) : Requests (H.push a) t := by
  cases hstep with
  | kernel hat hbuf => exact .idle hat.1 ((h.quiet (Or.inl hat.1)).congr _ hbuf)
  | call hat hinside hsubmit =>
    obtain ⟨-, hin⟩ := (h.quiet (Or.inl hat.1)).begin hinside hsubmit
    refine .active trivial hin ⟨by simp, ?_, by simp, by simp⟩
    intro hhandler
    rw [hat.2] at hhandler
    cases hhandler
  | callStop hat hinside hsubmit =>
    rw [Disk.submit_of_free (h.quiet (Or.inl hat.1)).free] at hsubmit
    cases hsubmit
  | devOnMie hat => exact h.advance hat trivial trivial (by simp) (by simp)
  | devOnMstatus hat => exact h.advance hat trivial trivial (by simp) (by simp)
  | wfi hat => exact h.advance hat trivial trivial (by simp) (by simp)
  | wake hat hglobal hexternal =>
    -- In `wfi` both enables are on or both are off.
    rw [DiskMachine.Controlled, hat.2, hat.1] at hcontrol
    simp_all
  | allOffMstatus hat => exact h.advance hat trivial trivial (by simp) (by simp)
  | allOffMie hat => exact h.advance hat trivial trivial (by simp) (by simp)
  | ret hat hrelease =>
    obtain ⟨past, g, hin, hfits⟩ := h.inFlight (by rw [hat.1]; trivial)
    have hhandled : g = .handled := hfits.off (Or.inr hat.1)
    subst hhandled
    obtain ⟨disk, hok, hquiet⟩ := hin.release
    rw [hok] at hrelease
    cases hrelease
    exact .returned rfl hquiet ⟨past, hin.submitted⟩ (hin.transferred rfl)
  | retStop hat hrelease =>
    obtain ⟨past, g, hin, hfits⟩ := h.inFlight (by rw [hat.1]; trivial)
    have hhandled : g = .handled := hfits.off (Or.inr hat.1)
    subst hhandled
    obtain ⟨disk, hok, -⟩ := hin.release
    rw [hok] at hrelease
    cases hrelease
  | leave hat =>
    have hquiet := h.quiet (Or.inr hat.1)
    refine .idle rfl (hquiet.congr s.buf0 fun b => ?_)
    by_cases hb : b = s.b
    · simp [hb]
    · simp [hb]
  | interrupt hhandler hglobal =>
    have hnone : ∀ irq, s.handler ≠ .claimed irq := by simp [hhandler]
    rcases hcontrol.interruptible hhandler hglobal with hpc | hpc
    · obtain ⟨past, g, hin, hfits⟩ := h.inFlight (by rw [hpc]; trivial)
      refine .active (by simp [hpc, DiskPc.Active]) hin ⟨fun hg => ?_, by simp, by simp, ?_⟩
      · exact absurd (hfits.claimed hg) (hnone _)
      · simp [hpc]
    · obtain ⟨past, g, hin, hfits⟩ := h.inFlight (by rw [hpc]; trivial)
      refine .active (by simp [hpc, DiskPc.Active]) hin ⟨fun hg => ?_, by simp, by simp, ?_⟩
      · exact absurd (hfits.claimed hg) (hnone _)
      · simp [hpc]
  | handle hentered hhandle =>
    rw [DiskMachine.Controlled, hentered] at hcontrol
    obtain ⟨past, g, hin, hfits⟩ := h.inFlight (Interruptible.active hcontrol.1)
    refine .active (Interruptible.active hcontrol.1) hin ⟨fun hg => ?_, by simp, by simp, hfits.off⟩
    have hclaimed := hfits.claimed hg
    rw [hentered] at hclaimed
    cases hclaimed
  | handleStop hentered hhandle =>
    rw [DiskMachine.Controlled, hentered] at hcontrol
    rw [kernelInterruptHandler_of_external hcontrol.2.2.1] at hhandle
    cases hhandle
  | claim hmasked =>
    rw [DiskMachine.Controlled, hmasked] at hcontrol
    obtain ⟨hpc, -, hpending⟩ := hcontrol
    obtain ⟨past, g, hin, hfits⟩ := h.inFlight (Interruptible.active hpc)
    by_cases hvirtio : s.plic.virtio = true
    · have hclaim : s.plic.claim = (virtio0Irq, { s.plic with virtio := false }) := if_pos hvirtio
      rw [hclaim]
      exact .active (Interruptible.active hpc) (hin.claim hvirtio)
        ⟨fun _ => rfl, fun _ => Or.inl rfl, by simp, fun h => absurd h (Interruptible.not_off hpc)⟩
    · -- Only the UART can have interrupted, and then it has not ended `wfi`.
      have huart : s.plic.uart = true := by simpa [Plic.pending, hvirtio] using hpending
      have hclaim : s.plic.claim = (uart0Irq, { s.plic with uart := false }) := by
        rw [Plic.claim, if_neg hvirtio, if_pos huart]
      have hnotResumed : s.pc ≠ .resumed := fun h => hvirtio (hgood _ rfl h)
      rw [hclaim]
      refine .active (Interruptible.active hpc) hin.claim_uart ⟨fun hg => ?_,
        by simp [uart0Irq, virtio0Irq], fun h => absurd h hnotResumed,
        fun h => absurd h (Interruptible.not_off hpc)⟩
      have hclaimed := hfits.claimed hg
      rw [hmasked] at hclaimed
      cases hclaimed
  | uartintr hclaimed =>
    rw [DiskMachine.Controlled, hclaimed] at hcontrol
    obtain ⟨past, g, hin, hfits⟩ := h.inFlight (Interruptible.active hcontrol.1)
    refine .active (Interruptible.active hcontrol.1) hin (hfits.goOn ?_ ?_ ?_ ?_)
    all_goals simp [hclaimed, uart0Irq, virtio0Irq]
  | diskIntrRound hclaimed hround =>
    rw [DiskMachine.Controlled, hclaimed] at hcontrol
    obtain ⟨past, g, hin, hfits⟩ := h.inFlight (Interruptible.active hcontrol.1)
    rcases hfits.inDiskIntr hclaimed with rfl | rfl
    · rw [hin.diskIntrRound_eq rfl rfl] at hround
      cases hround
      exact .active (Interruptible.active hcontrol.1) hin.diskIntrRound (fits_handled _ _)
    · rw [hin.diskIntrRound_none (Or.inr rfl)] at hround
      cases hround
  | diskIntrEnd hclaimed hround =>
    rw [DiskMachine.Controlled, hclaimed] at hcontrol
    obtain ⟨past, g, hin, hfits⟩ := h.inFlight (Interruptible.active hcontrol.1)
    rcases hfits.inDiskIntr hclaimed with rfl | rfl
    · rw [hin.diskIntrRound_eq rfl rfl] at hround
      cases hround
    · exact .active (Interruptible.active hcontrol.1) hin (fits_handled _ _)
  | diskIntrStop hclaimed hround =>
    rw [DiskMachine.Controlled, hclaimed] at hcontrol
    obtain ⟨past, g, hin, hfits⟩ := h.inFlight (Interruptible.active hcontrol.1)
    rcases hfits.inDiskIntr hclaimed with rfl | rfl
    · rw [hin.diskIntrRound_eq rfl rfl] at hround
      cases hround
    · rw [hin.diskIntrRound_none (Or.inr rfl)] at hround
      cases hround
  | ignore hclaimed huart hvirtio =>
    rw [DiskMachine.Controlled, hclaimed] at hcontrol
    rcases hcontrol.2.2 with rfl | rfl
    · exact absurd rfl huart
    · exact absurd rfl hvirtio
  | plicComplete hserved =>
    rw [DiskMachine.Controlled, hserved] at hcontrol
    obtain ⟨past, g, hin, hfits⟩ := h.inFlight (Interruptible.active hcontrol.1)
    refine .active (Interruptible.active hcontrol.1) hin (hfits.goOn ?_ ?_ ?_ ?_)
    all_goals simp [hserved]
  | mret hcompleted =>
    rw [DiskMachine.Controlled, hcompleted] at hcontrol
    obtain ⟨past, g, hin, hfits⟩ := h.inFlight (Interruptible.active hcontrol.1)
    refine .active (Interruptible.active hcontrol.1) hin (hfits.goOn ?_ ?_ ?_ ?_)
    all_goals simp [hcompleted]
  | consume hserving hne hring =>
    cases h with
    | idle _ h | returned _ h => exact absurd h.lastAvail hne
    | active hactive hin hfits =>
      obtain ⟨rfl, hin'⟩ := hin.consume hne hring
      exact .active hactive hin' (hfits.device (by simp) (by simp) (by simp))
  | finishRead hserving hchain =>
    cases h with
    | idle _ h | returned _ h => exact absurd (h.serving.symm.trans hserving) (by simp)
    | active hactive hin hfits =>
      obtain ⟨rfl, -⟩ := hin.serving_of_some hserving
      exact .active hactive (hin.finishRead hserving hchain)
        (hfits.device (by simp) (by simp) (by simp))
  | finishWrite hserving hchain =>
    cases h with
    | idle _ h | returned _ h => exact absurd (h.serving.symm.trans hserving) (by simp)
    | active hactive hin hfits =>
      obtain ⟨rfl, -⟩ := hin.serving_of_some hserving
      exact .active hactive (hin.finishWrite hserving hchain)
        (hfits.device (by simp) (by simp) (by simp))
  | finishOutside hserving hchain hplace =>
    cases h with
    | idle _ h | returned _ h => exact absurd (h.serving.symm.trans hserving) (by simp)
    | active hactive hin hfits => exact absurd hin.place_le (Nat.not_le_of_lt hplace)
  | raise hdue =>
    cases h with
    | idle _ h | returned _ h => exact absurd (h.due.symm.trans hdue) (by simp)
    | active hactive hin hfits =>
      obtain ⟨rfl, hin'⟩ := hin.raise hdue
      exact .active hactive hin' (hfits.device (by simp) (by simp) (by simp))
  | uart =>
    cases h with
    | idle hpc h => exact .idle hpc h.uart
    | returned hpc h hlast htransferred => exact .returned hpc h.uart hlast htransferred
    | active hactive hin hfits => exact .active hactive hin.uart hfits

end Runs

/-! ## Runs from boot -/

/-- The machine after the kernel has set up its drivers. -/
def DiskMachine.boot (csrs : Csrs) (buf : BufRef → DiskBuffer) (buf0 : BlkOuthdr)
    (medium : ℕ → BitVec 8) : DiskMachine where
  b := .head
  write := false
  idx := Disk.firstThree
  disk := diskInit
  buf b := { buf b with disk := false }
  buf0
  device :=
    { lastAvail := 0
      serving := none
      medium
      due := 0 }
  plic :=
    { virtio := false
      uart := false }
  csrs := intrAllOff csrs
  pc := .idle
  handler := .none

/-- A step that does not end `wfi` but by the interrupt of the disk. -/
def DiskMachine.CompletionStep (s : DiskMachine) (a : DiskEvent) (t : DiskMachine) : Prop :=
  Step s a t ∧ CompletionEndsWfi s a

/-- What holds of the requests at every moment. -/
structure Served (H : DiskHistory) (s : DiskMachine) : Prop where
  /-- No error is reached and no loop runs forever. -/
  not_stopped : ∀ e, s.pc ≠ .stopped e
  /-- Before a call all descriptors are free, and three are found at once. -/
  free : s.pc = .idle → (∀ i, s.disk.free i = true) ∧
    ∃ disk, s.disk.alloc3Desc = .ok (some Disk.firstThree, disk)
  /-- During a call its three descriptors are distinct, linked in order and taken. -/
  chained : s.pc.Active → s.disk.Chained s.idx s.b s.write ∧
    ∀ i, s.disk.free i = true ↔ ∀ k, i ≠ s.idx k
  /-- The device is given every head once. -/
  consumed : H.consumed <+: H.submitted.map Prod.fst
  finished : H.finished <+: H.consumed
  /-- `diskIntr` processes every request once. -/
  processed : H.processed <+: H.submitted
  processed_finished : H.processed.map Prod.fst <+: H.finished
  /-- `diskIntr` stops when it has processed all used elements. -/
  diskIntrRound : s.disk.diskIntrRound = .ok none ↔ H.processed.map Prod.fst = H.finished
  /-- Between two calls nothing is left over. -/
  quiet : s.pc = .idle ∨ s.pc = .returned →
    H.consumed = H.submitted.map Prod.fst ∧ H.finished = H.submitted.map Prod.fst ∧
      H.processed = H.submitted
  /-- The disk owns the buffers of the requests that `diskIntr` has not yet processed. -/
  owned : ∀ b, (s.buf b).disk = true ↔ ∃ head, (head, b) ∈ H.submitted.drop H.processed.length
  /-- `free_chain` gives back the three descriptors of the call and no others. -/
  release : s.pc = .off → ∃ disk, s.disk.release s.idx = .ok disk ∧
    ∀ i, disk.free i = true ↔ s.disk.free i = true ∨ ∃ k, i = s.idx k

/-! ## A run -/

/-- A machine whose disk holds one byte everywhere. -/
def DiskMachine.sample : DiskMachine :=
  .boot
    { mstatus := 0
      mie := 0
      mtvec := 0
      satp := 0
      mepc := 0
      mcause := 0 }
    (fun _ =>
      { valid := false
        disk := false
        blockno := 0
        data := fun _ => 0 })
    { type := 0
      reserved := 0
      sector := 0 }
    fun _ => 7

/-- The first buffer. -/
def firstBuf : BufRef := .buf ⟨0, by decide⟩

/-- A read, served while the hart waits. -/
def readEvents : List DiskEvent :=
  [.call firstBuf false Disk.firstDesc, .devOnMie, .devOnMstatus, .wfi,
    .consume Disk.firstDesc, .finish Disk.firstDesc, .raise, .interrupt, .handle,
    .claim virtio0Irq, .diskIntrRound Disk.firstDesc firstBuf, .diskIntrEnd, .plicComplete,
    .mret, .allOffMstatus, .allOffMie, .ret]

/-- The state after the call of `diskRW`. -/
def DiskMachine.called : DiskMachine :=
  { DiskMachine.sample with
    toDiskState := DiskMachine.sample.begin firstBuf false Disk.firstThree
      (Disk.publish Disk.firstThree firstBuf false
        { diskInit with free := fun i => decide (3 ≤ i.val) })
    pc := .published }

/-- The first call of the sample machine. -/
theorem sample_call : DiskMachine.Step .sample (.call firstBuf false (Disk.firstThree 0)) .called :=
  .call ⟨rfl, rfl⟩ (by decide) (Disk.submit_of_free (fun _ => rfl) ..)

/-- A step by which the hart takes interrupts in `wfi` only, and claims only that of the disk. -/
def DiskMachine.OrderlyStep (s : DiskMachine) (a : DiskEvent) (t : DiskMachine) : Prop :=
  Step s a t ∧ (a = .interrupt → s.pc = .waiting ∧ s.plic.virtio = true) ∧
    ∀ irq, a = .claim irq → s.pc = .resumed ∧ s.plic.virtio = true

/-- In orderly steps only the interrupt of the disk ends `wfi`. -/
theorem DiskMachine.OrderlyStep.completion {s t : DiskMachine} {a : DiskEvent}
    (h : OrderlyStep s a t) : CompletionStep s a t :=
  ⟨h.1, fun irq heq _ => (h.2.2 irq heq).2⟩

/-- A step that takes and claims no interrupt. -/
theorem snocOther {s t u : DiskMachine} {l : List DiskEvent} {a : DiskEvent}
    (hrun : Trace DiskMachine.OrderlyStep s l t) (hstep : DiskMachine.Step t a u)
    (hother : a ≠ .interrupt ∧ ∀ irq, a ≠ .claim irq) :
    Trace DiskMachine.OrderlyStep s (l ++ [a]) u :=
  hrun.snoc ⟨hstep, fun h => absurd h hother.1, fun irq h => absurd h (hother.2 irq)⟩

/-- The read returns, with its block in the first buffer. -/
theorem exists_readRun : ∃ s : DiskMachine,
    Trace DiskMachine.OrderlyStep .sample readEvents s ∧ s.At .returned ∧
      (s.buf firstBuf).blockno = 0 ∧ (s.buf firstBuf).data = fun _ => 7 := by
  have hcall := snocOther Trace.refl sample_call (by simp)
  have hmie := snocOther hcall (.devOnMie ⟨rfl, rfl⟩) (by simp)
  have hmstatus := snocOther hmie (.devOnMstatus ⟨rfl, rfl⟩) (by simp)
  -- the hart waits; then the device serves the request and raises its interrupt
  have hwfi := snocOther hmstatus (.wfi ⟨rfl, rfl⟩) (by simp)
  have hconsume := snocOther hwfi
    (.consume rfl (by decide) rfl : DiskMachine.Step _ (.consume (Disk.firstThree 0)) _) (by simp)
  have hfinish := snocOther hconsume (.finishRead rfl
    (Disk.chained_publish Disk.firstThree_injective firstBuf ..) rfl (by decide)) (by simp)
  have hraise := snocOther hfinish (.raise rfl) (by simp)
  have hinterrupt := hraise.snoc ⟨.interrupt rfl rfl rfl rfl, fun _ => ⟨rfl, rfl⟩, by simp⟩
  have hhandle :=
    snocOther hinterrupt (.handle rfl (kernelInterruptHandler_of_external rfl)) (by simp)
  have hclaim := hhandle.snoc ⟨.claim rfl, by simp, fun _ _ => ⟨rfl, rfl⟩⟩
  have hround := snocOther hclaim (.diskIntrRound rfl rfl :
    DiskMachine.Step _ (.diskIntrRound (Disk.firstThree 0) firstBuf) _) (by simp)
  have hend := snocOther hround (.diskIntrEnd rfl rfl) (by simp)
  have hcomplete := snocOther hend (.plicComplete rfl) (by simp)
  have hmret := snocOther hcomplete (.mret rfl) (by simp)
  have hoff := snocOther hmret (.allOffMstatus ⟨rfl, rfl⟩) (by simp)
  have hoff' := snocOther hoff (.allOffMie ⟨rfl, rfl⟩) (by simp)
  have hret := snocOther hoff' (.ret ⟨rfl, rfl⟩ rfl) (by simp)
  exact ⟨_, hret, ⟨rfl, rfl⟩, rfl, rfl⟩

/-- The read is a run in which only the interrupt of the disk ends `wfi`. -/
theorem exists_completionRun : ∃ s : DiskMachine,
    Trace DiskMachine.CompletionStep .sample readEvents s ∧ s.pc = .returned := by
  obtain ⟨s, hrun, hreturned, -⟩ := exists_readRun
  exact ⟨s, hrun.mono fun _ _ _ h => h.completion, hreturned.1⟩

/-! ## All runs -/

section Boot

variable {csrs : Csrs} {buf : BufRef → DiskBuffer} {buf0 : BlkOuthdr} {medium : ℕ → BitVec 8}
  {l : List DiskEvent} {s : DiskMachine}

theorem controlled_boot : (DiskMachine.boot csrs buf buf0 medium).Controlled :=
  ⟨(Csrs.masked_intrAllOff csrs).globalOn, (Csrs.masked_intrAllOff csrs).externalOn⟩

theorem requests_boot : Requests (diskHistory []) (DiskMachine.boot csrs buf buf0 medium) :=
  .idle rfl
    { consumed := rfl
      finished := rfl
      processed := rfl
      counted :=
        { availIdx := rfl
          lastAvail := rfl
          usedId := rfl
          usedIdx := rfl }
      serving := rfl
      due := rfl
      virtio := rfl
      free := fun _ => rfl
      owned := fun _ => rfl }

/-- The invariants hold in every run. -/
theorem controlled_and_requests
    (hrun : Trace DiskMachine.CompletionStep (DiskMachine.boot csrs buf buf0 medium) l s) :
    s.Controlled ∧ Requests (diskHistory l) s :=
  hrun.invariant_of_labels (I := fun l s => s.Controlled ∧ Requests (diskHistory l) s)
    ⟨controlled_boot, requests_boot⟩ fun l t a u h hstep => by
      rw [diskHistory_append_singleton]
      exact ⟨h.1.step hstep.1, h.2.step h.1 hstep.2 hstep.1⟩

/-- What holds of the requests in a call. -/
theorem InFlight.served {past : List (Fin num × BufRef)} {g : Stage} {H : DiskHistory}
    (h : InFlight past g H s.toDiskState) (hpc : s.pc.Active) (hfits : Fits g s.pc s.handler) :
    Served H s where
  not_stopped e hstopped := by
    rw [hstopped] at hpc
    cases hpc
  free hidle := by
    rw [hidle] at hpc
    cases hpc
  chained _ := ⟨h.chained, h.inUse⟩
  consumed := by
    rw [h.consumed, h.submitted, List.map_append]
    cases g.taken
    · simp
    · simp
  finished := by
    rw [h.finished, h.consumed]
    cases g <;> simp [Stage.taken, Stage.reported]
  processed := by
    rw [h.processed, h.submitted]
    cases g.awaited
    · simp
    · simp
  processed_finished := by
    rw [h.finished, h.processed]
    cases g <;> simp [Stage.awaited, Stage.reported]
  diskIntrRound := by
    rw [h.finished, h.processed]
    -- a round finds something exactly between the report and the handling
    by_cases hreported : g.reported = true
    · by_cases hhandled : g = .handled
      · subst hhandled
        simp [h.diskIntrRound_none (Or.inr rfl), Stage.awaited, Stage.reported]
      · have hawaited : g.awaited = true := by simpa [Stage.awaited] using hhandled
        simp [h.diskIntrRound_eq hreported hawaited, hreported, hawaited]
    · have hawaited : g.awaited = true := by
        cases g <;> first | rfl | exact absurd rfl hreported
      rw [Bool.not_eq_true] at hreported
      simp [h.diskIntrRound_none (Or.inl hreported), hreported, hawaited]
  quiet hquiet := by
    rcases hquiet with hquiet | hquiet
    · rw [hquiet] at hpc
      cases hpc
    · rw [hquiet] at hpc
      cases hpc
  owned b := by
    rw [h.owned, h.processed, h.submitted]
    cases g.awaited
    · simp
    · simp [eq_comm]
  release hoff := by
    -- behind the wait the request is handled
    have hhandled : g = .handled := hfits.off (Or.inr hoff)
    subst hhandled
    obtain ⟨disk, hok, hquiet⟩ := h.release
    refine ⟨disk, hok, fun i => ⟨fun _ => ?_, fun _ => hquiet.free i⟩⟩
    by_cases hi : ∀ k, i ≠ s.idx k
    · exact Or.inl ((h.inUse i).mpr hi)
    · push Not at hi
      exact Or.inr hi

/-- What holds of the requests outside of calls. -/
theorem Quiet.served {H : DiskHistory} (h : Quiet H s.toDiskState)
    (hpc : s.pc = .idle ∨ s.pc = .returned) : Served H s where
  not_stopped e hstopped := by
    rw [hstopped] at hpc
    rcases hpc with hpc | hpc
    · cases hpc
    · cases hpc
  free _ := ⟨h.free, _, Disk.alloc3Desc_of_free h.free⟩
  chained hactive := by
    rcases hpc with hpc | hpc
    · rw [hpc] at hactive
      cases hactive
    · rw [hpc] at hactive
      cases hactive
  consumed := by rw [h.consumed]
  finished := by rw [h.finished, h.consumed]
  processed := by rw [h.processed]
  processed_finished := by rw [h.processed, h.finished]
  -- nothing is left for the driver to process
  diskIntrRound := by
    have hlength : H.processed.length = H.finished.length := by
      rw [h.processed, h.finished, List.length_map]
    simp [h.counted.diskIntrRound_none hlength, h.processed, h.finished]
  quiet _ := ⟨h.consumed, h.finished, h.processed⟩
  owned b := by simp [h.owned, h.processed]
  release hoff := by
    rw [hoff] at hpc
    rcases hpc with hpc | hpc
    · cases hpc
    · cases hpc

/-- What holds of the requests at any moment. -/
theorem Requests.served {H : DiskHistory} (h : Requests H s) : Served H s := by
  cases h with
  | idle hpc h => exact h.served (Or.inl hpc)
  | returned hpc h => exact h.served (Or.inr hpc)
  | active hpc h hfits => exact h.served hpc hfits

/-- In every run in which only the interrupt of the disk ends `wfi`, the requests are served one
after the other, and the descriptors of each are given back when it is done. -/
theorem served_of_trace
    (hrun : Trace DiskMachine.CompletionStep (DiskMachine.boot csrs buf buf0 medium) l s) :
    Served (diskHistory l) s :=
  (controlled_and_requests hrun).2.served

theorem served_of_trace_read :
    ∃ s : DiskMachine, s.pc = .returned ∧ Served (diskHistory readEvents) s := by
  obtain ⟨s, hrun, hpc⟩ := exists_completionRun
  exact ⟨s, hpc, served_of_trace hrun⟩

/-- The state in which `diskRW` returns. -/
theorem Requests.returned_spec {H : DiskHistory} (h : Requests H s) (hpc : s.pc = .returned) :
    (∃ past, H.submitted = past ++ [(s.idx 0, s.b)]) ∧ H.finished = H.submitted.map Prod.fst ∧
      (s.buf s.b).disk = false ∧ Transferred s.toDiskState := by
  cases h with
  | idle hidle =>
    rw [hidle] at hpc
    cases hpc
  | returned _ h hlast htransferred => exact ⟨hlast, h.finished, h.owned s.b, htransferred⟩
  | active hactive =>
    rw [hpc] at hactive
    cases hactive

/-- The device owns a chain only while `diskRW` waits for it. -/
theorem Requests.owned_spec {H : DiskHistory} (h : Requests H s)
    (howned : H.finished.length < H.submitted.length) :
    s.pc.Active ∧ s.disk.Chained s.idx s.b s.write ∧ ∀ k, s.disk.free (s.idx k) = false := by
  cases h with
  | idle _ h | returned _ h =>
    rw [h.finished, List.length_map] at howned
    omega
  | active hactive hin =>
    refine ⟨hactive, hin.chained, fun k => ?_⟩
    rw [Bool.eq_false_iff]
    exact fun hfree => (hin.inUse _).mp hfree k rfl

/-- In every run in which only the interrupt of the disk ends `wfi`, the device has completed the
request when `diskRW` returns, it owns no free descriptor, and a buffer that `bread` marks as valid
holds its block. -/
theorem diskRW_of_trace
    (hrun : Trace DiskMachine.CompletionStep (DiskMachine.boot csrs buf buf0 medium) l s) :
    (s.pc = .returned →
      (∃ past, (diskHistory l).submitted = past ++ [(s.idx 0, s.b)]) ∧
      (diskHistory l).finished = (diskHistory l).submitted.map Prod.fst ∧
      (s.buf s.b).disk = false ∧
      (s.buf s.b).data = blockData s.device.medium (s.buf s.b).blockno.toNat) ∧
    ((diskHistory l).finished.length < (diskHistory l).submitted.length →
      s.pc.Active ∧ s.disk.Chained s.idx s.b s.write ∧ ∀ k, s.disk.free (s.idx k) = false) ∧
    ∀ t, DiskMachine.Step s .leave t → s.write = false →
      (t.buf s.b).valid = true ∧
        (t.buf s.b).data = blockData t.device.medium (t.buf s.b).blockno.toNat := by
  -- the invariant of the requests says it for every state of the run
  obtain ⟨-, hrequests⟩ := controlled_and_requests hrun
  refine ⟨fun hpc => hrequests.returned_spec hpc, fun howned => hrequests.owned_spec howned, ?_⟩
  intro t hleave hread
  cases hleave with
  | leave hat =>
    obtain ⟨-, -, -, htransferred⟩ := hrequests.returned_spec hat.1
    refine ⟨?_, ?_⟩
    · simp [DiskState.leave, DiskState.setBuf, hread]
    · simpa [DiskState.leave, DiskState.setBuf, Transferred] using htransferred

/-- A read that returns has its block. -/
theorem diskRW_of_trace_read :
    ∃ s : DiskMachine, s.pc = .returned ∧ (s.buf s.b).disk = false ∧
      (s.buf s.b).data = blockData s.device.medium (s.buf s.b).blockno.toNat := by
  obtain ⟨s, hrun, hpc⟩ := exists_completionRun
  obtain ⟨-, -, hdisk, hdata⟩ := (diskRW_of_trace hrun).1 hpc
  exact ⟨s, hpc, hdisk, hdata⟩

/-- A read whose `wfi` is ended by the UART. -/
def uartEvents : List DiskEvent :=
  [.call firstBuf false Disk.firstDesc, .devOnMie, .devOnMstatus, .wfi, .uart, .interrupt,
    .handle, .claim uart0Irq, .uartintr, .plicComplete, .mret, .allOffMstatus, .allOffMie, .ret]

/-- `diskRW` may return before the device has taken the request: the disk still owns the buffer, all
descriptors are free, and the buffer does not hold the block. -/
theorem diskRW_returns_early :
    ∃ s : DiskMachine, Trace DiskMachine.Step .sample uartEvents s ∧ s.pc = .returned ∧
      s.write = false ∧ (diskHistory uartEvents).submitted = [(s.idx 0, s.b)] ∧
      (diskHistory uartEvents).finished = [] ∧ (s.buf s.b).disk = true ∧
      (s.buf s.b).data ≠ blockData s.device.medium (s.buf s.b).blockno.toNat ∧
      ∀ i, s.disk.free i = true := by
  have hcall := Trace.refl.snoc sample_call
  have hwfi := ((hcall.snoc (.devOnMie ⟨rfl, rfl⟩)).snoc (.devOnMstatus ⟨rfl, rfl⟩)).snoc
    (.wfi ⟨rfl, rfl⟩)
  have hinterrupt := (hwfi.snoc .uart).snoc (.interrupt rfl rfl rfl rfl)
  have hhandle := hinterrupt.snoc (.handle rfl (kernelInterruptHandler_of_external rfl))
  have hmret := (((hhandle.snoc (.claim rfl)).snoc (.uartintr rfl)).snoc (.plicComplete rfl)).snoc
    (.mret rfl)
  have hoff := (hmret.snoc (.allOffMstatus ⟨rfl, rfl⟩)).snoc (.allOffMie ⟨rfl, rfl⟩)
  have hret := hoff.snoc (.ret ⟨rfl, rfl⟩ rfl)
  refine ⟨_, hret, rfl, rfl, rfl, rfl, rfl, fun h => ?_, by decide⟩
  exact absurd (congrFun h ⟨0, by decide⟩) (by decide)

end Boot

end R5O5
