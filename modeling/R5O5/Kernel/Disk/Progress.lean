import R5O5.Kernel.Disk.Wakeup

/-!
# Progress of the disk driver

When the hart takes the interrupt of the disk in `wfi`, each call of `diskRW` returns after a
bounded number of steps, and at no moment the hart and the device wait for each other. An interrupt
that is taken before `wfi` stops the hart for ever, whichever device it comes from; one that is
taken in `wfi` for another device ends the call before its request is handled.

## Main definitions

- `DiskMachine.PromptStep`: a step that takes an interrupt only in `wfi` and for the disk;
- `DiskMachine.rank`: how many steps a call has still to make.

## Main results

- `DiskMachine.diskRW_prompt`: what becomes of the calls of `diskRW`.
-/

namespace R5O5

/-- Count one more step of a call. -/
def DiskEvent.count (n : ℕ) : DiskEvent → ℕ
  | .call .. => 0
  | .uart => n
  | _ => n + 1

/-- The steps since the last call of `diskRW`, those of the UART apart. -/
def sinceCall (l : List DiskEvent) : ℕ := l.foldl DiskEvent.count 0

theorem sinceCall_append_singleton (l : List DiskEvent) (a : DiskEvent) :
    sinceCall (l ++ [a]) = a.count (sinceCall l) := by
  rw [sinceCall, List.foldl_append]
  rfl

/-- How many steps the device has still to make for a request. -/
def Stage.rank : Stage → ℕ
  | .given => 3
  | .serving => 2
  | .finished => 1
  | _ => 0

/-- The same, as the state shows it. -/
def DiskState.deviceRank (x : DiskState) : ℕ :=
  if x.device.lastAvail ≠ x.disk.availIdx then 3
  else if x.device.serving.isSome then 2
  else x.device.due

section Stages

variable {past : List (Fin num × BufRef)} {g : Stage} {H : DiskHistory} {x : DiskState}

/-- A request that was just given is not taken yet. -/
theorem InFlight.lastAvail_ne (h : InFlight past .given H x) :
    x.device.lastAvail ≠ x.disk.availIdx := by
  rw [h.counted.lastAvail, h.counted.availIdx, h.consumed, h.submitted]
  have htaken : Stage.given.taken = false := rfl
  rw [htaken, if_neg Bool.false_ne_true, List.append_nil, List.length_map, List.length_append,
    List.length_singleton]
  intro heq
  have hval := congrArg BitVec.toNat heq
  rw [BitVec.toNat_ofNat, BitVec.toNat_ofNat] at hval
  omega

/-- The state shows the stage of the request. -/
theorem InFlight.deviceRank_eq (h : InFlight past g H x) : x.deviceRank = g.rank := by
  unfold DiskState.deviceRank
  by_cases hg : g = .given
  · subst hg
    rw [if_pos h.lastAvail_ne]
    rfl
  · have htaken : g.taken = true := by simpa [Stage.taken] using hg
    have hlast : x.device.lastAvail = x.disk.availIdx := by
      rw [h.counted.lastAvail, h.counted.availIdx, h.consumed, h.submitted, htaken]
      simp
    rw [if_neg (not_not.mpr hlast), h.serving, h.due]
    cases g <;> simp [Stage.rank] at hg ⊢

/-- Between two requests the device has nothing to do. -/
theorem Quiet.deviceRank_eq (h : Quiet H x) : x.deviceRank = 0 := by
  rw [DiskState.deviceRank, if_neg (not_not.mpr h.lastAvail), h.serving, h.due]
  rfl

/-- While the device has not raised the interrupt of a request, it can go on. -/
theorem InFlight.exists_device {s : DiskMachine} (h : InFlight past g H s.toDiskState)
    (hg : g = .given ∨ g = .serving ∨ g = .finished) :
    ∃ a t, a ≠ .uart ∧ a ≠ .interrupt ∧ DiskMachine.Step s a t := by
  rcases hg with rfl | rfl | rfl
  · have hlast : s.device.lastAvail = BitVec.ofNat 16 past.length := by
      rw [h.counted.lastAvail, h.consumed]
      simp [Stage.taken]
    exact ⟨_, _, by simp, by simp, .consume h.serving h.lastAvail_ne (by rw [hlast]; exact h.ring)⟩
  · have hserving : s.device.serving = some (s.idx 0) := h.serving
    have htype := congrArg BlkOuthdr.type h.header
    cases hwrite : s.write with
    | false =>
      rw [hwrite] at htype
      exact ⟨_, _, by simp, by simp, .finishRead hserving (hwrite ▸ h.chained) htype h.place_le⟩
    | true =>
      rw [hwrite] at htype
      exact ⟨_, _, by simp, by simp, .finishWrite hserving (hwrite ▸ h.chained) htype h.place_le⟩
  · have hdue : s.device.due = 0 + 1 := h.due
    exact ⟨_, _, by simp, by simp, .raise hdue⟩

end Stages

namespace DiskMachine

/-- The hart takes interrupts only in `wfi`, and when that of the disk is pending. -/
def PromptStep (s : DiskMachine) (a : DiskEvent) (t : DiskMachine) : Prop :=
  Step s a t ∧ (a = .interrupt → s.pc = .waiting ∧ s.plic.virtio = true)

/-- How many steps the hart has still to make in a call; `disk` is the flag of its buffer. -/
def hartRank : DiskPc → HandlerPc → Bool → ℕ
  | .published, _, _ => 13
  | .mieSet, _, _ => 12
  | .beforeWfi, _, _ => 11
  | .waiting, _, _ => 10
  | .resumed, .entered, _ => 9
  | .resumed, .masked, _ => 8
  | .resumed, .claimed _, true => 7
  | .resumed, .claimed _, false => 6
  | .resumed, .served _, _ => 5
  | .resumed, .completed, _ => 4
  | .resumed, .none, _ => 3
  | .mstatusOff, _, _ => 2
  | .off, _, _ => 1
  | .idle, _, _ | .returned, _, _ | .stopped _, _, _ => 0

/-- How many steps a call has still to make. -/
def rank (s : DiskMachine) : ℕ :=
  hartRank s.pc s.handler (s.buf s.b).disk + s.deviceRank

/-- In a call there is always a step to make. -/
theorem rank_pos {s : DiskMachine} (h : s.pc.Active) : 0 < s.rank := by
  refine Nat.add_pos_left ?_ _
  cases hpc : s.pc with
  | idle | returned | stopped =>
    rw [hpc] at h
    cases h
  | resumed => cases s.handler <;> cases (s.buf s.b).disk <;> exact Nat.succ_pos _
  | published | mieSet | beforeWfi | waiting | mstatusOff | off => exact Nat.succ_pos _

/-- The invariant of the runs with prompt steps. -/
structure Prompt (H : DiskHistory) (s : DiskMachine) : Prop where
  controlled : s.Controlled
  requests : Requests H s
  /-- The interrupts are on when the hart waits. -/
  armed : s.pc = .beforeWfi ∨ s.pc = .waiting →
    s.csrs.globalOn = true ∧ s.csrs.externalOn = true
  /-- They are taken after it has waited. -/
  handler : s.handler ≠ .none → s.pc = .resumed
  awaited : s.pc.Waits → (s.buf s.b).disk = true
  pending : s.handler = .entered ∨ s.handler = .masked → s.plic.virtio = true
  claimed : ∀ irq, s.handler = .claimed irq → irq = virtio0Irq

section Prompt

variable {H : DiskHistory} {s t : DiskMachine} {a : DiskEvent} {l : List DiskEvent}

/-- In runs with prompt steps only the interrupt of the disk ends `wfi`. -/
theorem Prompt.completionEndsWfi (h : Prompt H s) (hstep : Step s a t) : CompletionEndsWfi s a := by
  rintro irq rfl -
  cases hstep with
  | claim hmasked => exact h.pending (Or.inr hmasked)

/-- Outside of the handler. -/
theorem prompt_of_none (hcontrolled : t.Controlled) (hrequests : Requests H t)
    (hhandler : t.handler = .none)
    (harmed : t.pc = .beforeWfi ∨ t.pc = .waiting →
      t.csrs.globalOn = true ∧ t.csrs.externalOn = true)
    (hawaited : t.pc.Waits → (t.buf t.b).disk = true) : Prompt H t where
  controlled := hcontrolled
  requests := hrequests
  armed := harmed
  handler hne := absurd hhandler hne
  awaited := hawaited
  pending hin := by
    rw [hhandler] at hin
    simp at hin
  claimed irq hin := by
    rw [hhandler] at hin
    cases hin

/-- Outside of the handler, before a call or after the wait. -/
theorem prompt_of_not_waits (hcontrolled : t.Controlled) (hrequests : Requests H t)
    (hhandler : t.handler = .none) (hwaits : ¬t.pc.Waits) : Prompt H t := by
  refine prompt_of_none hcontrolled hrequests hhandler (fun hpc => absurd ?_ hwaits)
    fun hpc => absurd hpc hwaits
  rcases hpc with hpc | hpc <;> rw [hpc] <;> trivial

/-- In the handler. -/
theorem prompt_of_resumed (hcontrolled : t.Controlled) (hrequests : Requests H t)
    (hpc : t.pc = .resumed)
    (hpending : t.handler = .entered ∨ t.handler = .masked → t.plic.virtio = true)
    (hclaimed : ∀ irq, t.handler = .claimed irq → irq = virtio0Irq) : Prompt H t where
  controlled := hcontrolled
  requests := hrequests
  armed hwaits := by simp [hpc] at hwaits
  handler _ := hpc
  awaited hwaits := by
    rw [hpc] at hwaits
    cases hwaits
  pending := hpending
  claimed := hclaimed

theorem Prompt.step (h : Prompt H s) (hstep : PromptStep s a t) : Prompt (H.push a) t := by
  obtain ⟨hstep, hprompt⟩ := hstep
  have hcontrolled := h.controlled.step hstep
  have hrequests := h.requests.step h.controlled (h.completionEndsWfi hstep) hstep
  -- the handler only runs behind `wfi`
  have hresumed : ∀ {handler}, s.handler = handler → handler ≠ .none → s.pc = .resumed :=
    fun hin hne => h.handler (hin ▸ hne)
  cases hstep with
  | kernel hat =>
    refine prompt_of_not_waits hcontrolled hrequests hat.2 fun hwaits => ?_
    rw [show s.pc = .idle from hat.1] at hwaits
    cases hwaits
  | allOffMstatus hat | allOffMie hat | ret hat | leave hat | wake hat | callStop hat
  | retStop hat =>
    exact prompt_of_not_waits hcontrolled hrequests hat.2 id
  | handleStop | diskIntrStop => exact prompt_of_not_waits hcontrolled hrequests rfl id
  | call hat =>
    exact prompt_of_none hcontrolled hrequests hat.2 (by simp)
      fun _ => by simp [DiskState.begin, DiskState.setBuf]
  | devOnMie hat =>
    exact prompt_of_none hcontrolled hrequests hat.2 (by simp)
      fun _ => h.awaited (by rw [hat.1]; trivial)
  | devOnMstatus hat =>
    have henabled := h.controlled
    rw [Controlled, hat.2, hat.1] at henabled
    exact prompt_of_none hcontrolled hrequests hat.2
      (fun _ => ⟨Csrs.globalOn_devOnMstatus _, henabled.2⟩)
      fun _ => h.awaited (by rw [hat.1]; trivial)
  | wfi hat =>
    exact prompt_of_none hcontrolled hrequests hat.2 (fun _ => h.armed (Or.inl hat.1))
      fun _ => h.awaited (by rw [hat.1]; trivial)
  | interrupt =>
    obtain ⟨hpc, hvirtio⟩ := hprompt rfl
    exact prompt_of_resumed hcontrolled hrequests (by simp [hpc]) (fun _ => hvirtio) (by simp)
  | handle hentered =>
    exact prompt_of_resumed hcontrolled hrequests (hresumed hentered (by simp))
      (fun _ => h.pending (Or.inl hentered)) (by simp)
  | claim hmasked =>
    have hclaim : s.plic.claim.1 = virtio0Irq := by
      rw [Plic.claim, if_pos (h.pending (Or.inr hmasked))]
    refine prompt_of_resumed hcontrolled hrequests (hresumed hmasked (by simp)) (by simp) ?_
    rintro irq hirq
    cases hirq
    exact hclaim
  | diskIntrRound hclaimed =>
    exact prompt_of_resumed hcontrolled hrequests (hresumed hclaimed (by simp))
      (fun hin => by simp [hclaimed] at hin) h.claimed
  | uartintr hin | diskIntrEnd hin | ignore hin | plicComplete hin =>
    exact prompt_of_resumed hcontrolled hrequests (hresumed hin (by simp)) (by simp) (by simp)
  | mret hcompleted =>
    exact prompt_of_resumed hcontrolled hrequests (hresumed hcompleted (by simp)) (by simp)
      (by simp)
  | finishRead =>
    exact ⟨hcontrolled, hrequests, h.armed, h.handler,
      fun hwaits => (s.fill_disk _ _).trans (h.awaited hwaits), h.pending, h.claimed⟩
  | consume | finishWrite | finishOutside | uart =>
    exact ⟨hcontrolled, hrequests, h.armed, h.handler, h.awaited, h.pending, h.claimed⟩
  | raise =>
    exact ⟨hcontrolled, hrequests, h.armed, h.handler, h.awaited, fun _ => rfl, h.claimed⟩

/-! ### Every step counts -/

/-- In a call some step other than one of the UART is possible. -/
theorem Prompt.exists_step (h : Prompt H s) (hactive : s.pc.Active) :
    ∃ a t, a ≠ .uart ∧ PromptStep s a t := by
  obtain ⟨past, g, hin, hfits⟩ := h.requests.inFlight hactive
  have hcontrolled := h.controlled
  have hother : ∀ {a t}, Step s a t → a ≠ .uart → a ≠ .interrupt →
      ∃ a t, a ≠ .uart ∧ PromptStep s a t :=
    fun hstep huart hinterrupt => ⟨_, _, huart, hstep, fun heq => absurd heq hinterrupt⟩
  cases hhandler : s.handler with
  | entered =>
    rw [Controlled, hhandler] at hcontrolled
    exact hother (.handle hhandler (kernelInterruptHandler_of_external hcontrolled.2.2.1)) (by simp)
      (by simp)
  | masked => exact hother (.claim hhandler) (by simp) (by simp)
  | claimed irq =>
    obtain rfl := h.claimed irq hhandler
    rcases hfits.inDiskIntr hhandler with rfl | rfl
    · exact hother (.diskIntrRound hhandler (hin.diskIntrRound_eq rfl rfl)) (by simp) (by simp)
    · exact hother (.diskIntrEnd hhandler (hin.diskIntrRound_none (Or.inr rfl))) (by simp) (by simp)
  | served irq => exact hother (.plicComplete hhandler) (by simp) (by simp)
  | completed => exact hother (.mret hhandler) (by simp) (by simp)
  | none =>
    cases hpc : s.pc with
    | idle | returned | stopped =>
      rw [hpc] at hactive
      cases hactive
    | published => exact hother (.devOnMie ⟨hpc, hhandler⟩) (by simp) (by simp)
    | mieSet => exact hother (.devOnMstatus ⟨hpc, hhandler⟩) (by simp) (by simp)
    | beforeWfi => exact hother (.wfi ⟨hpc, hhandler⟩) (by simp) (by simp)
    | resumed => exact hother (.allOffMstatus ⟨hpc, hhandler⟩) (by simp) (by simp)
    | mstatusOff => exact hother (.allOffMie ⟨hpc, hhandler⟩) (by simp) (by simp)
    | off =>
      obtain rfl := hfits.off (Or.inr hpc)
      obtain ⟨disk, hok, -⟩ := hin.release
      exact hother (.ret ⟨hpc, hhandler⟩ hok) (by simp) (by simp)
    | waiting =>
      obtain ⟨hglobal, hexternal⟩ := h.armed (Or.inr hpc)
      by_cases hvirtio : s.plic.virtio = true
      · have hpending : s.plic.pending = true := by rw [Plic.pending, hvirtio, Bool.true_or]
        exact ⟨_, _, by simp, .interrupt hhandler hglobal hexternal hpending,
          fun _ => ⟨hpc, hvirtio⟩⟩
      -- the device has not raised the interrupt yet
      · have hawaited := h.awaited (by rw [hpc]; trivial)
        have hg : g = .given ∨ g = .serving ∨ g = .finished := by
          cases g with
          | given | serving | finished => simp
          | raised => exact absurd hin.virtio hvirtio
          | claimed =>
            have hclaimed := hfits.claimed rfl
            rw [hhandler] at hclaimed
            cases hclaimed
          | handled =>
            rw [hin.owned] at hawaited
            simp [Stage.awaited] at hawaited
        obtain ⟨a, t, huart, hinterrupt, hstep⟩ := hin.exists_device hg
        exact hother hstep huart hinterrupt

/-- A step of the hart. -/
theorem rank_hart {n : ℕ} (hdevice : t.deviceRank = s.deviceRank)
    (hhart : hartRank t.pc t.handler (t.buf t.b).disk <
      hartRank s.pc s.handler (s.buf s.b).disk) : n + 1 + t.rank ≤ n + s.rank := by
  rw [rank, rank, hdevice]
  omega

/-- A step of the device. -/
theorem rank_device {n : ℕ} {past : List (Fin num × BufRef)} {g g' : Stage} {H' : DiskHistory}
    (hin : InFlight past g H s.toDiskState) (hin' : InFlight past g' H' t.toDiskState)
    (hlt : g'.rank < g.rank) (hpc : t.pc = s.pc) (hhandler : t.handler = s.handler)
    (hflag : (t.buf t.b).disk = (s.buf s.b).disk) : n + 1 + t.rank ≤ n + s.rank := by
  rw [rank, rank, hin.deviceRank_eq, hin'.deviceRank_eq, hpc, hhandler, hflag]
  omega

/-- In a call every step counts but those of the UART. -/
theorem Prompt.rank_step (h : Prompt H s) (hstep : PromptStep s a t) (hactive : s.pc.Active)
    (n : ℕ) : a.count n + t.rank ≤ n + s.rank := by
  have h' := h.step hstep
  obtain ⟨past, g, hin, hfits⟩ := h.requests.inFlight hactive
  obtain ⟨hstep, hprompt⟩ := hstep
  -- outside of a call nothing happens, and no call stops
  have hidle : ∀ {pc}, s.At pc → ¬pc.Active → a.count n + t.rank ≤ n + s.rank :=
    fun hat hnot => absurd (hat.1 ▸ hactive) hnot
  have hstopped : ∀ {e}, t.pc = .stopped e → a.count n + t.rank ≤ n + s.rank := fun hpc => by
    rcases h'.requests with ⟨hpc', -⟩ | ⟨hpc', -, -, -⟩ | ⟨hactive', -, -⟩
    · rw [hpc] at hpc'
      cases hpc'
    · rw [hpc] at hpc'
      cases hpc'
    · rw [hpc] at hactive'
      cases hactive'
  have hresumed : ∀ {handler}, s.handler = handler → handler ≠ .none → s.pc = .resumed :=
    fun hin hne => h.handler (hin ▸ hne)
  cases hstep with
  | kernel hat | call hat | leave hat => exact hidle hat id
  | callStop | retStop | handleStop | diskIntrStop => exact hstopped rfl
  -- the hart goes on in `diskRW`
  | devOnMie hat | devOnMstatus hat | wfi hat | allOffMstatus hat | allOffMie hat =>
    refine rank_hart rfl ?_
    rw [hat.1, hat.2]
    simp [hartRank]
  | wake hat hglobal =>
    have hon := (h.armed (Or.inr hat.1)).1
    rw [hglobal] at hon
    cases hon
  | ret hat =>
    have hquiet := h'.requests.quiet (Or.inr rfl)
    rw [rank, rank, hquiet.deviceRank_eq, hat.1]
    show n + 1 + 0 ≤ n + (1 + s.deviceRank)
    omega
  -- the handler runs, for the disk
  | interrupt hhandler =>
    obtain ⟨hpc, -⟩ := hprompt rfl
    refine rank_hart rfl ?_
    simp [hpc, hartRank]
  | handle hentered =>
    refine rank_hart rfl ?_
    simp [hresumed hentered (by simp), hentered, hartRank]
  | claim hmasked =>
    refine rank_hart rfl ?_
    simp only [hresumed hmasked (by simp), hmasked]
    cases (s.buf s.b).disk <;> simp [hartRank]
  | uartintr hclaimed => exact absurd (h.claimed _ hclaimed) (by decide)
  | ignore hclaimed _ hvirtio => exact absurd (h.claimed _ hclaimed) hvirtio
  | diskIntrRound hclaimed hround =>
    have howned : (s.buf s.b).disk = g.awaited := by
      rw [hin.owned, decide_eq_true rfl, Bool.true_and]
    rcases hfits.inDiskIntr hclaimed with rfl | rfl
    · rw [hin.diskIntrRound_eq rfl rfl] at hround
      cases hround
      refine rank_hart rfl ?_
      simp [hresumed hclaimed (by simp), hclaimed, howned, DiskState.handled, DiskState.setBuf,
        Stage.awaited, hartRank]
    · rw [hin.diskIntrRound_none (Or.inr rfl)] at hround
      cases hround
  | diskIntrEnd hclaimed =>
    refine rank_hart rfl ?_
    simp only [hresumed hclaimed (by simp), hclaimed]
    cases (s.buf s.b).disk <;> simp [hartRank]
  | plicComplete hserved =>
    refine rank_hart rfl ?_
    simp [hresumed hserved (by simp), hserved, hartRank]
  | mret hcompleted =>
    refine rank_hart rfl ?_
    simp [hresumed hcompleted (by simp), hcompleted, hartRank]
  -- the device goes on with the request
  | consume hserving hne hring =>
    obtain ⟨rfl, hin'⟩ := hin.consume hne hring
    exact rank_device hin hin' (by decide) rfl rfl rfl
  | finishRead hserving hchain =>
    obtain ⟨rfl, -⟩ := hin.serving_of_some hserving
    exact rank_device hin (hin.finishRead hserving hchain) (by decide) rfl rfl (s.fill_disk _ _)
  | finishWrite hserving hchain =>
    obtain ⟨rfl, -⟩ := hin.serving_of_some hserving
    exact rank_device hin (hin.finishWrite hserving hchain) (by decide) rfl rfl rfl
  | finishOutside hserving hchain hplace => exact absurd hin.place_le (Nat.not_le_of_lt hplace)
  | raise hdue =>
    obtain ⟨rfl, hin'⟩ := hin.raise hdue
    exact rank_device hin hin' (by decide) rfl rfl rfl
  | uart => exact Nat.le_refl _

/-- A call makes at most 16 steps, those of the UART apart. -/
theorem Prompt.count_step (h : Prompt H s) (hstep : PromptStep s a t)
    (hactive : s.pc.Active → sinceCall l + s.rank ≤ 16)
    (hreturned : s.pc = .returned → sinceCall l ≤ 16) :
    (t.pc.Active → sinceCall (l ++ [a]) + t.rank ≤ 16) ∧
      (t.pc = .returned → sinceCall (l ++ [a]) ≤ 16) := by
  rw [sinceCall_append_singleton]
  by_cases hpc : s.pc.Active
  case pos =>
    have hle := (h.rank_step hstep hpc (sinceCall l)).trans (hactive hpc)
    exact ⟨fun _ => hle, fun _ => by omega⟩
  -- outside of a call the hart can only start one
  have hquiet : Quiet H s.toDiskState := by
    rcases h.requests with ⟨-, hquiet⟩ | ⟨-, hquiet, -, -⟩ | ⟨hactive, -, -⟩
    · exact hquiet
    · exact hquiet
    · exact absurd hactive hpc
  have hhandler : ∀ {handler}, s.handler = handler → handler = .none := fun hin => by
    by_contra hne
    exact hpc (by rw [h.handler (hin ▸ hne)]; trivial)
  obtain ⟨hstep, hprompt⟩ := hstep
  cases hstep with
  | kernel hat =>
    have hidle : s.pc = .idle := hat.1
    exact ⟨fun hactive' => absurd hactive' hpc, fun heq => by simp [hidle] at heq⟩
  | call hat hinside hsubmit =>
    obtain ⟨-, hin⟩ := hquiet.begin hinside hsubmit
    refine ⟨fun _ => ?_, fun heq => by cases heq⟩
    rw [rank, hin.deviceRank_eq]
    exact Nat.le_refl 16
  | leave => exact ⟨fun hactive' => (hactive' : False).elim, fun heq => by cases heq⟩
  | callStop | retStop | handleStop | diskIntrStop =>
    exact ⟨fun hactive' => (hactive' : False).elim, fun heq => by cases heq⟩
  | devOnMie hat | devOnMstatus hat | wfi hat | wake hat | allOffMstatus hat | allOffMie hat
  | ret hat => exact absurd (by rw [hat.1]; trivial) hpc
  | interrupt => exact absurd (by rw [(hprompt rfl).1]; trivial) hpc
  | handle hin | claim hin | uartintr hin | diskIntrRound hin | diskIntrEnd hin | ignore hin
  | plicComplete hin | mret hin => exact absurd (hhandler hin) (by simp)
  | consume _ hne => exact absurd hquiet.lastAvail hne
  | finishRead hserving | finishWrite hserving | finishOutside hserving =>
    exact absurd (hquiet.serving.symm.trans hserving) (by simp)
  | raise hdue => exact absurd (hquiet.due.symm.trans hdue) (by simp)
  | uart => exact ⟨fun hactive' => absurd hactive' hpc, hreturned⟩

/-- The invariant of the runs. -/
theorem prompt_of_trace {csrs : Csrs} {buf : BufRef → DiskBuffer} {buf0 : BlkOuthdr}
    {medium : ℕ → BitVec 8} (hrun : Trace PromptStep (boot csrs buf buf0 medium) l s) :
    Prompt (diskHistory l) s ∧ (s.pc.Active → sinceCall l + s.rank ≤ 16) ∧
      (s.pc = .returned → sinceCall l ≤ 16) := by
  refine hrun.invariant_of_labels (I := fun l s => Prompt (diskHistory l) s ∧
    (s.pc.Active → sinceCall l + s.rank ≤ 16) ∧ (s.pc = .returned → sinceCall l ≤ 16))
    ⟨prompt_of_not_waits controlled_boot requests_boot rfl id, fun h => (h : False).elim,
      fun h => by cases h⟩ ?_
  rintro l s a t ⟨h, hactive, hreturned⟩ hstep
  rw [diskHistory_append_singleton]
  exact ⟨h.step hstep, h.count_step hstep hactive hreturned⟩

/-! ### Interrupts that are not prompt -/

/-- The hart waits, or is about to, with its interrupts off or in the handler. -/
structure Stuck (s : DiskMachine) : Prop where
  controlled : s.Controlled
  requests : ∃ H, Requests H s
  pc : s.pc = .beforeWfi ∨ s.pc = .waiting ∧ s.handler = .none
  off : s.handler = .none → s.csrs.externalOn = false

theorem Stuck.step (h : Stuck s) (hstep : Step s a t) : Stuck t := by
  have hcontrolled := h.controlled.step hstep
  obtain ⟨H, hrequests⟩ := h.requests
  have hgood : CompletionEndsWfi s a := by
    rintro irq - hpc
    rcases h.pc with hpc' | ⟨hpc', -⟩ <;> rw [hpc] at hpc' <;> cases hpc'
  have hrequests' := hrequests.step h.controlled hgood hstep
  have hnot : ∀ {pc}, s.At pc → pc = .beforeWfi ∨ pc = .waiting := fun hat => by
    rcases h.pc with hpc | ⟨hpc, -⟩ <;> rw [hat.1] at hpc <;> simp [hpc]
  have hbefore : ∀ {handler}, s.handler = handler → handler ≠ .none → s.pc = .beforeWfi :=
    fun hin hne => h.pc.resolve_right fun hwaiting => hne (hin.symm.trans hwaiting.2)
  have hstopped : ∀ {e}, t.pc ≠ .stopped e := fun {e} => hrequests'.served.not_stopped e
  cases hstep with
  | kernel hat | call hat | callStop hat | devOnMie hat | devOnMstatus hat | allOffMstatus hat
  | allOffMie hat | ret hat | retStop hat | leave hat => exact absurd (hnot hat) (by simp)
  | handleStop | diskIntrStop => exact absurd rfl hstopped
  | wfi hat => exact ⟨hcontrolled, ⟨_, hrequests'⟩, Or.inr ⟨rfl, hat.2⟩, fun _ => h.off hat.2⟩
  -- nothing ends `wfi`, and no interrupt is taken
  | wake hat _ hexternal => exact absurd (h.off hat.2) (by simp [hexternal])
  | interrupt hhandler _ hexternal => exact absurd (h.off hhandler) (by simp [hexternal])
  | handle hin | claim hin | uartintr hin | diskIntrEnd hin | ignore hin | plicComplete hin =>
    exact ⟨hcontrolled, ⟨_, hrequests'⟩, Or.inl (hbefore hin (by simp)), by simp⟩
  | diskIntrRound hin =>
    exact ⟨hcontrolled, ⟨_, hrequests'⟩, Or.inl (hbefore hin (by simp)), by simp [hin]⟩
  | mret hin =>
    have hmasked := h.controlled
    rw [Controlled, hin] at hmasked
    exact ⟨hcontrolled, ⟨_, hrequests'⟩, Or.inl (hbefore hin (by simp)),
      fun _ => hmasked.2.externalOn⟩
  | consume | finishRead | finishWrite | finishOutside | raise | uart =>
    exact ⟨hcontrolled, ⟨_, hrequests'⟩, h.pc, h.off⟩

/-- The hart has ended `wfi` for another device, and the disk still owns the buffer. -/
structure Early (s : DiskMachine) : Prop where
  controlled : s.Controlled
  owned : (s.buf s.b).disk = true
  pc : s.pc = .resumed ∨ s.handler = .none ∧
    (s.pc = .mstatusOff ∨ s.pc = .off ∨ s.pc = .returned ∨ ∃ e, s.pc = .stopped e)
  other : s.handler ≠ .claimed virtio0Irq

/-- The disk owns the buffer until its interrupt is claimed. -/
theorem Early.step (h : Early s) (hstep : Step s a t) (hclaim : a ≠ .claim virtio0Irq)
    (hleave : a ≠ .leave) : Early t := by
  have hcontrolled := h.controlled.step hstep
  have hresumed : ∀ {handler}, s.handler = handler → handler ≠ .none → s.pc = .resumed :=
    fun hin hne => h.pc.resolve_right fun hafter => hne (hin.symm.trans hafter.1)
  have hnot : ∀ {pc}, s.At pc → pc = .resumed ∨ pc = .mstatusOff ∨ pc = .off ∨ pc = .returned ∨
      ∃ e, pc = .stopped e := fun hat => by
    obtain ⟨rfl, -⟩ := hat
    exact h.pc.imp_right And.right
  cases hstep with
  | kernel hat | call hat | callStop hat | devOnMie hat | devOnMstatus hat | wfi hat | wake hat =>
    exact absurd (hnot hat) (by simp)
  | leave => exact absurd rfl hleave
  | allOffMstatus hat | allOffMie hat | ret hat | retStop hat =>
    exact ⟨hcontrolled, h.owned, Or.inr ⟨hat.2, by simp⟩, h.other⟩
  -- interrupts are off after `wfi`
  | interrupt hhandler hglobal =>
    rcases h.controlled.interruptible hhandler hglobal with hpc | hpc
    · rcases h.pc with hpc' | ⟨-, hpc'⟩ <;> simp [hpc] at hpc'
    · rcases h.pc with hpc' | ⟨-, hpc'⟩ <;> simp [hpc] at hpc'
  | handleStop => exact ⟨hcontrolled, h.owned, Or.inr ⟨rfl, by simp⟩, by simp⟩
  | handle hin | uartintr hin | plicComplete hin | ignore hin =>
    exact ⟨hcontrolled, h.owned, Or.inl (hresumed hin (by simp)), by simp⟩
  | mret hin => exact ⟨hcontrolled, h.owned, Or.inl (hresumed hin (by simp)), by simp⟩
  | claim hin =>
    exact ⟨hcontrolled, h.owned, Or.inl (hresumed hin (by simp)),
      fun hclaimed => hclaim (congrArg DiskEvent.claim (HandlerPc.claimed.inj hclaimed))⟩
  | diskIntrRound hin | diskIntrEnd hin | diskIntrStop hin => exact absurd hin h.other
  | finishRead => exact ⟨hcontrolled, (s.fill_disk _ _).trans h.owned, h.pc, h.other⟩
  | consume | finishWrite | finishOutside | raise | uart =>
    exact ⟨hcontrolled, h.owned, h.pc, h.other⟩

/-- What becomes of a call of `diskRW`. When interrupts are taken in `wfi` and for the disk, the
call can always go on, and it returns after at most 16 steps of the hart and the device, with its
request served. An interrupt that is taken before `wfi` leaves the hart there for ever. One that is
taken in `wfi` ends the call, and unless the handler claims the interrupt of the disk, the disk
still owns the buffer then. -/
theorem diskRW_prompt {csrs : Csrs} {buf : BufRef → DiskBuffer} {buf0 : BlkOuthdr}
    {medium : ℕ → BitVec 8} (hrun : Trace PromptStep (boot csrs buf buf0 medium) l s) :
    (s.pc.Active → sinceCall l < 16 ∧ ∃ a t, a ≠ .uart ∧ PromptStep s a t) ∧
    (s.pc = .returned → sinceCall l ≤ 16 ∧
      (diskHistory l).processed = (diskHistory l).submitted ∧
      (s.buf s.b).data = blockData s.device.medium (s.buf s.b).blockno.toNat) ∧
    ∀ t, Step s .interrupt t →
      (s.pc = .beforeWfi ∧
        ∀ l' u, Trace Step t l' u → u.pc = .beforeWfi ∨ u.pc = .waiting) ∨
      (s.pc = .waiting ∧
        ∀ l' u, Trace Step t l' u → .claim virtio0Irq ∉ l' → .leave ∉ l' →
          (u.buf u.b).disk = true) := by
  obtain ⟨h, hcount, hreturned⟩ := prompt_of_trace hrun
  refine ⟨fun hactive => ⟨?_, h.exists_step hactive⟩, fun hpc => ⟨hreturned hpc, ?_⟩,
    fun t hstep => ?_⟩
  · have hle := hcount hactive
    have hpos := rank_pos hactive
    omega
  · exact ⟨(h.requests.quiet (Or.inr hpc)).processed, (h.requests.returned_spec hpc).2.2.2⟩
  · have hcontrolled := h.controlled.step hstep
    have hrequests := h.requests.step h.controlled (h.completionEndsWfi hstep) hstep
    cases hstep with
    | interrupt hhandler hglobal =>
      rcases h.controlled.interruptible hhandler hglobal with hpc | hpc
      -- before `wfi`: the handler is done when the hart comes to `wfi`
      · have hstuck : Stuck _ := ⟨hcontrolled, ⟨_, hrequests⟩, Or.inl (by simp [hpc]), by simp⟩
        refine Or.inl ⟨hpc, fun l' u hrun' => ?_⟩
        exact (hrun'.invariant hstuck fun _ _ _ h hstep => h.step hstep).pc.imp_right And.left
      -- in `wfi`: the request is still in flight until the handler claims its interrupt
      · have hearly : Early _ := ⟨hcontrolled, h.awaited (by rw [hpc]; trivial),
          Or.inl (by simp [hpc]), by simp⟩
        refine Or.inr ⟨hpc, fun l' u hrun' hclaim hleave => ?_⟩
        have hkeep : .claim virtio0Irq ∉ l' → .leave ∉ l' → Early u := by
          refine hrun'.invariant_of_labels
            (I := fun l' u => .claim virtio0Irq ∉ l' → .leave ∉ l' → Early u)
            (fun _ _ => hearly) fun l' t a u ih hstep hclaim hleave => ?_
          rw [List.mem_append, not_or, List.mem_singleton] at hclaim hleave
          exact (ih hclaim.1 hleave.1).step hstep (fun h => hclaim.2 h.symm)
            fun h => hleave.2 h.symm
        exact (hkeep hclaim hleave).owned

theorem OrderlyStep.prompt (h : OrderlyStep s a t) : PromptStep s a t := ⟨h.1, h.2.1⟩

/-- A read that takes its interrupt in `wfi` returns after 16 steps, with its block. -/
theorem diskRW_prompt_read : ∃ s : DiskMachine,
    Trace PromptStep .sample readEvents s ∧ s.pc = .returned ∧ sinceCall readEvents = 16 ∧
      (diskHistory readEvents).processed = [(Disk.firstDesc, firstBuf)] ∧
      (s.buf s.b).data = blockData s.device.medium (s.buf s.b).blockno.toNat := by
  obtain ⟨s, hread, hreturned, -⟩ := exists_readRun
  have hrun := hread.mono fun _ _ _ h => h.prompt
  obtain ⟨-, hprocessed, hdata⟩ := (diskRW_prompt hrun).2.1 hreturned.1
  exact ⟨s, hrun, hreturned.1, rfl, hprocessed, hdata⟩

end Prompt

end DiskMachine

end R5O5
