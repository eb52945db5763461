import R5O5.Kernel.Disk.Runs

/-!
# The disk driver as a synchronous transfer

The callers of `diskRW` see one transfer of a whole block for each call, at the moment at which the
device finishes the request. This is the `diskRW` of the buffer cache, so what holds of the cache
and the disk with that function holds with the driver, its interrupts and the device in its place.

## Main definitions

- `CacheStep`: what the kernel does to the buffers and the disk, with synchronous transfers;
- `Agrees`: the buffers and the disk of the machine hold what the callers expect.

## Main results

- `synchronous_of_trace`: every run of the machine is one with synchronous transfers.
-/

namespace R5O5

/-- What the callers of `diskRW` can see. -/
inductive CacheEvent
  /-- The kernel uses the cache. -/
  | cache
  | diskRW (b : BufRef) (write : Bool)
  deriving DecidableEq

/-- The kernel changes the cache as it likes, and the disk by `diskRW` only. -/
inductive CacheStep : CachedDisk → CacheEvent → CachedDisk → Prop
  | cache {s : CachedDisk} {cache : BufferCache} : CacheStep s .cache { s with cache }
  | diskRW {s : CachedDisk} {b : BufRef} {write : Bool} :
      (s.cache.buf b).blockno.toNat < diskSize →
      CacheStep s (.diskRW b write) (R5O5.diskRW b write s)

/-- What the callers see of an event. -/
def DiskEvent.visible : DiskEvent → List CacheEvent
  | .kernel | .leave => [.cache]
  | .call b write _ => [.diskRW b write]
  | _ => []

/-- A buffer of the machine holds what a buffer of the cache holds. -/
structure DiskBuffer.Agrees (y : DiskBuffer) (z : Buffer) : Prop where
  valid : z.valid = y.valid
  blockno : z.blockno = y.blockno
  data : z.data = y.data

/-- The buffers and the disk of the machine hold what the cache and its disk hold. -/
structure DiskState.Agrees (x : DiskState) (io : CachedDisk) : Prop where
  medium : io.disk = x.device.medium
  buf : ∀ b, (x.buf b).Agrees (io.cache.buf b)

/-- The call that the device has not finished yet. -/
def unfinished (H : DiskHistory) (x : DiskState) : List CacheEvent :=
  if H.finished.length < H.submitted.length then [.diskRW x.b x.write] else []

section Stages

variable {past : List (Fin num × BufRef)} {g : Stage} {H : DiskHistory} {x y : DiskState}
  {io : CachedDisk}

theorem Quiet.unfinished (h : Quiet H x) (y : DiskState) : unfinished H y = [] := by
  rw [R5O5.unfinished, h.finished, List.length_map, if_neg (Nat.lt_irrefl _)]

/-- A request is unfinished until the device reports it. -/
theorem InFlight.unfinished (h : InFlight past g H x) :
    unfinished H x = if g.reported then [] else [.diskRW x.b x.write] := by
  rw [R5O5.unfinished, h.finished, h.submitted]
  cases g.reported <;> simp

namespace DiskState.Agrees

/-- The flag by which the disk owns a buffer is not seen. -/
theorem congr (h : x.Agrees io) (hmedium : y.device.medium = x.device.medium)
    (hvalid : ∀ b, (y.buf b).valid = (x.buf b).valid)
    (hblockno : ∀ b, (y.buf b).blockno = (x.buf b).blockno)
    (hdata : ∀ b, (y.buf b).data = (x.buf b).data) : y.Agrees io where
  medium := h.medium.trans hmedium.symm
  buf b :=
    { valid := (h.buf b).valid.trans (hvalid b).symm
      blockno := (h.buf b).blockno.trans (hblockno b).symm
      data := (h.buf b).data.trans (hdata b).symm }

/-- An update of one buffer that keeps what is seen of it. -/
theorem setBuf (h : x.Agrees io) {b : BufRef} {f : DiskBuffer → DiskBuffer}
    (hvalid : (f (x.buf b)).valid = (x.buf b).valid)
    (hblockno : (f (x.buf b)).blockno = (x.buf b).blockno)
    (hdata : (f (x.buf b)).data = (x.buf b).data) : (x.setBuf b f).Agrees io := by
  refine h.congr rfl (fun b' => ?_) (fun b' => ?_) fun b' => ?_ <;>
    simp only [DiskState.setBuf, Function.update_apply] <;> split_ifs with hb
  · rw [hb, hvalid]
  · rfl
  · rw [hb, hblockno]
  · rfl
  · rw [hb, hdata]
  · rfl

theorem begin (h : x.Agrees io) (b : BufRef) (write : Bool) (idx : Fin 3 → Fin num)
    (disk : Disk) : (x.begin b write idx disk).Agrees io :=
  (h.setBuf (b := b) (f := fun y => { y with disk := true }) rfl rfl rfl).congr rfl (fun _ => rfl)
    (fun _ => rfl) fun _ => rfl

theorem handled (h : x.Agrees io) (b : BufRef) (disk : Disk) : (x.handled b disk).Agrees io :=
  (h.setBuf (b := b) (f := fun y => { y with disk := false }) rfl rfl rfl).congr rfl (fun _ => rfl)
    (fun _ => rfl) fun _ => rfl

/-- The cache of the kernel can hold the contents of any buffers. -/
theorem exists_cache (hmedium : io.disk = y.device.medium) :
    ∃ io', CacheStep io .cache io' ∧ y.Agrees io' :=
  let buf (b : BufRef) : Buffer :=
    { valid := (y.buf b).valid
      blockno := (y.buf b).blockno
      refcnt := (io.cache.buf b).refcnt
      data := (y.buf b).data }
  ⟨{ io with cache := { io.cache with buf } }, .cache, hmedium, fun _ => ⟨rfl, rfl, rfl⟩⟩

/-- The device reads a block: this is the transfer of `diskRW`. -/
theorem fill (h : x.Agrees io) {b : BufRef} (hplace : x.place = (x.buf b).blockno.toNat * bsize) :
    (x.fill b).Agrees (diskRW b false io) where
  medium := h.medium
  buf b' := by
    by_cases hb : b' = b
    · subst hb
      have hbuf := h.buf b'
      simp only [DiskState.fill, DiskState.setBuf, diskRW, BufferCache.modify,
        Function.update_self, Bool.false_eq_true, if_false]
      refine ⟨hbuf.valid, hbuf.blockno, ?_⟩
      funext j
      simp only [blockData, hbuf.blockno, h.medium, hplace]
    · simpa [DiskState.fill, DiskState.setBuf, diskRW, BufferCache.modify, hb] using h.buf b'

/-- The device writes a block. -/
theorem store (h : x.Agrees io) {b : BufRef} (hplace : x.place = (x.buf b).blockno.toNat * bsize) :
    (x.store b).Agrees (diskRW b true io) where
  medium := by
    have hbuf := h.buf b
    have hpos : 0 < bsize := by decide
    funext p
    simp only [DiskState.store, diskRW, if_true, hplace, hbuf.blockno, hbuf.data, h.medium]
    have hblock : p / bsize = (x.buf b).blockno.toNat ↔
        (x.buf b).blockno.toNat * bsize ≤ p ∧ p - (x.buf b).blockno.toNat * bsize < bsize := by
      rw [Nat.div_eq_iff hpos]
      omega
    split_ifs with hin hout hout
    · have hmod : p % bsize = p - (x.buf b).blockno.toNat * bsize := by
        rw [← hin, Nat.mod_eq_sub_mul_div, Nat.mul_comm]
      exact congrArg _ (Fin.ext hmod)
    · exact absurd (hblock.mp hin) hout
    · exact absurd (hblock.mpr hout) hin
    · rfl
  buf := h.buf

end DiskState.Agrees

end Stages

/-! ## Runs -/

/-- The run `events` of the synchronous disk, which ends in `io`, follows the run `l` of the
machine, which ends in `s`. -/
structure Follows (l : List DiskEvent) (s : DiskMachine) (events : List CacheEvent)
    (io : CachedDisk) : Prop where
  controlled : s.Controlled
  requests : Requests (diskHistory l) s
  agrees : s.Agrees io
  visible : l.flatMap DiskEvent.visible = events ++ unfinished (diskHistory l) s.toDiskState

section Runs

variable {l : List DiskEvent} {s t : DiskMachine} {a : DiskEvent} {events : List CacheEvent}
  {io : CachedDisk}

/-- A step that the callers do not see. -/
theorem Follows.hidden (h : Follows l s events io) (hgood : CompletionEndsWfi s a)
    (hstep : DiskMachine.Step s a t) (hvisible : a.visible = [])
    (hunfinished : unfinished (diskHistory (l ++ [a])) t.toDiskState =
      unfinished (diskHistory l) s.toDiskState)
    (hagrees : t.Agrees io) : ∃ l' io', Trace CacheStep io l' io' ∧
      Follows (l ++ [a]) t (events ++ l') io' := by
  refine ⟨[], io, .refl, h.controlled.step hstep, ?_, hagrees, ?_⟩
  · rw [diskHistory_append_singleton]
    exact h.requests.step h.controlled hgood hstep
  · rw [List.flatMap_append, List.flatMap_singleton, hvisible, h.visible, hunfinished,
      List.append_nil, List.append_nil]

/-- A step that the callers see, between two calls. -/
theorem Follows.kernel (h : Follows l s events io) (hgood : CompletionEndsWfi s a)
    (hstep : DiskMachine.Step s a t) (hvisible : a.visible = [.cache])
    (hquiet : Quiet (diskHistory l) s.toDiskState)
    (hquiet' : Quiet (diskHistory (l ++ [a])) t.toDiskState)
    (hmedium : t.device.medium = s.device.medium) : ∃ l' io', Trace CacheStep io l' io' ∧
      Follows (l ++ [a]) t (events ++ l') io' := by
  obtain ⟨io', hcache, hagrees⟩ :=
    DiskState.Agrees.exists_cache (h.agrees.medium.trans hmedium.symm)
  refine ⟨[.cache], io', Trace.refl.snoc hcache, h.controlled.step hstep, ?_, hagrees, ?_⟩
  · rw [diskHistory_append_singleton]
    exact h.requests.step h.controlled hgood hstep
  · rw [List.flatMap_append, List.flatMap_singleton, hvisible, h.visible, hquiet.unfinished,
      hquiet'.unfinished, List.append_nil, List.append_nil]

/-- The device finishes a request: this is the transfer that the callers see. -/
theorem Follows.finish (h : Follows l s events io) (hgood : CompletionEndsWfi s a)
    (hstep : DiskMachine.Step s a t) (hvisible : a.visible = []) {past : List (Fin num × BufRef)}
    (hserving : InFlight past .serving (diskHistory l) s.toDiskState)
    (hfinished : InFlight past .finished (diskHistory (l ++ [a])) t.toDiskState)
    (hagrees : t.Agrees (diskRW s.b s.write io)) : ∃ l' io', Trace CacheStep io l' io' ∧
      Follows (l ++ [a]) t (events ++ l') io' := by
  have hinside : (io.cache.buf s.b).blockno.toNat < diskSize := by
    rw [(h.agrees.buf s.b).blockno]
    exact hserving.inside
  refine ⟨[.diskRW s.b s.write], _, Trace.refl.snoc (.diskRW hinside),
    h.controlled.step hstep, ?_, hagrees, ?_⟩
  · rw [diskHistory_append_singleton]
    exact h.requests.step h.controlled hgood hstep
  · rw [List.flatMap_append, List.flatMap_singleton, hvisible, h.visible, hserving.unfinished,
      hfinished.unfinished, if_neg (by decide), if_pos (by decide), List.append_nil]

/-- Every step is followed by synchronous transfers. -/
theorem Follows.step (h : Follows l s events io) (hstep : s.CompletionStep a t) :
    ∃ l' io', Trace CacheStep io l' io' ∧ Follows (l ++ [a]) t (events ++ l') io' := by
  obtain ⟨hstep, hgood⟩ := hstep
  have hagrees := h.agrees
  have hhistory := diskHistory_append_singleton l a
  have hrequests := h.requests.step h.controlled hgood hstep
  rw [← hhistory] at hrequests
  have hstep' := hstep
  cases hstep with
  | kernel hat =>
    exact h.kernel hgood hstep' rfl (h.requests.quiet (Or.inl hat.1))
      (hrequests.quiet (Or.inl hat.1)) rfl
  | leave hat =>
    exact h.kernel hgood hstep' rfl (h.requests.quiet (Or.inr hat.1))
      (hrequests.quiet (Or.inl rfl)) rfl
  | call hat hinside hsubmit =>
    have hquiet := h.requests.quiet (Or.inl hat.1)
    obtain ⟨-, hin⟩ := hquiet.begin hinside hsubmit
    rw [← hhistory] at hin
    refine ⟨[], io, .refl, h.controlled.step hstep', hrequests, hagrees.begin .., ?_⟩
    rw [List.flatMap_append, List.flatMap_singleton, h.visible, hquiet.unfinished,
      hin.unfinished, if_neg (by decide), List.append_nil]
    rfl
  | finishRead hserving hchain =>
    cases h.requests with
    | idle _ hquiet | returned _ hquiet =>
      exact absurd (hquiet.serving.symm.trans hserving) (by simp)
    | active _ hin =>
      obtain ⟨rfl, rfl, rfl, hwrite⟩ := hin.chain_eq hserving hchain
      have hfinished := hin.finishRead hserving hchain
      rw [← hhistory] at hfinished
      refine h.finish hgood hstep' rfl hin hfinished ?_
      rw [← hwrite]
      exact (hagrees.fill (place_of_header hin.header hin.inside)).congr rfl (fun _ => rfl)
        (fun _ => rfl) fun _ => rfl
  | finishWrite hserving hchain =>
    cases h.requests with
    | idle _ hquiet | returned _ hquiet =>
      exact absurd (hquiet.serving.symm.trans hserving) (by simp)
    | active _ hin =>
      obtain ⟨rfl, rfl, rfl, hwrite⟩ := hin.chain_eq hserving hchain
      have hfinished := hin.finishWrite hserving hchain
      rw [← hhistory] at hfinished
      refine h.finish hgood hstep' rfl hin hfinished ?_
      rw [← hwrite]
      exact (hagrees.store (place_of_header hin.header hin.inside)).congr rfl (fun _ => rfl)
        (fun _ => rfl) fun _ => rfl
  | finishOutside hserving hchain hplace =>
    cases h.requests with
    | idle _ hquiet | returned _ hquiet =>
      exact absurd (hquiet.serving.symm.trans hserving) (by simp)
    | active _ hin => exact absurd hin.place_le (Nat.not_le_of_lt hplace)
  | diskIntrRound =>
    exact h.hidden hgood hstep' rfl (by rw [hhistory]; rfl) (hagrees.handled ..)
  -- the other steps neither move bytes nor start a call
  | callStop | devOnMie | devOnMstatus | wfi | wake | allOffMstatus | allOffMie | ret | retStop
  | interrupt | handle | handleStop | claim | uartintr | diskIntrEnd | diskIntrStop | ignore
  | plicComplete | mret | consume | raise | uart =>
    exact h.hidden hgood hstep' rfl (by rw [hhistory]; rfl)
      (hagrees.congr rfl (fun _ => rfl) (fun _ => rfl) fun _ => rfl)

/-- Every run of the machine in which only the interrupt of the disk ends `wfi` is one with
synchronous transfers: the callers see the same calls in the same order, and at every moment the
buffers and the disk hold the same, a call counting from the moment the device finishes it. When
`diskRW` returns all calls count. -/
theorem synchronous_of_trace {csrs : Csrs} {buf : BufRef → DiskBuffer} {buf0 : BlkOuthdr}
    {medium : ℕ → BitVec 8}
    (hrun : Trace DiskMachine.CompletionStep (DiskMachine.boot csrs buf buf0 medium) l s)
    (hio : (DiskMachine.boot csrs buf buf0 medium).Agrees io) :
    ∃ events io', Trace CacheStep io events io' ∧ s.Agrees io' ∧
      l.flatMap DiskEvent.visible = events ++ unfinished (diskHistory l) s.toDiskState ∧
      (s.pc = .idle ∨ s.pc = .returned → l.flatMap DiskEvent.visible = events) := by
  have hboot : Follows [] (DiskMachine.boot csrs buf buf0 medium) [] io :=
    { controlled := controlled_boot
      requests := requests_boot
      agrees := hio
      visible := rfl }
  obtain ⟨events, io', hrun', h⟩ := hrun.simulation (R := Follows) hboot
    fun l t a u l' t' hfollows hstep => hfollows.step hstep
  refine ⟨events, io', hrun', h.agrees, h.visible, fun hpc => ?_⟩
  rw [h.visible, (h.requests.quiet hpc).unfinished, List.append_nil]

/-- The machine of the sample run, as the callers of `diskRW` see it. -/
def sampleCache : CachedDisk where
  cache :=
    { buf := fun _ =>
        { valid := false
          blockno := 0
          refcnt := 0
          data := fun _ => 0 }
      links := ⟨id, id⟩ }
  disk _ := 7

/-- The block is read once. -/
theorem synchronous_of_trace_read : ∃ s : DiskMachine, ∃ io,
    Trace CacheStep sampleCache [.diskRW firstBuf false] io ∧ s.Agrees io ∧ s.pc = .returned := by
  obtain ⟨s, hrun, hpc⟩ := exists_completionRun
  have hsample : DiskMachine.sample.Agrees sampleCache := ⟨rfl, fun _ => ⟨rfl, rfl, rfl⟩⟩
  obtain ⟨events, io, hrun', hagrees, -, hvisible⟩ := synchronous_of_trace hrun hsample
  rw [← hvisible (Or.inr hpc)] at hrun'
  exact ⟨s, io, hrun', hagrees, hpc⟩

end Runs

end R5O5
