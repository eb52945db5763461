import R5O5.Kernel.Disk.Machine

/-!
# The requests of the disk driver

What becomes of a request: it is given to the device, served, reported, its interrupt is raised and
claimed, and `diskIntr` handles it. Each event takes the request of the current call from one stage
to the next.

## Main definitions

- `DiskHistory`: the requests submitted, consumed, finished and processed so far;
- `InFlight`: the state while a request is at some stage;
- `Quiet`: the state between two calls of `diskRW`.

## Main results

- `Quiet.begin`, `InFlight.consume`, `InFlight.finishRead`, `InFlight.finishWrite`,
  `InFlight.raise`, `InFlight.claim`, `InFlight.diskIntrRound`, `InFlight.release`: the passage
  through the stages.
-/

namespace R5O5

/-! ## What has happened -/

/-- The requests so far: the heads of their chains and their buffers. -/
structure DiskHistory where
  submitted : List (Fin num × BufRef)
  consumed : List (Fin num)
  finished : List (Fin num)
  processed : List (Fin num × BufRef)

/-- One more event. -/
def DiskHistory.push (H : DiskHistory) : DiskEvent → DiskHistory
  | .call b _ head => { H with submitted := H.submitted ++ [(head, b)] }
  | .consume head => { H with consumed := H.consumed ++ [head] }
  | .finish head => { H with finished := H.finished ++ [head] }
  | .diskIntrRound id b => { H with processed := H.processed ++ [(id, b)] }
  | _ => H

/-- The requests in a run. -/
def diskHistory (l : List DiskEvent) : DiskHistory :=
  l.foldl DiskHistory.push
    { submitted := []
      consumed := []
      finished := []
      processed := [] }

theorem diskHistory_append_singleton (l : List DiskEvent) (a : DiskEvent) :
    diskHistory (l ++ [a]) = (diskHistory l).push a := by
  simp [diskHistory]

/-! ## Stages -/

/-- How far a request has come. -/
inductive Stage
  | given
  | serving
  | finished
  | raised
  | claimed
  | handled
  deriving DecidableEq

namespace Stage

/-- The device has taken the chain. -/
def taken (g : Stage) : Bool := g ≠ .given

/-- The device has reported the request. -/
def reported (g : Stage) : Bool := g ≠ .given && g ≠ .serving

/-- The driver still waits for the request. -/
def awaited (g : Stage) : Bool := g ≠ .handled

end Stage

/-- The counters of the driver and the device, each with its own width. -/
structure Counted (H : DiskHistory) (x : DiskState) : Prop where
  availIdx : x.disk.availIdx = BitVec.ofNat 16 H.submitted.length
  lastAvail : x.device.lastAvail = BitVec.ofNat 16 H.consumed.length
  usedId : x.disk.used.id = BitVec.ofNat 16 H.finished.length
  usedIdx : x.disk.usedIdx = BitVec.ofNat 16 (H.processed.length % num)

/-- The buffer of the request and its block on the disk hold the same bytes. -/
def Transferred (x : DiskState) : Prop :=
  (x.buf x.b).data = blockData x.device.medium (x.buf x.b).blockno.toNat

/-- The request of the current call is at a stage; those in `past` are done. -/
structure InFlight (past : List (Fin num × BufRef)) (g : Stage) (H : DiskHistory) (x : DiskState) :
    Prop where
  submitted : H.submitted = past ++ [(x.idx 0, x.b)]
  consumed : H.consumed = past.map Prod.fst ++ if g.taken then [x.idx 0] else []
  finished : H.finished = past.map Prod.fst ++ if g.reported then [x.idx 0] else []
  processed : H.processed = past ++ if g.awaited then [] else [(x.idx 0, x.b)]
  counted : Counted H x
  ring : x.disk.ring (slot (BitVec.ofNat 16 past.length)) = BitVec.ofNat 16 (x.idx 0)
  element : g.reported = true →
    x.disk.used.elems (slot (BitVec.ofNat 16 past.length)) = BitVec.ofNat 32 (x.idx 0)
  serving : x.device.serving = if g = .serving then some (x.idx 0) else none
  due : x.device.due = if g = .finished then 1 else 0
  virtio : x.plic.virtio = decide (g = .raised)
  chained : x.disk.Chained x.idx x.b x.write
  inUse : ∀ i, x.disk.free i = true ↔ ∀ k, i ≠ x.idx k
  info_b : (x.disk.info (x.idx 0)).b = some x.b
  info_status : (x.disk.info (x.idx 0)).status = 0
  owned : ∀ b, (x.buf b).disk = (decide (b = x.b) && g.awaited)
  inside : (x.buf x.b).blockno.toNat < diskSize
  header : x.buf0 = header (x.buf x.b).blockno x.write
  transferred : g.reported = true → Transferred x

/-- No request is under way. -/
structure Quiet (H : DiskHistory) (x : DiskState) : Prop where
  consumed : H.consumed = H.submitted.map Prod.fst
  finished : H.finished = H.submitted.map Prod.fst
  processed : H.processed = H.submitted
  counted : Counted H x
  serving : x.device.serving = none
  due : x.device.due = 0
  virtio : x.plic.virtio = false
  free : ∀ i, x.disk.free i = true
  owned : ∀ b, (x.buf b).disk = false

section Stages

variable {past : List (Fin num × BufRef)} {g : Stage} {H : DiskHistory} {x : DiskState}

/-- The counter of a list with one more element. -/
theorem ofNat_length_append {α : Type} (l : List α) (a : α) :
    BitVec.ofNat 16 (l ++ [a]).length = BitVec.ofNat 16 l.length + 1 := by
  rw [List.length_append]
  exact BitVec.ofNat_add ..

/-- The device does not take a chain while no request is under way. -/
theorem Quiet.lastAvail (h : Quiet H x) : x.device.lastAvail = x.disk.availIdx := by
  rw [h.counted.lastAvail, h.counted.availIdx, h.consumed, List.length_map]

/-- A new call starts. -/
theorem Quiet.begin (h : Quiet H x) {b : BufRef} {write : Bool} {idx : Fin 3 → Fin num}
    {disk : Disk} (hinside : (x.buf b).blockno.toNat < diskSize)
    (hsubmit : x.disk.submit b write = .ok (idx, disk)) :
    idx = Disk.firstThree ∧
      InFlight H.submitted .given (H.push (.call b write (idx 0))) (x.begin b write idx disk) := by
  -- all descriptors are free, so the first three are taken
  rw [Disk.submit_of_free h.free] at hsubmit
  cases hsubmit
  refine ⟨rfl, ?_⟩
  exact
    { submitted := rfl
      consumed := by simp [DiskHistory.push, h.consumed, Stage.taken]
      finished := by simp [DiskHistory.push, h.finished, Stage.reported]
      processed := by simp [DiskHistory.push, h.processed, Stage.awaited]
      counted :=
        { availIdx := by
            show x.disk.availIdx + 1 = _
            rw [h.counted.availIdx, ← ofNat_length_append]
            rfl
          lastAvail := h.counted.lastAvail
          usedId := h.counted.usedId
          usedIdx := h.counted.usedIdx }
      ring := by
        simp [DiskState.begin, Disk.publish, h.counted.availIdx]
      element := by simp [Stage.reported]
      serving := h.serving
      due := h.due
      virtio := h.virtio
      chained := Disk.chained_publish Disk.firstThree_injective ..
      inUse := by
        show ∀ i : Fin num, decide (3 ≤ i.val) = true ↔ ∀ k, i ≠ Disk.firstThree k
        decide
      info_b := by simp [DiskState.begin, Disk.publish]
      info_status := by simp [DiskState.begin, Disk.publish]
      owned := by
        intro b'
        by_cases hb : b' = b
        · simp [DiskState.begin, DiskState.setBuf, hb, Stage.awaited]
        · simp [DiskState.begin, DiskState.setBuf, hb, h.owned]
      inside := by simpa [DiskState.begin, DiskState.setBuf] using hinside
      header := by simp [DiskState.begin, DiskState.setBuf]
      transferred := by simp [Stage.reported] }

/-- The device takes the chain of the request, once. -/
theorem InFlight.consume (h : InFlight past g H x) {head : Fin num}
    (hne : x.device.lastAvail ≠ x.disk.availIdx)
    (hring : x.disk.ring (slot x.device.lastAvail) = BitVec.ofNat 16 head) :
    g = .given ∧ InFlight past .serving (H.push (.consume head)) (x.consume head) := by
  -- the device can find an entry only while the request is not taken yet
  have hgiven : g = .given := by
    by_contra hg
    have htaken : g.taken = true := by simpa [Stage.taken] using hg
    refine hne ?_
    rw [h.counted.lastAvail, h.counted.availIdx, h.consumed, h.submitted, htaken]
    simp
  subst hgiven
  have hlast : x.device.lastAvail = BitVec.ofNat 16 past.length := by
    rw [h.counted.lastAvail, h.consumed]
    simp [Stage.taken]
  -- what it finds there is the head of this request
  have hhead : head = x.idx 0 := by
    rw [hlast, h.ring] at hring
    exact (Disk.ofNat_index_inj hring).symm
  subst hhead
  refine ⟨rfl, ?_⟩
  exact
    { h with
      consumed := by simp [DiskHistory.push, DiskState.consume, h.consumed, Stage.taken]
      finished := h.finished
      processed := h.processed
      counted :=
        { h.counted with
          lastAvail := by
            show x.device.lastAvail + 1 = _
            rw [h.counted.lastAvail, ← ofNat_length_append]
            rfl }
      element := by simp [Stage.reported]
      serving := rfl
      due := h.due
      virtio := h.virtio
      owned := h.owned
      transferred := by simp [Stage.reported] }

theorem InFlight.serving_of_some (h : InFlight past g H x) {head : Fin num}
    (hserving : x.device.serving = some head) : g = .serving ∧ head = x.idx 0 := by
  have hsome := h.serving.symm.trans hserving
  by_cases hg : g = .serving
  · rw [if_pos hg] at hsome
    cases hsome
    exact ⟨hg, rfl⟩
  · rw [if_neg hg] at hsome
    cases hsome

/-- The device reports the request after its transfer. -/
theorem InFlight.report (h : InFlight past .serving H x)
    (buf : BufRef → DiskBuffer) (medium : ℕ → BitVec 8)
    (hbuf : ∀ b, (buf b).disk = (x.buf b).disk) (hblockno : (buf x.b).blockno = (x.buf x.b).blockno)
    (htransferred : (buf x.b).data = blockData medium (x.buf x.b).blockno.toNat) :
    InFlight past .finished (H.push (.finish (x.idx 0)))
      (DiskState.report { x with buf, device := { x.device with medium } } (x.idx 0) 0) := by
  -- the new element of the used ring is that of this request
  have hused : x.disk.used.id = BitVec.ofNat 16 past.length := by
    rw [h.counted.usedId, h.finished]
    simp [Stage.reported]
  exact
    { submitted := h.submitted
      consumed := h.consumed
      finished := by simp [DiskHistory.push, DiskState.report, h.finished, Stage.reported]
      processed := h.processed
      counted :=
        { h.counted with
          usedId := by
            show x.disk.used.id + 1 = _
            rw [h.counted.usedId, ← ofNat_length_append]
            rfl }
      ring := h.ring
      element := by simp [DiskState.report, hused]
      serving := rfl
      due := by simp [DiskState.report, h.due]
      virtio := h.virtio
      chained := ⟨h.chained.distinct, h.chained.desc⟩
      inUse := h.inUse
      info_b := by simp [DiskState.report, h.info_b]
      info_status := by simp [DiskState.report]
      owned := by
        intro b
        show (buf b).disk = _
        rw [hbuf, h.owned]
        rfl
      inside := by
        show (buf x.b).blockno.toNat < diskSize
        rw [hblockno]
        exact h.inside
      header := by
        show x.buf0 = R5O5.header (buf x.b).blockno x.write
        rw [hblockno]
        exact h.header
      transferred := fun _ => by
        show (buf x.b).data = blockData medium (buf x.b).blockno.toNat
        rw [hblockno]
        exact htransferred }

/-- A block starts where the header of its request says. -/
theorem place_of_header {write : Bool} (hheader : x.buf0 = header (x.buf x.b).blockno write)
    (hinside : (x.buf x.b).blockno.toNat < diskSize) :
    x.place = (x.buf x.b).blockno.toNat * bsize := by
  rw [DiskState.place, hheader]
  simp only [header, bsize, diskSize, BitVec.toNat_setWidth, BitVec.toNat_mul,
    BitVec.toNat_ofNat] at *
  omega

/-- The chain at this head is the request, with its buffer and its direction. -/
theorem InFlight.chain_eq (h : InFlight past g H x) {idx : Fin 3 → Fin num} {b : BufRef}
    {write : Bool} (hserving : x.device.serving = some (idx 0)) (hchain : x.disk.Chained idx b write) :
    g = .serving ∧ idx = x.idx ∧ b = x.b ∧ write = x.write := by
  obtain ⟨hg, hhead⟩ := h.serving_of_some hserving
  exact ⟨hg, hchain.unique h.chained hhead⟩

/-- The device serves a read. -/
theorem InFlight.finishRead (h : InFlight past g H x) {idx : Fin 3 → Fin num} {b : BufRef}
    (hserving : x.device.serving = some (idx 0)) (hchain : x.disk.Chained idx b false) :
    InFlight past .finished (H.push (.finish (idx 0))) ((x.fill b).report (idx 0) 0) := by
  obtain ⟨rfl, rfl, rfl, -⟩ := h.chain_eq hserving hchain
  have hplace := place_of_header h.header h.inside
  refine (h.report (x.fill x.b).buf x.device.medium (x.fill_disk x.b) ?_ ?_ :)
  · simp [DiskState.fill, DiskState.setBuf]
  · funext j
    simp [DiskState.fill, DiskState.setBuf, blockData, hplace]

/-- The device serves a write. -/
theorem InFlight.finishWrite (h : InFlight past g H x) {idx : Fin 3 → Fin num} {b : BufRef}
    (hserving : x.device.serving = some (idx 0)) (hchain : x.disk.Chained idx b true) :
    InFlight past .finished (H.push (.finish (idx 0))) ((x.store b).report (idx 0) 0) := by
  obtain ⟨rfl, rfl, rfl, -⟩ := h.chain_eq hserving hchain
  have hplace := place_of_header h.header h.inside
  refine (h.report x.buf (x.store x.b).device.medium (fun _ => rfl) rfl ?_ :)
  funext j
  have hj := j.isLt
  simp [DiskState.store, blockData, hplace]

/-- The blocks of requests lie on the disk. -/
theorem InFlight.place_le (h : InFlight past g H x) : x.place + bsize ≤ diskSize * bsize := by
  have hinside := h.inside
  rw [place_of_header h.header hinside]
  simp only [diskSize, bsize] at *
  omega

/-- The device raises its interrupt when it has finished the request. -/
theorem InFlight.raise (h : InFlight past g H x) {due : ℕ} (hdue : x.device.due = due + 1) :
    g = .finished ∧ InFlight past .raised H (x.raise due) := by
  -- an interrupt is due only behind a finished request, and only one
  have hg : g = .finished := by
    by_contra hg
    have hzero := h.due
    rw [if_neg hg] at hzero
    omega
  subst hg
  have hlast : due = 0 := by
    have hone := h.due
    rw [if_pos rfl] at hone
    omega
  subst hlast
  refine ⟨rfl, ?_⟩
  exact
    { h with
      counted := { h.counted with }
      serving := h.serving
      due := rfl
      virtio := rfl
      transferred := h.transferred }

theorem InFlight.uart (h : InFlight past g H x) :
    InFlight past g H { x with plic := { x.plic with uart := true } } :=
  { h with counted := { h.counted with } }

/-- The handler claims the interrupt of the disk. -/
theorem InFlight.claim (h : InFlight past g H x) (hvirtio : x.plic.virtio = true) :
    InFlight past .claimed H { x with plic := { x.plic with virtio := false } } := by
  have hg : g = .raised := by simpa [h.virtio] using hvirtio
  subst hg
  exact
    { h with
      counted := { h.counted with }
      serving := h.serving
      due := h.due
      virtio := rfl
      transferred := h.transferred }

theorem InFlight.claim_uart (h : InFlight past g H x) :
    InFlight past g H { x with plic := { x.plic with uart := false } } :=
  { h with counted := { h.counted with } }

/-- The slots of consecutive counts differ. -/
theorem slot_ofNat_ne (n : ℕ) :
    slot (BitVec.ofNat 16 (n % num)) ≠ slot (BitVec.ofNat 16 (n + 1)) := by
  intro h
  have hval := congrArg Fin.val h
  simp only [slot, BitVec.toNat_ofNat, num] at hval
  omega

/-- The driver's count of the used elements is kept modulo the size of the ring. -/
theorem succ_mod_num (n : ℕ) :
    (BitVec.ofNat 16 (n % num) + 1) % BitVec.ofNat 16 num = BitVec.ofNat 16 ((n + 1) % num) := by
  apply BitVec.eq_of_toNat_eq
  rw [BitVec.toNat_umod, BitVec.toNat_add]
  show ((BitVec.ofNat 16 (n % num)).toNat + 1) % 2 ^ 16 % 8 =
    (BitVec.ofNat 16 ((n + 1) % num)).toNat
  simp only [BitVec.toNat_ofNat, num]
  omega

/-- The used element that the driver looks at is the one of the request. -/
theorem InFlight.diskIntrRound_eq (h : InFlight past g H x) (hreported : g.reported = true)
    (hawaited : g.awaited = true) :
    x.disk.diskIntrRound = .ok (some (x.idx 0, x.b,
      { x.disk with usedIdx := (x.disk.usedIdx + 1) % BitVec.ofNat 16 num })) := by
  have hused : x.disk.used.id = BitVec.ofNat 16 (past.length + 1) := by
    rw [h.counted.usedId, h.finished]
    simp [hreported]
  have hlooked : x.disk.usedIdx = BitVec.ofNat 16 (past.length % num) := by
    rw [h.counted.usedIdx, h.processed]
    simp [hawaited]
  have hmod : past.length % num < num := Nat.mod_lt _ (by decide)
  have hindex : x.disk.usedIdx.toNat = past.length % num := by
    rw [hlooked, BitVec.toNat_ofNat]
    exact Nat.mod_eq_of_lt (hmod.trans (by decide))
  have hlt : x.disk.usedIdx.toNat < num := by rwa [hindex]
  -- `used_idx` counts modulo the ring, the device's index modulo `2 ^ 16`
  have hslot : (⟨x.disk.usedIdx.toNat, hlt⟩ : Fin num) = slot (BitVec.ofNat 16 past.length) := by
    apply Fin.ext
    show x.disk.usedIdx.toNat = (BitVec.ofNat 16 past.length).toNat % num
    rw [hindex, BitVec.toNat_ofNat]
    simp only [num]
    omega
  have helement := h.element hreported
  rw [← hslot] at helement
  have hid : (x.disk.used.elems ⟨x.disk.usedIdx.toNat, hlt⟩).toNat = x.idx 0 := by
    rw [helement, BitVec.toNat_ofNat]
    exact Nat.mod_eq_of_lt ((x.idx 0).isLt.trans (by decide))
  rw [Disk.diskIntrRound, if_neg (by rw [hlooked, hused]; exact slot_ofNat_ne _), dif_pos hlt,
    dif_pos (by rw [hid]; exact (x.idx 0).isLt)]
  simp only [hid, Fin.eta]
  rw [if_neg (by simp [h.info_status]), h.info_b]

/-- `diskIntr` handles the request that the device has reported. -/
theorem InFlight.diskIntrRound (h : InFlight past .claimed H x) :
    InFlight past .handled (H.push (.diskIntrRound (x.idx 0) x.b))
      (x.handled x.b { x.disk with usedIdx := (x.disk.usedIdx + 1) % BitVec.ofNat 16 num }) := by
  exact
    { submitted := h.submitted
      consumed := h.consumed
      finished := h.finished
      -- the driver has caught up with the device
      processed := by
        simp [DiskHistory.push, DiskState.handled, DiskState.setBuf, h.processed, Stage.awaited]
      counted :=
        { availIdx := h.counted.availIdx
          lastAvail := h.counted.lastAvail
          usedId := h.counted.usedId
          usedIdx := by
            show (x.disk.usedIdx + 1) % BitVec.ofNat 16 num =
              BitVec.ofNat 16 ((H.processed ++ [(x.idx 0, x.b)]).length % num)
            rw [h.counted.usedIdx, List.length_append]
            exact succ_mod_num _ }
      ring := h.ring
      element := h.element
      serving := h.serving
      due := h.due
      virtio := h.virtio
      chained := ⟨h.chained.distinct, h.chained.desc⟩
      inUse := h.inUse
      info_b := h.info_b
      info_status := h.info_status
      owned := by
        intro b
        by_cases hb : b = x.b
        · simp [DiskState.handled, DiskState.setBuf, hb, Stage.awaited]
        · simp [DiskState.handled, DiskState.setBuf, hb, h.owned]
      inside := by simpa [DiskState.handled, DiskState.setBuf] using h.inside
      header := by simpa [DiskState.handled, DiskState.setBuf] using h.header
      transferred := fun _ => by
        simpa [Transferred, DiskState.handled, DiskState.setBuf] using h.transferred rfl }

/-- `diskIntr` has nothing to do when all used elements are processed. -/
theorem Counted.diskIntrRound_none (h : Counted H x)
    (hlength : H.processed.length = H.finished.length) : x.disk.diskIntrRound = .ok none := by
  refine if_pos ?_
  rw [h.usedIdx, h.usedId, hlength]
  apply Fin.ext
  simp only [slot, BitVec.toNat_ofNat, num]
  omega

/-- `diskIntr` finds nothing before the report and after the handling. -/
theorem InFlight.diskIntrRound_none (h : InFlight past g H x)
    (hdone : g.reported = false ∨ g = .handled) : x.disk.diskIntrRound = .ok none := by
  refine h.counted.diskIntrRound_none ?_
  rw [h.processed, h.finished]
  rcases hdone with hg | rfl
  · have hawaited : g.awaited = true := by
      cases g <;> first | rfl | cases hg
    simp [hg, hawaited]
  · simp [Stage.awaited, Stage.reported]

/-- After the wait the three descriptors of the request, and no others, are given back. -/
theorem InFlight.release (h : InFlight past .handled H x) :
    ∃ disk, x.disk.release x.idx = .ok disk ∧ Quiet H { x with disk } := by
  -- the descriptors of the chain are in use, so freeing them cannot fail
  have huse : ∀ k, x.disk.free (x.idx k) = false := fun k => by
    rw [Bool.eq_false_iff]
    exact fun hfree => (h.inUse _).mp hfree k rfl
  have hrelease := Disk.freeChain_of_chained
    (d := { x.disk with
      info := Function.update x.disk.info (x.idx 0) { x.disk.info (x.idx 0) with b := none } })
    ⟨h.chained.distinct, h.chained.desc⟩ huse
  refine ⟨_, hrelease, ?_⟩
  exact
    { consumed := by simp [h.consumed, h.submitted, Stage.taken]
      finished := by simp [h.finished, h.submitted, Stage.reported]
      processed := by simp [h.processed, h.submitted, Stage.awaited]
      counted := { h.counted with }
      serving := h.serving
      due := h.due
      virtio := h.virtio
      free := fun i => by
        simp only [Disk.freed_free_iff]
        by_cases hi : ∀ k, i ≠ x.idx k
        · exact Or.inl (Or.inl (Or.inl ((h.inUse i).mpr hi)))
        · push Not at hi
          obtain ⟨k, rfl⟩ := hi
          match k with
          | 0 => simp
          | 1 => simp
          | 2 => simp
      owned := fun b => by
        show (x.buf b).disk = false
        simp [h.owned, Stage.awaited] }

/-- Between two calls the kernel does not touch what the driver and the device share. -/
theorem Quiet.congr (h : Quiet H x) (buf0 : BlkOuthdr) {buf : BufRef → DiskBuffer}
    (hbuf : ∀ b, (buf b).disk = (x.buf b).disk) : Quiet H { x with buf, buf0 } :=
  { h with
    counted := { h.counted with }
    owned := fun b => (hbuf b).trans (h.owned b) }

theorem Quiet.uart (h : Quiet H x) : Quiet H { x with plic := { x.plic with uart := true } } :=
  { h with counted := { h.counted with } }

end Stages

end R5O5
