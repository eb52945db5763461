import R5O5.Kernel.CreateProcess.Errors
import R5O5.Kernel.CreateProcess.Integrity
import R5O5.Kernel.Uservec
import R5O5.System.Admission

/-!
# Errors and memory in the runs of the kernel

A call of `createProcess`, `logData` or the dispatcher that ends in an error ends with one of a few
messages; the errors that would mean a broken invariant do not occur. Requests to the disk are
synchronous here, and a byte read outside of a buffer may have any value.

Of the frames that it manages, the kernel writes to those only that are free at the time. A timer
interrupt stores two registers below the user's `sp`, wherever this points to. Memory means what the
page allocator and the page tables work on: the variables of the kernel are kept apart from it.

## Main definitions

- `UserState.stackMem`: memory after the stores of `uservec` to the user's stack;
- `System.StoringStep`: one call that returns, with these stores.

## Main results

- `System.stops_of_trace`: how the calls can fail;
- `UserState.stackMem_eq_uservec`: the stores are those of the instructions of `uservec`;
- `System.memory_kept_of_trace`: what stays in memory.
-/

namespace R5O5

namespace System

section Safety

variable {K : KernelImage} {v : TrapVectors} {links : Ring.Links BufRef} {disk : ℕ → BitVec 8}
  {mem : Mem} {elfNodes : ElfNodes} {table : ProcessTable} {csrs : Csrs} {wild : Wild}
  {s s' : System} {op : SystemOp} {ops ops' : List SystemOp} {spaces : BitVec 64 → Option Space}

/-- In every run, a call of `createProcess`, `logData` or the dispatcher that does not return stops
in `error` with a message for a program that cannot be loaded, a log that is full, or a table
without a process to run. -/
theorem stops_of_trace (hzero : ∀ x : BitVec 64, x >>> 12 ∈ managed K → mem x = 0)
    (hrun : Trace (Step v wild) (main K v links disk mem elfNodes table csrs) ops s) :
    (∀ program e, createProcess wild program s.kernel = .error e →
      ∃ message ∈ createErrors, e = .error message) ∧
    (∀ str e, logData str s.log = .error e →
      e = .error "logData" ∧ logCapacity < (s.logged ++ str).length) ∧
    ∀ u e, s.nextDispatch v u = .error e →
      e = .error "selectProcessToRun: No Process To Run" ∧
        s.dispatched.length = s.created.length := by
  obtain ⟨spaces, h⟩ := inv_of_trace hzero hrun
  obtain ⟨_, haccounted⟩ := (charged_of_trace hzero hrun).accounted
  refine ⟨fun program e herr => haccounted.createProcess_error h.log.settled herr,
    fun str e herr => ?_, fun u e herr => ?_⟩
  · rcases h.log.logData_cases str with ⟨l, hok, -⟩ | ⟨herr', hlt⟩
    · rw [herr] at hok
      cases hok
    · rw [herr] at herr'
      cases herr'
      exact ⟨rfl, hlt⟩
  · obtain ⟨hart, hfilled, heq⟩ := h.nextDispatch_eq v u
    rw [heq] at herr
    rcases dispatcher_cases hfilled v with ⟨pid, -, -, hok⟩ | ⟨hall, herr'⟩
    · rw [herr] at hok
      cases hok
    · rw [herr] at herr'
      cases herr'
      exact ⟨rfl, hall⟩

/-- With one process that waits, the dispatcher does not stop. -/
theorem stops_of_trace_sample : ∃ s,
    Trace (Step Scheduler.sampleVectors fun _ _ _ => 0) (sampleMain Processes.sampleDisk)
      [.createProcess Processes.sampleProgram] s ∧
    ∀ u e, s.nextDispatch Scheduler.sampleVectors u ≠ .error e := by
  obtain ⟨s, hrun, hlength, hdispatched⟩ := exists_sampleRun
  refine ⟨s, hrun, fun u e herr => ?_⟩
  have hall := ((stops_of_trace (fun _ _ => rfl) hrun).2.2 u e herr).2
  rw [hlength, hdispatched] at hall
  cases hall

end Safety

end System

/-! ## Memory -/

/-- The indices of `t0` and `t1` in the save area. -/
def t0Index : Fin nreg := ⟨4, by decide⟩

def t1Index : Fin nreg := ⟨5, by decide⟩

/-- Memory after the two stores of `uservec` to the user's stack. -/
def UserState.stackMem (u : UserState) (mem : Mem) : Mem :=
  (mem.store64 (u.reg spIndex - 16) (u.reg t0Index)).store64 (u.reg spIndex - 16 + 8)
    (u.reg t1Index)

/-- One of the 16 bytes below the user's `sp`. -/
def UserState.BelowSp (u : UserState) (x : BitVec 64) : Prop :=
  (x - (u.reg spIndex - 16)).toNat < 16

theorem UserState.stackMem_of_not_belowSp {u : UserState} {x : BitVec 64} (mem : Mem)
    (h : ¬u.BelowSp x) : u.stackMem mem x = mem x := by
  rw [BelowSp] at h
  rw [stackMem, Mem.store64_of_outside _ _ (by bv_omega), Mem.store64_of_outside _ _ (by omega)]

/-- Outside of the process table, `uservec` makes these two stores. -/
theorem UserState.stackMem_eq_uservec {L : Uservec.Layout} (u : UserState) (s : Rv64.State)
    (hreg : ∀ r (i : Fin nreg), (r, 8 * BitVec.ofNat 64 i) ∈ Uservec.slots → u.reg i = s.get r)
    (hpid : (s.mem.load64 L.currentProcess).toNat < nproc) (hstack : L.StackApart (s.get .sp))
    {x : BitVec 64} (hx : nproc * Uservec.sizeofProcessDescriptor ≤ (x - L.pd).toNat) :
    (Rv64.execAll s (Uservec.uservec L)).mem x = u.stackMem s.mem x := by
  rw [Uservec.mem_uservec, Uservec.entryBase_of_stackApart L s hstack,
    Mem.storeWords_of_outside, Uservec.stackMem, stackMem, hreg .sp spIndex (by decide),
    hreg .t0 t0Index (by decide), hreg .t1 t1Index (by decide)]
  -- the other words are stored in the save area of the current process
  intro q hq
  obtain ⟨⟨r, o⟩, hslot, rfl⟩ := List.mem_map.mp hq
  by_contra hin
  have hx' : L.InSaveArea (s.mem.load64 L.currentProcess) x :=
    Uservec.Layout.inSaveArea_of_slot hslot (Nat.lt_of_not_le hin)
  have hxpd := Uservec.Layout.toNat_sub_pd hpid hx'
  have hlt : (x - L.descriptor (s.mem.load64 L.currentProcess)).toNat < 248 := hx'
  simp only [Uservec.sizeofProcessDescriptor, Uservec.sizeofSaveArea, nproc, nreg] at *
  omega

namespace System

/-- The state after `uservec` has stored two registers below the user's `sp`. -/
def afterUservec (s : System) (u : UserState) : System :=
  { s with
    kernel := { s.kernel with
      paging := { s.kernel.paging with mem := u.stackMem s.kernel.paging.mem } } }

/-- One call that returns, with what `uservec` stores. The user's `sp` does not point to the frames
that the kernel manages. -/
inductive StoringStep (K : KernelImage) (v : TrapVectors) (wild : Wild) :
    System → SystemOp → System → Prop
  | call {s : System} {op : SystemOp} {s' : System} :
      (∀ u, op ≠ .timer u) → Step v wild s op s' → StoringStep K v wild s op s'
  | timer {s : System} {u : UserState} {s' : System} :
      (∀ x, u.BelowSp x → x >>> 12 ∉ managed K) → Step v wild (s.afterUservec u) (.timer u) s' →
      StoringStep K v wild s (.timer u) s'

/-- What calls keep in memory: the frames in use, and what is not managed, but for the bytes below
the `sp` of the interrupted processes. -/
structure MemoryKept (K : KernelImage) (s : System) (ops : List SystemOp) (s' : System) : Prop where
  suffix : s'.kernel.paging.alloc.freeList <:+ s.kernel.paging.alloc.freeList
  used : ∀ x : BitVec 64, x >>> 12 ∈ managed K → x >>> 12 ∉ s.kernel.paging.alloc.freeList →
    s'.kernel.paging.mem x = s.kernel.paging.mem x
  outside : ∀ x : BitVec 64, x >>> 12 ∉ managed K →
    (∀ u, SystemOp.timer u ∈ ops → ¬u.BelowSp x) →
    s'.kernel.paging.mem x = s.kernel.paging.mem x

section Kept

variable {K : KernelImage} {v : TrapVectors} {links : Ring.Links BufRef} {disk : ℕ → BitVec 8}
  {mem : Mem} {elfNodes : ElfNodes} {table : ProcessTable} {csrs : Csrs} {wild : Wild}
  {s s' s'' : System} {op : SystemOp} {ops ops' : List SystemOp}
  {spaces : BitVec 64 → Option Space} {u : UserState}

/-- What some calls keep, and then the calls after them, is kept. -/
theorem MemoryKept.trans (h : MemoryKept K s ops s') (h' : MemoryKept K s' ops' s'') :
    MemoryKept K s (ops ++ ops') s'' where
  suffix := h'.suffix.trans h.suffix
  used x hx hnot :=
    -- what is not free at first is not free later
    (h'.used x hx fun hfree => hnot (h.suffix.subset hfree)).trans (h.used x hx hnot)
  outside x hx hnot :=
    (h'.outside x hx fun u hu => hnot u (List.mem_append_right _ hu)).trans
      (h.outside x hx fun u hu => hnot u (List.mem_append_left _ hu))

/-- The stores below the user's `sp` are not seen by the kernel. -/
theorem Inv.afterUservec (h : Inv K disk spaces s)
    (hsp : ∀ x, u.BelowSp x → x >>> 12 ∉ managed K) : Inv K disk spaces (s.afterUservec u) where
  toOrdered := ⟨h.created, h.dispatched, h.filled⟩
  refines := h.refines.setMem fun _ hx => u.stackMem_of_not_belowSp _ fun hbelow => hsp _ hbelow hx
  log := h.log
  carries p hp := by
    obtain ⟨text, t, A, hcarries⟩ := h.carries p hp
    exact ⟨text, t, A, { hcarries with }⟩
  satp := h.satp

/-- One call writes to the free frames only. -/
theorem Inv.step_same (h : Inv K disk spaces s) (hstep : Step v wild s op s') :
    s'.kernel.paging.alloc.freeList <:+ s.kernel.paging.alloc.freeList ∧
      ∀ x : BitVec 64, x >>> 12 ∉ s.kernel.paging.alloc.freeList →
        s'.kernel.paging.mem x = s.kernel.paging.mem x := by
  cases hstep with
  | createProcess hok => exact h.refines.createProcess_same hok
  | logData => exact ⟨List.suffix_refl _, fun _ _ => rfl⟩
  | dispatcher => exact ⟨List.suffix_refl _, fun _ _ => rfl⟩
  | timer => exact ⟨List.suffix_refl _, fun _ _ => rfl⟩

/-- The kernel keeps memory in every call. -/
theorem Inv.memoryKept_of_step (h : Inv K disk spaces s) (hstep : Step v wild s op s') :
    MemoryKept K s [op] s' := by
  obtain ⟨hsuffix, hsame⟩ := h.step_same hstep
  refine ⟨hsuffix, fun x _ hnot => hsame x hnot, fun x hx _ => hsame x fun hfree => ?_⟩
  obtain ⟨own, leaked, hinv⟩ := h.refines.inv
  exact hx (hinv.ledger.managed_of_free hfree)

/-- `uservec` writes below the user's `sp` only. -/
theorem memoryKept_afterUservec (hsp : ∀ x, u.BelowSp x → x >>> 12 ∉ managed K) :
    MemoryKept K s [.timer u] (s.afterUservec u) where
  suffix := List.suffix_refl _
  used _ hx _ := u.stackMem_of_not_belowSp _ fun hbelow => hsp _ hbelow hx
  outside _ _ hnot := u.stackMem_of_not_belowSp _ (hnot u List.mem_cons_self)

theorem Inv.storingStep (h : Inv K disk spaces s) (hstep : StoringStep K v wild s op s') :
    (∃ spaces', Inv K disk spaces' s') ∧ MemoryKept K s [op] s' := by
  cases hstep with
  | call _ hstep => exact ⟨h.step hstep, h.memoryKept_of_step hstep⟩
  | @timer u _ hsp hstep =>
    have h' := h.afterUservec hsp
    have hkept := (memoryKept_afterUservec hsp).trans (h'.memoryKept_of_step hstep)
    refine ⟨h'.step hstep, hkept.suffix, hkept.used, fun x hx hnot => hkept.outside x hx ?_⟩
    rintro u' hu'
    obtain rfl : u' = u := by simpa using hu'
    exact hnot u' List.mem_cons_self

theorem Inv.memoryKept_of_trace (h : Inv K disk spaces s)
    (hrun : Trace (StoringStep K v wild) s ops s') :
    (∃ spaces', Inv K disk spaces' s') ∧ MemoryKept K s ops s' := by
  refine hrun.invariant_of_labels
    (I := fun ops s' => (∃ spaces', Inv K disk spaces' s') ∧ MemoryKept K s ops s')
    ⟨⟨spaces, h⟩, List.suffix_refl _, fun _ _ _ => rfl, fun _ _ _ => rfl⟩ ?_
  rintro ops s₁ op s₂ ⟨⟨spaces₁, h₁⟩, hkept⟩ hstep
  obtain ⟨h₂, hkept₂⟩ := h₁.storingStep hstep
  exact ⟨h₂, hkept.trans hkept₂⟩

/-- From any state of a run on, the frames that are not free in this state stay as they are, and so
do memory outside of the managed frames, but for the 16 bytes below the `sp` of the processes that a
timer interrupts, and what the page tables of the processes map. -/
theorem memory_kept_of_trace (hzero : ∀ x : BitVec 64, x >>> 12 ∈ managed K → mem x = 0)
    (hrun : Trace (StoringStep K v wild) (main K v links disk mem elfNodes table csrs) ops s)
    (hrun' : Trace (StoringStep K v wild) s ops' s') :
    (∀ x : BitVec 64, x >>> 12 ∈ managed K → x >>> 12 ∉ s.kernel.paging.alloc.freeList →
      s'.kernel.paging.mem x = s.kernel.paging.mem x) ∧
    (∀ x : BitVec 64, x >>> 12 ∉ managed K →
      (∀ u, SystemOp.timer u ∈ ops' → ¬u.BelowSp x) →
      s'.kernel.paging.mem x = s.kernel.paging.mem x) ∧
    ∀ p ∈ s.created, ∀ virtualAddress,
      readVirtual s'.kernel.paging.mem (s.kernel.table.pd p.pid).sa.satp virtualAddress =
        readVirtual s.kernel.paging.mem (s.kernel.table.pd p.pid).sa.satp virtualAddress := by
  obtain ⟨⟨spaces, h⟩, -⟩ := (inv_main hzero).memoryKept_of_trace hrun
  have hkept := (h.memoryKept_of_trace hrun').2
  refine ⟨hkept.used, hkept.outside, fun p hp virtualAddress => ?_⟩
  obtain ⟨text, t, A, hcarries⟩ := h.carries p hp
  rw [hcarries.satp]
  exact h.refines.readVirtual_of_same hcarries.space hkept.used

/-! ## A sample run -/

section Sample

/-- One more process is created for the sample program. -/
theorem Inv.exists_step_sample (h : Inv K Processes.sampleDisk spaces s) (hcharged : s.Charged K)
    (v : TrapVectors) (wild : Wild) (hlogged : s.logged = []) (hlt : s.created.length < nproc)
    (hsum : (s.created.map Created.frames).sum + 9 ≤ numPages) :
    ∃ s' pid, Step v wild s (.createProcess Processes.sampleProgram) s' ∧
      s'.created = s.created ++ [⟨Processes.sampleProgram, pid, 0, [Processes.sampleSegment]⟩] ∧
      s'.logged = [] ∧ s'.dispatched = s.dispatched := by
  have hdisk : s.kernel.io.disk = Processes.sampleDisk := by
    refine h.log.disk.trans ?_
    rw [hlogged]
    exact writeRange_zero ..
  obtain ⟨⟨pid, kernel⟩, hok⟩ :=
    (Processes.Charged.exists_createProcess_iff hcharged wild Processes.sampleProgram).mpr
      ⟨hlt, Processes.accepted_sample wild s.kernel.elfNodes h.log.settled hdisk
        (Nat.le_sub_of_add_le' hsum)⟩
  obtain ⟨io', helf, -, -⟩ :=
    Processes.elfReader_sample wild s.kernel.elfNodes h.log.settled hdisk
  exact ⟨_, pid, .createProcess hok helf rfl, rfl, hlogged, rfl⟩

/-- The first process is dispatched. -/
theorem Inv.exists_step_dispatcher (h : Inv K disk spaces s) (v : TrapVectors) (wild : Wild)
    (hnil : s.dispatched = []) (hlt : s.dispatched.length < s.created.length) :
    ∃ hart, Step v wild s .dispatcher (s.afterDispatch hart) := by
  rcases dispatcher_cases (h := s.hart) h.filled v with ⟨pid, -, -, hok⟩ | ⟨hall, -⟩
  · exact ⟨_, .dispatcher hnil hok⟩
  · exact absurd hall (Nat.ne_of_lt hlt)

/-- A timer interrupts it, and the next one is dispatched. -/
theorem Inv.exists_storingStep_timer (h : Inv K disk spaces s) (v : TrapVectors) (wild : Wild)
    (hne : s.dispatched ≠ []) (hlt : s.dispatched.length < s.created.length)
    (hsp : ∀ x, u.BelowSp x → x >>> 12 ∉ managed K) :
    ∃ hart, StoringStep K v wild s (.timer u) ((s.afterUservec u).afterDispatch hart) := by
  have h' := h.afterUservec hsp
  rcases dispatcher_cases (h'.filled_savedHart v u) v with ⟨pid, -, -, hok⟩ | ⟨hall, -⟩
  · rw [← timerTrap_eq_dispatcher] at hok
    exact ⟨_, .timer hsp (.timer hne hok)⟩
  · exact absurd hall (Nat.ne_of_lt hlt)

/-- A process whose `sp` points below the kernel. -/
def lowUser : UserState where
  reg i := if i = spIndex then 0x1000 else 7
  pc := 4
  mstatus := 0

/-- Two processes are created, the first is dispatched, and a timer interrupts it: `uservec` stores
its `t0` at address `0xff0`, and the rest of memory stays. -/
theorem memory_kept_of_trace_sample : ∃ s s',
    Trace (StoringStep Tables.sampleKernel Scheduler.sampleVectors fun _ _ _ => 0)
      (sampleMain Processes.sampleDisk)
      [.createProcess Processes.sampleProgram, .createProcess Processes.sampleProgram] s ∧
    Trace (StoringStep Tables.sampleKernel Scheduler.sampleVectors fun _ _ _ => 0) s
      [.dispatcher, .timer lowUser] s' ∧
    s.created.length = 2 ∧ s'.kernel.paging.mem 0xff0 = 7 ∧
    (∀ x : BitVec 64, x >>> 12 ∈ managed Tables.sampleKernel →
      x >>> 12 ∉ s.kernel.paging.alloc.freeList →
      s'.kernel.paging.mem x = s.kernel.paging.mem x) ∧
    (∀ x : BitVec 64, x >>> 12 ∉ managed Tables.sampleKernel → ¬lowUser.BelowSp x →
      s'.kernel.paging.mem x = s.kernel.paging.mem x) ∧
    ∀ p ∈ s.created, ∀ virtualAddress,
      readVirtual s'.kernel.paging.mem (s.kernel.table.pd p.pid).sa.satp virtualAddress =
        readVirtual s.kernel.paging.mem (s.kernel.table.pd p.pid).sa.satp virtualAddress := by
  have h₀ : Inv Tables.sampleKernel Processes.sampleDisk (fun _ => none)
    (sampleMain Processes.sampleDisk) := inv_main fun _ _ => rfl
  have hcharged₀ : (sampleMain Processes.sampleDisk).Charged Tables.sampleKernel :=
    charged_main fun _ _ => rfl
  -- the two processes
  obtain ⟨s₁, pid₁, hstep₁, hcreated₁, hlogged₁, hdispatched₁⟩ :=
    h₀.exists_step_sample hcharged₀ Scheduler.sampleVectors (fun _ _ _ => 0) rfl (by decide)
      (by decide)
  obtain ⟨spaces₁, h₁⟩ := h₀.step hstep₁
  have hsum : (s₁.created.map Created.frames).sum = 9 := by
    rw [hcreated₁]
    exact Processes.frames_sample pid₁
  have hlength₁ : s₁.created.length = 1 := by rw [hcreated₁]; rfl
  obtain ⟨s₂, pid₂, hstep₂, hcreated₂, -, hdispatched₂⟩ :=
    h₁.exists_step_sample (h₀.charged_step hcharged₀ hstep₁) Scheduler.sampleVectors
      (fun _ _ _ => 0) hlogged₁ (by rw [hlength₁]; decide) (by rw [hsum]; decide)
  obtain ⟨spaces₂, h₂⟩ := h₁.step hstep₂
  have hlength₂ : s₂.created.length = 2 := by
    rw [hcreated₂, List.length_append, hlength₁, List.length_singleton]
  have hnil : s₂.dispatched = [] := hdispatched₂.trans hdispatched₁
  -- the dispatch and the interrupt
  obtain ⟨hart, hstep₃⟩ := h₂.exists_step_dispatcher Scheduler.sampleVectors (fun _ _ _ => 0) hnil
    (by rw [hnil, hlength₂]; decide)
  obtain ⟨spaces₃, h₃⟩ := h₂.step hstep₃
  have hlow : ∀ x, lowUser.BelowSp x → x >>> 12 ∉ managed Tables.sampleKernel := by
    intro x hx hmem
    have hpage := (mem_managed.mp hmem).1
    have hsp : lowUser.reg spIndex = 0x1000 := rfl
    have hstart : (startPage Tables.sampleKernel.kernelEnd).toNat = 0x80010 := by decide
    rw [UserState.BelowSp, hsp] at hx
    bv_omega
  have hdispatched₃ : (s₂.afterDispatch hart).dispatched = [hart.table.currentProcess] := by
    rw [afterDispatch, hnil]
    rfl
  obtain ⟨hart', hstep₄⟩ := h₃.exists_storingStep_timer Scheduler.sampleVectors (fun _ _ _ => 0)
    (by rw [hdispatched₃]; exact List.cons_ne_nil _ _)
    (by rw [hdispatched₃]; exact Nat.lt_of_lt_of_eq Nat.one_lt_two hlength₂.symm) hlow
  have hrun := (Trace.refl.snoc (StoringStep.call (K := Tables.sampleKernel)
    (fun _ => SystemOp.noConfusion) hstep₁)).snoc (.call (fun _ => SystemOp.noConfusion) hstep₂)
  have hrun' := (Trace.refl.snoc (StoringStep.call (K := Tables.sampleKernel)
    (fun _ => SystemOp.noConfusion) hstep₃)).snoc hstep₄
  obtain ⟨hused, houtside, hread⟩ := memory_kept_of_trace (fun _ _ => rfl) hrun hrun'
  refine ⟨s₂, _, hrun, hrun', hlength₂, ?_, hused, fun x hx hnot => houtside x hx ?_, hread⟩
  · show lowUser.stackMem s₂.kernel.paging.mem 0xff0 = 7
    rw [UserState.stackMem, Mem.store64_of_outside _ _ (by decide)]
    exact Mem.store64_add _ _ _ 0 (by decide)
  · intro u hu
    obtain rfl : u = lowUser := by simpa using hu
    exact hnot

end Sample

end Kept

end System

end R5O5
