import R5O5.Kernel.CreateProcess.Image
import R5O5.Kernel.InterruptHandler

/-!
# Scheduling

Runs of the kernel in which processes are created and dispatched. The first dispatch is a call of
`dispatcher`, the others come from machine-timer interrupts.

## Main definitions

- `pidAfter`: the order in which the scheduler looks at the slots;
- `Scheduler.Step`: creating a process, or a dispatch;
- `Scheduler.AfterDispatch`: what a dispatch should leave behind.

## Main results

- `selectProcessToRun_exact`: which process the scheduler selects, and what it changes;
- `Scheduler.afterDispatch_iff`: which runs leave this behind after every dispatch.
-/

namespace R5O5

/-- The slot `j` places behind another one, in cyclic order. -/
def pidAfter (pid : Pid) (j : ℕ) : Pid := ⟨(pid + j) % nproc, Nat.mod_lt _ (by decide)⟩

/-- The table after the process `pid` is selected. -/
def ProcessTable.run (t : ProcessTable) (pid : Pid) (timeLeft : BitVec 64) : ProcessTable where
  pd := Function.update t.pd pid { t.pd pid with timeLeft, state := .running }
  currentProcess := pid

section Selection

variable {t : ProcessTable} {left : ℕ}

/-- The process that is dispatched runs. -/
@[simp]
theorem ProcessTable.run_pd_self (t : ProcessTable) (pid : Pid) (timeLeft : BitVec 64) :
    (t.run pid timeLeft).pd pid = { t.pd pid with timeLeft, state := .running } :=
  Function.update_self ..

theorem ProcessTable.run_pd_of_ne (t : ProcessTable) {pid pid' : Pid} (timeLeft : BitVec 64)
    (hne : pid' ≠ pid) : (t.run pid timeLeft).pd pid' = t.pd pid' :=
  Function.update_of_ne hne ..

theorem pidAfter_zero (pid : Pid) : pidAfter pid 0 = pid :=
  Fin.ext (Nat.mod_eq_of_lt pid.isLt)

theorem pidAfter_nextPid (pid : Pid) (j : ℕ) : pidAfter (nextPid pid) j = pidAfter pid (j + 1) := by
  refine Fin.ext ?_
  simp only [pidAfter, nextPid, nproc]
  omega

/-- Every slot is met within one round. -/
theorem exists_pidAfter (pid pid' : Pid) : ∃ j < nproc, pidAfter pid j = pid' := by
  refine ⟨(pid' + nproc - pid) % nproc, Nat.mod_lt _ (by decide), Fin.ext ?_⟩
  have hpid := pid.isLt
  have hpid' := pid'.isLt
  simp only [pidAfter, nproc] at *
  omega

/-- A process is ready when its slot is in use and its state says so. -/
theorem isReady_iff {d : ProcessDescriptor} :
    d.isReady = true ↔ d.slotAllocated = true ∧ d.state = .ready := by
  rw [ProcessDescriptor.isReady, Bool.and_eq_true, decide_eq_true_eq]

/-- The loop stops at the first slot that is ready. -/
theorem selectLoop_cases (left : ℕ) (t : ProcessTable) :
    (∃ j < left, (t.pd (pidAfter t.currentProcess j)).isReady = true ∧
      (∀ i < j, (t.pd (pidAfter t.currentProcess i)).isReady = false) ∧
      selectLoop left t = .ok (t.run (pidAfter t.currentProcess j) timeQuantum)) ∨
    ((∀ j < left, (t.pd (pidAfter t.currentProcess j)).isReady = false) ∧
      selectLoop left t = .error (.error "selectProcessToRun: No Process To Run")) := by
  induction left generalizing t with
  | zero => exact Or.inr ⟨fun j hj => absurd hj (Nat.not_lt_zero j), rfl⟩
  | succ left ih =>
    rw [selectLoop]
    cases hready : (t.pd t.currentProcess).isReady with
    | true =>
      refine Or.inl ⟨0, Nat.succ_pos _, ?_, fun i hi => absurd hi (Nat.not_lt_zero i), ?_⟩
      · rw [pidAfter_zero, hready]
      · rw [pidAfter_zero, if_pos rfl]
        rfl
    | false =>
      have hzero : (t.pd (pidAfter t.currentProcess 0)).isReady = false := by
        rw [pidAfter_zero, hready]
      rw [if_neg (by decide)]
      -- the rounds left start one slot further on
      rcases ih { t with currentProcess := nextPid t.currentProcess } with
        ⟨j, hj, hjready, hbefore, hok⟩ | ⟨hnone, herr⟩
      · simp only [pidAfter_nextPid] at hjready hbefore hok
        refine Or.inl ⟨j + 1, Nat.succ_lt_succ hj, hjready, fun i hi => ?_, hok⟩
        cases i with
        | zero => exact hzero
        | succ i => exact hbefore i (Nat.lt_of_succ_lt_succ hi)
      · simp only [pidAfter_nextPid] at hnone
        refine Or.inr ⟨fun i hi => ?_, herr⟩
        cases i with
        | zero => exact hzero
        | succ i => exact hnone i (Nat.lt_of_succ_lt_succ hi)

/-- The process that should run next, with its time: the current one while it is ready and has time
left, else the first ready one in cyclic order, with a new quantum. -/
inductive Choice (t : ProcessTable) : Pid → BitVec 64 → Prop
  | current :
      (t.pd t.currentProcess).isReady = true → 0 < (t.pd t.currentProcess).timeLeft →
      Choice t t.currentProcess (t.pd t.currentProcess).timeLeft
  | next (j : ℕ) :
      ¬((t.pd t.currentProcess).isReady = true ∧ 0 < (t.pd t.currentProcess).timeLeft) →
      1 ≤ j → j ≤ nproc → (t.pd (pidAfter t.currentProcess j)).isReady = true →
      (∀ i, 1 ≤ i → i < j → (t.pd (pidAfter t.currentProcess i)).isReady = false) →
      Choice t (pidAfter t.currentProcess j) timeQuantum

theorem Choice.isReady {pid : Pid} {timeLeft : BitVec 64} (h : Choice t pid timeLeft) :
    (t.pd pid).isReady = true := by
  cases h with
  | current hready _ => exact hready
  | next j _ _ _ hready _ => exact hready

/-- The scheduler runs the process that should run next, if a process is ready. -/
theorem selectProcessToRun_choice (t : ProcessTable) :
    (∃ pid timeLeft, Choice t pid timeLeft ∧
      selectProcessToRun t = .ok (t.run pid timeLeft)) ∨
    ((∀ pid, (t.pd pid).isReady = false) ∧
      selectProcessToRun t = .error (.error "selectProcessToRun: No Process To Run")) := by
  rw [selectProcessToRun]
  split
  case isTrue h => exact Or.inl ⟨t.currentProcess, _, Choice.current h.1 h.2, rfl⟩
  case isFalse hcurrent =>
    -- the loop starts at the slot after the current one, and ends with the current one
    rcases selectLoop_cases nproc { t with currentProcess := nextPid t.currentProcess } with
      ⟨j, hj, hready, hbefore, hok⟩ | ⟨hnone, herr⟩
    · simp only [pidAfter_nextPid] at hready hbefore hok
      refine Or.inl ⟨_, _, Choice.next (j + 1) hcurrent (Nat.succ_pos j) hj hready ?_, hok⟩
      intro i hi hij
      obtain ⟨i, rfl⟩ := Nat.exists_eq_succ_of_ne_zero (Nat.ne_of_gt hi)
      exact hbefore i (Nat.lt_of_succ_lt_succ hij)
    · refine Or.inr ⟨fun pid => ?_, herr⟩
      obtain ⟨j, hj, rfl⟩ := exists_pidAfter (nextPid t.currentProcess) pid
      exact hnone j hj

/-- The scheduler selects a process that is ready, if there is one. -/
theorem selectProcessToRun_cases (t : ProcessTable) :
    (∃ pid timeLeft, (t.pd pid).isReady = true ∧
      selectProcessToRun t = .ok (t.run pid timeLeft)) ∨
    ((∀ pid, (t.pd pid).isReady = false) ∧
      selectProcessToRun t = .error (.error "selectProcessToRun: No Process To Run")) := by
  apply (selectProcessToRun_choice t).imp_left
  rintro ⟨pid, timeLeft, hchoice, hok⟩
  exact ⟨pid, timeLeft, hchoice.isReady, hok⟩

/-- The scheduler stops with its error exactly when no process is ready. Otherwise it makes the
process that should run next the current one, and changes only its state and its time. -/
theorem selectProcessToRun_exact (t : ProcessTable) :
    ((∃ e, selectProcessToRun t = .error e) ↔
      ∀ pid, ¬((t.pd pid).slotAllocated = true ∧ (t.pd pid).state = .ready)) ∧
    (∀ e, selectProcessToRun t = .error e →
      e = .error "selectProcessToRun: No Process To Run") ∧
    ∀ t', selectProcessToRun t = .ok t' →
      ∃ timeLeft, Choice t t'.currentProcess timeLeft ∧
        t'.pd t'.currentProcess =
          { t.pd t'.currentProcess with timeLeft, state := .running } ∧
        ∀ pid ≠ t'.currentProcess, t'.pd pid = t.pd pid := by
  have hnot (pid : Pid) : ¬((t.pd pid).slotAllocated = true ∧ (t.pd pid).state = .ready) ↔
      (t.pd pid).isReady = false := by
    rw [← isReady_iff, Bool.not_eq_true]
  simp only [hnot]
  -- one allocated process is ready, or none is
  rcases selectProcessToRun_choice t with ⟨pid, timeLeft, hchoice, hok⟩ | ⟨hnone, herr⟩
  · rw [hok]
    refine ⟨⟨?_, fun hnone => ?_⟩, ?_, ?_⟩
    · rintro ⟨e, he⟩
      cases he
    · exact absurd hchoice.isReady (ne_true_of_eq_false (hnone pid))
    · intro e he
      cases he
    · rintro t' ⟨⟩
      exact ⟨timeLeft, hchoice, t.run_pd_self pid timeLeft,
        fun pid' hne => t.run_pd_of_ne timeLeft hne⟩
  · rw [herr]
    refine ⟨⟨fun _ => hnone, fun _ => ⟨_, rfl⟩⟩, ?_, ?_⟩
    · rintro e ⟨⟩
      rfl
    · intro t' ht'
      cases ht'

end Selection

/-! ## Runs -/

/-- The kernel with the registers of the hart. Once a process runs, dispatches come from the timer;
a dispatch that fails stops the kernel. -/
structure Scheduler where
  kernel : Kernel
  csrs : Csrs
  started : Bool
  stopped : Option Stop

/-- What happens in a run. -/
inductive SchedulerOp
  | createProcess (program : Program)
  | dispatcher
  /-- A machine-timer interrupt in user mode. -/
  | timer (u : UserState)

namespace SchedulerOp

def isTimer : SchedulerOp → Bool
  | timer _ => true
  | _ => false

def isDispatch : SchedulerOp → Bool
  | createProcess _ => false
  | _ => true

end SchedulerOp

namespace Scheduler

/-- The part of the state that the dispatching functions work on. -/
def hart (s : Scheduler) : Hart := { table := s.kernel.table, csrs := s.csrs }

/-- The state after a dispatch. -/
def afterDispatch (s : Scheduler) : Except Stop Hart → Scheduler
  | .ok h =>
      { kernel := { s.kernel with table := h.table }
        csrs := h.csrs
        started := true
        stopped := none }
  | .error e => { s with started := true, stopped := some e }

/-- The state after `procesDescriptorInit`. -/
def boot (k : Kernel) (csrs : Csrs) : Scheduler where
  kernel := { k with table := procesDescriptorInit k.table }
  csrs := csrs
  started := false
  stopped := none

/-- One successful creation of a process, or one dispatch. -/
inductive Step (v : TrapVectors) (wild : Wild) : Scheduler → SchedulerOp → Scheduler → Prop
  | createProcess {s : Scheduler} {program : Program} {pid : Pid} {kernel : Kernel} :
      s.stopped = none →
      R5O5.createProcess wild program s.kernel = .ok (pid, kernel) →
      Step v wild s (.createProcess program) { s with kernel }
  | dispatcher {s : Scheduler} :
      s.stopped = none →
      s.started = false →
      Step v wild s .dispatcher (s.afterDispatch (R5O5.dispatcher v s.hart))
  | timer {s : Scheduler} {u : UserState} :
      s.stopped = none →
      s.started = true →
      Step v wild s (.timer u) (s.afterDispatch (timerTrap v u s.hart))

/-- After a dispatch the current process runs and all others are ready; a dispatch fails only when
there is no process. -/
def AfterDispatch (s : Scheduler) : Prop :=
  match s.stopped with
  | none =>
      (s.kernel.table.pd s.kernel.table.currentProcess).slotAllocated = true ∧
      (s.kernel.table.pd s.kernel.table.currentProcess).state = .running ∧
      ∀ pid ≠ s.kernel.table.currentProcess, (s.kernel.table.pd pid).slotAllocated = true →
        (s.kernel.table.pd pid).state = .ready
  | some e => e = .error "selectProcessToRun: No Process To Run" →
      ∀ pid, (s.kernel.table.pd pid).slotAllocated = false

/-- A step with this postcondition, if it is a dispatch. -/
def FairStep (v : TrapVectors) (wild : Wild) (s : Scheduler) (op : SchedulerOp) (s' : Scheduler) :
    Prop :=
  Step v wild s op s' ∧ (op.isDispatch = true → s'.AfterDispatch)

/-- Before the first dispatch every process is ready. -/
def AllReady (s : Scheduler) : Prop :=
  s.stopped = none ∧ ∀ pid, (s.kernel.table.pd pid).slotAllocated = true →
    (s.kernel.table.pd pid).state = .ready

/-- Some process runs. -/
def SomeRunning (s : Scheduler) : Prop :=
  ∃ pid, (s.kernel.table.pd pid).slotAllocated = true ∧ (s.kernel.table.pd pid).state = .running

section Runs

variable {v : TrapVectors} {wild : Wild} {s s' : Scheduler} {k : Kernel} {csrs : Csrs}
  {ops : List SchedulerOp} {program : Program} {pid : Pid} {kernel : Kernel} {h : Hart}

/-- The dispatcher runs a ready process, or fails when there is none. -/
theorem dispatcher_cases (v : TrapVectors) (h : Hart) :
    (∃ pid timeLeft, (h.table.pd pid).isReady = true ∧ R5O5.dispatcher v h =
      .ok { table := h.table.run pid timeLeft
            csrs := runProcess v (h.table.run pid timeLeft) h.csrs }) ∨
    ((∀ pid, (h.table.pd pid).isReady = false) ∧
      R5O5.dispatcher v h = .error (.error "selectProcessToRun: No Process To Run")) := by
  rw [R5O5.dispatcher]
  rcases selectProcessToRun_cases h.table with ⟨pid, timeLeft, hready, hok⟩ | ⟨hnone, herr⟩
  · exact Or.inl ⟨pid, timeLeft, hready, by rw [hok]; rfl⟩
  · exact Or.inr ⟨hnone, by rw [herr]; rfl⟩

/-- A timer interrupt is a dispatch, after the state of the current process is saved. -/
theorem timerTrap_eq (v : TrapVectors) (u : UserState) (h : Hart) : ∃ h' : Hart,
    timerTrap v u h = R5O5.dispatcher v h' ∧
      (∀ pid, (h'.table.pd pid).slotAllocated = (h.table.pd pid).slotAllocated) ∧
      ∀ pid, (h'.table.pd pid).state = (h.table.pd pid).state := by
  let csrs : Csrs := { h.csrs with mstatus := u.mstatus, mepc := u.pc, mcause := mcauseTimer }
  let saved (d : ProcessDescriptor) : ProcessDescriptor :=
    { d with sa := { d.sa with reg := u.reg, satp := csrs.satp, epc := u.pc } }
  -- the tests of `interruptHandler` on a timer interrupt from user mode
  have hmode : ¬ mcauseTimer &&& mstatusMpp ≠ 0 := by decide
  have hinterrupt : mcauseTimer &&& 0x8000000000000000 ≠ 0 := by decide
  have htimer : mcauseTimer &&& 0xff = 7 := by decide
  refine ⟨{ table := h.table.modify h.table.currentProcess saved
            csrs := { intrAllOff csrs with mtvec := v.kernelvec } },
      ?_, fun pid => ?_, fun pid => ?_⟩
  · refine (if_neg hmode).trans ((if_pos hinterrupt).trans ((if_pos htimer).trans ?_))
    show R5O5.dispatcher v
      { table := (h.table.modify h.table.currentProcess _).modify h.table.currentProcess _
        csrs := _ } = _
    rw [ProcessTable.modify_modify]
    rfl
  -- the handler saves registers and changes neither field
  · by_cases hpid : pid = h.table.currentProcess
    · rw [hpid, ProcessTable.modify_pd_self]
    · rw [ProcessTable.modify_pd_of_ne _ _ hpid]
  · by_cases hpid : pid = h.table.currentProcess
    · rw [hpid, ProcessTable.modify_pd_self]
    · rw [ProcessTable.modify_pd_of_ne _ _ hpid]

/-- A created process is ready, the others stay as they are. -/
theorem state_of_createProcess (hok : R5O5.createProcess wild program k = .ok (pid, kernel)) :
    (k.table.pd pid).slotAllocated = false ∧
      (kernel.table.pd pid).slotAllocated = true ∧ (kernel.table.pd pid).state = .ready ∧
      ∀ pid' ≠ pid, kernel.table.pd pid' = k.table.pd pid' := by
  obtain ⟨hfree, f, hf⟩ := createProcess_table hok
  refine ⟨hfree, ?_, ?_, fun pid' hne => ?_⟩
  · rw [hf, ProcessTable.modify_pd_self, newDescriptor]
  · rw [hf, ProcessTable.modify_pd_self, newDescriptor]
  · rw [hf, ProcessTable.modify_pd_of_ne _ _ hne]

theorem AllReady.createProcess (h : s.AllReady)
    (hok : R5O5.createProcess wild program s.kernel = .ok (pid, kernel)) :
    AllReady { s with kernel } := by
  obtain ⟨-, -, hready, hother⟩ := state_of_createProcess hok
  refine ⟨h.1, fun pid' hpid' => ?_⟩
  by_cases heq : pid' = pid
  · rw [heq]
    exact hready
  · rw [hother pid' heq] at hpid' ⊢
    exact h.2 pid' hpid'

/-- A new process does not stop the others. -/
theorem SomeRunning.createProcess (h : s.SomeRunning)
    (hok : R5O5.createProcess wild program s.kernel = .ok (pid, kernel)) :
    SomeRunning { s with kernel } := by
  obtain ⟨pid', hpid', hrunning⟩ := h
  obtain ⟨hfree, -, -, hother⟩ := state_of_createProcess hok
  have hne : pid' ≠ pid := by
    rintro rfl
    rw [hfree] at hpid'
    cases hpid'
  refine ⟨pid', ?_, ?_⟩
  · rw [hother pid' hne, hpid']
  · rw [hother pid' hne, hrunning]

/-- A dispatch that selects a process is good when all other processes are ready. -/
theorem afterDispatch_run {csrs : Csrs} {table : ProcessTable} {timeLeft : BitVec 64}
    (hpid : (table.pd pid).slotAllocated = true) :
    (s.afterDispatch (.ok { table := table.run pid timeLeft, csrs })).AfterDispatch ↔
      ∀ pid' ≠ pid, (table.pd pid').slotAllocated = true → (table.pd pid').state = .ready := by
  have hother : ∀ pid' ≠ pid, (table.run pid timeLeft).pd pid' = table.pd pid' :=
    fun pid' hne => table.run_pd_of_ne timeLeft hne
  constructor
  -- only the process that runs has changed its state
  · rintro ⟨-, -, hafter⟩ pid' hne hpid'
    have hready : ((table.run pid timeLeft).pd pid').slotAllocated = true →
      ((table.run pid timeLeft).pd pid').state = .ready := hafter pid' hne
    rw [hother pid' hne] at hready
    exact hready hpid'
  · intro hready
    refine ⟨?_, ?_, fun pid' hne => ?_⟩
    · show ((table.run pid timeLeft).pd pid).slotAllocated = true
      rw [ProcessTable.run_pd_self]
      exact hpid
    · show ((table.run pid timeLeft).pd pid).state = .running
      rw [ProcessTable.run_pd_self]
    · show ((table.run pid timeLeft).pd pid').slotAllocated = true →
        ((table.run pid timeLeft).pd pid').state = .ready
      rw [hother pid' hne]
      exact hready pid' hne

/-- The first dispatch selects one of the ready processes. -/
theorem AllReady.dispatcher (h : s.AllReady) :
    (s.afterDispatch (R5O5.dispatcher v s.hart)).AfterDispatch := by
  rcases dispatcher_cases v s.hart with ⟨pid, timeLeft, hready, hok⟩ | ⟨hnone, herr⟩
  · rw [hok]
    exact (afterDispatch_run (isReady_iff.mp hready).1).mpr fun pid' _ => h.2 pid'
  · rw [herr]
    intro _ pid
    show (s.kernel.table.pd pid).slotAllocated = false
    by_contra hpid
    have halloc : (s.kernel.table.pd pid).slotAllocated = true := Bool.eq_true_of_not_eq_false hpid
    have hready := isReady_iff.mpr ⟨halloc, h.2 pid halloc⟩
    rw [show (s.kernel.table.pd pid).isReady = false from hnone pid] at hready
    cases hready

/-- After a dispatch some process runs, unless the dispatch failed. -/
theorem AfterDispatch.someRunning (h : s.AfterDispatch) (hstopped : s.stopped = none) :
    s.SomeRunning := by
  rw [AfterDispatch, hstopped] at h
  exact ⟨s.kernel.table.currentProcess, h.1, h.2.1⟩

/-- A process that runs is not ready when its time is over, and it is not made ready: the next
dispatch loses it. -/
theorem SomeRunning.not_afterDispatch_timerTrap (h : s.SomeRunning) (u : UserState) :
    ¬ (s.afterDispatch (timerTrap v u s.hart)).AfterDispatch := by
  obtain ⟨pid, hpid, hrunning⟩ := h
  obtain ⟨h', heq, halloc, hstate⟩ := timerTrap_eq v u s.hart
  have hpid' : (h'.table.pd pid).slotAllocated = true := (halloc pid).trans hpid
  have hrunning' : (h'.table.pd pid).state = .running := (hstate pid).trans hrunning
  intro hafter
  rw [heq] at hafter
  rcases dispatcher_cases v h' with ⟨pid', timeLeft, hready, hok⟩ | ⟨hnone, herr⟩
  · rw [hok] at hafter
    obtain ⟨halloc', hready'⟩ := isReady_iff.mp hready
    -- the dispatcher takes a ready process, so the running one is another
    have hne : pid ≠ pid' := by
      rintro rfl
      rw [hrunning'] at hready'
      cases hready'
    have hstate' := (afterDispatch_run halloc').mp hafter pid hne hpid'
    rw [hrunning'] at hstate'
    cases hstate'
  · rw [herr] at hafter
    have hfree : (s.kernel.table.pd pid).slotAllocated = false := hafter rfl pid
    rw [hpid] at hfree
    cases hfree

/-- Before the first dispatch all processes are ready. -/
theorem allReady_of_trace (hrun : Trace (Step v wild) (boot k csrs) ops s)
    (hstarted : s.started = false) : s.AllReady := by
  refine hrun.invariant (I := fun s => s.started = false → s.AllReady) ?_ ?_ hstarted
  · intro _
    exact ⟨rfl, fun pid hpid => by cases hpid⟩
  · intro t op u ih hstep hu
    cases hstep with
    | createProcess hstopped hok => exact (ih hu).createProcess hok
    | dispatcher _ _ =>
      cases hdispatch : R5O5.dispatcher v t.hart <;> (rw [hdispatch] at hu; cases hu)
    | timer _ _ =>
      rename_i x _ _
      cases htrap : timerTrap v x t.hart <;> (rw [htrap] at hu; cases hu)

/-- After the first dispatch some process runs. -/
theorem someRunning_of_trace (hrun : Trace (FairStep v wild) (boot k csrs) ops s)
    (hstarted : s.started = true) (hstopped : s.stopped = none) : s.SomeRunning := by
  refine hrun.invariant (I := fun s => s.started = true → s.stopped = none → s.SomeRunning)
    ?_ ?_ hstarted hstopped
  · intro h
    cases h
  · rintro t op u ih ⟨hstep, hafter⟩ hu hu'
    cases hstep with
    | createProcess _ hok => exact (ih hu hu').createProcess hok
    | dispatcher => exact (hafter rfl).someRunning hu'
    | timer => exact (hafter rfl).someRunning hu'

/-- Every dispatch of a run leaves the current process running and all others ready exactly when the
run has no timer interrupt. -/
theorem afterDispatch_iff (hrun : Trace (Step v wild) (boot k csrs) ops s) :
    Trace (FairStep v wild) (boot k csrs) ops s ↔ ∀ op ∈ ops, op.isTimer = false := by
  constructor
  · intro hfair
    induction hfair with
    | refl => exact List.forall_mem_nil _
    | snoc hinit hlast ih =>
      rename_i ops t u op
      obtain ⟨hstep, hafter⟩ := hlast
      have hinit' : Trace (Step v wild) (boot k csrs) ops t := hinit.mono fun _ _ _ h => h.1
      refine List.forall_mem_append.mpr ⟨ih hinit', List.forall_mem_singleton.mpr ?_⟩
      cases hstep with
      | createProcess => rfl
      | dispatcher => rfl
      | timer hstopped hstarted =>
        -- the process that was running is lost
        have hrunning := someRunning_of_trace hinit hstarted hstopped
        exact absurd (hafter rfl) (hrunning.not_afterDispatch_timerTrap _)
  · intro hno
    induction hrun with
    | refl => exact .refl
    | snoc hinit hstep ih =>
      obtain ⟨hbefore, hop⟩ := List.forall_mem_append.mp hno
      have hop := List.forall_mem_singleton.mp hop
      refine (ih hbefore).snoc ⟨hstep, fun hdispatch => ?_⟩
      cases hstep with
      | createProcess => cases hdispatch
      | dispatcher _ hstarted => exact (allReady_of_trace hinit hstarted).dispatcher
      | timer => cases hop

end Runs

/-! ## A run with one process -/

section Sample

/-- The trap vectors of a small kernel. -/
def sampleVectors : TrapVectors where
  kernelvec := 0x80000000
  uservec := 0x80000100

/-- Control registers that are all zero. -/
def sampleCsrs : Csrs where
  mstatus := 0
  mie := 0
  mtvec := 0
  satp := 0
  mepc := 0
  mcause := 0

/-- The user's registers when the timer interrupts. -/
def sampleUser : UserState where
  reg _ := 0
  pc := 4
  mstatus := 0

/-- The kernel at boot with the sample program on the disk. -/
def sampleBoot : Scheduler := boot Processes.sampleBoot.kernel sampleCsrs

/-- The sample program is created and dispatched. -/
theorem exists_sampleRun (v : TrapVectors) (wild : Wild) : ∃ s,
    Trace (Step v wild) sampleBoot [.createProcess Processes.sampleProgram, .dispatcher] s ∧
      s.started = true ∧ s.stopped = none ∧ s.SomeRunning ∧
      ∀ pid, (s.kernel.table.pd pid).isReady = false := by
  obtain ⟨k', hok⟩ := Processes.createProcess_sampleBoot wild
  obtain ⟨-, halloc, hready, hother⟩ := state_of_createProcess hok
  have hfree : ∀ pid ≠ ⟨0, by decide⟩, (k'.table.pd pid).slotAllocated = false := by
    intro pid hpid
    rw [hother pid hpid]
    rfl
  let s₁ : Scheduler := { sampleBoot with kernel := k' }
  have hrun : Trace (Step v wild) sampleBoot [.createProcess Processes.sampleProgram] s₁ :=
    Trace.refl.snoc (.createProcess rfl hok)
  have hrun' := hrun.snoc (Step.dispatcher rfl rfl)
  rcases dispatcher_cases v s₁.hart with ⟨pid, timeLeft, hpid, hdispatch⟩ | ⟨hnone, -⟩
  · rw [hdispatch] at hrun'
    obtain ⟨hpid', -⟩ := isReady_iff.mp hpid
    -- only the first slot is allocated
    have hfirst : pid = ⟨0, by decide⟩ := by
      by_contra hne
      rw [show (s₁.hart.table.pd pid).slotAllocated = false from hfree pid hne] at hpid'
      cases hpid'
    have hcurrent : ((s₁.hart.table.run pid timeLeft).pd pid).slotAllocated = true := by
      rw [ProcessTable.run_pd_self]
      exact hpid'
    have hstate : ((s₁.hart.table.run pid timeLeft).pd pid).state = .running := by
      rw [ProcessTable.run_pd_self]
    refine ⟨_, hrun', rfl, rfl, ⟨pid, hcurrent, hstate⟩, fun pid' => ?_⟩
    show ((s₁.hart.table.run pid timeLeft).pd pid').isReady = false
    by_cases hne : pid' = pid
    · rw [hne, ProcessDescriptor.isReady, hstate]
      exact Bool.and_false _
    · have hnot : (s₁.hart.table.pd pid').slotAllocated = false := hfree pid' (hfirst ▸ hne)
      rw [ProcessTable.run_pd_of_ne _ _ hne, ProcessDescriptor.isReady, hnot]
      rfl
  · have hcontra : (k'.table.pd ⟨0, by decide⟩).isReady = false := hnone _
    rw [isReady_iff.mpr ⟨halloc, hready⟩] at hcontra
    cases hcontra

/-- In that run the dispatch leaves the process running. -/
theorem afterDispatch_sample : ∃ s, Trace (FairStep sampleVectors fun _ _ _ => 0) sampleBoot
    [.createProcess Processes.sampleProgram, .dispatcher] s := by
  obtain ⟨s, hrun, -⟩ := exists_sampleRun sampleVectors fun _ _ _ => 0
  refine ⟨s, (afterDispatch_iff hrun).mpr ?_⟩
  intro op hop
  rcases List.mem_cons.mp hop with rfl | hop
  · rfl
  · rw [List.mem_singleton.mp hop]
    rfl

/-- The first timer interrupt finds no process to run, although there is one. -/
theorem no_process_to_run : ∃ s, Trace (Step sampleVectors fun _ _ _ => 0) sampleBoot
    [.createProcess Processes.sampleProgram, .dispatcher, .timer sampleUser] s ∧
      s.stopped = some (.error "selectProcessToRun: No Process To Run") ∧
      (∃ pid, (s.kernel.table.pd pid).slotAllocated = true) ∧ ¬ s.AfterDispatch := by
  obtain ⟨s, hrun, hstarted, hstopped, hrunning, hnone⟩ :=
    exists_sampleRun sampleVectors fun _ _ _ => 0
  have hrun' := hrun.snoc (Step.timer hstopped hstarted (u := sampleUser))
  have hnot := hrunning.not_afterDispatch_timerTrap (v := sampleVectors) sampleUser
  -- the only process is still running when the timer interrupts it
  have herr : timerTrap sampleVectors sampleUser s.hart =
      .error (.error "selectProcessToRun: No Process To Run") := by
    obtain ⟨h', heq, halloc, hstate⟩ := timerTrap_eq sampleVectors sampleUser s.hart
    rw [heq]
    rcases dispatcher_cases sampleVectors h' with ⟨pid, -, hready, -⟩ | ⟨-, herr⟩
    · have hready' : (s.kernel.table.pd pid).isReady = true := by
        rwa [ProcessDescriptor.isReady, halloc, hstate] at hready
      rw [hnone pid] at hready'
      cases hready'
    · exact herr
  rw [herr] at hrun' hnot
  obtain ⟨pid, hpid, -⟩ := hrunning
  exact ⟨_, hrun', rfl, ⟨pid, hpid⟩, hnot⟩

end Sample

end Scheduler

end R5O5
