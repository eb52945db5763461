import R5O5.Kernel.Scheduling

/-!
# The order of the dispatches

Slots are filled one after the other and never freed, and a process that has been dispatched stays
in the state `RUNNING`. So the slots in use come first in the table, those of the dispatched
processes first among them, and the scheduler goes through them once.

## Main definitions

- `ProcessTable.Filled`: the table after some processes have been created and some dispatched.

## Main results

- `ProcessTable.Filled.createProcess`: the next process gets the next slot;
- `ProcessTable.Filled.selectProcessToRun_cases`: the next dispatch runs the next process.
-/

namespace R5O5

/-- The first `created` slots are in use. The processes in the first `dispatched` ones of them have
been dispatched, the last one of these is the current process, and the others have not run yet. -/
structure ProcessTable.Filled (t : ProcessTable) (created dispatched : ℕ) : Prop where
  dispatched_le : dispatched ≤ created
  created_le : created ≤ nproc
  slot_iff : ∀ pid, (t.pd pid).slotAllocated = true ↔ pid.val < created
  running : ∀ pid : Pid, pid.val < dispatched → (t.pd pid).state = .running
  ready : ∀ pid : Pid, dispatched ≤ pid.val → pid.val < created →
    (t.pd pid).state = .ready ∧ (t.pd pid).timeLeft = timeQuantum
  current : t.currentProcess.val = dispatched - 1

/-- What a timer interrupt leaves to the dispatcher: the registers of the current process are
saved. -/
def savedHart (v : TrapVectors) (u : UserState) (h : Hart) : Hart where
  table := h.table.modify h.table.currentProcess fun d =>
    { d with sa := { reg := u.reg, epc := u.pc, satp := h.csrs.satp } }
  csrs :=
    { intrAllOff { h.csrs with mstatus := u.mstatus, mepc := u.pc, mcause := mcauseTimer } with
      mtvec := v.kernelvec }

/-- A timer interrupt is a dispatch. -/
theorem timerTrap_eq_dispatcher (v : TrapVectors) (u : UserState) (h : Hart) :
    timerTrap v u h = dispatcher v (savedHart v u h) := by
  -- the tests of the handler on a timer interrupt from user mode
  have hmode : ¬mcauseTimer &&& mstatusMpp ≠ 0 := by decide
  have hinterrupt : mcauseTimer &&& 0x8000000000000000 ≠ 0 := by decide
  have htimer : mcauseTimer &&& 0xff = 7 := by decide
  refine (if_neg hmode).trans ((if_pos hinterrupt).trans ((if_pos htimer).trans ?_))
  show dispatcher v
    { table := (h.table.modify h.table.currentProcess _).modify h.table.currentProcess _
      csrs := _ } = _
  rw [ProcessTable.modify_modify]
  rfl

/-- All slots before the one of a new process are in use. -/
theorem createProcess_first {wild : Wild} {program : Program} {pid : Pid} {k k' : Kernel}
    (hok : createProcess wild program k = .ok (pid, k')) :
    ∀ pid' < pid, (k.table.pd pid').slotAllocated = true := by
  intro pid' hlt
  rw [createProcess] at hok
  split at hok
  case h_1 => cases hok
  case h_2 found hfind =>
    obtain ⟨⟨loaded, k₁⟩, -, hrest⟩ := Except.bind_eq_ok.mp hok
    cases loaded with
    | false => cases hrest
    | true =>
      cases hrest
      obtain ⟨-, i, hi, hfound, hbefore⟩ := List.find?_eq_some_iff_getElem.mp hfind
      rw [List.getElem_finRange] at hfound
      have hlt' : pid'.val < i := by
        rw [← hfound, Fin.lt_def] at hlt
        exact hlt
      have hused := hbefore pid'.val hlt'
      rw [List.getElem_finRange] at hused
      simpa using hused

namespace ProcessTable.Filled

variable {t : ProcessTable} {created dispatched : ℕ} {pid : Pid}

/-- After `procesDescriptorInit`. -/
theorem procesDescriptorInit (t : ProcessTable) : (R5O5.procesDescriptorInit t).Filled 0 0 where
  dispatched_le := Nat.le_refl 0
  created_le := Nat.zero_le _
  slot_iff _ := iff_of_false Bool.false_ne_true (Nat.not_lt_zero _)
  running _ h := absurd h (Nat.not_lt_zero _)
  ready _ _ h := absurd h (Nat.not_lt_zero _)
  current := rfl

/-- The save areas do not matter. -/
theorem modify_sa (h : t.Filled created dispatched) (pid : Pid) (f : SaveArea → SaveArea) :
    (t.modify pid fun d => { d with sa := f d.sa }).Filled created dispatched := by
  have hpd : ∀ pid', ((t.modify pid fun d => { d with sa := f d.sa }).pd pid').slotAllocated =
      (t.pd pid').slotAllocated ∧
      ((t.modify pid fun d => { d with sa := f d.sa }).pd pid').state = (t.pd pid').state ∧
      ((t.modify pid fun d => { d with sa := f d.sa }).pd pid').timeLeft =
        (t.pd pid').timeLeft := by
    intro pid'
    by_cases heq : pid' = pid
    · subst heq
      rw [modify_pd_self]
      exact ⟨rfl, rfl, rfl⟩
    · rw [modify_pd_of_ne _ _ heq]
      exact ⟨rfl, rfl, rfl⟩
  constructor
  case dispatched_le => exact h.dispatched_le
  case created_le => exact h.created_le
  case current => exact h.current
  case slot_iff => intro pid'; rw [(hpd pid').1, h.slot_iff]
  case running => intro pid' hlt; rw [(hpd pid').2.1, h.running pid' hlt]
  case ready =>
    intro pid' hle hlt
    rw [(hpd pid').2.1, (hpd pid').2.2]
    exact h.ready pid' hle hlt

theorem isReady_iff (h : t.Filled created dispatched) :
    (t.pd pid).isReady = true ↔ dispatched ≤ pid.val ∧ pid.val < created := by
  rw [R5O5.isReady_iff, h.slot_iff]
  constructor
  · rintro ⟨hlt, hstate⟩
    refine ⟨?_, hlt⟩
    by_contra hge
    rw [h.running pid (Nat.lt_of_not_le hge)] at hstate
    cases hstate
  · rintro ⟨hle, hlt⟩
    exact ⟨hlt, (h.ready pid hle hlt).1⟩

/-- The next process is dispatched. -/
theorem run (h : t.Filled created dispatched) (hpid : pid.val = dispatched)
    (hlt : dispatched < created) : (t.run pid timeQuantum).Filled created (dispatched + 1) := by
  constructor
  case dispatched_le => exact hlt
  case created_le => exact h.created_le
  case current => exact hpid
  case slot_iff =>
    intro pid'
    by_cases heq : pid' = pid
    · subst heq
      rw [run_pd_self]
      exact h.slot_iff pid'
    · rw [run_pd_of_ne _ _ heq, h.slot_iff]
  case running =>
    intro pid' hle
    by_cases heq : pid' = pid
    · subst heq
      rw [run_pd_self]
    · rw [run_pd_of_ne _ _ heq]
      exact h.running pid' (by have hne := Fin.val_ne_of_ne heq; omega)
  case ready =>
    intro pid' hle hlt'
    have hne : pid' ≠ pid := fun heq => by
      rw [heq] at hle
      omega
    rw [run_pd_of_ne _ _ hne]
    exact h.ready pid' (by omega) hlt'

/-- The scheduler selects the first process that has not been dispatched, and stops when all
have been. -/
theorem selectProcessToRun_cases (h : t.Filled created dispatched) :
    (∃ pid : Pid, pid.val = dispatched ∧ dispatched < created ∧
      selectProcessToRun t = .ok (t.run pid timeQuantum)) ∨
    (dispatched = created ∧
      selectProcessToRun t = .error (.error "selectProcessToRun: No Process To Run")) := by
  rcases selectProcessToRun_choice t with ⟨pid, timeLeft, hchoice, hok⟩ | ⟨hnone, herr⟩
  case inr =>
    refine Or.inr ⟨?_, herr⟩
    by_contra hne
    have hle := h.dispatched_le
    have hle' := h.created_le
    have hlt : dispatched < created := by omega
    have hready : (t.pd ⟨dispatched, hlt.trans_le hle'⟩).isReady = true :=
      h.isReady_iff.mpr ⟨Nat.le_refl _, hlt⟩
    rw [hnone] at hready
    cases hready
  have hready := h.isReady_iff.mp hchoice.isReady
  have hlt : dispatched < created := by omega
  have hcurrent := h.current
  have hle := h.created_le
  rw [hok]
  cases hchoice with
  | current hnow htime =>
    -- before the first dispatch the current process is the first one
    have hzero : dispatched = 0 := by
      have hle := (h.isReady_iff.mp hnow).1
      omega
    refine Or.inl ⟨t.currentProcess, by omega, hlt, ?_⟩
    rw [(h.ready _ hready.1 hready.2).2]
  | next j hnot hpos hj _ hfirst =>
    have hnext : dispatched ≠ 0 := by
      rintro rfl
      have hready₀ := h.isReady_iff.mpr (show 0 ≤ t.currentProcess.val ∧ _ by omega)
      have htime : 0 < (t.pd t.currentProcess).timeLeft := by
        rw [(h.ready t.currentProcess (by omega) (by omega)).2]
        decide
      exact hnot ⟨hready₀, htime⟩
    -- the slot behind the current one is ready
    have hbehind : (pidAfter t.currentProcess 1).val = dispatched := by
      have hmod : (pidAfter t.currentProcess 1).val = (t.currentProcess.val + 1) % nproc := rfl
      rw [hmod, Nat.mod_eq_of_lt (by omega)]
      omega
    obtain rfl : j = 1 := by
      by_contra hne
      have hfalse := hfirst 1 (Nat.le_refl 1) (by omega)
      rw [h.isReady_iff.mpr ⟨hbehind.ge, hbehind.trans_lt hlt⟩] at hfalse
      cases hfalse
    exact Or.inl ⟨_, hbehind, hlt, rfl⟩

/-- A process is created in the next slot. -/
theorem createProcess {wild : Wild} {program : Program} {k k' : Kernel}
    (h : k.table.Filled created dispatched)
    (hok : R5O5.createProcess wild program k = .ok (pid, k')) :
    pid.val = created ∧ k'.table.Filled (created + 1) dispatched := by
  obtain ⟨hfree, f, htable⟩ := createProcess_table hok
  have hpid : pid.val = created := by
    have hle : created ≤ pid.val := by
      by_contra hlt
      rw [(h.slot_iff pid).mpr (Nat.lt_of_not_le hlt)] at hfree
      cases hfree
    refine Nat.le_antisymm ?_ hle
    by_contra hlt
    -- the search would have stopped at the first free slot
    have hfirst : (⟨created, by omega⟩ : Pid) < pid := by
      rw [Fin.lt_def]
      exact Nat.lt_of_not_le hlt
    have hused := createProcess_first hok _ hfirst
    exact absurd ((h.slot_iff _).mp hused) (Nat.lt_irrefl _)
  refine ⟨hpid, ?_⟩
  have hpd : ∀ pid' ≠ pid, k'.table.pd pid' = k.table.pd pid' := by
    intro pid' hne
    rw [htable, modify_pd_of_ne _ _ hne]
  have hlt := pid.isLt
  have hle := h.dispatched_le
  constructor
  case dispatched_le => omega
  case created_le => omega
  case current =>
    rw [htable]
    exact h.current
  case slot_iff =>
    intro pid'
    by_cases heq : pid' = pid
    · subst heq
      rw [htable, modify_pd_self]
      exact iff_of_true rfl (by omega)
    · have hne := Fin.val_ne_of_ne heq
      rw [hpd pid' heq, h.slot_iff]
      omega
  case running =>
    intro pid' hlt'
    rw [hpd pid' (fun heq => by rw [heq] at hlt'; omega)]
    exact h.running pid' hlt'
  case ready =>
    intro pid' hle' hlt'
    by_cases heq : pid' = pid
    · subst heq
      rw [htable, modify_pd_self]
      exact ⟨rfl, rfl⟩
    · have hne := Fin.val_ne_of_ne heq
      rw [hpd pid' heq]
      exact h.ready pid' hle' (by omega)

end ProcessTable.Filled

end R5O5
