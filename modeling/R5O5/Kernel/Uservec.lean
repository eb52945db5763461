import Mathlib.Tactic.Linarith
import R5O5.Kernel.Declarations
import R5O5.Lib.Rv64
import R5O5.Lib.Trace

/-!
# Entering and leaving user mode

The two assembly routines of `kernel/uservec.S`, transcribed instruction by instruction. A trap
from user mode enters at `uservec`, which saves the 31 integer registers in the save area of
`pd[currentProcess]` and jumps to `userInterruptHandler`; `userret` restores them and executes
`mret`. The C code around them is not executed here: between two entries the kernel may change any
memory outside the save area under consideration.

## Main definitions

- `Layout`: where the linker puts `pd`, `currentProcess` and `SystemStack`;
- `uservec`, `userret`: the instruction sequences;
- `Step`: what happens to memory in a sequence of entries, seen by one process.

## Main results

- `mem_uservec`: the words `uservec` writes;
- `get_userret`: the registers after `userret`;
- `load64_saveArea_of_trace`: the save area of a process holds its registers at the latest entry;
- `userret_restores_iff`: when `userret` gives these registers back;
- `uservec_confined_iff`: when `uservec` writes nothing but the save area.
-/

namespace R5O5.Uservec

open Rv64 Mem

/-- The size of the packed `SaveArea`: `reg`, `epc` and `satp`. -/
def sizeofSaveArea : ℕ := 8 * nreg + 8 + 8

/-- The size of the packed `ProcessDescriptor`: `sa`, `slotAllocated`, `timeLeft` and `state`. -/
def sizeofProcessDescriptor : ℕ := sizeofSaveArea + 4 + 8 + 4

/-- The link-time addresses the routines refer to. The process table does not wrap around the
address space and `currentProcess` lies outside it. -/
structure Layout where
  pd : BitVec 64
  currentProcess : BitVec 64
  systemStack : BitVec 64
  pd_no_wrap : pd.toNat + nproc * sizeofProcessDescriptor ≤ 2 ^ 64
  currentProcess_outside : ∀ x : BitVec 64, (x - currentProcess).toNat < 8 →
    nproc * sizeofProcessDescriptor ≤ (x - pd).toNat

namespace Layout

variable (L : Layout)

/-- The address of `pd[p]`, which is also the address of `pd[p].sa.reg`. -/
def descriptor (p : BitVec 64) : BitVec 64 := L.pd + p * BitVec.ofNat 64 sizeofProcessDescriptor

/-- The 16 bytes below the user's `sp` overlap neither `pd` nor `currentProcess`. -/
def StackApart (sp : BitVec 64) : Prop :=
  ∀ x : BitVec 64, (x - (sp - 16)).toNat < 16 →
    nproc * sizeofProcessDescriptor ≤ (x - L.pd).toNat ∧ 8 ≤ (x - L.currentProcess).toNat

end Layout

/-! ## The code -/

/-- `uservec` up to the jump to `userInterruptHandler`. -/
def uservec (L : Layout) : List Instr :=
  [ -- store a0 in mscratch
    .csrwMscratch .a0,
    .la .a0 L.pd,
    .addi .sp .sp (-16),
    .sd .t0 0 .sp,
    .sd .t1 8 .sp,
    .la .t0 L.currentProcess,
    .ld .t0 0 .t0,
    .li .t1 280,
    .mul .t0 .t0 .t1,
    .add .a0 .a0 .t0,
    .ld .t0 0 .sp,
    .ld .t1 8 .sp,
    .addi .sp .sp 16,
    .sd .ra 0 .a0,
    .sd .sp 8 .a0,
    .sd .gp 16 .a0,
    .sd .tp 24 .a0,
    .sd .t0 32 .a0,
    .sd .t1 40 .a0,
    .sd .t2 48 .a0,
    .sd .s0 56 .a0,
    .sd .s1 64 .a0,
    .sd .a1 80 .a0,
    .sd .a2 88 .a0,
    .sd .a3 96 .a0,
    .sd .a4 104 .a0,
    .sd .a5 112 .a0,
    .sd .a6 120 .a0,
    .sd .a7 128 .a0,
    .sd .s2 136 .a0,
    .sd .s3 144 .a0,
    .sd .s4 152 .a0,
    .sd .s5 160 .a0,
    .sd .s6 168 .a0,
    .sd .s7 176 .a0,
    .sd .s8 184 .a0,
    .sd .s9 192 .a0,
    .sd .s10 200 .a0,
    .sd .s11 208 .a0,
    .sd .t3 216 .a0,
    .sd .t4 224 .a0,
    .sd .t5 232 .a0,
    .sd .t6 240 .a0,
    -- restore a0
    .csrrMscratch .t0,
    .sd .t0 72 .a0,
    -- switch to the system stack
    .la .sp L.systemStack,
    .li .a0 4096,
    .add .sp .sp .a0 ]

/-- `userret` up to the `mret`. -/
def userret (L : Layout) : List Instr :=
  [ .la .a0 L.pd,
    .ld .t0 0 .t0,
    .li .t1 280,
    .mul .t0 .t0 .t1,
    .add .a0 .a0 .t0,
    .ld .ra 0 .a0,
    .ld .sp 8 .a0,
    .ld .gp 16 .a0,
    .ld .tp 24 .a0,
    .ld .t0 32 .a0,
    .ld .t1 40 .a0,
    .ld .t2 48 .a0,
    .ld .s0 56 .a0,
    .ld .s1 64 .a0,
    .ld .a1 80 .a0,
    .ld .a2 88 .a0,
    .ld .a3 96 .a0,
    .ld .a4 104 .a0,
    .ld .a5 112 .a0,
    .ld .a6 120 .a0,
    .ld .a7 128 .a0,
    .ld .s2 136 .a0,
    .ld .s3 144 .a0,
    .ld .s4 152 .a0,
    .ld .s5 160 .a0,
    .ld .s6 168 .a0,
    .ld .s7 176 .a0,
    .ld .s8 184 .a0,
    .ld .s9 192 .a0,
    .ld .s10 200 .a0,
    .ld .s11 208 .a0,
    .ld .t3 216 .a0,
    .ld .t4 224 .a0,
    .ld .t5 232 .a0,
    .ld .t6 240 .a0,
    -- restore user a0
    .ld .a0 72 .a0 ]

/-- The registers that go through `a0` as base register, with their offsets in the save area. -/
def slotsBesideA0 : List (Reg × BitVec 64) :=
  [(.ra, 0), (.sp, 8), (.gp, 16), (.tp, 24), (.t0, 32), (.t1, 40), (.t2, 48), (.s0, 56), (.s1, 64),
    (.a1, 80), (.a2, 88), (.a3, 96), (.a4, 104), (.a5, 112), (.a6, 120), (.a7, 128),
    (.s2, 136), (.s3, 144), (.s4, 152), (.s5, 160), (.s6, 168), (.s7, 176), (.s8, 184), (.s9, 192),
    (.s10, 200), (.s11, 208), (.t3, 216), (.t4, 224), (.t5, 232), (.t6, 240)]

/-- The offsets of all 31 registers in the save area. -/
def slots : List (Reg × BitVec 64) := slotsBesideA0 ++ [(.a0, 72)]

/-- The head of `uservec`: find the save area, using the user's stack for two registers. -/
def uservecEntry (L : Layout) : List Instr := (uservec L).take 13

theorem uservec_eq (L : Layout) :
    uservec L = uservecEntry L ++ (saves .a0 slotsBesideA0 ++
      [.csrrMscratch .t0, .sd .t0 72 .a0, .la .sp L.systemStack, .li .a0 4096, .add .sp .sp .a0]) :=
  rfl

/-- The head of `userret`: find the save area, through whatever `t0` points to. -/
def userretEntry (L : Layout) : List Instr := (userret L).take 5

theorem userret_eq (L : Layout) :
    userret L = userretEntry L ++ (loads .a0 slotsBesideA0 ++ [.ld .a0 72 .a0]) :=
  rfl

/-- Every register but `zero` has a slot. -/
theorem exists_slot (r : Reg) (hr : r ≠ .zero) : ∃ o, (r, o) ∈ slots := by
  cases r
  case zero => exact absurd rfl hr
  all_goals exact ⟨_, by simp [slots, slotsBesideA0]; rfl⟩

/-! ## What the code does -/

section Spec

variable (L : Layout) (s : State)

/-- The memory after the two stores to the user's stack. -/
def stackMem : Mem :=
  (s.mem.store64 (s.get .sp - 16) (s.get .t0)).store64 (s.get .sp - 16 + 8) (s.get .t1)

/-- The address `uservecEntry` leaves in `a0`. -/
def entryBase : BitVec 64 := L.pd + (stackMem s).load64 L.currentProcess * 280

/-- The first word on the user's stack is `t0`. -/
theorem load64_stackMem_t0 : (stackMem s).load64 (s.get .sp - 16) = s.get .t0 := by
  rw [stackMem, load64_store64_of_disjoint _ _ (by constructor <;> bv_omega),
    load64_store64_self]

/-- The head of `uservec` finds the save area and leaves every register but `a0` as it was. -/
theorem execAll_uservecEntry :
    (execAll s (uservecEntry L)).mem = stackMem s ∧
      (execAll s (uservecEntry L)).mscratch = s.get .a0 ∧
      (execAll s (uservecEntry L)).get .a0 = entryBase L s ∧
      ∀ r, r ≠ .a0 → (execAll s (uservecEntry L)).get r = s.get r := by
  have ht0 := load64_stackMem_t0 s
  have ht1 : (stackMem s).load64 (s.get .sp - 16 + 8) = s.get .t1 := load64_store64_self ..
  have hzero (x : BitVec 64) : x + 0 = x := BitVec.add_zero x
  rw [stackMem] at ht0 ht1
  simp only [uservecEntry, uservec, List.take_succ_cons, List.take_zero, execAll_cons, execAll_nil,
    exec, State.get_set_same, State.get_set_of_ne, State.get_setMem, State.get_setMscratch,
    State.mem_set, State.mem_setMem, State.mem_setMscratch, State.mscratch_set,
    State.mscratch_setMem, State.mscratch_setMscratch, ne_eq, reduceCtorEq, not_false_eq_true,
    hzero, ← BitVec.sub_eq_add_neg, stackMem, entryBase, ht0, ht1, BitVec.sub_add_cancel, true_and]
  intro r hr
  -- only `sp`, `t0` and `t1` are written besides `a0`, last with the values they came with
  rcases eq_or_ne r .sp with rfl | hsp
  · exact State.get_set_same _ _ _ (by decide)
  rw [State.get_set_of_ne _ _ _ _ hsp]
  rcases eq_or_ne r .t1 with rfl | ht1
  · exact State.get_set_same _ _ _ (by decide)
  rw [State.get_set_of_ne _ _ _ _ ht1]
  rcases eq_or_ne r .t0 with rfl | ht0
  · exact State.get_set_same _ _ _ (by decide)
  simp only [State.get_set_of_ne _ _ _ _ ht0, State.get_set_of_ne _ _ _ _ ht1,
    State.get_set_of_ne _ _ _ _ hsp, State.get_set_of_ne _ _ _ _ hr, State.get_setMem,
    State.get_setMscratch]

/-- The tail of `uservec` stores the user's `a0` from `mscratch`. -/
theorem mem_uservecTail :
    (execAll s [.csrrMscratch .t0, .sd .t0 72 .a0, .la .sp L.systemStack, .li .a0 4096,
      .add .sp .sp .a0]).mem = s.mem.store64 (s.get .a0 + 72) s.mscratch := by
  simp only [execAll_cons, execAll_nil, exec, State.mem_set, State.mem_setMem,
    State.get_set_same, State.get_set_of_ne, ne_eq, reduceCtorEq, not_false_eq_true]

/-- The words `uservec` writes: two on the user's stack, and every register in its slot. -/
theorem mem_uservec :
    (execAll s (uservec L)).mem =
      (stackMem s).storeWords (entryBase L s) (slots.map fun p => (p.2, s.get p.1)) := by
  obtain ⟨hmem, hscratch, ha0, hget⟩ := execAll_uservecEntry L s
  have hwords : (slotsBesideA0.map fun p => (p.2, (execAll s (uservecEntry L)).get p.1)) =
      slotsBesideA0.map fun p => (p.2, s.get p.1) := by
    refine List.map_congr_left fun p hp => ?_
    rw [hget p.1]
    rintro h
    have : ∀ p ∈ slotsBesideA0, p.1 ≠ .a0 := by decide
    exact this p hp h
  rw [uservec_eq, execAll_append, execAll_append, execAll_saves, ha0, hmem, hwords, slots,
    List.map_append, storeWords_append, mem_uservecTail, State.mem_setMem, State.get_setMem,
    State.mscratch_setMem, hscratch, ha0]
  rfl

/-- Where `uservec` writes these words. -/
theorem storeAddresses_uservec :
    storeAddresses s (uservec L) =
      (s.get .sp - 16) :: (s.get .sp - 16 + 8) :: slots.map fun p => entryBase L s + p.2 := by
  have hzero (x : BitVec 64) : x + 0 = x := BitVec.add_zero x
  -- the entry pushes two registers, the last part saves the trapped `a0`
  have hentry : storeAddresses s (uservecEntry L) = [s.get .sp - 16, s.get .sp - 16 + 8] := by
    simp only [uservecEntry, uservec, List.take_succ_cons, List.take_zero, storeAddresses,
      storeAddress, exec, State.get_set_same, State.get_set_of_ne, State.get_setMem,
      State.get_setMscratch, ne_eq, reduceCtorEq, not_false_eq_true, hzero,
      ← BitVec.sub_eq_add_neg]
    rfl
  have htail (t : State) : storeAddresses t [.csrrMscratch .t0, .sd .t0 72 .a0,
      .la .sp L.systemStack, .li .a0 4096, .add .sp .sp .a0] = [t.get .a0 + 72] := by
    simp only [storeAddresses, storeAddress, exec, State.get_set_of_ne, ne_eq, reduceCtorEq,
      not_false_eq_true]
    rfl
  rw [uservec_eq, storeAddresses_append, storeAddresses_append, hentry, htail,
    storeAddresses_saves, execAll_saves, State.get_setMem, (execAll_uservecEntry L s).2.2.1, slots,
    List.map_append]
  rfl

/-- Apart from the two stack words, `uservec` reads the save area's address from
`currentProcess`. -/
theorem entryBase_of_stackApart (hstack : L.StackApart (s.get .sp)) :
    entryBase L s = L.descriptor (s.mem.load64 L.currentProcess) := by
  have hload : (stackMem s).load64 L.currentProcess = s.mem.load64 L.currentProcess := by
    refine load64_congr fun x hx => ?_
    have hx' : ¬ (x - (s.get .sp - 16)).toNat < 16 := fun h => by
      have := (hstack x h).2
      omega
    rw [stackMem, store64_of_outside _ _ (by bv_omega), store64_of_outside _ _ (by omega)]
  rw [entryBase, hload]
  rfl

/-- The save area `userret` restores from: the table entry numbered by the doubleword that `t0`
points to on entry. -/
def returnBase : BitVec 64 := L.descriptor (s.mem.load64 (s.get .t0))

/-- After `userret` every register holds its word of that save area. -/
theorem get_userret {r : Reg} {o : BitVec 64} (hr : r ≠ .zero) (hslot : (r, o) ∈ slots) :
    (execAll s (userret L)).get r = s.mem.load64 (returnBase L s + o) := by
  have hzero (x : BitVec 64) : x + 0 = x := BitVec.add_zero x
  have hbase : (execAll s (userretEntry L)).get .a0 = returnBase L s := by
    simp only [userretEntry, userret, List.take_succ_cons, List.take_zero, execAll_cons,
      execAll_nil, exec, State.get_set_same, State.get_set_of_ne, State.mem_set, ne_eq,
      reduceCtorEq, not_false_eq_true, hzero]
    rfl
  have hmem : (execAll s (userretEntry L)).mem = s.mem := by
    simp only [userretEntry, userret, List.take_succ_cons, List.take_zero, execAll_cons,
      execAll_nil, exec, State.mem_set]
  have hnot : Reg.a0 ∉ slotsBesideA0.map Prod.fst := by decide
  rw [userret_eq, execAll_append, execAll_append]
  simp only [execAll_cons, execAll_nil, exec]
  rw [slots, List.mem_append, List.mem_singleton, Prod.mk.injEq] at hslot
  -- `a0` is the base register, so it is loaded last
  rcases hslot with hslot | ⟨rfl, rfl⟩
  · have hra0 : r ≠ .a0 := by
      rintro rfl
      exact hnot (List.mem_map_of_mem hslot)
    rw [State.get_set_of_ne _ _ _ _ hra0, get_execAll_loads _ hnot (by decide) hr hslot, hbase,
      hmem]
  · rw [State.get_set_same _ _ _ (by decide), get_execAll_loads_of_not_mem _ hnot,
      mem_execAll_loads, hbase, hmem]

end Spec

/-! ## Sequences of entries -/

/-- What happens to memory: a trap from user mode with `currentProcess = pid` and the register file
`user`, or anything else the kernel does. -/
inductive Event
  | trap (pid : BitVec 64) (user : Reg → BitVec 64)
  | kernel

/-- `x` is an address of `pd[p].sa.reg`. -/
def Layout.InSaveArea (L : Layout) (p x : BitVec 64) : Prop := (x - L.descriptor p).toNat < 8 * nreg

/-- One event as process `p` sees it. A trap runs `uservec`; anything else may change all memory
but `pd[p].sa.reg`. -/
inductive Step (L : Layout) (p : BitVec 64) : Mem → Event → Mem → Prop
  | trap (s : State) (hpid : (s.mem.load64 L.currentProcess).toNat < nproc)
      (hstack : L.StackApart (s.get .sp)) :
      Step L p s.mem (.trap (s.mem.load64 L.currentProcess) s.get) (execAll s (uservec L)).mem
  | kernel (m m' : Mem) (hkeep : ∀ x, L.InSaveArea p x → m' x = m x) :
      Step L p m .kernel m'

/-- The register file of the latest trap of process `p`. -/
def lastTrap (p : BitVec 64) (events : List Event) : Option (Reg → BitVec 64) :=
  events.foldl (fun last e =>
    match e with
    | .trap pid user => if pid = p then some user else last
    | .kernel => last) none

/-- The latest trap of a process. -/
theorem lastTrap_trap (p : BitVec 64) (events : List Event) (pid : BitVec 64)
    (user : Reg → BitVec 64) :
    lastTrap p (events ++ [.trap pid user]) = if pid = p then some user else lastTrap p events := by
  simp [lastTrap]

theorem lastTrap_kernel (p : BitVec 64) (events : List Event) :
    lastTrap p (events ++ [.kernel]) = lastTrap p events := by
  simp [lastTrap]

/-- The save area of `p` holds the register file `user`. -/
def Holds (L : Layout) (p : BitVec 64) (user : Reg → BitVec 64) (m : Mem) : Prop :=
  ∀ r o, (r, o) ∈ slots → m.load64 (L.descriptor p + o) = user r

section Runs

variable {L : Layout} {p : BitVec 64}

/-- The offsets of the slots are those of `reg[0]` to `reg[30]`. -/
theorem slot_lt {r : Reg} {o : BitVec 64} (h : (r, o) ∈ slots) : o.toNat + 8 ≤ 8 * nreg := by
  have hall : ∀ q ∈ slots, q.2.toNat + 8 ≤ 8 * nreg := by decide
  exact hall _ h

/-- An address of the save area of a process is in the process table, at the process's entry. -/
theorem Layout.toNat_sub_pd (hp : p.toNat < nproc) {x : BitVec 64} (hx : L.InSaveArea p x) :
    (x - L.pd).toNat = p.toNat * 280 + (x - L.descriptor p).toNat := by
  have hwrap := L.pd_no_wrap
  simp only [Layout.InSaveArea, Layout.descriptor, sizeofProcessDescriptor, sizeofSaveArea, nproc,
    nreg] at *
  bv_omega

/-- A word of the save area, byte by byte. -/
theorem Layout.inSaveArea_of_slot {r : Reg} {o x : BitVec 64} (hslot : (r, o) ∈ slots)
    (hx : (x - (L.descriptor p + o)).toNat < 8) : L.InSaveArea p x := by
  have hlt := slot_lt hslot
  simp only [Layout.InSaveArea, nreg] at *
  bv_omega

/-- A save area holds its registers while it is not written. -/
theorem Holds.congr {user : Reg → BitVec 64} {m m' : Mem} (h : Holds L p user m)
    (hkeep : ∀ x, L.InSaveArea p x → m' x = m x) : Holds L p user m' := by
  intro r o hslot
  rw [← h r o hslot]
  exact load64_congr fun x hx => hkeep x (Layout.inSaveArea_of_slot hslot hx)

/-- A trap saves the registers of the current process. -/
theorem holds_uservec (s : State) (hstack : L.StackApart (s.get .sp)) :
    Holds L (s.mem.load64 L.currentProcess) s.get (execAll s (uservec L)).mem := by
  intro r o hslot
  rw [mem_uservec, entryBase_of_stackApart L s hstack]
  refine load64_storeWords_of_mem _ _ ?_ ?_
  · have hdisjoint : slots.Pairwise fun q q' => Disjoint64 q.2 q'.2 := by decide
    exact List.pairwise_map.mpr hdisjoint
  · exact List.mem_map.mpr ⟨(r, o), hslot, rfl⟩

/-- A trap leaves the save area of every other process as it was. -/
theorem uservec_keeps (s : State) (hpid : (s.mem.load64 L.currentProcess).toNat < nproc)
    (hstack : L.StackApart (s.get .sp)) (hp : p.toNat < nproc)
    (hne : s.mem.load64 L.currentProcess ≠ p) {x : BitVec 64} (hx : L.InSaveArea p x) :
    (execAll s (uservec L)).mem x = s.mem x := by
  have hxpd := Layout.toNat_sub_pd hp hx
  have hlt : (x - L.descriptor p).toNat < 248 := hx
  rw [mem_uservec, entryBase_of_stackApart L s hstack, storeWords_of_outside]
  · -- the user's stack is outside the table
    have hout : ¬ (x - (s.get .sp - 16)).toNat < 16 := fun h => by
      have := (hstack x h).1
      simp only [sizeofProcessDescriptor, sizeofSaveArea, nproc, nreg] at *
      omega
    rw [stackMem, store64_of_outside _ _ (by bv_omega), store64_of_outside _ _ (by omega)]
  · intro q hq
    obtain ⟨⟨r, o⟩, hslot, rfl⟩ := List.mem_map.mp hq
    by_contra hin
    have hx' : L.InSaveArea (s.mem.load64 L.currentProcess) x :=
      Layout.inSaveArea_of_slot hslot (Nat.lt_of_not_le hin)
    have hxpd' := Layout.toNat_sub_pd hpid hx'
    have hlt' : (x - L.descriptor (s.mem.load64 L.currentProcess)).toNat < 248 := hx'
    exact hne (BitVec.eq_of_toNat_eq (by omega))

/-- `currentProcess` overlaps no save area. -/
theorem Layout.currentProcess_apart (hp : p.toNat < nproc) {x : BitVec 64}
    (hx : L.InSaveArea p x) : 8 ≤ (x - L.currentProcess).toNat := by
  have hxpd := Layout.toNat_sub_pd hp hx
  have hlt : (x - L.descriptor p).toNat < 248 := hx
  by_contra hin
  have hout := L.currentProcess_outside x (Nat.lt_of_not_le hin)
  simp only [sizeofProcessDescriptor, sizeofSaveArea, nproc, nreg] at *
  omega

/-- With the two stack words inside the save area of the current process `uservec` still finds that
save area. -/
theorem entryBase_of_inSaveArea (s : State)
    (hpid : (s.mem.load64 L.currentProcess).toNat < nproc)
    (hstack : ∀ x, (x - (s.get .sp - 16)).toNat < 16 →
      L.InSaveArea (s.mem.load64 L.currentProcess) x) :
    entryBase L s = L.descriptor (s.mem.load64 L.currentProcess) := by
  have hload : (stackMem s).load64 L.currentProcess = s.mem.load64 L.currentProcess := by
    refine load64_congr fun x hx => ?_
    have hout : ¬(x - (s.get .sp - 16)).toNat < 16 := fun hin =>
      absurd (Layout.currentProcess_apart hpid (hstack x hin)) (Nat.not_le.mpr hx)
    rw [stackMem, store64_of_outside _ _ (by bv_omega), store64_of_outside _ _ (by omega)]
  rw [entryBase, hload]
  rfl

/-- `uservec` writes only the save area of the current process exactly when the 16 bytes below the
user's `sp` lie there. -/
theorem uservec_confined_iff (s : State)
    (hpid : (s.mem.load64 L.currentProcess).toNat < nproc) :
    (∀ x, Written s (uservec L) x → L.InSaveArea (s.mem.load64 L.currentProcess) x) ↔
      ∀ x, (x - (s.get .sp - 16)).toNat < 16 →
        L.InSaveArea (s.mem.load64 L.currentProcess) x := by
  constructor
  · intro h x hx
    apply h x
    rw [Written, storeAddresses_uservec]
    -- the lower eight bytes hold `t0`, the upper eight `t1`
    rcases Nat.lt_or_ge (x - (s.get .sp - 16)).toNat 8 with hlow | hhigh
    · exact ⟨_, List.mem_cons_self, hlow⟩
    · exact ⟨_, List.mem_cons_of_mem _ List.mem_cons_self, by bv_omega⟩
  · rintro hstack x ⟨a, ha, hx⟩
    rw [storeAddresses_uservec, List.mem_cons, List.mem_cons] at ha
    rcases ha with rfl | rfl | ha
    · exact hstack x (by omega)
    · exact hstack x (by bv_omega)
    · obtain ⟨⟨r, o⟩, hslot, rfl⟩ := List.mem_map.mp ha
      rw [entryBase_of_inSaveArea s hpid hstack] at hx
      exact Layout.inSaveArea_of_slot hslot hx

/-- One event keeps the save area in step with the latest trap. -/
theorem Step.holds (hp : p.toNat < nproc) {events : List Event} {m m' : Mem} {e : Event}
    (hstep : Step L p m e m')
    (h : ∀ user, lastTrap p events = some user → Holds L p user m) :
    ∀ user, lastTrap p (events ++ [e]) = some user → Holds L p user m' := by
  intro user hlast
  cases hstep with
  | trap s hpid hstack =>
    rw [lastTrap_trap] at hlast
    split_ifs at hlast with heq
    · obtain rfl := Option.some.inj hlast
      exact heq ▸ holds_uservec s hstack
    · exact (h user hlast).congr fun x hx => uservec_keeps s hpid hstack hp heq hx
  | kernel _ _ hkeep =>
    rw [lastTrap_kernel] at hlast
    exact (h user hlast).congr hkeep

/-- After any sequence of events the save area of `p` holds its registers at its latest trap. -/
theorem load64_saveArea_of_trace (hp : p.toNat < nproc) {m₀ m : Mem} {events : List Event}
    (htrace : Trace (Step L p) m₀ events m) {user : Reg → BitVec 64}
    (hlast : lastTrap p events = some user) : Holds L p user m := by
  refine htrace.invariant_of_labels
    (I := fun l t => ∀ user, lastTrap p l = some user → Holds L p user t) ?_ ?_ user hlast
  · intro user hnone
    cases hnone
  · intro l t e u h hstep
    exact hstep.holds hp h

/-- The save area that `userret` selects holds the same 31 words as that of `p`. -/
def SelectsSaveArea (L : Layout) (p : BitVec 64) (s : State) : Prop :=
  ∀ r o, (r, o) ∈ slots →
    s.mem.load64 (L.pd + s.mem.load64 (s.get .t0) * 280 + o) =
      s.mem.load64 (L.descriptor p + o)

/-- `userret` never loads the address of `currentProcess` itself; with that address in `t0` it
selects the save area of the current process. -/
theorem selectsSaveArea_of_t0 (s : State) (ht0 : s.get .t0 = L.currentProcess) :
    SelectsSaveArea L (s.mem.load64 L.currentProcess) s := by
  intro r o _
  rw [ht0]
  rfl

/-- `userret` for process `p` gives back the registers of the latest trap of `p` exactly when `t0`
on entry points to a doubleword that selects the save area of `p`, or one with equal words. -/
theorem userret_restores_iff (hp : p.toNat < nproc) {m₀ : Mem} {events : List Event} (s : State)
    (htrace : Trace (Step L p) m₀ events s.mem) {user : Reg → BitVec 64}
    (hlast : lastTrap p events = some user) (_hcur : s.mem.load64 L.currentProcess = p) :
    (∀ r, r ≠ .zero → (execAll s (userret L)).get r = user r) ↔ SelectsSaveArea L p s := by
  have hsaved := load64_saveArea_of_trace hp htrace hlast
  constructor
  · intro h r o hslot
    have hr : r ≠ .zero := by
      have hall : ∀ q ∈ slots, q.1 ≠ .zero := by decide
      exact hall _ hslot
    rw [hsaved r o hslot, ← h r hr, get_userret L s hr hslot]
    rfl
  · intro h r hr
    obtain ⟨o, hslot⟩ := exists_slot r hr
    rw [get_userret L s hr hslot, ← hsaved r o hslot]
    exact h r o hslot

end Runs

/-! ## One trap and one return -/

/-- A process table, `currentProcess` and a stack at fixed addresses. -/
def sampleLayout : Layout where
  pd := 0x80010000
  currentProcess := 0x80020000
  systemStack := 0x80030000
  pd_no_wrap := by decide
  currentProcess_outside := by
    intro x hx
    simp only [nproc, sizeofProcessDescriptor, sizeofSaveArea, nreg]
    bv_omega

/-- User mode trapping as process 0 with `sp = 0x1000` and 1 in every other register. -/
def sampleTrap : State where
  regs := fun r => if r = .sp then 0x1000 else 1
  mscratch := 0
  mem := fun _ => 0

theorem currentProcess_sampleTrap : sampleTrap.mem.load64 sampleLayout.currentProcess = 0 := by
  decide

/-- That trap writes at 0xff0, far from the process table. -/
theorem uservec_writes_stack :
    ¬ ∀ (L : Layout) (s : State), (s.mem.load64 L.currentProcess).toNat < nproc →
      ∀ x, Written s (uservec L) x → L.InSaveArea (s.mem.load64 L.currentProcess) x := by
  intro h
  have hwritten : Written sampleTrap (uservec sampleLayout) 0xff0 := by
    refine ⟨0xff0, ?_, by decide⟩
    rw [storeAddresses_uservec]
    exact List.mem_cons_self
  have hin := h sampleLayout sampleTrap (by rw [currentProcess_sampleTrap]; decide) _ hwritten
  rw [currentProcess_sampleTrap, Layout.InSaveArea] at hin
  exact absurd hin (by decide)

/-- User mode trapping as process 0 with `sp` inside its own save area. -/
def sampleInside : State := { sampleTrap with regs := fun _ => 0x80010010 }

/-- That trap writes nothing but the save area. -/
theorem uservec_confined_inside :
    sampleInside.mem.load64 sampleLayout.currentProcess = 0 ∧
      ∀ x, Written sampleInside (uservec sampleLayout) x → sampleLayout.InSaveArea 0 x := by
  have hcur : sampleInside.mem.load64 sampleLayout.currentProcess = 0 := currentProcess_sampleTrap
  have hconfined := (uservec_confined_iff (L := sampleLayout) sampleInside
    (by rw [hcur]; decide)).mpr
  rw [hcur] at hconfined
  refine ⟨hcur, hconfined ?_⟩
  intro x hx
  have hsp : sampleInside.get .sp = 0x80010010 := rfl
  rw [hsp] at hx
  simp only [Layout.InSaveArea, Layout.descriptor, sampleLayout, sizeofProcessDescriptor,
    sizeofSaveArea, nreg]
  bv_omega

/-- The memory that the first of these traps leaves. -/
@[irreducible]
def sampleMem : Mem := (execAll sampleTrap (uservec sampleLayout)).mem

/-- The kernel about to execute `userret` after that trap, with the given `t0`. -/
def sampleReturn (t0 : BitVec 64) : State where
  regs := fun r => if r = .t0 then t0 else 0
  mscratch := 0
  mem := sampleMem

theorem trace_sampleMem :
    Trace (Step sampleLayout 0) sampleTrap.mem [.trap 0 sampleTrap.get] sampleMem := by
  have hcur := currentProcess_sampleTrap
  have hstack : sampleLayout.StackApart (sampleTrap.get .sp) := by
    have hsp : sampleTrap.get .sp = 0x1000 := rfl
    intro x hx
    rw [hsp] at hx
    simp only [sampleLayout, nproc, sizeofProcessDescriptor, sizeofSaveArea, nreg]
    constructor <;> bv_omega
  have hstep := Step.trap (L := sampleLayout) (p := 0) sampleTrap (by rw [hcur]; decide) hstack
  rw [hcur] at hstep
  rw [sampleMem]
  exact Trace.snoc Trace.refl hstep

theorem currentProcess_sampleMem : sampleMem.load64 sampleLayout.currentProcess = 0 := by
  decide +kernel

/-- With the address of `currentProcess` in `t0` the process gets its registers back. -/
theorem userret_restores_sample :
    (execAll (sampleReturn sampleLayout.currentProcess) (userret sampleLayout)).get .ra =
        sampleTrap.get .ra ∧
      (execAll (sampleReturn sampleLayout.currentProcess) (userret sampleLayout)).get .t0 =
        sampleTrap.get .t0 := by
  have hlast : lastTrap 0 [.trap 0 sampleTrap.get] = some sampleTrap.get := rfl
  have hselects := selectsSaveArea_of_t0 (L := sampleLayout)
    (sampleReturn sampleLayout.currentProcess) rfl
  rw [show (sampleReturn sampleLayout.currentProcess).mem = sampleMem from rfl,
    currentProcess_sampleMem] at hselects
  have hrestores := (userret_restores_iff (by decide) (sampleReturn sampleLayout.currentProcess)
    trace_sampleMem hlast currentProcess_sampleMem).mpr hselects
  exact ⟨hrestores .ra (by decide), hrestores .t0 (by decide)⟩

/-- With `t0` pointing to a doubleword 1 process 0 resumes with the registers of `pd[1]`. -/
theorem userret_restores_other :
    ¬ ∀ (L : Layout) (p : BitVec 64) (m₀ : Mem) (events : List Event) (s : State)
      (user : Reg → BitVec 64), p.toNat < nproc → Trace (Step L p) m₀ events s.mem →
        lastTrap p events = some user → s.mem.load64 L.currentProcess = p →
          ∀ r, r ≠ .zero → (execAll s (userret L)).get r = user r := by
  intro h
  have hlast : lastTrap 0 [.trap 0 sampleTrap.get] = some sampleTrap.get := rfl
  have hra := h sampleLayout 0 _ _ (sampleReturn 0xff0) sampleTrap.get (by decide)
    trace_sampleMem hlast currentProcess_sampleMem .ra (by decide)
  have hother : (execAll (sampleReturn 0xff0) (userret sampleLayout)).get .ra = 0 := by
    decide +kernel
  rw [hother] at hra
  exact absurd hra (by decide)

end R5O5.Uservec
