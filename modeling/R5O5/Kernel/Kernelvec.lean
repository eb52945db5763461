import R5O5.Kernel.Declarations
import R5O5.Lib.Rv64

/-!
# Traps in kernel mode

The assembly routine of `kernel/kernelvec.S`, transcribed instruction by instruction. A trap in
machine mode enters at `kernelvec`, which saves the 31 integer registers in `ksa`, calls
`kernelInterruptHandler`, restores the registers and executes `mret`. The C code of the handler is
not executed here: it takes the hart from the call to any other state that keeps `ksa`.

## Main definitions

- `kernelvecSave`, `kernelvecRestore`: the instructions before and after the call;
- `InSaveArea`: the addresses of `ksa`.

## Main results

- `kernelvec_transparent`: the interrupted code gets all its registers back.
-/

namespace R5O5.Kernelvec

open Rv64 Mem

/-- The size of the packed `KernelSaveArea`: `reg`, `epc` and `mstatus`. -/
def sizeofKernelSaveArea : ℕ := 8 * nreg + 8 + 8

/-- `x` is an address of `ksa`. -/
def InSaveArea (ksa x : BitVec 64) : Prop := (x - ksa).toNat < sizeofKernelSaveArea

/-! ## The code -/

/-- `kernelvec` up to the call of `kernelInterruptHandler`. -/
def kernelvecSave (ksa : BitVec 64) : List Instr :=
  [ .addi .sp .sp (-8),
    .sd .t0 0 .sp,
    .la .t0 ksa,
    .sd .ra 0 .t0,
    .sd .gp 16 .t0,
    .sd .tp 24 .t0,
    .sd .t1 40 .t0,
    .sd .t2 48 .t0,
    .sd .s0 56 .t0,
    .sd .s1 64 .t0,
    .sd .a0 72 .t0,
    .sd .a1 80 .t0,
    .sd .a2 88 .t0,
    .sd .a3 96 .t0,
    .sd .a4 104 .t0,
    .sd .a5 112 .t0,
    .sd .a6 120 .t0,
    .sd .a7 128 .t0,
    .sd .s2 136 .t0,
    .sd .s3 144 .t0,
    .sd .s4 152 .t0,
    .sd .s5 160 .t0,
    .sd .s6 168 .t0,
    .sd .s7 176 .t0,
    .sd .s8 184 .t0,
    .sd .s9 192 .t0,
    .sd .s10 200 .t0,
    .sd .s11 208 .t0,
    .sd .t3 216 .t0,
    .sd .t4 224 .t0,
    .sd .t5 232 .t0,
    .sd .t6 240 .t0,
    -- get the value of t0
    .ld .t1 0 .sp,
    .addi .sp .sp 8,
    .sd .sp 8 .t0,
    .sd .t1 32 .t0 ]

/-- `kernelvec` after the call, up to the `mret`. -/
def kernelvecRestore (ksa : BitVec 64) : List Instr :=
  [ .la .t0 ksa,
    .ld .ra 0 .t0,
    .ld .sp 8 .t0,
    .ld .gp 16 .t0,
    .ld .tp 24 .t0,
    .ld .t1 40 .t0,
    .ld .t2 48 .t0,
    .ld .s0 56 .t0,
    .ld .s1 64 .t0,
    .ld .a0 72 .t0,
    .ld .a1 80 .t0,
    .ld .a2 88 .t0,
    .ld .a3 96 .t0,
    .ld .a4 104 .t0,
    .ld .a5 112 .t0,
    .ld .a6 120 .t0,
    .ld .a7 128 .t0,
    .ld .s2 136 .t0,
    .ld .s3 144 .t0,
    .ld .s4 152 .t0,
    .ld .s5 160 .t0,
    .ld .s6 168 .t0,
    .ld .s7 176 .t0,
    .ld .s8 184 .t0,
    .ld .s9 192 .t0,
    .ld .s10 200 .t0,
    .ld .s11 208 .t0,
    .ld .t3 216 .t0,
    .ld .t4 224 .t0,
    .ld .t5 232 .t0,
    .ld .t6 240 .t0,
    -- t0 last, through itself
    .ld .t0 32 .t0 ]

/-- `kernelvec` from the trap to the `mret`, with the handler in between. -/
def kernelvec (ksa : BitVec 64) (kernelInterruptHandler : State → State) (s : State) : State :=
  execAll (kernelInterruptHandler (execAll s (kernelvecSave ksa))) (kernelvecRestore ksa)

/-- The registers that both halves move through `t0` as base register, with their offsets. -/
def plainSlots : List (Reg × BitVec 64) :=
  [(.gp, 16), (.tp, 24), (.t1, 40), (.t2, 48), (.s0, 56), (.s1, 64), (.a0, 72), (.a1, 80),
    (.a2, 88), (.a3, 96), (.a4, 104), (.a5, 112), (.a6, 120), (.a7, 128), (.s2, 136), (.s3, 144),
    (.s4, 152), (.s5, 160), (.s6, 168), (.s7, 176), (.s8, 184), (.s9, 192), (.s10, 200),
    (.s11, 208), (.t3, 216), (.t4, 224), (.t5, 232), (.t6, 240)]

/-- The offsets of all 31 registers in `ksa`. The last two are stored from other registers. -/
def slots : List (Reg × BitVec 64) := (.ra, 0) :: plainSlots ++ [(.sp, 8), (.t0, 32)]

/-- The instructions that find `ksa` while `t0` waits on the stack. -/
def saveHead (ksa : BitVec 64) : List Instr := [.addi .sp .sp (-8), .sd .t0 0 .sp, .la .t0 ksa]

/-- The instructions that store `sp` and the `t0` of the interrupted code. -/
def saveTail : List Instr := [.ld .t1 0 .sp, .addi .sp .sp 8, .sd .sp 8 .t0, .sd .t1 32 .t0]

/-- The saving half in three parts. -/
theorem kernelvecSave_eq (ksa : BitVec 64) :
    kernelvecSave ksa = saveHead ksa ++ (saves .t0 ((.ra, 0) :: plainSlots) ++ saveTail) :=
  rfl

/-- The restoring half in three parts. -/
theorem kernelvecRestore_eq (ksa : BitVec 64) :
    kernelvecRestore ksa =
      [.la .t0 ksa] ++ (loads .t0 ((.ra, 0) :: (.sp, 8) :: plainSlots) ++ [.ld .t0 32 .t0]) :=
  rfl

/-- Every register but `zero` has a slot. -/
theorem exists_slot (r : Reg) (hr : r ≠ .zero) : ∃ o, (r, o) ∈ slots := by
  cases r
  case zero => exact absurd rfl hr
  all_goals exact ⟨_, by simp [slots, plainSlots]; rfl⟩

/-- The words of the slots lie in `ksa`. -/
theorem inSaveArea_of_slot {ksa o x : BitVec 64} {r : Reg} (hslot : (r, o) ∈ slots)
    (hx : (x - (ksa + o)).toNat < 8) : InSaveArea ksa x := by
  have hlt : o.toNat + 8 ≤ 8 * nreg := by
    have hall : ∀ q ∈ slots, q.2.toNat + 8 ≤ 8 * nreg := by decide
    exact hall _ hslot
  simp only [InSaveArea, sizeofKernelSaveArea, nreg] at *
  bv_omega

/-! ## What the code does -/

section Spec

variable (ksa : BitVec 64) (s : State)

/-- The state in which the registers are stored: `t0` waits below the interrupted stack. -/
def saveState : State :=
  ((s.set .sp (s.get .sp - 8)).setMem (s.mem.store64 (s.get .sp - 8) (s.get .t0))).set .t0 ksa

/-- The head of the saving half, executed. -/
theorem execAll_saveHead : execAll s (saveHead ksa) = saveState ksa s := by
  have hzero (x : BitVec 64) : x + 0 = x := BitVec.add_zero x
  simp only [saveHead, execAll_cons, execAll_nil, exec, State.get_set_same, State.get_set_of_ne,
    State.mem_set, ne_eq, reduceCtorEq, not_false_eq_true, hzero, ← BitVec.sub_eq_add_neg]
  rfl

theorem get_saveState_of_ne {r : Reg} (hsp : r ≠ .sp) (ht0 : r ≠ .t0) :
    (saveState ksa s).get r = s.get r := by
  rw [saveState, State.get_set_of_ne _ _ _ _ ht0, State.get_setMem,
    State.get_set_of_ne _ _ _ _ hsp]

theorem get_saveState_sp : (saveState ksa s).get .sp = s.get .sp - 8 := by
  rw [saveState, State.get_set_of_ne _ _ _ _ (by decide), State.get_setMem,
    State.get_set_same _ _ _ (by decide)]

theorem get_saveState_t0 : (saveState ksa s).get .t0 = ksa :=
  State.get_set_same _ _ _ (by decide)

/-- The tail stores the words that `sp` points to and, past them, `sp` itself. -/
theorem mem_saveTail : (execAll s saveTail).mem =
    s.mem.storeWords (s.get .t0)
      [(8, s.get .sp + 8), (32, s.mem.load64 (s.get .sp))] := by
  have hzero (x : BitVec 64) : x + 0 = x := BitVec.add_zero x
  simp only [saveTail, execAll_cons, execAll_nil, exec, State.get_set_same, State.get_set_of_ne,
    State.get_setMem, State.mem_set, State.mem_setMem, ne_eq, reduceCtorEq, not_false_eq_true,
    hzero]
  rfl

variable {ksa s}

/-- The words `kernelvec` writes before the call: one below the interrupted stack, and every
register in its slot. -/
theorem mem_kernelvecSave
    (hstack : ∀ x, InSaveArea ksa x → 8 ≤ (x - (s.get .sp - 8)).toNat) :
    (execAll s (kernelvecSave ksa)).mem =
      (s.mem.store64 (s.get .sp - 8) (s.get .t0)).storeWords ksa
        (slots.map fun p => (p.2, s.get p.1)) := by
  let words : List (BitVec 64 × BitVec 64) :=
    ((Reg.ra, 0) :: plainSlots).map fun p => (p.2, s.get p.1)
  have hwords : (((Reg.ra, 0) :: plainSlots).map fun p => (p.2, (saveState ksa s).get p.1)) =
      words := by
    refine List.map_congr_left fun p hp => ?_
    have hne : ∀ p ∈ (Reg.ra, (0 : BitVec 64)) :: plainSlots, p.1 ≠ .sp ∧ p.1 ≠ .t0 := by decide
    rw [get_saveState_of_ne ksa s (hne p hp).1 (hne p hp).2]
  have ht0 : ((s.mem.store64 (s.get .sp - 8) (s.get .t0)).storeWords ksa words).load64
      (s.get .sp - 8) = s.get .t0 := by
    rw [load64_storeWords_of_disjoint, load64_store64_self]
    -- a slot that overlapped the stack word would put one of its bytes into `ksa`
    intro p hp
    obtain ⟨⟨r, o⟩, hq, rfl⟩ := List.mem_map.mp hp
    have hslot : (r, o) ∈ slots := List.mem_append_left _ hq
    have hfirst := hstack (ksa + o) (inSaveArea_of_slot hslot (by bv_omega))
    have hlast := hstack (ksa + o + 7) (inSaveArea_of_slot hslot (by bv_omega))
    constructor <;> bv_omega
  have hsp : s.get .sp - 8 + 8 = s.get .sp := BitVec.sub_add_cancel ..
  rw [kernelvecSave_eq, execAll_append, execAll_saveHead, execAll_append, execAll_saves,
    get_saveState_t0, hwords, mem_saveTail]
  simp only [State.get_setMem, State.mem_setMem, get_saveState_t0, get_saveState_sp]
  rw [show (saveState ksa s).mem = s.mem.store64 (s.get .sp - 8) (s.get .t0) from rfl, ht0, hsp,
    ← storeWords_append, slots, List.map_append]
  rfl

/-- The slots hold the registers of the interrupted code when the handler is called. -/
theorem load64_kernelvecSave
    (hstack : ∀ x, InSaveArea ksa x → 8 ≤ (x - (s.get .sp - 8)).toNat)
    {r : Reg} {o : BitVec 64} (hslot : (r, o) ∈ slots) :
    (execAll s (kernelvecSave ksa)).mem.load64 (ksa + o) = s.get r := by
  have hdisjoint : slots.Pairwise fun q q' => Disjoint64 q.2 q'.2 := by decide
  rw [mem_kernelvecSave hstack]
  apply load64_storeWords_of_mem
  · exact List.pairwise_map.mpr hdisjoint
  · exact List.mem_map.mpr ⟨(r, o), hslot, rfl⟩

/-- What `kernelvec` writes before the call. -/
theorem storeAddresses_kernelvecSave (ksa : BitVec 64) (s : State) :
    storeAddresses s (kernelvecSave ksa) =
      (s.get .sp - 8) :: slots.map fun p => ksa + p.2 := by
  have hzero (x : BitVec 64) : x + 0 = x := BitVec.add_zero x
  have hhead : storeAddresses s (saveHead ksa) = [s.get .sp - 8] := by
    simp only [saveHead, storeAddresses, storeAddress, exec, State.get_set_same, ne_eq,
      reduceCtorEq, not_false_eq_true, hzero, ← BitVec.sub_eq_add_neg]
    rfl
  have htail (t : State) : storeAddresses t saveTail = [t.get .t0 + 8, t.get .t0 + 32] := by
    simp only [saveTail, storeAddresses, storeAddress, exec, State.get_set_of_ne,
      State.get_setMem, ne_eq, reduceCtorEq, not_false_eq_true]
    rfl
  rw [kernelvecSave_eq, storeAddresses_append, storeAddresses_append, hhead, htail,
    storeAddresses_saves, execAll_saveHead, execAll_saves, State.get_setMem, get_saveState_t0,
    slots, List.map_append]
  rfl

/-- After `kernelvec` restores the registers, each holds its word of `ksa`. -/
theorem get_kernelvecRestore (ksa : BitVec 64) (s : State) {r : Reg} {o : BitVec 64}
    (hr : r ≠ .zero) (hslot : (r, o) ∈ slots) :
    (execAll s (kernelvecRestore ksa)).get r = s.mem.load64 (ksa + o) := by
  let base : State := s.set .t0 ksa
  have hbase : base.get .t0 = ksa := State.get_set_same _ _ _ (by decide)
  have hnot : Reg.t0 ∉ ((Reg.ra, (0 : BitVec 64)) :: (.sp, 8) :: plainSlots).map Prod.fst := by
    decide
  -- `t0` is the base register, so it is loaded last
  have hperm : (r, o) ∈ (Reg.ra, (0 : BitVec 64)) :: (.sp, 8) :: plainSlots ∨
      (r, o) = (Reg.t0, 32) := by
    have hall : ∀ q ∈ slots, q ∈ (Reg.ra, (0 : BitVec 64)) :: (.sp, 8) :: plainSlots ∨
        q = (Reg.t0, 32) := by decide
    exact hall _ hslot
  rw [kernelvecRestore_eq, execAll_append, execAll_append]
  change (execAll (execAll base (loads .t0 _)) [.ld .t0 32 .t0]).get r = _
  simp only [execAll_cons, execAll_nil, exec]
  rcases hperm with hplain | heq
  · have hrt0 : r ≠ .t0 := by
      rintro rfl
      exact hnot (List.mem_map_of_mem hplain)
    rw [State.get_set_of_ne _ _ _ _ hrt0, get_execAll_loads _ hnot (by decide) hr hplain, hbase]
    rfl
  · obtain ⟨rfl, rfl⟩ := Prod.mk.inj heq
    rw [State.get_set_same _ _ _ (by decide), get_execAll_loads_of_not_mem _ hnot,
      mem_execAll_loads, hbase]
    rfl

/-- Restoring the registers writes no memory. -/
theorem storeAddresses_kernelvecRestore (ksa : BitVec 64) (s : State) :
    storeAddresses s (kernelvecRestore ksa) = [] := by
  rw [kernelvecRestore_eq, storeAddresses_append, storeAddresses_append, storeAddresses_loads]
  rfl

/-- A trap in kernel mode gives the interrupted code all its registers back, whatever the handler
does outside `ksa`, and writes only `ksa` and the doubleword below the interrupted stack. -/
theorem kernelvec_transparent (kernelInterruptHandler : State → State)
    (hstack : ∀ x, InSaveArea ksa x → 8 ≤ (x - (s.get .sp - 8)).toNat)
    (hhandler : ∀ t x, InSaveArea ksa x → (kernelInterruptHandler t).mem x = t.mem x) :
    (∀ r, r ≠ .zero → (kernelvec ksa kernelInterruptHandler s).get r = s.get r) ∧
      (∀ x, Written s (kernelvecSave ksa) x →
        InSaveArea ksa x ∨ (x - (s.get .sp - 8)).toNat < 8) ∧
      ∀ t x, ¬Written t (kernelvecRestore ksa) x := by
  refine ⟨fun r hr => ?_, ?_, ?_⟩
  · obtain ⟨o, hslot⟩ := exists_slot r hr
    -- a register is loaded from the slot it was saved to
    rw [kernelvec, get_kernelvecRestore _ _ hr hslot, ← load64_kernelvecSave hstack hslot]
    exact load64_congr fun x hx => hhandler _ x (inSaveArea_of_slot hslot hx)
  · rintro x ⟨a, ha, hx⟩
    -- one store goes below the stack pointer, the others to the slots
    rw [storeAddresses_kernelvecSave] at ha
    rcases List.mem_cons.mp ha with rfl | ha
    · exact Or.inr hx
    · obtain ⟨⟨r, o⟩, hslot, rfl⟩ := List.mem_map.mp ha
      exact Or.inl (inSaveArea_of_slot hslot hx)
  · rintro t x ⟨a, ha, -⟩
    rw [storeAddresses_kernelvecRestore] at ha
    cases ha

end Spec

/-- A trap with `sp = 0x1000` and 1 in every other register. -/
def sampleTrap : State where
  regs := fun r => if r = .sp then 0x1000 else 1
  mscratch := 0
  mem := fun _ => 0

/-- A handler that clears all registers. -/
def sampleHandler (s : State) : State := { s with regs := fun _ => 0 }

/-- The interrupted code gets its stack pointer back. -/
theorem kernelvec_transparent_sample :
    (kernelvec 0x80010000 sampleHandler sampleTrap).get .sp = 0x1000 := by
  have hstack (x : BitVec 64) (hx : InSaveArea 0x80010000 x) :
      8 ≤ (x - (sampleTrap.get .sp - 8)).toNat := by
    have hsp : sampleTrap.get .sp = 0x1000 := rfl
    rw [hsp]
    simp only [InSaveArea, sizeofKernelSaveArea, nreg] at hx
    bv_omega
  exact (kernelvec_transparent sampleHandler hstack fun _ _ _ => rfl).1 .sp (by decide)

end R5O5.Kernelvec
