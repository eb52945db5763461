import Mathlib.Tactic.SplitIfs
import R5O5.Lib.Memory

/-!
# Straight-line RV64 code

The few integer instructions that register save and restore sequences are made of, over a register
file, the `mscratch` register and a byte-addressed memory. There are no branches: a routine is the
list of its instructions up to the jump or `mret` that leaves it.

## Main results

- `execAll_saves`: a run of `sd`s through one base register stores a table of words;
- `get_execAll_loads`, `get_execAll_loads_of_not_mem`: a run of `ld`s through one base register
  reads a table of words;
- `execAll_of_not_written`: memory changes only where a sequence writes.
-/

namespace Rv64

/-- The integer registers, by their ABI names. -/
inductive Reg
  | zero | ra | sp | gp | tp | t0 | t1 | t2 | s0 | s1
  | a0 | a1 | a2 | a3 | a4 | a5 | a6 | a7
  | s2 | s3 | s4 | s5 | s6 | s7 | s8 | s9 | s10 | s11
  | t3 | t4 | t5 | t6
  deriving DecidableEq, Repr

/-- The instructions, with `la` and `li` as the assembler's pseudo-instructions. -/
inductive Instr
  | addi (rd rs : Reg) (imm : BitVec 64)
  | add (rd rs₁ rs₂ : Reg)
  | mul (rd rs₁ rs₂ : Reg)
  | li (rd : Reg) (imm : BitVec 64)
  | la (rd : Reg) (symbol : BitVec 64)
  | ld (rd : Reg) (offset : BitVec 64) (base : Reg)
  | sd (rs : Reg) (offset : BitVec 64) (base : Reg)
  | csrwMscratch (rs : Reg)
  | csrrMscratch (rd : Reg)

/-- The part of the hart the instructions work on. -/
structure State where
  regs : Reg → BitVec 64
  mscratch : BitVec 64
  mem : Mem

namespace State

/-- Read a register; `zero` reads as zero. -/
def get (s : State) (r : Reg) : BitVec 64 := if r = .zero then 0 else s.regs r

/-- Write a register; writes to `zero` are lost. -/
def set (s : State) (rd : Reg) (v : BitVec 64) : State :=
  { s with regs := Function.update s.regs rd v }

/-- Replace the memory. -/
def setMem (s : State) (m : Mem) : State := { s with mem := m }

/-- Write `mscratch`. -/
def setMscratch (s : State) (v : BitVec 64) : State := { s with mscratch := v }

/-- What is read from a register after a write. -/
theorem get_set (s : State) (rd r : Reg) (v : BitVec 64) :
    (s.set rd v).get r = if r = .zero then 0 else if r = rd then v else s.get r := by
  unfold get set
  split_ifs <;> simp_all

@[simp]
theorem get_set_same (s : State) (rd : Reg) (v : BitVec 64) (h : rd ≠ .zero) :
    (s.set rd v).get rd = v := by
  rw [get_set, if_neg h, if_pos rfl]

@[simp]
theorem get_set_of_ne (s : State) (rd r : Reg) (v : BitVec 64) (h : r ≠ rd) :
    (s.set rd v).get r = s.get r := by
  rw [get_set, if_neg h]
  unfold get
  split_ifs <;> rfl

@[simp]
theorem get_setMem (s : State) (m : Mem) (r : Reg) : (s.setMem m).get r = s.get r := rfl

@[simp]
theorem get_setMscratch (s : State) (v : BitVec 64) (r : Reg) :
    (s.setMscratch v).get r = s.get r := rfl

@[simp]
theorem mem_set (s : State) (rd : Reg) (v : BitVec 64) : (s.set rd v).mem = s.mem := rfl

@[simp]
theorem mem_setMem (s : State) (m : Mem) : (s.setMem m).mem = m := rfl

@[simp]
theorem mem_setMscratch (s : State) (v : BitVec 64) : (s.setMscratch v).mem = s.mem := rfl

@[simp]
theorem mscratch_set (s : State) (rd : Reg) (v : BitVec 64) :
    (s.set rd v).mscratch = s.mscratch := rfl

@[simp]
theorem mscratch_setMem (s : State) (m : Mem) : (s.setMem m).mscratch = s.mscratch := rfl

@[simp]
theorem mscratch_setMscratch (s : State) (v : BitVec 64) : (s.setMscratch v).mscratch = v := rfl

end State

/-- One instruction. -/
def exec (s : State) : Instr → State
  | .addi rd rs imm => s.set rd (s.get rs + imm)
  | .add rd rs₁ rs₂ => s.set rd (s.get rs₁ + s.get rs₂)
  | .mul rd rs₁ rs₂ => s.set rd (s.get rs₁ * s.get rs₂)
  | .li rd imm => s.set rd imm
  | .la rd symbol => s.set rd symbol
  | .ld rd offset base => s.set rd (s.mem.load64 (s.get base + offset))
  | .sd rs offset base => s.setMem (s.mem.store64 (s.get base + offset) (s.get rs))
  | .csrwMscratch rs => s.setMscratch (s.get rs)
  | .csrrMscratch rd => s.set rd s.mscratch

/-- A sequence of instructions. -/
def execAll (s : State) (code : List Instr) : State := code.foldl exec s

@[simp]
theorem execAll_nil (s : State) : execAll s [] = s := rfl

@[simp]
theorem execAll_cons (s : State) (i : Instr) (code : List Instr) :
    execAll s (i :: code) = execAll (exec s i) code := rfl

/-- Code is executed in two parts. -/
theorem execAll_append (s : State) (code code' : List Instr) :
    execAll s (code ++ code') = execAll (execAll s code) code' := by
  simp [execAll]

/-! ## Save and restore sequences -/

/-- `sd r, offset(base)` for each `(r, offset)` of the list. -/
def saves (base : Reg) (l : List (Reg × BitVec 64)) : List Instr :=
  l.map fun p => .sd p.1 p.2 base

/-- `ld r, offset(base)` for each `(r, offset)` of the list. -/
def loads (base : Reg) (l : List (Reg × BitVec 64)) : List Instr :=
  l.map fun p => .ld p.1 p.2 base

/-- A run of `sd`s stores the registers as a table of words. -/
theorem execAll_saves (s : State) (base : Reg) (l : List (Reg × BitVec 64)) :
    execAll s (saves base l) =
      s.setMem (s.mem.storeWords (s.get base) (l.map fun p => (p.2, s.get p.1))) := by
  induction l generalizing s with
  | nil => rfl
  | cons p l ih =>
    change execAll (exec s (.sd p.1 p.2 base)) (saves base l) = _
    rw [ih]
    rfl

section Loads

variable (s : State) {base : Reg} {l : List (Reg × BitVec 64)}

/-- A run of `ld`s does not write. -/
@[simp]
theorem mem_execAll_loads : (execAll s (loads base l)).mem = s.mem := by
  induction l generalizing s with
  | nil => rfl
  | cons p l ih => exact ih _

/-- A register that is not loaded keeps its value. -/
theorem get_execAll_loads_of_not_mem {r : Reg} (hr : r ∉ l.map Prod.fst) :
    (execAll s (loads base l)).get r = s.get r := by
  induction l generalizing s with
  | nil => rfl
  | cons p l ih =>
    rw [List.map_cons, List.mem_cons, not_or] at hr
    change (execAll (exec s (.ld p.1 p.2 base)) (loads base l)).get r = _
    rw [ih _ hr.2, exec, State.get_set_of_ne _ _ _ _ hr.1]

/-- A loaded register holds its word of the table. -/
theorem get_execAll_loads (hbase : base ∉ l.map Prod.fst) (hl : (l.map Prod.fst).Nodup)
    {r : Reg} {o : BitVec 64} (hr : r ≠ .zero) (hmem : (r, o) ∈ l) :
    (execAll s (loads base l)).get r = s.mem.load64 (s.get base + o) := by
  induction l generalizing s with
  | nil => cases hmem
  | cons p l ih =>
    rw [List.map_cons, List.mem_cons, not_or] at hbase
    rw [List.map_cons, List.nodup_cons] at hl
    change (execAll (exec s (.ld p.1 p.2 base)) (loads base l)).get r = _
    rcases List.mem_cons.mp hmem with rfl | hmem
    · rw [get_execAll_loads_of_not_mem _ hl.1, exec, State.get_set_same _ _ _ hr]
    · have hget : (exec s (.ld p.1 p.2 base)).get base = s.get base :=
        State.get_set_of_ne _ _ _ _ hbase.1
      rw [ih _ hbase.2 hl.2 hmem, hget]
      rfl

end Loads

/-! ## What a sequence writes -/

/-- The address of the doubleword that an instruction stores, if it is a store. -/
def storeAddress (s : State) : Instr → Option (BitVec 64)
  | .sd _ offset base => some (s.get base + offset)
  | _ => none

/-- The addresses of the doublewords that a sequence stores, in order. -/
def storeAddresses : State → List Instr → List (BitVec 64)
  | _, [] => []
  | s, i :: code => (storeAddress s i).toList ++ storeAddresses (exec s i) code

/-- A sequence writes the byte at this address. -/
def Written (s : State) (code : List Instr) (x : BitVec 64) : Prop :=
  ∃ a ∈ storeAddresses s code, (x - a).toNat < 8

/-- Where code in two parts writes. -/
theorem storeAddresses_append (s : State) (code code' : List Instr) :
    storeAddresses s (code ++ code') =
      storeAddresses s code ++ storeAddresses (execAll s code) code' := by
  induction code generalizing s with
  | nil => rfl
  | cons i code ih =>
    rw [List.cons_append, storeAddresses, storeAddresses, ih, List.append_assoc, execAll_cons]

/-- Where a run of `sd`s writes. -/
theorem storeAddresses_saves (s : State) (base : Reg) (l : List (Reg × BitVec 64)) :
    storeAddresses s (saves base l) = l.map fun p => s.get base + p.2 := by
  induction l generalizing s with
  | nil => rfl
  | cons p l ih =>
    change (s.get base + p.2) :: storeAddresses (exec s (.sd p.1 p.2 base)) (saves base l) = _
    rw [ih]
    rfl

/-- A run of `ld`s writes nowhere. -/
theorem storeAddresses_loads (s : State) (base : Reg) (l : List (Reg × BitVec 64)) :
    storeAddresses s (loads base l) = [] := by
  induction l generalizing s with
  | nil => rfl
  | cons p l ih => exact ih _

/-- One instruction changes only the doubleword it stores. -/
theorem mem_exec_of_outside (s : State) (i : Instr) {x : BitVec 64}
    (h : ∀ a ∈ storeAddress s i, 8 ≤ (x - a).toNat) : (exec s i).mem x = s.mem x := by
  cases i
  case sd rs offset base => exact Mem.store64_of_outside _ _ (h _ rfl)
  all_goals rfl

/-- Memory changes only where the sequence writes. -/
theorem execAll_of_not_written (s : State) (code : List Instr) {x : BitVec 64}
    (h : ¬Written s code x) : (execAll s code).mem x = s.mem x := by
  induction code generalizing s with
  | nil => rfl
  | cons i code ih =>
    have hmem {a : BitVec 64} (ha : a ∈ storeAddresses s (i :: code)) : 8 ≤ (x - a).toNat :=
      Nat.le_of_not_lt fun hlt => h ⟨a, ha, hlt⟩
    rw [storeAddresses] at hmem
    rw [execAll_cons, ih]
    · exact mem_exec_of_outside s i fun a ha =>
        hmem (List.mem_append_left _ (Option.mem_toList.mpr ha))
    · rintro ⟨a, ha, hlt⟩
      exact absurd (hmem (List.mem_append_right _ ha)) (Nat.not_le.mpr hlt)

end Rv64
