import Mathlib.Algebra.Group.Nat.Defs
import R5O5.Lib.Memory

/-!
# Sv39 address translation

The page table walk of a RISC-V processor with three levels of 512 entries, for accesses in user
mode. A valid entry with any of the permissions is a leaf; above the last level it maps a superpage,
whose low page number bits have to be zero. The accessed and dirty bits are left to the hardware.

## Main results

- `Sv39.walk_of_invalid`, `Sv39.walk_of_leaf_without_user`: entries at which the walk faults.
-/

namespace Sv39

/-- The kinds of memory access. -/
inductive Access
  | load
  | store
  | fetch
  deriving DecidableEq, Repr

/-- The bits of an entry: valid, the permissions, and access from user mode. -/
def bitV : BitVec 64 := 0b00001

def bitR : BitVec 64 := 0b00010

def bitW : BitVec 64 := 0b00100

def bitX : BitVec 64 := 0b01000

def bitU : BitVec 64 := 0b10000

/-- The permission an access needs. -/
def Access.bit : Access → BitVec 64
  | load => bitR
  | store => bitW
  | fetch => bitX

/-- A valid entry with any of the permissions is a leaf. -/
def isLeaf (pte : BitVec 64) : Bool := pte &&& (bitR ||| bitW ||| bitX) ≠ 0

/-- The physical page number of an entry. -/
def ppn (pte : BitVec 64) : BitVec 64 := (pte >>> 10) &&& 0xfffffffffff

/-- The index of an address into the table of a level. -/
def vpn (va : BitVec 64) (level : ℕ) : BitVec 64 := (va >>> (12 + 9 * level)) &&& 0x1ff

/-- The walk from the table of a level down. -/
def walk (mem : Mem) (access : Access) (va : BitVec 64) : ℕ → BitVec 64 → Option (BitVec 64)
  | level, table =>
    let pte := mem.load64 (table + vpn va level * 8)
    if pte &&& bitV = 0 then none
    else if isLeaf pte then
      -- a misaligned superpage
      if (ppn pte).toNat % 2 ^ (9 * level) ≠ 0 then none
      else if pte &&& bitU = 0 ∨ pte &&& access.bit = 0 then none
      else some (ppn pte <<< 12 ||| (va &&& BitVec.ofNat 64 (2 ^ (12 + 9 * level) - 1)))
    else
      match level with
      | 0 => none
      | level + 1 => walk mem access va level (ppn pte <<< 12)

/-- The translation of an address by the table in page `root`, if it does not fault. The bits above
the address have to repeat its highest bit. -/
def translate (mem : Mem) (root : BitVec 64) (access : Access) (va : BitVec 64) :
    Option (BitVec 64) :=
  if (va.extractLsb' 0 39).signExtend 64 = va then walk mem access va 2 (root <<< 12) else none

/-- The translation of an address under a value of `satp`, whose highest four bits are the mode:
none, or Sv39 with a root table. There are no other modes. -/
def translateUnder (mem : Mem) (satp : BitVec 64) (access : Access) (va : BitVec 64) :
    Option (BitVec 64) :=
  if satp >>> 60 = 0 then some va
  else if satp >>> 60 = 8 then translate mem (satp &&& 0xfffffffffff) access va
  else none

section Faults

variable {mem : Mem} {access : Access} {va table : BitVec 64} {level : ℕ}

/-- An entry that is not valid ends the walk with a fault. -/
theorem walk_of_invalid (h : mem.load64 (table + vpn va level * 8) &&& bitV = 0) :
    walk mem access va level table = none := by
  rw [walk.eq_def]
  exact if_pos h

/-- A page that user mode may not access ends the walk with a fault. -/
theorem walk_of_leaf_without_user (hleaf : isLeaf (mem.load64 (table + vpn va level * 8)) = true)
    (huser : mem.load64 (table + vpn va level * 8) &&& bitU = 0) :
    walk mem access va level table = none := by
  rw [walk.eq_def]
  simp only [hleaf, huser, if_true, true_or]
  split
  · rfl
  · split <;> rfl

end Faults

end Sv39
