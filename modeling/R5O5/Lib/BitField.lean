import Mathlib.Data.Nat.Bitwise

/-!
# Bit fields of 64-bit words

Words put together from fields by shifts and `or`, and taken apart by masks and shifts, read as
arithmetic on their values.

## Main results

- `BitField.toNat_and_ushiftRight`: the field under a mask;
- `BitField.toNat_shiftLeft_or`: a field put above another one;
- `BitField.and_twoPow_ne_zero`: the test of one bit;
- `BitField.or_and_self`, `BitField.clear_or_and`: bits that were set and cleared.
-/

namespace BitField

/-- Masking with `w` ones above the lowest `k` bits and shifting by `k` reads a field. -/
theorem toNat_and_ushiftRight {x mask : BitVec 64} {k w : ℕ}
    (hmask : mask.toNat >>> k = 2 ^ w - 1) :
    ((x &&& mask) >>> k).toNat = x.toNat / 2 ^ k % 2 ^ w := by
  rw [BitVec.toNat_ushiftRight, BitVec.toNat_and, Nat.shiftRight_and_distrib, hmask,
    Nat.and_two_pow_sub_one_eq_mod, Nat.shiftRight_eq_div_pow]

/-- Masking the lowest `w` bits takes a remainder. -/
theorem toNat_and {x mask : BitVec 64} {w : ℕ} (hmask : mask.toNat = 2 ^ w - 1) :
    (x &&& mask).toNat = x.toNat % 2 ^ w := by
  rw [BitVec.toNat_and, hmask, Nat.and_two_pow_sub_one_eq_mod]

theorem toNat_shiftLeft {x : BitVec 64} {k : ℕ} (hx : x.toNat * 2 ^ k < 2 ^ 64) :
    (x <<< k).toNat = x.toNat * 2 ^ k := by
  rw [BitVec.toNat_shiftLeft, Nat.shiftLeft_eq, Nat.mod_eq_of_lt hx]

/-- A field shifted over another one, none of whose bits is lost. -/
theorem toNat_shiftLeft_or {x low : BitVec 64} {k : ℕ} (hx : x.toNat * 2 ^ k < 2 ^ 64)
    (hlow : low.toNat < 2 ^ k) : (x <<< k ||| low).toNat = x.toNat * 2 ^ k + low.toNat := by
  rw [BitVec.toNat_or, toNat_shiftLeft hx, ← Nat.shiftLeft_eq, Nat.shiftLeft_add_eq_or_of_lt hlow]

/-- Masking with one bit tests it. -/
theorem and_twoPow_ne_zero (x : BitVec 64) {k : ℕ} (hk : k < 64) :
    decide (x &&& BitVec.twoPow 64 k ≠ 0) = x.getLsbD k := by
  rw [BitVec.and_twoPow]
  cases x.getLsbD k with
  | false => simp
  | true =>
    have hne : BitVec.twoPow 64 k ≠ 0 := fun heq => by
      have hpow := BitVec.toNat_twoPow_of_lt hk
      rw [heq] at hpow
      exact absurd hpow.symm (Nat.two_pow_pos k).ne'
    simpa using hne

/-- Bits that are set show under their own mask. -/
theorem or_and_self (x mask : BitVec 64) : (x ||| mask) &&& mask = mask := by
  ext i hi
  simp only [BitVec.getElem_and, BitVec.getElem_or]
  cases mask[i] <;> simp

/-- Bits that are cleared do not show under their mask, whatever is set beside them. -/
theorem clear_or_and {x mask set : BitVec 64} (h : set &&& mask = 0) :
    (x &&& ~~~mask ||| set) &&& mask = 0 := by
  rw [← h]
  ext i hi
  simp only [BitVec.getElem_and, BitVec.getElem_or, BitVec.getElem_not]
  cases mask[i] <;> simp

end BitField
