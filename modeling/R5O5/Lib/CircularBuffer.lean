import Mathlib.Algebra.GroupWithZero.Nat
import Mathlib.Data.List.Basic
import Mathlib.Logic.Function.Basic

/-!
# Circular buffers

A ring of `n` slots addressed by free-running machine words: an index is never reduced, only the
slot it selects is, and it may wrap around at `2 ^ w`. As `n` divides `2 ^ w`, consecutive indices
select consecutive slots even there.

## Main definitions

- `slot`: the slot of an index;
- `region`: the elements from an index on.

## Main results

- `region_add`: a region splits anywhere;
- `region_update`: writing behind a region, less than a round away, leaves it as it is.
-/

namespace CircularBuffer

variable {α : Type*} {w n : ℕ} [NeZero n]

/-- The slot that an index selects. -/
def slot (i : BitVec w) : Fin n := Fin.ofNat n i.toNat

/-- The `len` elements from the index `start` on. -/
def region (buf : Fin n → α) (start : BitVec w) (len : ℕ) : List α :=
  (List.range len).map fun i => buf (slot (start + BitVec.ofNat w i))

@[simp]
theorem length_region (buf : Fin n → α) (start : BitVec w) (len : ℕ) :
    (region buf start len).length = len := by
  rw [region, List.length_map, List.length_range]

/-- A region in two parts. -/
theorem region_add (buf : Fin n → α) (start : BitVec w) (l m : ℕ) :
    region buf start (l + m) =
      region buf start l ++ region buf (start + BitVec.ofNat w l) m := by
  simp only [region, List.range_add, List.map_append, List.map_map, Function.comp_def,
    BitVec.ofNat_add, BitVec.add_assoc]

/-- The last element of a region. -/
theorem region_succ (buf : Fin n → α) (start : BitVec w) (len : ℕ) :
    region buf start (len + 1) =
      region buf start len ++ [buf (slot (start + BitVec.ofNat w len))] := by
  simp only [region, List.range_succ, List.map_append, List.map_cons, List.map_nil]

/-- A region without its last element. -/
@[simp]
theorem dropLast_region_succ (buf : Fin n → α) (start : BitVec w) (len : ℕ) :
    (region buf start (len + 1)).dropLast = region buf start len := by
  rw [region_succ, List.dropLast_concat]

/-- The elements of a region. -/
theorem mem_region {buf : Fin n → α} {start : BitVec w} {len : ℕ} {x : α} :
    x ∈ region buf start len ↔
      ∃ i < len, buf (slot (start + BitVec.ofNat w i)) = x := by
  simp only [region, List.mem_map, List.mem_range]

/-! ## Slots -/

/-- Slots follow one another, modulo the size. -/
theorem val_slot_add (hn : n ∣ 2 ^ w) (start : BitVec w) (i : ℕ) :
    (slot (start + BitVec.ofNat w i) : Fin n).val = (start.toNat + i) % n := by
  change (start + BitVec.ofNat w i).toNat % n = _
  rw [BitVec.toNat_add, BitVec.toNat_ofNat, Nat.add_mod_mod, Nat.mod_mod_of_dvd _ hn]

/-- Different places of one round have different slots. -/
theorem slot_add_ne (hn : n ∣ 2 ^ w) (start : BitVec w) {i j : ℕ} (hij : i < j)
    (hround : j < i + n) :
    (slot (start + BitVec.ofNat w i) : Fin n) ≠ slot (start + BitVec.ofNat w j) := by
  intro heq
  have hval := congrArg Fin.val heq
  rw [val_slot_add hn, val_slot_add hn] at hval
  -- equal remainders make `n` divide the distance, which is positive and below `n`
  have hdvd : n ∣ (start.toNat + j) - (start.toNat + i) :=
    Nat.dvd_of_mod_eq_zero (Nat.sub_mod_eq_zero_of_mod_eq hval.symm)
  have hle := Nat.le_of_dvd (by omega) hdvd
  omega

/-- Writing behind a region does not change it. -/
theorem region_update (hn : n ∣ 2 ^ w) (buf : Fin n → α) (start : BitVec w) {len k : ℕ}
    (hlen : len ≤ k) (hk : k < n) (x : α) :
    region (Function.update buf (slot (start + BitVec.ofNat w k)) x) start len =
      region buf start len := by
  refine List.map_congr_left fun i hi => Function.update_of_ne ?_ ..
  have hilen := List.mem_range.mp hi
  exact slot_add_ne hn start (by omega) (by omega)

/-- Writing just behind a region makes it longer. -/
theorem region_update_succ (hn : n ∣ 2 ^ w) (buf : Fin n → α) (start : BitVec w) {len : ℕ}
    (hlen : len < n) (x : α) :
    region (Function.update buf (slot (start + BitVec.ofNat w len)) x) start (len + 1) =
      region buf start len ++ [x] := by
  rw [region_succ, region_update hn buf start (Nat.le_refl len) hlen, Function.update_self]

end CircularBuffer
