import Mathlib.Data.Nat.Notation
import Mathlib.Logic.Function.Basic

/-!
# Byte-addressed memory

A 64-bit address space of bytes, with little-endian loads and stores of 64-bit words at arbitrary,
possibly unaligned addresses. Address arithmetic wraps.

## Main definitions

- `Mem.load64`, `Mem.store64`: the word accesses;
- `Disjoint64`: two word accesses touch no common byte;
- `Mem.scatter`: bytes written at scattered addresses.

## Main results

- `Mem.load64_store64_self`, `Mem.load64_store64_of_disjoint`: what a load sees of a store;
- `Mem.scatter_addr`, `Mem.scatter_of_ne`: the bytes after they are scattered;
- `Mem.store64_of_outside`: a store changes no byte outside its word;
- `Mem.load64_storeWords_of_mem`: a table of words at disjoint offsets reads back.
-/

/-- A memory: the byte at every 64-bit address. -/
def Mem : Type := BitVec 64 → BitVec 8

namespace Mem

/-- Byte `i` of a word, counted from the least significant one. -/
def byteOf (w : BitVec 64) (i : ℕ) : BitVec 8 := w.extractLsb' (8 * i) 8

/-- Write one byte. -/
def write (m : Mem) (a : BitVec 64) (b : BitVec 8) : Mem := Function.update m a b

/-- Load the little-endian word at `a`. -/
def load64 (m : Mem) (a : BitVec 64) : BitVec 64 :=
  m (a + 7) ++ (m (a + 6) ++ (m (a + 5) ++ (m (a + 4) ++
    (m (a + 3) ++ (m (a + 2) ++ (m (a + 1) ++ m (a + 0)))))))

/-- Store a word at `a`, little-endian. -/
def store64 (m : Mem) (a : BitVec 64) (w : BitVec 64) : Mem :=
  fun x => if (x - a).toNat < 8 then byteOf w (x - a).toNat else m x

/-- The words at `a` and `b` have no byte in common. -/
def Disjoint64 (a b : BitVec 64) : Prop := 8 ≤ (b - a).toNat ∧ 8 ≤ (a - b).toNat

instance (a b : BitVec 64) : Decidable (Disjoint64 a b) := inferInstanceAs (Decidable (_ ∧ _))

theorem Disjoint64.symm {a b : BitVec 64} (h : Disjoint64 a b) : Disjoint64 b a := ⟨h.2, h.1⟩

@[ext]
theorem ext {m m' : Mem} (h : ∀ x, m x = m' x) : m = m' := funext h

/-! ## Single bytes -/

@[simp]
theorem write_same (m : Mem) (a : BitVec 64) (b : BitVec 8) : m.write a b a = b :=
  Function.update_self ..

theorem write_of_ne (m : Mem) {a x : BitVec 64} (b : BitVec 8) (h : x ≠ a) :
    m.write a b x = m x :=
  Function.update_of_ne h ..

/-! ## Scattered bytes -/

/-- Write byte `i` at `addr i` for every `i < n`, in order. -/
def scatter (m : Mem) (addr : ℕ → BitVec 64) (bytes : ℕ → BitVec 8) : ℕ → Mem
  | 0 => m
  | n + 1 => (m.scatter addr bytes n).write (addr n) (bytes n)

section Scatter

variable {m : Mem} {addr : ℕ → BitVec 64} {bytes : ℕ → BitVec 8} {n : ℕ}

/-- The bytes at other addresses stay as they are. -/
theorem scatter_of_ne {x : BitVec 64} (h : ∀ i < n, addr i ≠ x) :
    m.scatter addr bytes n x = m x := by
  induction n with
  | zero => rfl
  | succ n ih =>
    rw [scatter, write_of_ne _ _ (h n (Nat.lt_succ_self n)).symm]
    exact ih fun i hi => h i (Nat.lt_succ_of_lt hi)

/-- With distinct addresses every byte is found where it was written. -/
theorem scatter_addr (hinj : ∀ i < n, ∀ j < n, addr i = addr j → i = j) {i : ℕ} (hi : i < n) :
    m.scatter addr bytes n (addr i) = bytes i := by
  induction n with
  | zero => exact absurd hi (Nat.not_lt_zero i)
  | succ n ih =>
    rw [scatter]
    rcases Nat.lt_succ_iff_lt_or_eq.mp hi with hlt | rfl
    · -- the last byte goes elsewhere
      have hne : addr i ≠ addr n := fun heq =>
        Nat.ne_of_lt hlt (hinj i hi n (Nat.lt_succ_self n) heq)
      rw [write_of_ne _ _ hne]
      exact ih (fun j hj k hk => hinj j (Nat.lt_succ_of_lt hj) k (Nat.lt_succ_of_lt hk)) hlt
    · exact write_same _ _ _

end Scatter

/-! ## Words -/

/-- A word is made of its eight bytes. -/
theorem append_byteOf (w : BitVec 64) :
    byteOf w 7 ++ (byteOf w 6 ++ (byteOf w 5 ++ (byteOf w 4 ++
      (byteOf w 3 ++ (byteOf w 2 ++ (byteOf w 1 ++ byteOf w 0)))))) = w := by
  unfold byteOf
  rw [BitVec.extractLsb'_append_extractLsb'_eq_extractLsb' (by rfl),
    BitVec.extractLsb'_append_extractLsb'_eq_extractLsb' (by rfl),
    BitVec.extractLsb'_append_extractLsb'_eq_extractLsb' (by rfl),
    BitVec.extractLsb'_append_extractLsb'_eq_extractLsb' (by rfl),
    BitVec.extractLsb'_append_extractLsb'_eq_extractLsb' (by rfl),
    BitVec.extractLsb'_append_extractLsb'_eq_extractLsb' (by rfl),
    BitVec.extractLsb'_append_extractLsb'_eq_extractLsb' (by rfl)]
  exact BitVec.extractLsb'_eq_self

/-- A load depends only on the eight bytes of its word. -/
theorem load64_congr {m m' : Mem} {a : BitVec 64}
    (h : ∀ x, (x - a).toNat < 8 → m x = m' x) : m.load64 a = m'.load64 a := by
  unfold load64
  rw [h (a + 7) (by bv_omega), h (a + 6) (by bv_omega), h (a + 5) (by bv_omega),
    h (a + 4) (by bv_omega), h (a + 3) (by bv_omega), h (a + 2) (by bv_omega),
    h (a + 1) (by bv_omega), h (a + 0) (by bv_omega)]

/-- A word of zeros is zero. -/
theorem load64_of_zero {m : Mem} {a : BitVec 64} (h : ∀ x, (x - a).toNat < 8 → m x = 0) :
    m.load64 a = 0 := by
  unfold load64
  rw [h (a + 7) (by bv_omega), h (a + 6) (by bv_omega), h (a + 5) (by bv_omega),
    h (a + 4) (by bv_omega), h (a + 3) (by bv_omega), h (a + 2) (by bv_omega),
    h (a + 1) (by bv_omega), h (a + 0) (by bv_omega)]
  decide

/-- A store changes no byte outside its word. -/
theorem store64_of_outside (m : Mem) {a x : BitVec 64} (w : BitVec 64)
    (h : 8 ≤ (x - a).toNat) : m.store64 a w x = m x :=
  if_neg (Nat.not_lt.mpr h)

/-- Byte `i` of a stored word. -/
theorem store64_add (m : Mem) (a : BitVec 64) (w : BitVec 64) (i : BitVec 64) (hi : i.toNat < 8) :
    m.store64 a w (a + i) = byteOf w i.toNat := by
  have hsub : a + i - a = i := by bv_omega
  rw [store64, hsub, if_pos hi]

/-- A stored word is loaded again. -/
@[simp]
theorem load64_store64_self (m : Mem) (a : BitVec 64) (w : BitVec 64) :
    (m.store64 a w).load64 a = w := by
  unfold load64
  rw [store64_add _ _ _ 7 (by decide), store64_add _ _ _ 6 (by decide),
    store64_add _ _ _ 5 (by decide), store64_add _ _ _ 4 (by decide),
    store64_add _ _ _ 3 (by decide), store64_add _ _ _ 2 (by decide),
    store64_add _ _ _ 1 (by decide), store64_add _ _ _ 0 (by decide)]
  exact append_byteOf w

/-- Byte `i` of a loaded word. -/
theorem byteOf_load64 (m : Mem) (a : BitVec 64) {i : ℕ} (hi : i < 8) :
    byteOf (m.load64 a) i = m (a + BitVec.ofNat 64 i) := by
  -- a doubleword is a chain of appended bytes; the lowest is the last
  have hlow : ∀ {k w : ℕ} (hi : BitVec 8) (low : BitVec w), k + 8 ≤ w →
      (hi ++ low).extractLsb' k 8 = low.extractLsb' k 8 := fun _ _ h =>
    BitVec.extractLsb'_append_eq_of_add_le h
  have hhigh : ∀ {w : ℕ} (hi : BitVec 8) (low : BitVec w), (hi ++ low).extractLsb' w 8 = hi :=
    fun _ _ => BitVec.extractLsb'_append_eq_left
  unfold byteOf load64
  obtain rfl | rfl | rfl | rfl | rfl | rfl | rfl | rfl : i = 0 ∨ i = 1 ∨ i = 2 ∨ i = 3 ∨ i = 4 ∨
      i = 5 ∨ i = 6 ∨ i = 7 := by omega
  · iterate 7 rw [hlow _ _ (by decide)]
    exact BitVec.extractLsb'_eq_self
  · iterate 6 rw [hlow _ _ (by decide)]
    exact hhigh ..
  · iterate 5 rw [hlow _ _ (by decide)]
    exact hhigh ..
  · iterate 4 rw [hlow _ _ (by decide)]
    exact hhigh ..
  · iterate 3 rw [hlow _ _ (by decide)]
    exact hhigh ..
  · iterate 2 rw [hlow _ _ (by decide)]
    exact hhigh ..
  · rw [hlow _ _ (by decide)]
    exact hhigh ..
  · exact hhigh ..

/-- Storing the word that is there changes nothing. -/
theorem store64_load64_self (m : Mem) (a : BitVec 64) : m.store64 a (m.load64 a) = m := by
  ext x
  unfold store64
  split
  case isTrue h =>
    rw [byteOf_load64 m a h, BitVec.ofNat_toNat, BitVec.setWidth_eq, BitVec.add_comm,
      BitVec.sub_add_cancel]
  case isFalse => rfl

/-- The later of two stores to one word wins. -/
@[simp]
theorem store64_store64_self (m : Mem) (a v w : BitVec 64) :
    (m.store64 a v).store64 a w = m.store64 a w := by
  ext x
  unfold store64
  split <;> rfl

/-- A word elsewhere is loaded as before. -/
theorem load64_store64_of_disjoint (m : Mem) {a b : BitVec 64} (w : BitVec 64)
    (h : Disjoint64 a b) : (m.store64 a w).load64 b = m.load64 b := by
  obtain ⟨hab, hba⟩ := h
  exact load64_congr fun x hx => store64_of_outside m w (by bv_omega)

/-! ## Tables of words

The words of a record are stored one by one at their offsets from a base address. -/

/-- Store each `(offset, word)` of the list at `base + offset`, in order. -/
def storeWords (m : Mem) (base : BitVec 64) : List (BitVec 64 × BitVec 64) → Mem
  | [] => m
  | (o, w) :: rest => (m.store64 (base + o) w).storeWords base rest

/-- Words are stored one after the other. -/
theorem storeWords_append (m : Mem) (base : BitVec 64) (l l' : List (BitVec 64 × BitVec 64)) :
    m.storeWords base (l ++ l') = (m.storeWords base l).storeWords base l' := by
  induction l generalizing m with
  | nil => rfl
  | cons p l ih => exact ih _

/-- Words are disjoint or not by their offsets. -/
theorem disjoint64_add_left (base a b : BitVec 64) :
    Disjoint64 (base + a) (base + b) ↔ Disjoint64 a b := by
  have hab : base + b - (base + a) = b - a := by bv_omega
  have hba : base + a - (base + b) = a - b := by bv_omega
  rw [Disjoint64, Disjoint64, hab, hba]

/-- A word apart from all stored ones is loaded as before. -/
theorem load64_storeWords_of_disjoint (m : Mem) (base a : BitVec 64)
    (l : List (BitVec 64 × BitVec 64)) (h : ∀ p ∈ l, Disjoint64 (base + p.1) a) :
    (m.storeWords base l).load64 a = m.load64 a := by
  induction l generalizing m with
  | nil => rfl
  | cons p l ih =>
    rw [storeWords, ih _ fun q hq => h q (List.mem_cons_of_mem _ hq),
      load64_store64_of_disjoint _ _ (h p List.mem_cons_self)]

/-- With pairwise disjoint offsets each word of the table reads back. -/
theorem load64_storeWords_of_mem (m : Mem) (base : BitVec 64) {l : List (BitVec 64 × BitVec 64)}
    (hl : l.Pairwise fun p q => Disjoint64 p.1 q.1) {o w : BitVec 64} (h : (o, w) ∈ l) :
    (m.storeWords base l).load64 (base + o) = w := by
  induction l generalizing m with
  | nil => cases h
  | cons p l ih =>
    rw [List.pairwise_cons] at hl
    rcases List.mem_cons.mp h with rfl | h
    · rw [storeWords, load64_storeWords_of_disjoint, load64_store64_self]
      intro q hq
      exact (disjoint64_add_left ..).mpr (hl.1 q hq).symm
    · exact ih _ hl.2 h

/-- A byte outside all words of the table keeps its value. -/
theorem storeWords_of_outside (m : Mem) (base x : BitVec 64) (l : List (BitVec 64 × BitVec 64))
    (h : ∀ p ∈ l, 8 ≤ (x - (base + p.1)).toNat) : m.storeWords base l x = m x := by
  induction l generalizing m with
  | nil => rfl
  | cons p l ih =>
    rw [storeWords, ih _ fun q hq => h q (List.mem_cons_of_mem _ hq),
      store64_of_outside _ _ (h p List.mem_cons_self)]

end Mem
