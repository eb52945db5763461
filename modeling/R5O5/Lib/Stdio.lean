import Mathlib.Data.Int.Notation
import Mathlib.Data.List.Basic
import Mathlib.Logic.Function.Basic

/-!
# Byte streams

The part of a C library `FILE *` that a program sees when it only reads and writes single bytes and
moves the file position: the bytes of the file, its size and the position. The gap that a seek past
the end leaves holds zeros.

## Main results

- `Stream.bytes_fwriteAll_add`, `Stream.bytes_fwriteAll_of_outside`: what the file holds after a
  list of bytes was written at the position;
- `Stream.pos_fwriteAll`: where the position is then;
- `Stream.contents_fwriteAll`: writing at the end of a file appends to it.
-/

namespace Stdio

/-- An open file: its bytes, its size and the file position. -/
structure Stream where
  /-- The byte at each offset. -/
  bytes : ℕ → BitVec 8
  /-- One more than the last offset ever written. -/
  size : ℕ
  /-- Where the next byte is written. -/
  pos : ℕ

namespace Stream

/-- `fopen(name, "w")`: an empty file. -/
def create : Stream := { bytes := fun _ => 0, size := 0, pos := 0 }

/-- `fwrite(&c, sizeof(char), 1, f)`: write one byte and advance. -/
def fwrite (f : Stream) (c : BitVec 8) : Stream :=
  { bytes := Function.update f.bytes f.pos c
    size := max f.size (f.pos + 1)
    pos := f.pos + 1 }

/-- `fread(&c, sizeof(char), 1, f)`: the byte at the position, unless the file ends there. -/
def fread (f : Stream) : Option (BitVec 8 × Stream) :=
  if f.pos < f.size then some (f.bytes f.pos, { f with pos := f.pos + 1 }) else none

/-- `fopen(name, "rb")` of the file that was written. -/
def reopen (f : Stream) : Stream := { f with pos := 0 }

/-- The bytes of the file. -/
def contents (f : Stream) : List (BitVec 8) := (List.range f.size).map f.bytes

/-- `fseek(f, offset, SEEK_SET)`, which fails on a negative offset. -/
def fseek (f : Stream) (offset : ℤ) : Option Stream :=
  if 0 ≤ offset then some { f with pos := offset.toNat } else none

/-- Write the bytes of a list one after the other. -/
def fwriteAll (f : Stream) (cs : List (BitVec 8)) : Stream := cs.foldl fwrite f

@[simp]
theorem fwriteAll_nil (f : Stream) : f.fwriteAll [] = f := rfl

@[simp]
theorem fwriteAll_cons (f : Stream) (c : BitVec 8) (cs : List (BitVec 8)) :
    f.fwriteAll (c :: cs) = (f.fwrite c).fwriteAll cs := rfl

@[simp]
theorem pos_fwrite (f : Stream) (c : BitVec 8) : (f.fwrite c).pos = f.pos + 1 := rfl

/-- Writing moves the position by the number of bytes. -/
theorem pos_fwriteAll (f : Stream) (cs : List (BitVec 8)) :
    (f.fwriteAll cs).pos = f.pos + cs.length := by
  induction cs generalizing f with
  | nil => simp
  | cons c cs ih =>
    rw [fwriteAll_cons, ih, pos_fwrite, List.length_cons]
    omega

/-- Bytes are written one after the other. -/
theorem fwriteAll_append (f : Stream) (cs cs' : List (BitVec 8)) :
    f.fwriteAll (cs ++ cs') = (f.fwriteAll cs).fwriteAll cs' := List.foldl_append

/-- Writing the same bytes over and over. -/
theorem foldl_fwriteAll (f : Stream) (c : BitVec 8) (m n : ℕ) :
    (List.range m).foldl (fun f _ => f.fwriteAll (List.replicate n c)) f =
      f.fwriteAll (List.replicate (m * n) c) := by
  induction m with
  | zero => simp
  | succ m ih =>
    rw [List.range_succ, List.foldl_append, ih, Nat.succ_mul, List.replicate_add, fwriteAll_append]
    rfl

/-- The byte at the position is written. -/
theorem bytes_fwrite (f : Stream) (c : BitVec 8) (i : ℕ) :
    (f.fwrite c).bytes i = if i = f.pos then c else f.bytes i := by
  simp [fwrite, Function.update_apply]

/-- A byte before the position or past the written range keeps its value. -/
theorem bytes_fwriteAll_of_outside (f : Stream) (cs : List (BitVec 8)) (i : ℕ)
    (hi : i < f.pos ∨ f.pos + cs.length ≤ i) :
    (f.fwriteAll cs).bytes i = f.bytes i := by
  induction cs generalizing f with
  | nil => rfl
  | cons c cs ih =>
    rw [List.length_cons] at hi
    rw [fwriteAll_cons, ih _ (by rw [pos_fwrite]; omega), bytes_fwrite, if_neg (by omega)]

/-- The `t`-th byte written lands `t` bytes past the position. -/
theorem bytes_fwriteAll_add (f : Stream) (cs : List (BitVec 8)) (t : ℕ) (ht : t < cs.length) :
    (f.fwriteAll cs).bytes (f.pos + t) = cs[t] := by
  induction cs generalizing f t with
  | nil => simp at ht
  | cons c cs ih =>
    rw [fwriteAll_cons]
    cases t with
    | zero =>
      rw [bytes_fwriteAll_of_outside _ _ _ (by rw [pos_fwrite]; omega), bytes_fwrite]
      simp
    | succ t =>
      have hpos : f.pos + (t + 1) = (f.fwrite c).pos + t := by rw [pos_fwrite]; omega
      rw [hpos, ih _ _ (by simpa using ht), List.getElem_cons_succ]

/-- The file grows when it is written at its end. -/
theorem size_fwrite (f : Stream) (c : BitVec 8) : (f.fwrite c).size = max f.size (f.pos + 1) := rfl

/-- Writing at the end of the file grows it. -/
theorem size_fwriteAll (f : Stream) (cs : List (BitVec 8)) (h : f.pos = f.size) :
    (f.fwriteAll cs).size = f.size + cs.length := by
  induction cs generalizing f with
  | nil => rfl
  | cons c cs ih =>
    have hsize : (f.fwrite c).size = f.size + 1 := by
      rw [size_fwrite, h]
      omega
    rw [fwriteAll_cons, ih _ (by rw [pos_fwrite, hsize, h]), hsize, List.length_cons]
    omega

/-- What is written at the end of a file is appended. -/
theorem contents_fwriteAll (f : Stream) (cs : List (BitVec 8)) (h : f.pos = f.size) :
    (f.fwriteAll cs).contents = f.contents ++ cs := by
  refine List.ext_getElem ?_ fun i hi hi' => ?_
  · simp [contents, size_fwriteAll f cs h]
  · rw [contents, List.length_map, List.length_range, size_fwriteAll f cs h] at hi
    simp only [contents, List.getElem_map, List.getElem_range]
    by_cases hold : i < f.size
    · rw [bytes_fwriteAll_of_outside _ _ _ (by omega),
        List.getElem_append_left (by simpa using hold)]
      simp
    · obtain ⟨t, rfl⟩ := Nat.exists_eq_add_of_le (Nat.le_of_not_lt hold)
      have hbyte := bytes_fwriteAll_add f cs t (by omega)
      rw [h] at hbyte
      rw [hbyte, List.getElem_append_right (by simp)]
      simp

end Stream

end Stdio
