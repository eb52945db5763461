import Mathlib.Data.List.FinRange
import R5O5.Kernel.Paging
import R5O5.Lib.Forest

/-!
# Page tables as a forest

A frame of physical memory, read as a page directory, points to the frames in its valid entries; the
page tables of the kernel are trees of depth three over the managed frames.

## Main definitions

- `slotAddr`, `entry`, `child`: the entries of a frame;
- `vpnPath`: the three slots a virtual page number stands for.

## Main results

- `isVirtualPageAllocated_iff`, `virtualToPhysical_eq`: the walks of the source are walks in the
  forest;
- `vpnPath_eq_iff`: virtual page numbers with the same slots.
-/

namespace R5O5

/-- The address of slot `i` of frame `f`. -/
def slotAddr (f : BitVec 64) (i : Fin numPte) : BitVec 64 :=
  pteAddr (f <<< 12) (BitVec.ofNat 64 i)

/-- The page table entry in slot `i` of frame `f`. -/
def entry (mem : Mem) (f : BitVec 64) (i : Fin numPte) : BitVec 64 := mem.load64 (slotAddr f i)

/-- The frame that slot `i` of frame `f` points to. -/
def child (mem : Mem) (f : BitVec 64) (i : Fin numPte) : Option (BitVec 64) :=
  if isValid mem (slotAddr f i) then some (getPageNum (entry mem f i)) else none

/-! ## Entries in memory -/

section Memory

variable {mem mem' : Mem} {f g w : BitVec 64} {i j : Fin numPte}

/-- A frame at any page-aligned address. -/
theorem toNat_slotAddr_of_lt (hf : f.toNat < 2 ^ 52) :
    (slotAddr f i).toNat = f.toNat * 2 ^ 12 + i * 8 := by
  have hi := i.isLt
  simp only [numPte] at hi
  rw [slotAddr, pteAddr, BitVec.toNat_add, BitField.toNat_shiftLeft (by omega), BitVec.toNat_mul,
    BitVec.toNat_ofNat, show (8 : BitVec 64).toNat = 8 from rfl]
  omega

/-- The address of a slot does not wrap. -/
theorem toNat_slotAddr (hf : f.toNat < 2 ^ 44) :
    (slotAddr f i).toNat = f.toNat * 2 ^ 12 + i * 8 :=
  toNat_slotAddr_of_lt (by omega)

theorem toNat_page {x : BitVec 64} : (x >>> 12).toNat = x.toNat / 2 ^ 12 := by
  rw [BitVec.toNat_ushiftRight, Nat.shiftRight_eq_div_pow]

/-- The page at the start of a frame is that frame. -/
theorem page_shiftLeft (hf : f.toNat < 2 ^ 44) : (f <<< 12) >>> 12 = f := by
  apply BitVec.eq_of_toNat_eq
  rw [toNat_page, BitField.toNat_shiftLeft (by omega)]
  omega

/-- The bytes of an entry lie in its frame. -/
theorem page_of_slot_of_lt {x : BitVec 64} (hf : f.toNat < 2 ^ 52)
    (hx : (x - slotAddr f i).toNat < 8) : x >>> 12 = f := by
  have hslot := toNat_slotAddr_of_lt (i := i) hf
  have hi := i.isLt
  simp only [numPte] at hi
  apply BitVec.eq_of_toNat_eq
  rw [toNat_page]
  rw [BitVec.toNat_sub] at hx
  omega

/-- The bytes of a slot lie in its frame. -/
theorem page_of_slot {x : BitVec 64} (hf : f.toNat < 2 ^ 44) (hx : (x - slotAddr f i).toNat < 8) :
    x >>> 12 = f :=
  page_of_slot_of_lt (by omega) hx

theorem disjoint_slotAddr (hf : f.toNat < 2 ^ 44) (hg : g.toNat < 2 ^ 44)
    (hne : (f, i) ≠ (g, j)) : Mem.Disjoint64 (slotAddr f i) (slotAddr g j) := by
  have hi := i.isLt
  have hj := j.isLt
  simp only [numPte] at hi hj
  have hslot : f.toNat ≠ g.toNat ∨ i.val ≠ j.val := by
    by_contra heq
    push Not at heq
    exact hne (Prod.ext (BitVec.eq_of_toNat_eq heq.1) (Fin.ext heq.2))
  rw [Mem.Disjoint64, BitVec.toNat_sub, BitVec.toNat_sub, toNat_slotAddr hf, toNat_slotAddr hg]
  omega

/-- The entries of a frame depend on its bytes only. -/
theorem entry_congr (hf : f.toNat < 2 ^ 44) (h : ∀ x : BitVec 64, x >>> 12 = f → mem' x = mem x) :
    entry mem' f i = entry mem f i :=
  Mem.load64_congr fun x hx => h x (page_of_slot hf hx)

/-- A slot is valid when it has a child. -/
theorem isValid_eq : isValid mem (slotAddr f i) = (child mem f i).isSome := by
  rw [child]
  cases isValid mem (slotAddr f i) <;> rfl

/-- The child depends on the entry only. -/
theorem child_eq_of_entry_eq (h : entry mem' g j = entry mem f i) :
    child mem' g j = child mem f i := by
  rw [child, child, isValid, isValid, ← entry, ← entry, h]

/-- The children depend on the bytes of the frame only. -/
theorem child_congr (hf : f.toNat < 2 ^ 44) (h : ∀ x : BitVec 64, x >>> 12 = f → mem' x = mem x) :
    child mem' f i = child mem f i :=
  child_eq_of_entry_eq (entry_congr hf h)

@[simp]
theorem entry_store64_self : entry (mem.store64 (slotAddr f i) w) f i = w :=
  Mem.load64_store64_self ..

theorem entry_store64_of_ne (hf : f.toNat < 2 ^ 44) (hg : g.toNat < 2 ^ 44)
    (hne : (g, j) ≠ (f, i)) : entry (mem.store64 (slotAddr f i) w) g j = entry mem g j :=
  Mem.load64_store64_of_disjoint _ _ (disjoint_slotAddr hf hg hne.symm)

/-- A store to an entry changes nothing outside its frame. -/
theorem store64_slotAddr_of_page_ne {x : BitVec 64} (hf : f.toNat < 2 ^ 44) (hx : x >>> 12 ≠ f) :
    mem.store64 (slotAddr f i) w x = mem x := by
  refine Mem.store64_of_outside _ _ ?_
  by_contra hlt
  exact hx (page_of_slot hf (Nat.lt_of_not_le hlt))

/-- An entry that is zero is not valid. -/
theorem child_of_entry_zero (h : entry mem f i = 0) : child mem f i = none := by
  rw [child, isValid, ← entry, h]
  rfl

/-- The child is the page number of the entry. -/
theorem getPageNum_of_child (h : child mem f i = some g) :
    getPageNum (mem.load64 (slotAddr f i)) = g := by
  rw [child, ite_eq_iff] at h
  rcases h with ⟨-, h⟩ | ⟨-, h⟩
  · exact Option.some.inj h
  · cases h

/-- An entry put together from a page number and flags with `PTE_V`. -/
theorem child_of_entry (hg : g.toNat < 2 ^ 44) {flags : BitVec 64} (hflags : flags.toNat < 2 ^ 10)
    (hv : flags &&& pteV ≠ 0) (h : entry mem f i = g <<< 10 ||| flags) :
    child mem f i = some g := by
  rw [child, isValid, ← entry, h, getFlags_entry hg hflags, getPageNum_entry hg hflags,
    decide_eq_true hv, if_pos rfl]

end Memory

/-! ## Virtual page numbers -/

section Paths

variable {virtualAddress vpn vpn' pagetable : BitVec 64} {mem : Mem} {t f : BitVec 64}

/-- The slot in the root directory. -/
def slotL2 (virtualAddress : BitVec 64) : Fin numPte :=
  ⟨(getL2 virtualAddress).toNat, by rw [toNat_getL2]; exact Nat.mod_lt _ (by decide)⟩

/-- The slot in the intermediate directory. -/
def slotL1 (virtualAddress : BitVec 64) : Fin numPte :=
  ⟨(getL1 virtualAddress).toNat, by rw [toNat_getL1]; exact Nat.mod_lt _ (by decide)⟩

/-- The slot in the final directory. -/
def slotL0 (virtualAddress : BitVec 64) : Fin numPte :=
  ⟨(getL0 virtualAddress).toNat, by rw [toNat_getL0]; exact Nat.mod_lt _ (by decide)⟩

/-- The slots on the way to a virtual address, from the root down. -/
def path (virtualAddress : BitVec 64) : List (Fin numPte) :=
  [slotL2 virtualAddress, slotL1 virtualAddress, slotL0 virtualAddress]

/-- The slots on the way to a virtual page. -/
def vpnPath (virtualPageNum : BitVec 64) : List (Fin numPte) := path (virtualPageNum <<< 12)

@[simp]
theorem length_vpnPath : (vpnPath vpn).length = 3 := rfl

/-- The entry in the root for an address. -/
theorem pteAddr_getL2 : pteAddr (f <<< 12) (getL2 virtualAddress) =
    slotAddr f (slotL2 virtualAddress) := by
  rw [slotAddr, slotL2, BitVec.ofNat_toNat, BitVec.setWidth_eq]

/-- The entry in the middle directory for an address. -/
theorem pteAddr_getL1 : pteAddr (f <<< 12) (getL1 virtualAddress) =
    slotAddr f (slotL1 virtualAddress) := by
  rw [slotAddr, slotL1, BitVec.ofNat_toNat, BitVec.setWidth_eq]

/-- The entry in the last directory for an address. -/
theorem pteAddr_getL0 : pteAddr (f <<< 12) (getL0 virtualAddress) =
    slotAddr f (slotL0 virtualAddress) := by
  rw [slotAddr, slotL0, BitVec.ofNat_toNat, BitVec.setWidth_eq]

/-- Paths of page numbers agree when the numbers agree in the 27 bits the page table uses. -/
theorem vpnPath_eq_iff : vpnPath vpn = vpnPath vpn' ↔ vpn.toNat % 2 ^ 27 = vpn'.toNat % 2 ^ 27 := by
  simp only [vpnPath, path, slotL2, slotL1, slotL0, List.cons.injEq, and_true, Fin.mk.injEq,
    toNat_getL2, toNat_getL1, toNat_getL0, BitVec.toNat_shiftLeft, Nat.shiftLeft_eq]
  omega

/-- The way to the page of an address. -/
theorem vpnPath_getVirtPage : vpnPath (getVirtPage virtualAddress) = path virtualAddress := by
  simp only [vpnPath, path, slotL2, slotL1, slotL0, List.cons.injEq, and_true, Fin.mk.injEq,
    toNat_getL2, toNat_getL1, toNat_getL0, BitVec.toNat_shiftLeft, Nat.shiftLeft_eq,
    toNat_getVirtPage]
  omega

/-- The software walk is a walk in the forest. -/
theorem isVirtualPageAllocated_eq :
    isVirtualPageAllocated mem (t <<< 12) vpn =
      (Forest.walk (child mem) t (vpnPath vpn)).isSome := by
  simp only [isVirtualPageAllocated, pteAddr_getL2, pteAddr_getL1, pteAddr_getL0, vpnPath, path,
    Forest.walk, child, entry]
  cases isValid mem (slotAddr t (slotL2 (vpn <<< 12))) with
  | false => rfl
  | true =>
    simp only [Bool.not_true, Bool.false_eq_true, if_false, if_true, Option.bind_some]
    generalize getPageNum (mem.load64 (slotAddr t (slotL2 (vpn <<< 12)))) = level1
    cases isValid mem (slotAddr level1 (slotL1 (vpn <<< 12))) with
    | false => rfl
    | true =>
      simp only [Bool.not_true, Bool.false_eq_true, if_false, if_true, Option.bind_some]
      generalize getPageNum (mem.load64 (slotAddr level1 (slotL1 (vpn <<< 12)))) = level0
      cases isValid mem (slotAddr level0 (slotL0 (vpn <<< 12))) <;> rfl

/-- A page is allocated when the walk to it ends. -/
theorem isVirtualPageAllocated_iff :
    isVirtualPageAllocated mem (t <<< 12) vpn = true ↔
      ∃ f, Forest.walk (child mem) t (vpnPath vpn) = some f := by
  rw [isVirtualPageAllocated_eq, Option.isSome_iff_exists]

/-- The physical address is the offset within the frame at the end of the walk. -/
theorem virtualToPhysical_eq_ok (hwalk : Forest.walk (child mem) t (path virtualAddress) = some f) :
    virtualToPhysical mem (t <<< 12) virtualAddress =
      .ok (f <<< 12 ||| getOffset virtualAddress) := by
  have halloc : isVirtualPageAllocated mem (t <<< 12) (getVirtPage virtualAddress) = true := by
    rw [isVirtualPageAllocated_iff, vpnPath_getVirtPage]
    exact ⟨f, hwalk⟩
  simp only [path, Forest.walk, Option.bind_eq_some_iff] at hwalk
  obtain ⟨level1, hlevel1, level0, hlevel0, leaf, hleaf, hf⟩ := hwalk
  obtain rfl : leaf = f := Option.some.inj hf
  simp only [virtualToPhysical, halloc, Bool.not_true, Bool.false_eq_true, if_false, pteAddr_getL2,
    pteAddr_getL1, pteAddr_getL0, getPageNum_of_child hlevel1, getPageNum_of_child hlevel0,
    getPageNum_of_child hleaf]

/-- The address of a page that is not allocated is refused. -/
theorem virtualToPhysical_of_not_allocated
    (h : isVirtualPageAllocated mem pagetable (getVirtPage virtualAddress) = false) :
    virtualToPhysical mem pagetable virtualAddress =
      .error (.error "virtualToPhysical: virtual address not valid") := by
  rw [virtualToPhysical, h]
  rfl

/-- A translated address lies in the frame of its page, at the offset of the virtual address. -/
theorem toNat_translated (hf : f.toNat < 2 ^ 44) :
    (f <<< 12 ||| getOffset virtualAddress).toNat =
      f.toNat * 2 ^ 12 + virtualAddress.toNat % 2 ^ 12 := by
  rw [BitField.toNat_shiftLeft_or (by omega), toNat_getOffset]
  rw [toNat_getOffset]
  omega

/-- A translated address lies in the frame of its page. -/
theorem page_translated (hf : f.toNat < 2 ^ 44) :
    (f <<< 12 ||| getOffset virtualAddress) >>> 12 = f := by
  apply BitVec.eq_of_toNat_eq
  rw [toNat_page, toNat_translated hf]
  omega

end Paths

end R5O5
