import Mathlib.Data.BitVec
import R5O5.Kernel.Paging.Allocate
import R5O5.Lib.AddressSpace

/-!
# Page tables as address spaces

While no page is deallocated and the free frames hold zeros, every page table is an address space of
`2 ^ 39` bytes of its own: the operations of `kernel/paging.c` and stores through a page table
change the address space of this table as they should and no other one.

## Main definitions

- `readVirtual`: the byte at a virtual address;
- `Refines`: the page tables carry these address spaces.

## Main results

- `Refines.allocatePageTable`, `Refines.allocateVirtualPage`, `Refines.store`: one operation.
-/

namespace R5O5

/-- The byte that is read through a page table. -/
def readVirtual (mem : Mem) (pagetable virtualAddress : BitVec 64) : Option (BitVec 8) :=
  match virtualToPhysical mem pagetable virtualAddress with
  | .ok physicalAddress => some (mem physicalAddress)
  | .error _ => none

/-- What is read at an address that is translated. -/
theorem readVirtual_of_ok {mem : Mem} {pagetable virtualAddress physicalAddress : BitVec 64}
    (h : virtualToPhysical mem pagetable virtualAddress = .ok physicalAddress) :
    readVirtual mem pagetable virtualAddress = some (mem physicalAddress) := by
  rw [readVirtual, h]

/-- The address space of a page table. -/
abbrev Space : Type := AddressSpace pgsize (BitVec 8)

/-- The part of a virtual address that is translated. -/
def spaceAddr (virtualAddress : BitVec 64) : ℕ := virtualAddress.toNat % 2 ^ 39

/-- The page tables with these roots carry these address spaces. -/
structure Refines (K : KernelImage) (spaces : BitVec 64 → Option Space) (s : Paging) : Prop where
  inv : ∃ own leaked, s.Inv K {t | (spaces t).isSome} own leaked
  /-- Free frames hold zeros. -/
  zero_of_free : ∀ x : BitVec 64, x >>> 12 ∈ s.alloc.freeList → s.mem x = 0
  read : ∀ {t A}, spaces t = some A → ∀ virtualAddress,
    readVirtual s.mem (t <<< 12) virtualAddress = A.read (spaceAddr virtualAddress)

section Translation

variable {K : KernelImage} {live live' : Set (BitVec 64)} {own own' : Places} {leaked leaked' : ℕ}
  {s s' : Paging} {t virtualAddress physicalAddress : BitVec 64}

/-- The page of an address of the address space. -/
theorem spaceAddr_div : spaceAddr virtualAddress / pgsize = (getVirtPage virtualAddress).toNat := by
  rw [toNat_getVirtPage, spaceAddr]
  simp only [pgsize]
  omega

theorem readVirtual_of_own (h : s.Inv K live own leaked) (ht : t ∈ live) {f : BitVec 64}
    (hf : own f = some (t, path virtualAddress)) :
    readVirtual s.mem (t <<< 12) virtualAddress =
      some (s.mem (f <<< 12 ||| getOffset virtualAddress)) := by
  have hwalk := (h.owned.walk_eq_some_iff ht (by simp [path])).mpr hf
  rw [readVirtual, virtualToPhysical_eq_ok hwalk]

theorem readVirtual_of_not_own (h : s.Inv K live own leaked) (ht : t ∈ live)
    (hnone : ∀ f, own f ≠ some (t, path virtualAddress)) :
    readVirtual s.mem (t <<< 12) virtualAddress = none := by
  have hwalk : Forest.walk (child s.mem) t (path virtualAddress) = none :=
    Option.eq_none_iff_forall_ne_some.mpr fun f hf =>
      hnone f ((h.owned.walk_eq_some_iff ht (by simp [path])).mp hf)
  rw [readVirtual, virtualToPhysical_of_not_allocated]
  rw [isVirtualPageAllocated_eq, vpnPath_getVirtPage, hwalk]
  rfl

/-- An address is translated when its page has a frame. -/
theorem virtualToPhysical_eq_ok_iff (h : s.Inv K live own leaked) (ht : t ∈ live) :
    virtualToPhysical s.mem (t <<< 12) virtualAddress = .ok physicalAddress ↔
      ∃ f, own f = some (t, path virtualAddress) ∧
        physicalAddress = f <<< 12 ||| getOffset virtualAddress := by
  by_cases hsome : ∃ f, own f = some (t, path virtualAddress)
  · obtain ⟨f, hf⟩ := hsome
    have hwalk := (h.owned.walk_eq_some_iff ht (by simp [path])).mpr hf
    rw [virtualToPhysical_eq_ok hwalk]
    constructor
    · intro heq
      cases heq
      exact ⟨f, hf, rfl⟩
    · rintro ⟨f', hf', rfl⟩
      rw [h.owned.own_injective hf hf']
  · have hread := readVirtual_of_not_own h ht fun f hf => hsome ⟨f, hf⟩
    constructor
    · intro heq
      rw [readVirtual, heq] at hread
      cases hread
    · rintro ⟨f, hf, -⟩
      exact absurd ⟨f, hf⟩ hsome

/-- A table reads the same when its leaves and their bytes are the same. -/
theorem readVirtual_congr (h : s.Inv K live own leaked) (h' : s'.Inv K live' own' leaked')
    (ht : t ∈ live) (ht' : t ∈ live') (hown : ∀ f, own' f = some (t, path virtualAddress) ↔
      own f = some (t, path virtualAddress))
    (hmem : ∀ f, own f = some (t, path virtualAddress) →
      s'.mem (f <<< 12 ||| getOffset virtualAddress) =
        s.mem (f <<< 12 ||| getOffset virtualAddress)) :
    readVirtual s'.mem (t <<< 12) virtualAddress = readVirtual s.mem (t <<< 12) virtualAddress := by
  by_cases hsome : ∃ f, own f = some (t, path virtualAddress)
  · obtain ⟨f, hf⟩ := hsome
    rw [readVirtual_of_own h ht hf, readVirtual_of_own h' ht' ((hown f).mpr hf), hmem f hf]
  · have hnone : ∀ f, own f ≠ some (t, path virtualAddress) := fun f hf => hsome ⟨f, hf⟩
    rw [readVirtual_of_not_own h ht hnone,
      readVirtual_of_not_own h' ht' fun f hf => hnone f ((hown f).mp hf)]

/-- Addresses and page numbers take the same way to a page. -/
theorem path_eq_vpnPath_iff {vpn : BitVec 64} :
    path virtualAddress = vpnPath vpn ↔ spaceAddr virtualAddress / pgsize = vpn.toNat % 2 ^ 27 := by
  rw [← vpnPath_getVirtPage, vpnPath_eq_iff, spaceAddr_div, toNat_getVirtPage, Nat.mod_mod]

/-- Two addresses are one in the address space when their pages and offsets are. -/
theorem spaceAddr_eq_iff {virtualAddress' : BitVec 64} :
    spaceAddr virtualAddress = spaceAddr virtualAddress' ↔
      path virtualAddress = path virtualAddress' ∧
        getOffset virtualAddress = getOffset virtualAddress' := by
  rw [← vpnPath_getVirtPage, ← vpnPath_getVirtPage, vpnPath_eq_iff, toNat_getVirtPage,
    toNat_getVirtPage, ← BitVec.toNat_inj, toNat_getOffset, toNat_getOffset, spaceAddr, spaceAddr]
  omega

end Translation

namespace Refines

variable {K : KernelImage} {spaces : BitVec 64 → Option Space} {s s' : Paging} {A : Space}
  {t pt vpn virtualAddress physicalAddress : BitVec 64} {perm : Permissions}

theorem setOf_isSome_update (spaces : BitVec 64 → Option Space) (t : BitVec 64) (A : Space) :
    {t' | (Function.update spaces t (some A) t').isSome} = insert t {t' | (spaces t').isSome} := by
  ext t'
  rcases eq_or_ne t' t with rfl | hne
  · simp
  · simp [hne]

/-- An address space that changes is still there. -/
theorem setOf_isSome_update_of_some (ht : spaces t = some A) (A' : Space) :
    {t' | (Function.update spaces t (some A') t').isSome} = {t' | (spaces t').isSome} := by
  rw [setOf_isSome_update, Set.insert_eq_of_mem]
  rw [Set.mem_ofPred_eq, ht]
  rfl

theorem mem_live (ht : spaces t = some A) : t ∈ {t' | (spaces t').isSome} := by
  rw [Set.mem_ofPred_eq, ht]
  rfl

/-- Before any page is allocated. -/
theorem pageAllocInit {mem : Mem} (hzero : ∀ x : BitVec 64, x >>> 12 ∈ managed K → mem x = 0) :
    Refines K (fun _ => none) { alloc := R5O5.pageAllocInit K, mem } where
  inv := by
    have hlive : {t : BitVec 64 | ((fun _ => none : BitVec 64 → Option Space) t).isSome} = ∅ := by
      simp
    rw [hlive]
    exact ⟨_, _, Paging.Inv.pageAllocInit⟩
  zero_of_free x hx := hzero x (mem_freeList_pageAllocInit.mp hx)
  read h := by cases h

/-- A frame of zeros has no entries. -/
theorem emptyDirectory_of_free (h : Refines K spaces s) {f : BitVec 64} (hf : f ∈ s.alloc.freeList)
    (hlt : f.toNat < 2 ^ 44) : EmptyDirectory s.mem f := by
  intro i
  refine child_of_entry_zero (Mem.load64_of_zero fun x hx => h.zero_of_free x ?_)
  rwa [page_of_slot hlt hx]

/-- A new table is an empty address space. -/
theorem allocatePageTable (h : Refines K spaces s)
    (hok : R5O5.allocatePageTable s = .ok (pt, s')) :
    ∃ t : BitVec 64, pt = t <<< 12 ∧ spaces t = none ∧
      Refines K (Function.update spaces t (some .empty)) s' := by
  obtain ⟨own, leaked, hinv⟩ := h.inv
  obtain ⟨g, rfl, hfree, hinv', hmem⟩ := hinv.allocatePageTable hok
  have hown : own g = none := hinv.ledger.own_of_free (by simp [hfree])
  -- a free frame is the root of no table
  have hnone : spaces g = none := by
    refine Option.eq_none_iff_forall_ne_some.mpr fun A hA => ?_
    have hroot := hinv.owned.own_root (mem_live hA)
    rw [hown] at hroot
    cases hroot
  refine ⟨g, rfl, hnone, ?_⟩
  constructor
  case inv =>
    rw [setOf_isSome_update]
    exact ⟨_, _, hinv'⟩
  case zero_of_free =>
    intro x hx
    have hne : x >>> 12 ≠ g := by
      intro heq
      have hnodup := hinv.ledger.nodup
      rw [hfree, List.nodup_cons, ← heq] at hnodup
      exact hnodup.1 hx
    rw [hmem x hne]
    exact h.zero_of_free x (by rw [hfree]; exact List.mem_cons_of_mem _ hx)
  case read =>
    intro t A ht virtualAddress
    have hlive : ∀ {f q}, own f ≠ some (g, q) := fun {f q} hf => by
      have := hinv.owned.own_root (hinv.owned.mem_live hf)
      rw [hown] at this
      cases this
    by_cases htg : t = g
    · -- the new table is a root without nodes below
      subst htg
      rw [Function.update_self] at ht
      cases ht
      rw [AddressSpace.read_empty]
      refine readVirtual_of_not_own hinv' (Set.mem_insert ..) fun f hf => ?_
      rcases eq_or_ne f t with rfl | hne
      · rw [Function.update_self] at hf
        simp [path] at hf
      · rw [Function.update_of_ne hne] at hf
        exact hlive hf
    · rw [Function.update_of_ne htg] at ht
      rw [← h.read ht]
      -- the other tables keep their leaves, and only the frame of the new root is written
      refine readVirtual_congr hinv hinv' (mem_live ht)
        (Set.mem_insert_of_mem _ (mem_live ht)) ?_ ?_
      · intro f
        rcases eq_or_ne f g with rfl | hne
        · rw [Function.update_self, hown]
          simp [path]
        · rw [Function.update_of_ne hne]
      · intro f hf
        refine hmem _ ?_
        rw [page_translated (hinv.toNat_lt hf)]
        rintro rfl
        rw [hown] at hf
        cases hf

/-- The test for mapped pages. -/
theorem isVirtualPageAllocated_iff (h : Refines K spaces s) (ht : spaces t = some A) :
    isVirtualPageAllocated s.mem (t <<< 12) vpn = true ↔ vpn.toNat % 2 ^ 27 ∈ A.pages := by
  obtain ⟨own, leaked, hinv⟩ := h.inv
  have hpage : spaceAddr (vpn <<< 12) / pgsize = vpn.toNat % 2 ^ 27 := path_eq_vpnPath_iff.mp rfl
  have hread := h.read ht (vpn <<< 12)
  rw [R5O5.isVirtualPageAllocated_iff, ← hpage]
  constructor
  · rintro ⟨f, hwalk⟩
    have hf := (hinv.owned.walk_eq_some_iff (mem_live ht) (by simp)).mp hwalk
    rw [readVirtual_of_own hinv (mem_live ht) hf] at hread
    by_contra hnot
    rw [AddressSpace.read_eq_none_iff.mpr hnot] at hread
    cases hread
  · intro hmem
    by_contra hnone
    -- without a leaf nothing would be read
    rw [readVirtual_of_not_own hinv (mem_live ht), AddressSpace.read_of_mem hmem] at hread
    · cases hread
    · exact fun f hf =>
        hnone ⟨f, (hinv.owned.walk_eq_some_iff (mem_live ht) (by simp)).mpr hf⟩

/-- Exactly the addresses of mapped pages are translated. -/
theorem virtualToPhysical_cases (h : Refines K spaces s) (ht : spaces t = some A)
    (virtualAddress : BitVec 64) :
    (spaceAddr virtualAddress / pgsize ∈ A.pages ∧ ∃ physicalAddress,
      virtualToPhysical s.mem (t <<< 12) virtualAddress = .ok physicalAddress) ∨
    (spaceAddr virtualAddress / pgsize ∉ A.pages ∧
      virtualToPhysical s.mem (t <<< 12) virtualAddress =
        .error (.error "virtualToPhysical: virtual address not valid")) := by
  have hiff : isVirtualPageAllocated s.mem (t <<< 12) (getVirtPage virtualAddress) = true ↔ _ :=
    h.isVirtualPageAllocated_iff ht
  rw [toNat_getVirtPage, Nat.mod_mod, ← toNat_getVirtPage, ← spaceAddr_div] at hiff
  by_cases hmem : spaceAddr virtualAddress / pgsize ∈ A.pages
  · refine Or.inl ⟨hmem, ?_⟩
    rw [virtualToPhysical, hiff.mpr hmem]
    exact ⟨_, rfl⟩
  · refine Or.inr ⟨hmem, ?_⟩
    rw [virtualToPhysical, Bool.eq_false_iff.mpr fun heq => hmem (hiff.mp heq)]
    rfl

/-- A new page of zeros. -/
theorem allocateVirtualPage (h : Refines K spaces s) (ht : spaces t = some A)
    (hok : R5O5.allocateVirtualPage (t <<< 12) vpn perm s = .ok s') :
    vpn.toNat % 2 ^ 27 ∉ A.pages ∧
      Refines K (Function.update spaces t (some (A.mapPage (vpn.toNat % 2 ^ 27)))) s' := by
  have hnew : vpn.toNat % 2 ^ 27 ∉ A.pages := by
    rw [← h.isVirtualPageAllocated_iff ht]
    intro hmapped
    rw [R5O5.allocateVirtualPage, if_pos hmapped] at hok
    cases hok
  obtain ⟨own, leaked, hinv⟩ := h.inv
  -- a free frame holds zeros, so the new directories have no valid entries
  have hempty : ∀ f ∈ directoryFrames s (t <<< 12) vpn, EmptyDirectory s.mem f := fun f hf => by
    have hfree : f ∈ s.alloc.freeList := List.mem_of_mem_drop (List.mem_of_mem_take hf)
    exact h.emptyDirectory_of_free hfree (toNat_lt_of_managed (hinv.ledger.managed_of_free hfree))
  obtain ⟨own', leaf, hleaf, hleaf', hinv', hext⟩ :=
    hinv.allocateVirtualPage (mem_live ht) hempty hok
  have hleaffree : leaf ∈ s.alloc.freeList := by
    rcases hext.new hleaf' with hown | ⟨hfree, -⟩
    · rw [hleaf] at hown
      cases hown
    · exact hfree
  refine ⟨hnew, ?_⟩
  constructor
  case inv =>
    rw [setOf_isSome_update_of_some ht]
    exact ⟨_, _, hinv'⟩
  case zero_of_free =>
    intro x hx
    rw [hext.mem_eq_of_free (hinv'.ledger.own_of_free hx)]
    exact h.zero_of_free x (hext.suffix.subset hx)
  case read =>
    intro t' A' ht' virtualAddress
    by_cases htt : t' = t
    · subst htt
      rw [Function.update_self] at ht'
      cases ht'
      rw [AddressSpace.read_mapPage hnew]
      by_cases hpage : spaceAddr virtualAddress / pgsize = vpn.toNat % 2 ^ 27
      · -- the new page: a free frame before, and not written since
        have hpath := path_eq_vpnPath_iff.mpr hpage
        rw [if_pos hpage, readVirtual_of_own hinv' (mem_live ht) (hpath ▸ hleaf')]
        have hframe : (leaf <<< 12 ||| getOffset virtualAddress) >>> 12 = leaf :=
          page_translated (hinv'.toNat_lt hleaf')
        rw [hext.mem_eq, h.zero_of_free]
        · rwa [hframe]
        · intro q hq
          rw [hframe, hleaf'] at hq
          cases hq
          rw [length_vpnPath]
      -- another page of the same table
      · rw [if_neg hpage, ← h.read ht]
        have hown : ∀ f, own' f = some (t', path virtualAddress) ↔
            own f = some (t', path virtualAddress) := by
          refine fun f => ⟨fun hf => ?_, hext.keeps⟩
          rcases hext.new hf with hf | ⟨-, -, hpre⟩
          · exact hf
          · exact absurd (path_eq_vpnPath_iff.mp (hpre.eq_of_length (by simp [path]))) hpage
        refine readVirtual_congr hinv hinv' (mem_live ht) (mem_live ht) hown fun f hf => ?_
        refine hext.mem_eq fun q hq => ?_
        rw [page_translated (hinv.toNat_lt hf), hext.keeps hf] at hq
        cases hq
        simp [path]
    -- another table
    · rw [Function.update_of_ne htt] at ht'
      rw [← h.read ht']
      have hown : ∀ f, own' f = some (t', path virtualAddress) ↔
          own f = some (t', path virtualAddress) := by
        refine fun f => ⟨fun hf => ?_, hext.keeps⟩
        rcases hext.new hf with hf | ⟨-, hroot, -⟩
        · exact hf
        · exact absurd hroot htt
      refine readVirtual_congr hinv hinv' (mem_live ht') (mem_live ht') hown fun f hf => ?_
      refine hext.mem_eq fun q hq => ?_
      rw [page_translated (hinv.toNat_lt hf), hext.keeps hf] at hq
      cases hq
      exact absurd rfl htt

/-- With a free page a table can be allocated. -/
theorem exists_allocatePageTable (h : Refines K spaces s) (hfree : 1 ≤ s.alloc.numFreePages) :
    ∃ (t : BitVec 64) (s' : Paging), R5O5.allocatePageTable s = .ok (t <<< 12, s') ∧
      spaces t = none ∧ Refines K (Function.update spaces t (some .empty)) s' ∧
      s.alloc.numFreePages ≤ s'.alloc.numFreePages + 1 := by
  obtain ⟨own, leaked, hinv⟩ := h.inv
  obtain ⟨g, a, halloc, -, hcount⟩ := exists_allocatePage hinv.ledger.wellFormed hfree
  have hok : R5O5.allocatePageTable s = .ok (g <<< 12,
      { alloc := a, mem := clearEntries (g <<< 12) (List.finRange numPte) s.mem }) := by
    rw [R5O5.allocatePageTable, allocatePageDirectory, halloc]
    rfl
  obtain ⟨t, ht, hnone, h'⟩ := h.allocatePageTable hok
  exact ⟨t, _, by rw [hok, ht], hnone, h', Nat.le_of_eq hcount⟩

/-- With four free pages a page that is not mapped can be allocated. -/
theorem exists_allocateVirtualPage (h : Refines K spaces s) (ht : spaces t = some A)
    (perm : Permissions) (hfree : 4 ≤ s.alloc.numFreePages) (hnew : vpn.toNat % 2 ^ 27 ∉ A.pages) :
    ∃ s', R5O5.allocateVirtualPage (t <<< 12) vpn perm s = .ok s' ∧
      Refines K (Function.update spaces t (some (A.mapPage (vpn.toNat % 2 ^ 27)))) s' ∧
      s.alloc.numFreePages ≤ s'.alloc.numFreePages + 4 := by
  obtain ⟨own, leaked, hinv⟩ := h.inv
  have hnot : isVirtualPageAllocated s.mem (t <<< 12) vpn = false :=
    Bool.eq_false_iff.mpr fun heq => hnew ((h.isVirtualPageAllocated_iff ht).mp heq)
  obtain ⟨s', hok, -, hcount⟩ :=
    R5O5.exists_allocateVirtualPage perm hinv.ledger.wellFormed hfree hnot
  exact ⟨s', hok, (h.allocateVirtualPage ht hok).2, hcount⟩

/-- A byte stored through a table. -/
theorem store (h : Refines K spaces s) (ht : spaces t = some A)
    (hok : virtualToPhysical s.mem (t <<< 12) virtualAddress = .ok physicalAddress)
    (byte : BitVec 8) :
    ∃ hmapped : spaceAddr virtualAddress / pgsize ∈ A.pages,
      Refines K (Function.update spaces t (some (A.store (spaceAddr virtualAddress) byte hmapped)))
        { s with mem := s.mem.write physicalAddress byte } := by
  obtain ⟨own, leaked, hinv⟩ := h.inv
  obtain ⟨f, hf, rfl⟩ := (virtualToPhysical_eq_ok_iff hinv (mem_live ht)).mp hok
  have hpage : (f <<< 12 ||| getOffset virtualAddress) >>> 12 = f :=
    page_translated (hinv.toNat_lt hf)
  have hread := h.read ht virtualAddress
  rw [readVirtual_of_own hinv (mem_live ht) hf] at hread
  have hmapped : spaceAddr virtualAddress / pgsize ∈ A.pages := by
    by_contra hnot
    rw [AddressSpace.read_eq_none_iff.mpr hnot] at hread
    cases hread
  -- the byte lies in a leaf, not in a directory
  have hinv' : Paging.Inv K {t | (spaces t).isSome} own leaked
      { s with mem := s.mem.write (f <<< 12 ||| getOffset virtualAddress) byte } := by
    refine hinv.setMem fun f' t' p i hf' hp => entry_congr (hinv.toNat_lt hf') ?_
    rintro x rfl
    refine Mem.write_of_ne _ _ ?_
    rintro rfl
    rw [hpage, hf] at hf'
    cases hf'
    simp [path] at hp
  refine ⟨hmapped, ?_⟩
  constructor
  case inv =>
    rw [setOf_isSome_update_of_some ht]
    exact ⟨own, leaked, hinv'⟩
  case zero_of_free =>
    intro x hx
    simp only
    rw [Mem.write_of_ne]
    · exact h.zero_of_free x hx
    · rintro rfl
      rw [hpage] at hx
      rw [hinv.ledger.own_of_free hx] at hf
      cases hf
  case read =>
    intro t' A' ht' virtualAddress'
    have hsame : ∀ f', own f' = some (t', path virtualAddress') →
        f' <<< 12 ||| getOffset virtualAddress' = f <<< 12 ||| getOffset virtualAddress →
        t' = t ∧ spaceAddr virtualAddress' = spaceAddr virtualAddress := by
      intro f' hf' heq
      have hframe : f' = f := by
        rw [← hpage, ← heq, page_translated (hinv.toNat_lt hf')]
      rw [hframe, hf, Option.some.injEq, Prod.mk.injEq] at hf'
      refine ⟨hf'.1.symm, spaceAddr_eq_iff.mpr ⟨hf'.2.symm, ?_⟩⟩
      have hlow := congrArg BitVec.toNat heq
      rw [hframe, toNat_translated (hinv.toNat_lt hf), toNat_translated (hinv.toNat_lt hf)] at hlow
      rw [← BitVec.toNat_inj, toNat_getOffset, toNat_getOffset]
      omega
    -- what is read elsewhere is as before
    have hother : ∀ A₀, spaces t' = some A₀ →
        (t' = t → spaceAddr virtualAddress' ≠ spaceAddr virtualAddress) →
        readVirtual (s.mem.write (f <<< 12 ||| getOffset virtualAddress) byte) (t' <<< 12)
          virtualAddress' = A₀.read (spaceAddr virtualAddress') := by
      intro A₀ hA₀ hne
      rw [← h.read hA₀]
      have hkeep : ∀ f', own f' = some (t', path virtualAddress') →
          (s.mem.write (f <<< 12 ||| getOffset virtualAddress) byte)
            (f' <<< 12 ||| getOffset virtualAddress') =
          s.mem (f' <<< 12 ||| getOffset virtualAddress') := by
        intro f' hf'
        refine Mem.write_of_ne _ _ fun heq => ?_
        obtain ⟨htt, haddr⟩ := hsame f' hf' heq
        exact hne htt haddr
      exact (readVirtual_congr hinv hinv' (mem_live hA₀) (mem_live hA₀) (fun _ => Iff.rfl) hkeep :)
    by_cases htt : t' = t
    · subst htt
      rw [Function.update_self] at ht'
      cases ht'
      rw [AddressSpace.read_store]
      by_cases haddr : spaceAddr virtualAddress' = spaceAddr virtualAddress
      · obtain ⟨hpath, hoffset⟩ := spaceAddr_eq_iff.mp haddr
        have hleaf : own f = some (t', path virtualAddress') := by rw [hpath, hf]
        have hstored := readVirtual_of_own hinv' (mem_live ht) hleaf
        rw [hoffset] at hstored
        rw [if_pos haddr]
        exact hstored.trans (congrArg some (Mem.write_same ..))
      · rw [if_neg haddr]
        exact hother A ht fun _ => haddr
    · rw [Function.update_of_ne htt] at ht'
      exact hother A' ht' fun heq => absurd heq htt

end Refines

end R5O5
