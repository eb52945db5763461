import R5O5.Kernel.Paging.Conservation

/-!
# The page that is mapped

`mapVirtualPage` is given the number of the page to map, but the entry gets another page that it
allocates for itself.

## Main definitions

- `leafEntry`: the entry of a virtual page;
- `Maps`: what mapping a page should do.

## Main results

- `Paging.Inv.mapVirtualPage_spec`: what `mapVirtualPage` does with a page that is not mapped;
- `not_maps_mapVirtualPage`: it never maps the page it is given.
-/

namespace R5O5

/-- The page table entry of a virtual address whose directories are there. -/
def leafEntry (mem : Mem) (pagetable virtualAddress : BitVec 64) : BitVec 64 :=
  let level1 := getPageNum (mem.load64 (pteAddr pagetable (getL2 virtualAddress))) <<< 12
  let level0 := getPageNum (mem.load64 (pteAddr level1 (getL1 virtualAddress))) <<< 12
  mem.load64 (pteAddr level0 (getL0 virtualAddress))

/-- Between the two states the virtual page has been mapped to the physical page: its addresses are
translated accordingly, its entry has the flags asked for, the other pages are translated as before,
and as many pages were allocated as directories were missing. -/
def Maps (s : Paging) (pagetable virtualPageNum physicalPageNum : BitVec 64) (perm : Permissions)
    (s' : Paging) : Prop :=
  (∀ offset : BitVec 64, offset.toNat < pgsize →
    virtualToPhysical s'.mem pagetable (virtualPageNum <<< 12 ||| offset) =
      .ok (physicalPageNum <<< 12 ||| offset)) ∧
  getFlags (leafEntry s'.mem pagetable (virtualPageNum <<< 12)) = pteV ||| perm.flags ∧
  (∀ virtualAddress, getVirtPage virtualAddress ≠ virtualPageNum →
    virtualToPhysical s'.mem pagetable virtualAddress =
      virtualToPhysical s.mem pagetable virtualAddress) ∧
  s.alloc.numFreePages =
    s'.alloc.numFreePages + missingDirectories s.mem pagetable virtualPageNum

section Levels

variable {K : KernelImage} {live : Set (BitVec 64)} {own : Places} {leaked : ℕ} {s s' : Paging}
  {f g t vpn ppn : BitVec 64} {i j : Fin numPte} {perm : Permissions}

/-- With both entries no directory is missing. -/
theorem missingDirectories_of_levels {level1 level0 : BitVec 64} {mem : Mem}
    (hroot : child mem t (slotL2 (vpn <<< 12)) = some level1)
    (h : child mem level1 (slotL1 (vpn <<< 12)) = some level0) :
    missingDirectories mem (t <<< 12) vpn = 0 := by
  simp [missingDirectories, pteAddr_getL2, pteAddr_getL1, isValid_eq, getPageNum_of_child hroot,
    hroot, h]

/-- The entry for a page lies in its last directory. -/
theorem leafEntry_eq {level1 level0 virtualAddress : BitVec 64} {mem : Mem}
    (hroot : child mem t (slotL2 virtualAddress) = some level1)
    (h : child mem level1 (slotL1 virtualAddress) = some level0) :
    leafEntry mem (t <<< 12) virtualAddress = entry mem level0 (slotL0 virtualAddress) := by
  simp only [leafEntry, pteAddr_getL2, pteAddr_getL1, pteAddr_getL0, getPageNum_of_child hroot,
    getPageNum_of_child h, entry]

/-- `fillEntry` changes one entry only. -/
theorem child_fillEntry_of_ne (hf : f.toNat < 2 ^ 44) (hg : g.toNat < 2 ^ 44) (hne : g ≠ f)
    (hok : fillEntry (slotAddr f i) perm s = .ok s') : child s'.mem g j = child s.mem g j := by
  cases hchild : child s.mem f i with
  | some g' =>
    rw [fillEntry_of_child hchild] at hok
    cases hok
    rfl
  | none =>
    obtain ⟨g', -, hmem⟩ := fillEntry_eq_ok hchild hok
    rw [hmem]
    exact child_eq_of_entry_eq (entry_store64_of_ne hf hg fun heq => hne (Prod.mk.inj heq).1)

/-- Free frames filled with zeros hold no entry. -/
theorem emptyDirectory_of_zero (h : Ledger K own leaked s.alloc)
    (hzero : ∀ x : BitVec 64, x >>> 12 ∈ s.alloc.freeList → s.mem x = 0) :
    ∀ f ∈ s.alloc.freeList, EmptyDirectory s.mem f := by
  intro f hf i
  refine child_of_entry_zero (Mem.load64_of_zero fun x hx => hzero x ?_)
  rwa [page_of_slot (toNat_lt_of_managed (h.managed_of_free hf)) hx]

/-- Free frames without entries stay so while a tree grows. -/
theorem Extension.emptyDirectory {target : List (Fin numPte)} {own' : Places}
    (hext : Extension t target own own' s s') (h' : Paging.Inv K live own' leaked s')
    (hempty : ∀ f ∈ s.alloc.freeList, EmptyDirectory s.mem f) :
    ∀ f ∈ s'.alloc.freeList, EmptyDirectory s'.mem f := by
  intro f hf
  refine (hempty f (hext.suffix.subset hf)).congr
    (toNat_lt_of_managed (h'.ledger.managed_of_free hf)) ?_
  rintro x rfl
  exact hext.mem_eq_of_free (h'.ledger.own_of_free hf)

/-- A directory that `fillEntry` has just allocated has no entries. -/
theorem child_fillEntry_of_none {own' : Places} {p : List (Fin numPte)}
    (h' : Paging.Inv K live own' leaked s') (hf : own' f = some (t, p))
    (hg : own' g = some (t, p ++ [i])) (hnone : child s.mem f i = none)
    (hempty : ∀ f ∈ s.alloc.freeList, EmptyDirectory s.mem f)
    (hfree : s.alloc.freeList = (if child s.mem f i = none then [g] else []) ++ s'.alloc.freeList)
    (hok : fillEntry (slotAddr f i) perm s = .ok s') : child s'.mem g j = none := by
  have hne : g ≠ f := by
    rintro rfl
    rw [hf] at hg
    simp at hg
  rw [child_fillEntry_of_ne (h'.toNat_lt hf) (h'.toNat_lt hg) hne hok]
  refine hempty g ?_ j
  rw [hfree, if_pos hnone]
  exact List.mem_cons_self

/-- `mapVirtualPage` allocates the directories that are missing and one more page, to which it maps
the virtual page. -/
theorem Paging.Inv.mapVirtualPage_spec (h : Inv K live own leaked s) (ht : t ∈ live)
    (hempty : ∀ f ∈ s.alloc.freeList, EmptyDirectory s.mem f)
    (hnot : isVirtualPageAllocated s.mem (t <<< 12) vpn = false)
    (hok : R5O5.mapVirtualPage (t <<< 12) vpn ppn perm s = .ok s') :
    ∃ own' f, f ∈ s.alloc.freeList ∧ own' f = some (t, vpnPath vpn) ∧
      Inv K live own' leaked s' ∧ Extension t (vpnPath vpn) own own' s s' ∧
      getFlags (leafEntry s'.mem (t <<< 12) (vpn <<< 12)) = pteV ||| perm.flags ∧
      s.alloc.numFreePages = s'.alloc.numFreePages + missingDirectories s.mem (t <<< 12) vpn + 1 := by
  simp only [R5O5.mapVirtualPage, Except.bind_eq_ok, pteAddr_getL2] at hok
  obtain ⟨s₁, hs₁, s₂, hs₂, hs'⟩ := hok
  have htown := h.owned.own_root ht
  -- the directories, with the pages that they took
  obtain ⟨level1, own₁, hchild₁, hlevel1, h₁, hext₁, hfree₁⟩ :=
    h.fillEntry (vpnPath vpn) htown (by simp) ⟨_, rfl⟩ (fun _ => rfl)
      (fun _ _ g hg => hempty g (List.mem_of_mem_head? hg)) hs₁
  rw [getPageNum_of_child hchild₁, pteAddr_getL1] at hs₂ hs'
  have hempty₁ := hext₁.emptyDirectory h₁ hempty
  obtain ⟨level0, own₂, hchild₂, hlevel0, h₂, hext₂, hfree₂⟩ :=
    h₁.fillEntry (vpnPath vpn) hlevel1 (by simp) ⟨_, rfl⟩ (fun _ => rfl)
      (fun _ _ g hg => hempty₁ g (List.mem_of_mem_head? hg)) hs₂
  rw [getPageNum_of_child hchild₂, pteAddr_getL0] at hs'
  obtain ⟨leaf, own₃, hchild₃, hleaf, h₃, hext₃, hfree₃⟩ :=
    h₂.fillEntry (vpnPath vpn) hlevel0 (by simp) List.prefix_rfl
      (fun hp => by simp at hp) (fun hp => by simp at hp) hs'
  have hnone₁ : child s.mem t (slotL2 (vpn <<< 12)) = none →
      child s₁.mem level1 (slotL1 (vpn <<< 12)) = none := fun hnone =>
    child_fillEntry_of_none h₁ (hext₁.keeps htown) hlevel1 hnone hempty hfree₁ hs₁
  have hnone₂ : child s₁.mem level1 (slotL1 (vpn <<< 12)) = none →
      child s₂.mem level0 (slotL0 (vpn <<< 12)) = none := fun hnone =>
    child_fillEntry_of_none h₂ (hext₂.keeps hlevel1) hlevel0 hnone hempty₁ hfree₂ hs₂
  -- the entry of the page is not there yet
  have hlevels : child s₂.mem level0 (slotL0 (vpn <<< 12)) = none ∧
      missingDirectories s.mem (t <<< 12) vpn =
        (if child s.mem t (slotL2 (vpn <<< 12)) = none then 1 else 0) +
          (if child s₁.mem level1 (slotL1 (vpn <<< 12)) = none then 1 else 0) := by
    cases hroot : child s.mem t (slotL2 (vpn <<< 12)) with
    | none =>
      refine ⟨hnone₂ (hnone₁ hroot), ?_⟩
      rw [missingDirectories_of_root_none hroot, if_pos rfl, if_pos (hnone₁ hroot)]
    | some g =>
      rw [fillEntry_of_child hroot] at hs₁
      cases hs₁
      cases hlevel : child s.mem level1 (slotL1 (vpn <<< 12)) with
      | none =>
        refine ⟨hnone₂ hlevel, ?_⟩
        rw [missingDirectories_of_level1_none hchild₁ hlevel]
        rfl
      | some g' =>
        rw [fillEntry_of_child hlevel] at hs₂
        cases hs₂
        rw [missingDirectories_of_levels hchild₁ hlevel]
        refine ⟨?_, rfl⟩
        rw [isVirtualPageAllocated_eq] at hnot
        simpa [vpnPath, path, Forest.walk, hchild₁, hchild₂] using hnot
  obtain ⟨hleafnone, hmissing⟩ := hlevels
  obtain ⟨g, halloc, hmem⟩ := fillEntry_eq_ok hleafnone hs'
  obtain ⟨-, hloose, -⟩ := h₂.ledger.allocatePage halloc
  rw [if_pos hleafnone] at hfree₃
  have hext := (hext₁.trans hext₂).trans hext₃
  refine ⟨own₃, leaf, (hext₁.trans hext₂).suffix.subset ?_, hleaf, h₃, hext, ?_, ?_⟩
  · rw [hfree₃]
    exact List.mem_cons_self
  · -- the directories are where they were put
    have hwalk₁ := (h₃.owned.walk_eq_some_iff ht (by simp)).mpr (hext₃.keeps (hext₂.keeps hlevel1))
    have hwalk₂ := (h₃.owned.walk_eq_some_iff ht (by simp)).mpr (hext₃.keeps hlevel0)
    rw [Forest.walk_append_singleton] at hwalk₁
    rw [Forest.walk_append_singleton, Forest.walk_append_singleton, hwalk₁] at hwalk₂
    rw [leafEntry_eq hwalk₁ hwalk₂, entry, hmem, Mem.load64_store64_self,
      getFlags_entry (toNat_lt_of_managed hloose.managed) (toNat_flags_lt perm)]
  · have hlen₁ := congrArg List.length hfree₁
    have hlen₂ := congrArg List.length hfree₂
    have hlen₃ := congrArg List.length hfree₃
    simp only [List.length_append, PageAllocator.length_freeList, apply_ite List.length,
      List.length_singleton, List.length_nil] at hlen₁ hlen₂ hlen₃
    omega

/-- Whatever the page that is given, and however many pages are free, `mapVirtualPage` does not do
what mapping that page should do: if it does not stop for want of a page, it has allocated one too
many. -/
theorem not_maps_mapVirtualPage (h : Paging.Inv K live own leaked s) (ht : t ∈ live)
    (hzero : ∀ x : BitVec 64, x >>> 12 ∈ s.alloc.freeList → s.mem x = 0)
    (hnot : isVirtualPageAllocated s.mem (t <<< 12) vpn = false) :
    ¬ ∃ s', mapVirtualPage (t <<< 12) vpn ppn perm s = .ok s' ∧
      Maps s (t <<< 12) vpn ppn perm s' := by
  rintro ⟨s', hok, -, -, -, hcount⟩
  obtain ⟨own', f, -, -, -, -, -, hcount'⟩ :=
    h.mapVirtualPage_spec ht (emptyDirectory_of_zero h.ledger hzero) hnot hok
  omega

end Levels

/-! ## The first page of a table -/

namespace Tables

theorem inv_created : ∃ own, Inv sampleKernel own 0 created := by
  obtain ⟨own, h, -⟩ := cleanInv_of_trace (fun _ _ => by unfold zeroMem; rfl)
    (Trace.refl.snoc step_created) (by decide)
  exact ⟨own, h⟩

theorem created_mem (x : BitVec 64) : created.paging.mem x = 0 := by
  show zeroMem x = 0
  unfold zeroMem
  rfl

/-- Page 0 of a new table is not mapped to the page `0x90000`. -/
theorem not_maps_created : ¬ ∃ s',
    mapVirtualPage sampleTable 0 0x90000 ⟨true, true, false⟩ created.paging = .ok s' ∧
      Maps created.paging sampleTable 0 0x90000 ⟨true, true, false⟩ s' := by
  obtain ⟨own, h⟩ := inv_created
  have hlive : sampleTable ∈ created.live := Finset.mem_insert_self ..
  rw [← h.aligned hlive]
  exact not_maps_mapVirtualPage h.paging (Inv.mem_roots hlive) (fun x _ => created_mem x)
    (by decide +kernel)

/-- The addresses of that page are not translated to the page that was given, and three pages were
allocated where two directories were missing. -/
theorem mapVirtualPage_created : ∃ s',
    mapVirtualPage sampleTable 0 0x90000 ⟨true, true, false⟩ created.paging = .ok s' ∧
      missingDirectories created.paging.mem sampleTable 0 = 2 ∧
      created.paging.alloc.numFreePages = s'.alloc.numFreePages + 3 ∧
      virtualToPhysical s'.mem sampleTable 0 ≠ .ok (0x90000 <<< 12) ∧
      ¬ Maps created.paging sampleTable 0 0x90000 ⟨true, true, false⟩ s' := by
  obtain ⟨own, h⟩ := inv_created
  have hlive : sampleTable ∈ created.live := Finset.mem_insert_self ..
  obtain ⟨s', hok, -⟩ := exists_mapVirtualPage sampleTable 0 0x90000 ⟨true, true, false⟩
    h.paging.ledger.wellFormed (by decide)
  have hmissing : missingDirectories created.paging.mem sampleTable 0 = 2 := by decide +kernel
  have hempty := emptyDirectory_of_zero h.paging.ledger fun x _ => created_mem x
  have hnot : isVirtualPageAllocated created.paging.mem sampleTable 0 = false := by decide +kernel
  rw [← h.aligned hlive] at hok hmissing hnot
  obtain ⟨own', f, hfree, hf, h', -, -, hcount⟩ :=
    h.paging.mapVirtualPage_spec (Inv.mem_roots hlive) hempty hnot hok
  have hwalk := (h'.owned.walk_eq_some_iff (Inv.mem_roots hlive) (by simp)).mpr hf
  have htranslate : virtualToPhysical s'.mem ((sampleTable >>> 12) <<< 12) 0 =
    .ok (f <<< 12 ||| getOffset 0) := virtualToPhysical_eq_ok hwalk
  rw [hmissing] at hcount
  rw [h.aligned hlive] at hok hmissing htranslate
  -- the page is translated to a free frame, and page `0x90000` is not managed
  have hne : virtualToPhysical s'.mem sampleTable 0 ≠ .ok (0x90000 <<< 12) := by
    intro heq
    rw [htranslate] at heq
    have hpage : (f <<< 12 ||| getOffset 0) >>> 12 = f :=
      page_translated (toNat_lt_of_managed (h.paging.ledger.managed_of_free hfree))
    rw [Except.ok.inj heq] at hpage
    have hmanaged := mem_managed.mp (h.paging.ledger.managed_of_free hfree)
    rw [← hpage] at hmanaged
    revert hmanaged
    decide
  refine ⟨s', hok, hmissing, hcount, hne, ?_⟩
  rintro ⟨htranslated, -⟩
  exact hne (htranslated 0 (by decide))

end Tables

end R5O5
