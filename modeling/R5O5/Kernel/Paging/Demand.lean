import R5O5.Kernel.Paging.AddressSpace
import R5O5.Kernel.Paging.Order

/-!
# The frames a page table takes

`allocateVirtualPage` takes two frames for a page, of which one is lost, and one for each directory
that is missing on the way to it. While no page is deallocated, a table has a directory only where a
page is mapped below it, so that the frames taken for a table depend on the set of its pages alone.

## Main definitions

- `frameDemand`: the frames taken for a set of pages;
- `Accounted`: the page tables carry address spaces, and have no directory without a page.

## Main results

- `Accounted.allocatePageTable_cases`, `Accounted.allocateVirtualPage_cases`: the frames an
  operation takes, and that it fails only when there are fewer.
-/

namespace R5O5

/-- The directories below the root of a table with these pages. -/
def directories (pages : Finset ℕ) : ℕ :=
  (pages.image (· / 2 ^ 18)).card + (pages.image (· / 2 ^ 9)).card

/-- The frames taken for these pages: two for each page, and the directories. -/
def frameDemand (pages : Finset ℕ) : ℕ := 2 * pages.card + directories pages

/-- The directories that one more page needs. -/
def newDirectories (pages : Finset ℕ) (n : ℕ) : ℕ :=
  (if n / 2 ^ 18 ∈ pages.image (· / 2 ^ 18) then 0 else 1) +
    if n / 2 ^ 9 ∈ pages.image (· / 2 ^ 9) then 0 else 1

section Demand

variable {pages pages' : Finset ℕ} {n : ℕ}

/-- One more element counts unless it was there. -/
theorem card_insert_eq {α : Type} [DecidableEq α] (set : Finset α) (a : α) :
    (insert a set).card = set.card + if a ∈ set then 0 else 1 := by
  split
  case isTrue h => rw [Finset.insert_eq_of_mem h, Nat.add_zero]
  case isFalse h => exact Finset.card_insert_of_notMem h

theorem frameDemand_empty : frameDemand ∅ = 0 := rfl

/-- What one more page adds. -/
theorem frameDemand_insert (hn : n ∉ pages) :
    frameDemand (insert n pages) = frameDemand pages + (2 + newDirectories pages n) := by
  simp only [frameDemand, directories, newDirectories, Finset.image_insert, card_insert_eq,
    if_neg hn]
  omega

theorem frameDemand_mono (h : pages ⊆ pages') : frameDemand pages ≤ frameDemand pages' := by
  have hcard := Finset.card_le_card h
  have hlevel1 := Finset.card_le_card (Finset.image_subset_image (f := (· / 2 ^ 18)) h)
  have hlevel0 := Finset.card_le_card (Finset.image_subset_image (f := (· / 2 ^ 9)) h)
  simp only [frameDemand, directories]
  omega

end Demand

/-! ## Slots -/

section Slots

variable {vpn vpn' : BitVec 64}

/-- The first slot holds the high bits of the page number. -/
theorem slotL2_eq_iff : slotL2 (vpn <<< 12) = slotL2 (vpn' <<< 12) ↔
    vpn.toNat % 2 ^ 27 / 2 ^ 18 = vpn'.toNat % 2 ^ 27 / 2 ^ 18 := by
  rw [Fin.ext_iff]
  simp only [slotL2, toNat_getL2, BitVec.toNat_shiftLeft, Nat.shiftLeft_eq]
  omega

/-- The first two slots hold all bits but the lowest nine. -/
theorem slotL2_slotL1_eq_iff :
    slotL2 (vpn <<< 12) = slotL2 (vpn' <<< 12) ∧ slotL1 (vpn <<< 12) = slotL1 (vpn' <<< 12) ↔
      vpn.toNat % 2 ^ 27 / 2 ^ 9 = vpn'.toNat % 2 ^ 27 / 2 ^ 9 := by
  rw [slotL2_eq_iff, Fin.ext_iff]
  simp only [slotL1, toNat_getL1, BitVec.toNat_shiftLeft, Nat.shiftLeft_eq]
  omega

end Slots

/-! ## The frames on the way to a page -/

/-- The free stack holds different frames, all of which fit a page table entry. -/
structure Supply (s : Paging) : Prop where
  wellFormed : s.alloc.WellFormed
  nodup : s.alloc.freeList.Nodup
  toNat_lt : ∀ {g}, g ∈ s.alloc.freeList → g.toNat < 2 ^ 44

/-- The calls that return take `n` frames, and there is an error when there are fewer. -/
def Takes (n : ℕ) (s : Paging) (result : Except Stop Paging) : Prop :=
  (∃ s', result = .ok s' ∧ s.alloc.numFreePages = s'.alloc.numFreePages + n) ∨
    (result = .error (.error "allocatePage: No Free Page") ∧ s.alloc.numFreePages < n)

section Fill

variable {K : KernelImage} {live : Set (BitVec 64)} {own : Places} {leaked n : ℕ} {s s' : Paging}
  {f g t vpn : BitVec 64} {rest : List (BitVec 64)} {i j k : Fin numPte} {perm : Permissions}
  {result : Except Stop Paging}

/-- The invariant is about a supply of frames. -/
theorem Paging.Inv.supply (h : s.Inv K live own leaked) : Supply s where
  wellFormed := h.ledger.wellFormed
  nodup := h.ledger.nodup
  toNat_lt hg := toNat_lt_of_managed (h.ledger.managed_of_free hg)

theorem allocatePage_of_nil (h : s.alloc.freeList = []) :
    allocatePage s.alloc = .error (.error "allocatePage: No Free Page") := by
  have hzero : s.alloc.numFreePages = 0 := by
    rw [← s.alloc.length_freeList, h, List.length_nil]
  rw [allocatePage, if_pos hzero]

theorem takes_of_nil (h : s.alloc.freeList = []) (hn : 0 < n)
    (herr : result = .error (.error "allocatePage: No Free Page")) : Takes n s result := by
  refine Or.inr ⟨herr, ?_⟩
  rwa [← s.alloc.length_freeList, h, List.length_nil]

/-- After one frame is taken, `n` more make `n + 1`. -/
theorem Takes.of_cons (h : Takes n s' result) (hfree : s.alloc.freeList = g :: rest)
    (hrest : s'.alloc.freeList = rest) : Takes (n + 1) s result := by
  have hcount : s.alloc.numFreePages = s'.alloc.numFreePages + 1 := by
    rw [← s.alloc.length_freeList, ← s'.alloc.length_freeList, hfree, hrest, List.length_cons]
  rcases h with ⟨s₂, hok, hn⟩ | ⟨herr, hn⟩
  · exact Or.inl ⟨s₂, hok, by omega⟩
  · exact Or.inr ⟨herr, by omega⟩

/-- An empty slot of a directory is filled with the top of the free stack. -/
theorem Supply.fillEntry_cases (h : Supply s) (hf : f.toNat < 2 ^ 44)
    (hnone : child s.mem f i = none) (perm : Permissions) :
    (∃ g rest s', s.alloc.freeList = g :: rest ∧ fillEntry (slotAddr f i) perm s = .ok s' ∧
      s'.alloc.freeList = rest ∧ Supply s' ∧ Filled f i g s.mem s'.mem) ∨
    (s.alloc.freeList = [] ∧
      fillEntry (slotAddr f i) perm s = .error (.error "allocatePage: No Free Page")) := by
  cases hfree : s.alloc.freeList with
  | nil =>
    refine Or.inr ⟨rfl, ?_⟩
    rw [fillEntry_of_none hnone, allocatePage_of_nil hfree, Except.error_bind]
  | cons g rest =>
    have hg : g.toNat < 2 ^ 44 := h.toNat_lt (by rw [hfree]; exact List.mem_cons_self)
    obtain ⟨s', hok, hrest, hwf, hfilled⟩ :=
      fillEntry_of_freeList h.wellFormed hfree hf hg hnone perm
    have hnodup := h.nodup
    rw [hfree, List.nodup_cons] at hnodup
    refine Or.inl ⟨g, rest, s', rfl, hok, hrest, ⟨hwf, by rw [hrest]; exact hnodup.2, ?_⟩, hfilled⟩
    intro g' hg'
    rw [hrest] at hg'
    exact h.toNat_lt (by rw [hfree]; exact List.mem_cons_of_mem _ hg')

/-- The last slot takes one frame. -/
theorem Supply.takes_leaf (h : Supply s) (hf : f.toNat < 2 ^ 44) (hnone : child s.mem f i = none)
    (perm : Permissions) : Takes 1 s (fillEntry (slotAddr f i) perm s) := by
  rcases h.fillEntry_cases hf hnone perm with ⟨g, rest, s', hfree, hok, hrest, -, -⟩ | ⟨hfree, herr⟩
  · exact Takes.of_cons (n := 0) (Or.inl ⟨s', hok, rfl⟩) hfree hrest
  · exact takes_of_nil hfree Nat.one_pos herr

/-- The last directory and the slot in it take two frames. -/
theorem Supply.takes_level0 (h : Supply s) (hf : f.toNat < 2 ^ 44) (hnone : child s.mem f i = none)
    (hnot : f ∉ s.alloc.freeList)
    (hempty : ∀ g ∈ s.alloc.freeList.take 1, EmptyDirectory s.mem g) (perm : Permissions) :
    Takes 2 s (do
      let s ← fillEntry (slotAddr f i) ⟨true, false, false⟩ s
      fillEntry (slotAddr (getPageNum (s.mem.load64 (slotAddr f i))) j) perm s) := by
  rcases h.fillEntry_cases hf hnone ⟨true, false, false⟩ with
    ⟨g, rest, s', hfree, hok, hrest, h', hfilled⟩ | ⟨hfree, herr⟩
  · rw [hok, Except.ok_bind, getPageNum_of_child (hfilled.child_self hf)]
    have hgfree : g ∈ s.alloc.freeList := by
      rw [hfree]
      exact List.mem_cons_self
    have hg := h.toNat_lt hgfree
    have hne : g ≠ f := by
      rintro rfl
      exact hnot hgfree
    -- the new directory is empty
    have hslot : child s'.mem g j = none := by
      rw [hfilled.child_of_ne hg hne]
      exact hempty g (by rw [hfree]; exact List.mem_cons_self) j
    exact (h'.takes_leaf hg hslot perm).of_cons hfree hrest
  · rw [herr, Except.error_bind]
    exact takes_of_nil hfree Nat.two_pos rfl

/-- Two directories and the slot in the last one take three frames. -/
theorem Supply.takes_level1 (h : Supply s) (hf : f.toNat < 2 ^ 44) (hnone : child s.mem f i = none)
    (hnot : f ∉ s.alloc.freeList)
    (hempty : ∀ g ∈ s.alloc.freeList.take 2, EmptyDirectory s.mem g) (perm : Permissions) :
    Takes 3 s (do
      let s ← fillEntry (slotAddr f i) ⟨true, false, false⟩ s
      let level1 := getPageNum (s.mem.load64 (slotAddr f i))
      let s ← fillEntry (slotAddr level1 j) ⟨true, false, false⟩ s
      fillEntry (slotAddr (getPageNum (s.mem.load64 (slotAddr level1 j))) k) perm s) := by
  rcases h.fillEntry_cases hf hnone ⟨true, false, false⟩ with
    ⟨g, rest, s', hfree, hok, hrest, h', hfilled⟩ | ⟨hfree, herr⟩
  · rw [hok, Except.ok_bind]
    dsimp only
    rw [getPageNum_of_child (hfilled.child_self hf)]
    rw [hfree] at hnot hempty
    rw [List.take_succ_cons] at hempty
    have hnodup := h.nodup
    rw [hfree, List.nodup_cons] at hnodup
    have hg := h.toNat_lt (g := g) (by rw [hfree]; exact List.mem_cons_self)
    have hne : g ≠ f := by
      rintro rfl
      exact hnot List.mem_cons_self
    have hslot : child s'.mem g j = none := by
      rw [hfilled.child_of_ne hg hne]
      exact hempty g List.mem_cons_self j
    -- the next frame is another one, so it is as empty as before
    refine (h'.takes_level0 hg hslot (by rw [hrest]; exact hnodup.1) ?_ perm).of_cons hfree hrest
    intro x hx l
    rw [hrest] at hx
    have hxmem : x ∈ rest := List.mem_of_mem_take hx
    have hxf : x ≠ f := by
      rintro rfl
      exact hnot (List.mem_cons_of_mem _ hxmem)
    rw [hfilled.child_of_ne (h'.toNat_lt (by rwa [hrest])) hxf]
    exact hempty x (List.mem_cons_of_mem _ hx) l
  · rw [herr, Except.error_bind]
    exact takes_of_nil hfree (by decide) rfl

/-- Mapping a page takes a frame for it and one for each missing directory. -/
theorem Paging.Inv.takes_mapVirtualPage (h : s.Inv K live own leaked) (ht : t ∈ live)
    (hempty : ∀ f ∈ s.alloc.freeList.take (missingDirectories s.mem (t <<< 12) vpn),
      EmptyDirectory s.mem f)
    (hwalk : Forest.walk (child s.mem) t (vpnPath vpn) = none) (ppn : BitVec 64)
    (perm : Permissions) :
    Takes (missingDirectories s.mem (t <<< 12) vpn + 1) s
      (R5O5.mapVirtualPage (t <<< 12) vpn ppn perm s) := by
  have hsupply := h.supply
  have hnot {f : BitVec 64} {x} (hf : own f = some x) : f ∉ s.alloc.freeList := fun hfree => by
    rw [h.ledger.own_of_free hfree] at hf
    cases hf
  have htown := h.owned.own_root ht
  simp only [vpnPath, path, Forest.walk] at hwalk
  simp only [R5O5.mapVirtualPage, pteAddr_getL2, pteAddr_getL1, pteAddr_getL0]
  -- the directories are there down to some level, and none below it
  cases hroot : child s.mem t (slotL2 (vpn <<< 12)) with
  | none =>
    rw [missingDirectories_of_root_none hroot] at hempty ⊢
    exact hsupply.takes_level1 (h.toNat_lt htown) hroot (hnot htown) hempty perm
  | some level1 =>
    have hlevel1 := h.owned.own_child htown (by simp) hroot
    rw [fillEntry_of_child hroot, Except.ok_bind, getPageNum_of_child hroot]
    cases hslot : child s.mem level1 (slotL1 (vpn <<< 12)) with
    | none =>
      rw [missingDirectories_of_level1_none hroot hslot] at hempty ⊢
      exact hsupply.takes_level0 (h.toNat_lt hlevel1) hslot (hnot hlevel1) hempty perm
    | some level0 =>
      have hlevel0 := h.owned.own_child hlevel1 (by simp) hslot
      have hmissing : missingDirectories s.mem (t <<< 12) vpn = 0 := by
        simp [missingDirectories, pteAddr_getL2, pteAddr_getL1, isValid_eq,
          getPageNum_of_child hroot, hroot, hslot]
      rw [fillEntry_of_child hslot, Except.ok_bind, getPageNum_of_child hslot, hmissing]
      rw [hroot, Option.bind_some, hslot, Option.bind_some] at hwalk
      exact hsupply.takes_leaf (h.toNat_lt hlevel0) (by simpa using hwalk) perm

end Fill

/-! ## The directories of a table -/

/-- The table with the root `t` maps these pages, and has directories only on the way to them. -/
structure Pruned (mem : Mem) (t : BitVec 64) (pages : Finset ℕ) : Prop where
  mapped : ∀ {n}, n ∈ pages → ∃ vpn f : BitVec 64, vpn.toNat % 2 ^ 27 = n ∧
    Forest.walk (child mem) t (vpnPath vpn) = some f
  below : ∀ {p f}, p ≠ [] → p.length ≤ 3 → Forest.walk (child mem) t p = some f →
    ∃ vpn : BitVec 64, vpn.toNat % 2 ^ 27 ∈ pages ∧ p <+: vpnPath vpn

namespace Pruned

variable {mem : Mem} {t vpn : BitVec 64} {pages : Finset ℕ}

/-- There is a directory in a slot of the root if a page asks for it. -/
theorem child_root_iff (h : Pruned mem t pages) :
    (∃ g, child mem t (slotL2 (vpn <<< 12)) = some g) ↔
      vpn.toNat % 2 ^ 27 / 2 ^ 18 ∈ pages.image (· / 2 ^ 18) := by
  rw [Finset.mem_image]
  constructor
  · rintro ⟨g, hg⟩
    obtain ⟨vpn', hmem, rest, hpath⟩ := h.below (p := [slotL2 (vpn <<< 12)]) (f := g)
      (List.cons_ne_nil _ _) (by simp) (by simp only [Forest.walk, hg, Option.bind_some])
    have hslot : slotL2 (vpn <<< 12) = slotL2 (vpn' <<< 12) := (List.cons.inj hpath).1
    exact ⟨_, hmem, (slotL2_eq_iff.mp hslot).symm⟩
  · rintro ⟨n, hn, heq⟩
    obtain ⟨vpn', f, rfl, hwalk⟩ := h.mapped hn
    rw [slotL2_eq_iff.mpr heq.symm]
    obtain ⟨g, hg, -⟩ := Option.bind_eq_some_iff.mp hwalk
    exact ⟨g, hg⟩

/-- There is a directory at the end of two slots if a page asks for it. -/
theorem child_level1_iff (h : Pruned mem t pages) {level1 : BitVec 64}
    (hroot : child mem t (slotL2 (vpn <<< 12)) = some level1) :
    (∃ g, child mem level1 (slotL1 (vpn <<< 12)) = some g) ↔
      vpn.toNat % 2 ^ 27 / 2 ^ 9 ∈ pages.image (· / 2 ^ 9) := by
  rw [Finset.mem_image]
  constructor
  · rintro ⟨g, hg⟩
    obtain ⟨vpn', hmem, rest, hpath⟩ := h.below
      (p := [slotL2 (vpn <<< 12), slotL1 (vpn <<< 12)]) (f := g) (List.cons_ne_nil _ _) (by simp)
      (by simp only [Forest.walk, hroot, hg, Option.bind_some])
    obtain ⟨hslot, hpath⟩ := List.cons.inj hpath
    exact ⟨_, hmem, (slotL2_slotL1_eq_iff.mp ⟨hslot, (List.cons.inj hpath).1⟩).symm⟩
  · rintro ⟨n, hn, heq⟩
    obtain ⟨vpn', f, rfl, hwalk⟩ := h.mapped hn
    obtain ⟨hslot, hslot'⟩ := slotL2_slotL1_eq_iff.mpr heq.symm
    simp only [vpnPath, path, Forest.walk, ← hslot, hroot, ← hslot', Option.bind_some] at hwalk
    obtain ⟨g, hg, -⟩ := Option.bind_eq_some_iff.mp hwalk
    exact ⟨g, hg⟩

/-- The directories that are missing on the way to a page are those that its number asks for. -/
theorem missingDirectories_eq (h : Pruned mem t pages) :
    missingDirectories mem (t <<< 12) vpn = newDirectories pages (vpn.toNat % 2 ^ 27) := by
  have hlevel1 : (∃ g, child mem t (slotL2 (vpn <<< 12)) = some g) ↔
    vpn.toNat % 2 ^ 27 / 2 ^ 18 ∈ pages.image (· / 2 ^ 18) := h.child_root_iff
  rw [newDirectories]
  cases hroot : child mem t (slotL2 (vpn <<< 12)) with
  | none =>
    have hnone : vpn.toNat % 2 ^ 27 / 2 ^ 18 ∉ pages.image (· / 2 ^ 18) := by
      rw [← hlevel1, hroot]
      rintro ⟨g, hg⟩
      cases hg
    -- without a page below the root slot there is none below its slots
    have hnone' : vpn.toNat % 2 ^ 27 / 2 ^ 9 ∉ pages.image (· / 2 ^ 9) := by
      intro hmem
      obtain ⟨n, hn, heq⟩ := Finset.mem_image.mp hmem
      exact hnone (Finset.mem_image.mpr ⟨n, hn, by omega⟩)
    rw [missingDirectories_of_root_none hroot, if_neg hnone, if_neg hnone']
  | some level1 =>
    have hlevel0 := h.child_level1_iff hroot
    rw [if_pos (hlevel1.mp ⟨level1, hroot⟩)]
    cases hslot : child mem level1 (slotL1 (vpn <<< 12)) with
    | none =>
      rw [missingDirectories_of_level1_none hroot hslot, if_neg]
      rw [← hlevel0, hslot]
      rintro ⟨g, hg⟩
      cases hg
    | some level0 =>
      rw [if_pos (hlevel0.mp ⟨level0, hslot⟩)]
      simp [missingDirectories, pteAddr_getL2, pteAddr_getL1, isValid_eq,
        getPageNum_of_child hroot, hroot, hslot]

end Pruned

/-! ## The operations -/

/-- The page tables carry these address spaces, and what their entries point to has a mapped page
at or below it. -/
structure Accounted (K : KernelImage) (spaces : BitVec 64 → Option Space) (s : Paging) : Prop
    extends Refines K spaces s where
  page_lt : ∀ {t A n}, spaces t = some A → n ∈ A.pages → n < 2 ^ 27
  pruned : ∀ {t A p f}, spaces t = some A → p ≠ [] → p.length ≤ 3 →
    Forest.walk (child s.mem) t p = some f →
      ∃ vpn : BitVec 64, vpn.toNat % 2 ^ 27 ∈ A.pages ∧ p <+: vpnPath vpn

namespace Accounted

variable {K : KernelImage} {spaces : BitVec 64 → Option Space} {s s' : Paging} {A : Space}
  {t pt vpn virtualAddress physicalAddress : BitVec 64} {perm : Permissions} {n : ℕ}

/-- Before any page is allocated. -/
theorem pageAllocInit {mem : Mem} (hzero : ∀ x : BitVec 64, x >>> 12 ∈ managed K → mem x = 0) :
    Accounted K (fun _ => none) { alloc := R5O5.pageAllocInit K, mem } where
  toRefines := Refines.pageAllocInit hzero
  page_lt h := by cases h
  pruned h := by cases h

/-- The table of an address space has directories only where a page asks for them. -/
theorem prunedAt (h : Accounted K spaces s) (ht : spaces t = some A) :
    Pruned s.mem t A.pages where
  mapped {n} hn := by
    have hvpn : (BitVec.ofNat 64 n).toNat % 2 ^ 27 = n := by
      have hlt := h.page_lt ht hn
      rw [BitVec.toNat_ofNat]
      omega
    obtain ⟨f, hwalk⟩ := isVirtualPageAllocated_iff.mp
      ((h.isVirtualPageAllocated_iff ht : _ ↔ (BitVec.ofNat 64 n).toNat % 2 ^ 27 ∈ A.pages).mpr
        (by rwa [hvpn]))
    exact ⟨_, f, hvpn, hwalk⟩
  below := h.pruned ht

theorem pruned_of_own (h : Accounted K spaces s) {live : Set (BitVec 64)} {own : Places}
    {leaked : ℕ} (hinv : s.Inv K live own leaked) {f : BitVec 64} {p : List (Fin numPte)}
    (ht : spaces t = some A) (hlive : t ∈ live) (hp : p ≠ []) (hf : own f = some (t, p)) :
    ∃ vpn : BitVec 64, vpn.toNat % 2 ^ 27 ∈ A.pages ∧ p <+: vpnPath vpn :=
  have hlength := hinv.owned.length_le hf
  h.pruned ht hp hlength ((hinv.owned.walk_eq_some_iff hlive hlength).mpr hf)

/-- A new table takes one frame. -/
theorem allocatePageTable_cases (h : Accounted K spaces s) :
    (∃ (t : BitVec 64) (s' : Paging), R5O5.allocatePageTable s = .ok (t <<< 12, s') ∧
      spaces t = none ∧ Accounted K (Function.update spaces t (some .empty)) s' ∧
      s.alloc.numFreePages = s'.alloc.numFreePages + 1) ∨
    (R5O5.allocatePageTable s = .error (.error "allocatePage: No Free Page") ∧
      s.alloc.numFreePages = 0) := by
  obtain ⟨own, leaked, hinv⟩ := h.inv
  cases hfree : s.alloc.freeList with
  | nil =>
    refine Or.inr ⟨?_, by rw [← s.alloc.length_freeList, hfree, List.length_nil]⟩
    rw [R5O5.allocatePageTable, allocatePageDirectory, allocatePage_of_nil hfree, Except.error_bind]
  | cons top rest =>
    obtain ⟨a, halloc, -, -⟩ := allocatePage_of_freeList hinv.ledger.wellFormed hfree
    obtain ⟨s', hok⟩ : ∃ s', R5O5.allocatePageTable s = .ok (top <<< 12, s') := by
      rw [R5O5.allocatePageTable, allocatePageDirectory, halloc]
      exact ⟨_, rfl⟩
    obtain ⟨g, hg, hfree', hinv', -⟩ := hinv.allocatePageTable hok
    obtain ⟨t, ht, hnone, h'⟩ := h.allocatePageTable hok
    -- the table is the address of its root
    have hgt : t = g := by
      obtain ⟨own', leaked', hroot⟩ := h'.inv
      have htlt :=
        hroot.toNat_lt (hroot.owned.own_root (Refines.mem_live (Function.update_self ..)))
      have hglt := hinv'.toNat_lt (Function.update_self ..)
      rw [← page_shiftLeft htlt, ← ht, hg, page_shiftLeft hglt]
    subst hgt
    refine Or.inl ⟨t, s', by rw [hok, ht], hnone, ⟨h', ?_, ?_⟩, ?_⟩
    · intro t' A n ht' hn
      rcases eq_or_ne t' t with rfl | hne
      · rw [Function.update_self] at ht'
        cases ht'
        exact absurd hn (Finset.notMem_empty n)
      · rw [Function.update_of_ne hne] at ht'
        exact h.page_lt ht' hn
    -- the new root has nothing below it, and the other tables are as before
    · intro t' A p f ht' hp hlength hwalk
      have hlive := Refines.mem_live ht'
      rw [Refines.setOf_isSome_update] at hlive
      have hf := (hinv'.owned.walk_eq_some_iff hlive hlength).mp hwalk
      have hne : f ≠ t := by
        rintro rfl
        rw [Function.update_self] at hf
        cases hf
        exact hp rfl
      rw [Function.update_of_ne hne] at hf
      have hlive' := hinv.owned.mem_live hf
      have htt : t' ≠ t := by
        rintro rfl
        rw [Set.mem_ofPred_eq, hnone] at hlive'
        cases hlive'
      rw [Function.update_of_ne htt] at ht'
      exact h.pruned_of_own hinv ht' hlive' hp hf
    · rw [← s.alloc.length_freeList, ← s'.alloc.length_freeList, hfree', List.length_cons]

/-- The free frames that become directories are empty. -/
theorem emptyDirectory_of_drop (h : Accounted K spaces s) {k : ℕ} {f : BitVec 64} {m : ℕ}
    (hf : f ∈ (s.alloc.freeList.drop k).take m) : EmptyDirectory s.mem f := by
  obtain ⟨own, leaked, hinv⟩ := h.inv
  have hfree : f ∈ s.alloc.freeList := List.mem_of_mem_drop (List.mem_of_mem_take hf)
  exact h.emptyDirectory_of_free hfree (toNat_lt_of_managed (hinv.ledger.managed_of_free hfree))

/-- A new page takes the frames that its number asks for. -/
theorem allocateVirtualPage_cases (h : Accounted K spaces s) (ht : spaces t = some A)
    (vpn : BitVec 64) (perm : Permissions) :
    (vpn.toNat % 2 ^ 27 ∉ A.pages ∧ ∃ s', R5O5.allocateVirtualPage (t <<< 12) vpn perm s = .ok s' ∧
      Accounted K (Function.update spaces t (some (A.mapPage (vpn.toNat % 2 ^ 27)))) s' ∧
      s.alloc.numFreePages + frameDemand A.pages =
        s'.alloc.numFreePages + frameDemand (insert (vpn.toNat % 2 ^ 27) A.pages)) ∨
    (vpn.toNat % 2 ^ 27 ∉ A.pages ∧
      R5O5.allocateVirtualPage (t <<< 12) vpn perm s =
        .error (.error "allocatePage: No Free Page") ∧
      s.alloc.numFreePages + frameDemand A.pages <
        frameDemand (insert (vpn.toNat % 2 ^ 27) A.pages)) ∨
    (vpn.toNat % 2 ^ 27 ∈ A.pages ∧ R5O5.allocateVirtualPage (t <<< 12) vpn perm s =
      .error (.error "allocateVirtualPage: Virtual Page Already given a physical page")) := by
  by_cases hmapped : vpn.toNat % 2 ^ 27 ∈ A.pages
  · refine Or.inr (Or.inr ⟨hmapped, ?_⟩)
    rw [R5O5.allocateVirtualPage, if_pos ((h.isVirtualPageAllocated_iff ht).mpr hmapped)]
  have hnot : ¬isVirtualPageAllocated s.mem (t <<< 12) vpn = true :=
    fun heq => hmapped ((h.isVirtualPageAllocated_iff ht).mp heq)
  obtain ⟨own, leaked, hinv⟩ := h.inv
  have hlive := Refines.mem_live ht
  -- the frames taken in all
  have htakes : Takes (2 + newDirectories A.pages (vpn.toNat % 2 ^ 27)) s
      (R5O5.allocateVirtualPage (t <<< 12) vpn perm s) := by
    rw [← (h.prunedAt ht).missingDirectories_eq, Nat.add_comm, R5O5.allocateVirtualPage,
      if_neg hnot]
    cases hfree : s.alloc.freeList with
    | nil =>
      rw [allocatePage_of_nil hfree, Except.error_bind]
      exact takes_of_nil hfree (Nat.succ_pos _) rfl
    | cons u rest =>
      obtain ⟨a, halloc, hrest, -⟩ := allocatePage_of_freeList hinv.ledger.wellFormed hfree
      obtain ⟨hledger, -, -⟩ := hinv.ledger.allocatePage halloc
      have hleak : Paging.Inv K {t | (spaces t).isSome} own (leaked + 1) { s with alloc := a } :=
        { hinv with ledger := hledger }
      rw [halloc, Except.ok_bind]
      refine Takes.of_cons (hleak.takes_mapVirtualPage hlive (fun f hf => ?_) ?_ u perm) hfree hrest
      · exact h.emptyDirectory_of_drop (k := 1) (m := missingDirectories s.mem (t <<< 12) vpn)
          (by rw [hfree, List.drop_one, List.tail_cons, ← hrest]; exact hf)
      · rw [Option.eq_none_iff_forall_ne_some]
        exact fun f hwalk => hnot (isVirtualPageAllocated_iff.mpr ⟨f, hwalk⟩)
  have hdemand := frameDemand_insert hmapped
  rcases htakes with ⟨s', hok, hcount⟩ | ⟨herr, hlt⟩
  case inr => exact Or.inr (Or.inl ⟨hmapped, herr, by omega⟩)
  refine Or.inl ⟨hmapped, s', hok, ⟨(h.allocateVirtualPage ht hok).2, ?_, ?_⟩, by omega⟩
  · intro t' A' n ht' hn
    rcases eq_or_ne t' t with rfl | hne
    · rw [Function.update_self] at ht'
      cases ht'
      rcases Finset.mem_insert.mp hn with rfl | hn
      · exact Nat.mod_lt _ (by decide)
      · exact h.page_lt ht hn
    · rw [Function.update_of_ne hne] at ht'
      exact h.page_lt ht' hn
  -- a new node is on the way to the new page
  · intro t' A' p f ht' hp hlength hwalk
    obtain ⟨own', leaf, -, -, hinv', hext⟩ :=
      hinv.allocateVirtualPage hlive (fun f hf => h.emptyDirectory_of_drop hf) hok
    have hlive' := Refines.mem_live ht'
    rw [Refines.setOf_isSome_update_of_some ht] at hlive'
    have hf := (hinv'.owned.walk_eq_some_iff hlive' hlength).mp hwalk
    rcases hext.new hf with hf | ⟨-, hroot, hpre⟩
    · rcases eq_or_ne t' t with rfl | hne
      · rw [Function.update_self] at ht'
        cases ht'
        obtain ⟨vpn', hmem, hpre⟩ := h.pruned_of_own hinv ht hlive hp hf
        exact ⟨vpn', Finset.mem_insert_of_mem hmem, hpre⟩
      · rw [Function.update_of_ne hne] at ht'
        exact h.pruned_of_own hinv ht' hlive' hp hf
    · obtain rfl : t' = t := hroot
      rw [Function.update_self] at ht'
      cases ht'
      exact ⟨vpn, Finset.mem_insert_self .., hpre⟩

/-- A byte stored through a table takes no frame. -/
theorem store (h : Accounted K spaces s) (ht : spaces t = some A)
    (hok : virtualToPhysical s.mem (t <<< 12) virtualAddress = .ok physicalAddress)
    (byte : BitVec 8) :
    ∃ hmapped : spaceAddr virtualAddress / pgsize ∈ A.pages,
      Accounted K
        (Function.update spaces t (some (A.store (spaceAddr virtualAddress) byte hmapped)))
        { s with mem := s.mem.write physicalAddress byte } := by
  obtain ⟨hmapped, h'⟩ := h.toRefines.store ht hok byte
  have hpages {t' : BitVec 64} {A' : Space} (ht' : Function.update spaces t
      (some (A.store (spaceAddr virtualAddress) byte hmapped)) t' = some A') :
      ∃ A₀, spaces t' = some A₀ ∧ A₀.pages = A'.pages := by
    rcases eq_or_ne t' t with rfl | hne
    · rw [Function.update_self] at ht'
      cases ht'
      exact ⟨A, ht, rfl⟩
    · rw [Function.update_of_ne hne] at ht'
      exact ⟨A', ht', rfl⟩
  refine ⟨hmapped, h', ?_, ?_⟩
  · intro t' A' n ht' hn
    obtain ⟨A₀, ht₀, heq⟩ := hpages ht'
    exact h.page_lt ht₀ (by rwa [heq])
  · intro t' A' p f ht' hp hlength hwalk
    obtain ⟨A₀, ht₀, heq⟩ := hpages ht'
    obtain ⟨own, leaked, hinv⟩ := h.inv
    obtain ⟨g, hg, rfl⟩ := (virtualToPhysical_eq_ok_iff hinv (Refines.mem_live ht)).mp hok
    rw [← heq]
    refine h.pruned ht₀ hp hlength (f := f) ?_
    rw [← hwalk]
    -- the walk meets directories, and the byte lies in a leaf
    refine (Forest.walk_congr (n := 3) (fun {f' q} i hf' hq => ?_) p hlength).symm
    have hown := (hinv.owned.walk_eq_some_iff (Refines.mem_live ht₀) (Nat.le_of_lt hq)).mp hf'
    refine child_congr (hinv.toNat_lt hown) fun x hx => Mem.write_of_ne _ _ ?_
    rintro rfl
    rw [page_translated (hinv.toNat_lt hg)] at hx
    subst hx
    rw [hg] at hown
    cases hown
    exact absurd hq (by simp [path])

end Accounted

end R5O5
