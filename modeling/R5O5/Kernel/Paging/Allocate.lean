import R5O5.Kernel.Paging.Invariant

/-!
# Allocating tables and pages

What `allocatePageTable` and `allocateVirtualPage` do to the forest of page tables. A directory is
taken from the free stack as it is, so the statements ask that the frames which become directories
hold no valid entry.

## Main definitions

- `missingDirectories`, `directoryFrames`: the frames a call takes for directories;
- `EmptyDirectory`: a frame without valid entries;
- `Extension`: one tree of the forest has grown along one path.

## Main results

- `Paging.Inv.allocatePageTable`: a new tree that is a single root;
- `Paging.Inv.allocateVirtualPage`: one new leaf and the directories above it.
-/

namespace R5O5

/-- None of the entries of the frame is valid. -/
def EmptyDirectory (mem : Mem) (f : BitVec 64) : Prop := ∀ i, child mem f i = none

instance (mem : Mem) (f : BitVec 64) : Decidable (EmptyDirectory mem f) :=
  inferInstanceAs (Decidable (∀ _, _))

/-- How many directories are missing on the way to a virtual page. -/
def missingDirectories (mem : Mem) (pagetable virtualPageNum : BitVec 64) : ℕ :=
  let virtualAddress := virtualPageNum <<< 12
  let pteL2 := pteAddr pagetable (getL2 virtualAddress)
  if !isValid mem pteL2 then 2
  else
    let level1 := getPageNum (mem.load64 pteL2) <<< 12
    if !isValid mem (pteAddr level1 (getL1 virtualAddress)) then 1 else 0

/-- The free frames that `allocateVirtualPage` takes for the missing directories: those after the
first one, which `allocateVirtualPage` takes for itself. -/
def directoryFrames (s : Paging) (pagetable virtualPageNum : BitVec 64) : List (BitVec 64) :=
  (s.alloc.freeList.drop 1).take (missingDirectories s.mem pagetable virtualPageNum)

/-! ## Growing a tree -/

/-- The tree `t` has grown by some nodes on the way to `target`, taken from the free frames, and
memory has changed in directories of this tree only. -/
structure Extension (t : BitVec 64) (target : List (Fin numPte)) (own own' : Places)
    (s s' : Paging) : Prop where
  keeps : ∀ {f x}, own f = some x → own' f = some x
  new : ∀ {f x}, own' f = some x → own f = some x ∨
    f ∈ s.alloc.freeList ∧ x.1 = t ∧ x.2 <+: target
  mem_eq : ∀ {x : BitVec 64}, (∀ q, own' (x >>> 12) = some (t, q) → 3 ≤ q.length) →
    s'.mem x = s.mem x
  suffix : s'.alloc.freeList <:+ s.alloc.freeList

namespace Extension

variable {t : BitVec 64} {target : List (Fin numPte)} {own own' own'' : Places}
  {s s' s'' : Paging}

theorem trans (h : Extension t target own own' s s') (h' : Extension t target own' own'' s' s'') :
    Extension t target own own'' s s'' where
  keeps hf := h'.keeps (h.keeps hf)
  new hf := by
    rcases h'.new hf with hf | ⟨hfree, hx⟩
    · exact h.new hf
    · exact Or.inr ⟨h.suffix.subset hfree, hx⟩
  mem_eq hx := by
    rw [h'.mem_eq hx, h.mem_eq fun q hq => hx q (h'.keeps hq)]
  suffix := h'.suffix.trans h.suffix

/-- Bytes outside the directories of the tree stay, those of free frames in particular. -/
theorem mem_eq_of_free (h : Extension t target own own' s s') {x : BitVec 64}
    (hx : own' (x >>> 12) = none) : s'.mem x = s.mem x :=
  h.mem_eq fun q hq => by simp [hx] at hq

end Extension

section FillEntry

variable {K : KernelImage} {live : Set (BitVec 64)} {own : Places} {leaked : ℕ} {s s' : Paging}
  {f g t : BitVec 64} {p : List (Fin numPte)} {i : Fin numPte} {perm : Permissions}

/-- The flags of a page fit in 10 bits. -/
theorem toNat_flags_lt (perm : Permissions) : (pteV ||| perm.flags).toNat < 2 ^ 10 := by
  obtain ⟨read, write, execute⟩ := perm
  cases read <;> cases write <;> cases execute <;> decide

theorem flags_and_pteV (perm : Permissions) : (pteV ||| perm.flags) &&& pteV ≠ 0 := by
  obtain ⟨read, write, execute⟩ := perm
  cases read <;> cases write <;> cases execute <;> decide

/-- A valid entry is left alone. -/
theorem fillEntry_of_child (h : child s.mem f i = some g) :
    fillEntry (slotAddr f i) perm s = .ok s := by
  rw [fillEntry, isValid_eq, h]
  rfl

/-- An invalid entry gets the top of the free stack. -/
theorem fillEntry_eq_ok (h : child s.mem f i = none)
    (hok : fillEntry (slotAddr f i) perm s = .ok s') :
    ∃ g, allocatePage s.alloc = .ok (g, s'.alloc) ∧
      s'.mem = s.mem.store64 (slotAddr f i) (g <<< 10 ||| (pteV ||| perm.flags)) := by
  rw [fillEntry, isValid_eq, h, if_neg (by simp), Except.bind_eq_ok] at hok
  obtain ⟨⟨g, a⟩, halloc, hs'⟩ := hok
  cases hs'
  refine ⟨g, halloc, ?_⟩
  simp only [setFlags_eq, Mem.load64_store64_self, Mem.store64_store64_self, BitVec.or_assoc]

/-- After `fillEntry` the slot points to a node; a new one comes from the top of the free stack and
was without entries if it has to serve as a directory. -/
theorem Paging.Inv.fillEntry (target : List (Fin numPte)) (h : Inv K live own leaked s)
    (hf : own f = some (t, p)) (hp : p.length < 3) (hpre : p ++ [i] <+: target)
    (hperm : p.length < 2 → perm = ⟨true, false, false⟩)
    (hempty : p.length < 2 → child s.mem f i = none →
      ∀ g, s.alloc.freeList.head? = some g → EmptyDirectory s.mem g)
    (hok : R5O5.fillEntry (slotAddr f i) perm s = .ok s') :
    ∃ g own', child s'.mem f i = some g ∧ own' g = some (t, p ++ [i]) ∧
      Inv K live own' leaked s' ∧ Extension t target own own' s s' ∧
      s.alloc.freeList = (if child s.mem f i = none then [g] else []) ++ s'.alloc.freeList := by
  cases hchild : child s.mem f i with
  | some g =>
    rw [fillEntry_of_child hchild] at hok
    cases hok
    refine ⟨g, own, hchild, h.owned.own_child hf hp hchild, h, ?_, rfl⟩
    exact ⟨id, Or.inl, fun _ => rfl, List.suffix_rfl⟩
  | none =>
    obtain ⟨g, halloc, hmem⟩ := fillEntry_eq_ok hchild hok
    obtain ⟨hledger, hloose, hfree⟩ := h.ledger.allocatePage halloc
    have hg := toNat_lt_of_managed hloose.managed
    have hflt := h.toNat_lt hf
    -- the entry is not valid, so a frame is taken and linked
    have hentry : entry s'.mem f i = g <<< 10 ||| (pteV ||| perm.flags) := by
      rw [hmem, entry_store64_self]
    have hset : child s'.mem f i = some g :=
      child_of_entry hg (toNat_flags_lt perm) (flags_and_pteV perm) hentry
    have hleak : Inv K live own (leaked + 1) { s with alloc := s'.alloc } :=
      { h with ledger := hledger }
    refine ⟨g, Function.update own g (some (t, p ++ [i])), hset, Function.update_self .., ?_, ?_,
      hfree⟩
    · refine hleak.link (m := s'.mem) hloose hf hp hchild hset ?_ ?_ ?_
      · intro hp
        rw [hentry, getFlags_entry hg (toNat_flags_lt perm), hperm hp]
        rfl
      · intro hp
        exact hempty hp hchild g (by rw [hfree, List.head?_cons])
      · intro f' j hf' hne
        rw [hmem, entry_store64_of_ne hflt hf' hne]
    · constructor
      case keeps =>
        intro f' x hf'
        rw [Function.update_of_ne]
        · exact hf'
        · rintro rfl
          rw [hloose.own] at hf'
          cases hf'
      case new =>
        intro f' x hf'
        rcases eq_or_ne f' g with rfl | hne
        · rw [Function.update_self] at hf'
          cases hf'
          exact Or.inr ⟨by simp [hfree], rfl, hpre⟩
        · rw [Function.update_of_ne hne] at hf'
          exact Or.inl hf'
      case mem_eq =>
        intro x hx
        -- only the directory of the entry is written
        have hne : x >>> 12 ≠ f := by
          rintro rfl
          have hgx : x >>> 12 ≠ g := by
            rintro rfl
            rw [hloose.own] at hf
            cases hf
          have := hx p (by rw [Function.update_of_ne hgx, hf])
          omega
        rw [hmem, store64_slotAddr_of_page_ne hflt hne]
      case suffix =>
        rw [hfree]
        exact List.suffix_cons ..

end FillEntry

/-! ## Mapping a page -/

section MapVirtualPage

variable {K : KernelImage} {live : Set (BitVec 64)} {own : Places} {leaked : ℕ} {s s' : Paging}
  {f g t vpn ppn : BitVec 64} {perm : Permissions} {mem mem' : Mem}

/-- Without an entry in the root both directories are missing. -/
theorem missingDirectories_of_root_none (h : child mem t (slotL2 (vpn <<< 12)) = none) :
    missingDirectories mem (t <<< 12) vpn = 2 := by
  simp [missingDirectories, pteAddr_getL2, isValid_eq, h]

/-- Without an entry in the middle directory the last one is missing. -/
theorem missingDirectories_of_level1_none (hroot : child mem t (slotL2 (vpn <<< 12)) = some g)
    (h : child mem g (slotL1 (vpn <<< 12)) = none) :
    missingDirectories mem (t <<< 12) vpn = 1 := by
  simp [missingDirectories, pteAddr_getL2, pteAddr_getL1, isValid_eq, getPageNum_of_child hroot,
    hroot, h]

/-- Whether a directory is empty depends on its own bytes only. -/
theorem EmptyDirectory.congr (h : EmptyDirectory mem f) (hf : f.toNat < 2 ^ 44)
    (heq : ∀ x : BitVec 64, x >>> 12 = f → mem' x = mem x) : EmptyDirectory mem' f := fun i => by
  rw [child_congr hf heq, h i]

/-- `mapVirtualPage` adds what is missing on the way to the page, directories that were empty. -/
theorem Paging.Inv.mapVirtualPage (h : Inv K live own leaked s) (ht : t ∈ live)
    (hempty : ∀ f ∈ s.alloc.freeList.take (missingDirectories s.mem (t <<< 12) vpn),
      EmptyDirectory s.mem f)
    (hok : R5O5.mapVirtualPage (t <<< 12) vpn ppn perm s = .ok s') :
    ∃ own' f, own' f = some (t, vpnPath vpn) ∧ Inv K live own' leaked s' ∧
      Extension t (vpnPath vpn) own own' s s' := by
  simp only [R5O5.mapVirtualPage, Except.bind_eq_ok, pteAddr_getL2] at hok
  obtain ⟨s₁, hs₁, s₂, hs₂, hs'⟩ := hok
  have htown := h.owned.own_root ht
  -- the root directory
  obtain ⟨level1, own₁, hchild₁, hlevel1, h₁, hext₁, hfree₁⟩ :=
    h.fillEntry (vpnPath vpn) htown (by simp) ⟨_, rfl⟩ (fun _ => rfl)
      (fun _ hnone g hg => by
        refine hempty g ?_
        rw [missingDirectories_of_root_none hnone]
        cases hlist : s.alloc.freeList <;> simp_all) hs₁
  rw [getPageNum_of_child hchild₁, pteAddr_getL1] at hs₂ hs'
  -- the intermediate directory
  have hempty₁ : child s₁.mem level1 (slotL1 (vpn <<< 12)) = none →
      ∀ g, s₁.alloc.freeList.head? = some g → EmptyDirectory s₁.mem g := by
    intro hnone g hg
    obtain ⟨rest, hrest⟩ := List.head?_eq_some_iff.mp hg
    cases hroot : child s.mem t (slotL2 (vpn <<< 12)) with
    | some g' =>
      rw [fillEntry_of_child hroot] at hs₁
      cases hs₁
      refine hempty g ?_
      rw [missingDirectories_of_level1_none hchild₁ hnone, hrest]
      exact List.mem_cons_self
    | none =>
      rw [if_pos hroot] at hfree₁
      have hgempty : EmptyDirectory s.mem g := by
        refine hempty g ?_
        rw [missingDirectories_of_root_none hroot, hfree₁, hrest]
        simp
      have hgfree : g ∈ s₁.alloc.freeList := by simp [hrest]
      refine hgempty.congr (toNat_lt_of_managed (h₁.ledger.managed_of_free hgfree)) ?_
      rintro x rfl
      exact hext₁.mem_eq_of_free (h₁.ledger.own_of_free hgfree)
  obtain ⟨level0, own₂, hchild₂, hlevel0, h₂, hext₂, -⟩ :=
    h₁.fillEntry (vpnPath vpn) hlevel1 (by simp) ⟨_, rfl⟩ (fun _ => rfl)
      (fun _ => hempty₁) hs₂
  rw [getPageNum_of_child hchild₂, pteAddr_getL0] at hs'
  -- the final directory
  obtain ⟨leaf, own₃, -, hleaf, h₃, hext₃, -⟩ :=
    h₂.fillEntry (vpnPath vpn) hlevel0 (by simp) List.prefix_rfl
      (fun hp => by simp at hp) (fun hp => by simp at hp) hs'
  exact ⟨own₃, leaf, hleaf, h₃, (hext₁.trans hext₂).trans hext₃⟩

/-- `allocateVirtualPage` adds a leaf for the page and the directories above it; besides these it
takes one frame that nothing refers to afterwards. -/
theorem Paging.Inv.allocateVirtualPage (h : Inv K live own leaked s) (ht : t ∈ live)
    (hempty : ∀ f ∈ directoryFrames s (t <<< 12) vpn, EmptyDirectory s.mem f)
    (hok : R5O5.allocateVirtualPage (t <<< 12) vpn perm s = .ok s') :
    ∃ own' f, own f = none ∧ own' f = some (t, vpnPath vpn) ∧ Inv K live own' (leaked + 1) s' ∧
      Extension t (vpnPath vpn) own own' s s' := by
  rw [R5O5.allocateVirtualPage] at hok
  split at hok
  case isTrue => cases hok
  case isFalse hnot =>
    rw [Except.bind_eq_ok] at hok
    obtain ⟨⟨g, a⟩, halloc, hok⟩ := hok
    obtain ⟨hledger, -, hfree⟩ := h.ledger.allocatePage halloc
    -- the page taken first is overwritten in the entry and so lost
    have hleak : Inv K live own (leaked + 1) { s with alloc := a } := { h with ledger := hledger }
    obtain ⟨own', f, hf, h', hext⟩ := hleak.mapVirtualPage ht
      (fun f hf => hempty f (by simpa [directoryFrames, hfree] using hf)) hok
    refine ⟨own', f, ?_, hf, h', ?_⟩
    · -- the leaf is new, else the page would be mapped already
      rcases hext.new hf with hf | ⟨hfree', -⟩
      · refine absurd ?_ hnot
        rw [isVirtualPageAllocated_iff]
        exact ⟨f, (h.owned.walk_eq_some_iff ht (by simp)).mpr hf⟩
      · exact hledger.own_of_free hfree'
    · constructor
      case keeps => exact hext.keeps
      case new =>
        intro f' x hf'
        rcases hext.new hf' with hf' | ⟨hfree', hx⟩
        · exact Or.inl hf'
        · exact Or.inr ⟨by rw [hfree]; exact List.mem_cons_of_mem _ hfree', hx⟩
      case mem_eq => exact hext.mem_eq
      case suffix =>
        rw [hfree]
        exact hext.suffix.trans (List.suffix_cons ..)

/-! ### Enough free pages -/

/-- An entry can be filled while there is a free frame. -/
theorem exists_fillEntry (addr : BitVec 64) (perm : Permissions) (h : s.alloc.WellFormed)
    (hfree : 0 < s.alloc.numFreePages) :
    ∃ s', fillEntry addr perm s = .ok s' ∧ s'.alloc.WellFormed ∧
      s.alloc.numFreePages ≤ s'.alloc.numFreePages + 1 := by
  rw [fillEntry]
  split
  case isTrue => exact ⟨s, rfl, h, Nat.le_succ _⟩
  case isFalse =>
    obtain ⟨pageNum, a, hok, hwf, hcount⟩ := exists_allocatePage h hfree
    rw [hok]
    exact ⟨_, rfl, hwf, Nat.le_of_eq hcount⟩

/-- With three free pages a page can be mapped. -/
theorem exists_mapVirtualPage (pagetable vpn ppn : BitVec 64) (perm : Permissions)
    (h : s.alloc.WellFormed) (hfree : 3 ≤ s.alloc.numFreePages) :
    ∃ s', mapVirtualPage pagetable vpn ppn perm s = .ok s' ∧ s'.alloc.WellFormed ∧
      s.alloc.numFreePages ≤ s'.alloc.numFreePages + 3 := by
  rw [mapVirtualPage]
  obtain ⟨s₁, hs₁, hwf₁, hle₁⟩ :=
    exists_fillEntry (pteAddr pagetable (getL2 (vpn <<< 12))) ⟨true, false, false⟩ h (by omega)
  simp only [hs₁, Except.ok_bind]
  obtain ⟨s₂, hs₂, hwf₂, hle₂⟩ := exists_fillEntry
    (pteAddr (getPageNum (s₁.mem.load64 (pteAddr pagetable (getL2 (vpn <<< 12)))) <<< 12)
      (getL1 (vpn <<< 12))) ⟨true, false, false⟩ hwf₁ (by omega)
  simp only [hs₂, Except.ok_bind]
  obtain ⟨s₃, hs₃, hwf₃, hle₃⟩ := exists_fillEntry
    (pteAddr (getPageNum (s₂.mem.load64 (pteAddr
      (getPageNum (s₁.mem.load64 (pteAddr pagetable (getL2 (vpn <<< 12)))) <<< 12)
      (getL1 (vpn <<< 12)))) <<< 12) (getL0 (vpn <<< 12))) perm hwf₂ (by omega)
  exact ⟨s₃, hs₃, hwf₃, by omega⟩

/-- With four free pages a page can be allocated. -/
theorem exists_allocateVirtualPage {pagetable vpn : BitVec 64} (perm : Permissions)
    (h : s.alloc.WellFormed) (hfree : 4 ≤ s.alloc.numFreePages)
    (hnot : isVirtualPageAllocated s.mem pagetable vpn = false) :
    ∃ s', allocateVirtualPage pagetable vpn perm s = .ok s' ∧ s'.alloc.WellFormed ∧
      s.alloc.numFreePages ≤ s'.alloc.numFreePages + 4 := by
  rw [allocateVirtualPage, hnot, if_neg (by decide)]
  obtain ⟨pageNum, a, hok, hwf, hcount⟩ := exists_allocatePage h (by omega)
  rw [hok, Except.ok_bind]
  obtain ⟨s', hs', hwf', hle⟩ := exists_mapVirtualPage (s := { s with alloc := a }) pagetable vpn
    pageNum perm hwf (by dsimp only; omega)
  dsimp only at hle
  exact ⟨s', hs', hwf', by omega⟩

end MapVirtualPage

/-! ## A new table -/

section AllocatePageTable

variable {K : KernelImage} {live : Set (BitVec 64)} {own : Places} {leaked : ℕ} {s s' : Paging}
  {f pt : BitVec 64}

theorem clearEntries_cons (f : BitVec 64) (i : Fin numPte) (slots : List (Fin numPte)) (mem : Mem) :
    clearEntries (f <<< 12) (i :: slots) mem = clearEntries (f <<< 12) slots
      (mem.store64 (slotAddr f i) (entry mem f i &&& ~~~pteV)) := rfl

/-- Clearing writes to the directory only. -/
theorem clearEntries_of_page_ne (hf : f.toNat < 2 ^ 44) (slots : List (Fin numPte)) (mem : Mem)
    {x : BitVec 64} (hx : x >>> 12 ≠ f) : clearEntries (f <<< 12) slots mem x = mem x := by
  induction slots generalizing mem with
  | nil => rfl
  | cons i slots ih =>
    rw [clearEntries_cons, ih, store64_slotAddr_of_page_ne hf hx]

theorem child_of_entry_and (mem : Mem) (i : Fin numPte) (w : BitVec 64)
    (h : entry mem f i = w &&& ~~~pteV) : child mem f i = none := by
  have hclear : getFlags (w &&& ~~~pteV) &&& pteV = 0 := by
    have hmask : (~~~pteV : BitVec 64) &&& 0x3ff &&& pteV = 0 := by decide
    rw [getFlags, BitVec.and_assoc w, BitVec.and_assoc w, hmask]
    exact BitVec.and_zero
  rw [child, isValid, ← entry, h, hclear]
  rfl

/-- A cleared entry stays cleared. -/
theorem child_clearEntries (hf : f.toNat < 2 ^ 44) (slots : List (Fin numPte)) (mem : Mem)
    {i : Fin numPte} (h : i ∈ slots ∨ child mem f i = none) :
    child (clearEntries (f <<< 12) slots mem) f i = none := by
  induction slots generalizing mem with
  | nil =>
    rcases h with h | h
    · cases h
    · exact h
  | cons j slots ih =>
    rw [clearEntries_cons]
    refine ih _ ?_
    rcases eq_or_ne i j with rfl | hij
    · exact Or.inr (child_of_entry_and _ _ _ entry_store64_self)
    · rw [child_eq_of_entry_eq (entry_store64_of_ne hf hf (by simp [hij]))]
      exact h.imp_left fun h => (List.mem_cons.mp h).resolve_left hij

/-- Nothing is written when the entries of the new table are clear already. -/
theorem allocatePageTable_of_clear {g : BitVec 64} {a : PageAllocator}
    (halloc : allocatePage s.alloc = .ok (g, a))
    (hclear : ∀ i, entry s.mem g i &&& ~~~pteV = entry s.mem g i) :
    allocatePageTable s = .ok (g <<< 12, { alloc := a, mem := s.mem }) := by
  have hslots : ∀ slots : List (Fin numPte), clearEntries (g <<< 12) slots s.mem = s.mem := by
    intro slots
    induction slots with
    | nil => rfl
    | cons i slots ih =>
      rw [clearEntries_cons, hclear i, entry, Mem.store64_load64_self, ih]
  rw [allocatePageTable, allocatePageDirectory, halloc, Except.ok_bind]
  simp only [hslots]
  rfl

/-- A new table is an empty directory that was the top of the free stack. -/
theorem Paging.Inv.allocatePageTable (h : Inv K live own leaked s)
    (hok : R5O5.allocatePageTable s = .ok (pt, s')) :
    ∃ g : BitVec 64, pt = g <<< 12 ∧ s.alloc.freeList = g :: s'.alloc.freeList ∧
      Inv K (insert g live) (Function.update own g (some (g, []))) leaked s' ∧
      ∀ x : BitVec 64, x >>> 12 ≠ g → s'.mem x = s.mem x := by
  rw [R5O5.allocatePageTable, allocatePageDirectory, Except.bind_eq_ok] at hok
  obtain ⟨⟨g, a⟩, halloc, hs'⟩ := hok
  cases hs'
  obtain ⟨hledger, hloose, hfree⟩ := h.ledger.allocatePage halloc
  have hg := toNat_lt_of_managed hloose.managed
  have hleak : Inv K live own (leaked + 1) { s with alloc := a } := { h with ledger := hledger }
  have hother : ∀ x : BitVec 64, x >>> 12 ≠ g →
      clearEntries (g <<< 12) (List.finRange numPte) s.mem x = s.mem x :=
    fun x hx => clearEntries_of_page_ne hg _ _ hx
  refine ⟨g, rfl, hfree, ?_, by simpa only using hother⟩
  refine hleak.addRoot (m := clearEntries (g <<< 12) (List.finRange numPte) s.mem) hloose
    (fun j => child_clearEntries hg _ _ (Or.inl (List.mem_finRange j))) ?_
  intro f' j hf' hne
  refine entry_congr hf' ?_
  rintro x rfl
  exact hother x hne

end AllocatePageTable

end R5O5
