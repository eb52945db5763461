import R5O5.Kernel.Paging.Demand
import R5O5.Kernel.Paging.Mapping
import R5O5.Kernel.Paging.Separation

/-!
# Two runs of the paging code

What the paging code does depends on the free stack, on the entries in the directories, and on the
frames it takes from the stack. The bytes in the pages do not matter, and neither do those of a free
frame until it is taken. Two states with the same free stack and the same entries are in step. A
table grows in step in both while the frames that become directories hold no entries, and it reads
alike where the frames that become pages held the same bytes.

## Main definitions

- `Paired`: two states with the same free stack and the same entries;
- `Twin`: two states between which one table grows in step;
- `Reusable`: the frames that a list of pages takes from the stack may be reused;
- `Growing`: a table with these pages has grown in step.

## Main results

- `Paired.allocatePageTable`, `Paired.allocateVirtualPage`: the growing table;
- `Paired.write`, `Paired.deallocatePageTable`: stores into pages, and the end of a table;
- `Growing.allocateVirtualPage`, `Growing.write`: pages and bytes of the growing table.
-/

namespace R5O5

/-- The free stacks are the same, and so are the entries of the directories. -/
structure Paired (K : KernelImage) (live : Set (BitVec 64)) (own : Places) (leaked : ℕ)
    (s s' : Paging) : Prop where
  inv : s.Inv K live own leaked
  inv' : s'.Inv K live own leaked
  freeList : s'.alloc.freeList = s.alloc.freeList
  children : ∀ {f y} i, own f = some y → y.2.length < 3 → child s'.mem f i = child s.mem f i

section Allocator

variable {a a' : PageAllocator}

/-- Allocators with the same free stack. -/
def SameStack (r r' : BitVec 64 × PageAllocator) : Prop :=
  r'.1 = r.1 ∧ r'.2.freeList = r.2.freeList

theorem allocatePage_related (ha : a.WellFormed) (ha' : a'.WellFormed)
    (hfree : a'.freeList = a.freeList) :
    Except.Related SameStack (allocatePage a) (allocatePage a') := by
  cases hlist : a.freeList with
  | nil =>
    have hnum : a.numFreePages = 0 := by rw [← a.length_freeList, hlist, List.length_nil]
    have hnum' : a'.numFreePages = 0 := by
      rw [← a'.length_freeList, hfree, hlist, List.length_nil]
    rw [allocatePage, allocatePage, if_pos hnum, if_pos hnum']
    exact Except.Related.error _
  | cons g rest =>
    obtain ⟨b, hb, hrest, -⟩ := allocatePage_of_freeList ha hlist
    obtain ⟨b', hb', hrest', -⟩ := allocatePage_of_freeList ha' (hfree.trans hlist)
    rw [hb, hb']
    exact ⟨rfl, hrest'.trans hrest.symm⟩

end Allocator

section Inv

variable {K : KernelImage} {live : Set (BitVec 64)} {own own' : Places} {leaked leaked' : ℕ}
  {s s' : Paging} {t f f' virtualAddress : BitVec 64} {mem : Mem}

/-- The walks down a table are the same when its directories are. -/
theorem Paging.Inv.walk_congr (h : s.Inv K live own leaked) (ht : t ∈ live)
    (hkeep : ∀ {f p} i, own f = some (t, p) → p.length < 3 → child mem f i = child s.mem f i)
    (p : List (Fin numPte)) (hp : p.length ≤ 3) :
    Forest.walk (child mem) t p = Forest.walk (child s.mem) t p := by
  refine Forest.walk_congr (fun i hwalk hq => ?_) p hp
  exact hkeep i ((h.owned.walk_eq_some_iff ht (by omega)).mp hwalk) hq

/-- The places of the frames follow from the entries of the directories. -/
theorem Paging.Inv.own_eq (h : s.Inv K live own leaked) (h' : s'.Inv K live own' leaked')
    (hkeep : ∀ {f y} i, own f = some y → y.2.length < 3 → child s'.mem f i = child s.mem f i) :
    own' = own := by
  have hiff : ∀ f t p, own' f = some (t, p) ↔ own f = some (t, p) := by
    intro f t p
    constructor
    · intro hf
      have ht := h'.owned.mem_live hf
      have hp := h'.owned.length_le hf
      rw [← h.owned.walk_eq_some_iff ht hp, ← h.walk_congr ht (fun i hf hq => hkeep i hf hq) p hp]
      exact (h'.owned.walk_eq_some_iff ht hp).mpr hf
    · intro hf
      have ht := h.owned.mem_live hf
      have hp := h.owned.length_le hf
      rw [← h'.owned.walk_eq_some_iff ht hp, h.walk_congr ht (fun i hf hq => hkeep i hf hq) p hp]
      exact (h.owned.walk_eq_some_iff ht hp).mpr hf
  funext f
  exact Option.ext fun x => hiff f x.1 x.2

/-- A byte written to a page of a table lies in its frame. -/
theorem Paging.Inv.write_of_page_ne {y} (h : s.Inv K live own leaked)
    (hf : own f = some y) (hne : f' ≠ f) (mem : Mem) (byte : BitVec 8) {x : BitVec 64}
    (hx : x >>> 12 = f') : mem.write (f <<< 12 ||| getOffset virtualAddress) byte x = mem x := by
  refine Mem.write_of_ne _ _ ?_
  rintro rfl
  rw [page_translated (h.toNat_lt hf)] at hx
  exact hne hx.symm

/-- A store into a page leaves the entries of all directories alone. -/
theorem Paging.Inv.entry_write (h : s.Inv K live own leaked)
    (hf : own f = some (t, path virtualAddress)) {y} (hf' : own f' = some y)
    (hlt : y.2.length < 3) (mem : Mem) (byte : BitVec 8) (i : Fin numPte) :
    entry (mem.write (f <<< 12 ||| getOffset virtualAddress) byte) f' i = entry mem f' i := by
  refine entry_congr (h.toNat_lt hf') fun x hx => h.write_of_page_ne hf ?_ mem byte hx
  rintro rfl
  -- the byte lies in a leaf
  rw [hf] at hf'
  cases hf'
  simp [path] at hlt

/-- A store into a page keeps the invariant. -/
theorem Paging.Inv.write (h : s.Inv K live own leaked)
    (hf : own f = some (t, path virtualAddress)) (byte : BitVec 8) :
    Inv K live own leaked
      { s with mem := s.mem.write (f <<< 12 ||| getOffset virtualAddress) byte } :=
  h.setMem fun _ _ _ _ hf' hq => h.entry_write hf hf' hq s.mem byte _

end Inv

/-- A tree that has grown from fewer free frames has grown from more of them. -/
theorem Extension.of_suffix {t : BitVec 64} {target : List (Fin numPte)} {own own' : Places}
    {s r : Paging} {a : PageAllocator} (h : Extension t target own own' { s with alloc := a } r)
    (hsuffix : a.freeList <:+ s.alloc.freeList) : Extension t target own own' s r where
  keeps := h.keeps
  new hf := (h.new hf).imp_right fun hnew => ⟨hsuffix.subset hnew.1, hnew.2⟩
  mem_eq := h.mem_eq
  suffix := h.suffix.trans hsuffix

namespace Paired

variable {K : KernelImage} {live : Set (BitVec 64)} {own : Places} {leaked : ℕ}
  {s s' r r' : Paging} {f t vpn ppn virtualAddress physicalAddress : BitVec 64} {i : Fin numPte}
  {p target : List (Fin numPte)} {perm : Permissions}

/-- Two states are in step when the invariant holds of both and their entries agree. -/
theorem of_inv {own' : Places} (h : s.Inv K live own leaked) (h' : s'.Inv K live own' leaked)
    (hfree : s'.alloc.freeList = s.alloc.freeList)
    (hkeep : ∀ {f y} i, own f = some y → y.2.length < 3 → child s'.mem f i = child s.mem f i) :
    Paired K live own leaked s s' := by
  obtain rfl := h.own_eq h' hkeep
  exact ⟨h, h', hfree, hkeep⟩

theorem walk_eq (h : Paired K live own leaked s s') (ht : t ∈ live) (p : List (Fin numPte))
    (hp : p.length ≤ 3) : Forest.walk (child s'.mem) t p = Forest.walk (child s.mem) t p :=
  h.inv.walk_congr ht (fun i hf hlt => h.children i hf hlt) p hp

theorem virtualToPhysical_eq (h : Paired K live own leaked s s') (ht : t ∈ live) :
    virtualToPhysical s'.mem (t <<< 12) virtualAddress =
      virtualToPhysical s.mem (t <<< 12) virtualAddress :=
  Tables.virtualToPhysical_congr (h.walk_eq ht _ (by simp [path]))

theorem isVirtualPageAllocated_eq (h : Paired K live own leaked s s') (ht : t ∈ live) :
    isVirtualPageAllocated s'.mem (t <<< 12) vpn = isVirtualPageAllocated s.mem (t <<< 12) vpn := by
  rw [R5O5.isVirtualPageAllocated_eq, R5O5.isVirtualPageAllocated_eq, h.walk_eq ht _ (by simp)]

/-- A frame is taken from the free stack and not used. -/
theorem allocatePage (h : Paired K live own leaked s s') :
    Except.Related (fun r r' => r'.1 = r.1 ∧ s.alloc.freeList = r.1 :: r.2.freeList ∧
        Paired K live own (leaked + 1) { s with alloc := r.2 } { s' with alloc := r'.2 })
      (R5O5.allocatePage s.alloc) (R5O5.allocatePage s'.alloc) := by
  refine (allocatePage_related h.inv.ledger.wellFormed h.inv'.ledger.wellFormed
    h.freeList).returned.mono ?_
  rintro ⟨g, a⟩ ⟨g', a'⟩ ⟨⟨hg, hfree⟩, hres, hres'⟩
  obtain ⟨hledger, -, hlist⟩ := h.inv.ledger.allocatePage hres
  obtain ⟨hledger', -, -⟩ := h.inv'.ledger.allocatePage hres'
  exact ⟨hg, hlist, { h.inv with ledger := hledger }, { h.inv' with ledger := hledger' }, hfree,
    h.children⟩

/-- How two states have grown in step: the same nodes are new, on the way to `target`. -/
structure Extended (K : KernelImage) (live : Set (BitVec 64)) (t : BitVec 64)
    (target : List (Fin numPte)) (leaked : ℕ) (own own' : Places) (s s' r r' : Paging) :
    Prop where
  paired : Paired K live own' leaked r r'
  extension : Extension t target own own' s r
  extension' : Extension t target own own' s' r'

theorem Extended.trans {own' own'' : Places} {leaked leaked' : ℕ} {q q' : Paging}
    (h : Extended K live t target leaked own own' s s' r r')
    (h' : Extended K live t target leaked' own' own'' r r' q q') :
    Extended K live t target leaked' own own'' s s' q q' :=
  ⟨h'.paired, h.extension.trans h'.extension, h.extension'.trans h'.extension'⟩

/-- An entry is filled with the same frame in both. The entries agree again: the new directory, if
it is one, is empty in both. -/
theorem children_of_filled {own₁ : Places} {leaked₁ : ℕ} {g : BitVec 64} {q : List (Fin numPte)}
    (h : Paired K live own leaked s s') (hinv : r.Inv K live own₁ leaked₁)
    (hext : Extension t target own own₁ s r) (hfree : s.alloc.freeList = g :: r.alloc.freeList)
    (hg : own₁ g = some (t, q)) (hfilled : Filled f i g s.mem r.mem)
    (hfilled' : Filled f i g s'.mem r'.mem)
    (hdir : q.length < 3 → EmptyDirectory s.mem g ∧ EmptyDirectory s'.mem g) {f' : BitVec 64} {y}
    (j : Fin numPte) (hf' : own₁ f' = some y) (hlt : y.2.length < 3) :
    child r'.mem f' j = child r.mem f' j := by
  have hf'lt := hinv.toNat_lt hf'
  rw [hfilled.child_eq hf'lt, hfilled'.child_eq hf'lt]
  split
  case isTrue => rfl
  case isFalse =>
    rcases hext.new hf' with hold | ⟨hnew, -⟩
    · exact h.children j hold hlt
    · -- of the free frames only `g` is taken
      have hgf : f' = g := by
        rw [hfree] at hnew
        refine (List.mem_cons.mp hnew).resolve_right fun hmem => ?_
        rw [hinv.ledger.own_of_free hmem] at hf'
        cases hf'
      subst hgf
      rw [hg] at hf'
      cases hf'
      rw [(hdir hlt).1 j, (hdir hlt).2 j]

/-- An entry is filled alike; then both point to the same frame. -/
theorem fillEntry (target : List (Fin numPte)) (h : Paired K live own leaked s s')
    (hf : own f = some (t, p)) (hp : p.length < 3) (hpre : p ++ [i] <+: target)
    (hperm : p.length < 2 → perm = ⟨true, false, false⟩)
    (hempty : p.length < 2 → child s.mem f i = none →
      ∀ g, s.alloc.freeList.head? = some g → EmptyDirectory s.mem g ∧ EmptyDirectory s'.mem g) :
    Except.Related (fun r r' => ∃ own' g, Extended K live t target leaked own own' s s' r r' ∧
        own' g = some (t, p ++ [i]) ∧ child r.mem f i = some g ∧ child r'.mem f i = some g ∧
        (child s.mem f i = none → s.alloc.freeList = g :: r.alloc.freeList ∧
          (p.length < 2 → EmptyDirectory r.mem g)) ∧
        (child s.mem f i ≠ none → r = s))
      (R5O5.fillEntry (slotAddr f i) perm s) (R5O5.fillEntry (slotAddr f i) perm s') := by
  -- both directories have the same entries
  have hsame := h.children i hf hp
  cases hchild : child s.mem f i with
  | some g =>
    rw [hchild] at hsame
    rw [fillEntry_of_child hchild, fillEntry_of_child hsame]
    have hrefl : ∀ s : Paging, Extension t target own own s s :=
      fun _ => ⟨id, Or.inl, fun _ => rfl, List.suffix_rfl⟩
    exact ⟨own, g, ⟨h, hrefl s, hrefl s'⟩, h.inv.owned.own_child hf hp hchild, hchild, hsame,
      nofun, fun _ => rfl⟩
  | none =>
    rw [hchild] at hsame
    have hflt := h.inv.toNat_lt hf
    cases hfree : s.alloc.freeList with
    | nil =>
      rw [fillEntry_of_none hchild, fillEntry_of_none hsame, allocatePage_of_nil hfree,
        allocatePage_of_nil (h.freeList.trans hfree)]
      exact Except.Related.error _
    | cons g rest =>
      have hgfree : g ∈ s.alloc.freeList := by
        rw [hfree]
        exact List.mem_cons_self
      have hg := toNat_lt_of_managed (h.inv.ledger.managed_of_free hgfree)
      -- the stacks are the same, so both take the same frame
      obtain ⟨r, hr, hrest, -, hfilled⟩ :=
        fillEntry_of_freeList h.inv.ledger.wellFormed hfree hflt hg hchild perm
      obtain ⟨r', hr', hrest', -, hfilled'⟩ := fillEntry_of_freeList h.inv'.ledger.wellFormed
        (h.freeList.trans hfree) hflt hg hsame perm
      rw [hr, hr']
      have hhead : s.alloc.freeList.head? = some g := by rw [hfree, List.head?_cons]
      have hdir : p.length < 2 → EmptyDirectory s.mem g ∧ EmptyDirectory s'.mem g :=
        fun hp => hempty hp hchild g hhead
      obtain ⟨g₁, own₁, hchild₁, hg₁, hinv₁, hext₁, hlist₁⟩ := h.inv.fillEntry target hf hp hpre
        hperm (fun hp _ g' hg' => by
          rw [hhead] at hg'
          cases hg'
          exact (hdir hp).1) hr
      obtain ⟨g₂, own₂, -, -, hinv₂, hext₂, -⟩ := h.inv'.fillEntry target hf hp hpre
        hperm (fun hp _ g' hg' => by
          rw [h.freeList, hhead] at hg'
          cases hg'
          exact (hdir hp).2) hr'
      rw [hfilled.child_self hflt] at hchild₁
      cases hchild₁
      have hkeep : ∀ {f' y} j, own₁ f' = some y → y.2.length < 3 →
          child r'.mem f' j = child r.mem f' j :=
        h.children_of_filled hinv₁ hext₁ (hrest ▸ hfree) hg₁ hfilled hfilled' fun hlt =>
          hdir (by rw [List.length_append, List.length_singleton] at hlt; omega)
      have hpaired := of_inv hinv₁ hinv₂ (hrest'.trans hrest.symm) hkeep
      obtain rfl := hinv₁.own_eq hinv₂ hkeep
      have hgf : g ≠ f := by
        rintro rfl
        rw [h.inv.ledger.own_of_free hgfree] at hf
        cases hf
      refine ⟨own₂, g, ⟨hpaired, hext₁, hext₂⟩, hg₁, hfilled.child_self hflt,
        hfilled'.child_self hflt, fun _ => ⟨by rw [hrest], fun hp j => ?_⟩,
        fun hne => absurd rfl hne⟩
      rw [hfilled.child_of_ne hg hgf]
      exact (hdir hp).1 j

/-- Frames that stay free keep their bytes. -/
theorem Extended.emptyDirectory {own' : Places} {leaked' : ℕ}
    (h : Extended K live t target leaked' own own' s s' r r') (hfree : f ∈ r.alloc.freeList)
    (hempty : EmptyDirectory s.mem f ∧ EmptyDirectory s'.mem f) :
    EmptyDirectory r.mem f ∧ EmptyDirectory r'.mem f := by
  have hf := toNat_lt_of_managed (h.paired.inv.ledger.managed_of_free hfree)
  have hown := h.paired.inv.ledger.own_of_free hfree
  constructor
  · refine hempty.1.congr hf ?_
    rintro x rfl
    exact h.extension.mem_eq_of_free hown
  · refine hempty.2.congr hf ?_
    rintro x rfl
    exact h.extension'.mem_eq_of_free hown

/-- A page is mapped alike: after the missing directories, a frame is taken for the page. -/
theorem mapVirtualPage (h : Paired K live own leaked s s') (ht : t ∈ live)
    (hempty : ∀ f ∈ s.alloc.freeList.take (missingDirectories s.mem (t <<< 12) vpn),
      EmptyDirectory s.mem f ∧ EmptyDirectory s'.mem f)
    (hwalk : Forest.walk (child s.mem) t (vpnPath vpn) = none) :
    Except.Related (fun r r' => ∃ own' f,
        Extended K live t (vpnPath vpn) leaked own own' s s' r r' ∧
        own' f = some (t, vpnPath vpn) ∧
        s.alloc.freeList.drop (missingDirectories s.mem (t <<< 12) vpn) = f :: r.alloc.freeList)
      (R5O5.mapVirtualPage (t <<< 12) vpn ppn perm s)
      (R5O5.mapVirtualPage (t <<< 12) vpn ppn perm s') := by
  simp only [R5O5.mapVirtualPage, pteAddr_getL2]
  -- the root directory
  refine (h.fillEntry (vpnPath vpn) (h.inv.owned.own_root ht) (by simp) ⟨_, rfl⟩ (fun _ => rfl)
    fun _ hnone g hg => ?_).bind ?_
  · refine hempty g ?_
    rw [missingDirectories_of_root_none hnone]
    obtain ⟨rest, hrest⟩ := List.head?_eq_some_iff.mp hg
    rw [hrest]
    exact List.mem_cons_self
  rintro s₁ s₁' ⟨own₁, level1, h₁, hlevel1, hchild₁, hchild₁', hnone₁, hsome₁⟩
  rw [getPageNum_of_child hchild₁, getPageNum_of_child hchild₁', pteAddr_getL1]
  -- the intermediate directory
  refine (h₁.paired.fillEntry (vpnPath vpn) hlevel1 (by simp) ⟨_, rfl⟩ (fun _ => rfl)
    fun _ hnone g hg => ?_).bind ?_
  · obtain ⟨rest, hrest⟩ := List.head?_eq_some_iff.mp hg
    refine h₁.emptyDirectory (by rw [hrest]; exact List.mem_cons_self) (hempty g ?_)
    by_cases hroot : child s.mem t (slotL2 (vpn <<< 12)) = none
    · rw [missingDirectories_of_root_none hroot, (hnone₁ hroot).1, hrest]
      exact List.mem_cons_of_mem _ List.mem_cons_self
    · obtain rfl := hsome₁ hroot
      rw [missingDirectories_of_level1_none hchild₁ hnone, hrest]
      exact List.mem_cons_self
  rintro s₂ s₂' ⟨own₂, level0, h₂, hlevel0, hchild₂, hchild₂', hnone₂, hsome₂⟩
  rw [getPageNum_of_child hchild₂, getPageNum_of_child hchild₂', pteAddr_getL0]
  -- the final directory
  refine (h₂.paired.fillEntry (vpnPath vpn) hlevel0 (by simp) List.prefix_rfl
    (fun hp => by simp at hp) fun hp => by simp at hp).mono ?_
  rintro r r' ⟨own₃, leaf, h₃, hleaf, -, -, hnone₃, -⟩
  refine ⟨own₃, leaf, (h₁.trans h₂).trans h₃, hleaf, ?_⟩
  by_cases hroot : child s.mem t (slotL2 (vpn <<< 12)) = none
  · -- both directories are new, so they have no entries
    obtain ⟨hfree₁, hempty₁⟩ := hnone₁ hroot
    obtain ⟨hfree₂, hempty₂⟩ := hnone₂ (hempty₁ (by simp) _)
    obtain ⟨hfree₃, -⟩ := hnone₃ (hempty₂ (by simp) _)
    rw [missingDirectories_of_root_none hroot, hfree₁, hfree₂, hfree₃]
    rfl
  · obtain rfl := hsome₁ hroot
    by_cases hslot : child s₁.mem level1 (slotL1 (vpn <<< 12)) = none
    · obtain ⟨hfree₂, hempty₂⟩ := hnone₂ hslot
      obtain ⟨hfree₃, -⟩ := hnone₃ (hempty₂ (by simp) _)
      rw [missingDirectories_of_level1_none hchild₁ hslot, hfree₂, hfree₃]
      rfl
    · obtain rfl := hsome₂ hslot
      have hmissing : missingDirectories s₂.mem (t <<< 12) vpn = 0 := by
        simp [missingDirectories, pteAddr_getL2, pteAddr_getL1, isValid_eq,
          getPageNum_of_child hchild₁, hchild₁, hchild₂]
      simp only [vpnPath, path, Forest.walk, hchild₁, hchild₂, Option.bind_some] at hwalk
      obtain ⟨hfree₃, -⟩ := hnone₃ (by simpa using hwalk)
      rw [hmissing, hfree₃, List.drop_zero]

/-- A page is allocated alike: one frame is lost, and then the page is mapped. -/
theorem allocateVirtualPage (h : Paired K live own leaked s s') (ht : t ∈ live)
    (hempty : ∀ f ∈ directoryFrames s (t <<< 12) vpn,
      EmptyDirectory s.mem f ∧ EmptyDirectory s'.mem f) :
    Except.Related (fun r r' => ∃ own' f,
        Extended K live t (vpnPath vpn) (leaked + 1) own own' s s' r r' ∧
        own f = none ∧ own' f = some (t, vpnPath vpn) ∧
        s.alloc.freeList.drop (1 + missingDirectories s.mem (t <<< 12) vpn) =
          f :: r.alloc.freeList)
      (R5O5.allocateVirtualPage (t <<< 12) vpn perm s)
      (R5O5.allocateVirtualPage (t <<< 12) vpn perm s') := by
  rw [R5O5.allocateVirtualPage, R5O5.allocateVirtualPage, h.isVirtualPageAllocated_eq ht]
  split
  case isTrue => exact Except.Related.error _
  case isFalse hnot =>
    refine h.allocatePage.bind ?_
    -- the frame `g` is lost
    rintro ⟨g, a⟩ ⟨g', a'⟩ ⟨rfl, hfree, h'⟩
    have hwalk : Forest.walk (child s.mem) t (vpnPath vpn) = none := by
      rw [Option.eq_none_iff_forall_ne_some]
      exact fun f hf => hnot (isVirtualPageAllocated_iff.mpr ⟨f, hf⟩)
    dsimp only at hfree
    refine (h'.mapVirtualPage ht (fun f hf => hempty f ?_) hwalk).mono ?_
    · rw [directoryFrames, hfree]
      exact hf
    rintro r r' ⟨own', f, hext, hf, hdrop⟩
    dsimp only at hdrop
    -- the tree has grown from the rest of the free stack
    have hsuffix : a.freeList <:+ s.alloc.freeList := by
      rw [hfree]
      exact List.suffix_cons g' a.freeList
    have hsuffix' : a'.freeList <:+ s'.alloc.freeList := by
      rw [h.freeList, show a'.freeList = a.freeList from h'.freeList]
      exact hsuffix
    refine ⟨own', f, ⟨hext.paired, hext.extension.of_suffix hsuffix,
      hext.extension'.of_suffix hsuffix'⟩, ?_, hf, ?_⟩
    · have hfa : f ∈ a.freeList.drop (missingDirectories s.mem (t <<< 12) vpn) := by
        rw [hdrop]
        exact List.mem_cons_self
      exact h.inv.ledger.own_of_free (hsuffix.subset (List.mem_of_mem_drop hfa))
    · rw [hfree, Nat.add_comm, List.drop_succ_cons, hdrop]

/-- A table is allocated alike: its root is the top of the free stack, and holds no entries. -/
theorem allocatePageTable (h : Paired K live own leaked s s') :
    Except.Related (fun r r' => r'.1 = r.1 ∧ ∃ t : BitVec 64, r.1 = t <<< 12 ∧ own t = none ∧
        t.toNat < 2 ^ 44 ∧ s.alloc.freeList = t :: r.2.alloc.freeList ∧
        Paired K (insert t live) (Function.update own t (some (t, []))) leaked r.2 r'.2 ∧
        ∀ x : BitVec 64, x >>> 12 ≠ t → r.2.mem x = s.mem x ∧ r'.2.mem x = s'.mem x)
      (R5O5.allocatePageTable s) (R5O5.allocatePageTable s') := by
  have hrel : Except.Related (fun r r' => r'.1 = r.1 ∧
      r'.2.alloc.freeList = r.2.alloc.freeList)
      (R5O5.allocatePageTable s) (R5O5.allocatePageTable s') := by
    rw [R5O5.allocatePageTable, allocatePageDirectory, R5O5.allocatePageTable,
      allocatePageDirectory]
    refine
      (allocatePage_related h.inv.ledger.wellFormed h.inv'.ledger.wellFormed h.freeList).bind ?_
    rintro ⟨g, a⟩ ⟨g', a'⟩ ⟨hg, hfree⟩
    obtain rfl : g' = g := hg
    exact ⟨rfl, hfree⟩
  refine hrel.returned.mono ?_
  rintro ⟨pt, r⟩ ⟨pt', r'⟩ ⟨⟨hpt, hfree⟩, hok, hok'⟩
  obtain ⟨g, rfl, htop, hinv, hmem⟩ := h.inv.allocatePageTable hok
  obtain ⟨g', hg', htop', hinv', hmem'⟩ := h.inv'.allocatePageTable hok'
  rw [h.freeList, htop] at htop'
  obtain ⟨rfl, -⟩ := List.cons.inj htop'
  have hgfree : g ∈ s.alloc.freeList := by
    rw [htop]
    exact List.mem_cons_self
  have hlt := toNat_lt_of_managed (h.inv.ledger.managed_of_free hgfree)
  have hown := h.inv.ledger.own_of_free hgfree
  refine ⟨hpt, g, rfl, hown, hlt, htop, ?_, fun x hx => ⟨hmem x hx, hmem' x hx⟩⟩
  refine ⟨hinv, hinv', hfree, ?_⟩
  intro f y i hf hy
  rcases eq_or_ne f g with rfl | hne
  · -- the root is empty in both
    have hroot : ∀ q : Paging,
        q.Inv K (insert f live) (Function.update own f (some (f, []))) leaked →
        child q.mem f i = none := by
      intro q hq
      rw [Option.eq_none_iff_forall_ne_some]
      intro g hg
      have hbelow := hq.owned.own_child (Function.update_self ..) (by simp) hg
      rcases eq_or_ne g f with rfl | hne
      · rw [Function.update_self] at hbelow
        cases hbelow
      · rw [Function.update_of_ne hne] at hbelow
        have htable := h.inv.owned.own_root (h.inv.owned.mem_live hbelow)
        rw [hown] at htable
        cases htable
    rw [hroot r hinv, hroot r' hinv']
  · rw [Function.update_of_ne hne] at hf
    have hflt := h.inv.toNat_lt hf
    dsimp only
    rw [child_congr hflt fun x hx => hmem x (by rw [hx]; exact hne),
      child_congr hflt fun x hx => hmem' x (by rw [hx]; exact hne), h.children i hf hy]

/-- Bytes are written to the same place of a page. -/
theorem write (h : Paired K live own leaked s s') (ht : t ∈ live)
    (hphys : virtualToPhysical s.mem (t <<< 12) virtualAddress = .ok physicalAddress)
    (byte byte' : BitVec 8) :
    Paired K live own leaked { s with mem := s.mem.write physicalAddress byte }
      { s' with mem := s'.mem.write physicalAddress byte' } := by
  obtain ⟨f, hf, rfl⟩ := (virtualToPhysical_eq_ok_iff h.inv ht).mp hphys
  refine ⟨h.inv.write hf byte, h.inv'.write hf byte', h.freeList, fun i hf' hlt => ?_⟩
  dsimp only
  rw [child_eq_of_entry_eq (h.inv.entry_write hf hf' hlt s'.mem byte' i),
    child_eq_of_entry_eq (h.inv.entry_write hf hf' hlt s.mem byte i), h.children i hf' hlt]

/-- A table is deallocated alike. -/
theorem deallocatePageTable (h : Paired K live own leaked s s') (ht : t ∈ live)
    (hok : R5O5.deallocatePageTable (t <<< 12) s = .ok r)
    (hok' : R5O5.deallocatePageTable (t <<< 12) s' = .ok r') :
    ∃ own', Paired K (live \ {t}) own' leaked r r' := by
  obtain ⟨r₁, own₁, hr₁, hinv₁, hrem₁⟩ := h.inv.deallocatePageTable ht
  obtain ⟨r₂, own₂, hr₂, hinv₂, hrem₂⟩ := h.inv'.deallocatePageTable ht
  rw [hok] at hr₁
  cases hr₁
  rw [hok'] at hr₂
  cases hr₂
  have hnodes : tableNodes s'.mem t = tableNodes s.mem t := by
    rw [tableNodes, tableNodes,
      belowNodes_congr h.inv.owned (h.inv.owned.own_root ht) (Nat.le_refl 3)
        fun i hf _ hlt => h.children i hf hlt]
  refine ⟨own₁, of_inv hinv₁ hinv₂ ?_ ?_⟩
  · rw [h.inv.deallocatePageTable_freeList ht hok,
      h.inv'.deallocatePageTable_freeList ht hok', hnodes, h.freeList]
  · intro f y i hf hlt
    -- the directories of the other tables are left alone
    obtain ⟨hy, hne⟩ := hrem₁.own_iff.mp hf
    have hflt := h.inv.toNat_lt hy
    have hother : ∀ x : BitVec 64, x >>> 12 = f →
        ∀ q, own (x >>> 12) = some (t, q) → [] <+: q → 3 ≤ q.length := by
      rintro x rfl q hq
      rw [hy] at hq
      cases hq
      exact absurd rfl hne
    rw [child_congr hflt fun x hx => hrem₁.mem_eq (hother x hx),
      child_congr hflt fun x hx => hrem₂.mem_eq (hother x hx), h.children i hy hlt]

end Paired

/-! ## A table that grows -/

/-- The states are in step, and the pages of the table `t` hold the same bytes but for the addresses
in `differ`; free frames hold the bytes of `m` and `m'`. -/
structure Twin (K : KernelImage) (live : Set (BitVec 64)) (t : BitVec 64) (m m' : Mem)
    (differ : Set ℕ) (own : Places) (leaked : ℕ) (s s' : Paging) : Prop
    extends Paired K live own leaked s s' where
  free : ∀ {x : BitVec 64}, x >>> 12 ∈ s.alloc.freeList → s.mem x = m x ∧ s'.mem x = m' x
  bytes : ∀ {f virtualAddress : BitVec 64}, own f = some (t, path virtualAddress) →
    spaceAddr virtualAddress ∉ differ →
      s'.mem (f <<< 12 ||| getOffset virtualAddress) = s.mem (f <<< 12 ||| getOffset virtualAddress)

/-- The frames that the pages `ns` take from a free stack, for a table that has `pages` already, may
be reused: those that become directories hold no entries in either memory, and those that become
pages hold the same bytes in both, but for the addresses in `loaded`. -/
def Reusable (m m' : Mem) (loaded : Set ℕ) : Finset ℕ → List ℕ → List (BitVec 64) → Prop
  | _, [], _ => True
  | pages, n :: ns, free =>
    if n ∈ pages then Reusable m m' loaded pages ns free
    else
      -- one frame is lost, then come the directories and the page
      (∀ f ∈ (free.drop 1).take (newDirectories pages n),
        EmptyDirectory m f ∧ EmptyDirectory m' f) ∧
      (∀ f ∈ (free.drop (1 + newDirectories pages n)).head?, ∀ virtualAddress,
        spaceAddr virtualAddress / pgsize = n → spaceAddr virtualAddress ∉ loaded →
          m' (f <<< 12 ||| getOffset virtualAddress) =
            m (f <<< 12 ||| getOffset virtualAddress)) ∧
      Reusable m m' loaded (insert n pages) ns (free.drop (2 + newDirectories pages n))

/-- The table `t` has grown in step and maps these pages; the bytes of `loaded` that do not differ
are in pages that are mapped. -/
structure Growing (K : KernelImage) (live : Set (BitVec 64)) (t : BitVec 64) (m m' : Mem)
    (loaded : Set ℕ) (pages : Finset ℕ) (differ : Set ℕ) (s s' : Paging) : Prop where
  twin : ∃ own leaked, Twin K live t m m' differ own leaked s s' ∧
    (∀ vpn : BitVec 64, (∃ f, own f = some (t, vpnPath vpn)) ↔ vpn.toNat % 2 ^ 27 ∈ pages) ∧
    ∀ {f p}, own f = some (t, p) → p ≠ [] →
      ∃ vpn : BitVec 64, vpn.toNat % 2 ^ 27 ∈ pages ∧ p <+: vpnPath vpn
  page_lt : ∀ {n}, n ∈ pages → n < 2 ^ 27
  mem_pages : ∀ {a}, a ∈ loaded → a ∉ differ → a / pgsize ∈ pages

/-- Frames without entries that hold the same bytes may be reused for any pages. -/
theorem Reusable.of_forall {m m' : Mem} {loaded : Set ℕ} {pages : Finset ℕ} {ns : List ℕ}
    {free : List (BitVec 64)} (h : ∀ f ∈ free, EmptyDirectory m f ∧ EmptyDirectory m' f ∧
      ∀ virtualAddress, m' (f <<< 12 ||| getOffset virtualAddress) =
        m (f <<< 12 ||| getOffset virtualAddress)) : Reusable m m' loaded pages ns free := by
  induction ns generalizing pages free with
  | nil => trivial
  | cons n ns ih =>
    rw [Reusable]
    split
    case isTrue => exact ih h
    case isFalse =>
      refine ⟨fun f hf => ?_, fun f hf virtualAddress _ _ => ?_, ih fun f hf => ?_⟩
      · have hfree := h f (List.mem_of_mem_drop (List.mem_of_mem_take hf))
        exact ⟨hfree.1, hfree.2.1⟩
      · exact (h f (List.mem_of_mem_drop (List.mem_of_mem_head? hf))).2.2 virtualAddress
      · exact h f (List.mem_of_mem_drop hf)

namespace Twin

variable {K : KernelImage} {live : Set (BitVec 64)} {own : Places} {leaked : ℕ}
  {s s' : Paging} {t vpn virtualAddress physicalAddress : BitVec 64} {m m' : Mem}
  {differ : Set ℕ} {perm : Permissions}

/-- A free frame holds no entries when it held none at the start. -/
theorem emptyDirectory (h : Twin K live t m m' differ own leaked s s') {f : BitVec 64}
    (hf : f ∈ s.alloc.freeList) (hempty : EmptyDirectory m f ∧ EmptyDirectory m' f) :
    EmptyDirectory s.mem f ∧ EmptyDirectory s'.mem f := by
  have hlt := toNat_lt_of_managed (h.inv.ledger.managed_of_free hf)
  constructor
  · refine hempty.1.congr hlt ?_
    rintro x rfl
    exact (h.free hf).1
  · refine hempty.2.congr hlt ?_
    rintro x rfl
    exact (h.free hf).2

/-- A page is allocated alike in a frame that held the same bytes. -/
theorem allocateVirtualPage (h : Twin K live t m m' differ own leaked s s') (ht : t ∈ live)
    (hempty : ∀ f ∈ directoryFrames s (t <<< 12) vpn, EmptyDirectory m f ∧ EmptyDirectory m' f)
    (hbytes : ∀ f ∈ (s.alloc.freeList.drop (1 + missingDirectories s.mem (t <<< 12) vpn)).head?,
      ∀ virtualAddress, path virtualAddress = vpnPath vpn → spaceAddr virtualAddress ∉ differ →
        m' (f <<< 12 ||| getOffset virtualAddress) = m (f <<< 12 ||| getOffset virtualAddress)) :
    Except.Related (fun r r' => ∃ own', Twin K live t m m' differ own' (leaked + 1) r r' ∧
        (∃ f, own' f = some (t, vpnPath vpn)) ∧ Extension t (vpnPath vpn) own own' s r ∧
        r.alloc.freeList = s.alloc.freeList.drop (2 + missingDirectories s.mem (t <<< 12) vpn))
      (R5O5.allocateVirtualPage (t <<< 12) vpn perm s)
      (R5O5.allocateVirtualPage (t <<< 12) vpn perm s') := by
  refine (h.toPaired.allocateVirtualPage ht fun f hf => ?_).mono ?_
  · exact h.emptyDirectory (List.mem_of_mem_drop (List.mem_of_mem_take hf)) (hempty f hf)
  rintro r r' ⟨own', g, ⟨hpaired, hext, hext'⟩, -, hg, hdrop⟩
  have hfree : r.alloc.freeList =
      s.alloc.freeList.drop (2 + missingDirectories s.mem (t <<< 12) vpn) := by
    rw [show 2 + missingDirectories s.mem (t <<< 12) vpn =
      (1 + missingDirectories s.mem (t <<< 12) vpn) + 1 by omega, ← List.drop_drop, hdrop]
    rfl
  refine ⟨own', ⟨hpaired, ?_, ?_⟩, ⟨g, hg⟩, hext, hfree⟩
  -- frames that stay free are not written
  · intro x hx
    have hown := hpaired.inv.ledger.own_of_free hx
    rw [hext.mem_eq_of_free hown, hext'.mem_eq_of_free hown]
    exact h.free (hext.suffix.subset hx)
  · intro f virtualAddress hf hdiffer
    have hpage : (f <<< 12 ||| getOffset virtualAddress) >>> 12 = f :=
      page_translated (hpaired.inv.toNat_lt hf)
    have hleaf : ∀ q, own' ((f <<< 12 ||| getOffset virtualAddress) >>> 12) = some (t, q) →
        3 ≤ q.length := by
      intro q hq
      rw [hpage, hf] at hq
      cases hq
      simp [path]
    rw [hext.mem_eq hleaf, hext'.mem_eq hleaf]
    -- the page is one of before, or the new one
    rcases hext.new hf with hold | ⟨hnew, -, hpre⟩
    · exact h.bytes hold hdiffer
    · have hpath : path virtualAddress = vpnPath vpn := hpre.eq_of_length (by simp [path])
      rw [hpath] at hf
      obtain rfl := hpaired.inv.owned.own_injective hf hg
      rw [(h.free (by rwa [hpage])).1, (h.free (by rwa [hpage])).2]
      exact hbytes f (by rw [hdrop]; rfl) virtualAddress hpath hdiffer

/-- A byte is written to a page of the growing table; it does not differ any more. -/
theorem write (h : Twin K live t m m' differ own leaked s s') (ht : t ∈ live)
    (hphys : virtualToPhysical s.mem (t <<< 12) virtualAddress = .ok physicalAddress)
    (byte : BitVec 8) :
    Twin K live t m m' (differ \ {spaceAddr virtualAddress}) own leaked
      { s with mem := s.mem.write physicalAddress byte }
      { s' with mem := s'.mem.write physicalAddress byte } := by
  refine ⟨h.toPaired.write ht hphys byte byte, ?_, ?_⟩
  all_goals obtain ⟨f, hf, rfl⟩ := (virtualToPhysical_eq_ok_iff h.inv ht).mp hphys
  · intro x hx
    -- the page is not free
    have hne : x >>> 12 ≠ f := by
      rintro rfl
      rw [h.inv.ledger.own_of_free hx] at hf
      cases hf
    dsimp only
    rw [h.inv.write_of_page_ne hf hne _ _ rfl, h.inv.write_of_page_ne hf hne _ _ rfl]
    exact h.free hx
  · intro f' virtualAddress' hf' hdiffer
    dsimp only
    by_cases hsame : f' <<< 12 ||| getOffset virtualAddress' =
      f <<< 12 ||| getOffset virtualAddress
    · rw [hsame, Mem.write_same, Mem.write_same]
    · rw [Mem.write_of_ne _ _ hsame, Mem.write_of_ne _ _ hsame]
      refine h.bytes hf' fun hmem => hdiffer ⟨hmem, fun heq => hsame ?_⟩
      obtain ⟨hpath, hoffset⟩ := spaceAddr_eq_iff.mp heq
      rw [hpath] at hf'
      rw [h.inv.owned.own_injective hf' hf, hoffset]

/-- What is read through the table is the same when no address differs. -/
theorem readVirtual_eq (h : Twin K live t m m' ∅ own leaked s s') (ht : t ∈ live) :
    readVirtual s'.mem (t <<< 12) virtualAddress = readVirtual s.mem (t <<< 12) virtualAddress := by
  rw [readVirtual, readVirtual, h.virtualToPhysical_eq ht]
  cases hphys : virtualToPhysical s.mem (t <<< 12) virtualAddress with
  | error e => rfl
  | ok physicalAddress =>
    obtain ⟨f, hf, rfl⟩ := (virtualToPhysical_eq_ok_iff h.inv ht).mp hphys
    exact congrArg some (h.bytes hf (Set.notMem_empty _))

end Twin

namespace Growing

variable {K : KernelImage} {live : Set (BitVec 64)} {own : Places} {leaked n : ℕ}
  {s s' : Paging} {t vpn virtualAddress physicalAddress : BitVec 64} {m m' : Mem}
  {loaded differ : Set ℕ} {pages : Finset ℕ} {ns : List ℕ} {perm : Permissions}

/-- A new table has no pages. -/
theorem allocatePageTable (h : Paired K live own leaked s s') (loaded : Set ℕ) :
    Except.Related (fun r r' => r'.1 = r.1 ∧ ∃ t : BitVec 64, r.1 = t <<< 12 ∧ own t = none ∧
        t.toNat < 2 ^ 44 ∧ r.2.alloc.freeList = s.alloc.freeList.drop 1 ∧
        Growing K (insert t live) t s.mem s'.mem loaded ∅ loaded r.2 r'.2)
      (R5O5.allocatePageTable s) (R5O5.allocatePageTable s') := by
  refine h.allocatePageTable.mono ?_
  rintro ⟨pt, r⟩ ⟨pt', r'⟩ ⟨hpt, t, rfl, hnone, hlt, htop, hpaired, hmem⟩
  -- the root is the only node of the tree
  have hroot : ∀ {f p}, Function.update own t (some (t, [])) f = some (t, p) → p = [] := by
    intro f p hf
    rcases eq_or_ne f t with rfl | hne
    · rw [Function.update_self] at hf
      cases hf
      rfl
    · rw [Function.update_of_ne hne] at hf
      have htable := h.inv.owned.own_root (h.inv.owned.mem_live hf)
      rw [hnone] at htable
      cases htable
  have hnil : ∀ va : BitVec 64, path va ≠ [] := fun va => List.cons_ne_nil _ _
  dsimp only at hpaired htop hmem
  refine ⟨hpt, t, rfl, hnone, hlt, by rw [htop]; rfl,
    ⟨⟨_, leaked, ⟨hpaired, ?_, ?_⟩, ?_, ?_⟩, ?_, ?_⟩⟩
  · intro x hx
    refine hmem x ?_
    rintro rfl
    have hnodup := h.inv.ledger.nodup
    rw [htop, List.nodup_cons] at hnodup
    exact hnodup.1 hx
  · exact fun hf _ => absurd (hroot hf) (hnil _)
  · intro vpn
    refine iff_of_false ?_ (Finset.notMem_empty _)
    rintro ⟨f, hf⟩
    exact List.cons_ne_nil _ _ (hroot hf)
  · exact fun hf hp => absurd (hroot hf) hp
  · exact fun hn => absurd hn (Finset.notMem_empty _)
  · exact fun ha hnot => absurd ha hnot

theorem isVirtualPageAllocated_iff (h : Growing K live t m m' loaded pages differ s s')
    (ht : t ∈ live) :
    isVirtualPageAllocated s.mem (t <<< 12) vpn = true ↔ vpn.toNat % 2 ^ 27 ∈ pages := by
  obtain ⟨own, leaked, htwin, hmapped, -⟩ := h.twin
  rw [R5O5.isVirtualPageAllocated_iff, ← hmapped]
  exact exists_congr fun f => htwin.inv.owned.walk_eq_some_iff ht (by simp)

/-- The table has directories only where a page asks for them. -/
theorem pruned (h : Growing K live t m m' loaded pages differ s s') (ht : t ∈ live) :
    Pruned s.mem t pages where
  mapped {n} hn := by
    have hvpn : (BitVec.ofNat 64 n).toNat % 2 ^ 27 = n := by
      have hlt := h.page_lt hn
      rw [BitVec.toNat_ofNat]
      omega
    have hallocated : isVirtualPageAllocated s.mem (t <<< 12) (BitVec.ofNat 64 n) = true :=
      (h.isVirtualPageAllocated_iff ht).mpr (by rwa [hvpn])
    obtain ⟨f, hwalk⟩ := R5O5.isVirtualPageAllocated_iff.mp hallocated
    exact ⟨_, f, hvpn, hwalk⟩
  below hp hlength hwalk := by
    obtain ⟨own, leaked, htwin, -, hbelow⟩ := h.twin
    exact hbelow ((htwin.inv.owned.walk_eq_some_iff ht hlength).mp hwalk) hp

/-- The table gets a page alike, from frames that may be reused. -/
theorem allocateVirtualPage (h : Growing K live t m m' loaded pages differ s s') (ht : t ∈ live)
    (hn : vpn.toNat % 2 ^ 27 = n)
    (hreuse : Reusable m m' loaded pages (n :: ns) s.alloc.freeList) :
    Except.Related (fun r r' => Growing K live t m m' loaded (insert n pages) differ r r' ∧
        Reusable m m' loaded (insert n pages) ns r.alloc.freeList)
      (R5O5.allocateVirtualPage (t <<< 12) vpn perm s)
      (R5O5.allocateVirtualPage (t <<< 12) vpn perm s') := by
  have hallocated : isVirtualPageAllocated s.mem (t <<< 12) vpn = true ↔ _ :=
    h.isVirtualPageAllocated_iff ht
  have hmissing : missingDirectories s.mem (t <<< 12) vpn = _ :=
    (h.pruned ht).missingDirectories_eq
  obtain ⟨own, leaked, htwin, hmapped, hbelow⟩ := h.twin
  rw [hn] at hallocated hmissing
  by_cases hmem : n ∈ pages
  · rw [R5O5.allocateVirtualPage, R5O5.allocateVirtualPage, htwin.isVirtualPageAllocated_eq ht,
      if_pos (hallocated.mpr hmem), if_pos (hallocated.mpr hmem)]
    exact Except.Related.error _
  rw [Reusable, if_neg hmem, ← hmissing] at hreuse
  obtain ⟨hempty, hbytes, hrest⟩ := hreuse
  refine (htwin.allocateVirtualPage ht hempty fun f hf va hpath hdiffer => ?_).mono ?_
  · have hpage : spaceAddr va / pgsize = n := (path_eq_vpnPath_iff.mp hpath).trans hn
    refine hbytes f hf va hpage fun hloaded => hmem ?_
    -- what has been loaded lies in a page that is mapped
    rw [← hpage]
    exact h.mem_pages hloaded hdiffer
  rintro r r' ⟨own', htwin', hleaf, hext, hfree⟩
  rw [← hfree] at hrest
  refine ⟨⟨⟨own', leaked + 1, htwin', fun vpn' => ?_, fun {f p} hf hp => ?_⟩, ?_, ?_⟩, hrest⟩
  · rw [Finset.mem_insert]
    constructor
    · rintro ⟨f, hf⟩
      rcases hext.new hf with hold | ⟨-, -, hpre⟩
      · exact Or.inr ((hmapped vpn').mp ⟨f, hold⟩)
      · have hpath : vpnPath vpn' = vpnPath vpn := hpre.eq_of_length (by simp)
        rw [vpnPath_eq_iff] at hpath
        exact Or.inl (hpath.trans hn)
    · rintro (heq | hold)
      · rw [vpnPath_eq_iff.mpr (heq.trans hn.symm)]
        exact hleaf
      · obtain ⟨f, hf⟩ := (hmapped vpn').mpr hold
        exact ⟨f, hext.keeps hf⟩
  · rcases hext.new hf with hold | ⟨-, -, hpre⟩
    · obtain ⟨vpn', hmem', hpre⟩ := hbelow hold hp
      exact ⟨vpn', Finset.mem_insert_of_mem hmem', hpre⟩
    · exact ⟨vpn, by rw [hn]; exact Finset.mem_insert_self .., hpre⟩
  · intro n' hn'
    rcases Finset.mem_insert.mp hn' with rfl | hn'
    · rw [← hn]
      exact Nat.mod_lt _ (by decide)
    · exact h.page_lt hn'
  · exact fun ha hnot => Finset.mem_insert_of_mem (h.mem_pages ha hnot)

/-- A byte is loaded to an address of the table. -/
theorem write (h : Growing K live t m m' loaded pages differ s s') (ht : t ∈ live)
    (hphys : virtualToPhysical s.mem (t <<< 12) virtualAddress = .ok physicalAddress)
    (byte : BitVec 8) :
    Growing K live t m m' loaded pages (differ \ {spaceAddr virtualAddress})
      { s with mem := s.mem.write physicalAddress byte }
      { s' with mem := s'.mem.write physicalAddress byte } := by
  obtain ⟨own, leaked, htwin, hmapped, hbelow⟩ := h.twin
  refine ⟨⟨own, leaked, htwin.write ht hphys byte, hmapped, hbelow⟩, h.page_lt, ?_⟩
  intro a ha hnot
  by_cases hdiffer : a ∈ differ
  · -- this is the address
    have ha : a = spaceAddr virtualAddress := by
      by_contra hne
      exact hnot ⟨hdiffer, hne⟩
    obtain ⟨f, hf, -⟩ := (virtualToPhysical_eq_ok_iff htwin.inv ht).mp hphys
    rw [← vpnPath_getVirtPage] at hf
    have hpage := (hmapped _).mp ⟨f, hf⟩
    rwa [toNat_getVirtPage, Nat.mod_mod, ← toNat_getVirtPage, ← spaceAddr_div, ← ha] at hpage
  · exact h.mem_pages ha hdiffer

/-- Both tables translate an address alike. -/
theorem virtualToPhysical_eq (h : Growing K live t m m' loaded pages differ s s') (ht : t ∈ live) :
    virtualToPhysical s'.mem (t <<< 12) virtualAddress =
      virtualToPhysical s.mem (t <<< 12) virtualAddress := by
  obtain ⟨own, leaked, htwin, -⟩ := h.twin
  exact htwin.virtualToPhysical_eq ht

end Growing

end R5O5
