import R5O5.Kernel.CreateProcess.Loading

/-!
# What creating a process writes

The loader writes to memory through the page table it builds. All frames of this table come from the
free stack, so nothing else in memory changes: not the kernel, nor the tables and the pages of other
processes.

## Main definitions

- `Fresh`: what has changed so far is in frames that were free.

## Main results

- `programLoader_keeps`: what the operations of the loader on page tables keep is kept by the
  loader;
- `Refines.createProcess_same`: memory outside of the free frames stays.
-/

namespace R5O5

/-! ## The rule for the loader -/

section Keeps

variable {τ : Type} {flush : Bool} {message : String} {wild : Wild}

/-- What every byte keeps is kept by the loop. -/
theorem copyLoop_keeps {P : τ → Prop}
    {byte : ℕ → BufRef → BitVec 64 → CachedDisk × τ → Except Stop (CachedDisk × τ)}
    (hbyte : ∀ {k b pos s t s' t'}, P t → byte k b pos (s, t) = .ok (s', t') → P t')
    {left k : ℕ} {diskBlockNum pos : BitVec 64} {b : BufRef} {s s' : CachedDisk} {t t' : τ}
    (h : P t) (hok : copyLoop flush message byte left k diskBlockNum pos b (s, t) = .ok (s', t')) :
    P t' := by
  induction left generalizing k diskBlockNum pos b s t with
  | zero =>
    cases hok
    exact h
  | succ left ih =>
    rw [copyLoop] at hok
    split at hok
    case isTrue =>
      obtain ⟨⟨b', s₁⟩, -, hbody⟩ := Except.bind_eq_ok.mp hok
      obtain ⟨⟨s₂, t₂⟩, hstep, hloop⟩ := Except.bind_eq_ok.mp hbody
      exact ih (hbyte h hstep) hloop
    case isFalse =>
      obtain ⟨⟨s₂, t₂⟩, hstep, hloop⟩ := Except.bind_eq_ok.mp hok
      exact ih (hbyte h hstep) hloop

/-- The operations of the loader keep a fact about the page table and memory. -/
structure LoaderKeeps (P : BitVec 64 → Paging → Prop) : Prop where
  page : ∀ {pagetable vpn s s'}, P pagetable s →
    allocateVirtualPage pagetable vpn allPermissions s = .ok s' → P pagetable s'
  store : ∀ {pagetable virtualAddress physicalAddress s} (byte : BitVec 8), P pagetable s →
    virtualToPhysical s.mem pagetable virtualAddress = .ok physicalAddress →
    P pagetable { s with mem := s.mem.write physicalAddress byte }

variable {P : BitVec 64 → Paging → Prop} {startBlock startOffset pagetable : BitVec 64}
  {seg : Elfread} {io io' : CachedDisk} {s s' : Paging} {elfNodes : ElfNodes}

theorem loadSegment_keeps (hP : LoaderKeeps P) (h : P pagetable s)
    (hok : loadSegment wild startBlock startOffset pagetable seg io s = .ok (io', s')) :
    P pagetable s' := by
  obtain ⟨s₁, halloc, hrest⟩ := Except.bind_eq_ok.mp hok
  obtain ⟨⟨io₁, mem⟩, hread, hend⟩ := Except.bind_eq_ok.mp hrest
  cases hend
  have h₁ : P pagetable s₁ := by
    refine Except.foldlM_invariant (P := fun _ s => P pagetable s) h ?_ halloc
    intro _ i _ s s' _ hs hround
    rw [allocateByte] at hround
    split at hround
    case isTrue => exact hP.page hs hround
    case isFalse =>
      cases hround
      exact hs
  obtain ⟨⟨b, io₂⟩, -, hloop⟩ := Except.bind_eq_ok.mp hread
  refine copyLoop_keeps (P := fun mem => P pagetable { s₁ with mem }) ?_ h₁ hloop
  intro k b pos io mem io' mem' hmem hbyte
  obtain ⟨physicaladdr, hphys, hdone⟩ := Except.bind_eq_ok.mp hbyte
  cases hdone
  exact hP.store _ hmem hphys

theorem loadSegments_keeps (hP : LoaderKeeps P) {fuel : ℕ} {ptr : ElfreadPtr}
    {stack stack' : BitVec 64} (h : P pagetable s)
    (hok : loadSegments wild startBlock startOffset pagetable elfNodes fuel ptr (io, s, stack) =
      .ok (io', s', stack')) :
    P pagetable s' := by
  induction fuel generalizing ptr io s stack with
  | zero =>
    cases ptr with
    | none =>
      cases hok
      exact h
    | some i => cases hok
  | succ fuel ih =>
    cases ptr with
    | none =>
      cases hok
      exact h
    | some i =>
      obtain ⟨⟨io₁, s₁⟩, hsegment, hloop⟩ := Except.bind_eq_ok.mp hok
      exact ih (loadSegment_keeps hP h hsegment) hloop

/-- What holds of a new page table, and is kept by the operations on it, holds when the program is
loaded. -/
theorem programLoader_keeps (hP : LoaderKeeps P) {program : Program} {pid : Pid} {k k' : Kernel}
    (htable : ∀ {pagetable s}, allocatePageTable k.paging = .ok (pagetable, s) → P pagetable s)
    (hok : programLoader wild program pid k = .ok (true, k')) :
    ∃ pagetable, P pagetable k'.paging := by
  obtain ⟨elfRead, io, elfNodes, pagetable, s₁, io₂, s₂, stack, s₃, s₄, -, -, hnew, hload,
    hstack₁, hstack₂, rfl⟩ := programLoader_eq_ok hok
  have h₂ := loadSegments_keeps hP (htable hnew) hload
  exact ⟨pagetable, hP.page (hP.page h₂ hstack₁) hstack₂⟩

end Keeps

/-! ## The frames of the new page table -/

/-- The page table was made of frames that were free at first, and nothing was written to others. -/
structure Fresh (K : KernelImage) (s₀ : Paging) (pagetable : BitVec 64) (s : Paging) : Prop where
  refines : ∃ (spaces : BitVec 64 → Option Space) (t : BitVec 64) (A : Space),
    pagetable = t <<< 12 ∧ spaces t = some A ∧ Refines K spaces s ∧
    ∀ {p f}, p.length ≤ 3 → Forest.walk (child s.mem) t p = some f → f ∈ s₀.alloc.freeList
  suffix : s.alloc.freeList <:+ s₀.alloc.freeList
  same : ∀ x : BitVec 64, x >>> 12 ∉ s₀.alloc.freeList → s.mem x = s₀.mem x

section Fresh

variable {K : KernelImage} {spaces : BitVec 64 → Option Space} {s₀ s s' : Paging}
  {pagetable vpn virtualAddress physicalAddress : BitVec 64}

/-- A new page table is made of one frame that was free. -/
theorem Refines.fresh_of_allocatePageTable (h : Refines K spaces s₀)
    (hok : R5O5.allocatePageTable s₀ = .ok (pagetable, s)) : Fresh K s₀ pagetable s := by
  obtain ⟨own, leaked, hinv⟩ := h.inv
  obtain ⟨g, rfl, hfree, hinv', hmem⟩ := hinv.allocatePageTable hok
  obtain ⟨t, ht, hnone, h'⟩ := h.allocatePageTable hok
  have hgfree : g ∈ s₀.alloc.freeList := by
    rw [hfree]
    exact List.mem_cons_self
  -- the root is the page that was taken
  obtain rfl : t = g := by
    obtain ⟨own'', leaked'', hinv''⟩ := h'.inv
    have htown :=
      hinv''.owned.own_root (Refines.mem_live (Function.update_self t (some .empty) spaces))
    have htlt := hinv''.toNat_lt htown
    have hglt := toNat_lt_of_managed (hinv.ledger.managed_of_free hgfree)
    bv_omega
  constructor
  case refines =>
    refine ⟨_, t, _, rfl, Function.update_self .., h', fun {p f} hp hwalk => ?_⟩
    have hown := (hinv'.owned.walk_eq_some_iff (Set.mem_insert ..) hp).mp hwalk
    rcases eq_or_ne f t with rfl | hne
    · exact hgfree
    · rw [Function.update_of_ne hne] at hown
      have hroot := hinv.owned.own_root (hinv.owned.mem_live hown)
      rw [hinv.ledger.own_of_free hgfree] at hroot
      cases hroot
  case suffix =>
    rw [hfree]
    exact List.suffix_cons ..
  case same =>
    intro x hx
    refine hmem x ?_
    rintro rfl
    exact hx hgfree

/-- A new page takes frames that were free. -/
theorem Fresh.allocateVirtualPage (h : Fresh K s₀ pagetable s) {perm : Permissions}
    (hok : R5O5.allocateVirtualPage pagetable vpn perm s = .ok s') : Fresh K s₀ pagetable s' := by
  obtain ⟨spaces, t, A, rfl, ht, hrefines, hframes⟩ := h.refines
  obtain ⟨own, leaked, hinv⟩ := hrefines.inv
  have hlive := Refines.mem_live ht
  have hempty : ∀ f ∈ directoryFrames s (t <<< 12) vpn, EmptyDirectory s.mem f := fun f hf => by
    have hfree : f ∈ s.alloc.freeList := List.mem_of_mem_drop (List.mem_of_mem_take hf)
    exact hrefines.emptyDirectory_of_free hfree
      (toNat_lt_of_managed (hinv.ledger.managed_of_free hfree))
  obtain ⟨own', leaf, -, -, hinv', hext⟩ := hinv.allocateVirtualPage hlive hempty hok
  -- a node of the tree was there before, or was free now
  have hnode : ∀ {f p}, own' f = some (t, p) → f ∈ s₀.alloc.freeList := by
    intro f p hf
    rcases hext.new hf with hf | ⟨hfree, -⟩
    · have hp := hinv.owned.length_le hf
      exact hframes hp ((hinv.owned.walk_eq_some_iff hlive hp).mpr hf)
    · exact h.suffix.subset hfree
  constructor
  case refines =>
    refine ⟨_, t, _, rfl, Function.update_self .., (hrefines.allocateVirtualPage ht hok).2, ?_⟩
    intro p f hp hwalk
    exact hnode ((hinv'.owned.walk_eq_some_iff hlive hp).mp hwalk)
  case suffix => exact hext.suffix.trans h.suffix
  case same =>
    intro x hx
    rw [hext.mem_eq fun q hq => absurd (hnode hq) hx]
    exact h.same x hx

/-- A byte that is stored through the page table goes to one of its frames. -/
theorem Fresh.store (h : Fresh K s₀ pagetable s)
    (hok : virtualToPhysical s.mem pagetable virtualAddress = .ok physicalAddress)
    (byte : BitVec 8) :
    Fresh K s₀ pagetable { s with mem := s.mem.write physicalAddress byte } := by
  obtain ⟨spaces, t, A, rfl, ht, hrefines, hframes⟩ := h.refines
  obtain ⟨own, leaked, hinv⟩ := hrefines.inv
  have hlive := Refines.mem_live ht
  obtain ⟨f, hf, rfl⟩ := (virtualToPhysical_eq_ok_iff hinv hlive).mp hok
  have hpage : (f <<< 12 ||| getOffset virtualAddress) >>> 12 = f :=
    page_translated (hinv.toNat_lt hf)
  have hmem :=
    hframes (by simp [path]) ((hinv.owned.walk_eq_some_iff hlive (by simp [path])).mpr hf)
  obtain ⟨hmapped, hrefines'⟩ := hrefines.store ht hok byte
  constructor
  case refines =>
    refine ⟨_, t, _, rfl, Function.update_self .., hrefines', fun {p g} hp hwalk => hframes hp ?_⟩
    -- the byte lies in a leaf, so every walk is as before
    rw [← hwalk]
    refine (Forest.walk_congr (fun {g q} i hg hq => ?_) p hp).symm
    have hown := (hinv.owned.walk_eq_some_iff hlive hq.le).mp hg
    refine child_congr (hinv.toNat_lt hown) ?_
    rintro x rfl
    refine Mem.write_of_ne _ _ ?_
    rintro rfl
    rw [hpage, hf] at hown
    cases hown
    simp [path] at hq
  case suffix => exact h.suffix
  case same =>
    intro x hx
    have hne : x ≠ f <<< 12 ||| getOffset virtualAddress := by
      rintro rfl
      rw [hpage] at hx
      exact hx hmem
    exact (Mem.write_of_ne _ _ hne).trans (h.same x hx)

/-- The loader works on fresh frames throughout. -/
theorem loaderKeeps_fresh (K : KernelImage) (s₀ : Paging) : LoaderKeeps (Fresh K s₀) where
  page h hok := h.allocateVirtualPage hok
  store byte h hok := h.store hok byte

/-- A page table reads the same while nothing is written to managed frames that are not free. -/
theorem Refines.readVirtual_of_same (h : Refines K spaces s) {t : BitVec 64} {A : Space}
    (ht : spaces t = some A) {mem : Mem}
    (hsame : ∀ x : BitVec 64, x >>> 12 ∈ managed K → x >>> 12 ∉ s.alloc.freeList →
      mem x = s.mem x) :
    readVirtual mem (t <<< 12) virtualAddress = readVirtual s.mem (t <<< 12) virtualAddress := by
  obtain ⟨own, leaked, hinv⟩ := h.inv
  have hlive := Refines.mem_live ht
  have hnode : ∀ {f p} {x : BitVec 64}, own f = some p → x >>> 12 = f → mem x = s.mem x := by
    rintro f p x hf rfl
    refine hsame x (hinv.ledger.managed_of_own hf) fun hfree => ?_
    rw [hinv.ledger.own_of_free hfree] at hf
    cases hf
  have hinv' : Paging.Inv K {t | (spaces t).isSome} own leaked { s with mem } :=
    hinv.setMem fun f t p i hf _ => entry_congr (hinv.toNat_lt hf) fun x hx => hnode hf hx
  refine (readVirtual_congr hinv hinv' hlive hlive (fun _ => Iff.rfl) fun f hf => ?_ :)
  exact hnode hf (page_translated (hinv.toNat_lt hf))

/-- Memory outside of the managed frames does not matter. -/
theorem Refines.setMem (h : Refines K spaces s) {mem : Mem}
    (hsame : ∀ x : BitVec 64, x >>> 12 ∈ managed K → mem x = s.mem x) :
    Refines K spaces { s with mem } := by
  obtain ⟨own, leaked, hinv⟩ := h.inv
  constructor
  case inv =>
    refine ⟨own, leaked, hinv.setMem fun f t p i hf _ => entry_congr (hinv.toNat_lt hf) ?_⟩
    rintro x rfl
    exact hsame x (hinv.ledger.managed_of_own hf)
  case zero_of_free =>
    intro x hx
    exact (hsame x (hinv.ledger.managed_of_free hx)).trans (h.zero_of_free x hx)
  case read =>
    intro t A ht virtualAddress
    rw [← h.read ht]
    exact h.readVirtual_of_same ht fun x hx _ => hsame x hx

/-- Creating a process takes frames off the free stack, and writes to these only. -/
theorem Refines.createProcess_same {k k' : Kernel} (h : Refines K spaces k.paging) {wild : Wild}
    {program : Program} {pid : Pid} (hok : createProcess wild program k = .ok (pid, k')) :
    k'.paging.alloc.freeList <:+ k.paging.alloc.freeList ∧
      ∀ x : BitVec 64, x >>> 12 ∉ k.paging.alloc.freeList → k'.paging.mem x = k.paging.mem x := by
  obtain ⟨-, k₁, hload, rfl⟩ := createProcess_eq_ok hok
  obtain ⟨pagetable, hfresh⟩ := programLoader_keeps (loaderKeeps_fresh K k.paging)
    (fun htable => h.fresh_of_allocatePageTable htable) hload
  exact ⟨hfresh.suffix, hfresh.same⟩

end Fresh

end R5O5
