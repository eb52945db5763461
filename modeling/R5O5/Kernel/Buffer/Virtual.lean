import R5O5.Kernel.Buffer.FlatDisk
import R5O5.Kernel.Paging.Separation

/-!
# Copying between disk and virtual memory

A range of the disk is copied to virtual addresses and back. The loop stores into the frames of a
page table that it reads again for the next byte; with all directories and frames distinct no store
reaches a directory, so every byte goes where the table sent it before the copy.

## Main definitions

- `DistinctFrames`: no two walks down a page table end in the same frame;
- `Window`: mapped virtual addresses, with the frames they are in.

## Main results

- `Window.readBytesVirtual`, `Window.writeBytesVirtual`: the copying functions on scattered bytes;
- `readBytesVirtual_writeBytesVirtual`: a range copied to memory and back to the disk.
-/

namespace R5O5

/-- The directories of the page table and the frames it maps are pairwise distinct. -/
def DistinctFrames (mem : Mem) (t : BitVec 64) : Prop :=
  ∀ ⦃p q f⦄, p.length ≤ 3 → q.length ≤ 3 → Forest.walk (child mem) t p = some f →
    Forest.walk (child mem) t q = some f → p = q

/-- The range starts in a block of the disk, or right behind it, and ends on the disk. -/
structure InsideDisk (diskBlockNum offset nBytes : BitVec 64) : Prop where
  block_lt : diskBlockNum.toNat < diskSize
  offset_le : offset.toNat ≤ bsize
  end_le : diskBlockNum.toNat * bsize + offset.toNat + nBytes.toNat ≤ diskSize * bsize

/-- The page tables of the kernel have distinct frames. -/
theorem Paging.Inv.distinctFrames {K : KernelImage} {live : Set (BitVec 64)} {own : Places}
    {leaked : ℕ} {s : Paging} {t : BitVec 64} (h : s.Inv K live own leaked) (ht : t ∈ live) :
    DistinctFrames s.mem t := by
  intro p q f hp hq hwalk hwalk'
  have hown := (h.owned.walk_eq_some_iff ht hp).mp hwalk
  have hown' := (h.owned.walk_eq_some_iff ht hq).mp hwalk'
  exact (Prod.mk.inj (Option.some.inj (hown.symm.trans hown'))).2

/-- The page number in a valid entry has 44 bits. -/
theorem toNat_lt_of_child {mem : Mem} {f g : BitVec 64} {i : Fin numPte}
    (h : child mem f i = some g) : g.toNat < 2 ^ 44 := by
  rw [← getPageNum_of_child h, toNat_getPageNum]
  exact Nat.mod_lt _ (by decide)

/-- The frames at the ends of walks. -/
theorem toNat_lt_of_walk {mem : Mem} {t f : BitVec 64} {p : List (Fin numPte)}
    (ht : t.toNat < 2 ^ 52) (h : Forest.walk (child mem) t p = some f) : f.toNat < 2 ^ 52 := by
  induction p using List.reverseRecOn with
  | nil =>
    cases h
    exact ht
  | append_singleton p i _ =>
    rw [Forest.walk_append_singleton] at h
    obtain ⟨g, -, hchild⟩ := Option.bind_eq_some_iff.mp h
    exact Nat.lt_trans (toNat_lt_of_child hchild) (by decide)

/-- The `count` virtual addresses from `vaddr` on are mapped by the page table at `t`, byte `i` in
the frame `frame i`. -/
structure Window (mem : Mem) (t vaddr : BitVec 64) (count : ℕ) (frame : ℕ → BitVec 64) : Prop where
  root_lt : t.toNat < 2 ^ 52
  distinct : DistinctFrames mem t
  walk : ∀ {i}, i < count →
    Forest.walk (child mem) t (path (vaddr + BitVec.ofNat 64 i)) = some (frame i)

/-- The physical address of byte `i`. -/
def physicalAt (vaddr : BitVec 64) (frame : ℕ → BitVec 64) (i : ℕ) : BitVec 64 :=
  frame i <<< 12 ||| getOffset (vaddr + BitVec.ofNat 64 i)

namespace Window

variable {mem mem' : Mem} {t vaddr : BitVec 64} {count i : ℕ} {frame : ℕ → BitVec 64}
  {s : CachedDisk} {diskBlockNum offset nBytes : BitVec 64} {bytes : ℕ → BitVec 8}

theorem frame_lt (h : Window mem t vaddr count frame) (hi : i < count) :
    (frame i).toNat < 2 ^ 44 := by
  have hwalk := h.walk hi
  simp only [path, Forest.walk, Option.bind_eq_some_iff] at hwalk
  obtain ⟨_, -, _, -, leaf, hleaf, hf⟩ := hwalk
  obtain rfl : leaf = frame i := Option.some.inj hf
  exact toNat_lt_of_child hleaf

/-- Different addresses of the window are different bytes of memory. -/
theorem physicalAt_inj (h : Window mem t vaddr count frame) (hcount : count ≤ 2 ^ 39) :
    ∀ i < count, ∀ j < count, physicalAt vaddr frame i = physicalAt vaddr frame j → i = j := by
  intro i hi j hj heq
  have hframe : frame i = frame j := by
    have hpage := congrArg (fun x : BitVec 64 => x >>> 12) heq
    simpa only [physicalAt, page_translated (h.frame_lt hi), page_translated (h.frame_lt hj)]
      using hpage
  have hoffset := congrArg BitVec.toNat heq
  rw [physicalAt, physicalAt, toNat_translated (h.frame_lt hi), toNat_translated (h.frame_lt hj),
    hframe] at hoffset
  -- the addresses have the same virtual page, so they agree in 39 bits
  have hpath : path (vaddr + BitVec.ofNat 64 i) = path (vaddr + BitVec.ofNat 64 j) := by
    apply h.distinct (by simp [path]) (by simp [path]) (h.walk hi)
    rw [hframe]
    exact h.walk hj
  rw [← vpnPath_getVirtPage, ← vpnPath_getVirtPage, vpnPath_eq_iff, toNat_getVirtPage,
    toNat_getVirtPage] at hpath
  simp only [BitVec.toNat_add, BitVec.toNat_ofNat] at hpath hoffset
  omega

/-- Bytes scattered over the window change no directory. -/
theorem walk_scatter (h : Window mem t vaddr count frame) {n : ℕ} (hn : n ≤ count)
    (p : List (Fin numPte)) (hp : p.length ≤ 3) :
    Forest.walk (child (mem.scatter (physicalAt vaddr frame) bytes n)) t p =
      Forest.walk (child mem) t p := by
  refine Forest.walk_congr (fun i hwalk hq => ?_) p hp
  apply child_eq_of_entry_eq
  apply Mem.load64_congr
  intro x hx
  have hpage := page_of_slot_of_lt (toNat_lt_of_walk h.root_lt hwalk) hx
  apply Mem.scatter_of_ne
  rintro j hj rfl
  -- a frame of the window is no directory, which is reached in fewer steps
  rw [physicalAt, page_translated (h.frame_lt (by omega))] at hpage
  have hleaf := h.walk (show j < count by omega)
  rw [hpage] at hleaf
  have hlength := congrArg List.length (h.distinct (by omega) (by simp [path]) hwalk hleaf)
  simp only [path, List.length_cons, List.length_nil] at hlength
  omega

/-- The translation of an address of the window, after bytes are scattered over it. -/
theorem virtualToPhysical_scatter (h : Window mem t vaddr count frame) {n : ℕ} (hn : n ≤ count)
    (hi : i < count) :
    virtualToPhysical (mem.scatter (physicalAt vaddr frame) bytes n) (t <<< 12)
      (vaddr + BitVec.ofNat 64 i) = .ok (physicalAt vaddr frame i) := by
  apply virtualToPhysical_eq_ok
  rw [h.walk_scatter hn _ (by simp [path])]
  exact h.walk hi

/-- The window is still one after bytes are scattered over it. -/
theorem scatter (h : Window mem t vaddr count frame) {n : ℕ} (hn : n ≤ count) :
    Window (mem.scatter (physicalAt vaddr frame) bytes n) t vaddr count frame where
  root_lt := h.root_lt
  distinct p q f hp hq hwalk hwalk' := by
    rw [h.walk_scatter hn p hp] at hwalk
    rw [h.walk_scatter hn q hq] at hwalk'
    exact h.distinct hp hq hwalk hwalk'
  walk hi := by
    rw [h.walk_scatter hn _ (by simp [path])]
    exact h.walk hi

/-- `readBytesVirtual` scatters the bytes of the disk. -/
theorem readBytesVirtual (h : Window mem t vaddr nBytes.toNat frame) (hs : Settled s)
    (hrange : InsideDisk diskBlockNum offset nBytes) (wild : Wild) :
    ∃ s', R5O5.readBytesVirtual wild diskBlockNum offset nBytes vaddr (t <<< 12) s mem =
        .ok (s', mem.scatter (physicalAt vaddr frame)
          (fun i => s.disk (diskBlockNum.toNat * bsize + offset.toNat + i)) nBytes.toNat) ∧
      Settled s' ∧ s'.disk = s.disk := by
  -- after `k` bytes the first `k` of them are scattered
  let J (k : ℕ) (mem' : Mem) : Prop := mem' = mem.scatter (physicalAt vaddr frame)
    (fun i => s.disk (diskBlockNum.toNat * bsize + offset.toNat + i)) k
  have hbyte : StoresByte vaddr (t <<< 12) s.disk (diskBlockNum.toNat * bsize + offset.toNat)
      nBytes.toNat J (fun _ => False) := by
    rintro k hlt _ rfl
    exact Or.inl ⟨_, h.virtualToPhysical_scatter (Nat.le_of_lt hlt) hlt, rfl⟩
  rcases readBytesVirtual_rule hs hrange.offset_le hrange.block_lt wild (rfl : J 0 mem) hbyte with
    ⟨s', mem', hok, -, hsettled, hdisk, rfl⟩ | ⟨-, hlt⟩ | ⟨e, -, hfalse⟩
  · exact ⟨s', hok, hsettled, hdisk⟩
  · exact absurd hrange.end_le (Nat.not_le_of_lt hlt)
  · exact hfalse.elim

/-- Each byte of the window is written to the disk. -/
theorem bodySpec_writeBytesVirtual {count : ℕ} (h : Window mem t vaddr count frame)
    (disk : ℕ → BitVec 8) (start : ℕ) :
    BodySpec true start count
      (fun k D _ => D = writeRange disk start k fun i => mem (physicalAt vaddr frame i))
      (fun _ => False) (fun k b pos (s, (t' : Unit)) => do
        let physicaladdr ← virtualToPhysical mem (t <<< 12) (vaddr + BitVec.ofNat 64 k)
        let s ← setData b pos (mem physicaladdr) s
        return (s, t')) := by
  constructor
  rintro k b pos s' _ D n hlt hpos hhold rfl hk -
  -- every byte of the window has a page, so the walk cannot fail
  have hphys : virtualToPhysical mem (t <<< 12) (vaddr + BitVec.ofNat 64 k) =
      .ok (physicalAt vaddr frame k) := virtualToPhysical_eq_ok (h.walk hlt)
  obtain ⟨s'', hset, hhold'⟩ := hhold.setData hpos (mem (physicalAt vaddr frame k))
  refine Or.inl ⟨s'', (), _, ?_, hhold', ?_, by simp⟩
  · simp only [hphys, hset, Except.ok_bind]
    rfl
  · rw [← hk, ← writeRange_succ]

/-- `writeBytesVirtual` collects the bytes from the window. -/
theorem writeBytesVirtual (h : Window mem t vaddr nBytes.toNat frame) (hs : Settled s)
    (hrange : InsideDisk diskBlockNum offset nBytes) :
    ∃ s', R5O5.writeBytesVirtual diskBlockNum offset nBytes vaddr (t <<< 12) s mem = .ok s' ∧
      Settled s' ∧
      s'.disk = writeRange s.disk (diskBlockNum.toNat * bsize + offset.toNat) nBytes.toNat
        (fun i => mem (physicalAt vaddr frame i)) := by
  rw [R5O5.writeBytesVirtual]
  rcases copyBytes_cases "writeBytesVirtual: block exceeds disk size" rfl
    (h.bodySpec_writeBytesVirtual s.disk _) hs (writeRange_zero ..).symm hrange.offset_le
    hrange.block_lt with ⟨s', _, hok, -, hsettled, hdisk⟩ | ⟨-, hlt⟩ | ⟨e, -, hfalse⟩
  · exact ⟨s', by rw [hok]; rfl, hsettled, hdisk⟩
  · exact absurd hrange.end_le (Nat.not_le_of_lt hlt)
  · exact hfalse.elim

end Window

section RoundTrip

variable {mem : Mem} {pagetable vaddr nBytes diskBlockNum offset diskBlockNum' offset' : BitVec 64}
  {s : CachedDisk}

/-- An aligned address is the address of its page. -/
theorem page_shiftLeft_of_aligned (haligned : getOffset pagetable = 0) :
    (pagetable >>> 12) <<< 12 = pagetable := by
  have hzero := congrArg BitVec.toNat haligned
  rw [toNat_getOffset, show (0 : BitVec 64).toNat = 0 from rfl] at hzero
  apply BitVec.eq_of_toNat_eq
  rw [BitVec.toNat_shiftLeft, toNat_page, Nat.shiftLeft_eq]
  omega

/-- Mapped addresses are a window of the page table. -/
theorem exists_window {t : BitVec 64} {count : ℕ} (ht : t.toNat < 2 ^ 52)
    (hdistinct : DistinctFrames mem t)
    (hmapped : ∀ i < count, isVirtualPageAllocated mem (t <<< 12)
      (getVirtPage (vaddr + BitVec.ofNat 64 i)) = true) :
    ∃ frame, Window mem t vaddr count frame := by
  have hwalk : ∀ i, ∃ f, i < count →
      Forest.walk (child mem) t (path (vaddr + BitVec.ofNat 64 i)) = some f := by
    intro i
    by_cases hi : i < count
    · obtain ⟨f, hf⟩ := isVirtualPageAllocated_iff.mp (hmapped i hi)
      rw [vpnPath_getVirtPage] at hf
      exact ⟨f, fun _ => hf⟩
    · exact ⟨0, fun h => absurd h hi⟩
  choose frame hframe using hwalk
  exact ⟨frame, ht, hdistinct, fun {i} hi => hframe i hi⟩

/-- A range of the disk is copied to mapped addresses and from there to a range of the disk. The
first copy changes the bytes of memory at these addresses only, the second one the bytes of its
range only, and in the end both ranges are the same. -/
theorem readBytesVirtual_writeBytesVirtual (hs : Settled s) (haligned : getOffset pagetable = 0)
    (hdistinct : DistinctFrames mem (pagetable >>> 12))
    (hmapped : ∀ i < nBytes.toNat, isVirtualPageAllocated mem pagetable
      (getVirtPage (vaddr + BitVec.ofNat 64 i)) = true)
    (hrange : InsideDisk diskBlockNum offset nBytes)
    (hrange' : InsideDisk diskBlockNum' offset' nBytes) (wild : Wild) :
    ∃ s₁ mem₁ s₂,
      readBytesVirtual wild diskBlockNum offset nBytes vaddr pagetable s mem = .ok (s₁, mem₁) ∧
      (∀ i < nBytes.toNat, ∃ physicaladdr,
        virtualToPhysical mem pagetable (vaddr + BitVec.ofNat 64 i) = .ok physicaladdr ∧
          mem₁ physicaladdr = s.disk (diskBlockNum.toNat * bsize + offset.toNat + i)) ∧
      (∀ x, (∀ i < nBytes.toNat,
        virtualToPhysical mem pagetable (vaddr + BitVec.ofNat 64 i) ≠ .ok x) → mem₁ x = mem x) ∧
      s₁.disk = s.disk ∧
      writeBytesVirtual diskBlockNum' offset' nBytes vaddr pagetable s₁ mem₁ = .ok s₂ ∧
      (∀ i < nBytes.toNat, s₂.disk (diskBlockNum'.toNat * bsize + offset'.toNat + i) =
        s.disk (diskBlockNum.toNat * bsize + offset.toNat + i)) ∧
      (∀ p, (∀ i < nBytes.toNat, p ≠ diskBlockNum'.toNat * bsize + offset'.toNat + i) →
        s₂.disk p = s.disk p) ∧
      Settled s₂ := by
  have ht : (pagetable >>> 12).toNat < 2 ^ 52 := by
    rw [toNat_page]
    omega
  rw [← page_shiftLeft_of_aligned haligned] at hmapped ⊢
  generalize pagetable >>> 12 = t at *
  -- the window sees the same frames before and after the transfer
  obtain ⟨frame, hwindow⟩ := exists_window ht hdistinct hmapped
  obtain ⟨s₁, hread, hs₁, hdisk₁⟩ := hwindow.readBytesVirtual hs hrange wild
  obtain ⟨s₂, hwrite, hs₂, hdisk₂⟩ :=
    (hwindow.scatter (Nat.le_refl _)).writeBytesVirtual hs₁ hrange'
  -- the disk is smaller than the address space, so no virtual address comes twice
  have hcount : nBytes.toNat ≤ 2 ^ 39 := by
    have hle := hrange.end_le
    simp only [bsize, diskSize] at hle
    omega
  have hphys : ∀ i < nBytes.toNat, virtualToPhysical mem (t <<< 12)
      (vaddr + BitVec.ofNat 64 i) = .ok (physicalAt vaddr frame i) :=
    fun i hi => virtualToPhysical_eq_ok (hwindow.walk hi)
  refine ⟨s₁, _, s₂, hread, fun i hi => ⟨_, hphys i hi, ?_⟩, fun x hx => ?_, hdisk₁, hwrite,
    fun i hi => ?_, fun p hp => ?_, hs₂⟩
  · exact Mem.scatter_addr (hwindow.physicalAt_inj hcount) hi
  · apply Mem.scatter_of_ne
    rintro i hi rfl
    exact hx i hi (hphys i hi)
  · rw [hdisk₂, writeRange, if_pos (by omega), Nat.add_sub_cancel_left]
    exact Mem.scatter_addr (hwindow.physicalAt_inj hcount) hi
  · rw [hdisk₂, writeRange, if_neg, hdisk₁]
    rintro ⟨hle, hlt⟩
    apply hp (p - (diskBlockNum'.toNat * bsize + offset'.toNat)) <;> omega

instance : NeZero numPte := ⟨by decide⟩

/-- A page table in frame 1 that maps the first two pages to the frames 9 and 5. -/
def scatteredPages : Mem :=
  let link (f : BitVec 64) (i : Fin numPte) (g : BitVec 64) (mem : Mem) : Mem :=
    mem.store64 (slotAddr f i) (g <<< 10 ||| pteV)
  link 3 1 5 (link 3 0 9 (link 2 0 3 (link 1 0 2 fun _ => 0)))

theorem child_scatteredPages {f g : BitVec 64} {i : Fin numPte} (hf : f.toNat < 2 ^ 44)
    (h : child scatteredPages f i = some g) :
    (f, i, g) ∈ [((1 : BitVec 64), (0 : Fin numPte), (2 : BitVec 64)), (2, 0, 3), (3, 0, 9),
      (3, 1, 5)] := by
  -- a root, two directories below it, and pages 9 and 5
  have hentries : child scatteredPages 1 0 = some 2 ∧ child scatteredPages 2 0 = some 3 ∧
      child scatteredPages 3 0 = some 9 ∧ child scatteredPages 3 1 = some 5 := by
    decide +kernel
  obtain ⟨h₁, h₂, h₃, h₄⟩ := hentries
  by_cases hmem : (f, i) ∈ [((1 : BitVec 64), (0 : Fin numPte)), (2, 0), (3, 0), (3, 1)]
  · simp only [List.mem_cons, Prod.mk.injEq, List.not_mem_nil, or_false] at hmem
    rcases hmem with ⟨rfl, rfl⟩ | ⟨rfl, rfl⟩ | ⟨rfl, rfl⟩ | ⟨rfl, rfl⟩
    · simp [Option.some.inj (h.symm.trans h₁)]
    · simp [Option.some.inj (h.symm.trans h₂)]
    · simp [Option.some.inj (h.symm.trans h₃)]
    · simp [Option.some.inj (h.symm.trans h₄)]
  · -- the other entries are zero
    simp only [List.mem_cons, List.not_mem_nil, or_false, not_or] at hmem
    obtain ⟨hne₁, hne₂, hne₃, hne₄⟩ := hmem
    have hzero : entry scatteredPages f i = 0 := by
      apply (entry_store64_of_ne (by decide) hf hne₄).trans
      apply (entry_store64_of_ne (by decide) hf hne₃).trans
      apply (entry_store64_of_ne (by decide) hf hne₂).trans
      apply (entry_store64_of_ne (by decide) hf hne₁).trans
      exact Mem.load64_of_zero fun _ _ => rfl
    rw [child_of_entry_zero hzero] at h
    cases h

theorem distinctFrames_scatteredPages : DistinctFrames scatteredPages 1 := by
  have hwalk : ∀ {p f}, Forest.walk (child scatteredPages) 1 p = some f → p.length ≤ 3 →
      f.toNat < 2 ^ 44 ∧ (p, f) ∈ [(([] : List (Fin numPte)), (1 : BitVec 64)), ([0], 2),
        ([0, 0], 3), ([0, 0, 0], 9), ([0, 0, 1], 5)] := by
    intro p f h hp
    -- a path that exists is one of five
    induction p using List.reverseRecOn generalizing f with
    | nil =>
      cases h
      exact ⟨by decide, by simp⟩
    | append_singleton p i ih =>
      rw [List.length_append, List.length_singleton] at hp
      rw [Forest.walk_append_singleton] at h
      obtain ⟨g, hg, hchild⟩ := Option.bind_eq_some_iff.mp h
      obtain ⟨hlt, hmem⟩ := ih hg (by omega)
      have hslot := child_scatteredPages hlt hchild
      refine ⟨toNat_lt_of_child hchild, ?_⟩
      simp only [List.mem_cons, Prod.mk.injEq, List.not_mem_nil, or_false] at hmem hslot
      rcases hmem with ⟨rfl, rfl⟩ | ⟨rfl, rfl⟩ | ⟨rfl, rfl⟩ | ⟨rfl, rfl⟩ | ⟨rfl, rfl⟩ <;>
        simp_all
  intro p q f hp hq hwalkp hwalkq
  obtain ⟨-, hmem⟩ := hwalk hwalkp hp
  obtain ⟨-, hmem'⟩ := hwalk hwalkq hq
  simp only [List.mem_cons, Prod.mk.injEq, List.not_mem_nil, or_false] at hmem hmem'
  rcases hmem with ⟨rfl, rfl⟩ | ⟨rfl, rfl⟩ | ⟨rfl, rfl⟩ | ⟨rfl, rfl⟩ | ⟨rfl, rfl⟩ <;>
    simp_all

/-- Two bytes over the border of two blocks go to two frames, and from there to the next block. -/
theorem readBytesVirtual_writeBytesVirtual_scattered :
    let s := (DiskCall.boot ⟨id, id⟩ fun p => BitVec.ofNat 8 (p % 251)).io
    ∃ s₁ mem₁ s₂,
      readBytesVirtual (fun _ _ _ => 0) 3 1023 2 0xfff 0x1000 s scatteredPages = .ok (s₁, mem₁) ∧
      mem₁ 0x9fff = s.disk 4095 ∧ mem₁ 0x5000 = s.disk 4096 ∧
      writeBytesVirtual 4 0 2 0xfff 0x1000 s₁ mem₁ = .ok s₂ ∧
      s₂.disk 4096 = s.disk 4095 ∧ s₂.disk 4097 = s.disk 4096 := by
  intro s
  have hrange : InsideDisk 3 1023 2 := ⟨by decide, by decide, by decide⟩
  have hrange' : InsideDisk 4 0 2 := ⟨by decide, by decide, by decide⟩
  obtain ⟨s₁, mem₁, s₂, hread, hbytes, -, -, hwrite, hcopy, -, -⟩ :=
    readBytesVirtual_writeBytesVirtual (DiskCall.carries_boot _ _).settled
      (show getOffset 0x1000 = 0 by decide) distinctFrames_scatteredPages
      (show ∀ i < (2 : BitVec 64).toNat, isVirtualPageAllocated scatteredPages 0x1000
        (getVirtPage (0xfff + BitVec.ofNat 64 i)) = true by decide +kernel)
      hrange hrange' fun _ _ _ => 0
  -- one byte at the end of page 9, and the next at the start of page 5
  obtain ⟨_, hphys₀, hbyte₀⟩ := hbytes 0 (by decide)
  obtain ⟨_, hphys₁, hbyte₁⟩ := hbytes 1 (by decide)
  have haddr₀ : virtualToPhysical scatteredPages 0x1000 (0xfff + BitVec.ofNat 64 0) =
      .ok 0x9fff := by decide +kernel
  have haddr₁ : virtualToPhysical scatteredPages 0x1000 (0xfff + BitVec.ofNat 64 1) =
      .ok 0x5000 := by decide +kernel
  obtain rfl := Except.ok.inj (hphys₀.symm.trans haddr₀)
  obtain rfl := Except.ok.inj (hphys₁.symm.trans haddr₁)
  exact ⟨s₁, mem₁, s₂, hread, hbyte₀, hbyte₁, hwrite, hcopy 0 (by decide), hcopy 1 (by decide)⟩

end RoundTrip

end R5O5
