import R5O5.Kernel.CreateProcess.Image
import R5O5.Kernel.ElfReader.Scan

/-!
# What a program can pull in from the disk

The loader gets the extent of the program on the disk. It checks that the file header lies on the
disk and that each program header starts in front of the end, but neither that a program header ends
there nor where the contents of a segment are. When all that it uses lies in the extent, the rest of
the disk does not matter. Of a header only some fields are used. The loader may stop before it reads
a segment, when there are no frames for its pages or its contents do not lie on the disk; then it
does not matter where they are.

## Main definitions

- `Program.Confined`: every byte that is used lies in the extent;
- `Program.load`: the loader as a function of the bytes of the disk.

## Main results

- `programLoader_load`: the loader follows `Program.load`;
- `programLoader_confined`: a confined program is loaded alike from all disks that agree on its
  extent.
-/

namespace R5O5

/-- The first position of the extent. -/
def Program.extentStart (program : Program) : ℕ :=
  program.startBlock.toNat * bsize + program.startOffset.toNat

/-- The last position of the extent. -/
def Program.extentEnd (program : Program) : ℕ :=
  program.endBlock.toNat * bsize + program.endOffset.toNat

/-- The layout of the program. -/
def Program.layout (program : Program) (disk : ℕ → BitVec 8) : ElfLayout :=
  elfLayout disk program.startBlock program.startOffset program.endBlock program.endOffset

/-- The range lies in the extent. -/
def Program.Within (program : Program) (r : ℕ × ℕ) : Prop :=
  r.2 = 0 ∨ (program.extentStart ≤ r.1 ∧ r.1 + r.2 ≤ program.extentEnd + 1)

instance (program : Program) (r : ℕ × ℕ) : Decidable (program.Within r) :=
  inferInstanceAs (Decidable (_ ∨ _))

/-! ## The loader on a flat disk -/

/-- One byte is stored at a virtual address. -/
def storeByte (pagetable memoryLocation : BitVec 64) (byte : ℕ → BitVec 8) (mem : Mem) (i : ℕ) :
    Except Stop Mem := do
  let physicaladdr ← virtualToPhysical mem pagetable (memoryLocation + BitVec.ofNat 64 i)
  return mem.write physicaladdr (byte i)

/-- The first `count` bytes of a segment are stored. -/
def Program.storeBytes (program : Program) (disk : ℕ → BitVec 8) (pagetable : BitVec 64)
    (seg : Elfread) (count : ℕ) (mem : Mem) : Except Stop Mem :=
  (List.range count).foldlM
    (storeByte pagetable seg.vaddr fun i => disk (program.segmentPos seg + i)) mem

/-- A segment is loaded from the bytes of the disk. Where its contents do not lie on the disk, the
loader may stop with the message of `virtualToPhysical` before it comes to the end of the disk. -/
def Program.loadSegment (program : Program) (disk : ℕ → BitVec 8) (pagetable : BitVec 64)
    (s : Paging) (seg : Elfread) : Except Stop Paging := do
  let s ← (List.range seg.memsz.toNat).foldlM (allocateByte pagetable seg.vaddr) s
  if program.ContentsOnDisk seg then
    let mem ← program.storeBytes disk pagetable seg seg.filesz.toNat s.mem
    return { s with mem }
  else .error (.error "readBytesVirtual: block exceeds disk size")

/-- The program is loaded from the bytes of the disk. -/
def Program.load (program : Program) (disk : ℕ → BitVec 8) (pid : Pid) (s : Paging)
    (table : ProcessTable) : Except Stop (Bool × Paging × ProcessTable) :=
  match (program.layout disk).found with
  | none => return (false, s, table)
  | some (entry, segments) => do
    let (pagetable, s) ← allocatePageTable s
    let s ← segments.foldlM (program.loadSegment disk pagetable) s
    let s ← allocateVirtualPage pagetable (stackBegin segments) allPermissions s
    let s ← allocateVirtualPage pagetable (stackBegin segments + 1) allPermissions s
    return (true, s, table.modify pid fun d => loadedDescriptor d entry pagetable segments)

/-! ## What is used -/

/-- Every byte of the segment that is read lies in the extent. None is read when a page cannot be
allocated, or when the contents do not lie on the disk; otherwise those are read that can be stored,
which are all of them unless an address has no translation. -/
def Program.SegmentWithin (program : Program) (disk : ℕ → BitVec 8) (pagetable : BitVec 64)
    (s : Paging) (seg : Elfread) : Prop :=
  ∀ s₁, (List.range seg.memsz.toNat).foldlM (allocateByte pagetable seg.vaddr) s = .ok s₁ →
    program.ContentsOnDisk seg → ∀ i < seg.filesz.toNat,
      (∃ mem, program.storeBytes disk pagetable seg (i + 1) s₁.mem = .ok mem) →
        program.Within (program.segmentPos seg + i, 1)

/-- Every byte of the segments that is read lies in the extent. A segment is reached when those
before it have been loaded. -/
def Program.SegmentsWithin (program : Program) (disk : ℕ → BitVec 8) (pagetable : BitVec 64) :
    List Elfread → Paging → Prop
  | [], _ => True
  | seg :: segs, s => program.SegmentWithin disk pagetable s seg ∧
      ∀ s', program.loadSegment disk pagetable s seg = .ok s' →
        program.SegmentsWithin disk pagetable segs s'

/-- Every field and every byte that is used to load the program lies in its extent. A header that
crosses the end of the disk stops the loader, whatever is in it. -/
structure Program.Confined (program : Program) (disk : ℕ → BitVec 8) (s : Paging) : Prop where
  headers : ∀ r ∈ (program.layout disk).reads,
    Crosses r ∨ (OnDisk r ∧ ∀ f ∈ headerFields disk r, program.Within f)
  segments : ∀ entry segments pagetable s', (program.layout disk).found = some (entry, segments) →
    allocatePageTable s = .ok (pagetable, s') → program.SegmentsWithin disk pagetable segments s'

section Load

variable {program : Program} {disk disk' : ℕ → BitVec 8} {pid : Pid} {s : Paging} {seg : Elfread}
  {segs : List Elfread} {pagetable : BitVec 64} {mem : Mem}

theorem Program.storeBytes_succ (program : Program) (disk : ℕ → BitVec 8) (pagetable : BitVec 64)
    (seg : Elfread) (count : ℕ) (mem : Mem) :
    program.storeBytes disk pagetable seg (count + 1) mem =
      program.storeBytes disk pagetable seg count mem >>= fun mem => do
        let physicaladdr ← virtualToPhysical mem pagetable (seg.vaddr + BitVec.ofNat 64 count)
        return mem.write physicaladdr (disk (program.segmentPos seg + count)) := by
  have hlast : ∀ mem, [count].foldlM
      (storeByte pagetable seg.vaddr fun i => disk (program.segmentPos seg + i)) mem =
        storeByte pagetable seg.vaddr (fun i => disk (program.segmentPos seg + i)) mem count :=
    fun mem => bind_pure _
  rw [storeBytes, List.range_succ, List.foldlM_append]
  simp only [hlast]
  rfl

/-- What is stored depends on the bytes that are stored. -/
theorem Program.storeBytes_congr {count : ℕ}
    (h : ∀ i < count, (∃ mem', program.storeBytes disk pagetable seg (i + 1) mem = .ok mem') →
      disk (program.segmentPos seg + i) = disk' (program.segmentPos seg + i)) :
    program.storeBytes disk pagetable seg count mem =
      program.storeBytes disk' pagetable seg count mem := by
  induction count with
  | zero => rfl
  | succ count ih =>
    have hbyte := h count (Nat.lt_succ_self count)
    rw [Program.storeBytes_succ] at hbyte ⊢
    rw [Program.storeBytes_succ, ← ih fun i hi => h i (Nat.lt_succ_of_lt hi)]
    cases hmem : program.storeBytes disk pagetable seg count mem with
    | error e => rfl
    | ok mem' =>
      rw [hmem, Except.ok_bind] at hbyte
      rw [Except.ok_bind, Except.ok_bind]
      cases hphys : virtualToPhysical mem' pagetable (seg.vaddr + BitVec.ofNat 64 count) with
      | error e => rfl
      | ok physicaladdr =>
        rw [hphys] at hbyte
        rw [Except.ok_bind, Except.ok_bind, hbyte ⟨_, rfl⟩]

/-- A segment is loaded alike from disks that agree on the extent. -/
theorem Program.loadSegment_congr
    (hagree : ∀ p, program.extentStart ≤ p → p ≤ program.extentEnd → disk p = disk' p)
    (h : program.SegmentWithin disk pagetable s seg) :
    program.loadSegment disk pagetable s seg = program.loadSegment disk' pagetable s seg := by
  rw [Program.loadSegment, Program.loadSegment]
  cases halloc : (List.range seg.memsz.toNat).foldlM (allocateByte pagetable seg.vaddr) s with
  | error e => rfl
  | ok s₁ =>
    rw [Except.ok_bind, Except.ok_bind]
    split
    case isTrue honDisk =>
      rw [Program.storeBytes_congr fun i hi hstored => ?_]
      rcases h s₁ halloc honDisk i hi hstored with hzero | ⟨hfirst, hlast⟩
      · cases hzero
      · exact hagree _ hfirst (Nat.le_of_succ_le_succ hlast)
    case isFalse => rfl

/-- The segments are loaded alike from disks that agree on the extent. -/
theorem Program.loadSegments_congr
    (hagree : ∀ p, program.extentStart ≤ p → p ≤ program.extentEnd → disk p = disk' p)
    (h : program.SegmentsWithin disk pagetable segs s) :
    segs.foldlM (program.loadSegment disk pagetable) s =
      segs.foldlM (program.loadSegment disk' pagetable) s := by
  induction segs generalizing s with
  | nil => rfl
  | cons seg segs ih =>
    rw [List.foldlM_cons, List.foldlM_cons, ← Program.loadSegment_congr hagree h.1]
    cases hload : program.loadSegment disk pagetable s seg with
    | error e => rfl
    | ok s' => exact ih (h.2 s' hload)

/-- The load of a confined program depends on the disk only through the extent. -/
theorem Program.Confined.load_congr (h : program.Confined disk s)
    (hagree : ∀ p, program.extentStart ≤ p → p ≤ program.extentEnd → disk p = disk' p)
    (pid : Pid) (table : ProcessTable) :
    program.layout disk = program.layout disk' ∧
      program.load disk pid s table = program.load disk' pid s table := by
  have hlayout : program.layout disk = program.layout disk' := by
    refine elfLayout_congr fun r hr honDisk f hf p hle hlt => ?_
    rcases h.headers r hr with hcrosses | ⟨-, hfields⟩
    · exact absurd honDisk hcrosses.not_onDisk
    · rcases hfields f hf with hzero | ⟨hfirst, hlast⟩
      · omega
      · exact hagree p (hfirst.trans hle) (by omega)
  refine ⟨hlayout, ?_⟩
  rw [Program.load, Program.load, ← hlayout]
  cases hfound : (program.layout disk).found with
  | none => rfl
  | some found =>
    obtain ⟨entry, segments⟩ := found
    dsimp only
    cases htable : allocatePageTable s with
    | error e => rfl
    | ok r =>
      obtain ⟨pagetable, s'⟩ := r
      rw [Except.ok_bind, Except.ok_bind]
      dsimp only
      rw [Program.loadSegments_congr hagree (h.segments _ _ _ _ hfound htable)]

end Load

/-! ## The loader follows it -/

section Loader

variable {wild : Wild} {program : Program} {pid : Pid} {io : CachedDisk} {disk : ℕ → BitVec 8}
  {pagetable : BitVec 64} {seg : Elfread}

/-- On the disk, the bytes of the disk are stored one after the other. -/
theorem readBytesVirtual_storeByte (wild : Wild) (hs : Settled io) (hdisk : io.disk = disk)
    {diskBlockNum offset nBytes : BitVec 64} (hblock : diskBlockNum.toNat < diskSize)
    (hoffset : offset.toNat ≤ bsize)
    (hread : diskBlockNum.toNat * bsize + offset.toNat + nBytes.toNat ≤ diskSize * bsize)
    (memoryLocation pagetable : BitVec 64) (mem : Mem) :
    ∃ io', Settled io' ∧ io'.disk = disk ∧
      readBytesVirtual wild diskBlockNum offset nBytes memoryLocation pagetable io mem =
        ((List.range nBytes.toNat).foldlM (storeByte pagetable memoryLocation fun i =>
          disk (diskBlockNum.toNat * bsize + offset.toNat + i)) mem).map fun mem => (io', mem) := by
  subst hdisk
  let store := storeByte pagetable memoryLocation fun i =>
    io.disk (diskBlockNum.toNat * bsize + offset.toNat + i)
  -- after `k` bytes the memory is that of the first `k` rounds
  let J (k : ℕ) (m : Mem) : Prop := (List.range k).foldlM store mem = .ok m
  let E (e : Stop) : Prop := (List.range nBytes.toNat).foldlM store mem = .error e
  have hbyte : StoresByte memoryLocation pagetable io.disk
      (diskBlockNum.toNat * bsize + offset.toNat) nBytes.toNat J E := by
    intro k hlt mem₁ hrounds
    have hround : ∀ rest, (List.range k ++ k :: rest).foldlM store mem =
        store mem₁ k >>= fun m => rest.foldlM store m := by
      intro rest
      rw [List.foldlM_append, show _ = Except.ok mem₁ from hrounds, Except.ok_bind,
        List.foldlM_cons]
    cases hphys : virtualToPhysical mem₁ pagetable (memoryLocation + BitVec.ofNat 64 k) with
    | error e =>
      refine Or.inr ⟨e, rfl, ?_⟩
      obtain ⟨left, hleft⟩ := Nat.exists_eq_add_of_le (Nat.succ_le_of_lt hlt)
      show (List.range nBytes.toNat).foldlM store mem = .error e
      rw [hleft, List.range_add, List.range_succ, List.append_assoc, List.singleton_append, hround]
      simp only [store, storeByte, hphys, Except.error_bind]
    | ok physicaladdr =>
      refine Or.inl ⟨physicaladdr, rfl, ?_⟩
      show (List.range (k + 1)).foldlM store mem = _
      rw [List.range_succ, hround]
      simp only [store, storeByte, hphys, Except.ok_bind]
      rfl
  rcases readBytesVirtual_rule hs hoffset hblock wild (rfl : J 0 mem) hbyte with
    ⟨io', mem', hok, -, hsettled, hdisk', hrounds⟩ | ⟨-, hbehind⟩ | ⟨e, herr, hrounds⟩
  · exact ⟨io', hsettled, hdisk', by rw [show _ = Except.ok mem' from hrounds]; exact hok⟩
  · exact absurd hread (Nat.not_le_of_lt hbehind)
  · exact ⟨io, hs, rfl, by rw [show _ = Except.error e from hrounds]; exact herr⟩

theorem Program.toNat_segmentBlock (program : Program) (seg : Elfread)
    (hstart : program.startBlock.toNat < diskSize) :
    (program.startBlock + (seg.off + program.startOffset) / BitVec.ofNat 64 bsize).toNat =
      program.segmentPos seg / bsize := by
  rw [program.segmentPos_eq seg hstart]
  have hlt := toNat_mod_bsize_lt (seg.off + program.startOffset)
  simp only [bsize] at *
  omega

/-- A copy that returns has stayed on the disk. -/
theorem Program.contentsOnDisk_of_readBytesVirtual {memoryLocation : BitVec 64} {mem : Mem}
    {r : CachedDisk × Mem} (hstart : program.startBlock.toNat < diskSize)
    (hok : readBytesVirtual wild
      (program.startBlock + (seg.off + program.startOffset) / BitVec.ofNat 64 bsize)
      ((seg.off + program.startOffset) % BitVec.ofNat 64 bsize) seg.filesz memoryLocation pagetable
      io mem = .ok r) : program.ContentsOnDisk seg := by
  obtain ⟨hlt, hle⟩ := copyBytes_le (Nat.le_of_lt (toNat_mod_bsize_lt _)) hok
  rw [program.toNat_segmentBlock seg hstart] at hlt
  rw [← program.segmentPos_eq seg hstart] at hle
  exact ⟨(Nat.div_lt_iff_lt_mul (by decide)).mp hlt, hle⟩

/-- One segment is loaded from the bytes of the disk. -/
theorem loadSegment_flat (wild : Wild) (seg : Elfread) (hs : Settled io) (hdisk : io.disk = disk)
    (hstart : program.startBlock.toNat < diskSize) (pagetable : BitVec 64) (s : Paging) :
    Except.Together (fun r s' => Settled r.1 ∧ r.1.disk = disk ∧ r.2 = s')
      (loadSegment wild program.startBlock program.startOffset pagetable seg io s)
      (program.loadSegment disk pagetable s seg) := by
  rw [loadSegment, Program.loadSegment]
  refine (Except.Together.of_forall _ fun _ => rfl).bind ?_
  rintro s _ rfl
  dsimp only
  have hblock := program.toNat_segmentBlock seg hstart
  have hpos := program.segmentPos_eq seg hstart
  have hoffset := toNat_mod_bsize_lt (seg.off + program.startOffset)
  -- only a copy that stays on the disk returns
  by_cases honDisk : program.ContentsOnDisk seg
  · have hlt : program.segmentPos seg / bsize < diskSize :=
      (Nat.div_lt_iff_lt_mul (by decide)).mpr honDisk.1
    have hlast := honDisk.2
    rw [hpos] at hlast
    obtain ⟨io', hs', hdisk', hcopy⟩ := readBytesVirtual_storeByte wild hs hdisk
      (by rwa [hblock]) (Nat.le_of_lt hoffset) hlast seg.vaddr pagetable s.mem
    rw [if_pos honDisk, hcopy, ← hpos]
    change Except.Together _ ((program.storeBytes disk pagetable seg seg.filesz.toNat s.mem).map _
      >>= _) _
    cases program.storeBytes disk pagetable seg seg.filesz.toNat s.mem with
    | error e => exact Except.Together.error e e
    | ok mem => exact ⟨hs', hdisk', rfl⟩
  · rw [if_neg honDisk]
    cases hcopy : readBytesVirtual wild
      (program.startBlock + (seg.off + program.startOffset) / BitVec.ofNat 64 bsize)
      ((seg.off + program.startOffset) % BitVec.ofNat 64 bsize) seg.filesz seg.vaddr pagetable io
      s.mem with
    | error e => exact Except.Together.error e _
    | ok r => exact absurd (Program.contentsOnDisk_of_readBytesVirtual hstart hcopy) honDisk

/-- The list of segments is loaded from the bytes of the disk. -/
theorem loadSegments_flat (wild : Wild) (hs : Settled io) (hdisk : io.disk = disk)
    (hstart : program.startBlock.toNat < diskSize) {elfNodes : ElfNodes} {fuel : ℕ}
    {ptr : ElfreadPtr} {nodes : List (Fin elfSize)} (hfuel : nodes.length ≤ fuel)
    (hlist : LinkedList.IsList (fun i => (elfNodes i).next) ptr nodes)
    (pagetable : BitVec 64) (s : Paging) (stack : BitVec 64) :
    Except.Together
      (fun r s' => r.2.1 = s' ∧
        r.2.2 = (nodes.map fun n => (elfNodes n).unlink).foldl stackAfter stack)
      (loadSegments wild program.startBlock program.startOffset pagetable elfNodes fuel ptr
        (io, s, stack))
      ((nodes.map fun n => (elfNodes n).unlink).foldlM (program.loadSegment disk pagetable) s) := by
  induction nodes generalizing io fuel ptr s stack with
  | nil =>
    obtain rfl : ptr = none := hlist
    cases fuel <;> exact ⟨rfl, rfl⟩
  | cons n nodes ih =>
    obtain ⟨rfl, hrest⟩ := hlist
    cases fuel with
    | zero => cases hfuel
    | succ fuel =>
      rw [loadSegments, List.map_cons, List.foldlM_cons]
      refine (loadSegment_flat wild (elfNodes n).unlink hs hdisk hstart pagetable s).bind ?_
      rintro ⟨io₁, s₁⟩ _ ⟨hs₁, hdisk₁, rfl⟩
      exact ih hs₁ hdisk₁ (Nat.le_of_succ_le_succ hfuel) hrest s₁ _

/-- An offset into a block fits an `int`. -/
theorem toNat_startOff_le {startOff : BitVec 64} (hoffset : startOff.toNat < bsize) :
    ((startOff.setWidth 32).signExtend 64).toNat ≤ bsize := by
  have hword : (startOff.setWidth 32).signExtend 64 = startOff := by
    simp only [bsize] at hoffset
    apply BitVec.eq_of_toNat_eq
    rw [BitVec.signExtend_eq_setWidth_of_msb_false]
    · rw [BitVec.toNat_setWidth, BitVec.toNat_setWidth]
      omega
    · rw [BitVec.msb_eq_decide, decide_eq_false_iff_not, BitVec.toNat_setWidth]
      omega
  rw [hword]
  exact Nat.le_of_lt hoffset

/-- The loader follows the load from the bytes of the disk. -/
theorem programLoader_load (wild : Wild) (pid : Pid) {k : Kernel} (hs : Settled k.io)
    (hdisk : k.io.disk = disk) (hoffset : program.startOffset.toNat < bsize)
    (hreads : ∀ r ∈ (program.layout disk).reads, OnDisk r) :
    Except.Together (fun r r' => r' = (r.1, r.2.paging, r.2.table))
      (programLoader wild program pid k) (program.load disk pid k.paging k.table) := by
  obtain ⟨elfRead, io, elfNodes, helf, hio, hdisk', hcarries⟩ :=
    elfReader_layout wild hs hdisk k.elfNodes (toNat_startOff_le hoffset) hreads
  obtain ⟨-, -, hstart, -⟩ := elfReader_spec hs helf
  rw [programLoader, helf, Except.ok_bind, Program.load]
  dsimp only
  change elfRead.Carries elfNodes (program.layout disk).found at hcarries
  cases hfound : (program.layout disk).found with
  | none =>
    rw [hfound] at hcarries
    rw [if_pos (show elfRead.head = none from hcarries)]
    rfl
  | some found =>
    obtain ⟨entry, segments⟩ := found
    rw [hfound] at hcarries
    obtain ⟨rfl, hhead, nodes, hlist, hlength, rfl⟩ := hcarries
    rw [if_neg hhead]
    dsimp only
    refine (Except.Together.of_forall (allocatePageTable k.paging) fun _ => rfl).bind ?_
    rintro ⟨pagetable, s⟩ _ rfl
    refine (loadSegments_flat wild hio hdisk' (hstart hhead) hlength hlist pagetable s 0).bind ?_
    rintro ⟨io₂, s₂, stack⟩ _ ⟨rfl, rfl⟩
    -- the two pages of the stack
    refine (Except.Together.of_forall _ fun _ => rfl).bind ?_
    rintro s₃ _ rfl
    refine (Except.Together.of_forall _ fun _ => rfl).bind ?_
    rintro s₄ _ rfl
    simp only [Except.Together, Kernel.modifyPd, ProcessTable.modify_modify]
    rfl

/-- The loader stops when a header crosses the end of the disk. -/
theorem programLoader_crosses (wild : Wild) (pid : Pid) {k : Kernel} (hs : Settled k.io)
    (hdisk : k.io.disk = disk) (hoffset : program.startOffset.toNat < bsize)
    (hreads : ∀ r ∈ (program.layout disk).reads, OnDisk r ∨ Crosses r)
    (hsome : ∃ r ∈ (program.layout disk).reads, ¬OnDisk r) :
    ∃ e, programLoader wild program pid k = .error e := by
  obtain ⟨e, helf⟩ :=
    elfReader_crosses wild hs hdisk k.elfNodes (toNat_startOff_le hoffset) hreads hsome
  rw [programLoader, helf]
  exact ⟨e, rfl⟩

end Loader

/-! ## Two disks -/

/-- What can be seen of a call of the loader: that it stopped in a panic, returned `False`, or
returned `True`; then which virtual addresses are mapped to what, the bytes there, the program
counter and the stack pointer. -/
inductive LoaderOutcome
  | panic
  | failed
  | loaded (mapping : BitVec 64 → Option (BitVec 64)) (bytes : BitVec 64 → Option (BitVec 8))
      (epc sp : BitVec 64)

/-- The outcome of a call for the process `pid`, from the page tables and the process table. -/
def LoaderOutcome.ofResult (pid : Pid) : Except Stop (Bool × Paging × ProcessTable) → LoaderOutcome
  | .error _ => .panic
  | .ok (false, _, _) => .failed
  | .ok (true, s, table) =>
    let sa := (table.pd pid).sa
    .loaded (fun virtualAddress => (virtualToPhysical s.mem sa.satp virtualAddress).toOption)
      (readVirtual s.mem sa.satp) sa.epc (sa.reg spIndex)

/-- The outcome of a call of the loader. -/
def loaderOutcome (wild : Wild) (program : Program) (pid : Pid) (k : Kernel) : LoaderOutcome :=
  .ofResult pid ((programLoader wild program pid k).map fun r => (r.1, r.2.paging, r.2.table))

theorem LoaderOutcome.ofResult_congr {pid : Pid} {x : Except Stop (Bool × Kernel)}
    {x' : Except Stop (Bool × Paging × ProcessTable)}
    (h : Except.Together (fun r r' => r' = (r.1, r.2.paging, r.2.table)) x x') :
    ofResult pid (x.map fun r => (r.1, r.2.paging, r.2.table)) = ofResult pid x' := by
  cases x <;> cases x'
  case ok.ok r r' =>
    obtain rfl : r' = (r.1, r.2.paging, r.2.table) := h
    rfl
  case error.error => rfl
  all_goals exact h.elim

/-- The loader comes to the same outcome on all disks that agree on the extent of a program that
uses nothing elsewhere. -/
theorem programLoader_confined (wild : Wild) (program : Program) (pid : Pid) (k : Kernel)
    (io' : CachedDisk) (hs : Settled k.io) (hs' : Settled io')
    (hoffset : program.startOffset.toNat < bsize)
    (hagree : ∀ p, program.extentStart ≤ p → p ≤ program.extentEnd → k.io.disk p = io'.disk p)
    (hconfined : program.Confined k.io.disk k.paging) :
    loaderOutcome wild program pid { k with io := io' } = loaderOutcome wild program pid k := by
  obtain ⟨hlayout, hload⟩ := hconfined.load_congr hagree pid k.table
  have hreads : ∀ r ∈ (program.layout k.io.disk).reads, OnDisk r ∨ Crosses r := by
    intro r hr
    exact (hconfined.headers r hr).symm.imp_left And.left
  rw [loaderOutcome, loaderOutcome]
  by_cases honDisk : ∀ r ∈ (program.layout k.io.disk).reads, OnDisk r
  · rw [LoaderOutcome.ofResult_congr (programLoader_load wild pid hs rfl hoffset honDisk),
      LoaderOutcome.ofResult_congr (programLoader_load wild pid (k := { k with io := io' }) hs' rfl
        hoffset (hlayout ▸ honDisk)), hload]
  -- both calls stop at the end of the disk
  · obtain ⟨r, hr, hnot⟩ : ∃ r ∈ (program.layout k.io.disk).reads, ¬OnDisk r := by
      simpa using honDisk
    obtain ⟨e, herr⟩ := programLoader_crosses wild pid hs rfl hoffset hreads ⟨r, hr, hnot⟩
    rw [hlayout] at hreads hr
    obtain ⟨e', herr'⟩ := programLoader_crosses wild pid (k := { k with io := io' }) hs' rfl hoffset
      hreads ⟨r, hr, hnot⟩
    rw [herr, herr']
    rfl

section Sample

open Processes

/-- Segments whose contents lie in the extent. -/
theorem Program.SegmentsWithin.of_forall {program : Program} {disk : ℕ → BitVec 8}
    {pagetable : BitVec 64} {segs : List Elfread} {s : Paging}
    (h : ∀ seg ∈ segs, program.Within (program.segmentPos seg, seg.filesz.toNat)) :
    program.SegmentsWithin disk pagetable segs s := by
  induction segs generalizing s with
  | nil => trivial
  | cons seg segs ih =>
    refine ⟨fun s₁ _ _ i hi _ => ?_, fun s' _ => ih fun seg hseg => h seg (.tail _ hseg)⟩
    rcases h seg List.mem_cons_self with hzero | ⟨hfirst, hlast⟩
    · rw [show seg.filesz.toNat = 0 from hzero] at hi
      cases hi
    · exact Or.inr ⟨hfirst.trans (Nat.le_add_right ..), by dsimp only at hlast ⊢; omega⟩

/-- The kernel after boot, with another disk. -/
def bootWith (disk : ℕ → BitVec 8) : Kernel :=
  { sampleBoot.kernel with io := { cache := binit (zeroCache ⟨id, id⟩), disk } }

/-- The disk with other bytes behind the sample program. -/
def longDisk : ℕ → BitVec 8 := Function.update sampleDisk 200 1

/-- The sample program with more than a terabyte of contents, from position 200 on. -/
def hugeDisk : ℕ → BitVec 8 :=
  Function.update (Function.update (Function.update sampleDisk 72 200) 101 1) 109 1

/-- Its segment. -/
def hugeSegment : Elfread :=
  { sampleSegment with off := 200, filesz := 2 ^ 40 + 1, memsz := 2 ^ 40 + 1 }

/-- The pages of the huge segment cannot be allocated. -/
theorem segmentsWithin_huge {pagetable : BitVec 64} {s : Paging}
    (htable : allocatePageTable (bootWith hugeDisk).paging = .ok (pagetable, s)) :
    sampleProgram.SegmentsWithin hugeDisk pagetable [hugeSegment] s := by
  have hboot : Accounted Tables.sampleKernel (fun _ => none) (bootWith hugeDisk).paging :=
    Accounted.pageAllocInit fun _ _ => rfl
  have hstop : ∀ s', (List.range hugeSegment.memsz.toNat).foldlM
      (allocateByte pagetable hugeSegment.vaddr) s ≠ .ok s' := by
    intro s' hok
    rcases hboot.allocatePageTable_cases with ⟨t, s₁, htable', -, h₁, hcount₁⟩ | ⟨herr, -⟩
    case inr =>
      rw [htable] at herr
      cases herr
    rw [htable] at htable'
    cases htable'
    rcases h₁.allocateBytes_cases (Function.update_self ..) hugeSegment.vaddr
        hugeSegment.memsz.toNat with ⟨s₂, A, -, -, -, hpages, hcount⟩ | ⟨herr, -⟩
    case inr =>
      rw [hok] at herr
      cases herr
    -- the first million bytes take more frames than there are
    have hmany : Finset.range 250 ⊆ A.pages := by
      intro n hn
      rw [Finset.mem_range] at hn
      rw [hpages, Finset.mem_union, List.mem_toFinset, List.mem_map]
      refine Or.inr ⟨n * pgsize, ?_, ?_⟩
      · rw [List.mem_range, show hugeSegment.memsz.toNat = 2 ^ 40 + 1 by decide]
        simp only [pgsize]
        omega
      · rw [show hugeSegment.vaddr.toNat = 0 by decide]
        simp only [pgsize]
        omega
    have hdemand := frameDemand_mono hmany
    have hrange : 500 ≤ frameDemand (Finset.range 250) := by
      rw [frameDemand, Finset.card_range]
      omega
    have hempty : frameDemand (AddressSpace.empty : Space).pages = 0 := rfl
    have hfree : (bootWith hugeDisk).paging.alloc.numFreePages = 500 := by decide
    omega
  exact ⟨fun s₁ hok => absurd hok (hstop s₁), fun s' hload => by
    obtain ⟨s₁, hok, -⟩ := Except.bind_eq_ok.mp hload
    exact absurd hok (hstop s₁)⟩

/-- The sample program does not show the bytes behind it, and neither does the huge one. -/
theorem programLoader_confined_sample :
    loaderOutcome (fun _ _ _ => 0) sampleProgram ⟨0, by decide⟩ (bootWith longDisk) =
        loaderOutcome (fun _ _ _ => 0) sampleProgram ⟨0, by decide⟩ (bootWith sampleDisk) ∧
      loaderOutcome (fun _ _ _ => 0) sampleProgram ⟨0, by decide⟩
          (bootWith (Function.update hugeDisk 200 1)) =
        loaderOutcome (fun _ _ _ => 0) sampleProgram ⟨0, by decide⟩ (bootWith hugeDisk) := by
  constructor
  · refine programLoader_confined _ sampleProgram _ (bootWith sampleDisk) _ settled_binit
      settled_binit (by decide) ?_ ⟨?_, ?_⟩
    · intro p _ hle
      have hp : p ≤ 120 := hle
      exact (Function.update_of_ne (by omega) ..).symm
    · show ∀ r ∈ (sampleProgram.layout sampleDisk).reads, _
      decide +kernel
    · intro entry segments pagetable s hfound _
      have hlayout : (sampleProgram.layout sampleDisk).found = some (0, [sampleSegment]) := by
        decide +kernel
      rw [show (bootWith sampleDisk).io.disk = sampleDisk from rfl, hlayout] at hfound
      cases hfound
      exact .of_forall (by decide)
  · refine programLoader_confined _ sampleProgram _ (bootWith hugeDisk) _ settled_binit
      settled_binit (by decide) ?_ ⟨?_, ?_⟩
    · intro p _ hle
      have hp : p ≤ 120 := hle
      exact (Function.update_of_ne (by omega) ..).symm
    · show ∀ r ∈ (sampleProgram.layout hugeDisk).reads, _
      decide +kernel
    · intro entry segments pagetable s hfound htable
      have hlayout : (sampleProgram.layout hugeDisk).found = some (0, [hugeSegment]) := by
        decide +kernel
      rw [show (bootWith hugeDisk).io.disk = hugeDisk from rfl, hlayout] at hfound
      cases hfound
      exact segmentsWithin_huge htable

/-- The sample program with an extent that ends with the first byte of its program header. -/
def shortProgram : Program := { sampleProgram with endOffset := 64 }

/-- The sample disk with another type in the program header. -/
def otherDisk : ℕ → BitVec 8 := Function.update sampleDisk 65 1

/-- The loader after boot for an extent that starts with the disk. -/
theorem programLoader_bootWith (pid : Pid) (program : Program) (disk : ℕ → BitVec 8)
    (hstart : program.startBlock = 0 ∧ program.startOffset = 0)
    (hreads : ∀ r ∈ (program.layout disk).reads, OnDisk r) :
    Except.Together (fun r r' => r' = (r.1, r.2.paging, r.2.table))
      (programLoader (fun _ _ _ => 0) program pid (bootWith disk))
      (program.load disk pid (bootWith disk).paging (bootWith disk).table) :=
  programLoader_load _ pid settled_binit rfl (by rw [hstart.2]; decide) hreads

/-- On the sample disk the short extent loads the same program. -/
theorem load_shortProgram : shortProgram.load sampleDisk = sampleProgram.load sampleDisk := by
  have hlayout : shortProgram.layout sampleDisk = sampleProgram.layout sampleDisk := by
    decide +kernel
  funext pid s table
  rw [Program.load, Program.load, hlayout]
  rfl

/-- On the other disk its program header is not admitted. -/
theorem load_otherDisk (pid : Pid) (s : Paging) (table : ProcessTable) :
    shortProgram.load otherDisk pid s table = .ok (false, s, table) := by
  have hfound : (shortProgram.layout otherDisk).found = none := by decide +kernel
  rw [Program.load, hfound]
  rfl

/-- The rest of a program header that starts in the extent is read: the same extent gives `True` on
one disk and `False` on another. -/
theorem programLoader_reads_header :
    Settled sampleBoot.kernel.io ∧
    Settled { cache := binit (zeroCache ⟨id, id⟩), disk := otherDisk } ∧
    shortProgram.startOffset.toNat < bsize ∧ shortProgram.extentEnd < diskSize * bsize ∧
    (∀ p, shortProgram.extentStart ≤ p → p ≤ shortProgram.extentEnd →
      sampleBoot.kernel.io.disk p = otherDisk p) ∧
    (∃ k', programLoader (fun _ _ _ => 0) shortProgram ⟨0, by decide⟩ sampleBoot.kernel =
      .ok (true, k')) ∧
    ∃ k', programLoader (fun _ _ _ => 0) shortProgram ⟨0, by decide⟩
      { sampleBoot.kernel with io := { cache := binit (zeroCache ⟨id, id⟩), disk := otherDisk } } =
        .ok (false, k') := by
  refine ⟨settled_binit, settled_binit, by decide, by decide, ?_, ?_, ?_⟩
  -- the disks differ behind the first 65 bytes
  · intro p _ hle
    have hp : p ≤ 64 := hle
    exact (Function.update_of_ne (by omega) ..).symm
  · -- the layout is that of the sample program, which is loaded
    obtain ⟨k', hok⟩ := createProcess_sampleBoot fun _ _ _ => 0
    obtain ⟨-, k₁, hload, -⟩ := createProcess_eq_ok hok
    obtain ⟨r, hr, hloaded⟩ := (programLoader_bootWith ⟨0, by decide⟩ sampleProgram sampleDisk
      ⟨rfl, rfl⟩ (by decide +kernel)).exists_ok hload
    rw [← load_shortProgram] at hr
    obtain ⟨⟨loaded, k₂⟩, hok, heq⟩ := (programLoader_bootWith ⟨0, by decide⟩ shortProgram
      sampleDisk ⟨rfl, rfl⟩ (by decide +kernel)).exists_ok_left hr
    obtain rfl : loaded = true := congrArg Prod.fst (heq.symm.trans hloaded)
    exact ⟨k₂, hok⟩
  -- on the other disk the program header is not admitted
  · obtain ⟨⟨loaded, k₂⟩, hok, heq⟩ := (programLoader_bootWith ⟨0, by decide⟩ shortProgram
      otherDisk ⟨rfl, rfl⟩ (by decide +kernel)).exists_ok_left (load_otherDisk ..)
    obtain rfl : loaded = false := (congrArg Prod.fst heq).symm
    exact ⟨k₂, hok⟩

end Sample

end R5O5
