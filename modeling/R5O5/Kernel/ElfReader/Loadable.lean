import R5O5.Kernel.ElfReader.Underrun

/-!
# Loadable programs

Compared with what makes a program loadable, the reader is stricter in two ways and laxer in one:
the nodes run out early because the count goes on over all headers, a header may be cut off by the
end of the disk, and the headers are accepted at a position that is computed in an `int`.

## Main definitions

- `Loadable`: a program whose headers are right;
- `HeadersFit`: what the reader needs beyond that.

## Main results

- `accepts_elfReader_iff`: what the reader accepts;
- `accepts_iff_loadable`: when that is the loadable programs.
-/

namespace R5O5

/-- The program is right by its headers, as numbers: they start in the extent, there is a segment
and not more than `elfSize` of them, and all segments are admitted. -/
structure Loadable (disk : ℕ → BitVec 8) (start endPos : ℕ) (elf : Elfhdr) : Prop where
  magic : elf.magic = elfMagic
  begins : ∀ i < elf.phnum.toNat, start + elf.phoff.toNat + sizeofProghdr.toNat * i ≤ endPos
  pos_segments : 0 < (segmentsOf (headersAt disk (start + elf.phoff.toNat) elf.phnum.toNat)).length
  segments_le :
    (segmentsOf (headersAt disk (start + elf.phoff.toNat) elf.phnum.toNat)).length ≤ elfSize
  admitted : ∀ ph ∈ headersAt disk (start + elf.phoff.toNat) elf.phnum.toNat,
    ph.type = elfProgLoad → ph.toElfread.Admitted

/-- All headers end on the disk, and there is a node left at every segment. -/
structure HeadersFit (disk : ℕ → BitVec 8) (start : ℕ) (elf : Elfhdr) : Prop where
  header : start + sizeofElfhdr.toNat ≤ diskSize * bsize
  onDisk : ∀ i < elf.phnum.toNat,
    start + elf.phoff.toNat + sizeofProghdr.toNat * i + sizeofProghdr.toNat ≤ diskSize * bsize
  node : ∀ i < elf.phnum.toNat,
    (headerAt disk (start + elf.phoff.toNat + sizeofProghdr.toNat * i)).type = elfProgLoad →
      nodeIndex (headersAt disk (start + elf.phoff.toNat) i) < elfSize

/-- The condition for the reader to accept exactly the loadable programs. With an offset of the
first header that fits in an `int`, a loadable program fits. With any other offset the reader finds
no headers that it accepts, whatever the memory holds in front of a buffer if it looks there. -/
structure AcceptsRight (disk : ℕ → BitVec 8) (startBlock startOff endBlock endOff : BitVec 64)
    (elf : Elfhdr) : Prop where
  fits : startOff.toNat + elf.phoff.toNat < 2 ^ 31 →
    Loadable disk (bytePos startBlock startOff) (bytePos endBlock endOff) elf →
      HeadersFit disk (bytePos startBlock startOff) elf
  wraps : 2 ^ 31 ≤ startOff.toNat + elf.phoff.toNat →
    bytePos startBlock startOff + sizeofElfhdr.toNat ≤ diskSize * bsize →
    elf.magic = elfMagic → 0 ≤ firstHeader startBlock startOff elf.phoff →
      ¬AcceptedAt disk (firstHeader startBlock startOff elf.phoff).toNat (bytePos endBlock endOff)
        elf.phnum.toNat
  before : ReadsBefore startBlock startOff elf → ∀ disk' : ℕ → BitVec 8,
    (∀ p, blockBehind (firstHeader startBlock startOff elf.phoff).toNat * bsize ≤ p →
      disk' p = disk p) →
    ¬AcceptedAt disk' (firstHeader startBlock startOff elf.phoff).toNat (bytePos endBlock endOff)
      elf.phnum.toNat

section Loadable

variable {startBlock startOff endBlock endOff phoff : BitVec 64} {io : CachedDisk}
  {elfNodes : ElfNodes} {elf : Elfhdr} {disk : ℕ → BitVec 8} {start endPos first n : ℕ}

/-- Segments are counted twice. -/
theorem length_segmentsOf_le (headers : List Proghdr) :
    (segmentsOf headers).length ≤ nodeIndex headers := by
  induction headers using List.reverseRecOn with
  | nil => exact Nat.zero_le _
  | append_singleton headers ph ih =>
    rw [nodeIndex_append_singleton, segmentsOf_append_singleton]
    by_cases htype : ph.type = elfProgLoad
    · rw [if_pos htype, if_pos htype, List.length_append, List.length_singleton]
      split
      case isTrue hnone =>
        rw [hnone, List.length_nil]
        omega
      case isFalse => omega
    · rw [if_neg htype, if_neg htype]
      omega

/-- With a node left at every segment there are not too many of them. -/
theorem length_segmentsOf_headersAt_le
    (h : ∀ i < n, (headerAt disk (first + sizeofProghdr.toNat * i)).type = elfProgLoad →
      nodeIndex (headersAt disk first i) < elfSize) :
    (segmentsOf (headersAt disk first n)).length ≤ elfSize := by
  induction n with
  | zero => exact Nat.zero_le _
  | succ n ih =>
    rw [headersAt_succ, segmentsOf_append_singleton]
    split
    case isTrue htype =>
      have hnode := h n (Nat.lt_succ_self n) htype
      have hle := length_segmentsOf_le (headersAt disk first n)
      rw [List.length_append, List.length_singleton]
      omega
    case isFalse => exact ih fun i hi => h i (Nat.lt_succ_of_lt hi)

/-- A program is accepted at its own place if it is loadable and fits. -/
theorem acceptedAt_iff :
    (start + sizeofElfhdr.toNat ≤ diskSize * bsize ∧ elf.magic = elfMagic ∧
      AcceptedAt disk (start + elf.phoff.toNat) endPos elf.phnum.toNat) ↔
    Loadable disk start endPos elf ∧ HeadersFit disk start elf := by
  constructor
  · rintro ⟨hheader, hmagic, haccepted⟩
    -- every segment gets a node, so they are not too many
    have hnode : ∀ i < elf.phnum.toNat,
        (headerAt disk (start + elf.phoff.toNat + sizeofProghdr.toNat * i)).type = elfProgLoad →
          nodeIndex (headersAt disk (start + elf.phoff.toNat) i) < elfSize :=
      fun i hi htype => ((haccepted.readsOn i hi).passes htype).2
    refine ⟨⟨hmagic, fun i hi => (haccepted.readsOn i hi).begins, ?_,
      length_segmentsOf_headersAt_le hnode, ?_⟩,
      hheader, fun i hi => (haccepted.readsOn i hi).onDisk, hnode⟩
    · exact List.length_pos_iff.mpr haccepted.segments
    · intro ph hph htype
      obtain ⟨i, hi, rfl⟩ := mem_headersAt.mp hph
      exact ((haccepted.readsOn i hi).passes htype).1
  · rintro ⟨hloadable, hfits⟩
    refine ⟨hfits.header, hloadable.magic, fun i hi => ?_,
      List.length_pos_iff.mp hloadable.pos_segments⟩
    refine ⟨hloadable.begins i hi, hfits.onDisk i hi, fun htype => ⟨?_, hfits.node i hi htype⟩⟩
    exact hloadable.admitted _ (mem_headersAt.mpr ⟨i, hi, rfl⟩) htype

/-- The tests of the reader decide whether the segments are admitted. -/
theorem loadable_of_not_rejected (hmagic : elf.magic = elfMagic)
    (hbegins : ∀ i < elf.phnum.toNat, start + elf.phoff.toNat + sizeofProghdr.toNat * i ≤ endPos)
    (hsegments :
      0 < (segmentsOf (headersAt disk (start + elf.phoff.toNat) elf.phnum.toNat)).length ∧
        (segmentsOf (headersAt disk (start + elf.phoff.toNat) elf.phnum.toNat)).length ≤ elfSize)
    (haccepted : ∀ ph ∈ headersAt disk (start + elf.phoff.toNat) elf.phnum.toNat,
      ph.type = elfProgLoad → ¬ph.Rejected) : Loadable disk start endPos elf where
  magic := hmagic
  begins := hbegins
  pos_segments := hsegments.1
  segments_le := hsegments.2
  admitted ph hph htype := Proghdr.not_rejected_iff.mp (haccepted ph hph htype)

/-- What the reader accepts, unless it reads in front of a buffer. -/
theorem accepts_elfReader_iff (hs : Settled io) (hdisk : io.disk = disk)
    (hext : ExtentOnDisk startBlock startOff endBlock endOff)
    (helf : fileHeader disk (bytePos startBlock startOff) = elf)
    (hnot : ¬ReadsBefore startBlock startOff elf) (wild : Wild) :
    Accepts (elfReader wild startBlock startOff endBlock endOff io elfNodes) ↔
      bytePos startBlock startOff + sizeofElfhdr.toNat ≤ diskSize * bsize ∧
        elf.magic = elfMagic ∧ 0 ≤ firstHeader startBlock startOff elf.phoff ∧
        AcceptedAt disk (firstHeader startBlock startOff elf.phoff).toNat (bytePos endBlock endOff)
          elf.phnum.toNat := by
  rcases elfReader_cases hs hdisk hext helf hnot wild elfNodes with
    ⟨elfRead, io', elfNodes', hok, hhead, -, haccepts⟩ |
    ⟨elfRead, io', elfNodes', hok, hhead, -, -, hrefuses⟩ | ⟨herr, hcut⟩
  · exact iff_of_true ⟨elfRead, io', elfNodes', hok, hhead⟩ haccepts
  -- an empty list is no acceptance, and the headers say why it is empty
  · refine iff_of_false ?_ ?_
    · rintro ⟨_, _, _, hok', hhead'⟩
      rw [hok] at hok'
      cases hok'
      exact hhead' hhead
    · rintro ⟨-, hmagic, hfirst, haccepted⟩
      rcases hrefuses hmagic hfirst with ⟨k, hk, hgives, -⟩ | ⟨-, hnone⟩
      · exact hgives.not_readsOn (haccepted.readsOn k hk)
      · exact haccepted.segments hnone
  -- a panic is no acceptance: some header is cut off
  · refine iff_of_false ?_ ?_
    · rintro ⟨_, _, _, hok', -⟩
      rw [herr] at hok'
      cases hok'
    · rintro ⟨hheader, -, -, haccepted⟩
      rcases hcut with hcut | ⟨-, -, k, hk, hcut, -⟩
      · exact absurd hheader (Nat.not_le_of_lt hcut)
      · exact hcut.not_readsOn (haccepted.readsOn k hk)

/-- No program has its first header that far behind its start. -/
theorem not_loadable_of_wraps (hext : ExtentOnDisk startBlock startOff endBlock endOff)
    (h : 2 ^ 31 ≤ startOff.toNat + elf.phoff.toNat) (disk : ℕ → BitVec 8) :
    ¬Loadable disk (bytePos startBlock startOff) (bytePos endBlock endOff) elf := by
  intro hloadable
  rcases Nat.eq_zero_or_pos elf.phnum.toNat with hzero | hpos
  · have hsegments := hloadable.pos_segments
    rw [hzero] at hsegments
    exact absurd hsegments (Nat.lt_irrefl 0)
  · have hbegins := hloadable.begins 0 hpos
    have hend := hext.end_lt
    simp only [bytePos, bsize, diskSize] at *
    omega

/-- Where the reader looks in front of a buffer, the offset has wrapped around. -/
theorem ReadsBefore.wraps (h : ReadsBefore startBlock startOff elf) :
    2 ^ 31 ≤ startOff.toNat + elf.phoff.toNat := by
  by_contra hsmall
  have hneg := h.neg
  have hfirst := firstHeader_of_lt startBlock (Nat.lt_of_not_le hsmall)
  rw [firstHeader, bytePos] at hfirst
  push_cast at hfirst
  omega

/-- The condition is exact as long as the reader looks in front of no buffer. -/
theorem accepts_iff_loadable_of_not_before (hs : Settled io) (hdisk : io.disk = disk)
    (hext : ExtentOnDisk startBlock startOff endBlock endOff)
    (helf : fileHeader disk (bytePos startBlock startOff) = elf)
    (hnot : ¬ReadsBefore startBlock startOff elf) (wild : Wild) (elfNodes : ElfNodes) :
    (Accepts (elfReader wild startBlock startOff endBlock endOff io elfNodes) ↔
      Loadable disk (bytePos startBlock startOff) (bytePos endBlock endOff) elf) ↔
    AcceptsRight disk startBlock startOff endBlock endOff elf := by
  rw [accepts_elfReader_iff hs hdisk hext helf hnot wild]
  rcases Nat.lt_or_ge (startOff.toNat + elf.phoff.toNat) (2 ^ 31) with hsmall | hlarge
  · -- the reader looks for the headers where they are
    have hplace : (bytePos startBlock startOff + sizeofElfhdr.toNat ≤ diskSize * bsize ∧
        elf.magic = elfMagic ∧ 0 ≤ firstHeader startBlock startOff elf.phoff ∧
        AcceptedAt disk (firstHeader startBlock startOff elf.phoff).toNat (bytePos endBlock endOff)
          elf.phnum.toNat) ↔
        Loadable disk (bytePos startBlock startOff) (bytePos endBlock endOff) elf ∧
          HeadersFit disk (bytePos startBlock startOff) elf := by
      rw [firstHeader_of_lt startBlock hsmall, Int.toNat_natCast, ← acceptedAt_iff]
      exact ⟨fun h => ⟨h.1, h.2.1, h.2.2.2⟩, fun h => ⟨h.1, h.2.1, Int.natCast_nonneg _, h.2.2⟩⟩
    rw [hplace]
    constructor
    · intro hiff
      exact ⟨fun _ h => (hiff.mpr h).2, fun h => absurd hsmall (Nat.not_lt.mpr h),
        fun h => absurd h hnot⟩
    · intro hright
      exact ⟨And.left, fun h => ⟨h, hright.fits hsmall h⟩⟩
  -- no program is loadable here, so the reader must accept none
  · have hnone := not_loadable_of_wraps hext hlarge disk
    constructor
    · intro hiff
      refine ⟨fun h => absurd hlarge (Nat.not_le.mpr h), ?_, fun h => absurd h hnot⟩
      intro _ hheader hmagic hfirst haccepted
      exact hnone (hiff.mp ⟨hheader, hmagic, hfirst, haccepted⟩)
    · intro hright
      refine iff_of_false ?_ hnone
      rintro ⟨hheader, hmagic, hfirst, haccepted⟩
      exact hright.wraps hlarge hheader hmagic hfirst haccepted

/-- The reader accepts exactly the loadable programs, whatever the memory holds in front of the
buffers, under the condition and only then. -/
theorem accepts_iff_loadable (hs : Settled io) (hdisk : io.disk = disk)
    (hext : ExtentOnDisk startBlock startOff endBlock endOff)
    (helf : fileHeader disk (bytePos startBlock startOff) = elf) (elfNodes : ElfNodes) :
    (∀ wild, Accepts (elfReader wild startBlock startOff endBlock endOff io elfNodes) ↔
      Loadable disk (bytePos startBlock startOff) (bytePos endBlock endOff) elf) ↔
    AcceptsRight disk startBlock startOff endBlock endOff elf := by
  by_cases hbefore : ReadsBefore startBlock startOff elf
  · have hnone := not_loadable_of_wraps hext hbefore.wraps disk
    have hexists := exists_accepts_iff hs hdisk hext helf hbefore elfNodes
    constructor
    · intro hall
      -- the memory in front of a buffer may hold any headers, so each of them must be refused
      have hrefused : ∀ disk' : ℕ → BitVec 8,
          (∀ p, blockBehind (firstHeader startBlock startOff elf.phoff).toNat * bsize ≤ p →
            disk' p = disk p) →
          ¬AcceptedAt disk' (firstHeader startBlock startOff elf.phoff).toNat
            (bytePos endBlock endOff) elf.phnum.toNat := by
        intro disk' hagree haccepted
        obtain ⟨wild, haccepts⟩ := hexists.mpr ⟨disk', hagree, haccepted⟩
        exact hnone ((hall wild).mp haccepts)
      exact ⟨fun h => absurd hbefore.wraps (Nat.not_le.mpr h),
        fun _ _ _ _ => hrefused disk fun _ _ => rfl, fun _ => hrefused⟩
    · intro hright wild
      refine iff_of_false (fun haccepts => ?_) hnone
      obtain ⟨disk', hagree, haccepted⟩ := hexists.mp ⟨wild, haccepts⟩
      exact hright.before hbefore disk' hagree haccepted
  · have hiff := accepts_iff_loadable_of_not_before hs hdisk hext helf hbefore
    exact ⟨fun hall => (hiff (fun _ _ _ => 0) elfNodes).mp (hall _),
      fun hright wild => (hiff wild elfNodes).mpr hright⟩

end Loadable

section Sample

/-- A program with one segment is accepted. -/
theorem accepts_one_segment :
    Accepts (elfReader (fun _ _ _ => 0) 0 0 0 119 (freshDisk (emptySegments 1)) unusedNodes) := by
  have hext : ExtentOnDisk 0 0 0 119 := ⟨by decide, by decide, by decide⟩
  have hright : AcceptsRight (emptySegments 1) 0 0 0 119 (fileHeader (emptySegments 1) 0) := by
    refine ⟨fun _ _ => ⟨by decide, by decide +kernel, by decide +kernel⟩, fun hwraps => ?_,
      fun hbefore => ?_⟩
    · exact absurd hwraps (by decide +kernel)
    · exact absurd hbefore.neg (by decide +kernel)
  refine ((accepts_iff_loadable (settled_freshDisk _) rfl hext rfl unusedNodes).mpr hright
    fun _ _ _ => 0).mpr ?_
  exact loadable_of_not_rejected (by decide +kernel) (by decide +kernel) (by decide +kernel)
    (by decide +kernel)

/-- A program with sixteen segments is loadable, but at the last one there is no node left. -/
theorem refuses_sixteen_segments :
    ¬∀ (disk : ℕ → BitVec 8) (startBlock startOff endBlock endOff : BitVec 64),
      ExtentOnDisk startBlock startOff endBlock endOff →
      (Accepts (elfReader (fun _ _ _ => 0) startBlock startOff endBlock endOff (freshDisk disk)
          unusedNodes) ↔
        Loadable disk (bytePos startBlock startOff) (bytePos endBlock endOff)
          (fileHeader disk (bytePos startBlock startOff))) := by
  intro hall
  have hext : ExtentOnDisk 0 0 0 959 := ⟨by decide, by decide, by decide⟩
  have hnot : ¬ReadsBefore 0 0 (fileHeader (emptySegments 16) 0) :=
    fun hbefore => absurd hbefore.neg (by decide +kernel)
  have hloadable : Loadable (emptySegments 16) 0 959 (fileHeader (emptySegments 16) 0) :=
    loadable_of_not_rejected (by decide +kernel) (by decide +kernel) (by decide +kernel)
      (by decide +kernel)
  have haccepts := (hall (emptySegments 16) 0 0 0 959 hext).mpr hloadable
  obtain ⟨-, -, -, haccepted⟩ :=
    (accepts_elfReader_iff (settled_freshDisk _) rfl hext rfl hnot _).mp haccepts
  have hlast := (haccepted.readsOn 15 (by decide +kernel)).passes (by decide +kernel)
  exact absurd hlast.2 (by decide +kernel)

end Sample

end R5O5
