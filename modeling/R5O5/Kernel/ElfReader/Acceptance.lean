import R5O5.Kernel.ElfReader.Scan

/-!
# What the ELF reader accepts

## Main definitions

- `Elfread.Admitted`: what the reader asks of a segment.

## Main results

- `elfReader_admitted`: every segment in the list is admitted.
-/

namespace R5O5

/-- A segment holds its contents, does not wrap around the address space, and starts with a page. -/
structure Elfread.Admitted (seg : Elfread) : Prop where
  filesz_le : seg.filesz.toNat ≤ seg.memsz.toNat
  no_wrap : seg.vaddr.toNat + seg.memsz.toNat < 2 ^ 64
  aligned : seg.vaddr.toNat % pgsize = 0

/-- The links of a node do not matter for this. -/
theorem Elfread.admitted_unlink {seg : Elfread} : seg.unlink.Admitted ↔ seg.Admitted :=
  ⟨fun h => ⟨h.1, h.2, h.3⟩, fun h => ⟨h.1, h.2, h.3⟩⟩

/-- A header passes when its segment may be admitted. -/
theorem Proghdr.not_rejected_iff {ph : Proghdr} : ¬ph.Rejected ↔ ph.toElfread.Admitted := by
  have hsize : (BitVec.ofNat 64 pgsize).toNat = pgsize := by decide
  have hfilesz : ¬ph.memsz < ph.filesz ↔ ph.filesz.toNat ≤ ph.memsz.toNat := by
    rw [BitVec.lt_def, Nat.not_lt]
  have hwrap : ¬ph.vaddr + ph.memsz < ph.vaddr ↔
      ph.vaddr.toNat + ph.memsz.toNat < 2 ^ 64 := by
    constructor <;> intro h <;> bv_omega
  have haligned : ¬ph.vaddr % BitVec.ofNat 64 pgsize ≠ 0 ↔ ph.vaddr.toNat % pgsize = 0 := by
    rw [not_not, ← BitVec.toNat_inj, BitVec.toNat_umod, hsize]
    rfl
  rw [Proghdr.Rejected, not_or, not_or, hfilesz, hwrap, haligned]
  exact ⟨fun h => ⟨h.1, h.2.1, h.2.2⟩, fun h => ⟨h.1, h.2, h.3⟩⟩

section Admitted

variable {wild : Wild} {startBlock startOff endBlock endOff : BitVec 64} {s s' : ElfReaderState}
  {nodes : List (Fin elfSize)} {elfNodes elfNodes' : ElfNodes} {flag : Bool}

/-- The list of the reader, with admitted segments. -/
def ElfReaderState.ListsAdmitted (s : ElfReaderState) : Prop :=
  ∃ nodes, s.Lists nodes ∧ ∀ seg ∈ nodes.map fun n => (s.elfNodes n).unlink, seg.Admitted

/-- Reading from the disk changes no node. -/
theorem ElfReaderState.ListsAdmitted.with_io (h : s.ListsAdmitted) (io : CachedDisk) :
    ElfReaderState.ListsAdmitted { s with io } := by
  obtain ⟨nodes, hlists, hadmitted⟩ := h
  exact ⟨nodes, hlists.with_io io, hadmitted⟩

/-- A round lists a segment only if it may be admitted. -/
theorem readProgramHeader_admitted (h : s.ListsAdmitted)
    (hok : readProgramHeader wild endBlock endOff s = .ok (flag, s')) : s'.ListsAdmitted := by
  rcases readProgramHeader_cases hok with
    rfl | ⟨io, bytes, -, rfl | ⟨hcnt, -, haccepted, rfl⟩⟩
  · exact h
  · exact h.with_io io
  · obtain ⟨nodes, hlists, hadmitted⟩ := h
    obtain ⟨n, hlists', hnodes, -⟩ := hlists.unlink_allocateELFReader hcnt (Proghdr.ofBytes bytes)
    refine ElfReaderState.ListsAdmitted.with_io ⟨nodes ++ [n], hlists', fun seg hseg => ?_⟩ io
    rw [hnodes, List.mem_append, List.mem_singleton] at hseg
    rcases hseg with hseg | rfl
    · exact hadmitted seg hseg
    · exact Proghdr.not_rejected_iff.mp haccepted

theorem readProgramHeaders_admitted {left : ℕ} (h : s.ListsAdmitted)
    (hok : readProgramHeaders wild endBlock endOff left s = .ok (flag, s')) :
    s'.ListsAdmitted := by
  refine readProgramHeaders_keeps (fun t _ t' ht hround => ?_) (fun t ht => ?_) h hok
  · have htoBlock : t.toBlock.ListsAdmitted :=
      ht.imp fun _ hnodes => ⟨hnodes.1.toBlock, hnodes.2⟩
    exact readProgramHeader_admitted htoBlock hround
  · exact ht.imp fun _ hnodes => ⟨hnodes.1.nextHeader, hnodes.2⟩

/-- The list that the reader returns ends in a null pointer, and every segment in it is admitted,
whatever the buffers hold. -/
theorem elfReader_admitted {io io' : CachedDisk} {elfRead : ElfreadList}
    (hok : elfReader wild startBlock startOff endBlock endOff io elfNodes =
      .ok (elfRead, io', elfNodes')) :
    ∃ nodes, LinkedList.IsList (fun i => (elfNodes' i).next) elfRead.head nodes ∧
      nodes.length ≤ elfSize ∧ ∀ seg ∈ nodes.map elfNodes', seg.Admitted := by
  have hnil : elfRead.head = none → ∃ nodes,
      LinkedList.IsList (fun i => (elfNodes' i).next) elfRead.head nodes ∧
        nodes.length ≤ elfSize ∧ ∀ seg ∈ nodes.map elfNodes', seg.Admitted :=
    fun hnone => ⟨[], hnone, Nat.zero_le _, fun seg hseg => absurd hseg List.not_mem_nil⟩
  rcases elfReader_eq_ok hok with
    ⟨hnone, -⟩ | ⟨-, io₁, bytes, -, ⟨hnone, -⟩ | ⟨flag, s, hloop, -, rfl, hlist⟩⟩
  · exact hnil hnone
  · exact hnil hnone
  rcases hlist with hnone | rfl
  · exact hnil hnone
  -- the loop starts with an empty list
  have hend : s.ListsAdmitted := by
    refine readProgramHeaders_admitted ?_ hloop
    exact ⟨[], ElfReaderState.lists_nil rfl rfl, fun seg hseg => absurd hseg List.not_mem_nil⟩
  obtain ⟨nodes, hlists, hadmitted⟩ := hend
  refine ⟨nodes, hlists.isList, by simpa using List.Nodup.length_le_card hlists.nodup, ?_⟩
  intro seg hseg
  obtain ⟨n, hn, rfl⟩ := List.mem_map.mp hseg
  exact Elfread.admitted_unlink.mp (hadmitted _ (List.mem_map.mpr ⟨n, hn, rfl⟩))

end Admitted

end R5O5
