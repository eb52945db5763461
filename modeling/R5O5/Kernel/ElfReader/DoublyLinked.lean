import R5O5.Kernel.ElfReader.Loadable

/-!
# The list of the ELF reader

A list that the reader returns can be walked in both directions, and it has a node for each segment
of the program. The nodes are not consecutive elements of `elfNodes`, and what earlier calls have
left there does not matter. The headers are those that follow the first one: a round that goes on
has come to a header on the disk, wherever the program is said to end.

## Main definitions

- `ElfReaderState.DoublyLists`: the list of the reader, with the pointers back.

## Main results

- `elfReader_doublyLinked`: what the reader returns.
-/

namespace R5O5

/-! ## The pointers back -/

/-- The nodes in use are those of the list, and they can be visited backwards, too. -/
structure ElfReaderState.DoublyLists (s : ElfReaderState) (nodes : List (Fin elfSize)) : Prop where
  lists : s.Lists nodes
  back : LinkedList.IsList (fun n => (s.elfNodes n).prev) s.elfRead.tail nodes.reverse

section Back

variable {wild : Wild} {endBlock endOff : BitVec 64} {s s' : ElfReaderState}
  {nodes : List (Fin elfSize)} {flag : Bool}

/-- The new tail points back to the old one, and no other pointer back changes. -/
theorem ElfReaderState.Lists.prev_allocateELFReader (h : s.Lists nodes) (hcnt : s.cnt < elfSize)
    (ph : Proghdr) : ∃ n, (R5O5.allocateELFReader ⟨s.cnt, hcnt⟩ ph s).elfRead.tail = some n ∧
      ∀ m, ((R5O5.allocateELFReader ⟨s.cnt, hcnt⟩ ph s).elfNodes m).prev =
        Function.update (fun m => (s.elfNodes m).prev) n s.elfRead.tail m := by
  rcases h.head_tail with ⟨rfl, hhead, htail⟩ | ⟨init, last, head, rfl, hhead, htail⟩
  · -- the first node points back to nothing
    refine ⟨⟨0, by decide⟩, ?_⟩
    unfold R5O5.allocateELFReader
    rw [hhead, htail]
    refine ⟨rfl, fun m => ?_⟩
    dsimp only
    by_cases hm : m = ⟨0, by decide⟩
    · rw [hm, ElfNodes.modify_same, ElfNodes.modify_same, Function.update_self]
    · rw [ElfNodes.modify_of_ne _ _ hm, ElfNodes.modify_of_ne _ _ hm, Function.update_of_ne hm]
  · refine ⟨⟨s.cnt, hcnt⟩, ?_⟩
    unfold R5O5.allocateELFReader
    rw [hhead, htail]
    refine ⟨rfl, fun m => ?_⟩
    dsimp only
    by_cases hm : m = ⟨s.cnt, hcnt⟩
    · rw [hm, ElfNodes.modify_same, ElfNodes.modify_same, Function.update_self]
    · rw [ElfNodes.modify_of_ne _ _ hm, ElfNodes.modify_of_ne _ _ hm, Function.update_of_ne hm]
      -- the old tail gets a new `next` only
      by_cases hlast : m = last
      · rw [hlast, ElfNodes.modify_same]
      · rw [ElfNodes.modify_of_ne _ _ hlast]

/-- An appended node keeps the list doubly linked. -/
theorem ElfReaderState.DoublyLists.allocateELFReader (h : s.DoublyLists nodes)
    (hcnt : s.cnt < elfSize) (ph : Proghdr) :
    ∃ n, (R5O5.allocateELFReader ⟨s.cnt, hcnt⟩ ph s).DoublyLists (nodes ++ [n]) := by
  obtain ⟨n, hlists⟩ := h.lists.allocateELFReader hcnt ph
  obtain ⟨m, htail, hprev⟩ := h.lists.prev_allocateELFReader hcnt ph
  have htail' : (R5O5.allocateELFReader ⟨s.cnt, hcnt⟩ ph s).elfRead.tail = some n := by
    rw [hlists.tail, List.getLast?_concat]
  obtain rfl : m = n := Option.some.inj (htail.symm.trans htail')
  have hfresh : m ∉ nodes.reverse := fun hmem =>
    (List.nodup_append.mp hlists.nodup).2.2 m (List.mem_reverse.mp hmem) m
      (List.mem_singleton_self m) rfl
  refine ⟨m, hlists, ?_⟩
  rw [htail, List.reverse_append, funext hprev]
  exact h.back.cons_update hfresh

theorem ElfReaderState.DoublyLists.with_io (h : s.DoublyLists nodes) (io : CachedDisk) :
    ElfReaderState.DoublyLists { s with io } nodes :=
  ⟨h.lists.with_io io, h.back⟩

theorem readProgramHeader_doublyLists (h : s.DoublyLists nodes)
    (hok : readProgramHeader wild endBlock endOff s = .ok (flag, s')) :
    ∃ nodes', s'.DoublyLists nodes' := by
  rcases readProgramHeader_cases hok with rfl | ⟨io, bytes, -, rfl | ⟨hcnt, -, -, rfl⟩⟩
  · exact ⟨nodes, h⟩
  · exact ⟨nodes, h.with_io io⟩
  · obtain ⟨n, hlists⟩ := h.allocateELFReader hcnt (Proghdr.ofBytes bytes)
    exact ⟨nodes ++ [n], hlists.with_io io⟩

/-- The loop ends with a doubly linked list, however it ends. -/
theorem readProgramHeaders_doublyLists {left : ℕ} (h : s.DoublyLists nodes)
    (hok : readProgramHeaders wild endBlock endOff left s = .ok (flag, s')) :
    ∃ nodes', s'.DoublyLists nodes' := by
  refine readProgramHeaders_keeps (P := fun t => ∃ nodes', t.DoublyLists nodes')
    (fun t _ t' ht hround => ?_) (fun t ht => ?_) ⟨nodes, h⟩ hok
  · obtain ⟨nodes₁, h₁⟩ := ht
    have htoBlock : t.toBlock.DoublyLists nodes₁ := ⟨h₁.lists.toBlock, h₁.back⟩
    exact readProgramHeader_doublyLists htoBlock hround
  · exact ht.imp fun _ h₁ => ⟨h₁.lists.nextHeader, h₁.back⟩

end Back

/-! ## The headers that were read -/

section Headers

variable {wild : Wild} {endBlock endOff : BitVec 64} {s s' : ElfReaderState}
  {disk : ℕ → BitVec 8} {first i left : ℕ}

/-- A round that goes on has read a header on the disk that passes. -/
theorem ElfReaderState.At.of_readProgramHeader (h : s.At disk first i)
    (hok : readProgramHeader wild endBlock endOff s = .ok (true, s')) :
    first + sizeofProghdr.toNat * (i + 1) ≤ diskSize * bsize ∧ PassesAt disk first i ∧
      s'.nextHeader.toBlock.At disk first (i + 1) := by
  have hnot : ¬s.blockNum * BitVec.ofNat 64 bsize + s.off.signExtend 64 >
      endBlock * BitVec.ofNat 64 bsize + endOff := by
    intro hend
    rw [readProgramHeader, if_pos hend] at hok
    cases hok
  -- a header that is cut off would have been an error
  rcases Nat.lt_or_ge (diskSize * bsize)
    (first + sizeofProghdr.toNat * i + sizeofProghdr.toNat) with hcut | hinside
  · rw [h.readProgramHeader_of_cut hnot hcut] at hok
    cases hok
  rcases h.readProgramHeader_of_onDisk hnot hinside wild with
    ⟨s₁, -, hround, -⟩ | ⟨s₁, hpasses, hround, hat, -⟩
  · rw [hround] at hok
    cases hok
  · rw [hround] at hok
    cases hok
    rw [Nat.mul_succ, ← Nat.add_assoc]
    exact ⟨hinside, hpasses, hat⟩

/-- A loop that goes on to its end has read all its headers, and they pass. -/
theorem ElfReaderState.At.of_readProgramHeaders (h : s.toBlock.At disk first i)
    (hok : readProgramHeaders wild endBlock endOff left s = .ok (true, s')) :
    (left ≠ 0 → first + sizeofProghdr.toNat * (i + left) ≤ diskSize * bsize) ∧
      (∀ j, i ≤ j → j < i + left → PassesAt disk first j) ∧
      s'.toBlock.At disk first (i + left) := by
  -- the headers from `i` on, each behind the one before
  induction left generalizing s i with
  | zero =>
    cases hok
    exact ⟨fun h => absurd rfl h, fun j hij hji => absurd hji (Nat.not_lt.mpr hij), h⟩
  | succ left ih =>
    obtain ⟨⟨go, s₁⟩, hround, hrest⟩ := Except.bind_eq_ok.mp hok
    cases go with
    | false => cases hrest
    | true =>
      obtain ⟨hinside, hpasses, hat⟩ := h.of_readProgramHeader hround
      obtain ⟨hinside', hall, hat'⟩ := ih hat hrest
      have hcount : i + (left + 1) = i + 1 + left := by omega
      rw [hcount]
      refine ⟨fun _ => ?_, fun j hij hj => ?_, hat'⟩
      · -- the last header is on the disk
        rcases Nat.eq_zero_or_pos left with rfl | hpos
        · exact hinside
        · exact hinside' (Nat.ne_of_gt hpos)
      · rcases Nat.eq_or_lt_of_le hij with rfl | hlt
        · exact hpasses
        · exact hall j hlt hj

/-- The segments among headers that pass are admitted. -/
theorem admitted_of_passesAt {n : ℕ} (hall : ∀ j < n, PassesAt disk first j) :
    ∀ seg ∈ segmentsOf (headersAt disk first n), seg.Admitted := by
  intro seg hseg
  rw [segmentsOf] at hseg
  obtain ⟨ph, hph, rfl⟩ := List.mem_map.mp hseg
  obtain ⟨hmem, htype⟩ := List.mem_filter.mp hph
  obtain ⟨j, hj, rfl⟩ := mem_headersAt.mp hmem
  exact (hall j hj (of_decide_eq_true htype)).1

end Headers

/-! ## What the reader returns -/

section Reader

variable {wild : Wild} {startBlock startOff endBlock endOff : BitVec 64} {io io' : CachedDisk}
  {elfRead : ElfreadList} {elfNodes elfNodes' : ElfNodes} {elf : Elfhdr}

/-- Behind a list with nodes there is a file header on the disk, and the loop has gone on to its
end. -/
theorem readProgramHeaders_of_head_ne_none (hs : Settled io)
    (helf : fileHeader io.disk (bytePos startBlock startOff) = elf)
    (hoffset : startOff.toNat < bsize)
    (hok : elfReader wild startBlock startOff endBlock endOff io elfNodes =
      .ok (elfRead, io', elfNodes'))
    (hhead : elfRead.head ≠ none) :
    startBlock.toNat < diskSize ∧ ∃ io₁ s, Settled io₁ ∧ io₁.disk = io.disk ∧
      readProgramHeaders wild endBlock endOff elf.phnum.toNat
        (startState startBlock startOff elf io₁ elfNodes) = .ok (true, s) ∧
      elfRead = s.elfRead ∧ elfNodes' = s.elfNodes := by
  obtain ⟨-, -, hblock, -⟩ := elfReader_spec hs hok
  have hblock := hblock hhead
  refine ⟨hblock, ?_⟩
  rcases Nat.lt_or_ge (diskSize * bsize) (bytePos startBlock startOff + sizeofElfhdr.toNat) with
    hcut | hle
  · rw [elfReader_of_cut hs hblock hoffset hcut] at hok
    cases hok
  obtain ⟨io₁, -, hs₁, hdisk₁, hreader⟩ :=
    elfReader_of_header hs rfl hblock hoffset hle helf endBlock endOff wild elfNodes
  rw [hreader] at hok
  obtain ⟨s, hloop, hread, hnodes⟩ := loop_of_head_ne_none hok hhead
  exact ⟨io₁, s, hs₁, hdisk₁, hloop, hread, hnodes⟩

/-- A list with nodes is doubly linked, and its nodes are the segments among the program headers on
the disk, in order and all of them admitted. -/
theorem elfReader_doublyLinked (hs : Settled io)
    (helf : fileHeader io.disk (bytePos startBlock startOff) = elf)
    (hoffset : startOff.toNat < bsize) (hphoff : startOff.toNat + elf.phoff.toNat < 2 ^ 31)
    (hok : elfReader wild startBlock startOff endBlock endOff io elfNodes =
      .ok (elfRead, io', elfNodes'))
    (hhead : elfRead.head ≠ none) :
    ∃ nodes : List (Fin elfSize),
      LinkedList.IsDoublyLinked (fun n => (elfNodes' n).next) (fun n => (elfNodes' n).prev)
        elfRead.head elfRead.tail nodes ∧
      nodes.map (fun n => (elfNodes' n).unlink) =
        segmentsOf (headersAt io.disk (bytePos startBlock startOff + elf.phoff.toNat)
          elf.phnum.toNat) ∧
      bytePos startBlock startOff + elf.phoff.toNat + sizeofProghdr.toNat * elf.phnum.toNat ≤
        diskSize * bsize ∧
      ∀ n ∈ nodes, (elfNodes' n).Admitted := by
  obtain ⟨hblock, io₁, s, hs₁, hdisk₁, hloop, rfl, rfl⟩ :=
    readProgramHeaders_of_head_ne_none hs helf hoffset hok hhead
  -- the loop starts at the first header, with an empty list
  have hfirst := firstHeader_of_lt startBlock hphoff
  have hoff : 0 ≤ (firstOff startOff elf.phoff).toInt := by
    rw [firstHeader, bytePos] at hfirst
    push_cast at hfirst
    omega
  have hat := startState_at hs₁ hdisk₁ hblock (hfirst ▸ Int.natCast_nonneg _) (Or.inl hoff)
    elfNodes
  rw [hfirst, Int.toNat_natCast] at hat
  have hstart : (startState startBlock startOff elf io₁ elfNodes).DoublyLists [] :=
    ⟨ElfReaderState.lists_nil rfl rfl, rfl⟩
  obtain ⟨hinside, hall, hend⟩ := hat.of_readProgramHeaders hloop
  obtain ⟨nodes, hlists⟩ := readProgramHeaders_doublyLists hstart hloop
  -- the list that can be walked backwards is the one that carries the segments
  rw [Nat.zero_add] at hinside hall hend
  obtain ⟨nodes', hlists', hsegments⟩ := hend.counts.segments
  obtain rfl : nodes = nodes' := hlists.lists.isList.unique hlists'.isList
  have hphnum : elf.phnum.toNat ≠ 0 := by
    intro hzero
    rw [hzero] at hloop
    cases hloop
    exact hhead rfl
  refine ⟨nodes, LinkedList.isDoublyLinked_of_reverse hlists'.isList hlists.back hlists'.nodup,
    hsegments, hinside hphnum, fun n hn => ?_⟩
  rw [← Elfread.admitted_unlink]
  apply admitted_of_passesAt fun j hj => hall j (Nat.zero_le j) hj
  rw [← hsegments]
  exact List.mem_map.mpr ⟨n, hn, rfl⟩

end Reader

/-- Two segments make a list of two nodes, although each node was linked to itself before. -/
theorem two_segments_doublyLinked :
    ∃ elfRead io elfNodes nodes,
      elfReader (fun _ _ _ => 0) 0 0 0 175 (freshDisk (emptySegments 2))
        (fun n => ⟨7, 7, 7, 7, some n, some n⟩) = .ok (elfRead, io, elfNodes) ∧
      LinkedList.IsDoublyLinked (fun n => (elfNodes n).next) (fun n => (elfNodes n).prev)
        elfRead.head elfRead.tail nodes ∧
      nodes.map (fun n => (elfNodes n).unlink) = segmentsOf (headersAt (emptySegments 2) 64 2) ∧
      nodes.length = 2 := by
  have hext : ExtentOnDisk 0 0 0 175 := ⟨by decide, by decide, by decide⟩
  have hnot : ¬ReadsBefore 0 0 (fileHeader (emptySegments 2) 0) :=
    fun hbefore => absurd hbefore.neg (by decide +kernel)
  -- both headers lie in the extent, and there are nodes for them
  have hloadable : Loadable (emptySegments 2) 0 175 (fileHeader (emptySegments 2) 0) :=
    loadable_of_not_rejected (by decide +kernel) (by decide +kernel) (by decide +kernel)
      (by decide +kernel)
  have hfits : HeadersFit (emptySegments 2) 0 (fileHeader (emptySegments 2) 0) :=
    ⟨by decide, by decide +kernel, by decide +kernel⟩
  obtain ⟨hheader, hmagic, haccepted⟩ := acceptedAt_iff.mpr ⟨hloadable, hfits⟩
  obtain ⟨elfRead, io, elfNodes, hok, hhead⟩ :=
    (accepts_elfReader_iff (settled_freshDisk _) rfl hext rfl hnot (fun _ _ _ => 0)).mpr
      ⟨hheader, hmagic, by decide +kernel, haccepted⟩
  obtain ⟨nodes, hlinked, hsegments, -, -⟩ :=
    elfReader_doublyLinked (settled_freshDisk _) rfl (by decide) (by decide +kernel) hok hhead
  refine ⟨elfRead, io, elfNodes, nodes, hok, hlinked, hsegments, ?_⟩
  rw [← List.length_map, hsegments]
  decide +kernel

end R5O5
