import R5O5.Mkfs

/-!
# The program area

Which runs of `mkfs/r5o5_mkfs.c` stay inside the program area. The cursor is left on the last byte
of the program before, so that an empty file moves it back by one, and from the first byte of the
area out of it.

## Main definitions

- `nextPosition`: where a file of some length leaves the cursor;
- `Confined`: a run writes to the program area only.

## Main results

- `confined_iff`: a run is confined exactly when no call starts before the area.
-/

namespace R5O5.Mkfs

open Stdio

/-- The first byte position of the program area. -/
def procBase : ℤ := getOffset procStart 0

/-- The byte positions that a call writes: from where it seeks to up to where it leaves the file
position. -/
def MkfsState.Writes (s : MkfsState) (prog : Program) (x : ℤ) : Prop :=
  0 ≤ s.cursor ∧ s.cursor ≤ x ∧ x < (storeProgram s prog).disk.pos

/-- Every call of the run writes to the program area only, so that the rest of the image holds
spaces, and all recorded programs start in the area. -/
structure Confined (progs : List Program) : Prop where
  writes : ∀ pre prog, pre ++ [prog] <+: progs → ∀ x, (runMkfs pre).state.Writes prog x →
    procBase ≤ x ∧ x < procLimit
  spaces : ∀ x : ℕ, x < diskSize * blockSize → (x < procBase ∨ procLimit ≤ x) →
    (runMkfs progs).state.disk.bytes x = 32
  starts : ∀ q ∈ (runMkfs progs).stored, procBase ≤ q.line.start ∧ q.line.start < procLimit

/-- The cursor after a file of this length: its last byte, if it fits. -/
def nextPosition (position : ℤ) (length : ℕ) : ℤ :=
  if 0 ≤ position ∧ position + length ≤ procLimit then position + length - 1 else position

/-- The cursor after files of these lengths. -/
def positionAfter (lengths : List ℕ) : ℤ := lengths.foldl nextPosition procBase

section Area

variable {progs pre : List Program} {prog : Program} {s : MkfsState} {σ : Session}

theorem cursor_store (hwf : σ.Wf) (prog : Program) :
    (σ.store prog).state.cursor = nextPosition σ.state.cursor prog.contents.length := by
  show (storeProgram σ.state prog).cursor = _
  rw [nextPosition]
  split_ifs with h
  · rw [storeProgram_of_fits _ _ hwf.offset_nonneg h.1 h.2]
    exact last_lineFor prog σ.state
  · rcases lt_or_ge σ.state.cursor 0 with hcur | hcur
    · rw [storeProgram_of_neg _ _ hcur]
    · have hfits : procLimit < σ.state.cursor + prog.contents.length :=
        lt_of_not_ge fun hle => h ⟨hcur, hle⟩
      rw [storeProgram_of_not_fits _ _ hwf.offset_nonneg hcur hwf.cursor_lt.le hfits]
      rfl

/-- The cursor of a run depends on the lengths of the files only. -/
theorem cursor_runMkfs (progs : List Program) :
    (runMkfs progs).state.cursor = positionAfter (progs.map fun prog => prog.contents.length) := by
  induction progs using List.reverseRecOn with
  | nil => rfl
  | append_singleton progs prog ih =>
    rw [runMkfs_append_singleton, cursor_store (wf_runMkfs progs), ih, List.map_append,
      List.map_singleton, positionAfter, positionAfter, List.foldl_append]
    rfl

/-- The positions that a call writes hold the bytes of the file that fit. -/
theorem writes_iff (hwf : σ.Wf) (prog : Program) (x : ℤ) :
    σ.state.Writes prog x ↔ 0 ≤ σ.state.cursor ∧ σ.state.cursor ≤ x ∧
      x < σ.state.cursor + prog.contents.length ∧ x < procLimit := by
  refine and_congr_right fun hcur => and_congr_right fun hx => ?_
  have hlt := hwf.cursor_lt
  rw [disk_storeProgram _ _ hwf.offset_nonneg hcur hlt.le, Stream.pos_fwriteAll, Program.written,
    List.length_take]
  dsimp only
  omega

theorem bytes_buildDisk {x : ℕ} (hx : x < diskSize * blockSize) :
    (buildDisk .create).bytes x = 32 := by
  have hbyte := Stream.bytes_fwriteAll_add .create (List.replicate (diskSize * blockSize) 32#8) x
    (by rwa [List.length_replicate])
  rw [List.getElem_replicate, ← buildDisk_eq] at hbyte
  rwa [show Stream.create.pos + x = x from Nat.zero_add x] at hbyte

/-- A call leaves the image outside the area alone if it starts in the area or behind it. -/
theorem bytes_store_outside (hwf : σ.Wf) (prog : Program) (hcur : procBase ≤ σ.state.cursor) {x : ℕ}
    (hx : x < procBase ∨ procLimit ≤ x) :
    (σ.store prog).state.disk.bytes x = σ.state.disk.bytes x := by
  have hbase : 0 ≤ procBase := by decide
  have hlt := hwf.cursor_lt
  show (storeProgram σ.state prog).disk.bytes x = _
  rw [disk_storeProgram _ _ hwf.offset_nonneg (by omega) hlt.le]
  refine Stream.bytes_fwriteAll_of_outside _ _ _ ?_
  simp only [Program.written, List.length_take]
  omega

/-- While no call starts before the area, the rest of the image holds spaces and all recorded
programs start in the area. -/
theorem spaces_and_starts (progs : List Program)
    (h : ∀ pre prog, pre ++ [prog] <+: progs → procBase ≤ (runMkfs pre).state.cursor) :
    (∀ x : ℕ, x < diskSize * blockSize → (x < procBase ∨ procLimit ≤ x) →
      (runMkfs progs).state.disk.bytes x = 32) ∧
    ∀ q ∈ (runMkfs progs).stored, procBase ≤ q.line.start ∧ q.line.start < procLimit := by
  induction progs using List.reverseRecOn with
  | nil =>
    simp only [runMkfs, List.foldl_nil, Session.init]
    exact ⟨fun x hx _ => bytes_buildDisk hx, List.forall_mem_nil _⟩
  | append_singleton progs prog ih =>
    obtain ⟨hspaces, hstarts⟩ := ih fun pre prog' hpre =>
      h pre prog' (hpre.trans (List.prefix_append ..))
    have hcur := h progs prog List.prefix_rfl
    have hwf := wf_runMkfs progs
    rw [runMkfs_append_singleton]
    -- a call writes inside the area, as its cursor starts there
    refine ⟨fun x hx hout => ?_, fun q hq => ?_⟩
    · rw [bytes_store_outside hwf prog hcur hout, hspaces x hx hout]
    · rw [stored_store prog hwf] at hq
      split_ifs at hq
      · rw [List.mem_append, List.mem_singleton] at hq
        rcases hq with hq | rfl
        · exact hstarts q hq
        · exact ⟨hcur, hwf.cursor_lt⟩
      · exact hstarts q hq

/-- Recorded programs stay recorded. -/
theorem stored_subset (h : pre <+: progs) :
    (runMkfs pre).stored ⊆ (runMkfs progs).stored := by
  obtain ⟨rest, rfl⟩ := h
  induction rest using List.reverseRecOn with
  | nil =>
    rw [List.append_nil]
    exact List.Subset.refl _
  | append_singleton rest prog ih =>
    rw [← List.append_assoc, runMkfs_append_singleton, stored_store prog (wf_runMkfs _)]
    split_ifs
    · exact List.Subset.trans ih (List.subset_append_left ..)
    · exact ih

/-- A call that starts before the area breaks out of it. -/
theorem Confined.procBase_le (h : Confined progs) (hpre : pre ++ [prog] <+: progs)
    (hcur : 0 ≤ (runMkfs pre).state.cursor) : procBase ≤ (runMkfs pre).state.cursor := by
  have hwf := wf_runMkfs pre
  have hlt := hwf.cursor_lt
  by_contra hbelow
  have hlimit : procBase < procLimit := by decide
  cases hcontents : prog.contents with
  | nil =>
    -- the start of the empty file is recorded
    have hlength : (prog.contents.length : ℤ) = 0 := by rw [hcontents]; rfl
    have hstored : (⟨prog, (runMkfs pre).state.lineFor prog⟩ : StoredProgram) ∈
        (runMkfs (pre ++ [prog])).stored := by
      rw [runMkfs_append_singleton, stored_store prog hwf, if_pos ⟨hcur, by omega⟩]
      exact List.mem_append_right _ (List.mem_singleton_self _)
    exact hbelow (h.starts _ (stored_subset hpre hstored)).1
  | cons c rest =>
    have hlength : (prog.contents.length : ℤ) = rest.length + 1 := by
      rw [hcontents, List.length_cons]
      rfl
    have hwrites : (runMkfs pre).state.Writes prog (runMkfs pre).state.cursor :=
      (writes_iff hwf prog _).mpr ⟨hcur, le_rfl, by omega, hlt⟩
    exact hbelow (h.writes pre prog hpre _ hwrites).1

/-- A run is confined to the program area exactly when no call starts before it. -/
theorem confined_iff (progs : List Program) :
    Confined progs ↔ ∀ pre prog, pre ++ [prog] <+: progs →
      procBase ≤ positionAfter (pre.map fun prog => prog.contents.length) := by
  simp only [← cursor_runMkfs]
  constructor
  · intro h pre
    induction pre using List.reverseRecOn with
    | nil => exact fun _ _ => le_rfl
    | append_singleton pre prog' ih =>
      -- a call moves the cursor back by at most one
      intro prog hpre
      have hcur := ih prog' ((List.prefix_append ..).trans hpre)
      have hbase : 0 < procBase := by decide
      refine h.procBase_le hpre ?_
      rw [runMkfs_append_singleton, cursor_store (wf_runMkfs pre), nextPosition]
      split_ifs <;> omega
  · intro h
    obtain ⟨hspaces, hstarts⟩ := spaces_and_starts progs h
    refine ⟨fun pre prog hpre x hx => ?_, hspaces, hstarts⟩
    have hcur := h pre prog hpre
    obtain ⟨-, hle, -, hlt⟩ := (writes_iff (wf_runMkfs pre) prog x).mp hx
    exact ⟨hcur.trans hle, hlt⟩

/-- Three programs of which the second is empty: it moves the cursor back onto the first byte of
the area, where the third is stored. -/
theorem confined_three_programs :
    Confined [⟨"a", [65, 66]⟩, ⟨"b", []⟩, ⟨"c", [67, 68, 69]⟩] := by
  refine (confined_iff _).mpr fun pre prog hpre => ?_
  have hlength := hpre.length_le
  rw [List.length_append, List.length_singleton] at hlength
  rw [List.prefix_iff_eq_take.mp ((List.prefix_append pre [prog]).trans hpre)]
  generalize pre.length = n at hlength
  have hn : ∀ n < 3, procBase ≤ positionAfter (([⟨"a", [65, 66]⟩, ⟨"b", []⟩, ⟨"c", [67, 68, 69]⟩].take
      n).map fun prog : Program => prog.contents.length) := by decide
  exact hn n hlength

/-- An empty program and a program of one byte: the byte is written right before the area. -/
theorem not_confined_empty_program : ¬ ∀ progs, Confined progs := by
  intro h
  have hcur : (runMkfs [⟨"a", []⟩]).state.cursor = procBase - 1 := by
    rw [cursor_runMkfs]
    decide
  have hle := (h [⟨"a", []⟩, ⟨"b", [66]⟩]).procBase_le List.prefix_rfl
    (show 0 ≤ (runMkfs [⟨"a", []⟩]).state.cursor by rw [hcur]; decide)
  rw [hcur] at hle
  omega

end Area

end R5O5.Mkfs
