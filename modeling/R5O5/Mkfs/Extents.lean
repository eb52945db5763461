import R5O5.Mkfs.Area

/-!
# The recorded extents

When the information file can be relied on. A run is laid out from the lengths of its files alone:
each call has a position, and a file that has room there ends at the position of the next call. The
image then holds at each byte what the last call over it wrote.

## Main definitions

- `calls`: the calls of a run with their positions;
- `Session.Faithful`: the recorded extents hold their files and are pairwise disjoint;
- `Spaced`, `Overlaid`: the conditions on the lengths and contents of the files.

## Main results

- `stored_foldl`, `bytes_foldl`: the layout is what the calls record and write;
- `pairwise_below`: the files of a spaced run lie below one another;
- `faithful_iff`: a run is faithful exactly when it is spaced and overlaid.
-/

namespace R5O5.Mkfs

open Stdio

/-- A call of `storeProgram`: the byte position of the cursor, and the file. -/
structure Call where
  start : ℤ
  prog : Program

namespace Call

/-- The number of bytes of the file. -/
def length (c : Call) : ℕ := c.prog.contents.length

/-- The file ends inside the program area; the call records it. -/
def Fits (c : Call) : Prop := 0 ≤ c.start ∧ c.start + c.length ≤ procLimit

instance : DecidablePred Fits := fun _ => inferInstanceAs (Decidable (_ ∧ _))

/-- The file is written up to the end of the program area, where the call gives up. -/
def CutShort (c : Call) : Prop := 0 ≤ c.start ∧ procLimit < c.start + c.length

/-- The byte of the file that belongs at a position of the image. -/
def byteAt? (c : Call) (x : ℤ) : Option (BitVec 8) :=
  if 0 ≤ c.start ∧ c.start ≤ x then c.prog.contents[(x - c.start).toNat]? else none

end Call

/-- The calls for these files, from this position of the cursor on. -/
def calls : ℤ → List Program → List Call
  | _, [] => []
  | position, prog :: progs =>
      ⟨position, prog⟩ :: calls (nextPosition position prog.contents.length) progs

/-- The calls that get a line in the information file. -/
def recorded (position : ℤ) (progs : List Program) : List Call :=
  (calls position progs).filter (·.Fits)

/-- Between two non-empty files that follow one another there are at least as many empty ones as
the two have bytes, less one. -/
def Spaced (cs : List Call) : Prop :=
  ∀ before p empties q after, cs = before ++ p :: (empties ++ q :: after) →
    (∀ e ∈ empties, e.length = 0) → p.length ≠ 0 → q.length ≠ 0 →
      p.length + q.length ≤ empties.length + 1

/-- The last file that is cut short has the bytes of the files recorded before it, where it is
written over them. -/
def Overlaid (cs : List Call) : Prop :=
  ∀ before r after, cs = before ++ r :: after → r.CutShort → (∀ w ∈ after, ¬w.CutShort) →
    ∀ e ∈ before, e.Fits → ∀ x b b', e.byteAt? x = some b → r.byteAt? x = some b' → b' = b

/-- The position lies in a recorded extent. Both ends are inclusive. -/
def InfoLine.Covers (line : InfoLine) (x : ℤ) : Prop := line.start ≤ x ∧ x ≤ line.last

/-- What the information file promises: every recorded extent holds its file, and the extents of
different programs have no byte in common. -/
structure Session.Faithful (σ : Session) : Prop where
  intact : σ.Intact
  disjoint : σ.stored.Pairwise fun q r => ∀ x, ¬(q.line.Covers x ∧ r.line.Covers x)

/-- The call that recorded a program. -/
def StoredProgram.call (q : StoredProgram) : Call := ⟨q.line.start, q.prog⟩

/-! ## The layout -/

section Layout

variable {c : Call} {position x : ℤ} {b : BitVec 8} {progs : List Program}

/-- The positions a call writes. -/
theorem Call.byteAt?_eq_some_iff :
    c.byteAt? x = some b ↔ 0 ≤ c.start ∧ c.start ≤ x ∧
      c.prog.contents[(x - c.start).toNat]? = some b := by
  rw [Call.byteAt?]
  split_ifs with h
  · simp [h]
  · simp only [false_iff]
    exact fun h' => h ⟨h'.1, h'.2.1⟩

/-- A call writes between its start and its end, when it starts on the disk. -/
theorem Call.byteAt?_isSome_iff :
    (c.byteAt? x).isSome ↔ 0 ≤ c.start ∧ c.start ≤ x ∧ x < c.start + c.length := by
  rw [Option.isSome_iff_exists]
  simp only [Call.byteAt?_eq_some_iff, exists_and_left, ← Option.isSome_iff_exists]
  rw [isSome_getElem?, Call.length]
  omega

/-- A call that is neither recorded nor cut short writes nothing. -/
theorem Call.byteAt?_eq_none (hfits : ¬c.Fits) (hcut : ¬c.CutShort) (x : ℤ) :
    c.byteAt? x = none := by
  rw [← Option.not_isSome_iff_eq_none, Call.byteAt?_isSome_iff]
  rintro ⟨hstart, -, -⟩
  rcases le_or_gt (c.start + c.length) procLimit with hle | hlt
  · exact hfits ⟨hstart, hle⟩
  · exact hcut ⟨hstart, hlt⟩

/-- The cursor stays on the last byte of a file that fits in. -/
theorem nextPosition_of_fits (h : c.Fits) :
    nextPosition c.start c.prog.contents.length = c.start + c.length - 1 := if_pos h

theorem nextPosition_of_not_fits (h : ¬c.Fits) :
    nextPosition c.start c.prog.contents.length = c.start := if_neg h

theorem recorded_cons_of_fits {prog : Program} (h : (⟨position, prog⟩ : Call).Fits) :
    recorded position (prog :: progs) =
      ⟨position, prog⟩ :: recorded (position + (⟨position, prog⟩ : Call).length - 1) progs := by
  have hnext := nextPosition_of_fits h
  rw [recorded, calls, List.filter_cons, if_pos (decide_eq_true h), hnext, recorded]

theorem recorded_cons_of_not_fits {prog : Program} (h : ¬(⟨position, prog⟩ : Call).Fits) :
    recorded position (prog :: progs) = recorded position progs := by
  have hnext := nextPosition_of_not_fits h
  rw [recorded, calls, List.filter_cons, if_neg (by simpa using h), hnext, recorded]

/-- What follows a call is laid out from where it leaves the cursor. -/
theorem exists_calls_eq_of_append {before after : List Call}
    (h : calls position progs = before ++ c :: after) :
    ∃ rest, after = calls (nextPosition c.start c.prog.contents.length) rest := by
  induction progs generalizing position before with
  | nil => simp [calls] at h
  | cons prog progs ih =>
    cases before with
    | nil =>
      obtain ⟨rfl, rfl⟩ := List.cons.inj h
      exact ⟨progs, rfl⟩
    | cons w before => exact ih (List.cons.inj h).2

/-- The recorded programs are those that fit, at their positions. -/
theorem stored_foldl {σ : Session} (hwf : σ.Wf) (progs : List Program) :
    (progs.foldl Session.store σ).stored.map StoredProgram.call =
      σ.stored.map StoredProgram.call ++ recorded σ.state.cursor progs := by
  induction progs generalizing σ with
  | nil => simp [recorded, calls]
  | cons prog progs ih =>
    rw [List.foldl_cons, ih (hwf.store prog), cursor_store hwf, stored_store prog hwf]
    by_cases hfits : (⟨σ.state.cursor, prog⟩ : Call).Fits
    · have hroom : 0 ≤ σ.state.cursor ∧ σ.state.cursor + prog.contents.length ≤ procLimit := hfits
      have hnext := nextPosition_of_fits hfits
      rw [if_pos hroom, recorded_cons_of_fits hfits, hnext, List.map_append, List.append_assoc]
      rfl
    · have hroom : ¬(0 ≤ σ.state.cursor ∧ σ.state.cursor + prog.contents.length ≤ procLimit) :=
        hfits
      have hnext := nextPosition_of_not_fits hfits
      rw [if_neg hroom, recorded_cons_of_not_fits hfits, hnext]

/-- Each byte of the image is that of the last call over it. -/
theorem bytes_foldl {σ : Session} (hwf : σ.Wf) (progs : List Program) (hx : 0 ≤ x)
    (hlimit : x < procLimit) :
    (progs.foldl Session.store σ).state.disk.bytes x.toNat =
      (calls σ.state.cursor progs).foldl (fun b c => (c.byteAt? x).getD b)
        (σ.state.disk.bytes x.toNat) := by
  induction progs generalizing σ with
  | nil => rfl
  | cons prog progs ih =>
    rw [List.foldl_cons, ih (hwf.store prog), cursor_store hwf, calls, List.foldl_cons]
    congr 1
    cases hbyte : (⟨σ.state.cursor, prog⟩ : Call).byteAt? x with
    | none =>
      refine bytes_store_unwritten prog hwf x hx hlimit fun hcur => ?_
      have hnone := Option.not_isSome_iff_eq_none.mpr hbyte
      rw [Call.byteAt?_isSome_iff, Call.length] at hnone
      dsimp only at hnone
      omega
    | some b =>
      obtain ⟨hcur, hle, hget⟩ := Call.byteAt?_eq_some_iff.mp hbyte
      obtain ⟨hlt, hget⟩ := List.getElem?_eq_some_iff.mp hget
      have hwritten := bytes_store_written prog hwf hcur (x - σ.state.cursor).toNat hlt
        (by dsimp only at hle; omega)
      rw [show σ.state.cursor + (x - σ.state.cursor).toNat = x by dsimp only at hle; omega]
        at hwritten
      exact hwritten.trans hget

/-- Calls that write nothing at a position leave its byte. -/
theorem foldl_byteAt?_of_none {cs : List Call} (h : ∀ w ∈ cs, w.byteAt? x = none) (b : BitVec 8) :
    cs.foldl (fun b c => (c.byteAt? x).getD b) b = b := by
  induction cs with
  | nil => rfl
  | cons w cs ih =>
    rw [List.foldl_cons, h w List.mem_cons_self]
    exact ih fun w hw => h w (List.mem_cons_of_mem _ hw)

/-- The last call over a position decides its byte. -/
theorem bytes_runMkfs_of_last {before after : List Call}
    (hcalls : calls procBase progs = before ++ c :: after) (hbyte : c.byteAt? x = some b)
    (hlimit : x < procLimit) (hlast : ∀ w ∈ after, w.byteAt? x = none) :
    (runMkfs progs).state.disk.bytes x.toNat = b := by
  obtain ⟨hstart, hle, -⟩ := Call.byteAt?_eq_some_iff.mp hbyte
  rw [runMkfs, bytes_foldl wf_init progs (hstart.trans hle) hlimit]
  change (calls procBase progs).foldl _ _ = b
  rw [hcalls, List.foldl_append, List.foldl_cons, foldl_byteAt?_of_none hlast, hbyte,
    Option.getD_some]

end Layout

/-! ## Spaced runs -/

section Spaced

variable {position : ℤ} {progs : List Program}

/-- Empty files move the cursor back by one byte each. -/
theorem start_of_empties {empties after : List Call} {q : Call}
    (h : recorded position progs = empties ++ q :: after)
    (hempty : ∀ e ∈ empties, e.length = 0) : q.start = position - empties.length := by
  induction progs generalizing position empties with
  | nil => simp [recorded, calls] at h
  | cons prog progs ih =>
    by_cases hfits : (⟨position, prog⟩ : Call).Fits
    · rw [recorded_cons_of_fits hfits] at h
      cases empties with
      | nil =>
        obtain ⟨rfl, -⟩ := List.cons.inj h
        simp
      | cons e empties =>
        obtain ⟨rfl, hrest⟩ := List.cons.inj h
        have hlength := hempty _ List.mem_cons_self
        have hstart := ih hrest fun e he => hempty e (List.mem_cons_of_mem _ he)
        rw [hstart, hlength, List.length_cons]
        push_cast
        ring
    · rw [recorded_cons_of_not_fits hfits] at h
      exact ih h hempty

/-- What is recorded after a file starts on its last byte. -/
theorem exists_recorded_eq_of_append {before after : List Call} {c : Call}
    (h : recorded position progs = before ++ c :: after) :
    ∃ rest, after = recorded (c.start + c.length - 1) rest := by
  induction progs generalizing position before with
  | nil => simp [recorded, calls] at h
  | cons prog progs ih =>
    by_cases hfits : (⟨position, prog⟩ : Call).Fits
    · rw [recorded_cons_of_fits hfits] at h
      cases before with
      | nil =>
        obtain ⟨rfl, rfl⟩ := List.cons.inj h
        exact ⟨progs, rfl⟩
      | cons w before => exact ih (List.cons.inj h).2
    · rw [recorded_cons_of_not_fits hfits] at h
      exact ih h

theorem Spaced.tail {c : Call} {cs : List Call} (h : Spaced (c :: cs)) : Spaced cs :=
  fun before p empties q after heq =>
    h (c :: before) p empties q after (by rw [heq, List.cons_append])

/-- The files after a non-empty one of `length` bytes at `start`, `skipped` empty ones later. -/
theorem below_of_spaced {start : ℤ} {length skipped : ℕ}
    (hposition : position = start + length - 1 - skipped)
    (hspaced : Spaced (recorded position progs))
    (hnext : ∀ empties q after, recorded position progs = empties ++ q :: after →
      (∀ e ∈ empties, e.length = 0) → q.length ≠ 0 →
        length + q.length ≤ skipped + empties.length + 1) :
    ∀ c ∈ recorded position progs, c.length ≠ 0 → c.start + c.length ≤ start := by
  induction progs generalizing position start length skipped with
  | nil => simp [recorded, calls]
  | cons prog progs ih =>
    by_cases hfits : (⟨position, prog⟩ : Call).Fits
    case neg =>
      rw [recorded_cons_of_not_fits hfits] at hspaced hnext ⊢
      exact ih hposition hspaced hnext
    rw [recorded_cons_of_fits hfits] at hspaced hnext ⊢
    set c : Call := ⟨position, prog⟩ with hc
    have hstart : c.start = position := rfl
    by_cases hlength : c.length = 0
    · -- one more empty file
      intro d hd hne
      refine @ih _ start length (skipped + 1) (by push_cast; omega) hspaced.tail ?_ d ?_ hne
      · intro empties q after heq hempty hq
        have hle := hnext (c :: empties) q after (by rw [heq, List.cons_append])
          (List.forall_mem_cons.mpr ⟨hlength, hempty⟩) hq
        rw [List.length_cons] at hle
        omega
      · exact (List.mem_cons.mp hd).resolve_left fun heq => hne (heq ▸ hlength)
    · -- the next non-empty file ends before the last one; the rest lie below it
      have hle := hnext [] c _ rfl (List.forall_mem_nil _) hlength
      rw [List.length_nil] at hle
      have hbelow := @ih _ c.start c.length 0 (by simp [hstart])
        hspaced.tail fun empties q after heq hempty hq => by
          have := hspaced [] c empties q after (by rw [heq, List.nil_append]) hempty hlength hq
          omega
      rintro d hd hne
      rcases List.mem_cons.mp hd with rfl | hd
      · omega
      · have := hbelow d hd hne
        omega

/-- In a spaced run the non-empty files lie below one another, the later the lower. -/
theorem pairwise_below (h : Spaced (recorded position progs)) :
    (recorded position progs).Pairwise fun (e c : Call) =>
      e.length ≠ 0 → c.length ≠ 0 → c.start + c.length ≤ e.start := by
  induction progs generalizing position with
  | nil => simp [recorded, calls]
  | cons prog progs ih =>
    by_cases hfits : (⟨position, prog⟩ : Call).Fits
    case neg =>
      rw [recorded_cons_of_not_fits hfits] at h ⊢
      exact ih h
    rw [recorded_cons_of_fits hfits] at h ⊢
    refine List.pairwise_cons.mpr ⟨fun c hc he hne => ?_, ih h.tail⟩
    refine @below_of_spaced _ _ position (⟨position, prog⟩ : Call).length 0 (by simp) h.tail ?_ c hc
      hne
    intro empties q after heq hempty hq
    have := h [] _ empties q after (by rw [heq, List.nil_append]) hempty he hq
    omega

/-- The positions stay below a bound that every file ends below. -/
theorem start_le_of_mem_calls {y : ℤ} (hposition : position ≤ y)
    (hbelow : ∀ c ∈ calls position progs, c.Fits → c.length ≠ 0 → c.start + c.length ≤ y) :
    ∀ c ∈ calls position progs, c.start ≤ y := by
  induction progs generalizing position with
  | nil => simp [calls]
  | cons prog progs ih =>
    rw [calls] at hbelow ⊢
    obtain ⟨hhead, htail⟩ := List.forall_mem_cons.mp hbelow
    refine List.forall_mem_cons.mpr ⟨hposition, ih ?_ htail⟩
    by_cases hfits : (⟨position, prog⟩ : Call).Fits
    · rw [nextPosition_of_fits hfits]
      by_cases hlength : (⟨position, prog⟩ : Call).length = 0
      · rw [hlength]
        dsimp only
        omega
      · have := hhead hfits hlength
        omega
    · rwa [nextPosition_of_not_fits hfits]

end Spaced

/-! ## Faithful runs -/

section Faithful

variable {position x : ℤ} {progs : List Program} {before after : List Call} {e : Call}
  {b : BitVec 8}

/-- The recorded extent of a call. -/
def Call.Covers (c : Call) (x : ℤ) : Prop := c.start ≤ x ∧ x < c.start + c.length

theorem mem_recorded_iff : e ∈ recorded position progs ↔ e ∈ calls position progs ∧ e.Fits := by
  rw [recorded, List.mem_filter, decide_eq_true_iff]

/-- The stored programs are the recorded calls. -/
theorem map_call_stored (progs : List Program) :
    (runMkfs progs).stored.map StoredProgram.call = recorded procBase progs :=
  stored_foldl wf_init progs

/-- The recorded extent of a file is that of its call. -/
theorem covers_line_iff {q : StoredProgram} (hq : q ∈ (runMkfs progs).stored) :
    q.line.Covers x ↔ q.call.Covers x := by
  have hlength := (wf_runMkfs progs).length_eq q hq
  simp only [InfoLine.Covers, Call.Covers, StoredProgram.call, Call.length]
  omega

/-- The extents of the stored programs are those of the recorded calls. -/
theorem pairwise_stored_iff (progs : List Program) :
    ((runMkfs progs).stored.Pairwise fun q r => ∀ x, ¬(q.line.Covers x ∧ r.line.Covers x)) ↔
      (recorded procBase progs).Pairwise fun e c => ∀ x, ¬(e.Covers x ∧ c.Covers x) := by
  rw [← map_call_stored, List.pairwise_map]
  refine List.Pairwise.iff_of_mem fun hq hr => forall_congr' fun x => ?_
  rw [covers_line_iff hq, covers_line_iff hr]

/-- A run is intact when each byte of a recorded call is on the image. -/
theorem intact_iff (progs : List Program) :
    (runMkfs progs).Intact ↔ ∀ e ∈ recorded procBase progs, ∀ x b, e.byteAt? x = some b →
      (runMkfs progs).state.disk.bytes x.toNat = b := by
  rw [← map_call_stored, List.forall_mem_map]
  refine forall₂_congr fun q hq => ?_
  have hwf := wf_runMkfs progs
  constructor
  · rintro ⟨-, hbytes⟩ x b hbyte
    obtain ⟨-, hle, hget⟩ := Call.byteAt?_eq_some_iff.mp hbyte
    obtain ⟨hlt, hget⟩ := List.getElem?_eq_some_iff.mp hget
    have hx : q.line.start + (x - q.line.start).toNat = x := by
      change q.line.start ≤ x at hle
      omega
    have hq' := hbytes (x - q.line.start).toNat hlt
    rw [hx] at hq'
    exact hq'.trans hget
  · intro h
    refine ⟨hwf.length_eq q hq, fun t ht => h _ _ (Call.byteAt?_eq_some_iff.mpr ?_)⟩
    refine ⟨hwf.start_nonneg q hq, Int.le_add_of_nonneg_right (Int.natCast_nonneg t), ?_⟩
    simp [StoredProgram.call, List.getElem?_eq_getElem ht]

/-- What holds of each two recorded calls holds of a fitting one and a later fitting one. -/
theorem rel_of_pairwise_recorded {R : Call → Call → Prop}
    (h : (recorded position progs).Pairwise R) (heq : calls position progs = before ++ after)
    (he : e ∈ before) (hfits : e.Fits) {c : Call} (hc : c ∈ after) (hfits' : c.Fits) : R e c := by
  rw [recorded, List.pairwise_filter, heq, List.pairwise_append] at h
  exact h.2.2 e he c hc (decide_eq_true hfits) (decide_eq_true hfits')

/-- The extents are disjoint exactly when the run is spaced. -/
theorem pairwise_disjoint_iff :
    ((recorded position progs).Pairwise fun e c => ∀ x, ¬(e.Covers x ∧ c.Covers x)) ↔
      Spaced (recorded position progs) := by
  constructor
  · intro h before p empties q after heq hempty hp hq
    -- the second file starts on the last bytes of the first one or in front of it
    obtain ⟨rest, hrest⟩ := exists_recorded_eq_of_append heq
    have hstart := start_of_empties hrest.symm hempty
    rw [heq, List.pairwise_append, List.pairwise_cons] at h
    have hdisjoint := h.2.1.1 q (by simp)
    by_contra hlt
    refine hdisjoint (min (p.start + p.length - 1) (q.start + q.length - 1)) ?_
    simp only [Call.Covers]
    omega
  · intro h
    refine (pairwise_below h).imp fun hbelow x ⟨he, hc⟩ => ?_
    simp only [Call.Covers] at he hc
    have := hbelow (by omega) (by omega)
    omega

theorem exists_last_cutShort {cs : List Call} (h : ∃ w ∈ cs, w.CutShort) :
    ∃ before r after, cs = before ++ r :: after ∧ r.CutShort ∧ ∀ w ∈ after, ¬w.CutShort := by
  induction cs with
  | nil => simp at h
  | cons c cs ih =>
    by_cases hlater : ∃ w ∈ cs, w.CutShort
    · obtain ⟨before, r, after, rfl, hcut, hlast⟩ := ih hlater
      exact ⟨c :: before, r, after, rfl, hcut, hlast⟩
    · obtain ⟨w, hw, hcut⟩ := h
      push Not at hlater
      rcases List.mem_cons.mp hw with rfl | hw
      · exact ⟨[], w, cs, rfl, hcut, hlater⟩
      · exact absurd hcut (hlater w hw)

/-- The files recorded after a byte of a spaced run end in front of it. -/
theorem le_of_spaced (hspaced : Spaced (recorded position progs))
    (heq : calls position progs = before ++ e :: after) (hfits : e.Fits)
    (hbyte : (e.byteAt? x).isSome) {c : Call} (hc : c ∈ after) (hfits' : c.Fits)
    (hne : c.length ≠ 0) : c.start + c.length ≤ x := by
  obtain ⟨-, hle, hlt⟩ := Call.byteAt?_isSome_iff.mp hbyte
  have heq' : calls position progs = (before ++ [e]) ++ after := by simp [heq]
  have hbelow := rel_of_pairwise_recorded (pairwise_below hspaced) heq'
    (List.mem_append_right _ (List.mem_singleton_self e)) hfits hc hfits' (by omega) hne
  omega

/-- A later call that is not cut short leaves the byte alone. -/
theorem byteAt?_eq_none_of_spaced (hspaced : Spaced (recorded position progs))
    (heq : calls position progs = before ++ e :: after) (hfits : e.Fits)
    (hbyte : (e.byteAt? x).isSome) {w : Call} (hw : w ∈ after) (hcut : ¬w.CutShort) :
    w.byteAt? x = none := by
  by_cases hfits' : w.Fits
  · rw [← Option.not_isSome_iff_eq_none, Call.byteAt?_isSome_iff]
    have := le_of_spaced hspaced heq hfits hbyte hw hfits'
    omega
  · exact Call.byteAt?_eq_none hfits' hcut x

/-- In a spaced run the last call that is cut short reaches as far down as the earlier ones. -/
theorem start_le_of_spaced (hspaced : Spaced (recorded position progs))
    {mid : List Call} {r w : Call}
    (heq : calls position progs = before ++ e :: (mid ++ r :: after)) (hfits : e.Fits)
    (hbyte : (e.byteAt? x).isSome) (hw : w ∈ mid) (hcut : w.CutShort) (hle : w.start ≤ x) :
    r.start ≤ x := by
  obtain ⟨mid', mid'', rfl⟩ := List.append_of_mem hw
  have heq' : calls position progs = (before ++ e :: mid') ++ w :: (mid'' ++ r :: after) := by
    simp [heq]
  have hfits' : ¬w.Fits := fun h => by
    have := h.2
    have := hcut.2
    omega
  obtain ⟨rest, hrest⟩ := exists_calls_eq_of_append heq'
  rw [nextPosition_of_not_fits hfits'] at hrest
  have hr : r ∈ calls w.start rest := by
    rw [← hrest]
    exact List.mem_append_right _ List.mem_cons_self
  refine start_le_of_mem_calls hle (fun c hc => ?_) r hr
  rw [← hrest] at hc
  refine le_of_spaced hspaced heq hfits hbyte ?_
  rw [List.append_assoc, List.cons_append]
  exact List.mem_append_right _ (List.mem_cons_of_mem _ hc)

/-- The bytes of a file that fits in lie in the program area. -/
theorem Call.Fits.lt_procLimit (hfits : e.Fits) (hbyte : (e.byteAt? x).isSome) : x < procLimit := by
  have hlt := (Call.byteAt?_isSome_iff.mp hbyte).2.2
  have hend := hfits.2
  omega

/-- What is written last is not written over, so it agrees with the files that are on the image. -/
theorem overlaid_of_intact (hspaced : Spaced (recorded procBase progs))
    (hintact : (runMkfs progs).Intact) : Overlaid (calls procBase progs) := by
  rw [intact_iff] at hintact
  intro before r after heq hcut hlast e he hfits x b b' hb hb'
  obtain ⟨before, mid, rfl⟩ := List.append_of_mem he
  have heq' : calls procBase progs = before ++ e :: (mid ++ r :: after) := by simp [heq]
  have hmem : e ∈ recorded procBase progs := mem_recorded_iff.mpr ⟨by simp [heq'], hfits⟩
  have hbyte : (e.byteAt? x).isSome := Option.isSome_iff_exists.mpr ⟨b, hb⟩
  rw [← hintact e hmem x b hb]
  exact (bytes_runMkfs_of_last heq hb' (hfits.lt_procLimit hbyte) fun w hw =>
    byteAt?_eq_none_of_spaced hspaced heq' hfits hbyte (by simp [hw]) (hlast w hw)).symm

/-- In a spaced run a byte of a recorded file can be written over only by files that are cut short,
and the last of these decides it. -/
theorem intact_of_overlaid (hspaced : Spaced (recorded procBase progs))
    (hoverlaid : Overlaid (calls procBase progs)) : (runMkfs progs).Intact := by
  refine (intact_iff progs).mpr fun e he x b hb => ?_
  obtain ⟨hmem, hfits⟩ := mem_recorded_iff.mp he
  obtain ⟨before, after, heq⟩ := List.append_of_mem hmem
  have hbyte : (e.byteAt? x).isSome := Option.isSome_iff_exists.mpr ⟨b, hb⟩
  have hlimit := hfits.lt_procLimit hbyte
  by_cases hcovered : ∃ w ∈ after, w.CutShort ∧ w.start ≤ x
  case neg =>
    -- no later call writes the byte
    push Not at hcovered
    refine bytes_runMkfs_of_last heq hb hlimit fun w hw => ?_
    by_cases hcut : w.CutShort
    · rw [← Option.not_isSome_iff_eq_none, Call.byteAt?_isSome_iff]
      have := hcovered w hw hcut
      omega
    · exact byteAt?_eq_none_of_spaced hspaced heq hfits hbyte hw hcut
  -- the last one that is cut short writes it, and agrees
  obtain ⟨w, hw, hwcut, hwle⟩ := hcovered
  obtain ⟨mid, r, post, rfl, hcut, hlast⟩ := exists_last_cutShort ⟨w, hw, hwcut⟩
  have hle : r.start ≤ x := by
    rcases List.mem_append.mp hw with hw | hw
    · exact start_le_of_spaced hspaced heq hfits hbyte hw hwcut hwle
    · rcases List.mem_cons.mp hw with rfl | hw
      · exact hwle
      · exact absurd hwcut (hlast w hw)
  have hr : (r.byteAt? x).isSome := by
    rw [Call.byteAt?_isSome_iff]
    have := hcut.2
    exact ⟨hcut.1, hle, by omega⟩
  obtain ⟨b', hb'⟩ := Option.isSome_iff_exists.mp hr
  have heq' : calls procBase progs = (before ++ e :: mid) ++ r :: post := by simp [heq]
  rw [← hoverlaid _ r post heq' hcut hlast e (by simp) hfits x b b' hb hb']
  exact bytes_runMkfs_of_last heq' hb' hlimit fun w hw =>
    byteAt?_eq_none_of_spaced hspaced heq hfits hbyte (by simp [hw]) (hlast w hw)

/-- The information file can be relied on exactly when the run is spaced, so that the extents are
disjoint, and overlaid, so that the files without room do no harm. -/
theorem faithful_iff (progs : List Program) :
    (runMkfs progs).Faithful ↔
      Spaced (recorded procBase progs) ∧ Overlaid (calls procBase progs) := by
  constructor
  · rintro ⟨hintact, hdisjoint⟩
    have hspaced := pairwise_disjoint_iff.mp ((pairwise_stored_iff progs).mp hdisjoint)
    exact ⟨hspaced, overlaid_of_intact hspaced hintact⟩
  · rintro ⟨hspaced, hoverlaid⟩
    exact ⟨intact_of_overlaid hspaced hoverlaid,
      (pairwise_stored_iff progs).mpr (pairwise_disjoint_iff.mpr hspaced)⟩

/-- Two one-byte programs: the second is stored over the first, at the inclusive end that the
first call left in the cursor. -/
theorem not_faithful_two_programs : ¬ ∀ progs, (runMkfs progs).Faithful := by
  intro h
  have hdamaged := ((h [⟨"a", [65]⟩, ⟨"b", [66]⟩]).intact
    ⟨⟨"a", [65]⟩, ⟨"a", 100, 0, 100, 0⟩⟩ ?_).2 0 (by decide)
  · simp only [runMkfs, Session.init, List.foldl_cons, List.foldl_nil] at hdamaged
    generalize buildDisk Stream.create = disk at hdamaged
    exact absurd (show (66 : BitVec 8) = 65 from hdamaged) (by decide)
  · simp only [runMkfs, Session.init, List.foldl_cons, List.foldl_nil]
    generalize buildDisk Stream.create = disk
    exact List.mem_cons_self

end Faithful

end R5O5.Mkfs
