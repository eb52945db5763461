import Mathlib.Order.Basic
import R5O5.Kernel.Declarations
import R5O5.Lib.CircularBuffer
import R5O5.Lib.Except

/-!
# The console

The functions of `kernel/console.c` with the parts of `kernel/uart.c` they call. The UART always
becomes ready to send.

## Main definitions

- `Terminal`: the console with what was sent to the UART;
- `consoleintr`, `uartintr`: the handlers of input;
- `Editor`: a line editor over lists.

## Main results

- `uartintr_refines`: the console edits lines as the list-based editor does.
-/

namespace R5O5

open CircularBuffer

/-- `INPUT_BUF`. -/
def inputBuf : ℕ := 128

instance : NeZero inputBuf := ⟨by decide⟩

/-- The indices wrap at a multiple of the size of the ring. -/
theorem inputBuf_dvd : inputBuf ∣ 2 ^ 32 := by decide

/-- The code of a character, as an `int`. -/
def charCode (c : Char) : BitVec 32 := BitVec.ofNat 32 c.toNat

/-- `C(x)`: control-x. -/
def ctrl (x : Char) : BitVec 32 := charCode x - charCode '@'

/-- `BACKSPACE`, which is no character. -/
def backspace : BitVec 32 := 0x100

/-- The input buffer with its read, write and edit index. -/
structure Console where
  buf : Fin inputBuf → BitVec 8
  r : BitVec 32
  w : BitVec 32
  e : BitVec 32

/-- The console, `errorOccurred` and the bytes sent to the UART. -/
structure Terminal where
  cons : Console
  errorOccurred : Bool
  sent : List (BitVec 8)

/-- Send one character. -/
def uartputc (c : BitVec 32) (t : Terminal) : Terminal :=
  { t with sent := t.sent ++ [c.setWidth 8] }

/-- Send one character; a backspace erases the last one on the screen. -/
def consputc (c : BitVec 32) (t : Terminal) : Except Stop Terminal :=
  if t.errorOccurred then .error .diverge
  else if c = backspace then
    .ok (uartputc (charCode '\x08') (uartputc (charCode ' ') (uartputc (charCode '\x08') t)))
  else .ok (uartputc c t)

/-- The loop for control-U. It moves `e` down towards `w`, in at most `left` rounds. -/
def killLine : ℕ → Terminal → Except Stop Terminal
  | 0, t => .ok t
  | left + 1, t =>
    if t.cons.e ≠ t.cons.w ∧ t.cons.buf (slot (t.cons.e - 1)) ≠ (charCode '\n').setWidth 8 then do
      let t ← consputc backspace { t with cons := { t.cons with e := t.cons.e - 1 } }
      killLine left t
    else .ok t

/-- The handler for one input character. -/
def consoleintr (c : BitVec 32) (t : Terminal) : Except Stop Terminal :=
  if c = ctrl 'U' then killLine (t.cons.e - t.cons.w).toNat t
  else if c = ctrl 'H' ∨ c = charCode '\x7f' then
    if t.cons.e ≠ t.cons.w then
      consputc backspace { t with cons := { t.cons with e := t.cons.e - 1 } }
    else .ok t
  else if c ≠ 0 ∧ (t.cons.e - t.cons.r).toNat < inputBuf then do
    let c := if c = charCode '\r' then charCode '\n' else c
    let t ← consputc c t
    let cons : Console :=
      { t.cons with
        buf := Function.update t.cons.buf (slot t.cons.e) (c.setWidth 8)
        e := t.cons.e + 1 }
    if c = charCode '\n' ∨ c = ctrl 'D' ∨ cons.e = cons.r + BitVec.ofNat 32 inputBuf then
      return { t with cons := { cons with w := cons.e } }
    else return { t with cons }
  else .ok t

/-- The interrupt handler of the UART, for the bytes that are waiting. -/
def uartintr : List (BitVec 8) → Terminal → Except Stop Terminal
  | [], t => .ok t
  | c :: input, t => do
    let t ← consoleintr (c.setWidth 32) t
    uartintr input t

/-! ## The line editor -/

/-- What is typed: lines that are finished, and the line being edited. -/
@[ext]
structure Editor where
  committed : List (BitVec 8)
  pending : List (BitVec 8)

namespace Editor

/-- Control-U, control-H, delete, control-D, carriage return and newline. -/
def ctrlU : BitVec 8 := 0x15
def ctrlH : BitVec 8 := 0x08
def del : BitVec 8 := 0x7f
def ctrlD : BitVec 8 := 0x04
def cr : BitVec 8 := 0x0d
def nl : BitVec 8 := 0x0a

/-- Carriage return turned into newline. -/
def crToNl (c : BitVec 8) : BitVec 8 := if c = cr then nl else c

/-- How many characters are stored. -/
def stored (d : Editor) : ℕ := d.committed.length + d.pending.length

/-- Append a character, and finish the line if it ends or the editor is full. -/
def append (d : Editor) (c : BitVec 8) : Editor :=
  if c = nl ∨ c = ctrlD ∨ d.stored + 1 = inputBuf then
    { committed := d.committed ++ (d.pending ++ [c])
      pending := [] }
  else { d with pending := d.pending ++ [c] }

/-- One input byte. -/
def input (d : Editor) (c : BitVec 8) : Editor :=
  if c = ctrlU then { d with pending := [] }
  else if c = ctrlH ∨ c = del then { d with pending := d.pending.dropLast }
  else if c ≠ 0 ∧ d.stored < inputBuf then d.append (crToNl c)
  else d

end Editor

/-! ## The console as a line editor -/

namespace Console

variable {c : Console}

/-- The characters that can be read. -/
def committed (c : Console) : List (BitVec 8) := region c.buf c.r (c.w - c.r).toNat

/-- The characters that can still be edited. -/
def pending (c : Console) : List (BitVec 8) := region c.buf c.w (c.e - c.w).toNat

/-- The contents of the console. -/
def editor (c : Console) : Editor where
  committed := c.committed
  pending := c.pending

/-- The indices are in order and at most a round apart, the line being edited has no end, and it is
empty when the buffer is full. -/
structure WellFormed (c : Console) : Prop where
  committed_le : (c.w - c.r).toNat ≤ (c.e - c.r).toNat
  fits : (c.e - c.r).toNat ≤ inputBuf
  plain : ∀ x ∈ c.pending, x ≠ Editor.nl ∧ x ≠ Editor.ctrlD
  full : (c.e - c.r).toNat = inputBuf → c.w = c.e

/-- What can be read from `c` can be read from `c'`, and is not altered. -/
structure Keeps (c c' : Console) : Prop where
  r_eq : c'.r = c.r
  committed_le : (c.w - c.r).toNat ≤ (c'.w - c'.r).toNat
  buf_eq : ∀ i < (c.w - c.r).toNat,
    c'.buf (slot (c.r + BitVec.ofNat 32 i)) = c.buf (slot (c.r + BitVec.ofNat 32 i))

/-- What one input byte should do to the console. -/
structure Edits (c : Console) (x : BitVec 8) (c' : Console) : Prop where
  wellFormed : c'.WellFormed
  keeps : c.Keeps c'
  editor : c'.editor = c.editor.input x

/-- Moving the edit index loses nothing. -/
theorem keeps_edit (c : Console) (e : BitVec 32) : c.Keeps { c with e } where
  r_eq := rfl
  committed_le := Nat.le_refl _
  buf_eq _ _ := rfl

theorem Keeps.refl (c : Console) : c.Keeps c := keeps_edit c c.e

theorem Keeps.trans {c' c'' : Console} (h : c.Keeps c') (h' : c'.Keeps c'') : c.Keeps c'' where
  r_eq := h'.r_eq.trans h.r_eq
  committed_le := Nat.le_trans h.committed_le h'.committed_le
  buf_eq i hi := by
    have heq := h'.buf_eq i (Nat.lt_of_lt_of_le hi h.committed_le)
    rw [h.r_eq] at heq
    rw [heq, h.buf_eq i hi]

/-- The stored bytes are the committed ones and those being edited. -/
theorem toNat_sub_eq (h : c.WellFormed) :
    (c.e - c.r).toNat = (c.w - c.r).toNat + (c.e - c.w).toNat := by
  have := h.committed_le
  bv_omega

/-- The editor stores as many bytes as the ring. -/
theorem stored_editor (h : c.WellFormed) : c.editor.stored = (c.e - c.r).toNat := by
  rw [Editor.stored, editor, committed, pending, length_region, length_region, toNat_sub_eq h]

/-! ### Erasing -/

/-- The console without the line being edited. -/
def killed (c : Console) : Console := { c with e := c.w }

/-- The console without the last character of the line being edited. -/
def erased (c : Console) : Console := { c with e := c.e - 1 }

/-- There is nothing to kill on an empty line. -/
theorem killed_eq_self (h : c.e = c.w) : c.killed = c := by
  cases c
  cases h
  rfl

theorem pending_killed (c : Console) : c.killed.pending = [] := by
  rw [pending, killed, BitVec.sub_self]
  rfl

/-- When the edit index has not moved, the line is empty. -/
theorem pending_eq_nil (h : c.e = c.w) : c.pending = [] := by
  rw [pending, h, BitVec.sub_self]
  rfl

/-- Erasing takes the last byte off the line. -/
theorem pending_erased (h : c.e ≠ c.w) : c.erased.pending = c.pending.dropLast := by
  obtain ⟨len, hlen⟩ : ∃ len, (c.e - c.w).toNat = len + 1 :=
    Nat.exists_eq_succ_of_ne_zero (by bv_omega)
  have hlen' : (c.e - 1 - c.w).toNat = len := by bv_omega
  rw [pending, pending, hlen, dropLast_region_succ, erased, hlen']

/-- The last character of the line being edited. -/
theorem mem_pending_last (h : c.e ≠ c.w) : c.buf (slot (c.e - 1)) ∈ c.pending := by
  refine mem_region.mpr ⟨(c.e - c.w).toNat - 1, by bv_omega, ?_⟩
  congr 2
  bv_omega

/-- Killing the line keeps the indices in order. -/
theorem WellFormed.killed (h : c.WellFormed) : c.killed.WellFormed where
  committed_le := Nat.le_refl _
  fits := Nat.le_trans h.committed_le h.fits
  plain x hx := by
    rw [pending_killed] at hx
    cases hx
  full _ := rfl

/-- Erasing a byte keeps the indices in order. -/
theorem WellFormed.erased (h : c.WellFormed) (hne : c.e ≠ c.w) : c.erased.WellFormed where
  committed_le := by
    have hle := h.committed_le
    change (c.w - c.r).toNat ≤ (c.e - 1 - c.r).toNat
    bv_omega
  fits := by
    have hle := h.committed_le
    have hfits := h.fits
    change (c.e - 1 - c.r).toNat ≤ inputBuf
    bv_omega
  plain x hx := by
    rw [pending_erased hne] at hx
    exact h.plain x (List.dropLast_subset _ hx)
  full hfull := by
    -- one character less than at most `inputBuf`
    have hle := h.committed_le
    have hfits := h.fits
    change (c.e - 1 - c.r).toNat = inputBuf at hfull
    bv_omega

theorem edits_killed (h : c.WellFormed) : c.Edits Editor.ctrlU c.killed where
  wellFormed := h.killed
  keeps := keeps_edit c _
  editor := Editor.ext rfl (pending_killed c)

/-- A backspace with nothing to erase changes nothing. -/
theorem edits_backspace_nil (h : c.WellFormed) {x : BitVec 8}
    (hx : x = Editor.ctrlH ∨ x = Editor.del) (he : c.e = c.w) : c.Edits x c where
  wellFormed := h
  keeps := Keeps.refl c
  editor := by
    have hne : x ≠ Editor.ctrlU := by rcases hx with rfl | rfl <;> decide
    rw [Editor.input, if_neg hne, if_pos hx, editor, pending_eq_nil he]
    rfl

/-- `^H` and delete take back one byte of a line that is not empty. -/
theorem edits_backspace (h : c.WellFormed) {x : BitVec 8}
    (hx : x = Editor.ctrlH ∨ x = Editor.del) (he : c.e ≠ c.w) : c.Edits x c.erased where
  wellFormed := h.erased he
  keeps := keeps_edit c _
  editor := by
    have hne : x ≠ Editor.ctrlU := by rcases hx with rfl | rfl <;> decide
    rw [Editor.input, if_neg hne, if_pos hx, editor, pending_erased he]
    rfl

/-! ### Appending -/

/-- The console with one more character in the line being edited. -/
def typed (c : Console) (x : BitVec 8) : Console :=
  { c with
    buf := Function.update c.buf (slot c.e) x
    e := c.e + 1 }

/-- The console with the line being edited finished. -/
def finished (c : Console) : Console := { c with w := c.e }

/-- The console after a character is appended. -/
def append (c : Console) (x : BitVec 8) : Console :=
  if x = Editor.nl ∨ x = Editor.ctrlD ∨ c.e + 1 = c.r + BitVec.ofNat 32 inputBuf then
    (c.typed x).finished
  else c.typed x

/-- The next slot, counted from the read index. -/
theorem slot_e_of_r (c : Console) :
    slot c.e = (slot (c.r + BitVec.ofNat 32 (c.e - c.r).toNat) : Fin inputBuf) := by
  rw [BitVec.ofNat_toNat, BitVec.setWidth_eq, BitVec.add_comm, BitVec.sub_add_cancel]

/-- The next slot, counted from the write index. -/
theorem slot_e_of_w (c : Console) :
    slot c.e = (slot (c.w + BitVec.ofNat 32 (c.e - c.w).toNat) : Fin inputBuf) := by
  rw [BitVec.ofNat_toNat, BitVec.setWidth_eq, BitVec.add_comm, BitVec.sub_add_cancel]

section Append

variable (h : c.WellFormed) (hroom : (c.e - c.r).toNat < inputBuf) (x : BitVec 8)

include h hroom

theorem committed_typed : (c.typed x).committed = c.committed := by
  rw [committed, committed, typed, slot_e_of_r c,
    region_update inputBuf_dvd _ _ h.committed_le hroom]

/-- A typed byte is the last one of the line. -/
theorem pending_typed : (c.typed x).pending = c.pending ++ [x] := by
  have heq := toNat_sub_eq h
  have hlen : (c.e + 1 - c.w).toNat = (c.e - c.w).toNat + 1 := by
    simp only [inputBuf] at hroom
    bv_omega
  rw [pending, pending, typed, hlen, slot_e_of_w c,
    region_update_succ inputBuf_dvd _ _ (by omega)]

theorem keeps_typed : c.Keeps (c.typed x) where
  r_eq := rfl
  committed_le := Nat.le_refl _
  buf_eq i hi := by
    have hle := h.committed_le
    rw [typed, slot_e_of_r c]
    exact Function.update_of_ne (slot_add_ne inputBuf_dvd c.r (by omega) (by omega)) ..

/-- Committing the line keeps the bytes that are stored. -/
theorem keeps_finished_typed : c.Keeps (c.typed x).finished where
  r_eq := rfl
  committed_le := by
    have hle := h.committed_le
    change _ ≤ (c.e + 1 - c.r).toNat
    simp only [inputBuf] at hroom
    bv_omega
  buf_eq := (keeps_typed h hroom x).buf_eq

/-- Committing moves the line behind what was committed. -/
theorem committed_finished_typed :
    (c.typed x).finished.committed = c.committed ++ (c.pending ++ [x]) := by
  have heq := toNat_sub_eq h
  have hle := h.committed_le
  have hlen : (c.e + 1 - c.r).toNat = (c.w - c.r).toNat + (c.e + 1 - c.w).toNat := by
    simp only [inputBuf] at hroom
    bv_omega
  have hw : c.r + BitVec.ofNat 32 (c.w - c.r).toNat = c.w := by
    rw [BitVec.ofNat_toNat, BitVec.setWidth_eq, BitVec.add_comm, BitVec.sub_add_cancel]
  rw [← pending_typed h hroom x, ← committed_typed h hroom x]
  change region (c.typed x).buf c.r (c.e + 1 - c.r).toNat = _
  rw [hlen, region_add, hw]
  rfl

omit h in
theorem toNat_typed : ((c.typed x).e - (c.typed x).r).toNat = (c.e - c.r).toNat + 1 := by
  change (c.e + 1 - c.r).toNat = _
  simp only [inputBuf] at hroom
  bv_omega

/-- Appending a byte keeps the indices in order. -/
theorem append_wellFormed : (c.append x).WellFormed := by
  have hlen := toNat_typed hroom x
  unfold append
  -- a finished line leaves nothing pending
  split_ifs with hend
  · exact
      { committed_le := Nat.le_refl _
        fits := hlen.trans_le hroom
        plain := fun y hy => by
          rw [finished, pending_eq_nil rfl] at hy
          cases hy
        full := fun _ => rfl }
  · rw [not_or, not_or] at hend
    refine
      { committed_le := (Nat.le_succ_of_le h.committed_le).trans_eq hlen.symm
        fits := hlen.trans_le hroom
        plain := fun y hy => ?_
        full := fun hfull => ?_ }
    · rw [pending_typed h hroom x, List.mem_append, List.mem_singleton] at hy
      rcases hy with hy | rfl
      · exact h.plain y hy
      · exact ⟨hend.1, hend.2.1⟩
    · -- a full buffer would have finished the line
      refine absurd ?_ hend.2.2
      change (c.e + 1 - c.r).toNat = inputBuf at hfull
      simp only [inputBuf] at *
      bv_omega

/-- Appending keeps the bytes that are stored. -/
theorem keeps_append : c.Keeps (c.append x) := by
  unfold append
  split_ifs
  · exact keeps_finished_typed h hroom x
  · exact keeps_typed h hroom x

/-- The ring appends what the editor appends. -/
theorem editor_append : (c.append x).editor = c.editor.append x := by
  have hstored := stored_editor h
  have hfull : c.e + 1 = c.r + BitVec.ofNat 32 inputBuf ↔ c.editor.stored + 1 = inputBuf := by
    rw [hstored]
    simp only [inputBuf] at *
    constructor <;> intro <;> bv_omega
  rw [append, Editor.append]
  simp only [hfull]
  split_ifs with hend
  · exact Editor.ext (committed_finished_typed h hroom x) (pending_eq_nil rfl)
  · exact Editor.ext (committed_typed h hroom x) (pending_typed h hroom x)

end Append

/-- Any other byte is appended if there is room. -/
theorem edits_append (h : c.WellFormed) (hroom : (c.e - c.r).toNat < inputBuf) {x : BitVec 8}
    (hkill : x ≠ Editor.ctrlU) (herase : ¬(x = Editor.ctrlH ∨ x = Editor.del)) (hx : x ≠ 0) :
    c.Edits x (c.append (Editor.crToNl x)) where
  wellFormed := append_wellFormed h hroom _
  keeps := keeps_append h hroom _
  editor := by
    have hstored : c.editor.stored < inputBuf := (stored_editor h).trans_lt hroom
    rw [editor_append h hroom, Editor.input, if_neg hkill, if_neg herase, if_pos ⟨hx, hstored⟩]

/-- A byte other than the editing keys is dropped when it is zero or finds no room. -/
theorem edits_ignored (h : c.WellFormed) {x : BitVec 8} (hkill : x ≠ Editor.ctrlU)
    (herase : ¬(x = Editor.ctrlH ∨ x = Editor.del))
    (hx : ¬(x ≠ 0 ∧ (c.e - c.r).toNat < inputBuf)) : c.Edits x c where
  wellFormed := h
  keeps := Keeps.refl c
  editor := by
    rw [Editor.input, if_neg hkill, if_neg herase, if_neg]
    rwa [stored_editor h]

end Console

/-! ## The handlers -/

/-- `consputc` sends, or loops for ever after an error. -/
theorem consputc_cases (c : BitVec 32) (t : Terminal) :
    (∃ sent, consputc c t = .ok { t with sent }) ∨
      t.errorOccurred = true ∧ consputc c t = .error .diverge := by
  unfold consputc uartputc
  split_ifs with herror
  · exact Or.inr ⟨herror, rfl⟩
  · exact Or.inl ⟨_, rfl⟩
  · exact Or.inl ⟨_, rfl⟩

/-- The characters of the line being edited are erased one by one, down to `w`. -/
theorem killLine_cases (left : ℕ) (t : Terminal) (hleft : (t.cons.e - t.cons.w).toNat = left)
    (hplain : ∀ x ∈ t.cons.pending, x ≠ Editor.nl) :
    (∃ sent, killLine left t = .ok { t with cons := t.cons.killed, sent }) ∨
      t.errorOccurred = true ∧ killLine left t = .error .diverge := by
  -- each round erases the last pending character, and none of them ends a line
  induction left generalizing t with
  | zero =>
    have he : t.cons.e = t.cons.w := by bv_omega
    exact Or.inl ⟨t.sent, by rw [killLine, Console.killed_eq_self he]⟩
  | succ left ih =>
    have he : t.cons.e ≠ t.cons.w := by
      intro heq
      rw [heq, BitVec.sub_self] at hleft
      cases hleft
    have hlast := hplain _ (Console.mem_pending_last he)
    rw [killLine, if_pos ⟨he, hlast⟩]
    rcases consputc_cases backspace { t with cons := t.cons.erased } with
      ⟨sent, hok⟩ | ⟨herror, hhang⟩
    · have hrest := ih { t with cons := t.cons.erased, sent }
        (by change (t.cons.e - 1 - t.cons.w).toNat = left; bv_omega)
        (fun x hx => hplain x (List.dropLast_subset _ (Console.pending_erased he ▸ hx)))
      change (∃ sent, (consputc backspace { t with cons := t.cons.erased } >>= killLine left) = _) ∨
        _ ∧ (consputc backspace { t with cons := t.cons.erased } >>= killLine left) = _
      rw [hok]
      exact hrest
    · refine Or.inr ⟨herror, ?_⟩
      change (consputc backspace { t with cons := t.cons.erased } >>= killLine left) = _
      rw [hhang]
      rfl

/-- Bytes are told apart by their extensions. -/
theorem setWidth_inj {x y : BitVec 8} : x.setWidth 32 = y.setWidth 32 ↔ x = y := by
  constructor
  · intro h
    bv_omega
  · exact congrArg _

/-- The handler for a byte, with the character codes as bytes. -/
theorem consoleintr_byte (x : BitVec 8) (t : Terminal) :
    consoleintr (x.setWidth 32) t =
      if x = Editor.ctrlU then killLine (t.cons.e - t.cons.w).toNat t
      else if x = Editor.ctrlH ∨ x = Editor.del then
        if t.cons.e ≠ t.cons.w then consputc backspace { t with cons := t.cons.erased } else .ok t
      else if x ≠ 0 ∧ (t.cons.e - t.cons.r).toNat < inputBuf then do
        let t ← consputc ((Editor.crToNl x).setWidth 32) t
        return { t with cons := t.cons.append (Editor.crToNl x) }
      else .ok t := by
  have hU : ctrl 'U' = Editor.ctrlU.setWidth 32 := by decide
  have hH : ctrl 'H' = Editor.ctrlH.setWidth 32 := by decide
  have hD : ctrl 'D' = Editor.ctrlD.setWidth 32 := by decide
  have hdel : charCode '\x7f' = Editor.del.setWidth 32 := by decide
  have hcr : charCode '\r' = Editor.cr.setWidth 32 := by decide
  have hnl : charCode '\n' = Editor.nl.setWidth 32 := by decide
  have hzero : (0 : BitVec 32) = (0 : BitVec 8).setWidth 32 := by decide
  have hback (y : BitVec 8) : (y.setWidth 32).setWidth 8 = y := by bv_omega
  have htranslate : (if x = Editor.cr then Editor.nl else x) = Editor.crToNl x := rfl
  unfold consoleintr
  rw [hU, hH, hD, hdel, hcr, hnl, hzero]
  simp only [ne_eq, setWidth_inj, ← apply_ite (BitVec.setWidth 32), htranslate, hback]
  -- what is left to compare is the storing of the character, after the echo
  have hstore (u : Terminal) (y : BitVec 8) :
      (if y = Editor.nl ∨ y = Editor.ctrlD ∨
          u.cons.e + 1 = u.cons.r + BitVec.ofNat 32 inputBuf then
        (pure { u with cons := (u.cons.typed y).finished } : Except Stop Terminal)
      else pure { u with cons := u.cons.typed y }) =
        pure { u with cons := u.cons.append y } := by
    rw [Console.append]
    split_ifs <;> rfl
  simp only [← hstore]
  rfl

/-- One byte edits the line as it should, unless the kernel has stopped with an error and hangs
while echoing. -/
theorem consoleintr_cases (x : BitVec 8) (t : Terminal) (h : t.cons.WellFormed) :
    (∃ cons sent, consoleintr (x.setWidth 32) t = .ok { t with cons, sent } ∧
      t.cons.Edits x cons) ∨
      t.errorOccurred = true ∧ consoleintr (x.setWidth 32) t = .error .diverge := by
  rw [consoleintr_byte]
  -- control-U, erasing with and without a character to erase, storing, and anything else
  split_ifs with hkill herase he hchar
  · subst hkill
    have hplain : ∀ x ∈ t.cons.pending, x ≠ Editor.nl := fun x hx => (h.plain x hx).1
    exact (killLine_cases _ t rfl hplain).imp_left
      fun ⟨sent, hok⟩ => ⟨_, sent, hok, Console.edits_killed h⟩
  · exact (consputc_cases backspace { t with cons := t.cons.erased }).imp_left
      fun ⟨sent, hok⟩ => ⟨_, sent, hok, Console.edits_backspace h herase he⟩
  · rw [not_not] at he
    exact Or.inl ⟨_, _, rfl, Console.edits_backspace_nil h herase he⟩
  · rcases consputc_cases ((Editor.crToNl x).setWidth 32) t with
      ⟨sent, hok⟩ | ⟨herror, hhang⟩
    · refine Or.inl ⟨_, sent, ?_, Console.edits_append h hchar.2 hkill herase hchar.1⟩
      rw [hok]
      rfl
    · refine Or.inr ⟨herror, ?_⟩
      rw [hhang]
      rfl
  · exact Or.inl ⟨_, _, rfl, Console.edits_ignored h hkill herase hchar⟩

/-- The bytes waiting at the UART edit the line one after the other. -/
theorem uartintr_cases (input : List (BitVec 8)) (t : Terminal) (h : t.cons.WellFormed) :
    (∃ cons sent, uartintr input t = .ok { t with cons, sent } ∧ cons.WellFormed ∧
      t.cons.Keeps cons ∧ cons.editor = input.foldl Editor.input t.cons.editor) ∨
      t.errorOccurred = true ∧ uartintr input t = .error .diverge := by
  induction input generalizing t with
  | nil => exact Or.inl ⟨_, _, rfl, h, Console.Keeps.refl _, rfl⟩
  | cons x input ih =>
    rw [uartintr]
    rcases consoleintr_cases x t h with ⟨cons, sent, hok, hedits⟩ | ⟨herror, hhang⟩
    · rw [hok]
      rcases ih { t with cons, sent } hedits.wellFormed with
        ⟨cons', sent', hok', hwf, hkeeps, heditor⟩ | hhang
      · refine Or.inl ⟨cons', sent', hok', hwf, hedits.keeps.trans hkeeps, ?_⟩
        rw [heditor, hedits.editor]
        rfl
      · exact Or.inr hhang
    · refine Or.inr ⟨herror, ?_⟩
      rw [hhang]
      rfl

/-- From a well-formed state the console edits lines as the list-based editor does, whatever is
typed, and never alters what can already be read. It returns unless the kernel has stopped with an
error. -/
theorem uartintr_refines (input : List (BitVec 8)) (t : Terminal) (h : t.cons.WellFormed) :
    (∀ t', uartintr input t = .ok t' →
      t'.cons.WellFormed ∧ t.cons.Keeps t'.cons ∧
        t'.cons.editor = input.foldl Editor.input t.cons.editor) ∧
    (t.errorOccurred = false → ∃ t', uartintr input t = .ok t') := by
  rcases uartintr_cases input t h with ⟨cons, sent, hok, hfacts⟩ | ⟨herror, hhang⟩
  · refine ⟨fun t' ht' => ?_, fun _ => ⟨_, hok⟩⟩
    rw [hok] at ht'
    cases ht'
    exact hfacts
  · refine ⟨fun t' ht' => ?_, fun hno => ?_⟩
    · rw [hhang] at ht'
      cases ht'
    · rw [herror] at hno
      cases hno

/-- A console with `e` about to wrap around, one character pending. -/
def sampleTerminal : Terminal where
  cons :=
    { buf := fun _ => 0x61
      r := 0xfffffffe
      w := 0xfffffffe
      e := 0xffffffff }
  errorOccurred := false
  sent := []

/-- The indices of the sample terminal are in order. -/
theorem wellFormed_sampleTerminal : sampleTerminal.cons.WellFormed where
  committed_le := by decide
  fits := by decide
  plain := by decide
  full := by decide

/-- Typing `b` and a carriage return there finishes the line `ab`. -/
theorem uartintr_refines_sample : ∃ t', uartintr [0x62, 0x0d] sampleTerminal = .ok t' ∧
    t'.cons.editor.committed = [0x61, 0x62, 0x0a] := by
  obtain ⟨hrefines, hreturns⟩ :=
    uartintr_refines [0x62, 0x0d] sampleTerminal wellFormed_sampleTerminal
  obtain ⟨t', ht'⟩ := hreturns rfl
  refine ⟨t', ht', ?_⟩
  rw [(hrefines t' ht').2.2]
  decide

end R5O5
