import Mathlib.Data.List.Forall2

/-!
# The screen of a terminal

A terminal shows the bytes it receives in rows of cells. A printable character is written at the
cursor, over what is there; a backspace moves the cursor left and a newline starts a new row; other
control characters show nothing. The screen shows a text when the text can be read off its rows, up
to blanks at their ends, with the cursor behind the last character.

## Main definitions

- `Screen.put`: what one byte does to the screen;
- `Screen.Shows`: the screen shows this text.

## Main results

- `Screen.Shows.put_printable`, `Screen.Shows.put_newline`: text grows at its end;
- `Screen.Shows.erase`: the sequence that takes the last character away.
-/

/-- The rows above the one with the cursor, and the cells of this row on both sides of it. -/
structure Screen where
  above : List (List (BitVec 8))
  left : List (BitVec 8)
  right : List (BitVec 8)

namespace Screen

def backspace : BitVec 8 := 0x08
def newline : BitVec 8 := 0x0a
def blank : BitVec 8 := 0x20

/-- A character that takes one cell. -/
def Printable (c : BitVec 8) : Prop := 0x20 ≤ c.toNat ∧ c.toNat < 0x7f

instance (c : BitVec 8) : Decidable (Printable c) := inferInstanceAs (Decidable (_ ∧ _))

/-- One byte arrives. -/
def put (s : Screen) (c : BitVec 8) : Screen :=
  if c = backspace then
    { s with
      left := s.left.dropLast
      right := s.left.getLast?.toList ++ s.right }
  else if c = newline then
    { above := s.above ++ [s.left ++ s.right]
      left := []
      right := [] }
  else if Printable c then
    { s with
      left := s.left ++ [c]
      right := s.right.tail }
  else s

/-- Some bytes arrive. -/
def receive (s : Screen) (bytes : List (BitVec 8)) : Screen := bytes.foldl put s

/-- Cells that show a line: blanks at most are behind it. -/
def RowShows (line row : List (BitVec 8)) : Prop := ∃ n, row = line ++ List.replicate n blank

/-- The rows show this text, and the cursor is at its end. -/
def Shows (s : Screen) (text : List (BitVec 8)) : Prop :=
  ∃ lines, List.Forall₂ RowShows lines s.above ∧ RowShows [] s.right ∧
    text = (lines.map (· ++ [newline])).flatten ++ s.left

section Shows

variable {s : Screen} {text bytes : List (BitVec 8)} {c : BitVec 8}

/-- Bytes are received one after the other. -/
theorem receive_append (s : Screen) (bytes bytes' : List (BitVec 8)) :
    s.receive (bytes ++ bytes') = (s.receive bytes).receive bytes' := List.foldl_append ..

/-- A backspace is not printable. -/
theorem Printable.ne_backspace (h : Printable c) : c ≠ backspace := by
  rintro rfl
  exact absurd h (by decide)

theorem Printable.ne_newline (h : Printable c) : c ≠ newline := by
  rintro rfl
  exact absurd h (by decide)

/-- A printable byte is put at the cursor. -/
theorem put_printable (s : Screen) (h : Printable c) :
    s.put c =
      { s with
        left := s.left ++ [c]
        right := s.right.tail } := by
  rw [put, if_neg h.ne_backspace, if_neg h.ne_newline, if_pos h]

/-- The rest of an empty row is empty. -/
theorem rowShows_tail {row : List (BitVec 8)} (h : RowShows [] row) : RowShows [] row.tail := by
  obtain ⟨n, rfl⟩ := h
  exact ⟨n - 1, List.tail_replicate⟩

/-- A printable byte is shown behind the text. -/
theorem Shows.put_printable (h : s.Shows text) (hc : Printable c) :
    (s.put c).Shows (text ++ [c]) := by
  obtain ⟨lines, habove, hright, rfl⟩ := h
  rw [Screen.put_printable s hc]
  exact ⟨lines, habove, rowShows_tail hright, List.append_assoc ..⟩

/-- A newline goes on with an empty row. -/
theorem Shows.put_newline (h : s.Shows text) : (s.put newline).Shows (text ++ [newline]) := by
  obtain ⟨lines, habove, ⟨n, hright⟩, rfl⟩ := h
  rw [put, if_neg (by decide), if_pos rfl]
  refine ⟨lines ++ [s.left], ?_, ⟨0, rfl⟩, ?_⟩
  · exact List.rel_append habove (List.Forall₂.cons ⟨n, by rw [hright]; rfl⟩ List.Forall₂.nil)
  · simp

/-- Backspace, blank, backspace: the last character disappears. -/
theorem Shows.erase (h : s.Shows (text ++ [c])) (hc : c ≠ newline) :
    (s.receive [backspace, blank, backspace]).Shows text := by
  obtain ⟨lines, habove, ⟨n, hright⟩, htext⟩ := h
  -- the character is in the row of the cursor, since a newline ends the rows above
  rcases List.eq_nil_or_concat s.left with hleft | ⟨l, x, hleft⟩
  · rw [hleft, List.append_nil] at htext
    rcases List.eq_nil_or_concat lines with rfl | ⟨init, last, rfl⟩
    · simp at htext
    · rw [List.concat_eq_append, List.map_append, List.flatten_append, List.map_singleton,
        List.flatten_singleton, ← List.append_assoc] at htext
      have hlast := (List.append_inj' htext rfl).2
      rw [List.singleton_inj] at hlast
      exact absurd hlast hc
  · rw [List.concat_eq_append] at hleft
    rw [hleft, ← List.append_assoc] at htext
    obtain ⟨rfl, -⟩ := List.append_inj' htext rfl
    have hreceive : s.receive [backspace, blank, backspace] =
        { s with
          left := l
          right := blank :: s.right } := by
      have hfirst : s.put backspace = { s with left := l, right := x :: s.right } := by
        rw [put, if_pos rfl, hleft, List.dropLast_concat, List.getLast?_concat]
        rfl
      rw [receive, List.foldl_cons, hfirst, List.foldl_cons, Screen.put_printable _ (by decide),
        List.foldl_cons, put, if_pos rfl, List.dropLast_concat, List.getLast?_concat]
      rfl
    rw [hreceive]
    exact ⟨lines, habove, ⟨n + 1, by rw [hright]; rfl⟩, rfl⟩

/-- A control character without effect. -/
theorem put_of_control (s : Screen) (hb : c ≠ backspace) (hn : c ≠ newline) (hc : ¬Printable c) :
    s.put c = s := by
  rw [put, if_neg hb, if_neg hn, if_neg hc]

end Shows

end Screen
