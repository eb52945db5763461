import R5O5.Kernel.Print
import R5O5.Lib.Screen
import R5O5.Lib.Trace

/-!
# What the user sees

The UART keeps the bytes that arrive until its interrupt handler takes them, at any time and in any
number. The handler echoes what it does to the line being edited: at every moment the screen shows
the characters that are stored in the console, and nothing else.

## Main definitions

- `Uart`: the receiver of the UART with the console behind it;
- `Uart.Step`: a byte arrives, or the handler takes one;
- `Typeable`: the keys for which the screen is right.

## Main results

- `Uart.shows_of_trace`: the screen shows the contents of the console in every run.
-/

namespace R5O5

/-- The characters that a terminal shows in one cell, and the keys that the console knows. -/
def Typeable (c : BitVec 8) : Prop :=
  Screen.Printable c ∨ c ∈ [Editor.ctrlU, Editor.ctrlH, Editor.del, Editor.ctrlD, Editor.cr,
    Editor.nl, 0]

instance (c : BitVec 8) : Decidable (Typeable c) := inferInstanceAs (Decidable (_ ∨ _))

namespace Editor

/-- What is typed and not erased. -/
def text (d : Editor) : List (BitVec 8) := d.committed ++ d.pending

/-- The part of it that a screen shows: control-D shows nothing. -/
def visible (d : Editor) : List (BitVec 8) := d.text.filter (· ≠ ctrlD)

theorem text_append (d : Editor) (c : BitVec 8) : (d.append c).text = d.text ++ [c] := by
  unfold append
  split_ifs
  · rw [text, text, List.append_nil, List.append_assoc]
  · exact (List.append_assoc ..).symm

theorem visible_append (d : Editor) (c : BitVec 8) :
    (d.append c).visible = d.visible ++ if c = ctrlD then [] else [c] := by
  rw [visible, text_append, List.filter_append, ← visible]
  by_cases hc : c = ctrlD
  · rw [if_pos hc, hc]
    rfl
  · rw [if_neg hc, List.filter_cons_of_pos (by simpa using hc)]
    rfl

end Editor

/-! ## The echo -/

/-- The bytes that erase a character on the screen. -/
def eraseEcho : List (BitVec 8) := [Screen.backspace, Screen.blank, Screen.backspace]

section Echo

variable {t : Terminal} {c : BitVec 8}

/-- A backspace is sent as backspace, space, backspace. -/
theorem consputc_backspace (h : t.errorOccurred = false) :
    consputc backspace t = .ok { t with sent := t.sent ++ eraseEcho } := by
  rw [consputc, if_neg (by simp [h]), if_pos rfl]
  simp [uartputc, eraseEcho, charCode, Screen.backspace, Screen.blank]

/-- Killing the line sends one erasure for each of its characters. -/
theorem killLine_eq (h : t.errorOccurred = false) (left : ℕ)
    (hleft : (t.cons.e - t.cons.w).toNat = left) (hplain : ∀ x ∈ t.cons.pending, x ≠ Editor.nl) :
    killLine left t = .ok
      { t with
        cons := t.cons.killed
        sent := t.sent ++ (List.replicate left eraseEcho).flatten } := by
  induction left generalizing t with
  | zero =>
    have he : t.cons.e = t.cons.w := by bv_omega
    rw [killLine, Console.killed_eq_self he, List.replicate_zero, List.flatten_nil, List.append_nil]
  | succ left ih =>
    have he : t.cons.e ≠ t.cons.w := by
      intro heq
      rw [heq, BitVec.sub_self] at hleft
      cases hleft
    have hlast := hplain _ (Console.mem_pending_last he)
    rw [killLine, if_pos ⟨he, hlast⟩]
    have hstep := consputc_backspace (t := { t with cons := t.cons.erased }) h
    have hrest := ih (t := { t with cons := t.cons.erased, sent := t.sent ++ eraseEcho }) h
      (by change (t.cons.e - 1 - t.cons.w).toNat = left; bv_omega)
      (fun x hx => hplain x (List.dropLast_subset _ (Console.pending_erased he ▸ hx)))
    change (consputc backspace { t with cons := t.cons.erased } >>= killLine left) = _
    rw [hstep, Except.ok_bind, hrest, List.replicate_succ, List.flatten_cons, ← List.append_assoc]
    rfl

end Echo

/-! ## The screen -/

section OnScreen

variable {t t' : Terminal} {start : Screen} {base : List (BitVec 8)} {c : BitVec 8}

/-- The screen that was sent all this shows the contents of the console, behind what was there. -/
structure OnScreen (start : Screen) (base : List (BitVec 8)) (t : Terminal) : Prop where
  wellFormed : t.cons.WellFormed
  noError : t.errorOccurred = false
  /-- The characters that can still be erased take one cell each. -/
  printable : ∀ x ∈ t.cons.pending, Screen.Printable x
  shows : (start.receive t.sent).Shows (base ++ t.cons.editor.visible)

/-- Nothing is committed while the write index is at the read index. -/
theorem Console.committed_eq_nil {c : Console} (h : c.w = c.r) : c.committed = [] := by
  rw [committed, h, BitVec.sub_self]
  rfl

/-- A line of printable bytes has no `^D` in it. -/
theorem filter_pending {l : List (BitVec 8)} (h : ∀ x ∈ l, Screen.Printable x) :
    l.filter (· ≠ Editor.ctrlD) = l := by
  refine List.filter_eq_self.mpr fun x hx => ?_
  have hne : x ≠ Editor.ctrlD := by
    rintro rfl
    exact absurd (h _ hx) (by decide)
  simpa using hne

/-- Of printable lines everything is visible but `^D`. -/
theorem visible_eq {d : Editor} (h : ∀ x ∈ d.pending, Screen.Printable x) :
    d.visible = d.committed.filter (· ≠ Editor.ctrlD) ++ d.pending := by
  rw [Editor.visible, Editor.text, List.filter_append, filter_pending h]

/-- Erasures take as many characters from the screen. -/
theorem shows_erased {screen : Screen} {text l : List (BitVec 8)}
    (h : screen.Shows (text ++ l)) (hprint : ∀ x ∈ l, Screen.Printable x) :
    (screen.receive (List.replicate l.length eraseEcho).flatten).Shows text := by
  induction l using List.reverseRecOn generalizing screen with
  | nil =>
    rw [List.append_nil] at h
    exact h
  | append_singleton l x ih =>
    rw [← List.append_assoc] at h
    have hx : Screen.Printable x := hprint x (by simp)
    rw [List.length_append, List.length_singleton, List.replicate_succ, List.flatten_cons,
      Screen.receive_append]
    exact ih (h.erase hx.ne_newline) fun y hy => hprint y (List.mem_append_left _ hy)

/-- Control-U. -/
theorem OnScreen.kill (h : OnScreen start base t) :
    ∃ t', consoleintr (Editor.ctrlU.setWidth 32) t = .ok t' ∧ OnScreen start base t' := by
  have hplain : ∀ x ∈ t.cons.pending, x ≠ Editor.nl := fun x hx => (h.wellFormed.plain x hx).1
  have hlength : t.cons.pending.length = (t.cons.e - t.cons.w).toNat :=
    CircularBuffer.length_region ..
  have hkilled := t.cons.pending_killed
  rw [consoleintr_byte, if_pos rfl, killLine_eq h.noError _ rfl hplain]
  refine ⟨_, rfl, h.wellFormed.killed, h.noError, ?_, ?_⟩
  · intro x hx
    dsimp only at hx
    rw [hkilled] at hx
    cases hx
  · have hshows := h.shows
    rw [visible_eq (d := t.cons.editor) h.printable, ← List.append_assoc] at hshows
    have hvisible : t.cons.killed.editor.visible =
        t.cons.editor.committed.filter (· ≠ Editor.ctrlD) := by
      rw [visible_eq (d := t.cons.killed.editor) (fun x hx => by
        have hx' : x ∈ t.cons.killed.pending := hx
        rw [hkilled] at hx'
        cases hx')]
      show _ ++ t.cons.killed.pending = _
      rw [hkilled, List.append_nil]
      rfl
    dsimp only
    rw [Screen.receive_append, hvisible, ← hlength]
    exact shows_erased hshows h.printable

/-- Control-H and delete. -/
theorem OnScreen.backspace (h : OnScreen start base t) (hc : c = Editor.ctrlH ∨ c = Editor.del) :
    ∃ t', consoleintr (c.setWidth 32) t = .ok t' ∧ OnScreen start base t' := by
  have hne : c ≠ Editor.ctrlU := by rcases hc with rfl | rfl <;> decide
  rw [consoleintr_byte, if_neg hne, if_pos hc]
  split_ifs with he
  case neg => exact ⟨t, rfl, h⟩
  rw [consputc_backspace (t := { t with cons := t.cons.erased }) h.noError]
  have hpending := Console.pending_erased he
  have hprintable : ∀ x ∈ t.cons.erased.pending, Screen.Printable x := by
    intro x hx
    rw [hpending] at hx
    exact h.printable x (List.dropLast_subset _ hx)
  refine ⟨_, rfl, h.wellFormed.erased he, h.noError, hprintable, ?_⟩
  -- the last character on the screen is the last one of the line
  have hsplit : t.cons.pending = t.cons.pending.dropLast ++ [t.cons.buf
      (CircularBuffer.slot (t.cons.e - 1))] := by
    have hmem := Console.mem_pending_last he
    have hnil : t.cons.pending ≠ [] := List.ne_nil_of_mem hmem
    conv_lhs => rw [← List.dropLast_append_getLast hnil]
    congr 2
    obtain ⟨len, hlen⟩ : ∃ len, (t.cons.e - t.cons.w).toNat = len + 1 :=
      Nat.exists_eq_succ_of_ne_zero (by bv_omega)
    have hlast : t.cons.w + BitVec.ofNat 32 len = t.cons.e - 1 := by bv_omega
    simp only [Console.pending, hlen, CircularBuffer.region_succ, List.getLast_append_singleton,
      hlast]
  have hshows := h.shows
  have hpend : t.cons.editor.pending = t.cons.pending := rfl
  rw [visible_eq (d := t.cons.editor) h.printable, hpend, hsplit, ← List.append_assoc,
    ← List.append_assoc] at hshows
  have hprint := h.printable _ (Console.mem_pending_last he)
  have hvisible : t.cons.erased.editor.visible =
      t.cons.editor.committed.filter (· ≠ Editor.ctrlD) ++ t.cons.pending.dropLast := by
    rw [visible_eq (d := t.cons.erased.editor) hprintable]
    show _ ++ t.cons.erased.pending = _
    rw [hpending]
    rfl
  dsimp only
  rw [Screen.receive_append, hvisible, ← List.append_assoc]
  exact hshows.erase hprint.ne_newline

/-- A character that is stored. -/
theorem OnScreen.store (h : OnScreen start base t) (hroom : (t.cons.e - t.cons.r).toNat < inputBuf)
    (hc : Screen.Printable c ∨ c = Editor.nl ∨ c = Editor.ctrlD) :
    OnScreen start base
      { t with
        cons := t.cons.append c
        sent := t.sent ++ [c] } := by
  have heditor := Console.editor_append h.wellFormed hroom c
  refine ⟨Console.append_wellFormed h.wellFormed hroom c, h.noError, ?_, ?_⟩
  · intro x hx
    have hx' : x ∈ (t.cons.editor.append c).pending := by rwa [← heditor]
    unfold Editor.append at hx'
    split_ifs at hx' with hend
    · cases hx'
    · rw [not_or, not_or] at hend
      rcases List.mem_append.mp hx' with hold | hnew
      · exact h.printable x hold
      · rw [List.mem_singleton] at hnew
        rw [hnew]
        exact hc.resolve_right fun hctrl => hctrl.elim hend.1 hend.2.1
  · dsimp only
    rw [heditor, Editor.visible_append, Screen.receive_append, ← List.append_assoc]
    -- control-D is stored and echoed, but a terminal does not show it
    rcases hc with hprint | rfl | rfl
    · rw [if_neg (by rintro rfl; exact absurd hprint (by decide))]
      exact h.shows.put_printable hprint
    · rw [if_neg (by decide)]
      exact h.shows.put_newline
    · rw [if_pos rfl, List.append_nil, Screen.receive, List.foldl_cons, List.foldl_nil,
        Screen.put_of_control _ (by decide) (by decide) (by decide)]
      exact h.shows

/-- One byte from the keyboard. -/
theorem OnScreen.consoleintr (h : OnScreen start base t) (hc : Typeable c) :
    ∃ t', R5O5.consoleintr (c.setWidth 32) t = .ok t' ∧ OnScreen start base t' ∧
      t'.cons.editor = t.cons.editor.input c := by
  have hedits : ∀ {t'}, R5O5.consoleintr (c.setWidth 32) t = .ok t' →
      t'.cons.editor = t.cons.editor.input c := by
    intro t' hok
    rcases consoleintr_cases c t h.wellFormed with ⟨cons, sent, hok', hedits⟩ | ⟨herror, -⟩
    · rw [hok] at hok'
      cases hok'
      exact hedits.editor
    · rw [h.noError] at herror
      cases herror
  have hdone : (∃ t', R5O5.consoleintr (c.setWidth 32) t = .ok t' ∧ OnScreen start base t') →
      ∃ t', R5O5.consoleintr (c.setWidth 32) t = .ok t' ∧ OnScreen start base t' ∧
        t'.cons.editor = t.cons.editor.input c := by
    rintro ⟨t', hok, hscreen⟩
    exact ⟨t', hok, hscreen, hedits hok⟩
  apply hdone
  by_cases hkill : c = Editor.ctrlU
  · rw [hkill]
    exact h.kill
  by_cases herase : c = Editor.ctrlH ∨ c = Editor.del
  · exact h.backspace herase
  -- any other key is stored, or ignored when it is 0 or the buffer is full
  rw [consoleintr_byte, if_neg hkill, if_neg herase]
  split_ifs with hroom
  case neg => exact ⟨t, rfl, h⟩
  rw [consputc_byte _ h.noError, Except.ok_bind]
  refine ⟨_, rfl, h.store hroom.2 ?_⟩
  rw [not_or] at herase
  unfold Editor.crToNl
  split_ifs with hcr
  · exact Or.inr (Or.inl rfl)
  · rcases hc with hprint | hmem
    · exact Or.inl hprint
    · simp only [List.mem_cons, List.not_mem_nil, or_false, hkill, herase.1, herase.2, hcr,
        hroom.1, false_or] at hmem
      exact Or.inr hmem.symm

end OnScreen

/-! ## Runs -/

/-- How many bytes the receiver of the UART keeps. -/
def uartFifo : ℕ := 16

/-- The receiver of the UART and the console; the bytes that the receiver has kept and those that
the handler has taken. -/
structure Uart where
  fifo : List (BitVec 8)
  terminal : Terminal
  kept : List (BitVec 8)
  taken : List (BitVec 8)

inductive UartEvent
  /-- A key is pressed. -/
  | key (c : BitVec 8)
  /-- One round of the loop of `uartintr`. -/
  | round

namespace Uart

/-- Nothing has been typed. -/
def boot (sent : List (BitVec 8)) : Uart where
  fifo := []
  terminal :=
    { cons := { buf := fun _ => 0, r := 0, w := 0, e := 0 }
      errorOccurred := false
      sent }
  kept := []
  taken := []

/-- A byte that arrives is lost when the receiver is full. -/
inductive Step : Uart → UartEvent → Uart → Prop
  | keep {u : Uart} {c : BitVec 8} : u.fifo.length < uartFifo →
      Step u (.key c) { u with fifo := u.fifo ++ [c], kept := u.kept ++ [c] }
  | lose {u : Uart} {c : BitVec 8} : ¬u.fifo.length < uartFifo → Step u (.key c) u
  | round {u : Uart} {c : BitVec 8} {fifo : List (BitVec 8)} {terminal : Terminal} :
      u.fifo = c :: fifo → consoleintr (c.setWidth 32) u.terminal = .ok terminal →
      Step u .round { u with fifo, terminal, taken := u.taken ++ [c] }

/-- The invariant of the runs. -/
structure Inv (start : Screen) (base : List (BitVec 8)) (u : Uart) : Prop where
  screen : OnScreen start base u.terminal
  typeable : ∀ c ∈ u.fifo, Typeable c
  kept : u.taken ++ u.fifo = u.kept
  editor : u.terminal.cons.editor = u.taken.foldl Editor.input ⟨[], []⟩

section Runs

variable {start : Screen} {base sent : List (BitVec 8)} {u u' : Uart} {event : UartEvent}
  {events : List UartEvent}

theorem editor_boot (sent : List (BitVec 8)) :
    (boot sent).terminal.cons.editor = ⟨[], []⟩ := by
  apply Editor.ext
  · exact Console.committed_eq_nil rfl
  · exact Console.pending_eq_nil rfl

/-- At boot the screen shows what was there before. -/
theorem inv_boot (h : (start.receive sent).Shows base) : Inv start base (boot sent) := by
  have hpending : (boot sent).terminal.cons.pending = [] := Console.pending_eq_nil rfl
  have hnone : ∀ {x}, x ∉ (boot sent).terminal.cons.pending := by
    rw [hpending]
    exact List.not_mem_nil
  constructor
  case screen =>
    constructor
    case wellFormed =>
      exact
        { committed_le := Nat.le_refl _
          fits := by
            change ((0 : BitVec 32) - 0).toNat ≤ inputBuf
            decide
          plain := fun _ hx => absurd hx hnone
          full := fun _ => rfl }
    case noError => rfl
    case printable => exact fun _ hx => absurd hx hnone
    case shows =>
      rw [editor_boot]
      rwa [show Editor.visible ⟨[], []⟩ = [] from rfl, List.append_nil]
  case typeable => exact fun _ hc => absurd hc List.not_mem_nil
  case kept => rfl
  case editor => exact editor_boot sent

/-- Every key and every output keeps the screen in step with the editor. -/
theorem Inv.step (h : Inv start base u) (hstep : Step u event u')
    (hkey : ∀ c, event = .key c → Typeable c) : Inv start base u' := by
  cases hstep with
  | @keep c _ =>
    refine ⟨h.screen, fun x hx => ?_, ?_, h.editor⟩
    · rcases List.mem_append.mp hx with hx | hx
      · exact h.typeable x hx
      · rw [List.mem_singleton] at hx
        exact hkey x (by rw [hx])
    · dsimp only
      rw [← List.append_assoc, h.kept]
  | lose => exact h
  | @round c fifo terminal hfifo hok =>
    have hc : Typeable c := h.typeable c (by rw [hfifo]; exact List.mem_cons_self)
    obtain ⟨t', hok', hscreen, heditor⟩ := h.screen.consoleintr hc
    rw [hok] at hok'
    cases hok'
    refine ⟨hscreen, fun x hx => ?_, ?_, ?_⟩
    · exact h.typeable x (by rw [hfifo]; exact List.mem_cons_of_mem _ hx)
    · rw [← h.kept, hfifo, List.append_assoc]
      rfl
    · rw [heditor, h.editor, List.foldl_append]
      rfl

/-- The handler takes a byte that waits. -/
theorem Inv.exists_round (h : Inv start base u) {c : BitVec 8} {fifo : List (BitVec 8)}
    (hfifo : u.fifo = c :: fifo) :
    ∃ u', Step u .round u' ∧ u'.fifo = fifo ∧ u'.taken = u.taken ++ [c] := by
  have hc : Typeable c := h.typeable c (by rw [hfifo]; exact List.mem_cons_self)
  obtain ⟨t', hok, -⟩ := h.screen.consoleintr hc
  exact ⟨_, .round hfifo hok, rfl, rfl⟩

/-- Whenever keys are pressed and handled, the handler takes the bytes that the receiver has kept,
in order and each once; the console holds what a line editor makes of them; and the screen shows
exactly this, behind what was on it before. The handler never fails. -/
theorem shows_of_trace (hstart : (start.receive sent).Shows base)
    (hkeys : ∀ c, .key c ∈ events → Typeable c) (hrun : Trace Step (boot sent) events u) :
    u.taken ++ u.fifo = u.kept ∧
    u.terminal.cons.editor = u.taken.foldl Editor.input ⟨[], []⟩ ∧
    (start.receive u.terminal.sent).Shows (base ++ u.terminal.cons.editor.visible) ∧
    ∃ terminal, uartintr u.fifo u.terminal = .ok terminal := by
  have hinv : Inv start base u := by
    refine hrun.invariant_of_labels
      (I := fun events u => (∀ c, .key c ∈ events → Typeable c) → Inv start base u)
      (fun _ => inv_boot hstart) ?_ hkeys
    intro events u event u' ih hstep hkeys
    refine (ih fun c hc => hkeys c (List.mem_append_left _ hc)).step hstep fun c hc => ?_
    exact hkeys c (List.mem_append_right _ (List.mem_singleton.mpr hc.symm))
  refine ⟨hinv.kept, hinv.editor, hinv.screen.shows, ?_⟩
  rcases uartintr_cases u.fifo u.terminal hinv.screen.wellFormed with ⟨_, _, hok, -⟩ | ⟨herror, -⟩
  · exact ⟨_, hok⟩
  · rw [hinv.screen.noError] at herror
    cases herror

/-- Two letters are typed and the second one is erased. -/
theorem shows_of_trace_erased : ∃ events u, Trace Step (boot []) events u ∧
    u.taken = [0x61, 0x62, 0x08] ∧
    ((⟨[], [], []⟩ : Screen).receive u.terminal.sent).Shows [0x61] := by
  have hstart : ((⟨[], [], []⟩ : Screen).receive []).Shows [] :=
    ⟨[], List.Forall₂.nil, ⟨0, rfl⟩, rfl⟩
  have h₀ : Inv _ _ (boot []) := inv_boot hstart
  have hkey : ∀ c ∈ [(0x61 : BitVec 8), 0x62, 0x08], Typeable c := by decide
  -- the three keys are pressed before the handler runs
  have hstep₁ : Step (boot []) (.key 0x61) _ := .keep (by decide)
  have h₁ := h₀.step hstep₁ fun c hc => by cases hc; exact hkey _ (by decide)
  have hstep₂ : Step _ (.key 0x62) _ := Step.keep (u := { boot [] with
    fifo := [0x61]
    kept := [0x61] }) (by decide)
  have h₂ := h₁.step hstep₂ fun c hc => by cases hc; exact hkey _ (by decide)
  have hstep₃ : Step _ (.key 0x08) _ := Step.keep (u := { boot [] with
    fifo := [0x61, 0x62]
    kept := [0x61, 0x62] }) (by decide)
  have h₃ := h₂.step hstep₃ fun c hc => by cases hc; exact hkey _ (by decide)
  obtain ⟨u₄, hstep₄, hfifo₄, htaken₄⟩ := h₃.exists_round rfl
  have h₄ := h₃.step hstep₄ fun c hc => by cases hc
  obtain ⟨u₅, hstep₅, hfifo₅, htaken₅⟩ := h₄.exists_round hfifo₄
  have h₅ := h₄.step hstep₅ fun c hc => by cases hc
  obtain ⟨u₆, hstep₆, -, htaken₆⟩ := h₅.exists_round hfifo₅
  have hrun := (((((Trace.refl.snoc hstep₁).snoc hstep₂).snoc hstep₃).snoc hstep₄).snoc
    hstep₅).snoc hstep₆
  have htaken : u₆.taken = [0x61, 0x62, 0x08] := by
    rw [htaken₆, htaken₅, htaken₄]
    rfl
  obtain ⟨-, heditor, hshows, -⟩ :=
    shows_of_trace hstart (fun c hc => hkey c (by simpa using hc)) hrun
  refine ⟨_, u₆, hrun, htaken, ?_⟩
  rw [heditor, htaken] at hshows
  exact hshows

end Runs

end Uart

end R5O5
