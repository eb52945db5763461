import R5O5.Kernel.Print.Format
import R5O5.Lib.Trace

/-!
# Error messages

The function `error` of `kernel/print.c`: it prints its argument, which `printf` takes for a format
string, and freezes the console. It does not return; what runs afterwards are interrupt handlers.

## Main definitions

- `error`: the console as `error` leaves it;
- `Terminal.Step`: the uses of the console.

## Main results

- `error_text`: a message without percent signs is printed as it is;
- `Terminal.Step.eq_of_frozen`: no call that returns changes a frozen console;
- `silent_after_error`: an error message is the last thing on the console.
-/

namespace R5O5

/-- Print a message and freeze the console, which then stays as returned here. -/
def error (s : Option (List (BitVec 8))) (t : Terminal) : Except Stop Terminal := do
  let t ← printf (some ("error: ".toList.map charByte)) [] t
  let t ← printf s [] t
  let t ← printf (some ("\n".toList.map charByte)) [] t
  return { t with errorOccurred := true }

/-- The console after an error whose message comes out as `out`. -/
def Terminal.failed (t : Terminal) (out : List (BitVec 8)) : Terminal :=
  { t.send ("error: ".toList.map charByte ++ out ++ "\n".toList.map charByte) with
    errorOccurred := true }

/-- A use of the console. -/
inductive ConsoleEvent
  | input (input : List (BitVec 8))
  | print (fmt : Option (List (BitVec 8))) (args : List PrintfArg)
  | error (s : Option (List (BitVec 8)))

/-- A call of `error`. -/
def ConsoleEvent.IsError : ConsoleEvent → Prop
  | error _ => True
  | _ => False

/-- A use of the console that comes to its end. `printf` does not if its format string is a null
pointer: it calls `error`, which is then a use of its own. -/
inductive Terminal.Step : Terminal → ConsoleEvent → Terminal → Prop
  | input {t t' : Terminal} {input : List (BitVec 8)} :
      uartintr input t = .ok t' → Step t (.input input) t'
  | print {t t' : Terminal} {fmt : Option (List (BitVec 8))} {args : List PrintfArg} :
      printf fmt args t = .ok t' → Step t (.print fmt args) t'
  | error {t t' : Terminal} {s : Option (List (BitVec 8))} :
      R5O5.error s t = .ok t' → Step t (.error s) t'

section Frozen

variable {t t' : Terminal}

/-- After an error `consputc` does not return. -/
theorem consputc_ne_ok (c : BitVec 32) (ht : t.errorOccurred = true) :
    consputc c t ≠ .ok t' := by
  rw [consputc, ht, if_pos rfl]
  intro h
  cases h

/-- Nothing can come after a character on a frozen console. -/
theorem not_ok_of_consputc {c : BitVec 32} {α : Type} {f : Terminal → Except Stop α} {x : α}
    (ht : t.errorOccurred = true) : (consputc c t >>= f) ≠ .ok x := by
  intro h
  obtain ⟨u, hput, -⟩ := Except.bind_eq_ok.mp h
  exact consputc_ne_ok c ht hput

/-- After an error only the empty string can be printed. -/
theorem putChars_frozen {str : List (BitVec 8)} (ht : t.errorOccurred = true)
    (hok : putChars str t = .ok t') : t' = t := by
  cases str with
  | nil =>
    cases hok
    rfl
  | cons c str => exact absurd hok (not_ok_of_consputc ht)

/-- After an error only an empty line can be killed. -/
theorem killLine_frozen {left : ℕ} (ht : t.errorOccurred = true) (hok : killLine left t = .ok t') :
    t' = t := by
  cases left with
  | zero =>
    cases hok
    rfl
  | succ left =>
    rw [killLine] at hok
    split_ifs at hok
    · exact absurd hok (not_ok_of_consputc ht)
    · cases hok
      rfl

/-- Typing is ignored, or hangs where it would be echoed. -/
theorem consoleintr_frozen {x : BitVec 8} (ht : t.errorOccurred = true)
    (hok : consoleintr (x.setWidth 32) t = .ok t') : t' = t := by
  rw [consoleintr_byte] at hok
  split_ifs at hok
  · exact killLine_frozen ht hok
  · exact absurd hok (consputc_ne_ok backspace ht)
  · cases hok
    rfl
  · exact absurd hok (not_ok_of_consputc ht)
  · cases hok
    rfl

/-- After an error the receiver changes nothing when it returns. -/
theorem uartintr_frozen {input : List (BitVec 8)} (ht : t.errorOccurred = true)
    (hok : uartintr input t = .ok t') : t' = t := by
  induction input with
  | nil =>
    cases hok
    rfl
  | cons c input ih =>
    rw [uartintr] at hok
    obtain ⟨u, hchar, hrest⟩ := Except.bind_eq_ok.mp hok
    rw [consoleintr_frozen ht hchar] at hrest
    exact ih hrest

/-- After an error `printint` changes nothing when it returns. -/
theorem printint_frozen {xx : BitVec 64} {base : BitVec 32} {sign : Bool}
    (hbase : base = 10 ∨ base = 16) (ht : t.errorOccurred = true)
    (hok : printint xx base sign t = .ok t') : t' = t := by
  rw [printint_eq_putChars xx sign hbase] at hok
  exact putChars_frozen ht hok

theorem eq_ok_of_return {x : Except Stop Terminal} {args args' : List PrintfArg}
    (hok : (do return (args, ← x)) = (.ok (args', t') : Except Stop _)) : x = .ok t' := by
  obtain ⟨u, hx, hpure⟩ := Except.bind_eq_ok.mp hok
  cases hpure
  exact hx

/-- A conversion that returns has printed nothing. -/
theorem conversion_frozen {c : BitVec 8} {args args' : List PrintfArg}
    (ht : t.errorOccurred = true) (hok : conversion c args t = .ok (args', t')) : t' = t := by
  unfold conversion at hok
  split_ifs at hok
  · split at hok
    · exact printint_frozen (Or.inl rfl) ht (eq_ok_of_return hok)
    · cases hok
  · split at hok
    · exact printint_frozen (Or.inr rfl) ht (eq_ok_of_return hok)
    · cases hok
  · split at hok
    · exact absurd (eq_ok_of_return hok) (not_ok_of_consputc ht)
    · cases hok
  · split at hok
    · exact printint_frozen (Or.inl rfl) ht (eq_ok_of_return hok)
    · cases hok
  -- an empty string is printed even so
  · split at hok
    · exact putChars_frozen ht (eq_ok_of_return hok)
    · exact putChars_frozen ht (eq_ok_of_return hok)
    · cases hok
  · exact absurd hok (not_ok_of_consputc ht)
  · exact absurd hok (not_ok_of_consputc ht)

/-- After an error the loop of `printf` changes nothing when it returns. -/
theorem printfLoop_frozen {fmt : List (BitVec 8)} {args : List PrintfArg}
    (ht : t.errorOccurred = true) (hok : printfLoop fmt args t = .ok t') : t' = t := by
  induction fmt using parse.induct generalizing args with
  | case1 =>
    cases hok
    rfl
  | case2 c fmt h ih =>
    rw [printfLoop.eq_def] at hok
    dsimp only at hok
    rw [if_pos h] at hok
    exact absurd hok (not_ok_of_consputc ht)
  | case3 c h =>
    rw [printfLoop.eq_def] at hok
    dsimp only at hok
    rw [if_neg h] at hok
    cases hok
    rfl
  | case4 c h c' fmt ih =>
    rw [printfLoop, if_neg h] at hok
    obtain ⟨⟨args', u⟩, hconversion, hrest⟩ := Except.bind_eq_ok.mp hok
    rw [conversion_frozen ht hconversion] at hrest
    exact ih hrest

/-- After an error `printf` changes nothing when it returns. -/
theorem printf_frozen {fmt : Option (List (BitVec 8))} {args : List PrintfArg}
    (ht : t.errorOccurred = true) (hok : printf fmt args t = .ok t') : t' = t := by
  cases fmt with
  | none => cases hok
  | some fmt => exact printfLoop_frozen ht hok

/-- No use of a frozen console changes it. -/
theorem Terminal.Step.eq_of_frozen {event : ConsoleEvent} (h : Terminal.Step t event t')
    (ht : t.errorOccurred = true) : t' = t := by
  cases h with
  | input hok => exact uartintr_frozen ht hok
  | print hok => exact printf_frozen ht hok
  | error hok =>
    -- none of its three calls of `printf` does
    obtain ⟨u, hfirst, hok⟩ := Except.bind_eq_ok.mp hok
    rw [printf_frozen ht hfirst] at hok
    obtain ⟨v, hmessage, hok⟩ := Except.bind_eq_ok.mp hok
    rw [printf_frozen ht hmessage] at hok
    obtain ⟨w, hlast, hok⟩ := Except.bind_eq_ok.mp hok
    rw [printf_frozen ht hlast] at hok
    cases hok
    rw [← ht]

end Frozen

section Running

variable {t t' : Terminal}

/-- `consputc` does not touch the flag. -/
theorem errorOccurred_of_consputc {c : BitVec 32} (hok : consputc c t = .ok t') :
    t'.errorOccurred = t.errorOccurred := by
  rcases consputc_cases c t with ⟨sent, hsent⟩ | ⟨-, hhang⟩
  · rw [hsent] at hok
    cases hok
    rfl
  · rw [hhang] at hok
    cases hok

theorem errorOccurred_of_killLine {left : ℕ} (hok : killLine left t = .ok t') :
    t'.errorOccurred = t.errorOccurred := by
  induction left generalizing t with
  | zero =>
    cases hok
    rfl
  | succ left ih =>
    rw [killLine] at hok
    split_ifs at hok
    · obtain ⟨u, hput, hrest⟩ := Except.bind_eq_ok.mp hok
      have hsame := errorOccurred_of_consputc hput
      exact (ih hrest).trans hsame
    · cases hok
      rfl

theorem errorOccurred_of_consoleintr {x : BitVec 8} (hok : consoleintr (x.setWidth 32) t = .ok t') :
    t'.errorOccurred = t.errorOccurred := by
  rw [consoleintr_byte] at hok
  split_ifs at hok
  · exact errorOccurred_of_killLine hok
  · have hsame := errorOccurred_of_consputc hok
    exact hsame
  · cases hok
    rfl
  · obtain ⟨u, hput, hpure⟩ := Except.bind_eq_ok.mp hok
    have hsame := errorOccurred_of_consputc hput
    cases hpure
    exact hsame
  · cases hok
    rfl

theorem errorOccurred_of_uartintr {input : List (BitVec 8)} (hok : uartintr input t = .ok t') :
    t'.errorOccurred = t.errorOccurred := by
  induction input generalizing t with
  | nil =>
    cases hok
    rfl
  | cons x input ih =>
    rw [uartintr] at hok
    obtain ⟨u, hchar, hrest⟩ := Except.bind_eq_ok.mp hok
    exact (ih hrest).trans (errorOccurred_of_consoleintr hchar)

/-- Only `error` freezes the console. -/
theorem Terminal.Step.errorOccurred_eq_false {event : ConsoleEvent}
    (h : Terminal.Step t event t') (hevent : ¬event.IsError) (ht : t.errorOccurred = false) :
    t'.errorOccurred = false := by
  cases h with
  | input hok => rw [errorOccurred_of_uartintr hok, ht]
  | @print _ fmt args hok =>
    cases fmt with
    | none => cases hok
    | some fmt =>
      rw [printf_some fmt args ht] at hok
      cases hrender : render (parse fmt) args with
      | none =>
        rw [hrender] at hok
        cases hok
      | some p =>
        rw [hrender] at hok
        cases hok
        exact ht
  | error hok => exact absurd trivial hevent

/-- `error` prints the rendering of its argument, which must not ask for other arguments. -/
theorem error_some (s : List (BitVec 8)) (ht : t.errorOccurred = false) :
    error (some s) t =
      (render (parse s) []).elim (.error .outOfBounds) fun p => .ok (t.failed p.1) := by
  have hfirst : printf (some ("error: ".toList.map charByte)) [] t =
      .ok (t.send ("error: ".toList.map charByte)) := printf_text (by decide) [] ht
  -- the message is printed behind `error: `
  rw [error, hfirst, Except.ok_bind,
    printf_some (t := t.send ("error: ".toList.map charByte)) s [] ht]
  cases render (parse s) [] with
  | none => rfl
  | some p =>
    rw [Option.elim_some, Except.ok_bind, Terminal.send_send]
    have hnewline : ∀ c ∈ "\n".toList.map charByte, c ≠ charByte '%' := by decide
    rw [printf_text (t := t.send ("error: ".toList.map charByte ++ p.1)) hnewline [] ht,
      Except.ok_bind, Terminal.send_send]
    rfl

/-- A message without percent signs is printed as it is. -/
theorem error_text {str : List (BitVec 8)} (hstr : ∀ c ∈ str, c ≠ charByte '%')
    (ht : t.errorOccurred = false) : error (some str) t = .ok (t.failed str) := by
  have hrender := printf_some str [] ht
  rw [printf_text hstr [] ht] at hrender
  rw [error_some str ht]
  cases hout : render (parse str) [] with
  | none =>
    rw [hout] at hrender
    cases hrender
  | some p =>
    rw [hout] at hrender
    have hsent := congrArg Terminal.sent (Except.ok.inj hrender)
    rw [Option.elim_some, List.append_cancel_left hsent]

/-- What `error` leaves when it prints its argument. -/
theorem Terminal.Step.failed {event : ConsoleEvent} (h : Terminal.Step t event t')
    (hevent : event.IsError) (ht : t.errorOccurred = false) :
    ∃ s p, event = .error (some s) ∧ render (parse s) [] = some p ∧ t' = t.failed p.1 := by
  cases h with
  | input hok => exact hevent.elim
  | print hok => exact hevent.elim
  | @error _ s hok =>
    cases s with
    | none =>
      obtain ⟨u, -, hok⟩ := Except.bind_eq_ok.mp hok
      cases hok
    | some s =>
      rw [error_some s ht] at hok
      cases hrender : render (parse s) [] with
      | none =>
        rw [hrender] at hok
        cases hok
      | some p =>
        rw [hrender] at hok
        cases hok
        exact ⟨s, p, rfl, hrender, rfl⟩

/-- Without a call of `error` there is no error. -/
theorem running_of_trace {events : List ConsoleEvent} (hrun : Trace Terminal.Step t events t')
    (hevents : ∀ event ∈ events, ¬event.IsError) (ht : t.errorOccurred = false) :
    t'.errorOccurred = false := by
  induction hrun with
  | refl => exact ht
  | snoc _ hlast ih =>
    have hbefore := ih fun event hevent => hevents event (List.mem_append_left _ hevent)
    exact hlast.errorOccurred_eq_false (hevents _ (List.mem_append_right _ List.mem_cons_self))
      hbefore

/-- However keys are pressed and whatever is printed, the first message of `error` is the last thing
on the console: it is printed in full after what came before, and from then on no call that returns
changes the console. -/
theorem silent_after_error {events : List ConsoleEvent}
    (hrun : Trace Terminal.Step t events t') (ht : t.errorOccurred = false) :
    ((∀ event ∈ events, ¬event.IsError) ∧ t'.errorOccurred = false) ∨
    ∃ before s after u p, events = before ++ .error (some s) :: after ∧
      (∀ event ∈ before, ¬event.IsError) ∧ Trace Terminal.Step t before u ∧
      u.errorOccurred = false ∧ render (parse s) [] = some p ∧ t' = u.failed p.1 := by
  rcases hrun.first_of_labels ConsoleEvent.IsError with
    hnone | ⟨before, event, after, u, v, rfl, hnone, hevent, hbefore, hfirst, hafter⟩
  · exact Or.inl ⟨hnone, running_of_trace hrun hnone ht⟩
  · have hu := running_of_trace hbefore hnone ht
    obtain ⟨s, p, rfl, hrender, rfl⟩ := hfirst.failed hevent hu
    -- the console is frozen now
    have hlast := hafter.eq_of_absorbing fun _ _ hstep => hstep.eq_of_frozen rfl
    exact Or.inr ⟨before, s, after, u, p, rfl, hnone, hbefore, hu, hrender, hlast⟩

/-- `error("disk")`, after which a NUL is typed. -/
theorem silent_after_error_sample : ∃ t', Trace Terminal.Step sampleTerminal
    [.error (some ("disk".toList.map charByte)), .input [0]] t' ∧
      t'.sent = "error: disk\n".toList.map charByte := by
  have herror : error (some ("disk".toList.map charByte)) sampleTerminal =
      .ok (sampleTerminal.failed ("disk".toList.map charByte)) := error_text (by decide) rfl
  have hfirst : Trace Terminal.Step sampleTerminal [.error (some ("disk".toList.map charByte))]
      (sampleTerminal.failed ("disk".toList.map charByte)) := Trace.refl.snoc (.error herror)
  have hrun : Trace Terminal.Step sampleTerminal
      [.error (some ("disk".toList.map charByte)), .input [0]]
      (sampleTerminal.failed ("disk".toList.map charByte)) := hfirst.snoc (.input rfl)
  refine ⟨_, hrun, ?_⟩
  rcases silent_after_error hrun rfl with
    ⟨hnone, -⟩ | ⟨before, s, after, u, p, hevents, hnone, hbefore, -, hrender, hlast⟩
  · exact absurd trivial (hnone _ List.mem_cons_self)
  · cases before with
    | nil =>
      cases hevents
      cases hrender
      rw [hlast, Trace.nil_iff.mp hbefore]
      rfl
    | cons event before =>
      obtain ⟨rfl, -⟩ := List.cons.inj hevents
      exact absurd trivial (hnone _ List.mem_cons_self)

end Running

end R5O5
