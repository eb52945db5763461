import R5O5.Kernel.Print

/-!
# Format strings

The format strings of `printf` as a small language: a format string is a list of directives, and a
list of directives with its arguments has a rendering. `printf` reads the directives off the format
string while it prints.

## Main definitions

- `Directive`: a part of a format string, with its syntax `Directive.bytes`;
- `parse`, `unparse`: format strings and lists of directives;
- `render`: what directives print.

## Main results

- `parse_unparse`, `unparse_parse`: directives and format strings correspond;
- `printfLoop_unparse`: directives are printed one after the other;
- `printf_renders`: `printf` prints the rendering of its format string.
-/

namespace R5O5

/-- A conversion that takes an argument. -/
inductive Conversion
  | d | x | p | l | s
  deriving DecidableEq

namespace Conversion

/-- The letter behind the percent sign. -/
def letter : Conversion → BitVec 8
  | d => charByte 'd'
  | x => charByte 'x'
  | p => charByte 'p'
  | l => charByte 'l'
  | s => charByte 's'

/-- The conversion of a letter. -/
def ofByte (c : BitVec 8) : Option Conversion :=
  [d, x, p, l, s].find? fun conv => conv.letter = c

/-- A conversion is read from its letter. -/
theorem ofByte_letter (conv : Conversion) : ofByte conv.letter = some conv := by
  cases conv <;> decide

theorem letter_of_ofByte {c : BitVec 8} {conv : Conversion} (h : ofByte c = some conv) :
    conv.letter = c := by
  have hfound := List.find?_some h
  exact of_decide_eq_true hfound

/-- A byte without a conversion is the letter of none. -/
theorem letter_ne_of_ofByte {c : BitVec 8} (h : ofByte c = none) (conv : Conversion) :
    c ≠ conv.letter := by
  rintro rfl
  rw [ofByte_letter] at h
  cases h

/-- What a conversion prints for an argument of its type. The numerals are those of the low 32 bits,
without a sign; an address has all its 16 digits. -/
def output : Conversion → PrintfArg → Option (List (BitVec 8))
  | d, .int v => some ((Nat.toDigits 10 v.toNat).map charByte)
  | x, .int v => some ((Nat.toDigits 16 v.toNat).map charByte)
  | p, .uint64 v => some (('0' :: 'x' :: (ptrDigits 16 v).map Nat.digitChar).map charByte)
  | l, .uint64 v => some ((Nat.toDigits 10 (v.toNat % 2 ^ 32)).map charByte)
  | s, .str str => some (str.getD ("(null)".toList.map charByte))
  | _, _ => none

end Conversion

/-- A part of a format string. A percent sign in front of anything else than the letter of a
conversion is plain. -/
inductive Directive
  | text (c : BitVec 8) (h : c ≠ charByte '%')
  | conversion (conv : Conversion)
  | plain (c : BitVec 8) (h : Conversion.ofByte c = none)

namespace Directive

/-- How a directive is written. -/
def bytes : Directive → List (BitVec 8)
  | text c _ => [c]
  | conversion conv => [charByte '%', conv.letter]
  | plain c _ => [charByte '%', c]

/-- The directive behind a percent sign. -/
def ofByte (c : BitVec 8) : Directive :=
  match h : Conversion.ofByte c with
  | some conv => conversion conv
  | none => plain c h

/-- What a directive prints, with the arguments it leaves. -/
def output : Directive → List PrintfArg → Option (List (BitVec 8) × List PrintfArg)
  | text c _, args => some ([c], args)
  | plain c _, args => some (if c = charByte '%' then [c] else [charByte '%', c], args)
  | conversion _, [] => none
  | conversion conv, arg :: args => (conv.output arg).map (·, args)

/-- The directive read from a byte is a percent sign and this byte. -/
theorem bytes_ofByte (c : BitVec 8) : (ofByte c).bytes = [charByte '%', c] := by
  unfold ofByte
  split
  case h_1 conv h => rw [bytes, Conversion.letter_of_ofByte h]
  case h_2 h => rfl

theorem ofByte_letter (conv : Conversion) : ofByte conv.letter = conversion conv := by
  unfold ofByte
  split
  case h_1 conv' h =>
    rw [Conversion.ofByte_letter] at h
    cases h
    rfl
  case h_2 h =>
    rw [Conversion.ofByte_letter] at h
    cases h

/-- A letter without a conversion stands for itself. -/
theorem ofByte_of_eq_none {c : BitVec 8} (h : Conversion.ofByte c = none) :
    ofByte c = plain c h := by
  unfold ofByte
  split
  case h_1 conv h' =>
    rw [h] at h'
    cases h'
  case h_2 => rfl

end Directive

/-- The directives of a format string. A percent sign at its end is none. -/
def parse : List (BitVec 8) → List Directive
  | [] => []
  | c :: fmt =>
    if h : c ≠ charByte '%' then .text c h :: parse fmt
    else
      match fmt with
      | [] => []
      | c :: fmt => .ofByte c :: parse fmt

/-- The format string of directives. -/
def unparse (ds : List Directive) : List (BitVec 8) := ds.flatMap Directive.bytes

/-- What directives print, with the arguments they leave; every conversion needs an argument of its
type. -/
def render : List Directive → List PrintfArg → Option (List (BitVec 8) × List PrintfArg)
  | [], args => some ([], args)
  | d :: ds, args => do
    let p ← d.output args
    let q ← render ds p.2
    return (p.1 ++ q.1, q.2)

section Syntax

/-- A directive is read back from its bytes. -/
theorem parse_bytes (d : Directive) (fmt : List (BitVec 8)) :
    parse (d.bytes ++ fmt) = d :: parse fmt := by
  cases d with
  | text c h => rw [Directive.bytes, List.singleton_append, parse.eq_def]; simp [h]
  | conversion conv =>
    show parse (charByte '%' :: conv.letter :: fmt) = _
    rw [parse, dif_neg (fun h => h rfl), Directive.ofByte_letter]
  | plain c h =>
    show parse (charByte '%' :: c :: fmt) = _
    rw [parse, dif_neg (fun h => h rfl), Directive.ofByte_of_eq_none h]

/-- Some directives are read back one by one. -/
theorem parse_unparse_append (ds : List Directive) (fmt : List (BitVec 8)) :
    parse (unparse ds ++ fmt) = ds ++ parse fmt := by
  induction ds with
  | nil => rfl
  | cons d ds ih =>
    rw [unparse, List.flatMap_cons, List.append_assoc, parse_bytes, ← unparse, ih, List.cons_append]

/-- Every list of directives is that of a format. -/
theorem parse_unparse (ds : List Directive) : parse (unparse ds) = ds := by
  have h := parse_unparse_append ds []
  rwa [List.append_nil, parse, List.append_nil] at h

/-- Only a percent sign at the end of a format string is lost. -/
theorem unparse_parse (fmt : List (BitVec 8)) :
    fmt = unparse (parse fmt) ∨ fmt = unparse (parse fmt) ++ [charByte '%'] := by
  induction fmt using parse.induct with
  | case1 => exact Or.inl rfl
  | case2 c fmt h ih =>
    rw [parse.eq_def]
    simp only [h, ne_eq, not_false_eq_true, dite_true]
    rw [unparse, List.flatMap_cons, ← unparse, List.append_assoc]
    exact ih.imp (congrArg (c :: ·)) (congrArg (c :: ·))
  | case3 c h =>
    rw [not_not.mp h]
    exact Or.inr rfl
  | case4 c h c' fmt ih =>
    have hparse : parse (c :: c' :: fmt) = .ofByte c' :: parse fmt := by rw [parse, dif_neg h]
    rw [hparse, unparse, List.flatMap_cons, ← unparse, Directive.bytes_ofByte, not_not.mp h]
    exact ih.imp (congrArg (charByte '%' :: c' :: ·)) (congrArg (charByte '%' :: c' :: ·))

end Syntax

section Output

variable {t : Terminal}

theorem Terminal.send_nil (t : Terminal) : t.send [] = t := by rw [send, List.append_nil]

/-- What follows a percent sign is a conversion. -/
theorem printfLoop_percent (c : BitVec 8) (fmt : List (BitVec 8)) (args : List PrintfArg)
    (t : Terminal) :
    printfLoop (charByte '%' :: c :: fmt) args t =
      (conversion c args t >>= fun p => printfLoop fmt p.1 p.2) := by
  rw [printfLoop, if_neg (fun h => h rfl)]

/-- A string is printed, and a null pointer as `(null)`. -/
theorem prints_s (str : Option (List (BitVec 8))) (fmt : List (BitVec 8)) (args : List PrintfArg)
    (ht : t.errorOccurred = false) :
    printfLoop (charByte '%' :: charByte 's' :: fmt) (.str str :: args) t =
      printfLoop fmt args (t.send (str.getD ("(null)".toList.map charByte))) := by
  have hconversion : conversion (charByte 's') (.str str :: args) t =
      .ok (args, t.send (str.getD ("(null)".toList.map charByte))) := by
    unfold conversion
    rw [if_neg (by decide), if_neg (by decide), if_neg (by decide), if_neg (by decide), if_pos rfl]
    cases str with
    | none =>
      dsimp only
      rw [putChars_eq _ ht]
      rfl
    | some s =>
      dsimp only
      rw [putChars_eq s ht]
      rfl
  rw [printfLoop_percent, hconversion]
  rfl

/-- A conversion refuses an argument of another type. -/
theorem conversion_of_output_eq_none {conv : Conversion} {arg : PrintfArg}
    (h : conv.output arg = none) (args : List PrintfArg) (t : Terminal) :
    conversion conv.letter (arg :: args) t = .error .outOfBounds := by
  cases conv <;> cases arg <;> first | rfl | cases h

theorem conversion_nil (conv : Conversion) (t : Terminal) :
    conversion conv.letter [] t = .error .outOfBounds := by
  cases conv <;> rfl

/-- A conversion prints what it should, and takes its argument. -/
theorem printfLoop_conversion (conv : Conversion) (fmt : List (BitVec 8)) (args : List PrintfArg)
    (ht : t.errorOccurred = false) :
    printfLoop (charByte '%' :: conv.letter :: fmt) args t =
      ((Directive.conversion conv).output args).elim (.error .outOfBounds) fun p =>
        printfLoop fmt p.2 (t.send p.1) := by
  cases args with
  | nil =>
    rw [printfLoop_percent, conversion_nil]
    rfl
  | cons arg args =>
    cases hout : conv.output arg with
    | none =>
      rw [printfLoop_percent, conversion_of_output_eq_none hout, Directive.output, hout]
      rfl
    | some out =>
      rw [Directive.output, hout, Option.map_some, Option.elim_some]
      -- the argument has the type of the conversion
      cases conv <;> cases arg <;> cases hout
      case d.int.refl v => exact prints_d v fmt args t ht
      case x.int.refl v => exact prints_x v fmt args t ht
      case p.uint64.refl v => exact prints_p v fmt args t ht
      case l.uint64.refl v => exact prints_l v fmt args t ht
      case s.str.refl str => exact prints_s str fmt args ht

/-- A byte without a conversion is printed behind its percent sign. -/
theorem conversion_plain {c : BitVec 8} (h : Conversion.ofByte c = none) (args : List PrintfArg)
    (ht : t.errorOccurred = false) :
    conversion c args t =
      .ok (args, t.send (if c = charByte '%' then [c] else [charByte '%', c])) := by
  -- `c` is the letter of no conversion, so only the last two branches are left
  have hne := Conversion.letter_ne_of_ofByte h
  have hpercent : charCode '%' = (charByte '%').setWidth 32 := by decide
  unfold conversion
  rw [if_neg (show c ≠ charByte 'd' from hne .d), if_neg (show c ≠ charByte 'x' from hne .x),
    if_neg (show c ≠ charByte 'p' from hne .p), if_neg (show c ≠ charByte 'l' from hne .l),
    if_neg (show c ≠ charByte 's' from hne .s), hpercent, consputc_byte _ ht]
  by_cases hc : c = charByte '%'
  · rw [if_pos hc, if_pos hc, hc]
    rfl
  · rw [if_neg hc, if_neg hc, Except.ok_bind, consputc_byte (t := t.send [charByte '%']) _ ht,
      Terminal.send_send]
    rfl

/-- A directive prints its output. -/
theorem printfLoop_directive (d : Directive) (fmt : List (BitVec 8)) (args : List PrintfArg)
    (ht : t.errorOccurred = false) :
    printfLoop (d.bytes ++ fmt) args t =
      (d.output args).elim (.error .outOfBounds) fun p => printfLoop fmt p.2 (t.send p.1) := by
  cases d with
  | text c h =>
    rw [Directive.bytes, List.singleton_append, printfLoop.eq_def]
    dsimp only
    rw [if_pos h, consputc_byte c ht]
    rfl
  | conversion conv => exact printfLoop_conversion conv fmt args ht
  | plain c h =>
    show printfLoop (charByte '%' :: c :: fmt) args t = _
    rw [printfLoop_percent, conversion_plain h args ht]
    rfl

/-- Directives print one after the other. -/
theorem printfLoop_unparse (ds : List Directive) (fmt : List (BitVec 8)) (args : List PrintfArg)
    (ht : t.errorOccurred = false) :
    printfLoop (unparse ds ++ fmt) args t =
      (render ds args).elim (.error .outOfBounds) fun p => printfLoop fmt p.2 (t.send p.1) := by
  induction ds generalizing args t with
  | nil =>
    rw [render, Option.elim_some, Terminal.send_nil]
    rfl
  | cons d ds ih =>
    rw [unparse, List.flatMap_cons, List.append_assoc, ← unparse, printfLoop_directive d _ _ ht,
      render]
    cases hhead : d.output args with
    | none => rfl
    | some p =>
      -- the rest is printed after what this directive sent
      rw [Option.elim_some, ih (t := t.send p.1) _ ht]
      cases hrest : render ds p.2 with
      | none =>
        rw [Option.elim_none, Option.bind_eq_bind, Option.bind_some, hrest]
        rfl
      | some q =>
        rw [Option.elim_some, Option.bind_eq_bind, Option.bind_some, hrest, Terminal.send_send]
        rfl

/-- Text without percent signs is printed as it is. -/
theorem printf_text {str : List (BitVec 8)} (hstr : ∀ c ∈ str, c ≠ charByte '%')
    (args : List PrintfArg) (ht : t.errorOccurred = false) :
    printf (some str) args t = .ok (t.send str) := by
  rw [printf]
  induction str generalizing t with
  | nil => rw [printfLoop, Terminal.send_nil]
  | cons c str ih =>
    have hhead := printfLoop_directive (.text c (hstr c List.mem_cons_self)) str args ht
    refine hhead.trans ((ih (t := t.send [c]) (fun x hx => hstr x (.tail c hx)) ht).trans ?_)
    rw [Terminal.send_send, List.singleton_append]

/-- `printf` reads the directives off its format string. -/
theorem printf_some (fmt : List (BitVec 8)) (args : List PrintfArg)
    (ht : t.errorOccurred = false) :
    printf (some fmt) args t =
      (render (parse fmt) args).elim (.error .outOfBounds) fun p => .ok (t.send p.1) := by
  rw [printf]
  -- a percent sign at the end of the format string ends the loop
  rcases unparse_parse fmt with hfmt | hfmt
  · have hprint := printfLoop_unparse (parse fmt) [] args ht
    rwa [List.append_nil, ← hfmt] at hprint
  · have hprint := printfLoop_unparse (parse fmt) [charByte '%'] args ht
    rwa [← hfmt] at hprint

/-- Format strings and lists of directives correspond, apart from a percent sign at the end, and
`printf` prints the rendering of the directives. It stops only when an argument is missing or is of
another type than its conversion. -/
theorem printf_renders (fmt : List (BitVec 8)) (args : List PrintfArg) (t : Terminal)
    (ht : t.errorOccurred = false) :
    (∀ ds, parse (unparse ds) = ds) ∧
    (fmt = unparse (parse fmt) ∨ fmt = unparse (parse fmt) ++ [charByte '%']) ∧
    printf (some fmt) args t =
      (render (parse fmt) args).elim (.error .outOfBounds) fun p => .ok (t.send p.1) :=
  ⟨parse_unparse, unparse_parse fmt, printf_some fmt args ht⟩

/-- `%d%%` with 42. -/
theorem printf_renders_sample :
    printf (some ("%d%%".toList.map charByte)) [.int 42] sampleTerminal =
      .ok (sampleTerminal.send ("42%".toList.map charByte)) := by
  rw [(printf_renders _ [.int 42] sampleTerminal rfl).2.2]
  rfl

end Output

end R5O5
