import Mathlib.Data.Nat.Digits.Defs
import Mathlib.Tactic.Ring
import R5O5.Kernel.Console

/-!
# Formatted output

The functions of `kernel/print.c`. The output goes to the UART through `consputc`.

## Main definitions

- `printint`, `printptr`, `printf`: formatted output;
- `Prints`: what a conversion prints.

## Main results

- `printf_numbers`: which numbers `printf` prints correctly.
-/

namespace R5O5

/-- The byte of a character. -/
def charByte (c : Char) : BitVec 8 := BitVec.ofNat 8 c.toNat

/-- `digits`. -/
def digits : List (BitVec 8) := "0123456789abcdef".toList.map charByte

/-- `digits[i]`. -/
def digit (i : ℕ) : BitVec 8 := digits.getD i 0

/-- The size of `buf` in `printint`. -/
def printBuf : ℕ := 16

/-- The digits of `x` as `printint` stores them, least significant first, with `room` bytes left in
`buf`. -/
def storeDigits (base : BitVec 32) : ℕ → BitVec 32 → Except Stop (List (BitVec 8))
  | 0, _ => .error .outOfBounds
  | room + 1, x =>
    let c := digit (x % base).toNat
    let x := x / base
    if x ≠ 0 then do
      let buf ← storeDigits base room x
      return c :: buf
    else return [c]

/-- Send characters one by one. -/
def putChars : List (BitVec 8) → Terminal → Except Stop Terminal
  | [], t => .ok t
  | c :: str, t => do
    let t ← consputc (c.setWidth 32) t
    putChars str t

/-- Print an integer. The sign is that of the unsigned `xx`, which is then truncated. -/
def printint (xx : BitVec 64) (base : BitVec 32) (sign : Bool) (t : Terminal) :
    Except Stop Terminal := do
  let sign := sign && decide (xx < 0)
  let x : BitVec 32 := if sign then (-xx).setWidth 32 else xx.setWidth 32
  let buf ← storeDigits base printBuf x
  if sign then
    if buf.length < printBuf then putChars (buf ++ [charByte '-']).reverse t
    else .error .outOfBounds
  else putChars buf.reverse t

/-- The loop of `printptr`, with `left` digits left. -/
def printptrLoop : ℕ → BitVec 64 → Terminal → Except Stop Terminal
  | 0, _, t => .ok t
  | left + 1, x, t => do
    let t ← consputc ((digit (x >>> 60).toNat).setWidth 32) t
    printptrLoop left (x <<< 4) t

/-- Print an address. -/
def printptr (x : BitVec 64) (t : Terminal) : Except Stop Terminal := do
  let t ← consputc (charCode '0') t
  let t ← consputc (charCode 'x') t
  printptrLoop 16 x t

/-- An argument of `printf`. A string is the list of its bytes before the terminator. -/
inductive PrintfArg
  | int (v : BitVec 32)
  | uint64 (v : BitVec 64)
  | str (s : Option (List (BitVec 8)))

/-- One conversion of `printf`, which takes its argument off the list. An argument that is missing
or of another type is not covered by the source. -/
def conversion (c : BitVec 8) (args : List PrintfArg) (t : Terminal) :
    Except Stop (List PrintfArg × Terminal) :=
  if c = charByte 'd' then
    match args with
    | .int v :: args => do return (args, ← printint (v.signExtend 64) 10 true t)
    | _ => .error .outOfBounds
  else if c = charByte 'x' then
    match args with
    | .int v :: args => do return (args, ← printint (v.signExtend 64) 16 true t)
    | _ => .error .outOfBounds
  else if c = charByte 'p' then
    match args with
    | .uint64 v :: args => do return (args, ← printptr v t)
    | _ => .error .outOfBounds
  else if c = charByte 'l' then
    match args with
    | .uint64 v :: args => do return (args, ← printint v 10 true t)
    | _ => .error .outOfBounds
  else if c = charByte 's' then
    match args with
    | .str (some s) :: args => do return (args, ← putChars s t)
    | .str none :: args => do return (args, ← putChars ("(null)".toList.map charByte) t)
    | _ => .error .outOfBounds
  else if c = charByte '%' then do return (args, ← consputc (charCode '%') t)
  else do
    let t ← consputc (charCode '%') t
    return (args, ← consputc (c.setWidth 32) t)

/-- The loop of `printf` over the format string. -/
def printfLoop : List (BitVec 8) → List PrintfArg → Terminal → Except Stop Terminal
  | [], _, t => .ok t
  | c :: fmt, args, t =>
    if c ≠ charByte '%' then do
      let t ← consputc (c.setWidth 32) t
      printfLoop fmt args t
    else
      match fmt with
      | [] => .ok t
      | c :: fmt => do
        let (args, t) ← conversion c args t
        printfLoop fmt args t

/-- Print to the console. -/
def printf (fmt : Option (List (BitVec 8))) (args : List PrintfArg) (t : Terminal) :
    Except Stop Terminal :=
  match fmt with
  | none => .error (.error "null fmt")
  | some fmt => printfLoop fmt args t

/-! ## What is printed -/

/-- The canonical numeral of an integer. -/
def numeral (base : ℕ) (v : ℤ) : List Char :=
  (if v < 0 then ['-'] else []) ++ Nat.toDigits base v.natAbs

/-- The terminal after these characters are sent. -/
def Terminal.send (t : Terminal) (str : List (BitVec 8)) : Terminal :=
  { t with sent := t.sent ++ str }

/-- `%c` prints `out` for the argument, wherever it stands in the format string. -/
def Prints (c : Char) (arg : PrintfArg) (out : List Char) : Prop :=
  ∀ fmt args t, t.errorOccurred = false →
    printfLoop (charByte '%' :: charByte c :: fmt) (arg :: args) t =
      printfLoop fmt args (t.send (out.map charByte))

section Spec

variable {t : Terminal} {base : BitVec 32}

/-- Two strings are sent one after the other. -/
@[simp]
theorem Terminal.send_send (t : Terminal) (str str' : List (BitVec 8)) :
    (t.send str).send str' = t.send (str ++ str') := by
  simp only [send, List.append_assoc]

theorem consputc_byte (c : BitVec 8) (ht : t.errorOccurred = false) :
    consputc (c.setWidth 32) t = .ok (t.send [c]) := by
  have hne : c.setWidth 32 ≠ backspace := by
    rw [backspace]
    bv_omega
  have hback : (c.setWidth 32).setWidth 8 = c := by bv_omega
  rw [consputc, ht, if_neg Bool.false_ne_true, if_neg hne, uartputc, hback]
  rfl

/-- Before an error a string is sent. -/
theorem putChars_eq (str : List (BitVec 8)) (ht : t.errorOccurred = false) :
    putChars str t = .ok (t.send str) := by
  induction str generalizing t with
  | nil => rw [putChars, Terminal.send, List.append_nil]
  | cons c str ih =>
    rw [putChars, consputc_byte c ht]
    change putChars str (t.send [c]) = _
    rw [ih (t := t.send [c]) ht, Terminal.send_send]
    rfl

/-- The digits of the table are those of numerals. -/
theorem digit_eq {i : ℕ} (hi : i < 16) : digit i = charByte (Nat.digitChar i) := by
  have hall : ∀ i < 16, digit i = charByte (Nat.digitChar i) := by decide
  exact hall i hi

/-- The loop stores the digits of the canonical numeral, last digit first. -/
theorem storeDigits_eq (hbase : 1 < base.toNat) (hbase' : base.toNat ≤ 16) (room : ℕ)
    (x : BitVec 32) (hroom : (Nat.toDigits base.toNat x.toNat).length ≤ room) :
    storeDigits base room x = .ok ((Nat.toDigits base.toNat x.toNat).reverse.map charByte) := by
  induction room generalizing x with
  | zero =>
    have := Nat.length_toDigits_pos (b := base.toNat) (n := x.toNat)
    omega
  | succ room ih =>
    have hmod : (x % base).toNat = x.toNat % base.toNat := BitVec.toNat_umod
    have hdiv : (x / base).toNat = x.toNat / base.toNat := BitVec.toNat_udiv
    have hlt : x.toNat % base.toNat < 16 := (Nat.mod_lt _ (by omega)).trans_le hbase'
    rw [storeDigits, hmod, digit_eq hlt]
    rcases Nat.lt_or_ge x.toNat base.toNat with hsmall | hlarge
    · -- the last digit
      have hzero : x / base = 0 :=
        BitVec.eq_of_toNat_eq (by rw [hdiv, Nat.div_eq_of_lt hsmall]; rfl)
      rw [if_neg (by rw [hzero]; exact fun h => h rfl), Nat.toDigits_of_lt_base hsmall,
        Nat.mod_eq_of_lt hsmall]
      rfl
    · have hne : x / base ≠ 0 := by
        intro hzero
        have hpos := Nat.div_pos hlarge (by omega)
        rw [← hdiv, hzero] at hpos
        cases hpos
      -- the first digit stored is the last one of the numeral
      have hdigits := Nat.toDigits_of_base_le hbase hlarge
      rw [hdigits, List.length_append, ← hdiv] at hroom
      rw [if_pos hne, ih _ (Nat.le_of_succ_le_succ hroom), hdigits, hdiv, List.reverse_append]
      rfl

/-- Sixteen bytes are enough for the digits of any 32-bit value. -/
theorem storeDigits_printBuf (hbase : base = 10 ∨ base = 16) (x : BitVec 32) :
    storeDigits base printBuf x =
      .ok ((Nat.toDigits base.toNat x.toNat).reverse.map charByte) := by
  have hlt := x.isLt
  have hsize : 1 < base.toNat ∧ base.toNat ≤ 16 ∧ 2 ^ 32 ≤ base.toNat ^ printBuf := by
    rcases hbase with rfl | rfl <;> decide
  apply storeDigits_eq hsize.1 hsize.2.1
  exact (Nat.length_toDigits_le_iff hsize.1 (by decide)).mpr (hlt.trans_le hsize.2.2)

/-- `printint` never finds a sign, and prints the low half of its argument. -/
theorem printint_eq_putChars (xx : BitVec 64) (sign : Bool) (hbase : base = 10 ∨ base = 16)
    (t : Terminal) : printint xx base sign t =
      putChars ((Nat.toDigits base.toNat (xx.setWidth 32).toNat).map charByte) t := by
  have hnot : ¬xx < 0 := BitVec.not_lt_zero
  have hsign : (sign && decide (xx < 0)) = false := by
    rw [decide_eq_false hnot, Bool.and_false]
  simp only [printint, hsign, Bool.false_eq_true, if_false, storeDigits_printBuf hbase]
  change putChars ((_ : List Char).reverse.map charByte).reverse t = _
  rw [List.map_reverse, List.reverse_reverse]

/-- `printint` prints the lower 32 bits as a natural number. -/
theorem printint_eq (xx : BitVec 64) (sign : Bool) (hbase : base = 10 ∨ base = 16)
    (ht : t.errorOccurred = false) : printint xx base sign t =
      .ok (t.send ((Nat.toDigits base.toNat (xx.setWidth 32).toNat).map charByte)) := by
  rw [printint_eq_putChars xx sign hbase, putChars_eq _ ht]

/-- Sending characters can only hang. -/
theorem putChars_ne_outOfBounds (str : List (BitVec 8)) (t : Terminal) :
    putChars str t ≠ .error .outOfBounds := by
  induction str generalizing t with
  | nil =>
    intro h
    cases h
  | cons c str ih =>
    rw [putChars]
    rcases consputc_cases (c.setWidth 32) t with ⟨sent, hok⟩ | ⟨-, hhang⟩
    · rw [hok]
      exact ih _
    · rw [hhang]
      intro h
      cases h

/-! ### Numerals -/

/-- The digits of a number are below its base. -/
theorem mem_toDigits {b : ℕ} (hb : 1 < b) (n : ℕ) {c : Char} (hc : c ∈ Nat.toDigits b n) :
    ∃ d < b, c = Nat.digitChar d := by
  induction n using Nat.strong_induction_on with
  | _ n ih =>
    rcases Nat.lt_or_ge n b with hlt | hge
    · rw [Nat.toDigits_of_lt_base hlt, List.mem_singleton] at hc
      exact ⟨n, hlt, hc⟩
    · rw [Nat.toDigits_of_base_le hb hge, List.mem_append, List.mem_singleton] at hc
      rcases hc with hc | hc
      · exact ih (n / b) (Nat.div_lt_self (by omega) hb) hc
      · exact ⟨n % b, Nat.mod_lt _ (by omega), hc⟩

/-- The bytes of a numeral have no minus sign in them. -/
theorem minus_not_mem {b : ℕ} (hb : 1 < b) (hb' : b ≤ 16) (n : ℕ) :
    charByte '-' ∉ (Nat.toDigits b n).map charByte := by
  intro hmem
  obtain ⟨c, hc, heq⟩ := List.mem_map.mp hmem
  obtain ⟨d, hd, rfl⟩ := mem_toDigits hb n hc
  have hall : ∀ d < 16, charByte (Nat.digitChar d) ≠ charByte '-' := by decide
  exact hall d (by omega) heq

/-- A decimal numeral is known from its bytes. -/
theorem toDigits_injective {m n : ℕ}
    (h : (Nat.toDigits 10 m).map charByte = (Nat.toDigits 10 n).map charByte) : m = n := by
  have hback (k : ℕ) :
      ((Nat.toDigits 10 k).map charByte).map (fun b => Char.ofNat b.toNat) = Nat.toDigits 10 k := by
    rw [List.map_map]
    refine (List.map_congr_left fun c hc => ?_).trans (List.map_id _)
    obtain ⟨d, hd, rfl⟩ := mem_toDigits (by decide) k hc
    have hall : ∀ d < 10, Char.ofNat (charByte (Nat.digitChar d)).toNat = Nat.digitChar d := by
      decide
    exact hall d hd
  have hdigits : Nat.toDigits 10 m = Nat.toDigits 10 n := by rw [← hback m, h, hback n]
  have hvalue := congrArg (fun cs => Nat.ofDigitChars 10 cs 0) hdigits
  simpa only [Nat.ofDigitChars_ten_toDigits] using hvalue

/-- The numeral of a natural number. -/
theorem numeral_natCast (b n : ℕ) : numeral b n = Nat.toDigits b n := by
  rw [numeral, if_neg (by omega), List.nil_append, Int.natAbs_natCast]

/-- The numeral of a negative number. -/
theorem numeral_of_neg (b : ℕ) {v : ℤ} (hv : v < 0) :
    numeral b v = '-' :: Nat.toDigits b v.natAbs := by
  rw [numeral, if_pos hv]
  rfl

/-! ### Conversions -/

/-- A conversion that sends characters prints them. -/
theorem prints_of_conversion {c : Char} {arg : PrintfArg} {out : List Char}
    (h : ∀ args t, t.errorOccurred = false →
      conversion (charByte c) (arg :: args) t = .ok (args, t.send (out.map charByte))) :
    Prints c arg out := by
  intro fmt args t ht
  rw [printfLoop, if_neg (fun hne => hne rfl), h args t ht]
  rfl

/-- A conversion behind plain text prints after the text. -/
theorem Prints.printf {c : Char} {arg : PrintfArg} {out : List Char} (h : Prints c arg out)
    {text : List (BitVec 8)} (htext : ∀ x ∈ text, x ≠ charByte '%') (fmt : List (BitVec 8))
    (args : List PrintfArg) (ht : t.errorOccurred = false) :
    R5O5.printf (some (text ++ charByte '%' :: charByte c :: fmt)) (arg :: args) t =
      printfLoop fmt args (t.send (text ++ out.map charByte)) := by
  rw [R5O5.printf]
  induction text generalizing t with
  | nil => exact h fmt args t ht
  | cons x text ih =>
    rw [List.cons_append, printfLoop.eq_def]
    dsimp only
    rw [if_pos (htext x List.mem_cons_self), consputc_byte x ht, Except.ok_bind]
    refine (ih (t := t.send [x]) (fun y hy => htext y (List.mem_cons_of_mem x hy)) ht).trans ?_
    rw [Terminal.send_send]
    rfl

/-- What a conversion prints is unique. -/
theorem Prints.unique {c : Char} {arg : PrintfArg} {out out' : List Char}
    (h : Prints c arg out) (h' : Prints c arg out') :
    out.map charByte = out'.map charByte := by
  let t : Terminal :=
    { cons := { buf := fun _ => 0, r := 0, w := 0, e := 0 }
      errorOccurred := false
      sent := [] }
  have heq := (h [] [] t rfl).symm.trans (h' [] [] t rfl)
  have hsent := congrArg Terminal.sent (Except.ok.inj heq)
  exact hsent

/-- Extending an `int` and truncating it again gives it back. -/
theorem setWidth_signExtend_int (v : BitVec 32) : (v.signExtend 64).setWidth 32 = v := by
  ext i hi
  rw [BitVec.getElem_setWidth, BitVec.getLsbD_signExtend, decide_eq_true (by omega : i < 64),
    Bool.true_and, if_pos hi, BitVec.getLsbD_eq_getElem hi]

theorem prints_d (v : BitVec 32) : Prints 'd' (.int v) (Nat.toDigits 10 v.toNat) := by
  apply prints_of_conversion
  intro args t ht
  rw [conversion, if_pos rfl]
  change (do return (args, ← printint (v.signExtend 64) 10 true t)) = _
  rw [printint_eq _ _ (Or.inl rfl) ht, setWidth_signExtend_int]
  rfl

theorem prints_x (v : BitVec 32) : Prints 'x' (.int v) (Nat.toDigits 16 v.toNat) := by
  apply prints_of_conversion
  intro args t ht
  rw [conversion, if_neg (by decide), if_pos rfl]
  change (do return (args, ← printint (v.signExtend 64) 16 true t)) = _
  rw [printint_eq _ _ (Or.inr rfl) ht, setWidth_signExtend_int]
  rfl

theorem prints_l (v : BitVec 64) : Prints 'l' (.uint64 v) (Nat.toDigits 10 (v.toNat % 2 ^ 32)) := by
  apply prints_of_conversion
  intro args t ht
  rw [conversion, if_neg (by decide), if_neg (by decide), if_neg (by decide), if_pos rfl]
  change (do return (args, ← printint v 10 true t)) = _
  rw [printint_eq _ _ (Or.inl rfl) ht, BitVec.toNat_setWidth]
  rfl

/-- The digits that `printptr` prints, `left` of them. -/
def ptrDigits : ℕ → BitVec 64 → List ℕ
  | 0, _ => []
  | left + 1, x => (x >>> 60).toNat :: ptrDigits left (x <<< 4)

/-- An address has as many digits as are asked for. -/
theorem length_ptrDigits (left : ℕ) (x : BitVec 64) : (ptrDigits left x).length = left := by
  induction left generalizing x with
  | zero => rfl
  | succ left ih => rw [ptrDigits, List.length_cons, ih]

theorem ptrDigits_lt (left : ℕ) (x : BitVec 64) : ∀ d ∈ ptrDigits left x, d < 16 := by
  induction left generalizing x with
  | zero =>
    intro d hd
    cases hd
  | succ left ih =>
    intro d hd
    rw [ptrDigits, List.mem_cons] at hd
    rcases hd with rfl | hd
    · have hlt := x.isLt
      rw [BitVec.toNat_ushiftRight, Nat.shiftRight_eq_div_pow]
      omega
    · exact ih _ d hd

/-- The digits printed so far are the leading ones. -/
theorem ofDigits_ptrDigits (left : ℕ) (x : BitVec 64) (hleft : left ≤ 16) :
    Nat.ofDigits 16 (ptrDigits left x).reverse = x.toNat / 16 ^ (16 - left) := by
  induction left generalizing x with
  | zero => exact (Nat.div_eq_of_lt x.isLt).symm
  | succ left ih =>
    have hpow : 16 ^ (16 - (left + 1)) * 16 = 16 ^ (16 - left) := by
      rw [← Nat.pow_succ]
      congr 1
      omega
    -- the digits left make up 60 bits, and `x >>> 60` is the next one
    have hall : 16 ^ (16 - (left + 1)) * 16 ^ left = 2 ^ 60 := by
      rw [← Nat.pow_add, show 16 - (left + 1) + left = 15 by omega]
      rfl
    have hpos : 0 < 16 ^ (16 - (left + 1)) := Nat.pow_pos (by decide)
    have hshift : (x <<< 4).toNat = x.toNat % 2 ^ 60 * 16 := by
      rw [BitVec.toNat_shiftLeft, Nat.shiftLeft_eq]
      omega
    have hdigit : (x >>> 60).toNat = x.toNat / 2 ^ 60 := by
      rw [BitVec.toNat_ushiftRight, Nat.shiftRight_eq_div_pow]
    have hsplit : x.toNat = x.toNat % 2 ^ 60 +
        16 ^ (16 - (left + 1)) * (16 ^ left * (x.toNat / 2 ^ 60)) := by
      rw [← Nat.mul_assoc, hall, Nat.mod_add_div]
    rw [ptrDigits, List.reverse_cons, Nat.ofDigits_append, List.length_reverse, length_ptrDigits,
      ih _ (by omega), hshift, hdigit, ← hpow, Nat.mul_div_mul_right _ _ (by decide)]
    conv_rhs => rw [hsplit, Nat.add_mul_div_left _ _ hpos]
    rw [Nat.ofDigits_singleton]

/-- The loop of `printptr` prints the digits of an address. -/
theorem printptrLoop_eq (left : ℕ) (x : BitVec 64) (ht : t.errorOccurred = false) :
    printptrLoop left x t =
      .ok (t.send (((ptrDigits left x).map Nat.digitChar).map charByte)) := by
  induction left generalizing x t with
  | zero =>
    rw [printptrLoop, Terminal.send]
    exact congrArg Except.ok (by rw [ptrDigits, List.map_nil, List.map_nil, List.append_nil])
  | succ left ih =>
    have hlt := ptrDigits_lt (left + 1) x _ List.mem_cons_self
    rw [printptrLoop, consputc_byte _ ht]
    change printptrLoop left (x <<< 4) (t.send [_]) = _
    rw [ih (t := t.send [_]) _ ht, Terminal.send_send, digit_eq hlt]
    rfl

/-- `%p` prints an address with all its digits. -/
theorem prints_p (v : BitVec 64) :
    Prints 'p' (.uint64 v) ('0' :: 'x' :: (ptrDigits 16 v).map Nat.digitChar) := by
  apply prints_of_conversion
  intro args t ht
  have hzero : charCode '0' = (charByte '0').setWidth 32 := by decide
  have hx : charCode 'x' = (charByte 'x').setWidth 32 := by decide
  have hptr : printptr v t =
      .ok (((t.send [charByte '0']).send [charByte 'x']).send
        (((ptrDigits 16 v).map Nat.digitChar).map charByte)) := by
    rw [printptr, hzero, consputc_byte _ ht, Except.ok_bind, hx,
      consputc_byte (t := t.send [charByte '0']) _ ht, Except.ok_bind,
      printptrLoop_eq (t := (t.send [charByte '0']).send [charByte 'x']) _ _ ht]
  rw [conversion, if_neg (by decide), if_neg (by decide), if_pos rfl]
  show printptr v t >>= _ = _
  rw [hptr, Except.ok_bind, Terminal.send_send, Terminal.send_send, List.map_cons, List.map_cons]
  rfl

/-- A signed conversion that prints the digits of the pattern is right for a positive argument
only. -/
theorem prints_numeral_iff {c : Char} {b : ℕ} (hb : 1 < b) (hb' : b ≤ 16) {v : BitVec 32}
    (h : Prints c (.int v) (Nat.toDigits b v.toNat)) :
    Prints c (.int v) (numeral b v.toInt) ↔ 0 ≤ v.toInt := by
  constructor
  · intro hnumeral
    by_contra hneg
    have hout := h.unique hnumeral
    rw [numeral_of_neg b (by omega)] at hout
    exact minus_not_mem hb hb' v.toNat (hout ▸ List.mem_cons_self)
  · intro hpos
    have hv : v.toInt = v.toNat := by
      rw [BitVec.toInt_eq_toNat_cond] at *
      split_ifs at * <;> omega
    rw [hv, numeral_natCast]
    exact h

/-- `%d` and `%x` print the numeral of their argument exactly when it is not negative, `%l` exactly
when it is below `2 ^ 32`; `%p` always prints its argument. The digits always fit in the buffer. -/
theorem printf_numbers (v : BitVec 32) (w : BitVec 64) :
    (Prints 'd' (.int v) (numeral 10 v.toInt) ↔ 0 ≤ v.toInt) ∧
    (Prints 'x' (.int v) (numeral 16 v.toInt) ↔ 0 ≤ v.toInt) ∧
    (w.toNat < 2 ^ 63 →
      (Prints 'l' (.uint64 w) (numeral 10 w.toNat) ↔ w.toNat < 2 ^ 32)) ∧
    (∃ ds : List ℕ, ds.length = 16 ∧ (∀ d ∈ ds, d < 16) ∧
      Nat.ofDigits 16 ds.reverse = w.toNat ∧
      Prints 'p' (.uint64 w) ('0' :: 'x' :: ds.map Nat.digitChar)) ∧
    ∀ base sign t, base = 10 ∨ base = 16 → printint w base sign t ≠ .error .outOfBounds := by
  refine ⟨?_, ?_, fun _ => ?_, ?_, fun base sign t hbase => ?_⟩
  · exact prints_numeral_iff (by decide) (by decide) (prints_d v)
  · exact prints_numeral_iff (by decide) (by decide) (prints_x v)
  -- `%l` prints the last 32 bits
  · rw [numeral_natCast]
    constructor
    · intro hnumeral
      have heq := toDigits_injective ((prints_l w).unique hnumeral)
      rw [← heq]
      exact Nat.mod_lt _ (by decide)
    · intro hlt
      have hprints := prints_l w
      rwa [Nat.mod_eq_of_lt hlt] at hprints
  -- `%p` shifts out all 64 bits
  · refine ⟨ptrDigits 16 w, length_ptrDigits 16 w, ptrDigits_lt 16 w, ?_, prints_p w⟩
    rw [ofDigits_ptrDigits 16 w (by decide), Nat.sub_self, Nat.pow_zero, Nat.div_one]
  · rw [printint_eq_putChars w sign hbase]
    exact putChars_ne_outOfBounds _ t

/-- `%d` of -1 prints 4294967295. -/
theorem printf_minus_one :
    ¬∀ v : BitVec 32, Prints 'd' (.int v) (numeral 10 v.toInt) := by
  intro h
  have hout := (prints_d (-1)).unique (h (-1))
  exact absurd hout (by decide +kernel)

end Spec

end R5O5
