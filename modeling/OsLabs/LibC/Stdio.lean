import OsLabs.Lib.CString
import OsLabs.Lib.Numeral

/-!
# Formatted output

`parse_conversion` and `format_integer` of `lib/stdio.c`, and as much of `__vprintf` as prints integers. The conversions `%c`,
`%s` and `%p` are left out. Text is a list of bytes. Widths and precisions are of type `int` and wrap around like it.

`formatInteger_padded` says what a field of zeros and digits of a fixed width looks like.
-/

namespace OsLabs.LibC

open Lib

/-! ## Conversions -/

/-- The types of integer arguments. -/
inductive IntType where
  | char
  | short
  | int
  | intmax
  | long
  | longlong
  | ptrdifft
  | sizet

/-- The number of bits of an argument. -/
def IntType.bits : IntType → ℕ
  | .char => 8
  | .short => 16
  | .int | .long | .ptrdifft | .sizet => 32
  | .intmax | .longlong => 64

/-- `struct printf_conversion`. -/
structure Conversion where
  minus : Bool := false
  plus : Bool := false
  space : Bool := false
  pound : Bool := false
  zero : Bool := false
  group : Bool := false
  width : ℤ := 0
  precision : ℤ := -1
  type : IntType := .int

/-- The loop over the flag characters. -/
def parseFlags (c : Conversion) : List UInt8 → Conversion × List UInt8
  | [] => (c, [])
  | ch :: format =>
    if ch = 45 then parseFlags { c with minus := true } format
    else if ch = 43 then parseFlags { c with plus := true } format
    else if ch = 32 then parseFlags { c with space := true } format
    else if ch = 35 then parseFlags { c with pound := true } format
    else if ch = 48 then parseFlags { c with zero := true } format
    else if ch = 39 then parseFlags { c with group := true } format
    else (c, ch :: format)

/-- The digits of a width or a precision. -/
def parseDigits (n : ℤ) : List UInt8 → ℤ × List UInt8
  | [] => (n, [])
  | ch :: format =>
    if 48 ≤ ch ∧ ch ≤ 57 then parseDigits (Int.bmod (n * 10 + ch.toNat - 48) (2 ^ 32)) format else (n, ch :: format)

/-- A width or a precision: an argument for `*`, or digits. -/
def parseNumber (args : List ℤ) : List UInt8 → Option (ℤ × List UInt8 × List ℤ)
  | 42 :: format =>
    match args with
    | n :: args => some (n, format, args)
    | [] => none
  | format =>
    let (n, format) := parseDigits 0 format
    some (n, format, args)

/-- The letters for the type of the argument. -/
def parseType : List UInt8 → IntType × List UInt8
  | 104 :: 104 :: format => (.char, format)
  | 104 :: format => (.short, format)
  | 106 :: format => (.intmax, format)
  | 108 :: 108 :: format => (.longlong, format)
  | 108 :: format => (.long, format)
  | 116 :: format => (.ptrdifft, format)
  | 122 :: format => (.sizet, format)
  | format => (.int, format)

/-- `parse_conversion`: the conversion, and what is left of the format and of the arguments. `none` if an argument is
missing. -/
def parseConversion (format : List UInt8) (args : List ℤ) : Option (Conversion × List UInt8 × List ℤ) := do
  let (c, format) := parseFlags {} format
  let c := if c.minus then { c with zero := false } else c
  let c := if c.plus then { c with space := false } else c
  let (width, format, args) ← parseNumber args format
  let c : Conversion := if width < 0 then { c with width := Int.bmod (-width) (2 ^ 32), minus := true } else { c with width }
  let (precision, format, args) ←
    match format with
    | 46 :: format => parseNumber args format
    | format => some (-1, format, args)
  let c : Conversion := { c with precision := if precision < 0 then -1 else precision }
  let c := if 0 ≤ c.precision then { c with zero := false } else c
  let (type, format) := parseType format
  return ({ c with type }, format, args)

/-! ## Integers -/

/-- `struct integer_base`. -/
structure IntegerBase where
  base : ℕ
  digits : List UInt8
  x : UInt8
  group : ℕ

def lowerDigits : List UInt8 :=
  [48, 49, 50, 51, 52, 53, 54, 55, 56, 57, 97, 98, 99, 100, 101, 102]

def upperDigits : List UInt8 :=
  [48, 49, 50, 51, 52, 53, 54, 55, 56, 57, 65, 66, 67, 68, 69, 70]

def baseD : IntegerBase := ⟨10, lowerDigits.take 10, 0, 3⟩

def baseO : IntegerBase := ⟨8, lowerDigits.take 8, 0, 3⟩

def baseLowerX : IntegerBase := ⟨16, lowerDigits, 120, 4⟩

def baseUpperX : IntegerBase := ⟨16, upperDigits, 88, 4⟩

/-- The character for a digit. -/
def IntegerBase.char (b : IntegerBase) (d : ℕ) : UInt8 :=
  b.digits.getD d 0

/-- The loop of `format_integer` over the digits, from the last one. `buf` has room for 64 characters. -/
def accumulateDigits (b : IntegerBase) (group : Bool) : ℕ → ℕ → ℕ → List UInt8
  | 0, _, _ => []
  | room + 1, value, digitCnt =>
    if value > 0 then
      (if group && digitCnt > 0 && digitCnt % b.group = 0 then [44] else []) ++
        b.char (value % b.base) :: accumulateDigits b group room (value / b.base) (digitCnt + 1)
    else []

/-- `sign` of `format_integer`. -/
def signChar (c : Conversion) (isSigned negative : Bool) : Option UInt8 :=
  if isSigned then
    if c.plus then some (if negative then 45 else 43)
    else if c.space then some (if negative then 45 else 32)
    else if negative then some 45
    else none
  else none

/-- `format_integer`. -/
def formatInteger (value : ℕ) (isSigned negative : Bool) (b : IntegerBase) (c : Conversion) : List UInt8 :=
  let sign := signChar c isSigned negative
  let x := if c.pound && value ≠ 0 then b.x else 0
  let buf := accumulateDigits b c.group 64 value 0
  let precision := if c.precision < 0 then 1 else c.precision.toNat
  let buf := buf ++ List.replicate (min precision 63 - buf.length) 48
  let buf := if c.pound && b.base = 8 && buf.getLast? ≠ some 48 then buf ++ [48] else buf
  let padCnt :=
    (Int.bmod (c.width - buf.length - (if x ≠ 0 then 2 else 0) - (if sign.isSome then 1 else 0)) (2 ^ 32)).toNat
  (if c.minus || c.zero then [] else List.replicate padCnt 32) ++ sign.toList ++ (if x ≠ 0 then [48, x] else []) ++
    (if c.zero then List.replicate padCnt 48 else []) ++ buf.reverse ++ (if c.minus then List.replicate padCnt 32 else [])

/-- One conversion of an integer in `__vprintf`; `none` for other conversions. -/
def formatArg (c : Conversion) (ch : UInt8) (arg : ℤ) : Option (List UInt8) :=
  let value := (arg % 2 ^ c.type.bits).toNat
  if ch = 100 ∨ ch = 105 then
    let signed := Int.bmod arg (2 ^ c.type.bits)
    some (formatInteger signed.natAbs true (signed < 0) baseD c)
  else if ch = 111 then some (formatInteger value false false baseO c)
  else if ch = 117 then some (formatInteger value false false baseD c)
  else if ch = 120 then some (formatInteger value false false baseLowerX c)
  else if ch = 88 then some (formatInteger value false false baseUpperX c)
  else none

/-- `__vprintf`, for formats with integers only; each round takes at least one character of the format. -/
def vprintf : ℕ → List UInt8 → List ℤ → Option (List UInt8)
  | _, [], _ => some []
  | 0, _ :: _, _ => none
  | fuel + 1, ch :: format, args =>
    if ch ≠ 37 then (vprintf fuel format args).map (ch :: ·)
    else
      match format with
      | 37 :: format => (vprintf fuel format args).map (37 :: ·)
      | format => do
        let (c, format, args) ← parseConversion format args
        match format, args with
        | ch :: format, arg :: args =>
          let text ← formatArg c ch arg
          let rest ← vprintf fuel format args
          return text ++ rest
        | _, _ => none

/-- `snprintf` to address `i`. -/
def snprintf (m : ℕ → UInt8) (i size : ℕ) (format : List UInt8) (args : List ℤ) : Option (ℕ → UInt8) := do
  let text ← vprintf format.length format args
  return if size > 0 then putString m i (text.take (size - 1)) else m

/-! ## Fields of digits -/

section Digits

variable {b : IntegerBase}

/-- The loop over the digits, with zeros in front, writes a numeral. -/
lemma accumulateDigits_padded (hb : 2 ≤ b.base) (hzero : b.char 0 = 48) {room w value : ℕ} (cnt : ℕ) (hw : w ≤ room)
    (hvalue : value < b.base ^ w) :
    (accumulateDigits b false room value cnt).length ≤ w ∧
    List.replicate (w - (accumulateDigits b false room value cnt).length) 48 ++
        (accumulateDigits b false room value cnt).reverse = (numeral b.base w value).map b.char := by
  induction w generalizing room value cnt with
  | zero =>
    obtain rfl : value = 0 := by simpa using hvalue
    cases room <;> exact ⟨Nat.le_refl 0, rfl⟩
  | succ w ih =>
    obtain ⟨room, rfl⟩ : ∃ r, room = r + 1 := ⟨room - 1, by omega⟩
    rw [accumulateDigits]
    by_cases hpos : value > 0
    · have hdiv : value / b.base < b.base ^ w := by
        rw [Nat.div_lt_iff_lt_mul (by omega)]
        exact hvalue
      obtain ⟨hlen, hih⟩ := ih (cnt + 1) (show w ≤ room by omega) hdiv
      rw [if_pos hpos]
      simp only [Bool.false_and, Bool.false_eq_true, if_false, List.nil_append, List.length_cons, List.reverse_cons]
      refine ⟨by omega, ?_⟩
      rw [Nat.add_sub_add_right, ← List.append_assoc, hih, numeral, List.map_append]
      rfl
    · obtain rfl : value = 0 := by omega
      rw [numeral_zero, List.map_replicate, hzero]
      exact ⟨Nat.zero_le _, List.append_nil _⟩

/-- A field of `w` digits, with zeros in front. -/
lemma formatInteger_padded (hb : 2 ≤ b.base) (hzero : b.char 0 = 48) {w value : ℕ} (hpos : 0 < w) (hw : w ≤ 63)
    (hvalue : value < b.base ^ w) :
    formatInteger value false false b { zero := true, width := w } = (numeral b.base w value).map b.char := by
  obtain ⟨hlen, hpad⟩ := accumulateDigits_padded hb hzero 0 (show w ≤ 64 by omega) hvalue
  unfold formatInteger signChar
  generalize accumulateDigits b false 64 value 0 = buf at hlen hpad ⊢
  simp only [Bool.false_and, Bool.false_eq_true, if_false, Bool.or_true, if_true, List.nil_append, List.append_nil,
    Option.toList_none, Option.isSome_none, ne_eq, not_true_eq_false]
  rw [← hpad]
  cases buf with
  | nil =>
    -- a zero is one digit
    have hcnt : (Int.bmod ((w : ℤ) - 1 - 0 - 0) (2 ^ 32)).toNat + 1 = w := by
      rw [Int.bmod_eq_of_le (by omega) (by omega)]
      omega
    show List.replicate (Int.bmod ((w : ℤ) - 1 - 0 - 0) (2 ^ 32)).toNat 48 ++ [48] = List.replicate (w - 0) 48 ++ []
    rw [← List.replicate_succ', hcnt, List.append_nil, Nat.sub_zero]
  | cons d ds =>
    have hprec : min (if (-1 : ℤ) < 0 then 1 else (-1 : ℤ).toNat) 63 - (d :: ds).length = 0 := by
      rw [if_pos (by decide), List.length_cons]
      omega
    have hcnt : (Int.bmod ((w : ℤ) - (d :: ds).length - 0 - 0) (2 ^ 32)).toNat = w - (d :: ds).length := by
      rw [Int.bmod_eq_of_le (by omega) (by omega)]
      omega
    rw [hprec, List.replicate_zero, List.append_nil, hcnt]

/-- The conversion of one number to a field of `w` octal digits. -/
lemma vprintf_octal {format : List UInt8} {w value fuel : ℕ} (hpos : 0 < w) (hw : w ≤ 63)
    (hformat : format.head? ≠ some 37)
    (hparse : parseConversion format [(value : ℤ)] = some ({ zero := true, width := w }, [111], [(value : ℤ)]))
    (hvalue : value < 8 ^ w) (hbits : value < 2 ^ 32) :
    vprintf (fuel + 1) (37 :: format) [(value : ℤ)] = some ((numeral 8 w value).map baseO.char) := by
  have harg : ((value : ℤ) % 2 ^ IntType.int.bits).toNat = value := by
    show ((value : ℤ) % 2 ^ 32).toNat = value
    omega
  have htext : formatArg { zero := true, width := w } 111 (value : ℤ) = some ((numeral 8 w value).map baseO.char) := by
    show some (formatInteger ((value : ℤ) % 2 ^ IntType.int.bits).toNat false false baseO { zero := true, width := w }) = _
    rw [harg, formatInteger_padded (by decide) rfl hpos hw hvalue]
    rfl
  have hne : ∀ rest, format = 37 :: rest → False := by
    intro rest hrest
    rw [hrest] at hformat
    exact hformat rfl
  rw [vprintf, hparse]
  · rw [Option.bind_eq_bind, Option.bind_some]
    dsimp only
    rw [htext, Option.bind_eq_bind, Option.bind_some, vprintf, Option.bind_some, List.append_nil]
    rfl
  · exact hne

end Digits

end OsLabs.LibC
