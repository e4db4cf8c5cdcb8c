import OsLabs.LibC.Stdio

/-!
# Integer conversions

`Spec` is an integer conversion as it is written in a format: flags, a width, a precision, the type of the argument and the
conversion character. `Spec.emitted` is what `__vprintf` makes of it. `emitted_eq` brings that down to `format_integer` with
the flags and numbers of the conversion, for every way of writing it.
-/

namespace OsLabs.LibC

open Lib

/-! ## Formats -/

/-- The flags of a conversion. -/
inductive Flag where
  | minus
  | plus
  | space
  | pound
  | zero
  | group
  deriving DecidableEq

def Flag.char : Flag → UInt8
  | .minus => 45
  | .plus => 43
  | .space => 32
  | .pound => 35
  | .zero => 48
  | .group => 39

/-- A width or a precision: digits, or `*` and its argument. -/
inductive Number where
  | digits (ds : List (Fin 10))
  | star (n : ℤ)

def digitChar (d : Fin 10) : UInt8 := UInt8.ofNat (48 + d)

def Number.text : Number → List UInt8
  | .digits ds => ds.map digitChar
  | .star _ => [42]

def Number.args : Number → List ℤ
  | .digits _ => []
  | .star n => [n]

/-- The number that digits stand for, or the argument. -/
def Number.exact : Number → ℤ
  | .digits ds => ofNumeral 10 0 (ds.map Fin.val)
  | .star n => n

/-- What is read is an `int`. -/
def Number.value : Number → ℤ
  | .digits ds => Int.bmod (ofNumeral 10 0 (ds.map Fin.val)) (2 ^ 32)
  | .star n => n

lemma Number.value_digits (ds : List (Fin 10)) :
    (Number.digits ds).value = Int.bmod (ofNumeral 10 0 (ds.map Fin.val)) (2 ^ 32) := rfl

def IntType.text : IntType → List UInt8
  | .char => [104, 104]
  | .short => [104]
  | .int => []
  | .intmax => [106]
  | .long => [108]
  | .longlong => [108, 108]
  | .ptrdifft => [116]
  | .sizet => [122]

/-- The conversions of integers. -/
inductive Kind where
  | d
  | i
  | o
  | u
  | x
  | upperX

def Kind.char : Kind → UInt8
  | .d => 100
  | .i => 105
  | .o => 111
  | .u => 117
  | .x => 120
  | .upperX => 88

def Kind.signed : Kind → Bool
  | .d | .i => true
  | _ => false

def Kind.base : Kind → IntegerBase
  | .d | .i | .u => baseD
  | .o => baseO
  | .x => baseLowerX
  | .upperX => baseUpperX

/-- An integer conversion. A zero at the start of the width would be a flag. -/
structure Spec where
  flags : List Flag
  width : Number
  width_ne_zero : ∀ ds, width ≠ .digits (0 :: ds)
  precision : Option Number
  type : IntType
  kind : Kind

namespace Spec

variable (s : Spec)

/-- What follows the width. -/
def tail : List UInt8 :=
  (match s.precision with
    | some n => 46 :: n.text
    | none => []) ++ (s.type.text ++ [s.kind.char])

def text : List UInt8 :=
  37 :: (s.flags.map Flag.char ++ (s.width.text ++ s.tail))

/-- The arguments for the width and the precision, and the number to convert. -/
def args (arg : ℤ) : List ℤ :=
  s.width.args ++ ((s.precision.elim [] Number.args) ++ [arg])

/-- What `__vprintf` puts out. -/
def emitted (arg : ℤ) : Option (List UInt8) :=
  vprintf s.text.length s.text (s.args arg)

/-- The precision, or a negative number if there is none. -/
def precisionValue : ℤ := s.precision.elim (-1) Number.value

/-- The conversion that is parsed. -/
def conversion : Conversion where
  minus := .minus ∈ s.flags ∨ s.width.value < 0
  plus := .plus ∈ s.flags
  space := .space ∈ s.flags ∧ .plus ∉ s.flags
  pound := .pound ∈ s.flags
  zero := .zero ∈ s.flags ∧ .minus ∉ s.flags ∧ s.precisionValue < 0
  group := .group ∈ s.flags
  width := if s.width.value < 0 then Int.bmod (-s.width.value) (2 ^ 32) else s.width.value
  precision := if s.precisionValue < 0 then -1 else s.precisionValue
  type := s.type

/-- The absolute value of the number to convert. -/
def magnitude (arg : ℤ) : ℕ :=
  if s.kind.signed then (Int.bmod arg (2 ^ s.type.bits)).natAbs else (arg % 2 ^ s.type.bits).toNat

def negative (arg : ℤ) : Bool :=
  s.kind.signed && Int.bmod arg (2 ^ s.type.bits) < 0

end Spec

/-! ## Parsing -/

def Conversion.set (c : Conversion) : Flag → Conversion
  | .minus => { c with minus := true }
  | .plus => { c with plus := true }
  | .space => { c with space := true }
  | .pound => { c with pound := true }
  | .zero => { c with zero := true }
  | .group => { c with group := true }

lemma foldl_set (c : Conversion) (flags : List Flag) : flags.foldl Conversion.set c =
    { c with
      minus := c.minus || decide (.minus ∈ flags)
      plus := c.plus || decide (.plus ∈ flags)
      space := c.space || decide (.space ∈ flags)
      pound := c.pound || decide (.pound ∈ flags)
      zero := c.zero || decide (.zero ∈ flags)
      group := c.group || decide (.group ∈ flags) } := by
  induction flags generalizing c with
  | nil => simp
  | cons f flags ih =>
    rw [List.foldl_cons, ih]
    cases f <;> simp [Conversion.set]

lemma parseFlags_cons (c : Conversion) (f : Flag) (format : List UInt8) :
    parseFlags c (f.char :: format) = parseFlags (c.set f) format := by
  cases f <;> rfl

variable {format : List UInt8}

lemma parseFlags_of_not_flag (c : Conversion) (h : ∀ f : Flag, format.head? ≠ some f.char) :
    parseFlags c format = (c, format) := by
  cases format with
  | nil => rfl
  | cons ch format =>
    have hne : ∀ (f : Flag) (b : UInt8), f.char = b → ch ≠ b := by
      intro f b hf hch
      exact h f (by rw [hf, hch]; rfl)
    rw [parseFlags, if_neg (hne .minus 45 rfl), if_neg (hne .plus 43 rfl), if_neg (hne .space 32 rfl),
      if_neg (hne .pound 35 rfl), if_neg (hne .zero 48 rfl), if_neg (hne .group 39 rfl)]

lemma parseFlags_flags (c : Conversion) (flags : List Flag)
    (h : ∀ f : Flag, format.head? ≠ some f.char) :
    parseFlags c (flags.map Flag.char ++ format) = (flags.foldl Conversion.set c, format) := by
  induction flags generalizing c with
  | nil => exact parseFlags_of_not_flag c h
  | cons f flags ih => rw [List.map_cons, List.cons_append, parseFlags_cons, ih, List.foldl_cons]

lemma digitChar_toNat (d : Fin 10) : (digitChar d).toNat = 48 + d := by
  revert d
  decide

lemma digitChar_isDigit (d : Fin 10) : 48 ≤ digitChar d ∧ digitChar d ≤ 57 := by
  revert d
  decide

lemma le_digitChar {d : Fin 10} (h : d ≠ 0) : 49 ≤ digitChar d := by
  revert d
  decide

lemma parseDigits_digits (v : ℕ) (ds : List (Fin 10))
    (h : ∀ ch ∈ format.head?, ¬(48 ≤ ch ∧ ch ≤ 57)) :
    parseDigits (Int.bmod v (2 ^ 32)) (ds.map digitChar ++ format) =
      (Int.bmod (ofNumeral 10 v (ds.map Fin.val)) (2 ^ 32), format) := by
  induction ds generalizing v with
  | nil =>
    cases format with
    | nil => rfl
    | cons ch format =>
      show parseDigits _ (ch :: format) = _
      rw [parseDigits, if_neg (h ch rfl)]
      rfl
  | cons d ds ih =>
    have hnext : Int.bmod (Int.bmod v (2 ^ 32) * 10 + (digitChar d).toNat - 48) (2 ^ 32) =
        Int.bmod ((d + v * 10 : ℕ) : ℤ) (2 ^ 32) := by
      rw [digitChar_toNat, add_sub_assoc, ← Int.bmod_add_bmod, Int.bmod_mul_bmod, Int.bmod_add_bmod]
      congr 1
      push_cast
      ring
    rw [List.map_cons, List.cons_append, parseDigits, if_pos (digitChar_isDigit d), hnext, ih]
    rfl

/-- A width or a precision is read to its end if no digit or star comes next. -/
lemma parseNumber_number (n : Number) (args : List ℤ)
    (h : ∀ ch ∈ format.head?, ch ≠ 42 ∧ ¬(48 ≤ ch ∧ ch ≤ 57)) :
    parseNumber (n.args ++ args) (n.text ++ format) = some (n.value, format, args) := by
  cases n with
  | star n => rfl
  | digits ds =>
    have hparse := parseDigits_digits 0 ds fun ch hch => (h ch hch).2
    have hstar : ∀ rest, ds.map digitChar ++ format ≠ 42 :: rest := by
      intro rest heq
      cases ds with
      | nil =>
        have hhead : (42 : UInt8) ∈ format.head? := by
          rw [show format = 42 :: rest from heq]
          rfl
        exact (h 42 hhead).1 rfl
      | cons d ds =>
        have hd : digitChar d = 42 := (List.cons.inj heq).1
        have hdigit := (digitChar_isDigit d).1
        rw [hd] at hdigit
        exact absurd hdigit (by decide)
    show parseNumber args (ds.map digitChar ++ format) = _
    rw [parseNumber, show (0 : ℤ) = Int.bmod (0 : ℕ) (2 ^ 32) from rfl, hparse]
    · rfl
    · exact hstar

/-- `parse_conversion`, from what its parts read. -/
lemma parseConversion_eq {c : Conversion} {format f₁ f₂ f₃ f₄ : List UInt8} {args a₂ a₃ : List ℤ} {w p : ℤ} {t : IntType}
    (h₁ : parseFlags {} format = (c, f₁)) (h₂ : parseNumber args f₁ = some (w, f₂, a₂))
    (h₃ : (∃ f, f₂ = 46 :: f ∧ parseNumber a₂ f = some (p, f₃, a₃)) ∨
      (∀ f, f₂ ≠ 46 :: f) ∧ p = -1 ∧ f₃ = f₂ ∧ a₃ = a₂) (h₄ : parseType f₃ = (t, f₄)) :
    parseConversion format args = some ({ c with
      minus := c.minus || decide (w < 0)
      space := c.space && !c.plus
      zero := c.zero && !c.minus && decide (p < 0)
      width := if w < 0 then Int.bmod (-w) (2 ^ 32) else w
      precision := if p < 0 then -1 else p
      type := t }, f₄, a₃) := by
  obtain ⟨minus, plus, space, pound, zero, group, width, precision, type⟩ := c
  have hpos : ¬(p < 0) → 0 ≤ p := not_lt.mp
  unfold parseConversion
  rw [h₁]
  rcases h₃ with ⟨f, rfl, hf⟩ | ⟨hf, rfl, rfl, rfl⟩
  · cases minus <;> cases plus <;> by_cases hw : w < 0 <;> by_cases hp : p < 0 <;>
      simp [h₂, hf, h₄, hw, hp, hpos]
  · cases minus <;> cases plus <;> by_cases hw : w < 0 <;>
      simp [h₂, h₄, hw]

lemma parseType_text (t : IntType) (k : Kind) : parseType (t.text ++ [k.char]) = (t, [k.char]) := by
  cases t <;> cases k <;> rfl

/-- What comes after the width and the precision is a letter. -/
lemma head_type (t : IntType) (k : Kind) : ∀ ch ∈ (t.text ++ [k.char]).head?, 88 ≤ ch := by
  intro ch hch
  cases t <;> cases k <;> cases hch <;> decide

namespace Spec

variable (s : Spec)

/-- What comes after the width is a period or a letter. -/
lemma head_tail : ∀ ch ∈ s.tail.head?, ch = 46 ∨ 88 ≤ ch := by
  intro ch hch
  unfold tail at hch
  cases hp : s.precision with
  | none =>
    rw [hp] at hch
    exact Or.inr (head_type s.type s.kind ch hch)
  | some n =>
    rw [hp] at hch
    exact Or.inl (Option.some.inj hch).symm

/-- What comes after the flags is a digit that is not zero, a star, a period or a letter. -/
lemma head_width {ch : UInt8} (hch : (s.width.text ++ s.tail).head? = some ch) :
    49 ≤ ch ∨ ch = 42 ∨ ch = 46 := by
  cases hw : s.width with
  | star n =>
    rw [hw] at hch
    exact Or.inr (Or.inl (Option.some.inj hch).symm)
  | digits ds =>
    rw [hw] at hch
    cases ds with
    | nil =>
      rcases s.head_tail ch hch with hperiod | hletter
      · exact Or.inr (Or.inr hperiod)
      · exact Or.inl (UInt8.le_trans (by decide) hletter)
    | cons d ds =>
      have hd : d ≠ 0 := by
        intro hzero
        rw [hzero] at hw
        exact s.width_ne_zero ds hw
      rw [show ch = digitChar d from (Option.some.inj hch).symm]
      exact Or.inl (le_digitChar hd)

lemma head_ne_flag (f : Flag) : (s.width.text ++ s.tail).head? ≠ some f.char := by
  intro hf
  have hhead := s.head_width hf
  cases f <;> exact absurd hhead (by decide)

lemma format_ne_percent (format : List UInt8) :
    s.flags.map Flag.char ++ (s.width.text ++ s.tail) ≠ 37 :: format := by
  intro heq
  cases hflags : s.flags with
  | nil =>
    rw [hflags] at heq
    have hhead : (s.width.text ++ s.tail).head? = some 37 := by
      rw [show s.width.text ++ s.tail = 37 :: format from heq]
      rfl
    exact absurd (s.head_width hhead) (by decide)
  | cons f flags =>
    rw [hflags] at heq
    have hf : f.char = 37 := (List.cons.inj heq).1
    cases f <;> exact absurd hf (by decide)

/-- Letters are neither stars nor digits. -/
lemma not_number_of_le {ch : UInt8} (h : 88 ≤ ch) : ch ≠ 42 ∧ ¬(48 ≤ ch ∧ ch ≤ 57) := by
  have hlt : ∀ b : UInt8, b < 88 → b < ch := fun b hb => UInt8.lt_of_lt_of_le hb h
  refine ⟨(UInt8.ne_of_lt (hlt 42 (by decide))).symm, fun hdigit => ?_⟩
  exact absurd hdigit.2 (UInt8.not_le.mpr (hlt 57 (by decide)))

lemma parseConversion_text (arg : ℤ) :
    parseConversion (s.flags.map Flag.char ++ (s.width.text ++ s.tail)) (s.args arg) =
      some (s.conversion, [s.kind.char], [arg]) := by
  have hwidth : parseNumber (s.args arg) (s.width.text ++ s.tail) =
      some (s.width.value, s.tail, s.precision.elim [] Number.args ++ [arg]) := by
    apply parseNumber_number
    intro ch hch
    rcases s.head_tail ch hch with rfl | hle
    · decide
    · exact not_number_of_le hle
  have hprecision : (∃ f, s.tail = 46 :: f ∧ parseNumber (s.precision.elim [] Number.args ++ [arg]) f =
        some (s.precisionValue, s.type.text ++ [s.kind.char], [arg])) ∨
      (∀ f, s.tail ≠ 46 :: f) ∧ s.precisionValue = -1 ∧ s.type.text ++ [s.kind.char] = s.tail ∧
        [arg] = s.precision.elim [] Number.args ++ [arg] := by
    have hletter := head_type s.type s.kind
    unfold tail precisionValue
    cases s.precision with
    | none =>
      refine Or.inr ⟨fun f hf => ?_, rfl, rfl, rfl⟩
      -- a letter is not a period
      rw [show s.type.text ++ [s.kind.char] = 46 :: f from hf] at hletter
      exact absurd (hletter 46 rfl) (by decide)
    | some n =>
      refine Or.inl ⟨n.text ++ (s.type.text ++ [s.kind.char]), rfl, ?_⟩
      exact parseNumber_number n [arg] fun ch hch => not_number_of_le (hletter ch hch)
  rw [parseConversion_eq (parseFlags_flags _ _ s.head_ne_flag) hwidth hprecision (parseType_text s.type s.kind), foldl_set]
  congr 2
  simp [conversion, Bool.and_assoc]

/-- The output of a conversion is that of `format_integer`. -/
lemma emitted_eq (arg : ℤ) :
    s.emitted arg = some (formatInteger (s.magnitude arg) s.kind.signed (s.negative arg) s.kind.base s.conversion) := by
  have hformat : formatArg s.conversion s.kind.char arg =
      some (formatInteger (s.magnitude arg) s.kind.signed (s.negative arg) s.kind.base s.conversion) := by
    unfold magnitude negative
    cases s.kind <;> rfl
  unfold emitted text
  rw [List.length_cons, vprintf, s.parseConversion_text arg, Option.bind_eq_bind, Option.bind_some]
  · dsimp only
    rw [hformat, Option.bind_eq_bind, Option.bind_some, vprintf, Option.bind_some, List.append_nil]
    rfl
  · exact s.format_ne_percent

end Spec

end OsLabs.LibC
