import Mathlib.Data.Nat.Digits.Lemmas
import OsLabs.LibC.Conversion

/-!
# Field widths

`format_integer` puts out the sign and the radix (`headText`), the digits (`digitsText`) and padding in up to three places
(`formatInteger_eq`). The padding is that of one place, unless both the flags `0` and `-` are left in the conversion. This is so
if a field with the flag `0` gets a negative width from the arguments: the flag `-` is then set after it was checked
(`field_width_iff`).
-/

namespace OsLabs.LibC

open Lib

/-! ## The parts of a field -/

/-- `x` of `format_integer`. -/
def radixChar (value : ℕ) (b : IntegerBase) (c : Conversion) : UInt8 :=
  if c.pound && value ≠ 0 then b.x else 0

/-- The sign and the radix. -/
def headText (value : ℕ) (isSigned negative : Bool) (b : IntegerBase) (c : Conversion) : List UInt8 :=
  (signChar c isSigned negative).toList ++ (if radixChar value b c ≠ 0 then [48, radixChar value b c] else [])

/-- The digits, the last one first, with zeros for the precision. -/
def digitsBuf (value : ℕ) (b : IntegerBase) (c : Conversion) : List UInt8 :=
  let buf := accumulateDigits b c.group 64 value 0
  let precision := if c.precision < 0 then 1 else c.precision.toNat
  let buf := buf ++ List.replicate (min precision 63 - buf.length) 48
  if c.pound && b.base = 8 && buf.getLast? ≠ some 48 then buf ++ [48] else buf

/-- The text of a field without padding. -/
def plainText (value : ℕ) (isSigned negative : Bool) (b : IntegerBase) (c : Conversion) : List UInt8 :=
  headText value isSigned negative b c ++ (digitsBuf value b c).reverse

/-- The number of pad characters. -/
def padCount (value : ℕ) (isSigned negative : Bool) (b : IntegerBase) (c : Conversion) : ℕ :=
  (Int.bmod (c.width - (plainText value isSigned negative b c).length) (2 ^ 32)).toNat

/-- The padding goes to up to three places. -/
lemma formatInteger_eq (value : ℕ) (isSigned negative : Bool) (b : IntegerBase) (c : Conversion) :
    formatInteger value isSigned negative b c =
      (if c.minus || c.zero then [] else List.replicate (padCount value isSigned negative b c) 32) ++
        headText value isSigned negative b c ++
        (if c.zero then List.replicate (padCount value isSigned negative b c) 48 else []) ++
        (digitsBuf value b c).reverse ++
        (if c.minus then List.replicate (padCount value isSigned negative b c) 32 else []) := by
  have hpad : padCount value isSigned negative b c = (Int.bmod (c.width - (digitsBuf value b c).length -
      (if radixChar value b c ≠ 0 then 2 else 0) - (if (signChar c isSigned negative).isSome then 1 else 0)) (2 ^ 32)).toNat := by
    unfold padCount plainText headText
    congr 2
    cases signChar c isSigned negative with
    | none =>
      split
      · simp
        omega
      · simp
    | some ch => split <;> simp <;> omega
  rw [hpad]
  unfold headText
  rw [← List.append_assoc]
  rfl

/-! ## The number of digits -/

section Digits

variable {b : IntegerBase} {group : Bool} {room value : ℕ}

/-- The digits of a number, and a comma in front of each group but the first. -/
lemma length_accumulateDigits (hb : 2 ≤ b.base) (cnt : ℕ) (h : value < b.base ^ room) :
    (accumulateDigits b group room value cnt).length = (Nat.digits b.base value).length +
      if group then (cnt + (Nat.digits b.base value).length - 1) / b.group - (cnt - 1) / b.group else 0 := by
  induction room generalizing value cnt with
  | zero =>
    obtain rfl : value = 0 := by simpa using h
    simp [accumulateDigits]
  | succ room ih =>
    rw [accumulateDigits]
    by_cases hpos : value > 0
    · have hdiv : value / b.base < b.base ^ room := by
        rw [Nat.div_lt_iff_lt_mul (by omega)]
        exact h
      rw [if_pos hpos, List.length_append, List.length_cons, ih (cnt + 1) hdiv, Nat.digits_def' (by omega) hpos, List.length_cons]
      generalize (Nat.digits b.base (value / b.base)).length = d
      cases group with
      | false => simp
      | true =>
        have hmono : cnt / b.group ≤ (cnt + d) / b.group := Nat.div_le_div_right (by omega)
        have hnext : cnt + 1 + d - 1 = cnt + d := by omega
        have hlast : cnt + (d + 1) - 1 = cnt + d := by omega
        rw [hnext, hlast]
        cases cnt with
        | zero => simp; omega
        | succ k =>
          -- one more comma where a group ends
          have hstep : (k + 1) / b.group = k / b.group + if b.group ∣ k + 1 then 1 else 0 := Nat.succ_div
          have hdvd : (k + 1) % b.group = 0 ↔ b.group ∣ k + 1 := Nat.dvd_iff_mod_eq_zero.symm
          simp only [Bool.true_and, if_true, Nat.add_sub_cancel, decide_eq_true_eq, Nat.succ_pos, decide_true, hdvd]
          split at hstep
          · rename_i hg'
            rw [if_pos hg', List.length_singleton]
            omega
          · rename_i hg'
            rw [if_neg hg', List.length_nil]
            omega
    · obtain rfl : value = 0 := by omega
      simp

/-- The first digit is not zero. -/
lemma getLast_accumulateDigits (hb : 2 ≤ b.base) (cnt : ℕ) (hpos : 0 < value) (h : value < b.base ^ room) :
    ∃ d, 0 < d ∧ d < b.base ∧ (accumulateDigits b group room value cnt).getLast? = some (b.char d) := by
  induction room generalizing value cnt with
  | zero =>
    rw [pow_zero] at h
    omega
  | succ room ih =>
    rw [accumulateDigits, if_pos hpos]
    have hdiv : value / b.base < b.base ^ room := by
      rw [Nat.div_lt_iff_lt_mul (by omega)]
      exact h
    by_cases hmore : 0 < value / b.base
    · obtain ⟨d, hd, hlt, hlast⟩ := ih (cnt + 1) hmore hdiv
      refine ⟨d, hd, hlt, ?_⟩
      rw [List.getLast?_append, List.getLast?_cons, hlast]
      rfl
    · -- the last digit to be written
      have hlt : value < b.base := by
        rw [Nat.not_lt, Nat.le_zero, Nat.div_eq_zero_iff] at hmore
        omega
      refine ⟨value % b.base, ?_, Nat.mod_lt value (by omega), ?_⟩
      · rw [Nat.mod_eq_of_lt hlt]
        exact hpos
      · have hnil : accumulateDigits b group room (value / b.base) (cnt + 1) = [] := by
          cases room with
          | zero => rfl
          | succ room => rw [accumulateDigits, if_neg hmore]
        rw [hnil, List.getLast?_append]
        rfl

lemma length_accumulateDigits_le (cnt : ℕ) : (accumulateDigits b group room value cnt).length ≤ 2 * room := by
  induction room generalizing value cnt with
  | zero => exact Nat.zero_le 0
  | succ room ih =>
    have hrest : (accumulateDigits b group room (value / b.base) (cnt + 1)).length ≤ 2 * room := ih (cnt + 1)
    rw [accumulateDigits]
    split
    · split <;> simp <;> omega
    · exact Nat.zero_le _

end Digits

/-! ## The law -/

/-- The width 0, written in the same way. -/
def Number.zero : Number → Number
  | .digits _ => .digits []
  | .star _ => .star 0

namespace Spec

variable (s : Spec) (arg : ℤ)

/-- The same conversion with width 0. -/
def unpadded : Spec where
  flags := s.flags
  width := s.width.zero
  width_ne_zero := by
    intro ds h
    cases hw : s.width with
    | digits ds' =>
      rw [hw] at h
      cases h
    | star n =>
      rw [hw] at h
      cases h
  precision := s.precision
  type := s.type
  kind := s.kind

/-- The sign and the radix that belong to the number. -/
def head : List UInt8 :=
  (if s.kind.signed then
    if s.negative arg then [45] else if .plus ∈ s.flags then [43] else if .space ∈ s.flags then [32] else []
  else []) ++
  if .pound ∈ s.flags ∧ s.kind.base.base = 16 ∧ s.magnitude arg ≠ 0 then [48, s.kind.base.x] else []

/-- The number of characters of a field without a width and a precision. -/
def naturalLength : ℕ :=
  let digits := (Nat.digits s.kind.base.base (s.magnitude arg)).length
  (s.head arg).length +
    if s.magnitude arg = 0 then 1
    else digits + (if .group ∈ s.flags then (digits - 1) / s.kind.base.group else 0) +
      (if .pound ∈ s.flags ∧ s.kind.base.base = 8 then 1 else 0)

/-- The number of characters is the width or, if that is more, the number with width 0. The other characters are blanks before, or
blanks after, or zeros between the head and the digits. -/
def FieldWidthLaw : Prop :=
  ∃ text plain, s.emitted arg = some text ∧ s.unpadded.emitted arg = some plain ∧
    text.length = max s.width.exact.natAbs plain.length ∧
    (text = List.replicate (text.length - plain.length) 32 ++ plain ∨
      text = plain ++ List.replicate (text.length - plain.length) 32 ∨
      ∃ digits, plain = s.head arg ++ digits ∧
        text = s.head arg ++ List.replicate (text.length - plain.length) 48 ++ digits)

/-- The digits, the last one first. -/
def digits : List UInt8 :=
  digitsBuf (s.magnitude arg) s.kind.base s.conversion

lemma headText_eq : headText (s.magnitude arg) s.kind.signed (s.negative arg) s.kind.base s.conversion = s.head arg := by
  have hsign : (signChar s.conversion s.kind.signed (s.negative arg)).toList =
      if s.kind.signed then
        if s.negative arg then [45] else if .plus ∈ s.flags then [43] else if .space ∈ s.flags then [32] else []
      else [] := by
    unfold signChar conversion
    by_cases hplus : .plus ∈ s.flags <;> by_cases hspace : .space ∈ s.flags <;> cases s.kind.signed <;>
      cases s.negative arg <;> simp [hplus, hspace]
  have hradix : (if radixChar (s.magnitude arg) s.kind.base s.conversion ≠ 0 then
        [48, radixChar (s.magnitude arg) s.kind.base s.conversion] else []) =
      if .pound ∈ s.flags ∧ s.kind.base.base = 16 ∧ s.magnitude arg ≠ 0 then [48, s.kind.base.x] else [] := by
    have hx : s.kind.base.x ≠ 0 ↔ s.kind.base.base = 16 := by
      cases s.kind <;> decide
    by_cases hboth : .pound ∈ s.flags ∧ s.magnitude arg ≠ 0
    · have hchar : radixChar (s.magnitude arg) s.kind.base s.conversion = s.kind.base.x :=
        if_pos (by simpa [conversion] using hboth)
      rw [hchar]
      apply if_congr _ rfl rfl
      rw [hx]
      exact ⟨fun hbase => ⟨hboth.1, hbase, hboth.2⟩, fun hall => hall.2.1⟩
    · have hchar : radixChar (s.magnitude arg) s.kind.base s.conversion = 0 :=
        if_neg (by simpa [conversion] using hboth)
      rw [hchar, if_neg (not_not.mpr rfl), if_neg fun hall => hboth ⟨hall.1, hall.2.2⟩]
  rw [headText, head, hsign, hradix]

lemma magnitude_lt : s.magnitude arg < 2 ^ 64 := by
  have hpow : (2 : ℤ) ^ s.type.bits ≤ 2 ^ 64 ∧ 0 < (2 : ℤ) ^ s.type.bits := by
    cases s.type <;> decide
  unfold magnitude
  split
  · have hle := Int.bmod_le (x := arg) (m := 2 ^ s.type.bits) (by positivity)
    have hge := Int.le_bmod (x := arg) (m := 2 ^ s.type.bits) (by positivity)
    push_cast at hle hge
    omega
  · omega

lemma length_digits_le : (s.digits arg).length ≤ 200 := by
  have hbuf := @length_accumulateDigits_le s.kind.base s.conversion.group 64 (s.magnitude arg) 0
  unfold digits digitsBuf
  dsimp only
  generalize accumulateDigits s.kind.base s.conversion.group 64 (s.magnitude arg) 0 = buf at hbuf ⊢
  generalize hpadded : buf ++ List.replicate _ 48 = padded
  have hlen : padded.length ≤ 199 := by
    rw [← hpadded, List.length_append, List.length_replicate]
    omega
  split
  · rw [List.length_append, List.length_singleton]
    omega
  · omega

lemma length_digits (hp : s.precisionValue < 0) : (s.head arg ++ (s.digits arg).reverse).length = s.naturalLength arg := by
  have hbase : 2 ≤ s.kind.base.base := by
    cases s.kind <;> decide
  have hlt : s.magnitude arg < s.kind.base.base ^ 64 := by
    exact lt_of_lt_of_le (s.magnitude_lt arg) (Nat.pow_le_pow_left hbase 64)
  have hprecision : s.conversion.precision < 0 := by
    show (if s.precisionValue < 0 then -1 else s.precisionValue) < 0
    rw [if_pos hp]
    decide
  unfold naturalLength digits digitsBuf
  dsimp only
  rw [List.length_append, List.length_reverse, if_pos hprecision]
  congr 1
  by_cases hzero : s.magnitude arg = 0
  · rw [hzero]
    have hnil : accumulateDigits s.kind.base s.conversion.group 64 0 0 = [] := rfl
    rw [hnil]
    simp
  · have hlen : (accumulateDigits s.kind.base s.conversion.group 64 (s.magnitude arg) 0).length = _ :=
      length_accumulateDigits hbase 0 hlt
    have hlast : ∃ d, 0 < d ∧ d < s.kind.base.base ∧
        (accumulateDigits s.kind.base s.conversion.group 64 (s.magnitude arg) 0).getLast? = some (s.kind.base.char d) :=
      getLast_accumulateDigits hbase 0 (Nat.pos_of_ne_zero hzero) hlt
    obtain ⟨d, hd, hdlt, hlast⟩ := hlast
    generalize accumulateDigits s.kind.base s.conversion.group 64 (s.magnitude arg) 0 = buf at hlen hlast ⊢
    have hfull : buf ++ List.replicate (min 1 63 - buf.length) 48 = buf := by
      have hone : 1 ≤ buf.length := by
        cases buf with
        | nil => cases hlast
        | cons ch buf => simp
      rw [show min 1 63 - buf.length = 0 by omega, List.replicate_zero, List.append_nil]
    rw [hfull, hlast]
    have hgroup : s.conversion.group = decide (.group ∈ s.flags) := rfl
    have hpound : s.conversion.pound = decide (.pound ∈ s.flags) := rfl
    rw [hgroup] at hlen
    simp only [Nat.zero_add, Nat.zero_sub, Nat.zero_div, Nat.sub_zero, decide_eq_true_eq] at hlen
    rw [hpound, ← hlen]
    have htest : (decide (.pound ∈ s.flags) && decide (s.kind.base.base = 8) &&
        decide (some (s.kind.base.char d) ≠ some 48)) = true ↔ .pound ∈ s.flags ∧ s.kind.base.base = 8 := by
      simp only [Bool.and_eq_true, decide_eq_true_eq]
      refine ⟨fun h => h.1, fun h => ⟨h, ?_⟩⟩
      have hoctal : ∀ d < 8, 0 < d → some (baseO.char d) ≠ some 48 := by decide
      have hkind : s.kind.base = baseO := by
        have hbase8 := h.2
        cases hk : s.kind <;> rw [hk] at hbase8 <;> first | rfl | exact absurd hbase8 (by decide)
      rw [hkind] at hdlt ⊢
      exact hoctal d hdlt hd
    rw [if_congr htest rfl rfl]
    split
    · rw [List.length_append, List.length_singleton]
    · rfl

/-- A width below `2 ^ 31` is read as it is. -/
lemma value_width (hw : s.width.exact.natAbs < 2 ^ 31) : s.width.value = s.width.exact := by
  cases hn : s.width with
  | star n => rfl
  | digits ds =>
    rw [hn, Number.exact] at hw
    rw [Number.value_digits, Number.exact, Int.bmod_eq_of_le (by omega) (by omega)]

lemma padCount_eq (hw : s.width.exact.natAbs < 2 ^ 31) :
    padCount (s.magnitude arg) s.kind.signed (s.negative arg) s.kind.base s.conversion =
      s.width.exact.natAbs - (s.head arg ++ (s.digits arg).reverse).length := by
  have hplain : plainText (s.magnitude arg) s.kind.signed (s.negative arg) s.kind.base s.conversion =
      s.head arg ++ (s.digits arg).reverse := by
    rw [plainText, s.headText_eq]
    rfl
  have hwidth : s.conversion.width = s.width.exact.natAbs := by
    show (if s.width.value < 0 then Int.bmod (-s.width.value) (2 ^ 32) else s.width.value) = _
    rw [s.value_width hw]
    split
    · rw [Int.bmod_eq_of_le (by omega) (by omega)]
      omega
    · omega
  have hlen : (s.head arg ++ (s.digits arg).reverse).length ≤ 203 := by
    have hdigits := s.length_digits_le arg
    have hhead : (s.head arg).length ≤ 3 := by
      unfold head
      split_ifs <;> simp
    rw [List.length_append, List.length_reverse]
    omega
  rw [padCount, hplain, Int.bmod_eq_of_le (by omega) (by omega)]
  omega

/-- A field with padding in the places that are told by the flags. -/
lemma emitted_padded (hw : s.width.exact.natAbs < 2 ^ 31) {pad : ℕ}
    (hpad : pad = s.width.exact.natAbs - (s.head arg ++ (s.digits arg).reverse).length) :
    s.emitted arg = some ((if s.conversion.minus || s.conversion.zero then [] else List.replicate pad 32) ++ s.head arg ++
      (if s.conversion.zero then List.replicate pad 48 else []) ++ (s.digits arg).reverse ++
      (if s.conversion.minus then List.replicate pad 32 else [])) := by
  rw [emitted_eq, formatInteger_eq, s.padCount_eq arg hw, s.headText_eq, ← hpad]
  rfl

/-- The text of the field with width 0. -/
lemma emitted_unpadded : s.unpadded.emitted arg = some (s.head arg ++ (s.digits arg).reverse) := by
  have hzero : s.unpadded.width.exact.natAbs = 0 := by
    show s.width.zero.exact.natAbs = 0
    cases s.width <;> rfl
  have hpad : 0 = s.unpadded.width.exact.natAbs -
      (s.unpadded.head arg ++ (s.unpadded.digits arg).reverse).length := by
    rw [hzero, Nat.zero_sub]
  rw [s.unpadded.emitted_padded arg (by rw [hzero]; decide) hpad]
  simp only [List.replicate_zero, ite_self, List.append_nil]
  rfl

end Spec

section Results

variable {s : Spec} {arg : ℤ}

lemma fieldWidthLaw_of {text plain : List UInt8} {pad : ℕ} (htext : s.emitted arg = some text)
    (hplain : s.unpadded.emitted arg = some plain) (hpad : pad = s.width.exact.natAbs - plain.length)
    (hlen : text.length = plain.length + pad)
    (hshape : text = List.replicate pad 32 ++ plain ∨ text = plain ++ List.replicate pad 32 ∨
      ∃ digits, plain = s.head arg ++ digits ∧ text = s.head arg ++ List.replicate pad 48 ++ digits) :
    s.FieldWidthLaw arg := by
  have hextra : text.length - plain.length = pad := by omega
  refine ⟨text, plain, htext, hplain, by omega, ?_⟩
  rw [hextra]
  exact hshape

/-- The law of field widths, unless a field with the flag `0` and without the flag `-` and a precision gets a negative width from the
arguments, and that is wider than the field. -/
theorem field_width_iff (hw : s.width.exact.natAbs < 2 ^ 31) :
    s.FieldWidthLaw arg ↔ ¬(.zero ∈ s.flags ∧ .minus ∉ s.flags ∧ s.precisionValue < 0 ∧ s.width.exact < 0 ∧
      s.naturalLength arg < s.width.exact.natAbs) := by
  have hminus : s.conversion.minus = true ↔ .minus ∈ s.flags ∨ s.width.exact < 0 := by
    rw [← s.value_width hw]
    exact decide_eq_true_iff
  have hzero : s.conversion.zero = true ↔ .zero ∈ s.flags ∧ .minus ∉ s.flags ∧ s.precisionValue < 0 := decide_eq_true_iff
  obtain ⟨pad, hpad⟩ : ∃ pad, pad = s.width.exact.natAbs - (s.head arg ++ (s.digits arg).reverse).length := ⟨_, rfl⟩
  have htext := s.emitted_padded arg hw hpad
  have hplain := s.emitted_unpadded arg
  have hlaw : s.FieldWidthLaw arg ↔ ¬(s.conversion.zero = true ∧ s.conversion.minus = true ∧ 0 < pad) := by
    cases hz : s.conversion.zero <;> cases hm : s.conversion.minus <;>
      simp only [hz, hm, Bool.or_false, Bool.or_true, Bool.false_eq_true, if_true, if_false, List.nil_append,
        List.append_nil] at htext
    · refine iff_of_true (fieldWidthLaw_of htext hplain hpad ?_ (Or.inl ?_)) (by simp)
      · simp only [List.length_append, List.length_replicate]
        omega
      · rw [List.append_assoc]
    · refine iff_of_true (fieldWidthLaw_of htext hplain hpad ?_ (Or.inr (Or.inl rfl))) (by simp)
      simp only [List.length_append, List.length_replicate]
    · refine iff_of_true (fieldWidthLaw_of htext hplain hpad ?_ (Or.inr (Or.inr ⟨_, rfl, rfl⟩))) (by simp)
      simp only [List.length_append, List.length_replicate]
      omega
    · -- the padding is there twice
      constructor
      · intro hlaw hpos
        obtain ⟨text, plain, htext', hplain', hlen, -⟩ := hlaw
        obtain rfl := Option.some.inj (htext.symm.trans htext')
        obtain rfl := Option.some.inj (hplain.symm.trans hplain')
        simp only [List.length_append, List.length_replicate] at hlen hpad
        omega
      · intro hnone
        obtain rfl : pad = 0 := by simpa using hnone
        refine fieldWidthLaw_of htext hplain hpad ?_ (Or.inl ?_) <;> simp
  rw [hlaw, hminus, hzero]
  apply not_congr
  constructor
  · intro hboth
    have hwidth : s.width.exact < 0 := hboth.2.1.resolve_left hboth.1.2.1
    have hnatural := s.length_digits arg hboth.1.2.2
    exact ⟨hboth.1.1, hboth.1.2.1, hboth.1.2.2, hwidth, by omega⟩
  · intro hcase
    have hnatural := s.length_digits arg hcase.2.2.1
    exact ⟨⟨hcase.1, hcase.2.1, hcase.2.2.1⟩, Or.inr hcase.2.2.2.1, by omega⟩

end Results

/-- `%-+6d`. -/
def signedLeft : Spec where
  flags := [.minus, .plus]
  width := .digits [6]
  width_ne_zero := by
    intro ds h
    cases h
  precision := none
  type := .int
  kind := .d

/-- `%0*d` with the width -5. -/
def zeroStar : Spec where
  flags := [.zero]
  width := .star (-5)
  width_ne_zero := by
    intro ds h
    cases h
  precision := none
  type := .int
  kind := .d

theorem field_width_iff_signedLeft :
    signedLeft.FieldWidthLaw 42 ↔ ¬(.zero ∈ signedLeft.flags ∧ .minus ∉ signedLeft.flags ∧ signedLeft.precisionValue < 0 ∧
      signedLeft.width.exact < 0 ∧ signedLeft.naturalLength 42 < signedLeft.width.exact.natAbs) :=
  field_width_iff (by decide)

/-- `printf ("%0*d", -5, 42)` puts out three zeros, the number and three blanks. -/
theorem zero_star_both :
    zeroStar.text = [37, 48, 42, 100] ∧ zeroStar.args 42 = [-5, 42] ∧
      zeroStar.emitted 42 = some [48, 48, 48, 52, 50, 32, 32, 32] ∧ ¬zeroStar.FieldWidthLaw 42 := by
  have htext : zeroStar.emitted 42 = some [48, 48, 48, 52, 50, 32, 32, 32] := by decide +kernel
  have hplain : zeroStar.unpadded.emitted 42 = some [52, 50] := by decide +kernel
  refine ⟨by decide, by decide, htext, fun hlaw => ?_⟩
  obtain ⟨text, plain, htext', hplain', hlen, -⟩ := hlaw
  obtain rfl := Option.some.inj (htext.symm.trans htext')
  obtain rfl := Option.some.inj (hplain.symm.trans hplain')
  exact absurd hlen (by decide)

end OsLabs.LibC
