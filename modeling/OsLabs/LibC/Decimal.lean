import OsLabs.LibC.FieldWidth
import OsLabs.Threads.Options

/-!
# Reading a number back

`atoi` of `lib/stdlib.c` reads what a `%d` conversion puts out: it skips blanks, and zeros in front do not change a number. Both
loops over the digits may wrap around on the way, so they are compared modulo `2 ^ 32`.
-/

namespace OsLabs.LibC

open Lib
open Threads (atoi atoiDigits)

/-! ## Reading -/

/-- The characters of decimal digits. -/
def decimalText (ds : List ℕ) : List UInt8 :=
  ds.map baseD.char

lemma baseD_char {d : ℕ} (hd : d < 10) : (baseD.char d).toNat = 48 + d ∧ 48 ≤ baseD.char d ∧ baseD.char d ≤ 57 := by
  revert d
  decide

/-- The digits are read as a number that is not positive. -/
lemma atoiDigits_decimal (v : ℕ) {ds : List ℕ} (hds : ∀ d ∈ ds, d < 10) (n : ℕ) :
    atoiDigits (Int.bmod (-(v : ℤ)) (2 ^ 32)) (decimalText ds ++ List.replicate n 32) =
      Int.bmod (-(ofNumeral 10 v ds : ℤ)) (2 ^ 32) := by
  induction ds generalizing v with
  | nil =>
    cases n with
    | zero => rfl
    | succ n => rfl
  | cons d ds ih =>
    obtain ⟨hchar, hdigit⟩ := baseD_char (hds d List.mem_cons_self)
    have hnext : Int.bmod (Int.bmod (-(v : ℤ)) (2 ^ 32) * 10 - ((baseD.char d).toNat - 48)) (2 ^ 32) =
        Int.bmod (-((d + v * 10 : ℕ) : ℤ)) (2 ^ 32) := by
      rw [hchar, sub_eq_add_neg, ← Int.bmod_add_bmod, Int.bmod_mul_bmod, Int.bmod_add_bmod]
      apply congrArg (Int.bmod · (2 ^ 32))
      push_cast
      ring
    show atoiDigits _ (baseD.char d :: (decimalText ds ++ List.replicate n 32)) = _
    rw [atoiDigits, if_pos hdigit, hnext, ih (d + v * 10) fun x hx => hds x (List.mem_cons_of_mem d hx)]
    rfl

lemma atoi_blank (w : List UInt8) : atoi (32 :: w) = atoi w := rfl

lemma atoi_blanks (n : ℕ) (w : List UInt8) : atoi (List.replicate n 32 ++ w) = atoi w := by
  induction n with
  | zero => rfl
  | succ n ih => rw [List.replicate_succ, List.cons_append, atoi_blank, ih]

section Read

variable {ds : List ℕ} (hds : ∀ d ∈ ds, d < 10) (n : ℕ)
include hds

lemma atoi_minus : atoi (45 :: (decimalText ds ++ List.replicate n 32)) = Int.bmod (-(ofNumeral 10 0 ds : ℤ)) (2 ^ 32) :=
  atoiDigits_decimal 0 hds n

lemma neg_atoiDigits :
    Int.bmod (-atoiDigits 0 (decimalText ds ++ List.replicate n 32)) (2 ^ 32) = Int.bmod (ofNumeral 10 0 ds) (2 ^ 32) := by
  have hdigits : atoiDigits 0 (decimalText ds ++ List.replicate n 32) = Int.bmod (-(ofNumeral 10 0 ds : ℤ)) (2 ^ 32) :=
    atoiDigits_decimal 0 hds n
  rw [hdigits, Int.bmod_neg_bmod, neg_neg]

lemma atoi_plus : atoi (43 :: (decimalText ds ++ List.replicate n 32)) = Int.bmod (ofNumeral 10 0 ds) (2 ^ 32) :=
  neg_atoiDigits hds n

lemma atoi_plain : atoi (decimalText ds ++ List.replicate n 32) = Int.bmod (ofNumeral 10 0 ds) (2 ^ 32) := by
  cases ds with
  | nil =>
    have hblanks := atoi_blanks n []
    rw [List.append_nil] at hblanks
    exact hblanks
  | cons d ds =>
    have hread := neg_atoiDigits hds n
    have hd := hds d List.mem_cons_self
    -- a digit is neither a blank nor a sign
    have hfirst : ∀ d < 10, ∀ w, atoi (baseD.char d :: w) = Int.bmod (-atoiDigits 0 (baseD.char d :: w)) (2 ^ 32) := by
      intro d hd w
      interval_cases d <;> rfl
    exact (hfirst d hd _).trans hread

end Read

/-! ## Writing -/

lemma accumulateDigits_eq {b : IntegerBase} (hb : 2 ≤ b.base) {room value : ℕ} (cnt : ℕ) (h : value < b.base ^ room) :
    accumulateDigits b false room value cnt = (Nat.digits b.base value).map b.char := by
  induction room generalizing value cnt with
  | zero =>
    obtain rfl : value = 0 := by simpa using h
    simp [accumulateDigits]
  | succ room ih =>
    rw [accumulateDigits]
    by_cases hpos : value > 0
    · have hdiv : value / b.base < b.base ^ room := by
        rw [Nat.div_lt_iff_lt_mul (by omega)]
        exact h
      rw [if_pos hpos, ih (cnt + 1) hdiv, Nat.digits_def' (by omega) hpos]
      rfl
    · obtain rfl : value = 0 := by omega
      simp

/-- Zeros in front do not change a number. -/
lemma ofNumeral_digits (k v : ℕ) : ofNumeral 10 0 (List.replicate k 0 ++ (Nat.digits 10 v).reverse) = v := by
  have hzeros : ∀ ds : List ℕ, ofNumeral 10 0 (List.replicate k 0 ++ ds) = ofNumeral 10 0 ds := by
    intro ds
    induction k with
    | zero => rfl
    | succ k ih => exact ih
  rw [hzeros, ofNumeral]
  have hfold := Nat.ofDigits_digits 10 v
  rw [Nat.ofDigits_eq_foldr] at hfold
  simpa [Nat.mul_comm] using hfold

section Spec

variable {s : Spec} {v : ℤ}

/-- The digits of a `%d` conversion are those of the number, with zeros in front. -/
lemma digits_decimal (hkind : s.kind = .d) (hgroup : .group ∉ s.flags) (arg : ℤ) :
    ∃ k, (s.digits arg).reverse = decimalText (List.replicate k 0 ++ (Nat.digits 10 (s.magnitude arg)).reverse) := by
  have hlt : s.magnitude arg < baseD.base ^ 64 := lt_of_lt_of_le (s.magnitude_lt arg) (by decide)
  have hacc := accumulateDigits_eq (by decide) 0 hlt
  have hbase : s.kind.base = baseD := by rw [hkind]; rfl
  have hplain : s.conversion.group = false := decide_eq_false hgroup
  have hoctal : ∀ last : Option UInt8,
      (s.conversion.pound && decide (baseD.base = 8) && decide (last ≠ some 48)) = false := by
    intro last
    cases s.conversion.pound <;> rfl
  unfold Spec.digits digitsBuf
  rw [hbase, hplain, hacc]
  dsimp only
  rw [hoctal, if_neg Bool.false_ne_true, List.reverse_append, List.reverse_replicate]
  generalize min _ 63 - _ = k
  refine ⟨k, ?_⟩
  rw [decimalText, List.map_append, List.map_replicate, List.map_reverse]
  rfl

/-- What is put out for a `%d` conversion: blanks, a sign, digits and blanks. -/
lemma emitted_decimal (hkind : s.kind = .d) (hgroup : .group ∉ s.flags) (arg : ℤ) :
    ∃ i k n, s.emitted arg = some (List.replicate i 32 ++ (s.head arg ++
      (decimalText (List.replicate k 0 ++ (Nat.digits 10 (s.magnitude arg)).reverse) ++ List.replicate n 32))) := by
  obtain ⟨k, hdigits⟩ := digits_decimal hkind hgroup arg
  have hblanks : ∀ (c : Bool) (n : ℕ), (if c then List.replicate n 32 else []) = List.replicate (if c then n else 0) (32 : UInt8) := by
    intro c n
    cases c <;> rfl
  have hzeros : ∀ (c : Bool) (n : ℕ),
      (if c then List.replicate n 48 else []) = decimalText (List.replicate (if c then n else 0) 0) := by
    intro c n
    rw [decimalText, List.map_replicate]
    cases c <;> rfl
  have hdigits' : (digitsBuf (s.magnitude arg) s.kind.base s.conversion).reverse = _ := hdigits
  rw [Spec.emitted_eq, formatInteger_eq, s.headText_eq, hdigits', hzeros, hblanks]
  generalize padCount _ _ _ _ _ = pad
  have hlead : (if (s.conversion.minus || s.conversion.zero) = true then [] else List.replicate pad 32) =
      List.replicate (if s.conversion.minus || s.conversion.zero then 0 else pad) (32 : UInt8) := by
    cases s.conversion.minus || s.conversion.zero <;> rfl
  refine ⟨if s.conversion.minus || s.conversion.zero then 0 else pad, (if s.conversion.zero then pad else 0) + k,
    if s.conversion.minus then pad else 0, ?_⟩
  rw [hlead, List.replicate_add]
  simp only [decimalText, List.map_append, List.append_assoc]

/-- The sign of a `%d` conversion. -/
lemma head_decimal (hkind : s.kind = .d) (htype : s.type = .int) (hv : -2 ^ 31 ≤ v ∧ v < 2 ^ 31) :
    s.head v = (if v < 0 then [45] else if .plus ∈ s.flags then [43] else if .space ∈ s.flags then [32] else []) ∧
      s.magnitude v = v.natAbs := by
  have hbits : Int.bmod v (2 ^ s.type.bits) = v := by
    have hint : 2 ^ s.type.bits = 4294967296 := by rw [htype]; rfl
    exact Int.bmod_eq_of_le (by omega) (by omega)
  have hnegative : s.negative v = decide (v < 0) := by
    rw [Spec.negative, hbits, hkind]
    rfl
  constructor
  · have hradix : ¬(.pound ∈ s.flags ∧ s.kind.base.base = 16 ∧ s.magnitude v ≠ 0) := by
      rw [hkind]
      intro hall
      exact absurd hall.2.1 (by decide)
    rw [Spec.head, if_neg hradix, hnegative, hkind]
    simp [Kind.signed]
  · rw [Spec.magnitude, hbits, hkind]
    rfl

lemma ne_zero_of_mem_decimalText {ds : List ℕ} (hds : ∀ d ∈ ds, d < 10) {ch : UInt8} (hch : ch ∈ decimalText ds) : ch ≠ 0 := by
  obtain ⟨d, hd, rfl⟩ := List.mem_map.mp hch
  intro hzero
  have hle := (baseD_char (hds d hd)).2.1
  rw [hzero] at hle
  exact absurd hle (by decide)

/-- A string that fits into the buffer is stored as it is. -/
lemma snprintf_eq {format text : List UInt8} {args : List ℤ} (h : vprintf format.length format args = some text)
    (hne : ∀ ch ∈ text, ch ≠ 0) (m : ℕ → UInt8) (i : ℕ) {size : ℕ} (hsize : text.length < size) :
    ∃ m', snprintf m i size format args = some m' ∧ StringAt m' i text := by
  refine ⟨putString m i text, ?_, stringAt_putString hne⟩
  rw [snprintf, h, Option.bind_eq_bind, Option.bind_some, if_pos (by omega), List.take_of_length_le (by omega)]
  rfl

end Spec

end OsLabs.LibC
