import OsLabs.Lib.Quotient

/-!
# 64-bit division

`lib/arithmetic.c`: the routines that the compiler calls for `/` and `%` on 64-bit integers. The instruction `DIVL` divides
64 bits by 32 bits and raises a divide error if the quotient does not fit in 32 bits; `none` stands for that error.

`division_exact`: no divide error is raised and the quotients are right. `remainder_exact_iff`: `umod64` and `smod64` return
32 bits, so a remainder that does not fit in them is cut off.
-/

namespace OsLabs.LibC

open Lib

/-! ## The code -/

/-- `divl`. -/
def divl (n : UInt64) (d : UInt32) : Option UInt32 :=
  if d = 0 ∨ 2 ^ 32 ≤ n.toNat / d.toNat then none else some (n / d.toUInt64).toUInt32

/-- One test of `nlz`: `w` zero bits are shifted out of a number that is not above `limit`. -/
def skipZeros (limit : UInt32) (w : ℕ) (p : ℕ × UInt32) : ℕ × UInt32 :=
  if p.2 ≤ limit then (p.1 + w, p.2 <<< w.toUInt32) else p

/-- `nlz`. -/
def nlz (x : UInt32) : ℕ :=
  let p := (0, x)
  let p := skipZeros 0x0000FFFF 16 p
  let p := skipZeros 0x00FFFFFF 8 p
  let p := skipZeros 0x0FFFFFFF 4 p
  let p := skipZeros 0x3FFFFFFF 2 p
  if p.2 ≤ 0x7FFFFFFF then p.1 + 1 else p.1

/-- `udiv64`. -/
def udiv64 (n d : UInt64) : Option UInt64 :=
  if d >>> 32 = 0 then do
    let b := (1 : UInt64) <<< 32
    let n1 := (n >>> 32).toUInt32
    let n0 := n.toUInt32
    let d0 := d.toUInt32
    let q ← divl (b * (n1 % d0).toUInt64 + n0.toUInt64) d0
    return q.toUInt64 + b * (n1 / d0).toUInt64
  else if n < d then some 0
  else do
    let d1 := (d >>> 32).toUInt32
    let s := nlz d1
    let q ← divl (n >>> 1) ((d <<< s.toUInt64) >>> 32).toUInt32
    let q := (q >>> (31 - s).toUInt32).toUInt64
    return if n - (q - 1) * d < d then q - 1 else q

/-- `umod64`: the result has 32 bits. -/
def umod64 (n d : UInt64) : Option UInt32 := do
  let q ← udiv64 n d
  return (n - d * q).toUInt32

/-- `n_abs` and `d_abs` of `sdiv64`. -/
def absU64 (n : Int64) : UInt64 :=
  if n ≥ 0 then n.toUInt64 else -n.toUInt64

/-- `sdiv64`, with the negation of the instruction set: that of `-2^63` is `-2^63`. -/
def sdiv64 (n d : Int64) : Option Int64 := do
  let q ← udiv64 (absU64 n) (absU64 d)
  return if (n < 0) = (d < 0) then q.toInt64 else -q.toInt64

/-- `smod64`: the result has 32 bits. -/
def smod64 (n d : Int64) : Option Int32 := do
  let q ← sdiv64 n d
  return (n - d * q).toInt32

/-- `__divdi3`. -/
def divdi3 (n d : Int64) : Option Int64 :=
  sdiv64 n d

/-- `__moddi3`. -/
def moddi3 (n d : Int64) : Option Int64 :=
  (smod64 n d).map Int32.toInt64

/-- `__udivdi3`. -/
def udivdi3 (n d : UInt64) : Option UInt64 :=
  udiv64 n d

/-- `__umoddi3`. -/
def umoddi3 (n d : UInt64) : Option UInt64 :=
  (umod64 n d).map UInt32.toUInt64

/-! ## Leading zeros -/

/-- `p.2` is `x` with `p.1` zero bits shifted out, and has no more than `w` leading zeros. -/
structure Shifted (x : UInt32) (w : ℕ) (p : ℕ × UInt32) : Prop where
  value : p.2.toNat = x.toNat * 2 ^ p.1
  leading : 2 ^ (32 - w) ≤ p.2.toNat

/-- A test for `w` zero bits, for a number that has no more than `2 * w` of them. -/
lemma Shifted.skipZeros {x : UInt32} {p : ℕ × UInt32} (limit : UInt32) (w : ℕ) (h : Shifted x (2 * w) p)
    (hw : 2 * w ≤ 32) (hlimit : limit.toNat = 2 ^ (32 - w) - 1) : Shifted x w (skipZeros limit w p) := by
  have hpos : 0 < 2 ^ (32 - w) := Nat.two_pow_pos _
  unfold LibC.skipZeros
  by_cases hle : p.2 ≤ limit
  · rw [if_pos hle]
    rw [UInt32.le_iff_toNat_le] at hle
    have hbits : w.toUInt32.toNat % 32 = w := by
      show w % 2 ^ 32 % 32 = w
      omega
    have hsplit : 2 ^ 32 = 2 ^ (32 - w) * 2 ^ w := by
      rw [← pow_add]
      congr 1
      omega
    have hlow : 2 ^ (32 - w) = 2 ^ (32 - 2 * w) * 2 ^ w := by
      rw [← pow_add]
      congr 1
      omega
    have hshift : (p.2 <<< w.toUInt32).toNat = p.2.toNat * 2 ^ w := by
      rw [UInt32.toNat_shiftLeft, hbits, Nat.shiftLeft_eq]
      apply Nat.mod_eq_of_lt
      rw [hsplit]
      exact Nat.mul_lt_mul_of_pos_right (by omega) (Nat.two_pow_pos w)
    constructor
    · show (p.2 <<< w.toUInt32).toNat = x.toNat * 2 ^ (p.1 + w)
      rw [hshift, h.value, pow_add, Nat.mul_assoc]
    · show 2 ^ (32 - w) ≤ (p.2 <<< w.toUInt32).toNat
      rw [hshift, hlow]
      exact Nat.mul_le_mul_right _ h.leading
  · rw [if_neg hle]
    rw [UInt32.le_iff_toNat_le] at hle
    exact ⟨h.value, by omega⟩

/-- `nlz` is the number of zero bits before the first one. -/
lemma nlz_spec {x : UInt32} (hx : x ≠ 0) : nlz x ≤ 31 ∧ 2 ^ 31 ≤ x.toNat * 2 ^ nlz x ∧ x.toNat * 2 ^ nlz x < 2 ^ 32 := by
  have hpos : 0 < x.toNat := by
    rw [Nat.pos_iff_ne_zero]
    intro hzero
    exact hx (UInt32.toNat_inj.mp hzero)
  have h32 : Shifted x 32 (0, x) := ⟨(Nat.mul_one _).symm, hpos⟩
  have h16 := h32.skipZeros 0x0000FFFF 16 (by decide) rfl
  have h8 := h16.skipZeros 0x00FFFFFF 8 (by decide) rfl
  have h4 := h8.skipZeros 0x0FFFFFFF 4 (by decide) rfl
  have h2 := h4.skipZeros 0x3FFFFFFF 2 (by decide) rfl
  have h1 := h2.skipZeros 0x7FFFFFFF 1 (by decide) rfl
  -- the last test counts the bit and leaves the number
  obtain ⟨p, hp, hnlz⟩ : ∃ p, Shifted x 1 p ∧ nlz x = p.1 := by
    refine ⟨_, h1, ?_⟩
    unfold nlz
    dsimp only
    generalize LibC.skipZeros 0x3FFFFFFF 2 _ = p
    rw [LibC.skipZeros]
    split <;> rfl
  have hlow := hp.leading
  have hhigh := p.2.toNat_lt
  rw [hp.value] at hlow hhigh
  rw [hnlz]
  refine ⟨?_, hlow, hhigh⟩
  have hle : 2 ^ p.1 ≤ x.toNat * 2 ^ p.1 := Nat.le_mul_of_pos_left _ hpos
  have hlt : 2 ^ p.1 < 2 ^ 32 := lt_of_le_of_lt hle hhigh
  have := (Nat.pow_lt_pow_iff_right Nat.one_lt_two).mp hlt
  omega

/-! ## Unsigned division -/

section Unsigned

variable {n d : UInt64}

lemma divl_spec {d : UInt32} (hd : 0 < d.toNat) (hq : n.toNat / d.toNat < 2 ^ 32) :
    ∃ q, divl n d = some q ∧ q.toNat = n.toNat / d.toNat := by
  refine ⟨(n / d.toUInt64).toUInt32, ?_, ?_⟩
  · rw [divl, if_neg]
    rintro (rfl | hle)
    · exact absurd hd (by decide)
    · omega
  · rw [UInt64.toNat_toUInt32, UInt64.toNat_div, UInt32.toNat_toUInt64, Nat.mod_eq_of_lt hq]

lemma toNat_shiftRight_32 (n : UInt64) : (n >>> 32).toNat = n.toNat / 2 ^ 32 := by
  exact Nat.shiftRight_eq_div_pow ..

/-- Division by a number of 32 bits: two digits of 32 bits. -/
lemma udiv64_low (hd : 0 < d.toNat) (hlow : d.toNat < 2 ^ 32) :
    ∃ q, udiv64 n d = some q ∧ q.toNat = n.toNat / d.toNat := by
  have hzero : d >>> 32 = 0 := by
    rw [← UInt64.toNat_inj, toNat_shiftRight_32, Nat.div_eq_of_lt hlow]
    rfl
  have hn := n.toNat_lt
  have hn1 : ((n >>> 32).toUInt32).toNat = n.toNat / 2 ^ 32 := by
    rw [UInt64.toNat_toUInt32, toNat_shiftRight_32]
    omega
  have hn0 : n.toUInt32.toNat = n.toNat % 2 ^ 32 := UInt64.toNat_toUInt32 n
  have hd0 : d.toUInt32.toNat = d.toNat := by
    rw [UInt64.toNat_toUInt32, Nat.mod_eq_of_lt hlow]
  have hb : ((1 : UInt64) <<< 32).toNat = 2 ^ 32 := rfl
  generalize hB : (1 : UInt64) <<< 32 = b at hb
  rw [udiv64, if_pos hzero]
  simp only [hB]
  -- the arithmetic modulo `2 ^ 64` does not overflow
  have hmod : n.toNat / 2 ^ 32 % d.toNat < 2 ^ 32 := lt_trans (Nat.mod_lt _ hd) hlow
  have hdividend : (b * ((n >>> 32).toUInt32 % d.toUInt32).toUInt64 + n.toUInt32.toUInt64).toNat =
      2 ^ 32 * (n.toNat / 2 ^ 32 % d.toNat) + n.toNat % 2 ^ 32 := by
    rw [UInt64.toNat_add, UInt64.toNat_mul, UInt32.toNat_toUInt64, UInt32.toNat_toUInt64, UInt32.toNat_mod, hb, hn1, hd0]
    omega
  have hlt := div_second_digit_lt (n.toNat / 2 ^ 32) hd (Nat.mod_lt n.toNat (Nat.two_pow_pos 32))
  obtain ⟨q, hq, hqval⟩ := divl_spec
    (by rw [hd0]; exact hd) (by rw [hdividend, hd0]; exact hlt)
  rw [hdividend, hd0] at hqval
  have hquot := div_two_digits (2 ^ 32) (n.toNat / 2 ^ 32) (n.toNat % 2 ^ 32) hd
  rw [Nat.div_add_mod] at hquot
  refine ⟨q.toUInt64 + b * ((n >>> 32).toUInt32 / d.toUInt32).toUInt64, ?_, ?_⟩
  · rw [hq]
    rfl
  · have hle : n.toNat / d.toNat ≤ n.toNat := Nat.div_le_self ..
    rw [UInt64.toNat_add, UInt64.toNat_mul, UInt32.toNat_toUInt64, UInt32.toNat_toUInt64, UInt32.toNat_div, hb, hn1, hd0]
    omega

/-- The last step of `udiv64` takes an estimate that is right or too large by one to the quotient. -/
lemma correct_estimate {q : UInt64} (hd : 0 < d.toNat) (hle : d.toNat ≤ n.toNat) (hlow : n.toNat / d.toNat ≤ q.toNat)
    (hhigh : q.toNat ≤ n.toNat / d.toNat + 1) : (if n - (q - 1) * d < d then q - 1 else q).toNat = n.toNat / d.toNat := by
  have hn := n.toNat_lt
  have hpos : 1 ≤ n.toNat / d.toNat := (Nat.one_le_div_iff hd).mpr hle
  have hpred : (q - 1).toNat = q.toNat - 1 := by
    apply UInt64.toNat_sub_of_le
    show 1 ≤ q.toNat
    omega
  have hquot := Nat.div_mul_le_self n.toNat d.toNat
  have hrem : n.toNat < n.toNat / d.toNat * d.toNat + d.toNat := Nat.lt_div_mul_add hd
  have hmul : (q.toNat - 1) * d.toNat ≤ n.toNat :=
    le_trans (Nat.mul_le_mul_right _ (by omega)) hquot
  have hprod : ((q - 1) * d).toNat = (q.toNat - 1) * d.toNat := by
    rw [UInt64.toNat_mul, hpred, Nat.mod_eq_of_lt (by omega)]
  have hsub : (n - (q - 1) * d).toNat = n.toNat - (q.toNat - 1) * d.toNat := by
    rw [UInt64.toNat_sub_of_le, hprod]
    rw [UInt64.le_iff_toNat_le, hprod]
    exact hmul
  simp only [UInt64.lt_iff_toNat_lt, hsub]
  obtain heq | heq : q.toNat - 1 = n.toNat / d.toNat ∨ q.toNat = n.toNat / d.toNat := by omega
  · rw [heq, if_pos (by omega), hpred, heq]
  · -- the estimate less one leaves the divisor and the remainder
    have hsucc : (q.toNat - 1) * d.toNat + d.toNat = n.toNat / d.toNat * d.toNat := by
      rw [← Nat.succ_mul]
      congr 1
      omega
    rw [if_neg (by omega), heq]

/-- The divisor with its leading zeros shifted out, and the 32 bits that the estimate takes of it. -/
lemma normalized {D s : ℕ} (hs : s ≤ 31) (hlow : 2 ^ 31 ≤ D / 2 ^ 32 * 2 ^ s) (hhigh : D / 2 ^ 32 * 2 ^ s < 2 ^ 32) :
    D * 2 ^ s < 2 ^ 64 ∧ D * 2 ^ s / 2 ^ 32 = D / 2 ^ (32 - s) ∧ 2 ^ 31 ≤ D / 2 ^ (32 - s) := by
  have hsplit : 2 ^ 32 = 2 ^ (32 - s) * 2 ^ s := by
    rw [← pow_add]
    congr 1
    omega
  have hpow : 0 < 2 ^ s := Nat.two_pow_pos s
  refine ⟨?_, ?_, ?_⟩
  · -- the shifted leading word is a multiple of `2 ^ s` below `2 ^ 32`
    have hnext : (D / 2 ^ 32 + 1) * 2 ^ s ≤ 2 ^ 32 := by
      rw [hsplit] at hhigh ⊢
      exact Nat.mul_le_mul_right _ (Nat.lt_of_mul_lt_mul_right hhigh)
    have hD : D < (D / 2 ^ 32 + 1) * 2 ^ 32 := by omega
    calc D * 2 ^ s < (D / 2 ^ 32 + 1) * 2 ^ 32 * 2 ^ s := Nat.mul_lt_mul_of_pos_right hD hpow
      _ = (D / 2 ^ 32 + 1) * 2 ^ s * 2 ^ 32 := Nat.mul_right_comm ..
      _ ≤ 2 ^ 32 * 2 ^ 32 := Nat.mul_le_mul_right _ hnext
  · rw [hsplit, Nat.mul_div_mul_right _ _ hpow]
  · rw [Nat.le_div_iff_mul_le (Nat.two_pow_pos _)]
    calc 2 ^ 31 * 2 ^ (32 - s) ≤ D / 2 ^ 32 * 2 ^ s * 2 ^ (32 - s) := Nat.mul_le_mul_right _ hlow
      _ = D / 2 ^ 32 * 2 ^ 32 := by rw [Nat.mul_assoc, Nat.mul_comm (2 ^ s), ← hsplit]
      _ ≤ D := Nat.div_mul_le_self ..

/-- Division by a wider number: the leading 32 bits of the divisor give the quotient or the number after it. -/
lemma udiv64_high (hhigh : 2 ^ 32 ≤ d.toNat) : ∃ q, udiv64 n d = some q ∧ q.toNat = n.toNat / d.toNat := by
  have hn := n.toNat_lt
  have hne : d >>> 32 ≠ 0 := by
    rw [ne_eq, ← UInt64.toNat_inj, toNat_shiftRight_32]
    show d.toNat / 2 ^ 32 ≠ 0
    omega
  rw [udiv64, if_neg hne]
  by_cases hlt : n < d
  · rw [if_pos hlt]
    refine ⟨0, rfl, ?_⟩
    rw [UInt64.lt_iff_toNat_lt] at hlt
    rw [Nat.div_eq_of_lt hlt]
    rfl
  · rw [if_neg hlt]
    rw [UInt64.lt_iff_toNat_lt, Nat.not_lt] at hlt
    have hd1 : ((d >>> 32).toUInt32).toNat = d.toNat / 2 ^ 32 := by
      rw [UInt64.toNat_toUInt32, toNat_shiftRight_32]
      omega
    have hd1ne : (d >>> 32).toUInt32 ≠ 0 := by
      rw [ne_eq, ← UInt32.toNat_inj, hd1]
      show d.toNat / 2 ^ 32 ≠ 0
      omega
    obtain ⟨hs, hslow, hshigh⟩ := nlz_spec hd1ne
    rw [hd1] at hslow hshigh
    dsimp only
    generalize nlz (d >>> 32).toUInt32 = s at hs hslow hshigh ⊢
    obtain ⟨hshl, hv, hvlow⟩ := normalized hs hslow hshigh
    have hsval : s.toUInt64.toNat % 64 = s := by
      show s % 2 ^ 64 % 64 = s
      omega
    -- the divisor of the estimate
    have hdiv : ((d <<< s.toUInt64) >>> 32).toUInt32.toNat = d.toNat / 2 ^ (32 - s) := by
      rw [UInt64.toNat_toUInt32, toNat_shiftRight_32, UInt64.toNat_shiftLeft, hsval, Nat.shiftLeft_eq,
        Nat.mod_eq_of_lt hshl, hv]
      apply Nat.mod_eq_of_lt
      omega
    have hhalf : (n >>> 1).toNat = n.toNat / 2 := by
      exact Nat.shiftRight_eq_div_pow ..
    have hfits : n.toNat / 2 / (d.toNat / 2 ^ (32 - s)) < 2 ^ 32 := by
      rw [Nat.div_lt_iff_lt_mul (by omega)]
      omega
    obtain ⟨q, hq, hqval⟩ := divl_spec (d := ((d <<< s.toUInt64) >>> 32).toUInt32) (by rw [hdiv]; omega)
      (by rw [hdiv, hhalf]; exact hfits)
    rw [hdiv, hhalf] at hqval
    rw [hq]
    -- the two divisions and the shift are one division by the truncated divisor
    have hestimate : (q >>> (31 - s).toUInt32).toUInt64.toNat =
        n.toNat / (d.toNat / 2 ^ (32 - s) * 2 ^ (32 - s)) := by
      have hshift : (31 - s).toUInt32.toNat % 32 = 31 - s := by
        show (31 - s) % 2 ^ 32 % 32 = 31 - s
        omega
      rw [UInt32.toNat_toUInt64, UInt32.toNat_shiftRight, hshift, Nat.shiftRight_eq_div_pow, hqval, Nat.div_div_eq_div_mul,
        Nat.div_div_eq_div_mul, show 32 - s = 31 - s + 1 by omega, pow_succ]
      congr 1
      ring
    refine ⟨_, rfl, correct_estimate (by omega) hlt ?_ ?_⟩
    · rw [hestimate]
      exact le_div_truncated _ (by omega)
    · rw [hestimate]
      exact div_truncated_le (by omega) hn hvlow

/-- `udiv64` returns the quotient. -/
lemma udiv64_spec (hd : d ≠ 0) : udiv64 n d = some (n / d) := by
  have hpos : 0 < d.toNat := by
    rw [Nat.pos_iff_ne_zero]
    intro hzero
    exact hd (UInt64.toNat_inj.mp hzero)
  obtain ⟨q, hq, hqval⟩ : ∃ q, udiv64 n d = some q ∧ q.toNat = n.toNat / d.toNat := by
    by_cases hlow : d.toNat < 2 ^ 32
    · exact udiv64_low hpos hlow
    · exact udiv64_high (by omega)
  rw [hq, Option.some_inj, ← UInt64.toNat_inj, UInt64.toNat_div, hqval]

end Unsigned

/-! ## Signed division -/

section Signed

variable {n d : Int64}

lemma toInt_eq_cond (n : Int64) :
    n.toInt = if 2 * n.toUInt64.toNat < 2 ^ 64 then (n.toUInt64.toNat : ℤ) else n.toUInt64.toNat - 2 ^ 64 :=
  BitVec.toInt_eq_toNat_cond n.toBitVec

lemma toInt_toInt64 (q : UInt64) : q.toInt64.toInt = (q.toNat : ℤ).bmod (2 ^ 64) :=
  BitVec.toInt_eq_toNat_bmod q.toBitVec

lemma absU64_toNat (n : Int64) : (absU64 n).toNat = n.toInt.natAbs := by
  have hcond := toInt_eq_cond n
  have hlt := n.toUInt64.toNat_lt
  have hneg : (-n.toUInt64).toNat = (2 ^ 64 - n.toUInt64.toNat) % 2 ^ 64 := BitVec.toNat_neg n.toBitVec
  unfold absU64
  by_cases hn : n ≥ 0
  · rw [if_pos hn]
    have hn : 0 ≤ n.toInt := Int64.le_iff_toInt_le.mp hn
    split at hcond <;> omega
  · rw [if_neg hn]
    have hn : ¬0 ≤ n.toInt := fun h => hn (Int64.le_iff_toInt_le.mpr h)
    split at hcond <;> omega

lemma absU64_ne_zero (hd : d ≠ 0) : absU64 d ≠ 0 := by
  intro hzero
  have habs := absU64_toNat d
  rw [hzero] at habs
  exact hd (Int64.toInt_inj.mp (Int.natAbs_eq_zero.mp habs.symm))

/-- The quotient of the absolute values, with the sign of the quotient. -/
lemma tdiv_eq_natAbs (n d : ℤ) :
    n.tdiv d = if (n < 0) = (d < 0) then ((n.natAbs / d.natAbs : ℕ) : ℤ) else -((n.natAbs / d.natAbs : ℕ) : ℤ) := by
  have hn : n < 0 ∧ n = -(n.natAbs : ℤ) ∨ ¬n < 0 ∧ n = n.natAbs := by omega
  have hd : d < 0 ∧ d = -(d.natAbs : ℤ) ∨ ¬d < 0 ∧ d = d.natAbs := by omega
  rw [Int.ofNat_tdiv]
  rcases hn with ⟨hn, hnabs⟩ | ⟨hn, hnabs⟩ <;> rcases hd with ⟨hd, hdabs⟩ | ⟨hd, hdabs⟩ <;>
    simp only [hn, hd, if_true, if_false, eq_iff_iff, true_iff, not_true_eq_false, false_iff]
  · rw [← Int.neg_tdiv_neg, ← Int.neg_eq_comm.mp hnabs.symm, ← Int.neg_eq_comm.mp hdabs.symm]
  · rw [← Int.neg_tdiv, ← hnabs, ← hdabs]
  · rw [← Int.tdiv_neg, ← hnabs, ← hdabs]
  · rw [← hnabs, ← hdabs]

/-- `sdiv64` returns the quotient. -/
lemma sdiv64_spec (n : Int64) (hd : d ≠ 0) : sdiv64 n d = some (n / d) := by
  rw [sdiv64, udiv64_spec (absU64_ne_zero hd)]
  show some _ = some _
  rw [Option.some_inj, ← Int64.toInt_inj, Int64.toInt_div, tdiv_eq_natAbs]
  have hn : (n < 0) = (n.toInt < 0) := propext Int64.lt_iff_toInt_lt
  have hd : (d < 0) = (d.toInt < 0) := propext Int64.lt_iff_toInt_lt
  have hq : (absU64 n / absU64 d).toNat = n.toInt.natAbs / d.toInt.natAbs := by
    rw [UInt64.toNat_div, absU64_toNat, absU64_toNat]
  simp only [hn, hd]
  split
  · rw [toInt_toInt64, hq]
  · rw [Int64.toInt_neg, toInt_toInt64, hq, Int.bmod_neg_bmod]

/-- Without overflow the quotient is truncated toward zero. -/
lemma toInt_div_of_no_overflow (hover : ¬(n = Int64.minValue ∧ d = -1)) : (n / d).toInt = n.toInt.tdiv d.toInt := by
  rcases not_and_or.mp hover with hn | hd
  · exact Int64.toInt_div_of_ne_left n d hn
  · exact Int64.toInt_div_of_ne_right n d hd

end Signed

/-! ## The quotients -/

/-- `__udivdi3` returns the quotient, and so does `__divdi3` unless it overflows. In particular no divide error is raised. -/
theorem division_exact (n d : UInt64) (hd : d ≠ 0) (m e : Int64) (he : e ≠ 0) (hover : ¬(m = Int64.minValue ∧ e = -1)) :
    (∃ q, udivdi3 n d = some q ∧ q.toNat = n.toNat / d.toNat) ∧
      ∃ q, divdi3 m e = some q ∧ q.toInt = m.toInt.tdiv e.toInt := by
  constructor
  · exact ⟨n / d, udiv64_spec hd, UInt64.toNat_div n d⟩
  · exact ⟨m / e, sdiv64_spec m he, toInt_div_of_no_overflow hover⟩

/-- The largest dividend and a divisor above `2 ^ 32`; the smallest dividend and 1. -/
theorem division_exact_extreme :
    (∃ q, udivdi3 0xFFFFFFFFFFFFFFFF 0x100000001 = some q ∧ q.toNat = 0xFFFFFFFF) ∧
      ∃ q, divdi3 Int64.minValue 1 = some q ∧ q.toInt = -2 ^ 63 :=
  division_exact 0xFFFFFFFFFFFFFFFF 0x100000001 (by decide) Int64.minValue 1 (by decide) (by decide)

/-! ## The remainders -/

/-- `__umoddi3` returns the remainder, and together with `__udivdi3` it gives back the dividend. -/
def UnsignedRemainder (n d : UInt64) : Prop :=
  ∃ q r, udivdi3 n d = some q ∧ umoddi3 n d = some r ∧ r.toNat = n.toNat % d.toNat ∧
    d.toNat * q.toNat + r.toNat = n.toNat

/-- `__moddi3` returns the remainder, and together with `__divdi3` it gives back the dividend. -/
def SignedRemainder (n d : Int64) : Prop :=
  ∃ q r, divdi3 n d = some q ∧ moddi3 n d = some r ∧ r.toInt = n.toInt - d.toInt * n.toInt.tdiv d.toInt ∧
    d.toInt * q.toInt + r.toInt = n.toInt

/-- `umod64` returns the last 32 bits of the remainder. -/
lemma umod64_spec (n : UInt64) {d : UInt64} (hd : d ≠ 0) :
    ∃ r, umod64 n d = some r ∧ r.toNat = n.toNat % d.toNat % 2 ^ 32 := by
  rw [umod64, udiv64_spec hd]
  refine ⟨_, rfl, ?_⟩
  have hn := n.toNat_lt
  have hmul := Nat.mul_div_le n.toNat d.toNat
  have hdiv := Nat.div_add_mod n.toNat d.toNat
  have hprod : (d * (n / d)).toNat = d.toNat * (n.toNat / d.toNat) := by
    rw [UInt64.toNat_mul, UInt64.toNat_div, Nat.mod_eq_of_lt (by omega)]
  have hsub : (n - d * (n / d)).toNat = n.toNat % d.toNat := by
    rw [UInt64.toNat_sub_of_le]
    · omega
    · rw [UInt64.le_iff_toNat_le, hprod]
      exact hmul
  rw [UInt64.toNat_toUInt32, hsub]

/-- `smod64` returns the last 32 bits of the remainder. -/
lemma smod64_spec {n d : Int64} (hd : d ≠ 0) (hover : ¬(n = Int64.minValue ∧ d = -1)) :
    ∃ r, smod64 n d = some r ∧ r.toInt = (n.toInt.tmod d.toInt).bmod (2 ^ 32) := by
  rw [smod64, sdiv64_spec n hd]
  refine ⟨_, rfl, ?_⟩
  have hsub : (n - d * (n / d)).toInt = n.toInt.tmod d.toInt := by
    rw [← Int64.toInt_mod, Int64.toInt_sub, Int64.toInt_mul, toInt_div_of_no_overflow hover, Int.sub_bmod_bmod,
      ← Int.tmod_def, ← Int64.toInt_mod, Int64.toInt_bmod]
  rw [Int64.toInt_toInt32, hsub]

/-- The remainders are right exactly if they fit in the 32 bits that `umod64` and `smod64` return. -/
theorem remainder_exact_iff (n d : UInt64) (hd : d ≠ 0) (m e : Int64) (he : e ≠ 0)
    (hover : ¬(m = Int64.minValue ∧ e = -1)) :
    (UnsignedRemainder n d ↔ n.toNat % d.toNat < 2 ^ 32) ∧
      (SignedRemainder m e ↔ -2 ^ 31 ≤ m.toInt.tmod e.toInt ∧ m.toInt.tmod e.toInt < 2 ^ 31) := by
  constructor
  · obtain ⟨r, hr, hrval⟩ := umod64_spec n hd
    have humod : umoddi3 n d = some r.toUInt64 := by rw [umoddi3, hr]; rfl
    have hlt : n.toNat % d.toNat % 2 ^ 32 < 2 ^ 32 := Nat.mod_lt _ (Nat.two_pow_pos 32)
    constructor
    · rintro ⟨_, r', _, hr', hrval', _⟩
      rw [humod, Option.some_inj] at hr'
      rw [← hrval', ← hr', UInt32.toNat_toUInt64, hrval]
      exact hlt
    · intro hfits
      refine ⟨n / d, r.toUInt64, udiv64_spec hd, humod, ?_, ?_⟩
      · rw [UInt32.toNat_toUInt64, hrval, Nat.mod_eq_of_lt hfits]
      · rw [UInt32.toNat_toUInt64, hrval, Nat.mod_eq_of_lt hfits, UInt64.toNat_div, Nat.div_add_mod]
  · obtain ⟨r, hr, hrval⟩ := smod64_spec he hover
    have hsmod : moddi3 m e = some r.toInt64 := by rw [moddi3, hr]; rfl
    rw [Int.tmod_def] at hrval ⊢
    constructor
    · rintro ⟨_, r', _, hr', hrval', _⟩
      rw [hsmod, Option.some_inj] at hr'
      rw [← hrval', ← hr', Int32.toInt_toInt64]
      exact ⟨r.le_toInt, r.toInt_lt⟩
    · rintro ⟨hlow, hhigh⟩
      have hfits : r.toInt64.toInt = m.toInt - e.toInt * m.toInt.tdiv e.toInt := by
        rw [Int32.toInt_toInt64, hrval]
        apply Int.bmod_eq_of_le
        · exact hlow
        · exact hhigh
      refine ⟨m / e, r.toInt64, sdiv64_spec m he, hsmod, hfits, ?_⟩
      rw [hfits, toInt_div_of_no_overflow hover]
      omega

theorem remainder_exact_iff_small :
    (UnsignedRemainder 7 3 ↔ 7 % 3 < 2 ^ 32) ∧ (SignedRemainder (-7) 3 ↔ -2 ^ 31 ≤ (-7 : ℤ).tmod 3 ∧ (-7 : ℤ).tmod 3 < 2 ^ 31) :=
  remainder_exact_iff 7 3 (by decide) (-7) 3 (by decide) (by decide)

/-- The remainder `2 ^ 32` of a division by `2 ^ 33` is returned as 0, and `2 ^ 31` of one by `2 ^ 32` as `-2 ^ 31`. -/
theorem remainder_cut_off :
    umoddi3 0x100000000 0x200000000 = some 0 ∧ moddi3 0x80000000 0x100000000 = some (-0x80000000) ∧
      ¬UnsignedRemainder 0x100000000 0x200000000 ∧ ¬SignedRemainder 0x80000000 0x100000000 := by
  have humod : umoddi3 0x100000000 0x200000000 = some 0 := by decide +kernel
  have hmod : moddi3 0x80000000 0x100000000 = some (-0x80000000) := by decide +kernel
  refine ⟨humod, hmod, ?_, ?_⟩
  · rintro ⟨_, r, _, hr, hrval, _⟩
    rw [humod, Option.some_inj] at hr
    rw [← hr] at hrval
    exact absurd hrval (by decide)
  · rintro ⟨_, r, _, hr, hrval, _⟩
    rw [hmod, Option.some_inj] at hr
    rw [← hr] at hrval
    exact absurd hrval (by decide)

end OsLabs.LibC
