import Mathlib.Tactic.Linarith
import Mathlib.Tactic.Ring

/-!
# Quotients of wide numbers

A number of two digits is divided digit by digit (`div_two_digits`).

To divide by a wide number one divides by its leading bits first. With the last `k` bits of the divisor cleared, the
quotient is not too small, and if enough bits are left, it is too large by one at most (`div_truncated_le`).
-/

namespace OsLabs.Lib

variable {n d v k : ℕ}

/-- The quotient of the leading digit, and that of its remainder followed by the other digit. -/
lemma div_two_digits (b n1 n0 : ℕ) (hd : 0 < d) :
    (b * n1 + n0) / d = (b * (n1 % d) + n0) / d + b * (n1 / d) := by
  have hsplit : b * n1 + n0 = b * (n1 % d) + n0 + d * (b * (n1 / d)) := by
    calc b * n1 + n0 = b * (d * (n1 / d) + n1 % d) + n0 := by rw [Nat.div_add_mod]
      _ = b * (n1 % d) + n0 + d * (b * (n1 / d)) := by ring
  rw [hsplit, Nat.add_mul_div_left _ _ hd]

/-- The second of these quotients is a digit. -/
lemma div_second_digit_lt {b n0 : ℕ} (n1 : ℕ) (hd : 0 < d) (hn0 : n0 < b) : (b * (n1 % d) + n0) / d < b := by
  rw [Nat.div_lt_iff_lt_mul hd]
  have hmod : n1 % d + 1 ≤ d := Nat.mod_lt n1 hd
  calc b * (n1 % d) + n0 < b * (n1 % d + 1) := by rw [Nat.mul_add, Nat.mul_one]; omega
    _ ≤ b * d := Nat.mul_le_mul_left b hmod

/-- What a divisor loses with its last `k` bits. -/
lemma truncated_le (d k : ℕ) : d / 2 ^ k * 2 ^ k ≤ d ∧ d < d / 2 ^ k * 2 ^ k + 2 ^ k := by
  have hpow : 0 < 2 ^ k := Nat.two_pow_pos k
  have hmod := Nat.mod_lt d hpow
  have hdiv := Nat.div_add_mod' d (2 ^ k)
  omega

/-- A smaller divisor gives a quotient that is not smaller. -/
lemma le_div_truncated (n : ℕ) (hv : 0 < d / 2 ^ k) : n / d ≤ n / (d / 2 ^ k * 2 ^ k) :=
  Nat.div_le_div_left (truncated_le d k).1 (Nat.mul_pos hv (Nat.two_pow_pos k))

/-- With `w` bits of the divisor left, the quotient of a number of `2 * w + 2` bits is too large by one at most. -/
lemma div_truncated_le {w : ℕ} (hk : 0 < k) (hn : n < 2 ^ (2 * w + 2)) (hv : 2 ^ w ≤ d / 2 ^ k) :
    n / (d / 2 ^ k * 2 ^ k) ≤ n / d + 1 := by
  obtain ⟨hle, hlt⟩ := truncated_le d k
  have hpow : 2 ^ k = 2 ∨ 4 ≤ 2 ^ k := by
    obtain rfl | hk : k = 1 ∨ 2 ≤ k := by omega
    · exact Or.inl rfl
    · exact Or.inr (Nat.pow_le_pow_right Nat.zero_lt_two hk)
  have hbits : 2 ^ (2 * w + 2) = 4 * (2 ^ w * 2 ^ w) := by ring
  have hmul : 2 ^ w * 2 ^ k ≤ d / 2 ^ k * 2 ^ k := Nat.mul_le_mul_right _ hv
  have hwpos : 0 < 2 ^ w := Nat.two_pow_pos w
  generalize d / 2 ^ k * 2 ^ k = m at hle hlt hmul ⊢
  generalize 2 ^ w = b at hbits hmul hwpos
  generalize 2 ^ k = c at hlt hpow hmul
  rw [hbits] at hn
  have hmpos : 0 < m := lt_of_lt_of_le (Nat.mul_pos hwpos (by omega)) hmul
  by_contra hcon
  obtain ⟨e, rfl⟩ : ∃ e, d = m + e := ⟨d - m, by omega⟩
  -- `Q + 1` times the divisor is above `n`, and `Q + 2` times the truncated one is not
  have hupper : n < (n / (m + e) + 1) * (m + e) := by
    rw [Nat.mul_comm]
    exact Nat.lt_mul_div_succ n (by omega)
  have hlower : (n / (m + e) + 2) * m ≤ n :=
    (Nat.le_div_iff_mul_le hmpos).mp (by omega)
  have hquot : n / (m + e) * (m + e) ≤ n := Nat.div_mul_le_self n (m + e)
  generalize n / (m + e) = Q at hupper hlower hquot
  have hgap : m < (Q + 1) * e := by nlinarith
  -- so the quotient has at least `w` bits
  have hQ : b < Q + 1 := by
    by_contra hsmall
    have hsmall : Q + 1 ≤ b := by omega
    have hbound : (Q + 1) * e ≤ b * c := Nat.mul_le_mul hsmall (by omega)
    omega
  have hprod : b * (m + e) ≤ Q * (m + e) := Nat.mul_le_mul_right _ (by omega)
  rcases hpow with rfl | hc
  · -- only one bit was cleared, and the quotient is not below the truncated divisor
    obtain rfl : e = 1 := by
      have hne : e ≠ 0 := by
        rintro rfl
        omega
      omega
    have hsquare : b * 2 * (b * 2 + 1) ≤ Q * (m + 1) := Nat.mul_le_mul (by omega) (by omega)
    nlinarith
  · have hd : b * 4 ≤ m + e := le_trans (Nat.mul_le_mul_left b hc) (by omega)
    have hsquare : b * (b * 4) ≤ b * (m + e) := Nat.mul_le_mul_left b hd
    nlinarith

end OsLabs.Lib
