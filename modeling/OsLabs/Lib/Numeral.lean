import Mathlib.Data.List.Basic
import Mathlib.Tactic.Ring

/-!
# Numerals of a fixed width

`numeral b w v` are the last `w` digits of `v` in base `b`, the most significant one first, and `ofNumeral b` is the number
that digits stand for. They are inverse to each other for numbers below `b ^ w`.
-/

namespace OsLabs.Lib

/-- The last `w` digits of `v`. -/
def numeral (b : ℕ) : ℕ → ℕ → List ℕ
  | 0, _ => []
  | w + 1, v => numeral b w (v / b) ++ [v % b]

/-- The number that continues the digits of `v` with `ds`. -/
def ofNumeral (b v : ℕ) (ds : List ℕ) : ℕ :=
  ds.foldl (fun v d => d + v * b) v

variable {b w v : ℕ}

@[simp] lemma length_numeral (b w v : ℕ) : (numeral b w v).length = w := by
  induction w generalizing v with
  | zero => rfl
  | succ w ih => rw [numeral, List.length_append, ih, List.length_singleton]

lemma lt_of_mem_numeral (hb : 0 < b) {d : ℕ} (hd : d ∈ numeral b w v) : d < b := by
  induction w generalizing v with
  | zero => cases hd
  | succ w ih =>
    rw [numeral, List.mem_append, List.mem_singleton] at hd
    rcases hd with hd | hd
    · exact ih hd
    · rw [hd]
      exact Nat.mod_lt v hb

@[simp] lemma numeral_zero (b w : ℕ) : numeral b w 0 = List.replicate w 0 := by
  induction w with
  | zero => rfl
  | succ w ih => rw [numeral, Nat.zero_div, Nat.zero_mod, ih, List.replicate_succ']

/-- The digits of a number stand for it. -/
lemma ofNumeral_numeral (b w v : ℕ) : ofNumeral b 0 (numeral b w v) = v % b ^ w := by
  induction w generalizing v with
  | zero => rw [pow_zero, Nat.mod_one]; rfl
  | succ w ih =>
    have hsplit : v % b ^ (w + 1) = v % b + b * (v / b % b ^ w) := by
      rw [pow_succ', Nat.mod_mul]
    have hlast : ofNumeral b 0 (numeral b (w + 1) v) = v % b + ofNumeral b 0 (numeral b w (v / b)) * b := by
      rw [numeral, ofNumeral, List.foldl_append]
      rfl
    rw [hlast, ih, hsplit, Nat.mul_comm]

lemma ofNumeral_numeral_of_lt (h : v < b ^ w) : ofNumeral b 0 (numeral b w v) = v := by
  rw [ofNumeral_numeral, Nat.mod_eq_of_lt h]

/-- More digits do not make a number smaller. -/
lemma le_ofNumeral (hb : 0 < b) (v : ℕ) (ds : List ℕ) : v ≤ ofNumeral b v ds := by
  induction ds generalizing v with
  | nil => exact Nat.le_refl v
  | cons d ds ih =>
    have hstep : v ≤ d + v * b := by
      have hmul : v * 1 ≤ v * b := Nat.mul_le_mul_left v hb
      omega
    exact hstep.trans (ih (d + v * b))

end OsLabs.Lib
