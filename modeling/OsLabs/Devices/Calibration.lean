import Mathlib.Algebra.Group.Nat.Defs
import Mathlib.Data.Nat.Log
import Mathlib.Data.Nat.Size
import OsLabs.Lib.Yields

/-!
# Timer calibration

`timer_calibrate` of `devices/timer.c`. It looks for the largest number of loops that takes no more than one timer tick:
first for the leading bit of that number, then for the bits after it.

For the bits after the leading one, it tests `high_bit | test_bit` and not `loops_per_tick | test_bit`. So every bit is
accepted that is not too large by itself, and the result is above the threshold unless the accepted bits are those of the
threshold (`timer_calibrate_below_iff`).
-/

namespace OsLabs.Devices

open Lib

/-! ## The code

`too_many_loops` is a parameter: what it answers depends on the speed of the machine. -/

/-- The first loop of `timer_calibrate`. `none` if its assertion fails. -/
def doubleLoops (tooManyLoops : UInt32 → Bool) : ℕ → UInt32 → Option UInt32
  | 0, _ => none
  | fuel + 1, loopsPerTick =>
    if !tooManyLoops (loopsPerTick <<< 1) then
      let loopsPerTick := loopsPerTick <<< 1
      if loopsPerTick = 0 then none else doubleLoops tooManyLoops fuel loopsPerTick
    else some loopsPerTick

/-- The second loop of `timer_calibrate`. -/
def refineLoops (tooManyLoops : UInt32 → Bool) (highBit : UInt32) : ℕ → UInt32 → UInt32 → Option UInt32
  | 0, _, _ => none
  | fuel + 1, testBit, loopsPerTick =>
    if testBit ≠ highBit >>> 10 then
      let loopsPerTick := if !tooManyLoops (highBit ||| testBit) then loopsPerTick ||| testBit else loopsPerTick
      refineLoops tooManyLoops highBit fuel (testBit >>> 1) loopsPerTick
    else some loopsPerTick

/-- `timer_calibrate`: the value of `loops_per_tick`. -/
def timerCalibrate (tooManyLoops : UInt32 → Bool) (fuel : ℕ) : Option UInt32 := do
  let highBit ← doubleLoops tooManyLoops fuel ((1 : UInt32) <<< 10)
  refineLoops tooManyLoops highBit fuel (highBit >>> 1) highBit

/-! ## The leading bit -/

/-- More than `T` loops are too many. -/
def Threshold (T : ℕ) (tooManyLoops : UInt32 → Bool) : Prop :=
  ∀ n, tooManyLoops n = decide (T < n.toNat)

/-- The largest power of two that is not above `T`. -/
def highBit (T : ℕ) : ℕ :=
  2 ^ Nat.log2 T

variable {T K : ℕ} {tooManyLoops : UInt32 → Bool}

lemma not_too_many_iff (h : Threshold T tooManyLoops) (n : UInt32) : (!tooManyLoops n) = true ↔ n.toNat ≤ T := by
  rw [h n, Bool.not_eq_true', decide_eq_false_iff_not, Nat.not_lt]

lemma toNat_shiftLeft_one {x : UInt32} {k : ℕ} (hx : x.toNat = 2 ^ k) (hk : k + 1 ≤ 31) : (x <<< 1).toNat = 2 ^ (k + 1) := by
  have hlt : 2 ^ (k + 1) < 2 ^ 32 := Nat.pow_lt_pow_right Nat.one_lt_two (by omega)
  show x.toNat <<< 1 % 2 ^ 32 = 2 ^ (k + 1)
  rw [Nat.shiftLeft_eq, hx, ← Nat.pow_succ, Nat.mod_eq_of_lt hlt]

/-- The first loop stops at the largest power of two that is not above `T`. -/
lemma doubleLoops_spec (h : Threshold T tooManyLoops) (hT : T < 2 ^ 31) {n k : ℕ} {x : UInt32} (hx : x.toNat = 2 ^ k)
    (hlow : 2 ^ k ≤ T) (hn : Nat.log2 T = k + n) :
    ∃ r : UInt32, r.toNat = highBit T ∧ Returns (fun fuel => doubleLoops tooManyLoops fuel x) r := by
  have hne : T ≠ 0 := by
    have := Nat.two_pow_pos k
    omega
  have hlog : Nat.log2 T < 31 := (Nat.log2_lt hne).mpr hT
  have hshift := toNat_shiftLeft_one hx (by omega)
  induction n generalizing k x with
  | zero =>
    -- one more doubling is too much
    have hlt : T < 2 ^ (k + 1) := (Nat.log2_lt hne).mp (by omega)
    have hstop : ¬(!tooManyLoops (x <<< 1)) = true := by
      rw [not_too_many_iff h]
      omega
    refine ⟨x, ?_, 1, fun fuel hfuel => ?_⟩
    · rw [hx, highBit, hn, Nat.add_zero]
    · obtain ⟨fuel, rfl⟩ : ∃ f, fuel = f + 1 := ⟨fuel - 1, by omega⟩
      show doubleLoops tooManyLoops (fuel + 1) x = some x
      rw [doubleLoops, if_neg hstop]
  | succ n ih =>
    have hle : 2 ^ (k + 1) ≤ T := (Nat.le_log2 hne).mp (by omega)
    have hgo : (!tooManyLoops (x <<< 1)) = true := by
      rw [not_too_many_iff h, hshift]
      exact hle
    have hnz : x <<< 1 ≠ 0 := by
      intro hzero
      rw [hzero] at hshift
      exact absurd hshift.symm (Nat.two_pow_pos _).ne'
    obtain ⟨r, hr, hreturns⟩ := ih hshift hle (by omega) (toNat_shiftLeft_one hshift (by omega))
    refine ⟨r, hr, hreturns.succ fun fuel => ?_⟩
    rw [doubleLoops, if_pos hgo]
    exact if_neg hnz

/-! ## The bits after it

Bit `e` is accepted if `2 ^ e` is not above the rest `T - high_bit`, so if `e` is below the size `t` of this rest. -/

lemma toNat_shiftRight_one {x : UInt32} {e : ℕ} (hx : x.toNat = 2 ^ (e + 1)) : (x >>> 1).toNat = 2 ^ e := by
  show x.toNat >>> 1 = 2 ^ e
  rw [Nat.shiftRight_eq_div_pow, hx, Nat.pow_succ, Nat.mul_div_cancel _ Nat.two_pos]

/-- A bit below all the bits of a number. -/
lemma or_two_pow {x b : UInt32} {e : ℕ} (hb : b.toNat = 2 ^ e) (hx : 2 ^ (e + 1) ∣ x.toNat) :
    (x ||| b).toNat = x.toNat + 2 ^ e := by
  obtain ⟨c, hc⟩ := hx
  rw [UInt32.toNat_or, hb, hc, Nat.two_pow_add_eq_or_of_lt (Nat.pow_lt_pow_right Nat.one_lt_two (Nat.lt_succ_self e))]

/-- The loop has looked at the bits above `e`, and those below the size `t` of the rest have been accepted. -/
def Accepted (K t e x : ℕ) : Prop :=
  x + 2 ^ (e + 1) = 2 ^ K + 2 ^ max t (e + 1)

lemma Accepted.dvd {K t e x : ℕ} (h : Accepted K t e x) (he : e < K) : 2 ^ (e + 1) ∣ x := by
  have hsum : 2 ^ (e + 1) ∣ x + 2 ^ (e + 1) := by
    rw [h]
    exact Nat.dvd_add (Nat.pow_dvd_pow 2 he) (Nat.pow_dvd_pow 2 (Nat.le_max_right ..))
  exact (Nat.dvd_add_left (Nat.dvd_refl _)).mp hsum

lemma Accepted.accept {K t e x : ℕ} (h : Accepted K t (e + 1) x) (he : e + 1 < t) : Accepted K t e (x + 2 ^ (e + 1)) := by
  unfold Accepted at *
  rw [max_eq_left (by omega)] at h ⊢
  omega

lemma Accepted.reject {K t e x : ℕ} (h : Accepted K t (e + 1) x) (he : t ≤ e + 1) : Accepted K t e x := by
  unfold Accepted at *
  rw [max_eq_right (by omega)] at h ⊢
  omega

lemma two_pow_le_rest_iff (hT : 2 ^ K ≤ T) (e : ℕ) : 2 ^ K + 2 ^ e ≤ T ↔ e < (T - 2 ^ K).size := by
  rw [Nat.lt_size]
  omega

/-- The second loop, from bit `e` on. -/
lemma refineLoops_spec (h : Threshold T tooManyLoops) {n e : ℕ} {high b x : UInt32} (hhigh : high.toNat = 2 ^ (e + 10))
    (hK : K = e + 10) (hT : 2 ^ K ≤ T) (hb : b.toNat = 2 ^ (e + n)) (hn : n < 10)
    (hx : Accepted K (T - 2 ^ K).size (e + n) x.toNat) :
    ∃ r : UInt32, Accepted K (T - 2 ^ K).size e r.toNat ∧ Returns (fun fuel => refineLoops tooManyLoops high fuel b x) r := by
  have hlast : (high >>> 10).toNat = 2 ^ e := by
    show high.toNat >>> 10 = 2 ^ e
    rw [Nat.shiftRight_eq_div_pow, hhigh, Nat.pow_add, Nat.mul_div_cancel _ (Nat.two_pow_pos 10)]
  induction n generalizing b x with
  | zero =>
    have heq : b = high >>> 10 := by
      rw [← UInt32.toNat_inj, hb, hlast]
      rfl
    refine ⟨x, hx, 1, fun fuel hfuel => ?_⟩
    obtain ⟨fuel, rfl⟩ : ∃ f, fuel = f + 1 := ⟨fuel - 1, by omega⟩
    show refineLoops tooManyLoops high (fuel + 1) b x = some x
    rw [refineLoops, if_neg (not_not.mpr heq)]
  | succ n ih =>
    have hne : b ≠ high >>> 10 := by
      intro heq
      rw [heq, hlast] at hb
      have := Nat.pow_right_injective (Nat.le_refl 2) hb
      omega
    have hnext : (b >>> 1).toNat = 2 ^ (e + n) := toNat_shiftRight_one hb
    have htest : (high ||| b).toNat = 2 ^ K + 2 ^ (e + (n + 1)) := by
      rw [or_two_pow hb, hhigh, hK]
      rw [hhigh]
      exact Nat.pow_dvd_pow 2 (by omega)
    have haccept : (!tooManyLoops (high ||| b)) = true ↔ e + n + 1 < (T - 2 ^ K).size := by
      rw [not_too_many_iff h, htest]
      exact two_pow_le_rest_iff hT _
    by_cases hbit : e + n + 1 < (T - 2 ^ K).size
    · have hor : (x ||| b).toNat = x.toNat + 2 ^ (e + n + 1) := or_two_pow hb (hx.dvd (by omega))
      have hx' : Accepted K (T - 2 ^ K).size (e + n) (x ||| b).toNat := by
        rw [hor]
        exact hx.accept hbit
      obtain ⟨r, hr, hreturns⟩ := ih hnext (by omega) hx'
      refine ⟨r, hr, hreturns.succ fun fuel => ?_⟩
      rw [refineLoops, if_pos hne, if_pos (haccept.mpr hbit)]
    · obtain ⟨r, hr, hreturns⟩ := ih hnext (by omega) (Accepted.reject hx (Nat.le_of_not_lt hbit))
      refine ⟨r, hr, hreturns.succ fun fuel => ?_⟩
      rw [refineLoops, if_pos hne, if_neg fun hacc => hbit (haccept.mp hacc)]

/-! ## The result -/

/-- `timer_calibrate` accepts all the bits below the size of the rest. -/
lemma timerCalibrate_spec (h : Threshold T tooManyLoops) {e : ℕ} (hlog : Nat.log2 T = e + 10) (hT : T < 2 ^ 31) :
    ∃ r : UInt32, Accepted (e + 10) (T - highBit T).size e r.toNat ∧ Returns (timerCalibrate tooManyLoops) r := by
  have hne : T ≠ 0 := by
    rintro rfl
    cases hlog
  have hlow : 2 ^ (e + 10) ≤ T := (Nat.le_log2 hne).mp (by omega)
  have hrest : T < 2 ^ (e + 10 + 1) := (Nat.log2_lt hne).mp (by omega)
  have hstart : ((1 : UInt32) <<< 10).toNat = 2 ^ 10 := rfl
  have hten : 2 ^ 10 ≤ 2 ^ (e + 10) := Nat.pow_le_pow_right Nat.two_pos (by omega)
  obtain ⟨high, hhigh, hdouble⟩ := doubleLoops_spec h hT (n := e) hstart (le_trans hten hlow) (by omega)
  rw [highBit, hlog] at hhigh ⊢
  have hhalf : (high >>> 1).toNat = 2 ^ (e + 9) := toNat_shiftRight_one hhigh
  -- the rest is below the leading bit
  have hsize : (T - 2 ^ (e + 10)).size ≤ e + 9 + 1 := by
    rw [Nat.size_le]
    show T - 2 ^ (e + 10) < 2 ^ (e + 10)
    omega
  have hbegin : Accepted (e + 10) (T - 2 ^ (e + 10)).size (e + 9) high.toNat := by
    unfold Accepted
    rw [max_eq_right hsize, hhigh]
  obtain ⟨r, hr, hrefine⟩ := refineLoops_spec h hhigh rfl hlow hhalf (by decide) hbegin
  exact ⟨r, hr, hdouble.bind hrefine⟩

/-- Where the accepted bits are those of the rest. `R` is the rest and `2 ^ (e + 1)` the last bit that is tested. -/
lemma Accepted.below_iff {e R x : ℕ} (h : Accepted (e + 10) R.size e x) :
    (x ≤ 2 ^ (e + 10) + R ∧ 2 ^ (e + 10) + R - x < 2 ^ (e + 1)) ↔ ∃ j, R / 2 ^ (e + 1) + 1 = 2 ^ j := by
  have hunit : 0 < 2 ^ (e + 1) := Nat.two_pow_pos _
  unfold Accepted at h
  by_cases hsize : R.size ≤ e + 1
  · -- no bit of the rest is tested
    have hlt : R < 2 ^ (e + 1) := Nat.size_le.mp hsize
    rw [max_eq_right hsize] at h
    constructor
    · intro _
      exact ⟨0, by rw [Nat.div_eq_of_lt hlt, Nat.pow_zero]⟩
    · intro _
      omega
  · obtain ⟨s, hs⟩ : ∃ s, R.size = e + 1 + (s + 1) := ⟨R.size - (e + 1) - 1, by omega⟩
    have hpow : 2 ^ R.size = 2 ^ (e + 1) * 2 ^ (s + 1) := by rw [hs, Nat.pow_add]
    have hlt : R < 2 ^ (e + 1) * 2 ^ (s + 1) := by
      rw [← hpow]
      exact Nat.lt_size_self R
    have hge : 2 ^ (e + 1) * 2 ^ s ≤ R := by
      rw [← Nat.pow_add]
      apply Nat.lt_size.mp
      omega
    have hdiv : R / 2 ^ (e + 1) < 2 ^ (s + 1) := by
      rw [Nat.div_lt_iff_lt_mul hunit, Nat.mul_comm]
      exact hlt
    have hdiv' : 2 ^ s ≤ R / 2 ^ (e + 1) := by
      rw [Nat.le_div_iff_mul_le hunit, Nat.mul_comm]
      exact hge
    rw [max_eq_left (by omega)] at h
    constructor
    · rintro ⟨hle, _⟩
      refine ⟨s + 1, ?_⟩
      have hfits : 2 ^ (s + 1) ≤ R / 2 ^ (e + 1) + 1 := by
        rw [← Nat.add_div_right _ hunit, Nat.le_div_iff_mul_le hunit, Nat.mul_comm]
        omega
      omega
    · rintro ⟨j, hj⟩
      -- the power of two is the one above the leading bit
      have hj' : j = s + 1 := by
        have hlow : s < j := (Nat.pow_lt_pow_iff_right Nat.one_lt_two).mp (by omega)
        have hhigh : j ≤ s + 1 := (Nat.pow_le_pow_iff_right Nat.one_lt_two).mp (by omega)
        omega
      have hmul : 2 ^ (e + 1) * (R / 2 ^ (e + 1)) ≤ R := Nat.mul_div_le ..
      have hfits : 2 ^ (e + 1) * (R / 2 ^ (e + 1) + 1) = 2 ^ (e + 1) * 2 ^ (s + 1) := by rw [hj, hj']
      rw [Nat.mul_add] at hfits
      omega

/-- The result is not above the threshold and within `high_bit / 512` of it exactly if no bit among the nine after the
leading one of the threshold is 0 after one that is 1. -/
theorem timer_calibrate_below_iff (hlow : 1024 ≤ T) (hhigh : T < 2 ^ 31) (h : Threshold T tooManyLoops) :
    (∃ r : UInt32, Returns (timerCalibrate tooManyLoops) r ∧ r.toNat ≤ T ∧ T - r.toNat < highBit T / 512) ↔
      ∃ j, (T - highBit T) / (highBit T / 512) + 1 = 2 ^ j := by
  have hne : T ≠ 0 := by omega
  obtain ⟨e, hlog⟩ : ∃ e, Nat.log2 T = e + 10 := by
    have : 10 ≤ Nat.log2 T := (Nat.le_log2 hne).mpr hlow
    exact ⟨Nat.log2 T - 10, by omega⟩
  obtain ⟨r, hr, hreturns⟩ := timerCalibrate_spec h hlog hhigh
  have hbit : highBit T = 2 ^ (e + 10) := by rw [highBit, hlog]
  have hunit : 2 ^ (e + 10) / 512 = 2 ^ (e + 1) := by
    rw [show e + 10 = e + 1 + 9 by omega, Nat.pow_add, Nat.mul_div_cancel _ (Nat.two_pow_pos 9)]
  have hle : 2 ^ (e + 10) ≤ T := (Nat.le_log2 hne).mp (by omega)
  rw [hbit] at hr ⊢
  rw [hunit, ← hr.below_iff, Nat.add_sub_cancel' hle]
  constructor
  · rintro ⟨r', hreturns', hbelow⟩
    rw [hreturns.unique hreturns']
    exact hbelow
  · intro hbelow
    exact ⟨r, hreturns, hbelow⟩

/-- A threshold at a power of two is found. -/
theorem timer_calibrate_below_power :
    (∃ r : UInt32, Returns (timerCalibrate fun n => decide (1024 < n.toNat)) r ∧ r.toNat ≤ 1024 ∧
      1024 - r.toNat < highBit 1024 / 512) ↔ ∃ j, (1024 - highBit 1024) / (highBit 1024 / 512) + 1 = 2 ^ j :=
  timer_calibrate_below_iff (by decide) (by decide) fun _ => rfl

/-- For a threshold of 1536 loops the result is 2046. -/
theorem timer_calibrate_too_many :
    Returns (timerCalibrate fun n => decide (1536 < n.toNat)) 2046 ∧ 1536 < (2046 : UInt32).toNat := by
  refine ⟨⟨11, fun fuel hfuel => ?_⟩, by decide⟩
  obtain ⟨fuel, rfl⟩ : ∃ f, fuel = f + 11 := ⟨fuel - 11, by omega⟩
  rfl

end OsLabs.Devices
