import Mathlib.Data.List.TakeWhile
import OsLabs.Lib.CString
import OsLabs.Lib.Yields

/-!
# Code on one string

Code that gets a pointer to a string may use the bytes of the string and its terminator, and no others. `fetch` and `store`
check each address against these bounds. Loops stop when their fuel is used up.

`skipWhile_eq` says where the loop `while (test (*p)) p++;` stops; `strlen` is such a loop.
-/

namespace OsLabs.Lib

open Function

/-- What goes wrong: a byte outside of the string is used, or the fuel is used up. -/
inductive StringFault where
  | outside
  | fuel
  deriving DecidableEq

/-- The bytes that the code may use. -/
structure Bounds where
  first : ℕ
  last : ℕ

/-- `*p`. -/
def fetch (r : Bounds) (m : ℕ → UInt8) (p : ℕ) : Except StringFault UInt8 :=
  if r.first ≤ p ∧ p ≤ r.last then .ok (m p) else .error .outside

/-- `*p = c`. -/
def store (r : Bounds) (m : ℕ → UInt8) (p : ℕ) (c : UInt8) : Except StringFault (ℕ → UInt8) :=
  if r.first ≤ p ∧ p ≤ r.last then .ok (update m p c) else .error .outside

/-- The loop `while (test (*p)) p++;`. -/
def skipWhile (r : Bounds) (m : ℕ → UInt8) (test : UInt8 → Bool) : ℕ → ℕ → Except StringFault ℕ
  | 0, _ => .error .fuel
  | fuel + 1, p => do
    let c ← fetch r m p
    if test c then skipWhile r m test fuel (p + 1) else return p

/-- `strlen`. -/
def strlen (r : Bounds) (m : ℕ → UInt8) (fuel p : ℕ) : Except StringFault ℕ := do
  let q ← skipWhile r m (· != 0) fuel p
  return q - p

variable {r : Bounds} {m : ℕ → UInt8} {p fuel : ℕ} {u w : List UInt8} {test : UInt8 → Bool}

lemma fetch_eq (hfirst : r.first ≤ p) (hlast : p ≤ r.last) : fetch r m p = .ok (m p) :=
  if_pos ⟨hfirst, hlast⟩

lemma store_eq (hfirst : r.first ≤ p) (hlast : p ≤ r.last) (c : UInt8) : store r m p c = .ok (update m p c) :=
  if_pos ⟨hfirst, hlast⟩

/-- What follows in a string. -/
lemma StringAt.append (h : StringAt m p (u ++ w)) : StringAt m (p + u.length) w := by
  induction u generalizing p with
  | nil => exact h
  | cons c u ih =>
    rw [List.length_cons, show p + (u.length + 1) = p + 1 + u.length by omega]
    exact ih h.2.2

/-- A string that is cut off. -/
lemma StringAt.cut (h : StringAt m p (u ++ w)) : StringAt (update m (p + u.length) 0) p u := by
  induction u generalizing p with
  | nil => exact update_self ..
  | cons c u ih =>
    rw [List.length_cons, show p + (u.length + 1) = p + 1 + u.length by omega]
    exact ⟨(update_of_ne (by omega) _ _).trans h.1, h.2.1, ih h.2.2⟩

/-- The characters are not 0. -/
lemma StringAt.ne_zero (h : StringAt m p w) : ∀ c ∈ w, c ≠ 0 := by
  induction w generalizing p with
  | nil => exact nofun
  | cons c w ih => exact List.forall_mem_cons.mpr ⟨h.2.1, ih h.2.2⟩

/-- The loop stops at the first character that does not pass the test, at the latest at the terminator. -/
lemma skipWhile_eq (h : StringAt m p w) (hstop : test 0 = false) (hfirst : r.first ≤ p) (hlast : p + w.length ≤ r.last)
    (hfuel : w.length < fuel) : skipWhile r m test fuel p = .ok (p + (w.takeWhile test).length) := by
  induction w generalizing p fuel with
  | nil =>
    obtain ⟨fuel, rfl⟩ : ∃ k, fuel = k + 1 := ⟨fuel - 1, by omega⟩
    have hzero : m p = 0 := h
    rw [skipWhile, fetch_eq hfirst (by omega), except_ok_bind, hzero, hstop]
    rfl
  | cons c w ih =>
    obtain ⟨fuel, rfl⟩ : ∃ k, fuel = k + 1 := ⟨fuel - 1, by omega⟩
    rw [List.length_cons] at hlast hfuel
    rw [skipWhile, fetch_eq hfirst (by omega), except_ok_bind, h.1, List.takeWhile_cons]
    by_cases hc : test c
    · rw [if_pos hc, if_pos hc, ih h.2.2 (by omega) (by omega) (by omega), List.length_cons]
      congr 1
      omega
    · rw [if_neg hc, if_neg hc]
      rfl

lemma strlen_eq (h : StringAt m p w) (hfirst : r.first ≤ p) (hlast : p + w.length ≤ r.last) (hfuel : w.length < fuel) :
    strlen r m fuel p = .ok w.length := by
  have hall : w.takeWhile (· != 0) = w := List.takeWhile_eq_self_iff.mpr fun c hc => by simpa using h.ne_zero c hc
  rw [strlen, skipWhile_eq h rfl hfirst hlast hfuel, hall, except_ok_bind, Nat.add_sub_cancel_left]
  rfl

end OsLabs.Lib
