import Mathlib.Data.List.Basic

/-!
# Strings in memory

Memory is a function from addresses to bytes. A string is a run of bytes that are not 0, and a 0 after them.

* `StringAt m i w`: the string at address `i` is `w`;
* `putString` stores a string with its terminator, `readString` reads one back;
* a string is determined by the memory it is in (`StringAt.unique`), and depends on the bytes up to its terminator
  only (`StringAt.congr`).
-/

namespace OsLabs.Lib

open Function

/-- The characters of a string, without the terminator. -/
structure CStr where
  chars : List UInt8
  nonzero : ∀ c ∈ chars, c ≠ 0

instance CStr.decidableNonzero (w : List UInt8) : Decidable (∀ c ∈ w, c ≠ 0) := List.decidableBAll _ w

/-- The string at address `i` is `w`. -/
def StringAt (m : ℕ → UInt8) : ℕ → List UInt8 → Prop
  | i, [] => m i = 0
  | i, c :: w => m i = c ∧ c ≠ 0 ∧ StringAt m (i + 1) w

/-- Store `w` and a terminator at address `i`. -/
def putString (m : ℕ → UInt8) : ℕ → List UInt8 → ℕ → UInt8
  | i, [] => update m i 0
  | i, c :: w => putString (update m i c) (i + 1) w

/-- The bytes from address `i` up to the first 0, at most `n` of them. -/
def readString (m : ℕ → UInt8) : ℕ → ℕ → List UInt8
  | 0, _ => []
  | n + 1, i => if m i = 0 then [] else m i :: readString m n (i + 1)

variable {m m' : ℕ → UInt8} {i : ℕ} {w : List UInt8} {n : ℕ}

section StringAt

variable (h : StringAt m i w)
include h

lemma StringAt.unique {w' : List UInt8} (h' : StringAt m i w') : w = w' := by
  induction w generalizing i w' with
  | nil =>
    cases w' with
    | nil => rfl
    | cons c w' =>
      have hzero : m i = 0 := h
      exact absurd (h'.1.symm.trans hzero) h'.2.1
  | cons c w ih =>
    cases w' with
    | nil =>
      have hzero : m i = 0 := h'
      exact absurd (h.1.symm.trans hzero) h.2.1
    | cons c' w' => rw [← h.1, ← h'.1, ih h.2.2 h'.2.2]

/-- A string is at another place too, if the bytes there are the same. -/
lemma StringAt.move {k : ℕ} (heq : ∀ j ≤ w.length, m' (k + j) = m (i + j)) : StringAt m' k w := by
  induction w generalizing i k with
  | nil =>
    have hzero : m i = 0 := h
    exact (heq 0 (Nat.le_refl 0)).trans hzero
  | cons c w ih =>
    refine ⟨(heq 0 (Nat.zero_le _)).trans h.1, h.2.1, ih h.2.2 fun j hj => ?_⟩
    rw [Nat.add_assoc, Nat.add_assoc, Nat.add_comm 1 j]
    exact heq (j + 1) (Nat.succ_le_succ hj)

lemma StringAt.congr (heq : ∀ j, i ≤ j → j ≤ i + w.length → m' j = m j) :
    StringAt m' i w :=
  h.move fun j hj => heq (i + j) (by omega) (by omega)

/-- The terminator. -/
lemma StringAt.terminator : m (i + w.length) = 0 := by
  induction w generalizing i with
  | nil => exact h
  | cons c w ih =>
    have hrest := ih h.2.2
    rw [List.length_cons]
    rw [show i + (w.length + 1) = i + 1 + w.length by omega]
    exact hrest

theorem StringAt.getElem? {j : ℕ} {c : UInt8} (hj : w[j]? = some c) : m (i + j) = c := by
  induction w generalizing i j with
  | nil => cases hj
  | cons b w ih =>
    cases j with
    | zero =>
      obtain rfl : b = c := Option.some.inj hj
      exact h.1
    | succ j =>
      have hrest := ih h.2.2 hj
      rw [show i + (j + 1) = i + 1 + j by omega]
      exact hrest

/-- A string whose terminator is among the bytes looked at is read back. -/
lemma StringAt.readString_eq (hn : w.length ≤ n) :
    readString m n i = w := by
  induction w generalizing i n with
  | nil =>
    have hzero : m i = 0 := h
    cases n with
    | zero => rfl
    | succ n => rw [readString, if_pos hzero]
  | cons c w ih =>
    cases n with
    | zero => simp at hn
    | succ n =>
      have hne : m i ≠ 0 := by
        rw [h.1]
        exact h.2.1
      rw [readString, if_neg hne, h.1, ih h.2.2 (by simpa using hn)]

end StringAt

/-- What is read is the string there if it ends before the bytes looked at do. -/
lemma stringAt_of_length_lt (h : (readString m n i).length < n) : StringAt m i (readString m n i) := by
  induction n generalizing i with
  | zero => omega
  | succ n ih =>
    rw [readString] at h ⊢
    split at h
    · rename_i hzero
      rw [if_pos hzero]
      exact hzero
    · rename_i hne
      rw [if_neg hne]
      exact ⟨rfl, hne, ih (Nat.lt_of_succ_lt_succ h)⟩

lemma length_readString_lt (hzero : ∃ j, i ≤ j ∧ j < i + n ∧ m j = 0) : (readString m n i).length < n := by
  induction n generalizing i with
  | zero =>
    omega
  | succ n ih =>
    rw [readString]
    split
    · exact Nat.succ_pos n
    · rename_i hne
      obtain ⟨j, hj, hj', hm⟩ := hzero
      have hji : j ≠ i := by
        rintro rfl
        exact hne hm
      exact Nat.succ_lt_succ (ih ⟨j, by omega, by omega, hm⟩)

/-- If there is a 0 among the bytes looked at, then what is read is the string there. -/
lemma stringAt_readString (hzero : ∃ j, i ≤ j ∧ j < i + n ∧ m j = 0) : StringAt m i (readString m n i) :=
  stringAt_of_length_lt (length_readString_lt hzero)

lemma readString_congr (heq : ∀ j, i ≤ j → j < i + n → m' j = m j) :
    readString m' n i = readString m n i := by
  induction n generalizing i with
  | zero => rfl
  | succ n ih =>
    rw [readString, readString, heq i (by omega) (by omega), ih fun j hj hj' => heq j (by omega) (by omega)]

/-- Outside of the string and its terminator nothing is stored. -/
lemma putString_of_not_mem {j : ℕ} (hj : j < i ∨ i + w.length < j) : putString m i w j = m j := by
  induction w generalizing m i with
  | nil =>
    have hne : j ≠ i := by
      omega
    rw [putString, update_of_ne hne]
  | cons c w ih =>
    rw [List.length_cons] at hj
    have hne : j ≠ i := by omega
    rw [putString, ih (by omega), update_of_ne hne]

/-- The terminator is stored last. -/
lemma putString_terminator (m) (i : ℕ) (w) : putString m i w (i + w.length) = 0 := by
  induction w generalizing m i with
  | nil => simp [putString]
  | cons c w ih =>
    rw [List.length_cons, show i + (w.length + 1) = i + 1 + w.length by omega]
    exact ih _ _

lemma stringAt_putString (hw : ∀ c ∈ w, c ≠ 0) : StringAt (putString m i w) i w := by
  induction w generalizing m i with
  | nil => simp [StringAt, putString]
  | cons c w ih =>
    refine ⟨?_, hw c List.mem_cons_self, ih fun b hb => hw b (List.mem_cons_of_mem c hb)⟩
    rw [putString, putString_of_not_mem (Or.inl (by omega)), update_self]

end OsLabs.Lib
