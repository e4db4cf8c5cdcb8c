import Mathlib.Data.List.Basic
import Mathlib.Data.List.Induction

/-!
# Copying bytes

Memory is a function from addresses to values. `copy` is `memcpy`: what is copied is read back (`copy_add`), the rest
stays (`copy_of_not_mem`), and copies put together (`copy_append`), also through a buffer in between
(`copy_buffer`, `copy_through`).

After writes one after the other (`afterWrites`), each address has what the last write to it wrote (`afterWrites_apply`).

A number of 32 bits takes four bytes, the lowest first: `leBytes` and `le32`.
-/

namespace OsLabs.Lib

/-! ## Copies -/

section Copy

variable {α : Type*} {dst src buf : ℕ → α} {a b i k n : ℕ}

/-- `n` values of `src` from `b` on are copied to `a`. -/
def copy (dst : ℕ → α) (a : ℕ) (src : ℕ → α) (b n : ℕ) : ℕ → α :=
  fun i => if a ≤ i ∧ i < a + n then src (b + (i - a)) else dst i

lemma copy_of_mem (ha : a ≤ i) (hi : i < a + n) : copy dst a src b n i = src (b + (i - a)) :=
  if_pos ⟨ha, hi⟩

lemma copy_of_not_mem (h : i < a ∨ a + n ≤ i) : copy dst a src b n i = dst i := by
  apply if_neg
  omega

@[simp] lemma copy_add (h : i < n) : copy dst a src b n (a + i) = src (b + i) := by
  rw [copy_of_mem (by omega) (by omega), Nat.add_sub_cancel_left]

@[simp] lemma copy_zero : copy dst a src b 0 = dst := by
  funext i
  exact copy_of_not_mem (by omega)

/-- One copy after the other, of what follows. -/
lemma copy_append : copy (copy dst a src b n) (a + n) src (b + n) k = copy dst a src b (n + k) := by
  funext i
  by_cases hk : a + n ≤ i ∧ i < a + n + k
  · rw [copy_of_mem hk.1 hk.2, copy_of_mem (by omega) (by omega)]
    congr 1
    omega
  · rw [copy_of_not_mem (by omega)]
    by_cases hn : a ≤ i ∧ i < a + n
    · rw [copy_of_mem hn.1 hn.2, copy_of_mem (by omega) (by omega)]
    · rw [copy_of_not_mem (by omega), copy_of_not_mem (by omega)]

/-- A part of a buffer that was filled from `src`. -/
lemma copy_buffer (h : k + i ≤ n) : copy dst a (copy buf 0 src b n) k i = copy dst a src (b + k) i := by
  funext j
  by_cases hj : a ≤ j ∧ j < a + i
  · rw [copy_of_mem hj.1 hj.2, copy_of_mem hj.1 hj.2, copy_of_mem (by omega) (by omega)]
    congr 1
    omega
  · rw [copy_of_not_mem (by omega), copy_of_not_mem (by omega)]

/-- A block that is read, changed in part and written back. -/
lemma copy_through (h : k + i ≤ n) :
    copy dst a (copy (copy buf 0 dst a n) k src b i) 0 n = copy dst (a + k) src b i := by
  funext j
  by_cases hj : a ≤ j ∧ j < a + n
  · rw [copy_of_mem hj.1 hj.2]
    by_cases hi : a + k ≤ j ∧ j < a + k + i
    · rw [copy_of_mem (by omega) (by omega), copy_of_mem hi.1 hi.2]
      congr 1
      omega
    · have hread : copy (copy buf 0 dst a n) k src b i (0 + (j - a)) = copy buf 0 dst a n (0 + (j - a)) :=
        copy_of_not_mem (by omega)
      rw [hread, copy_of_mem (by omega) (by omega), copy_of_not_mem (by omega)]
      congr 1
      omega
  · rw [copy_of_not_mem (by omega), copy_of_not_mem (by omega)]

lemma copy_congr {src' : ℕ → α} (h : ∀ i < n, src (b + i) = src' (k + i)) :
    copy dst a src b n = copy dst a src' k n := by
  funext j
  by_cases hj : a ≤ j ∧ j < a + n
  · rw [copy_of_mem hj.1 hj.2, copy_of_mem hj.1 hj.2, h _ (by omega)]
  · rw [copy_of_not_mem (by omega), copy_of_not_mem (by omega)]

/-- A copy inside of a part of the memory. -/
lemma copy_shift (m src : ℕ → α) (c a b n : ℕ) :
    (fun p => copy m (c + a) src b n (c + p)) = copy (fun p => m (c + p)) a src b n := by
  funext p
  by_cases hp : a ≤ p ∧ p < a + n
  · rw [copy_of_mem (by omega) (by omega), copy_of_mem hp.1 hp.2]
    congr 1
    omega
  · rw [copy_of_not_mem (by omega), copy_of_not_mem (by omega)]

end Copy

/-! ## Writes -/

/-- The first `count` values of a buffer are written at `offset`. -/
structure Write (α : Type*) where
  offset : ℕ
  buffer : ℕ → α
  count : ℕ

section Writes

variable {α : Type*}

/-- The memory after a write. -/
def Write.apply (x : Write α) (m : ℕ → α) : ℕ → α :=
  copy m x.offset x.buffer 0 x.count

/-- The write is one to address `p`. -/
def Write.covers (x : Write α) (p : ℕ) : Bool :=
  x.offset ≤ p ∧ p < x.offset + x.count

/-- The memory after writes, the last one at the end. -/
def afterWrites (m : ℕ → α) (ws : List (Write α)) : ℕ → α :=
  ws.foldl (fun m x => x.apply m) m

/-- What the last write to `p` wrote there, or what was there before if there is none. -/
def lastWritten (m : ℕ → α) (ws : List (Write α)) (p : ℕ) : α :=
  match ws.reverse.find? fun x => x.covers p with
  | some x => x.buffer (p - x.offset)
  | none => m p

lemma afterWrites_snoc (m : ℕ → α) (ws : List (Write α)) (x : Write α) :
    afterWrites m (ws ++ [x]) = x.apply (afterWrites m ws) := by
  unfold afterWrites
  rw [List.foldl_append]
  rfl

lemma afterWrites_append (m : ℕ → α) (ws ws' : List (Write α)) :
    afterWrites m (ws ++ ws') = afterWrites (afterWrites m ws) ws' :=
  List.foldl_append

lemma Write.apply_eq (x : Write α) (m : ℕ → α) (p : ℕ) :
    x.apply m p = if x.covers p then x.buffer (p - x.offset) else m p := by
  simp only [Write.apply, Write.covers, copy, decide_eq_true_eq, Nat.zero_add]

/-- Each address has what the last write to it wrote. -/
lemma afterWrites_apply (m : ℕ → α) (ws : List (Write α)) (p : ℕ) : afterWrites m ws p = lastWritten m ws p := by
  induction ws using List.reverseRecOn with
  | nil => rfl
  | append_singleton ws x ih =>
    rw [afterWrites_snoc, Write.apply_eq, ih]
    unfold lastWritten
    rw [List.reverse_append, List.reverse_singleton, List.singleton_append, List.find?_cons]
    cases x.covers p <;> rfl

/-- Addresses that agree before the writes agree after them. -/
lemma afterWrites_congr {m m' : ℕ → α} {p : ℕ} (h : m p = m' p) (ws : List (Write α)) :
    afterWrites m ws p = afterWrites m' ws p := by
  rw [afterWrites_apply, afterWrites_apply]
  unfold lastWritten
  rw [h]

end Writes

/-! ## Numbers -/

/-- The bytes of a number, the lowest first. -/
def leBytes (v : ℕ) : ℕ → UInt8
  | 0 => UInt8.ofNat v
  | k + 1 => leBytes (v / 256) k

/-- The number of 32 bits at address `i`. -/
def le32 (m : ℕ → UInt8) (i : ℕ) : ℕ :=
  (m i).toNat + 256 * ((m (i + 1)).toNat + 256 * ((m (i + 2)).toNat + 256 * (m (i + 3)).toNat))

lemma le32_congr {m m' : ℕ → UInt8} {i j : ℕ} (h : ∀ k < 4, m (i + k) = m' (j + k)) : le32 m i = le32 m' j := by
  have h0 := h 0 (by omega)
  rw [Nat.add_zero, Nat.add_zero] at h0
  rw [le32, le32, h0, h 1 (by omega), h 2 (by omega), h 3 (by omega)]

lemma le32_leBytes {v : ℕ} (hv : v < 4294967296) : le32 (leBytes v) 0 = v := by
  simp only [le32, leBytes, UInt8.toNat_ofNat']
  omega

lemma le32_lt (m : ℕ → UInt8) (i : ℕ) : le32 m i < 4294967296 := by
  have h0 := (m i).toNat_lt
  have h1 := (m (i + 1)).toNat_lt
  have h2 := (m (i + 2)).toNat_lt
  have h3 := (m (i + 3)).toNat_lt
  rw [le32]
  omega

end OsLabs.Lib
