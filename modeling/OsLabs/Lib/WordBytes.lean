import Mathlib.Algebra.Group.Nat.Defs
import Mathlib.Data.List.Range

/-!
# Bytes of words

Memory holds words of four bytes at the addresses that are multiples of four, the lowest byte first. `loadByte` and
`storeByte` are the accesses to single bytes, `storeBytes` is a loop that writes one byte after the other. What a byte
becomes may depend on the memory at that time, as in `memcpy`.
-/

namespace OsLabs.Lib

open Function

/-- Byte `j` of the word `w`. -/
def byteOf (w j : ℕ) : ℕ :=
  w / 256 ^ j % 256

/-- The word `w` with `v` for byte `j`. -/
def setByte (w j v : ℕ) : ℕ :=
  w - byteOf w j * 256 ^ j + v * 256 ^ j

lemma byteOf_setByte_self {w j v : ℕ} (hv : v < 256) : byteOf (setByte w j v) j = v := by
  have hpos : 0 < 256 ^ j := Nat.pow_pos (by omega)
  have hrest : (w - byteOf w j * 256 ^ j) / 256 ^ j % 256 = 0 := by
    rw [Nat.mul_comm, Nat.sub_mul_div]
    exact Nat.sub_mod_eq_zero_of_mod_eq (Nat.mod_mod _ _).symm
  unfold setByte
  rw [byteOf, Nat.add_mul_div_right _ _ hpos, Nat.add_mod, hrest, Nat.zero_add, Nat.mod_mod, Nat.mod_eq_of_lt hv]

lemma byteOf_setByte_of_ne {w i j v : ℕ} (hi : i < 4) (hj : j < 4) (hne : i ≠ j) (hv : v < 256) :
    byteOf (setByte w j v) i = byteOf w i := by
  unfold setByte byteOf
  -- both positions are numbers now
  obtain rfl | rfl | rfl | rfl : i = 0 ∨ i = 1 ∨ i = 2 ∨ i = 3 := by omega
  all_goals
    obtain rfl | rfl | rfl | rfl : j = 0 ∨ j = 1 ∨ j = 2 ∨ j = 3 := by omega
    all_goals
      simp only [Nat.reducePow]
      omega

section Bytes

variable {mem : ℕ → ℕ} {a b v n : ℕ}

def loadByte (mem : ℕ → ℕ) (a : ℕ) : ℕ :=
  byteOf (mem (a / 4 * 4)) (a % 4)

def storeByte (mem : ℕ → ℕ) (a v : ℕ) : ℕ → ℕ :=
  update mem (a / 4 * 4) (setByte (mem (a / 4 * 4)) (a % 4) v)

lemma loadByte_storeByte (hv : v < 256) :
    loadByte (storeByte mem a v) b = if b = a then v else loadByte mem b := by
  unfold loadByte storeByte
  by_cases hword : b / 4 * 4 = a / 4 * 4
  · rw [hword, update_self]
    by_cases hb : b = a
    · rw [if_pos hb, hb, byteOf_setByte_self hv]
    · rw [if_neg hb]
      exact byteOf_setByte_of_ne (Nat.mod_lt _ (by omega)) (Nat.mod_lt _ (by omega)) (by omega) hv
  · rw [update_of_ne hword, if_neg (by rintro rfl; exact hword rfl)]

lemma storeByte_of_ne {y : ℕ} (hy : y ≠ a / 4 * 4) : storeByte mem a v y = mem y :=
  update_of_ne hy ..

/-- The bytes of two memories are the same where the words are. -/
lemma loadByte_congr {mem' : ℕ → ℕ} (h : mem' (a / 4 * 4) = mem (a / 4 * 4)) : loadByte mem' a = loadByte mem a := by
  unfold loadByte
  rw [h]

/-- `n` bytes are written from `a` on, each as `f` says. -/
def storeBytes (mem : ℕ → ℕ) (a n : ℕ) (f : (ℕ → ℕ) → ℕ → ℕ) : ℕ → ℕ :=
  (List.range n).foldl (fun mem i => storeByte mem (a + i) (f mem i)) mem

lemma storeBytes_succ (mem : ℕ → ℕ) (a n : ℕ) (f : (ℕ → ℕ) → ℕ → ℕ) :
    storeBytes mem a (n + 1) f = storeByte (storeBytes mem a n f) (a + n) (f (storeBytes mem a n f) n) := by
  unfold storeBytes
  rw [List.range_succ, List.foldl_append]
  rfl

/-- The words of other bytes stay. -/
lemma storeBytes_of_ne {f : (ℕ → ℕ) → ℕ → ℕ} {y : ℕ} (hy : ∀ i < n, y ≠ (a + i) / 4 * 4) :
    storeBytes mem a n f y = mem y := by
  induction n with
  | zero => rfl
  | succ n ih =>
    rw [storeBytes_succ, storeByte_of_ne (hy n (by omega))]
    exact ih fun i hi => hy i (by omega)

/-- The bytes that are written depend on nothing but what is read elsewhere. -/
lemma loadByte_storeBytes {f : (ℕ → ℕ) → ℕ → ℕ} {g : ℕ → ℕ} (hg : ∀ i, g i < 256)
    (hf : ∀ i < n, ∀ m, (∀ b, b < a ∨ a + n ≤ b → loadByte m b = loadByte mem b) → f m i = g i) :
    loadByte (storeBytes mem a n f) b = if a ≤ b ∧ b < a + n then g (b - a) else loadByte mem b := by
  suffices hloop : ∀ k ≤ n, ∀ b, loadByte (storeBytes mem a k f) b =
      if a ≤ b ∧ b < a + k then g (b - a) else loadByte mem b from hloop n (Nat.le_refl n) b
  intro k
  induction k with
  | zero =>
    intro _ b
    rw [if_neg (by omega)]
    rfl
  | succ k ih =>
    intro hk b
    have hread : f (storeBytes mem a k f) k = g k := by
      refine hf k (by omega) _ fun c hc => ?_
      rw [ih (by omega), if_neg (by omega)]
    rw [storeBytes_succ, hread, loadByte_storeByte (hg k), ih (by omega)]
    by_cases hb : b = a + k
    · rw [if_pos hb, if_pos (by omega), hb, Nat.add_sub_cancel_left]
    · rw [if_neg hb]
      exact if_congr (by omega) rfl rfl

/-- `memset`. -/
def setBytes (mem : ℕ → ℕ) (a v n : ℕ) : ℕ → ℕ :=
  storeBytes mem a n fun _ _ => v

lemma loadByte_setBytes (hv : v < 256) :
    loadByte (setBytes mem a v n) b = if a ≤ b ∧ b < a + n then v else loadByte mem b :=
  loadByte_storeBytes (g := fun _ => v) (fun _ => hv) fun _ _ _ _ => rfl

/-- `memcpy`. -/
def copyBytes (mem : ℕ → ℕ) (dst src n : ℕ) : ℕ → ℕ :=
  storeBytes mem dst n fun mem i => loadByte mem (src + i)

lemma loadByte_copyBytes {dst src : ℕ} (hdisj : dst + n ≤ src ∨ src + n ≤ dst) :
    loadByte (copyBytes mem dst src n) b =
      if dst ≤ b ∧ b < dst + n then loadByte mem (src + (b - dst)) else loadByte mem b := by
  refine loadByte_storeBytes (g := fun i => loadByte mem (src + i)) (fun i => Nat.mod_lt _ (by omega)) ?_
  intro i hi m hm
  exact hm (src + i) (by omega)

end Bytes

end OsLabs.Lib
