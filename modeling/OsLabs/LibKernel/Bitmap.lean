import OsLabs.Lib.Memory
import Mathlib.Algebra.Group.Nat.Defs

/-!
# Bitmaps

`lib/kernel/bitmap.c`, without the functions that read and write files. The bits are in words of 32 bits. A failed
assertion is `none`, and so is `BITMAP_ERROR` as a result of `bitmap_scan`.

`Bitmap.has` is the bit itself. The functions are described by it: `test_eq`, `setMultiple_spec`, `contains_eq`,
`scan_spec` and `scanAndFlip_spec`.
-/

namespace OsLabs.LibKernel

open Lib Function

/-- `struct bitmap`. -/
structure Bitmap where
  bitCnt : ℕ
  bits : ℕ → BitVec 32

/-- `elem_idx`. -/
def elemIdx (bitIdx : ℕ) : ℕ :=
  bitIdx / 32

/-- `bit_mask`. -/
def bitMask (bitIdx : ℕ) : BitVec 32 :=
  1#32 <<< (bitIdx % 32)

/-- `elem_cnt`. -/
def elemCnt (bitCnt : ℕ) : ℕ :=
  (bitCnt + 31) / 32

/-- `byte_cnt`. -/
def byteCnt (bitCnt : ℕ) : ℕ :=
  4 * elemCnt bitCnt

namespace Bitmap

/-- `last_mask`. -/
def lastMask (b : Bitmap) : BitVec 32 :=
  let lastBits := b.bitCnt % 32
  if lastBits ≠ 0 then (1#32 <<< lastBits) - 1#32 else BitVec.allOnes 32

/-- `bitmap_mark`. -/
def mark (b : Bitmap) (bitIdx : ℕ) : Bitmap :=
  let idx := elemIdx bitIdx
  { b with bits := update b.bits idx (b.bits idx ||| bitMask bitIdx) }

/-- `bitmap_reset`. -/
def reset (b : Bitmap) (bitIdx : ℕ) : Bitmap :=
  let idx := elemIdx bitIdx
  { b with bits := update b.bits idx (b.bits idx &&& ~~~bitMask bitIdx) }

/-- `bitmap_set`. -/
def set (b : Bitmap) (idx : ℕ) (value : Bool) : Option Bitmap :=
  if idx < b.bitCnt then some (if value then b.mark idx else b.reset idx) else none

/-- `bitmap_test`. -/
def test (b : Bitmap) (idx : ℕ) : Option Bool :=
  if idx < b.bitCnt then some (b.bits (elemIdx idx) &&& bitMask idx ≠ 0) else none

/-- The first `n` rounds of the loop of `bitmap_set_multiple`. -/
def setLoop (b : Bitmap) (start : ℕ) (value : Bool) : ℕ → Option Bitmap
  | 0 => some b
  | n + 1 => do
    let b ← setLoop b start value n
    b.set (start + n) value

/-- `bitmap_set_multiple`. The sum of the assertion is one of `size_t`. -/
def setMultiple (b : Bitmap) (start cnt : ℕ) (value : Bool) : Option Bitmap :=
  if start ≤ b.bitCnt ∧ (start + cnt) % 2 ^ 32 ≤ b.bitCnt then b.setLoop start value cnt else none

/-- `bitmap_set_all`. -/
def setAll (b : Bitmap) (value : Bool) : Option Bitmap :=
  b.setMultiple 0 b.bitCnt value

/-- `bitmap_create`. The words are what `malloc` returns, `junk`, so the bits of the last word that are not part of the
bitmap are not set. -/
def create (bitCnt : ℕ) (junk : ℕ → BitVec 32) : Option Bitmap :=
  setAll ⟨bitCnt, junk⟩ false

/-- `bitmap_buf_size`: the structure has two words. -/
def bufSize (bitCnt : ℕ) : ℕ :=
  8 + byteCnt bitCnt

/-- `bitmap_create_in_buf`, in a block with the contents `junk`. -/
def createInBuf (bitCnt blockSize : ℕ) (junk : ℕ → BitVec 32) : Option Bitmap :=
  if bufSize bitCnt ≤ blockSize then setAll ⟨bitCnt, junk⟩ false else none

/-- The loop of `bitmap_contains`, for `n` more bits from `i` on. -/
def containsLoop (b : Bitmap) (value : Bool) : ℕ → ℕ → Option Bool
  | 0, _ => some false
  | n + 1, i => do
    if (← b.test i) = value then some true
    else containsLoop b value n (i + 1)

/-- `bitmap_contains`. -/
def contains (b : Bitmap) (start cnt : ℕ) (value : Bool) : Option Bool :=
  if start ≤ b.bitCnt ∧ (start + cnt) % 2 ^ 32 ≤ b.bitCnt then b.containsLoop value cnt start else none

/-- `bitmap_all`. -/
def all (b : Bitmap) (start cnt : ℕ) : Option Bool :=
  (b.contains start cnt false).map fun r => !r

/-- The loop of `bitmap_scan`, for `n` more positions from `i` on. -/
def scanLoop (b : Bitmap) (cnt : ℕ) (value : Bool) : ℕ → ℕ → Option (Option ℕ)
  | 0, _ => some none
  | n + 1, i => do
    if ← b.contains i cnt !value then scanLoop b cnt value n (i + 1)
    else some (some i)

/-- `bitmap_scan`. -/
def scan (b : Bitmap) (start cnt : ℕ) (value : Bool) : Option (Option ℕ) :=
  if start ≤ b.bitCnt then
    if cnt ≤ b.bitCnt then
      let last := b.bitCnt - cnt
      b.scanLoop cnt value (last + 1 - start) start
    else some none
  else none

/-- `bitmap_scan_and_flip`. -/
def scanAndFlip (b : Bitmap) (start cnt : ℕ) (value : Bool) : Option (Option ℕ × Bitmap) := do
  match ← b.scan start cnt value with
  | none => return (none, b)
  | some idx =>
    let b ← b.setMultiple idx cnt !value
    return (some idx, b)

/-- `bitmap_file_size`. -/
def fileSize (b : Bitmap) : ℕ :=
  byteCnt b.bitCnt

/-! ## Single bits -/

/-- Bit `i`. -/
def has (b : Bitmap) (i : ℕ) : Bool :=
  (b.bits (i / 32)).getLsbD (i % 32)

variable {b b' : Bitmap} {i j : ℕ} {n : ℕ}

lemma getLsbD_bitMask (i j : ℕ) : (bitMask i).getLsbD (j % 32) = decide (j % 32 = i % 32) := by
  rw [bitMask, ← BitVec.twoPow_eq, BitVec.getLsbD_twoPow]
  simp only [Nat.mod_lt i (show 32 > 0 by omega)]
  exact decide_eq_decide.mpr eq_comm

lemma has_mark (b : Bitmap) (i j : ℕ) : (b.mark i).has j = (decide (j = i) || b.has j) := by
  simp only [mark, has, elemIdx]
  by_cases hword : j / 32 = i / 32
  · have heq : j % 32 = i % 32 ↔ j = i := by omega
    rw [hword, update_self, BitVec.getLsbD_or, getLsbD_bitMask, Bool.or_comm, decide_eq_decide.mpr heq]
  · have hne : j ≠ i := by
      rintro rfl
      exact hword rfl
    rw [update_of_ne hword, decide_eq_false hne, Bool.false_or]

lemma has_reset (b : Bitmap) (i j : ℕ) : (b.reset i).has j = (!decide (j = i) && b.has j) := by
  simp only [reset, has, elemIdx]
  by_cases hword : j / 32 = i / 32
  · have heq : j % 32 = i % 32 ↔ j = i := by omega
    have hj : j % 32 < 32 := Nat.mod_lt j (by omega)
    rw [hword, update_self, BitVec.getLsbD_and, BitVec.getLsbD_not, getLsbD_bitMask, Bool.and_comm,
      decide_eq_decide.mpr heq, decide_eq_true hj, Bool.true_and]
  · have hne : j ≠ i := by
      rintro rfl
      exact hword rfl
    rw [update_of_ne hword, decide_eq_false hne, Bool.not_false, Bool.true_and]

lemma test_eq (h : i < b.bitCnt) : b.test i = some (b.has i) := by
  have hmask : decide (b.bits (i / 32) &&& bitMask i ≠ 0) = (b.bits (i / 32)).getLsbD (i % 32) := by
    have hand : b.bits (i / 32) &&& bitMask i =
        if (b.bits (i / 32)).getLsbD (i % 32) then bitMask i else 0 := by
      rw [bitMask, ← BitVec.twoPow_eq, BitVec.and_twoPow]
      rfl
    have hne : bitMask i ≠ 0 := by
      intro hzero
      have hbit := getLsbD_bitMask i i
      rw [hzero] at hbit
      simp at hbit
    rw [hand]
    cases (b.bits (i / 32)).getLsbD (i % 32) with
    | true => simpa using hne
    | false => simp
  rw [test, if_pos h, elemIdx, hmask, has]

lemma set_spec (h : i < b.bitCnt) (value : Bool) :
    ∃ b', b.set i value = some b' ∧ b'.bitCnt = b.bitCnt ∧
      ∀ j, b'.has j = if j = i then value else b.has j := by
  refine ⟨_, if_pos h, ?_, fun j => ?_⟩
  · cases value <;> rfl
  · cases value with
    | true =>
      rw [if_pos rfl, has_mark]
      by_cases hj : j = i <;> simp [hj]
    | false =>
      rw [if_neg (by simp), has_reset]
      by_cases hj : j = i <;> simp [hj]

/-! ## Several bits -/

/-- The bits from `i` to `i + cnt - 1` exist and are all `value`. -/
def Run (b : Bitmap) (value : Bool) (i cnt : ℕ) : Prop :=
  i + cnt ≤ b.bitCnt ∧ ∀ j, i ≤ j → j < i + cnt → b.has j = value

lemma setLoop_spec (value : Bool) {start n : ℕ} (h : start + n ≤ b.bitCnt) :
    ∃ b', b.setLoop start value n = some b' ∧ b'.bitCnt = b.bitCnt ∧
      ∀ j, b'.has j = if start ≤ j ∧ j < start + n then value else b.has j := by
  induction n with
  | zero =>
    refine ⟨b, rfl, rfl, fun j => ?_⟩
    rw [if_neg (by omega)]
  | succ n ih =>
    obtain ⟨b₁, hb₁, hcnt₁, hhas₁⟩ := ih (by omega)
    obtain ⟨b₂, hb₂, hcnt₂, hhas₂⟩ := set_spec (b := b₁) (i := start + n) (by omega) value
    refine ⟨b₂, ?_, hcnt₂.trans hcnt₁, fun j => ?_⟩
    · rw [setLoop, hb₁]
      exact hb₂
    · rw [hhas₂, hhas₁]
      by_cases hj : j = start + n
      · rw [if_pos hj, if_pos (by omega)]
      · rw [if_neg hj]
        by_cases hin : start ≤ j ∧ j < start + n
        · rw [if_pos hin, if_pos (by omega)]
        · rw [if_neg hin, if_neg (by omega)]

section Bounded

/-! The number of bits is a `size_t`. -/

variable (hsize : b.bitCnt < 2 ^ 32) {start cnt : ℕ}
include hsize

lemma setMultiple_spec (value : Bool) (h : start + cnt ≤ b.bitCnt) :
    ∃ b', b.setMultiple start cnt value = some b' ∧ b'.bitCnt = b.bitCnt ∧
      ∀ j, b'.has j = if start ≤ j ∧ j < start + cnt then value else b.has j := by
  have hassert : start ≤ b.bitCnt ∧ (start + cnt) % 2 ^ 32 ≤ b.bitCnt := by omega
  rw [setMultiple, if_pos hassert]
  exact setLoop_spec value h

omit hsize in
lemma containsLoop_eq {value : Bool} (h : i + n ≤ b.bitCnt) :
    ∃ r, b.containsLoop value n i = some r ∧ (r = true ↔ ∃ j, i ≤ j ∧ j < i + n ∧ b.has j = value) := by
  induction n generalizing i with
  | zero =>
    refine ⟨false, rfl, ?_⟩
    constructor
    · intro hf
      cases hf
    · rintro ⟨j, hj, hj', _⟩
      omega
  | succ n ih =>
    rw [containsLoop, test_eq (by omega)]
    by_cases hi : b.has i = value
    · refine ⟨true, if_pos hi, fun _ => ⟨i, by omega, by omega, hi⟩, fun _ => rfl⟩
    · obtain ⟨r, hr, hiff⟩ := ih (i := i + 1) (by omega)
      refine ⟨r, ?_, ?_⟩
      · rw [← hr]
        exact if_neg hi
      · rw [hiff]
        constructor
        · rintro ⟨j, hj, hj', hv⟩
          exact ⟨j, by omega, by omega, hv⟩
        · rintro ⟨j, hj, hj', hv⟩
          have hne : j ≠ i := by
            rintro rfl
            exact hi hv
          exact ⟨j, by omega, by omega, hv⟩

lemma contains_eq (value : Bool) (h : start + cnt ≤ b.bitCnt) :
    ∃ r, b.contains start cnt value = some r ∧
      (r = true ↔ ∃ j, start ≤ j ∧ j < start + cnt ∧ b.has j = value) := by
  have hassert : start ≤ b.bitCnt ∧ (start + cnt) % 2 ^ 32 ≤ b.bitCnt := by omega
  rw [contains, if_pos hassert]
  exact containsLoop_eq h

/-- `bitmap_contains` with the other value looks for what breaks a run. -/
lemma contains_not (value : Bool) (h : start + cnt ≤ b.bitCnt) :
    ∃ r, b.contains start cnt (!value) = some r ∧ (r = false ↔ b.Run value start cnt) := by
  obtain ⟨r, hr, hiff⟩ := b.contains_eq hsize (!value) h
  refine ⟨r, hr, ?_⟩
  rw [← Bool.not_eq_true, hiff]
  constructor
  · intro hnone
    refine ⟨h, fun j hj hj' => ?_⟩
    by_contra hne
    exact hnone ⟨j, hj, hj', by cases value <;> cases hb : b.has j <;> simp_all⟩
  · rintro ⟨_, hrun⟩ ⟨j, hj, hj', hv⟩
    rw [hrun j hj hj'] at hv
    cases value <;> cases hv

lemma all_eq (h : b.Run true start cnt) : b.all start cnt = some true := by
  obtain ⟨r, hr, hiff⟩ := b.contains_not hsize true h.1
  have hr' : b.contains start cnt false = some r := hr
  rw [all, hr', hiff.mpr h]
  rfl

/-- The first run at `i` or after it, among `n` positions. -/
lemma scanLoop_spec (cnt : ℕ) (value : Bool) (h : i + n + cnt = b.bitCnt + 1 ∨ n = 0) :
    (∃ k, b.scanLoop cnt value n i = some (some k) ∧ i ≤ k ∧ b.Run value k cnt ∧
      ∀ j, i ≤ j → j < k → ¬b.Run value j cnt) ∨
    (b.scanLoop cnt value n i = some none ∧ ∀ j, i ≤ j → j < i + n → ¬b.Run value j cnt) := by
  induction n generalizing i with
  | zero => exact Or.inr ⟨rfl, fun j hj hj' => by omega⟩
  | succ n ih =>
    obtain ⟨r, hr, hiff⟩ := b.contains_not hsize value (show i + cnt ≤ b.bitCnt by omega)
    rw [scanLoop, hr]
    cases r with
    | false => exact Or.inl ⟨i, rfl, Nat.le_refl i, hiff.mp rfl, fun j hj hj' => by omega⟩
    | true =>
      have hi : ¬b.Run value i cnt := fun hrun => by
        have hfalse := hiff.mpr hrun
        cases hfalse
      have hsplit : ∀ j, i ≤ j → j = i ∨ i + 1 ≤ j := by omega
      rcases ih (i := i + 1) (by omega) with ⟨k, hk, hik, hrun, hfirst⟩ | ⟨hnone, hrun⟩
      · refine Or.inl ⟨k, hk, by omega, hrun, fun j hj hjk => ?_⟩
        rcases hsplit j hj with rfl | hj
        · exact hi
        · exact hfirst j hj hjk
      · refine Or.inr ⟨hnone, fun j hj hj' => ?_⟩
        rcases hsplit j hj with rfl | hj
        · exact hi
        · exact hrun j hj (by omega)

/-- `bitmap_scan` finds the first run. -/
lemma scan_spec (cnt : ℕ) (value : Bool) {start : ℕ} (hstart : start ≤ b.bitCnt) :
    (∃ k, b.scan start cnt value = some (some k) ∧ start ≤ k ∧ b.Run value k cnt ∧
      ∀ j, start ≤ j → j < k → ¬b.Run value j cnt) ∨
    (b.scan start cnt value = some none ∧ ∀ j, start ≤ j → ¬b.Run value j cnt) := by
  rw [scan, if_pos hstart]
  by_cases hcnt : cnt ≤ b.bitCnt
  · rw [if_pos hcnt]
    have hpositions : start + (b.bitCnt - cnt + 1 - start) + cnt = b.bitCnt + 1 ∨ b.bitCnt - cnt + 1 - start = 0 := by
      omega
    rcases b.scanLoop_spec hsize cnt value hpositions with hfound | ⟨hnone, hrun⟩
    · exact Or.inl hfound
    · refine Or.inr ⟨hnone, fun j hj hrun' => ?_⟩
      have hle := hrun'.1
      exact hrun j hj (by omega) hrun'
  · rw [if_neg hcnt]
    refine Or.inr ⟨rfl, fun j _ hrun => ?_⟩
    have hle := hrun.1
    omega

/-- `bitmap_scan_and_flip` changes the bits of the run it finds, and no others. -/
lemma scanAndFlip_spec (cnt : ℕ) (value : Bool) {start : ℕ} (hstart : start ≤ b.bitCnt) :
    (∃ k b', b.scanAndFlip start cnt value = some (some k, b') ∧ start ≤ k ∧ b.Run value k cnt ∧
      (∀ j, start ≤ j → j < k → ¬b.Run value j cnt) ∧ b'.bitCnt = b.bitCnt ∧
      ∀ j, b'.has j = if k ≤ j ∧ j < k + cnt then !value else b.has j) ∨
    (b.scanAndFlip start cnt value = some (none, b) ∧ ∀ j, start ≤ j → ¬b.Run value j cnt) := by
  rw [scanAndFlip]
  rcases b.scan_spec hsize cnt value hstart with ⟨k, hk, hle, hrun, hfirst⟩ | ⟨hnone, hrun⟩
  · obtain ⟨b', hb', hcnt, hhas⟩ := b.setMultiple_spec hsize (!value) hrun.1
    refine Or.inl ⟨k, b', ?_, hle, hrun, hfirst, hcnt, hhas⟩
    rw [hk]
    simp [hb']
  · refine Or.inr ⟨?_, hrun⟩
    rw [hnone]
    rfl

end Bounded

/-- `bitmap_create`. -/
lemma create_spec (hn : n < 2 ^ 32) (junk : ℕ → BitVec 32) :
    ∃ b, create n junk = some b ∧ b.bitCnt = n ∧ ∀ j < n, b.has j = false := by
  obtain ⟨b, hb, hcnt, hhas⟩ := setMultiple_spec (b := ⟨n, junk⟩) hn false (show 0 + n ≤ n by omega)
  refine ⟨b, hb, hcnt, fun j hj => ?_⟩
  rw [hhas, if_pos ⟨Nat.zero_le j, by omega⟩]

/-- `bitmap_create_in_buf`. -/
lemma createInBuf_spec {n blockSize : ℕ} (hn : n < 2 ^ 32) (hblock : bufSize n ≤ blockSize) (junk : ℕ → BitVec 32) :
    ∃ b, createInBuf n blockSize junk = some b ∧ b.bitCnt = n ∧ ∀ j < n, b.has j = false := by
  rw [createInBuf, if_pos hblock]
  exact create_spec hn junk

/-! ## The words as bytes -/

/-- The words, as they are in memory. -/
def bytes (b : Bitmap) : ℕ → UInt8 :=
  fun k => leBytes (b.bits (k / 4)).toNat (k % 4)

/-- The words at the start of a memory. -/
def wordsOf (m : ℕ → UInt8) : ℕ → BitVec 32 :=
  fun w => BitVec.ofNat 32 (le32 m (4 * w))

lemma wordsOf_bytes {m : ℕ → UInt8} {w : ℕ} (h : ∀ k < 4, m (4 * w + k) = b.bytes (4 * w + k)) :
    wordsOf m w = b.bits w := by
  have hbytes : ∀ k < 4, m (4 * w + k) = leBytes (b.bits w).toNat (0 + k) := by
    intro k hk
    rw [h k hk, bytes, show (4 * w + k) / 4 = w by omega, show (4 * w + k) % 4 = k by omega, Nat.zero_add]
  rw [wordsOf, le32_congr hbytes, le32_leBytes (b.bits w).isLt, BitVec.ofNat_toNat, BitVec.setWidth_eq]

/-- The bitmap whose words are at the start of a memory. -/
def ofBytes (bitCnt : ℕ) (m : ℕ → UInt8) : Bitmap :=
  ⟨bitCnt, wordsOf m⟩

lemma has_ofBytes {m : ℕ → UInt8} (h : ∀ k < byteCnt b.bitCnt, m k = b.bytes k) (hi : i < b.bitCnt) :
    (ofBytes b.bitCnt m).has i = b.has i := by
  have hword : wordsOf m (i / 32) = b.bits (i / 32) := by
    apply wordsOf_bytes
    intro k hk
    apply h
    rw [byteCnt, elemCnt]
    omega
  simp only [has, ofBytes, hword]

lemma has_ofBytes_congr {m m' : ℕ → UInt8} (h : ∀ k < byteCnt n, m' k = m k) (hi : i < n) :
    (ofBytes n m').has i = (ofBytes n m).has i := by
  have hword : wordsOf m' (i / 32) = wordsOf m (i / 32) := by
    rw [wordsOf]
    congr 1
    apply le32_congr
    intro k hk
    apply h
    rw [byteCnt, elemCnt]
    omega
  simp only [has, ofBytes, hword]

/-- The bits that are used in the last word. -/
lemma getLsbD_lastMask (hi : i < b.bitCnt) (hlast : i / 32 = elemCnt b.bitCnt - 1) :
    b.lastMask.getLsbD (i % 32) = true := by
  have hi' : i % 32 < 32 := Nat.mod_lt i (by omega)
  unfold lastMask
  dsimp only
  split
  · have hlt : i % 32 < b.bitCnt % 32 := by
      rw [elemCnt] at hlast
      omega
    have hn : b.bitCnt % 32 < 32 := Nat.mod_lt _ (by omega)
    have hmask : (1#32 <<< (b.bitCnt % 32)) - 1#32 = BitVec.ofNat 32 (2 ^ (b.bitCnt % 32) - 1) := by
      have hpos : 0 < 2 ^ (b.bitCnt % 32) := Nat.two_pow_pos _
      have hpow : 2 ^ (b.bitCnt % 32) < 2 ^ 32 := Nat.pow_lt_pow_right (by omega) hn
      apply BitVec.eq_of_toNat_eq
      rw [BitVec.toNat_sub, BitVec.toNat_shiftLeft, BitVec.toNat_ofNat, BitVec.toNat_ofNat, Nat.shiftLeft_eq,
        show 1 % 2 ^ 32 = 1 from rfl, Nat.one_mul, Nat.mod_eq_of_lt hpow]
      omega
    rw [hmask, BitVec.getLsbD_ofNat]
    simp [hlt, hi']
  · rw [BitVec.getLsbD_allOnes, decide_eq_true hi']

/-- `bitmap_read` clears bits of the last word that are not part of the bitmap. -/
lemma has_masked (bits : ℕ → BitVec 32) (hi : i < b.bitCnt) :
    (Bitmap.mk b.bitCnt (update bits (elemCnt b.bitCnt - 1)
      (bits (elemCnt b.bitCnt - 1) &&& b.lastMask))).has i = (Bitmap.mk b.bitCnt bits).has i := by
  simp only [has]
  by_cases hlast : i / 32 = elemCnt b.bitCnt - 1
  · rw [hlast, update_self, BitVec.getLsbD_and, getLsbD_lastMask hi hlast, Bool.and_true]
  · rw [update_of_ne hlast]

end Bitmap

end OsLabs.LibKernel
