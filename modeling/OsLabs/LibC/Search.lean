import OsLabs.LibC.Sort

/-!
# Searching a sorted array

`binary_search` and `bsearch` of `lib/stdlib.c`. The bounds are pointers to bytes, with 32 bits, and the upper one is exclusive.
Every element that matches the key stays between them (`searchLoop_spec`), since the sign of the comparison with the key falls
along a sorted array (`sign_mono`).
-/

namespace OsLabs.LibC

open Lib

/-! ## The code -/

section Code

variable {Aux : Type} (mem : ℕ → UInt8) (key array cnt size : ℕ)

/-- The loop of `binary_search`: the pointer that is returned, and the pointers the key was compared with. -/
def searchLoop (compare : Vector UInt8 size → Vector UInt8 size → Aux → ℤ) (aux : Aux) :
    ℕ → ℕ → ℕ → List ℕ → Option (ℕ × List ℕ)
  | 0, _, _, _ => none
  | fuel + 1, first, last, compared =>
    if first < last then
      let range := (last + 2 ^ 32 - first) % 2 ^ 32 / size
      let middle := (first + range / 2 * size) % 2 ^ 32
      let cmp := compare (element mem key size) (element mem middle size) aux
      let compared := compared ++ [middle]
      if cmp < 0 then searchLoop compare aux fuel first middle compared
      else if 0 < cmp then searchLoop compare aux fuel ((middle + size) % 2 ^ 32) last compared
      else some (middle, compared)
    else some (0, compared)

/-- `binary_search`; NULL is 0. -/
def binarySearch (compare : Vector UInt8 size → Vector UInt8 size → Aux → ℤ) (aux : Aux) (fuel : ℕ) :
    Option (ℕ × List ℕ) :=
  searchLoop mem key size compare aux fuel array ((array + size * cnt) % 2 ^ 32) []

/-- `bsearch`. -/
def bsearch (compare : Vector UInt8 size → Vector UInt8 size → ℤ) (fuel : ℕ) : Option (ℕ × List ℕ) :=
  binarySearch mem key array cnt size (compareThunk size) compare fuel

end Code

/-! ## What it is for -/

/-- The sign of the comparison tells how its arguments are ordered by a total preorder. -/
structure Compatible {α : Type} (compare : α → α → ℤ) (le : α → α → Prop) : Prop where
  total : ∀ a b, le a b ∨ le b a
  trans : ∀ a b c, le a b → le b c → le a c
  neg_iff : ∀ a b, compare a b < 0 ↔ ¬le b a
  pos_iff : ∀ a b, 0 < compare a b ↔ ¬le a b

/-- How the key compares with the element `k` of the array. -/
def keyOrder (mem : ℕ → UInt8) (key array size : ℕ) (compare : Vector UInt8 size → Vector UInt8 size → ℤ) (k : ℕ) : ℤ :=
  compare (element mem key size) (element mem (array + k * size) size)

/-- The key was compared with elements of the array only, and the pointer is to one that compares equal to it, or NULL if there
is none. -/
structure Answer (array cnt size : ℕ) (order : ℕ → ℤ) (p : ℕ) (compared : List ℕ) : Prop where
  compared : ∀ q ∈ compared, ∃ k < cnt, q = array + k * size
  found : (∃ k < cnt, order k = 0) → ∃ k < cnt, p = array + k * size ∧ order k = 0
  missing : (¬∃ k < cnt, order k = 0) → p = 0

/-- The code returns such a pointer. -/
def Finds (mem : ℕ → UInt8) (key array cnt size : ℕ) (compare : Vector UInt8 size → Vector UInt8 size → ℤ)
    (code : ℕ → Option (ℕ × List ℕ)) : Prop :=
  ∃ p compared, Returns code (p, compared) ∧ Answer array cnt size (keyOrder mem key array size compare) p compared

/-! ## The loop -/

section Loop

variable {mem : ℕ → UInt8} {key array cnt size : ℕ} {le : Vector UInt8 size → Vector UInt8 size → Prop}

lemma elements_le {compare : Vector UInt8 size → Vector UInt8 size → ℤ} (hc : Compatible compare le)
    (hsorted : (elements mem array cnt size).Pairwise le) {i j : ℕ} (hij : i ≤ j) (hj : j < cnt) :
    le (element mem (array + i * size) size) (element mem (array + j * size) size) := by
  rcases Nat.eq_or_lt_of_le hij with rfl | hij
  · exact (hc.total _ _).elim id id
  · rw [elements] at hsorted
    have hrange := List.pairwise_iff_getElem.mp hsorted i j (by simp; omega) (by simpa) hij
    simpa using hrange

/-- The sign of the comparison with the key falls along the array. -/
lemma sign_mono (key : ℕ) {compare : Vector UInt8 size → Vector UInt8 size → ℤ} (hc : Compatible compare le)
    (hsorted : (elements mem array cnt size).Pairwise le) {i j : ℕ} (hij : i ≤ j) (hj : j < cnt) :
    (0 < keyOrder mem key array size compare j → 0 < keyOrder mem key array size compare i) ∧
      (keyOrder mem key array size compare i < 0 → keyOrder mem key array size compare j < 0) := by
  have hle := elements_le hc hsorted hij hj
  unfold keyOrder
  rw [hc.pos_iff, hc.pos_iff, hc.neg_iff, hc.neg_iff]
  constructor
  · exact mt fun h => hc.trans _ _ _ h hle
  · exact mt fun h => hc.trans _ _ _ hle h

variable {Aux : Type} {compare : Vector UInt8 size → Vector UInt8 size → Aux → ℤ} {aux : Aux}

/-- The loop from the bounds `lo` and `hi`, as positions in the array. Every element that matches is between them, and they get
closer in each round. -/
lemma searchLoop_spec (hsize : 0 < size) (hfit : array + cnt * size < 2 ^ 32) {order : ℕ → ℤ}
    (horder : order = keyOrder mem key array size fun a b => compare a b aux)
    (hmono : ∀ i j, i ≤ j → j < cnt → (0 < order j → 0 < order i) ∧ (order i < 0 → order j < 0)) {lo hi : ℕ}
    (hle : lo ≤ hi) (hhi : hi ≤ cnt) (hin : ∀ k < cnt, order k = 0 → lo ≤ k ∧ k < hi) (compared : List ℕ)
    (hcompared : ∀ q ∈ compared, ∃ k < cnt, q = array + k * size) :
    ∃ p compared', Returns (fun fuel => searchLoop mem key size compare aux fuel (array + lo * size) (array + hi * size)
      compared) (p, compared') ∧ Answer array cnt size order p compared' := by
  induction hn : hi - lo using Nat.strong_induction_on generalizing lo hi compared with
  | _ n ih =>
    by_cases hlt : lo < hi
    · -- one round; the middle is the element `mid`
      obtain ⟨mid, hmid⟩ : ∃ mid, mid = lo + (hi - lo) / 2 := ⟨_, rfl⟩
      have hends : lo * size + size ≤ hi * size := element_end (by omega) hlt
      have hmidEnd : mid * size + size ≤ hi * size := element_end (k := mid + 1) (by omega) (by omega)
      have hbound : hi * size ≤ cnt * size := Nat.mul_le_mul_right size hhi
      have hrange : (array + hi * size + 2 ^ 32 - (array + lo * size)) % 2 ^ 32 / size = hi - lo := by
        have hdiff : (array + hi * size + 2 ^ 32 - (array + lo * size)) % 2 ^ 32 = (hi - lo) * size := by
          rw [Nat.sub_mul]
          omega
        rw [hdiff, Nat.mul_div_cancel _ hsize]
      have hmiddle : (array + lo * size + (hi - lo) / 2 * size) % 2 ^ 32 = array + mid * size := by
        rw [Nat.add_assoc, ← Nat.add_mul, ← hmid]
        exact Nat.mod_eq_of_lt (by omega)
      have hnext : (array + mid * size + size) % 2 ^ 32 = array + (mid + 1) * size := by
        rw [Nat.add_assoc, ← Nat.succ_mul]
        exact Nat.mod_eq_of_lt (by rw [Nat.succ_mul]; omega)
      have hcompared' : ∀ q ∈ compared ++ [array + mid * size], ∃ k < cnt, q = array + k * size := by
        intro q hq
        rcases List.mem_append.mp hq with hq | hq
        · exact hcompared q hq
        · exact ⟨mid, by omega, List.mem_singleton.mp hq⟩
      have hround (fuel : ℕ) := searchLoop.eq_2 mem key size compare aux (array + lo * size) (array + hi * size) compared fuel
      simp only [if_pos (show array + lo * size < array + hi * size by omega), hrange, hmiddle, hnext] at hround
      have hmid' : compare (element mem key size) (element mem (array + mid * size) size) aux = order mid := by
        rw [horder]
        rfl
      rw [hmid'] at hround
      rcases Int.lt_trichotomy (order mid) 0 with hneg | hzero | hpos
      · have hbefore (k : ℕ) (hk : k < cnt) (hf : order k = 0) : lo ≤ k ∧ k < mid := by
          refine ⟨(hin k hk hf).1, ?_⟩
          by_contra hge
          have := (hmono mid k (by omega) hk).2 hneg
          omega
        obtain ⟨p, compared', hrun, ha⟩ := ih _ (by omega) (by omega) (by omega) hbefore _ hcompared' rfl
        refine ⟨p, compared', hrun.succ fun fuel => ?_, ha⟩
        rw [hround, if_pos hneg]
      · refine ⟨_, _, (Returns.of_eq fun _ => rfl).succ fun fuel => ?_, hcompared',
          fun _ => ⟨mid, by omega, rfl, hzero⟩, fun hnone => (hnone ⟨mid, by omega, hzero⟩).elim⟩
        rw [hround, if_neg (by omega), if_neg (by omega)]
      · have hafter (k : ℕ) (hk : k < cnt) (hf : order k = 0) : mid + 1 ≤ k ∧ k < hi := by
          refine ⟨?_, (hin k hk hf).2⟩
          by_contra hge
          have := (hmono k mid (by omega) (by omega)).1 hpos
          omega
        obtain ⟨p, compared', hrun, ha⟩ := ih _ (by omega) (by omega) hhi hafter _ hcompared' rfl
        refine ⟨p, compared', hrun.succ fun fuel => ?_, ha⟩
        rw [hround, if_neg (by omega), if_pos hpos]
    · -- no element is left
      obtain rfl : lo = hi := by omega
      refine ⟨0, compared, (Returns.of_eq fun _ => rfl).succ fun fuel => ?_, hcompared, ?_,
        fun _ => rfl⟩
      · rw [searchLoop, if_neg (by omega)]
      · rintro ⟨k, hk, hf⟩
        have := hin k hk hf
        omega

lemma binarySearch_spec (hsize : 0 < size) (hfit : array + cnt * size < 2 ^ 32)
    (hc : Compatible (fun a b => compare a b aux) le) (hsorted : (elements mem array cnt size).Pairwise le) :
    Finds mem key array cnt size (fun a b => compare a b aux) (binarySearch mem key array cnt size compare aux) := by
  obtain ⟨p, compared, hrun, ha⟩ := searchLoop_spec hsize hfit rfl
    (fun i j => sign_mono key hc hsorted) (Nat.zero_le cnt) (Nat.le_refl cnt)
    (fun k hk _ => ⟨Nat.zero_le k, hk⟩) [] (by simp)
  refine ⟨p, compared, hrun.congr fun fuel => ?_, ha⟩
  rw [binarySearch, Nat.mul_comm size, Nat.mod_eq_of_lt hfit, Nat.zero_mul, Nat.add_zero]

end Loop

/-- `binary_search` and `bsearch` find the key in every sorted array, whatever its length. The array is an object of C, so that
the address after it does not wrap around. -/
theorem binarySearch_correct (mem : ℕ → UInt8) (key array cnt size : ℕ) (hsize : 0 < size)
    (hfit : array + cnt * size < 2 ^ 32) (le : Vector UInt8 size → Vector UInt8 size → Prop)
    (hsorted : (elements mem array cnt size).Pairwise le) :
    (∀ (Aux : Type) (compare : Vector UInt8 size → Vector UInt8 size → Aux → ℤ) (aux : Aux),
      Compatible (fun a b => compare a b aux) le →
        Finds mem key array cnt size (fun a b => compare a b aux) (binarySearch mem key array cnt size compare aux)) ∧
      ∀ compare, Compatible compare le → Finds mem key array cnt size compare (bsearch mem key array cnt size compare) :=
  ⟨fun _ _ _ hc => binarySearch_spec hsize hfit hc hsorted,
    fun compare hc => binarySearch_spec hsize hfit (show Compatible (compareThunk size · · compare) le from hc) hsorted⟩

/-- The bytes 1, 2, 3 at address 8, and the key 2 at address 4. -/
theorem bsearch_three_bytes :
    let mem : ℕ → UInt8 := fun x => if x = 4 then 2 else if 8 ≤ x ∧ x < 11 then UInt8.ofNat (x - 7) else 0
    Finds mem 4 8 3 1 byteCompare (bsearch mem 4 8 3 1 byteCompare) :=
  (binarySearch_correct _ 4 8 3 1 (by decide) (by decide) (fun a b => byteCompare a b ≤ 0) (by decide)).2 byteCompare
    ⟨byteCompare_total.total, byteCompare_trans.trans, fun a b => by unfold byteCompare; omega,
      fun a b => by unfold byteCompare; omega⟩

end OsLabs.LibC
