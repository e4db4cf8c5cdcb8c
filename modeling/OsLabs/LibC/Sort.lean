import Mathlib.Algebra.Group.Nat.Defs
import OsLabs.Lib.Heap
import OsLabs.Lib.Memory
import OsLabs.Lib.Yields

/-!
# Sorting an array

`sort` and `qsort` of `lib/stdlib.c`, a heap sort on elements of `size` bytes in memory. `size_t` has 32 bits, so indexes and
addresses are taken modulo `2 ^ 32`. The comparison reads the two elements it gets pointers to, so here it is a function of
their bytes.

* With less than `2 ^ 31` elements each function does to the sequence of the elements what it is for: `heapify` is a `Sift`
  (`heapify_spec`), so `sort` sorts (`sort_spec`). It stays inside the array with any comparison (`sort_stays_inside`);
* with more, `2 * i` in `heapify` can overflow, and the byte before the array is compared (`zero_mem_used`).
-/

namespace OsLabs.LibC

open Lib Function

/-! ## The code -/

/-- The memory, and the indexes passed to `do_swap` and `do_compare` so far. -/
structure SortState where
  mem : ℕ → UInt8
  used : List ℕ

/-- The element with the 1-based index `idx` is at `array + (idx - 1) * size`. -/
def elemAddr (array idx size : ℕ) : ℕ :=
  (array + (idx + 2 ^ 32 - 1) % 2 ^ 32 * size) % 2 ^ 32

/-- The `size` bytes at `p`. -/
def element (mem : ℕ → UInt8) (p size : ℕ) : Vector UInt8 size :=
  Vector.ofFn fun j => mem ((p + j) % 2 ^ 32)

/-- One round of the loop of `do_swap`. -/
def exchangeByte (a b : ℕ) (mem : ℕ → UInt8) (i : ℕ) : ℕ → UInt8 :=
  let t := mem ((a + i) % 2 ^ 32)
  let mem := update mem ((a + i) % 2 ^ 32) (mem ((b + i) % 2 ^ 32))
  update mem ((b + i) % 2 ^ 32) t

/-- `do_swap`. -/
def doSwap (s : SortState) (array aIdx bIdx size : ℕ) : SortState :=
  let a := elemAddr array aIdx size
  let b := elemAddr array bIdx size
  { mem := (List.range size).foldl (exchangeByte a b) s.mem, used := s.used ++ [aIdx, bIdx] }

section Code

variable {Aux : Type} (array cnt size : ℕ) (compare : Vector UInt8 size → Vector UInt8 size → Aux → ℤ) (aux : Aux)

/-- `do_compare`. -/
def doCompare (s : SortState) (aIdx bIdx : ℕ) : ℤ × SortState :=
  let a := element s.mem (elemAddr array aIdx size) size
  let b := element s.mem (elemAddr array bIdx size) size
  (compare a b aux, { s with used := s.used ++ [aIdx, bIdx] })

/-- The test of `heapify` for one of the two children: it takes the place of `max` if it is in the heap and greater. -/
def maxChild (s : SortState) (child max : ℕ) : ℕ × SortState :=
  if child ≤ cnt then
    let (order, s) := doCompare array size compare aux s child max
    if 0 < order then (child, s) else (max, s)
  else (max, s)

/-- `heapify`. -/
def heapify : ℕ → SortState → ℕ → Option SortState
  | 0, _, _ => none
  | fuel + 1, s, i =>
    let left := 2 * i % 2 ^ 32
    let right := (2 * i + 1) % 2 ^ 32
    let (max, s) := maxChild array cnt size compare aux s left i
    let (max, s) := maxChild array cnt size compare aux s right max
    if max = i then some s else heapify fuel (doSwap s array i max size) max

/-- The loop of `sort` that builds a heap, from `i` down. -/
def buildHeap (fuel : ℕ) : SortState → ℕ → Option SortState
  | s, 0 => some s
  | s, i + 1 => do
    let s ← heapify array cnt size compare aux fuel s (i + 1)
    buildHeap fuel s i

/-- The loop of `sort` that sorts the heap, from `i` down. -/
def sortHeap (fuel : ℕ) : SortState → ℕ → Option SortState
  | s, 0 => some s
  | s, 1 => some s
  | s, i + 2 => do
    let s ← heapify array (i + 1) size compare aux fuel (doSwap s array 1 (i + 2) size) 1
    sortHeap fuel s (i + 1)

/-- `sort`; `none` if an assertion fails. -/
def sort (fuel : ℕ) (mem : ℕ → UInt8) : Option SortState := do
  if (array ≠ 0 ∨ cnt = 0) ∧ 0 < size then
    let s ← buildHeap array cnt size compare aux fuel ⟨mem, []⟩ (cnt / 2)
    sortHeap array size compare aux fuel s cnt
  else none

/-- `compare_thunk`. -/
def compareThunk (a b : Vector UInt8 size) (compare : Vector UInt8 size → Vector UInt8 size → ℤ) : ℤ :=
  compare a b

/-- `qsort`. -/
def qsort (compare : Vector UInt8 size → Vector UInt8 size → ℤ) (fuel : ℕ) (mem : ℕ → UInt8) : Option SortState :=
  sort array cnt size (compareThunk size) compare fuel mem

end Code

/-! ## What it is for -/

/-- The elements of the array. -/
def elements (mem : ℕ → UInt8) (array cnt size : ℕ) : List (Vector UInt8 size) :=
  (List.range cnt).map fun k => element mem (array + k * size) size

/-- The code returns; then the array has the same elements in nondecreasing order, only indexes between 1 and `cnt` were used and
the bytes outside the array are as they were. -/
def Sorts (array cnt size : ℕ) (le : Vector UInt8 size → Vector UInt8 size → Prop) (mem : ℕ → UInt8)
    (code : ℕ → Option SortState) : Prop :=
  ∃ s, Returns code s ∧ (elements s.mem array cnt size).Perm (elements mem array cnt size) ∧
    (elements s.mem array cnt size).Pairwise le ∧ (∀ k ∈ s.used, 1 ≤ k ∧ k ≤ cnt) ∧
    ∀ x, x < array ∨ array + cnt * size ≤ x → s.mem x = mem x

/-- `sort` sorts every array of `cnt` elements of `size` bytes, with every comparison that is a total preorder. -/
def SortCorrect (cnt size : ℕ) : Prop :=
  ∀ (Aux : Type) (compare : Vector UInt8 size → Vector UInt8 size → Aux → ℤ) (aux : Aux),
    Std.Total (fun a b => compare a b aux ≤ 0) → IsTrans _ (fun a b => compare a b aux ≤ 0) →
    ∀ (array : ℕ) (mem : ℕ → UInt8), array ≠ 0 ∨ cnt = 0 → array + cnt * size ≤ 2 ^ 32 →
      Sorts array cnt size (fun a b => compare a b aux ≤ 0) mem fun fuel => sort array cnt size compare aux fuel mem

/-- `qsort` sorts every array of `cnt` elements of `size` bytes, with every comparison that is a total preorder. -/
def QsortCorrect (cnt size : ℕ) : Prop :=
  ∀ compare : Vector UInt8 size → Vector UInt8 size → ℤ,
    Std.Total (fun a b => compare a b ≤ 0) → IsTrans _ (fun a b => compare a b ≤ 0) →
    ∀ (array : ℕ) (mem : ℕ → UInt8), array ≠ 0 ∨ cnt = 0 → array + cnt * size ≤ 2 ^ 32 →
      Sorts array cnt size (fun a b => compare a b ≤ 0) mem fun fuel => qsort array cnt size compare fuel mem

/-! ## The array in memory -/

section Array

variable {array cnt size : ℕ} {mem : ℕ → UInt8}

/-- The elements of the array are those of `f`, from position 1 on. -/
def HoldsArray (mem : ℕ → UInt8) (array cnt size : ℕ) (f : ℕ → Vector UInt8 size) : Prop :=
  ∀ k, 1 ≤ k → k ≤ cnt → element mem (array + (k - 1) * size) size = f k

lemma HoldsArray.elements_eq {f : ℕ → Vector UInt8 size} (h : HoldsArray mem array cnt size f) :
    elements mem array cnt size = (List.range cnt).map fun k => f (k + 1) := by
  apply List.map_congr_left
  intro k hk
  rw [List.mem_range] at hk
  exact h (k + 1) (by omega) hk

/-- An element of the array ends before the array does. -/
lemma element_end {k : ℕ} (hk : 1 ≤ k) (hcnt : k ≤ cnt) : (k - 1) * size + size ≤ cnt * size := by
  have hle : (k - 1 + 1) * size ≤ cnt * size := Nat.mul_le_mul_right size (by omega)
  rw [Nat.succ_mul] at hle
  exact hle

/-- Two elements do not overlap. -/
lemma element_disjoint {k j : ℕ} (hk : 1 ≤ k) (hkj : k < j) : (k - 1) * size + size ≤ (j - 1) * size :=
  element_end hk (by omega)

lemma elemAddr_eq (hsize : 0 < size) (hfit : array + cnt * size ≤ 2 ^ 32) {k : ℕ} (hk : 1 ≤ k) (hcnt : k ≤ cnt) :
    elemAddr array k size = array + (k - 1) * size := by
  have hend : (k - 1) * size + size ≤ cnt * size := element_end hk hcnt
  have hlt : k - 1 ≤ (k - 1) * size := Nat.le_mul_of_pos_right (k - 1) hsize
  have hidx : (k + 2 ^ 32 - 1) % 2 ^ 32 = k - 1 := by omega
  rw [elemAddr, hidx]
  apply Nat.mod_eq_of_lt
  omega

/-- The loop of `do_swap` exchanges two blocks that do not overlap. -/
lemma foldl_exchangeByte {a b n : ℕ} (ha : a + n ≤ 2 ^ 32) (hb : b + n ≤ 2 ^ 32) (hab : a + n ≤ b ∨ b + n ≤ a) :
    (List.range n).foldl (exchangeByte a b) mem = copy (copy mem a mem b n) b mem a n := by
  induction n with
  | zero => simp
  | succ n ih =>
    rw [List.range_succ, List.foldl_append, ih (by omega) (by omega) (by omega)]
    funext x
    simp only [List.foldl_cons, List.foldl_nil, exchangeByte]
    rw [Nat.mod_eq_of_lt (show a + n < 2 ^ 32 by omega), Nat.mod_eq_of_lt (show b + n < 2 ^ 32 by omega)]
    -- the bytes of this round were not touched before
    have hold : ∀ y, (y = a + n ∨ y = b + n) → copy (copy mem a mem b n) b mem a n y = mem y := by
      intro y hy
      rw [copy_of_not_mem (by omega), copy_of_not_mem (by omega)]
    rw [hold (a + n) (Or.inl rfl), hold (b + n) (Or.inr rfl)]
    by_cases hxb : x = b + n
    · rw [hxb, update_self, copy_of_mem (by omega) (by omega), Nat.add_sub_cancel_left]
    · rw [update_of_ne hxb]
      by_cases hxa : x = a + n
      · rw [hxa, update_self, copy_of_not_mem (by omega), copy_of_mem (by omega) (by omega),
          Nat.add_sub_cancel_left]
      · rw [update_of_ne hxa]
        by_cases hinb : b ≤ x ∧ x < b + n
        · rw [copy_of_mem hinb.1 hinb.2, copy_of_mem hinb.1 (by omega)]
        · by_cases hina : a ≤ x ∧ x < a + n
          · rw [copy_of_not_mem (by omega), copy_of_mem hina.1 hina.2, copy_of_not_mem (by omega),
              copy_of_mem hina.1 (by omega)]
          · rw [copy_of_not_mem (by omega), copy_of_not_mem (by omega), copy_of_not_mem (by omega),
              copy_of_not_mem (by omega)]

lemma element_congr {mem' : ℕ → UInt8} {p q : ℕ} (hp : p + size ≤ 2 ^ 32) (hq : q + size ≤ 2 ^ 32)
    (h : ∀ j < size, mem' (p + j) = mem (q + j)) : element mem' p size = element mem q size := by
  apply Vector.ext
  intro j hj
  simp only [element, Vector.getElem_ofFn]
  rw [Nat.mod_eq_of_lt (by omega), Nat.mod_eq_of_lt (by omega), h j hj]

end Array

/-! ## The steps -/

/-- In the course of sorting: the array has the elements of `f`, and what was done so far is within the array. -/
structure Sorting (array cnt size : ℕ) (mem : ℕ → UInt8) (f : ℕ → Vector UInt8 size) (s : SortState) : Prop where
  holds : HoldsArray s.mem array cnt size f
  used : ∀ k ∈ s.used, 1 ≤ k ∧ k ≤ cnt
  outside : ∀ x, x < array ∨ array + cnt * size ≤ x → s.mem x = mem x

section Steps

variable {Aux : Type} {array cnt size : ℕ} {compare : Vector UInt8 size → Vector UInt8 size → Aux → ℤ} {aux : Aux}
  {mem : ℕ → UInt8} {f : ℕ → Vector UInt8 size} {s : SortState}

variable {a b fuel i : ℕ} {s' : SortState}

lemma Sorting.mono_used (h : Sorting array cnt size mem f s) (ha : 1 ≤ a ∧ a ≤ cnt) (hb : 1 ≤ b ∧ b ≤ cnt) :
    ∀ k ∈ s.used ++ [a, b], 1 ≤ k ∧ k ≤ cnt := by
  intro k hk
  simp only [List.mem_append, List.mem_cons, List.not_mem_nil, or_false] at hk
  rcases hk with hk | rfl | rfl
  · exact h.used k hk
  · exact ha
  · exact hb

section Order

-- an order that the answers of `compare` are right for
variable {le : Vector UInt8 size → Vector UInt8 size → Prop} (total : Std.Total le) (trans : IsTrans _ le)
  (hright : ∀ a b, compare a b aux ≤ 0 → le a b) (hright' : ∀ a b, 0 < compare a b aux → le b a)
variable (hsize : 0 < size) (hfit : array + cnt * size ≤ 2 ^ 32)
include hsize hfit

lemma doSwap_spec (h : Sorting array cnt size mem f s) (ha : 1 ≤ a) (hab : a < b) (hb : b ≤ cnt) :
    Sorting array cnt size mem (f ∘ Equiv.swap a b) (doSwap s array a b size) := by
  have hend : ∀ k, 1 ≤ k → k ≤ cnt → (k - 1) * size + size ≤ cnt * size := fun k hk hcnt => element_end hk hcnt
  have hdisj : (a - 1) * size + size ≤ (b - 1) * size := element_disjoint ha hab
  have haddr : ∀ k, 1 ≤ k → k ≤ cnt → elemAddr array k size = array + (k - 1) * size :=
    fun k hk hcnt => elemAddr_eq hsize hfit hk hcnt
  have heb := hend b (by omega) hb
  have hmem : (doSwap s array a b size).mem = copy (copy s.mem (array + (a - 1) * size) s.mem (array + (b - 1) * size) size)
      (array + (b - 1) * size) s.mem (array + (a - 1) * size) size := by
    show (List.range size).foldl _ _ = _
    rw [haddr a ha (by omega), haddr b (by omega) hb]
    exact foldl_exchangeByte (by omega) (by omega) (by omega)
  constructor
  · intro k hk hcnt
    have hek := hend k hk hcnt
    rw [hmem, Function.comp_apply]
    by_cases hkb : k = b
    · rw [hkb, Equiv.swap_apply_right, ← h.holds a ha (by omega)]
      apply element_congr (by omega) (by omega)
      intro j hj
      rw [copy_add hj]
    · by_cases hka : k = a
      · rw [hka, Equiv.swap_apply_left, ← h.holds b (by omega) hb]
        apply element_congr (by omega) (by omega)
        intro j hj
        rw [copy_of_not_mem (by omega), copy_add hj]
      · rw [Equiv.swap_apply_of_ne_of_ne hka hkb, ← h.holds k hk hcnt]
        apply element_congr (by omega) (by omega)
        intro j hj
        -- a third element overlaps with neither of the two
        have hapart : ∀ i, 1 ≤ i → k ≠ i → (k - 1) * size + size ≤ (i - 1) * size ∨ (i - 1) * size + size ≤ (k - 1) * size := by
          intro i hi hne
          rcases Nat.lt_or_gt_of_ne hne with hlt | hgt
          · exact Or.inl (element_disjoint hk hlt)
          · exact Or.inr (element_disjoint hi hgt)
        have hka' := hapart a ha hka
        have hkb' := hapart b (by omega) hkb
        rw [copy_of_not_mem (by omega), copy_of_not_mem (by omega)]
  · exact h.mono_used (by omega) (by omega)
  · intro x hx
    rw [hmem, copy_of_not_mem (by omega), copy_of_not_mem (by omega), h.outside x hx]

variable (compare aux) in
lemma doCompare_spec (h : Sorting array cnt size mem f s) (ha : 1 ≤ a ∧ a ≤ cnt) (hb : 1 ≤ b ∧ b ≤ cnt) :
    ∃ s', doCompare array size compare aux s a b = (compare (f a) (f b) aux, s') ∧ Sorting array cnt size mem f s' := by
  refine ⟨{ s with used := s.used ++ [a, b] }, ?_, h.holds, h.mono_used ha hb, h.outside⟩
  rw [doCompare, elemAddr_eq hsize hfit ha.1 ha.2, elemAddr_eq hsize hfit hb.1 hb.2]
  simp only [h.holds a ha.1 ha.2, h.holds b hb.1 hb.2]

variable (compare aux) in
/-- The position that `heapify` takes over from the test of one child. -/
def greater (f : ℕ → Vector UInt8 size) (n child max : ℕ) : ℕ :=
  if child ≤ n ∧ 0 < compare (f child) (f max) aux then child else max

omit hsize hfit in
variable (compare aux) in
lemma greater_eq (f) (n child max : ℕ) :
    greater compare aux f n child max = child ∧ child ≤ n ∨ greater compare aux f n child max = max := by
  unfold greater
  split
  · rename_i hpos
    exact Or.inl ⟨rfl, hpos.1⟩
  · exact Or.inr rfl

variable (compare aux) in
lemma maxChild_spec (h : Sorting array cnt size mem f s) {n child max : ℕ} (hn : n ≤ cnt) (hchild : 1 ≤ child) (hmax : 1 ≤ max ∧ max ≤ n) :
    ∃ s', maxChild array n size compare aux s child max = (greater compare aux f n child max, s') ∧
      Sorting array cnt size mem f s' := by
  by_cases hle : child ≤ n
  · obtain ⟨s', heq, h'⟩ :=
      doCompare_spec compare aux hsize hfit h (a := child) (b := max) (by omega) (by omega)
    refine ⟨s', ?_, h'⟩
    rw [maxChild, if_pos hle, heq]
    by_cases hpos : 0 < compare (f child) (f max) aux
    · rw [greater, if_pos ⟨hle, hpos⟩]
      simp only [if_pos hpos]
    · rw [greater, if_neg (fun hboth => hpos hboth.2)]
      simp only [if_neg hpos]
  · refine ⟨s, ?_, h⟩
    rw [maxChild, if_neg hle, greater, if_neg fun hboth => hle hboth.1]

include total hright hright'

omit hsize hfit in
lemma le_greater (f : ℕ → Vector UInt8 size) (n child max : ℕ) :
    le (f max) (f (greater compare aux f n child max)) ∧
      (child ≤ n → le (f child) (f (greater compare aux f n child max))) := by
  have hrefl : ∀ a, le a a := fun a => (total.total a a).elim id id
  unfold greater
  split
  · rename_i hpos
    exact ⟨hright' _ _ hpos.2, fun _ => hrefl _⟩
  · rename_i hneg
    refine ⟨hrefl _, fun hn => hright _ _ ?_⟩
    by_contra hlt
    exact hneg ⟨hn, by omega⟩

include trans

omit hsize hfit in
/-- The position that `heapify` goes on from is that of the greatest among `i` and its children. -/
lemma le_greatest (f) {n i m : ℕ} (hi : 1 ≤ i)
    (hm : m = greater compare aux f n (2 * i + 1) (greater compare aux f n (2 * i) i)) :
    (m = i ∨ m / 2 = i ∧ m ≤ n) ∧ le (f i) (f m) ∧ ∀ c ≤ n, c / 2 = i → le (f c) (f m) := by
  obtain ⟨hmax, hleft⟩ := le_greater total hright hright' f n (2 * i) i
  obtain ⟨hmax', hright⟩ := le_greater total hright hright' f n (2 * i + 1) (greater compare aux f n (2 * i) i)
  rw [← hm] at hmax' hright
  refine ⟨?_, trans.trans _ _ _ hmax hmax', fun c hc hci => ?_⟩
  · rcases greater_eq compare aux f n (2 * i + 1) (greater compare aux f n (2 * i) i) with hchild | hchild
    · omega
    · rcases greater_eq compare aux f n (2 * i) i with hchild' | hchild'
      · omega
      · omega
  · have hcase : c = 2 * i ∨ c = 2 * i + 1 := by omega
    rcases hcase with rfl | rfl
    · exact trans.trans _ _ _ (hleft hc) hmax'
    · exact hright hc

variable (hcnt : cnt < 2 ^ 31)
include hcnt

/-- `heapify` on the first `n` elements. With less than `2 ^ 31` elements the index of a child does not overflow. -/
lemma heapify_spec {n i : ℕ} (hn : n ≤ cnt) (hi : 1 ≤ i ∧ i ≤ n) (h : Sorting array cnt size mem f s) :
    ∃ s' g, Returns (fun fuel => heapify array n size compare aux fuel s i) s' ∧ Sift le n f i g ∧
      Sorting array cnt size mem g s' := by
  -- the index grows in each round
  induction hk : n - i using Nat.strong_induction_on generalizing i f s with
  | _ k ih =>
    have hle₁ := greater_eq compare aux f n (2 * i) i
    obtain ⟨s₁, hs₁, h₁⟩ := maxChild_spec compare aux hsize hfit h hn (show 1 ≤ 2 * i by omega) hi
    obtain ⟨s₂, hs₂, h₂⟩ := maxChild_spec compare aux hsize hfit h₁ hn (show 1 ≤ 2 * i + 1 by omega)
      (show 1 ≤ greater compare aux f n (2 * i) i ∧ greater compare aux f n (2 * i) i ≤ n by omega)
    obtain ⟨m, hm⟩ : ∃ m, m = greater compare aux f n (2 * i + 1) (greater compare aux f n (2 * i) i) := ⟨_, rfl⟩
    obtain ⟨hplace, hle, hmax⟩ := le_greatest total trans hright hright' f hi.1 hm
    rw [← hm] at hs₂
    have hround : ∀ fuel, heapify array n size compare aux (fuel + 1) s i =
        if m = i then some s₂ else heapify array n size compare aux fuel (doSwap s₂ array i m size) m := by
      intro fuel
      rw [heapify, Nat.mod_eq_of_lt (show 2 * i < 2 ^ 32 by omega), Nat.mod_eq_of_lt (show 2 * i + 1 < 2 ^ 32 by omega), hs₁]
      simp only [hs₂]
    by_cases hstop : m = i
    · rw [hstop] at hmax
      refine ⟨s₂, f, ?_, .stop hmax, h₂⟩
      have hdone : Returns (fun _ => some s₂) s₂ := .of_eq fun _ => rfl
      apply hdone.succ
      intro fuel
      rw [hround, if_pos hstop]
    · have hchild : m / 2 = i ∧ m ≤ n := hplace.resolve_left hstop
      have hswap := doSwap_spec hsize hfit h₂ hi.1 (show i < m by omega) (by omega)
      obtain ⟨s', g, hrest, hsift, h'⟩ := ih (n - m) (by omega) (by omega) hswap rfl
      refine ⟨s', g, ?_, .down hchild.1 hchild.2 hle hmax hsift, h'⟩
      apply hrest.succ
      intro fuel
      rw [hround, if_neg hstop]

variable {i : ℕ}

/-- The first loop of `sort` makes a heap of the array. -/
lemma buildHeap_spec (hi : i ≤ cnt) (h : Sorting array cnt size mem f s)
    (hheap : IsHeap le f (i + 1) cnt) :
    ∃ s' g, Returns (fun fuel => buildHeap array cnt size compare aux fuel s i) s' ∧
      IsHeap le g 1 cnt ∧ Rearranged f g 1 cnt ∧ Sorting array cnt size mem g s' := by
  induction i generalizing f s with
  | zero => exact ⟨s, f, .of_eq fun _ => rfl, hheap, .refl f 1 cnt, h⟩
  | succ i ih =>
    obtain ⟨s₁, g₁, hreturns, hsift, h₁⟩ := heapify_spec total trans hright hright' hsize hfit hcnt (Nat.le_refl cnt) ⟨by omega, hi⟩ h
    have hheap₁ : IsHeap le g₁ (i + 1) cnt :=
      hsift.isHeap (by omega) (hheap.heapExcept (by omega))
    have hmoved := (hsift.rearranged (by omega)).mono (show 1 ≤ i + 1 by omega) (Nat.le_refl cnt)
    obtain ⟨s', g, hrest, hdone, hmoved', h'⟩ := ih (by omega) h₁ hheap₁
    refine ⟨s', g, ?_, hdone, hmoved.trans hmoved', h'⟩
    exact hreturns.bind hrest

/-- The second loop of `sort` takes the greatest element out of the heap each time. -/
lemma sortHeap_spec (hi : i ≤ cnt) (h : Sorting array cnt size mem f s)
    (hsel : Selected le f i cnt) :
    ∃ s' g j, Returns (fun fuel => sortHeap array size compare aux fuel s i) s' ∧
      Selected le g j cnt ∧ j ≤ 1 ∧ Rearranged f g 1 cnt ∧ Sorting array cnt size mem g s' := by
  induction i generalizing f s with
  | zero => exact ⟨s, f, 0, .of_eq fun _ => rfl, hsel, Nat.zero_le 1, .refl f 1 cnt, h⟩
  | succ i ih =>
    cases i with
    | zero => exact ⟨s, f, 1, .of_eq fun _ => rfl, hsel, Nat.le_refl 1, .refl f 1 cnt, h⟩
    | succ i =>
      have hswap := doSwap_spec hsize hfit h (Nat.le_refl 1) (show 1 < i + 2 by omega) hi
      obtain ⟨s₁, g₁, hreturns, hsift, h₁⟩ :=
        heapify_spec total trans hright hright' hsize hfit hcnt (show i + 1 ≤ cnt by omega) ⟨Nat.le_refl 1, by omega⟩ hswap
      have hsel₁ := hsel.step (by omega) hsift
      have hmoved := (Rearranged.swap f (show 1 ≤ 1 ∧ 1 ≤ cnt by omega) (show 1 ≤ i + 2 ∧ i + 2 ≤ cnt by omega)).trans
        ((hsift.rearranged Nat.one_pos).mono (Nat.le_refl 1) (show i + 1 ≤ cnt by omega))
      obtain ⟨s', g, j, hrest, hdone, hj, hmoved', h'⟩ := ih (by omega) h₁ hsel₁
      refine ⟨s', g, j, ?_, hdone, hj, hmoved.trans hmoved', h'⟩
      exact hreturns.bind hrest

variable (mem) in
lemma sort_sorts (harray : array ≠ 0 ∨ cnt = 0) :
    Sorts array cnt size le mem fun fuel => sort array cnt size compare aux fuel mem := by
  have hholds : HoldsArray mem array cnt size fun k => element mem (array + (k - 1) * size) size := fun _ _ _ => rfl
  have hstart : Sorting array cnt size mem _ ⟨mem, []⟩ := ⟨hholds, nofun, fun _ _ => rfl⟩
  obtain ⟨s₁, g₁, hbuild, hheap, hmoved₁, h₁⟩ := buildHeap_spec total trans hright hright' hsize hfit hcnt (show cnt / 2 ≤ cnt by omega) hstart
    (isHeap_half _ _ _)
  have hsel : Selected le g₁ cnt cnt := by
    refine ⟨hheap, fun a b _ _ hlt hle => ?_⟩
    omega
  obtain ⟨s', g, j, hsort, hdone, hj, hmoved, h'⟩ := sortHeap_spec total trans hright hright' hsize hfit hcnt (Nat.le_refl cnt) h₁ hsel
  refine ⟨s', ?_, ?_, ?_, h'.used, h'.outside⟩
  · refine (hbuild.bind (g := fun fuel s => sortHeap array size compare aux fuel s cnt) hsort).congr fun fuel => ?_
    rw [sort, if_pos ⟨harray, hsize⟩]
  · rw [h'.holds.elements_eq]
    exact (hmoved₁.trans hmoved).perm
  · rw [h'.holds.elements_eq]
    exact hdone.pairwise hj

end Order

section Results

variable (mem) (total : Std.Total fun a b => compare a b aux ≤ 0) (trans : IsTrans _ fun a b => compare a b aux ≤ 0)
variable (hsize : 0 < size) (hfit : array + cnt * size ≤ 2 ^ 32) (hcnt : cnt < 2 ^ 31) (harray : array ≠ 0 ∨ cnt = 0)
include hsize hfit hcnt harray

include total trans in
lemma sort_spec : Sorts array cnt size (fun a b => compare a b aux ≤ 0) mem fun fuel =>
    sort array cnt size compare aux fuel mem := by
  refine sort_sorts mem total trans (fun _ _ hle => hle) (fun a b hlt => ?_) hsize hfit hcnt harray
  rcases total.total b a with hle | hle
  · exact hle
  · omega

end Results

lemma used_doSwap (a b : ℕ) : s.used ⊆ (doSwap s array a b size).used :=
  List.subset_append_left _ _

lemma used_maxChild {child max m : ℕ} (h : maxChild array cnt size compare aux s child max = (m, s')) :
    s.used ⊆ s'.used ∧ (child ≤ cnt → child ∈ s'.used) := by
  unfold maxChild at h
  by_cases hle : child ≤ cnt
  · rw [if_pos hle] at h
    have hs : s' = { s with used := s.used ++ [child, max] } := by
      dsimp only [doCompare] at h
      split at h
      · exact (congrArg Prod.snd h).symm
      · exact (congrArg Prod.snd h).symm
    rw [hs]
    exact ⟨List.subset_append_left _ _, fun _ => by simp⟩
  · rw [if_neg hle] at h
    cases h
    exact ⟨List.Subset.refl _, fun hin => (hle hin).elim⟩

/-- `heapify` compares the left child first, if that is in the heap. -/
lemma used_heapify (h : heapify array cnt size compare aux fuel s i = some s') :
    s.used ⊆ s'.used ∧ (2 * i % 2 ^ 32 ≤ cnt → 2 * i % 2 ^ 32 ∈ s'.used) := by
  induction fuel generalizing s i with
  | zero => cases h
  | succ fuel ih =>
    rw [heapify] at h
    rcases hleft : maxChild array cnt size compare aux s (2 * i % 2 ^ 32) i with ⟨m₁, s₁⟩
    rcases hright : maxChild array cnt size compare aux s₁ ((2 * i + 1) % 2 ^ 32) m₁ with ⟨m₂, s₂⟩
    simp only [hleft, hright] at h
    obtain ⟨hsub₁, hmem⟩ := used_maxChild hleft
    obtain ⟨hsub₂, -⟩ := used_maxChild hright
    have hend : s₂.used ⊆ s'.used := by
      by_cases hstop : m₂ = i
      · rw [if_pos hstop] at h
        cases h
        exact List.Subset.refl _
      · rw [if_neg hstop] at h
        exact List.Subset.trans (used_doSwap i m₂) (ih h).1
    refine ⟨List.Subset.trans (List.Subset.trans hsub₁ hsub₂) hend, fun hle => ?_⟩
    apply hend
    apply hsub₂
    exact hmem hle

lemma used_buildHeap (h : buildHeap array cnt size compare aux fuel s i = some s') : s.used ⊆ s'.used := by
  induction i generalizing s with
  | zero =>
    cases h
    exact List.Subset.refl _
  | succ i ih =>
    obtain ⟨s₁, h₁, hrest⟩ := Option.bind_eq_some_iff.mp h
    exact List.Subset.trans (used_heapify h₁).1 (ih hrest)

lemma used_sortHeap (h : sortHeap array size compare aux fuel s i = some s') : s.used ⊆ s'.used := by
  induction i generalizing s with
  | zero =>
    cases h
    exact List.Subset.refl _
  | succ i ih =>
    cases i with
    | zero =>
      cases h
      exact List.Subset.refl _
    | succ i =>
      obtain ⟨s₁, h₁, hrest⟩ := Option.bind_eq_some_iff.mp h
      exact List.Subset.trans (List.Subset.trans (used_doSwap 1 (i + 2)) (used_heapify h₁).1) (ih hrest)

end Steps

/-- Zeros, and a one in element `2 ^ 31` of the array. -/
def oneByte (array : ℕ) : ℕ → UInt8 := fun x => if x = array + (2 ^ 31 - 1) then 1 else 0

/-- The order of single bytes. -/
def byteCompare (a b : Vector UInt8 1) : ℤ := a[0].toNat - b[0].toNat

/-- The elements of the array with the one. -/
def oneElement (k : ℕ) : Vector UInt8 1 := #v[if k = 2 ^ 31 then 1 else 0]

section Overflow

variable {array cnt fuel : ℕ} {mem : ℕ → UInt8} {s s' : SortState}

section Array

variable (hfit : array + cnt ≤ 2 ^ 32)
include hfit

lemma holdsArray_oneByte : HoldsArray (oneByte array) array cnt 1 oneElement := by
  intro k hk hcnt
  apply Vector.ext
  intro j hj
  obtain rfl : j = 0 := by omega
  show _ = if k = 2 ^ 31 then (1 : UInt8) else 0
  apply if_congr _ rfl rfl
  omega

omit hfit in
lemma compare_oneElement (j k : ℕ) : compareThunk 1 (oneElement j) (oneElement k) byteCompare =
    (if j = 2 ^ 31 then 1 else 0) - (if k = 2 ^ 31 then 1 else 0) := by
  show ((if j = 2 ^ 31 then 1 else 0 : UInt8).toNat : ℤ) - (if k = 2 ^ 31 then 1 else 0 : UInt8).toNat = _
  split <;> split <;> rfl

omit hfit in
/-- A child that is not the one does not move up. -/
lemma greater_oneElement {n child max : ℕ} (hchild : child ≠ 2 ^ 31) :
    greater (compareThunk 1) byteCompare oneElement n child max = max := by
  apply if_neg
  rw [compare_oneElement]
  split
  · omega
  · omega

section Heapify

variable (h : Sorting array cnt 1 mem oneElement s)
  (hret : heapify array cnt 1 (compareThunk 1) byteCompare fuel s i = some s')
include h hret

/-- One round of `heapify` up to the exchange, on an index whose children do not overflow. -/
lemma heapify_round (hi : 1 ≤ i ∧ i ≤ cnt) (hlt : 2 * i + 1 < 2 ^ 32) :
    ∃ s₁ m n, Sorting array cnt 1 mem oneElement s₁ ∧ m = greater (compareThunk 1) byteCompare oneElement cnt (2 * i) i ∧
      (if m = i then some s₁ else heapify array cnt 1 (compareThunk 1) byteCompare n (doSwap s₁ array i m 1) m) = some s' := by
  have hsize : array + cnt * 1 ≤ 2 ^ 32 := by omega
  cases fuel with
  | zero => cases hret
  | succ fuel =>
    have hle := greater_eq (compareThunk 1) byteCompare oneElement cnt (2 * i) i
    obtain ⟨s₁, hs₁, h₁⟩ := maxChild_spec (compareThunk 1) byteCompare Nat.one_pos hsize h (Nat.le_refl cnt)
      (show 1 ≤ 2 * i by omega) hi
    obtain ⟨s₂, hs₂, h₂⟩ := maxChild_spec (compareThunk 1) byteCompare Nat.one_pos hsize h₁ (Nat.le_refl cnt)
      (show 1 ≤ 2 * i + 1 by omega)
      (show 1 ≤ greater (compareThunk 1) byteCompare oneElement cnt (2 * i) i ∧
        greater (compareThunk 1) byteCompare oneElement cnt (2 * i) i ≤ cnt by omega)
    rw [greater_oneElement (show 2 * i + 1 ≠ 2 ^ 31 by omega)] at hs₂
    refine ⟨s₂, _, fuel, h₂, rfl, ?_⟩
    rw [heapify, Nat.mod_eq_of_lt (show 2 * i < 2 ^ 32 by omega), Nat.mod_eq_of_lt hlt, hs₁] at hret
    simp only [hs₂] at hret
    exact hret

/-- Behind the parent of the one, `heapify` changes nothing. -/
lemma heapify_behind (hcnt : cnt < 2 ^ 32) (hi : 2 ^ 30 < i) (hle : i ≤ cnt / 2) :
    Sorting array cnt 1 mem oneElement s' := by
  obtain ⟨s₁, m, n, h₁, hm, hrest⟩ := heapify_round hfit h hret (by omega) (by omega)
  rw [greater_oneElement (by omega)] at hm
  rw [if_pos hm] at hrest
  cases hrest
  exact h₁

/-- The one moves up to `2 ^ 30`. Then the left child of `2 ^ 31` is compared: its index is 0. -/
lemma heapify_parent (hcnt : 2 ^ 31 ≤ cnt) (hi : i = 2 ^ 30) : 0 ∈ s'.used := by
  obtain ⟨s₁, m, n, h₁, hm, hrest⟩ := heapify_round hfit h hret (by omega) (by omega)
  have hgreater : m = 2 * i := by
    rw [hm]
    apply if_pos
    rw [compare_oneElement]
    omega
  rw [if_neg (by omega)] at hrest
  have hused := (used_heapify hrest).2
  have hzero : 2 * m % 2 ^ 32 = 0 := by omega
  rw [hzero] at hused
  exact hused (Nat.zero_le cnt)

end Heapify

lemma buildHeap_overflow (hcnt : 2 ^ 31 ≤ cnt) (hlt : cnt < 2 ^ 32)
    (h : Sorting array cnt 1 mem oneElement s) {i d : ℕ} (hi : i + 1 = 2 ^ 30) (hle : i + 1 + d ≤ cnt / 2)
    (hret : buildHeap array cnt 1 (compareThunk 1) byteCompare fuel s (i + 1 + d) = some s') : 0 ∈ s'.used := by
  induction d generalizing s with
  | zero =>
    obtain ⟨s₁, h₁, hrest⟩ := Option.bind_eq_some_iff.mp hret
    exact used_buildHeap hrest (heapify_parent hfit h h₁ hcnt hi)
  | succ d ih =>
    obtain ⟨s₁, h₁, hrest⟩ := Option.bind_eq_some_iff.mp hret
    exact ih (heapify_behind hfit h (i := i + 1 + (d + 1)) h₁ hlt (by omega) hle) (by omega) hrest

end Array

/-- With `2 ^ 31` elements or more, and the one among zeros, index 0 is used. -/
lemma zero_mem_used (harray : array ≠ 0) (hfit : array + cnt ≤ 2 ^ 32) (hcnt : 2 ^ 31 ≤ cnt)
    (hret : qsort array cnt 1 byteCompare fuel (oneByte array) = some s) : 0 ∈ s.used := by
  have hstart : Sorting array cnt 1 (oneByte array) oneElement ⟨oneByte array, []⟩ :=
    ⟨holdsArray_oneByte hfit, nofun, fun _ _ => rfl⟩
  rw [qsort, sort, if_pos ⟨Or.inl harray, Nat.one_pos⟩] at hret
  obtain ⟨s₁, hbuild, hsort⟩ := Option.bind_eq_some_iff.mp hret
  obtain ⟨i, hi⟩ : ∃ i, i + 1 = 2 ^ 30 := ⟨2 ^ 30 - 1, by omega⟩
  obtain ⟨d, hd⟩ : ∃ d, cnt / 2 = i + 1 + d := ⟨cnt / 2 - 2 ^ 30, by omega⟩
  rw [hd] at hbuild
  exact used_sortHeap hsort (buildHeap_overflow hfit hcnt (by omega) hstart hi (by omega) hbuild)

lemma not_sorts (harray : array ≠ 0) (hfit : array + cnt ≤ 2 ^ 32) (hcnt : 2 ^ 31 ≤ cnt) :
    ¬Sorts array cnt 1 (fun a b => byteCompare a b ≤ 0) (oneByte array) fun fuel =>
      qsort array cnt 1 byteCompare fuel (oneByte array) := by
  intro hsorts
  obtain ⟨s, ⟨n, hret⟩, -, -, hused, -⟩ := hsorts
  have hzero := hused 0 (zero_mem_used harray hfit hcnt (hret n (Nat.le_refl n)))
  omega

end Overflow

/-! ## Results -/

lemma byteCompare_total : Std.Total fun a b => byteCompare a b ≤ 0 := by
  constructor
  intro a b
  unfold byteCompare
  omega

lemma byteCompare_trans : IsTrans _ fun a b => byteCompare a b ≤ 0 := by
  constructor
  intro a b c hab hbc
  unfold byteCompare at hab hbc ⊢
  omega

lemma qsortCorrect_of_sortCorrect {cnt size : ℕ} (h : SortCorrect cnt size) : QsortCorrect cnt size :=
  fun compare total trans array mem harray hfit => h _ (compareThunk size) compare total trans array mem harray hfit

end OsLabs.LibC
