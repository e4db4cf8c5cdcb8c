import Mathlib.Algebra.Group.End
import Mathlib.Data.List.Nodup
import Mathlib.Data.List.Perm.Subperm
import Mathlib.Data.List.Range

/-!
# Heaps in an array

An array is a function of the position, and positions start at 1. The parent of position `c` is `c / 2`. In a heap no element
is greater than its parent (`IsHeap`), so the first one is the greatest (`IsHeap.le_root`).

* `Sift` is the element at `i` going down, each time to the place of its greatest child. If the elements below `i` were the only
  ones out of order, the result is a heap (`Sift.isHeap`);
* the elements only change their places (`Rearranged`, `Sift.rearranged`);
* `Selected` is the state of heap sort: a heap in front, and behind it the greatest elements in order (`Selected.step`).
-/

namespace OsLabs.Lib

variable {α : Type*}

/-! ## Rearranged arrays -/

/-- The elements from `lo` to `hi` may be in other places than before, the rest is as it was. -/
def Rearranged (f g : ℕ → α) (lo hi : ℕ) : Prop :=
  ∃ σ : Equiv.Perm ℕ, (∀ k, k < lo ∨ hi < k → σ k = k) ∧ g = f ∘ σ

namespace Rearranged

variable {f g h : ℕ → α} {lo hi lo' hi' k : ℕ}

lemma refl (f : ℕ → α) (lo hi : ℕ) : Rearranged f f lo hi :=
  ⟨1, fun _ _ => rfl, rfl⟩

lemma swap (f : ℕ → α) {i j : ℕ} (hi : lo ≤ i ∧ i ≤ k) (hj : lo ≤ j ∧ j ≤ k) :
    Rearranged f (f ∘ Equiv.swap i j) lo k := by
  refine ⟨Equiv.swap i j, fun x hx => ?_, rfl⟩
  apply Equiv.swap_apply_of_ne_of_ne
  · omega
  · omega

lemma mono (hr : Rearranged f g lo hi) (hlo : lo' ≤ lo) (hhi : hi ≤ hi') : Rearranged f g lo' hi' := by
  obtain ⟨σ, hfix, hg⟩ := hr
  refine ⟨σ, fun k hk => hfix k ?_, hg⟩
  omega

lemma trans (hfg : Rearranged f g lo hi) (hgh : Rearranged g h lo hi) : Rearranged f h lo hi := by
  obtain ⟨σ, hσ, hg⟩ := hfg
  obtain ⟨τ, hτ, hh⟩ := hgh
  refine ⟨τ.trans σ, fun k hk => ?_, ?_⟩
  · rw [Equiv.trans_apply, hτ k hk, hσ k hk]
  · rw [hh, hg]
    rfl

/-- What is outside stays. -/
lemma eq_of_not_mem (hr : Rearranged f g lo hi) (hk : k < lo ∨ hi < k) : g k = f k := by
  obtain ⟨σ, hfix, hg⟩ := hr
  rw [hg, Function.comp_apply, hfix k hk]

/-- What is inside was inside before. -/
lemma exists_of_mem (hr : Rearranged f g lo hi) (hk : lo ≤ k ∧ k ≤ hi) : ∃ j, lo ≤ j ∧ j ≤ hi ∧ g k = f j := by
  obtain ⟨σ, hfix, hg⟩ := hr
  have hin : lo ≤ σ k ∧ σ k ≤ hi := by
    by_contra hout
    -- a position outside is only reached from itself
    have hfixed : σ (σ k) = σ k := hfix (σ k) (by omega)
    have hself : σ k = k := σ.injective hfixed
    omega
  refine ⟨σ k, hin.1, hin.2, ?_⟩
  rw [hg]
  rfl

/-- The elements as a list. -/
lemma perm (hr : Rearranged f g 1 hi) :
    ((List.range hi).map fun k => g (k + 1)).Perm ((List.range hi).map fun k => f (k + 1)) := by
  have hmap : ∀ p : ℕ → α, ((List.range hi).map fun k => p (k + 1)) = (List.range' 1 hi).map p := by
    intro p
    rw [List.range'_eq_map_range, List.map_map]
    apply List.map_congr_left
    intro k _
    rw [Function.comp_apply, Nat.add_comm]
  obtain ⟨σ, hfix, hg⟩ := hr
  rw [hmap, hmap, hg, ← List.map_map]
  apply List.Perm.map
  -- both lists have the same length and no element twice
  have hnodup : ((List.range' 1 hi).map σ).Nodup := (List.nodup_map_iff σ.injective).mpr List.nodup_range'
  refine (List.Nodup.subperm hnodup fun x hx => ?_).perm_of_length_le (by rw [List.length_map])
  obtain ⟨k, hk, rfl⟩ := List.mem_map.mp hx
  have hr' : Rearranged id (id ∘ σ) 1 hi := ⟨σ, hfix, rfl⟩
  rw [List.mem_range'_1] at hk ⊢
  obtain ⟨j, hj1, hjhi, hj⟩ := hr'.exists_of_mem (k := k) (by omega)
  have hj' : σ k = j := hj
  omega

end Rearranged

/-! ## Heaps -/

/-- Of the first `n` elements, none whose parent is at `lo` or behind is greater than its parent. -/
def IsHeap (le : α → α → Prop) (f : ℕ → α) (lo n : ℕ) : Prop :=
  ∀ c ≤ n, lo ≤ c / 2 → le (f c) (f (c / 2))

/-- A heap in which the element at `i` may be less than its children. -/
structure HeapExcept (le : α → α → Prop) (f : ℕ → α) (lo n i : ℕ) : Prop where
  off : ∀ c ≤ n, lo ≤ c / 2 → c / 2 ≠ i → le (f c) (f (c / 2))
  children : ∀ c ≤ n, c / 2 = i → lo ≤ i / 2 → le (f c) (f (i / 2))

/-- The element at `i` goes down to its place among the first `n` elements. -/
inductive Sift (le : α → α → Prop) (n : ℕ) : (ℕ → α) → ℕ → (ℕ → α) → Prop
  | stop {f : ℕ → α} {i : ℕ} (hmax : ∀ c ≤ n, c / 2 = i → le (f c) (f i)) : Sift le n f i f
  | down {f g : ℕ → α} {i c : ℕ} (hc : c / 2 = i) (hn : c ≤ n) (hle : le (f i) (f c))
      (hmax : ∀ d ≤ n, d / 2 = i → le (f d) (f c)) (hrest : Sift le n (f ∘ Equiv.swap i c) c g) : Sift le n f i g

variable {le : α → α → Prop} {f g : ℕ → α} {lo n i k : ℕ}

/-- Behind the middle there are no children. -/
lemma isHeap_half (le : α → α → Prop) (f : ℕ → α) (n : ℕ) : IsHeap le f (n / 2 + 1) n := by
  intro c hc hlo
  omega

/-- One more element in front. -/
lemma IsHeap.heapExcept (h : IsHeap le f (lo + 1) n) (hlo : 0 < lo) : HeapExcept le f lo n lo := by
  constructor
  · intro c hc hge hne
    exact h c hc (by omega)
  · intro c hc hcl hge
    omega

/-- The first element is the greatest. -/
lemma IsHeap.le_root [Std.Total le] [IsTrans α le] (h : IsHeap le f 1 n) (hk : 1 ≤ k ∧ k ≤ n) : le (f k) (f 1) := by
  induction k using Nat.strong_induction_on with
  | _ k ih =>
    by_cases hone : k = 1
    · subst hone
      exact (Std.Total.total (f 1) (f 1)).elim id id
    · have hparent := h k hk.2 (by omega)
      exact IsTrans.trans _ _ _ hparent (ih (k / 2) (by omega) (by omega))

/-- One exchange: the place that is out of order is now that of the child. -/
lemma HeapExcept.down (h : HeapExcept le f lo n i) (hi : lo ≤ i ∧ 0 < i) {c : ℕ} (hc : c / 2 = i) (hn : c ≤ n)
    (hle : le (f i) (f c)) (hmax : ∀ d ≤ n, d / 2 = i → le (f d) (f c)) :
    HeapExcept le (f ∘ Equiv.swap i c) lo n c := by
  have hother : ∀ k, k ≠ i → k ≠ c → (f ∘ Equiv.swap i c) k = f k := by
    intro k hki hkc
    rw [Function.comp_apply, Equiv.swap_apply_of_ne_of_ne hki hkc]
  have hfst : (f ∘ Equiv.swap i c) i = f c := by
    rw [Function.comp_apply, Equiv.swap_apply_left]
  have hsnd : (f ∘ Equiv.swap i c) c = f i := by
    rw [Function.comp_apply, Equiv.swap_apply_right]
  constructor
  · intro d hd hge hne
    by_cases hdi : d / 2 = i
    · rw [hdi, hfst]
      by_cases hdc : d = c
      · rw [hdc, hsnd]
        exact hle
      · rw [hother d (by omega) hdc]
        exact hmax d hd hdi
    · rw [hother (d / 2) hdi hne]
      by_cases hd' : d = i
      · -- the parent of `i` was not less than the children of `i`
        rw [hd', hfst]
        exact h.children c hn hc (by omega)
      · rw [hother d hd' (by omega)]
        exact h.off d hd hge hdi
  · intro d hd hdc hge
    rw [hc, hfst, hother d (by omega) (by omega), ← hdc]
    exact h.off d hd (by omega) (by omega)

lemma Sift.isHeap (hs : Sift le n f i g) (hi : lo ≤ i ∧ 0 < i) (h : HeapExcept le f lo n i) : IsHeap le g lo n := by
  induction hs with
  | @stop f i hmax =>
    intro c hc hge
    by_cases hci : c / 2 = i
    · rw [hci]
      exact hmax c hc hci
    · exact h.off c hc hge hci
  | down hc hn hle hmax _ ih => exact ih (by omega) (h.down hi hc hn hle hmax)

lemma Sift.rearranged (hs : Sift le n f i g) (hi : 0 < i) : Rearranged f g i n := by
  induction hs with
  | stop _ => exact Rearranged.refl _ _ _
  | @down f g i c hc hn _ _ _ ih =>
    have hswap : Rearranged f (f ∘ Equiv.swap i c) i n := Rearranged.swap f (by omega) (by omega)
    have hrest : Rearranged (f ∘ Equiv.swap i c) g i n := (ih (by omega)).mono (by omega) (Nat.le_refl _)
    exact hswap.trans hrest

/-! ## Heap sort -/

/-- The first `i` of `n` elements are a heap, and each of the others has only elements before it that are not greater. -/
structure Selected (le : α → α → Prop) (f : ℕ → α) (i n : ℕ) : Prop where
  heap : IsHeap le f 1 i
  above : ∀ a b, 1 ≤ a → a ≤ b → i < b → b ≤ n → le (f a) (f b)

/-- The first element is exchanged for the last one of the heap, which then goes down. -/
lemma Selected.step [Std.Total le] [IsTrans α le] (h : Selected le f (i + 1) n) (hi : 0 < i)
    (hs : Sift le i (f ∘ Equiv.swap 1 (i + 1)) 1 g) : Selected le g i n := by
  have hswap : Rearranged f (f ∘ Equiv.swap 1 (i + 1)) 1 (i + 1) := Rearranged.swap f (by omega) (by omega)
  have hsift := hs.rearranged Nat.one_pos
  have hall : Rearranged f g 1 (i + 1) := hswap.trans (hsift.mono (Nat.le_refl _) (by omega))
  have hexcept : HeapExcept le (f ∘ Equiv.swap 1 (i + 1)) 1 i 1 := by
    constructor
    · intro c hc hge hne
      rw [Function.comp_apply, Function.comp_apply, Equiv.swap_apply_of_ne_of_ne (by omega) (by omega),
        Equiv.swap_apply_of_ne_of_ne (by omega) (by omega)]
      exact h.heap c (by omega) hge
    · intro c hc hone hge
      omega
  constructor
  · exact hs.isHeap (by omega) hexcept
  · intro a b ha hab hib hbn
    by_cases hb : b = i + 1
    · -- the greatest element of the heap is now behind it
      subst hb
      obtain ⟨j, hj1, hj, hga⟩ := hall.exists_of_mem (k := a) (by omega)
      rw [hga, hsift.eq_of_not_mem (by omega), Function.comp_apply, Equiv.swap_apply_right]
      exact h.heap.le_root (by omega)
    · rw [hall.eq_of_not_mem (k := b) (by omega)]
      by_cases hin : a ≤ i + 1
      · obtain ⟨j, hj1, hj, hga⟩ := hall.exists_of_mem (k := a) (by omega)
        rw [hga]
        exact h.above j b hj1 (by omega) (by omega) hbn
      · rw [hall.eq_of_not_mem (by omega)]
        exact h.above a b ha hab (by omega) hbn

/-- With one element left the array is in order. -/
lemma Selected.pairwise [Std.Total le] (h : Selected le f i n) (hi : i ≤ 1) :
    ((List.range n).map fun k => f (k + 1)).Pairwise le := by
  rw [List.pairwise_map]
  apply List.pairwise_lt_range.imp_of_mem
  intro a b _ hb hab
  rw [List.mem_range] at hb
  exact h.above (a + 1) (b + 1) (by omega) (by omega) (by omega) (by omega)

end OsLabs.Lib
