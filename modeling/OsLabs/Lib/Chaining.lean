import Mathlib.Algebra.BigOperators.Group.Finset.Basic

/-!
# Chained tables

Elements are kept in `n` buckets, each one in the bucket that `index` gives it, and no two of them are related by `r`. If related
elements have the same index, then the search for an element in one bucket finds what is in the whole table
(`Chained.find?_eq_some`).

The elements are a multiset (`contents`), so that a step that changes one bucket is one equation about it. `spread` puts
the elements into other buckets one after the other.
-/

namespace OsLabs.Lib

open Finset Function

variable {α : Type*} {n : ℕ} {B : ℕ → List α}

/-- The elements of the first `n` buckets. -/
def contents (n : ℕ) (B : ℕ → List α) : Multiset α :=
  ∑ i ∈ range n, (B i : Multiset α)

lemma mem_contents {x : α} : x ∈ contents n B ↔ ∃ i < n, x ∈ B i := by
  simp [contents]

lemma contents_succ : contents (n + 1) B = contents n B + (B n : Multiset α) :=
  sum_range_succ ..

lemma contents_nil : contents n (fun _ => ([] : List α)) = 0 := by
  simp [contents]

/-- One bucket changes. -/
lemma contents_update {i : ℕ} (hi : i < n) (ys : List α) :
    contents n (update B i ys) + (B i : Multiset α) = contents n B + (ys : Multiset α) := by
  have hsplit (B' : ℕ → List α) : contents n B' = (B' i : Multiset α) + ∑ j ∈ (range n).erase i, (B' j : Multiset α) :=
    (add_sum_erase _ _ (mem_range.mpr hi)).symm
  have hrest : ∑ j ∈ (range n).erase i, (update B i ys j : Multiset α) =
      ∑ j ∈ (range n).erase i, (B j : Multiset α) := by
    refine sum_congr rfl fun j hj => ?_
    rw [update_of_ne (ne_of_mem_erase hj)]
  rw [hsplit, hsplit B, hrest, update_self, add_right_comm, add_comm (ys : Multiset α), add_right_comm]

/-- An element goes to the front of its bucket. -/
def pushFront (index : α → ℕ) (B : ℕ → List α) (x : α) : ℕ → List α :=
  update B (index x) (x :: B (index x))

lemma contents_pushFront {index : α → ℕ} {x : α} (hx : index x < n) :
    contents n (pushFront index B x) = x ::ₘ contents n B := by
  have h := contents_update (B := B) hx (x :: B (index x))
  rw [← Multiset.cons_coe, Multiset.add_cons, ← Multiset.cons_add] at h
  exact add_right_cancel h

/-- Each element is in the bucket of its index, and no two of them are related. -/
structure Chained (r : α → α → Prop) (index : α → ℕ) (n : ℕ) (B : ℕ → List α) : Prop where
  placed : ∀ i < n, ∀ x ∈ B i, index x = i
  distinct : ∀ i < n, (B i).Pairwise fun x y => ¬r x y

namespace Chained

variable {r : α → α → Prop} {index : α → ℕ}

lemma nil : Chained r index n fun _ => [] :=
  ⟨nofun, fun _ _ => List.Pairwise.nil⟩

section Related

variable (hr : Equivalence r) (hindex : ∀ x y, r x y → index x = index y)

include hr

include hindex

/-- No two elements of the table are related. -/
lemma eq_of_rel (h : Chained r index n B) {x y : α} (hx : x ∈ contents n B) (hy : y ∈ contents n B) (hxy : r x y) :
    x = y := by
  obtain ⟨i, hi, hxi⟩ := mem_contents.mp hx
  obtain ⟨j, hj, hyj⟩ := mem_contents.mp hy
  obtain rfl : i = j := by
    rw [← h.placed i hi x hxi, ← h.placed j hj y hyj]
    exact hindex x y hxy
  by_contra hne
  have hdistinct : (B i).Pairwise fun x y => ¬r x y ∧ ¬r y x :=
    (h.distinct i hi).imp fun {x y} hxy => ⟨hxy, fun hyx => hxy (hr.symm hyx)⟩
  have : Std.Symm fun x y => ¬r x y ∧ ¬r y x := ⟨fun _ _ => And.symm⟩
  exact (hdistinct.forall hxi hyj hne).1 hxy

/-- Searching one bucket is searching the table. -/
theorem find?_eq_some (h : Chained r index n B) {p : α → Bool} {e x : α} (hp : ∀ y, p y = true ↔ r y e)
    (he : index e < n) : (B (index e)).find? p = some x ↔ x ∈ contents n B ∧ r x e := by
  constructor
  · intro hfind
    exact ⟨mem_contents.mpr ⟨_, he, List.mem_of_find?_eq_some hfind⟩, (hp x).mp (List.find?_some hfind)⟩
  · rintro ⟨hx, hxe⟩
    obtain ⟨i, hi, hxi⟩ := mem_contents.mp hx
    have hbucket : index e = i := by
      rw [← h.placed i hi x hxi]
      exact (hindex x e hxe).symm
    obtain ⟨y, hy⟩ : ∃ y, (B (index e)).find? p = some y := by
      rw [← Option.isSome_iff_exists, List.find?_isSome]
      exact ⟨x, by rw [hbucket]; exact hxi, (hp x).mpr hxe⟩
    have hye := (hp y).mp (List.find?_some hy)
    have hmem := mem_contents.mpr ⟨_, he, List.mem_of_find?_eq_some hy⟩
    rw [hy, h.eq_of_rel hr hindex hmem hx (hr.trans hye (hr.symm hxe))]

end Related

/-! ## Steps -/

/-- One bucket changes. -/
lemma update (h : Chained r index n B) {i : ℕ} {ys : List α} (hplaced : ∀ x ∈ ys, index x = i)
    (hdistinct : ys.Pairwise fun x y => ¬r x y) : Chained r index n (update B i ys) := by
  constructor
  · intro j hj x hx
    by_cases hji : j = i
    · subst hji
      rw [update_self] at hx
      exact hplaced x hx
    · rw [update_of_ne hji] at hx
      exact h.placed j hj x hx
  · intro j hj
    by_cases hji : j = i
    · subst hji
      rw [update_self]
      exact hdistinct
    · rw [update_of_ne hji]
      exact h.distinct j hj

/-- A new element goes to the front of its bucket. -/
lemma push (h : Chained r index n B) {e : α} (he : index e < n) (hnew : ∀ x ∈ contents n B, ¬r e x) :
    Chained r index n (pushFront index B e) := by
  apply h.update
  · intro x hx
    rcases List.mem_cons.mp hx with rfl | hx
    · rfl
    · exact h.placed _ he x hx
  · refine List.pairwise_cons.mpr ⟨fun x hx => ?_, h.distinct _ he⟩
    exact hnew x (mem_contents.mpr ⟨_, he, hx⟩)

/-- Elements are taken out of a bucket. -/
lemma sublist (h : Chained r index n B) {i : ℕ} {ys : List α} (hi : i < n) (hys : ys.Sublist (B i)) :
    Chained r index n (Function.update B i ys) :=
  h.update (fun x hx => h.placed i hi x (hys.subset hx)) ((h.distinct i hi).sublist hys)

end Chained

/-! ## Moving the elements to other buckets -/

/-- The elements of the first `n` buckets go to other buckets. -/
def spread (index : α → ℕ) (n : ℕ) (B : ℕ → List α) : ℕ → List α :=
  (List.range n).foldl (fun N i => (B i).foldl (pushFront index) N) fun _ => []

lemma spread_succ (index : α → ℕ) : spread index (n + 1) B = (B n).foldl (pushFront index) (spread index n B) := by
  simp [spread, List.range_succ]

variable {r : α → α → Prop} {index index' : α → ℕ} {m : ℕ} {N : ℕ → List α}

/-- New elements go to their buckets one after the other. -/
lemma Chained.foldl_push (hsymm : ∀ x y, r x y → r y x) {xs : List α} (h : Chained r index n N)
    (hxs : ∀ x ∈ xs, index x < n) (hdistinct : xs.Pairwise fun x y => ¬r x y)
    (hnew : ∀ x ∈ xs, ∀ y ∈ contents n N, ¬r x y) :
    Chained r index n (xs.foldl (pushFront index) N) ∧
      contents n (xs.foldl (pushFront index) N) = contents n N + (xs : Multiset α) := by
  induction xs generalizing N with
  | nil => exact ⟨h, (add_zero _).symm⟩
  | cons x xs ih =>
    have hx := hxs x (List.mem_cons_self ..)
    obtain ⟨hfirst, hrest⟩ := List.pairwise_cons.mp hdistinct
    have hcontents := contents_pushFront (B := N) hx
    -- the elements to come are not related to the one that was added either
    have hnew' (y : α) (hy : y ∈ xs) (z : α) (hz : z ∈ contents n (pushFront index N x)) : ¬r y z := by
      rw [hcontents] at hz
      rcases Multiset.mem_cons.mp hz with rfl | hz
      · exact fun hyz => hfirst y hy (hsymm y z hyz)
      · exact hnew y (List.mem_cons_of_mem x hy) z hz
    obtain ⟨hchained, heq⟩ := ih (h.push hx (hnew x (List.mem_cons_self ..)))
      (fun y hy => hxs y (List.mem_cons_of_mem x hy)) hrest hnew'
    refine ⟨hchained, ?_⟩
    rw [List.foldl_cons, heq, hcontents, ← Multiset.cons_coe, Multiset.add_cons, Multiset.cons_add]

/-- The elements stay the same when they are moved. -/
lemma Chained.spread (hsymm : ∀ x y, r x y → r y x) (hindex : ∀ x y, r x y → index x = index y)
    (hm : ∀ x, index' x < m) (h : Chained r index n B) :
    Chained r index' m (spread index' n B) ∧ contents m (Lib.spread index' n B) = contents n B := by
  induction n with
  | zero => exact ⟨nil, contents_nil⟩
  | succ n ih =>
    obtain ⟨hchained, heq⟩ := ih ⟨fun i hi => h.placed i (by omega), fun i hi => h.distinct i (by omega)⟩
    rw [spread_succ, contents_succ, ← heq]
    refine hchained.foldl_push hsymm (fun x _ => hm x) (h.distinct n (by omega)) fun x hx y hy hxy => ?_
    -- what was moved before has another index
    rw [heq] at hy
    obtain ⟨i, hi, hyi⟩ := mem_contents.mp hy
    have hxi := hindex x y hxy
    rw [h.placed n (by omega) x hx, h.placed i (by omega) y hyi] at hxi
    omega

end OsLabs.Lib
