import Mathlib.Data.List.Nodup
import Mathlib.Data.List.Range

/-!
# Maps in slots

A table of `size` slots, of which each holds a name with its value or nothing. `Binds` is the relation that the table
stands for, and in a table that is `OneToOne` it is a map with different values for different names.

* a name is added by storing it in a free slot (`binds_store`), and removed by clearing its slot (`binds_clear`);
* `slotNames` lists the names, each one once.
-/

namespace OsLabs.Lib

open Function

variable {κ ν : Type*} {size : ℕ} {slots slots' : ℕ → Option (κ × ν)} {i : ℕ} {k k' : κ} {v v' : ν}

/-- The name `k` is bound to `v`. -/
def Binds (size : ℕ) (slots : ℕ → Option (κ × ν)) (k : κ) (v : ν) : Prop :=
  ∃ i < size, slots i = some (k, v)

/-- Different slots have different names and different values. -/
structure OneToOne (size : ℕ) (slots : ℕ → Option (κ × ν)) : Prop where
  name : ∀ i < size, ∀ j < size, ∀ k v v', slots i = some (k, v) → slots j = some (k, v') → i = j
  value : ∀ i < size, ∀ j < size, ∀ k k' v, slots i = some (k, v) → slots j = some (k', v) → i = j

/-- The pairs in the slots, in their order. -/
def slotPairs (size : ℕ) (slots : ℕ → Option (κ × ν)) : List (κ × ν) :=
  (List.range size).filterMap slots

/-- The names in the slots, in their order. -/
def slotNames (size : ℕ) (slots : ℕ → Option (κ × ν)) : List κ :=
  (slotPairs size slots).map Prod.fst

/-! ## The same table -/

lemma binds_congr (h : ∀ i < size, slots' i = slots i) : Binds size slots' k v ↔ Binds size slots k v := by
  constructor
  · rintro ⟨i, hi, hslot⟩
    exact ⟨i, hi, (h i hi).symm.trans hslot⟩
  · rintro ⟨i, hi, hslot⟩
    exact ⟨i, hi, (h i hi).trans hslot⟩

lemma OneToOne.congr (ho : OneToOne size slots) (h : ∀ i < size, slots' i = slots i) : OneToOne size slots' where
  name i hi j hj k v v' hslot hslot' := by
    rw [h i hi] at hslot
    rw [h j hj] at hslot'
    exact ho.name i hi j hj k v v' hslot hslot'
  value i hi j hj k k' v hslot hslot' := by
    rw [h i hi] at hslot
    rw [h j hj] at hslot'
    exact ho.value i hi j hj k k' v hslot hslot'

/-- A table is a map. -/
lemma OneToOne.binds_unique (h : OneToOne size slots) (hv : Binds size slots k v) (hv' : Binds size slots k v') :
    v = v' := by
  obtain ⟨i, hi, hslot⟩ := hv
  obtain ⟨j, hj, hslot'⟩ := hv'
  obtain rfl := h.name i hi j hj k v v' hslot hslot'
  rw [hslot] at hslot'
  cases hslot'
  rfl

/-- A value has one name. -/
lemma OneToOne.binds_inj (h : OneToOne size slots) (hk : Binds size slots k v) (hk' : Binds size slots k' v) :
    k = k' := by
  obtain ⟨i, hi, hslot⟩ := hk
  obtain ⟨j, hj, hslot'⟩ := hk'
  obtain rfl := h.value i hi j hj k k' v hslot hslot'
  rw [hslot] at hslot'
  cases hslot'
  rfl

/-! ## Storing -/

lemma update_eq_some {o : Option (κ × ν)} {j : ℕ} {x : κ × ν} (h : update slots i o j = some x) :
    j = i ∧ o = some x ∨ j ≠ i ∧ slots j = some x := by
  by_cases hj : j = i
  · rw [hj, update_self] at h
    exact Or.inl ⟨hj, h⟩
  · rw [update_of_ne hj] at h
    exact Or.inr ⟨hj, h⟩

/-- A name is stored in a free slot. -/
lemma binds_store (hi : i < size) (hfree : slots i = none) :
    Binds size (update slots i (some (k, v))) k' v' ↔ k' = k ∧ v' = v ∨ Binds size slots k' v' := by
  constructor
  · rintro ⟨j, hj, hslot⟩
    rcases update_eq_some hslot with ⟨_, hnew⟩ | ⟨_, hold⟩
    · cases hnew
      exact Or.inl ⟨rfl, rfl⟩
    · exact Or.inr ⟨j, hj, hold⟩
  · rintro (⟨rfl, rfl⟩ | ⟨j, hj, hslot⟩)
    · exact ⟨i, hi, update_self ..⟩
    · have hne : j ≠ i := by
        rintro rfl
        rw [hfree] at hslot
        cases hslot
      exact ⟨j, hj, (update_of_ne hne ..).trans hslot⟩

lemma OneToOne.store (h : OneToOne size slots) (hname : ∀ v', ¬Binds size slots k v')
    (hvalue : ∀ k', ¬Binds size slots k' v) : OneToOne size (update slots i (some (k, v))) where
  name j hj j' hj' k₁ v₁ v₂ hslot hslot' := by
    rcases update_eq_some hslot with ⟨rfl, hnew⟩ | ⟨_, hold⟩
    · cases hnew
      rcases update_eq_some hslot' with ⟨rfl, _⟩ | ⟨_, hold'⟩
      · rfl
      · exact absurd ⟨j', hj', hold'⟩ (hname v₂)
    · rcases update_eq_some hslot' with ⟨rfl, hnew'⟩ | ⟨_, hold'⟩
      · cases hnew'
        exact absurd ⟨j, hj, hold⟩ (hname v₁)
      · exact h.name j hj j' hj' k₁ v₁ v₂ hold hold'
  value j hj j' hj' k₁ k₂ v₁ hslot hslot' := by
    rcases update_eq_some hslot with ⟨rfl, hnew⟩ | ⟨_, hold⟩
    · cases hnew
      rcases update_eq_some hslot' with ⟨rfl, _⟩ | ⟨_, hold'⟩
      · rfl
      · exact absurd ⟨j', hj', hold'⟩ (hvalue k₂)
    · rcases update_eq_some hslot' with ⟨rfl, hnew'⟩ | ⟨_, hold'⟩
      · cases hnew'
        exact absurd ⟨j, hj, hold⟩ (hvalue k₁)
      · exact h.value j hj j' hj' k₁ k₂ v₁ hold hold'

/-! ## Clearing -/

/-- The slot of a name is cleared. -/
lemma binds_clear (h : OneToOne size slots) (hi : i < size) (hslot : slots i = some (k, v)) :
    Binds size (update slots i none) k' v' ↔ Binds size slots k' v' ∧ k' ≠ k := by
  constructor
  · rintro ⟨j, hj, hcleared⟩
    rcases update_eq_some hcleared with ⟨_, hnone⟩ | ⟨hne, hold⟩
    · cases hnone
    · refine ⟨⟨j, hj, hold⟩, ?_⟩
      rintro rfl
      exact hne (h.name j hj i hi k' v' v hold hslot)
  · rintro ⟨⟨j, hj, hold⟩, hne⟩
    have hji : j ≠ i := by
      rintro rfl
      rw [hslot] at hold
      cases hold
      exact hne rfl
    exact ⟨j, hj, (update_of_ne hji ..).trans hold⟩

lemma OneToOne.clear (h : OneToOne size slots) : OneToOne size (update slots i none) where
  name j hj j' hj' k₁ v₁ v₂ hslot hslot' := by
    rcases update_eq_some hslot with ⟨_, hnone⟩ | ⟨_, hold⟩
    · cases hnone
    · rcases update_eq_some hslot' with ⟨_, hnone⟩ | ⟨_, hold'⟩
      · cases hnone
      · exact h.name j hj j' hj' k₁ v₁ v₂ hold hold'
  value j hj j' hj' k₁ k₂ v₁ hslot hslot' := by
    rcases update_eq_some hslot with ⟨_, hnone⟩ | ⟨_, hold⟩
    · cases hnone
    · rcases update_eq_some hslot' with ⟨_, hnone⟩ | ⟨_, hold'⟩
      · cases hnone
      · exact h.value j hj j' hj' k₁ k₂ v₁ hold hold'

/-! ## Listing -/

lemma mem_slotPairs : (k, v) ∈ slotPairs size slots ↔ Binds size slots k v := by
  simp only [slotPairs, List.mem_filterMap, List.mem_range, Binds]

lemma mem_slotNames : k ∈ slotNames size slots ↔ ∃ v, Binds size slots k v := by
  simp only [slotNames, List.mem_map, Prod.exists, mem_slotPairs, exists_and_right, exists_eq_right]

lemma slotPairs_succ : slotPairs (size + 1) slots = slotPairs size slots ++ (slots size).toList := by
  rw [slotPairs, List.range_succ]
  cases hslot : slots size <;> simp [slotPairs, hslot]

/-- Each name is listed once. -/
lemma OneToOne.nodup_slotNames (h : OneToOne size slots) : (slotNames size slots).Nodup := by
  rw [List.Nodup, slotNames, slotPairs, List.pairwise_map, List.pairwise_filterMap]
  refine List.nodup_range.imp_of_mem fun {i j} hi hj hne => ?_
  rintro ⟨k, v⟩ hslot ⟨k', v'⟩ hslot' rfl
  exact hne (h.name i (List.mem_range.mp hi) j (List.mem_range.mp hj) k v v' hslot hslot')

/-- There are fewer pairs than slots if, and only if, some slot is free. -/
lemma length_slotPairs_lt : (slotPairs size slots).length < size ↔ ∃ i < size, slots i = none := by
  have hle : ∀ n, (slotPairs n slots).length ≤ n := by
    intro n
    have h := List.length_filterMap_le slots (List.range n)
    rw [List.length_range] at h
    exact h
  induction size with
  | zero => simp
  | succ n ih =>
    rw [slotPairs_succ, List.length_append]
    cases hslot : slots n with
    | none =>
      have hlt := hle n
      simp only [Option.toList_none, List.length_nil]
      exact ⟨fun _ => ⟨n, by omega, hslot⟩, fun _ => by omega⟩
    | some x =>
      simp only [Option.toList_some, List.length_singleton, Nat.add_lt_add_iff_right, ih]
      constructor
      · rintro ⟨i, hi, hfree⟩
        exact ⟨i, by omega, hfree⟩
      · rintro ⟨i, hi, hfree⟩
        have hne : i ≠ n := by
          rintro rfl
          rw [hslot] at hfree
          cases hfree
        exact ⟨i, by omega, hfree⟩

end OsLabs.Lib
