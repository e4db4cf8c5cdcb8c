import Mathlib.Data.List.Basic

/-!
# Ring buffers

A ring of `N` slots with the position of the next element to write and that of the next one to read. It is empty when the
two are the same, so it holds `N - 1` elements at most.

`contents` is the queue that the ring stands for: `push` appends to it, `pop` takes its first element.
-/

namespace OsLabs.Lib

open Function

/-- The slots, and the positions of the next element to write and to read. -/
structure Ring (α : Type*) (N : ℕ) where
  buf : ℕ → α
  head : ℕ
  tail : ℕ
  head_lt : head < N
  tail_lt : tail < N

namespace Ring

variable {α : Type*} {N : ℕ} {q : Ring α N}

/-- The position after `pos`. -/
def next (N pos : ℕ) : ℕ :=
  (pos + 1) % N

def Empty (q : Ring α N) : Prop :=
  q.head = q.tail

def Full (q : Ring α N) : Prop :=
  next N q.head = q.tail

instance (q : Ring α N) : Decidable q.Empty := inferInstanceAs (Decidable (_ = _))

instance (q : Ring α N) : Decidable q.Full := inferInstanceAs (Decidable (_ = _))

lemma next_lt {pos : ℕ} (h : pos < N) : next N pos < N :=
  Nat.mod_lt _ (Nat.zero_lt_of_lt h)

/-- Write at the head. -/
def push (q : Ring α N) (a : α) : Ring α N :=
  { q with buf := update q.buf q.head a, head := next N q.head, head_lt := next_lt q.head_lt }

/-- The element at the tail. -/
def front (q : Ring α N) : α :=
  q.buf q.tail

/-- Move the tail past its element. -/
def pop (q : Ring α N) : Ring α N :=
  { q with tail := next N q.tail, tail_lt := next_lt q.tail_lt }

/-- The number of elements. -/
def length (q : Ring α N) : ℕ :=
  (q.head + (N - q.tail)) % N

/-- The elements from the tail to the head. -/
def contents (q : Ring α N) : List α :=
  (List.range q.length).map fun i => q.buf ((q.tail + i) % N)

/-- A sum of two positions wraps around once at most. -/
lemma add_mod_eq {i j : ℕ} (hi : i < N) (hj : j ≤ N) : (i + j) % N = if i + j < N then i + j else i + j - N := by
  split
  · rename_i hlt
    exact Nat.mod_eq_of_lt hlt
  · rw [Nat.mod_eq_sub_mod (by omega), Nat.mod_eq_of_lt (by omega)]

lemma next_eq {pos : ℕ} (h : pos < N) : next N pos = if pos + 1 < N then pos + 1 else 0 := by
  rw [next, add_mod_eq h (by omega)]
  split
  · rfl
  · omega

lemma length_eq (q : Ring α N) : q.length = if q.tail ≤ q.head then q.head - q.tail else q.head + N - q.tail := by
  have hhead := q.head_lt
  have htail := q.tail_lt
  rw [length, add_mod_eq hhead (by omega)]
  split <;> split <;> omega

lemma length_eq_zero_iff (q : Ring α N) : q.length = 0 ↔ q.Empty := by
  have htail := q.tail_lt
  rw [length_eq, Empty]
  split <;> omega

lemma length_lt (q : Ring α N) : q.length < N :=
  Nat.mod_lt _ (Nat.zero_lt_of_lt q.head_lt)

lemma length_contents (q : Ring α N) : q.contents.length = q.length := by
  rw [contents, List.length_map, List.length_range]

lemma contents_eq_nil_iff (q : Ring α N) : q.contents = [] ↔ q.Empty := by
  rw [← length_eq_zero_iff, contents, List.map_eq_nil_iff, List.range_eq_nil]

lemma length_push (h : ¬q.Full) (a : α) : (q.push a).length = q.length + 1 := by
  have hhead := q.head_lt
  have htail := q.tail_lt
  rw [Full, next_eq hhead] at h
  rw [length_eq, length_eq]
  show (if q.tail ≤ next N q.head then next N q.head - q.tail else next N q.head + N - q.tail) = _
  rw [next_eq hhead]
  split_ifs at h ⊢ <;> omega

lemma length_pop (h : ¬q.Empty) : q.length = q.pop.length + 1 := by
  have hhead := q.head_lt
  have htail := q.tail_lt
  rw [Empty] at h
  rw [length_eq, length_eq]
  show _ = (if next N q.tail ≤ q.head then q.head - next N q.tail else q.head + N - next N q.tail) + 1
  rw [next_eq htail]
  split_ifs <;> omega

/-- The slot after the last element is the one at the head, and the elements are elsewhere. -/
lemma slot_eq_head_iff {i : ℕ} (h : i ≤ q.length) : (q.tail + i) % N = q.head ↔ i = q.length := by
  have hhead := q.head_lt
  have htail := q.tail_lt
  rw [length_eq] at h ⊢
  rw [add_mod_eq htail (by split at h <;> omega)]
  split_ifs at h ⊢ <;> omega

lemma contents_push (h : ¬q.Full) (a : α) : (q.push a).contents = q.contents ++ [a] := by
  rw [contents, length_push h, List.range_succ, List.map_append]
  congr 1
  · apply List.map_congr_left
    intro i hi
    have hne : (q.tail + i) % N ≠ q.head := by
      intro heq
      have hlt := List.mem_range.mp hi
      exact absurd ((slot_eq_head_iff (Nat.le_of_lt hlt)).mp heq) (Nat.ne_of_lt hlt)
    exact update_of_ne hne ..
  · have heq : (q.tail + q.length) % N = q.head := (slot_eq_head_iff (Nat.le_refl _)).mpr rfl
    show [update q.buf q.head a ((q.tail + q.length) % N)] = [a]
    rw [heq, update_self]

lemma contents_pop (h : ¬q.Empty) : q.contents = q.front :: q.pop.contents := by
  rw [contents, contents, length_pop h, List.range_succ_eq_map, List.map_cons, List.map_map, Nat.add_zero,
    Nat.mod_eq_of_lt q.tail_lt]
  congr 1
  apply List.map_congr_left
  intro i _
  show q.buf ((q.tail + (i + 1)) % N) = q.buf (((q.tail + 1) % N + i) % N)
  rw [Nat.mod_add_mod, Nat.add_right_comm, Nat.add_assoc]

lemma not_empty_push (h : ¬q.Full) (a : α) : ¬(q.push a).Empty := by
  intro hempty
  rw [← length_eq_zero_iff, length_push h] at hempty
  cases hempty

lemma not_full_pop (h : ¬q.Empty) : ¬q.pop.Full := by
  have hhead := q.head_lt
  have htail := q.tail_lt
  intro hfull
  rw [Empty] at h
  have heq : next N q.head = next N q.tail := hfull
  rw [next_eq hhead, next_eq htail] at heq
  split_ifs at heq <;> omega

end Ring

end OsLabs.Lib
