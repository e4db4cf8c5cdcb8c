import OsLabs.Lib.Groups
import OsLabs.LibKernel.ListSort

/-!
# Removing duplicates from a list

`list_unique` of `lib/kernel/list.c`. It compares each element with the last one that it has kept. With a strict weak order
this is the first element of a group of equal elements, so the first elements stay and the others go to the list of the
duplicates, if there is one (`list_unique_keeps_firsts`).
-/

namespace OsLabs.LibKernel

open Lib Function

/-! ## The code -/

/-- The part of `list_unique` that keeps a duplicate, if `duplicates` is not NULL. -/
def pushDuplicate (mem : Words) (duplicates elem : ℕ) : Option Words :=
  if duplicates ≠ 0 then listPushBack mem duplicates elem else some mem

section Code

variable (less : ℕ → ℕ → Bool) (list duplicates : ℕ)

/-- The loop of `list_unique`. -/
def uniqueLoop : ℕ → Words → ℕ → Option Words
  | 0, _, _ => none
  | fuel + 1, mem, elem => do
    let next ← listNext mem elem
    if next = listEnd list then return mem
    else if !less elem next && !less next elem then
      let mem ← listRemove mem next
      let mem ← pushDuplicate mem duplicates next
      uniqueLoop fuel mem elem
    else uniqueLoop fuel mem next

/-- `list_unique`; `none` if an assertion fails. -/
def listUnique (fuel : ℕ) (mem : Words) : Option Words :=
  if list = 0 then none
  else if listEmpty mem list then some mem
  else uniqueLoop less list duplicates fuel mem (listBegin mem list)

end Code

/-! ## The lists -/

variable {less : ℕ → ℕ → Bool} {mem : Words} {L : Lists} {l d a b : ℕ} {xs ys kept group rest ds : List ℕ}

/-- The list is `xs`, and that of the duplicates, if there is one, is `ys`. -/
def withLists (L : Lists) (l d : ℕ) (xs ys : List ℕ) : Lists :=
  update (if d = 0 then L else update L d (some ys)) l (some xs)

lemma withLists_eq (hl : L l = some xs) (hd : d ≠ 0 → L d = some ys) : withLists L l d xs ys = L := by
  unfold withLists
  split
  · rw [← hl, update_eq_self]
  · rename_i hne
    rw [← hd hne, update_eq_self, ← hl, update_eq_self]

lemma withLists_withLists (xs' ys' : List ℕ) :
    withLists (withLists L l d xs' ys') l d xs ys = withLists L l d xs ys := by
  funext x
  unfold withLists
  split <;> grind [update_apply]

/-- A duplicate is taken out of the list, and put at the end of the other one. -/
lemma Holds.moveDuplicate (h : Holds mem L) (hl : L l = some (kept ++ a :: b :: rest))
    (hd : d ≠ 0 → L d = some ys) (hne : d ≠ l) :
    ∃ mem₁ mem₂, listRemove mem b = some mem₁ ∧ pushDuplicate mem₁ d b = some mem₂ ∧
      Holds mem₂ (withLists L l d (kept ++ a :: rest) (ys ++ [b])) := by
  have hl' : L l = some (kept ++ [a] ++ [b] ++ rest) := by simpa using hl
  obtain ⟨q, hq⟩ := exists_at l rest
  obtain ⟨mem₁, hremove, -, h₁, hfresh⟩ := h.remove hl' hq
  rw [List.append_assoc] at h₁ hfresh
  by_cases hzero : d = 0
  · refine ⟨mem₁, mem₁, hremove, if_neg (not_not.mpr hzero), ?_⟩
    rw [withLists, if_pos hzero]
    exact h₁
  · have hd₁ : update L l (some (kept ++ a :: rest)) d = some (ys ++ []) := by
      rw [update_of_ne hne, hd hzero, List.append_nil]
    obtain ⟨mem₂, hpush, h₂⟩ := h₁.insert hd₁ at_nil hfresh
    refine ⟨mem₁, mem₂, hremove, (if_pos hzero).trans hpush, ?_⟩
    rw [withLists, if_neg hzero, update_comm hne]
    rw [List.append_nil] at h₂
    exact h₂

section Order

variable [IsStrictWeakOrder ℕ fun a b => less a b = true]

variable (less) in
/-- The loop from element `a` on, which was kept; `group` are the elements after it that were removed. -/
lemma uniqueLoop_spec (hne : d ≠ l) (h : Holds mem L) (hl : L l = some (kept ++ a :: rest))
    (hd : d ≠ 0 → L d = some (ds ++ group)) (hgroup : ∀ x ∈ group, equivalent less a x = true) :
    ∃ mem', Returns (fun fuel => uniqueLoop less l d fuel mem a) mem' ∧
      Holds mem' (withLists L l d (kept ++ firsts less (a :: group ++ rest)) (ds ++ others less (a :: group ++ rest))) := by
  induction rest generalizing mem L kept a group ds with
  | nil =>
    obtain ⟨hnext, -⟩ := (h.list l _ hl).next_prev at_nil
    rw [List.append_nil, firsts_group hgroup, others_group hgroup, withLists_eq hl hd]
    refine ⟨mem, (Returns.of_eq fun _ => rfl).succ fun fuel => ?_, h⟩
    rw [uniqueLoop, hnext]
    exact if_pos rfl
  | cons b rest ih =>
    have hlist := h.list l _ hl
    obtain ⟨hnext, -⟩ := hlist.next_prev at_cons
    have hlist' : IsList mem l (kept ++ [a] ++ b :: rest) := by simpa using hlist
    have hround (fuel : ℕ) : uniqueLoop less l d (fuel + 1) mem a =
        if equivalent less a b then (do
          let mem ← listRemove mem b
          let mem ← pushDuplicate mem d b
          uniqueLoop less l d fuel mem a)
        else uniqueLoop less l d fuel mem b := by
      rw [uniqueLoop, hnext]
      exact if_neg hlist'.ne_end
    cases hb : equivalent less a b with
    | true =>
      obtain ⟨mem₁, mem₂, hremove, hpush, h₂⟩ := h.moveDuplicate hl hd hne
      have hd₂ : d ≠ 0 → withLists L l d (kept ++ a :: rest) (ds ++ group ++ [b]) d = some (ds ++ (group ++ [b])) := by
        intro hzero
        rw [withLists, if_neg hzero, update_of_ne hne, update_self, List.append_assoc]
      obtain ⟨mem', hreturns, h'⟩ := ih h₂ (update_self ..) hd₂ (forall_mem_concat hgroup hb)
      rw [withLists_withLists, ← List.cons_append, List.append_assoc] at h'
      refine ⟨mem', hreturns.succ fun fuel => ?_, h'⟩
      rw [hround, if_pos hb, hremove]
      show (pushDuplicate mem₁ d b).bind _ = _
      rw [hpush]
      rfl
    | false =>
      have hl' : L l = some (kept ++ [a] ++ b :: rest) := by simpa using hl
      have hd' : d ≠ 0 → L d = some (ds ++ group ++ []) := by simpa using hd
      obtain ⟨mem', hreturns, h'⟩ := ih h hl' hd' (List.forall_mem_nil _)
      rw [firsts_append hgroup hb, others_append hgroup hb, List.append_cons, ← List.append_assoc]
      refine ⟨mem', hreturns.succ fun fuel => ?_, h'⟩
      rw [hround, hb]
      rfl

variable (less) in
/-- `list_unique` returns, so all assertions hold. The list has the first element of each group, the others are appended to
the duplicates, and no element is lost. A list in order is left increasing. -/
theorem list_unique_keeps_firsts (h : Holds mem L) (hl : L l = some xs) (hd : d ≠ 0 → L d = some ds) (hne : d ≠ l) :
    (∃ mem', Returns (fun fuel => listUnique less l d fuel mem) mem' ∧
      Holds mem' (Function.update (if d = 0 then L else Function.update L d (some (ds ++ others less xs))) l
        (some (firsts less xs)))) ∧
    (firsts less xs ++ others less xs).Perm xs ∧
    (xs.Pairwise (fun a b => less b a = false) → (firsts less xs).Pairwise fun a b => less a b = true) := by
  refine ⟨?_, perm_firsts_others less xs, pairwise_firsts⟩
  have hlist := h.list l xs hl
  have hzero : l ≠ 0 := hlist.ne_zero l head_mem
  cases xs with
  | nil =>
    have hsame : withLists L l d [] (ds ++ []) = L := withLists_eq hl (by simpa using hd)
    refine ⟨mem, .of_eq fun fuel => ?_, ?_⟩
    · rw [listUnique, if_neg hzero, if_pos (hlist.empty_iff.mpr rfl)]
    · show Holds mem (withLists L l d [] (ds ++ []))
      rw [hsame]
      exact h
  | cons a xs =>
    obtain ⟨mem', hreturns, h'⟩ := uniqueLoop_spec less hne h (show L l = some ([] ++ a :: xs) from hl)
      (show d ≠ 0 → L d = some (ds ++ []) by simpa using hd) (List.forall_mem_nil _)
    refine ⟨mem', hreturns.congr fun fuel => ?_, h'⟩
    rw [listUnique, if_neg hzero, if_neg (by rw [hlist.empty_iff]; simp), hlist.begin_eq at_cons]

end Order

/-- Elements are compared by their thousands: the second of two equal elements goes to the other list. -/
theorem list_unique_keeps_firsts_two :
    ∃ mem mem', IsList mem 100 [1100, 1200] ∧
      Returns (fun fuel => listUnique (fun a b => decide (a / 1000 < b / 1000)) 100 200 fuel mem) mem' ∧
      IsList mem' 100 [1100] ∧ IsList mem' 200 [1200] := by
  obtain ⟨mem₁, -, h₁⟩ := holds_twoLists.insert (l := 100) (show _ = some ([] ++ []) from rfl) at_nil
    (fresh_twoLists (show 300 ≤ 1100 by decide))
  obtain ⟨mem, -, h⟩ := h₁.insert (show _ = some ([1100] ++ []) from update_self ..) at_nil
    ((fresh_twoLists (show 300 ≤ 1200 by decide)).update (by decide))
  have : IsStrictWeakOrder ℕ fun a b => decide (a / 1000 < b / 1000) = true := by
    simp only [decide_eq_true_eq]
    exact { irrefl := fun a => Nat.lt_irrefl _, trans := fun _ _ _ => Nat.lt_trans, incomp_trans := fun a b c hab hbc => by omega }
  obtain ⟨⟨mem', hreturns, h'⟩, -⟩ := list_unique_keeps_firsts (d := 200) (fun a b => decide (a / 1000 < b / 1000)) h
    (update_self ..) (fun _ => rfl) (by decide)
  exact ⟨mem, mem', h.list 100 _ (update_self ..), hreturns, h'.list 100 _ (update_self ..), h'.list 200 _ rfl⟩

end OsLabs.LibKernel
