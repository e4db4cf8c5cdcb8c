import Mathlib.Data.List.SplitBy
import OsLabs.Lib.NaturalMerge

/-!
# Groups of equal elements

Elements are equal if neither is less than the other. A list falls into maximal groups of adjacent equal elements; `firsts` is
the list of their first elements and `others` has all other elements.

If `less` is a strict weak order then an element belongs to a group if it equals the first element of it
(`firsts_append`, `others_append`). The first elements of a list in order are increasing (`pairwise_firsts`).
-/

namespace OsLabs.Lib

variable {α : Type*} (less : α → α → Bool)

/-- The first element of each group. -/
def firsts (xs : List α) : List α :=
  (xs.splitBy (equivalent less)).filterMap List.head?

/-- The elements that are not the first ones of their groups. -/
def others (xs : List α) : List α :=
  (xs.splitBy (equivalent less)).flatMap List.tail

lemma perm_firsts_others (xs : List α) : (firsts less xs ++ others less xs).Perm xs := by
  have hgroups (gs : List (List α)) (hgs : [] ∉ gs) :
      (gs.filterMap List.head? ++ gs.flatMap List.tail).Perm gs.flatten := by
    induction gs with
    | nil => exact .nil
    | cons g gs ih =>
      obtain ⟨hg, hgs'⟩ := not_or.mp (List.mem_cons.not.mp hgs)
      obtain ⟨a, g, rfl⟩ := List.exists_cons_of_ne_nil (Ne.symm hg)
      refine List.Perm.cons a ?_
      exact List.perm_append_comm_assoc .. |>.trans ((ih hgs').append_left g)
  have hperm := hgroups _ (List.nil_notMem_splitBy (equivalent less) xs)
  rwa [List.flatten_splitBy] at hperm

variable {less} {a b : α} {group rest : List α}

lemma equivalent_iff : equivalent less a b = true ↔ less a b = false ∧ less b a = false := by
  simp [equivalent]

/-- One more element of a group. -/
lemma forall_mem_concat (hgroup : ∀ x ∈ group, equivalent less a x = true) (hb : equivalent less a b = true) :
    ∀ x ∈ group ++ [b], equivalent less a x = true := by
  simpa [or_imp, forall_and] using ⟨hgroup, hb⟩

section Order

variable [IsStrictWeakOrder α fun a b => less a b = true]

lemma equivalent_trans {c : α} (hab : equivalent less a b = true) (hbc : equivalent less b c = true) :
    equivalent less a c = true := by
  rw [equivalent_iff] at hab hbc ⊢
  exact ⟨not_less_trans hbc.1 hab.1, not_less_trans hab.2 hbc.2⟩

section Group

variable (hgroup : ∀ x ∈ group, equivalent less a x = true)
include hgroup

/-- The elements that equal `a` are one group. -/
lemma splitBy_group :
    (a :: group).splitBy (equivalent less) = [a :: group] := by
  apply List.splitBy_of_isChain (List.cons_ne_nil a group)
  refine (List.pairwise_cons.mpr ⟨hgroup, ?_⟩).isChain
  refine List.pairwise_of_forall_mem_list fun x hx y hy => equivalent_trans ?_ (hgroup y hy)
  exact equivalent_iff.mpr (equivalent_iff.mp (hgroup x hx)).symm

/-- A group ends where the next element does not equal its first one. -/
lemma splitBy_group_append (hb : equivalent less a b = false) :
    (a :: group ++ b :: rest).splitBy (equivalent less) = (a :: group) :: (b :: rest).splitBy (equivalent less) := by
  rw [List.splitBy_append_cons, splitBy_group hgroup]
  · rfl
  · intro x hx
    rw [Bool.eq_false_iff] at hb ⊢
    intro hxb
    rcases List.mem_cons.mp (List.mem_of_getLast? hx) with rfl | hx
    · exact hb hxb
    · exact hb (equivalent_trans (hgroup x hx) hxb)

lemma firsts_append (hb : equivalent less a b = false) :
    firsts less (a :: group ++ b :: rest) = a :: firsts less (b :: rest) := by
  rw [firsts, splitBy_group_append hgroup hb]
  rfl

lemma others_append (hb : equivalent less a b = false) :
    others less (a :: group ++ b :: rest) = group ++ others less (b :: rest) := by
  rw [others, splitBy_group_append hgroup hb]
  rfl

lemma firsts_group : firsts less (a :: group) = [a] := by
  rw [firsts, splitBy_group hgroup]
  rfl

lemma others_group : others less (a :: group) = group := by
  rw [others, splitBy_group hgroup]
  exact List.append_nil group

lemma isChain_firsts (h : InOrder less (a :: rest)) :
    ∃ fs, firsts less (a :: group ++ rest) = a :: fs ∧ (a :: fs).IsChain fun a b => less a b = true := by
  induction rest generalizing a group with
  | nil =>
    rw [List.append_nil]
    exact ⟨[], firsts_group hgroup, List.isChain_singleton a⟩
  | cons b rest ih =>
    obtain ⟨hba, hrest⟩ := List.isChain_cons_cons.mp h
    cases hb : equivalent less a b with
    | true =>
      have horder : InOrder less (a :: rest) :=
        (h.pairwise.sublist ((List.sublist_cons_self b rest).cons_cons a)).isChain
      rw [List.append_cons]
      exact ih (forall_mem_concat hgroup hb) horder
    | false =>
      obtain ⟨fs, hfirsts, hchain⟩ := ih (List.forall_mem_nil _) hrest
      have hab : less a b = true := by simpa [equivalent, hba] using hb
      refine ⟨b :: fs, ?_, List.isChain_cons_cons.mpr ⟨hab, hchain⟩⟩
      rw [firsts_append hgroup hb]
      exact congrArg _ hfirsts

end Group

/-- What is left of a list in order is increasing. -/
lemma pairwise_firsts {xs : List α} (h : xs.Pairwise fun a b => less b a = false) :
    (firsts less xs).Pairwise fun a b => less a b = true := by
  cases xs with
  | nil => exact .nil
  | cons a xs =>
    obtain ⟨fs, hfirsts, hchain⟩ := isChain_firsts (List.forall_mem_nil _) h.isChain
    have hfirsts : firsts less (a :: xs) = a :: fs := hfirsts
    rw [hfirsts]
    exact List.isChain_iff_pairwise.mp hchain

end Order

end OsLabs.Lib
