import Mathlib.Data.List.Chain

/-!
# Natural merge sort

A list is made of runs of elements in order. A pass merges the first two runs, the next two, and so on (`MergePass`).

* The merge of two lists in order is in order, and keeps the order of equivalent elements (`filter_merge`);
* a pass that puts out `n` runs leaves less than `n` descents, and there were `2 * n - 2` of them at least
  (`MergePass.descents_out`, `MergePass.le_descents`). So as long as there is more than one run there are less and less of them.
-/

namespace OsLabs.Lib

variable {α : Type*} (less : α → α → Bool)

/-- No element is less than the one before it. -/
def InOrder (xs : List α) : Prop :=
  xs.IsChain fun a b => less b a = false

/-- The number of elements that are less than the one before them. -/
def descents : List α → ℕ
  | a :: b :: l => (if less b a then 1 else 0) + descents (b :: l)
  | _ => 0

/-- Neither of the two is less than the other. -/
def equivalent (a b : α) : Bool :=
  !less a b && !less b a

/-- `as` is a run that is not continued by `rest`: the next element is less than its last one. -/
structure IsRun (as rest : List α) : Prop where
  ne_nil : as ≠ []
  inOrder : InOrder less as
  ends : ∀ a ∈ as.getLast?, ∀ b ∈ rest.head?, less b a = true

/-- The merge of two lists in order. Of two equivalent elements the one of the first list comes first. -/
def mergeRuns (as bs : List α) : List α :=
  as.merge bs fun a b => !less b a

/-- The lists before and after a pass, and the number of runs that it puts out. -/
inductive MergePass : List α → List α → ℕ → Prop
  | nil : MergePass [] [] 0
  | last {as : List α} (has : IsRun less as []) : MergePass as as 1
  | merge {as bs rest out : List α} {n : ℕ} (has : IsRun less as (bs ++ rest)) (hbs : IsRun less bs rest)
      (hrest : MergePass rest out n) : MergePass (as ++ bs ++ rest) (mergeRuns less as bs ++ out) (n + 1)

variable {less}

/-! ## Descents -/

lemma inOrder_iff_descents {xs : List α} : InOrder less xs ↔ descents less xs = 0 := by
  unfold InOrder
  induction xs with
  | nil => simp [descents]
  | cons a xs ih =>
    cases xs with
    | nil => simp [descents]
    | cons b xs =>
      rw [List.isChain_cons_cons, ih, descents]
      cases less b a <;> simp

lemma descents_append_cons_cons (as bs : List α) (a b : α) :
    descents less (as ++ a :: b :: bs) =
      descents less (as ++ [a]) + (if less b a then 1 else 0) + descents less (b :: bs) := by
  induction as with
  | nil => simp [descents]
  | cons x as ih =>
    cases as with
    | nil => simp [descents, Nat.add_assoc]
    | cons y as =>
      simp only [List.cons_append, descents] at ih ⊢
      omega

lemma descents_append_le (as bs : List α) : descents less (as ++ bs) ≤ descents less as + descents less bs + 1 := by
  rcases List.eq_nil_or_concat as with rfl | ⟨as, a, rfl⟩
  · rw [List.nil_append]
    omega
  · cases bs with
    | nil =>
      rw [List.append_nil]
      omega
    | cons b bs =>
      rw [List.concat_eq_append, List.append_assoc, List.singleton_append, descents_append_cons_cons]
      split <;> omega

/-- There is a descent after a run. -/
lemma IsRun.descents_append {as rest : List α} (h : IsRun less as rest) (hrest : rest ≠ []) :
    descents less (as ++ rest) = descents less rest + 1 := by
  obtain ⟨as, a, rfl⟩ := (List.eq_nil_or_concat as).resolve_left h.ne_nil
  obtain ⟨b, bs, rfl⟩ := List.exists_cons_of_ne_nil hrest
  have hless : less b a = true := h.ends a (by simp) b (by simp)
  have hzero := inOrder_iff_descents.mp h.inOrder
  rw [List.concat_eq_append] at hzero ⊢
  rw [List.append_assoc, List.singleton_append, descents_append_cons_cons, hless, if_pos rfl]
  omega

/-! ## Strict weak orders -/

section Order

variable [IsStrictWeakOrder α fun a b => less a b = true]

lemma less_asymm {a b : α} (h : less a b = true) : less b a = false := by
  rw [Bool.eq_false_iff]
  intro hba
  exact irrefl_of (fun a b => less a b = true) a (trans_of (fun a b => less a b = true) h hba)

lemma not_less_trans {a b c : α} (hab : less b a = false) (hbc : less c b = false) : less c a = false := by
  rw [Bool.eq_false_iff] at hab hbc ⊢
  intro hca
  have hab' : ¬less a b = true := fun hlt => hbc (trans_of (fun a b => less a b = true) hca hlt)
  have hbc' : ¬less b c = true := fun hlt => hab (trans_of (fun a b => less a b = true) hlt hca)
  exact (@IsStrictWeakOrder.incomp_trans α (fun a b => less a b = true) _ a b c ⟨hab', hab⟩ ⟨hbc', hbc⟩).2 hca

lemma InOrder.pairwise {xs : List α} (h : InOrder less xs) : xs.Pairwise fun a b => less b a = false := by
  have : IsTrans α fun a b => less b a = false := ⟨fun _ _ _ => not_less_trans⟩
  exact List.isChain_iff_pairwise.mp h

lemma mergeRuns_inOrder {as bs : List α} (has : InOrder less as) (hbs : InOrder less bs) :
    InOrder less (mergeRuns less as bs) := by
  have hle {xs : List α} (h : InOrder less xs) : xs.Pairwise fun a b => (!less b a) = true :=
    h.pairwise.imp fun hab => by rw [hab]; rfl
  have hmerge := @List.pairwise_merge α (fun a b => !less b a) (fun a b c hab hbc => ?_) (fun a b => ?_) as bs (hle has)
    (hle hbs)
  · exact (hmerge.imp fun hab => Bool.not_eq_true' _ |>.mp hab).isChain
  · rw [Bool.not_eq_true'] at hab hbc ⊢
    exact not_less_trans hab hbc
  · cases hba : less b a with
    | false => rfl
    | true => rw [less_asymm hba]; rfl

/-- Merging does not change the order of equivalent elements. -/
lemma filter_mergeRuns {as bs : List α} (has : InOrder less as) (hbs : InOrder less bs) (z : α) :
    (mergeRuns less as bs).filter (equivalent less z) = (as ++ bs).filter (equivalent less z) := by
  unfold mergeRuns
  induction as generalizing bs with
  | nil => rw [List.nil_merge, List.nil_append]
  | cons a as iha =>
    induction bs with
    | nil => rw [List.merge_right, List.append_nil]
    | cons b bs ihb =>
      rw [List.cons_merge_cons]
      have hpairs := List.pairwise_cons.mp has.pairwise
      cases hba : less b a with
      | false =>
        rw [Bool.not_false, if_pos rfl, List.filter_cons, iha has.tail hbs, List.cons_append, List.filter_cons]
      | true =>
        rw [if_neg (by simp), List.filter_cons, ihb hbs.tail]
        -- the elements of the first list are not equivalent to one that goes before all of them
        have hnone (hz : equivalent less z b = true) : (a :: as).filter (equivalent less z) = [] := by
          rw [List.filter_eq_nil_iff]
          intro x hx hzx
          unfold equivalent at hz hzx
          rw [Bool.and_eq_true, Bool.not_eq_true', Bool.not_eq_true'] at hz hzx
          have hax : less x a = false := by
            rcases List.mem_cons.mp hx with rfl | hx
            · exact Bool.eq_false_iff.mpr (irrefl_of (fun a b => less a b = true) x)
            · exact hpairs.1 x hx
          have hab := not_less_trans (not_less_trans hax hzx.1) hz.2
          rw [hba] at hab
          cases hab
        rw [List.filter_append, List.filter_append]
        cases hz : equivalent less z b with
        | false =>
          have hb : (b :: bs).filter (equivalent less z) = bs.filter (equivalent less z) :=
            List.filter_cons_of_neg (by rw [hz]; simp)
          rw [if_neg (by simp), hb]
        | true => rw [if_pos rfl, hnone hz, List.nil_append, List.nil_append, List.filter_cons_of_pos hz]

/-! ## Passes -/

variable {xs out : List α} {n : ℕ}

section MergePass

variable (h : MergePass less xs out n)
include h

omit [IsStrictWeakOrder α fun a b => less a b = true] in
lemma MergePass.perm : out.Perm xs := by
  induction h with
  | nil => exact .nil
  | last _ => exact .refl _
  | merge _ _ _ ih => exact (List.merge_perm_append _).append ih

lemma MergePass.filter_eq (z : α) :
    out.filter (equivalent less z) = xs.filter (equivalent less z) := by
  induction h with
  | nil => rfl
  | last _ => rfl
  | merge has hbs _ ih => rw [List.filter_append, List.filter_append _ _, filter_mergeRuns has.inOrder hbs.inOrder, ih]

omit [IsStrictWeakOrder α fun a b => less a b = true] in
lemma MergePass.eq_zero_iff : n = 0 ↔ xs = [] := by
  cases h with
  | nil => simp
  | last has => simp [has.ne_nil]
  | merge has _ _ => simp [has.ne_nil]

/-- The runs that are put out are in order. -/
lemma MergePass.descents_out : descents less out ≤ n - 1 := by
  induction h with
  | nil => exact Nat.le_refl 0
  | last has => exact Nat.le_of_eq (inOrder_iff_descents.mp has.inOrder)
  | @merge as bs rest out n has hbs hrest ih =>
    have hmerge := inOrder_iff_descents.mp (mergeRuns_inOrder has.inOrder hbs.inOrder)
    by_cases hempty : rest = []
    · have hout : out = [] := List.perm_nil.mp (hempty ▸ hrest.perm)
      rw [hout, List.append_nil, hmerge]
      exact Nat.zero_le _
    · have hpos : n ≠ 0 := fun hn => hempty (hrest.eq_zero_iff.mp hn)
      have hle : descents less (mergeRuns less as bs ++ out) ≤ _ := descents_append_le ..
      omega

end MergePass

omit [IsStrictWeakOrder α fun a b => less a b = true] in
/-- Each run that is put out but the last one takes two descents. -/
lemma MergePass.le_descents (h : MergePass less xs out n) : 2 * n ≤ descents less xs + 2 := by
  induction h with
  | nil => omega
  | last _ => omega
  | @merge as bs rest out n has hbs hrest ih =>
    have hne : bs ++ rest ≠ [] := by
      intro hnil
      exact hbs.ne_nil (List.append_eq_nil_iff.mp hnil).1
    rw [List.append_assoc, has.descents_append hne]
    by_cases hempty : rest = []
    · have hn := hrest.eq_zero_iff.mpr hempty
      omega
    · rw [hbs.descents_append hempty]
      omega

/-- A list that keeps the order of equivalent elements keeps any two of them in their order. -/
lemma sublist_of_filter_eq {ys : List α} (h : ∀ z, ys.filter (equivalent less z) = xs.filter (equivalent less z)) {a b : α}
    (hab : equivalent less a b = true) (hsub : [a, b].Sublist xs) : [a, b].Sublist ys := by
  have haa : equivalent less a a = true := by
    have hirrefl : less a a = false := Bool.eq_false_iff.mpr (irrefl_of (fun a b => less a b = true) a)
    rw [equivalent, hirrefl]
    rfl
  have hpair : [a, b].filter (equivalent less a) = [a, b] := by
    rw [List.filter_cons_of_pos haa, List.filter_cons_of_pos hab, List.filter_nil]
  have hfilter := hsub.filter (equivalent less a)
  rw [hpair, ← h a] at hfilter
  exact hfilter.trans List.filter_sublist

end Order

end OsLabs.Lib
