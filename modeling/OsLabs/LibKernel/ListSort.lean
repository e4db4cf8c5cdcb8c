import OsLabs.Lib.NaturalMerge
import OsLabs.Lib.Yields
import OsLabs.LibKernel.ListOps

/-!
# Sorting a list

`list_sort` of `lib/kernel/list.c` with `is_sorted`, `find_end_of_run` and `inplace_merge`. The comparison reads the objects that
the elements are in and not the pointers in the elements, so here it is a function of the addresses of the elements.

Each function comes down to what it does to the sequence of the elements: `find_end_of_run` cuts off a run, `inplace_merge`
merges two runs, and a pass over the list is a `MergePass`. `list_sort` ends because the number of descents gets smaller with
each pass but the last (`listSort_spec`).
-/

namespace OsLabs.LibKernel

open Lib Function

/-! ## The code -/

/-- `list_prev`; `none` if the assertion fails. -/
def listPrev (mem : Words) (elem : ℕ) : Option ℕ :=
  if isInterior mem elem ∨ isTail mem elem then some (mem elem) else none

section Code

variable (less : ℕ → ℕ → Bool)

/-- The loop of `is_sorted`. -/
def isSortedLoop (mem : Words) (b : ℕ) : ℕ → ℕ → Option Bool
  | 0, _ => none
  | fuel + 1, a => do
    let a ← listNext mem a
    if a = b then return true
    else
      let prev ← listPrev mem a
      if less a prev then return false else isSortedLoop mem b fuel a

/-- `is_sorted`. -/
def isSorted (fuel : ℕ) (mem : Words) (a b : ℕ) : Option Bool :=
  if a ≠ b then isSortedLoop less mem b fuel a else some true

/-- The loop of `find_end_of_run`. -/
def endOfRunLoop (mem : Words) (b : ℕ) : ℕ → ℕ → Option ℕ
  | 0, _ => none
  | fuel + 1, a => do
    let a ← listNext mem a
    if a = b then return a
    else
      let prev ← listPrev mem a
      if less a prev then return a else endOfRunLoop mem b fuel a

/-- `find_end_of_run`. -/
def findEndOfRun (fuel : ℕ) (mem : Words) (a b : ℕ) : Option ℕ :=
  if a ≠ 0 ∧ b ≠ 0 ∧ a ≠ b then endOfRunLoop less mem b fuel a else none

/-- The loop of `inplace_merge`. -/
def mergeLoop (b1 : ℕ) : ℕ → Words → ℕ → ℕ → Option Words
  | 0, _, _, _ => none
  | fuel + 1, mem, a0, a1b0 =>
    if a0 ≠ a1b0 ∧ a1b0 ≠ b1 then
      if !less a1b0 a0 then do
        let a0 ← listNext mem a0
        mergeLoop b1 fuel mem a0 a1b0
      else do
        let a1b0 ← listNext mem a1b0
        let first ← listPrev mem a1b0
        let mem ← listSplice mem a0 first a1b0
        mergeLoop b1 fuel mem a0 a1b0
    else some mem

/-- `inplace_merge`; `none` if an assertion fails. -/
def inplaceMerge (fuel : ℕ) (mem : Words) (a0 a1b0 b1 : ℕ) : Option Words := do
  if a0 = 0 ∨ a1b0 = 0 ∨ b1 = 0 then none
  else
    let sorted ← isSorted less fuel mem a0 a1b0
    let sorted' ← isSorted less fuel mem a1b0 b1
    if sorted && sorted' then mergeLoop less b1 fuel mem a0 a1b0 else none

/-- The loop over the runs in one pass of `list_sort`, with `output_run_cnt`. An address space of 32 bits has less than `2 ^ 32`
elements, so the count does not overflow. -/
def sortPass (list : ℕ) : ℕ → Words → ℕ → ℕ → Option (Words × ℕ)
  | 0, _, _, _ => none
  | fuel + 1, mem, a0, outputRunCnt =>
    if a0 = listEnd list then some (mem, outputRunCnt)
    else do
      let a1b0 ← findEndOfRun less fuel mem a0 (listEnd list)
      if a1b0 = listEnd list then return (mem, outputRunCnt + 1)
      else
        let b1 ← findEndOfRun less fuel mem a1b0 (listEnd list)
        let mem ← inplaceMerge less fuel mem a0 a1b0 b1
        sortPass list fuel mem b1 (outputRunCnt + 1)

/-- The loop of `list_sort`. -/
def sortLoop (list : ℕ) : ℕ → Words → Option Words
  | 0, _ => none
  | fuel + 1, mem => do
    let (mem, outputRunCnt) ← sortPass less list fuel mem (listBegin mem list) 0
    if outputRunCnt > 1 then sortLoop list fuel mem else return mem

/-- `list_sort`; `none` if an assertion fails. -/
def listSort (fuel : ℕ) (mem : Words) (list : ℕ) : Option Words := do
  if list = 0 then none
  else
    let mem ← sortLoop less list fuel mem
    let sorted ← isSorted less fuel mem (listBegin mem list) (listEnd list)
    if sorted then return mem else none

end Code

/-! ## Positions -/

section Positions

variable {mem : Words} {l a b q : ℕ} {as bs seg : List ℕ}

/-- The element after `a`. -/
lemma IsList.next_prev (h : IsList mem l (as ++ a :: bs)) (hq : At l bs q) :
    listNext mem a = some q ∧ listPrev mem q = some a := by
  have hlist : IsList mem l (as ++ [a] ++ bs) := by
    rw [List.append_assoc]
    exact h
  have hlast : (l :: (as ++ [a])).getLast? = some a := by
    rw [← List.cons_append, List.getLast?_concat]
  obtain ⟨-, hprev, -, -, hpos⟩ := hlist.position hlast hq
  refine ⟨h.listNext_eq hq, ?_⟩
  rw [listPrev, if_pos hpos, hprev]

/-- An element is not at a position after it. -/
lemma IsList.ne_at (h : IsList mem l (as ++ seg ++ bs)) (ha : a ∈ seg) (hb : At l bs b) : a ≠ b := by
  have hnodup := nodup_of_apart h.apart
  rw [nodes_append, List.nodup_append] at hnodup
  apply hnodup.2.2
  · exact List.mem_cons_of_mem _ (List.mem_append_right _ ha)
  · exact List.mem_of_head? hb

lemma IsList.at_ne_zero (h : IsList mem l (as ++ bs)) (hb : At l bs b) : b ≠ 0 := by
  obtain ⟨p, hp⟩ := exists_last l as
  exact (h.position hp hb).2.2.2.1

lemma IsList.end_ne_zero {xs : List ℕ} (h : IsList mem l xs) : listEnd l ≠ 0 :=
  h.ne_zero _ (mem_nodes.mpr (Or.inr (Or.inr rfl)))

lemma at_cons : At l (a :: bs) a :=
  rfl

lemma at_nil : At l [] (listEnd l) :=
  rfl

lemma At.unique {q' : ℕ} (h : At l bs q) (h' : At l bs q') : q = q' :=
  Option.some.inj (h.symm.trans h')

end Positions

/-! ## Runs -/

section Runs

variable {less : ℕ → ℕ → Bool} {mem : Words} {l a b : ℕ} {as bs rest seg : List ℕ}

/-- `is_sorted` on elements in order, from the first of them on. -/
lemma isSortedLoop_spec (h : IsList mem l (as ++ a :: seg ++ bs)) (hb : At l bs b) (hseg : InOrder less (a :: seg)) :
    Returns (fun fuel => isSortedLoop less mem b fuel a) true := by
  induction seg generalizing as a with
  | nil =>
    have hlist : IsList mem l (as ++ a :: bs) := by simpa using h
    obtain ⟨hnext, -⟩ := hlist.next_prev hb
    refine (Returns.of_eq fun _ => rfl).succ fun fuel => ?_
    rw [isSortedLoop, hnext]
    exact if_pos rfl
  | cons c seg ih =>
    have hlist : IsList mem l (as ++ [a] ++ c :: seg ++ bs) := by simpa using h
    have hlist' : IsList mem l (as ++ a :: c :: (seg ++ bs)) := by simpa using h
    obtain ⟨hnext, hprev⟩ := hlist'.next_prev at_cons
    obtain ⟨hac, hrest⟩ := List.isChain_cons_cons.mp hseg
    have hcb : c ≠ b := hlist.ne_at (List.mem_cons_self ..) hb
    refine (ih hlist hrest).succ fun fuel => ?_
    rw [isSortedLoop, hnext]
    show (if c = b then _ else _) = _
    rw [if_neg hcb, hprev]
    show (if less c a = true then _ else _) = _
    rw [hac, if_neg (by simp)]

lemma isSorted_spec (h : IsList mem l (as ++ seg ++ bs)) (ha : At l (seg ++ bs) a) (hb : At l bs b)
    (hseg : InOrder less seg) : Returns (fun fuel => isSorted less fuel mem a b) true := by
  cases seg with
  | nil =>
    have heq : a = b := ha.unique hb
    exact .of_eq fun fuel => by rw [isSorted, if_neg (not_not.mpr heq)]
  | cons c seg =>
    obtain rfl : c = a := Option.some.inj ha
    have hcb : c ≠ b := h.ne_at (List.mem_cons_self ..) hb
    exact (isSortedLoop_spec h hb hseg).congr fun fuel => by rw [isSorted, if_pos hcb]

variable (less) in
/-- `find_end_of_run` cuts a run off. -/
lemma endOfRunLoop_spec (h : IsList mem l (as ++ a :: bs)) :
    ∃ run rest q, bs = run ++ rest ∧ IsRun less (a :: run) rest ∧ At l rest q ∧
      Returns (fun fuel => endOfRunLoop less mem (listEnd l) fuel a) q := by
  induction bs generalizing as a with
  | nil =>
    obtain ⟨hnext, -⟩ := h.next_prev at_nil
    refine ⟨[], [], listEnd l, rfl, ⟨by simp, List.isChain_singleton a, by simp⟩, at_nil, ?_⟩
    refine (Returns.of_eq fun _ => rfl).succ fun fuel => ?_
    rw [endOfRunLoop, hnext]
    exact if_pos rfl
  | cons c bs ih =>
    have hlist : IsList mem l (as ++ [a] ++ c :: bs) := by simpa using h
    obtain ⟨hnext, hprev⟩ := h.next_prev at_cons
    have hne := hlist.ne_end
    cases hless : less c a with
    | true =>
      refine ⟨[], c :: bs, c, rfl, ⟨by simp, List.isChain_singleton a, by simpa using hless⟩, at_cons, ?_⟩
      refine (Returns.of_eq fun _ => rfl).succ fun fuel => ?_
      rw [endOfRunLoop, hnext]
      show (if c = listEnd l then _ else _) = _
      rw [if_neg hne, hprev]
      show (if less c a = true then _ else _) = _
      rw [hless]
      rfl
    | false =>
      obtain ⟨run, rest, q, rfl, hrun, hq, hreturns⟩ := ih hlist
      have hends : ∀ x ∈ (a :: c :: run).getLast?, ∀ y ∈ rest.head?, less y x = true := by
        exact hrun.ends
      refine ⟨c :: run, rest, q, rfl, ⟨by simp, List.isChain_cons_cons.mpr ⟨hless, hrun.inOrder⟩, hends⟩, hq, ?_⟩
      refine hreturns.succ fun fuel => ?_
      rw [endOfRunLoop, hnext]
      show (if c = listEnd l then _ else _) = _
      rw [if_neg hne, hprev]
      show (if less c a = true then _ else _) = _
      rw [hless, if_neg (by simp)]

variable (less) in
lemma findEndOfRun_spec (h : IsList mem l (as ++ a :: bs)) :
    ∃ run rest q, bs = run ++ rest ∧ IsRun less (a :: run) rest ∧ At l rest q ∧
      Returns (fun fuel => findEndOfRun less fuel mem a (listEnd l)) q := by
  obtain ⟨run, rest, q, hsplit, hrun, hq, hreturns⟩ := endOfRunLoop_spec less h
  have ha : a ≠ 0 := h.at_ne_zero at_cons
  refine ⟨run, rest, q, hsplit, hrun, hq, hreturns.congr fun fuel => ?_⟩
  rw [findEndOfRun, if_pos ⟨ha, h.end_ne_zero, h.ne_end⟩]

end Runs

/-! ## Merging -/

section Merging

variable {less : ℕ → ℕ → Bool} {mem : Words} {L : Lists} {l q a0 a1b0 b1 : ℕ} {pre as bs post : List ℕ}

lemma Holds.self {xs : List ℕ} (h : Holds mem L) (hl : L l = some xs) : Holds mem (update L l (some xs)) := by
  rw [← hl, update_eq_self]
  exact h

/-- `list_splice` moves one element back to an earlier position of its list. -/
lemma Holds.moveBack {a b : ℕ} (h : Holds mem L) (hl : L l = some (pre ++ a :: as ++ b :: bs)) (hq : At l bs q) :
    ∃ mem', listSplice mem a b q = some mem' ∧ Holds mem' (update L l (some (pre ++ b :: a :: as ++ bs))) := by
  have hl' : L l = some (pre ++ a :: as ++ [b] ++ bs) := by
    rw [hl]
    simp
  have hl'' : update L l (some (pre ++ a :: as ++ bs)) l = some (pre ++ (a :: as ++ bs)) := by
    rw [update_self, List.append_assoc]
  obtain ⟨mem', hsplice, h'⟩ := h.splice hl' rfl hq hl'' at_cons
  refine ⟨mem', hsplice, ?_⟩
  simpa using h'

variable (less) in
/-- The loop of `inplace_merge`: the elements of `as` and `bs` are merged where they are. -/
lemma mergeLoop_spec (h : Holds mem L) (hl : L l = some (pre ++ as ++ bs ++ post)) (ha0 : At l (as ++ bs ++ post) a0)
    (ha1b0 : At l (bs ++ post) a1b0) (hb1 : At l post b1) :
    ∃ mem', Returns (fun fuel => mergeLoop less b1 fuel mem a0 a1b0) mem' ∧
      Holds mem' (update L l (some (pre ++ mergeRuns less as bs ++ post))) := by
  -- the loop stops where one of the two is used up
  have hstop (mem : Words) (a0 a1b0 : ℕ) (hstop : ¬(a0 ≠ a1b0 ∧ a1b0 ≠ b1)) :
      Returns (fun fuel => mergeLoop less b1 fuel mem a0 a1b0) mem := by
    refine (Returns.of_eq fun _ => rfl).succ fun fuel => ?_
    rw [mergeLoop, if_neg hstop]
  unfold mergeRuns
  induction as generalizing mem L pre bs a0 a1b0 with
  | nil =>
    rw [List.append_nil] at hl
    rw [List.nil_merge]
    exact ⟨mem, hstop mem a0 a1b0 fun hne => hne.1 (ha0.unique ha1b0), h.self hl⟩
  | cons a as iha =>
    obtain rfl : a = a0 := Option.some.inj ha0
    induction bs generalizing mem L pre a1b0 with
    | nil =>
      rw [List.append_nil] at hl
      rw [List.merge_right]
      exact ⟨mem, hstop mem a a1b0 fun hne => hne.2 (ha1b0.unique hb1), h.self hl⟩
    | cons b bs ihb =>
      obtain rfl : b = a1b0 := Option.some.inj ha1b0
      have hlist := h.list l _ hl
      have hlist' : IsList mem l (pre ++ a :: as ++ (b :: bs ++ post)) := by simpa using hlist
      have hgo : a ≠ b ∧ b ≠ b1 := ⟨hlist'.ne_at (List.mem_cons_self ..) at_cons, hlist.ne_at (List.mem_cons_self ..) hb1⟩
      rw [List.cons_merge_cons]
      cases hless : less b a with
      | false =>
        obtain ⟨q, hq⟩ := exists_at l (as ++ b :: bs ++ post)
        have hnext : listNext mem a = some q := by
          have hlist : IsList mem l (pre ++ a :: (as ++ b :: bs ++ post)) := by simpa using hlist
          exact (hlist.next_prev hq).1
        have hl' : L l = some (pre ++ [a] ++ as ++ b :: bs ++ post) := by
          rw [hl]
          simp
        obtain ⟨mem', hreturns, h'⟩ := iha h hl' hq at_cons
        refine ⟨mem', hreturns.succ fun fuel => ?_, by simpa using h'⟩
        rw [mergeLoop, if_pos hgo, hless, hnext]
        rfl
      | true =>
        obtain ⟨q, hq⟩ := exists_at l (bs ++ post)
        have hnext : listNext mem b = some q ∧ listPrev mem q = some b := by
          have hlist : IsList mem l (pre ++ a :: as ++ b :: (bs ++ post)) := by simpa using hlist
          exact hlist.next_prev hq
        have hl' : L l = some (pre ++ a :: as ++ b :: (bs ++ post)) := by
          rw [hl]
          simp
        obtain ⟨mem₁, hsplice, h₁⟩ := h.moveBack hl' hq
        have hl₁ : update L l (some (pre ++ b :: a :: as ++ (bs ++ post))) l =
            some (pre ++ [b] ++ a :: as ++ bs ++ post) := by
          simp
        obtain ⟨mem', hreturns, h'⟩ := ihb h₁ hl₁ hq at_cons
        refine ⟨mem', hreturns.succ fun fuel => ?_, by simpa using h'⟩
        rw [mergeLoop, if_pos hgo, hless, hnext.1]
        show (listPrev mem q).bind _ = _
        rw [hnext.2]
        show (listSplice mem a b q).bind _ = _
        rw [hsplice]
        rfl

/-- `inplace_merge` merges two lists in order, which are next to each other. -/
lemma inplaceMerge_spec (h : Holds mem L) (hl : L l = some (pre ++ as ++ bs ++ post)) (ha0 : At l (as ++ bs ++ post) a0)
    (ha1b0 : At l (bs ++ post) a1b0) (hb1 : At l post b1) (has : InOrder less as) (hbs : InOrder less bs) :
    ∃ mem', Returns (fun fuel => inplaceMerge less fuel mem a0 a1b0 b1) mem' ∧
      Holds mem' (update L l (some (pre ++ mergeRuns less as bs ++ post))) := by
  have hlist := h.list l _ hl
  have hfirst : IsList mem l (pre ++ as ++ (bs ++ post)) := by simpa using hlist
  have hwhole : IsList mem l (pre ++ (as ++ bs ++ post)) := by simpa using hlist
  have hzero : ¬(a0 = 0 ∨ a1b0 = 0 ∨ b1 = 0) := by
    rintro (hz | hz | hz)
    · exact hwhole.at_ne_zero ha0 hz
    · exact hfirst.at_ne_zero ha1b0 hz
    · exact hlist.at_ne_zero hb1 hz
  have ha0' : At l (as ++ (bs ++ post)) a0 := by simpa using ha0
  obtain ⟨mem', hreturns, h'⟩ := mergeLoop_spec less h hl ha0 ha1b0 hb1
  refine ⟨mem', ?_, h'⟩
  refine ((isSorted_spec hfirst ha0' ha1b0 has).bind (g := fun fuel sorted => do
      let sorted' ← isSorted less fuel mem a1b0 b1
      if sorted && sorted' then mergeLoop less b1 fuel mem a0 a1b0 else none)
    ((isSorted_spec hlist ha1b0 hb1 hbs).bind (g := fun fuel sorted' =>
      if true && sorted' then mergeLoop less b1 fuel mem a0 a1b0 else none) hreturns)).congr fun fuel => ?_
  rw [inplaceMerge, if_neg hzero]

end Merging

/-! ## Sorting -/

section Sorting

variable {less : ℕ → ℕ → Bool} {mem : Words} {L : Lists} {l a0 : ℕ} {done rest xs : List ℕ}

variable (less) in
/-- One pass over the list, from the element at `a0` on. -/
lemma sortPass_spec (h : Holds mem L) (hl : L l = some (done ++ rest)) (ha0 : At l rest a0) (cnt : ℕ) :
    ∃ mem' out n, MergePass less rest out n ∧ Returns (fun fuel => sortPass less l fuel mem a0 cnt) (mem', cnt + n) ∧
      Holds mem' (update L l (some (done ++ out))) := by
  induction hk : rest.length using Nat.strong_induction_on generalizing mem L done rest a0 cnt with
  | _ k ih =>
  cases rest with
  | nil =>
    have hend : a0 = listEnd l := ha0.unique at_nil
    refine ⟨mem, [], 0, .nil, (Returns.of_eq (f := fun _ => some (mem, cnt)) fun _ => rfl).succ fun fuel => ?_, h.self hl⟩
    rw [sortPass, if_pos hend]
  | cons a rest =>
    obtain rfl : a = a0 := Option.some.inj ha0
    have hlist := h.list l _ hl
    obtain ⟨run, rest, a1b0, rfl, hrun, ha1b0, hfirst⟩ := findEndOfRun_spec less hlist
    have hne := hlist.ne_end
    obtain ⟨n₁, hfirst⟩ := hfirst
    dsimp only at hfirst
    cases rest with
    | nil =>
      -- one run is left
      have hend : a1b0 = listEnd l := ha1b0.unique at_nil
      refine ⟨mem, a :: (run ++ []), 1, ?_, ⟨n₁ + 1, fun fuel hfuel => ?_⟩, h.self hl⟩
      · rw [List.append_nil]
        exact .last hrun
      · obtain ⟨fuel, rfl⟩ : ∃ f, fuel = f + 1 := ⟨fuel - 1, by omega⟩
        show sortPass less l (fuel + 1) mem a cnt = _
        rw [sortPass, if_neg hne, hfirst fuel (by omega)]
        exact if_pos hend
    | cons b rest =>
      obtain rfl : b = a1b0 := Option.some.inj ha1b0
      have hlist' : IsList mem l (done ++ a :: run ++ b :: rest) := by simpa using hlist
      have hne' := hlist'.ne_end
      obtain ⟨run', rest, b1, rfl, hrun', hb1, n₂, hsecond⟩ := findEndOfRun_spec less hlist'
      have hl' : L l = some (done ++ a :: run ++ b :: run' ++ rest) := by
        rw [hl]
        simp
      obtain ⟨mem₁, ⟨n₃, hmerge⟩, h₁⟩ := inplaceMerge_spec h hl' at_cons at_cons hb1 hrun.inOrder hrun'.inOrder
      have hlen : rest.length < k := by
        rw [← hk]
        simp only [List.length_cons, List.length_append]
        omega
      obtain ⟨mem', out, n, hpass, ⟨n₄, hrest⟩, h'⟩ := ih _ hlen h₁ (update_self ..) hb1 (cnt + 1) rfl
      rw [update_idem] at h'
      dsimp only at hsecond hmerge hrest
      refine ⟨mem', mergeRuns less (a :: run) (b :: run') ++ out, n + 1, ?_, ⟨n₁ + n₂ + n₃ + n₄ + 1, fun fuel hfuel => ?_⟩, ?_⟩
      · have hmerged := MergePass.merge hrun hrun' hpass
        simpa using hmerged
      · obtain ⟨fuel, rfl⟩ : ∃ f, fuel = f + 1 := ⟨fuel - 1, by omega⟩
        show sortPass less l (fuel + 1) mem a cnt = _
        rw [sortPass, if_neg hne, hfirst fuel (by omega)]
        show (if b = listEnd l then _ else _) = _
        rw [if_neg hne', hsecond fuel (by omega)]
        show (inplaceMerge less fuel mem a b b1).bind _ = _
        rw [hmerge fuel (by omega)]
        show sortPass less l fuel mem₁ b1 (cnt + 1) = _
        rw [hrest fuel (by omega), Nat.add_assoc, Nat.add_comm 1 n]
      · rw [← List.append_assoc]
        exact h'

section Order

variable [IsStrictWeakOrder ℕ fun a b => less a b = true]

/-- `ys` is a stable sort of `xs`. -/
structure StableSort (less : ℕ → ℕ → Bool) (xs ys : List ℕ) : Prop where
  perm : ys.Perm xs
  inOrder : InOrder less ys
  filter : ∀ z, ys.filter (equivalent less z) = xs.filter (equivalent less z)

variable (less) in
/-- The passes of `list_sort`: as long as there is more than one run, a pass leaves less descents. -/
lemma sortLoop_spec (h : Holds mem L) (hl : L l = some xs) :
    ∃ mem' ys, Returns (fun fuel => sortLoop less l fuel mem) mem' ∧ Holds mem' (update L l (some ys)) ∧
      StableSort less xs ys := by
  induction hk : descents less xs using Nat.strong_induction_on generalizing mem L xs with
  | _ k ih =>
  have hlist := h.list l _ hl
  obtain ⟨q, hq⟩ := exists_at l xs
  have hbegin := hlist.begin_eq hq
  obtain ⟨mem₁, out, n, hpass, ⟨n₁, hfirst⟩, h₁⟩ := sortPass_spec less h (show L l = some ([] ++ xs) from hl) hq 0
  dsimp only at hfirst
  rw [Nat.zero_add] at hfirst
  rw [List.nil_append] at h₁
  by_cases hn : n > 1
  · have hout := hpass.descents_out
    have hin := hpass.le_descents
    obtain ⟨mem', ys, ⟨n₂, hrest⟩, h', hsort⟩ := ih _ (by omega) h₁ (update_self ..) rfl
    rw [update_idem] at h'
    dsimp only at hrest
    refine ⟨mem', ys, ⟨n₁ + n₂ + 1, fun fuel hfuel => ?_⟩, h', ?_⟩
    · obtain ⟨fuel, rfl⟩ : ∃ f, fuel = f + 1 := ⟨fuel - 1, by omega⟩
      show sortLoop less l (fuel + 1) mem = _
      rw [sortLoop, hbegin, hfirst fuel (by omega)]
      show (if n > 1 then _ else _) = _
      rw [if_pos hn, hrest fuel (by omega)]
    · exact ⟨hsort.perm.trans hpass.perm, hsort.inOrder, fun z => (hsort.filter z).trans (hpass.filter_eq z)⟩
  · have hout := hpass.descents_out
    refine ⟨mem₁, out, ⟨n₁ + 1, fun fuel hfuel => ?_⟩, h₁, hpass.perm, ?_, hpass.filter_eq⟩
    · obtain ⟨fuel, rfl⟩ : ∃ f, fuel = f + 1 := ⟨fuel - 1, by omega⟩
      show sortLoop less l (fuel + 1) mem = _
      rw [sortLoop, hbegin, hfirst fuel (by omega)]
      exact if_neg hn
    · apply inOrder_iff_descents.mpr
      omega

variable (less) in
/-- `list_sort` returns, and the list is sorted. -/
lemma listSort_spec (h : Holds mem L) (hl : L l = some xs) :
    ∃ mem' ys, Returns (fun fuel => listSort less fuel mem l) mem' ∧ Holds mem' (update L l (some ys)) ∧
      StableSort less xs ys := by
  obtain ⟨mem', ys, hloop, h', hsort⟩ := sortLoop_spec less h hl
  have hlist := h'.list l ys (update_self ..)
  obtain ⟨q, hq⟩ := exists_at l ys
  have hbegin := hlist.begin_eq hq
  have hzero : l ≠ 0 := hlist.ne_zero l (mem_nodes.mpr (Or.inl rfl))
  have hwhole : IsList mem' l ([] ++ ys ++ []) := by simpa using hlist
  have hq' : At l (ys ++ []) q := by simpa using hq
  have hsorted := isSorted_spec hwhole hq' at_nil hsort.inOrder
  refine ⟨mem', ys, ?_, h', hsort⟩
  have hcheck : Returns (fun fuel => do
      let sorted ← isSorted less fuel mem' (listBegin mem' l) (listEnd l)
      if sorted then some mem' else none) mem' := by
    rw [hbegin]
    exact hsorted.bind (.of_eq fun _ => rfl)
  refine (hloop.bind (g := fun fuel mem => do
      let sorted ← isSorted less fuel mem (listBegin mem l) (listEnd l)
      if sorted then some mem else none) hcheck).congr fun fuel => ?_
  rw [listSort, if_neg hzero]
  rfl

variable (less) in
/-- `list_sort` on any list, in memory that may hold other lists too: it returns, so all the assertions hold; what is left is a
list of the same elements in order, with equivalent elements in the order they had, and the other lists are as they were. -/
theorem list_sort_stable (h : Holds mem L) (hl : L l = some xs) :
    ∃ mem' ys, Returns (fun fuel => listSort less fuel mem l) mem' ∧ Holds mem' (Function.update L l (some ys)) ∧ ys.Perm xs ∧
      ys.Pairwise (fun a b => less b a = false) ∧
      ∀ a b, [a, b].Sublist xs → less a b = false → less b a = false → [a, b].Sublist ys := by
  obtain ⟨mem', ys, hreturns, h', hsort⟩ := listSort_spec less h hl
  refine ⟨mem', ys, hreturns, h', hsort.perm, hsort.inOrder.pairwise, fun a b hsub hab hba => ?_⟩
  refine sublist_of_filter_eq hsort.filter ?_ hsub
  rw [equivalent, hab, hba]
  rfl

end Order

/-- A new list with two elements, sorted by their addresses. -/
theorem list_sort_stable_two :
    ∃ mem mem' n ys, (∀ fuel, n ≤ fuel → listRun fuel (listInit (fun _ => 0) 100) [.pushBack 100 400, .pushBack 100 300] =
        some (mem, [none, none])) ∧
      Returns (fun fuel => listSort (fun a b => decide (a < b)) fuel mem 100) mem' ∧ ys.Perm [400, 300] ∧
      IsList mem' 100 ys := by
  have hinit := (holds_none fun _ => 0).init_fresh (fresh_none (show 100 ≠ 0 by decide)) (fresh_none (by decide))
  have hsteps := Steps.cons (@Step.pushBack (update (fun _ => none) 100 (some [])) 100 [] 400 rfl
    ((fresh_none (by decide)).update (by decide))) <|
    Steps.cons (@Step.pushBack _ 100 [400] 300 rfl (((fresh_none (by decide)).update (by decide)).update (by decide))) .nil
  obtain ⟨mem, n, hrun, h⟩ := hinit.run hsteps
  have : IsStrictWeakOrder ℕ fun a b => decide (a < b) = true := by
    simp only [decide_eq_true_eq]
    exact { irrefl := Nat.lt_irrefl, trans := fun _ _ _ => Nat.lt_trans, incomp_trans := fun a b c hab hbc => by omega }
  obtain ⟨mem', ys, hreturns, h', hperm, -⟩ := list_sort_stable (fun a b => decide (a < b)) h (update_self ..)
  exact ⟨mem, mem', n, ys, hrun, hreturns, hperm, h'.list 100 ys (update_self ..)⟩

end Sorting

end OsLabs.LibKernel
