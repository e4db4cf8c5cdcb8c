import OsLabs.LibKernel.List

/-!
# Many lists

The rest of `lib/kernel/list.c` that moves elements: `list_pop_back`, `list_splice` and `list_reverse`. Memory holds any number
of lists with different elements (`Holds`). `Step` says what an operation does to the sequences, with its documented
preconditions, and `lists_refine` that the code does it.

All operations come down to `p->next = q; q->prev = p` for some `p` and `q` (`link`): a range is cut out by one such pair
of writes (`Holds.cut`) and put in by two of them (`Holds.paste`).
-/

namespace OsLabs.LibKernel

open Lib Function

/-! ## The code -/

def isHead (mem : Words) (elem : ℕ) : Prop :=
  elem ≠ 0 ∧ mem elem = 0 ∧ mem (elem + 4) ≠ 0

instance (mem : Words) (elem : ℕ) : Decidable (isHead mem elem) := inferInstanceAs (Decidable (_ ∧ _))

/-- `list_next`; `none` if the assertion fails. -/
def listNext (mem : Words) (elem : ℕ) : Option ℕ :=
  if isHead mem elem ∨ isInterior mem elem then some (mem (elem + 4)) else none

/-- `list_pop_back`: the memory after it, and the element. -/
def listPopBack (mem : Words) (list : ℕ) : Option (Words × ℕ) :=
  if listEmpty mem list then none
  else (listRemove mem (mem (list + 8))).map fun mem' => (mem', mem (list + 8))

/-- `list_splice`; `none` if an assertion fails. -/
def listSplice (mem : Words) (before first last : ℕ) : Option Words :=
  if isInterior mem before ∨ isTail mem before then
    if first = last then some mem
    else if isInterior mem last ∨ isTail mem last then
      let last := mem last
      if isInterior mem first ∧ isInterior mem last then
        let mem := update mem (mem first + 4) (mem (last + 4))
        let mem := update mem (mem (last + 4)) (mem first)
        let mem := update mem first (mem before)
        let mem := update mem (last + 4) before
        let mem := update mem (mem before + 4) first
        some (update mem before last)
      else none
    else none
  else none

/-- `swap`. -/
def swap (mem : Words) (a b : ℕ) : Words :=
  update (update mem a (mem b)) b (mem a)

/-- The loop of `list_reverse`, for less than `fuel` elements. -/
def reverseLoop (stop : ℕ) : ℕ → Words → ℕ → Option Words
  | 0, _, _ => none
  | fuel + 1, mem, e =>
    if e = stop then some mem
    else
      let mem := swap mem e (e + 4)
      reverseLoop stop fuel mem (mem e)

/-- `list_reverse`. -/
def listReverse (fuel : ℕ) (mem : Words) (list : ℕ) : Option Words :=
  if listEmpty mem list then some mem
  else do
    let mem ← reverseLoop (listEnd list) fuel mem (listBegin mem list)
    let mem := swap mem (list + 4) (list + 8)
    return swap mem (mem (list + 4)) (mem (list + 8) + 4)

inductive ListOp where
  | insert (before elem : ℕ)
  | pushFront (list elem : ℕ)
  | pushBack (list elem : ℕ)
  | remove (elem : ℕ)
  | popFront (list : ℕ)
  | popBack (list : ℕ)
  | splice (before first last : ℕ)
  | reverse (list : ℕ)

/-- One operation: the memory after it, and what it returns. -/
def listExec (fuel : ℕ) (mem : Words) : ListOp → Option (Words × Option ℕ)
  | .insert before elem => (listInsert mem before elem).map (·, none)
  | .pushFront list elem => (listPushFront mem list elem).map (·, none)
  | .pushBack list elem => (listPushBack mem list elem).map (·, none)
  | .remove elem => (listRemove mem elem).map fun mem => (mem, some (mem (elem + 4)))
  | .popFront list => (listPopFront mem list).map fun r => (r.1, some r.2)
  | .popBack list => (listPopBack mem list).map fun r => (r.1, some r.2)
  | .splice before first last => (listSplice mem before first last).map (·, none)
  | .reverse list => (listReverse fuel mem list).map (·, none)

/-- Operations one after the other, with what they return. -/
def listRun (fuel : ℕ) (mem : Words) : List ListOp → Option (Words × List (Option ℕ))
  | [] => some (mem, [])
  | op :: ops => do
    let (mem, r) ← listExec fuel mem op
    let (mem, rs) ← listRun fuel mem ops
    return (mem, r :: rs)

/-! ## The lists in memory -/

/-- The sequences, by the addresses of the lists. -/
abbrev Lists := ℕ → Option (List ℕ)

/-- Memory holds the lists, and they have different elements. -/
structure Holds (mem : Words) (L : Lists) : Prop where
  list : ∀ l xs, L l = some xs → IsList mem l xs
  apart : ∀ l xs l' xs', L l = some xs → L l' = some xs' → l ≠ l' →
    ∀ x ∈ nodes l xs, ∀ y ∈ nodes l' xs', Apart x y

/-- A range of elements that is linked and in no list. -/
structure Detached (mem : Words) (L : Lists) (seg : List ℕ) : Prop where
  apart : seg.Pairwise Apart
  linked : (links mem).Linked seg
  ne_zero : ∀ x ∈ seg, x ≠ 0
  away : ∀ l xs, L l = some xs → ∀ x ∈ seg, ∀ y ∈ nodes l xs, Apart x y

section Holds

variable {mem mem' : Words} {L : Lists} {l p q : ℕ} {xs ys as bs seg : List ℕ}

/-- The head and the elements can be followed to the next one. -/
lemma IsList.listNext_of_last (h : IsList mem l (as ++ bs)) (hp : (l :: as).getLast? = some p) (hq : At l bs q) :
    listNext mem p = some q := by
  obtain ⟨hnext, -, hpzero, hqzero, -⟩ := h.position hp hq
  have htest : isHead mem p ∨ isInterior mem p := by
    rcases List.mem_cons.mp (List.mem_of_getLast? hp) with rfl | hmem
    · exact Or.inl ⟨hpzero, h.headPrev, by rwa [hnext]⟩
    · exact Or.inr (h.interior (List.mem_append_left _ hmem))
  rw [listNext, if_pos htest, hnext]

variable {x : ℕ}

lemma IsList.listNext_eq (h : IsList mem l (as ++ x :: bs)) (hq : At l bs q) : listNext mem x = some q := by
  have hlist : IsList mem l (as ++ [x] ++ bs) := by simpa using h
  exact hlist.listNext_of_last (by rw [← List.cons_append, List.getLast?_concat]) hq

section Holds

variable (h : Holds mem L)
include h

/-- One list changes, and only the elements `ps` are written to, which are in none of the others. -/
lemma Holds.change (ps : List ℕ)
    (haway : ∀ l' xs', L l' = some xs' → l' ≠ l → ∀ x ∈ ps, ∀ y ∈ nodes l' xs', Apart x y) (hsub : nodes l ys ⊆ ps)
    (hnew : IsList mem' l ys) (hframe : ∀ y, Outside ps y → mem' y = mem y) : Holds mem' (update L l (some ys)) := by
  constructor
  · intro l' xs' hl'
    by_cases hne : l' = l
    · subst hne
      rw [update_self] at hl'
      rw [← Option.some.inj hl']
      exact hnew
    · rw [update_of_ne hne] at hl'
      refine (h.list l' xs' hl').congr fun y hy => hframe y fun x hx => ?_
      by_contra hcon
      refine hy fun z hz => ?_
      have := haway l' xs' hl' hne x hx z hz
      unfold Apart at this
      omega
  · intro l₁ xs₁ l₂ xs₂ h₁ h₂ hne x hx y hy
    by_cases hl₁ : l₁ = l
    · subst hl₁
      rw [update_self] at h₁
      rw [update_of_ne (Ne.symm hne)] at h₂
      obtain rfl := Option.some.inj h₁
      exact haway l₂ xs₂ h₂ (Ne.symm hne) x (hsub hx) y hy
    · rw [update_of_ne hl₁] at h₁
      by_cases hl₂ : l₂ = l
      · subst hl₂
        rw [update_self] at h₂
        obtain rfl := Option.some.inj h₂
        exact Or.symm (haway l₁ xs₁ h₁ hl₁ y (hsub hy) x hx)
      · rw [update_of_ne hl₂] at h₂
        exact h.apart l₁ xs₁ l₂ xs₂ h₁ h₂ hne x hx y hy

/-- The nodes of one list are in none of the others. -/
lemma Holds.away (hl : L l = some xs) (l' : ℕ) (xs' : List ℕ) (hl' : L l' = some xs') (hne : l' ≠ l) :
    ∀ x ∈ nodes l xs, ∀ y ∈ nodes l' xs', Apart x y :=
  h.apart l xs l' xs' hl hl' (Ne.symm hne)

/-- The nodes in memory do not overlap. -/
lemma Holds.apart_of_ne {l' x y : ℕ} (hl : L l = some xs) (hl' : L l' = some ys) (hx : x ∈ nodes l xs)
    (hy : y ∈ nodes l' ys) (hne : x ≠ y) : Apart x y := by
  by_cases hll : l = l'
  · subst hll
    obtain rfl : xs = ys := Option.some.inj (hl.symm.trans hl')
    exact (h.list l xs hl).apart.forall hx hy hne
  · exact h.apart l xs l' ys hl hl' hll x hx y hy

/-- Some of the lists. -/
lemma Holds.mono {L' : Lists} (hsub : ∀ l xs, L' l = some xs → L l = some xs) : Holds mem L' where
  list l xs hl := h.list l xs (hsub l xs hl)
  apart l xs l' xs' hl hl' := h.apart l xs l' xs' (hsub l xs hl) (hsub l' xs' hl')

/-- A range is cut out of a list. -/
lemma Holds.cut (hl : L l = some (as ++ seg ++ bs)) (hp : (l :: as).getLast? = some p)
    (hq : At l bs q) :
    Holds (link mem p q) (update L l (some (as ++ bs))) ∧
      Detached (link mem p q) (update L l (some (as ++ bs))) seg := by
  have hlist := h.list l _ hl
  obtain ⟨hnew, hseg, hapart, hframe⟩ := hlist.cut hp hq
  obtain ⟨-, hapartSeg, haway⟩ := List.pairwise_append.mp hapart
  have hsub : nodes l (as ++ bs) ⊆ nodes l (as ++ seg ++ bs) := nodes_subset fun x hx => by
    rcases List.mem_append.mp hx with hx | hx <;> simp [hx]
  have hsegsub : seg ⊆ nodes l (as ++ seg ++ bs) := fun x hx => mem_nodes.mpr (Or.inr (Or.inl (by simp [hx])))
  refine ⟨h.change _ (h.away hl) hsub hnew hframe, hapartSeg, hseg, fun x hx => hlist.ne_zero x (hsegsub hx),
    fun l' xs' hl' x hx y hy => ?_⟩
  by_cases hne : l' = l
  · subst hne
    rw [update_self] at hl'
    obtain rfl := Option.some.inj hl'
    exact Or.symm (haway y hy x hx)
  · rw [update_of_ne hne] at hl'
    exact h.apart l _ l' xs' hl hl' (Ne.symm hne) x (hsegsub hx) y hy

/-- A range that is in no list is put into one. -/
lemma Holds.paste (hd : Detached mem L seg) (hl : L l = some (as ++ bs))
    (hp : (l :: as).getLast? = some p) (hq : At l bs q) {first last : ℕ} (hfirst : seg.head? = some first)
    (hlast : seg.getLast? = some last) :
    Holds (link (link mem p first) last q) (update L l (some (as ++ seg ++ bs))) := by
  have hlist := h.list l _ hl
  have hapart : (nodes l (as ++ bs) ++ seg).Pairwise Apart :=
    List.pairwise_append.mpr ⟨hlist.apart, hd.apart, fun x hx y hy => Or.symm (hd.away l _ hl y hy x hx)⟩
  obtain ⟨hnew, hframe⟩ := hlist.paste hapart hd.linked hd.ne_zero hp hq hfirst hlast
  refine h.change (nodes l (as ++ bs) ++ seg) (fun l' xs' hl' hne x hx => ?_) (fun x hx => ?_) hnew hframe
  · rcases List.mem_append.mp hx with hx | hx
    · exact h.away hl l' xs' hl' hne x hx
    · exact hd.away l' xs' hl' x hx
  · rw [mem_nodes] at hx
    rw [List.mem_append, mem_nodes]
    simp only [List.mem_append] at hx ⊢
    tauto

end Holds

end Holds

/-! ## Reversing -/

section Reverse

variable {mem mem' : Words} {L : Lists} {l : ℕ} {xs : List ℕ}

section Swap

variable {a b y : ℕ}

lemma swap_left (hne : a ≠ b) : swap mem a b a = mem b := by
  rw [swap, update_of_ne hne, update_self]

lemma swap_right : swap mem a b b = mem a :=
  update_self ..

lemma swap_of_ne (ha : y ≠ a) (hb : y ≠ b) : swap mem a b y = mem y := by
  rw [swap, update_of_ne hb, update_of_ne ha]

end Swap

/-- The loop exchanges the pointers of each element. -/
lemma reverseLoop_spec {stop e : ℕ} (hapart : (xs ++ [stop]).Pairwise Apart)
    (hlinked : (links mem).Linked (xs ++ [stop])) (hstart : (xs ++ [stop]).head? = some e) :
    ∃ mem', (∀ fuel, xs.length < fuel → reverseLoop stop fuel mem e = some mem') ∧
      (∀ x ∈ xs, mem' x = mem (x + 4) ∧ mem' (x + 4) = mem x) ∧ ∀ y, Outside xs y → mem' y = mem y := by
  induction xs generalizing e mem with
  | nil =>
    obtain rfl : stop = e := Option.some.inj hstart
    refine ⟨mem, fun fuel hfuel => ?_, nofun, fun _ _ => rfl⟩
    obtain ⟨fuel, rfl⟩ : ∃ n, fuel = n + 1 := ⟨fuel - 1, by omega⟩
    rw [reverseLoop, if_pos rfl]
  | cons x xs ih =>
    obtain rfl : x = e := Option.some.inj hstart
    obtain ⟨hx, hrest⟩ := List.pairwise_cons.mp (show (x :: (xs ++ [stop])).Pairwise Apart from hapart)
    have hxwords (y : ℕ) (hy : y ∈ xs ++ [stop]) : y ≠ x ∧ y ≠ x + 4 ∧ y + 4 ≠ x ∧ y + 4 ≠ x + 4 := by
      have := hx y hy
      unfold Apart at this
      omega
    have hstop : x ≠ stop := Ne.symm (hxwords stop (by simp)).1
    -- the loop goes on with what was the next element
    obtain ⟨e', he'⟩ : ∃ e', (xs ++ [stop]).head? = some e' := by
      cases xs with
      | nil => exact ⟨stop, rfl⟩
      | cons x' xs => exact ⟨x', rfl⟩
    obtain ⟨-, hlinked, hbetween⟩ := Links.linked_append.mp (show (links mem).Linked ([x] ++ (xs ++ [stop])) from hlinked)
    have hnext : mem (x + 4) = e' := (hbetween x rfl e' he').1
    have hlinked' : (links (swap mem x (x + 4))).Linked (xs ++ [stop]) := by
      refine linked_congr hlinked fun y hy => ?_
      have := hxwords y hy
      exact ⟨swap_of_ne this.1 this.2.1, swap_of_ne this.2.2.1 this.2.2.2⟩
    obtain ⟨mem', hrun, hswapped, hframe⟩ := ih hrest hlinked' he'
    have hout (y : ℕ) (hy : y = x ∨ y = x + 4) : Outside xs y := fun z hz => by
      have := hxwords z (List.mem_append_left _ hz)
      omega
    refine ⟨mem', fun fuel hfuel => ?_, fun z hz => ?_, fun y hy => ?_⟩
    · rw [List.length_cons] at hfuel
      obtain ⟨fuel, rfl⟩ : ∃ n, fuel = n + 1 := ⟨fuel - 1, by omega⟩
      rw [reverseLoop, if_neg hstop]
      dsimp only
      rw [swap_left (by omega), hnext]
      exact hrun fuel (by omega)
    · rcases List.mem_cons.mp hz with rfl | hz
      · rw [hframe z (hout z (Or.inl rfl)), hframe (z + 4) (hout _ (Or.inr rfl)), swap_left (by omega), swap_right]
        exact ⟨rfl, rfl⟩
      · have := hxwords z (List.mem_append_left _ hz)
        rw [(hswapped z hz).1, (hswapped z hz).2, swap_of_ne this.2.2.1 this.2.2.2, swap_of_ne this.1 this.2.1]
        exact ⟨rfl, rfl⟩
    · have := hy x (List.mem_cons_self ..)
      rw [hframe y fun z hz => hy z (List.mem_cons_of_mem x hz), swap_of_ne this.1 this.2]

/-- The pointers between the elements and the sentinels come last. -/
lemma swap_swap_eq_link {x z : ℕ} (hx : ∀ s ∈ [l, l + 8], Apart x s) (hz : ∀ s ∈ [l, l + 8], Apart z s)
    (hnext : mem (l + 4) = x) (hprev : mem (l + 8) = z) (hfirst : mem (x + 4) = l) (hlast : mem z = l + 8) :
    swap (swap mem (l + 4) (l + 8)) (swap mem (l + 4) (l + 8) (l + 4)) (swap mem (l + 4) (l + 8) (l + 8) + 4) =
      link (link mem l z) x (l + 8) := by
  have hxl := hx l (by simp)
  have hzl8 := hz (l + 8) (by simp)
  unfold Apart at *
  rw [swap_left (by omega), swap_right, hnext, hprev]
  funext y
  have hread : swap mem (l + 4) (l + 8) z = l + 8 ∧ swap mem (l + 4) (l + 8) (x + 4) = l := by
    rw [swap_of_ne (by omega) (by omega), swap_of_ne (by omega) (by omega)]
    exact ⟨hlast, hfirst⟩
  rw [swap, hread.1, hread.2]
  simp only [swap, link, update_apply]
  split_ifs <;> omega

/-- A list that is reversed. -/
lemma IsList.reverse (h : IsList mem l xs) :
    ∃ mem', (∀ fuel, xs.length < fuel → listReverse fuel mem l = some mem') ∧ IsList mem' l xs.reverse ∧
      ∀ y, Outside (nodes l xs) y → mem' y = mem y := by
  by_cases hnil : xs = []
  · subst hnil
    refine ⟨mem, fun fuel _ => ?_, h, fun _ _ => rfl⟩
    rw [listReverse, if_pos (h.empty_iff.mpr rfl)]
  · obtain ⟨x, hx⟩ : ∃ x, xs.head? = some x := by
      cases xs with
      | nil => exact absurd rfl hnil
      | cons x xs => exact ⟨x, rfl⟩
    obtain ⟨z, hz⟩ : ∃ z, xs.getLast? = some z := ⟨_, List.getLast?_eq_some_getLast hnil⟩
    have hxmem : x ∈ xs := List.mem_of_head? hx
    have hzmem : z ∈ xs := List.mem_of_getLast? hz
    have hsplit : nodes l xs = [l] ++ (xs ++ [l + 8]) := rfl
    have hapart := h.apart
    have hlinked := h.linked
    rw [hsplit] at hapart hlinked
    obtain ⟨-, hapart', haway⟩ := List.pairwise_append.mp hapart
    obtain ⟨-, -, haway'⟩ := List.pairwise_append.mp hapart'
    obtain ⟨-, hlinked', hhead⟩ := Links.linked_append.mp hlinked
    obtain ⟨hinner, -, htail⟩ := Links.linked_append.mp hlinked'
    have hstart : (xs ++ [l + 8]).head? = some x := by
      rw [List.head?_append, hx]
      rfl
    obtain ⟨hnext, hfirst⟩ : mem (l + 4) = x ∧ mem x = l := hhead l rfl x hstart
    obtain ⟨hlast, hprev⟩ : mem (z + 4) = l + 8 ∧ mem (l + 8) = z := htail z hz (l + 8) rfl
    have hsentinels (y : ℕ) (hy : y ∈ xs) : ∀ s ∈ [l, l + 8], Apart y s := by
      intro s hs
      rcases List.mem_cons.mp hs with rfl | hs
      · exact Or.symm (haway s (by simp) y (List.mem_append_left _ hy))
      · rw [List.mem_singleton.mp hs]
        exact haway' y hy (l + 8) (by simp)
    obtain ⟨mem₁, hrun, hswapped, hframe⟩ := reverseLoop_spec hapart' hlinked' hstart
    have hout (s : ℕ) (hs : s ∈ [l, l + 8]) : mem₁ s = mem s ∧ mem₁ (s + 4) = mem (s + 4) := by
      constructor
      all_goals
        refine hframe _ fun y hy => ?_
        have := hsentinels y hy s hs
        unfold Apart at this
        omega
    -- the reversed elements are put between the sentinels
    have hperm : (nodes l ([] ++ []) ++ xs.reverse).Perm (nodes l xs) := by
      have hrange := nodes_perm l [] xs.reverse []
      rw [List.append_nil] at hrange
      exact hrange.symm.trans (((List.reverse_perm xs).append_right _).cons l)
    have hsub : ∀ y ∈ nodes l ([] ++ []) ++ xs.reverse, y ∈ nodes l xs := fun y hy => hperm.mem_iff.mp hy
    obtain ⟨hnew, hkept⟩ := isList_join ((hperm.pairwise_iff fun hxy => Std.Symm.symm _ _ hxy).mpr h.apart)
      (List.isChain_singleton l) (List.isChain_singleton (l + 8))
      (hinner.reverse fun y hy => ⟨(hswapped y hy).2, (hswapped y hy).1⟩) ((hout l (by simp)).1.trans h.headPrev)
      ((hout (l + 8) (by simp)).2.trans h.tailNext) (fun y hy => h.ne_zero y (hsub y hy))
      (show [l].getLast? = some l from rfl) (show At l [] (l + 8) from rfl) (by rw [List.head?_reverse, hz]) (by rw [List.getLast?_reverse, hx])
    rw [List.append_nil] at hnew
    refine ⟨link (link mem₁ l z) x (l + 8), fun fuel hfuel => ?_, hnew, fun y hy => ?_⟩
    · rw [listReverse, if_neg (fun hempty => hnil (h.empty_iff.mp hempty)), listBegin, listEnd, hnext, hrun fuel hfuel]
      show some _ = some _
      rw [swap_swap_eq_link (hsentinels x hxmem) (hsentinels z hzmem)]
      · rw [(hout l (by simp)).2, hnext]
      · rw [(hout (l + 8) (by simp)).1, hprev]
      · rw [(hswapped x hxmem).2, hfirst]
      · rw [(hswapped z hzmem).1, hlast]
    · rw [hkept y (hy.subset hsub)]
      exact hframe y fun v hv => hy v (mem_nodes.mpr (Or.inr (Or.inl hv)))

end Reverse

/-! ## What the operations do to the sequences -/

/-- An element that is in no list. -/
def Fresh (L : Lists) (x : ℕ) : Prop :=
  x ≠ 0 ∧ ∀ l xs, L l = some xs → ∀ y ∈ nodes l xs, Apart x y

/-- What an operation does, and what it returns, if it is called as documented. -/
inductive Step (L : Lists) : ListOp → Lists → Option ℕ → Prop where
  | insert {l : ℕ} {as bs : List ℕ} {before elem : ℕ} (hl : L l = some (as ++ bs)) (hbefore : At l bs before)
    (hfresh : Fresh L elem) : Step L (.insert before elem) (update L l (some (as ++ [elem] ++ bs))) none
  | pushFront {l : ℕ} {xs : List ℕ} {elem : ℕ} (hl : L l = some xs) (hfresh : Fresh L elem) :
    Step L (.pushFront l elem) (update L l (some (elem :: xs))) none
  | pushBack {l : ℕ} {xs : List ℕ} {elem : ℕ} (hl : L l = some xs) (hfresh : Fresh L elem) :
    Step L (.pushBack l elem) (update L l (some (xs ++ [elem]))) none
  | remove {l : ℕ} {as bs : List ℕ} {elem next : ℕ} (hl : L l = some (as ++ [elem] ++ bs)) (hnext : At l bs next) :
    Step L (.remove elem) (update L l (some (as ++ bs))) (some next)
  | popFront {l : ℕ} {xs : List ℕ} {x : ℕ} (hl : L l = some (x :: xs)) :
    Step L (.popFront l) (update L l (some xs)) (some x)
  | popBack {l : ℕ} {xs : List ℕ} {x : ℕ} (hl : L l = some (xs ++ [x])) :
    Step L (.popBack l) (update L l (some xs)) (some x)
  /-- Nothing is moved. -/
  | spliceEmpty {l : ℕ} {as bs : List ℕ} {before first : ℕ} (hl : L l = some (as ++ bs)) (hbefore : At l bs before) :
    Step L (.splice before first first) L none
  /-- The range is taken out first, so `before` is not in it; it can be the element after it. -/
  | splice {l l' : ℕ} {as seg bs cs ds : List ℕ} {before first last : ℕ} (hl : L l = some (as ++ seg ++ bs))
    (hfirst : seg.head? = some first) (hlast : At l bs last)
    (hl' : update L l (some (as ++ bs)) l' = some (cs ++ ds)) (hbefore : At l' ds before) :
    Step L (.splice before first last)
      (update (update L l (some (as ++ bs))) l' (some (cs ++ seg ++ ds))) none
  | reverse {l : ℕ} {xs : List ℕ} (hl : L l = some xs) :
    Step L (.reverse l) (update L l (some xs.reverse)) none

/-- Operations one after the other. -/
inductive Steps : Lists → List ListOp → Lists → List (Option ℕ) → Prop where
  | nil {L : Lists} : Steps L [] L []
  | cons {L L₁ L₂ : Lists} {op : ListOp} {ops : List ListOp} {r : Option ℕ} {rs : List (Option ℕ)} (hstep : Step L op L₁ r)
    (hsteps : Steps L₁ ops L₂ rs) : Steps L (op :: ops) L₂ (r :: rs)

section Code

variable {mem mem' : Words} {L L' : Lists} {l : ℕ} {xs as bs : List ℕ}

lemma Fresh.detached (h : Fresh L x) (mem : Words) : Detached mem L [x] where
  apart := List.pairwise_singleton ..
  linked := List.isChain_singleton x
  ne_zero y hy := by
    rw [List.mem_singleton.mp hy]
    exact h.1
  away l xs hl y hy := by
    rw [List.mem_singleton.mp hy]
    exact h.2 l xs hl

section Holds

variable (h : Holds mem L)
include h

/-- An element is put in before another one, or at the end. -/
lemma Holds.insert (hl : L l = some (as ++ bs)) {q x : ℕ} (hq : At l bs q) (hfresh : Fresh L x) :
    ∃ mem', listInsert mem q x = some mem' ∧ Holds mem' (update L l (some (as ++ [x] ++ bs))) := by
  obtain ⟨p, hp⟩ := exists_last l as
  have hlist := h.list l _ hl
  obtain ⟨-, hprev, -, -, hbefore⟩ := hlist.position hp hq
  obtain ⟨hpmem, hqmem, -, -⟩ := hlist.ends hp hq
  refine ⟨_, listInsert_eq hfresh.1 hprev hbefore (hfresh.2 l _ hl p hpmem) (hfresh.2 l _ hl q hqmem), ?_⟩
  exact h.paste (hfresh.detached mem) hl hp hq rfl rfl

/-- An element is taken out. -/
lemma Holds.remove {x q : ℕ} (hl : L l = some (as ++ [x] ++ bs)) (hq : At l bs q) :
    ∃ mem', listRemove mem x = some mem' ∧ mem' (x + 4) = q ∧ Holds mem' (update L l (some (as ++ bs))) ∧
      Fresh (update L l (some (as ++ bs))) x := by
  have hlist := h.list l _ hl
  obtain ⟨p, hp, hnext, hrun⟩ := hlist.remove hq
  obtain ⟨hcut, hdetached⟩ := h.cut hl hp hq
  -- the element is not written to
  have haway (y : ℕ) (hy : y ∈ nodes l (as ++ bs)) : Apart x y :=
    hdetached.away l _ (update_self ..) x (List.mem_singleton_self x) y hy
  have hxp : Apart x p := haway p (last_mem bs hp)
  have hxq : Apart x q := haway q (hq.mem_nodes as)
  refine ⟨_, hrun, ?_, hcut, (hlist.interior (by simp)).1, fun l' xs' hl' => ?_⟩
  · unfold Apart at hxp hxq
    rw [link_of_ne (by omega) (by omega), hnext]
  · exact hdetached.away l' xs' hl' x (List.mem_singleton_self x)

lemma Holds.pushFront (hl : L l = some xs) (hfresh : Fresh L x) :
    ∃ mem', listPushFront mem l x = some mem' ∧ Holds mem' (update L l (some (x :: xs))) := by
  have hl : L l = some ([] ++ xs) := hl
  obtain ⟨q, hq⟩ := exists_at l xs
  rw [listPushFront, (h.list l _ hl).begin_eq hq]
  exact h.insert hl hq hfresh

lemma Holds.popFront (hl : L l = some (x :: xs)) :
    ∃ mem', listPopFront mem l = some (mem', x) ∧ Holds mem' (update L l (some xs)) ∧
      Fresh (update L l (some xs)) x := by
  have hlist := h.list l _ hl
  have hl : L l = some ([] ++ [x] ++ xs) := hl
  obtain ⟨q, hq⟩ := exists_at l xs
  have hbegin := hlist.begin_eq (q := x) rfl
  obtain ⟨mem', hrun, -, hholds, hfresh⟩ := h.remove hl hq
  refine ⟨mem', ?_, hholds, hfresh⟩
  rw [listPopFront, if_neg (by rw [hlist.empty_iff]; simp), hbegin, hrun]
  rfl

omit h in
lemma listSplice_eq {p b e before first last : ℕ} (hbefore : isInterior mem before ∨ isTail mem before)
    (hlast : isInterior mem last ∨ isTail mem last) (hne : first ≠ last) (hfirstIn : isInterior mem first)
    (hlastIn : isInterior mem e) (hprev : mem last = e) (hfprev : mem first = p) (hnext : mem (e + 4) = last)
    (hbprev : link mem p last before = b) (hfp : Apart first p) (hep : Apart e p) (hfb : Apart first b) (heb : Apart e b)
    (hfq : Apart first before) (heq : Apart e before) :
    listSplice mem before first last = some (link (link (link mem p last) b first) e before) := by
  unfold Apart at hfp hep hfb heb hfq heq
  unfold listSplice
  rw [if_pos hbefore, if_neg hne, if_pos hlast]
  dsimp only
  rw [hprev, if_pos ⟨hfirstIn, hlastIn⟩, hfprev, hnext]
  have hread₁ : update mem (p + 4) last (e + 4) = last := by
    rw [update_of_ne (by omega), hnext]
  have hread₂ : update mem (p + 4) last first = p := by
    rw [update_of_ne (by omega), hfprev]
  rw [hread₁, hread₂]
  have hlink : update (update mem (p + 4) last) last p = link mem p last := rfl
  have hread₃ : update (update (link mem p last) first b) (e + 4) before before = b := by
    rw [update_of_ne (by omega), update_of_ne (by omega), hbprev]
  rw [hlink, hbprev, hread₃, writes_eq_link (by omega) (by omega)]

/-- A range is moved. -/
lemma Holds.splice {l' first last before : ℕ} {seg cs ds : List ℕ} (hl : L l = some (as ++ seg ++ bs))
    (hfirst : seg.head? = some first) (hlast : At l bs last)
    (hl' : update L l (some (as ++ bs)) l' = some (cs ++ ds)) (hbefore : At l' ds before) :
    ∃ mem', listSplice mem before first last = some mem' ∧
      Holds mem' (update (update L l (some (as ++ bs))) l' (some (cs ++ seg ++ ds))) := by
  obtain ⟨p, hp⟩ := exists_last l as
  obtain ⟨b, hb⟩ := exists_last l' cs
  have hlist := h.list l _ hl
  have hne : seg ≠ [] := by
    rintro rfl
    cases hfirst
  obtain ⟨e, he⟩ : ∃ e, seg.getLast? = some e := ⟨_, List.getLast?_eq_some_getLast hne⟩
  have hfmem : first ∈ seg := List.mem_of_head? hfirst
  have hemem : e ∈ seg := List.mem_of_getLast? he
  -- the pointers at both ends of the range
  have hend : (l :: (as ++ seg)).getLast? = some e := by
    rw [← List.cons_append, List.getLast?_append, he]
    rfl
  obtain ⟨hnext, hprev, -, -, hlastPos⟩ := hlist.position hend hlast
  have hlist' : IsList mem l (as ++ (seg ++ bs)) := by
    rw [← List.append_assoc]
    exact hlist
  have hat : At l (seg ++ bs) first := by
    unfold At
    rw [List.append_assoc, List.head?_append, hfirst]
    rfl
  obtain ⟨-, hfprev, -, -, -⟩ := hlist'.position hp hat
  have hfirstIn := hlist.interior (show first ∈ as ++ seg ++ bs by simp [hfmem])
  have hlastIn := hlist.interior (show e ∈ as ++ seg ++ bs by simp [hemem])
  -- without the range
  obtain ⟨hcut, hdetached⟩ := h.cut hl hp hlast
  have hlist₁ := hcut.list l' _ hl'
  obtain ⟨-, hbprev, -, -, -⟩ := hlist₁.position hb hbefore
  obtain ⟨hbmem, hqmem, -, hqhead⟩ := hlist₁.ends hb hbefore
  have haway (x : ℕ) (hx : x ∈ seg) (y : ℕ) (hy : y ∈ nodes l (as ++ bs)) : Apart x y :=
    hdetached.away l _ (update_self ..) x hx y hy
  have hpmem := last_mem bs hp
  have haway' := hdetached.away l' _ hl'
  have hfl := haway first hfmem last (hlast.mem_nodes as)
  unfold Apart at hfl
  -- `before` had a predecessor from the start
  have hbeforePos : isInterior mem before ∨ isTail mem before := by
    have hmem : before ∈ (cs ++ ds) ++ [l' + 8] := by
      rw [List.append_assoc]
      exact List.mem_append_right _ (List.mem_of_head? hbefore)
    by_cases hne : l' = l
    · subst hne
      rw [update_self] at hl'
      rw [← Option.some.inj hl'] at hmem
      have hsub : (as ++ bs ++ [l' + 8]).Sublist (as ++ seg ++ bs ++ [l' + 8]) :=
        ((List.sublist_append_left as seg).append_right bs).append_right _
      exact hlist.pred (hsub.subset hmem)
    · rw [update_of_ne hne] at hl'
      exact (h.list l' _ hl').pred hmem
  refine ⟨_, ?_, hcut.paste hdetached hl' hb hbefore hfirst he⟩
  exact listSplice_eq hbeforePos hlastPos (by omega) hfirstIn hlastIn hprev hfprev hnext hbprev (haway first hfmem p hpmem)
    (haway e hemem p hpmem) (haway' first hfmem b hbmem) (haway' e hemem b hbmem) (haway' first hfmem before hqmem)
    (haway' e hemem before hqmem)

/-- A list is reversed. -/
lemma Holds.reverse (hl : L l = some xs) :
    ∃ mem', (∀ fuel, xs.length < fuel → listReverse fuel mem l = some mem') ∧
      Holds mem' (update L l (some xs.reverse)) := by
  obtain ⟨mem', hrun, hnew, hframe⟩ := (h.list l xs hl).reverse
  refine ⟨mem', hrun, h.change _ (h.away hl) ?_ hnew hframe⟩
  exact nodes_subset fun x hx => List.mem_reverse.mp hx

/-- A new list, or a list that is made empty. -/
lemma Holds.init (hzero : l ≠ 0)
    (haway : ∀ l' xs', L l' = some xs' → l' ≠ l → ∀ x ∈ [l, l + 8], ∀ y ∈ nodes l' xs', Apart x y) :
    Holds (listInit mem l) (update L l (some [])) := by
  obtain ⟨hnew, hframe⟩ := listInit_spec mem hzero
  refine h.change [l, l + 8] haway (fun x hx => hx) hnew fun y hy => ?_
  have h₁ := hy l (by simp)
  have h₂ := hy (l + 8) (by simp)
  simp only [listInit, update_apply]
  rw [if_neg h₂.2, if_neg h₂.1, if_neg h₁.2, if_neg h₁.1]

lemma Holds.init_fresh (hhead : Fresh L l) (htail : Fresh L (l + 8)) :
    Holds (listInit mem l) (update L l (some [])) := by
  refine h.init hhead.1 fun l' xs' hl' _ x hx => ?_
  rcases List.mem_cons.mp hx with rfl | hx
  · exact hhead.2 l' xs' hl'
  · rw [List.mem_singleton.mp hx]
    exact htail.2 l' xs' hl'

end Holds

end Code

/-! ## Walks -/

section Walks

variable {mem mem' : Words} {l : ℕ} {xs : List ℕ}

/-- Following `prev` from the tail visits the elements in the opposite order. -/
lemma IsList.walk_back (h : IsList mem l xs) {fuel : ℕ} (hfuel : xs.length < fuel) :
    Links.walk (links mem).prev l fuel (mem (l + 8)) = some xs.reverse := by
  have hback : Links.Linked ⟨(links mem).next, (links mem).prev⟩ (nodes l xs).reverse :=
    h.linked.reverse fun _ _ => ⟨rfl, rfl⟩
  have hnodes : (nodes l xs).reverse = (l + 8) :: (xs.reverse ++ [l]) := by
    simp [nodes]
  rw [hnodes] at hback
  refine hback.walk (fun hmem => ?_) (by rw [List.length_reverse]; exact hfuel)
  exact (List.nodup_cons.mp (nodup_of_apart h.apart)).1 (List.mem_append_left _ (List.mem_reverse.mp hmem))

/-- Memory determines the sequence. -/
lemma IsList.unique {ys : List ℕ} (h : IsList mem l xs) (h' : IsList mem l ys) : xs = ys := by
  have hwalk := h.walk (Nat.lt_succ_of_le (le_max_left xs.length ys.length))
  rw [h'.walk (Nat.lt_succ_of_le (le_max_right xs.length ys.length))] at hwalk
  exact (Option.some.inj hwalk).symm

/-- The sequence determines the pointers. -/
lemma IsList.words_eq (h : IsList mem l xs) (h' : IsList mem' l xs) (hx : x ∈ nodes l xs) :
    mem' x = mem x ∧ mem' (x + 4) = mem (x + 4) := by
  constructor
  · rcases List.mem_cons.mp hx with rfl | hx
    · rw [h.headPrev, h'.headPrev]
    · obtain ⟨as, bs, rfl, hat⟩ := exists_split_at hx
      obtain ⟨p, hp⟩ := exists_last l as
      rw [(h.position hp hat).2.1, (h'.position hp hat).2.1]
  · rcases List.mem_append.mp (show x ∈ (l :: xs) ++ [l + 8] from hx) with hx | hx
    · obtain ⟨as, bs, rfl, hlast⟩ := exists_split_last hx
      obtain ⟨q, hq⟩ := exists_at l bs
      rw [(h.position hlast hq).1, (h'.position hlast hq).1]
    · rw [List.mem_singleton.mp hx]
      exact h'.tailNext.trans h.tailNext.symm

end Walks

/-! ## Runs -/

lemma fresh_none (hx : x ≠ 0) : Fresh (fun _ => none) x :=
  ⟨hx, fun _ _ hl => by cases hl⟩

lemma Fresh.update {L : Lists} {x l : ℕ} {ys : List ℕ} (h : Fresh L x) (hys : ∀ y ∈ nodes l ys, Apart x y) :
    Fresh (update L l (some ys)) x := by
  refine ⟨h.1, fun l' xs hl' => ?_⟩
  by_cases hne : l' = l
  · subst hne
    rw [update_self] at hl'
    rw [← Option.some.inj hl']
    exact hys
  · rw [update_of_ne hne] at hl'
    exact h.2 l' xs hl'

section Runs

variable {mem : Words} {L L' : Lists} {op : ListOp} {ops : List ListOp} {r : Option ℕ} {rs : List (Option ℕ)}

/-- An operation does what it should. -/
lemma Holds.exec (h : Holds mem L) (hstep : Step L op L' r) :
    ∃ mem' n, (∀ fuel, n ≤ fuel → listExec fuel mem op = some (mem', r)) ∧ Holds mem' L' := by
  cases hstep with
  | insert hl hbefore hfresh =>
    obtain ⟨mem', hrun, hholds⟩ := h.insert hl hbefore hfresh
    refine ⟨mem', 0, fun fuel _ => ?_, hholds⟩
    rw [listExec, hrun]
    rfl
  | pushFront hl hfresh =>
    obtain ⟨mem', hrun, hholds⟩ := h.pushFront hl hfresh
    refine ⟨mem', 0, fun fuel _ => ?_, hholds⟩
    rw [listExec, hrun]
    rfl
  | @pushBack l xs elem hl hfresh =>
    have hl' : L l = some (xs ++ []) := by
      rw [List.append_nil]
      exact hl
    obtain ⟨mem', hrun, hholds⟩ := h.insert hl' (show At l [] (l + 8) from rfl) hfresh
    rw [List.append_nil] at hholds
    refine ⟨mem', 0, fun fuel _ => ?_, hholds⟩
    rw [listExec, listPushBack, listEnd, hrun]
    rfl
  | remove hl hnext =>
    obtain ⟨mem', hrun, hresult, hholds, -⟩ := h.remove hl hnext
    refine ⟨mem', 0, fun fuel _ => ?_, hholds⟩
    rw [listExec, hrun, Option.map_some, hresult]
  | popFront hl =>
    obtain ⟨mem', hrun, hholds, -⟩ := h.popFront hl
    refine ⟨mem', 0, fun fuel _ => ?_, hholds⟩
    rw [listExec, hrun]
    rfl
  | @popBack l xs x hl =>
    have hl' : L l = some (xs ++ [x] ++ []) := by
      rw [List.append_nil]
      exact hl
    have hat : At l [] (l + 8) := rfl
    have hend : (l :: (xs ++ [x])).getLast? = some x := by
      rw [← List.cons_append, List.getLast?_concat]
    have hback : mem (l + 8) = x := ((h.list l _ hl').position hend hat).2.1
    obtain ⟨mem', hrun, -, hholds, -⟩ := h.remove hl' hat
    rw [List.append_nil] at hholds
    refine ⟨mem', 0, fun fuel _ => ?_, hholds⟩
    rw [listExec, listPopBack, if_neg (by rw [(h.list l _ hl).empty_iff]; simp), hback, hrun]
    rfl
  | @spliceEmpty l as bs before first hl hbefore =>
    have hmem : before ∈ (as ++ bs) ++ [l + 8] := by
      rw [List.append_assoc]
      exact List.mem_append_right _ (List.mem_of_head? hbefore)
    refine ⟨mem, 0, fun fuel _ => ?_, h⟩
    rw [listExec, listSplice, if_pos ((h.list l _ hl).pred hmem), if_pos rfl]
    rfl
  | splice hl hfirst hlast hl' hbefore =>
    obtain ⟨mem', hrun, hholds⟩ := h.splice hl hfirst hlast hl' hbefore
    refine ⟨mem', 0, fun fuel _ => ?_, hholds⟩
    rw [listExec, hrun]
    rfl
  | @reverse l xs hl =>
    obtain ⟨mem', hrun, hholds⟩ := h.reverse hl
    refine ⟨mem', xs.length + 1, fun fuel hfuel => ?_, hholds⟩
    rw [listExec, hrun fuel hfuel]
    rfl

/-- So do operations one after the other. -/
lemma Holds.run (h : Holds mem L) (hsteps : Steps L ops L' rs) :
    ∃ mem' n, (∀ fuel, n ≤ fuel → listRun fuel mem ops = some (mem', rs)) ∧ Holds mem' L' := by
  induction hsteps generalizing mem with
  | nil => exact ⟨mem, 0, fun _ _ => rfl, h⟩
  | cons hstep _ ih =>
    obtain ⟨mem₁, n₁, hexec, h₁⟩ := h.exec hstep
    obtain ⟨mem₂, n₂, hrun, h₂⟩ := ih h₁
    refine ⟨mem₂, max n₁ n₂, fun fuel hfuel => ?_, h₂⟩
    rw [listRun, hexec fuel (le_trans (le_max_left ..) hfuel)]
    show (listRun fuel mem₁ _).bind _ = _
    rw [hrun fuel (le_trans (le_max_right ..) hfuel)]
    rfl

lemma holds_none (mem : Words) : Holds mem fun _ => none where
  list _ _ hl := (Option.some_ne_none _ hl.symm).elim
  apart _ _ _ _ hl := (Option.some_ne_none _ hl.symm).elim

/-- Two new lists. -/
lemma holds_twoLists : Holds (listInit (listInit (fun _ => 0) 100) 200)
    (update (update (fun _ => none) 100 (some [])) 200 (some [])) :=
  ((holds_none fun _ => 0).init_fresh (fresh_none (by decide)) (fresh_none (by decide))).init_fresh
    ((fresh_none (by decide)).update (by decide)) ((fresh_none (by decide)).update (by decide))

lemma fresh_twoLists (hx : 300 ≤ x) : Fresh (update (update (fun _ => none) 100 (some [])) 200 (some [])) x := by
  refine ((fresh_none (by omega)).update fun y hy => ?_).update fun y hy => ?_
  all_goals
    rw [mem_nodes] at hy
    simp at hy
    unfold Apart
    omega

/-- Any calls that respect the preconditions return, do to the sequences what they should, and leave well-formed lists,
which are read the same in both directions; a list whose sequence is the same in the end is the same in memory. -/
theorem lists_refine (h : Holds mem L) (hsteps : Steps L ops L' rs) :
    ∃ mem' n, (∀ fuel, n ≤ fuel → listRun fuel mem ops = some (mem', rs)) ∧ Holds mem' L' ∧
      (∀ l xs, L' l = some xs → mem' l = 0 ∧ mem' (l + 12) = 0 ∧ ∀ fuel, xs.length < fuel →
        Links.walk (links mem').next (listEnd l) fuel (listBegin mem' l) = some xs ∧
        Links.walk (links mem').prev l fuel (mem' (l + 8)) = some xs.reverse) ∧
      ∀ l xs, L l = some xs → L' l = some xs → ∀ x ∈ nodes l xs, mem' x = mem x ∧ mem' (x + 4) = mem (x + 4) := by
  obtain ⟨mem', n, hrun, h'⟩ := h.run hsteps
  refine ⟨mem', n, hrun, h', fun l xs hl => ?_, fun l xs hl hl' x hx => ?_⟩
  · have hlist := h'.list l xs hl
    exact ⟨hlist.headPrev, hlist.tailNext, fun fuel hfuel => ⟨hlist.walk hfuel, hlist.walk_back hfuel⟩⟩
  · exact (h.list l xs hl).words_eq (h'.list l xs hl') hx

/-- Two elements go to the first of two new lists, the first of them moves to the other list, and is taken out again. -/
theorem lists_refine_twoLists :
    ∃ mem' n, ∀ fuel, n ≤ fuel → listRun fuel (listInit (listInit (fun _ => 0) 100) 200)
      [.pushBack 100 300, .pushFront 100 400, .splice 208 400 300, .reverse 100, .popBack 200] =
        some (mem', [none, none, none, none, some 400]) := by
  have hsteps := Steps.cons (@Step.pushBack _ 100 [] 300 rfl (fresh_twoLists (by decide))) <|
    Steps.cons (@Step.pushFront _ 100 [300] 400 rfl ((fresh_twoLists (by decide)).update (by decide))) <|
    Steps.cons (@Step.splice _ 100 200 [] [400] [300] [] [] 208 400 300 rfl rfl rfl rfl rfl) <|
    Steps.cons (@Step.reverse _ 100 [300] rfl) <|
    Steps.cons (@Step.popBack _ 200 [] 400 rfl) .nil
  obtain ⟨mem', n, hrun, -⟩ := lists_refine holds_twoLists hsteps
  exact ⟨mem', n, hrun⟩

end Runs

end OsLabs.LibKernel
