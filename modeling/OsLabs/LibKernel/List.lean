import OsLabs.Lib.DoublyLinked

/-!
# Lists in memory

`lib/kernel/list.c` on the words of memory. A `struct list_elem` is two words, `prev` and `next`, inside of the object
that is in the list; a `struct list` is the two sentinels, `head` and `tail`, one after the other.

`IsList` says that memory holds a list, `listPushFront_spec`, `listPushBack_spec` and `listRemove_spec` what the
operations do to it, and that they write to the elements of this list only.
-/

namespace OsLabs.LibKernel

open Lib Function

/-- The words of memory, by the address of their first byte. -/
abbrev Words := ℕ → ℕ

/-! ## The code -/

def isInterior (mem : Words) (elem : ℕ) : Prop :=
  elem ≠ 0 ∧ mem elem ≠ 0 ∧ mem (elem + 4) ≠ 0

def isTail (mem : Words) (elem : ℕ) : Prop :=
  elem ≠ 0 ∧ mem elem ≠ 0 ∧ mem (elem + 4) = 0

instance (mem : Words) (elem : ℕ) : Decidable (isInterior mem elem) := inferInstanceAs (Decidable (_ ∧ _))

instance (mem : Words) (elem : ℕ) : Decidable (isTail mem elem) := inferInstanceAs (Decidable (_ ∧ _))

def listInit (mem : Words) (list : ℕ) : Words :=
  let mem := update mem list 0
  let mem := update mem (list + 4) (list + 8)
  let mem := update mem (list + 8) list
  update mem (list + 12) 0

def listBegin (mem : Words) (list : ℕ) : ℕ :=
  mem (list + 4)

def listEnd (list : ℕ) : ℕ :=
  list + 8

def listEmpty (mem : Words) (list : ℕ) : Prop :=
  listBegin mem list = listEnd list

instance (mem : Words) (list : ℕ) : Decidable (listEmpty mem list) := inferInstanceAs (Decidable (_ = _))

/-- `list_insert`; `none` if an assertion fails. -/
def listInsert (mem : Words) (before elem : ℕ) : Option Words :=
  if (isInterior mem before ∨ isTail mem before) ∧ elem ≠ 0 then
    let mem := update mem elem (mem before)
    let mem := update mem (elem + 4) before
    let mem := update mem (mem before + 4) elem
    some (update mem before elem)
  else none

def listPushFront (mem : Words) (list elem : ℕ) : Option Words :=
  listInsert mem (listBegin mem list) elem

def listPushBack (mem : Words) (list elem : ℕ) : Option Words :=
  listInsert mem (listEnd list) elem

/-- `list_remove`, without its result. -/
def listRemove (mem : Words) (elem : ℕ) : Option Words :=
  if isInterior mem elem then
    let mem := update mem (mem elem + 4) (mem (elem + 4))
    some (update mem (mem (elem + 4)) (mem elem))
  else none

/-- `list_pop_front`: the memory after it, and the element. -/
def listPopFront (mem : Words) (list : ℕ) : Option (Words × ℕ) :=
  if listEmpty mem list then none
  else (listRemove mem (listBegin mem list)).map fun mem' => (mem', listBegin mem list)

/-! ## Segments -/

/-- The two fields of the elements. -/
def links (mem : Words) : Links ℕ where
  prev elem := mem elem
  next elem := mem (elem + 4)

/-- Two elements do not overlap. -/
def Apart (x y : ℕ) : Prop :=
  x + 8 ≤ y ∨ y + 8 ≤ x

instance : Std.Symm Apart := ⟨fun _ _ => Or.symm⟩

instance (x y : ℕ) : Decidable (Apart x y) := inferInstanceAs (Decidable (_ ∨ _))

variable {ps : List ℕ}

lemma nodup_of_apart (h : ps.Pairwise Apart) : ps.Nodup := by
  refine h.imp fun {x y} hxy => ?_
  unfold Apart at hxy
  omega

/-- The word belongs to none of the elements. -/
def Outside (ps : List ℕ) (y : ℕ) : Prop :=
  ∀ x ∈ ps, y ≠ x ∧ y ≠ x + 4

/-- Elements that do not overlap have different words. -/
lemma words_ne (h : ps.Pairwise Apart) {x y : ℕ} (hx : x ∈ ps) (hy : y ∈ ps) :
    x ≠ y + 4 ∧ (x ≠ y → x + 4 ≠ y + 4) := by
  by_cases hxy : x = y
  · omega
  · have := h.forall hx hy hxy
    unfold Apart at this
    omega

/-- A segment depends on the words of its elements. -/
lemma linked_congr {mem mem' : Words} (h : (links mem).Linked ps)
    (hmem : ∀ x ∈ ps, mem' x = mem x ∧ mem' (x + 4) = mem (x + 4)) : (links mem').Linked ps :=
  h.congr_of_mem fun x hx => (hmem x hx).symm

/-! ## Two pointers -/

section Link

variable {mem : Words} {p q y : ℕ} {as bs ps ss : List ℕ}

/-- `p->next = q; q->prev = p`. -/
def link (mem : Words) (p q : ℕ) : Words :=
  update (update mem (p + 4) q) q p

lemma link_of_ne (hp : y ≠ p + 4) (hq : y ≠ q) : link mem p q y = mem y := by
  rw [link, update_of_ne hq, update_of_ne hp]

lemma link_next (h : q ≠ p + 4) : link mem p q (p + 4) = q := by
  rw [link, update_of_ne (Ne.symm h), update_self]

lemma link_prev : link mem p q q = p :=
  update_self ..

/-- A segment stays linked if its own pointers are not written. -/
lemma linked_link (hapart : ps.Pairwise Apart) (hp : p ∈ ps) (hq : q ∈ ps) (hss : ss ⊆ ps) (h : (links mem).Linked ss)
    (hlast : p ∉ ss.dropLast) (hfirst : q ∉ ss.tail) : (links (link mem p q)).Linked ss := by
  apply h.congr
  · intro z hz
    have hzp : z ≠ p := fun heq => hlast (heq ▸ hz)
    exact link_of_ne (by omega) (Ne.symm (words_ne hapart hq (hss (List.dropLast_subset _ hz))).1)
  · intro z hz
    have hzq : z ≠ q := fun heq => hfirst (heq ▸ hz)
    exact link_of_ne (words_ne hapart (hss (List.mem_of_mem_tail hz)) hp).1 hzq

lemma not_mem_dropLast (hnodup : as.Nodup) (hp : as.getLast? = some p) : p ∉ as.dropLast := by
  have hsplit := List.dropLast_append_getLast? p hp
  rw [← hsplit] at hnodup
  intro hmem
  exact (List.nodup_append.mp hnodup).2.2 p hmem p (List.mem_singleton_self p) rfl

lemma not_mem_tail (hnodup : bs.Nodup) (hq : bs.head? = some q) : q ∉ bs.tail := by
  cases bs with
  | nil => cases hq
  | cons b bs =>
    obtain rfl : b = q := Option.some.inj hq
    exact (List.nodup_cons.mp hnodup).1

/-- Two segments are joined. -/
lemma linked_join (hapart : (as ++ bs).Pairwise Apart) (hp : as.getLast? = some p) (hq : bs.head? = some q)
    (hleft : (links mem).Linked as) (hright : (links mem).Linked bs) : (links (link mem p q)).Linked (as ++ bs) := by
  have hpas : p ∈ as := List.mem_of_getLast? hp
  have hqbs : q ∈ bs := List.mem_of_head? hq
  have hpmem : p ∈ as ++ bs := List.mem_append_left _ hpas
  have hqmem : q ∈ as ++ bs := List.mem_append_right _ hqbs
  obtain ⟨hnas, hnbs, hdisj⟩ := List.nodup_append.mp (nodup_of_apart hapart)
  refine Links.linked_append.mpr ⟨?_, ?_, fun p' hp' q' hq' => ?_⟩
  · refine linked_link hapart hpmem hqmem (List.subset_append_left ..) hleft (not_mem_dropLast hnas hp) fun hmem => ?_
    exact hdisj q (List.mem_of_mem_tail hmem) q hqbs rfl
  · refine linked_link hapart hpmem hqmem (List.subset_append_right ..) hright (fun hmem => ?_) (not_mem_tail hnbs hq)
    exact hdisj p hpas p (List.dropLast_subset _ hmem) rfl
  · obtain rfl : p = p' := Option.some.inj (hp.symm.trans hp')
    obtain rfl : q = q' := Option.some.inj (hq.symm.trans hq')
    exact ⟨link_next (words_ne hapart hqmem hpmem).1, link_prev⟩

end Link

/-! ## Lists -/

/-- The sentinels and the elements of a list. -/
def nodes (list : ℕ) (xs : List ℕ) : List ℕ :=
  list :: (xs ++ [list + 8])

/-- Memory holds a list with the elements `xs`. -/
structure IsList (mem : Words) (list : ℕ) (xs : List ℕ) : Prop where
  apart : (nodes list xs).Pairwise Apart
  linked : (links mem).Linked (nodes list xs)
  headPrev : mem list = 0
  tailNext : mem (list + 12) = 0
  ne_zero : ∀ x ∈ nodes list xs, x ≠ 0

section Operations

variable {mem mem' : Words} {list : ℕ} {xs : List ℕ}

lemma mem_nodes {x : ℕ} : x ∈ nodes list xs ↔ x = list ∨ x ∈ xs ∨ x = list + 8 := by
  simp [nodes]

lemma head_mem : list ∈ nodes list xs :=
  mem_nodes.mpr (Or.inl rfl)

lemma tail_mem : list + 8 ∈ nodes list xs :=
  mem_nodes.mpr (Or.inr (Or.inr rfl))

lemma nodes_subset {ys : List ℕ} (h : ys ⊆ xs) : nodes list ys ⊆ nodes list xs := by
  intro x hx
  rw [mem_nodes] at hx ⊢
  exact hx.imp_right (Or.imp_left fun hmem => h hmem)

lemma Outside.subset {ps qs : List ℕ} {y : ℕ} (h : Outside qs y) (hsub : ps ⊆ qs) : Outside ps y :=
  fun x hx => h x (hsub hx)

/-- A list depends on the words of its elements. -/
lemma IsList.congr (h : IsList mem list xs) (hmem : ∀ y, ¬Outside (nodes list xs) y → mem' y = mem y) :
    IsList mem' list xs := by
  have hprev (x : ℕ) (hx : x ∈ nodes list xs) : mem' x = mem x := hmem x fun hout => (hout x hx).1 rfl
  have hnext (x : ℕ) (hx : x ∈ nodes list xs) : mem' (x + 4) = mem (x + 4) := hmem (x + 4) fun hout => (hout x hx).2 rfl
  refine ⟨h.apart, linked_congr h.linked fun x hx => ⟨hprev x hx, hnext x hx⟩, ?_, ?_, h.ne_zero⟩
  · rw [hprev list head_mem]
    exact h.headPrev
  · have := hnext (list + 8) tail_mem
    rw [this]
    exact h.tailNext

/-- The list is empty if it has no elements. -/
lemma IsList.empty_iff (h : IsList mem list xs) : listEmpty mem list ↔ xs = [] := by
  have hnodup := nodup_of_apart h.apart
  cases xs with
  | nil =>
    obtain ⟨⟨hnext, _⟩, _⟩ := List.isChain_cons_cons.mp h.linked
    exact ⟨fun _ => rfl, fun _ => hnext⟩
  | cons x xs =>
    obtain ⟨⟨hnext, _⟩, _⟩ := List.isChain_cons_cons.mp h.linked
    have hnext : mem (list + 4) = x := hnext
    refine ⟨fun hempty => ?_, nofun⟩
    have hempty : mem (list + 4) = list + 8 := hempty
    rw [hempty] at hnext
    simp [nodes, ← hnext] at hnodup

/-- The outer pointers of the sentinels stay. -/
lemma IsList.outer (h : IsList mem list xs) {p q : ℕ} (hp : p ∈ nodes list xs) (hq : q ∈ nodes list xs)
    (hph : p ≠ list + 8) (hqh : q ≠ list) (hframe : ∀ y, ¬Outside (nodes list xs) y → y ≠ p + 4 → y ≠ q → mem' y = mem y) :
    mem' list = 0 ∧ mem' (list + 12) = 0 := by
  constructor
  · rw [hframe list (fun hout => (hout list head_mem).1 rfl) (words_ne h.apart head_mem hp).1 (Ne.symm hqh)]
    exact h.headPrev
  · rw [hframe (list + 12) (fun hout => (hout (list + 8) tail_mem).2 rfl) (by omega)
      (Ne.symm (words_ne h.apart hq tail_mem).1)]
    exact h.tailNext

end Operations

/-! ## Positions -/

/-- The position before `q`, which is the first of `bs` or the tail. -/
def At (l : ℕ) (bs : List ℕ) (q : ℕ) : Prop :=
  (bs ++ [l + 8]).head? = some q

section Positions

variable {mem : Words} {l p q : ℕ} {xs as bs seg : List ℕ}

lemma nodes_append (l : ℕ) (as bs) : nodes l (as ++ bs) = (l :: as) ++ (bs ++ [l + 8]) := by
  simp [nodes]

/-- The nodes with a range in between. -/
lemma nodes_range (l : ℕ) (as seg bs) :
    nodes l (as ++ seg ++ bs) = ((l :: as) ++ seg) ++ (bs ++ [l + 8]) := by
  simp [nodes]

lemma nodes_perm (l : ℕ) (as seg bs) : (nodes l (as ++ seg ++ bs)).Perm (nodes l (as ++ bs) ++ seg) := by
  rw [nodes_range, nodes_append, List.append_assoc, List.append_assoc]
  exact List.perm_append_comm.append_left _

lemma last_mem (bs) (hp : (l :: as).getLast? = some p) : p ∈ nodes l (as ++ bs) := by
  rw [nodes_append]
  exact List.mem_append_left _ (List.mem_of_getLast? hp)

lemma At.mem_nodes (as) (hq : At l bs q) : q ∈ nodes l (as ++ bs) := by
  rw [nodes_append]
  exact List.mem_append_right _ (List.mem_of_head? hq)

/-- The pointers at a position. -/
lemma IsList.position (h : IsList mem l (as ++ bs)) (hp : (l :: as).getLast? = some p) (hq : At l bs q) :
    mem (p + 4) = q ∧ mem q = p ∧ p ≠ 0 ∧ q ≠ 0 ∧ (isInterior mem q ∨ isTail mem q) := by
  have hlinked := h.linked
  rw [nodes_append] at hlinked
  obtain ⟨hnext, hprev⟩ := (Links.linked_append.mp hlinked).2.2 p hp q hq
  have hprev : mem q = p := hprev
  have hpzero : p ≠ 0 := h.ne_zero p (last_mem bs hp)
  have hqzero : q ≠ 0 := h.ne_zero q (hq.mem_nodes as)
  refine ⟨hnext, hprev, hpzero, hqzero, ?_⟩
  by_cases hlast : mem (q + 4) = 0
  · exact Or.inr ⟨hqzero, by rw [hprev]; exact hpzero, hlast⟩
  · exact Or.inl ⟨hqzero, by rw [hprev]; exact hpzero, hlast⟩

lemma exists_last (l : ℕ) (as) : ∃ p, (l :: as).getLast? = some p :=
  ⟨_, List.getLast?_cons⟩

lemma exists_at (l : ℕ) (bs) : ∃ q, At l bs q := by
  cases bs with
  | nil => exact ⟨l + 8, rfl⟩
  | cons b bs => exact ⟨b, rfl⟩

/-- Every node but the head comes after some position. -/
lemma exists_split_at {q : ℕ} (hq : q ∈ xs ++ [l + 8]) : ∃ as bs, xs = as ++ bs ∧ At l bs q := by
  rcases List.mem_append.mp hq with hq | hq
  · obtain ⟨as, bs, rfl⟩ := List.append_of_mem hq
    exact ⟨as, q :: bs, rfl, rfl⟩
  · rw [List.mem_singleton.mp hq]
    exact ⟨xs, [], (List.append_nil xs).symm, rfl⟩

/-- Every node but the tail comes before some position. -/
lemma exists_split_last {p : ℕ} (hp : p ∈ l :: xs) : ∃ as bs, xs = as ++ bs ∧ (l :: as).getLast? = some p := by
  rcases List.mem_cons.mp hp with rfl | hp
  · exact ⟨[], xs, rfl, rfl⟩
  · obtain ⟨as, bs, rfl⟩ := List.append_of_mem hp
    refine ⟨as ++ [p], bs, by simp, ?_⟩
    rw [← List.cons_append, List.getLast?_concat]

/-- Every node but the head has a predecessor. -/
lemma IsList.pred (h : IsList mem l xs) {q : ℕ} (hq : q ∈ xs ++ [l + 8]) : isInterior mem q ∨ isTail mem q := by
  obtain ⟨as, bs, rfl, hat⟩ := exists_split_at hq
  obtain ⟨p, hp⟩ := exists_last l as
  exact (h.position hp hat).2.2.2.2

/-- An element of a list has two neighbours. -/
lemma IsList.interior (h : IsList mem l xs) {x : ℕ} (hx : x ∈ xs) : isInterior mem x := by
  apply (h.pred (List.mem_append_left _ hx)).resolve_right
  intro htail
  obtain ⟨as, bs, rfl, hlast⟩ := exists_split_last (List.mem_cons_of_mem l hx)
  obtain ⟨q, hq⟩ := exists_at l bs
  obtain ⟨hnext, -, -, hqzero, -⟩ := h.position hlast hq
  exact hqzero (hnext.symm.trans htail.2.2)

/-- `list_begin`. -/
lemma IsList.begin_eq (h : IsList mem l xs) (hq : At l xs q) : listBegin mem l = q := by
  have hlist : IsList mem l ([] ++ xs) := h
  exact (hlist.position rfl hq).1

/-- An element is not the end. -/
lemma IsList.ne_end {a : ℕ} (h : IsList mem l (as ++ a :: bs)) : a ≠ listEnd l := by
  have hnodup := nodup_of_apart h.apart
  rw [nodes, List.nodup_cons, List.nodup_append] at hnodup
  exact hnodup.2.2.2 a (by simp) _ (List.mem_singleton_self _)

/-- Elements before a position are not the tail, and those after it are not the head. -/
lemma IsList.ends (h : IsList mem l (as ++ bs)) (hp : (l :: as).getLast? = some p) (hq : At l bs q) :
    p ∈ nodes l (as ++ bs) ∧ q ∈ nodes l (as ++ bs) ∧ p ≠ l + 8 ∧ q ≠ l := by
  have hnodup := nodup_of_apart h.apart
  rw [nodes_append] at hnodup
  have hdisj := (List.nodup_append.mp hnodup).2.2
  refine ⟨last_mem bs hp, hq.mem_nodes as, ?_, ?_⟩
  · exact hdisj p (List.mem_of_getLast? hp) (l + 8) (by simp)
  · exact Ne.symm (hdisj l (by simp) q (List.mem_of_head? hq))

/-- A range is cut out. -/
lemma IsList.cut (h : IsList mem l (as ++ seg ++ bs)) (hp : (l :: as).getLast? = some p) (hq : At l bs q) :
    IsList (link mem p q) l (as ++ bs) ∧ (links (link mem p q)).Linked seg ∧ (nodes l (as ++ bs) ++ seg).Pairwise Apart ∧
      ∀ y, Outside (nodes l (as ++ seg ++ bs)) y → link mem p q y = mem y := by
  have hsub : (nodes l (as ++ bs)).Sublist (nodes l (as ++ seg ++ bs)) := by
    rw [nodes_range, nodes_append]
    exact (List.sublist_append_left _ seg).append_right _
  have hlinked := h.linked
  rw [nodes_range] at hlinked
  obtain ⟨hleft, hright, -⟩ := Links.linked_append.mp hlinked
  obtain ⟨hleft, hseg, -⟩ := Links.linked_append.mp hleft
  have hapart := ((nodes_perm l as seg bs).pairwise_iff fun hxy => Std.Symm.symm _ _ hxy).mp h.apart
  obtain ⟨hapart', -, -⟩ := List.pairwise_append.mp hapart
  obtain ⟨-, -, hdisj⟩ := List.nodup_append.mp (nodup_of_apart hapart)
  have hpmem := last_mem bs hp
  have hqmem := hq.mem_nodes as
  have hpold := hsub.subset hpmem
  have hqold := hsub.subset hqmem
  have hsegsub : seg ⊆ nodes l (as ++ seg ++ bs) :=
    fun x hx => (nodes_perm l as seg bs).mem_iff.mpr (List.mem_append_right _ hx)
  have hlist : (links (link mem p q)).Linked (nodes l (as ++ bs)) := by
    rw [nodes_append] at hapart' ⊢
    exact linked_join hapart' hp hq hleft hright
  obtain ⟨-, -, hcross⟩ := List.nodup_append.mp (show ((l :: as) ++ (bs ++ [l + 8])).Nodup by
    rw [← nodes_append]
    exact nodup_of_apart hapart')
  have hptail : p ≠ l + 8 := hcross p (List.mem_of_getLast? hp) (l + 8) (by simp)
  have hqhead : q ≠ l := Ne.symm (hcross l (by simp) q (List.mem_of_head? hq))
  obtain ⟨hheadPrev, htailNext⟩ : link mem p q l = 0 ∧ link mem p q (l + 12) = 0 :=
    h.outer hpold hqold hptail hqhead fun y _ hyp hyq => link_of_ne hyp hyq
  refine ⟨⟨hapart', hlist, hheadPrev, htailNext, fun x hx => h.ne_zero x (hsub.subset hx)⟩, ?_, hapart, fun y hy => ?_⟩
  · refine linked_link h.apart hpold hqold hsegsub hseg (fun hmem => ?_) fun hmem => ?_
    · exact hdisj p hpmem p (List.dropLast_subset _ hmem) rfl
    · exact hdisj q hqmem q (List.mem_of_mem_tail hmem) rfl
  · exact link_of_ne (hy p hpold).2 (hy q hqold).1

/-- A range is put between the two parts of a list. -/
lemma isList_join (hapart : (nodes l (as ++ bs) ++ seg).Pairwise Apart) (hleft : (links mem).Linked (l :: as))
    (hright : (links mem).Linked (bs ++ [l + 8])) (hseg : (links mem).Linked seg) (hhead : mem l = 0)
    (htail : mem (l + 12) = 0) (hzero : ∀ x ∈ nodes l (as ++ bs) ++ seg, x ≠ 0) (hp : (l :: as).getLast? = some p)
    (hq : At l bs q) {first last : ℕ} (hfirst : seg.head? = some first) (hlast : seg.getLast? = some last) :
    IsList (link (link mem p first) last q) l (as ++ seg ++ bs) ∧
      ∀ y, Outside (nodes l (as ++ bs) ++ seg) y → link (link mem p first) last q y = mem y := by
  obtain ⟨hapartOld, -, haway⟩ := List.pairwise_append.mp hapart
  rw [← (nodes_perm l as seg bs).pairwise_iff fun hxy => Std.Symm.symm _ _ hxy, nodes_range] at hapart
  have hpmem := last_mem bs hp
  have hqmem := hq.mem_nodes as
  have hpleft : p ∈ (l :: as) ++ seg := List.mem_append_left _ (List.mem_of_getLast? hp)
  have hfmem : first ∈ seg := List.mem_of_head? hfirst
  have hemem : last ∈ seg := List.mem_of_getLast? hlast
  obtain ⟨hapartLeft, -, -⟩ := List.pairwise_append.mp hapart
  obtain ⟨-, -, hdisj⟩ := List.nodup_append.mp (nodup_of_apart hapart)
  have hqhead : q ≠ l := Ne.symm (hdisj l (by simp) q (List.mem_of_head? hq))
  -- the first part with the range, then both with the rest
  have hjoined : (links (link mem p first)).Linked ((l :: as) ++ seg) := linked_join hapartLeft hp hfirst hleft hseg
  have hrest : (links (link mem p first)).Linked (bs ++ [l + 8]) := by
    refine linked_link hapart (List.mem_append_left _ hpleft) (List.mem_append_left _ (List.mem_append_right _ hfmem))
      (List.subset_append_right ..) hright (fun hmem => ?_) fun hmem => ?_
    · exact hdisj p hpleft p (List.dropLast_subset _ hmem) rfl
    · exact hdisj first (List.mem_append_right _ hfmem) first (List.mem_of_mem_tail hmem) rfl
  have hend : ((l :: as) ++ seg).getLast? = some last := by
    rw [List.getLast?_append, hlast]
    rfl
  refine ⟨⟨by rw [nodes_range]; exact hapart, ?_, ?_, ?_, fun x hx => ?_⟩, fun y hy => ?_⟩
  · rw [nodes_range]
    exact linked_join hapart hend hq hjoined hrest
  · have hlast := haway l head_mem last hemem
    have hfirst := haway l head_mem first hfmem
    unfold Apart at hlast hfirst
    rw [link_of_ne (by omega) (Ne.symm hqhead), link_of_ne (words_ne hapartOld head_mem hpmem).1 (by omega)]
    exact hhead
  · have hlast := haway (l + 8) tail_mem last hemem
    have hfirst := haway (l + 8) tail_mem first hfmem
    have hqword := (words_ne hapartOld hqmem tail_mem).1
    have hptail : p ≠ l + 8 := hdisj p hpleft (l + 8) (by simp)
    unfold Apart at hlast hfirst
    rw [link_of_ne (by omega) (Ne.symm hqword), link_of_ne (by omega) (by omega)]
    exact htail
  · exact hzero x ((nodes_perm l as seg bs).mem_iff.mp hx)
  · have hout (x : ℕ) (hx : x ∈ nodes l (as ++ bs)) := hy x (List.mem_append_left _ hx)
    have hout' (x : ℕ) (hx : x ∈ seg) := hy x (List.mem_append_right _ hx)
    rw [link_of_ne (hout' last hemem).2 (hout q hqmem).1, link_of_ne (hout p hpmem).2 (hout' first hfmem).1]

/-- A range is put in. -/
lemma IsList.paste (h : IsList mem l (as ++ bs)) (hapart : (nodes l (as ++ bs) ++ seg).Pairwise Apart)
    (hseg : (links mem).Linked seg) (hzero : ∀ x ∈ seg, x ≠ 0) (hp : (l :: as).getLast? = some p) (hq : At l bs q)
    {first last : ℕ} (hfirst : seg.head? = some first) (hlast : seg.getLast? = some last) :
    IsList (link (link mem p first) last q) l (as ++ seg ++ bs) ∧
      ∀ y, Outside (nodes l (as ++ bs) ++ seg) y → link (link mem p first) last q y = mem y := by
  have hlinked := h.linked
  rw [nodes_append] at hlinked
  obtain ⟨hleft, hright, -⟩ := Links.linked_append.mp hlinked
  refine isList_join hapart hleft hright hseg h.headPrev h.tailNext (fun x hx => ?_) hp hq hfirst hlast
  rcases List.mem_append.mp hx with hx | hx
  · exact h.ne_zero x hx
  · exact hzero x hx

/-- The writes that put in a range, in the order of the code. -/
lemma writes_eq_link {p q first last : ℕ} (hp : last ≠ p) (hpf : first ≠ p + 4) :
    update (update (update (update mem first p) (last + 4) q) (p + 4) first) q last =
      link (link mem p first) last q := by
  unfold link
  rw [update_comm (show last + 4 ≠ p + 4 by omega), update_comm hpf]

lemma listInsert_eq {p q x : ℕ} (hx : x ≠ 0) (hprev : mem q = p) (hbefore : isInterior mem q ∨ isTail mem q)
    (hp : Apart x p) (hq : Apart x q) : listInsert mem q x = some (link (link mem p x) x q) := by
  unfold Apart at hp hq
  unfold listInsert
  rw [if_pos ⟨hbefore, hx⟩]
  dsimp only
  have hread : update (update mem x (mem q)) (x + 4) q q = p := by
    rw [update_of_ne (by omega), update_of_ne (by omega), hprev]
  rw [hread, hprev, writes_eq_link (by omega) (by omega)]

lemma listRemove_eq {p q x : ℕ} (hx : isInterior mem x) (hprev : mem x = p) (hnext : mem (x + 4) = q) (hp : Apart x p) :
    listRemove mem x = some (link mem p q) := by
  unfold Apart at hp
  unfold listRemove
  rw [if_pos hx]
  dsimp only
  rw [update_of_ne (by omega), update_of_ne (by omega), hprev, hnext]
  rfl

end Positions

/-! ## Elements -/

section Elements

variable {mem : Words} {list q x : ℕ} {xs as bs : List ℕ}

/-- An element is put in before another one, or at the end. -/
lemma IsList.insert (h : IsList mem list (as ++ bs)) (hq : At list bs q) (hx : x ≠ 0)
    (hapart : ∀ z ∈ nodes list (as ++ bs), Apart x z) :
    ∃ mem', listInsert mem q x = some mem' ∧ IsList mem' list (as ++ [x] ++ bs) ∧
      ∀ y, Outside (nodes list (as ++ [x] ++ bs)) y → mem' y = mem y := by
  obtain ⟨p, hp⟩ := exists_last list as
  obtain ⟨-, hprev, -, -, hbefore⟩ := h.position hp hq
  obtain ⟨hpmem, hqmem, -, -⟩ := h.ends hp hq
  have hpairs : (nodes list (as ++ bs) ++ [x]).Pairwise Apart :=
    List.pairwise_append.mpr ⟨h.apart, List.pairwise_singleton .., fun z hz y hy => by
      rw [List.mem_singleton.mp hy]
      exact Or.symm (hapart z hz)⟩
  obtain ⟨hnew, hframe⟩ := h.paste hpairs (List.isChain_singleton x) (by simpa using hx) hp hq rfl rfl
  refine ⟨_, listInsert_eq hx hprev hbefore (hapart p hpmem) (hapart q hqmem), hnew, fun y hy => hframe y fun z hz => ?_⟩
  apply hy z
  rw [mem_nodes]
  rcases List.mem_append.mp hz with hz | hz
  · rw [mem_nodes] at hz
    exact hz.imp_right (Or.imp_left fun hmem => by simpa using (List.mem_append.mp hmem).imp_right Or.inr)
  · exact Or.inr (Or.inl (by simp [List.mem_singleton.mp hz]))

lemma listPushFront_spec (h : IsList mem list xs) (hx : x ≠ 0) (hapart : ∀ z ∈ nodes list xs, Apart x z) :
    ∃ mem', listPushFront mem list x = some mem' ∧ IsList mem' list (x :: xs) ∧
      ∀ y, Outside (nodes list (x :: xs)) y → mem' y = mem y := by
  have h : IsList mem list ([] ++ xs) := h
  obtain ⟨q, hq⟩ := exists_at list xs
  rw [listPushFront, h.begin_eq hq]
  exact h.insert hq hx hapart

lemma listPushBack_spec (h : IsList mem list xs) (hx : x ≠ 0) (hapart : ∀ z ∈ nodes list xs, Apart x z) :
    ∃ mem', listPushBack mem list x = some mem' ∧ IsList mem' list (xs ++ [x]) ∧
      ∀ y, Outside (nodes list (xs ++ [x])) y → mem' y = mem y := by
  rw [← List.append_nil xs] at h hapart
  have hinsert := h.insert (show At list [] (list + 8) from rfl) hx hapart
  rw [List.append_nil] at hinsert
  exact hinsert

/-- The pointers of an element, and what `list_remove` makes of those of its neighbours. -/
lemma IsList.remove (h : IsList mem list (as ++ [x] ++ bs)) (hq : At list bs q) :
    ∃ p, (list :: as).getLast? = some p ∧ mem (x + 4) = q ∧ listRemove mem x = some (link mem p q) := by
  obtain ⟨p, hp⟩ := exists_last list as
  have hlast : (list :: (as ++ [x])).getLast? = some x := by
    rw [← List.cons_append, List.getLast?_concat]
  have hsplit : IsList mem list (as ++ ([x] ++ bs)) := by
    rw [← List.append_assoc]
    exact h
  have hat : At list ([x] ++ bs) x := rfl
  obtain ⟨hnext, -, -, -, -⟩ := h.position hlast hq
  obtain ⟨-, hprev, -, -, -⟩ := hsplit.position hp hat
  obtain ⟨hpmem, hxmem, -, -⟩ := hsplit.ends hp hat
  have hxp : x ≠ p := by
    rintro rfl
    have hnodup := nodup_of_apart hsplit.apart
    rw [nodes_append] at hnodup
    exact (List.nodup_append.mp hnodup).2.2 x (List.mem_of_getLast? hp) x (by simp) rfl
  exact ⟨p, hp, hnext, listRemove_eq (h.interior (by simp)) hprev hnext (hsplit.apart.forall hxmem hpmem hxp)⟩

lemma listRemove_spec (h : IsList mem list xs) (hx : x ∈ xs) :
    ∃ mem', listRemove mem x = some mem' ∧ IsList mem' list (xs.erase x) ∧
      ∀ y, Outside (nodes list xs) y → mem' y = mem y := by
  obtain ⟨as, bs, rfl⟩ := List.append_of_mem hx
  have hnodup := nodup_of_apart h.apart
  have hxas : x ∉ as := by
    rw [nodes, List.nodup_cons, List.nodup_append, List.nodup_append] at hnodup
    exact fun hmem => hnodup.2.1.2.2 x hmem x (List.mem_cons_self ..) rfl
  have hsplit : as ++ x :: bs = as ++ [x] ++ bs := by simp
  rw [List.erase_append_right _ hxas, List.erase_cons_head]
  rw [hsplit] at h ⊢
  obtain ⟨q, hq⟩ := exists_at list bs
  obtain ⟨p, hp, -, hrun⟩ := h.remove hq
  obtain ⟨hnew, -, -, hframe⟩ := h.cut hp hq
  exact ⟨_, hrun, hnew, hframe⟩

/-- The first element is taken out. -/
lemma listPopFront_spec (h : IsList mem list (x :: xs)) :
    ∃ mem', listPopFront mem list = some (mem', x) ∧ IsList mem' list xs ∧
      ∀ y, Outside (nodes list (x :: xs)) y → mem' y = mem y := by
  have hbegin := h.begin_eq (q := x) rfl
  obtain ⟨mem', hremove, hlist, hframe⟩ := listRemove_spec h (List.mem_cons_self ..)
  rw [List.erase_cons_head] at hlist
  refine ⟨mem', ?_, hlist, hframe⟩
  unfold listPopFront
  rw [if_neg (by rw [h.empty_iff]; simp), hbegin, hremove]
  rfl

/-- A new list has no elements. -/
lemma listInit_spec (mem : Words) (hlist : list ≠ 0) :
    IsList (listInit mem list) list [] ∧ ∀ y, y < list ∨ list + 16 ≤ y → listInit mem list y = mem y := by
  have hword (y : ℕ) : listInit mem list y = if y = list + 12 then 0 else if y = list + 8 then list
      else if y = list + 4 then list + 8 else if y = list then 0 else mem y := by
    simp only [listInit, update_apply]
  refine ⟨⟨?_, ?_, ?_, ?_, ?_⟩, fun y hy => ?_⟩
  · simp [nodes, Apart]
  · refine List.isChain_cons_cons.mpr ⟨⟨?_, ?_⟩, List.isChain_singleton _⟩
    · show listInit mem list (list + 4) = list + 8
      simp [hword]
    · show listInit mem list (list + 8) = list
      simp [hword]
  · simp [hword]
  · simp [hword]
  · intro x hx
    rw [mem_nodes] at hx
    simp at hx
    omega
  · rw [hword, if_neg (by omega), if_neg (by omega), if_neg (by omega), if_neg (by omega)]

/-- Following `next` from the head visits the elements in order. -/
lemma IsList.walk (h : IsList mem list xs) {fuel : ℕ} (hfuel : xs.length < fuel) :
    Links.walk (links mem).next (listEnd list) fuel (listBegin mem list) = some xs := by
  refine Links.Linked.walk h.linked (fun hmem => ?_) hfuel
  have hnodup := nodup_of_apart h.apart
  rw [nodes, List.nodup_cons, List.nodup_append] at hnodup
  exact hnodup.2.2.2 _ hmem _ (List.mem_singleton_self _) rfl

end Elements

end OsLabs.LibKernel
